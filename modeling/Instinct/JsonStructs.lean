/-
Instinct/JsonStructs.lean

The well-known type `Struct` of protocol buffers and its JSON mapping, as a small
library of its own.

A struct is a map of values, each of one of six kinds or of none.  Its JSON form is a
plain JSON value, so that reading one back cannot fail (`ofJson`).  Numbers are
rational: a number that is not finite has no JSON form.
-/
import Mathlib.Data.Rat.Defs

namespace JsonStructs

/-! ### JSON -/

inductive Json
  | null
  | bool (b : Bool)
  | number (x : Rat)
  | string (s : String)
  | array (items : List Json)
  | object (members : List (String × Json))

/-- An object, or null where there is no member. -/
def Json.ofMembers : List (String × Json) → Json
  | [] => .null
  | members => .object members

/-- `is_array() || is_object()`. -/
def Json.isComposite : Json → Bool
  | .array _ => true
  | .object _ => true
  | _ => false

/-! ### Structs -/

/-- A value of a struct.  In `unset` the oneof has no case, and a number that is not finite is
`none`. -/
inductive StructValue
  | unset
  | null
  | number (x : Option Rat)
  | string (s : String)
  | bool (b : Bool)
  | struct (fields : List (String × StructValue))
  | list (items : List StructValue)

/-- A struct, by the entries of its map. -/
abbrev Struct : Type := List (String × StructValue)

mutual

def ofJson : Json → StructValue
  | .null => .null
  | .bool b => .bool b
  | .number x => .number (some x)
  | .string s => .string s
  | .array items => .list (ofItems items)
  | .object members => .struct (ofMembers members)

def ofItems : List Json → List StructValue
  | [] => []
  | item :: items => ofJson item :: ofItems items

def ofMembers : List (String × Json) → Struct
  | [] => []
  | (name, value) :: members => (name, ofJson value) :: ofMembers members

end

mutual

/-- The JSON value that a value stands for.  A number that is not finite is null, as it has no
JSON form. -/
def StructValue.toJson : StructValue → Json
  | .unset => .null
  | .null => .null
  | .number x => x.elim .null .number
  | .string s => .string s
  | .bool b => .bool b
  | .struct fields => .object (toMembers fields)
  | .list items => .array (toItems items)

def toItems : List StructValue → List Json
  | [] => []
  | item :: items => item.toJson :: toItems items

/-- The members of the object that a struct stands for. -/
def toMembers : List (String × StructValue) → List (String × Json)
  | [] => []
  | (name, value) :: fields => (name, value.toJson) :: toMembers fields

end

/-- Every oneof in the value has a case. -/
inductive StructValue.KindSet : StructValue → Prop
  | null : KindSet .null
  | number (x : Option Rat) : KindSet (.number x)
  | string (s : String) : KindSet (.string s)
  | bool (b : Bool) : KindSet (.bool b)
  | struct (fields : Struct) : (∀ p ∈ fields, KindSet p.2) → KindSet (.struct fields)
  | list (items : List StructValue) : (∀ v ∈ items, KindSet v) → KindSet (.list items)

/-- A whole struct: only an object is one. -/
def parseStruct : Json → Option Struct
  | .object members => some (ofMembers members)
  | _ => none

theorem length_ofMembers (members : List (String × Json)) :
    (ofMembers members).length = members.length := by
  induction members with
  | nil => rfl
  | cons member members ih => rw [ofMembers, List.length_cons, List.length_cons, ih]

/-- Induction over the values, where a struct and a list have their statement from those of
the values in them. -/
@[elab_as_elim]
theorem StructValue.nested_induction {motive : StructValue → Prop} (unset : motive .unset)
    (null : motive .null) (number : ∀ x, motive (.number x)) (string : ∀ s, motive (.string s))
    (bool : ∀ b, motive (.bool b))
    (struct : ∀ fields, (∀ p ∈ fields, motive p.2) → motive (.struct fields))
    (list : ∀ items, (∀ v ∈ items, motive v) → motive (.list items))
    (v : StructValue) : motive v := by
  refine @StructValue.rec motive (fun fields => ∀ p ∈ fields, motive p.2)
    (fun items => ∀ v ∈ items, motive v) (fun p => motive p.2) unset null number string bool
    struct list ?_ ?_ ?_ ?_ ?_ v
  · exact fun p hp => absurd hp List.not_mem_nil
  · intro p fields hp hfields
    exact List.forall_mem_cons.mpr ⟨hp, hfields⟩
  · exact fun v hv => absurd hv List.not_mem_nil
  · intro v items hv hitems
    exact List.forall_mem_cons.mpr ⟨hv, hitems⟩
  · exact fun _ _ hv => hv

end JsonStructs
