/-
Instinct/ProtoJson.lean

Messages of a proto3 schema, and the JSON mapping that a parser of messages follows.

A value of a message holds for every field of its type the list of the values there: a
repeated field any number, a singular field at most one, where the empty list means that
`HasField` is false.  A field without explicit presence never holds its default value.
`decodeMessage` reads an object back: a field is found by its JSON name or by its own
name, an unknown field or enum name is ignored, null leaves a field unset and is an error
among the items of a repeated field.
-/
import Mathlib.Data.List.Forall2
import Mathlib.Data.List.Nodup
import Mathlib.Algebra.Group.Int.Defs

namespace ProtoJson

/-! ### Schemas -/

inductive IntKind
  | int32 | int64 | uint32 | uint64
  deriving DecidableEq

def IntKind.min : IntKind → Int
  | .int32 => -2 ^ 31
  | .int64 => -2 ^ 63
  | .uint32 | .uint64 => 0

def IntKind.max : IntKind → Int
  | .int32 => 2 ^ 31 - 1
  | .int64 => 2 ^ 63 - 1
  | .uint32 => 2 ^ 32 - 1
  | .uint64 => 2 ^ 64 - 1

def IntKind.holds (k : IntKind) (n : Int) : Bool := k.min ≤ n && n ≤ k.max

/-- An enum type: its values in the order of their declaration, which may give one number
several names. -/
structure EnumType where
  name : String
  values : List (String × Int)
  distinct : (values.map Prod.fst).Nodup

/-- The name that reflection gives for a number: the first name that it has, or one that
is made up for it. -/
def EnumType.valueName (e : EnumType) (n : Int) : String :=
  match e.values.find? fun v => v.2 = n with
  | some v => v.1
  | none => "UNKNOWN_ENUM_VALUE_" ++ e.name ++ "_" ++ toString n

def EnumType.Declares (e : EnumType) (n : Int) : Prop := n ∈ e.values.map Prod.snd

inductive Kind
  | string
  | integer (k : IntKind)
  | bool
  | enum (e : EnumType)
  | message (typeName : String)

/-- How a field stores its presence: a singular field without and with `HasField`, and a
repeated field. -/
inductive Label
  | implicit | explicit | repeated
  deriving DecidableEq

structure FieldDescriptor where
  name : String
  label : Label
  kind : Kind
  oneof : Option String

def camelCase : Bool → List Char → List Char
  | _, [] => []
  | upper, c :: cs =>
    if c = '_' then camelCase true cs
    else (if upper then c.toUpper else c) :: camelCase false cs

def FieldDescriptor.jsonName (f : FieldDescriptor) : String :=
  String.ofList (camelCase false f.name.toList)

/-- A message type.  No two fields of a proto3 message have the same JSON name. -/
structure MessageType where
  fields : List FieldDescriptor
  /-- The type has a JSON form of its own, such as a timestamp or a wrapper, and no
  object is accepted for it. -/
  ownJsonForm : Bool
  distinct : (fields.map (·.jsonName)).Nodup

/-- The message types by their full names. -/
abbrev Schema := String → MessageType

/-! ### Values -/

inductive Value
  | string (s : String)
  | int (n : Int)
  | bool (b : Bool)
  | enum (n : Int)
  | message (fields : List (List Value))

def Value.isZero : Value → Bool
  | .string s => s = ""
  | .int n => n = 0
  | .bool b => !b
  | .enum n => n = 0
  | .message _ => false

/-- What the label of a field lets it hold. -/
def FieldDescriptor.allows (f : FieldDescriptor) (vs : List Value) : Bool :=
  match f.label with
  | .repeated => true
  | .explicit => vs.length ≤ 1
  | .implicit => vs.length ≤ 1 && vs.all fun v => !v.isZero

/-- The oneofs of the fields that are set. -/
def setOneofs (fields : List (FieldDescriptor × List Value)) : List String :=
  (fields.filter fun p => !p.2.isEmpty).filterMap (·.1.oneof)

mutual

def Value.hasKind (schema : Schema) : Kind → Value → Bool
  | .string, .string _ => true
  | .integer k, .int n => k.holds n
  | .bool, .bool _ => true
  | .enum _, .enum n => IntKind.int32.holds n
  | .message t, .message fields =>
    fieldsHaveKinds schema (schema t).fields fields &&
      decide (setOneofs ((schema t).fields.zip fields)).Nodup
  | _, _ => false

def itemsHaveKind (schema : Schema) : Kind → List Value → Bool
  | _, [] => true
  | k, v :: vs => v.hasKind schema k && itemsHaveKind schema k vs

def fieldsHaveKinds (schema : Schema) : List FieldDescriptor → List (List Value) → Bool
  | [], [] => true
  | f :: fs, vs :: vss =>
    itemsHaveKind schema f.kind vs && f.allows vs && fieldsHaveKinds schema fs vss
  | _, _ => false

end

/-- A message of a type: it holds values of the right kinds. -/
structure Message (schema : Schema) (t : String) where
  fields : List (List Value)
  hasKind : (Value.message fields).hasKind schema (.message t) = true

/-! ### JSON -/

inductive Json
  | null
  | bool (b : Bool)
  | number (n : Int)
  | string (s : String)
  | array (items : List Json)
  | object (members : List (String × Json))

def Json.isNull : Json → Bool
  | .null => true
  | _ => false

/-- The number of a name, which is looked up as it is and then without regard to case. -/
def EnumType.findValueByName (e : EnumType) (name : String) : Option Int :=
  ((e.values.find? fun v => v.1 = name).or
    (e.values.find? fun v => v.1.toLower = name.toLower)).map Prod.snd

def MessageType.findField (t : MessageType) (name : String) : Option FieldDescriptor :=
  (t.fields.find? fun f => f.jsonName = name).or (t.fields.find? fun f => f.name = name)

/-- The value in a JSON value for a scalar field.  `some []` is a value that is ignored,
`none` an error. -/
def decodeScalar : Kind → Json → Option (List Value)
  | .string, .string s => some [.string s]
  | .integer k, .number n => if k.holds n then some [.int n] else none
  | .integer k, .string s =>
    s.toInt?.bind fun n => if k.holds n then some [.int n] else none
  | .bool, .bool b => some [.bool b]
  | .enum e, .string s => some ((e.findValueByName s).map Value.enum).toList
  | .enum _, .number n => if IntKind.int32.holds n then some [.enum n] else none
  | _, _ => none

/-- What a field holds after it was set: a field without explicit presence holds no
default value. -/
def FieldDescriptor.stored (f : FieldDescriptor) (vs : List Value) : List Value :=
  match f.label with
  | .implicit => vs.filter fun v => !v.isZero
  | _ => vs

/-- The fields of a message with the values that were found for them. -/
def MessageType.assemble (t : MessageType) (found : List (FieldDescriptor × List Value)) :
    Option (List (List Value)) :=
  if (setOneofs found).Nodup then
    some (t.fields.map fun f =>
      f.stored (((found.find? fun p => p.1.name = f.name).map Prod.snd).getD []))
  else none

mutual

def decodeValue (schema : Schema) : Kind → Json → Option (List Value)
  | _, .null => some []
  | .message t, .object members =>
    if (schema t).ownJsonForm then none
    else ((decodeMembers schema (schema t) members).bind (schema t).assemble).map
      fun fields => [.message fields]
  | k, j => decodeScalar k j

def decodeItems (schema : Schema) : Kind → List Json → Option (List Value)
  | _, [] => some []
  | k, j :: rest =>
    if j.isNull then none
    else (decodeValue schema k j).bind fun vs =>
      (decodeItems schema k rest).map fun more => vs ++ more

def decodeMembers (schema : Schema) (t : MessageType) :
    List (String × Json) → Option (List (FieldDescriptor × List Value))
  | [] => some []
  | (name, j) :: rest =>
    match t.findField name with
    | none => decodeMembers schema t rest
    | some f =>
      (match f.label with
        | .repeated =>
          match j with
          | .null => some []
          | .array items => decodeItems schema f.kind items
          | _ => none
        | _ => decodeValue schema f.kind j).bind fun vs =>
      (decodeMembers schema t rest).map fun found => (f, vs) :: found

end

/-- A whole message.  What the mapping leaves open is whether null stands for the message
in which nothing is set, or for none. -/
def parseMessage (nullRoot : Bool) (schema : Schema) (t : String) :
    Json → Option (List (List Value))
  | .null => if nullRoot then some ((schema t).fields.map fun _ => []) else none
  | .object members =>
    if (schema t).ownJsonForm then none
    else (decodeMembers schema (schema t) members).bind (schema t).assemble
  | _ => none

/-! ### Values by induction -/

/-- Induction over the values, where a message has its statement from those of all the
values in its fields. -/
@[elab_as_elim]
theorem Value.nested_induction {motive : Value → Prop}
    (string : ∀ s, motive (.string s)) (int : ∀ n, motive (.int n))
    (bool : ∀ b, motive (.bool b)) (enum : ∀ n, motive (.enum n))
    (message : ∀ fields, (∀ vs ∈ fields, ∀ v ∈ vs, motive v) → motive (.message fields))
    (v : Value) : motive v := by
  refine @Value.rec motive (fun fields => ∀ vs ∈ fields, ∀ v ∈ vs, motive v)
    (fun vs => ∀ v ∈ vs, motive v) string int bool enum message ?_ ?_ ?_ ?_ v
  · intro vs hvs
    cases hvs
  · intro vs fields hvs hfields
    simpa using ⟨hvs, hfields⟩
  · intro v hv
    cases hv
  · intro v vs hv hvs
    simpa using ⟨hv, hvs⟩

variable {schema : Schema}

theorem itemsHaveKind_iff {k : Kind} {vs : List Value} :
    itemsHaveKind schema k vs = true ↔ ∀ v ∈ vs, v.hasKind schema k = true := by
  induction vs with
  | nil => simp [itemsHaveKind]
  | cons v vs ih => simp [itemsHaveKind, ih]

/-- The values are such that the field can hold them. -/
def FieldDescriptor.Fits (schema : Schema) (f : FieldDescriptor) (vs : List Value) : Prop :=
  (∀ v ∈ vs, v.hasKind schema f.kind = true) ∧ f.allows vs = true

theorem fieldsHaveKinds_iff {fs : List FieldDescriptor} {vss : List (List Value)} :
    fieldsHaveKinds schema fs vss = true ↔
      List.Forall₂ (FieldDescriptor.Fits schema) fs vss := by
  induction fs generalizing vss with
  | nil => cases vss <;> simp [fieldsHaveKinds]
  | cons f fs ih =>
    cases vss with
    | nil => simp [fieldsHaveKinds]
    | cons vs vss =>
      simp [fieldsHaveKinds, ih, itemsHaveKind_iff, FieldDescriptor.Fits, and_assoc]

theorem FieldDescriptor.stored_of_allows {f : FieldDescriptor} {vs : List Value}
    (h : f.allows vs = true) : f.stored vs = vs := by
  unfold FieldDescriptor.allows at h
  unfold FieldDescriptor.stored
  cases hl : f.label with
  | implicit => simp_all
  | explicit => rfl
  | repeated => rfl

theorem FieldDescriptor.length_le_one_of_allows {f : FieldDescriptor} {vs : List Value}
    (h : f.allows vs = true) (hf : f.label ≠ .repeated) : vs.length ≤ 1 := by
  unfold FieldDescriptor.allows at h
  cases hl : f.label with
  | implicit => simp_all
  | explicit => simp_all
  | repeated => exact absurd hl hf

@[simp] theorem FieldDescriptor.stored_nil (f : FieldDescriptor) : f.stored [] = [] := by
  unfold FieldDescriptor.stored
  cases f.label <;> rfl

/-! ### Names of fields -/

theorem toUpper_ne_underscore {c : Char} (h : c ≠ '_') : c.toUpper ≠ '_' := by
  unfold Char.toUpper
  split
  · rename_i hc
    intro heq
    rw [Char.ext_iff, ← UInt32.eq_sub_iff_add_eq] at heq
    rw [heq] at hc
    exact absurd hc.2 (by decide)
  · exact h

theorem underscore_notMem_camelCase (upper : Bool) (cs : List Char) :
    '_' ∉ camelCase upper cs := by
  induction cs generalizing upper with
  | nil => simp [camelCase]
  | cons c cs ih =>
    by_cases hc : c = '_'
    · simpa [camelCase, hc] using ih true
    · cases upper with
      | true => simpa [camelCase, hc, ih] using (toUpper_ne_underscore hc).symm
      | false => simpa [camelCase, hc, ih] using Ne.symm hc

theorem camelCase_eq_self {cs : List Char} (h : '_' ∉ cs) : camelCase false cs = cs := by
  induction cs with
  | nil => rfl
  | cons c cs ih =>
    obtain ⟨hc, hcs⟩ := List.ne_and_not_mem_of_not_mem_cons h
    simp [camelCase, Ne.symm hc, ih hcs]

/-- With distinct keys, an element is found by its key. -/
theorem find?_key {α : Type} {key : α → String} {l : List α} (hl : (l.map key).Nodup)
    {a : α} (ha : a ∈ l) : (l.find? fun b => key b = key a) = some a := by
  cases hfind : l.find? fun b => key b = key a with
  | none => exact absurd (List.find?_eq_none.mp hfind a ha) (by simp)
  | some b =>
    have hb : key b = key a := by simpa using List.find?_some hfind
    rw [List.inj_on_of_nodup_map hl (List.mem_of_find?_eq_some hfind) ha hb]

/-- A name that is a JSON name is its own JSON name. -/
theorem FieldDescriptor.jsonName_eq_of_name_eq {f g : FieldDescriptor}
    (h : g.jsonName = f.name) : f.jsonName = g.jsonName := by
  unfold FieldDescriptor.jsonName at h ⊢
  rw [← h, String.toList_ofList,
    camelCase_eq_self (underscore_notMem_camelCase false g.name.toList)]

theorem MessageType.eq_of_jsonName_eq {t : MessageType} {f g : FieldDescriptor}
    (hf : f ∈ t.fields) (hg : g ∈ t.fields) (h : f.jsonName = g.jsonName) : f = g :=
  List.inj_on_of_nodup_map t.distinct hf hg h

theorem MessageType.nodup_names (t : MessageType) : (t.fields.map (·.name)).Nodup := by
  refine List.Nodup.of_map (fun name => String.ofList (camelCase false name.toList)) ?_
  rw [List.map_map]
  exact t.distinct

/-- Every field is found by its own name: no other field has it for its JSON name. -/
theorem MessageType.findField_name {t : MessageType} {f : FieldDescriptor}
    (hf : f ∈ t.fields) : t.findField f.name = some f := by
  unfold MessageType.findField
  cases hfind : t.fields.find? fun g => g.jsonName = f.name with
  | some g =>
    have hg : g.jsonName = f.name := by simpa using List.find?_some hfind
    rw [t.eq_of_jsonName_eq hf (List.mem_of_find?_eq_some hfind)
      (FieldDescriptor.jsonName_eq_of_name_eq hg), Option.some_or]
  | none =>
    rw [Option.none_or, find?_key t.nodup_names hf]

/-! ### Decoding what was written -/

theorem EnumType.findValueByName_valueName_iff {e : EnumType} {n : Int} :
    e.findValueByName (e.valueName n) = some n ↔ e.Declares n := by
  constructor
  · intro h
    obtain ⟨v, hv, rfl⟩ := Option.map_eq_some_iff.mp h
    refine List.mem_map.mpr ⟨v, ?_, rfl⟩
    rcases Option.or_eq_some_iff.mp hv with hv | ⟨-, hv⟩
    · exact List.mem_of_find?_eq_some hv
    · exact List.mem_of_find?_eq_some hv
  · intro h
    unfold EnumType.valueName
    cases hfind : e.values.find? fun v => v.2 = n with
    | none =>
      obtain ⟨v, hv, hvn⟩ := List.mem_map.mp h
      exact absurd (List.find?_eq_none.mp hfind v hv) (by simpa using hvn)
    | some v =>
      have hv : v.2 = n := by simpa using List.find?_some hfind
      dsimp only
      rw [EnumType.findValueByName, find?_key e.distinct (List.mem_of_find?_eq_some hfind),
        Option.some_or, Option.map_some, hv]

theorem length_le_one_of_decodeScalar {k : Kind} {j : Json} {vs : List Value}
    (h : decodeScalar k j = some vs) : vs.length ≤ 1 := by
  unfold decodeScalar at h
  split at h <;> grind [Option.bind_eq_some_iff]

theorem length_le_one_of_decodeValue {k : Kind} {j : Json} {vs : List Value}
    (h : decodeValue schema k j = some vs) : vs.length ≤ 1 := by
  unfold decodeValue at h
  split at h
  · cases h
    exact Nat.zero_le 1
  · split at h
    · cases h
    · obtain ⟨fields, -, rfl⟩ := Option.map_eq_some_iff.mp h
      exact Nat.le_refl 1
  · exact length_le_one_of_decodeScalar h

/-- A message in a field is read as a whole one is. -/
theorem decodeValue_object (nullRoot : Bool) (t : String) (members : List (String × Json)) :
    decodeValue schema (.message t) (.object members) =
      (parseMessage nullRoot schema t (.object members)).map
        fun fields => [.message fields] := by
  rw [decodeValue, parseMessage]
  split <;> rfl

theorem decodeItems_cons_eq_some_iff {k : Kind} {j : Json} {rest : List Json}
    {vs : List Value} :
    decodeItems schema k (j :: rest) = some vs ↔ j.isNull = false ∧
      ∃ front more, decodeValue schema k j = some front ∧
        decodeItems schema k rest = some more ∧ front ++ more = vs := by
  rw [decodeItems]
  cases hj : j.isNull with
  | true => simp
  | false => simp [Option.bind_eq_some_iff, Option.map_eq_some_iff]

theorem length_le_of_decodeItems {k : Kind} {js : List Json} {vs : List Value}
    (h : decodeItems schema k js = some vs) : vs.length ≤ js.length := by
  induction js generalizing vs with
  | nil =>
    rw [decodeItems] at h
    cases h
    exact Nat.le_refl 0
  | cons j rest ih =>
    obtain ⟨-, front, more, hfront, hmore, rfl⟩ := decodeItems_cons_eq_some_iff.mp h
    have h₁ := length_le_one_of_decodeValue hfront
    have h₂ := ih hmore
    simp only [List.length_append, List.length_cons]
    omega

/-- No item can take the place of another one: an item gives at most one value. -/
theorem decodeItems_map_iff {k : Kind} {write : Value → Json} {vs : List Value} :
    decodeItems schema k (vs.map write) = some vs ↔
      ∀ v ∈ vs, decodeValue schema k (write v) = some [v] := by
  induction vs with
  | nil => simp [decodeItems]
  | cons v vs ih =>
    rw [List.map_cons, decodeItems_cons_eq_some_iff, List.forall_mem_cons, ← ih]
    constructor
    · rintro ⟨-, front, more, hfront, hmore, heq⟩
      -- so many values in all, and at most one from each item: exactly one from this one
      have h₁ := length_le_one_of_decodeValue hfront
      have h₂ := length_le_of_decodeItems hmore
      have h₃ := congrArg List.length heq
      simp only [List.length_append, List.length_map, List.length_cons] at h₂ h₃
      have hlen : front.length = [v].length := by
        simp only [List.length_singleton]
        omega
      obtain ⟨rfl, rfl⟩ := List.append_inj heq hlen
      exact ⟨hfront, hmore⟩
    · rintro ⟨hv, hvs⟩
      refine ⟨?_, [v], vs, hv, hvs, rfl⟩
      cases hj : write v with
      | null => simp [hj, decodeValue] at hv
      | _ => rfl

/-- The values that a member gives for a field. -/
def decodeField (schema : Schema) (f : FieldDescriptor) (j : Json) : Option (List Value) :=
  match f.label with
  | .repeated =>
    match j with
    | .null => some []
    | .array items => decodeItems schema f.kind items
    | _ => none
  | _ => decodeValue schema f.kind j

/-- A field that is set has exactly the values that were read for it. -/
theorem eq_of_stored_eq {f : FieldDescriptor} {j : Json} {read vs : List Value}
    (hread : decodeField schema f j = some read) (hstored : f.stored read = vs)
    (hvs : vs ≠ []) : read = vs := by
  unfold FieldDescriptor.stored at hstored
  cases hl : f.label with
  | implicit =>
    simp only [hl] at hstored
    unfold decodeField at hread
    simp only [hl] at hread
    have hlen := length_le_one_of_decodeValue hread
    match read, hlen with
    | [], _ => exact hstored
    | [v], _ =>
      by_cases hv : v.isZero
      · exact absurd (by simpa [hv] using hstored.symm) hvs
      · simpa [hv] using hstored
  | explicit => simpa [hl] using hstored
  | repeated => simpa [hl] using hstored

theorem decodeMembers_cons {t : MessageType} {f : FieldDescriptor} (hf : f ∈ t.fields)
    (j : Json) (rest : List (String × Json)) :
    decodeMembers schema t ((f.name, j) :: rest) =
      (decodeField schema f j).bind fun vs =>
        (decodeMembers schema t rest).map fun found => (f, vs) :: found := by
  rw [decodeMembers, MessageType.findField_name hf]
  rfl

/-- Members that are written under the names of fields are read one by one. -/
theorem decodeMembers_map_eq_some_iff {t : MessageType}
    {members : List (FieldDescriptor × Json)} (hmembers : ∀ p ∈ members, p.1 ∈ t.fields)
    {found : List (FieldDescriptor × List Value)} :
    decodeMembers schema t (members.map fun p => (p.1.name, p.2)) = some found ↔
      List.Forall₂ (fun p q => q.1 = p.1 ∧ decodeField schema p.1 p.2 = some q.2)
        members found := by
  induction members generalizing found with
  | nil => simp [decodeMembers, eq_comm]
  | cons p members ih =>
    obtain ⟨hp, hrest⟩ := List.forall_mem_cons.mp hmembers
    rw [List.map_cons, decodeMembers_cons hp, List.forall₂_cons_left_iff]
    simp only [Option.bind_eq_some_iff, Option.map_eq_some_iff, ih hrest]
    constructor
    · rintro ⟨vs, hvs, rest, hrest, rfl⟩
      exact ⟨(p.1, vs), rest, ⟨rfl, hvs⟩, hrest, rfl⟩
    · rintro ⟨q, rest, ⟨hq, hvs⟩, hrest, rfl⟩
      exact ⟨q.2, hvs, rest, hrest, by rw [← hq]⟩

/-- The fields of a message that are set, each with what is written for it. -/
def writtenFields (write : FieldDescriptor → List Value → Json)
    (fields : List (FieldDescriptor × List Value)) : List (FieldDescriptor × Json) :=
  (fields.filter fun p => !p.2.isEmpty).map fun p => (p.1, write p.1 p.2)

theorem setOneofs_filter (fields : List (FieldDescriptor × List Value)) :
    setOneofs (fields.filter fun p => !p.2.isEmpty) = setOneofs fields := by
  simp [setOneofs]

theorem exists_mem_of_forall₂ {α β : Type} {R : α → β → Prop} {as : List α} {bs : List β}
    (h : List.Forall₂ R as bs) {a : α} (ha : a ∈ as) : ∃ b ∈ bs, R a b := by
  induction h with
  | nil => cases ha
  | cons hab _ ih =>
    cases ha with
    | head => exact ⟨_, List.mem_cons_self, hab⟩
    | tail _ ha =>
      obtain ⟨b, hb, hab⟩ := ih ha
      exact ⟨b, List.mem_cons_of_mem _ hb, hab⟩

theorem names_eq_of_forall₂ {members : List (FieldDescriptor × Json)}
    {found : List (FieldDescriptor × List Value)}
    (h : List.Forall₂ (fun p q => q.1 = p.1 ∧ decodeField schema p.1 p.2 = some q.2)
      members found) : found.map (·.1.name) = members.map (·.1.name) := by
  induction h with
  | nil => rfl
  | cons hpq _ ih => rw [List.map_cons, List.map_cons, ih, hpq.1]

section Assembling

variable {t : MessageType} {vss : List (List Value)}
  (hfit : List.Forall₂ (FieldDescriptor.Fits schema) t.fields vss)
  {write : FieldDescriptor → List Value → Json}

include hfit

theorem nodup_names_zip : ((t.fields.zip vss).map (·.1.name)).Nodup := by
  have hmap : (t.fields.zip vss).map (·.1.name) = t.fields.map (·.name) := by
    have hfst : (t.fields.zip vss).map Prod.fst = t.fields :=
      List.map_fst_zip (Nat.le_of_eq hfit.length_eq)
    calc
      (t.fields.zip vss).map (·.1.name) = ((t.fields.zip vss).map Prod.fst).map (·.name) := by
        rw [List.map_map]
        rfl
      _ = t.fields.map (·.name) := by rw [hfst]
  rw [hmap]
  exact t.nodup_names

theorem map_eq_iff_zip {read : FieldDescriptor → List Value} :
    t.fields.map read = vss ↔ ∀ p ∈ t.fields.zip vss, read p.1 = p.2 := by
  rw [← List.forall₂_eq_eq_eq, List.forall₂_map_left_iff, List.forall₂_iff_zip]
  simp [hfit.length_eq]

theorem fits_of_mem_zip {p : FieldDescriptor × List Value} (hp : p ∈ t.fields.zip vss) :
    p.1 ∈ t.fields ∧ p.1.Fits schema p.2 :=
  ⟨(List.of_mem_zip hp).1, List.forall₂_zip hfit hp⟩

/-- A message whose set fields are written under their names is read back if and only if
each of these fields is. -/
theorem decode_written_iff (honeofs : (setOneofs (t.fields.zip vss)).Nodup) :
    (decodeMembers schema t ((writtenFields write (t.fields.zip vss)).map
        fun p => (p.1.name, p.2))).bind t.assemble = some vss ↔
      ∀ p ∈ t.fields.zip vss, p.2 ≠ [] →
        decodeField schema p.1 (write p.1 p.2) = some p.2 := by
  have hmembers : ∀ p ∈ writtenFields write (t.fields.zip vss), p.1 ∈ t.fields := by
    intro p hp
    obtain ⟨q, hq, rfl⟩ := List.mem_map.mp hp
    exact (fits_of_mem_zip hfit (List.mem_of_mem_filter hq)).1
  constructor
  -- the values stored for a field are those of the one member with its name
  · intro h p hp hset
    obtain ⟨found, hfound, hvss⟩ := Option.bind_eq_some_iff.mp h
    rw [decodeMembers_map_eq_some_iff hmembers] at hfound
    have hnodup : (found.map (·.1.name)).Nodup := by
      rw [names_eq_of_forall₂ hfound, writtenFields, List.map_map]
      exact (List.filter_sublist.map _).nodup (nodup_names_zip hfit)
    have hwritten : (p.1, write p.1 p.2) ∈ writtenFields write (t.fields.zip vss) :=
      List.mem_map.mpr ⟨p, List.mem_filter.mpr ⟨hp, by simpa using hset⟩, rfl⟩
    obtain ⟨q, hq, hqp, hread⟩ := exists_mem_of_forall₂ hfound hwritten
    unfold MessageType.assemble at hvss
    split at hvss
    · have hstored := (map_eq_iff_zip hfit).mp (Option.some.inj hvss) p hp
      dsimp only at hqp hread
      rw [← hqp, find?_key hnodup hq, hqp] at hstored
      rw [hread, eq_of_stored_eq hread hstored hset]
    · cases hvss
  -- what is found are the fields that are set, each with its own values
  · intro h
    rw [Option.bind_eq_some_iff]
    refine ⟨(t.fields.zip vss).filter fun p => !p.2.isEmpty, ?_, ?_⟩
    · rw [decodeMembers_map_eq_some_iff hmembers, writtenFields, List.forall₂_map_left_iff,
        List.forall₂_same]
      intro p hp
      obtain ⟨hp, hset⟩ := List.mem_filter.mp hp
      exact ⟨rfl, h p hp (by simpa using hset)⟩
    · have hnodup : (((t.fields.zip vss).filter fun p => !p.2.isEmpty).map (·.1.name)).Nodup :=
        (List.filter_sublist.map _).nodup (nodup_names_zip hfit)
      unfold MessageType.assemble
      rw [if_pos (by rwa [setOneofs_filter]), Option.some_inj, map_eq_iff_zip hfit]
      intro p hp
      by_cases hset : p.2 = []
      · have hnone : ((t.fields.zip vss).filter fun p => !p.2.isEmpty).find?
            (fun q => q.1.name = p.1.name) = none := by
          rw [List.find?_eq_none]
          intro q hq hname
          obtain ⟨hq, hqset⟩ := List.mem_filter.mp hq
          rw [List.inj_on_of_nodup_map (nodup_names_zip hfit) hq hp (by simpa using hname),
            hset] at hqset
          cases hqset
        rw [hnone, hset]
        exact p.1.stored_nil
      · rw [find?_key hnodup (List.mem_filter.mpr ⟨hp, by simpa using hset⟩)]
        exact FieldDescriptor.stored_of_allows (fits_of_mem_zip hfit hp).2.2

end Assembling

end ProtoJson
