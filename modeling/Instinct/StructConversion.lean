/-
Instinct/StructConversion.lean

`ProtobufUtils` on the well-known type `Struct`: the way into JSON, which is the code's
own, and which structs the parser of the library reads back as they were.

A JSON value is null until something is assigned to it, so that an empty struct is written
as null, and an empty list too.  The items of a list are read off the wrong message.  So a
struct becomes the object that it stands for if and only if there is no list in it and no
struct without an entry (`convertsTo_iff`).
-/
import Instinct.Core
import Instinct.JsonStructs

namespace Instinct.StructConversion

open JsonStructs

/-! ### `ProtobufUtils` on a struct -/

mutual

/-- `convert_protobuf_struct_value_to_json_object`: what is written, if anything is.  An item of
a list is read off the wrong message. -/
def convertStructValue : StructValue → Except Exn (Option Json)
  | .unset => .ok none
  | .null => .ok (some .null)
  | .number x => .ok (some (x.elim .null .number))
  | .string s => .ok (some (.string s))
  | .bool b => .ok (some (.bool b))
  | .struct fields => do
      let members ← convertStruct fields
      pure (some (.ofMembers members))
  | .list [] => .ok (some .null)
  | .list (_ :: _) => .error (.undefinedBehaviour "GetRepeatedMessage(value_message, …)")

/-- `convert_protobuf_struct_to_json_object`: the members. -/
def convertStruct : List (String × StructValue) → Except Exn (List (String × Json))
  | [] => .ok []
  | (name, value) :: fields => do
      let json? ← convertStructValue value
      let members ← convertStruct fields
      pure (json?.elim members fun json => (name, json) :: members)

end

/-! ### Which structs come back -/

/-- A value of a struct that is read back: it is of a kind, no list, a number only where it is
finite, and a struct only with entries, all of which are read back. -/
inductive Readable : StructValue → Prop
  | null : Readable .null
  | number (x : Rat) : Readable (.number (some x))
  | string (s : String) : Readable (.string s)
  | bool (b : Bool) : Readable (.bool b)
  | struct (fields : Struct) : fields ≠ [] → (∀ p ∈ fields, Readable p.2) →
      Readable (.struct fields)

/-- A struct is written entry by entry, those without a kind apart. -/
theorem convertStruct_cons {name : String} {value : StructValue} {fields : Struct}
    {members : List (String × Json)}
    (h : convertStruct ((name, value) :: fields) = .ok members) :
    ∃ json? rest, convertStructValue value = .ok json? ∧ convertStruct fields = .ok rest ∧
      members = json?.elim rest fun json => (name, json) :: rest := by
  rw [convertStruct] at h
  obtain ⟨json?, hvalue, h⟩ := checks_eq_ok.mp h
  obtain ⟨rest, hrest, h⟩ := checks_eq_ok.mp h
  exact ⟨json?, rest, hvalue, hrest, (Except.ok.inj h).symm⟩

theorem length_convertStruct {fields : Struct} {members : List (String × Json)}
    (h : convertStruct fields = .ok members) : members.length ≤ fields.length := by
  induction fields generalizing members with
  | nil =>
      rw [convertStruct] at h
      obtain rfl := Except.ok.inj h
      exact Nat.le_refl 0
  | cons field fields ih =>
      obtain ⟨json?, rest, -, hrest, rfl⟩ := convertStruct_cons h
      have hle := ih hrest
      cases json? with
      | none => exact Nat.le_succ_of_le hle
      | some json => exact Nat.succ_le_succ hle

/-- The entries come back if and only if every value does. -/
theorem ofMembers_convertStruct_iff {fields : Struct}
    {members : List (String × Json)} (h : convertStruct fields = .ok members)
    (hvalues : ∀ p ∈ fields, ∀ json?, convertStructValue p.2 = .ok json? →
      (json?.map ofJson = some p.2 ↔ Readable p.2)) :
    ofMembers members = fields ↔ ∀ p ∈ fields, Readable p.2 := by
  induction fields generalizing members with
  | nil =>
      rw [convertStruct] at h
      obtain rfl := Except.ok.inj h
      exact iff_of_true rfl fun p hp => absurd hp List.not_mem_nil
  | cons field fields ih =>
      obtain ⟨hvalue, hvalues⟩ := List.forall_mem_cons.mp hvalues
      obtain ⟨json?, rest, hjson, hrest, rfl⟩ := convertStruct_cons h
      rw [List.forall_mem_cons, ← hvalue json? hjson, ← ih hrest hvalues]
      cases json? with
      | none =>
          -- an entry is missing
          refine iff_of_false (fun heq => ?_) nofun
          have hlength := congrArg List.length heq
          rw [length_ofMembers, List.length_cons] at hlength
          have hle := length_convertStruct hrest
          simp only [Option.elim_none] at hlength
          omega
      | some json =>
          simp only [Option.elim_some, ofMembers, List.cons.injEq, Option.map_some,
            Option.some.injEq]
          exact and_congr_left fun _ => ⟨fun heq => congrArg Prod.snd heq, fun heq => by rw [heq]⟩

/-- A value comes back if and only if it is readable, by induction over the values in it. -/
theorem ofJson_convertStructValue_iff (value : StructValue) :
    ∀ json?, convertStructValue value = .ok json? →
      (json?.map ofJson = some value ↔ Readable value) := by
  induction value using StructValue.nested_induction with
  | unset =>
      intro json? h
      obtain rfl := Except.ok.inj h
      exact iff_of_false nofun nofun
  | null =>
      intro json? h
      obtain rfl := Except.ok.inj h
      exact iff_of_true rfl .null
  | number x =>
      intro json? h
      obtain rfl := Except.ok.inj h
      cases x with
      | none => exact iff_of_false nofun nofun
      | some x => exact iff_of_true rfl (.number x)
  | string s =>
      intro json? h
      obtain rfl := Except.ok.inj h
      exact iff_of_true rfl (.string s)
  | bool b =>
      intro json? h
      obtain rfl := Except.ok.inj h
      exact iff_of_true rfl (.bool b)
  | struct fields ih =>
      intro json? h
      rw [convertStructValue] at h
      obtain ⟨members, hmembers, h⟩ := checks_eq_ok.mp h
      obtain rfl := Except.ok.inj h
      have hfields := ofMembers_convertStruct_iff hmembers ih
      have hreadable : Readable (.struct fields)
          ↔ fields ≠ [] ∧ ∀ p ∈ fields, Readable p.2 :=
        ⟨fun h => by cases h; exact ⟨‹_›, ‹_›⟩, fun h => .struct fields h.1 h.2⟩
      rw [hreadable, ← hfields]
      cases members with
      | nil =>
          refine iff_of_false nofun fun hboth => hboth.1 ?_
          exact hboth.2.symm
      | cons member members =>
          have hne : ofMembers (member :: members) = fields → fields ≠ [] := by
            rintro heq rfl
            cases heq
          simp only [Json.ofMembers, Option.map_some, ofJson, Option.some.injEq,
            StructValue.struct.injEq]
          exact ⟨fun heq => ⟨hne heq, heq⟩, And.right⟩
  | list items =>
      intro json? h
      cases items with
      | nil =>
          obtain rfl := Except.ok.inj h
          exact iff_of_false nofun nofun
      | cons item items => cases h

/-! ### Which structs are converted -/

/-- A value in which no list has an item. -/
inductive Itemless : StructValue → Prop
  | unset : Itemless .unset
  | null : Itemless .null
  | number (x : Option Rat) : Itemless (.number x)
  | string (s : String) : Itemless (.string s)
  | bool (b : Bool) : Itemless (.bool b)
  | struct (fields : Struct) : (∀ p ∈ fields, Itemless p.2) → Itemless (.struct fields)
  | list : Itemless (.list [])

/-- The entries are converted if and only if every value is. -/
theorem convertStruct_ok_iff_of_values {fields : Struct}
    (hvalues : ∀ p ∈ fields, (∃ json?, convertStructValue p.2 = .ok json?) ↔ Itemless p.2) :
    (∃ members, convertStruct fields = .ok members) ↔ ∀ p ∈ fields, Itemless p.2 := by
  induction fields with
  | nil => exact iff_of_true ⟨[], by rw [convertStruct]⟩ nofun
  | cons field fields ih =>
      obtain ⟨name, value⟩ := field
      obtain ⟨hvalue, hvalues⟩ := List.forall_mem_cons.mp hvalues
      rw [List.forall_mem_cons, ← hvalue, ← ih hvalues, convertStruct]
      constructor
      · rintro ⟨members, h⟩
        obtain ⟨json?, hjson, h⟩ := checks_eq_ok.mp h
        obtain ⟨rest, hrest, -⟩ := checks_eq_ok.mp h
        exact ⟨⟨json?, hjson⟩, rest, hrest⟩
      · rintro ⟨⟨json?, hjson⟩, rest, hrest⟩
        exact ⟨_, checks_eq_ok.mpr ⟨json?, hjson, checks_eq_ok.mpr ⟨rest, hrest, rfl⟩⟩⟩

/-- A value is converted if and only if no list in it has an item, by induction over the values in
it. -/
theorem convertStructValue_ok_iff (value : StructValue) :
    (∃ json?, convertStructValue value = .ok json?) ↔ Itemless value := by
  induction value using StructValue.nested_induction with
  | unset => exact iff_of_true ⟨none, by rw [convertStructValue]⟩ .unset
  | null => exact iff_of_true ⟨some .null, by rw [convertStructValue]⟩ .null
  | number x =>
      exact iff_of_true ⟨some (x.elim .null .number), by rw [convertStructValue]⟩ (.number x)
  | string s => exact iff_of_true ⟨some (.string s), by rw [convertStructValue]⟩ (.string s)
  | bool b => exact iff_of_true ⟨some (.bool b), by rw [convertStructValue]⟩ (.bool b)
  | struct fields ih =>
      have hitemless : Itemless (.struct fields) ↔ ∀ p ∈ fields, Itemless p.2 :=
        ⟨fun h => by cases h; assumption, .struct fields⟩
      rw [hitemless, ← convertStruct_ok_iff_of_values ih, convertStructValue]
      constructor
      · rintro ⟨json?, h⟩
        obtain ⟨members, hmembers, -⟩ := checks_eq_ok.mp h
        exact ⟨members, hmembers⟩
      · rintro ⟨members, hmembers⟩
        exact ⟨_, checks_eq_ok.mpr ⟨members, hmembers, rfl⟩⟩
  | list items =>
      cases items with
      | nil => exact iff_of_true ⟨some .null, by rw [convertStructValue]⟩ .list
      | cons item items =>
          refine iff_of_false ?_ nofun
          rintro ⟨json?, h⟩
          rw [convertStructValue] at h
          cases h

theorem convertStruct_ok_iff (fields : Struct) :
    (∃ members, convertStruct fields = .ok members) ↔ ∀ p ∈ fields, Itemless p.2 :=
  convertStruct_ok_iff_of_values fun p _ => convertStructValue_ok_iff p.2

/-- The conversion of the entries throws nothing if that of the values does not. -/
theorem convertStruct_error_of_values {fields : Struct} {e : Exn}
    (hvalues : ∀ p ∈ fields, ∀ e, convertStructValue p.2 = .error e →
      ∃ place, e = .undefinedBehaviour place)
    (h : convertStruct fields = .error e) : ∃ place, e = .undefinedBehaviour place := by
  induction fields with
  | nil =>
      rw [convertStruct] at h
      cases h
  | cons field fields ih =>
      obtain ⟨name, value⟩ := field
      obtain ⟨hvalue, hvalues⟩ := List.forall_mem_cons.mp hvalues
      rw [convertStruct] at h
      rcases checks_eq_error.mp h with hjson | ⟨json?, -, h⟩
      · exact hvalue e hjson
      · rcases checks_eq_error.mp h with hrest | ⟨members, -, h⟩
        · exact ih hvalues hrest
        · cases h

/-- What is not converted is no exception, but read off the wrong message. -/
theorem convertStructValue_error (value : StructValue) :
    ∀ e, convertStructValue value = .error e → ∃ place, e = .undefinedBehaviour place := by
  induction value using StructValue.nested_induction with
  | struct fields ih =>
      intro e h
      rw [convertStructValue] at h
      rcases checks_eq_error.mp h with hmembers | ⟨members, -, h⟩
      · exact convertStruct_error_of_values ih hmembers
      · cases h
  | list items =>
      intro e h
      cases items with
      | nil =>
          rw [convertStructValue] at h
          cases h
      | cons item items =>
          rw [convertStructValue] at h
          exact ⟨_, (Except.error.inj h).symm⟩
  | _ =>
      intro e h
      rw [convertStructValue] at h
      cases h

theorem convertStruct_error {fields : Struct} {e : Exn} (h : convertStruct fields = .error e) :
    ∃ place, e = .undefinedBehaviour place :=
  convertStruct_error_of_values (fun p _ => convertStructValue_error p.2) h

/-! ### Which structs are denoted -/

/-- A value without lists in it, in which every struct has an entry. -/
inductive Plain : StructValue → Prop
  | null : Plain .null
  | number (x : Option Rat) : Plain (.number x)
  | string (s : String) : Plain (.string s)
  | bool (b : Bool) : Plain (.bool b)
  | struct (fields : Struct) : fields ≠ [] → (∀ p ∈ fields, Plain p.2) → Plain (.struct fields)

/-- The conversion of a struct reads what it may, and this is the JSON value that was null
before. -/
def ConvertsTo (fields : Struct) (json : Json) : Prop :=
  (convertStruct fields).map Json.ofMembers = .ok json

theorem plain_struct_iff {fields : Struct} :
    Plain (.struct fields) ↔ fields ≠ [] ∧ ∀ p ∈ fields, Plain p.2 :=
  ⟨fun h => by cases h; exact ⟨‹_›, ‹_›⟩, fun h => .struct fields h.1 h.2⟩

theorem ofMembers_eq_object_iff {members members' : List (String × Json)} :
    Json.ofMembers members = .object members' ↔ members ≠ [] ∧ members = members' := by
  cases members with
  | nil => exact iff_of_false nofun fun h => h.1 rfl
  | cons member members =>
      rw [Json.ofMembers, Json.object.injEq, and_iff_right (List.cons_ne_nil _ _)]
      exact List.cons_ne_nil _ _

/-- The members are those of the object if and only if every value is written as what it stands
for. -/
theorem convertStruct_eq_toMembers_iff {fields : Struct}
    (hvalues : ∀ p ∈ fields,
      convertStructValue p.2 = .ok (some p.2.toJson) ↔ Plain p.2)
    (hset : ∀ p ∈ fields, convertStructValue p.2 ≠ .ok none) :
    convertStruct fields = .ok (toMembers fields) ↔ ∀ p ∈ fields, Plain p.2 := by
  induction fields with
  | nil => exact iff_of_true rfl fun p hp => absurd hp List.not_mem_nil
  | cons field fields ih =>
      obtain ⟨name, value⟩ := field
      obtain ⟨hvalue, hvalues⟩ := List.forall_mem_cons.mp hvalues
      obtain ⟨hsome, hset⟩ := List.forall_mem_cons.mp hset
      rw [List.forall_mem_cons, ← hvalue, ← ih hvalues hset]
      constructor
      · intro h
        obtain ⟨json?, rest, hjson, hrest, hmembers⟩ := convertStruct_cons h
        cases json? with
        | none => exact absurd hjson hsome
        | some json =>
            rw [toMembers, Option.elim_some, List.cons.injEq, Prod.mk.injEq] at hmembers
            obtain ⟨⟨-, rfl⟩, rfl⟩ := hmembers
            exact ⟨hjson, hrest⟩
      · rintro ⟨hjson, hrest⟩
        rw [convertStruct, hjson, hrest]
        rfl

/-- A struct of which every member is right is an object only if it has a member. -/
theorem convertsTo_object_iff {fields : Struct} :
    ConvertsTo fields (.object (toMembers fields))
      ↔ fields ≠ [] ∧ convertStruct fields = .ok (toMembers fields) := by
  have hne : toMembers fields ≠ [] ↔ fields ≠ [] := by
    cases fields with
    | nil => exact iff_of_false (fun h => h rfl) fun h => h rfl
    | cons field fields =>
        obtain ⟨name, value⟩ := field
        exact iff_of_true (List.cons_ne_nil _ _) (List.cons_ne_nil _ _)
  rw [ConvertsTo, map_eq_ok, ← hne]
  constructor
  · rintro ⟨members, hmembers, hobject⟩
    obtain ⟨hsome, rfl⟩ := ofMembers_eq_object_iff.mp hobject
    exact ⟨hsome, hmembers⟩
  · rintro ⟨hsome, hmembers⟩
    exact ⟨_, hmembers, ofMembers_eq_object_iff.mpr ⟨hsome, rfl⟩⟩

/-- A struct inside a value is converted like one at the root. -/
theorem convertStructValue_struct_iff {fields : Struct} {json : Json} :
    convertStructValue (.struct fields) = .ok (some json) ↔ ConvertsTo fields json := by
  rw [convertStructValue, ConvertsTo, map_eq_ok]
  refine checks_eq_ok.trans (exists_congr fun members => and_congr_right fun _ => ?_)
  exact ⟨fun h => Option.some.inj (Except.ok.inj h), fun h => congrArg (Except.ok ∘ some) h⟩

/-- A value of a kind is never left out. -/
theorem convertStructValue_ne_none {value : StructValue} (h : value.KindSet) :
    convertStructValue value ≠ .ok none := by
  cases h with
  | struct fields hfields =>
      intro hnone
      rw [convertStructValue] at hnone
      obtain ⟨members, -, hnone⟩ := checks_eq_ok.mp hnone
      cases hnone
  | list items hitems => cases items <;> nofun
  | _ => nofun

theorem forall_kindSet_of_struct {fields : Struct} (h : (StructValue.struct fields).KindSet) :
    ∀ p ∈ fields, p.2.KindSet := by
  cases h
  assumption

/-- A value is written as what it stands for if and only if it is plain, by induction over the
values in it. -/
theorem convertStructValue_eq_toJson_iff (value : StructValue) (hkind : value.KindSet) :
    convertStructValue value = .ok (some value.toJson) ↔ Plain value := by
  induction value using StructValue.nested_induction with
  | unset => cases hkind
  | null => exact iff_of_true rfl .null
  | number x => exact iff_of_true rfl (.number x)
  | string s => exact iff_of_true rfl (.string s)
  | bool b => exact iff_of_true rfl (.bool b)
  | struct fields ih =>
      have hkinds := forall_kindSet_of_struct hkind
      rw [plain_struct_iff, ← convertStruct_eq_toMembers_iff
        (fun p hp => ih p hp (hkinds p hp)) fun p hp => convertStructValue_ne_none (hkinds p hp)]
      exact convertStructValue_struct_iff.trans convertsTo_object_iff
  | list items =>
      refine iff_of_false ?_ nofun
      cases items <;> nofun

theorem Plain.kindSet {value : StructValue} (h : Plain value) : value.KindSet := by
  induction h with
  | null => exact .null
  | number x => exact .number x
  | string s => exact .string s
  | bool b => exact .bool b
  | struct fields hne hfields ih => exact .struct fields ih

theorem Readable.plain {value : StructValue} (h : Readable value) : Plain value := by
  induction h with
  | null => exact .null
  | number x => exact .number (some x)
  | string s => exact .string s
  | bool b => exact .bool b
  | struct fields hne hfields ih => exact .struct fields hne ih

/-- The conversion reads what it may. -/
theorem convertStruct_of_plain {fields : Struct} (h : ∀ p ∈ fields, Plain p.2) :
    convertStruct fields = .ok (toMembers fields) :=
  (convertStruct_eq_toMembers_iff
    (fun p hp => convertStructValue_eq_toJson_iff p.2 (h p hp).kindSet)
    fun p hp => convertStructValue_ne_none (h p hp).kindSet).mpr h

/-- **A struct becomes the object that it stands for** if and only if it has an entry, as has
every struct in it, and there is no list in it. -/
theorem convertsTo_iff (fields : Struct) (hkinds : ∀ p ∈ fields, p.2.KindSet) :
    ConvertsTo fields (.object (toMembers fields)) ↔ fields ≠ [] ∧ ∀ p ∈ fields, Plain p.2 := by
  rw [convertsTo_object_iff, convertStruct_eq_toMembers_iff
    (fun p hp => convertStructValue_eq_toJson_iff p.2 (hkinds p hp))
    fun p hp => convertStructValue_ne_none (hkinds p hp)]

/-- A struct in a struct. -/
theorem convertsTo_nested :
    ConvertsTo [("a", .struct [("b", .bool true)]), ("c", .null)]
      (.object [("a", .object [("b", .bool true)]), ("c", .null)]) := by
  have hinner : ∀ p ∈ [("b", StructValue.bool true)], p.2.KindSet ∧ Plain p.2 := by
    rintro p hp
    obtain rfl := List.mem_singleton.mp hp
    exact ⟨.bool true, .bool true⟩
  have hall : ∀ p ∈ [("a", StructValue.struct [("b", .bool true)]), ("c", .null)],
      p.2.KindSet ∧ Plain p.2 := by
    refine List.forall_mem_cons.mpr ⟨⟨.struct _ fun p hp => (hinner p hp).1,
      .struct _ (List.cons_ne_nil _ _) fun p hp => (hinner p hp).2⟩, ?_⟩
    rintro p hp
    obtain rfl := List.mem_singleton.mp hp
    exact ⟨.null, .null⟩
  exact (convertsTo_iff _ fun p hp => (hall p hp).1).mpr
    ⟨List.cons_ne_nil _ _, fun p hp => (hall p hp).2⟩

/-- Neither a list is converted, nor the empty struct. -/
theorem list_not_converted :
    ¬ ∀ fields : Struct, (∀ p ∈ fields, p.2.KindSet) →
      ConvertsTo fields (.object (toMembers fields)) := by
  intro h
  have hlist := h [("k", .list [.bool true])] fun p hp => by
    obtain rfl := List.mem_singleton.mp hp
    refine .list _ fun v hv => ?_
    obtain rfl := List.mem_singleton.mp hv
    exact .bool true
  cases hlist

end Instinct.StructConversion
