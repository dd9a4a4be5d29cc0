/-
Instinct/JsonContexts.lean

`JSONContextPolicy`: JSON values that are put into contexts and taken out again.

An object is wrapped at every level, so that no key of it is taken for that of a wrapper.  But
nothing is put in for an array, an object without members is left null, and an integer is read
as a `long`.  So a value comes out as it was if and only if it has no array in it, no empty
object, and no integer from 2^63 on (`sanitizeJSONContext_createJSONContext_iff`).
-/
import Instinct.Core
import Instinct.SortedMaps
import Mathlib.Algebra.Group.Int.Defs
import Mathlib.Data.String.Basic

namespace Instinct.JsonContexts

open SortedMaps

/-! ### JSON -/

/-- A JSON value, by what it is printed as: signed and unsigned integers are not told apart. -/
inductive Json
  | null
  | boolean (b : Bool)
  | integer (n : Int)
  | float (x : Rat)
  | string (s : String)
  | array (items : List Json)
  | object (members : List (String × Json))

/-- The members of an object are in the order of their keys, and integers are those of 64 bits. -/
inductive Json.WellFormed : Json → Prop
  | null : WellFormed .null
  | boolean (b : Bool) : WellFormed (.boolean b)
  | integer (n : Int) : -2 ^ 63 ≤ n → n < 2 ^ 64 → WellFormed (.integer n)
  | float (x : Rat) : WellFormed (.float x)
  | string (s : String) : WellFormed (.string s)
  | array (items : List Json) : (∀ v ∈ items, WellFormed v) → WellFormed (.array items)
  | object (members : List (String × Json)) :
      Sorted members → (∀ e ∈ members, WellFormed e.2) → WellFormed (.object members)

/-- A JSON value as the library keeps it. -/
abbrev JSONObject := { j : Json // j.WellFormed }

/-- What members that are set on a new value make of it: it is null before the first. -/
def Json.ofMembers : List (String × Json) → Json
  | [] => .null
  | members => .object members

/-- What stands under a key, in an object. -/
def Json.find? (key : String) : Json → Option Json
  | .object members => (members.find? fun e => e.1 = key).map Prod.snd
  | _ => none

/-- `items()`, with the keys. -/
def Json.items : Json → List (String × Json)
  | .null => []
  | .array items => items.zipIdx.map fun (v, i) => (toString i, v)
  | .object members => members
  | j => [("", j)]

/-! ### Contexts -/

/-- The order in which the entries of an `unordered_map` are passed through. -/
structure HashOrder where
  order : {α : Type} → List (String × α) → List (String × α)
  perm : ∀ {α : Type} (m : List (String × α)), (order m).Perm m

/-- The entries as they were inserted. -/
def HashOrder.ofInsertion : HashOrder := ⟨fun m => m, .refl⟩

def messageWrapperDataKey : String := "__protobuf_message__"

def mappingDataWrapperDataKey : String := "__mapping_data__"

/-- `IsMessage`. -/
def isMessage (data : Json) : Bool := (data.find? messageWrapperDataKey).isSome

/-- `IsMappingObject`. -/
def isMappingObject (data : Json) : Bool := (data.find? mappingDataWrapperDataKey).isSome

/-- `PutMappingObject`. -/
def putMappingObject (hash : HashOrder) (mappingData : List (String × Json)) : Json :=
  let newObj := (hash.order mappingData).foldl (fun m e => set e.1 e.2 m) []
  .object [(mappingDataWrapperDataKey, .ofMembers newObj)]

/-- `GetMappingObject`. -/
def getMappingObject (data : Json) : Except Exn (List (String × Json)) := do
  assertTrue (isMappingObject data = true) "expecting MappingObject wrapper format"
  pure ((data.find? mappingDataWrapperDataKey).getD .null).items

section Contexts

variable (hash : HashOrder)

mutual

/-- `CreateJSONContext`, by the value in the context.  An integer is read as a `long`, and there
is no branch for arrays. -/
def createJSONContext : Json → Json
  | .null => .null
  | .string s => .string s
  | .integer n => .integer (n.bmod (2 ^ 64))
  | .float x => .float x
  | .boolean b => .boolean b
  | .array _ => .null
  | .object members => putMappingObject hash (createMembers members)

def createMembers : List (String × Json) → List (String × Json)
  | [] => []
  | (k, v) :: members => (k, createJSONContext v) :: createMembers members

end

theorem sizeOf_lt_of_mem {members : List (String × Json)} {e : String × Json}
    (h : e ∈ members) : sizeOf e.2 < sizeOf members := by
  have hentry := List.sizeOf_lt_of_mem h
  obtain ⟨k, v⟩ := e
  rw [Prod.mk.sizeOf_spec] at hentry
  exact lt_of_le_of_lt (Nat.le_add_left _ _) hentry

theorem sizeOf_le_of_mem_items {j : Json} {e : String × Json} (h : e ∈ j.items) :
    sizeOf e.2 ≤ sizeOf j := by
  cases j with
  | null => cases h
  | array items =>
      obtain ⟨p, hp, rfl⟩ := List.mem_map.mp h
      have hitem := List.sizeOf_lt_of_mem (List.fst_mem_of_mem_zipIdx hp)
      rw [Json.array.sizeOf_spec]
      exact (Nat.le_of_lt hitem).trans (Nat.le_add_left _ _)
  | object members =>
      rw [Json.object.sizeOf_spec]
      exact (Nat.le_of_lt (sizeOf_lt_of_mem h)).trans (Nat.le_add_left _ _)
  | boolean _ => rw [List.mem_singleton.mp h]
  | integer _ => rw [List.mem_singleton.mp h]
  | float _ => rw [List.mem_singleton.mp h]
  | string _ => rw [List.mem_singleton.mp h]

/-- The values of a mapping are smaller than what wraps them. -/
theorem sizeOf_lt_of_getMappingObject {data : Json} {mapping : List (String × Json)}
    (h : getMappingObject data = .ok mapping) {e : String × Json} (he : e ∈ mapping) :
    sizeOf e.2 < sizeOf data := by
  obtain ⟨_, hmapping, h⟩ := checks_eq_ok.mp h
  rw [← Except.ok.inj h] at he
  rw [assertTrue_eq_ok, isMappingObject] at hmapping
  obtain ⟨v, hv⟩ := Option.isSome_iff_exists.mp hmapping
  rw [hv] at he
  refine lt_of_le_of_lt (sizeOf_le_of_mem_items he) ?_
  cases data with
  | object members =>
      obtain ⟨found, hfound, hsame⟩ := Option.map_eq_some_iff.mp hv
      rw [Option.getD_some, ← hsame, Json.object.sizeOf_spec]
      exact (sizeOf_lt_of_mem (List.mem_of_find?_eq_some hfound)).trans_le (Nat.le_add_left _ _)
  | _ => cases hv

/-- The loop that sets what becomes of each value. -/
def setAll (results : List (String × Except Exn Json)) : Except Exn (List (String × Json)) :=
  results.foldlM (fun m e => e.2.map fun v => set e.1 v m) []

/-- `SanitizeJSONContext`, with the parser of the library. -/
def sanitizeJSONContext (parse : String → Except Exn Json) (data : Json) : Except Exn Json :=
  if isMessage data then
    match data.find? messageWrapperDataKey with
    | some (.string text) => parse text
    | _ => .error (.other "type must be string")
  else if isMappingObject data then
    match _ : getMappingObject data with
    | .ok mapping =>
        let results := mapping.attach.map fun e => (e.1.1, sanitizeJSONContext parse e.1.2)
        (setAll (hash.order results)).map Json.ofMembers
    | .error e => .error e
  else .ok data
termination_by sizeOf data
decreasing_by exact sizeOf_lt_of_getMappingObject ‹getMappingObject data = _› e.2

end Contexts

/-! ### What comes out -/

mutual

/-- What is left of a value: null of an array and of an empty object, and of an integer its lower
64 bits. -/
def remains : Json → Json
  | .integer n => .integer (n.bmod (2 ^ 64))
  | .array _ => .null
  | .object members => .ofMembers (remainsMembers members)
  | j => j

def remainsMembers : List (String × Json) → List (String × Json)
  | [] => []
  | (k, v) :: members => (k, remains v) :: remainsMembers members

end

/-- No array is in the value, every object in it has a member, and its integers are below 2^63. -/
inductive Kept : Json → Prop
  | null : Kept .null
  | boolean (b : Bool) : Kept (.boolean b)
  | integer (n : Int) : n < 2 ^ 63 → Kept (.integer n)
  | float (x : Rat) : Kept (.float x)
  | string (s : String) : Kept (.string s)
  | object (members : List (String × Json)) :
      members ≠ [] → (∀ e ∈ members, Kept e.2) → Kept (.object members)

/-- Induction over the values, where an array and an object have their statement from those of
the values in them. -/
@[elab_as_elim]
theorem Json.nested_induction {motive : Json → Prop} (null : motive .null)
    (boolean : ∀ b, motive (.boolean b)) (integer : ∀ n, motive (.integer n))
    (float : ∀ x, motive (.float x)) (string : ∀ s, motive (.string s))
    (array : ∀ items, (∀ v ∈ items, motive v) → motive (.array items))
    (object : ∀ members, (∀ e ∈ members, motive e.2) → motive (.object members))
    (j : Json) : motive j := by
  refine @Json.rec motive (fun items => ∀ v ∈ items, motive v)
    (fun members => ∀ e ∈ members, motive e.2) (fun e => motive e.2) null boolean integer float
    string array object ?_ ?_ ?_ ?_ ?_ j
  · exact fun v hv => absurd hv List.not_mem_nil
  · intro v items hv hitems
    exact List.forall_mem_cons.mpr ⟨hv, hitems⟩
  · exact fun e he => absurd he List.not_mem_nil
  · intro e members he hmembers
    exact List.forall_mem_cons.mpr ⟨he, hmembers⟩
  · exact fun _ _ hv => hv

section Remains

variable {hash : HashOrder} {parse : String → Except Exn Json} {members : List (String × Json)}

theorem createMembers_eq (members : List (String × Json)) :
    createMembers hash members = members.map fun e => (e.1, createJSONContext hash e.2) := by
  induction members with
  | nil => rfl
  | cons e members ih => rw [createMembers, ih, List.map_cons]

theorem remainsMembers_eq (members : List (String × Json)) :
    remainsMembers members = members.map fun e => (e.1, remains e.2) := by
  induction members with
  | nil => rfl
  | cons e members ih => rw [remainsMembers, ih, List.map_cons]

/-- Other values under the same keys are in the same order. -/
theorem sorted_map (h : Sorted members) (f : Json → Json) :
    Sorted (members.map fun e => (e.1, f e.2)) :=
  List.pairwise_map.mpr h

/-- The wrapper holds the values in the order of their keys. -/
theorem putMappingObject_of_sorted (h : Sorted members) :
    putMappingObject hash members
      = .object [(mappingDataWrapperDataKey, .ofMembers members)] := by
  rw [putMappingObject, foldl_set_of_perm (hash.perm members) h]

theorem getMappingObject_wrapper (members : List (String × Json)) :
    getMappingObject (.object [(mappingDataWrapperDataKey, .ofMembers members)]) = .ok members := by
  cases members <;> rfl

/-- All values are set if all of them are there. -/
theorem setAll_of_perm {results : List (String × Except Exn Json)} (h : Sorted members)
    (hresults : results.Perm (members.map fun e => (e.1, .ok e.2))) :
    setAll results = .ok members := by
  have hfold : ∀ l acc : List (String × Json),
      (l.map fun e => (e.1, Except.ok e.2)).foldlM (fun m e => e.2.map fun v => set e.1 v m) acc
        = (.ok (l.foldl (fun m e => set e.1 e.2 m) acc) : Except Exn _) := by
    intro l
    induction l with
    | nil => exact fun acc => rfl
    | cons e l ih => exact fun acc => ih (set e.1 e.2 acc)
  let value (e : String × Except Exn Json) : String × Json := (e.1, e.2.toOption.getD .null)
  have hback : (results.map value).map (fun e => (e.1, Except.ok e.2)) = results := by
    rw [List.map_map]
    refine (List.map_congr_left fun e he => ?_).trans (List.map_id _)
    obtain ⟨e', -, rfl⟩ := List.mem_map.mp (hresults.mem_iff.mp he)
    rfl
  have hvalues : (results.map value).Perm members := by
    have hperm := hresults.map value
    rw [List.map_map] at hperm
    exact hperm.trans (.of_eq (List.map_id _))
  rw [setAll, ← hback, hfold, foldl_set_of_perm hvalues h]

/-- A value that is neither wrapper is taken as it is. -/
theorem sanitizeJSONContext_plain {data : Json} (hmessage : isMessage data = false)
    (hmapping : isMappingObject data = false) :
    sanitizeJSONContext hash parse data = .ok data := by
  rw [sanitizeJSONContext, hmessage, hmapping]
  rfl

theorem sanitizeJSONContext_wrapper (members : List (String × Json)) :
    sanitizeJSONContext hash parse
        (.object [(mappingDataWrapperDataKey, .ofMembers members)]) =
      (setAll (hash.order (members.map fun e =>
        (e.1, sanitizeJSONContext hash parse e.2)))).map Json.ofMembers := by
  have hmessage : isMessage (.object [(mappingDataWrapperDataKey, .ofMembers members)]) = false :=
    rfl
  have hwrapper : isMappingObject (.object [(mappingDataWrapperDataKey, .ofMembers members)])
      = true := rfl
  rw [sanitizeJSONContext, hmessage, if_neg Bool.false_ne_true, if_pos hwrapper]
  split
  · next mapping hmapping =>
      rw [getMappingObject_wrapper] at hmapping
      rw [← Except.ok.inj hmapping]
      exact congrArg (fun results => (setAll (hash.order results)).map Json.ofMembers)
        (List.attach_map_val (f := fun e : String × Json =>
          (e.1, sanitizeJSONContext hash parse e.2)))
  · next e he =>
      rw [getMappingObject_wrapper] at he
      cases he

/-- **What comes out of a context** for a value is what is left of it. -/
theorem sanitizeJSONContext_createJSONContext {j : Json} (h : j.WellFormed) :
    sanitizeJSONContext hash parse (createJSONContext hash j) = .ok (remains j) := by
  induction j using Json.nested_induction with
  | null => exact sanitizeJSONContext_plain rfl rfl
  | boolean b => exact sanitizeJSONContext_plain rfl rfl
  | integer n => exact sanitizeJSONContext_plain rfl rfl
  | float x => exact sanitizeJSONContext_plain rfl rfl
  | string s => exact sanitizeJSONContext_plain rfl rfl
  | array items _ => exact sanitizeJSONContext_plain rfl rfl
  | object members ih =>
      obtain ⟨hsorted, hmembers⟩ : Sorted members ∧ ∀ e ∈ members, e.2.WellFormed := by
        cases h
        exact ⟨‹_›, ‹_›⟩
      have hresults : (members.map fun e =>
            (e.1, sanitizeJSONContext hash parse (createJSONContext hash e.2)))
          = (members.map fun e => (e.1, remains e.2)).map fun e => (e.1, .ok e.2) := by
        rw [List.map_map]
        exact List.map_congr_left fun e he => by rw [ih e he (hmembers e he)]; rfl
      rw [createJSONContext, createMembers_eq, putMappingObject_of_sorted (sorted_map hsorted _),
        sanitizeJSONContext_wrapper, List.map_map]
      show (setAll (hash.order (members.map fun e =>
        (e.1, sanitizeJSONContext hash parse (createJSONContext hash e.2))))).map _ = _
      rw [setAll_of_perm (sorted_map hsorted remains) (hresults ▸ hash.perm _), remains,
        remainsMembers_eq]
      rfl

theorem remains_object_eq_iff (hsame : ∀ e ∈ members, remains e.2 = e.2 ↔ Kept e.2) :
    remains (.object members) = .object members ↔ Kept (.object members) := by
  rw [remains, remainsMembers_eq]
  constructor
  · intro h
    rcases members with - | ⟨e, members⟩
    · cases h
    · have hmembers : (e :: members).map (fun e => (e.1, remains e.2)) = (e :: members).map id :=
        (Json.object.inj h).trans (List.map_id _).symm
      refine .object _ (List.cons_ne_nil _ _) fun e' he' => (hsame e' he').mp ?_
      exact congrArg Prod.snd (List.map_inj_left.mp hmembers e' he')
  · intro h
    obtain ⟨hne, hkept⟩ : members ≠ [] ∧ ∀ e ∈ members, Kept e.2 := by
      cases h
      exact ⟨‹_›, ‹_›⟩
    have hmembers : (members.map fun e => (e.1, remains e.2)) = members :=
      (List.map_congr_left fun e he =>
        congrArg (e.1, ·) ((hsame e he).mpr (hkept e he))).trans (List.map_id _)
    rw [hmembers]
    rcases members with - | ⟨e, members⟩
    · exact absurd rfl hne
    · rfl

/-- A value is left as it was if and only if it is kept, by induction over the values in it. -/
theorem remains_eq_iff {j : Json} (h : j.WellFormed) : remains j = j ↔ Kept j := by
  induction j using Json.nested_induction with
  | null => exact iff_of_true rfl .null
  | boolean b => exact iff_of_true rfl (.boolean b)
  | float x => exact iff_of_true rfl (.float x)
  | string s => exact iff_of_true rfl (.string s)
  | integer n =>
      obtain ⟨hlow, hhigh⟩ : -2 ^ 63 ≤ n ∧ n < 2 ^ 64 := by
        cases h
        exact ⟨‹_›, ‹_›⟩
      have hkept : Kept (.integer n) ↔ n < 2 ^ 63 :=
        ⟨fun h => by cases h; assumption, fun h => .integer n h⟩
      rw [remains, Json.integer.injEq, hkept, Int.bmod_def]
      omega
  | array items _ =>
      refine iff_of_false (fun h => ?_) fun h => ?_
      · cases h
      · cases h
  | object members ih =>
      obtain ⟨-, hmembers⟩ : Sorted members ∧ ∀ e ∈ members, e.2.WellFormed := by
        cases h
        exact ⟨‹_›, ‹_›⟩
      exact remains_object_eq_iff fun e he => ih e he (hmembers e he)

/-- **Main result.**  A JSON value comes out of its context as it was put in if and only if no
array is in it, every object in it has a member, and its integers are below 2^63. -/
theorem sanitizeJSONContext_createJSONContext_iff (hash : HashOrder)
    (parse : String → Except Exn Json) (j : JSONObject) :
    sanitizeJSONContext hash parse (createJSONContext hash j.1) = .ok j.1 ↔ Kept j.1 := by
  rw [sanitizeJSONContext_createJSONContext j.2, Except.ok.injEq]
  exact remains_eq_iff j.2

/-- An array is null when it comes out. -/
theorem array_not_sanitized :
    sanitizeJSONContext .ofInsertion (fun _ => .ok .null)
        (createJSONContext .ofInsertion (.array [.integer 1]))
      ≠ .ok (.array [.integer 1]) := by
  intro h
  rw [createJSONContext, sanitizeJSONContext_plain rfl rfl] at h
  cases h

end Remains

end Instinct.JsonContexts
