/-
Instinct/JsonMessages.lean

`ProtobufUtils`: a message as a JSON object, built by reflection, and the way back
through the parser of the library.

`ConvertMessageToJsonObject` starts from a JSON value that is null and becomes an object
with the first field that is written.  A message in which nothing is set therefore
remains null: as the value of a field it is lost, among the items of a repeated field it
is an error.  `convertsBack_iff` states exactly which messages are read back as they were.
-/
import Instinct.Core
import Instinct.ProtoJson

namespace Instinct.JsonMessages

open ProtoJson

/-! ### The model -/

structure ToJsonObjectOptions where
  keepDefaultValues : Bool := false

/-- What `GetString`, `GetInt32` and the like give for a field that is not set. -/
def zero : Kind → Value
  | .string => .string ""
  | .integer _ => .int 0
  | .bool => .bool false
  | .enum _ => .enum 0
  | .message _ => .message []

/-- The test of a scalar value that is made beside `HasField`. -/
def isWorthWriting : Value → Bool
  | .string s => isNotBlankString s
  | .int n => n ≠ 0
  | .bool b => b
  | .enum n => n ≠ 0
  | .message _ => false

def convertScalar : Kind → Value → Json
  | _, .string s => .string s
  | _, .int n => .number n
  | _, .bool b => .bool b
  | .enum e, .enum n => .string (e.valueName n)
  | _, _ => .null

/-- What is assigned to the member of a field, given the JSON values of its items. -/
def convertField (options : ToJsonObjectOptions) (f : FieldDescriptor) (vs : List Value)
    (items : List Json) : Option Json :=
  match f.label, f.kind with
  | .repeated, _ => if items.isEmpty then none else some (.array items)
  | _, .message _ => items.head?
  | _, k =>
    let v := vs.headD (zero k)
    if options.keepDefaultValues || !vs.isEmpty || isWorthWriting v then
      some (convertScalar k v)
    else none

/-- A JSON value that was null before the members were assigned. -/
def ofMembers : List (String × Json) → Json
  | [] => .null
  | members => .object members

mutual

def convertValue (schema : Schema) (options : ToJsonObjectOptions) : Kind → Value → Json
  | .message t, .message fields =>
    ofMembers (convertFields schema options (schema t).fields fields)
  | k, v => convertScalar k v

def convertItems (schema : Schema) (options : ToJsonObjectOptions) (k : Kind) :
    List Value → List Json
  | [] => []
  | v :: vs => convertValue schema options k v :: convertItems schema options k vs

def convertFields (schema : Schema) (options : ToJsonObjectOptions) :
    List FieldDescriptor → List (List Value) → List (String × Json)
  | f :: fs, vs :: vss =>
    match convertField options f vs (convertItems schema options f.kind vs) with
    | none => convertFields schema options fs vss
    | some j => (f.name, j) :: convertFields schema options fs vss
  | _, _ => []

end

/-- `ConvertMessageToJsonObject`, from a JSON value without content. -/
def convertMessageToJsonObject {schema : Schema} {t : String}
    (options : ToJsonObjectOptions) (message : ProtoJson.Message schema t) : Json :=
  ofMembers (convertFields schema options (schema t).fields message.fields)

/-- `ConvertJSONObjectToMessage`: `none` when the status of the parser is not OK. -/
def convertJSONObjectToMessage (nullRoot : Bool) (schema : Schema) (t : String)
    (jsonObject : Json) : Option (List (List Value)) :=
  parseMessage nullRoot schema t jsonObject

/-- The message is read back as it was, with the fields that are set and all items. -/
def ConvertsBack {schema : Schema} {t : String} (nullRoot : Bool)
    (message : ProtoJson.Message schema t) : Prop :=
  convertJSONObjectToMessage nullRoot schema t (convertMessageToJsonObject {} message) =
    some message.fields

/-- A value that is read back as a field or an item: every enum number in it has a name,
and every message in it has a field that is set and a type without a JSON form of its
own. -/
inductive Readable (schema : Schema) : Kind → Value → Prop
  | string (s : String) : Readable schema .string (.string s)
  | integer (k : IntKind) (n : Int) : Readable schema (.integer k) (.int n)
  | bool (b : Bool) : Readable schema .bool (.bool b)
  | enum (e : EnumType) (n : Int) : e.Declares n → Readable schema (.enum e) (.enum n)
  | message (t : String) (fields : List (List Value)) :
      (schema t).ownJsonForm = false → (∃ vs ∈ fields, vs ≠ []) →
      (∀ p ∈ (schema t).fields.zip fields, ∀ v ∈ p.2, Readable schema p.1.kind v) →
      Readable schema (.message t) (.message fields)

/-! ### What is written -/

variable {schema : Schema}

/-- The member of a field that is set. -/
def member (schema : Schema) (f : FieldDescriptor) (vs : List Value) : Json :=
  match f.label with
  | .repeated => .array (vs.map (convertValue schema {} f.kind))
  | _ => (vs.map (convertValue schema {} f.kind)).headD .null

theorem convertItems_eq_map (options : ToJsonObjectOptions) (k : Kind) (vs : List Value) :
    convertItems schema options k vs = vs.map (convertValue schema options k) := by
  induction vs with
  | nil => rfl
  | cons v vs ih => rw [convertItems, ih, List.map_cons]

theorem isWorthWriting_zero (k : Kind) : isWorthWriting (zero k) = false := by
  cases k <;> rfl

theorem convertField_nil (f : FieldDescriptor) : convertField {} f [] [] = none := by
  unfold convertField
  split
  · rfl
  · rfl
  · simp [isWorthWriting_zero]

theorem convertField_cons (f : FieldDescriptor) (v : Value) (vs : List Value) :
    convertField {} f (v :: vs) ((v :: vs).map (convertValue schema {} f.kind)) =
      some (member schema f (v :: vs)) := by
  cases hl : f.label with
  | repeated => simp [convertField, member, hl]
  | _ => cases hk : f.kind <;> simp [convertField, member, hl, hk, convertValue]

/-- With default options exactly the fields that are set are written. -/
theorem convertFields_eq (fs : List FieldDescriptor) (vss : List (List Value)) :
    convertFields schema {} fs vss =
      (writtenFields (member schema) (fs.zip vss)).map fun p => (p.1.name, p.2) := by
  induction fs generalizing vss with
  | nil => cases vss <;> rfl
  | cons f fs ih =>
    cases vss with
    | nil => rfl
    | cons vs vss =>
      rw [convertFields, convertItems_eq_map, ih]
      cases vs with
      | nil => rw [List.map_nil, convertField_nil]; rfl
      | cons v vs => rw [convertField_cons]; rfl

theorem writtenFields_eq_nil_iff {t : String} {fields : List (List Value)}
    (hfit : List.Forall₂ (FieldDescriptor.Fits schema) (schema t).fields fields) :
    writtenFields (member schema) ((schema t).fields.zip fields) = [] ↔
      ∀ vs ∈ fields, vs = [] := by
  have hsnd : ((schema t).fields.zip fields).map Prod.snd = fields :=
    List.map_snd_zip (Nat.le_of_eq hfit.length_eq.symm)
  rw [writtenFields, List.map_eq_nil_iff, List.filter_eq_nil_iff]
  conv_rhs => rw [← hsnd]
  simpa using ⟨fun h vs f => h f vs, fun h f vs => h vs f⟩

theorem ofMembers_eq_null {t : String} {fields : List (List Value)}
    (hfit : List.Forall₂ (FieldDescriptor.Fits schema) (schema t).fields fields)
    (hunset : ∀ vs ∈ fields, vs = []) :
    ofMembers (convertFields schema {} (schema t).fields fields) = .null := by
  rw [convertFields_eq, (writtenFields_eq_nil_iff hfit).mpr hunset]
  rfl

theorem ofMembers_eq_object {t : String} {fields : List (List Value)}
    (hfit : List.Forall₂ (FieldDescriptor.Fits schema) (schema t).fields fields)
    (hset : ∃ vs ∈ fields, vs ≠ []) :
    ofMembers (convertFields schema {} (schema t).fields fields) =
      .object (convertFields schema {} (schema t).fields fields) := by
  have hne : convertFields schema {} (schema t).fields fields ≠ [] := by
    rw [convertFields_eq, Ne, List.map_eq_nil_iff, writtenFields_eq_nil_iff hfit]
    intro hunset
    obtain ⟨vs, hvs, hne⟩ := hset
    exact hne (hunset vs hvs)
  unfold ofMembers
  split
  · exact absurd ‹_› hne
  · rfl

theorem readable_message_iff {t : String} {fields : List (List Value)} :
    Readable schema (.message t) (.message fields) ↔
      (schema t).ownJsonForm = false ∧ (∃ vs ∈ fields, vs ≠ []) ∧
        ∀ p ∈ (schema t).fields.zip fields, ∀ v ∈ p.2, Readable schema p.1.kind v := by
  constructor
  · intro h
    cases h with
    | message _ _ hown hset hitems => exact ⟨hown, hset, hitems⟩
  · rintro ⟨hown, hset, hitems⟩
    exact Readable.message t fields hown hset hitems

/-! ### What is read back -/

/-- A field is read back if and only if each of its items is. -/
theorem decodeField_member_iff {f : FieldDescriptor} {vs : List Value}
    (hallows : f.allows vs = true) (hset : vs ≠ []) :
    decodeField schema f (member schema f vs) = some vs ↔
      ∀ v ∈ vs, decodeValue schema f.kind (convertValue schema {} f.kind v) = some [v] := by
  by_cases hl : f.label = .repeated
  · simp only [decodeField, member, hl]
    exact decodeItems_map_iff
  · have hlen := FieldDescriptor.length_le_one_of_allows hallows hl
    match vs, hset, hlen with
    | [v], _, _ => cases hf : f.label <;> simp_all [decodeField, member]

/-- The object of a message, once it has members, is read back if and only if every item
of its fields is. -/
theorem decode_convertFields_iff {t : String} {fields : List (List Value)}
    (hkind : (Value.message fields).hasKind schema (.message t) = true) :
    (decodeMembers schema (schema t)
        (convertFields schema {} (schema t).fields fields)).bind (schema t).assemble =
      some fields ↔
      ∀ p ∈ (schema t).fields.zip fields, ∀ v ∈ p.2,
        decodeValue schema p.1.kind (convertValue schema {} p.1.kind v) = some [v] := by
  rw [Value.hasKind, Bool.and_eq_true, fieldsHaveKinds_iff, decide_eq_true_eq] at hkind
  obtain ⟨hfit, honeofs⟩ := hkind
  rw [convertFields_eq, decode_written_iff hfit honeofs]
  refine forall₂_congr fun p hp => ?_
  have hallows := (fits_of_mem_zip hfit hp).2.2
  by_cases hset : p.2 = []
  · simp [hset]
  · rw [← decodeField_member_iff hallows hset]
    simp [hset]

theorem parseMessage_object_iff (nullRoot : Bool) {t : String} {fields : List (List Value)}
    (hkind : (Value.message fields).hasKind schema (.message t) = true) :
    parseMessage nullRoot schema t
        (.object (convertFields schema {} (schema t).fields fields)) = some fields ↔
      (schema t).ownJsonForm = false ∧ ∀ p ∈ (schema t).fields.zip fields, ∀ v ∈ p.2,
        decodeValue schema p.1.kind (convertValue schema {} p.1.kind v) = some [v] := by
  rw [parseMessage]
  cases hown : (schema t).ownJsonForm with
  | true => simp
  | false => simpa using decode_convertFields_iff hkind

theorem forall₂_fits_of_hasKind {t : String} {fields : List (List Value)}
    (hkind : (Value.message fields).hasKind schema (.message t) = true) :
    List.Forall₂ (FieldDescriptor.Fits schema) (schema t).fields fields := by
  rw [Value.hasKind, Bool.and_eq_true, fieldsHaveKinds_iff] at hkind
  exact hkind.1

/-- A value is read back if and only if it is readable, by induction over the messages in
it: null is read as no value at all, so that a message needs a member. -/
theorem decodeValue_convertValue_iff (v : Value) : ∀ {k : Kind}, v.hasKind schema k = true →
    (decodeValue schema k (convertValue schema {} k v) = some [v] ↔ Readable schema k v) := by
  induction v using Value.nested_induction with
  | string s =>
    intro k hk
    cases k with
    | string => simp [convertValue, convertScalar, decodeValue, decodeScalar, Readable.string]
    | _ => cases hk
  | int n =>
    intro k hk
    cases k with
    | integer i =>
      have hn : i.holds n = true := hk
      simp [convertValue, convertScalar, decodeValue, decodeScalar, hn, Readable.integer]
    | _ => cases hk
  | bool b =>
    intro k hk
    cases k with
    | bool => simp [convertValue, convertScalar, decodeValue, decodeScalar, Readable.bool]
    | _ => cases hk
  | enum n =>
    intro k hk
    cases k with
    | enum e =>
      have hread : Readable schema (.enum e) (.enum n) ↔ e.Declares n :=
        ⟨fun h => by cases h; assumption, Readable.enum e n⟩
      rw [hread, ← EnumType.findValueByName_valueName_iff]
      simp only [convertValue, convertScalar, decodeValue, decodeScalar]
      cases e.findValueByName (e.valueName n) <;> simp
    | _ => cases hk
  | message fields ih =>
    intro k hk
    cases k with
    | message t =>
      have hfit := forall₂_fits_of_hasKind hk
      have hitems : (∀ p ∈ (schema t).fields.zip fields, ∀ v ∈ p.2,
          decodeValue schema p.1.kind (convertValue schema {} p.1.kind v) = some [v]) ↔
          ∀ p ∈ (schema t).fields.zip fields, ∀ v ∈ p.2, Readable schema p.1.kind v :=
        forall₂_congr fun p hp => forall₂_congr fun v hv =>
          ih p.2 (List.of_mem_zip hp).2 v hv ((fits_of_mem_zip hfit hp).2.1 v hv)
      rw [readable_message_iff, ← hitems, convertValue]
      -- with a field set there is an object to read, without one only null
      by_cases hset : ∃ vs ∈ fields, vs ≠ []
      · rw [ofMembers_eq_object hfit hset, decodeValue_object false, Option.map_eq_some_iff]
        simpa [hset] using parseMessage_object_iff false hk
      · have hunset : ∀ vs ∈ fields, vs = [] := by simpa using hset
        rw [ofMembers_eq_null hfit hunset, decodeValue]
        simp [hset]
    | _ => cases hk

/-- A message in which a field is set is an object, and read back if it is readable. -/
theorem convertsBack_iff_of_set {t : String} (nullRoot : Bool)
    (message : ProtoJson.Message schema t) (hset : ∃ vs ∈ message.fields, vs ≠ []) :
    ConvertsBack nullRoot message ↔ Readable schema (.message t) (.message message.fields) := by
  have hkind := message.hasKind
  have hfit := forall₂_fits_of_hasKind hkind
  unfold ConvertsBack convertJSONObjectToMessage convertMessageToJsonObject
  rw [ofMembers_eq_object hfit hset, parseMessage_object_iff nullRoot hkind, readable_message_iff]
  simp only [hset, true_and]
  exact and_congr_right fun _ => forall₂_congr fun p hp => forall₂_congr fun v hv =>
    decodeValue_convertValue_iff v ((fits_of_mem_zip hfit hp).2.1 v hv)

/-- A message in which nothing is set is null, and read back if null stands for it. -/
theorem convertsBack_iff_of_unset {t : String} (nullRoot : Bool)
    (message : ProtoJson.Message schema t) (hunset : ∀ vs ∈ message.fields, vs = []) :
    ConvertsBack nullRoot message ↔ nullRoot = true := by
  have hfit := forall₂_fits_of_hasKind message.hasKind
  have hempty : ((schema t).fields.map fun _ => []) = message.fields :=
    (map_eq_iff_zip hfit).mpr fun p hp => (hunset p.2 (List.of_mem_zip hp).2).symm
  unfold ConvertsBack convertJSONObjectToMessage convertMessageToJsonObject
  rw [ofMembers_eq_null hfit hunset, parseMessage, hempty]
  cases nullRoot <;> simp

theorem not_readable_of_unset {t : String} {fields : List (List Value)}
    (hunset : ∀ vs ∈ fields, vs = []) : ¬ Readable schema (.message t) (.message fields) := by
  intro h
  obtain ⟨-, ⟨vs, hvs, hne⟩, -⟩ := readable_message_iff.mp h
  exact hne (hunset vs hvs)

/-- The round trip loses nothing if and only if every message below the root has a field
that is set and no JSON form of its own, every enum number has a name, and the root is
such a message too or is empty and null stands for an empty message. -/
theorem convertsBack_iff {t : String} (nullRoot : Bool)
    (message : ProtoJson.Message schema t) :
    ConvertsBack nullRoot message ↔
      Readable schema (.message t) (.message message.fields) ∨
        (∀ vs ∈ message.fields, vs = []) ∧ nullRoot = true := by
  by_cases hset : ∃ vs ∈ message.fields, vs ≠ []
  · have hnot : ¬ ∀ vs ∈ message.fields, vs = [] := by simpa using hset
    rw [convertsBack_iff_of_set nullRoot message hset]
    exact ⟨.inl, fun h => h.resolve_right fun hright => hnot hright.1⟩
  · have hunset : ∀ vs ∈ message.fields, vs = [] := by simpa using hset
    rw [convertsBack_iff_of_unset nullRoot message hunset]
    exact ⟨fun h => .inr ⟨hunset, h⟩, fun h => (h.resolve_left (not_readable_of_unset hunset)).2⟩

/-! ### A message in which nothing is set -/

/-- `AssistantToolResources` of the assistant API, with one of its two resources. -/
def toolResources : MessageType where
  fields := [⟨"file_search", .explicit, .message "AssistantFileSearchToolResource", none⟩]
  ownJsonForm := false
  distinct := List.nodup_singleton _

def fileSearchToolResource : MessageType where
  fields := [⟨"vector_store_ids", .repeated, .string, none⟩]
  ownJsonForm := false
  distinct := List.nodup_singleton _

def toolResourcesSchema : Schema := fun name =>
  if name = "AssistantToolResources" then toolResources else fileSearchToolResource

/-- File search without vector stores. -/
def noVectorStores : ProtoJson.Message toolResourcesSchema "AssistantToolResources" where
  fields := [[.message [[]]]]
  hasKind := by decide

theorem not_convertsBack_noVectorStores : ¬ ConvertsBack true noVectorStores := by
  have hlost : convertJSONObjectToMessage true toolResourcesSchema "AssistantToolResources"
      (convertMessageToJsonObject {} noVectorStores) = some [[]] := by rfl
  intro h
  unfold ConvertsBack at h
  rw [hlost] at h
  simp [noVectorStores] at h

end Instinct.JsonMessages
