/-
Instinct/DocumentValidation.lean

`DocumentUtils::ValidateDocument`: a document against a schema of its metadata.

The metadata are gone through up to the first violation.  A field that the schema does not
have is one, unless such fields are bypassed; then it is looked up in the schema all the
same, and the map throws.  So a validation is right if and only if it does not come to such
a field (`validatesRight_iff`).
-/
import Instinct.Core
import Mathlib.Data.List.Dedup

namespace Instinct.DocumentValidation

/-! ### Documents and schemas -/

/-- The `value` of a `PrimitiveVariable`. -/
inductive PrimitiveValue
  | int (value : Int32)
  | long (value : Int64)
  | float (value : Float32)
  | double (value : Float)
  | bool (value : Bool)
  | string (value : String)
  | bytes (value : ByteArray)

structure PrimitiveVariable where
  name : String
  value : Option PrimitiveValue
  isNull : Bool := false

structure Document where
  id : String := ""
  text : String
  metadata : List PrimitiveVariable := []

inductive PrimitiveType
  | unknown | int32 | int64 | float | double | bool | varchar
  deriving DecidableEq

structure MetadataFieldSchema where
  name : String
  type : PrimitiveType
  deriving DecidableEq

inductive ConstraintViolationCategory
  | unknownViolation | illegalFieldValue | illegalMetadataFormat
  deriving DecidableEq

structure ConstraintViolation where
  category : ConstraintViolationCategory := .illegalFieldValue
  fieldName : String
  message : String
  deriving DecidableEq

/-- `FieldDescriptor::type`. -/
inductive FieldType
  | int32 | int64 | float | double | bool | string | bytes
  deriving DecidableEq

/-- `FieldDescriptor::type_name`. -/
def FieldType.name : FieldType → String
  | int32 => "int32"
  | int64 => "int64"
  | float => "float"
  | double => "double"
  | bool => "bool"
  | string => "string"
  | bytes => "bytes"

/-- The type of the field that holds a value. -/
def PrimitiveValue.fieldType : PrimitiveValue → FieldType
  | int _ => .int32
  | long _ => .int64
  | float _ => .float
  | double _ => .double
  | bool _ => .bool
  | string _ => .string
  | bytes _ => .bytes

/-- The type of the field that should hold the values of a metadata field. -/
def PrimitiveType.expected : PrimitiveType → Option FieldType
  | unknown => none
  | varchar => some .string
  | int32 => some .int32
  | int64 => some .int64
  | float => some .float
  | double => some .double
  | bool => some .bool

/-! ### The validation -/

/-- `ConvertToMetadataSchemaMap`: the last field of a name counts. -/
def fieldSchemaMap (schema : List MetadataFieldSchema) (name : String) :
    Option MetadataFieldSchema :=
  schema.reverse.find? (·.name = name)

/-- The checks of one metadata field, which end at the first violation. -/
def validateField (schema : List MetadataFieldSchema) (bypassUnknownFields : Bool)
    (item : PrimitiveVariable) : Except Exn (Option ConstraintViolation) :=
  if bypassUnknownFields = false ∧ fieldSchemaMap schema item.name = none then
    pure (some {
      fieldName := item.name, message := "Metadata cannot contain field not defined by schema." })
  else
    match fieldSchemaMap schema item.name with
    | none => throw (.other "unordered_map::at")
    | some field =>
        match item.value with
        | none => pure (some { fieldName := item.name, message := "Field value is not set." })
        | some value =>
            match field.type.expected with
            | none =>
                pure (some { fieldName := item.name, message := "Field has unknown value type." })
            | some expected =>
                if value.fieldType ≠ expected then
                  pure (some {
                    fieldName := item.name
                    message := "Field " ++ item.name ++ " should have value of type "
                      ++ expected.name ++ ", but value of " ++ value.fieldType.name
                      ++ " is given." })
                else pure none

/-- The loop over the metadata, with the names that have not been found yet. -/
def validateFrom (schema : List MetadataFieldSchema) (bypassUnknownFields : Bool) :
    List PrimitiveVariable → List String → Except Exn (List ConstraintViolation)
  | [], knownFieldNames =>
      pure (knownFieldNames.map fun name =>
        { fieldName := name, message := "Field is missing in metadata" })
  | item :: rest, knownFieldNames => do
      match ← validateField schema bypassUnknownFields item with
      | some violation => pure [violation]
      | none =>
          validateFrom schema bypassUnknownFields rest (knownFieldNames.filter (· ≠ item.name))

/-- `ValidateDocument`.  The schema may be missing; the one that stands for none has no fields. -/
def validateDocument (doc : Document) (metadataSchema : Option (List MetadataFieldSchema))
    (bypassUnknownFields : Bool := true) : Except Exn (List ConstraintViolation) :=
  if isBlankString doc.text then
    pure [{ fieldName := "text", message := "text cannot be blank" }]
  else
    match metadataSchema with
    | none | some [] => pure []
    | some schema =>
        validateFrom schema bypassUnknownFields doc.metadata (schema.map (·.name)).dedup

/-! ### What is asked of it -/

/-- The value has the type of a field. -/
inductive HasType : PrimitiveValue → PrimitiveType → Prop
  | int (value : Int32) : HasType (.int value) .int32
  | long (value : Int64) : HasType (.long value) .int64
  | float (value : Float32) : HasType (.float value) .float
  | double (value : Float) : HasType (.double value) .double
  | bool (value : Bool) : HasType (.bool value) .bool
  | string (value : String) : HasType (.string value) .varchar

/-- A metadata field has the name of a field of the schema and a value of its type. -/
def FieldFits (schema : List MetadataFieldSchema) (item : PrimitiveVariable) : Prop :=
  ∃ field ∈ schema, field.name = item.name ∧ ∃ value, item.value = some value ∧
    HasType value field.type

/-- The document is as it should be. -/
structure Valid (doc : Document) (schema : List MetadataFieldSchema) (bypassUnknownFields : Bool) :
    Prop where
  text : isBlankString doc.text = false
  present : ∀ field ∈ schema, ∃ item ∈ doc.metadata, item.name = field.name
  typed : ∀ item ∈ doc.metadata, ∀ field ∈ schema, field.name = item.name →
    ∃ value, item.value = some value ∧ HasType value field.type
  known : schema ≠ [] → bypassUnknownFields = false →
    ∀ item ∈ doc.metadata, ∃ field ∈ schema, field.name = item.name

/-- The validation does not throw, and finds no violation if and only if there is none. -/
def ValidatesRight (doc : Document) (metadataSchema : Option (List MetadataFieldSchema))
    (bypassUnknownFields : Bool) : Prop :=
  ∃ violations, validateDocument doc metadataSchema bypassUnknownFields = .ok violations ∧
    (violations = [] ↔ Valid doc (metadataSchema.getD []) bypassUnknownFields)

/-- A field that is not in the schema is come to although such fields are bypassed. -/
def ReachesUnknown (doc : Document) (schema : List MetadataFieldSchema)
    (bypassUnknownFields : Bool) : Prop :=
  isBlankString doc.text = false ∧ schema ≠ [] ∧ bypassUnknownFields = true ∧
    ∃ front item back, doc.metadata = front ++ item :: back ∧
      (∀ before ∈ front, FieldFits schema before) ∧ ∀ field ∈ schema, field.name ≠ item.name

/-! ### One field -/

section Field

variable {schema : List MetadataFieldSchema} {bypassUnknownFields : Bool} {item : PrimitiveVariable}

theorem fieldSchemaMap_eq_none_iff {name : String} :
    fieldSchemaMap schema name = none ↔ ∀ field ∈ schema, field.name ≠ name := by
  simp only [fieldSchemaMap, List.find?_eq_none, List.mem_reverse, decide_eq_true_eq, ne_eq]

theorem fieldSchemaMap_spec {name : String} {field : MetadataFieldSchema}
    (h : fieldSchemaMap schema name = some field) : field ∈ schema ∧ field.name = name :=
  ⟨List.mem_reverse.mp (List.mem_of_find?_eq_some h), by simpa using List.find?_some h⟩

/-- With distinct names there is one field of a name. -/
theorem eq_of_name_eq (hnames : (schema.map (·.name)).Nodup) {field field' : MetadataFieldSchema}
    (h : field ∈ schema) (h' : field' ∈ schema) (hname : field.name = field'.name) :
    field = field' :=
  List.inj_on_of_nodup_map hnames h h' hname

/-- So the field of the name decides whether a metadata field fits. -/
theorem fieldFits_iff_of_name (hnames : (schema.map (·.name)).Nodup) {field : MetadataFieldSchema}
    (hfield : field ∈ schema) (hname : field.name = item.name) :
    FieldFits schema item ↔ ∃ value, item.value = some value ∧ HasType value field.type := by
  constructor
  · rintro ⟨field', hfield', hname', htype⟩
    obtain rfl := eq_of_name_eq hnames hfield hfield' (hname.trans hname'.symm)
    exact htype
  · exact fun htype => ⟨field, hfield, hname, htype⟩

theorem hasType_iff {value : PrimitiveValue} {type : PrimitiveType} :
    HasType value type ↔ type.expected = some value.fieldType := by
  constructor
  · rintro ⟨⟩ <;> rfl
  · intro h
    cases value <;> cases type <;> first | constructor | cases h

theorem exists_expected {type : PrimitiveType} (h : type ≠ .unknown) :
    ∃ expected, type.expected = some expected := by
  cases type with
  | unknown => exact absurd rfl h
  | int32 | int64 | float | double | bool | varchar => exact ⟨_, rfl⟩

/-- What is made of one field: it fits, it is looked up in vain, or it is a violation. -/
theorem validateField_cases (hnames : (schema.map (·.name)).Nodup)
    (htypes : ∀ field ∈ schema, field.type ≠ .unknown) :
    (FieldFits schema item ∧ validateField schema bypassUnknownFields item = .ok none) ∨
      (bypassUnknownFields = true ∧ (∀ field ∈ schema, field.name ≠ item.name) ∧
        ∃ e, validateField schema bypassUnknownFields item = .error e) ∨
      (¬ FieldFits schema item ∧
        (bypassUnknownFields = false ∨ ∃ field ∈ schema, field.name = item.name) ∧
        ∃ violation, validateField schema bypassUnknownFields item = .ok (some violation)) := by
  rw [validateField]
  cases hfind : fieldSchemaMap schema item.name with
  | none =>
      have hunknown := fieldSchemaMap_eq_none_iff.mp hfind
      cases bypassUnknownFields with
      | true =>
          rw [if_neg (fun h => Bool.false_ne_true h.1.symm)]
          exact .inr (.inl ⟨rfl, hunknown, _, rfl⟩)
      | false =>
          rw [if_pos ⟨rfl, rfl⟩]
          refine .inr (.inr ⟨?_, .inl rfl, _, rfl⟩)
          rintro ⟨field, hfield, hname, -⟩
          exact hunknown field hfield hname
  | some field =>
      obtain ⟨hfield, hname⟩ := fieldSchemaMap_spec hfind
      have hfits := @fieldFits_iff_of_name schema item hnames field hfield hname
      rw [if_neg (fun h => by cases h.2)]
      cases hvalue : item.value with
      | none =>
          refine .inr (.inr ⟨fun h => ?_, .inr ⟨field, hfield, hname⟩, _, rfl⟩)
          obtain ⟨value, hvalue', -⟩ := hfits.mp h
          rw [hvalue] at hvalue'
          cases hvalue'
      | some value =>
          obtain ⟨expected, hexpected⟩ := exists_expected (htypes field hfield)
          have hfitsType : FieldFits schema item ↔ value.fieldType = expected := by
            rw [hfits, hvalue]
            simp only [Option.some.injEq, exists_eq_left', hasType_iff, hexpected]
            exact eq_comm
          simp only [hexpected]
          by_cases htype : value.fieldType = expected
          · exact .inl ⟨hfitsType.mpr htype, if_neg (not_not.mpr htype)⟩
          · exact .inr (.inr ⟨fun h => htype (hfitsType.mp h), .inr ⟨field, hfield, hname⟩, _,
              if_pos htype⟩)

end Field

/-! ### All fields -/

section Fields

variable {schema : List MetadataFieldSchema} {bypassUnknownFields : Bool}

/-- The metadata up to the first field that does not fit: there is none, or one that is looked up in
vain, or one that is a violation. -/
theorem validateFrom_cases (hnames : (schema.map (·.name)).Nodup)
    (htypes : ∀ field ∈ schema, field.type ≠ .unknown) (items : List PrimitiveVariable)
    (knownFieldNames : List String) :
    ((∀ item ∈ items, FieldFits schema item) ∧
        ∃ violations,
          validateFrom schema bypassUnknownFields items knownFieldNames = .ok violations ∧
          (violations = [] ↔ ∀ name ∈ knownFieldNames, ∃ item ∈ items, item.name = name)) ∨
      ∃ front item back, items = front ++ item :: back ∧
        (∀ before ∈ front, FieldFits schema before) ∧
        ((bypassUnknownFields = true ∧ (∀ field ∈ schema, field.name ≠ item.name) ∧
            ∃ e, validateFrom schema bypassUnknownFields items knownFieldNames = .error e) ∨
          (¬ FieldFits schema item ∧
            (bypassUnknownFields = false ∨ ∃ field ∈ schema, field.name = item.name) ∧
            ∃ violation, validateFrom schema bypassUnknownFields items knownFieldNames
              = .ok [violation])) := by
  induction items generalizing knownFieldNames with
  | nil =>
      refine .inl ⟨fun item h => absurd h List.not_mem_nil, _, rfl, ?_⟩
      rw [List.map_eq_nil_iff, List.eq_nil_iff_forall_not_mem]
      simp only [List.not_mem_nil, false_and, exists_false, imp_false]
  | cons item items ih =>
      rw [validateFrom]
      rcases @validateField_cases schema bypassUnknownFields item hnames htypes with
        ⟨hfits, h⟩ | ⟨hbypass, hunknown, e, h⟩ | ⟨hfits, hknown, violation, h⟩
      · rw [h]
        rcases ih (knownFieldNames.filter (· ≠ item.name)) with
          ⟨hall, violations, hrest, hempty⟩ | ⟨front, other, back, rfl, hfront, hother⟩
        · refine .inl ⟨List.forall_mem_cons.mpr ⟨hfits, hall⟩, violations, hrest, hempty.trans ?_⟩
          refine forall_congr' fun name => ?_
          rw [List.mem_filter, decide_eq_true_eq, List.exists_mem_cons_iff]
          constructor
          · intro hrest hname
            by_cases heq : item.name = name
            · exact .inl heq
            · exact .inr (hrest ⟨hname, fun h => heq h.symm⟩)
          · rintro hname ⟨hmem, hne⟩
            exact (hname hmem).resolve_left fun h => hne h.symm
        · exact .inr ⟨item :: front, other, back, rfl, List.forall_mem_cons.mpr ⟨hfits, hfront⟩,
            hother⟩
      · rw [h]
        exact .inr ⟨[], item, items, rfl, fun before h => absurd h List.not_mem_nil,
          .inl ⟨hbypass, hunknown, e, rfl⟩⟩
      · rw [h]
        exact .inr ⟨[], item, items, rfl, fun before h => absurd h List.not_mem_nil,
          .inr ⟨hfits, hknown, violation, rfl⟩⟩

/-- With distinct names a field fits if it has the type of each field of its name, and there is
one. -/
theorem fieldFits_iff (hnames : (schema.map (·.name)).Nodup) {item : PrimitiveVariable} :
    FieldFits schema item ↔ (∃ field ∈ schema, field.name = item.name) ∧
      ∀ field ∈ schema, field.name = item.name →
        ∃ value, item.value = some value ∧ HasType value field.type := by
  constructor
  · intro hfits
    obtain ⟨field, hfield, hname, -⟩ := id hfits
    exact ⟨⟨field, hfield, hname⟩, fun field' hfield' hname' =>
      (fieldFits_iff_of_name hnames hfield' hname').mp hfits⟩
  · rintro ⟨⟨field, hfield, hname⟩, htype⟩
    exact ⟨field, hfield, hname, htype field hfield hname⟩

/-- The first element without a property is the only one. -/
theorem first_unique {α : Type} {P : α → Prop} {front front' back back' : List α} {a a' : α}
    (h : front ++ a :: back = front' ++ a' :: back') (hfront : ∀ b ∈ front, P b) (ha : ¬ P a)
    (hfront' : ∀ b ∈ front', P b) (ha' : ¬ P a') : a = a' := by
  rcases List.append_eq_append_iff.mp h with ⟨between, rfl, hback⟩ | ⟨between, rfl, hback⟩
  · rcases between with - | ⟨b, between⟩
    · exact (List.cons.inj hback).1
    · obtain ⟨rfl, -⟩ := List.cons.inj hback
      exact absurd (hfront' a (List.mem_append_right front List.mem_cons_self)) ha
  · rcases between with - | ⟨b, between⟩
    · exact (List.cons.inj hback).1.symm
    · obtain ⟨rfl, -⟩ := List.cons.inj hback
      exact absurd (hfront a' (List.mem_append_right front' List.mem_cons_self)) ha'

end Fields

theorem validatesRight_of_blank {doc : Document}
    {metadataSchema : Option (List MetadataFieldSchema)} {bypassUnknownFields : Bool}
    (h : isBlankString doc.text = true) :
    ValidatesRight doc metadataSchema bypassUnknownFields := by
  refine ⟨_, if_pos h, iff_of_false (List.cons_ne_nil _ _) fun hvalid => ?_⟩
  rw [hvalid.text] at h
  cases h

theorem validatesRight_of_no_schema {doc : Document} {bypassUnknownFields : Bool}
    (h : isBlankString doc.text = false) :
    ValidatesRight doc none bypassUnknownFields ∧
      ValidatesRight doc (some []) bypassUnknownFields := by
  have hnot : ¬ isBlankString doc.text = true := by
    rw [h]
    exact Bool.false_ne_true
  have hvalid : Valid doc [] bypassUnknownFields :=
    ⟨h, fun field hfield => absurd hfield List.not_mem_nil,
      fun item _ field hfield => absurd hfield List.not_mem_nil, fun hne => absurd rfl hne⟩
  exact ⟨⟨[], if_neg hnot, iff_of_true rfl hvalid⟩, ⟨[], if_neg hnot, iff_of_true rfl hvalid⟩⟩

/-- A schema with fields: the first field that does not fit decides. -/
theorem validatesRight_schema_iff {doc : Document} {schema : List MetadataFieldSchema}
    {bypassUnknownFields : Bool} (hnames : (schema.map (·.name)).Nodup)
    (htypes : ∀ field ∈ schema, field.type ≠ .unknown) (htext : isBlankString doc.text = false)
    (hschema : schema ≠ []) :
    ValidatesRight doc (some schema) bypassUnknownFields ↔
      ¬ ReachesUnknown doc schema bypassUnknownFields := by
  have hvalidate : validateDocument doc (some schema) bypassUnknownFields
      = validateFrom schema bypassUnknownFields doc.metadata (schema.map (·.name)).dedup := by
    rcases schema with - | ⟨field, schema⟩
    · exact absurd rfl hschema
    · refine if_neg ?_
      rw [htext]
      exact Bool.false_ne_true
  rw [ValidatesRight, hvalidate]
  rcases @validateFrom_cases schema bypassUnknownFields hnames htypes doc.metadata
    (schema.map (·.name)).dedup with
    ⟨hall, violations, hrun, hempty⟩ | ⟨front, item, back, hmetadata, hfront, hitem⟩
  · -- all fields fit
    refine iff_of_true ⟨violations, hrun, hempty.trans ?_⟩ ?_
    · simp only [List.mem_dedup, List.forall_mem_map]
      refine ⟨fun hpresent => ⟨htext, hpresent, fun item hmem => ?_, fun _ _ item hmem => ?_⟩,
        fun hvalid => hvalid.present⟩
      · exact ((fieldFits_iff hnames).mp (hall item hmem)).2
      · exact ((fieldFits_iff hnames).mp (hall item hmem)).1
    · rintro ⟨-, -, -, front, item, back, hmetadata, -, hunknown⟩
      obtain ⟨field, hfield, hname, -⟩ := hall item (by rw [hmetadata]; simp)
      exact hunknown field hfield hname
  · rcases hitem with ⟨hbypass, hunknown, e, hrun⟩ | ⟨hfits, hknown, violation, hrun⟩
    · refine iff_of_false ?_ fun h => h ?_
      · rintro ⟨violations, hok, -⟩
        rw [hrun] at hok
        cases hok
      · exact ⟨htext, hschema, hbypass, front, item, back, hmetadata, hfront, hunknown⟩
    · refine iff_of_true ⟨_, hrun, iff_of_false (List.cons_ne_nil _ _) fun hvalid => ?_⟩ ?_
      · have hmem : item ∈ doc.metadata := by
          rw [hmetadata]
          exact List.mem_append_right front List.mem_cons_self
        refine hfits ((fieldFits_iff hnames).mpr ⟨?_, hvalid.typed item hmem⟩)
        exact hknown.elim (fun hbypass => hvalid.known hschema hbypass item hmem) id
      · rintro ⟨-, -, hbypass, front', item', back', hmetadata', hfront', hunknown⟩
        have hfits' : ¬ FieldFits schema item' := fun ⟨field, hfield, hname, _⟩ =>
          hunknown field hfield hname
        obtain rfl := first_unique (hmetadata.symm.trans hmetadata') hfront hfits hfront' hfits'
        rcases hknown with hnot | ⟨field, hfield, hname⟩
        · exact Bool.false_ne_true (hnot.symm.trans hbypass)
        · exact hunknown field hfield hname

/-- **A validation is right** if and only if it does not come to a field that is not in the schema
while such fields are bypassed. -/
theorem validatesRight_iff (doc : Document) (metadataSchema : Option (List MetadataFieldSchema))
    (hnames : ((metadataSchema.getD []).map (·.name)).Nodup)
    (htypes : ∀ field ∈ metadataSchema.getD [], field.type ≠ .unknown)
    (bypassUnknownFields : Bool) :
    ValidatesRight doc metadataSchema bypassUnknownFields ↔
      ¬ ReachesUnknown doc (metadataSchema.getD []) bypassUnknownFields := by
  cases htext : isBlankString doc.text with
  | true =>
      refine iff_of_true (validatesRight_of_blank htext) fun h => ?_
      rw [h.1] at htext
      cases htext
  | false =>
      obtain ⟨hnone, hempty⟩ := @validatesRight_of_no_schema doc bypassUnknownFields htext
      rcases metadataSchema with - | ⟨- | ⟨field, schema⟩⟩
      · exact iff_of_true hnone fun h => h.2.1 rfl
      · exact iff_of_true hempty fun h => h.2.1 rfl
      · exact validatesRight_schema_iff hnames htypes htext (List.cons_ne_nil _ _)

/-- A document with one field more than the schema. -/
def extraField : Document :=
  { text := "Zebra", metadata := [{ name := "genus", value := some (.string "Equus") }] }

theorem validatesRight_extraField :
    ValidatesRight extraField (some [{ name := "name", type := .varchar }]) false :=
  (validatesRight_iff extraField (some [{ name := "name", type := .varchar }])
    (List.nodup_singleton _) (by decide) false).mpr fun h => Bool.false_ne_true h.2.2.1

/-- With extra fields bypassed its validation throws. -/
theorem extraField_throws :
    ¬ ValidatesRight extraField (some [{ name := "name", type := .varchar }]) true := by
  rintro ⟨violations, hok, -⟩
  cases hok

end Instinct.DocumentValidation
