/-
Instinct/SparseTools.lean

The tools of an assistant as JSON with the default options, and back through the parser.

What has its default value is left out, and a JSON value is null until something is
assigned to it.  So a message of which nothing is set is null.  As a field it is left
unset, and lost; as a tool or a property it comes back where the parser takes a null for an
empty message.  A tool comes back if and only if something of it is set, and of every
message in it, these nulls apart (`parseTool_sparseTool_iff`).
-/
import Instinct.AssistantTools

namespace Instinct.AssistantRows

open JsonStructs MessageRows

/-! ### `ConvertMessageToJsonObject` without `keep_default_values` -/

/-- A text, if it is not empty. -/
def sparseText (name text : String) : List (String × Json) :=
  if text = "" then [] else [(name, .string text)]

mutual

def sparseSchema : FunctionParametersSchema → Json
  | ⟨type, properties, items, description, required, enum⟩ =>
      .ofMembers (sparseText "type" type ++
        ((if properties.isEmpty then []
          else [("properties", .object (sparseProperties properties))]) ++
        (sparseItems items ++
        (sparseText "description" description ++
        (textsMember "required" required ++
        textsMember "enum" enum)))))

def sparseProperties : List (String × FunctionParametersSchema) → List (String × Json)
  | [] => []
  | (name, schema) :: properties => (name, sparseSchema schema) :: sparseProperties properties

def sparseItems : Option FunctionParametersSchema → List (String × Json)
  | none => []
  | some items => [("items", sparseSchema items)]

end

def sparseFunctionTool (function : FunctionTool) : Json :=
  .ofMembers (sparseText "description" function.description ++
    (sparseText "name" function.name ++
    ((function.parameters.map fun schema => ("parameters", sparseSchema schema)).toList ++
    textsMember "required" function.required)))

def sparseTool (tool : AssistantToolObject) : Json :=
  .ofMembers ((if tool.type = 0 then []
      else [("type", .string (assistantToolType.valueName tool.type))]) ++
    (tool.function.map fun function => ("function", sparseFunctionTool function)).toList)

/-! ### Messages of which something is set -/

/-- Something is set of every schema in this one, or a null in a map stands for it. -/
inductive FunctionParametersSchema.Kept (nulls : NullMessages) : FunctionParametersSchema → Prop
  | intro (schema : FunctionParametersSchema) :
      (∀ p ∈ schema.properties, p.2 = {} → nulls.value = true) →
      (∀ p ∈ schema.properties, Kept nulls p.2) →
      (∀ items ∈ schema.items, items ≠ {}) → (∀ items ∈ schema.items, Kept nulls items) →
      Kept nulls schema

structure FunctionTool.Kept (nulls : NullMessages) (function : FunctionTool) : Prop where
  set : function ≠ {}
  parameters : ∀ schema ∈ function.parameters, schema ≠ {} ∧ schema.Kept nulls

structure AssistantToolObject.Kept (nulls : NullMessages) (tool : AssistantToolObject) : Prop where
  set : tool = {} → nulls.root = true
  type : assistantToolType.Declares tool.type
  function : ∀ function ∈ tool.function, function.Kept nulls

theorem FunctionParametersSchema.kept_iff {nulls : NullMessages}
    {schema : FunctionParametersSchema} :
    schema.Kept nulls ↔
      (∀ p ∈ schema.properties, (p.2 = {} → nulls.value = true) ∧ p.2.Kept nulls) ∧
      ∀ items ∈ schema.items, items ≠ {} ∧ items.Kept nulls := by
  constructor
  · rintro ⟨_, hset, hproperties, hitemset, hitems⟩
    exact ⟨fun p hp => ⟨hset p hp, hproperties p hp⟩,
      fun items hmem => ⟨hitemset items hmem, hitems items hmem⟩⟩
  · rintro ⟨hproperties, hitems⟩
    exact .intro schema (fun p hp => (hproperties p hp).1) (fun p hp => (hproperties p hp).2)
      (fun items hmem => (hitems items hmem).1) fun items hmem => (hitems items hmem).2

/-! ### Which schemas come back -/

/-- A message field of JSON: null leaves it unset. -/
def readMessage? {α : Type} (parse : Json → Option α) : Json → Option (Option α)
  | .null => some none
  | j => (parse j).map some

theorem sparseText_eq_nil {name text : String} : sparseText name text = [] ↔ text = "" := by
  rw [sparseText]
  split <;> simp [*]

theorem textsMember_eq_nil {name : String} {texts : List String} :
    textsMember name texts = [] ↔ texts = [] := by
  cases texts <;> simp [textsMember]

/-- The members of a schema. -/
def sparseMembers (schema : FunctionParametersSchema) : List (String × Json) :=
  sparseText "type" schema.type ++
  ((if schema.properties.isEmpty then []
    else [("properties", .object (sparseProperties schema.properties))]) ++
  (sparseItems schema.items ++
  (sparseText "description" schema.description ++
  (textsMember "required" schema.required ++
  textsMember "enum" schema.enum))))

theorem sparseSchema_eq (schema : FunctionParametersSchema) :
    sparseSchema schema = .ofMembers (sparseMembers schema) := by
  cases schema
  rfl

section Members

variable {nulls : NullMessages} {members : List (String × Json)} {schema : FunctionParametersSchema}

/-- A text is read as it is, also where it is left out. -/
theorem parse_sparseText {σ : Type} (parse : List (String × Json) → Option σ)
    (set : String → σ → σ) {name : String}
    (hmember : ∀ text, parse ((name, .string text) :: members) = (parse members).map (set text))
    (hunset : ∀ s ∈ parse members, set "" s = s) (text : String) :
    parse (sparseText name text ++ members) = (parse members).map (set text) := by
  rw [sparseText]
  split
  · next hempty =>
      rw [hempty, List.nil_append]
      rcases hparse : parse members with - | s
      · rfl
      · rw [Option.map_some, hunset s hparse]
  · exact hmember text

theorem parseSchemaMembers_sparse_type
    (hunset : ∀ schema ∈ parseSchemaMembers nulls members, schema.type = "") (type : String) :
    parseSchemaMembers nulls (sparseText "type" type ++ members)
      = (parseSchemaMembers nulls members).map fun schema => { schema with type := type } := by
  refine parse_sparseText (parseSchemaMembers nulls)
    (fun type schema => { schema with type := type })
    (fun text => ?_) (fun schema hschema => ?_) type
  · rw [parseSchemaMembers]
    cases parseSchemaMembers nulls members <;> rfl
  · have htype := hunset schema hschema
    cases schema
    cases htype
    rfl

theorem parseSchemaMembers_sparse_description (description : String)
    (h : parseSchemaMembers nulls members = some schema) (hunset : schema.description = "") :
    parseSchemaMembers nulls (sparseText "description" description ++ members)
      = some { schema with description := description } := by
  refine (parse_sparseText (parseSchemaMembers nulls)
    (fun description schema => { schema with description := description }) (fun text => ?_)
    (fun schema' hschema => ?_) description).trans (by rw [h]; rfl)
  · rw [parseSchemaMembers]
    cases parseSchemaMembers nulls members <;> rfl
  · obtain rfl := Option.some.inj (h.symm.trans hschema)
    cases schema
    cases hunset
    rfl

theorem ofMembers_cases (members : List (String × Json)) :
    (members = [] ∧ Json.ofMembers members = .null) ∨
      (members ≠ [] ∧ Json.ofMembers members = .object members) := by
  cases members with
  | nil => exact .inl ⟨rfl, rfl⟩
  | cons member members => exact .inr ⟨List.cons_ne_nil _ _, rfl⟩

/-- A message field is read from its member: null leaves it as it is, and an object is parsed. -/
theorem parse_ofMembers {σ α : Type} (parse : List (String × Json) → Option σ)
    (read : Json → Option α) (set : Option α → σ → σ) {name : String} {s : σ}
    (hnull : parse ((name, .null) :: members) = some s) (hunset : set none s = s)
    (hobject : ∀ fields, parse ((name, .object fields) :: members)
      = (read (.object fields)).map fun a => set (some a) s) (fields : List (String × Json)) :
    parse ((name, .ofMembers fields) :: members)
      = (readMessage? read (.ofMembers fields)).map (set · s) := by
  rcases ofMembers_cases fields with ⟨-, hjson⟩ | ⟨-, hjson⟩
  · rw [hjson, hnull, readMessage?, Option.map_some, hunset]
  · rw [hjson, hobject]
    show _ = ((read (.object fields)).map some).map _
    rw [Option.map_map]
    rfl

theorem parseSchemaMembers_sparse_items (items? : Option FunctionParametersSchema)
    (h : parseSchemaMembers nulls members = some schema) (hnone : schema.items = none) :
    parseSchemaMembers nulls (sparseItems items? ++ members)
      = (items?.elim (some none) fun items =>
          readMessage? (parseSchema nulls) (sparseSchema items)).map fun items =>
        { schema with items := items } := by
  have hsame : { schema with items := none } = schema := by
    cases schema
    cases hnone
    rfl
  cases items? with
  | none =>
      rw [Option.elim_none, Option.map_some, hsame]
      exact h
  | some items =>
      rw [sparseItems, Option.elim_some, sparseSchema_eq, List.singleton_append]
      refine parse_ofMembers (parseSchemaMembers nulls) (parseSchema nulls)
        (fun items schema => { schema with items := items }) ?_ hsame (fun fields => ?_) _
      · rw [parseSchemaMembers, h]
        rfl
      · rw [parseSchemaMembers, h]
        rfl

theorem parseSchemaMembers_sparse_properties
    (properties : List (String × FunctionParametersSchema))
    {schema? : Option FunctionParametersSchema} (h : parseSchemaMembers nulls members = schema?)
    (hnone : ∀ schema ∈ schema?, schema.properties = []) :
    parseSchemaMembers nulls ((if properties.isEmpty then []
        else [("properties", .object (sparseProperties properties))]) ++ members)
      = schema?.bind fun schema => (parseProperties nulls (sparseProperties properties)).map
          fun properties => { schema with properties := properties } := by
  cases properties with
  | nil =>
      cases schema? with
      | none => exact h
      | some schema =>
          have hsame : { schema with properties := [] } = schema := by
            cases schema
            cases hnone _ rfl
            rfl
          show parseSchemaMembers nulls members = some { schema with properties := [] }
          rw [hsame, h]
  | cons property properties =>
      show parseSchemaMembers nulls
        (("properties", .object (sparseProperties (property :: properties))) :: members) = _
      rw [parseSchemaMembers, h]
      rfl

end Members

theorem sparseMembers_eq_nil {schema : FunctionParametersSchema} :
    sparseMembers schema = [] ↔ schema = {} := by
  obtain ⟨type, properties, items?, description, required, enum⟩ := schema
  constructor
  · intro h
    simp only [sparseMembers, List.append_eq_nil_iff, sparseText_eq_nil, textsMember_eq_nil] at h
    obtain ⟨rfl, hproperties, hitems, rfl, rfl, rfl⟩ := h
    cases properties with
    | cons p properties => cases hproperties
    | nil =>
        cases items? with
        | some items => cases hitems
        | none => rfl
  · intro h
    injection h
    subst_vars
    rfl

section Schemas

variable (nulls : NullMessages)

/-- What is read for a field that holds a schema. -/
def readSchema? (items? : Option FunctionParametersSchema) :
    Option (Option FunctionParametersSchema) :=
  items?.elim (some none) fun items => readMessage? (parseSchema nulls) (sparseSchema items)

theorem parseSchemaMembers_sparseMembers (schema : FunctionParametersSchema) :
    parseSchemaMembers nulls (sparseMembers schema)
      = (readSchema? nulls schema.items).bind fun items =>
        (parseProperties nulls (sparseProperties schema.properties)).map fun properties =>
          { schema with items := items, properties := properties } := by
  obtain ⟨type, properties, items?, description, required, enum⟩ := schema
  have hrequired := parseSchemaMembers_required required
    (parseSchemaMembers_enum enum (show parseSchemaMembers nulls [] = some _ from rfl) rfl) rfl
  rw [List.append_nil] at hrequired
  have hdescription := parseSchemaMembers_sparse_description description hrequired rfl
  have hitems := parseSchemaMembers_sparse_items items? hdescription rfl
  have hproperties := parseSchemaMembers_sparse_properties properties hitems
    (fun schema h => by
      obtain ⟨_, -, rfl⟩ := Option.map_eq_some_iff.mp h
      rfl)
  have htype : ∀ schema ∈ parseSchemaMembers nulls ((if properties.isEmpty then []
        else [("properties", .object (sparseProperties properties))]) ++
      (sparseItems items? ++ (sparseText "description" description ++
      (textsMember "required" required ++ textsMember "enum" enum)))), schema.type = "" := by
    intro schema h
    rw [hproperties] at h
    obtain ⟨_, hfirst, h⟩ := Option.bind_eq_some_iff.mp h
    obtain ⟨_, -, rfl⟩ := Option.map_eq_some_iff.mp h
    obtain ⟨_, -, rfl⟩ := Option.map_eq_some_iff.mp hfirst
    rfl
  refine (parseSchemaMembers_sparse_type htype type).trans ?_
  rw [hproperties]
  show Option.map _ (((readSchema? nulls items?).map _).bind _) = _
  cases readSchema? nulls items? <;>
    cases parseProperties nulls (sparseProperties properties) <;> rfl

/-- As a value in a map, a schema comes back by its members, or null stands for it. -/
theorem parseSchema_sparseSchema_iff (schema : FunctionParametersSchema) :
    parseSchema nulls (sparseSchema schema) = some schema ↔
      (schema = {} → nulls.value = true) ∧
        parseSchemaMembers nulls (sparseMembers schema) = some schema := by
  rw [sparseSchema_eq]
  rcases ofMembers_cases (sparseMembers schema) with ⟨hnil, hjson⟩ | ⟨hne, hjson⟩
  · obtain rfl := sparseMembers_eq_nil.mp hnil
    rw [hjson, hnil, parseSchema]
    cases nulls.value with
    | true => exact iff_of_true rfl ⟨fun _ => rfl, rfl⟩
    | false => exact iff_of_false nofun fun h => Bool.false_ne_true (h.1 rfl)
  · rw [hjson, parseSchema]
    exact (and_iff_right fun hunset => absurd (sparseMembers_eq_nil.mpr hunset) hne).symm

/-- As a field, it comes back by its members if something of it is set. -/
theorem readSchema?_some_iff (schema : FunctionParametersSchema) :
    readSchema? nulls (some schema) = some (some schema) ↔
      schema ≠ {} ∧ parseSchemaMembers nulls (sparseMembers schema) = some schema := by
  rw [readSchema?, Option.elim_some, sparseSchema_eq]
  rcases ofMembers_cases (sparseMembers schema) with ⟨hnil, hjson⟩ | ⟨hne, hjson⟩
  · rw [hjson]
    exact iff_of_false nofun fun h => h.1 (sparseMembers_eq_nil.mp hnil)
  · rw [hjson, and_iff_right fun hunset => hne (sparseMembers_eq_nil.mpr hunset)]
    show (parseSchemaMembers nulls (sparseMembers schema)).map some = _ ↔ _
    simp

mutual

/-- The members of a schema give it back if and only if it is kept, by induction over the schemas in
it. -/
theorem schema_kept_iff : ∀ schema : FunctionParametersSchema,
    parseSchemaMembers nulls (sparseMembers schema) = some schema ↔ schema.Kept nulls
  | ⟨type, properties, items, description, required, enum⟩ => by
      rw [FunctionParametersSchema.kept_iff, ← properties_kept_iff properties,
        ← items_kept_iff items, parseSchemaMembers_sparseMembers]
      constructor
      · intro h
        obtain ⟨items', hitems, h⟩ := Option.bind_eq_some_iff.mp h
        obtain ⟨properties', hproperties, h⟩ := Option.map_eq_some_iff.mp h
        have hsame := FunctionParametersSchema.mk.inj h
        exact ⟨hproperties.trans (congrArg some hsame.2.1),
          hitems.trans (congrArg some hsame.2.2.1)⟩
      · rintro ⟨hproperties, hitems⟩
        show (readSchema? nulls items).bind _ = _
        rw [hitems]
        show (parseProperties nulls (sparseProperties properties)).map _ = _
        rw [hproperties]
        rfl

theorem properties_kept_iff : ∀ properties : List (String × FunctionParametersSchema),
    parseProperties nulls (sparseProperties properties) = some properties ↔
      ∀ p ∈ properties, (p.2 = {} → nulls.value = true) ∧ p.2.Kept nulls
  | [] => iff_of_true rfl fun p hp => absurd hp List.not_mem_nil
  | (name, schema) :: properties => by
      rw [List.forall_mem_cons, ← properties_kept_iff properties, ← schema_kept_iff schema,
        ← parseSchema_sparseSchema_iff, sparseProperties, parseProperties]
      constructor
      · intro h
        obtain ⟨schema', hschema, h⟩ := Option.bind_eq_some_iff.mp h
        obtain ⟨properties', hproperties, h⟩ := Option.bind_eq_some_iff.mp h
        obtain ⟨hfirst, rfl⟩ := List.cons.inj (Option.some.inj h)
        rw [(Prod.mk.inj hfirst).2] at hschema
        exact ⟨hschema, hproperties⟩
      · rintro ⟨hschema, hproperties⟩
        rw [hschema, hproperties]
        rfl

theorem items_kept_iff : ∀ items? : Option FunctionParametersSchema,
    readSchema? nulls items? = some items? ↔
      ∀ items ∈ items?, items ≠ {} ∧ items.Kept nulls
  | none => iff_of_true rfl nofun
  | some items => by
      simp only [Option.mem_some_iff, forall_eq']
      rw [readSchema?_some_iff, schema_kept_iff items]

end

end Schemas

/-! ### Which functions and tools come back -/

section FunctionTools

variable {nulls : NullMessages} {members : List (String × Json)} {function : FunctionTool}

theorem parseFunctionTool_sparse_description
    (hunset : ∀ function ∈ parseFunctionTool nulls members, function.description = "")
    (description : String) :
    parseFunctionTool nulls (sparseText "description" description ++ members)
      = (parseFunctionTool nulls members).map fun function =>
        { function with description := description } := by
  refine parse_sparseText (parseFunctionTool nulls)
    (fun description function => { function with description := description })
    (fun text => ?_) (fun function hfunction => ?_) description
  · rw [parseFunctionTool]
    cases parseFunctionTool nulls members <;> rfl
  · rw [← hunset function hfunction]

theorem parseFunctionTool_sparse_name
    (hunset : ∀ function ∈ parseFunctionTool nulls members, function.name = "") (name : String) :
    parseFunctionTool nulls (sparseText "name" name ++ members)
      = (parseFunctionTool nulls members).map fun function => { function with name := name } := by
  refine parse_sparseText (parseFunctionTool nulls)
    (fun name function => { function with name := name })
    (fun text => ?_) (fun function hfunction => ?_) name
  · rw [parseFunctionTool]
    cases parseFunctionTool nulls members <;> rfl
  · rw [← hunset function hfunction]

theorem parseFunctionTool_sparse_parameters (schema? : Option FunctionParametersSchema)
    (h : parseFunctionTool nulls members = some function) (hnone : function.parameters = none) :
    parseFunctionTool nulls
        ((schema?.map fun schema => ("parameters", sparseSchema schema)).toList ++ members)
      = (readSchema? nulls schema?).map fun parameters =>
        { function with parameters := parameters } := by
  have hsame : { function with parameters := none } = function := by rw [← hnone]
  cases schema? with
  | none =>
      show parseFunctionTool nulls members = some { function with parameters := none }
      rw [hsame, h]
  | some schema =>
      rw [readSchema?, Option.elim_some, Option.map_some, Option.toList_some,
        List.singleton_append, sparseSchema_eq]
      refine parse_ofMembers (parseFunctionTool nulls) (parseSchema nulls)
        (fun parameters function => { function with parameters := parameters }) ?_ hsame
        (fun fields => ?_) _
      · rw [parseFunctionTool, h]
        rfl
      · rw [parseFunctionTool, h]
        rfl

/-- The members of a function. -/
def functionMembers (function : FunctionTool) : List (String × Json) :=
  sparseText "description" function.description ++
    (sparseText "name" function.name ++
    ((function.parameters.map fun schema => ("parameters", sparseSchema schema)).toList ++
    textsMember "required" function.required))

theorem functionMembers_eq_nil : functionMembers function = [] ↔ function = {} := by
  obtain ⟨description, name, parameters, required⟩ := function
  constructor
  · intro h
    simp only [functionMembers, List.append_eq_nil_iff, sparseText_eq_nil, textsMember_eq_nil] at h
    obtain ⟨rfl, rfl, hparameters, rfl⟩ := h
    cases parameters with
    | some schema => cases hparameters
    | none => rfl
  · intro h
    injection h
    subst_vars
    rfl

theorem parseFunctionTool_functionMembers (function : FunctionTool) :
    parseFunctionTool nulls (functionMembers function)
      = (readSchema? nulls function.parameters).map fun parameters =>
        { function with parameters := parameters } := by
  have hparameters := @parseFunctionTool_sparse_parameters nulls _ _ function.parameters
    (parseFunctionTool_required function.required) rfl
  have hname := @parseFunctionTool_sparse_name nulls
    ((function.parameters.map fun schema => ("parameters", sparseSchema schema)).toList ++
      textsMember "required" function.required)
    (fun function h => by
      rw [hparameters] at h
      obtain ⟨_, -, rfl⟩ := Option.map_eq_some_iff.mp h
      rfl) function.name
  rw [hparameters, Option.map_map] at hname
  refine (parseFunctionTool_sparse_description (fun function h => ?_) function.description).trans ?_
  · rw [hname] at h
    obtain ⟨_, -, rfl⟩ := Option.map_eq_some_iff.mp h
    rfl
  · rw [hname, Option.map_map]
    rfl

/-- A function is read from an object. -/
def parseFunctionObject (nulls : NullMessages) : Json → Option FunctionTool
  | .object members => parseFunctionTool nulls members
  | _ => none

/-- What is read for the function of a tool. -/
def readFunction? (nulls : NullMessages) (function? : Option FunctionTool) :
    Option (Option FunctionTool) :=
  function?.elim (some none) fun function =>
    readMessage? (parseFunctionObject nulls) (sparseFunctionTool function)

/-- A function comes back if and only if it is kept. -/
theorem readFunction?_eq_some_iff {function? : Option FunctionTool} :
    readFunction? nulls function? = some function? ↔
      ∀ function ∈ function?, function.Kept nulls := by
  cases function? with
  | none => exact iff_of_true rfl nofun
  | some function =>
      simp only [Option.mem_some_iff, forall_eq']
      have hjson : sparseFunctionTool function = .ofMembers (functionMembers function) := rfl
      rw [readFunction?, Option.elim_some, hjson]
      rcases ofMembers_cases (functionMembers function) with ⟨hnil, hjson⟩ | ⟨hne, hjson⟩
      · rw [hjson]
        exact iff_of_false nofun fun hkept => hkept.set (functionMembers_eq_nil.mp hnil)
      · rw [hjson]
        show ((parseFunctionTool nulls (functionMembers function)).map some) = _ ↔ _
        rw [parseFunctionTool_functionMembers]
        have hset : function ≠ {} := fun h => hne (functionMembers_eq_nil.mpr h)
        constructor
        · intro h
          obtain ⟨_, hfunction, hsame⟩ := Option.map_eq_some_iff.mp h
          obtain rfl := Option.some.inj hsame
          obtain ⟨parameters, hread, h⟩ := Option.map_eq_some_iff.mp hfunction
          refine ⟨hset, (items_kept_iff nulls _).mp ?_⟩
          rw [hread]
          exact congrArg (fun function => some function.parameters) h
        · intro hkept
          rw [(items_kept_iff nulls _).mpr hkept.parameters]
          rfl

end FunctionTools

/-- The members of a tool. -/
def toolMembers (tool : AssistantToolObject) : List (String × Json) :=
  (if tool.type = 0 then []
    else [("type", .string (assistantToolType.valueName tool.type))]) ++
  (tool.function.map fun function => ("function", sparseFunctionTool function)).toList

theorem toolMembers_eq_nil {tool : AssistantToolObject} : toolMembers tool = [] ↔ tool = {} := by
  obtain ⟨type, function⟩ := tool
  constructor
  · intro h
    obtain ⟨htype, hfunction⟩ := List.append_eq_nil_iff.mp h
    cases function with
    | some function => cases hfunction
    | none =>
        by_cases hzero : type = 0
        · rw [hzero]
        · rw [if_neg hzero] at htype
          cases htype
  · intro h
    rw [h]
    rfl

section Tools

variable {nulls : NullMessages}

theorem parseToolMembers_function (function? : Option FunctionTool) :
    parseToolMembers nulls
        (function?.map fun function => ("function", sparseFunctionTool function)).toList
      = (readFunction? nulls function?).map fun function => { function := function } := by
  cases function? with
  | none => rfl
  | some function =>
      exact @parse_ofMembers [] _ _ (parseToolMembers nulls) (parseFunctionObject nulls)
        (fun function tool => { tool with function := function }) "function" {} rfl rfl
        (fun fields => rfl) (functionMembers function)

theorem parseToolMembers_toolMembers (tool : AssistantToolObject) :
    parseToolMembers nulls (toolMembers tool)
      = (readFunction? nulls tool.function).map fun function =>
      ⟨(assistantToolType.findValueByName (assistantToolType.valueName tool.type)).getD 0,
        function⟩ := by
  rw [toolMembers]
  split
  · next hzero =>
      rw [hzero]
      exact parseToolMembers_function tool.function
  · rw [List.singleton_append, parseToolMembers, parseToolMembers_function]
    cases readFunction? nulls tool.function <;> rfl

/-- **A tool comes back** if and only if it is kept. -/
theorem parseTool_sparseTool_iff (tool : AssistantToolObject) :
    parseTool nulls (sparseTool tool) = some tool ↔ tool.Kept nulls := by
  have hjson : sparseTool tool = .ofMembers (toolMembers tool) := rfl
  rw [hjson]
  rcases ofMembers_cases (toolMembers tool) with ⟨hnil, hjson⟩ | ⟨hne, hjson⟩
  · obtain rfl := toolMembers_eq_nil.mp hnil
    have hzero : assistantToolType.Declares 0 :=
      List.mem_map.mpr ⟨("unknown_assistant_tool_type", 0), by decide, rfl⟩
    rw [hjson, parseTool]
    cases hroot : nulls.root with
    | true => exact iff_of_true rfl ⟨fun _ => hroot, hzero, fun _ hfunction => by cases hfunction⟩
    | false =>
        refine iff_of_false (fun hnone => by cases hnone) fun hkept => ?_
        exact Bool.false_ne_true (hroot ▸ hkept.set rfl)
  · rw [hjson, parseTool, parseToolMembers_toolMembers]
    constructor
    · intro h
      obtain ⟨function, hread, h⟩ := Option.map_eq_some_iff.mp h
      refine ⟨fun hunset => absurd (toolMembers_eq_nil.mpr hunset) hne,
        (getD_findValueByName_iff _).mp (congrArg (·.type) h), readFunction?_eq_some_iff.mp ?_⟩
      rw [hread]
      exact congrArg (fun tool => some tool.function) h
    · intro hkept
      rw [readFunction?_eq_some_iff.mpr hkept.function, Option.map_some,
        (getD_findValueByName_iff _).mpr hkept.type]

end Tools

end Instinct.AssistantRows
