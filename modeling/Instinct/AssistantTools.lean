/-
Instinct/AssistantTools.lean

The tools of an assistant and its tool resources as JSON, and back through the parser.

With `keep_default_values` every text is written, also an empty one, so that a tool is an
object in every case and comes back if its type has a name (`parseTool_convertTool_iff`).
A tool resource has no text: one without ids is null, and lost
(`parseToolResources_iff`).
-/
import Instinct.MessageRows

namespace Instinct.AssistantRows

open JsonStructs MessageRows

/-! ### The messages -/

structure FunctionParametersSchema where
  type : String := ""
  properties : List (String × FunctionParametersSchema) := []
  items : Option FunctionParametersSchema := none
  description : String := ""
  required : List String := []
  enum : List String := []

structure FunctionTool where
  description : String := ""
  name : String := ""
  parameters : Option FunctionParametersSchema := none
  required : List String := []

/-- A tool.  The number of its type need not be one of the enum. -/
structure AssistantToolObject where
  type : Int := 0
  function : Option FunctionTool := none

/-- The files of the code interpreter and the vector stores of file search. -/
structure AssistantToolResources where
  codeInterpreter : Option (List String) := none
  fileSearch : Option (List String) := none

/-! ### `ConvertMessageToJsonObject` with `keep_default_values` -/

/-- A repeated field of texts. -/
def textsMember (name : String) (texts : List String) : List (String × Json) :=
  if texts.isEmpty then [] else [(name, .array (texts.map .string))]

mutual

def convertSchema : FunctionParametersSchema → Json
  | ⟨type, properties, items, description, required, enum⟩ =>
      .object ([("type", .string type)] ++
        (if properties.isEmpty then []
          else [("properties", .object (convertProperties properties))]) ++
        convertItems items ++
        [("description", .string description)] ++
        textsMember "required" required ++
        textsMember "enum" enum)

def convertProperties : List (String × FunctionParametersSchema) → List (String × Json)
  | [] => []
  | (name, schema) :: properties => (name, convertSchema schema) :: convertProperties properties

def convertItems : Option FunctionParametersSchema → List (String × Json)
  | none => []
  | some items => [("items", convertSchema items)]

end

def convertFunctionTool (function : FunctionTool) : Json :=
  .object ([("description", .string function.description), ("name", .string function.name)] ++
    (function.parameters.map fun schema => ("parameters", convertSchema schema)).toList ++
    textsMember "required" function.required)

def convertTool (tool : AssistantToolObject) : Json :=
  .object ([("type", .string (assistantToolType.valueName tool.type))] ++
    (tool.function.map fun function => ("function", convertFunctionTool function)).toList)

/-- A resource is an object of one repeated field. -/
def convertResource (name : String) (ids : List String) : Json := .ofMembers (textsMember name ids)

def convertToolResources (resources : AssistantToolResources) : Json :=
  .ofMembers ((resources.codeInterpreter.map fun ids =>
      ("code_interpreter", convertResource "file_ids" ids)).toList ++
    (resources.fileSearch.map fun ids =>
      ("file_search", convertResource "vector_store_ids" ids)).toList)

/-! ### The parser -/

/-- What the parser makes of a null that stands for a message: on its own, and as a value in a map.
It is an empty message, or not accepted. -/
structure NullMessages where
  root : Bool
  value : Bool

def parseText : Json → Option String
  | .string s => some s
  | .null => some ""
  | _ => none

def parseTexts : Json → Option (List String)
  | .array items => items.mapM fun
    | .string s => some s
    | _ => none
  | .null => some []
  | _ => none

mutual

/-- An object is read member by member.  Members of another name are ignored. -/
def parseSchema (nulls : NullMessages) : Json → Option FunctionParametersSchema
  | .object members => parseSchemaMembers nulls members
  | .null => if nulls.value then some {} else none
  | _ => none

def parseSchemaMembers (nulls : NullMessages) :
    List (String × Json) → Option FunctionParametersSchema
  | [] => some {}
  | (name, value) :: members => do
      let schema ← parseSchemaMembers nulls members
      match name with
      | "type" => (parseText value).map fun type => { schema with type := type }
      | "properties" =>
          match value with
          | .object properties =>
              (parseProperties nulls properties).map fun properties =>
                { schema with properties := properties }
          | .null => some schema
          | _ => none
      | "items" =>
          match value with
          | .null => some schema
          | .object members =>
              (parseSchemaMembers nulls members).map fun items =>
                { schema with items := some items }
          | _ => none
      | "description" =>
          (parseText value).map fun description => { schema with description := description }
      | "required" => (parseTexts value).map fun required => { schema with required := required }
      | "enum" => (parseTexts value).map fun enum => { schema with enum := enum }
      | _ => some schema

def parseProperties (nulls : NullMessages) :
    List (String × Json) → Option (List (String × FunctionParametersSchema))
  | [] => some []
  | (name, value) :: properties => do
      let schema ← parseSchema nulls value
      let properties ← parseProperties nulls properties
      pure ((name, schema) :: properties)

end

def parseFunctionTool (nulls : NullMessages) : List (String × Json) → Option FunctionTool
  | [] => some {}
  | (name, value) :: members => do
      let function ← parseFunctionTool nulls members
      match name with
      | "description" =>
          (parseText value).map fun description => { function with description := description }
      | "name" => (parseText value).map fun name => { function with name := name }
      | "parameters" =>
          match value with
          | .null => some function
          | value =>
              (parseSchema nulls value).map fun schema =>
                { function with parameters := some schema }
      | "required" =>
          (parseTexts value).map fun required => { function with required := required }
      | _ => some function

/-- A name that the enum does not have is ignored. -/
def parseToolType : Json → Option Int
  | .string name => some ((assistantToolType.findValueByName name).getD 0)
  | .number x => if x.den = 1 ∧ ProtoJson.IntKind.int32.holds x.num then some x.num else none
  | .null => some 0
  | _ => none

def parseToolMembers (nulls : NullMessages) : List (String × Json) → Option AssistantToolObject
  | [] => some {}
  | (name, value) :: members => do
      let tool ← parseToolMembers nulls members
      match name with
      | "type" => (parseToolType value).map fun type => { tool with type := type }
      | "function" =>
          match value with
          | .null => some tool
          | .object members =>
              (parseFunctionTool nulls members).map fun function =>
                { tool with function := some function }
          | _ => none
      | _ => some tool

def parseTool (nulls : NullMessages) : Json → Option AssistantToolObject
  | .object members => parseToolMembers nulls members
  | .null => if nulls.root then some {} else none
  | _ => none

/-- The ids in a resource, of which `name` is the only field. -/
def parseResource (name : String) : List (String × Json) → Option (List String)
  | [] => some []
  | (member, value) :: members => do
      let ids ← parseResource name members
      if member = name then parseTexts value else some ids

def parseResourceMembers : List (String × Json) → Option AssistantToolResources
  | [] => some {}
  | (name, value) :: members => do
      let resources ← parseResourceMembers members
      match name, value with
      | "code_interpreter", .object members =>
          (parseResource "file_ids" members).map fun ids =>
            { resources with codeInterpreter := some ids }
      | "file_search", .object members =>
          (parseResource "vector_store_ids" members).map fun ids =>
            { resources with fileSearch := some ids }
      | _, .null => some resources
      | "code_interpreter", _ => none
      | "file_search", _ => none
      | _, _ => some resources

def parseToolResources : Json → Option AssistantToolResources
  | .object members => parseResourceMembers members
  | _ => none

/-! ### Which tools come back -/

theorem parseTexts_map_string (texts : List String) :
    parseTexts (.array (texts.map .string)) = some texts := by
  show (texts.map Json.string).mapM _ = some texts
  induction texts with
  | nil => rfl
  | cons text texts ih =>
      rw [List.map_cons, List.mapM_cons, ih]
      rfl

theorem convertSchema_eq_object (schema : FunctionParametersSchema) :
    ∃ members, convertSchema schema = .object members := by
  cases schema
  exact ⟨_, rfl⟩

section Members

variable {nulls : NullMessages} {members : List (String × Json)} {schema : FunctionParametersSchema}

theorem parseSchemaMembers_required (texts : List String)
    (h : parseSchemaMembers nulls members = some schema) (hnone : schema.required = []) :
    parseSchemaMembers nulls (textsMember "required" texts ++ members)
      = some { schema with required := texts } := by
  cases texts with
  | nil =>
      have hsame : { schema with required := [] } = schema := by
        cases schema
        cases hnone
        rfl
      rw [hsame]
      exact h
  | cons text texts =>
      show parseSchemaMembers nulls
        (("required", .array ((text :: texts).map .string)) :: members) = _
      rw [parseSchemaMembers, h]
      show (parseTexts _).map _ = _
      rw [parseTexts_map_string]
      rfl

theorem parseSchemaMembers_enum (texts : List String)
    (h : parseSchemaMembers nulls members = some schema) (hnone : schema.enum = []) :
    parseSchemaMembers nulls (textsMember "enum" texts ++ members)
      = some { schema with enum := texts } := by
  cases texts with
  | nil =>
      have hsame : { schema with enum := [] } = schema := by
        cases schema
        cases hnone
        rfl
      rw [hsame]
      exact h
  | cons text texts =>
      show parseSchemaMembers nulls (("enum", .array ((text :: texts).map .string)) :: members) = _
      rw [parseSchemaMembers, h]
      show (parseTexts _).map _ = _
      rw [parseTexts_map_string]
      rfl

theorem parseSchemaMembers_properties (properties : List (String × FunctionParametersSchema))
    (hread : parseProperties nulls (convertProperties properties) = some properties)
    (h : parseSchemaMembers nulls members = some schema) (hnone : schema.properties = []) :
    parseSchemaMembers nulls ((if properties.isEmpty then []
        else [("properties", .object (convertProperties properties))]) ++ members)
      = some { schema with properties := properties } := by
  cases properties with
  | nil =>
      have hsame : { schema with properties := [] } = schema := by
        cases schema
        cases hnone
        rfl
      rw [hsame]
      exact h
  | cons property properties =>
      show parseSchemaMembers nulls
        (("properties", .object (convertProperties (property :: properties))) :: members) = _
      rw [parseSchemaMembers, h]
      show (parseProperties nulls _).map _ = _
      rw [hread]
      rfl

theorem parseSchemaMembers_items {items? : Option FunctionParametersSchema}
    (hread : ∀ items ∈ items?, parseSchema nulls (convertSchema items) = some items)
    (h : parseSchemaMembers nulls members = some schema) (hnone : schema.items = none) :
    parseSchemaMembers nulls (convertItems items? ++ members)
      = some { schema with items := items? } := by
  cases items? with
  | none =>
      have hsame : { schema with items := none } = schema := by
        cases schema
        cases hnone
        rfl
      rw [hsame]
      exact h
  | some items =>
      have hitems := hread items rfl
      obtain ⟨fields, hfields⟩ := convertSchema_eq_object items
      rw [hfields, parseSchema] at hitems
      rw [convertItems, hfields]
      show parseSchemaMembers nulls (("items", .object fields) :: members) = _
      rw [parseSchemaMembers, h]
      show (parseSchemaMembers nulls fields).map _ = _
      rw [hitems]
      rfl

theorem parseSchemaMembers_type (type : String)
    (h : parseSchemaMembers nulls members = some schema) :
    parseSchemaMembers nulls (("type", .string type) :: members)
      = some { schema with type := type } := by
  rw [parseSchemaMembers, h]
  rfl

theorem parseSchemaMembers_description (description : String)
    (h : parseSchemaMembers nulls members = some schema) :
    parseSchemaMembers nulls (("description", .string description) :: members)
      = some { schema with description := description } := by
  rw [parseSchemaMembers, h]
  rfl

end Members

mutual

/-- A schema always comes back, by induction over the schemas in it. -/
theorem parseSchema_convertSchema (nulls : NullMessages) : ∀ schema : FunctionParametersSchema,
    parseSchema nulls (convertSchema schema) = some schema
  | ⟨type, properties, items, description, required, enum⟩ => by
      have hrequired := parseSchemaMembers_required required
        (parseSchemaMembers_enum enum (show parseSchemaMembers nulls [] = some _ from rfl) rfl) rfl
      have hitems := parseSchemaMembers_items (parseItems_convertItems nulls items)
        (parseSchemaMembers_description description hrequired) rfl
      have hproperties := parseSchemaMembers_properties properties
        (parseProperties_convertProperties nulls properties) hitems rfl
      have htype := parseSchemaMembers_type type hproperties
      rw [convertSchema, parseSchema]
      simpa only [List.append_assoc, List.cons_append, List.nil_append, List.append_nil] using htype

theorem parseProperties_convertProperties (nulls : NullMessages) :
    ∀ properties : List (String × FunctionParametersSchema),
      parseProperties nulls (convertProperties properties) = some properties
  | [] => rfl
  | (name, schema) :: properties => by
      rw [convertProperties, parseProperties, parseSchema_convertSchema nulls schema,
        parseProperties_convertProperties nulls properties]
      rfl

theorem parseItems_convertItems (nulls : NullMessages) :
    ∀ (items? : Option FunctionParametersSchema), ∀ items ∈ items?,
      parseSchema nulls (convertSchema items) = some items
  | none, _, h => by cases h
  | some items, _, h => by
      obtain rfl := Option.some.inj h
      exact parseSchema_convertSchema nulls items

end

section FunctionTools

variable {nulls : NullMessages} {members : List (String × Json)} {function : FunctionTool}

theorem parseFunctionTool_required (texts : List String) :
    parseFunctionTool nulls (textsMember "required" texts) = some { required := texts } := by
  cases texts with
  | nil => rfl
  | cons text texts =>
      show (parseTexts (.array ((text :: texts).map .string))).map _ = _
      rw [parseTexts_map_string]
      rfl

theorem parseFunctionTool_parameters (schema? : Option FunctionParametersSchema)
    (h : parseFunctionTool nulls members = some function) (hnone : function.parameters = none) :
    parseFunctionTool nulls
        ((schema?.map fun schema => ("parameters", convertSchema schema)).toList ++ members)
      = some { function with parameters := schema? } := by
  cases schema? with
  | none =>
      have hsame : { function with parameters := none } = function := by rw [← hnone]
      rw [hsame]
      exact h
  | some schema =>
      obtain ⟨fields, hfields⟩ := convertSchema_eq_object schema
      have hschema := parseSchema_convertSchema nulls schema
      rw [Option.map_some, hfields]
      rw [hfields] at hschema
      show parseFunctionTool nulls (("parameters", .object fields) :: members) = _
      rw [parseFunctionTool, h]
      show (parseSchema nulls (.object fields)).map _ = _
      rw [hschema]
      rfl

end FunctionTools

/-- So does a function. -/
theorem parseFunctionTool_convertFunctionTool (function : FunctionTool) :
    ∃ members, convertFunctionTool function = .object members ∧
      parseFunctionTool nulls members = some function := by
  refine ⟨_, rfl, ?_⟩
  have hparameters := @parseFunctionTool_parameters nulls _ _ function.parameters
    (parseFunctionTool_required function.required) rfl
  simp only [List.cons_append, List.nil_append, parseFunctionTool, hparameters]
  rfl

/-- A type comes back by its name if and only if it is one of the enum: another name is read as
zero, which has a name. -/
theorem getD_findValueByName_iff (type : Int) :
    (assistantToolType.findValueByName (assistantToolType.valueName type)).getD 0 = type ↔
      assistantToolType.Declares type := by
  have hzero : assistantToolType.Declares 0 :=
    List.mem_map.mpr ⟨("unknown_assistant_tool_type", 0), by decide, rfl⟩
  rw [← ProtoJson.EnumType.findValueByName_valueName_iff]
  constructor
  · intro htype
    rcases hfind : assistantToolType.findValueByName (assistantToolType.valueName type) with - | n
    · rw [hfind] at htype
      have hnamed := ProtoJson.EnumType.findValueByName_valueName_iff.mpr hzero
      rw [show (0 : Int) = type from htype, hfind] at hnamed
      cases hnamed
    · rw [hfind] at htype
      exact congrArg some htype
  · intro h
    rw [h]
    rfl

/-- A tool comes back if and only if its type is one of the enum. -/
theorem parseTool_convertTool_iff (tool : AssistantToolObject) :
    parseTool nulls (convertTool tool) = some tool ↔ assistantToolType.Declares tool.type := by
  have hfunction : parseToolMembers nulls
      (tool.function.map fun function => ("function", convertFunctionTool function)).toList
        = some { function := tool.function } := by
    rcases tool.function with - | function
    · rfl
    · obtain ⟨members, hmembers, hread⟩ := parseFunctionTool_convertFunctionTool function
      rw [Option.map_some, hmembers]
      show (parseFunctionTool nulls members).map _ = _
      rw [hread]
      rfl
  have htool : parseTool nulls (convertTool tool)
      = some ⟨(assistantToolType.findValueByName
          (assistantToolType.valueName tool.type)).getD 0, tool.function⟩ := by
    rw [convertTool, parseTool, List.singleton_append, parseToolMembers, hfunction]
    rfl
  rw [htool, ← getD_findValueByName_iff, Option.some.injEq]
  constructor
  · exact congrArg AssistantToolObject.type
  · intro h
    rw [h]

/-- A list of tools comes back if and only if each of them does. -/
theorem parseTools_map_iff {convert : AssistantToolObject → Json}
    {Kept : AssistantToolObject → Prop}
    (hkept : ∀ tool, parseTool nulls (convert tool) = some tool ↔ Kept tool)
    (tools : List AssistantToolObject) :
    (tools.map convert).mapM (parseTool nulls) = some tools ↔ ∀ tool ∈ tools, Kept tool := by
  refine Iff.trans ?_ (forall₂_congr fun tool _ => hkept tool)
  have hmap := mapM_map_eq_some_iff (l := tools) (f := convert) (g := parseTool nulls) (h := id)
  rwa [List.map_id] at hmap

theorem parseTools_convertTools_iff (tools : List AssistantToolObject) :
    (tools.map convertTool).mapM (parseTool nulls) = some tools ↔
      ∀ tool ∈ tools, assistantToolType.Declares tool.type :=
  parseTools_map_iff parseTool_convertTool_iff tools

/-! ### Which tool resources come back -/

/-- Resources that are kept: one is there, and each that is there has ids. -/
structure AssistantToolResources.Kept (resources : AssistantToolResources) : Prop where
  set : resources.codeInterpreter ≠ none ∨ resources.fileSearch ≠ none
  codeInterpreter : ∀ ids ∈ resources.codeInterpreter, ids ≠ []
  fileSearch : ∀ ids ∈ resources.fileSearch, ids ≠ []

theorem convertResource_cons (name id : String) (ids : List String) :
    ∃ members, convertResource name (id :: ids) = .object members ∧
      parseResource name members = some (id :: ids) := by
  refine ⟨[(name, .array ((id :: ids).map .string))], rfl, ?_⟩
  rw [parseResource, parseResource, Option.bind_eq_bind, Option.bind_some, if_pos rfl]
  exact parseTexts_map_string (id :: ids)

/-- A resource without ids is null, and left unset. -/
theorem parseResourceMembers_fileSearch (fileSearch : Option (List String)) :
    parseResourceMembers (fileSearch.map fun ids =>
        ("file_search", convertResource "vector_store_ids" ids)).toList
      = some { fileSearch := fileSearch.filter fun ids => !ids.isEmpty } := by
  rcases fileSearch with - | - | ⟨id, ids⟩
  · rfl
  · rfl
  · obtain ⟨members, hmembers, hread⟩ := convertResource_cons "vector_store_ids" id ids
    rw [Option.map_some, hmembers]
    show (parseResource "vector_store_ids" members).map _ = _
    rw [hread]
    rfl

theorem parseResourceMembers_codeInterpreter {members : List (String × Json)}
    {fileSearch : Option (List String)} (codeInterpreter : Option (List String))
    (h : parseResourceMembers members = some { fileSearch := fileSearch }) :
    parseResourceMembers ((codeInterpreter.map fun ids =>
        ("code_interpreter", convertResource "file_ids" ids)).toList ++ members)
      = some ⟨codeInterpreter.filter fun ids => !ids.isEmpty, fileSearch⟩ := by
  rcases codeInterpreter with - | - | ⟨id, ids⟩
  · exact h
  · show parseResourceMembers (("code_interpreter", .null) :: members) = _
    rw [parseResourceMembers, h]
    rfl
  · obtain ⟨fields, hfields, hread⟩ := convertResource_cons "file_ids" id ids
    rw [Option.map_some, hfields]
    show parseResourceMembers (("code_interpreter", .object fields) :: members) = _
    rw [parseResourceMembers, h]
    show (parseResource "file_ids" fields).map _ = _
    rw [hread]
    rfl

theorem filter_eq_self_iff {ids? : Option (List String)} :
    (ids?.filter fun ids => !ids.isEmpty) = ids? ↔ ∀ ids ∈ ids?, ids ≠ [] := by
  rcases ids? with - | - | ⟨id, ids⟩ <;> simp

theorem parseResourceMembers_convert (resources : AssistantToolResources) :
    parseResourceMembers ((resources.codeInterpreter.map fun ids =>
          ("code_interpreter", convertResource "file_ids" ids)).toList ++
        (resources.fileSearch.map fun ids =>
          ("file_search", convertResource "vector_store_ids" ids)).toList)
      = some ⟨resources.codeInterpreter.filter fun ids => !ids.isEmpty,
          resources.fileSearch.filter fun ids => !ids.isEmpty⟩ :=
  parseResourceMembers_codeInterpreter resources.codeInterpreter
    (parseResourceMembers_fileSearch resources.fileSearch)

/-- The resources come back if and only if they are kept. -/
theorem parseToolResources_convertToolResources_iff (resources : AssistantToolResources) :
    parseToolResources (convertToolResources resources) = some resources ↔ resources.Kept := by
  by_cases hset : resources.codeInterpreter ≠ none ∨ resources.fileSearch ≠ none
  · have hread : parseToolResources (convertToolResources resources)
        = some ⟨resources.codeInterpreter.filter fun ids => !ids.isEmpty,
            resources.fileSearch.filter fun ids => !ids.isEmpty⟩ := by
      rw [← parseResourceMembers_convert resources]
      obtain ⟨- | code, - | search⟩ := resources
      · exact absurd hset (by simp)
      · rfl
      · rfl
      · rfl
    rw [hread, Option.some.injEq]
    constructor
    · intro h
      exact ⟨hset, filter_eq_self_iff.mp (congrArg (·.codeInterpreter) h),
        filter_eq_self_iff.mp (congrArg (·.fileSearch) h)⟩
    · intro hkept
      rw [filter_eq_self_iff.mpr hkept.codeInterpreter, filter_eq_self_iff.mpr hkept.fileSearch]
  · -- the object would be null
    refine iff_of_false (fun h => ?_) fun hkept => hset hkept.set
    obtain ⟨hcode, hsearch⟩ := not_or.mp hset
    rw [convertToolResources, not_not.mp hcode, not_not.mp hsearch] at h
    cases h

end Instinct.AssistantRows
