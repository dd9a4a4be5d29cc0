/-
Instinct/AssistantRows.lean

`CreateAssistant`: an assistant as a JSON context, the INSERT that a template makes of it,
the row of the table and the way back.

The column list and the value list are written apart, each with separators of its own.
A statement is well-formed if both lists parse and match (`InsertStatement.row?`).
Numbers are rational, and `none` is one that is not finite.
-/
import Instinct.AssistantTools

namespace Instinct.AssistantRows

open Effects JsonStructs MessageRows StructConversion Tables

/-! ### The assistant -/

/-- The fields of an `AssistantObject` that an insert stores. -/
structure AssistantObject where
  model : String
  name : String := ""
  description : String := ""
  instructions : String := ""
  metadata : Option Struct := none
  temperature : Option (Option Rat) := none
  topP : Option (Option Rat) := none
  responseFormat : String := ""
  id : String := ""
  tools : List AssistantToolObject := []
  toolResources : Option AssistantToolResources := none

/-- A number that is not finite is dumped as null. -/
def numberJson (x : Option Rat) : Json := x.elim .null .number

/-- The members that the insert reads, given the JSON of the metadata. -/
def AssistantObject.toContext (assistant : AssistantObject) (metadata : Option Json) :
    SqlContext := fun name =>
  match name with
  | "model" => some (.json (.string assistant.model))
  | "name" => some (.json (.string assistant.name))
  | "description" => some (.json (.string assistant.description))
  | "instructions" => some (.json (.string assistant.instructions))
  | "metadata" => metadata.map .struct
  | "temperature" => some (.struct (numberJson (assistant.temperature.getD (some 0))))
  | "top_p" => some (.struct (numberJson (assistant.topP.getD (some 0))))
  | "response_format" => some (.json (.string assistant.responseFormat))
  | "id" => some (.json (.string assistant.id))
  | "tools" =>
      if assistant.tools.isEmpty then none
      else some (.struct (.array (assistant.tools.map convertTool)))
  | "tool_resources" =>
      assistant.toolResources.map fun resources => .struct (convertToolResources resources)
  | _ => none

/-- `ConvertMessageToJsonObject` with `keep_default_values`. -/
def convertAssistant (assistant : AssistantObject) : Except Exn SqlContext :=
  match assistant.metadata with
  | none => pure (assistant.toContext none)
  | some fields => do
      let members ← convertStruct fields
      pure (assistant.toContext (some (.ofMembers members)))

/-- `context[name] = value`. -/
def setMember (context : SqlContext) (name : String) (value : ContextValue) : SqlContext :=
  fun n => if n = name then some value else context n

/-- The members that `CreateAssistant` puts in: the defaults and the id that it draws. -/
def fillContext (request : AssistantObject) (id : String) (context : SqlContext) : SqlContext :=
  let context :=
    if request.topP.isNone then setMember context "top_p" (.struct (.number 1)) else context
  let context :=
    if request.temperature.isNone then setMember context "temperature" (.struct (.number 1))
    else context
  let context :=
    if isBlankString request.responseFormat then
      setMember context "response_format" (.json (.string "auto"))
    else context
  setMember context "id" (.json (.string id))

/-! ### The statement -/

/-- What stands in a list of the statement. -/
inductive Token (α : Type)
  | item (a : α)
  | comma

/-- The items of a list that is well-formed: one item, and one more after each comma. -/
def separated {α : Type} : List (Token α) → Option (List α)
  | [.item a] => some [a]
  | .item a :: .comma :: rest => (separated rest).map (a :: ·)
  | _ => none

/-- A literal of the statement.  `none` is NULL. -/
inductive Cell
  | text (text : Option Text)
  | number (x : Option Rat)

structure InsertStatement where
  columns : List (Token String)
  values : List (Token Cell)

/-- A row, by the columns that the statement sets.  The others are NULL. -/
abbrev AssistantRow : Type := List (String × Cell)

/-- The row of a statement that is well-formed: both lists are, the columns are distinct, and
there is a value for each. -/
def InsertStatement.row? (statement : InsertStatement) : Option AssistantRow := do
  let columns ← separated statement.columns
  let values ← separated statement.values
  if columns.Nodup ∧ columns.length = values.length then some (columns.zip values) else none

def InsertStatement.WellFormed (statement : InsertStatement) : Prop := statement.row?.isSome

section Template

/-- `{{name}}`, of a number: null is printed where it is not finite. -/
def printNumber (context : SqlContext) (name : String) : Except Exn (Option Rat) :=
  match context name with
  | some (.struct (.number x)) => .ok (some x)
  | some (.struct .null) => .ok none
  | some _ => .error typeError
  | none => .error variableNotFound

/-- The column list of `InsertOneAssistant`. -/
def assistantColumns (context : SqlContext) : List (Token String) :=
  ([.item "id", .comma, .item "name", .comma, .item "model", .comma, .item "description", .comma,
    .item "instructions", .comma, .item "temperature", .comma,
    .item "top_p"] : List (Token String)) ++
  (if hasMember context "tools" then [.comma, .item "tools"] else []) ++
  (if hasMember context "tool_resources" then [.comma, .item "tool_resources"] else []) ++
  [.comma, .item "response_format"] ++
  -- no comma here
  (if hasMember context "metadata" then [.item "metadata"] else [])

/-- `{% if exists(name) %}, {{stringify(name)}} {% endif %}`. -/
def optionalValue (context : SqlContext) (name : String) : Except Exn (List (Token Cell)) :=
  if hasMember context name then do
    let value ← stringify context name
    pure [.comma, .item (.text value)]
  else pure []

/-- The value list of `InsertOneAssistant`. -/
def assistantValues (context : SqlContext) : Except Exn (List (Token Cell)) := do
  let id ← text context "id"
  let name ← text context "name"
  let model ← text context "model"
  let description ← text context "description"
  let instructions ← text context "instructions"
  let temperature ← printNumber context "temperature"
  let topP ← printNumber context "top_p"
  let tools ← optionalValue context "tools"
  let toolResources ← optionalValue context "tool_resources"
  let responseFormat ← text context "response_format"
  let metadata ← optionalValue context "metadata"
  pure
    ([.item (.text id), .comma, .item (.text name), .comma, .item (.text model), .comma,
      .item (.text description), .comma, .item (.text instructions), .comma,
      .item (.number temperature), .comma, .item (.number topP)] ++
    tools ++ toolResources ++ [.comma, .item (.text responseFormat)] ++ metadata)

/-- The statement of `InsertOneAssistant`, after its checks. -/
def insertAssistantStatement (context : SqlContext) : Except Exn InsertStatement := do
  checkPresence context ["id", "model", "temperature", "top_p"]
  let values ← assistantValues context
  pure ⟨assistantColumns context, values⟩

/-- The statement that `CreateAssistant` builds. -/
def assistantStatement (id : String) (request : AssistantObject) : Except Exn InsertStatement := do
  let context ← convertAssistant request
  insertAssistantStatement (fillContext request id context)

end Template

/-! ### The table -/

/-- The value of a column that holds texts. -/
def columnText (row : AssistantRow) (name : String) : Except Exn (Option Text) :=
  match row.lookup name with
  | none => .ok none
  | some (.text value) => .ok value
  | some (.number _) => .error conversionError

/-- The value of a column that holds numbers. -/
def columnNumber (row : AssistantRow) (name : String) : Except Exn (Option Rat) :=
  match row.lookup name with
  | none => .ok none
  | some (.number value) => .ok value
  | some (.text _) => .error conversionError

def readTools (nulls : NullMessages) : Option Text → Except Exn (List AssistantToolObject)
  | none => .ok []
  | some (.struct (.array items)) =>
      (items.mapM (parseTool nulls)).elim (.error conversionError) .ok
  | some _ => .error conversionError

def readToolResources : Option Text → Except Exn (Option AssistantToolResources)
  | none => .ok none
  | some (.struct j) =>
      (parseToolResources j).elim (.error conversionError) fun resources => .ok (some resources)
  | some _ => .error conversionError

/-- `ConvertQueryResult_`, on the columns of an assistant. -/
def convertAssistantRow (nulls : NullMessages) (row : AssistantRow) :
    Except Exn AssistantObject := do
  let id ← columnText row "id" >>= readString
  let name ← columnText row "name" >>= readString
  let model ← columnText row "model" >>= readString
  let description ← columnText row "description" >>= readString
  let instructions ← columnText row "instructions" >>= readString
  let temperature ← columnNumber row "temperature"
  let topP ← columnNumber row "top_p"
  let tools ← columnText row "tools" >>= readTools nulls
  let toolResources ← columnText row "tool_resources" >>= readToolResources
  let responseFormat ← columnText row "response_format" >>= readString
  let metadata ← columnText row "metadata" >>= readStruct
  pure
    { model := model
      name := name
      description := description
      instructions := instructions
      metadata := metadata
      temperature := temperature.map some
      topP := topP.map some
      responseFormat := responseFormat
      id := id
      tools := tools
      toolResources := toolResources }

/-- Every column is read as the field of the assistant. -/
structure Reads (nulls : NullMessages) (row : AssistantRow) (assistant : AssistantObject) :
    Prop where
  id : (columnText row "id" >>= readString) = .ok assistant.id
  name : (columnText row "name" >>= readString) = .ok assistant.name
  model : (columnText row "model" >>= readString) = .ok assistant.model
  description : (columnText row "description" >>= readString) = .ok assistant.description
  instructions : (columnText row "instructions" >>= readString) = .ok assistant.instructions
  temperature : (columnNumber row "temperature").map (·.map some) = .ok assistant.temperature
  topP : (columnNumber row "top_p").map (·.map some) = .ok assistant.topP
  tools : (columnText row "tools" >>= readTools nulls) = .ok assistant.tools
  toolResources :
    (columnText row "tool_resources" >>= readToolResources) = .ok assistant.toolResources
  responseFormat : (columnText row "response_format" >>= readString) = .ok assistant.responseFormat
  metadata : (columnText row "metadata" >>= readStruct) = .ok assistant.metadata

theorem convertAssistantRow_eq_ok_iff {nulls : NullMessages} {row : AssistantRow}
    {assistant : AssistantObject} :
    convertAssistantRow nulls row = .ok assistant ↔ Reads nulls row assistant := by
  constructor
  · intro h
    obtain ⟨id, hid, h⟩ := checks_eq_ok.mp h
    obtain ⟨name, hname, h⟩ := checks_eq_ok.mp h
    obtain ⟨model, hmodel, h⟩ := checks_eq_ok.mp h
    obtain ⟨description, hdescription, h⟩ := checks_eq_ok.mp h
    obtain ⟨instructions, hinstructions, h⟩ := checks_eq_ok.mp h
    obtain ⟨temperature, htemperature, h⟩ := checks_eq_ok.mp h
    obtain ⟨topP, htopP, h⟩ := checks_eq_ok.mp h
    obtain ⟨tools, htools, h⟩ := checks_eq_ok.mp h
    obtain ⟨toolResources, htoolResources, h⟩ := checks_eq_ok.mp h
    obtain ⟨responseFormat, hresponseFormat, h⟩ := checks_eq_ok.mp h
    obtain ⟨metadata, hmetadata, h⟩ := checks_eq_ok.mp h
    obtain rfl := Except.ok.inj h
    exact ⟨hid, hname, hmodel, hdescription, hinstructions, by rw [htemperature]; rfl,
      by rw [htopP]; rfl, htools, htoolResources, hresponseFormat, hmetadata⟩
  · rintro ⟨hid, hname, hmodel, hdescription, hinstructions, htemperature, htopP, htools,
      htoolResources, hresponseFormat, hmetadata⟩
    obtain ⟨temperature, htemperature, htemperature'⟩ := map_eq_ok.mp htemperature
    obtain ⟨topP, htopP, htopP'⟩ := map_eq_ok.mp htopP
    rw [convertAssistantRow, hid, hname, hmodel, hdescription, hinstructions, htemperature, htopP,
      htools, htoolResources, hresponseFormat, hmetadata]
    show Except.ok _ = _
    rw [htemperature', htopP']

/-- The columns that hold no NULL. -/
def notNullColumns : List String := ["id", "model", "temperature", "top_p", "response_format"]

def Cell.isNull : Cell → Bool
  | .text value => value.isNone
  | .number value => value.isNone

/-- The row has a value in every column that needs one. -/
def NotNull (row : AssistantRow) : Prop :=
  ∀ name ∈ notNullColumns, ((row.lookup name).elim true Cell.isNull) = false

instance (row : AssistantRow) : Decidable (NotNull row) :=
  inferInstanceAs (Decidable (∀ name ∈ notNullColumns, _))

/-- The primary key is the id as a text. -/
def idText (row : AssistantRow) : String :=
  match row.lookup "id" with
  | some (.text (some (.plain id))) => id
  | _ => ""

/-- The table of assistants. -/
abbrev AssistantTable : Type := Table idText NotNull

abbrev AssistantM : Type → Type := Action Exn AssistantTable

/-- The database with an insert statement. -/
def executeInsert (statement : InsertStatement) : AssistantM Unit := fun table =>
  match statement.row? with
  | none => (.error (.client "Parser Error: syntax error"), table)
  | some row =>
      if h : NotNull row then
        match table.insert row h with
        | some table' => (.ok (), table')
        | none => (.error (.client "Constraint Error: Duplicate key"), table)
      else (.error (.client "Constraint Error: NOT NULL constraint failed"), table)

/-- `AssistantServiceImpl::RetrieveAssistant`. -/
def retrieveAssistant (nulls : NullMessages) (id : String) :
    AssistantM (Option AssistantObject) := fun table =>
  match table.find? fun row => idText row = id with
  | none => (.ok none, table)
  | some row => ((convertAssistantRow nulls row).map some, table)

/-- `AssistantServiceImpl::CreateAssistant`, given the number for its id. -/
def createAssistant (nulls : NullMessages) (number : Nat) (request : AssistantObject) :
    AssistantM (Option AssistantObject) := do
  assertNotBlank request.model "should provide model name"
  let statement ← assistantStatement (generateNextObjectId "asst" number) request
  executeInsert statement
  retrieveAssistant nulls (generateNextObjectId "asst" number)

end Instinct.AssistantRows
