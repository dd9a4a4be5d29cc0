/-
Instinct/MessageRows.lean

A `MessageObject` on its way into the table of messages and back.

The way in is a JSON context and a template with a test for every optional column,
the way back a conversion by the names of the columns.  The text of a JSON value is kept
as the value, and a timestamp as its number of microseconds.
-/
import Instinct.Effects
import Instinct.JsonMessages
import Instinct.StructConversion
import Instinct.Tables

namespace Instinct.MessageRows

open Effects JsonMessages ProtoJson StructConversion Tables

/-! ### Types of the assistant API -/

theorem nodup_jsonNames {fields : List FieldDescriptor}
    (h : (fields.map fun f => camelCase false f.name.toList).Nodup) :
    (fields.map (·.jsonName)).Nodup := by
  have hjson : fields.map (·.jsonName)
      = (fields.map fun f => camelCase false f.name.toList).map String.ofList := by
    rw [List.map_map]
    rfl
  rw [hjson]
  exact List.Nodup.map (fun _ _ h => String.ofList_injective h) h

/-- An enum of the assistant API: its values are numbered from zero on. -/
def enumOf (name : String) (values : List String) (h : values.Nodup) : EnumType where
  name := name
  values := values.zipIdx.map fun v => (v.1, (v.2 : Int))
  distinct := by
    have hnames : (values.zipIdx.map fun v => (v.1, (v.2 : Int))).map Prod.fst = values := by
      rw [List.map_map]
      exact List.zipIdx_map_fst 0 values
    rw [hnames]
    exact h

def messageStatus : EnumType :=
  enumOf "MessageStatus" ["unknown_message_status", "completed", "in_progress", "incomplete"]
    (by decide)

def messageRole : EnumType :=
  enumOf "MessageRole" ["unknown_message_role", "user", "assistant"] (by decide)

def messageContentType : EnumType :=
  enumOf "MessageContentType" ["unknown_message_content_type", "text", "image_file"] (by decide)

def annotationType : EnumType :=
  enumOf "MessageContentTextAnnotationType"
    ["unknown_content_text_annotation_type", "file_citation", "file_path"] (by decide)

def assistantToolType : EnumType :=
  enumOf "AssistantToolType"
    ["unknown_assistant_tool_type", "code_interpreter", "file_search", "function"] (by decide)

def incompleteReason : EnumType :=
  enumOf "IncompleteReason" ["unknown_incomplete_reason", "content_filter", "max_tokens",
    "run_cancelled", "run_expired", "run_failed"] (by decide)

/-- A message type that has no JSON form of its own. -/
def messageTypeOf (fields : List FieldDescriptor)
    (h : (fields.map fun f => camelCase false f.name.toList).Nodup) : MessageType where
  fields := fields
  ownJsonForm := false
  distinct := nodup_jsonNames h

/-- The message types below a `MessageObject`. -/
def schema : Schema := fun name =>
  match name with
  | "IncompleteDetails" => messageTypeOf [⟨"reason", .implicit, .enum incompleteReason, none⟩]
      (by decide)
  | "MessageAttachment" => messageTypeOf [⟨"file_id", .implicit, .string, none⟩,
      ⟨"tools", .repeated, .enum assistantToolType, none⟩] (by decide)
  | "MessageContent" => messageTypeOf [⟨"type", .implicit, .enum messageContentType, none⟩,
      ⟨"image_file", .repeated, .message "MessageContentImageFile", none⟩,
      ⟨"text", .explicit, .message "MessageContentText", none⟩] (by decide)
  | "MessageContentImageFile" => messageTypeOf [⟨"file_id", .implicit, .string, none⟩] (by decide)
  | "MessageContentText" => messageTypeOf [⟨"value", .implicit, .string, none⟩,
      ⟨"annotations", .repeated, .message "MessageContentTextAnnotation", none⟩] (by decide)
  | "MessageContentTextAnnotation" => messageTypeOf
      [⟨"type", .implicit, .enum annotationType, none⟩,
        ⟨"text", .implicit, .string, none⟩,
        ⟨"start_index", .implicit, .integer .int32, none⟩,
        ⟨"end_index", .implicit, .integer .int32, none⟩,
        ⟨"file_citation", .explicit, .message "MessageContentTextFileCitation", none⟩,
        ⟨"file_path", .explicit, .message "MessageContentTextFilePath", none⟩] (by decide)
  | "MessageContentTextFileCitation" => messageTypeOf [⟨"file_id", .implicit, .string, none⟩,
      ⟨"quote", .implicit, .string, none⟩] (by decide)
  | "MessageContentTextFilePath" => messageTypeOf [⟨"file_id", .implicit, .string, none⟩]
      (by decide)
  | _ => messageTypeOf [] (by decide)

/-- The fields of a `MessageObject` that an insert stores, its id apart.  `μ` is what stands for
a sub-message. -/
@[ext]
structure MessageObject (μ : String → Type) where
  threadId : String := ""
  status : Int := 0
  incompleteDetails : Option (μ "IncompleteDetails") := none
  completedAt : Int := 0
  incompletedAt : Int := 0
  role : Int := 0
  content : List (μ "MessageContent") := []
  assistantId : String := ""
  runId : String := ""
  attachments : List (μ "MessageAttachment") := []
  metadata : Option JsonStructs.Struct := none

/-- A message object whose sub-messages are well-typed. -/
abbrev Message : Type := MessageObject (ProtoJson.Message schema)

/-- A message object as it was read, its sub-messages by their fields. -/
abbrev ReadMessage : Type := MessageObject fun _ => List (List Value)

/-- The same message by the fields of its sub-messages. -/
def Message.read (message : Message) : ReadMessage :=
  { threadId := message.threadId
    status := message.status
    incompleteDetails := message.incompleteDetails.map (·.fields)
    completedAt := message.completedAt
    incompletedAt := message.incompletedAt
    role := message.role
    content := message.content.map (·.fields)
    assistantId := message.assistantId
    runId := message.runId
    attachments := message.attachments.map (·.fields)
    metadata := message.metadata }

/-! ### The context of an insert -/

/-- A value of the context.  The JSON of a struct has numbers of its own. -/
inductive ContextValue
  | json (j : ProtoJson.Json)
  | struct (j : JsonStructs.Json)

/-- A JSON object by its members. -/
abbrev SqlContext : Type := String → Option ContextValue

section Context

def textMember (s : String) : Option ContextValue :=
  if s = "" then none else some (.json (.string s))

def numberMember (n : Int) : Option ContextValue :=
  if n = 0 then none else some (.json (.number n))

def enumMember (e : EnumType) (n : Int) : Option ContextValue :=
  if n = 0 then none else some (.json (.string (e.valueName n)))

def itemsMember {t : String} (items : List (ProtoJson.Message schema t)) : Option ContextValue :=
  if items.isEmpty then none
  else some (.json (.array (items.map fun item => convertMessageToJsonObject {} item)))

/-- The members that the insert reads, given the JSON of the metadata. -/
def Message.toContext (message : Message) (id : String) (metadata : Option JsonStructs.Json) :
    SqlContext := fun name =>
  match name with
  | "id" => textMember id
  | "thread_id" => textMember message.threadId
  | "status" => enumMember messageStatus message.status
  | "incomplete_details" =>
      message.incompleteDetails.map fun details => .json (convertMessageToJsonObject {} details)
  | "completed_at" => numberMember message.completedAt
  | "incompleted_at" => numberMember message.incompletedAt
  | "role" => enumMember messageRole message.role
  | "content" => itemsMember message.content
  | "assistant_id" => textMember message.assistantId
  | "run_id" => textMember message.runId
  | "attachments" => itemsMember message.attachments
  | "metadata" => metadata.map .struct
  | _ => none

/-- `ConvertMessageToJsonObject`, with the id that the caller puts in. -/
def convertMessage (id : String) (message : Message) : Except Exn SqlContext :=
  match message.metadata with
  | none => pure (message.toContext id none)
  | some fields => do
      let members ← convertStruct fields
      pure (message.toContext id (some (.ofMembers members)))

end Context

/-! ### The template -/

/-- What a VARCHAR holds: a plain text, or the text of a JSON value, which is kept as the value. -/
inductive Text
  | plain (s : String)
  | json (j : ProtoJson.Json)
  | struct (j : JsonStructs.Json)

/-- The columns of `instinct_thread_message` that an insert sets.  `none` is NULL. -/
structure MessageRow where
  id : Option Text
  threadId : Option Text
  status : Option Text
  incompleteDetails : Option Text
  completedAt : Option Int
  incompletedAt : Option Int
  role : Option Text
  content : Option Text
  assistantId : Option Text
  runId : Option Text
  attachments : Option Text
  metadata : Option Text

/-- What the template engine throws for a name that is not in the context. -/
def variableNotFound : Exn := .client "variable not found"

/-- What `get` throws for a JSON value of another type. -/
def typeError : Exn := .client "[json.exception.type_error.302] type must be another"

/-- `is_array() || is_object()`. -/
def isComposite : ProtoJson.Json → Bool
  | .array _ => true
  | .object _ => true
  | _ => false

section Template

/-- `exists` and `existsIn`. -/
def hasMember (context : SqlContext) (name : String) : Bool := (context name).isSome

/-- `text`. -/
def text (context : SqlContext) (name : String) : Except Exn (Option Text) :=
  match context name with
  | some (.json (.string s)) => .ok (if s = "" then none else some (.plain s))
  | some _ => .ok none
  | none => .error variableNotFound

/-- `stringify`. -/
def stringify (context : SqlContext) (name : String) : Except Exn (Option Text) :=
  match context name with
  | some (.json j) => .ok (if isComposite j then some (.json j) else none)
  | some (.struct j) => .ok (if j.isComposite then some (.struct j) else none)
  | none => .error variableNotFound

/-- `timestamp`: the literal stands for the number of microseconds. -/
def timestamp (context : SqlContext) (name : String) : Except Exn (Option Int) :=
  match context name with
  | some (.json (.number n)) => .ok (some n)
  | some _ => .error typeError
  | none => .error variableNotFound

/-- `is_not_blank`. -/
def isNotBlank (context : SqlContext) (name : String) : Except Exn Bool :=
  match context name with
  | some (.json (.string s)) => .ok (isNotBlankString s)
  | some _ => .error typeError
  | none => .error variableNotFound

/-- The number is not zero. -/
def isTruthy (context : SqlContext) (name : String) : Bool :=
  match context name with
  | some (.json (.number n)) => n ≠ 0
  | _ => false

/-- `{% if exists(tested) and is_not_blank(name) %}`. -/
def textIf (context : SqlContext) (tested name : String) : Except Exn (Option Text) := do
  if hasMember context tested then
    if ← isNotBlank context name then text context name else pure none
  else pure none

/-- `{% if exists(name) and name %}`. -/
def timestampIf (context : SqlContext) (name : String) : Except Exn (Option Int) :=
  if hasMember context name && isTruthy context name then timestamp context name else pure none

/-- `{% if exists(name) %}`. -/
def stringifyIf (context : SqlContext) (name : String) : Except Exn (Option Text) :=
  if hasMember context name then stringify context name else pure none

/-- The row of an insert, given its content. -/
def messageRow (context : SqlContext) (content : Except Exn (Option Text)) :
    Except Exn MessageRow := do
  let id ← text context "id"
  let threadId ← text context "thread_id"
  let status ← text context "status"
  let incompleteDetails ← stringifyIf context "incomplete_details"
  let completedAt ← timestampIf context "completed_at"
  let incompletedAt ← timestampIf context "incompleted_at"
  let role ← text context "role"
  let content ← content
  let assistantId ← textIf context "assistantId" "assistant_id"
  let runId ← textIf context "run_id" "run_id"
  let attachments ← stringifyIf context "attachments"
  let metadata ← stringifyIf context "metadata"
  pure ⟨id, threadId, status, incompleteDetails, completedAt, incompletedAt, role, content,
    assistantId, runId, attachments, metadata⟩

/-- The values of `InsertOneMessages`. -/
def insertOneValues (context : SqlContext) : Except Exn MessageRow :=
  messageRow context (stringifyIf context "content")

/-- The values of `InsertManyMessages`, for one message. -/
def insertManyValues (context : SqlContext) : Except Exn MessageRow :=
  messageRow context (stringify context "content")

/-- `details::check_presence`. -/
def checkPresence (context : SqlContext) (names : List String) : Except Exn Unit :=
  names.forM fun name =>
    assertTrue (hasMember context name) ("should provide " ++ name ++ " in context")

/-- The check of a content item.  Its type is read off without asking whether it is there. -/
def checkContentItem : ProtoJson.Json → Except Exn Unit
  | .object members =>
      match members.lookup "type" with
      | some (.string type) => assertTrue (type = "text" ∨ type = "image_file")
          "content type for message should be text or image_file."
      | some _ => .error (.client "content type for message should be text or image_file.")
      | none => .error (.undefinedBehaviour "content_item[type]")
  | _ => .error typeError

def checkContent (context : SqlContext) : Except Exn Unit :=
  match context "content" with
  | some (.json (.array items)) => items.forM checkContentItem
  | _ => .error (.client "should provide content")

def checkRole (context : SqlContext) : Except Exn Unit :=
  match context "role" with
  | some (.json (.string role)) =>
      assertTrue (role = "user" ∨ role = "assistant") "should provide correct role for message"
  | _ => .error typeError

def checkThreadId (context : SqlContext) : Except Exn Unit :=
  match context "thread_id" with
  | some (.json (.string threadId)) => assertNotBlank threadId "should provide thread_id"
  | _ => .error typeError

/-- The checks of `InsertOneMessages`. -/
def checkOneMessage (context : SqlContext) : Except Exn Unit := do
  checkPresence context ["id", "thread_id", "content", "role", "status"]
  checkContent context
  checkRole context

/-- The checks of `InsertManyMessages`, for one message. -/
def checkManyMessages (context : SqlContext) : Except Exn Unit := do
  checkPresence context ["id", "thread_id", "content", "role", "status"]
  checkThreadId context
  checkContent context
  checkRole context

end Template

/-! ### The conversion of a row -/

/-- What the conversion throws for a value that is not of the column's kind. -/
def conversionError : Exn := .client "should have found a value that can be converted"

/-- The number of an enum value by its exact name. -/
def numberOf (e : EnumType) (name : String) : Option Int :=
  (e.values.find? fun v => v.1 = name).map Prod.snd

def readString : Option Text → Except Exn String
  | none => .ok ""
  | some (.plain s) => .ok s
  | some _ => .error conversionError

def readEnum (e : EnumType) : Option Text → Except Exn Int
  | none => .ok 0
  | some (.plain name) =>
      (numberOf e name).elim
        (.error (.client ("should have found enum value by name " ++ name))) .ok
  | some _ => .error conversionError

def readMessage (nullRoot : Bool) (t : String) :
    Option Text → Except Exn (Option (List (List Value)))
  | none => .ok none
  | some (.json j) =>
      (convertJSONObjectToMessage nullRoot schema t j).elim (.error conversionError) fun fields =>
        .ok (some fields)
  | some _ => .error conversionError

def readMessages (nullRoot : Bool) (t : String) :
    Option Text → Except Exn (List (List (List Value)))
  | none => .ok []
  | some (.json (.array items)) =>
      (items.mapM (convertJSONObjectToMessage nullRoot schema t)).elim (.error conversionError) .ok
  | some _ => .error conversionError

def readStruct : Option Text → Except Exn (Option JsonStructs.Struct)
  | none => .ok none
  | some (.struct j) =>
      (JsonStructs.parseStruct j).elim (.error conversionError) fun fields => .ok (some fields)
  | some _ => .error conversionError

/-- `ConvertQueryResult_`, on the columns of a message. -/
def convertQueryResult (nullRoot : Bool) (row : MessageRow) : Except Exn ReadMessage := do
  let threadId ← readString row.threadId
  let status ← readEnum messageStatus row.status
  let incompleteDetails ← readMessage nullRoot "IncompleteDetails" row.incompleteDetails
  let role ← readEnum messageRole row.role
  let content ← readMessages nullRoot "MessageContent" row.content
  let assistantId ← readString row.assistantId
  let runId ← readString row.runId
  let attachments ← readMessages nullRoot "MessageAttachment" row.attachments
  let metadata ← readStruct row.metadata
  pure
    { threadId := threadId
      status := status
      incompleteDetails := incompleteDetails
      completedAt := row.completedAt.getD 0
      incompletedAt := row.incompletedAt.getD 0
      role := role
      content := content
      assistantId := assistantId
      runId := runId
      attachments := attachments
      metadata := metadata }

/-! ### The table -/

/-- The primary key is the id as a text. -/
def MessageRow.idText (row : MessageRow) : String :=
  match row.id with
  | some (.plain id) => id
  | _ => ""

/-- The table of messages. -/
abbrev MessageTable : Type := Table MessageRow.idText fun _ => True

/-- The rows of one insert statement, all or none. -/
def insertRows : List MessageRow → MessageTable → Option MessageTable
  | [], table => some table
  | row :: rows, table => (table.insert row trivial).bind (insertRows rows)

abbrev MessageM : Type → Type := Action Exn MessageTable

/-- The insert statement with these rows. -/
def insertStatement (rows : List MessageRow) : MessageM Unit := fun table =>
  match insertRows rows table with
  | some table' => (.ok (), table')
  | none => (.error (.client "Constraint Error: Duplicate key"), table)

/-- `EntitySQLUtils::InsertOneMessages`. -/
def insertOneMessages (context : SqlContext) : MessageM Unit := do
  checkOneMessage context
  let row ← insertOneValues context
  insertStatement [row]

/-- `EntitySQLUtils::InsertManyMessages`. -/
def insertManyMessages (contexts : List SqlContext) : MessageM Unit := do
  if contexts.isEmpty then pure ()
  else
    (contexts.forM checkManyMessages : Except Exn PUnit)
    let rows ← (contexts.mapM insertManyValues : Except Exn (List MessageRow))
    insertStatement rows

/-- The condition `id = … and thread_id = …`. -/
def isMessage (threadId id : String) (row : MessageRow) : Bool :=
  row.idText = id && (match row.threadId with
    | some (.plain s) => s = threadId
    | _ => false)

/-- `MessageServiceImpl::RetrieveMessage`. -/
def retrieveMessage (nullRoot : Bool) (threadId id : String) : MessageM (Option ReadMessage) :=
  fun table =>
    match table.find? (isMessage threadId id) with
    | none => (.ok none, table)
    | some row => ((convertQueryResult nullRoot row).map some, table)

/-- What `CreateRawMessage` stores, under the id that it draws. -/
def storeMessage (id : String) (message : Message) : MessageM Unit := do
  let context ← convertMessage id message
  insertOneMessages context

/-- `MessageServiceImpl::CreateRawMessage`. -/
def createRawMessage (nullRoot : Bool) (id : String) (message : Message) :
    MessageM (Option ReadMessage) := do
  storeMessage id message
  retrieveMessage nullRoot message.threadId id

/-- Messages that are stored under their ids by one statement. -/
def storeMessages (messages : List (String × Message)) : MessageM Unit := do
  let contexts ← (messages.mapM fun message => convertMessage message.1 message.2 :
    Except Exn (List SqlContext))
  insertManyMessages contexts

end Instinct.MessageRows
