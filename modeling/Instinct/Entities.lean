/-
Instinct/Entities.lean

The messages of `instinct-proto` that runs, run steps, agents and vector stores are
made of: `chat_completion_api.proto`, `agent.proto` and `assistant_api_v2.proto`.

A message is a structure whose fields carry the defaults of proto3.  A field
with presence is an `Option`; a `oneof` is an inductive type with a case for
"not set".  An enumeration keeps its zero value, because requests may carry it.
-/
import Instinct.Core
import Instinct.JsonStructs

namespace Instinct

/-! ### `chat_completion_api.proto` -/

inductive ToolCallObjectType
  | unknownRunToolCallObjectType
  | function
  deriving Repr, DecidableEq

structure ToolCallFunctionObject where
  name : String := ""
  arguments : String := ""
  deriving Repr, DecidableEq

structure ToolCallObject where
  id : String := ""
  type : ToolCallObjectType := .unknownRunToolCallObjectType
  function : Option ToolCallFunctionObject := none
  deriving Repr, DecidableEq

/-- `tool_call.function()`: the default message where the field is not set. -/
def ToolCallObject.functionOrDefault (call : ToolCallObject) : ToolCallFunctionObject :=
  call.function.getD {}

/-- A chat message. -/
structure Message where
  role : String := ""
  content : String := ""
  toolCalls : List ToolCallObject := []
  toolCallId : String := ""
  deriving Repr, DecidableEq

structure FunctionTool where
  name : String := ""
  description : String := ""
  deriving Repr, DecidableEq

/-- `PromptValue`: a string prompt or a chat prompt. -/
inductive PromptValue
  | unset
  | string (text : String)
  | chat (messages : List Message)
  deriving Repr, DecidableEq

/-- `prompt_value.chat()`. -/
def PromptValue.chatMessages : PromptValue → List Message
  | .chat messages => messages
  | _ => []

/-- `MessageUtils::ExtractLatestPromptString`. -/
def PromptValue.extractLatestPromptString : PromptValue → String
  | .chat messages => (messages.getLast?.map (·.content)).getD ""
  | .string text => text
  | .unset => ""

/-! ### Custom data -/

structure LLMCompilerTask where
  index : Int := 0
  toolCall : ToolCallObject := {}
  dependencies : List Int := []
  thought : String := ""
  result : Option Message := none
  deriving Repr, DecidableEq

structure LLMCompilerJoinerResult where
  isReplan : Bool := false
  answer : String := ""
  thought : String := ""
  deriving Repr, DecidableEq

structure LLMCompilerTaskGraph where
  tasks : List LLMCompilerTask := []
  question : String := ""
  joinerResult : Option LLMCompilerJoinerResult := none
  deriving Repr, DecidableEq

inductive CommonErrorType
  | unknownErrorType
  | serverError
  | rateLimitExceeded
  | invalidPrompt
  | invalidRequestError
  deriving Repr, DecidableEq

structure RunStepError where
  type : CommonErrorType := .unknownErrorType
  message : String := ""
  deriving Repr, DecidableEq

/-- Details of an `AgentFinish` that ends a run early. -/
structure RunEarlyStopDetails where
  error : Option RunStepError := none
  deriving Repr, DecidableEq

/-- `google.protobuf.Any`, by the messages that the code packs into one. -/
inductive Any
  | empty
  | taskGraph (graph : LLMCompilerTaskGraph)
  | earlyStop (details : RunEarlyStopDetails)
  | runStepError (error : RunStepError)
  | other (typeUrl value : String)
  deriving Repr, DecidableEq

/-- `custom().Is<LLMCompilerTaskGraph>()` and `UnpackTo`, in one. -/
def Any.taskGraph? : Any → Option LLMCompilerTaskGraph
  | .taskGraph graph => some graph
  | _ => none

/-- `details().Is<RunEarlyStopDetails>()` and `UnpackTo`, in one. -/
def Any.earlyStop? : Any → Option RunEarlyStopDetails
  | .earlyStop details => some details
  | _ => none

/-! ### `agent.proto` -/

structure AgentContinuation where
  toolCallMessage : Option Message := none
  custom : Any := .empty
  deriving Repr, DecidableEq

structure AgentPause where
  completed : List Message := []
  toolCallMessage : Option Message := none
  custom : Any := .empty
  deriving Repr, DecidableEq

structure AgentFinish where
  response : String := ""
  isCancelled : Bool := false
  isExpired : Bool := false
  isFailed : Bool := false
  details : Any := .empty
  question : PromptValue := .unset
  custom : Any := .empty
  deriving Repr, DecidableEq

inductive AgentThought
  | unset
  | continuation (value : AgentContinuation)
  | pause (value : AgentPause)
  | finish (value : AgentFinish)
  deriving Repr, DecidableEq

structure AgentObservation where
  toolMessages : List Message := []
  custom : Any := .empty
  deriving Repr, DecidableEq

inductive AgentStep
  | unset
  | thought (value : AgentThought)
  | observation (value : AgentObservation)
  deriving Repr, DecidableEq

structure AgentState where
  previousSteps : List AgentStep := []
  input : PromptValue := .unset
  functionTools : List FunctionTool := []
  deriving Repr, DecidableEq

/-- `state.add_previous_steps()->CopyFrom(step)`. -/
def AgentState.addPreviousStep (state : AgentState) (step : AgentStep) : AgentState :=
  { state with previousSteps := state.previousSteps ++ [step] }

/-! ### Search results and citations -/

structure SearchToolResponseEntry where
  content : String := ""
  startIndex : Int := 0
  endIndex : Int := 0
  fileSource : String := ""
  deriving Repr, DecidableEq

structure CitationAnnotatingContext where
  originalAnswer : String := ""
  originalSearchResponse : List SearchToolResponseEntry := []
  question : String := ""
  deriving Repr, DecidableEq

structure AnswerCitation where
  quotedIndex : Int := 0
  annotation : String := ""
  deriving Repr, DecidableEq

/-- What the citation chain answers. -/
structure AnswerWithCitations where
  answer : String := ""
  citations : List AnswerCitation := []
  deriving Repr, DecidableEq

/-! ### Assistants and threads -/

inductive AssistantToolType
  | unknownAssistantToolType
  | codeInterpreter
  | fileSearch
  | function
  deriving Repr, DecidableEq

structure AssistantToolObject where
  type : AssistantToolType := .unknownAssistantToolType
  function : FunctionTool := {}
  deriving Repr, DecidableEq

structure AssistantToolResources where
  codeInterpreterFileIds : List String := []
  fileSearchVectorStoreIds : List String := []
  deriving Repr, DecidableEq

structure AssistantObject where
  id : String := ""
  createdAt : Nat := 0
  model : String := ""
  instructions : String := ""
  temperature : Option Rat := none
  topP : Option Rat := none
  tools : List AssistantToolObject := []
  toolResources : AssistantToolResources := {}
  deriving Repr, DecidableEq

/-- `details::has_file_search`. -/
def hasFileSearch (assistant : AssistantObject) : Bool :=
  assistant.tools.any fun tool => tool.type = .fileSearch

structure ThreadObject where
  id : String := ""
  createdAt : Nat := 0
  toolResources : AssistantToolResources := {}
  deriving Repr, DecidableEq

/-! ### Thread messages -/

inductive MessageRole
  | unknownMessageRole
  | user
  | assistant
  deriving Repr, DecidableEq

inductive MessageStatus
  | unknownMessageStatus
  | completed
  | inProgress
  | incomplete
  deriving Repr, DecidableEq

inductive MessageContentType
  | unknownMessageContentType
  | text
  | imageFile
  deriving Repr, DecidableEq

/-- An annotation of type `file_citation`. -/
structure FileCitationAnnotation where
  text : String := ""
  startIndex : Int := 0
  endIndex : Int := 0
  fileId : String := ""
  quote : String := ""
  deriving Repr, DecidableEq

structure MessageContent where
  type : MessageContentType := .unknownMessageContentType
  textValue : String := ""
  annotations : List FileCitationAnnotation := []
  deriving Repr, DecidableEq

structure MessageObject where
  id : String := ""
  createdAt : Nat := 0
  threadId : String := ""
  status : MessageStatus := .unknownMessageStatus
  completedAt : Nat := 0
  role : MessageRole := .unknownMessageRole
  content : List MessageContent := []
  assistantId : String := ""
  runId : String := ""
  deriving Repr, DecidableEq

structure CreateMessageRequest where
  role : MessageRole := .unknownMessageRole
  content : String := ""
  metadata : Option JsonStructs.Struct := none

/-! ### Runs -/

inductive RunObjectStatus
  | unknownRunObjectStatus
  | queued
  | inProgress
  | requiresAction
  | cancelling
  | cancelled
  | failed
  | completed
  | expired
  deriving Repr, DecidableEq

inductive RequiredActionType
  | unknownRequiredActionType
  | submitToolOutputs
  deriving Repr, DecidableEq

structure RequiredAction where
  type : RequiredActionType := .unknownRequiredActionType
  submitToolOutputs : List ToolCallObject := []
  deriving Repr, DecidableEq

structure RunObject where
  id : String := ""
  createdAt : Nat := 0
  threadId : String := ""
  assistantId : String := ""
  status : RunObjectStatus := .unknownRunObjectStatus
  requiredAction : RequiredAction := {}
  startedAt : Nat := 0
  expiresAt : Nat := 0
  cancelledAt : Nat := 0
  failedAt : Nat := 0
  completedAt : Nat := 0
  model : String := ""
  instructions : String := ""
  tools : List AssistantToolObject := []
  temperature : Option Rat := none
  topP : Option Rat := none
  maxPromptTokens : Nat := 0
  maxCompletionTokens : Nat := 0
  truncationStrategy : String := ""
  toolChoice : String := ""
  responseFormat : String := ""
  deriving Repr, DecidableEq

structure GetRunRequest where
  runId : String := ""
  threadId : String := ""
  deriving Repr, DecidableEq

/-- The fields that `CreateRunRequest` and `CreateThreadAndRunRequest` share. -/
structure RunOptions where
  instructions : String := ""
  tools : List AssistantToolObject := []
  temperature : Rat := 0
  topP : Rat := 0
  maxPromptTokens : Nat := 0
  maxCompletionTokens : Nat := 0
  toolChoice : String := ""
  deriving Repr, DecidableEq

structure CreateRunRequest where
  threadId : String := ""
  assistantId : String := ""
  additionalMessages : List CreateMessageRequest := []
  options : RunOptions := {}
  metadata : Option JsonStructs.Struct := none

/-- The thread data of a `CreateThreadAndRunRequest`. -/
structure NewThread where
  messages : List CreateMessageRequest := []
  toolResources : AssistantToolResources := {}
  metadata : Option JsonStructs.Struct := none

structure CreateThreadAndRunRequest where
  assistantId : String := ""
  thread : Option NewThread := none
  model : String := ""
  toolResources : Option AssistantToolResources := none
  options : RunOptions := {}
  metadata : Option JsonStructs.Struct := none

structure ModifyRunRequest where
  runId : String := ""
  threadId : String := ""
  status : RunObjectStatus := .unknownRunObjectStatus
  requiredAction : Option RequiredAction := none
  startedAt : Nat := 0
  expiresAt : Nat := 0
  cancelledAt : Nat := 0
  failedAt : Nat := 0
  completedAt : Nat := 0
  metadata : Option JsonStructs.Struct := none

structure ToolOutput where
  toolCallId : String := ""
  output : String := ""
  deriving Repr, DecidableEq

structure SubmitToolOutputsToRunRequest where
  runId : String := ""
  threadId : String := ""
  toolOutputs : List ToolOutput := []
  deriving Repr, DecidableEq

structure CancelRunRequest where
  runId : String := ""
  threadId : String := ""
  deriving Repr, DecidableEq

/-! ### Run steps -/

inductive RunStepType
  | unknownRunStepType
  | messageCreation
  | toolCalls
  deriving Repr, DecidableEq

inductive RunStepStatus
  | unknownRunStepStatus
  | inProgress
  | cancelled
  | failed
  | completed
  | expired
  deriving Repr, DecidableEq

structure FunctionCall where
  name : String := ""
  arguments : String := ""
  output : String := ""
  deriving Repr, DecidableEq

structure ToolCallDetail where
  id : String := ""
  type : AssistantToolType := .unknownAssistantToolType
  function : Option FunctionCall := none
  deriving Repr, DecidableEq

/-- `tool_call.function()`: the default message where the field is not set. -/
def ToolCallDetail.functionOrDefault (call : ToolCallDetail) : FunctionCall :=
  call.function.getD {}

/-- `tool_call.mutable_function()->set_output(output)`. -/
def ToolCallDetail.setOutput (call : ToolCallDetail) (output : String) : ToolCallDetail :=
  { call with function := some { call.functionOrDefault with output := output } }

structure RunStepDetails where
  type : RunStepType := .unknownRunStepType
  messageCreation : Option String := none
  toolCalls : List ToolCallDetail := []
  custom : Any := .empty
  deriving Repr, DecidableEq

structure RunStepObject where
  id : String := ""
  createdAt : Nat := 0
  assistantId : String := ""
  threadId : String := ""
  runId : String := ""
  type : RunStepType := .unknownRunStepType
  status : RunStepStatus := .unknownRunStepStatus
  stepDetails : RunStepDetails := {}
  lastError : Option RunStepError := none
  expiredAt : Nat := 0
  cancelledAt : Nat := 0
  failedAt : Nat := 0
  completedAt : Nat := 0
  deriving Repr, DecidableEq

structure GetRunStepRequest where
  runId : String := ""
  stepId : String := ""
  threadId : String := ""
  deriving Repr, DecidableEq

structure ModifyRunStepRequest where
  runId : String := ""
  threadId : String := ""
  stepId : String := ""
  stepDetails : Option RunStepDetails := none
  status : RunStepStatus := .unknownRunStepStatus
  lastError : Option RunStepError := none
  expiredAt : Nat := 0
  cancelledAt : Nat := 0
  failedAt : Nat := 0
  completedAt : Nat := 0
  deriving Repr, DecidableEq

/-! ### List requests -/

inductive ListRequestOrder
  | unknownListRequestOrder
  | desc
  | asc
  deriving Repr, DecidableEq

/-- The fields that all list requests share. -/
structure ListRequest where
  after : String := ""
  before : String := ""
  limit : Int32 := 0
  order : ListRequestOrder := .unknownListRequestOrder
  deriving DecidableEq

structure ListAssistantsRequest extends ListRequest where
  deriving DecidableEq

structure ListMessagesRequest extends ListRequest where
  runId : String := ""
  threadId : String := ""
  deriving DecidableEq

structure ListRunStepsRequest extends ListRequest where
  runId : String := ""
  threadId : String := ""
  deriving DecidableEq

structure ListVectorStoresRequest extends ListRequest where
  deriving DecidableEq

/-- The fields that all list responses share. -/
structure ListResponse (α : Type) where
  data : List α := []
  firstId : String := ""
  lastId : String := ""
  hasMore : Bool := false
  deriving Repr, DecidableEq

/-! ### Vector store files -/

inductive VectorStoreFileStatus
  | unknownVectorStoreFileStatus
  | inProgress
  | completed
  | failed
  | cancelled
  deriving Repr, DecidableEq

structure VectorStoreFileError where
  code : CommonErrorType := .unknownErrorType
  message : String := ""
  deriving Repr, DecidableEq

structure VectorStoreFileObject where
  fileId : String := ""
  createdAt : Nat := 0
  vectorStoreId : String := ""
  status : VectorStoreFileStatus := .unknownVectorStoreFileStatus
  lastError : Option VectorStoreFileError := none
  fileBatchId : String := ""
  summary : String := ""
  deriving Repr, DecidableEq

structure ModifyVectorStoreFileRequest where
  fileId : String := ""
  vectorStoreId : String := ""
  status : VectorStoreFileStatus := .unknownVectorStoreFileStatus
  lastError : Option VectorStoreFileError := none
  summary : String := ""
  deriving Repr, DecidableEq

inductive VectorStoreFileBatchStatus
  | unknownVectorStoreFileBatchStatus
  | inProgress
  | completed
  | cancelled
  | failed
  deriving Repr, DecidableEq

structure FileCounts where
  inProgress : Nat := 0
  completed : Nat := 0
  failed : Nat := 0
  cancelled : Nat := 0
  total : Nat := 0
  deriving Repr, DecidableEq

/-- A file batch.  `sanityCheckAt` is zero where the column is NULL. -/
structure VectorStoreFileBatchObject where
  id : String := ""
  createdAt : Nat := 0
  modifiedAt : Nat := 0
  vectorStoreId : String := ""
  status : VectorStoreFileBatchStatus := .unknownVectorStoreFileBatchStatus
  lastError : Option VectorStoreFileError := none
  sanityCheckAt : Nat := 0
  fileCounts : FileCounts := {}
  deriving Repr, DecidableEq

structure ModifyVectorStoreFileBatchRequest where
  batchId : String := ""
  vectorStoreId : String := ""
  status : VectorStoreFileBatchStatus := .unknownVectorStoreFileBatchStatus
  lastError : Option VectorStoreFileError := none
  sanityCheckAt : Nat := 0
  deriving Repr, DecidableEq

structure ListVectorStoreFilesRequest extends ListRequest where
  filter : VectorStoreFileStatus := .unknownVectorStoreFileStatus
  vectorStoreId : String := ""
  deriving DecidableEq

structure ListFilesInVectorStoreBatchRequest extends ListRequest where
  batchId : String := ""
  filter : VectorStoreFileStatus := .unknownVectorStoreFileStatus
  vectorStoreId : String := ""
  deriving DecidableEq

/-! ### Vector stores -/

inductive VectorStoreExpirationAnchor
  | unknownVectorStoreExpirationAnchor
  | lastActiveAt
  deriving Repr, DecidableEq

structure VectorStoreExpirationPolicy where
  anchor : VectorStoreExpirationAnchor := .unknownVectorStoreExpirationAnchor
  days : Nat := 0
  deriving Repr, DecidableEq

inductive VectorStoreStatus
  | unknownVectorStoreStatus
  | expired
  | inProgress
  | completed
  deriving Repr, DecidableEq

structure VectorStoreObject where
  id : String := ""
  createdAt : Nat := 0
  name : String := ""
  fileCounts : FileCounts := {}
  status : VectorStoreStatus := .unknownVectorStoreStatus
  expiresAfter : Option VectorStoreExpirationPolicy := none
  lastActiveAt : Nat := 0
  deriving Repr, DecidableEq

structure CreateVectorStoreRequest where
  fileIds : List String := []
  name : String := ""
  expiresAfter : Option VectorStoreExpirationPolicy := none
  deriving Repr, DecidableEq

structure CreateVectorStoreFileRequest where
  vectorStoreId : String := ""
  fileId : String := ""
  deriving Repr, DecidableEq

structure CreateVectorStoreFileBatchRequest where
  vectorStoreId : String := ""
  fileIds : List String := []
  deriving Repr, DecidableEq

structure CancelVectorStoreFileBatchRequest where
  batchId : String := ""
  vectorStoreId : String := ""
  deriving Repr, DecidableEq

structure DeleteVectorStoreFileRequest where
  fileId : String := ""
  vectorStoreId : String := ""
  deriving Repr, DecidableEq

structure DeleteVectorStoreFileResponse where
  id : String := ""
  deleted : Bool := false
  deriving Repr, DecidableEq

/-! ### Files -/

inductive FileObjectPurpose
  | unknownFileObjectPurpose
  | assistants
  | assistantsOutput
  deriving Repr, DecidableEq

structure FileObject where
  id : String := ""
  bytes : Int32 := 0
  filename : String := ""
  purpose : FileObjectPurpose := .unknownFileObjectPurpose
  deriving DecidableEq

end Instinct
