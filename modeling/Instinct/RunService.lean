/-
Instinct/RunService.lean

`RunServiceImpl`, and of the other services what the task handler of a run
calls.  Every service call is one atomic action on the store.

A call that creates several rows has no transaction: rows written before a
failure stay.

The task queue of the scheduler is part of the store.  A task is the run object
as it was when it was enqueued.
-/
import Instinct.Listing
import Instinct.StructConversion

namespace Instinct

open Effects

/-! ### Messages, assistants and threads -/

/-- `MessageServiceImpl::RetrieveMessage`. -/
def retrieveMessage (threadId messageId : String) : ServiceM (Option MessageObject) := do
  templateVariable "message_id" messageId
  templateVariable "thread_id" threadId
  selectOneMessages threadId messageId

/-- `MessageServiceImpl::CreateRawMessage`. -/
def createRawMessage (message : MessageObject) : ServiceM (Option MessageObject) := do
  let id ← generateId "msg"
  insertOneMessages { message with id := id.val } id.property
  retrieveMessage message.threadId id.val

/-- `AssistantServiceImpl::RetrieveAssistant`. -/
def retrieveAssistant (assistantId : String) : ServiceM (Option AssistantObject) :=
  getOneAssistant assistantId

/-- `ThreadServiceImpl::RetrieveThread`. -/
def retrieveThread (threadId : String) : ServiceM (Option ThreadObject) := do
  assertNotBlank threadId
  selectOneThread threadId

/-! ### Runs -/

/-- `RunServiceImpl::RetrieveRun`. -/
def retrieveRun (req : GetRunRequest) : ServiceM (Option RunObject) := do
  assertNotBlank req.threadId "should provide thread id"
  assertNotBlank req.runId "should provide run id"
  selectOneRun req.threadId req.runId

/-- The checks of `ModifyRun` on a tool call of the required action. -/
def checkRequiredToolCall (toolCall : ToolCallObject) : Except Exn Unit := do
  assertTrue (toolCall.type ≠ .unknownRunToolCallObjectType) "should have type on tool call"
  assertNotBlank toolCall.id "should have id on tool call"
  match toolCall.function with
  | some function => do
      assertNotBlank function.name "should have non blank name on function"
      assertNotBlank function.arguments "should have non blank name on arguments"
  | none => pure ()

/-- `ConvertMessageToJsonObject` on the metadata of a request, which is stored in a column of its
own.  Of the rest of a request everything can be converted. -/
def convertMetadata : Option JsonStructs.Struct → Except Exn Unit
  | none => .ok ()
  | some fields => (StructConversion.convertStruct fields).map fun _ => ()

/-- The assertions of `ModifyRun` on its request, and the conversion of it. -/
def checkModifyRun (req : ModifyRunRequest) : Except Exn Unit := do
  assertNotBlank req.threadId "should provide thread_id"
  assertNotBlank req.runId "should provide run_id"
  match req.requiredAction with
  | some action => action.submitToolOutputs.forM checkRequiredToolCall
  | none => pure ()
  convertMetadata req.metadata

/-- `RunServiceImpl::ModifyRun`. -/
def modifyRun (req : ModifyRunRequest) : ServiceM (Option RunObject) := do
  checkModifyRun req
  let count ← updateRun req
  assertTrue (count = 1) "should have run object updated"
  retrieveRun { threadId := req.threadId, runId := req.runId }

/-- `RunServiceImpl::CancelRun`: the update is unconditional and its count is not read. -/
def cancelRun (req : CancelRunRequest) : ServiceM (Option RunObject) := do
  templateVariable "thread_id" req.threadId
  templateVariable "run_id" req.runId
  let _ ← updateRun { threadId := req.threadId, runId := req.runId, status := .cancelling }
  retrieveRun { threadId := req.threadId, runId := req.runId }

/-- The columns of a run insert.  `keep_default_values` puts every scalar field of the request
into the context, so that `exists("temperature")` holds also where it is not set. -/
def RunOptions.newRun (options : RunOptions) (model runId threadId assistantId : String) :
    RunObject :=
  { id := runId
    threadId := threadId
    assistantId := assistantId
    status := .queued
    truncationStrategy := "auto"
    responseFormat := "auto"
    model := model
    instructions := options.instructions
    tools := options.tools
    temperature := some options.temperature
    topP := some options.topP
    maxPromptTokens := options.maxPromptTokens
    maxCompletionTokens := options.maxCompletionTokens
    toolChoice := options.toolChoice }

/-- A message that a create request brings along. -/
def newMessage (runId threadId : String) (request : CreateMessageRequest) :
    ServiceM { message : MessageObject // isBlankString message.id = false } := do
  let id ← generateId "msg"
  let now ← Action.gets (·.clock)
  pure ⟨{ id := id.val
          role := request.role
          content := [{ type := .text, textValue := request.content }]
          status := .completed
          runId := runId
          threadId := threadId
          completedAt := now }, id.property⟩

def newMessages (runId threadId : String) : List CreateMessageRequest →
    ServiceM (List { message : MessageObject // isBlankString message.id = false })
  | [] => pure []
  | request :: requests => do
      let message ← newMessage runId threadId request
      let messages ← newMessages runId threadId requests
      pure (message :: messages)

/-- Insert the messages of a create request, if it has any. -/
def insertNewMessages (runId threadId : String) (requests : List CreateMessageRequest) :
    ServiceM Unit := do
  if requests.isEmpty then pure ()
  else
    let messages ← newMessages runId threadId requests
    let count ← insertManyMessages messages
    assertTrue (count = requests.length) "should have saved all additional messages"

/-- `task_scheduler_->Enqueue`, for a run object that was read back. -/
def enqueueRun : Option RunObject → ServiceM Unit
  | some run => Action.modify fun s => { s with queue := s.queue ++ [run] }
  | none => pure ()

/-- The end of both create calls: insert the run, read it back and enqueue it. -/
def startRun (options : RunOptions) (model : String)
    (toolResources : Option AssistantToolResources)
    (runId : { id : String // isBlankString id = false }) (threadId assistantId : String) :
    ServiceM (Option RunObject) := do
  insertOneRun (options.newRun model runId.val threadId assistantId) toolResources runId.property
  let runObject ← retrieveRun { threadId := threadId, runId := runId.val }
  enqueueRun runObject
  pure runObject

/-- The conversion of messages that a create request brings along. -/
def convertMessages (messages : List CreateMessageRequest) : Except Exn Unit :=
  messages.forM fun message => convertMetadata message.metadata

/-- `RunServiceImpl::CreateRun`.  Its request has no field for a model. -/
def createRun (req : CreateRunRequest) : ServiceM (Option RunObject) := do
  assertNotBlank req.threadId "should provide thread id"
  assertNotBlank req.assistantId "should provide assistant id"
  convertMessages req.additionalMessages
  convertMetadata req.metadata
  let runId ← generateId "run"
  insertNewMessages runId.val req.threadId req.additionalMessages
  startRun req.options "" none runId req.threadId req.assistantId

/-- The messages of a new thread alternate: a user message never follows a user message,
an assistant message always does. -/
def checkMessageSequence : Bool → List CreateMessageRequest → Except Exn Unit
  | _, [] => pure ()
  | isUserMessage, message :: messages => do
      if message.role = .user then
        assertTrue (!isUserMessage) "illegal sequence of user messages"
      if message.role = .assistant then
        assertTrue isUserMessage "illegal sequence of assistan messages"
      checkMessageSequence (message.role = .user) messages

/-- The conversion of a new thread and a run, which comes to the metadata of both and of the
messages. -/
def CreateThreadAndRunRequest.convert (req : CreateThreadAndRunRequest) : Except Exn Unit := do
  convertMessages (req.thread.getD {}).messages
  convertMetadata (req.thread.getD {}).metadata
  convertMetadata req.metadata

/-- `RunServiceImpl::CreateThreadAndRun`. -/
def createThreadAndRun (req : CreateThreadAndRunRequest) : ServiceM (Option RunObject) := do
  assertNotBlank req.assistantId "should provide assistant id"
  assertTrue req.thread.isSome "should provide thread data"
  let thread := req.thread.getD {}
  assertTrue (0 < thread.messages.length) "should have thread messages"
  checkMessageSequence false thread.messages
  req.convert
  let runId ← generateId "run"
  let threadId ← generateId "thread"
  insertOneThread { id := threadId.val, toolResources := thread.toolResources } threadId.property
  insertNewMessages runId.val threadId.val thread.messages
  startRun req.options req.model req.toolResources runId threadId.val req.assistantId

/-! ### Run steps -/

/-- `RunServiceImpl::GetRunStep`. -/
def getRunStep (req : GetRunStepRequest) : ServiceM (Option RunStepObject) := do
  templateVariable "step_id" req.stepId
  templateVariable "thread_id" req.threadId
  templateVariable "run_id" req.runId
  selectRunStep req.threadId req.runId req.stepId

/-- The checks of `CreateRunStep` on a tool call. -/
def checkToolCallDetail (toolCall : ToolCallDetail) : Except Exn Unit := do
  assertTrue (toolCall.type ≠ .unknownAssistantToolType) "should have correct tool call type"
  match toolCall.function with
  | some function => do
      assertNotBlank function.name "should provide name for tool call"
      assertNotBlank function.arguments "should provide arguments for tool call"
  | none => pure ()

/-- The assertions of `CreateRunStep` on its request. -/
def checkCreateRunStep (req : RunStepObject) : Except Exn Unit := do
  assertNotBlank req.runId "should provide run_id"
  assertNotBlank req.threadId "should provide thread_id"
  assertTrue (req.status ≠ .unknownRunStepStatus) "should provide status"
  assertTrue (req.type ≠ .unknownRunStepType) "should provide type"
  if req.type = .toolCalls then
    req.stepDetails.toolCalls.forM checkToolCallDetail
  if req.type = .messageCreation then
    assertTrue req.stepDetails.messageCreation.isSome "should provide message_creation object"
    assertNotBlank (req.stepDetails.messageCreation.getD "") "should provide message_id"

/-- `RunServiceImpl::CreateRunStep`. -/
def createRunStep (req : RunStepObject) : ServiceM (Option RunStepObject) := do
  checkCreateRunStep req
  let runStepId ← generateId "run_step"
  insertOneRunStep { req with id := runStepId.val } runStepId.property
  getRunStep { runId := req.runId, stepId := runStepId.val, threadId := req.threadId }

/-- The assertions of `ModifyRunStep` on its request. -/
def checkModifyRunStep (req : ModifyRunStepRequest) : Except Exn Unit := do
  assertNotBlank req.runId "should provide run_id"
  assertNotBlank req.threadId "should provide thread_id"
  assertNotBlank req.stepId "should provide step_id"

/-- `RunServiceImpl::ModifyRunStep`: the count of the update is not read. -/
def modifyRunStep (req : ModifyRunStepRequest) : ServiceM (Option RunStepObject) := do
  checkModifyRunStep req
  let _ ← updateRunStep req
  getRunStep { runId := req.runId, stepId := req.stepId, threadId := req.threadId }

/-! ### Tool outputs -/

/-- One output of a request: it is set on the calls with its id, and those ids no
longer wait for an output. -/
def submitOutput (state : List ToolCallDetail × List String) (toolOutput : ToolOutput) :
    List ToolCallDetail × List String :=
  (state.1.map fun call =>
      if call.id = toolOutput.toolCallId then call.setOutput toolOutput.output else call,
    if state.1.any fun call => call.id = toolOutput.toolCallId then
      state.2.filter fun id => id ≠ toolOutput.toolCallId
    else state.2)

/-- All outputs of a request, in order: the calls with their outputs, and the ids that
still wait for one. -/
def submitOutputs (calls : List ToolCallDetail) (waiting : List String)
    (toolOutputs : List ToolOutput) : List ToolCallDetail × List String :=
  toolOutputs.foldl submitOutput (calls, waiting)

/-- The ids of the function calls that a required action names. -/
def RequiredAction.functionCallIds (action : RequiredAction) : List String :=
  (action.submitToolOutputs.filter fun call => call.type = .function).map (·.id)

/-- `RunServiceImpl::SubmitToolOutputs`. -/
def submitToolOutputs (req : SubmitToolOutputsToRunRequest) : ServiceM (Option RunObject) := do
  assertNotBlank req.runId "should provide run_id"
  assertNotBlank req.threadId "should provide thread_id"
  -- check run status
  let runObject? ← retrieveRun { threadId := req.threadId, runId := req.runId }
  let place := "thread_id=" ++ req.threadId ++ ", run_id=" ++ req.runId
  assertTrue runObject?.isSome ("should have found run object with " ++ place)
  let runObject := runObject?.getD {}
  assertTrue (runObject.status = .requiresAction)
    "run object should be in status of 'requires_action'."
  assertTrue (runObject.requiredAction.type = .submitToolOutputs)
    ("required action for run object should be type of 'submit_tool_outputs'. " ++ place)
  -- check last run step
  let response ← listRunSteps
    { threadId := req.threadId, runId := req.runId, order := .desc, limit := 1 }
  assertTrue (response.data.length = 1) ("should have found latest run step for " ++ place)
  let lastRunStep := response.data.headD {}
  assertTrue (lastRunStep.status = .inProgress)
    "Last run step should be in status of 'in_progress'."
  let functionCallIds := runObject.requiredAction.functionCallIds
  let place := place ++ ", run_step_id=" ++ lastRunStep.id
  assertTrue (0 < functionCallIds.length) ("should have at at least one tool call for " ++ place)
  -- set tool output results in step_details
  let submitted := submitOutputs lastRunStep.stepDetails.toolCalls functionCallIds req.toolOutputs
  assertTrue (submitted.2 = []) ("should provide results for all function calls. " ++ place ++
    ", tool_call_ids=" ++ ",".intercalate submitted.2)
  let updatedStep ← modifyRunStep
    { threadId := req.threadId
      runId := req.runId
      stepId := lastRunStep.id
      stepDetails := some { lastRunStep.stepDetails with toolCalls := submitted.1 } }
  assertTrue updatedStep.isSome ("should have run step object updated. " ++ place)
  -- back to `queued`, so that the task handler picks the run up again
  let returnedObject ← modifyRun
    { threadId := req.threadId, runId := req.runId, status := .queued }
  enqueueRun returnedObject
  pure returnedObject

end Instinct
