/-
Instinct/Callbacks.lean

The callbacks of `RunObjectTaskHandler`: what the handler writes when the agent
continues, pauses, observes or finishes.

Each callback that updates a run step asks `RetrieveLastRunStep_` for it.  That
function lists the steps newest first and takes the last of the page, so a
callback updates the newest step of a run of one step, and an older one
otherwise (`callbacks_update_newest_iff`).
-/
import Instinct.Calls

namespace Instinct

open Effects Paging

/-! ### The stop predicate -/

/-- `RunObjectTaskHandler::CheckRunObjectForExecution_`.  The step under construction
becomes a finish, also where the predicate does not fire. -/
def checkRunObjectForExecution (threadId runId : String) (step : AgentStep) :
    HandlerM (Bool × AgentStep) := do
  let run? ← perform (.retrieveRun { runId := runId, threadId := threadId })
  let finish := step.mutableFinish
  match run? with
  | some run =>
      if run.status = .cancelling ∨ run.status = .cancelled then
        pure (true, .thought (.finish
          { finish with details := .earlyStop {}, isCancelled := true }))
      else if run.status = .expired then
        pure (true, .thought (.finish { finish with details := .earlyStop {}, isExpired := true }))
      else pure (false, .thought (.finish finish))
  | none =>
      pure (false, .thought (.finish
        { finish with
          details := .earlyStop { error := some { type := .invalidRequestError } }
          isFailed := true }))

/-! ### Helpers -/

/-- `RunObjectTaskHandler::UpdateRunObjectStatus`. -/
def updateRunObjectStatus (threadId runId : String) (status : RunObjectStatus) :
    HandlerM (Option RunObject) :=
  perform (.modifyRun { runId := runId, threadId := threadId, status := status })

/-- The annotations of an answer.  A citation counts when its index is smaller than the
number of entries; a negative index is not tested for. -/
def citationAnnotations (entries : List SearchToolResponseEntry) :
    List AnswerCitation → Except Exn (List FileCitationAnnotation)
  | [] => pure []
  | citation :: citations => do
      if citation.quotedIndex < 0 then
        .error (.undefinedBehaviour "original_search_response().entries(idx)")
      else
        let annotations ← citationAnnotations entries citations
        match entries[citation.quotedIndex.toNat]? with
        | some entry =>
            pure ({ text := citation.annotation
                    startIndex := entry.startIndex
                    endIndex := entry.endIndex
                    fileId := entry.fileSource
                    quote := entry.content } :: annotations)
        | none => pure annotations

/-- The content of the message of a step. -/
def messageContent (content : String) (citationContext : Option CitationAnnotatingContext) :
    HandlerM MessageContent :=
  match citationContext with
  | some context => do
      let answer ← perform (.citations context)
      let annotations ← citationAnnotations context.originalSearchResponse answer.citations
      pure { type := .text, textValue := answer.answer, annotations := annotations }
  | none => pure { type := .text, textValue := content }

/-- The message that `CreateMessageStep_` creates. -/
def stepMessage (run : RunObject) (content : MessageContent) : MessageObject :=
  { threadId := run.threadId
    role := .assistant
    assistantId := run.assistantId
    runId := run.id
    status := .completed
    content := [content] }

/-- The step that `CreateMessageStep_` creates. -/
def messageStep (run : RunObject) (messageId : String) : RunStepObject :=
  { runId := run.id
    threadId := run.threadId
    assistantId := run.assistantId
    type := .messageCreation
    status := .completed
    stepDetails := { type := .messageCreation, messageCreation := some messageId } }

/-- `RunObjectTaskHandler::CreateMessageStep_`. -/
def createMessageStep (content : String) (run : RunObject)
    (citationContext : Option CitationAnnotatingContext) :
    HandlerM (Option (RunStepObject × MessageObject)) := do
  let messageContent ← messageContent content citationContext
  let message? ← perform (.createRawMessage (stepMessage run messageContent))
  match message? with
  | none => pure none
  | some message => do
      let step? ← perform (.createRunStep (messageStep run message.id))
      pure (step?.map fun step => (step, message))

/-- `RunObjectTaskHandler::RetrieveLastRunStep_`: newest first, the last of the page. -/
def retrieveLastRunStep (run : RunObject) : HandlerM (Option RunStepObject) := do
  let response ← perform
    (.listRunSteps { order := .desc, runId := run.id, threadId := run.threadId })
  pure response.data.getLast?

/-! ### `OnAgentContinuation` -/

/-- The tool call of a step, for a tool call of a message. -/
def toolCallDetail (toolRequest : ToolCallObject) : ToolCallDetail :=
  { id := toolRequest.id
    type := .function
    function := some
      { name := toolRequest.functionOrDefault.name
        arguments := toolRequest.functionOrDefault.arguments } }

/-- The step that `OnAgentContinuation` creates. -/
def continuationStep (continuation : AgentContinuation) (message : Message) (run : RunObject) :
    RunStepObject :=
  { threadId := run.threadId
    runId := run.id
    type := .toolCalls
    assistantId := run.assistantId
    status := .inProgress
    stepDetails :=
      { custom := continuation.custom
        toolCalls := message.toolCalls.map toolCallDetail } }

/-- Create a step with a message, if the content is not blank.  `false`: it failed. -/
def continuationMessage (message : Message) (run : RunObject) : HandlerM Bool :=
  if isNotBlankString message.content then do
    let step? ← createMessageStep message.content run none
    pure step?.isSome
  else pure true

/-- Create a step with the tool calls, if there are any.  `false`: it failed. -/
def continuationToolCalls (continuation : AgentContinuation) (message : Message)
    (run : RunObject) : HandlerM Bool :=
  if 0 < message.toolCalls.length then do
    let step? ← perform (.createRunStep (continuationStep continuation message run))
    pure step?.isSome
  else pure true

/-- `RunObjectTaskHandler::OnAgentContinuation`. -/
def onAgentContinuation (continuation : AgentContinuation) (run : RunObject) : HandlerM Unit := do
  let message := continuation.toolCallMessage.getD {}
  let messageDone ← continuationMessage message run
  if messageDone then
    let stepDone ← continuationToolCalls continuation message run
    if stepDone then
      let _ ← updateRunObjectStatus run.threadId run.id .inProgress
      pure ()

/-! ### `OnAgentPause_` -/

/-- Set the outputs of the tool calls that tool messages answer. -/
def setOutputs (accepts : ToolCallDetail → Bool) (messages : List Message)
    (toolCalls : List ToolCallDetail) : List ToolCallDetail :=
  messages.foldl (fun calls message => calls.map fun call =>
    if call.id = message.toolCallId ∧ accepts call then call.setOutput message.content else call)
    toolCalls

/-- A call counts as done when the last of the completed messages answers it: the flag is
overwritten by every message. -/
def isDone (completed : List Message) (toolCall : ToolCallObject) : Bool :=
  completed.foldl (fun _ message => message.toolCallId = toolCall.id) false

/-- The tool call of a required action. -/
def requiredToolCall (toolCall : ToolCallObject) : ToolCallObject :=
  { type := .function
    id := toolCall.id
    function := some
      { name := toolCall.functionOrDefault.name
        arguments := toolCall.functionOrDefault.arguments } }

/-- The step update of `OnAgentPause_`. -/
def pauseStepRequest (pause : AgentPause) (run : RunObject) (step : RunStepObject) :
    ModifyRunStepRequest :=
  { runId := run.id
    stepId := step.id
    threadId := run.threadId
    stepDetails := some { step.stepDetails with
      custom := pause.custom
      toolCalls := setOutputs (fun call => call.type = .function) pause.completed
        step.stepDetails.toolCalls } }

/-- The run update of `OnAgentPause_`. -/
def pauseRunRequest (pause : AgentPause) (run : RunObject) : ModifyRunRequest :=
  { runId := run.id
    threadId := run.threadId
    status := .requiresAction
    requiredAction := some
      { type := .submitToolOutputs
        submitToolOutputs := ((pause.toolCallMessage.getD {}).toolCalls.filter fun toolCall =>
          !isDone pause.completed toolCall).map requiredToolCall } }

/-- `RunObjectTaskHandler::OnAgentPause_`. -/
def onAgentPause (pause : AgentPause) (run : RunObject) : HandlerM Unit := do
  let last? ← retrieveLastRunStep run
  match last? with
  | none => pure ()
  | some last => do
      let updated? ← perform (.modifyRunStep (pauseStepRequest pause run last))
      if updated?.isSome then
        let _ ← perform (.modifyRun (pauseRunRequest pause run))
        pure ()

/-! ### `OnAgentObservation_` -/

/-- The step update of `OnAgentObservation_`. -/
def observationStepRequest (observation : AgentObservation) (run : RunObject)
    (step : RunStepObject) : ModifyRunStepRequest :=
  { runId := run.id
    stepId := step.id
    threadId := run.threadId
    status := .completed
    stepDetails := some { step.stepDetails with
      custom := observation.custom
      toolCalls := setOutputs (fun _ => true) observation.toolMessages
        step.stepDetails.toolCalls } }

/-- `RunObjectTaskHandler::OnAgentObservation_`. -/
def onAgentObservation (observation : AgentObservation) (run : RunObject) : HandlerM Unit := do
  let last? ← retrieveLastRunStep run
  match last? with
  | none => pure ()
  | some last => do
      let run? ← updateRunObjectStatus run.threadId run.id .inProgress
      if run?.isSome then
        let _ ← perform (.modifyRunStep (observationStepRequest observation run last))
        pure ()

/-! ### `OnAgentFinish_` -/

/-- The finish is the final answer. -/
def AgentFinish.isCompleted (finish : AgentFinish) : Bool :=
  !finish.isFailed && !finish.isCancelled && !finish.isExpired

/-- The context of the citation chain, if anything was retrieved. -/
def citationContext (finish : AgentFinish) (fileSearchResults : List SearchToolResponseEntry) :
    Option CitationAnnotatingContext :=
  if fileSearchResults.isEmpty then none
  else some
    { originalAnswer := finish.response
      originalSearchResponse := fileSearchResults
      question := finish.question.extractLatestPromptString }

/-- The error of a failed step: the one in the details, if there is one. -/
def finishError (finish : AgentFinish) : RunStepError :=
  (finish.details.earlyStop?.bind (·.error)).getD { type := .invalidRequestError }

/-- The step update of `OnAgentFinish_`. -/
def finishStepRequest (now : Nat) (finish : AgentFinish) (run : RunObject)
    (step : RunStepObject) : ModifyRunStepRequest :=
  let request : ModifyRunStepRequest :=
    { runId := run.id
      stepId := step.id
      threadId := run.threadId
      stepDetails := some { step.stepDetails with custom := finish.custom } }
  if finish.isFailed then
    { request with status := .failed, failedAt := now, lastError := some (finishError finish) }
  else if finish.isCancelled then
    { request with status := .cancelled, cancelledAt := now }
  else if finish.isExpired then
    { request with status := .expired, expiredAt := now }
  else { request with status := .completed, completedAt := now }

/-- The run update of `OnAgentFinish_`. -/
def finishRunRequest (now : Nat) (finish : AgentFinish) (run : RunObject) : ModifyRunRequest :=
  let request : ModifyRunRequest := { runId := run.id, threadId := run.threadId }
  if finish.isFailed then { request with status := .failed, failedAt := now }
  else if finish.isCancelled then { request with status := .cancelled, cancelledAt := now }
  else if finish.isExpired then { request with status := .expired }
  else { request with status := .completed, completedAt := now }

/-- Create a message with the final answer and a step for it.  `false`: it failed. -/
def finishMessage (finish : AgentFinish) (run : RunObject)
    (fileSearchResults : List SearchToolResponseEntry) : HandlerM Bool :=
  if finish.isCompleted then do
    let step? ← createMessageStep finish.response run (citationContext finish fileSearchResults)
    pure step?.isSome
  else pure true

/-- Update the last step, if there is one.  `false`: it failed. -/
def finishLastStep (now : Nat) (finish : AgentFinish) (run : RunObject) :
    Option RunStepObject → HandlerM Bool
  | none => pure true
  | some last => do
      let updated? ← perform (.modifyRunStep (finishStepRequest now finish run last))
      pure updated?.isSome

/-- `RunObjectTaskHandler::OnAgentFinish_`. -/
def onAgentFinish (now : Nat) (finish : AgentFinish) (run : RunObject)
    (fileSearchResults : List SearchToolResponseEntry) : HandlerM Unit := do
  let last? ← retrieveLastRunStep run
  let messageDone ← finishMessage finish run fileSearchResults
  if messageDone then
    let stepDone ← finishLastStep now finish run last?
    if stepDone then
      let _ ← perform (.modifyRun (finishRunRequest now finish run))
      pure ()

/-! ### Which updates a callback makes -/

/-- The call updates neither a run nor a step. -/
def Call.Quiet (call : Call) : Prop := call.runUpdate? = none ∧ call.stepUpdate? = none

/-- If the call updates a run, it updates `run`, to a status in `allowed`. -/
def Call.WritesRun (run : RunObject) (allowed : RunObjectStatus → Prop) (call : Call) : Prop :=
  ∀ req, call.runUpdate? = some req →
    req.threadId = run.threadId ∧ req.runId = run.id ∧ allowed req.status

theorem Call.Quiet.writesRun {call : Call} (h : call.Quiet) (run : RunObject)
    (allowed : RunObjectStatus → Prop) : call.WritesRun run allowed := fun req hreq => by
  rw [h.1] at hreq
  simp at hreq

theorem quiet_of_reads {call : Call} (h : call.writes = false) : call.Quiet := by
  cases call <;> first | exact ⟨rfl, rfl⟩ | simp [Call.writes] at h

theorem messageContent_quiet (content : String) (context? : Option CitationAnnotatingContext) :
    (messageContent content context?).Calls Call.Quiet := by
  cases context? with
  | none => trivial
  | some context =>
      refine Program.calls_bind ((Program.calls_perform _).mpr ⟨rfl, rfl⟩) fun answer => ?_
      exact Program.calls_bind (Program.calls_ofExcept _) fun _ => trivial

theorem createMessageStep_quiet (content : String) (run : RunObject)
    (context? : Option CitationAnnotatingContext) :
    (createMessageStep content run context?).Calls Call.Quiet := by
  refine Program.calls_bind (messageContent_quiet content context?) fun text => ?_
  refine Program.calls_bind ((Program.calls_perform _).mpr ⟨rfl, rfl⟩) fun message? => ?_
  cases message? with
  | none => trivial
  | some message =>
      exact Program.calls_bind ((Program.calls_perform _).mpr ⟨rfl, rfl⟩) fun _ => trivial

theorem retrieveLastRunStep_quiet (run : RunObject) :
    (retrieveLastRunStep run).Calls Call.Quiet :=
  Program.calls_bind ((Program.calls_perform _).mpr ⟨rfl, rfl⟩) fun _ => trivial

theorem continuationMessage_quiet (message : Message) (run : RunObject) :
    (continuationMessage message run).Calls Call.Quiet := by
  unfold continuationMessage
  split
  · exact Program.calls_bind (createMessageStep_quiet _ _ _) fun _ => trivial
  · trivial

theorem continuationToolCalls_quiet (continuation : AgentContinuation) (message : Message)
    (run : RunObject) : (continuationToolCalls continuation message run).Calls Call.Quiet := by
  unfold continuationToolCalls
  split
  · exact Program.calls_bind ((Program.calls_perform _).mpr ⟨rfl, rfl⟩) fun _ => trivial
  · trivial

theorem finishMessage_quiet (finish : AgentFinish) (run : RunObject)
    (results : List SearchToolResponseEntry) :
    (finishMessage finish run results).Calls Call.Quiet := by
  unfold finishMessage
  split
  · exact Program.calls_bind (createMessageStep_quiet _ _ _) fun _ => trivial
  · trivial

section Writes

variable {run : RunObject} {allowed : RunObjectStatus → Prop}

theorem writes_of_quiet {α : Type} {p : HandlerM α} (h : p.Calls Call.Quiet) :
    p.Calls (Call.WritesRun run allowed) :=
  Program.calls_mono h fun _ hq => hq.writesRun run allowed

theorem perform_writes {call : Call} (h : call.WritesRun run allowed) :
    (perform call).Calls (Call.WritesRun run allowed) := (Program.calls_perform call).mpr h

theorem modifyRun_writes {req : ModifyRunRequest} (hthread : req.threadId = run.threadId)
    (hid : req.runId = run.id) (hstatus : allowed req.status) :
    (Call.modifyRun req).WritesRun run allowed := by
  rintro _ ⟨⟩
  exact ⟨hthread, hid, hstatus⟩

/-- A continuation sets the run to `in_progress`, if to anything. -/
theorem onAgentContinuation_writes (continuation : AgentContinuation) :
    (onAgentContinuation continuation run).Calls (Call.WritesRun run (· = .inProgress)) := by
  unfold onAgentContinuation
  refine Program.calls_bind (writes_of_quiet (continuationMessage_quiet _ run)) fun _ => ?_
  split
  · refine Program.calls_bind (writes_of_quiet (continuationToolCalls_quiet _ _ run)) fun _ => ?_
    split
    · exact Program.calls_bind (perform_writes (modifyRun_writes rfl rfl rfl)) fun _ => trivial
    · trivial
  · trivial

/-- A pause sets the run to `requires_action`, if to anything. -/
theorem onAgentPause_writes (pause : AgentPause) :
    (onAgentPause pause run).Calls (Call.WritesRun run (· = .requiresAction)) := by
  unfold onAgentPause
  refine Program.calls_bind (writes_of_quiet (retrieveLastRunStep_quiet run)) fun last? => ?_
  cases last? with
  | none => trivial
  | some last =>
      have hreads : Call.WritesRun run (· = .requiresAction)
          (.modifyRunStep (pauseStepRequest pause run last)) := nofun
      refine Program.calls_bind (perform_writes hreads) fun updated? => ?_
      split
      · exact Program.calls_bind (perform_writes (modifyRun_writes rfl rfl rfl)) fun _ => trivial
      · trivial

/-- An observation sets the run to `in_progress`, if to anything. -/
theorem onAgentObservation_writes (observation : AgentObservation) :
    (onAgentObservation observation run).Calls (Call.WritesRun run (· = .inProgress)) := by
  unfold onAgentObservation
  refine Program.calls_bind (writes_of_quiet (retrieveLastRunStep_quiet run)) fun last? => ?_
  cases last? with
  | none => trivial
  | some last =>
      refine Program.calls_bind (perform_writes (modifyRun_writes rfl rfl rfl)) fun run? => ?_
      split
      · have hreads : Call.WritesRun run (· = .inProgress)
            (.modifyRunStep (observationStepRequest observation run last)) := nofun
        exact Program.calls_bind (perform_writes hreads) fun _ => trivial
      · trivial

/-- A terminal status. -/
def RunObjectStatus.isTerminal : RunObjectStatus → Bool
  | .completed | .failed | .cancelled | .expired => true
  | _ => false

theorem finishRunRequest_terminal (now : Nat) (finish : AgentFinish) :
    (finishRunRequest now finish run).status.isTerminal = true := by
  unfold finishRunRequest
  split
  · rfl
  split
  · rfl
  split
  · rfl
  · rfl

theorem finishRunRequest_names (now : Nat) (finish : AgentFinish) :
    (finishRunRequest now finish run).threadId = run.threadId ∧
      (finishRunRequest now finish run).runId = run.id := by
  unfold finishRunRequest
  split
  · exact ⟨rfl, rfl⟩
  split
  · exact ⟨rfl, rfl⟩
  split
  · exact ⟨rfl, rfl⟩
  · exact ⟨rfl, rfl⟩

/-- A finish sets the run to a terminal status, if to anything. -/
theorem onAgentFinish_writes (now : Nat) (finish : AgentFinish)
    (results : List SearchToolResponseEntry) :
    (onAgentFinish now finish run results).Calls
      (Call.WritesRun run (·.isTerminal = true)) := by
  unfold onAgentFinish
  refine Program.calls_bind (writes_of_quiet (retrieveLastRunStep_quiet run)) fun last? => ?_
  refine Program.calls_bind (writes_of_quiet (finishMessage_quiet finish run results)) fun _ => ?_
  split
  · refine Program.calls_bind ?_ fun stepDone => ?_
    · -- the step update is no run update
      cases last? with
      | none => trivial
      | some last => exact Program.calls_bind (perform_writes nofun) fun _ => trivial
    split
    · -- the one run update
      obtain ⟨hthread, hid⟩ := @finishRunRequest_names run now finish
      exact Program.calls_bind (perform_writes
        (modifyRun_writes hthread hid (finishRunRequest_terminal now finish))) fun _ => trivial
    · trivial
  · trivial

/-- A call that updates a run. -/
def Call.UpdatesRun (call : Call) : Prop := call.runUpdate? ≠ none

theorem noUpdate_of_quiet {α : Type} {p : HandlerM α} (h : p.Calls Call.Quiet) :
    p.Calls fun call => ¬ call.UpdatesRun :=
  Program.calls_mono h fun _ hq => not_not.mpr hq.1

/-- Nothing follows the run update of a pause. -/
theorem onAgentPause_final (pause : AgentPause) :
    (onAgentPause pause run).Final Call.UpdatesRun := by
  unfold onAgentPause
  refine Program.final_bind (noUpdate_of_quiet (retrieveLastRunStep_quiet run)) fun last? => ?_
  cases last? with
  | none => trivial
  | some last =>
      refine Program.final_bind ((Program.calls_perform _).mpr (not_not.mpr rfl))
        fun updated? => ?_
      split
      · exact (Program.final_perform_bind _ _).mpr ⟨fun _ _ => ⟨(), rfl⟩, fun _ => trivial⟩
      · trivial

/-- Nothing follows the run update of a finish. -/
theorem onAgentFinish_final (now : Nat) (finish : AgentFinish)
    (results : List SearchToolResponseEntry) :
    (onAgentFinish now finish run results).Final Call.UpdatesRun := by
  unfold onAgentFinish
  refine Program.final_bind (noUpdate_of_quiet (retrieveLastRunStep_quiet run)) fun last? => ?_
  refine Program.final_bind (noUpdate_of_quiet (finishMessage_quiet finish run results))
    fun _ => ?_
  split
  · refine Program.final_bind ?_ fun stepDone => ?_
    · cases last? with
      | none => trivial
      | some last =>
          exact Program.calls_bind ((Program.calls_perform _).mpr (not_not.mpr rfl))
            fun _ => trivial
    split
    · -- the run update is the last call
      exact (Program.final_perform_bind _ _).mpr ⟨fun _ _ => ⟨(), rfl⟩, fun _ => trivial⟩
    · trivial
  · trivial

end Writes

/-! ### Which step a callback updates -/

/-- The step updates among some calls. -/
def stepUpdates (calls : List Call) : List ModifyRunStepRequest :=
  calls.filterMap Call.stepUpdate?

/-- The step that `RetrieveLastRunStep_` returns: the last of the twenty newest. -/
def Store.lastOfPage (s : Store) (run : RunObject) : Option RunStepObject :=
  ((arrange (·.createdAt) true (s.stepsOf run.threadId run.id)).take 20).getLast?

/-- `step` was updated by `request`, once, and no other step that was there. -/
structure AppliesTo (request : RunStepObject → ModifyRunStepRequest) (step : RunStepObject)
    (s s' : Store) (calls : List Call) : Prop where
  requests : stepUpdates calls = [request step]
  updated : step.assign (request step) ∈ s'.runSteps.rows
  others : ∀ row ∈ s.runSteps.rows, row.id ≠ step.id → row ∈ s'.runSteps.rows

section Updates

variable {config : HandlerConfig} {outside : Outside} {run : RunObject} {s : Store}

/-- The calls make no step update. -/
def Call.KeepsSteps (call : Call) : Prop := call.stepUpdate? = none

theorem stepUpdates_of_keeps {α : Type} {p : HandlerM α} (h : p.Calls Call.KeepsSteps)
    (s : Store) : stepUpdates (p.trace (Call.exec config outside) s) = [] :=
  List.filterMap_eq_nil_iff.mpr (Program.calls_trace h _ s)

theorem keepsSteps_of_quiet {α : Type} {p : HandlerM α} (h : p.Calls Call.Quiet) :
    p.Calls Call.KeepsSteps := Program.calls_mono h fun _ hq => hq.2

/-- A program without step updates leaves the steps as they are, and adds others. -/
theorem run_appends {α : Type} {p : HandlerM α} (h : p.Calls Call.KeepsSteps) (s : Store) :
    ∃ extra, (p.run (Call.exec config outside) s).2.runSteps.rows
      = s.runSteps.rows ++ extra := by
  induction p generalizing s with
  | ret a => exact ⟨[], (List.append_nil _).symm⟩
  | raise e => exact ⟨[], (List.append_nil _).symm⟩
  | call op k ih =>
      obtain ⟨extra, hextra⟩ := exec_runSteps h.1 s
      obtain ⟨more, hmore⟩ := ih _ (h.2 _) (op.exec config outside s).2
      exact ⟨extra ++ more, hmore.trans (by rw [hextra, List.append_assoc])⟩

theorem retrieveLastRunStep_run (hthread : isBlankString run.threadId = false)
    (hid : isBlankString run.id = false) (s : Store) :
    (retrieveLastRunStep run).run (Call.exec config outside) s
      = (.ok (s.lastOfPage run), s) := by
  obtain ⟨response, hresponse, hdata⟩ := @listRunSteps_newest s _ _
    (ne_empty_of_not_blank hthread) (ne_empty_of_not_blank hid) 0 (by decide)
  have hexec : Call.exec config outside
      (.listRunSteps { order := .desc, runId := run.id, threadId := run.threadId }) s
      = (.ok response, s) := hresponse
  refine (Program.run_perform_bind _ _ _ s).trans ?_
  rw [hexec]
  show (Except.ok response.data.getLast?, s) = _
  rw [hdata]
  rfl

theorem mem_of_lastOfPage {last : RunStepObject} (h : s.lastOfPage run = some last) :
    last ∈ s.stepsOf run.threadId run.id :=
  mem_arrange.mp (List.mem_of_mem_take (List.mem_of_getLast? h))

/-- The request updates the step of the run that it is made from. -/
def Targets (request : RunStepObject → ModifyRunStepRequest) (run : RunObject) : Prop :=
  ∀ step, (request step).threadId = run.threadId ∧ (request step).runId = run.id ∧
    (request step).stepId = step.id

/-- A step update, after steps may have been added and before others may be. -/
theorem stepUpdate_applies {request : RunStepObject → ModifyRunStepRequest}
    (hrequest : Targets request run) (hthread : isBlankString run.threadId = false)
    (hid : isBlankString run.id = false) {step : RunStepObject}
    (hstep : step ∈ s.stepsOf run.threadId run.id) {s₁ : Store}
    (hs₁ : ∃ extra, s₁.runSteps.rows = s.runSteps.rows ++ extra) {α : Type}
    {post : Option RunStepObject → HandlerM α} (hpost : ∀ r, (post r).Calls Call.KeepsSteps) :
    AppliesTo request step s
      (((perform (.modifyRunStep (request step))).bind post).run (Call.exec config outside) s₁).2
      (((perform (.modifyRunStep (request step))).bind post).trace
        (Call.exec config outside) s₁) := by
  obtain ⟨extra, hs₁⟩ := hs₁
  obtain ⟨hreqThread, hreqRun, hreqStep⟩ := hrequest step
  have hmem : ∀ row ∈ s.runSteps.rows, row ∈ s₁.runSteps.rows := fun row hrow =>
    hs₁ ▸ List.mem_append_left _ hrow
  obtain ⟨hstepRow, hof⟩ := List.mem_filter.mp hstep
  -- the step is still found, by its three ids
  have hfound : s₁.runStep? (request step).threadId (request step).runId (request step).stepId
      = some step := by
    rw [hreqThread, hreqRun, hreqStep]
    exact Store.runStep?_of_mem (List.mem_filter.mpr ⟨hmem step hstepRow, hof⟩)
  have hexec : Call.exec config outside (.modifyRunStep (request step)) s₁
      = (.ok (some (step.assign (request step))), s₁.assignRunStep (request step)) :=
    modifyRunStep_eq (hreqThread ▸ hthread) (hreqRun ▸ hid)
      (hreqStep ▸ s.runSteps.valid step hstepRow) hfound
  have hrows : ∀ row ∈ s₁.runSteps.rows,
      (if isRunStep (request step).threadId (request step).runId (request step).stepId row then
        row.assign (request step) else row)
      ∈ (s₁.assignRunStep (request step)).runSteps.rows := fun row hrow =>
    List.mem_map_of_mem hrow
  rw [Program.run_perform_bind, Program.trace_perform_bind, hexec]
  obtain ⟨more, hmore⟩ := @run_appends config outside _ _
    (hpost (some (step.assign (request step)))) (s₁.assignRunStep (request step))
  refine ⟨?_, ?_, fun row hrow hne => ?_⟩
  · -- this update, and none after it
    show stepUpdates ([Call.modifyRunStep (request step)] ++ _) = _
    rw [stepUpdates, List.filterMap_append]
    exact congrArg (_ ++ ·) (stepUpdates_of_keeps (hpost _) _)
  · -- the updated row
    have hnew := hrows step (hmem step hstepRow)
    rw [if_pos (List.find?_some hfound)] at hnew
    exact hmore ▸ List.mem_append_left _ hnew
  · -- any other row
    have hold := hrows row (hmem row hrow)
    rw [if_neg fun h => hne ((isRunStep_eq_true.mp h).1.trans hreqStep)] at hold
    exact hmore ▸ List.mem_append_left _ hold

/-- What a callback does that `RetrieveLastRunStep_` gives the step `step`: it throws
before its step update, or it applies the update to that step. -/
def ThrowsOrApplies (request : RunStepObject → ModifyRunStepRequest) (step : RunStepObject)
    (s : Store) (result : Except Exn Unit × Store) (calls : List Call) : Prop :=
  (∃ e, result.1 = .error e ∧ stepUpdates calls = []) ∨ AppliesTo request step s result.2 calls

/-- The first part of a callback that makes no step update may throw, or the rest decides. -/
theorem throwsOrApplies_bind {request : RunStepObject → ModifyRunStepRequest}
    {step : RunStepObject} {α : Type} {p : HandlerM α} {f : α → HandlerM Unit} {s₁ : Store}
    (hp : p.Calls Call.KeepsSteps)
    (hf : ∀ a s₂, p.run (Call.exec config outside) s₁ = (.ok a, s₂) →
      ThrowsOrApplies request step s ((f a).run (Call.exec config outside) s₂)
        ((f a).trace (Call.exec config outside) s₂)) :
    ThrowsOrApplies request step s ((p.bind f).run (Call.exec config outside) s₁)
      ((p.bind f).trace (Call.exec config outside) s₁) := by
  have hquiet := @stepUpdates_of_keeps config outside _ _ hp s₁
  rcases h : p.run (Call.exec config outside) s₁ with ⟨e | a, s₂⟩
  · rw [Program.run_bind_of_error _ h, Program.trace_bind_of_error _ h]
    exact .inl ⟨e, rfl, hquiet⟩
  · rw [Program.run_bind_of_ok _ h, Program.trace_bind_of_ok _ h]
    -- the calls of the first part do not count
    have hcalls : stepUpdates (p.trace (Call.exec config outside) s₁ ++
        (f a).trace (Call.exec config outside) s₂)
        = stepUpdates ((f a).trace (Call.exec config outside) s₂) := by
      rw [stepUpdates, List.filterMap_append]
      exact congrArg (· ++ _) hquiet
    rcases hf a s₂ h with ⟨e, he, hnone⟩ | happlies
    · exact .inl ⟨e, he, hcalls.trans hnone⟩
    · exact .inr ⟨hcalls.trans happlies.requests, happlies.updated, happlies.others⟩

theorem pauseStepRequest_targets (pause : AgentPause) : Targets (pauseStepRequest pause run) run :=
  fun _ => ⟨rfl, rfl, rfl⟩

theorem observationStepRequest_targets (observation : AgentObservation) :
    Targets (observationStepRequest observation run) run := fun _ => ⟨rfl, rfl, rfl⟩

theorem finishStepRequest_targets (now : Nat) (finish : AgentFinish) :
    Targets (finishStepRequest now finish run) run := by
  intro step
  unfold finishStepRequest
  split
  · exact ⟨rfl, rfl, rfl⟩
  split
  · exact ⟨rfl, rfl, rfl⟩
  split
  · exact ⟨rfl, rfl, rfl⟩
  · exact ⟨rfl, rfl, rfl⟩

theorem modifyRun_keepsSteps (req : ModifyRunRequest) :
    (perform (.modifyRun req)).Calls Call.KeepsSteps := (Program.calls_perform _).mpr rfl

/-- `ModifyRun` never answers that there is no run. -/
theorem modifyRun_isSome {req : ModifyRunRequest} {s s' : Store} {found : Option RunObject}
    (h : (perform (.modifyRun req)).run (Call.exec config outside) s = (.ok found, s')) :
    found.isSome = true := by
  rw [Program.run_perform] at h
  rcases modifyRun_cases req s with ⟨e, he⟩ | ⟨run, -, hrun⟩
  · exact absurd (he.symm.trans h) (by simp)
  · obtain ⟨hfound, -⟩ := Prod.mk.inj (hrun.symm.trans h)
    exact Except.ok.inj hfound ▸ rfl

/-- A callback begins with the retrieval of the last step, which the listing reads. -/
theorem throwsOrApplies_lastRunStep {request : RunStepObject → ModifyRunStepRequest}
    {f : Option RunStepObject → HandlerM Unit} (hthread : isBlankString run.threadId = false)
    (hid : isBlankString run.id = false) {last : RunStepObject}
    (hlast : s.lastOfPage run = some last)
    (hrest : ThrowsOrApplies request last s ((f (some last)).run (Call.exec config outside) s)
      ((f (some last)).trace (Call.exec config outside) s)) :
    ThrowsOrApplies request last s
      (((retrieveLastRunStep run).bind f).run (Call.exec config outside) s)
      (((retrieveLastRunStep run).bind f).trace (Call.exec config outside) s) := by
  refine throwsOrApplies_bind (keepsSteps_of_quiet (retrieveLastRunStep_quiet run))
    fun last? s₁ hread => ?_
  obtain ⟨hlast', rfl⟩ := Prod.mk.inj ((retrieveLastRunStep_run hthread hid s).symm.trans hread)
  obtain rfl : some last = last? := hlast.symm.trans (Except.ok.inj hlast')
  exact hrest

theorem onAgentPause_applies (pause : AgentPause) (hthread : isBlankString run.threadId = false)
    (hid : isBlankString run.id = false) {last : RunStepObject}
    (hlast : s.lastOfPage run = some last) :
    ThrowsOrApplies (pauseStepRequest pause run) last s
      ((onAgentPause pause run).run (Call.exec config outside) s)
      ((onAgentPause pause run).trace (Call.exec config outside) s) := by
  refine throwsOrApplies_lastRunStep hthread hid hlast ?_
  refine .inr (stepUpdate_applies (pauseStepRequest_targets pause) hthread hid
    (mem_of_lastOfPage hlast) ⟨[], (List.append_nil _).symm⟩ fun updated? => ?_)
  split
  · exact Program.calls_bind (modifyRun_keepsSteps _) fun _ => trivial
  · trivial

theorem onAgentObservation_applies (observation : AgentObservation)
    (hthread : isBlankString run.threadId = false) (hid : isBlankString run.id = false)
    {last : RunStepObject} (hlast : s.lastOfPage run = some last) :
    ThrowsOrApplies (observationStepRequest observation run) last s
      ((onAgentObservation observation run).run (Call.exec config outside) s)
      ((onAgentObservation observation run).trace (Call.exec config outside) s) := by
  refine throwsOrApplies_lastRunStep hthread hid hlast ?_
  refine throwsOrApplies_bind (modifyRun_keepsSteps _) fun run? s₂ hrun => ?_
  rw [modifyRun_isSome hrun]
  have happends := @run_appends config outside _ _ (modifyRun_keepsSteps
    { runId := run.id, threadId := run.threadId, status := .inProgress }) s
  rw [show (perform _).run _ s = _ from hrun] at happends
  exact .inr (stepUpdate_applies (observationStepRequest_targets observation) hthread hid
    (mem_of_lastOfPage hlast) happends fun _ => trivial)

/-- `CreateRunStep` never answers that there is no step. -/
theorem createRunStep_isSome {req : RunStepObject} {s s' : Store} {found : Option RunStepObject}
    (h : MayAnswer config (.createRunStep req) s (.ok found) s') : found.isSome = true := by
  obtain ⟨outside, h⟩ := h
  have hfst : (createRunStep req s).1 = .ok found := congrArg Prod.fst h
  rcases createRunStep_cases req s with ⟨e, he, -⟩ | ⟨id, -, -, hok, -⟩
  · rw [he] at hfst
    simp at hfst
  · rw [hok] at hfst
    exact Except.ok.inj hfst ▸ rfl

/-- `CreateMessageStep_` returns a step, if it returns. -/
theorem createMessageStep_isSome (content : String) (context? : Option CitationAnnotatingContext)
    (s : Store) : (createMessageStep content run context?).Ensures (MayAnswer config)
      (fun found _ => found.isSome = true) s := by
  refine Program.ensures_bind (Program.ensures_true _ s) fun text s₁ _ => ?_
  refine Program.ensures_perform_bind fun message? s₂ hmessage => ?_
  obtain ⟨outside, hmessage⟩ := hmessage
  obtain ⟨message, rfl, -⟩ := createRawMessage_ok hmessage
  refine Program.ensures_perform_bind fun step? s₃ hstep => ?_
  obtain ⟨step, rfl⟩ := Option.isSome_iff_exists.mp (createRunStep_isSome hstep)
  exact Program.ensures_ret rfl

theorem continuationMessage_true (message : Message) (s : Store) :
    (continuationMessage message run).Ensures (MayAnswer config) (fun done _ => done = true) s := by
  unfold continuationMessage
  split
  · exact Program.ensures_bind (createMessageStep_isSome _ _ s) fun step? s₁ h =>
      Program.ensures_ret h
  · exact Program.ensures_ret rfl

theorem finishMessage_true (finish : AgentFinish) (results : List SearchToolResponseEntry)
    (s : Store) : (finishMessage finish run results).Ensures (MayAnswer config)
      (fun done _ => done = true) s := by
  unfold finishMessage
  split
  · exact Program.ensures_bind (createMessageStep_isSome _ _ s) fun step? s₁ h =>
      Program.ensures_ret h
  · exact Program.ensures_ret rfl

theorem onAgentFinish_applies (now : Nat) (finish : AgentFinish)
    (results : List SearchToolResponseEntry) (hthread : isBlankString run.threadId = false)
    (hid : isBlankString run.id = false) {last : RunStepObject}
    (hlast : s.lastOfPage run = some last) :
    ThrowsOrApplies (finishStepRequest now finish run) last s
      ((onAgentFinish now finish run results).run (Call.exec config outside) s)
      ((onAgentFinish now finish run results).trace (Call.exec config outside) s) := by
  refine throwsOrApplies_lastRunStep hthread hid hlast ?_
  -- the final message may add a step, but updates none
  have hmessageQuiet := keepsSteps_of_quiet (finishMessage_quiet finish run results)
  refine throwsOrApplies_bind hmessageQuiet fun messageDone s₂ hmessage => ?_
  have happends := @run_appends config outside _ _ hmessageQuiet s
  rw [hmessage] at happends
  rw [run_of_ensures (finishMessage_true finish results s) hmessage, if_pos rfl]
  simp only [finishLastStep, Program.bind_eq, Program.bind_assoc]
  refine .inr (stepUpdate_applies (finishStepRequest_targets now finish) hthread hid
    (mem_of_lastOfPage hlast) happends fun updated? => ?_)
  refine Program.calls_bind trivial fun stepDone => ?_
  split
  · exact Program.calls_bind (modifyRun_keepsSteps _) fun _ => trivial
  · trivial

/-! ### The newest step -/

/-- The most recently created step of the run. -/
def Store.IsNewest (s : Store) (run : RunObject) (step : RunStepObject) : Prop :=
  step ∈ s.stepsOf run.threadId run.id ∧
    ∀ other ∈ s.stepsOf run.threadId run.id, other.createdAt ≤ step.createdAt

/-- The step update goes to the most recently created step, once, and to no other. -/
def UpdatesNewest (request : RunStepObject → ModifyRunStepRequest) (run : RunObject)
    (s s' : Store) (calls : List Call) : Prop :=
  ∀ newest, s.IsNewest run newest → AppliesTo request newest s s' calls

/-- The newest of distinct times is the head of the arranged steps. -/
theorem isNewest_iff (hdistinct : ((s.stepsOf run.threadId run.id).map (·.createdAt)).Nodup)
    (newest : RunStepObject) : s.IsNewest run newest ↔
      (arrange (·.createdAt) true (s.stepsOf run.threadId run.id)).head? = some newest := by
  have hsorted := arrange_pairwise (fun step : RunStepObject => step.createdAt) true
    (s.stepsOf run.threadId run.id)
  have hmem : ∀ step, step ∈ arrange (·.createdAt) true (s.stepsOf run.threadId run.id)
      ↔ step ∈ s.stepsOf run.threadId run.id := fun step => mem_arrange
  rcases e : arrange (·.createdAt) true (s.stepsOf run.threadId run.id) with - | ⟨first, rest⟩
  · rw [e] at hmem ⊢
    -- no step at all
    refine iff_of_false (fun h => ?_) (by simp)
    exact absurd ((hmem newest).mpr h.1) (by simp)
  rw [e] at hsorted hmem ⊢
  have hfirst : first ∈ s.stepsOf run.threadId run.id := (hmem first).mp List.mem_cons_self
  -- the arrangement is sorted, so its head is the latest
  have hmax : ∀ other ∈ s.stepsOf run.threadId run.id, other.createdAt ≤ first.createdAt := by
    intro other hother
    rcases List.mem_cons.mp ((hmem other).mpr hother) with rfl | hrest
    · exact Nat.le_refl _
    · exact List.rel_of_pairwise_cons hsorted hrest
  rw [List.head?_cons, Option.some_inj]
  constructor
  · rintro ⟨hnewest, hle⟩
    exact List.inj_on_of_nodup_map hdistinct hfirst hnewest
      (Nat.le_antisymm (hle first hfirst) (hmax newest hnewest))
  · rintro rfl
    exact ⟨hfirst, hmax⟩

/-- The last step of the page is the newest one exactly when there is no other. -/
theorem lastOfPage_eq_head_iff (s : Store) (run : RunObject) :
    s.lastOfPage run
        = (arrange (·.createdAt) true (s.stepsOf run.threadId run.id)).head?
      ↔ (s.stepsOf run.threadId run.id).length ≤ 1 := by
  have hlen := length_arrange (fun step : RunStepObject => step.createdAt) true
    (s.stepsOf run.threadId run.id)
  have hnodup : (arrange (fun step : RunStepObject => step.createdAt) true
      (s.stepsOf run.threadId run.id)).Nodup :=
    (arrange_perm _ _ _).nodup_iff.mpr ((s.runSteps.nodup.of_map _).filter _)
  unfold Store.lastOfPage
  rw [← hlen]
  generalize arrange (fun step : RunStepObject => step.createdAt) true
    (s.stepsOf run.threadId run.id) = steps at hnodup
  rcases steps with - | ⟨first, - | ⟨second, rest⟩⟩
  · simp
  · simp
  · -- the last of the page is in the tail, the newest is not
    refine iff_of_false (fun h => ?_) (by simp)
    rw [List.take_succ_cons, List.take_succ_cons, List.getLast?_cons_cons] at h
    have hlast := List.mem_of_getLast? h
    have htail : first ∈ second :: rest := by
      rcases List.mem_cons.mp hlast with rfl | htake
      · exact List.mem_cons_self
      · exact List.mem_cons_of_mem _ (List.mem_of_mem_take htake)
    exact (List.nodup_cons.mp hnodup).1 htail

/-- A callback that returns, or gets to its step update, applies it to the newest step
exactly when the run has no other. -/
theorem updatesNewest_iff {request : RunStepObject → ModifyRunStepRequest}
    (hrequest : Targets request run)
    (hdistinct : ((s.stepsOf run.threadId run.id).map (·.createdAt)).Nodup)
    {result : Except Exn Unit × Store} {calls : List Call}
    (happlies : ∀ last, s.lastOfPage run = some last →
      ThrowsOrApplies request last s result calls)
    (hreturns : result.1 = .ok () ∨ stepUpdates calls ≠ []) :
    UpdatesNewest request run s result.2 calls
      ↔ (s.stepsOf run.threadId run.id).length ≤ 1 := by
  rw [← lastOfPage_eq_head_iff]
  rcases hlast : s.lastOfPage run with - | last
  · -- no step at all
    have hempty : (arrange (·.createdAt) true (s.stepsOf run.threadId run.id)).head? = none := by
      have htake := List.getLast?_eq_none_iff.mp hlast
      rw [List.take_eq_nil_iff] at htake
      rw [List.head?_eq_none_iff]
      exact htake.resolve_left (by decide)
    refine iff_of_true (fun newest hnewest => ?_) hempty.symm
    rw [isNewest_iff hdistinct, hempty] at hnewest
    simp at hnewest
  -- the callback has updated the last of the page, since it returned or made an update
  have happlied : AppliesTo request last s result.2 calls := by
    rcases happlies last hlast with ⟨e, he, hnone⟩ | happlied
    · rcases hreturns with hok | hcalls
      · rw [he] at hok
        simp at hok
      · exact absurd hnone hcalls
    · exact happlied
  constructor
  · -- an update of the newest step names its id
    intro h
    rcases hhead : (arrange (·.createdAt) true (s.stepsOf run.threadId run.id)).head?
      with - | newest
    · have hmem : last ∈ arrange (·.createdAt) true (s.stepsOf run.threadId run.id) :=
        mem_arrange.mpr (mem_of_lastOfPage hlast)
      rw [List.head?_eq_none_iff.mp hhead] at hmem
      simp at hmem
    have hnewest := (isNewest_iff hdistinct newest).mpr hhead
    have hsame : [request newest] = [request last] :=
      (h newest hnewest).requests.symm.trans happlied.requests
    have hid : newest.id = last.id := by
      rw [← (hrequest newest).2.2, ← (hrequest last).2.2, List.singleton_inj.mp hsame]
    rw [hhead]
    refine congrArg some (List.inj_on_of_nodup_map s.runSteps.nodup ?_ ?_ hid.symm)
    · exact List.mem_of_mem_filter (mem_of_lastOfPage hlast)
    · exact List.mem_of_mem_filter hnewest.1
  · intro h newest hnewest
    rw [isNewest_iff hdistinct, ← h] at hnewest
    exact Option.some.inj hnewest ▸ happlied

end Updates

/-- **Which step the callbacks update.**  On steps created at distinct times, a pause, an
observation and a finish that return, or get to their step update, apply it to the
most recently created step, and change no other, if and only if the run has at most
one step. -/
theorem callbacks_update_newest_iff (config : HandlerConfig) (outside : Outside)
    (run : RunObject) (s : Store) (hthread : isBlankString run.threadId = false)
    (hid : isBlankString run.id = false)
    (hdistinct : ((s.stepsOf run.threadId run.id).map (·.createdAt)).Nodup) :
    (∀ pause result calls,
      (onAgentPause pause run).run (Call.exec config outside) s = result →
      (onAgentPause pause run).trace (Call.exec config outside) s = calls →
      (result.1 = .ok () ∨ stepUpdates calls ≠ []) →
      (UpdatesNewest (pauseStepRequest pause run) run s result.2 calls
        ↔ (s.stepsOf run.threadId run.id).length ≤ 1)) ∧
    (∀ observation result calls,
      (onAgentObservation observation run).run (Call.exec config outside) s = result →
      (onAgentObservation observation run).trace (Call.exec config outside) s = calls →
      (result.1 = .ok () ∨ stepUpdates calls ≠ []) →
      (UpdatesNewest (observationStepRequest observation run) run s result.2 calls
        ↔ (s.stepsOf run.threadId run.id).length ≤ 1)) ∧
    (∀ now finish results result calls,
      (onAgentFinish now finish run results).run (Call.exec config outside) s = result →
      (onAgentFinish now finish run results).trace (Call.exec config outside) s = calls →
      (result.1 = .ok () ∨ stepUpdates calls ≠ []) →
      (UpdatesNewest (finishStepRequest now finish run) run s result.2 calls
        ↔ (s.stepsOf run.threadId run.id).length ≤ 1)) := by
  refine ⟨?_, ?_, ?_⟩
  · rintro pause _ _ rfl rfl hreturns
    exact updatesNewest_iff (pauseStepRequest_targets pause) hdistinct
      (fun _ => onAgentPause_applies pause hthread hid) hreturns
  · rintro observation _ _ rfl rfl hreturns
    exact updatesNewest_iff (observationStepRequest_targets observation) hdistinct
      (fun _ => onAgentObservation_applies observation hthread hid) hreturns
  · rintro now finish results _ _ rfl rfl hreturns
    exact updatesNewest_iff (finishStepRequest_targets now finish) hdistinct
      (fun _ => onAgentFinish_applies now finish results hthread hid) hreturns

/-- A run in progress. -/
def workedRun : RunObject :=
  { id := "run_1", createdAt := 1, threadId := "thread_1", status := .inProgress }

/-- The message step that opens the run. -/
def openingStep : RunStepObject :=
  { messageStep workedRun "msg_1" with id := "run_step_1", createdAt := 2 }

/-- A step with one tool call, which follows the message. -/
def searchStep : RunStepObject :=
  { id := "run_step_2"
    createdAt := 3
    threadId := "thread_1"
    runId := "run_1"
    type := .toolCalls
    status := .inProgress
    stepDetails := { toolCalls := [{ id := "call_1", type := .function }] } }

/-- A store with the run and its steps. -/
def workedStore (steps : List RunStepObject) (hnodup : (steps.map (·.id)).Nodup)
    (hvalid : ∀ step ∈ steps, isBlankString step.id = false) : Store where
  runs := { rows := [workedRun], nodup := by decide, valid := by decide }
  runSteps := { rows := steps, nodup := hnodup, valid := hvalid }

/-- The store before the run has more than one step. -/
def oneStep : Store := workedStore [searchStep] (by decide) (by decide)

/-- The store of a run that wrote a message before its tool call. -/
def twoSteps : Store := workedStore [openingStep, searchStep] (by decide) (by decide)

/-- What the tool call of the second step returned. -/
def searchObservation : AgentObservation :=
  { toolMessages := [{ role := "tool", content := "42", toolCallId := "call_1" }] }

/-- On a run of one step the observation reaches its step. -/
theorem callbacks_update_one_step :
    UpdatesNewest (observationStepRequest searchObservation workedRun) workedRun oneStep
      ((onAgentObservation searchObservation workedRun).run (Call.exec {} {}) oneStep).2
      ((onAgentObservation searchObservation workedRun).trace (Call.exec {} {}) oneStep) :=
  ((callbacks_update_newest_iff {} {} workedRun oneStep (by decide) (by decide)
    (by decide)).2.1 searchObservation _ _ rfl rfl (.inl rfl)).mpr (by decide)

/-- On a run of two steps the observation is written to the message step. -/
theorem callbacks_update_older_step :
    stepUpdates ((onAgentObservation searchObservation workedRun).trace (Call.exec {} {}) twoSteps)
        = [observationStepRequest searchObservation workedRun openingStep] ∧
      twoSteps.IsNewest workedRun searchStep ∧
      ¬ UpdatesNewest (observationStepRequest searchObservation workedRun) workedRun twoSteps
        ((onAgentObservation searchObservation workedRun).run (Call.exec {} {}) twoSteps).2
        ((onAgentObservation searchObservation workedRun).trace (Call.exec {} {}) twoSteps) := by
  have hcalls : stepUpdates
      ((onAgentObservation searchObservation workedRun).trace (Call.exec {} {}) twoSteps)
      = [observationStepRequest searchObservation workedRun openingStep] := rfl
  have hnewest : twoSteps.IsNewest workedRun searchStep := ⟨by decide, by decide⟩
  refine ⟨hcalls, hnewest, fun h => ?_⟩
  exact absurd (hcalls.symm.trans (h searchStep hnewest).requests) (by decide)

end Instinct
