/-
Instinct/Resume.lean

A run that goes on after `SubmitToolOutputs`.

An accepted request sets outputs on the calls of the run's newest step
(`submitOutputs_calls`) and puts the run back into the queue.  The loader reads
that step as a pause, with a tool message for every call whose output is not
blank, and the executors lift a pause in which the messages are as many as the
calls.  `submitToolOutputs_lifts_iff` says when the three agree.
-/
import Instinct.Recover

namespace Instinct

open Effects Paging

/-! ### The calls of a step after a request -/

/-- A call after the outputs of a request. -/
def ToolCallDetail.withOutputs (outputs : List ToolOutput) (call : ToolCallDetail) :
    ToolCallDetail :=
  outputs.foldl (fun call output =>
    if call.id = output.toolCallId then call.setOutput output.output else call) call

/-- The output of a call after a request: the last one submitted for its id, or else the
one that is stored. -/
def ToolCallDetail.finalOutput (outputs : List ToolOutput) (call : ToolCallDetail) : String :=
  ((outputs.reverse.find? fun output => output.toolCallId = call.id).map (·.output)).getD
    call.functionOrDefault.output

/-- The tool message that carries the output of a call after a request. -/
def ToolCallDetail.answer (outputs : List ToolOutput) (call : ToolCallDetail) : Message :=
  { content := call.finalOutput outputs, role := "tool", toolCallId := call.id }

section Outputs

variable {outputs : List ToolOutput} {call : ToolCallDetail}

/-- `SubmitToolOutputs` treats the calls one by one. -/
theorem submitOutputs_calls (calls : List ToolCallDetail) (waiting : List String)
    (outputs : List ToolOutput) :
    (submitOutputs calls waiting outputs).1 = calls.map (·.withOutputs outputs) := by
  unfold submitOutputs
  induction outputs generalizing calls waiting with
  | nil => exact (List.map_id' calls).symm
  | cons output outputs ih =>
      rw [List.foldl_cons, submitOutput, ih, List.map_map]
      rfl

/-- What setting outputs does not touch. -/
theorem withOutputs_keeps {β : Type} {f : ToolCallDetail → β}
    (hf : ∀ call output, f (ToolCallDetail.setOutput call output) = f call) :
    f (call.withOutputs outputs) = f call := by
  unfold ToolCallDetail.withOutputs
  induction outputs generalizing call with
  | nil => rfl
  | cons output outputs ih =>
      rw [List.foldl_cons, ih]
      split
      · exact hf call _
      · rfl

theorem type_withOutputs : (call.withOutputs outputs).type = call.type :=
  withOutputs_keeps (f := fun call => call.type) fun _ _ => rfl

theorem id_withOutputs : (call.withOutputs outputs).id = call.id :=
  withOutputs_keeps (f := fun call => call.id) fun _ _ => rfl

theorem request_withOutputs : (call.withOutputs outputs).request = call.request :=
  withOutputs_keeps (f := ToolCallDetail.request) fun _ _ => rfl

theorem output_withOutputs :
    (call.withOutputs outputs).functionOrDefault.output = call.finalOutput outputs := by
  induction outputs generalizing call with
  | nil => rfl
  | cons output outputs ih =>
      show ((if call.id = output.toolCallId then call.setOutput output.output
        else call).withOutputs outputs).functionOrDefault.output = _
      rw [ih]
      simp only [ToolCallDetail.finalOutput, List.reverse_cons, List.find?_append]
      by_cases hid : call.id = output.toolCallId
      · -- a later output for the same call counts instead
        rw [if_pos hid]
        show (Option.map _ (outputs.reverse.find? fun o => o.toolCallId = call.id)).getD
          output.output = _
        cases outputs.reverse.find? fun o => o.toolCallId = call.id with
        | none => simp [hid]
        | some _ => rfl
      · rw [if_neg hid]
        -- the output is for another call
        have hnone : [output].find? (fun o => o.toolCallId = call.id) = none := by
          simp [Ne.symm hid]
        rw [hnone, Option.or_none]

theorem toolMessage_withOutputs : (call.withOutputs outputs).toolMessage = call.answer outputs := by
  rw [ToolCallDetail.toolMessage, output_withOutputs, id_withOutputs]
  rfl

end Outputs

/-! ### The steps of the run after a request -/

section Steps

variable {s : Store} {req : SubmitToolOutputsToRunRequest} {run : RunObject} {step : RunStepObject}

/-- The newest step after an accepted request. -/
def SubmitToolOutputsToRunRequest.answered (req : SubmitToolOutputsToRunRequest)
    (run : RunObject) (step : RunStepObject) : RunStepObject :=
  step.assign (req.stepRequest run step)

theorem toolCalls_answered : (req.answered run step).stepDetails.toolCalls
    = step.stepDetails.toolCalls.map (·.withOutputs req.toolOutputs) :=
  submitOutputs_calls _ _ _

/-- The steps of the run: only the one that the request names is another. -/
theorem stepsOf_submit : (s.submit req run step).stepsOf req.threadId req.runId
    = (s.stepsOf req.threadId req.runId).map fun row =>
        if isRunStep req.threadId req.runId step.id row then
          row.assign (req.stepRequest run step)
        else row := by
  show ((s.runSteps.rows.map _).filter (isStepOf req.threadId req.runId)) = _
  rw [List.filter_map]
  refine congrArg (List.map _) (List.filter_congr fun row _ => ?_)
  show isStepOf req.threadId req.runId (if _ then _ else row) = _
  split
  · exact isStepOf_assign _ _ row _
  · rfl

/-- The steps of the run in the order of creation, and what the request makes of them: only
the last one is another. -/
theorem Submits.steps (h : Submits s req run step)
    (hordered : Ordered (·.id) (·.createdAt) (s.stepsOf req.threadId req.runId)) :
    ∃ front, arrange (·.createdAt) false (s.stepsOf req.threadId req.runId) = front ++ [step] ∧
      listAllSteps req.threadId req.runId (s.submit req run step)
        = (.ok (front ++ [req.answered run step]), s.submit req run step) := by
  have hlast := h.newest
  rw [hordered.arrange_descending, List.head?_reverse] at hlast
  obtain ⟨front, hfront⟩ := List.getLast?_eq_some_iff.mp hlast
  refine ⟨front, hfront, ?_⟩
  rw [listAllSteps_eq _ (ne_empty_of_not_blank h.threadId) (ne_empty_of_not_blank h.runId)]
  · rw [stepsOf_submit, arrange_map, hfront, List.map_append]
    · have hascending := hordered.pairwise_ascending
      rw [hfront] at hascending
      -- the answered step is the last one, and no other step has its id
      have hbefore : ∀ row ∈ front, row.id < step.id := fun row hrow =>
        (List.pairwise_append.mp hascending).2.2 row hrow step List.mem_cons_self
      have hmem : step ∈ s.stepsOf req.threadId req.runId :=
        mem_arrange.mp (List.mem_of_mem_head? h.newest)
      have hnamed : isRunStep req.threadId req.runId step.id step = true :=
        isRunStep_eq_true.mpr ⟨rfl, isStepOf_eq_true.mp (List.mem_filter.mp hmem).2⟩
      have hother : front.map (fun row => if isRunStep req.threadId req.runId step.id row then
          row.assign (req.stepRequest run step) else row) = front := by
        refine (List.map_congr_left fun row hrow => ?_).trans (List.map_id' front)
        exact if_neg fun hrun => (hbefore row hrow).ne (isRunStep_eq_true.mp hrun).1
      rw [hother, List.map_singleton, if_pos hnamed]
      rfl
    · intro row
      split <;> rfl
  · rw [stepsOf_submit]
    refine hordered.map ?_ ?_
    · intro row
      split <;> rfl
    · intro row
      split <;> rfl

/-- Whether the loader accepts the last step depends on its type, its status and on whether
it has calls. -/
theorem stepsLoad_concat_congr {a b : RunStepObject} (htype : a.type = b.type)
    (hstatus : a.status = b.status)
    (hcalls : a.stepDetails.toolCalls ≠ [] → b.stepDetails.toolCalls ≠ [])
    {front : List RunStepObject} {previous : Option RunStepObject}
    (h : StepsLoad previous (front ++ [a])) : StepsLoad previous (front ++ [b]) := by
  induction front generalizing previous with
  | nil =>
      -- the last step may pause in both lists
      refine ⟨fun hb => ?_, trivial⟩
      have hload := h.1 (htype.trans hb)
      exact
        { calls := hcalls hload.calls
          message := hload.message
          pausesLast := fun _ => rfl
          notEnded := hstatus ▸ hload.notEnded }
  | cons step front ih =>
      refine ⟨fun hstep => ?_, ih h.2⟩
      have hload := h.1 hstep
      -- a step is the last one in both lists or in none
      have hempty : (front ++ [a]).isEmpty = (front ++ [b]).isEmpty := by
        cases front <;> rfl
      exact (hempty ▸ hload : StepLoads (front ++ [b]).isEmpty previous step)

/-- A step in progress at the end is loaded as a pause at the end. -/
theorem loadedSteps_concat (s : Store) (run : RunObject) {last : RunStepObject}
    (htype : last.type = .toolCalls) (hstatus : last.status = .inProgress)
    (front : List RunStepObject) (previous : Option RunStepObject) :
    ∃ content, (s.loadedSteps run previous (front ++ [last])).getLast?
      = some (last.pause content) := by
  induction front generalizing previous with
  | nil =>
      refine ⟨s.contentBefore run previous, ?_⟩
      simp [Store.loadedSteps, Store.loadedStep, htype, hstatus]
  | cons step front ih =>
      obtain ⟨content, hcontent⟩ := ih (some step)
      refine ⟨content, ?_⟩
      show (s.loadedStep run previous step
        ++ s.loadedSteps run (some step) (front ++ [last])).getLast? = _
      rw [List.getLast?_append, hcontent]
      rfl

end Steps

/-! ### Lifting the pause -/

section Lift

variable {kind : ExecutorKind} {state : AgentState} {pause : AgentPause} {message : Message}

/-- Wherever the stop predicate lets the state pass, the executor appends an observation with
the messages. -/
def LiftsPause (kind : ExecutorKind) (state : AgentState) (messages : List Message) : Prop :=
  ∀ (parts : AgentParts Call.Res) (exec : (call : Call) → ServiceM call.Res) (s s' : Store)
    (agentStep : AgentStep),
    (parts.shouldEarlyStop state .unset).run exec s = (.ok (false, agentStep), s') →
    ∃ observation, observation.toolMessages = messages ∧
      (resolveNextStep kind parts state).run exec s
        = (.ok (.observation observation, state.addPreviousStep (.observation observation)), s')

/-- A pause with as many messages as calls is lifted.  The LLM compiler needs its graph. -/
theorem liftsPause_of (hlast : state.previousSteps.getLast? = some (.thought (.pause pause)))
    (hmessage : pause.toolCallMessage = some message)
    (hlength : message.toolCalls.length = pause.completed.length)
    (hgraph : kind = .llmCompiler → pause.custom.taskGraph?.isSome) :
    LiftsPause kind state pause.completed := by
  intro parts exec s s' agentStep hpass
  obtain ⟨completed, toolCallMessage, custom⟩ := pause
  obtain rfl : toolCallMessage = some message := hmessage
  cases kind with
  | openAITool =>
      -- all calls are completed, so the messages become an observation
      refine ⟨{ agentStep.mutableObservation with toolMessages := completed }, rfl, ?_⟩
      rw [resolveNextStep, Program.bind_eq, Program.run_bind_of_ok _ hpass]
      simp only [Bool.false_eq_true, if_false, ExecutorKind.step, openAIToolStep, hlast]
      rw [if_pos hlength]
      rfl
  | llmCompiler =>
      -- the results go into the task graph as well
      obtain ⟨graph, hsome⟩ := Option.isSome_iff_exists.mp (hgraph rfl)
      refine ⟨{ toolMessages := completed, custom := .taskGraph (graph.setResults completed) },
        rfl, ?_⟩
      rw [resolveNextStep, Program.bind_eq, Program.run_bind_of_ok _ hpass]
      simp only [Bool.false_eq_true, if_false, ExecutorKind.step, llmCompilerStep, hlast]
      simp only at hsome
      simp only [hsome]
      rw [if_pos hlength]
      rfl

/-- Parts that never stop and answer nothing. -/
def silentParts : AgentParts Call.Res where
  shouldEarlyStop _ agentStep := pure (false, agentStep)
  planner _ := .raise (.other "no answer")
  worker _ := .raise (.other "no answer")
  joiner _ := .raise (.other "no answer")

/-- Without its graph the LLM compiler does not lift the pause. -/
theorem graph_of_liftsPause
    (hlast : state.previousSteps.getLast? = some (.thought (.pause pause)))
    {messages : List Message} (h : LiftsPause .llmCompiler state messages)
    (hmessage : pause.toolCallMessage = some message) : pause.custom.taskGraph?.isSome := by
  obtain ⟨completed, toolCallMessage, custom⟩ := pause
  obtain rfl : toolCallMessage = some message := hmessage
  obtain ⟨observation, -, hrun⟩ := h silentParts (fun call => Action.throw (.other "no answer"))
    {} {} .unset rfl
  cases hgraph : custom.taskGraph? with
  | some graph => rfl
  | none =>
      simp [resolveNextStep, silentParts, ExecutorKind.step, llmCompilerStep, hlast, hgraph] at hrun

end Lift

/-! ### The three notions of a finished call -/

/-- An accepted request, with what it has checked and what it has stored. -/
theorem submits_of_ok {s s' : Store} {req : SubmitToolOutputsToRunRequest} {queued : RunObject}
    {step : RunStepObject} (h : submitToolOutputs req s = (.ok (some queued), s'))
    (hnewest : (arrange (·.createdAt) true (s.stepsOf req.threadId req.runId)).head? = some step) :
    ∃ run, Submits s req run step ∧ queued = run.assign req.runRequest ∧
      s' = s.submit req run step := by
  rcases submitToolOutputs_cases req s with ⟨e, herror⟩ | ⟨run, newest, hsubmits, hok⟩
  · rw [herror] at h
    simp at h
  · obtain rfl : newest = step := Option.some.inj (hsubmits.newest.symm.trans hnewest)
    rw [hok] at h
    obtain ⟨hqueued, hstore⟩ := Prod.mk.inj h
    exact ⟨run, hsubmits, (Option.some.inj (Except.ok.inj hqueued)).symm, hstore.symm⟩

/-- The pause that the newest step becomes after a request. -/
def RunStepObject.resumed (step : RunStepObject) (outputs : List ToolOutput) (content : String) :
    AgentPause :=
  { custom := step.stepDetails.custom
    toolCallMessage := some
      { role := "assistant"
        content := content
        toolCalls := step.stepDetails.toolCalls.map ToolCallDetail.request }
    completed := (step.stepDetails.toolCalls.filter fun call =>
      isNotBlankString (call.finalOutput outputs)).map (·.answer outputs) }

section Submitted

variable {config : HandlerConfig} {outside : Outside} {toolkit : Toolkit}
variable {s : Store} {req : SubmitToolOutputsToRunRequest} {run : RunObject} {step : RunStepObject}

theorem pause_answered (hfunctions : ∀ call ∈ step.stepDetails.toolCalls, call.type = .function)
    (content : String) : (req.answered run step).pause content
      = .thought (.pause (step.resumed req.toolOutputs content)) := by
  -- the outputs change no type, so all calls are function calls still
  have hall : (req.answered run step).functionCalls
      = step.stepDetails.toolCalls.map (·.withOutputs req.toolOutputs) := by
    rw [RunStepObject.functionCalls, toolCalls_answered]
    refine List.filter_eq_self.mpr fun call hcall => ?_
    obtain ⟨stored, hstored, rfl⟩ := List.mem_map.mp hcall
    rw [type_withOutputs]
    exact decide_eq_true (hfunctions stored hstored)
  have hrequests : (step.stepDetails.toolCalls.map (·.withOutputs req.toolOutputs)).map
      ToolCallDetail.request = step.stepDetails.toolCalls.map ToolCallDetail.request := by
    rw [List.map_map]
    exact List.map_congr_left fun call _ => request_withOutputs
  -- a call is completed if its final output is not blank
  have hcompleted : ((step.stepDetails.toolCalls.map (·.withOutputs req.toolOutputs)).filter
      (·.hasOutput)).map ToolCallDetail.toolMessage
      = (step.resumed req.toolOutputs content).completed := by
    rw [List.filter_map, List.map_map]
    refine (List.map_congr_left fun call _ => toolMessage_withOutputs).trans ?_
    refine congrArg (List.map _) (List.filter_congr fun call _ => ?_)
    show isNotBlankString (call.withOutputs req.toolOutputs).functionOrDefault.output = _
    rw [output_withOutputs]
  rw [RunStepObject.pause, RunStepObject.toolCallRequest, hall, hrequests, hcompleted]
  rfl

/-- The loader reads the same conversation before and after the request. -/
theorem hasInput_submit {threadId : String} (hthread : threadId ≠ "") (content : MessageContent) :
    (s.submit req run step).HasInput threadId content ↔ s.HasInput threadId content := by
  obtain ⟨found, hfound⟩ := getLatestUserMessageObject_ok s hthread
  unfold Store.HasInput
  rw [hfound s rfl, hfound (s.submit req run step) rfl]
  simp

/-- The steps that the loader reads after the request, for the run that was enqueued. -/
theorem Submits.listAllSteps (h : Submits s req run step)
    (hordered : Ordered (·.id) (·.createdAt) (s.stepsOf req.threadId req.runId)) :
    ∃ front, arrange (·.createdAt) false (s.stepsOf req.threadId req.runId) = front ++ [step] ∧
      Instinct.listAllSteps (run.assign req.runRequest).threadId (run.assign req.runRequest).id
        (s.submit req run step)
        = (.ok (front ++ [req.answered run step]), s.submit req run step) := by
  obtain ⟨hthread, hid⟩ := Store.run?_some h.found
  rw [RunObject.threadId_assign, RunObject.id_assign, hthread, hid]
  exact h.steps hordered

theorem Submits.thread_ne (h : Submits s req run step) :
    (run.assign req.runRequest).threadId ≠ "" := by
  rw [RunObject.threadId_assign, (Store.run?_some h.found).1]
  exact ne_empty_of_not_blank h.threadId

/-- When a state is recovered after an accepted request. -/
theorem Submits.recovers_iff (h : Submits s req run step)
    (hordered : Ordered (·.id) (·.createdAt) (s.stepsOf req.threadId req.runId)) :
    (∃ state, (recoverAgentState (run.assign req.runRequest) toolkit).run
        (Call.exec config outside) (s.submit req run step)
        = (.ok (some state), s.submit req run step)) ↔
      (∃ content, s.HasInput req.threadId content) ∧
      StepsLoad none (arrange (·.createdAt) false (s.stepsOf req.threadId req.runId)) ∧
      s.HasAssistant run.assistantId := by
  obtain ⟨front, hfront, hlist⟩ := h.listAllSteps hordered
  have hloads := @loadAgentState_isSome_iff config outside _ _ (rfl : _ = RunObjectStatus.queued)
    h.thread_ne _ hlist
  -- outputs make no step load that did not load before
  have hsteps : StepsLoad none (front ++ [req.answered run step])
      ↔ StepsLoad none (front ++ [step]) := by
    have hnil : (req.answered run step).stepDetails.toolCalls = []
        ↔ step.stepDetails.toolCalls = [] := by
      rw [toolCalls_answered, List.map_eq_nil_iff]
    constructor
    · exact stepsLoad_concat_congr (a := req.answered run step) (b := step) rfl rfl
        (mt hnil.mpr)
    · exact stepsLoad_concat_congr (a := step) (b := req.answered run step) rfl rfl
        (mt hnil.mp)
  have hinput : (∃ content, (s.submit req run step).HasInput
      (run.assign req.runRequest).threadId content)
      ↔ ∃ content, s.HasInput req.threadId content := by
    refine exists_congr fun content => (hasInput_submit h.thread_ne content).trans ?_
    rw [RunObject.threadId_assign, (Store.run?_some h.found).1]
  rw [hfront, ← hsteps, ← hinput]
  constructor
  · rintro ⟨state, hstate⟩
    obtain ⟨loaded, hloaded, -, hassistant⟩ := recoverAgentState_ok hstate
    obtain ⟨hcontent, hload⟩ := hloads.mp ⟨loaded, hloaded⟩
    exact ⟨hcontent, hload, hassistant⟩
  · rintro ⟨hcontent, hload, hassistant⟩
    -- the assistant was not touched by the request
    obtain ⟨loaded, hloaded⟩ := hloads.mpr ⟨hcontent, hload⟩
    obtain ⟨assistant, hfound⟩ := Option.isSome_iff_exists.mp hassistant
    have hrecover := @recoverAgentState_of_loaded config outside _ toolkit _ _ _ hloaded
    have hsame : (s.submit req run step).assistants.find?
        (fun row => row.id = (run.assign req.runRequest).assistantId) = some assistant := hfound
    rw [hsame] at hrecover
    exact ⟨_, hrecover⟩

/-- A state that is recovered after an accepted request ends with the pause of the newest
step. -/
theorem Submits.recovered_pause (h : Submits s req run step)
    (hordered : Ordered (·.id) (·.createdAt) (s.stepsOf req.threadId req.runId))
    (htype : step.type = .toolCalls)
    (hfunctions : ∀ call ∈ step.stepDetails.toolCalls, call.type = .function) {state : AgentState}
    (hstate : (recoverAgentState (run.assign req.runRequest) toolkit).run
      (Call.exec config outside) (s.submit req run step)
      = (.ok (some state), s.submit req run step)) :
    ∃ content, state.previousSteps.getLast?
      = some (.thought (.pause (step.resumed req.toolOutputs content))) := by
  obtain ⟨front, -, hlist⟩ := h.listAllSteps hordered
  obtain ⟨loaded, hloaded, hprevious, -⟩ := recoverAgentState_ok hstate
  obtain ⟨⟨content, hcontent⟩, hload⟩ :=
    (@loadAgentState_isSome_iff config outside _ _ (rfl : _ = RunObjectStatus.queued)
      h.thread_ne _ hlist).mp ⟨loaded, hloaded⟩
  have hrun := @loadAgentState_run config outside _ _ (rfl : _ = RunObjectStatus.queued)
    h.thread_ne _ hcontent _ hlist hload
  obtain rfl := Option.some.inj (Except.ok.inj (Prod.mk.inj (hloaded.symm.trans hrun)).1)
  obtain ⟨text, hlast⟩ := loadedSteps_concat (s.submit req run step) (run.assign req.runRequest)
    (show (req.answered run step).type = .toolCalls from htype) h.stepStatus front none
  refine ⟨text, ?_⟩
  rw [hprevious, ← pause_answered hfunctions]
  exact hlast

end Submitted

/-- As many calls pass a filter as there are only if all of them pass. -/
theorem all_of_map_filter {α β : Type} {f : α → β} {p : α → Bool} {l : List α}
    (h : (l.filter p).map f = l.map f) : ∀ a ∈ l, p a = true :=
  List.length_filter_eq_length_iff.mp (by simpa using congrArg List.length h)

/-- **Resuming after `SubmitToolOutputs`.**  After a request that the service accepts, the
state that `RecoverAgentState` rebuilds ends with a pause that has one message for each call
of the newest step, with its stored or submitted output, and the executor lifts this pause
to an observation.  This is so if and only if the loader accepts the conversation and the
steps, the assistant is there, the step holds the graph of the LLM compiler where that is
the executor, and no call is left with a blank output. -/
theorem submitToolOutputs_lifts_iff (config : HandlerConfig) (outside : Outside)
    (toolkit : Toolkit) (kind : ExecutorKind) (s s' : Store) (req : SubmitToolOutputsToRunRequest)
    (queued : RunObject) (step : RunStepObject)
    (hsubmit : submitToolOutputs req s = (.ok (some queued), s'))
    (hordered : Ordered (·.id) (·.createdAt) (s.stepsOf req.threadId req.runId))
    (hnewest : (arrange (·.createdAt) true (s.stepsOf req.threadId req.runId)).head? = some step)
    (htype : step.type = .toolCalls)
    (hfunctions : ∀ call ∈ step.stepDetails.toolCalls, call.type = .function) :
    (∃ state pause, (recoverAgentState queued toolkit).run (Call.exec config outside) s'
          = (.ok (some state), s') ∧
        state.previousSteps.getLast? = some (.thought (.pause pause)) ∧
        pause.completed = step.stepDetails.toolCalls.map (·.answer req.toolOutputs) ∧
        LiftsPause kind state pause.completed)
      ↔ (∃ content, s.HasInput req.threadId content) ∧
        StepsLoad none (arrange (·.createdAt) false (s.stepsOf req.threadId req.runId)) ∧
        s.HasAssistant queued.assistantId ∧
        (kind = .llmCompiler → step.stepDetails.custom.taskGraph?.isSome) ∧
        ∀ call ∈ step.stepDetails.toolCalls,
          isNotBlankString (call.finalOutput req.toolOutputs) := by
  obtain ⟨run, hsubmits, rfl, rfl⟩ := submits_of_ok hsubmit hnewest
  constructor
  · rintro ⟨state, pause, hstate, hlast, hcompleted, hlifts⟩
    obtain ⟨hinput, hsteps, hassistant⟩ := (hsubmits.recovers_iff hordered).mp ⟨state, hstate⟩
    -- the pause is the one of the step with its outputs
    obtain ⟨content, hpause⟩ := hsubmits.recovered_pause hordered htype hfunctions hstate
    obtain rfl : pause = step.resumed req.toolOutputs content := by
      rw [hlast] at hpause
      simpa using hpause
    refine ⟨hinput, hsteps, hassistant, ?_, all_of_map_filter hcompleted⟩
    rintro rfl
    exact graph_of_liftsPause hlast hlifts rfl
  · rintro ⟨hinput, hsteps, hassistant, hgraph, houtputs⟩
    obtain ⟨state, hstate⟩ := (hsubmits.recovers_iff hordered).mpr ⟨hinput, hsteps, hassistant⟩
    obtain ⟨content, hlast⟩ := hsubmits.recovered_pause hordered htype hfunctions hstate
    -- no output is blank, so the filter keeps all calls
    have hcompleted : (step.resumed req.toolOutputs content).completed
        = step.stepDetails.toolCalls.map (·.answer req.toolOutputs) :=
      congrArg (List.map _) (List.filter_eq_self.mpr houtputs)
    refine ⟨state, _, hstate, hlast, hcompleted, liftsPause_of hlast rfl ?_ hgraph⟩
    rw [hcompleted, List.length_map, List.length_map]

/-- The run of two blocks while it waits for the output of `call_3`. -/
def waitingRun : RunObject :=
  { resumedRun with
    assistantId := "assistant_1"
    status := .requiresAction
    requiredAction :=
      { type := .submitToolOutputs
        submitToolOutputs := [(storedCall "call_3" "ask" "[]" "").request] } }

/-- The store of the waiting run. -/
def waitingStore : Store :=
  { twoBlocks with
    assistants := questionStore.assistants
    runs := { rows := [waitingRun], nodup := by decide, valid := by decide } }

/-- A request with the output of `call_3`. -/
def outputOf (output : String) : SubmitToolOutputsToRunRequest :=
  { runId := "run_1"
    threadId := "thread_1"
    toolOutputs := [{ toolCallId := "call_3", output := output }] }

/-- With an output for the open call the pause is lifted. -/
theorem submitToolOutputs_lifts_output :
    ∃ state pause, (recoverAgentState (waitingRun.assign (outputOf "5").runRequest) []).run
          (Call.exec {} {}) (waitingStore.submit (outputOf "5") waitingRun pausedBlock.calls)
        = (.ok (some state),
          waitingStore.submit (outputOf "5") waitingRun pausedBlock.calls) ∧
      state.previousSteps.getLast? = some (.thought (.pause pause)) ∧
      pause.completed = pausedBlock.calls.stepDetails.toolCalls.map (·.answer
        (outputOf "5").toolOutputs) ∧
      LiftsPause .openAITool state pause.completed := by
  refine (submitToolOutputs_lifts_iff {} {} [] .openAITool waitingStore _ (outputOf "5") _
    pausedBlock.calls rfl ⟨by decide, by decide⟩ (by decide) rfl (by decide)).mpr
    ⟨⟨_, questionMessage, rfl, rfl⟩, ?_, rfl, nofun, by decide⟩
  exact (load_blocks wellFormed_twoBlocks (@looksBack_none waitingRun
    waitingStore)).1

/-- The service accepts a blank output for the open call.  The rebuilt state then ends with a
pause that lacks its message, and the executor throws. -/
theorem submitToolOutputs_blank_output :
    ∃ queued s' state pause, submitToolOutputs (outputOf " ") waitingStore
        = (.ok (some queued), s') ∧
      (recoverAgentState queued []).run (Call.exec {} {}) s' = (.ok (some state), s') ∧
      state.previousSteps.getLast? = some (.thought (.pause pause)) ∧
      pause.completed.map (·.toolCallId) = ["call_2"] ∧
      ((resolveNextStep .openAITool silentParts state).run (Call.exec {} {}) s').1
        = .error (illegalState "OpenAIToolAgentExecutor") :=
  ⟨_, _, _, _, rfl, rfl, rfl, rfl, rfl⟩

end Instinct
