/-
Instinct/Recover.lean

How the task handler rebuilds the state of an agent from the stored run:
`LoadAgentStateFromRun_` and `RecoverAgentState`.

The loader walks over the steps of the run in the order of their creation and
looks one step back for the message of a continuation.  For a queued run it
accepts exactly the step lists of `StepsLoad`, and what it makes of them is
`loadedSteps` (`loadSteps_run`, `loadSteps_fails`).

The result about whole runs is `loadAgentState_blocks_iff`: a run of blocks as
`OnAgentContinuation` writes them is loaded back block by block, if a user
message is among the twenty newest messages of the thread.
-/
import Instinct.Callbacks

namespace Instinct

open Effects Paging

/-! ### What a step becomes -/

/-- The tool calls of a step that are function calls. -/
def RunStepObject.functionCalls (step : RunStepObject) : List ToolCallDetail :=
  step.stepDetails.toolCalls.filter fun call => call.type = .function

/-- The tool call of a message, for a tool call of a step. -/
def ToolCallDetail.request (call : ToolCallDetail) : ToolCallObject :=
  { type := .function
    id := call.id
    function := some
      { name := call.functionOrDefault.name, arguments := call.functionOrDefault.arguments } }

/-- The tool message that carries the output of a call. -/
def ToolCallDetail.toolMessage (call : ToolCallDetail) : Message :=
  { content := call.functionOrDefault.output, role := "tool", toolCallId := call.id }

/-- The call has an output. -/
def ToolCallDetail.hasOutput (call : ToolCallDetail) : Bool :=
  isNotBlankString call.functionOrDefault.output

/-- The message of a continuation. -/
def RunStepObject.toolCallRequest (step : RunStepObject) (content : String) : Message :=
  { role := "assistant"
    content := content
    toolCalls := step.functionCalls.map ToolCallDetail.request }

/-- The continuation that a step of tool calls becomes. -/
def RunStepObject.continuation (step : RunStepObject) (content : String) : AgentStep :=
  .thought (.continuation
    { toolCallMessage := some (step.toolCallRequest content), custom := step.stepDetails.custom })

/-- The observation that a completed step becomes. -/
def RunStepObject.observation (step : RunStepObject) : AgentStep :=
  .observation
    { toolMessages := step.functionCalls.map ToolCallDetail.toolMessage
      custom := step.stepDetails.custom }

/-- The pause that a step in progress becomes. -/
def RunStepObject.pause (step : RunStepObject) (content : String) : AgentStep :=
  .thought (.pause
    { custom := step.stepDetails.custom
      toolCallMessage := some (step.toolCallRequest content)
      completed := (step.functionCalls.filter (·.hasOutput)).map ToolCallDetail.toolMessage })

/-- The finish that an ended step becomes. -/
def RunStepObject.finish (step : RunStepObject) : AgentFinish :=
  { custom := step.stepDetails.custom, details := .runStepError (step.lastError.getD {}) }

/-- What follows the continuation of a step of tool calls.  `none`: the loader gives up. -/
def loadOutcome (run : RunObject) (isLast : Bool) (step : RunStepObject) (content : String) :
    Option (List AgentStep) :=
  match step.status with
  | .completed => some [step.observation]
  | .inProgress =>
      if isLast ∧ run.status = .queued then some [step.pause content] else none
  | .cancelled =>
      if isLast ∧ run.status = .cancelled then
        some [.thought (.finish { step.finish with isCancelled := true })]
      else none
  | .expired =>
      if isLast ∧ run.status = .expired then
        some [.thought (.finish { step.finish with isExpired := true })]
      else none
  | .failed =>
      if isLast ∧ run.status = .failed then
        some [.thought (.finish
          { step.finish with
            isFailed := true
            details := match step.lastError with
              | some error => .earlyStop { error := some error }
              | none => step.finish.details })]
      else none
  | .unknownRunStepStatus => some []

/-! ### The loader -/

/-- The text of the message that was created in the step before, if that step is one. -/
def previousContent (run : RunObject) : Option RunStepObject → HandlerM String
  | none => pure ""
  | some previous =>
      if previous.type = .messageCreation then do
        let message? ← perform (.retrieveMessage run.threadId
          (previous.stepDetails.messageCreation.getD ""))
        pure (((message?.bind (·.content.head?)).map (·.textValue)).getD "")
      else pure ""

/-- One round of the loop: the agent steps that a run step becomes. -/
def loadStep (run : RunObject) (isLast : Bool) (previous : Option RunStepObject)
    (step : RunStepObject) : HandlerM (Option (List AgentStep)) :=
  match step.type with
  | .toolCalls =>
      if step.stepDetails.toolCalls = [] then pure none
      else do
        let content ← previousContent run previous
        pure ((loadOutcome run isLast step content).map (step.continuation content :: ·))
  | .messageCreation =>
      if isLast ∧ run.status = .completed then do
        let message? ← perform (.retrieveMessage run.threadId
          (step.stepDetails.messageCreation.getD ""))
        pure (some (message?.toList.map fun message =>
          match message.content.head? with
          | some content => .thought (.finish { response := content.textValue })
          | none => .unset))
      else pure (some [])
  | .unknownRunStepType => pure (some [])

/-- The loop over the steps. -/
def loadSteps (run : RunObject) : Option RunStepObject → List RunStepObject →
    HandlerM (Option (List AgentStep))
  | _, [] => pure (some [])
  | previous, step :: steps => do
      let loaded? ← loadStep run steps.isEmpty previous step
      match loaded? with
      | none => pure none
      | some loaded => do
          let rest ← loadSteps run (some step) steps
          pure (rest.map (loaded ++ ·))

/-- `RunObjectTaskHandler::LoadAgentStateFromRun_`. -/
def loadAgentStateFromRun (run : RunObject) : HandlerM (Option AgentState) :=
  if run.status = .cancelling ∨ run.status = .inProgress then pure none
  else do
    -- user last message as input
    let lastUserMessage? ← perform (.getLatestUserMessageObject run.threadId)
    match lastUserMessage?.bind (·.content.head?) with
    | none => pure none
    | some content => do
        let runSteps ← perform (.listAllSteps run.threadId run.id)
        let loaded? ← loadSteps run none runSteps
        pure (loaded?.map fun loaded =>
          { input := .chat [{ role := "user", content := content.textValue }]
            previousSteps := loaded })

/-- The function tools among some tools. -/
def functionTools (tools : List AssistantToolObject) : List FunctionTool :=
  (tools.filter fun tool => tool.type = .function).map (·.function)

/-- Drop the tools that have the name of the tool kept before them. -/
def uniqueAfter (kept : FunctionTool) : List FunctionTool → List FunctionTool
  | [] => []
  | tool :: tools =>
      if kept.name = tool.name then uniqueAfter kept tools else tool :: uniqueAfter tool tools

/-- `std::ranges::unique` by name: only neighbours are compared. -/
def uniqueByName : List FunctionTool → List FunctionTool
  | [] => []
  | tool :: tools => tool :: uniqueAfter tool tools

/-- `RunObjectTaskHandler::RecoverAgentState`. -/
def recoverAgentState (run : RunObject) (localToolkit : Toolkit) :
    HandlerM (Option AgentState) := do
  let state? ← loadAgentStateFromRun run
  match state? with
  | none => pure none
  | some state => do
      let assistant? ← perform (.retrieveAssistant run.assistantId)
      assertTrue assistant?.isSome "should have found assistant"
      let tools := functionTools (assistant?.getD {}).tools ++ functionTools run.tools
        ++ localToolkit
      pure (some { state with functionTools := uniqueByName tools })

/-! ### What the loader accepts, and what it makes of it -/

/-- The text of a stored message, empty where there is none. -/
def Store.textOf (s : Store) (threadId messageId : String) : String :=
  (((s.messages.find? (isMessage threadId messageId)).bind (·.content.head?)).map
    (·.textValue)).getD ""

/-- The text of the message that was created in the step before. -/
def Store.contentBefore (s : Store) (run : RunObject) : Option RunStepObject → String
  | none => ""
  | some previous =>
      if previous.type = .messageCreation then
        s.textOf run.threadId (previous.stepDetails.messageCreation.getD "")
      else ""

/-- A message step names its message. -/
def NamesMessage (step : RunStepObject) : Prop :=
  step.type = .messageCreation → step.stepDetails.messageCreation.getD "" ≠ ""

instance (step : RunStepObject) : Decidable (NamesMessage step) :=
  inferInstanceAs (Decidable (_ → _))

/-- The loader accepts the step of a queued run at its place. -/
structure StepLoads (isLast : Bool) (previous : Option RunStepObject) (step : RunStepObject) :
    Prop where
  calls : step.stepDetails.toolCalls ≠ []
  message : ∀ before, previous = some before → NamesMessage before
  pausesLast : step.status = .inProgress → isLast = true
  notEnded : step.status ≠ .cancelled ∧ step.status ≠ .expired ∧ step.status ≠ .failed

/-- The loader accepts the steps of a queued run. -/
def StepsLoad : Option RunStepObject → List RunStepObject → Prop
  | _, [] => True
  | previous, step :: steps =>
      (step.type = .toolCalls → StepLoads steps.isEmpty previous step) ∧
        StepsLoad (some step) steps

/-- What the loader makes of a step that it accepts, in a queued run. -/
def Store.loadedStep (s : Store) (run : RunObject) (previous : Option RunStepObject)
    (step : RunStepObject) : List AgentStep :=
  if step.type = .toolCalls then
    step.continuation (s.contentBefore run previous) ::
      (if step.status = .completed then [step.observation]
      else if step.status = .inProgress then [step.pause (s.contentBefore run previous)]
      else [])
  else []

/-- What the loader makes of the steps that it accepts, in a queued run. -/
def Store.loadedSteps (s : Store) (run : RunObject) :
    Option RunStepObject → List RunStepObject → List AgentStep
  | _, [] => []
  | previous, step :: steps => s.loadedStep run previous step ++ s.loadedSteps run (some step) steps

section Loader

variable {config : HandlerConfig} {outside : Outside} {run : RunObject} {s : Store}

theorem retrieveMessage_eq {threadId messageId : String} (hthread : threadId ≠ "")
    (hid : messageId ≠ "") (s : Store) : retrieveMessage threadId messageId s
      = (.ok (s.messages.find? (isMessage threadId messageId)), s) := by
  simp only [retrieveMessage, Action.bind_apply, Action.liftM_apply, templateVariable_of hthread,
    templateVariable_of hid]
  rfl

theorem previousContent_run (hthread : run.threadId ≠ "") {previous : Option RunStepObject}
    (hnames : ∀ before, previous = some before → NamesMessage before) :
    (previousContent run previous).run (Call.exec config outside) s
      = (.ok (s.contentBefore run previous), s) := by
  cases previous with
  | none => rfl
  | some before =>
      simp only [previousContent, Store.contentBefore]
      by_cases hmessage : before.type = .messageCreation
      · rw [if_pos hmessage, if_pos hmessage]
        -- the message is read without changing the store
        have hexec : Call.exec config outside
            (.retrieveMessage run.threadId (before.stepDetails.messageCreation.getD "")) s = _ :=
          retrieveMessage_eq hthread (hnames before rfl hmessage) s
        refine (Program.run_perform_bind _ _ _ s).trans ?_
        rw [hexec]
        rfl
      · rw [if_neg hmessage, if_neg hmessage]
        rfl

/-- Without the name of the message, the lookup of its text throws. -/
theorem previousContent_fails {before : RunStepObject} (h : ¬ NamesMessage before) :
    (previousContent run (some before)).run (Call.exec config outside) s
      = (.error (missingVariable "message_id"), s) := by
  obtain ⟨hmessage, hempty⟩ := Classical.not_imp.mp h
  have hexec : Call.exec config outside
      (.retrieveMessage run.threadId (before.stepDetails.messageCreation.getD "")) s
      = (.error (missingVariable "message_id"), s) := by
    rw [not_not.mp hempty]
    rfl
  simp only [previousContent]
  rw [if_pos hmessage]
  refine (Program.run_perform_bind _ _ _ s).trans ?_
  rw [hexec]

/-- What the loop gives up with: no state, or an exception. -/
def GivesUp {α : Type} (result : Except Exn (Option α) × Store) (s : Store) : Prop :=
  result.2 = s ∧ (result.1 = .ok none ∨ result.1 = .error (missingVariable "message_id"))

theorem GivesUp.bind {α β : Type} {p : HandlerM (Option α)}
    {f : Option α → HandlerM (Option β)}
    (h : GivesUp (p.run (Call.exec config outside) s) s) (hf : f none = .ret none) :
    GivesUp ((p.bind f).run (Call.exec config outside) s) s := by
  obtain ⟨hstate, hresult⟩ := h
  rcases e : p.run (Call.exec config outside) s with ⟨result, s'⟩
  rw [e] at hstate hresult
  obtain rfl : s' = s := hstate
  rcases hresult with rfl | rfl
  · rw [Program.run_bind_of_ok _ e, hf]
    exact ⟨rfl, .inl rfl⟩
  · rw [Program.run_bind_of_error _ e]
    exact ⟨rfl, .inr rfl⟩

/-- In a queued run a step of tool calls that the loader accepts becomes a continuation and
what its status says. -/
theorem loadOutcome_of (hqueued : run.status = .queued) {isLast : Bool}
    {previous : Option RunStepObject} {step : RunStepObject} (h : StepLoads isLast previous step)
    (content : String) : loadOutcome run isLast step content
      = some (if step.status = .completed then [step.observation]
        else if step.status = .inProgress then [step.pause content] else []) := by
  obtain ⟨hcancelled, hexpired, hfailed⟩ := h.notEnded
  unfold loadOutcome
  cases hstatus : step.status with
  | unknownRunStepStatus => rfl
  | inProgress => simp [h.pausesLast hstatus, hqueued]
  | cancelled => exact absurd hstatus hcancelled
  | failed => exact absurd hstatus hfailed
  | completed => rfl
  | expired => exact absurd hstatus hexpired

theorem loadOutcome_none (hqueued : run.status = .queued) {isLast : Bool} {step : RunStepObject}
    {content : String} (h : loadOutcome run isLast step content ≠ none) :
    (step.status = .inProgress → isLast = true) ∧
      step.status ≠ .cancelled ∧ step.status ≠ .expired ∧ step.status ≠ .failed := by
  unfold loadOutcome at h
  cases hstatus : step.status with
  | inProgress =>
      rw [hstatus] at h
      by_cases hlast : isLast = true
      · simp [hlast]
      · simp [hlast] at h
  | cancelled => simp [hstatus, hqueued] at h
  | failed => simp [hstatus, hqueued] at h
  | expired => simp [hstatus, hqueued] at h
  | unknownRunStepStatus => simp
  | completed => simp

theorem loadStep_run (hqueued : run.status = .queued) (hthread : run.threadId ≠ "")
    {isLast : Bool} {previous : Option RunStepObject} {step : RunStepObject}
    (h : step.type = .toolCalls → StepLoads isLast previous step) :
    (loadStep run isLast previous step).run (Call.exec config outside) s
      = (.ok (some (s.loadedStep run previous step)), s) := by
  unfold loadStep Store.loadedStep
  cases htype : step.type with
  | unknownRunStepType => rfl
  | messageCreation => simp [hqueued]
  | toolCalls =>
      have hloads := h htype
      simp only [if_neg hloads.calls, if_true]
      refine (Program.run_bind_of_ok _ (previousContent_run hthread hloads.message)).trans ?_
      rw [loadOutcome_of hqueued hloads]
      rfl

theorem loadStep_fails (hqueued : run.status = .queued) (hthread : run.threadId ≠ "")
    {isLast : Bool} {previous : Option RunStepObject} {step : RunStepObject}
    (htype : step.type = .toolCalls) (h : ¬ StepLoads isLast previous step) :
    GivesUp ((loadStep run isLast previous step).run (Call.exec config outside) s) s := by
  simp only [loadStep, htype]
  by_cases hcalls : step.stepDetails.toolCalls = []
  · rw [if_pos hcalls]
    exact ⟨rfl, .inl rfl⟩
  rw [if_neg hcalls]
  by_cases hmessage : ∀ before, previous = some before → NamesMessage before
  · -- the outcome is the reason
    rw [Program.bind_eq, Program.run_bind_of_ok _ (previousContent_run hthread hmessage)]
    rcases houtcome : loadOutcome run isLast step (s.contentBefore run previous) with - | loaded
    · exact ⟨rfl, .inl rfl⟩
    · obtain ⟨hlast, hended⟩ := loadOutcome_none hqueued (houtcome ▸ Option.some_ne_none loaded)
      exact absurd ⟨hcalls, hmessage, hlast, hended⟩ h
  · -- the message has no name
    simp only [not_forall] at hmessage
    obtain ⟨before, rfl, hnames⟩ := hmessage
    rw [Program.bind_eq, Program.run_bind_of_error _ (previousContent_fails hnames)]
    exact ⟨rfl, .inr rfl⟩

/-- **The loop, on steps that it accepts.** -/
theorem loadSteps_run (hqueued : run.status = .queued) (hthread : run.threadId ≠ "")
    {previous : Option RunStepObject} {steps : List RunStepObject}
    (h : StepsLoad previous steps) :
    (loadSteps run previous steps).run (Call.exec config outside) s
      = (.ok (some (s.loadedSteps run previous steps)), s) := by
  induction steps generalizing previous with
  | nil => rfl
  | cons step steps ih =>
      unfold loadSteps
      rw [Program.bind_eq, Program.run_bind_of_ok _ (loadStep_run hqueued hthread h.1)]
      simp only [Program.bind_eq]
      rw [Program.run_bind_of_ok _ (ih h.2)]
      rfl

/-- The loop, on steps that it does not accept. -/
theorem loadSteps_fails (hqueued : run.status = .queued) (hthread : run.threadId ≠ "")
    {previous : Option RunStepObject} {steps : List RunStepObject}
    (h : ¬ StepsLoad previous steps) :
    GivesUp ((loadSteps run previous steps).run (Call.exec config outside) s) s := by
  induction steps generalizing previous with
  | nil => exact absurd trivial h
  | cons step steps ih =>
      unfold loadSteps
      by_cases hstep : step.type = .toolCalls → StepLoads steps.isEmpty previous step
      · -- a later step is the reason
        rw [Program.bind_eq, Program.run_bind_of_ok _ (loadStep_run hqueued hthread hstep)]
        exact GivesUp.bind (ih fun hsteps => h ⟨hstep, hsteps⟩) rfl
      · obtain ⟨htype, hloads⟩ := Classical.not_imp.mp hstep
        exact GivesUp.bind (loadStep_fails hqueued hthread htype hloads) rfl

/-- The user message that the loader takes as input has this content first. -/
def Store.HasInput (s : Store) (threadId : String) (content : MessageContent) : Prop :=
  ∃ message, getLatestUserMessageObject threadId s = (.ok (some message), s) ∧
    message.content.head? = some content

/-- The state that the loader builds for a queued run. -/
def Store.loadedState (s : Store) (run : RunObject) (content : MessageContent)
    (steps : List RunStepObject) : AgentState :=
  { input := .chat [{ role := "user", content := content.textValue }]
    previousSteps := s.loadedSteps run none steps }

theorem not_stopped_of_queued (hqueued : run.status = .queued) :
    ¬ (run.status = .cancelling ∨ run.status = .inProgress) := by
  simp [hqueued]

/-- **The loader, on a queued run that it accepts.** -/
theorem loadAgentState_run (hqueued : run.status = .queued) (hthread : run.threadId ≠ "")
    {content : MessageContent} (hinput : s.HasInput run.threadId content)
    {steps : List RunStepObject} (hsteps : listAllSteps run.threadId run.id s = (.ok steps, s))
    (h : StepsLoad none steps) :
    (loadAgentStateFromRun run).run (Call.exec config outside) s
      = (.ok (some (s.loadedState run content steps)), s) := by
  obtain ⟨message, hmessage, hcontent⟩ := hinput
  have hexec : Call.exec config outside (.getLatestUserMessageObject run.threadId) s = _ := hmessage
  have hexec' : Call.exec config outside (.listAllSteps run.threadId run.id) s = _ := hsteps
  rw [loadAgentStateFromRun, if_neg (not_stopped_of_queued hqueued), Program.bind_eq,
    Program.run_perform_bind, hexec]
  simp only [Option.bind_some, hcontent, Program.bind_eq]
  rw [Program.run_perform_bind, hexec']
  simp only
  rw [Program.run_bind_of_ok _ (loadSteps_run hqueued hthread h)]
  rfl

/-- The loader, on a queued run that it does not accept. -/
theorem loadAgentState_fails (hqueued : run.status = .queued) (hthread : run.threadId ≠ "")
    {steps : List RunStepObject} (hsteps : listAllSteps run.threadId run.id s = (.ok steps, s))
    (h : ¬ ((∃ content, s.HasInput run.threadId content) ∧ StepsLoad none steps)) :
    GivesUp ((loadAgentStateFromRun run).run (Call.exec config outside) s) s := by
  obtain ⟨found, hfound⟩ := getLatestUserMessageObject_ok s hthread
  have hfound := hfound s rfl
  have hexec : Call.exec config outside (.getLatestUserMessageObject run.threadId) s = _ := hfound
  have hexec' : Call.exec config outside (.listAllSteps run.threadId run.id) s = _ := hsteps
  rw [loadAgentStateFromRun, if_neg (not_stopped_of_queued hqueued), Program.bind_eq,
    Program.run_perform_bind, hexec]
  rcases hcontent : found.bind (·.content.head?) with - | content
  · simp only [hcontent]
    exact ⟨rfl, .inl rfl⟩
  · obtain ⟨message, rfl, hhead⟩ := Option.bind_eq_some_iff.mp hcontent
    simp only [hcontent, Program.bind_eq]
    rw [Program.run_perform_bind, hexec']
    simp only
    exact GivesUp.bind
      (loadSteps_fails hqueued hthread fun hl => h ⟨⟨content, message, hfound, hhead⟩, hl⟩) rfl

/-- What the loader accepts. -/
theorem loadAgentState_isSome_iff (hqueued : run.status = .queued) (hthread : run.threadId ≠ "")
    {steps : List RunStepObject} (hsteps : listAllSteps run.threadId run.id s = (.ok steps, s)) :
    (∃ state, (loadAgentStateFromRun run).run (Call.exec config outside) s = (.ok (some state), s))
      ↔ (∃ content, s.HasInput run.threadId content) ∧ StepsLoad none steps := by
  constructor
  · rintro ⟨state, hstate⟩
    by_contra h
    rcases (@loadAgentState_fails config outside _ _ hqueued hthread _ hsteps h).2
      with hnone | herror
    · simp [hstate] at hnone
    · simp [hstate] at herror
  · rintro ⟨⟨content, hinput⟩, hload⟩
    exact ⟨_, loadAgentState_run hqueued hthread hinput hsteps hload⟩

end Loader

/-! ### `RecoverAgentState` -/

section Recover

variable {config : HandlerConfig} {outside : Outside} {run : RunObject} {toolkit : Toolkit}
variable {s : Store}

/-- The assistant of a run is there. -/
def Store.HasAssistant (s : Store) (assistantId : String) : Prop :=
  (s.assistants.find? fun row => row.id = assistantId).isSome

/-- What `RecoverAgentState` makes of a state that the loader returns. -/
theorem recoverAgentState_of_loaded {loaded : AgentState} {s₁ : Store}
    (hloaded : (loadAgentStateFromRun run).run (Call.exec config outside) s
      = (.ok (some loaded), s₁)) :
    (recoverAgentState run toolkit).run (Call.exec config outside) s =
      match s₁.assistants.find? fun row => row.id = run.assistantId with
      | some assistant =>
          (.ok (some { loaded with
            functionTools := uniqueByName
              (functionTools assistant.tools ++ functionTools run.tools ++ toolkit) }), s₁)
      | none => (.error (.client "should have found assistant"), s₁) := by
  have hexec : Call.exec config outside (.retrieveAssistant run.assistantId) s₁
      = (.ok (s₁.assistants.find? fun row => row.id = run.assistantId), s₁) := rfl
  rw [recoverAgentState, Program.bind_eq, Program.run_bind_of_ok _ hloaded]
  refine (Program.run_perform_bind _ _ _ s₁).trans ?_
  rw [hexec]
  cases s₁.assistants.find? fun row => row.id = run.assistantId with
  | none => rfl
  | some assistant => rfl

/-- A state is recovered only where the loader has one and where the assistant is there. -/
theorem recoverAgentState_ok {s' : Store} {state : AgentState}
    (h : (recoverAgentState run toolkit).run (Call.exec config outside) s
      = (.ok (some state), s')) :
    ∃ loaded, (loadAgentStateFromRun run).run (Call.exec config outside) s
        = (.ok (some loaded), s') ∧ state.previousSteps = loaded.previousSteps ∧
      s'.HasAssistant run.assistantId := by
  have hbind := h
  rw [recoverAgentState, Program.bind_eq] at hbind
  obtain ⟨loaded?, s₁, hloaded, hrest⟩ := Program.ok_of_run_bind _ hbind
  rcases loaded? with - | loaded
  · simp at hrest
  · rw [recoverAgentState_of_loaded hloaded] at h
    rcases hfound : s₁.assistants.find? fun row => row.id = run.assistantId with - | assistant
    · simp [hfound] at h
    · simp only [hfound, Prod.mk.injEq, Except.ok.injEq, Option.some.injEq] at h
      obtain ⟨rfl, rfl⟩ := h
      exact ⟨loaded, hloaded, rfl, by simp [Store.HasAssistant, hfound]⟩

end Recover

/-! ### Runs of blocks -/

/-- What one continuation leaves in the store: a step with its tool calls, and before it
a step with its message if it has one. -/
structure Block where
  message : Option RunStepObject
  calls : RunStepObject

/-- The steps of a block, in the order of creation. -/
def Block.steps (block : Block) : List RunStepObject := block.message.toList ++ [block.calls]

/-- The steps are as `OnAgentContinuation` writes them. -/
structure Block.WellFormed (block : Block) : Prop where
  message : ∀ step, block.message = some step →
    step.type = .messageCreation ∧ step.stepDetails.messageCreation.getD "" ≠ ""
  type : block.calls.type = .toolCalls
  calls : block.calls.stepDetails.toolCalls ≠ []
  functions : ∀ call ∈ block.calls.stepDetails.toolCalls, call.type = .function

/-- Every block is well formed, and all but the last are completed; the last may be in
progress. -/
structure WellFormedBlocks (blocks : List Block) : Prop where
  wellFormed : ∀ block ∈ blocks, block.WellFormed
  completed : ∀ block ∈ blocks.dropLast, block.calls.status = .completed
  last : ∀ block, blocks.getLast? = some block →
    block.calls.status = .completed ∨ block.calls.status = .inProgress

/-- The text of the block's message, empty if it has none. -/
def Block.text (s : Store) (threadId : String) (block : Block) : String :=
  match block.message with
  | some step => s.textOf threadId (step.stepDetails.messageCreation.getD "")
  | none => ""

/-- The message that the tool calls of a block were read from. -/
def Block.request (s : Store) (threadId : String) (block : Block) : Message :=
  { role := "assistant"
    content := block.text s threadId
    toolCalls := block.calls.stepDetails.toolCalls.map ToolCallDetail.request }

/-- The agent steps that a block stands for: its continuation, followed by an observation
where its calls are completed and by a pause where they are in progress. -/
def Block.trace (s : Store) (threadId : String) (block : Block) : List AgentStep :=
  let custom := block.calls.stepDetails.custom
  let calls := block.calls.stepDetails.toolCalls
  [.thought (.continuation
      { toolCallMessage := some (block.request s threadId), custom := custom }),
    if block.calls.status = .completed then
      .observation { toolMessages := calls.map ToolCallDetail.toolMessage, custom := custom }
    else
      .thought (.pause
        { toolCallMessage := some (block.request s threadId)
          completed := (calls.filter (·.hasOutput)).map ToolCallDetail.toolMessage
          custom := custom })]

section Blocks

variable {run : RunObject} {s : Store}

theorem Block.WellFormed.functionCalls {block : Block} (h : block.WellFormed) :
    block.calls.functionCalls = block.calls.stepDetails.toolCalls :=
  List.filter_eq_self.mpr fun call hcall => decide_eq_true (h.functions call hcall)

/-- The loader looks one step back: at the message of the block, or at the calls of the
block before. -/
def LooksBack (s : Store) (run : RunObject) (previous : Option RunStepObject) (text : String) :
    Prop :=
  s.contentBefore run previous = text ∧ ∀ before, previous = some before → NamesMessage before

theorem looksBack_none : LooksBack s run none "" :=
  ⟨rfl, fun _ hbefore => by simp at hbefore⟩

theorem looksBack_calls {block : Block} (h : block.WellFormed) :
    LooksBack s run (some block.calls) "" := by
  constructor
  · simp [Store.contentBefore, h.type]
  · rintro _ ⟨⟩ hmessage
    rw [h.type] at hmessage
    simp at hmessage

theorem looksBack_message {block : Block} (h : block.WellFormed) {step : RunStepObject}
    (hstep : block.message = some step) :
    LooksBack s run (some step) (block.text s run.threadId) := by
  obtain ⟨htype, hname⟩ := h.message step hstep
  constructor
  · simp [Store.contentBefore, htype, Block.text, hstep]
  · rintro _ ⟨⟩ -
    exact hname

/-- The calls of a block, after whatever holds its text. -/
theorem loadedStep_calls {block : Block} (h : block.WellFormed)
    (hstatus : block.calls.status = .completed ∨ block.calls.status = .inProgress)
    {previous : Option RunStepObject}
    (hback : LooksBack s run previous (block.text s run.threadId)) :
    s.loadedStep run previous block.calls = block.trace s run.threadId := by
  have hrequest : block.calls.toolCallRequest (block.text s run.threadId)
      = block.request s run.threadId := by
    rw [RunStepObject.toolCallRequest, h.functionCalls]
    rfl
  rw [Store.loadedStep, if_pos h.type, hback.1, Block.trace, RunStepObject.continuation,
    RunStepObject.observation, RunStepObject.pause, hrequest, h.functionCalls]
  rcases hstatus with hstatus | hstatus
  · simp [hstatus]
  · simp [hstatus]

theorem stepLoads_calls {block : Block} (h : block.WellFormed) {isLast : Bool}
    (hstatus : block.calls.status = .completed ∨
      (block.calls.status = .inProgress ∧ isLast = true))
    {previous : Option RunStepObject} {text : String} (hback : LooksBack s run previous text) :
    StepLoads isLast previous block.calls where
  calls := h.calls
  message := hback.2
  pausesLast hprogress := by
    rcases hstatus with hstatus | hstatus
    · rw [hstatus] at hprogress
      simp at hprogress
    · exact hstatus.2
  notEnded := by
    rcases hstatus with hstatus | ⟨hstatus, -⟩
    · simp [hstatus]
    · simp [hstatus]

/-- A block in front, with what the loader makes of it. -/
theorem load_block {block : Block} (h : block.WellFormed) {rest : List RunStepObject}
    (hstatus : block.calls.status = .completed ∨
      (block.calls.status = .inProgress ∧ rest.isEmpty = true))
    {previous : Option RunStepObject} (hback : LooksBack s run previous "")
    (hrest : StepsLoad (some block.calls) rest) :
    StepsLoad previous (block.steps ++ rest) ∧
      s.loadedSteps run previous (block.steps ++ rest)
        = block.trace s run.threadId ++ s.loadedSteps run (some block.calls) rest := by
  have hstatus' : block.calls.status = .completed ∨ block.calls.status = .inProgress :=
    hstatus.imp_right And.left
  unfold Block.steps
  rcases hmessage : block.message with - | step
  · have htext : LooksBack s run previous (block.text s run.threadId) := by
      rwa [Block.text, hmessage]
    refine ⟨⟨fun _ => stepLoads_calls h hstatus hback, hrest⟩, ?_⟩
    show s.loadedStep run previous block.calls ++ _ = _
    rw [loadedStep_calls h hstatus' htext]
    rfl
  · have hback := @looksBack_message run s _ h _ hmessage
    obtain ⟨htype, -⟩ := h.message step hmessage
    refine ⟨⟨fun hcalls => ?_, fun _ => stepLoads_calls h hstatus hback, hrest⟩, ?_⟩
    · rw [htype] at hcalls
      simp at hcalls
    · show s.loadedStep run previous step ++ (s.loadedStep run (some step) block.calls ++ _) = _
      rw [loadedStep_calls h hstatus' hback, Store.loadedStep, if_neg (by simp [htype])]
      rfl

/-- **Blocks are loaded one by one.** -/
theorem load_blocks {blocks : List Block} (h : WellFormedBlocks blocks)
    {previous : Option RunStepObject} (hback : LooksBack s run previous "") :
    StepsLoad previous (blocks.flatMap Block.steps) ∧
      s.loadedSteps run previous (blocks.flatMap Block.steps)
        = blocks.flatMap (Block.trace s run.threadId) := by
  induction blocks generalizing previous with
  | nil => exact ⟨trivial, rfl⟩
  | cons block blocks ih =>
      have hblock := h.wellFormed block List.mem_cons_self
      rcases blocks with - | ⟨next, blocks⟩
      · -- the last block may be in progress
        have hload := @load_block run s _ hblock []
          ((h.last block rfl).imp_right fun hstatus => ⟨hstatus, rfl⟩) _ hback trivial
        simpa [Store.loadedSteps] using hload
      · have hrest : WellFormedBlocks (next :: blocks) :=
          { wellFormed := fun b hb => h.wellFormed b (List.mem_cons_of_mem _ hb)
            completed := fun b hb => h.completed b (List.mem_cons_of_mem _ hb)
            last := fun b hb => h.last b (by rwa [List.getLast?_cons_cons]) }
        obtain ⟨hloads, hsteps⟩ := ih hrest (looksBack_calls hblock)
        have hload := load_block hblock (.inl (h.completed block List.mem_cons_self)) hback hloads
        rw [hsteps] at hload
        exact hload

/-- There is an input when one of the twenty newest messages is a user's. -/
theorem hasInput_iff {threadId : String} (hthread : threadId ≠ "")
    (hordered : Ordered (·.id) (·.createdAt) (s.messagesOf threadId))
    (hcontent : ∀ message ∈ s.messagesOf threadId, message.role = .user → message.content ≠ []) :
    (∃ content, s.HasInput threadId content) ↔
      ∃ message ∈ (arrange (·.createdAt) true (s.messagesOf threadId)).take 20,
        message.role = .user := by
  have hfound := getLatestUserMessageObject_eq s hthread hordered
  constructor
  · rintro ⟨content, message, hmessage, -⟩
    -- the message that was found is a user message of the page
    have hfind := Except.ok.inj (Prod.mk.inj (hfound.symm.trans hmessage)).1
    have hrole := List.find?_some hfind
    exact ⟨message, List.mem_of_find?_eq_some hfind, of_decide_eq_true hrole⟩
  · rintro ⟨message, hmem, huser⟩
    obtain ⟨latest, hlatest⟩ := Option.isSome_iff_exists.mp
      ((List.find?_isSome (p := fun message : MessageObject => message.role = .user)).mpr
        ⟨message, hmem, decide_eq_true huser⟩)
    have hrole := List.find?_some hlatest
    -- the message that is found may be another one, but it has content too
    have hlatestMem : latest ∈ s.messagesOf threadId :=
      mem_arrange.mp (List.mem_of_mem_take (List.mem_of_find?_eq_some hlatest))
    obtain ⟨content, rest, hhead⟩ := List.exists_cons_of_ne_nil
      (hcontent latest hlatestMem (of_decide_eq_true hrole))
    refine ⟨content, latest, ?_, by rw [hhead, List.head?_cons]⟩
    rw [hfound, hlatest]

end Blocks

/-- **Loading a run of blocks.**  For a queued run whose steps are blocks as
`OnAgentContinuation` writes them, all completed but possibly the last, the loader
returns a state whose previous steps are the traces of the blocks, in the order of
creation, if and only if one of the twenty newest messages of the thread is a user's. -/
theorem loadAgentState_blocks_iff (config : HandlerConfig) (outside : Outside) (run : RunObject)
    (s : Store) (blocks : List Block) (hqueued : run.status = .queued)
    (hthread : isBlankString run.threadId = false) (hid : isBlankString run.id = false)
    (hblocks : WellFormedBlocks blocks)
    (hsteps : Ordered (·.id) (·.createdAt) (s.stepsOf run.threadId run.id))
    (hstored : arrange (·.createdAt) false (s.stepsOf run.threadId run.id)
      = blocks.flatMap Block.steps)
    (hmessages : Ordered (·.id) (·.createdAt) (s.messagesOf run.threadId))
    (hcontent : ∀ message ∈ s.messagesOf run.threadId,
      message.role = .user → message.content ≠ []) :
    (∃ state, (loadAgentStateFromRun run).run (Call.exec config outside) s
          = (.ok (some state), s) ∧
        state.previousSteps = blocks.flatMap (Block.trace s run.threadId))
      ↔ ∃ message ∈ (arrange (·.createdAt) true (s.messagesOf run.threadId)).take 20,
          message.role = .user := by
  have hthread := ne_empty_of_not_blank hthread
  have hlist := listAllSteps_eq s hthread (ne_empty_of_not_blank hid) hsteps
  rw [hstored] at hlist
  obtain ⟨hloads, htraces⟩ := load_blocks hblocks (@looksBack_none run s)
  refine Iff.trans ?_ (hasInput_iff hthread hmessages hcontent)
  constructor
  · rintro ⟨state, hstate, -⟩
    exact ((loadAgentState_isSome_iff hqueued hthread hlist).mp ⟨state, hstate⟩).1
  · rintro ⟨content, hinput⟩
    exact ⟨s.loadedState run content _, loadAgentState_run hqueued hthread hinput hlist hloads,
      htraces⟩

/-- A run that waits for the output of one of its calls. -/
def resumedRun : RunObject :=
  { id := "run_1", createdAt := 2, threadId := "thread_1", status := .queued }

/-- A function call of a step. -/
def storedCall (id name arguments output : String) : ToolCallDetail :=
  { id := id
    type := .function
    function := some { name := name, arguments := arguments, output := output } }

/-- A step of tool calls. -/
def storedCalls (id : String) (createdAt : Nat) (status : RunStepStatus)
    (calls : List ToolCallDetail) : RunStepObject :=
  { id := id
    createdAt := createdAt
    threadId := "thread_1"
    runId := "run_1"
    type := .toolCalls
    status := status
    stepDetails := { toolCalls := calls } }

/-- A block with a message and a completed call. -/
def completedBlock : Block where
  message := some { messageStep resumedRun "msg_2" with id := "run_step_1", createdAt := 4 }
  calls := storedCalls "run_step_2" 5 .completed [storedCall "call_1" "add" "[1, 2]" "3"]

/-- A block without a message, one of whose two calls has an output. -/
def pausedBlock : Block where
  message := none
  calls := storedCalls "run_step_3" 6 .inProgress
    [storedCall "call_2" "add" "[3, 4]" "7", storedCall "call_3" "ask" "[]" ""]

/-- The question of the user. -/
def questionMessage : MessageObject :=
  { id := "msg_1"
    createdAt := 1
    threadId := "thread_1"
    role := .user
    content := [{ type := .text, textValue := "1 + 2 + 4?" }] }

/-- A thread with a question of its user. -/
def questionStore : Store where
  assistants := { rows := [{ id := "assistant_1" }], nodup := by decide, valid := by decide }
  threads := { rows := [{ id := "thread_1" }], nodup := by decide, valid := by decide }
  messages := { rows := [questionMessage], nodup := by decide, valid := by decide }

/-- A message of the assistant. -/
def answerMessage (id : String) (createdAt : Nat) : MessageObject :=
  { id := id
    createdAt := createdAt
    threadId := "thread_1"
    role := .assistant
    content := [{ type := .text, textValue := "Let me add." }] }

/-- The store of the two blocks. -/
def twoBlocks : Store where
  messages :=
    { rows := [questionMessage, answerMessage "msg_2" 3]
      nodup := by decide
      valid := by decide }
  runs := { rows := [resumedRun], nodup := by decide, valid := by decide }
  runSteps :=
    { rows := completedBlock.steps ++ pausedBlock.steps
      nodup := by decide
      valid := by decide }

theorem wellFormed_completedBlock : completedBlock.WellFormed where
  message := by
    rintro _ ⟨⟩
    decide
  type := rfl
  calls := by decide
  functions := by decide

theorem wellFormed_pausedBlock : pausedBlock.WellFormed where
  message := by
    rintro _ ⟨⟩
  type := rfl
  calls := by decide
  functions := by decide

theorem wellFormed_twoBlocks : WellFormedBlocks [completedBlock, pausedBlock] where
  wellFormed block hblock := by
    rcases List.mem_pair.mp hblock with rfl | rfl
    · exact wellFormed_completedBlock
    · exact wellFormed_pausedBlock
  completed := by decide
  last := by
    rintro _ ⟨⟩
    exact .inr rfl

/-- The two blocks are loaded back: the calls of the second wait for one more output. -/
theorem loadAgentState_two_blocks :
    ∃ state, (loadAgentStateFromRun resumedRun).run (Call.exec {} {}) twoBlocks
        = (.ok (some state), twoBlocks) ∧
      state.previousSteps = [completedBlock, pausedBlock].flatMap
        (Block.trace twoBlocks "thread_1") :=
  (loadAgentState_blocks_iff {} {} resumedRun twoBlocks [completedBlock, pausedBlock] rfl
    (by decide) (by decide) wellFormed_twoBlocks ⟨by decide, by decide⟩ (by decide)
    ⟨by decide, by decide⟩ (by decide)).mpr (by decide)

/-- A long conversation: the question, and twenty messages of the assistant after it. -/
def longThread : Store where
  messages :=
    { rows := questionMessage :: (List.range 20).map fun i =>
        answerMessage ("msg_" ++ String.ofList (List.replicate (i + 2) 'i')) (i + 2)
      nodup := by decide +kernel
      valid := by decide +kernel }
  runs := { rows := [resumedRun], nodup := by decide, valid := by decide }
  runSteps :=
    { rows := pausedBlock.steps
      nodup := by decide
      valid := by decide }

/-- A well formed block is not loaded when the user's message is not among the twenty
newest of the thread. -/
theorem loadAgentState_loses_question :
    WellFormedBlocks [pausedBlock] ∧
      longThread.stepsOf "thread_1" "run_1" = pausedBlock.steps ∧
      questionMessage ∈ longThread.messagesOf "thread_1" ∧
      ((loadAgentStateFromRun resumedRun).run (Call.exec {} {}) longThread).1 = .ok none := by
  refine ⟨⟨?_, by decide, ?_⟩, by decide, by decide, by decide +kernel⟩
  · intro block hblock
    obtain rfl := List.mem_singleton.mp hblock
    exact wellFormed_pausedBlock
  · rintro _ ⟨⟩
    exact .inr rfl

end Instinct
