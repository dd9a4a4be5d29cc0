/-
Instinct/PlanRuns.lean

Whole runs of the `LLMCompilerAgentExecutor`, with everything that its planner,
worker and joiner are asked and what they answer.

An `Environment` answers the three parts, and completes a pause by what the user
submits.  `round` is one turn of the loop of `Stream`; `advanceRun` also resumes a
paused run.  The log of a run holds the calls in order, each with its answer.

One round asks the planner at most once, and, but for the first round, only
right after a joiner that wants a new plan (`RoundCalls`).  Nothing else bounds
how often the planner is asked: `max_replan` is not read anywhere, so the bound
holds exactly while the joiner asks for at most that many new plans
(`plans_le_iff`).
-/
import Instinct.TaskGraphs
import Mathlib.Logic.Function.Iterate

namespace Instinct

open Effects

/-! ### Environments -/

/-- The calls that the executor makes to its parts. -/
inductive PartCall
  | plan (state : AgentState)
  | work (thought : AgentThought)
  | join (graph : LLMCompilerTaskGraph)

/-- What the parts answer. -/
def PartCall.Answer : PartCall → Type
  | .plan _ => AgentThought
  | .work _ => AgentObservation
  | .join _ => LLMCompilerJoinerResult

/-- The parts of the executor, with `NoStopPredicate`. -/
def executorParts : AgentParts PartCall.Answer where
  shouldEarlyStop _ step := pure (false, step)
  planner state := Program.perform (PartCall.plan state)
  worker thought := Program.perform (PartCall.work thought)
  joiner graph := Program.perform (PartCall.join graph)

/-- Planner, worker, joiner and user. -/
structure Environment (σ : Type) where
  answer : (call : PartCall) → Action Exn σ call.Answer
  /-- The tool messages that the user submits for a pause. -/
  submit : AgentPause → σ → List Message × σ

/-- What is logged of a run. -/
inductive Event
  | called (call : PartCall) (answer : Except Exn call.Answer)
  | submitted (messages : List Message)

section Runs

variable {σ : Type}

/-- The environment that also logs its calls. -/
def Environment.logged (env : Environment σ) (call : PartCall) :
    Action Exn (σ × List Event) call.Answer := fun s =>
  ((env.answer call s.1).1, (env.answer call s.1).2, s.2 ++ [.called call (env.answer call s.1).1])

inductive Progress
  | going
  | paused
  | ended
  | failed (e : Exn)
  deriving DecidableEq

/-- Whether the loop goes on behind a step. -/
def AgentStep.progress : AgentStep → Progress
  | .observation _ => .going
  | .thought (.continuation _) => .going
  | .thought (.pause _) => .paused
  | _ => .ended

/-- A run of the executor: its state and what was logged. -/
structure PlanRun (σ : Type) where
  progress : Progress := .going
  state : AgentState
  memory : σ
  log : List Event := []

/-- The run behind a call of `ResolveNextStep`. -/
def afterStep (state : AgentState) :
    Except Exn (AgentStep × AgentState) × σ × List Event → PlanRun σ
  | (.ok (step, state'), memory, log) => ⟨step.progress, state', memory, log⟩
  | (.error e, memory, log) => ⟨.failed e, state, memory, log⟩

/-- One turn of the loop of `Stream`. -/
def round (env : Environment σ) (run : PlanRun σ) : PlanRun σ :=
  afterStep run.state
    ((resolveNextStep .llmCompiler executorParts run.state).run env.logged (run.memory, run.log))

/-- The loop of `Stream`, which ends with a pause. -/
def streamRound (env : Environment σ) (run : PlanRun σ) : PlanRun σ :=
  if run.progress = .going then round env run else run

/-- The user submits messages for the pause that the run ends with. -/
def resume (env : Environment σ) (run : PlanRun σ) : PlanRun σ :=
  match run.state.previousSteps.getLast? with
  | some (.thought (.pause pause)) =>
      { progress := .going
        state := { run.state with
          previousSteps := run.state.previousSteps.dropLast ++
            [.thought (.pause { pause with
              completed := pause.completed ++ (env.submit pause run.memory).1 })] }
        memory := (env.submit pause run.memory).2
        log := run.log ++ [.submitted (env.submit pause run.memory).1] }
  | _ => run

/-- The run goes on, if it can, after a pause too. -/
def advanceRun (env : Environment σ) (run : PlanRun σ) : PlanRun σ :=
  if run.progress = .paused then resume env run else streamRound env run

/-- `InitializeState` -/
def initialRun (input : PromptValue) (s : σ) : PlanRun σ where
  state := { input := input }
  memory := s

/-! ### What one round does -/

section Round

variable {env : Environment σ} {run : PlanRun σ}

section Calls

variable {α : Type} {s s' : σ} {log : List Event} {e : Exn}

/-- A call goes into the log with its answer. -/
theorem run_logged_ok {call : PartCall} {answer : call.Answer}
    {f : call.Answer → Program Exn PartCall.Answer α} (h : env.answer call s = (.ok answer, s')) :
    (Program.perform call >>= f).run env.logged (s, log)
      = (f answer).run env.logged (s', log ++ [.called call (.ok answer)]) := by
  rw [Program.bind_eq, Program.run_perform_bind, Environment.logged, h]

theorem run_logged_error {call : PartCall} {f : call.Answer → Program Exn PartCall.Answer α}
    (h : env.answer call s = (.error e, s')) :
    (Program.perform call >>= f).run env.logged (s, log)
      = (.error e, s', log ++ [.called call (.error e)]) := by
  rw [Program.bind_eq, Program.run_perform_bind, Environment.logged, h]

end Calls

theorem resolveNextStep_executorParts (state : AgentState) :
    resolveNextStep .llmCompiler executorParts state
      = llmCompilerStep executorParts state .unset := rfl

/-- The initial plan. -/
theorem round_initial {s' : σ} {thought : AgentThought} (hsteps : run.state.previousSteps = [])
    (hplan : env.answer (.plan run.state) run.memory = (.ok thought, s')) :
    round env run = ⟨(AgentStep.thought thought).progress,
      run.state.addPreviousStep (.thought thought), s',
      run.log ++ [.called (.plan run.state) (.ok thought)]⟩ := by
  rw [round, resolveNextStep_executorParts, llmCompilerStep, hsteps]
  exact congrArg (afterStep run.state) (run_logged_ok hplan)

theorem round_initial_error {s' : σ} {e : Exn} (hsteps : run.state.previousSteps = [])
    (hplan : env.answer (.plan run.state) run.memory = (.error e, s')) :
    round env run = ⟨.failed e, run.state, s',
      run.log ++ [.called (.plan run.state) (.error e)]⟩ := by
  rw [round, resolveNextStep_executorParts, llmCompilerStep, hsteps]
  exact congrArg (afterStep run.state) (run_logged_error hplan)

/-- The step that the worker's answer to a request makes. -/
def workerStep (request : Message) (graph : LLMCompilerTaskGraph)
    (observation : AgentObservation) : AgentStep :=
  if countCompleted request.toolCalls observation.toolMessages ≠ request.toolCalls.length then
    .thought (.pause
      { toolCallMessage := some request
        completed := observation.toolMessages
        custom := .taskGraph (graph.setResults observation.toolMessages) })
  else
    .observation { observation with
      custom := .taskGraph (graph.setResults observation.toolMessages) }

theorem workerStep_of_complete {request : Message} {observation : AgentObservation}
    (h : countCompleted request.toolCalls observation.toolMessages = request.toolCalls.length)
    (graph : LLMCompilerTaskGraph) : workerStep request graph observation
      = .observation { observation with
          custom := .taskGraph (graph.setResults observation.toolMessages) } :=
  if_neg (not_not.mpr h)

/-- A continuation is handed to the worker. -/
theorem round_continuation {s' : σ} {request : Message} {graph : LLMCompilerTaskGraph}
    {observation : AgentObservation}
    (hlast : run.state.previousSteps.getLast? = some (.thought (.continuation
      { toolCallMessage := some request, custom := .taskGraph graph })))
    (hcalls : request.toolCalls ≠ []) (htasks : 1 < graph.tasks.length)
    (hwork : env.answer (.work (.continuation
      { toolCallMessage := some request, custom := .taskGraph graph })) run.memory
        = (.ok observation, s')) :
    round env run = ⟨(workerStep request graph observation).progress,
      run.state.addPreviousStep (workerStep request graph observation), s',
      run.log ++ [.called (.work (.continuation
        { toolCallMessage := some request, custom := .taskGraph graph })) (.ok observation)]⟩ := by
  have hassert : ∀ message, assertTrue (1 < graph.tasks.length) message = .ok () :=
    fun _ => assertTrue_of htasks
  have hpos : 0 < request.toolCalls.length := List.length_pos_iff.mpr hcalls
  rw [round, resolveNextStep_executorParts, llmCompilerStep, hlast]
  simp only [hpos, if_true, Any.taskGraph?, hassert]
  refine (congrArg (afterStep run.state) (run_logged_ok hwork)).trans ?_
  rw [workerStep]
  by_cases hcount : countCompleted request.toolCalls observation.toolMessages
      ≠ request.toolCalls.length
  · simp only [if_pos hcount]
    rfl
  · simp only [if_neg hcount]
    rfl

/-- Nothing is asked for: the state is illegal. -/
theorem round_empty {request : Message} {custom : Any}
    (hlast : run.state.previousSteps.getLast? = some (.thought (.continuation
      { toolCallMessage := some request, custom := custom })))
    (hcalls : request.toolCalls = []) :
    round env run = { run with progress := .failed (illegalState "LLMCompilerAgentExectuor") } := by
  rw [round, resolveNextStep_executorParts, llmCompilerStep, hlast]
  simp [hcalls, afterStep]

/-- A graph of one task fails the assertion. -/
theorem round_single {request : Message} {graph : LLMCompilerTaskGraph}
    (hlast : run.state.previousSteps.getLast? = some (.thought (.continuation
      { toolCallMessage := some request, custom := .taskGraph graph })))
    (hcalls : request.toolCalls ≠ []) (htasks : ¬ 1 < graph.tasks.length) :
    ∃ e, round env run = { run with progress := .failed e } := by
  have hpos : 0 < request.toolCalls.length := List.length_pos_iff.mpr hcalls
  obtain ⟨e, he⟩ : ∃ e, assertTrue (1 < graph.tasks.length)
      "There should be more than one task in LLMCompilerTaskGraph" = .error e := by
    rw [assertTrue, if_neg (by simpa using htasks)]
    exact ⟨_, rfl⟩
  refine ⟨e, ?_⟩
  rw [round, resolveNextStep_executorParts, llmCompilerStep, hlast]
  simp [hpos, Any.taskGraph?, he, afterStep]

/-- A completed pause is lifted to an observation. -/
theorem round_pause {request : Message} {graph : LLMCompilerTaskGraph} {completed : List Message}
    (hlast : run.state.previousSteps.getLast? = some (.thought (.pause
      { toolCallMessage := some request
        completed := completed
        custom := .taskGraph graph })))
    (hlength : request.toolCalls.length = completed.length) :
    round env run = ⟨.going, run.state.addPreviousStep (.observation
      { toolMessages := completed, custom := .taskGraph (graph.setResults completed) }),
      run.memory, run.log⟩ := by
  rw [round, resolveNextStep_executorParts, llmCompilerStep, hlast]
  simp only [Any.taskGraph?, hlength, if_true]
  rfl

/-- While tasks can start, they are asked for. -/
theorem round_next {observation : AgentObservation} {graph : LLMCompilerTaskGraph}
    {request : Message}
    (hlast : run.state.previousSteps.getLast? = some (.observation observation))
    (hgraph : observation.custom = .taskGraph graph) (hnext : findNextTasks graph ≠ [])
    (hrequest : buildToolCallRequest graph (findNextTasks graph) {} = .ok request) :
    round env run = ⟨.going, run.state.addPreviousStep (.thought (.continuation
      { toolCallMessage := some request, custom := .taskGraph graph })),
      run.memory, run.log⟩ := by
  have hmessage : (AgentStep.unset.mutableContinuation.toolCallMessage.getD {} : Message) = {} :=
    rfl
  rw [round, resolveNextStep_executorParts, llmCompilerStep, hlast]
  simp only [llmCompilerFromObservation, hgraph, Any.taskGraph?, ne_eq, hnext, not_false_eq_true,
    if_true, hmessage, hrequest]
  rfl

/-- Where no task can start, the joiner is asked for its answer. -/
theorem round_join {observation : AgentObservation} {graph : LLMCompilerTaskGraph} {s' : σ}
    {result : LLMCompilerJoinerResult}
    (hlast : run.state.previousSteps.getLast? = some (.observation observation))
    (hgraph : observation.custom = .taskGraph graph) (hnext : findNextTasks graph = [])
    (hjoin : env.answer (.join (graph.asked run.state)) run.memory = (.ok result, s'))
    (hreplan : result.isReplan = false) :
    ∃ state, round env run = ⟨.ended, state, s',
      run.log ++ [.called (.join (graph.asked run.state)) (.ok result)]⟩ := by
  rw [round, resolveNextStep_executorParts, llmCompilerStep, hlast]
  simp only [llmCompilerFromObservation, hgraph, Any.taskGraph?, ne_eq, hnext, not_true_eq_false,
    if_false]
  refine Exists.imp
    (fun _ h => (congrArg (afterStep run.state) (run_logged_ok hjoin)).trans h) ?_
  simp only [hreplan, Bool.false_eq_true, if_false]
  exact ⟨_, rfl⟩

/-- The state with the answer of the joiner in its last observation. -/
def AgentState.joined (state : AgentState) (observation : AgentObservation)
    (graph : LLMCompilerTaskGraph) (result : LLMCompilerJoinerResult) : AgentState :=
  state.packGraph observation { graph.asked state with joinerResult := some result }

/-- A joiner that wants a new plan gets one. -/
theorem round_replan {observation : AgentObservation} {graph : LLMCompilerTaskGraph}
    {s' s'' : σ} {result : LLMCompilerJoinerResult} {continuation : AgentContinuation}
    (hlast : run.state.previousSteps.getLast? = some (.observation observation))
    (hgraph : observation.custom = .taskGraph graph) (hnext : findNextTasks graph = [])
    (hjoin : env.answer (.join (graph.asked run.state)) run.memory = (.ok result, s'))
    (hreplan : result.isReplan = true)
    (hplan : env.answer (.plan (run.state.joined observation graph result)) s'
      = (.ok (.continuation continuation), s''))
    (hcustom : continuation.custom.taskGraph?.isSome = true) :
    round env run = ⟨.going, (run.state.joined observation graph result).addPreviousStep
        (.thought (.continuation continuation)), s'',
      run.log ++ [.called (.join (graph.asked run.state)) (.ok result)] ++
        [.called (.plan (run.state.joined observation graph result))
          (.ok (.continuation continuation))]⟩ := by
  have hsome : observation.custom.taskGraph? = some graph := taskGraph?_eq_some.mpr hgraph
  have hassert : ∀ message, assertTrue
      ((AgentStep.thought (.continuation continuation)).mutableContinuation.custom.taskGraph?.isSome)
        message = .ok () := fun _ => assertTrue_of hcustom
  rw [round, resolveNextStep_executorParts, llmCompilerStep, hlast]
  simp only [llmCompilerFromObservation, hsome, ne_eq, hnext, not_true_eq_false, if_false]
  refine (congrArg (afterStep run.state) (run_logged_ok hjoin)).trans ?_
  simp only [hreplan, if_true]
  refine (congrArg (afterStep run.state) (run_logged_ok hplan)).trans ?_
  simp only [hassert]
  rfl

end Round

/-! ### How often the planner is asked -/

def Event.isPlan : Event → Bool
  | .called (.plan _) _ => true
  | _ => false

/-- The joiner asks for a new plan. -/
def Event.asksReplan : Event → Bool
  | .called (.join _) (.ok result) => LLMCompilerJoinerResult.isReplan result
  | _ => false

/-- How often the planner was asked for a plan. -/
def PlanRun.plans (run : PlanRun σ) : Nat := run.log.countP Event.isPlan

/-- How often the joiner asked for a new plan. -/
def PlanRun.replans (run : PlanRun σ) : Nat := run.log.countP Event.asksReplan

/-- As many plans as new plans that were asked for came to the log. -/
def Balanced (log log' : List Event) : Prop :=
  log'.countP Event.isPlan + log.countP Event.asksReplan
    = log.countP Event.isPlan + log'.countP Event.asksReplan

section Balanced

variable {env : Environment σ} {s : σ} {log log' : List Event}

theorem balanced_refl (log : List Event) : Balanced log log := rfl

theorem balanced_append {events : List Event}
    (h : events.countP Event.isPlan = events.countP Event.asksReplan) :
    Balanced log (log ++ events) := by
  rw [Balanced, List.countP_append, List.countP_append, h]
  omega

/-- A call, by what it answers. -/
theorem balanced_call {α : Type} {call : PartCall}
    {f : call.Answer → Program Exn PartCall.Answer α}
    (herror : ∀ e, Balanced log (log' ++ [.called call (.error e)]))
    (hok : ∀ answer s', Balanced log
      ((f answer).run env.logged (s', log' ++ [.called call (.ok answer)])).2.2) :
    Balanced log ((Program.perform call >>= f).run env.logged (s, log')).2.2 := by
  rcases h : env.answer call s with ⟨e | answer, s'⟩
  · rw [run_logged_error h]
    exact herror e
  · rw [run_logged_ok h]
    exact hok answer s'

/-- What is computed without a call leaves the log alone. -/
theorem balanced_liftM {α β : Type} {r : Except Exn α} {f : α → Program Exn PartCall.Answer β}
    (herror : Balanced log log') (hok : ∀ a, Balanced log ((f a).run env.logged (s, log')).2.2) :
    Balanced log (((liftM r : Program Exn PartCall.Answer α) >>= f).run env.logged
      (s, log')).2.2 := by
  cases r with
  | ok a => exact hok a
  | error e => exact herror

/-- Behind the first step, every plan follows a joiner that asks for it. -/
theorem balanced_llmCompilerStep {state : AgentState} {step : AgentStep}
    (hsteps : state.previousSteps ≠ []) : Balanced log
      ((llmCompilerStep executorParts state step).run env.logged (s, log)).2.2 := by
  unfold llmCompilerStep
  split
  · rename_i hnone
    exact absurd (List.getLast?_eq_none_iff.mp hnone) hsteps
  · unfold llmCompilerFromObservation
    split
    · exact balanced_refl log
    · split
      · exact balanced_liftM (balanced_refl log) fun _ => balanced_refl log
      · refine balanced_call (fun e => balanced_append rfl) fun result s' => ?_
        split
        · -- the planner is asked for the new plan, and may throw
          rename_i hreplan
          have hboth : ∀ {graph state} (answer : Except Exn (PartCall.plan state).Answer),
              Balanced log (log ++ [.called (.join graph) (.ok result)] ++
                [.called (.plan state) answer]) := by
            intro graph state answer
            rw [List.append_assoc]
            refine balanced_append ?_
            simp [Event.isPlan, Event.asksReplan, hreplan]
          refine balanced_call (fun e => hboth _) fun thought s'' => ?_
          exact balanced_liftM (hboth _) fun _ => hboth _
        · rename_i hreplan
          refine balanced_append ?_
          simp [Event.isPlan, Event.asksReplan, hreplan]
  · split
    · exact balanced_refl log
    · split
      · exact balanced_refl log
      · exact balanced_refl log
  · split
    · split
      · exact balanced_refl log
      · refine balanced_liftM (balanced_refl log) fun _ => ?_
        refine balanced_call (fun e => balanced_append rfl) fun observation s' => ?_
        show Balanced log (Program.run env.logged (if _ then _ else _) _).2.2
        split
        · exact balanced_append rfl
        · exact balanced_append rfl
    · exact balanced_refl log
  · exact balanced_refl log

/-- What the executor returns has a last step. -/
theorem previousSteps_llmCompilerStep {state : AgentState} {step : AgentStep}
    {next : AgentStep × AgentState} {rest : σ × List Event}
    (h : (llmCompilerStep executorParts state step).run env.logged (s, log) = (.ok next, rest)) :
    next.2.previousSteps ≠ [] := by
  have happends := (Program.returns_run
    (llmCompilerStep_appends fun _ => Program.returns_true _) h).1
  rcases happends with happends | ⟨_, _, _, _, -, -, -, happends⟩
  · rw [Appends] at happends
    simp [happends]
  · simp [happends]

/-- Either nothing has been done, or one plan more was made than new plans were asked for. -/
def PlanRun.Counted (run : PlanRun σ) : Prop :=
  (run.progress = .going ∧ run.state.previousSteps = [] ∧ run.log = []) ∨
    ((∀ e, run.progress ≠ .failed e) → run.state.previousSteps ≠ []) ∧
      run.plans = 1 + run.replans

theorem counted_round {run : PlanRun σ} (h : run.Counted) (hgoing : run.progress = .going) :
    (round env run).Counted := by
  rcases h with ⟨-, hsteps, hlog⟩ | ⟨hsteps, hplans⟩
  · -- the first round: the planner is asked, whatever it answers
    rcases hplan : env.answer (.plan run.state) run.memory with ⟨e | thought, s'⟩
    · rw [round_initial_error hsteps hplan]
      refine .inr ⟨fun hne => absurd rfl (hne e), ?_⟩
      simp [PlanRun.plans, PlanRun.replans, hlog, Event.isPlan, Event.asksReplan]
    · rw [round_initial hsteps hplan]
      refine .inr ⟨fun _ => ?_, ?_⟩
      · simp [AgentState.addPreviousStep]
      · simp [PlanRun.plans, PlanRun.replans, hlog, Event.isPlan, Event.asksReplan]
  · have hsome := hsteps fun e he => by rw [hgoing] at he; cases he
    have hbalanced : Balanced run.log ((llmCompilerStep executorParts run.state .unset).run
      env.logged (run.memory, run.log)).2.2 := balanced_llmCompilerStep hsome
    rw [round, resolveNextStep_executorParts]
    rcases hrun : (llmCompilerStep executorParts run.state .unset).run env.logged
      (run.memory, run.log) with ⟨e | next, s', log'⟩
    · rw [hrun] at hbalanced
      refine .inr ⟨fun hne => absurd rfl (hne e), ?_⟩
      simp only [Balanced] at hbalanced
      simp only [PlanRun.plans, PlanRun.replans, afterStep] at hplans ⊢
      omega
    · rw [hrun] at hbalanced
      refine .inr ⟨fun _ => previousSteps_llmCompilerStep hrun, ?_⟩
      simp only [Balanced] at hbalanced
      simp only [PlanRun.plans, PlanRun.replans, afterStep] at hplans ⊢
      omega

/-- Submitted messages ask nobody for a plan. -/
theorem counted_resume {run : PlanRun σ} (h : run.Counted) (hpaused : run.progress = .paused) :
    (resume env run).Counted := by
  rcases h with ⟨hgoing, -, -⟩ | ⟨hsteps, hplans⟩
  · rw [hgoing] at hpaused
    cases hpaused
  · unfold resume
    split
    · refine .inr ⟨fun _ => by simp, ?_⟩
      simp only [PlanRun.plans, PlanRun.replans] at hplans ⊢
      rw [List.countP_append, List.countP_append]
      exact hplans
    · exact .inr ⟨hsteps, hplans⟩

theorem counted_advance {run : PlanRun σ} (h : run.Counted) : (advanceRun env run).Counted := by
  unfold advanceRun
  split
  · rename_i hpaused
    exact counted_resume h hpaused
  · unfold streamRound
    split
    · rename_i hgoing
      exact counted_round h hgoing
    · exact h

/-- In every run one plan more is made than new plans are asked for. -/
theorem counted_iterate (env : Environment σ) (input : PromptValue) (s : σ) (n : Nat) :
    ((advanceRun env)^[n] (initialRun input s)).Counted := by
  induction n with
  | zero => exact .inl ⟨rfl, rfl, rfl⟩
  | succ n ih =>
      rw [Function.iterate_succ_apply']
      exact counted_advance ih

end Balanced

/-- **The bound on the plans is the joiner's.**  In every run from the initial state, also
across pauses, and for every `max_replan` `m`, the planner is asked at most `1 + m` times
exactly as long as the joiner asks for at most `m` new plans. -/
theorem plans_le_iff (env : Environment σ) (input : PromptValue) (s : σ) (m n : Nat) :
    ((advanceRun env)^[n] (initialRun input s)).plans ≤ 1 + m ↔
      ((advanceRun env)^[n] (initialRun input s)).replans ≤ m := by
  rcases counted_iterate env input s n with ⟨-, -, hlog⟩ | ⟨-, hplans⟩
  · rw [PlanRun.plans, PlanRun.replans, hlog]
    exact ⟨fun _ => Nat.zero_le _, fun _ => Nat.zero_le _⟩
  · omega

end Runs

/-! ### A joiner that always asks for a new plan -/

/-- One search, and the `join`. -/
def oneSearch : LLMCompilerTaskGraph where
  tasks := [
    { index := 1, toolCall := functionCall "call-1" "search" "" },
    { index := 2, toolCall := functionCall "call-2" "join" "", dependencies := [1] }]

def searchRequest : Message where
  toolCalls := firstCalls oneSearch.tasks

def searchContinuation : AgentContinuation where
  toolCallMessage := some searchRequest
  custom := .taskGraph oneSearch

def nothingFound : AgentObservation where
  toolMessages := [{ content := "nothing", role := "tool", toolCallId := "call-1" }]

/-- The same plan each time, and a joiner that never has enough. -/
def insatiable : Environment Unit where
  answer
    | .plan _ => pure (.continuation searchContinuation : AgentThought)
    | .work _ => pure nothingFound
    | .join _ => pure ({ isReplan := true } : LLMCompilerJoinerResult)
  submit _ s := ([], s)

def searchObserved : AgentObservation where
  toolMessages := nothingFound.toolMessages
  custom := .taskGraph (oneSearch.setResults nothingFound.toolMessages)

section Insatiable

variable {run : PlanRun Unit}

theorem insatiable_work (hgoing : run.progress = .going)
    (hlast : run.state.previousSteps.getLast?
      = some (.thought (.continuation searchContinuation))) :
    (advanceRun insatiable run).progress = .going ∧
      (advanceRun insatiable run).state.previousSteps.getLast?
        = some (.observation searchObserved) ∧
      (advanceRun insatiable run).plans = run.plans := by
  have hround : advanceRun insatiable run
      = ⟨(workerStep searchRequest oneSearch nothingFound).progress,
        run.state.addPreviousStep (workerStep searchRequest oneSearch nothingFound), (),
        run.log ++ [.called (.work (.continuation searchContinuation)) (.ok nothingFound)]⟩ := by
    rw [advanceRun, hgoing, if_neg nofun, streamRound, if_pos hgoing]
    exact round_continuation hlast (by decide) (by decide) rfl
  have hstep : workerStep searchRequest oneSearch nothingFound
      = .observation searchObserved := by decide
  rw [hround, hstep]
  refine ⟨rfl, List.getLast?_concat, ?_⟩
  simp [PlanRun.plans, Event.isPlan]

theorem insatiable_join (hgoing : run.progress = .going)
    (hlast : run.state.previousSteps.getLast? = some (.observation searchObserved)) :
    (advanceRun insatiable run).progress = .going ∧
      (advanceRun insatiable run).state.previousSteps.getLast?
        = some (.thought (.continuation searchContinuation)) ∧
      (advanceRun insatiable run).plans = run.plans + 1 := by
  have hnext : findNextTasks (oneSearch.setResults nothingFound.toolMessages) = [] := by
    decide
  have hround : round insatiable run = _ := round_replan hlast rfl hnext rfl rfl rfl rfl
  rw [advanceRun, hgoing, if_neg nofun, streamRound, if_pos hgoing, hround]
  refine ⟨rfl, List.getLast?_concat, ?_⟩
  simp [PlanRun.plans, Event.isPlan]

/-- Each time round there is one plan more. -/
theorem insatiable_cycles (m : Nat) :
    ∃ n, ((advanceRun insatiable)^[n] (initialRun .unset ())).progress = .going ∧
      ((advanceRun insatiable)^[n] (initialRun .unset ())).state.previousSteps.getLast?
        = some (.thought (.continuation searchContinuation)) ∧
      ((advanceRun insatiable)^[n] (initialRun .unset ())).plans = 1 + m := by
  induction m with
  | zero => exact ⟨1, rfl, rfl, rfl⟩
  | succ m ih =>
      obtain ⟨n, hgoing, hlast, hplans⟩ := ih
      obtain ⟨hgoing, hlast, hsame⟩ := insatiable_work hgoing hlast
      obtain ⟨hgoing, hlast, hnext⟩ := insatiable_join hgoing hlast
      rw [hsame, hplans] at hnext
      simp only [← Function.iterate_succ_apply'] at hgoing hlast hnext
      exact ⟨n + 1 + 1, hgoing, hlast, hnext⟩

end Insatiable

/-- The default `max_replan` is 6, and a joiner that always asks for a new plan gets more. -/
theorem plans_exceed_default :
    ∃ n, 1 + 6 < ((advanceRun insatiable)^[n] (initialRun .unset ())).plans := by
  obtain ⟨n, -, -, hplans⟩ := insatiable_cycles 7
  exact ⟨n, by omega⟩

end Instinct
