/-
Instinct/Agent.lean

The agent executors: `OpenAIToolAgentExecutor`, `LLMCompilerAgentExecutor` and
the loop `BaseAgentExecutor::Stream`.

An executor is built of four parts that make service calls: a stop predicate, a
planner, a worker and a joiner.  `resolveNextStep` asks the stop predicate and,
unless it fires, takes one step from the last step of the state.  `stream` takes
step after step and hands each new state to a consumer.

Once the stop predicate has let it pass, a step is appended to the state
(`openAIToolStep_appends`, `llmCompilerStep_appends`).  The second executor also
rewrites the custom data of the observation that it joins.  The run lemma
`stream_previousSteps` then says what every emitted state holds.
-/
import Mathlib.Algebra.GroupWithZero.Nat
import Instinct.Entities

namespace Instinct

open Effects

/-! ### `TaskGraphUtils` -/

/-- The task is the join of the plan. -/
def LLMCompilerTask.isJoin (task : LLMCompilerTask) : Bool :=
  task.toolCall.functionOrDefault.name = "join"

/-- `TaskGraphUtils::FindNextTasks`: the tasks without a result whose dependencies have one. -/
def findNextTasks (graph : LLMCompilerTaskGraph) : List Int :=
  let finished := (graph.tasks.filter fun task =>
    task.result.any fun result => isNotBlankString result.content).map (·.index)
  (graph.tasks.filter fun task =>
    task.toolCall.functionOrDefault.name ≠ "join" && !finished.contains task.index &&
      task.dependencies.all fun dependency => finished.contains dependency).map (·.index)

/-- A match of `\$\{?(\d)\}?` at the beginning of a text: the matched text and the digit. -/
def dependencyAt? : List Char → Option (List Char × Nat)
  | '$' :: '{' :: d :: rest =>
      if d.isDigit then
        some ('$' :: '{' :: d :: (if rest.head? = some '}' then ['}'] else []),
          d.toNat - '0'.toNat)
      else none
  | '$' :: d :: rest =>
      if d.isDigit then
        some ('$' :: d :: (if rest.head? = some '}' then ['}'] else []), d.toNat - '0'.toNat)
      else none
  | _ => none

/-- `StringUtils::MatchPattern` for `DEP_PATTERN`, from a place `skip` characters ahead. -/
def dependencyMatches : Nat → List Char → List (List Char × Nat)
  | _, [] => []
  | skip + 1, _ :: cs => dependencyMatches skip cs
  | 0, c :: cs =>
      match dependencyAt? (c :: cs) with
      | some found => found :: dependencyMatches (found.1.length - 1) cs
      | none => dependencyMatches 0 cs

/-- `args.replace(args.find(pattern), pattern.size(), replacement)`. -/
def replaceFirst (pattern replacement : List Char) : List Char → Option (List Char)
  | [] => none
  | c :: cs =>
      if pattern.isPrefixOf (c :: cs) then some (replacement ++ (c :: cs).drop pattern.length)
      else (replaceFirst pattern replacement cs).map (c :: ·)

/-- The task of an index.  The last of several tasks counts; an index that no task
has is given to the first task, as `id_index[index]` inserts a zero. -/
def taskOf (graph : LLMCompilerTaskGraph) (index : Int) : LLMCompilerTask :=
  (graph.tasks.reverse.find? fun task => task.index = index).getD (graph.tasks.headD {})

/-- Substitute the result of one dependency into the arguments of a task. -/
def substituteResult (graph : LLMCompilerTaskGraph) (args : List Char)
    (found : List Char × Nat) : Except Exn (List Char) :=
  let result := ((taskOf graph found.2).result.getD {}).content.toList
  match replaceFirst found.1 result args with
  | some args => .ok args
  | none => .error (.other "basic_string::replace")

/-- Substitute the results of all dependencies that the arguments of a task name. -/
def substituteResults (graph : LLMCompilerTaskGraph) (arguments : String) : Except Exn String := do
  let args ← (dependencyMatches 0 arguments.toList).foldlM (substituteResult graph)
    arguments.toList
  pure (String.ofList args)

/-- `TaskGraphUtils::BuildToolCallRequest`. -/
def buildToolCallRequest (graph : LLMCompilerTaskGraph) (nextTaskIds : List Int)
    (toolCallRequest : Message) : Except Exn Message :=
  nextTaskIds.foldlM (fun request id => do
    assertTrue (graph.tasks.any fun task => task.index = id)
      ("Assigned task id should exist in graph. id=" ++ toString id)
    let toolCall := (taskOf graph id).toolCall
    let function := toolCall.functionOrDefault
    let args ← substituteResults graph function.arguments
    pure { request with
      role := "assistant"
      toolCalls := request.toolCalls ++
        [{ toolCall with function := some { function with arguments := args } }] })
    toolCallRequest

/-- Store tool messages as the results of the tasks whose call they answer. -/
def LLMCompilerTaskGraph.setResults (graph : LLMCompilerTaskGraph) (messages : List Message) :
    LLMCompilerTaskGraph :=
  { graph with
    tasks := graph.tasks.map fun task =>
      messages.foldl (fun task message =>
        if message.toolCallId = task.toolCall.id then { task with result := some message }
        else task) task }

/-! ### The parts of a step under construction -/

/-- `step.mutable_thought()->mutable_continuation()`. -/
def AgentStep.mutableContinuation : AgentStep → AgentContinuation
  | .thought (.continuation value) => value
  | _ => {}

/-- `step.mutable_thought()->mutable_pause()`. -/
def AgentStep.mutablePause : AgentStep → AgentPause
  | .thought (.pause value) => value
  | _ => {}

/-- `step.mutable_thought()->mutable_finish()`. -/
def AgentStep.mutableFinish : AgentStep → AgentFinish
  | .thought (.finish value) => value
  | _ => {}

/-- `step.mutable_observation()`. -/
def AgentStep.mutableObservation : AgentStep → AgentObservation
  | .observation value => value
  | _ => {}

/-! ### Executors -/

/-- The parts an executor is built of.  The stop predicate may change the step under
construction, also when it does not fire. -/
structure AgentParts {Op : Type} (Res : Op → Type) where
  shouldEarlyStop : AgentState → AgentStep → Program Exn Res (Bool × AgentStep)
  planner : AgentState → Program Exn Res AgentThought
  worker : AgentThought → Program Exn Res AgentObservation
  joiner : LLMCompilerTaskGraph → Program Exn Res LLMCompilerJoinerResult

/-- Which executor `LLMObjectFactory::CreateAgentExecutor` builds. -/
inductive ExecutorKind
  | openAITool
  | llmCompiler
  deriving Repr, DecidableEq

section Executors

variable {Op : Type} {Res : Op → Type}

/-- `state.add_previous_steps()->CopyFrom(agent_step); return agent_step;` -/
def appendStep (state : AgentState) (step : AgentStep) : Program Exn Res (AgentStep × AgentState) :=
  pure (step, state.addPreviousStep step)

/-- Ask the planner for the next thought. -/
def plan (parts : AgentParts Res) (state : AgentState) :
    Program Exn Res (AgentStep × AgentState) := do
  let thought ← parts.planner state
  appendStep state (.thought thought)

/-- How many pairs of a call and a tool message that answers it there are. -/
def countCompleted (calls : List ToolCallObject) (messages : List Message) : Nat :=
  (calls.map fun call => messages.countP fun message => message.toolCallId = call.id).sum

def illegalState (executor : String) : Exn := .instinct ("IllegalState for " ++ executor)

/-- `OpenAIToolAgentExecutor::ResolveNextStep` behind its stop predicate. -/
def openAIToolStep (parts : AgentParts Res) (state : AgentState) (agentStep : AgentStep) :
    Program Exn Res (AgentStep × AgentState) :=
  match state.previousSteps.getLast? with
  | none => plan parts state
  | some (.observation _) => plan parts state
  | some (.thought (.pause { toolCallMessage := some message, completed, .. })) =>
      if message.toolCalls.length = completed.length then
        -- lift to observation
        appendStep state
          (.observation { agentStep.mutableObservation with toolMessages := completed })
      else .raise (illegalState "OpenAIToolAgentExecutor")
  | some (.thought (.continuation { toolCallMessage := some message, custom })) =>
      if 0 < message.toolCalls.length then do
        let observation ← parts.worker
          (.continuation { toolCallMessage := some message, custom := custom })
        if countCompleted message.toolCalls observation.toolMessages ≠ message.toolCalls.length
        then
          appendStep state (.thought (.pause { agentStep.mutablePause with
            toolCallMessage := some message
            completed := observation.toolMessages }))
        else appendStep state (.observation observation)
      else .raise (illegalState "OpenAIToolAgentExecutor")
  | some _ => .raise (illegalState "OpenAIToolAgentExecutor")

/-- The graph as the joiner gets it: the question is set by hand. -/
def LLMCompilerTaskGraph.asked (graph : LLMCompilerTaskGraph) (state : AgentState) :
    LLMCompilerTaskGraph :=
  { graph with question := state.input.extractLatestPromptString }

/-- `mutable_observation()->mutable_custom()->PackFrom(graph)` on the last of the previous
steps. -/
def AgentState.packGraph (state : AgentState) (observation : AgentObservation)
    (graph : LLMCompilerTaskGraph) : AgentState :=
  { state with
    previousSteps := state.previousSteps.dropLast ++
      [.observation { observation with custom := .taskGraph graph }] }

/-- `LLMCompilerAgentExecutor::ResolveNextStep`, from an observation. -/
def llmCompilerFromObservation (parts : AgentParts Res) (state : AgentState)
    (agentStep : AgentStep) (observation : AgentObservation) :
    Program Exn Res (AgentStep × AgentState) :=
  match observation.custom.taskGraph? with
  | none => .raise (.client
      "should have LLMCompilerTaskGraph as custom data in the observation step")
  | some graph =>
      if findNextTasks graph ≠ [] then do
        -- the function graph is not finished
        let continuation := agentStep.mutableContinuation
        let request ← buildToolCallRequest graph (findNextTasks graph)
          (continuation.toolCallMessage.getD {})
        appendStep state (.thought (.continuation
          { toolCallMessage := some request, custom := .taskGraph graph }))
      else do
        -- the function graph is exhausted: run the joiner and save its result in the graph
        let joinerResult ← parts.joiner (graph.asked state)
        let graph := { graph.asked state with joinerResult := some joinerResult }
        let state := state.packGraph observation graph
        if joinerResult.isReplan then do
          let thought ← parts.planner state
          assertTrue ((AgentStep.thought thought).mutableContinuation.custom.taskGraph?.isSome)
            "should have LLMCompilerTaskGraph as custom data in the thought message"
          appendStep state (.thought thought)
        else
          appendStep state (.thought (.finish { agentStep.mutableFinish with
            response := joinerResult.answer
            custom := .taskGraph graph }))

/-- `LLMCompilerAgentExecutor::ResolveNextStep` behind its stop predicate. -/
def llmCompilerStep (parts : AgentParts Res) (state : AgentState) (agentStep : AgentStep) :
    Program Exn Res (AgentStep × AgentState) :=
  match state.previousSteps.getLast? with
  | none => plan parts state
  | some (.observation observation) =>
      llmCompilerFromObservation parts state agentStep observation
  | some (.thought (.pause { toolCallMessage := some message, completed, custom })) =>
      match custom.taskGraph? with
      | none => .raise (.client
          "should contain LLMCompilerTaskGraph in custom data in the pause step")
      | some graph =>
          if message.toolCalls.length = completed.length then
            -- lift to observation, with the submitted results in the graph
            appendStep state (.observation
              { toolMessages := completed, custom := .taskGraph (graph.setResults completed) })
          else .raise (illegalState "LLMCompilerAgentExectuor")
  | some (.thought (.continuation { toolCallMessage := some message, custom })) =>
      if 0 < message.toolCalls.length then
        match custom.taskGraph? with
        | none => .raise (.client
            "should contain LLMCompilerTaskGraph in custom data in the thought step")
        | some graph => do
            assertTrue (1 < graph.tasks.length)
              "There should be more than one task in LLMCompilerTaskGraph"
            let observation ← parts.worker
              (.continuation { toolCallMessage := some message, custom := custom })
            let graph := graph.setResults observation.toolMessages
            if countCompleted message.toolCalls observation.toolMessages
                ≠ message.toolCalls.length then
              appendStep state (.thought (.pause
                { toolCallMessage := some message
                  completed := observation.toolMessages
                  custom := .taskGraph graph }))
            else
              appendStep state (.observation { observation with custom := .taskGraph graph })
      else .raise (illegalState "LLMCompilerAgentExectuor")
  | some _ => .raise (illegalState "LLMCompilerAgentExectuor")

/-- The executor behind its stop predicate. -/
def ExecutorKind.step : ExecutorKind → AgentParts Res → AgentState → AgentStep →
    Program Exn Res (AgentStep × AgentState)
  | .openAITool => openAIToolStep
  | .llmCompiler => llmCompilerStep

/-- `ResolveNextStep`: a step at which the stop predicate fires is returned, and the
state is left as it is. -/
def resolveNextStep (kind : ExecutorKind) (parts : AgentParts Res) (state : AgentState) :
    Program Exn Res (AgentStep × AgentState) := do
  let (stop, agentStep) ← parts.shouldEarlyStop state .unset
  if stop then pure (agentStep, state) else kind.step parts state agentStep

/-! ### `BaseAgentExecutor::Stream` -/

/-- The loop goes on after an observation and after a continuation. -/
def AgentStep.goesOn : AgentStep → Bool
  | .observation _ => true
  | .thought (.continuation _) => true
  | _ => false

section Stream

variable {σ : Type} (exec : (op : Op) → Action Exn σ (Res op))
variable (onNext : AgentState → Action Exn σ Unit)
variable (kind : ExecutorKind) (parts : AgentParts Res)

/-- The stop predicate fires on the state. -/
def stopFires (state : AgentState) (s : σ) : Bool :=
  match ((parts.shouldEarlyStop state .unset).run exec s).1 with
  | .ok (stop, _) => stop
  | .error _ => false

/-- `Stream`: the steps it takes in at most `n` rounds, each with the state that it
emits.  Between two rounds the consumer `onNext` acts on the emitted state. -/
def stream : Nat → AgentState → σ → List (AgentStep × AgentState)
  | 0, _, _ => []
  | n + 1, state, s =>
      match (resolveNextStep kind parts state).run exec s with
      | (.error _, _) => []
      | (.ok (step, state'), s') =>
          (step, state') ::
            match onNext state' s' with
            | (.error _, _) => []
            | (.ok _, s'') => if step.goesOn then stream n state' s'' else []

/-- In none of the first `n` rounds does the stop predicate fire. -/
def NeverStops : Nat → AgentState → σ → Prop
  | 0, _, _ => True
  | n + 1, state, s =>
      stopFires exec parts state s = false ∧
        match (resolveNextStep kind parts state).run exec s with
        | (.error _, _) => True
        | (.ok (step, state'), s') =>
            match onNext state' s' with
            | (.error _, _) => True
            | (.ok _, s'') => step.goesOn = true → NeverStops n state' s''

end Stream

/-! ### Every step is appended -/

/-- The new state is the old one with exactly the new step appended. -/
def Appends (state : AgentState) (next : AgentStep × AgentState) : Prop :=
  next.2.previousSteps = state.previousSteps ++ [next.1]

/-- The new state is the old one with exactly the new step appended, after the joiner
has rewritten the custom data of the last observation: its graph, which has no
executable task left, now holds the question and the result of the joiner. -/
def JoinsAndAppends (state : AgentState) (next : AgentStep × AgentState) : Prop :=
  ∃ front observation graph joinerResult,
    state.previousSteps = front ++ [.observation observation] ∧
    observation.custom = .taskGraph graph ∧ findNextTasks graph = [] ∧
    next.2.previousSteps = front ++
      [.observation { observation with
        custom := .taskGraph { graph.asked state with joinerResult := some joinerResult } }]
      ++ [next.1]

/-- The steps that can follow in a state, where the thoughts of the planner satisfy `T`. -/
inductive CanFollow (T : AgentThought → Prop) (state : AgentState) : AgentStep → Prop
  | planned {thought : AgentThought} (h : T thought) : CanFollow T state (.thought thought)
  /-- Further tasks of a graph are asked for. -/
  | continued {continuation : AgentContinuation} :
      CanFollow T state (.thought (.continuation continuation))
  /-- Some calls of the continuation before are left to the user. -/
  | paused {message : Message} {custom : Any} {pause : AgentPause}
      (hlast : state.previousSteps.getLast? = some
        (.thought (.continuation { toolCallMessage := some message, custom := custom })))
      (hcalls : 0 < message.toolCalls.length) (hpause : pause.toolCallMessage = some message) :
      CanFollow T state (.thought (.pause pause))
  | observed {observation : AgentObservation} : CanFollow T state (.observation observation)
  | joined {finish : AgentFinish} : CanFollow T state (.thought (.finish finish))

variable {parts : AgentParts Res} {state : AgentState} {agentStep : AgentStep}
variable {T : AgentThought → Prop}

theorem returns_appendStep {step : AgentStep} (h : CanFollow T state step) :
    (appendStep state step : Program Exn Res _).Returns
      fun next => Appends state next ∧ CanFollow T state next.1 := ⟨rfl, h⟩

theorem returns_plan (hplan : ∀ state, (parts.planner state).Returns T) :
    (plan parts state).Returns fun next => Appends state next ∧ CanFollow T state next.1 :=
  Program.returns_bind_of (hplan state) fun _ h => returns_appendStep (.planned h)

/-- The `OpenAIToolAgentExecutor` appends a step that can follow. -/
theorem openAIToolStep_appends (hplan : ∀ state, (parts.planner state).Returns T) :
    (openAIToolStep parts state agentStep).Returns
      fun next => Appends state next ∧ CanFollow T state next.1 := by
  unfold openAIToolStep
  split
  · -- no step yet, or an observation: the planner is asked
    exact returns_plan hplan
  · exact returns_plan hplan
  · -- pause
    split
    · exact returns_appendStep .observed
    · trivial
  · -- continuation
    rename_i message custom hlast
    split
    · -- the worker observes all calls, or the run pauses
      rename_i hcalls
      refine Program.returns_bind fun observation => ?_
      split
      · exact returns_appendStep (.paused hlast hcalls rfl)
      · exact returns_appendStep .observed
    · trivial
  · trivial

theorem taskGraph?_eq_some {custom : Any} {graph : LLMCompilerTaskGraph} :
    custom.taskGraph? = some graph ↔ custom = .taskGraph graph := by
  cases custom <;> simp [Any.taskGraph?]

/-- What is appended alone, may also be appended after a join. -/
theorem returns_appended {p : Program Exn Res (AgentStep × AgentState)}
    (h : p.Returns fun next => Appends state next ∧ CanFollow T state next.1) :
    p.Returns fun next =>
      (Appends state next ∨ JoinsAndAppends state next) ∧ CanFollow T state next.1 :=
  Program.returns_mono h fun _ hnext => ⟨.inl hnext.1, hnext.2⟩

theorem llmCompilerFromObservation_appends {observation : AgentObservation}
    (hplan : ∀ state, (parts.planner state).Returns T)
    (hlast : state.previousSteps.getLast? = some (.observation observation)) :
    (llmCompilerFromObservation parts state agentStep observation).Returns
      fun next => (Appends state next ∨ JoinsAndAppends state next) ∧
        CanFollow T state next.1 := by
  unfold llmCompilerFromObservation
  split
  · trivial
  · rename_i graph hgraph
    split
    · -- the function graph is not finished
      refine Program.returns_bind fun request => ?_
      exact returns_appended (returns_appendStep .continued)
    · rename_i hnext
      refine Program.returns_bind fun joinerResult => ?_
      -- what is appended, is appended to the joined state
      have hjoin : ∀ step, JoinsAndAppends state
          (step, (state.packGraph observation
            { graph.asked state with
              joinerResult := some joinerResult }).addPreviousStep step) := by
        intro step
        obtain ⟨front, hfront⟩ := List.getLast?_eq_some_iff.mp hlast
        refine ⟨front, observation, graph, joinerResult, hfront, ?_, ?_, ?_⟩
        · exact taskGraph?_eq_some.mp hgraph
        · exact not_not.mp hnext
        · simp [AgentState.packGraph, AgentState.addPreviousStep, hfront]
      split
      · refine Program.returns_bind_of (hplan _) fun thought hthought => ?_
        refine Program.returns_bind fun _ => ?_
        exact ⟨.inr (hjoin _), .planned hthought⟩
      · exact ⟨.inr (hjoin _), .joined⟩

/-- The `LLMCompilerAgentExecutor` appends a step that can follow, perhaps after a join. -/
theorem llmCompilerStep_appends (hplan : ∀ state, (parts.planner state).Returns T) :
    (llmCompilerStep parts state agentStep).Returns
      fun next => (Appends state next ∨ JoinsAndAppends state next) ∧
        CanFollow T state next.1 := by
  unfold llmCompilerStep
  split
  · exact returns_appended (returns_plan hplan)
  · rename_i observation hlast
    exact llmCompilerFromObservation_appends hplan hlast
  · -- pause
    split
    · trivial
    · split
      · exact returns_appended (returns_appendStep .observed)
      · trivial
  · -- continuation
    rename_i message custom hlast
    split
    · -- the worker observes all calls of the graph, or the run pauses
      rename_i hcalls
      split
      · trivial
      · refine Program.returns_bind fun _ => Program.returns_bind fun observation => ?_
        split
        · exact returns_appended (returns_appendStep (.paused hlast hcalls rfl))
        · exact returns_appended (returns_appendStep .observed)
    · trivial
  · trivial

/-- What the executor of a kind does to the state, once its predicate has let it pass. -/
def ExecutorKind.Takes : ExecutorKind → AgentState → AgentStep × AgentState → Prop
  | .openAITool, state, next => Appends state next
  | .llmCompiler, state, next => Appends state next ∨ JoinsAndAppends state next

theorem step_takes (kind : ExecutorKind) (hplan : ∀ state, (parts.planner state).Returns T) :
    (kind.step parts state agentStep).Returns
      fun next => kind.Takes state next ∧ CanFollow T state next.1 := by
  cases kind with
  | openAITool => exact openAIToolStep_appends hplan
  | llmCompiler => exact llmCompilerStep_appends hplan

/-! ### Which calls an executor makes -/

/-- Every call that a part can make satisfies `P`. -/
structure AgentParts.Calls (parts : AgentParts Res) (P : Op → Prop) : Prop where
  shouldEarlyStop : ∀ state step, (parts.shouldEarlyStop state step).Calls P
  planner : ∀ state, (parts.planner state).Calls P
  worker : ∀ thought, (parts.worker thought).Calls P
  joiner : ∀ graph, (parts.joiner graph).Calls P

section Calls

variable {P : Op → Prop}

theorem calls_plan (h : parts.Calls P) : (plan parts state).Calls P :=
  Program.calls_bind (h.planner state) fun _ => trivial

theorem calls_openAIToolStep (h : parts.Calls P) :
    (openAIToolStep parts state agentStep).Calls P := by
  unfold openAIToolStep
  split
  · exact calls_plan h
  · exact calls_plan h
  · split <;> trivial
  · split
    · refine Program.calls_bind (h.worker _) fun observation => ?_
      split <;> trivial
    · trivial
  · trivial

theorem calls_llmCompilerStep (h : parts.Calls P) :
    (llmCompilerStep parts state agentStep).Calls P := by
  unfold llmCompilerStep
  split
  · exact calls_plan h
  · -- an observation: the next tasks, or the joiner and the planner
    unfold llmCompilerFromObservation
    split
    · trivial
    · split
      · exact Program.calls_bind (Program.calls_ofExcept _) fun _ => trivial
      · refine Program.calls_bind (h.joiner _) fun joinerResult => ?_
        split
        · refine Program.calls_bind (h.planner _) fun thought => ?_
          exact Program.calls_bind (Program.calls_ofExcept _) fun _ => trivial
        · trivial
  · split
    · trivial
    · split <;> trivial
  · split
    · split
      · trivial
      · refine Program.calls_bind (Program.calls_ofExcept _) fun _ => ?_
        -- a continuation: the worker is the only part that is called
        refine Program.calls_bind (h.worker _) fun observation => ?_
        split <;> trivial
    · trivial
  · trivial

/-- `ResolveNextStep` makes the calls of its parts and no others. -/
theorem calls_resolveNextStep (kind : ExecutorKind) (h : parts.Calls P) :
    (resolveNextStep kind parts state).Calls P := by
  refine Program.calls_bind (h.shouldEarlyStop _ _) fun ⟨stop, agentStep⟩ => ?_
  cases stop with
  | true => trivial
  | false =>
      cases kind with
      | openAITool => exact calls_openAIToolStep h
      | llmCompiler => exact calls_llmCompilerStep h

end Calls

/-! ### Runs of `Stream` -/

section Run

variable {σ : Type} {exec : (op : Op) → Action Exn σ (Res op)} {kind : ExecutorKind}

/-- A call of `ResolveNextStep` at which the stop predicate does not fire. -/
theorem resolveNextStep_takes {s s' : σ} {next : AgentStep × AgentState}
    (hstop : stopFires exec parts state s = false)
    (h : (resolveNextStep kind parts state).run exec s = (.ok next, s')) :
    kind.Takes state next := by
  obtain ⟨⟨stop, agentStep⟩, s₁, hpred, hrest⟩ := Program.ok_of_run_bind exec h
  have hfalse : stop = false := by
    rw [stopFires, hpred] at hstop
    exact hstop
  subst hfalse
  exact (Program.returns_run
    (step_takes (T := fun _ => True) kind fun _ => Program.returns_true _) hrest).1

/-- What the executor of a kind never rewrites in a step that it took. -/
def ExecutorKind.lasting : ExecutorKind → AgentStep → AgentStep
  | .openAITool, step => step
  | .llmCompiler, .observation observation => .observation { observation with custom := .empty }
  | .llmCompiler, step => step

/-- A step is appended, and of the steps before it everything lasting stays. -/
theorem ExecutorKind.Takes.lasting {next : AgentStep × AgentState} (h : kind.Takes state next) :
    next.2.previousSteps.getLast? = some next.1 ∧
      next.2.previousSteps.map kind.lasting
        = (state.previousSteps ++ [next.1]).map kind.lasting := by
  have happends : Appends state next → next.2.previousSteps.getLast? = some next.1 ∧
      next.2.previousSteps.map kind.lasting
        = (state.previousSteps ++ [next.1]).map kind.lasting := by
    intro h
    rw [Appends] at h
    rw [h]
    exact ⟨List.getLast?_concat, rfl⟩
  cases kind with
  | openAITool => exact happends h
  | llmCompiler =>
      -- the joined state differs from the old one in its last observation only
      rcases h with h | ⟨front, observation, graph, joinerResult, hsteps, -, -, h⟩
      · exact happends h
      · rw [h, hsteps]
        exact ⟨List.getLast?_concat, by simp [ExecutorKind.lasting]⟩

/-- **Runs of `Stream`.**  While the stop predicate does not fire, each emitted state
ends with the step just taken, and holds, up to what the joiner rewrites, the steps
it started with followed by the steps taken so far, each once. -/
theorem stream_previousSteps {onNext : AgentState → Action Exn σ Unit} {n : Nat}
    {state : AgentState} {s : σ} (hquiet : NeverStops exec onNext kind parts n state s)
    {front back : List (AgentStep × AgentState)} {emitted : AgentStep × AgentState}
    (h : stream exec onNext kind parts n state s = front ++ emitted :: back) :
    emitted.2.previousSteps.getLast? = some emitted.1 ∧
      emitted.2.previousSteps.map kind.lasting
        = (state.previousSteps ++ front.map (·.1) ++ [emitted.1]).map kind.lasting := by
  induction n generalizing state s front with
  | zero => simp [stream] at h
  | succ n ih =>
      obtain ⟨hstop, hrest⟩ := hquiet
      rcases hstep : (resolveNextStep kind parts state).run exec s with ⟨e | next, s'⟩
      · simp [stream, hstep] at h
      · simp only [stream, hstep] at h
        simp only [hstep] at hrest
        have htakes := (resolveNextStep_takes hstop hstep).lasting
        cases front with
        | nil =>
            -- the first emitted state
            simp only [List.nil_append, List.cons.injEq] at h
            rw [← h.1]
            simpa using htakes
        | cons first front =>
            simp only [List.cons_append, List.cons.injEq] at h
            obtain ⟨hfirst, hlater⟩ := h
            rcases hnext : onNext next.2 s' with ⟨e | _, s''⟩
            · simp [hnext] at hlater
            · simp only [hnext] at hlater hrest
              by_cases hgo : next.1.goesOn = true
              · rw [if_pos hgo] at hlater
                obtain ⟨hlast, hsteps⟩ := ih (hrest hgo) hlater
                refine ⟨hlast, ?_⟩
                rw [hsteps]
                simp only [List.map_append, htakes.2, List.append_assoc]
                rw [← hfirst]
                simp
              · rw [if_neg hgo] at hlater
                simp at hlater

/-- **Every step that passes the stop predicate is appended, once.**  A call of
`ResolveNextStep` at which the predicate does not fire appends exactly the step it
returns; the `LLMCompilerAgentExecutor` may also save the joiner's result in the
observation it joins.  So in a run of `Stream` in which the predicate never fires,
the last steps of the emitted states are the steps taken, and each emitted state
holds the steps it started with followed by the steps taken so far. -/
theorem resolveNextStep_appends_once (exec : (op : Op) → Action Exn σ (Res op))
    (parts : AgentParts Res) :
    (∀ state s next s', stopFires exec parts state s = false →
      (resolveNextStep .openAITool parts state).run exec s = (.ok next, s') →
        Appends state next) ∧
    (∀ state s next s', stopFires exec parts state s = false →
      (resolveNextStep .llmCompiler parts state).run exec s = (.ok next, s') →
        Appends state next ∨ JoinsAndAppends state next) ∧
    (∀ kind onNext n state s, NeverStops exec onNext kind parts n state s →
      (stream exec onNext kind parts n state s).map
            (fun emitted => emitted.2.previousSteps.getLast?)
          = (stream exec onNext kind parts n state s).map (fun emitted => some emitted.1) ∧
        ∀ front emitted back,
          stream exec onNext kind parts n state s = front ++ emitted :: back →
            emitted.2.previousSteps.map kind.lasting
              = (state.previousSteps ++ front.map (·.1) ++ [emitted.1]).map kind.lasting) := by
  refine ⟨fun _ _ _ _ => resolveNextStep_takes, fun _ _ _ _ => resolveNextStep_takes, ?_⟩
  intro kind onNext n state s hquiet
  constructor
  · refine List.map_congr_left fun emitted hmem => ?_
    obtain ⟨front, back, hsplit⟩ := List.append_of_mem hmem
    exact (stream_previousSteps hquiet hsplit).1
  · intro front emitted back hsplit
    exact (stream_previousSteps hquiet hsplit).2

end Run

end Executors

/-! ### Two executors at work -/

/-- Parts that make no call: the planner finishes at once, the joiner has an answer. -/
def finishingParts : AgentParts fun (_ : Empty) => Unit where
  shouldEarlyStop _ step := pure (false, step)
  planner _ := pure (.finish { response := "done" })
  worker _ := pure {}
  joiner _ := pure { answer := "joined" }

/-- The environment of parts that make no call. -/
def noCalls : (op : Empty) → Action Exn Unit Unit := nofun

/-- From the empty state both executors append the planner's finish, and `Stream`
emits it once. -/
theorem resolveNextStep_appends_finish :
    Appends {} (.thought (.finish { response := "done" }),
      { previousSteps := [.thought (.finish { response := "done" })] }) ∧
    (stream noCalls (fun _ => pure ()) .llmCompiler finishingParts 2 {} ()).map
        (fun emitted => emitted.2.previousSteps.getLast?)
      = [some (.thought (.finish { response := "done" }))] :=
  ⟨(resolveNextStep_appends_once noCalls finishingParts).1 {} () _ () rfl rfl,
    ((resolveNextStep_appends_once noCalls finishingParts).2.2 .llmCompiler (fun _ => pure ()) 2 {}
      () ⟨rfl, fun h => absurd h (by decide)⟩).1⟩

/-- A state whose last observation carries a finished task graph. -/
def joinableState : AgentState where
  previousSteps := [.observation
    { custom := .taskGraph { tasks := [{ index := 1, result := some { content := "42" } }] } }]
  input := .string "?"

/-- Parts whose stop predicate fires. -/
def stoppingParts : AgentParts fun (_ : Empty) => Unit :=
  { finishingParts with
    shouldEarlyStop := fun _ _ => pure (true, .thought (.finish { isCancelled := true })) }

/-- The joiner rewrites the last observation, so that the new state is not the old one
with a step appended; and a step at which the predicate fires is not appended at all. -/
theorem resolveNextStep_not_only_appends :
    (∃ next, (resolveNextStep .llmCompiler finishingParts joinableState).run noCalls ()
        = (.ok next, ()) ∧ next.2.previousSteps ≠ joinableState.previousSteps ++ [next.1]) ∧
    (∃ next, (resolveNextStep .openAITool stoppingParts joinableState).run noCalls ()
        = (.ok next, ()) ∧ next.2.previousSteps ≠ joinableState.previousSteps ++ [next.1]) :=
  ⟨⟨_, rfl, by decide⟩, ⟨_, rfl, by decide⟩⟩

end Instinct
