/-
Instinct/ReactAgent.lean

The ReACT agent: its planner, its worker, and `ReACTAgentExecutor` under
`BaseAgentExecutor::Stream`.

The state of an agent is a list of messages, of which many make no sense to the executor.  A run
from an initial state is the run of a dialogue (`stream_eq_dialogue`), whose rounds hold an
action that was read out of a reply, the id of its call and what was observed.  So a missing tool
call is never read, an action is always followed by its observation, and the next prompt holds
all rounds so far.  Nothing bounds the number of rounds (`stream_goes_on`).
-/
import Instinct.Agent
import Instinct.ReactReplies

namespace Instinct.React

open Cells Chains Effects JsonContexts LocalToolkits SortedMaps StepFunctions StringUtils

/-! ### `BaseAgentExecutor::Stream` -/

/-- What a run emits in at most some rounds, how it ended if it did, and the state it leaves. -/
abbrev Emitted (α σ : Type) := List α × Option (Except Exn Unit) × σ

/-- `BaseAgentExecutor::Stream`, by its `ResolveNextStep`. -/
def stream {σ : Type} (resolve : AgentState → Action Exn σ (AgentStep × AgentState)) :
    Nat → AgentState → σ → Emitted AgentState σ
  | 0, _, s => ([], none, s)
  | n + 1, state, s =>
      match resolve state s with
      | (.error e, s') => ([], some (.error e), s')
      | (.ok (step, state'), s') =>
          if step.goesOn then
            let rest := stream resolve n state' s'
            (state' :: rest.1, rest.2)
          else ([state'], some (.ok ()), s')

/-- The loop of the other executors, whose consumers do nothing, is this one. -/
theorem stream_eq {Op σ : Type} {Res : Op → Type} (exec : (op : Op) → Action Exn σ (Res op))
    (kind : ExecutorKind) (parts : AgentParts Res) (n : Nat) (state : AgentState) (s : σ) :
    (Instinct.stream exec (fun _ => pure ()) kind parts n state s).map Prod.snd
      = (stream (fun state => (resolveNextStep kind parts state).run exec) n state s).1 := by
  induction n generalizing state s with
  | zero => rfl
  | succ n ih =>
      rw [Instinct.stream, stream]
      rcases (resolveNextStep kind parts state).run exec s with ⟨e | ⟨step, state'⟩, s'⟩
      · rfl
      · cases hgo : step.goesOn with
        | false =>
            simp only [hgo]
            rfl
        | true =>
            simp only [hgo, if_true, ← ih]
            rfl

/-! ### The executor -/

/-- What a `ReACTAgentExecutor` is made of.  `serializeParameters` prints the parameters of a
tool, and `shortDebugString` a call; the uuids are those of the steps. -/
structure ReACTAgentExecutor where
  formats : Formats
  promptTemplate : PromptTemplate
  chatModel : LanguageModel
  toolkits : List FunctionToolkit
  allSchemas : List FunctionTool
  serializeParameters : FunctionTool → String
  shortDebugString : ToolCallObject → String
  uuids : Nat → Uuid

/-- `thought.continuation().tool_call_message()`: the default messages where they are not set. -/
def toolCallMessageOf : AgentThought → Message
  | .continuation continuation => continuation.toolCallMessage.getD {}
  | _ => {}

/-- What a step adds to the scratch pad. -/
def scratchPadOf : AgentStep → Except Exn String
  | .thought thought =>
      match (toolCallMessageOf thought).toolCalls with
      | [] => .error (.undefinedBehaviour "tool_calls(0)")
      | call :: _ =>
          .ok ((toolCallMessageOf thought).content
            ++ "\nAction: " ++ call.functionOrDefault.name
            ++ "\nAction Input: " ++ call.functionOrDefault.arguments)
  | .observation observation => do
      assertTrue (0 < observation.toolMessages.length) "should provide succssful observation"
      pure ("\nObservation: " ++ (observation.toolMessages.headD {}).content ++ "\nThought: ")
  | .unset => .ok ""

/-- `scratch_pad`. -/
def scratchPad (steps : List AgentStep) : Except Exn String :=
  steps.foldlM (fun pad step => (scratchPadOf step).map (pad ++ ·)) ""

/-- `RenderFunctionTools`. -/
def renderFunctionTools (serializeParameters : FunctionTool → String)
    (tools : List FunctionTool) : String :=
  "\n".intercalate (tools.map fun tool =>
    tool.name ++ ": " ++ tool.description ++ " arg=" ++ serializeParameters tool)

namespace ReACTAgentExecutor

variable (agent : ReACTAgentExecutor) (hash : HashOrder)

/-- The variables of the prompt. -/
def promptVariables (pad input : String) (tools : List FunctionTool) : List (String × Json) :=
  [("agent_scratchpad", .string pad), ("input", .string input),
    ("tool_names", .string (",".intercalate (tools.map (·.name)))),
    ("tools", .string (renderFunctionTools agent.serializeParameters tools))]

/-- `ReACTAgentStateInputParser::ParseInput`. -/
def parseInput (state : AgentState) : Except Exn Json := do
  let pad ← scratchPad state.previousSteps
  let input := state.input.extractLatestPromptString
  assertTrue (isNotBlankString input) "should provide valid prompt input"
  pure (createJSONContext hash (.object (agent.promptVariables pad input state.functionTools)))

/-- `CreateReACTPlanner`, where a call of a function gets the uuid. -/
def planner (uuid : Uuid) : MessageChain AgentState AgentThought where
  inputParser := agent.parseInput hash
  stepFunction := pipes (agent.promptTemplate.step agent.formats hash)
    [agent.chatModel.step agent.formats]
  outputParser data := do
    let generation ← requireMessage agent.formats.generation data
    parseResult {} uuid generation

/-- `ReACTWorker::Invoke`: only the first call counts. -/
def worker (uuid : Uuid) : AgentThought → Except Exn AgentObservation
  | .continuation { toolCallMessage := some { toolCalls := invocation :: _, .. }, .. } => do
      let result ← invokeCall uuid invocation agent.toolkits
      if result.hasError then
        .error (.instinct ("Function execution failed. invocation: "
          ++ agent.shortDebugString invocation ++ ", exception: " ++ result.exception))
      else
        pure { toolMessages :=
          [{ content := result.returnValue, toolCallId := result.invocationId }] }
  | _ => .error (.client "should have continuation for ReACT executor.")

/-- `InitializeState`, for a prompt value. -/
def initializeState (input : PromptValue) : AgentState :=
  { input := input, functionTools := agent.allSchemas }

/-- `ReACTAgentExecutor::ResolveNextStep`. -/
def resolveNextStep (state : AgentState) :
    Action Exn (Memory Json Conversation) (AgentStep × AgentState) :=
  let uuid := agent.uuids state.previousSteps.length
  let runPlanner : Action Exn (Memory Json Conversation) (AgentStep × AgentState) := do
    let thought ← (agent.planner hash uuid).invoke hash state
    pure (.thought thought, state.addPreviousStep (.thought thought))
  match state.previousSteps.getLast? with
  | none => runPlanner
  | some (.observation _) => runPlanner
  | some (.thought (.continuation { toolCallMessage := some message, custom })) => do
      let observation ← Action.ofExcept
        (agent.worker uuid (.continuation { toolCallMessage := some message, custom := custom }))
      pure (.observation observation, state.addPreviousStep (.observation observation))
  | some (.thought (.continuation _)) =>
      Action.throw (.instinct "IllegalState for ReACTAgentExecutor")
  | some (.thought _) => Action.throw (.client "thought should have continuation")
  | some .unset => Action.throw (.instinct "IllegalState for ReACTAgentExecutor")

end ReACTAgentExecutor

/-! ### Dialogues -/

/-- An action with what was observed. -/
structure Round where
  act : Act
  id : Uuid
  observation : String

/-- What a dialogue waits for. -/
inductive Phase
  | thinking
  | acting (act : Act) (id : Uuid)
  | answered (response : List Char)

/-- What an agent has gone through. -/
structure Dialogue where
  rounds : List Round
  phase : Phase

/-- The rounds, as the next prompt shows them. -/
def transcript (rounds : List Round) : String :=
  rounds.foldl (fun pad round =>
    pad ++ String.ofList (actText round.act.thought round.act.name round.act.arguments)
      ++ "\nObservation: " ++ round.observation ++ "\nThought: ") ""

/-- The call of an action. -/
def Act.call (act : Act) (id : Uuid) : ToolCallObject where
  id := id.val
  function := some { name := String.ofList act.name, arguments := String.ofList act.arguments }

section Dialogues

variable (agent : ReACTAgentExecutor)

/-- The tool of the action answers. -/
def perform (act : Act) (id : Uuid) : Except Exn String :=
  match toolFor? agent.toolkits (act.call id) with
  | none => .error (.instinct ("Unresolved invocation: id=" ++ id.val ++ ", name="
      ++ String.ofList act.name))
  | some tool => do
      let result ← tool.run (act.call id)
      if result.hasError then
        .error (.instinct ("Function execution failed. invocation: "
          ++ agent.shortDebugString (act.call id) ++ ", exception: " ++ result.exception))
      else pure result.returnValue

/-- The model is asked about all rounds. -/
def think (question : String) (rounds : List Round) : Action Exn Conversation Decision := do
  Action.ofExcept (assertTrue (isNotBlankString question) "should provide valid prompt input")
  let value ← Action.ofExcept (agent.promptTemplate.formatPrompt
    (agent.promptVariables (transcript rounds) question agent.allSchemas))
  let reply ← agent.chatModel.ask value
  Action.ofExcept (decision reply.stringify.toList)

/-- The phase after a decision. -/
def Decision.phase (id : Uuid) : Decision → Phase
  | .call act => .acting act id
  | .finish response => .answered response

/-- The dialogue goes on by a decision or an observation. -/
def Dialogue.next (question : String) (d : Dialogue) : Action Exn Conversation Dialogue :=
  match d.phase with
  | .thinking => do
      let decided ← think agent question d.rounds
      pure { d with phase := decided.phase (agent.uuids (2 * d.rounds.length)) }
  | .acting act id => do
      let observation ← Action.ofExcept (perform agent act id)
      pure { rounds := d.rounds ++ [⟨act, id, observation⟩], phase := .thinking }
  | .answered _ => Action.throw (.client "thought should have continuation")

/-- A dialogue goes on until there is an answer. -/
def Phase.goesOn : Phase → Bool
  | .answered _ => false
  | _ => true

/-- A run of a dialogue. -/
def Dialogue.run (question : String) : Nat → Dialogue → Conversation →
    Emitted Dialogue Conversation
  | 0, _, c => ([], none, c)
  | n + 1, d, c =>
      match d.next agent question c with
      | (.error e, c') => ([], some (.error e), c')
      | (.ok d', c') =>
          if d'.phase.goesOn then
            let rest := Dialogue.run question n d' c'
            (d' :: rest.1, rest.2)
          else ([d'], some (.ok ()), c')

/-! ### Dialogues as states -/

/-- The steps of an action and its observation. -/
def Round.steps (round : Round) : List AgentStep :=
  [.thought (actThought round.id.val round.act.thought round.act.name round.act.arguments),
    .observation { toolMessages :=
      [{ content := round.observation, toolCallId := round.id.val }] }]

/-- The step that has no observation. -/
def Phase.steps : Phase → List AgentStep
  | .thinking => []
  | .acting act id => [.thought (actThought id.val act.thought act.name act.arguments)]
  | .answered response => [.thought (.finish { response := String.ofList response })]

/-- The state of a dialogue. -/
def Dialogue.state (input : PromptValue) (d : Dialogue) : AgentState where
  previousSteps := d.rounds.flatMap Round.steps ++ d.phase.steps
  input := input
  functionTools := agent.allSchemas

end Dialogues

/-! ### Steps of a dialogue -/

section Simulation

variable {agent : ReACTAgentExecutor} {input : PromptValue}

/-- **The scratch pad** of the steps of rounds is their transcript, by induction over them. -/
theorem scratchPad_rounds (rounds : List Round) :
    scratchPad (rounds.flatMap Round.steps) = .ok (transcript rounds) := by
  rw [scratchPad, transcript]
  generalize "" = pad
  induction rounds generalizing pad with
  | nil => rfl
  | cons round rounds ih =>
      rw [List.flatMap_cons, List.foldl_cons, List.foldlM_append, ← ih]
      have htext : String.ofList
          (actText round.act.thought round.act.name round.act.arguments)
        = String.ofList round.act.thought ++ "\nAction: " ++ String.ofList round.act.name
          ++ "\nAction Input: " ++ String.ofList round.act.arguments := by
        simp only [actText, String.ofList_append, String.ofList_toList]
      have hpad : pad ++ (String.ofList round.act.thought ++ "\nAction: "
            ++ String.ofList round.act.name ++ "\nAction Input: "
            ++ String.ofList round.act.arguments)
          ++ ("\nObservation: " ++ round.observation ++ "\nThought: ")
        = pad ++ String.ofList (actText round.act.thought round.act.name round.act.arguments)
          ++ "\nObservation: " ++ round.observation ++ "\nThought: " := by
        rw [htext]
        simp only [String.append_assoc]
      rw [← hpad]
      rfl

/-- The planner shows the model all rounds, and its thought is what the reply decides. -/
theorem respond_planner (hash : KeyOrder) (uuid : Uuid) (rounds : List Round) :
    (agent.planner hash.toHashOrder uuid).respond hash.toHashOrder
        (Dialogue.state agent input ⟨rounds, .thinking⟩)
      = think agent input.extractLatestPromptString rounds >>= fun decided =>
          pure (decided.toThought uuid.val) := by
  have hsorted : Sorted (agent.promptVariables (transcript rounds)
      input.extractLatestPromptString agent.allSchemas) :=
    @sorted_of_keys _ ["agent_scratchpad", "input", "tool_names", "tools"] (by decide) rfl
  have hpad : scratchPad (Dialogue.state agent input ⟨rounds, .thinking⟩).previousSteps
      = .ok (transcript rounds) := by
    show scratchPad (rounds.flatMap Round.steps ++ []) = _
    rw [List.append_nil, scratchPad_rounds]
  have hcontext : createJSONContext hash.toHashOrder (.object (agent.promptVariables
        (transcript rounds) input.extractLatestPromptString agent.allSchemas))
      = contextOf (agent.promptVariables (transcript rounds)
        input.extractLatestPromptString agent.allSchemas) := by
    rw [createJSONContext, createMembers_eq]
    exact putMappingObject_of_sorted hsorted
  have hparse : agent.parseInput hash.toHashOrder
        (Dialogue.state agent input ⟨rounds, .thinking⟩)
      = (assertTrue (isNotBlankString input.extractLatestPromptString = true)
          "should provide valid prompt input").map fun _ =>
        contextOf (agent.promptVariables (transcript rounds)
          input.extractLatestPromptString agent.allSchemas) := by
    rw [ReACTAgentExecutor.parseInput, hpad, ← hcontext]
    rfl
  rw [MessageChain.respond, think]
  show (Action.ofExcept (agent.parseInput hash.toHashOrder _) >>= _) = _
  rw [hparse]
  rcases assertTrue (isNotBlankString input.extractLatestPromptString = true)
    "should provide valid prompt input" with e | -
  · rfl
  · simp only [Except.map, Action.ofExcept_ok_bind, ReACTAgentExecutor.planner, result_pipes,
      List.foldl, result_template _ _ hsorted, result_model, Action.bind_assoc, Action.pure_bind,
      Option.elim_some, requireMessage_putMessage, parseResult_eq_decision]
    refine congrArg (Action.ofExcept _ >>= ·) (funext fun value => ?_)
    refine congrArg (agent.chatModel.ask value >>= ·) (funext fun reply => ?_)
    show Action.ofExcept ((decision reply.stringify.toList).map (Decision.toThought uuid.val)) = _
    cases decision reply.stringify.toList with
    | error e => rfl
    | ok decided => rfl

/-- The worker performs an action whose call has an id. -/
theorem worker_actThought (uuid id : Uuid) (act : Act) :
    agent.worker uuid (actThought id.val act.thought act.name act.arguments)
      = (perform agent act id).map fun observation =>
          { toolMessages := [{ content := observation, toolCallId := id.val }] } := by
  have hname : isBlankString (act.call id).functionOrDefault.name = false :=
    isNotBlankString_eq_true.mp (isNotBlankString_ofList_iff.mpr act.name_ne)
  have hid : isBlankString (act.call id).id = false := isNotBlankString_eq_true.mp id.property
  show ((invokeCall uuid (act.call id) agent.toolkits) >>= fun result =>
    if result.hasError then _ else _) = _
  cases htool : toolFor? agent.toolkits (act.call id) with
  | none =>
      simp only [invokeCall_of_none hname htool, perform, htool]
      rfl
  | some tool =>
      simp only [invokeCall_eq hname htool, BaseFunctionTool.invoke, hid, perform, htool]
      cases tool.run (act.call id) with
      | error e => rfl
      | ok result =>
          show (if result.hasError then _ else _) = Except.map _ (if result.hasError then _ else _)
          split
          · rfl
          · rfl

theorem state_previousSteps_last (rounds : List Round) (phase : Phase) {step : AgentStep}
    (h : phase.steps = [step]) :
    (Dialogue.state agent input ⟨rounds, phase⟩).previousSteps.getLast? = some step := by
  show (rounds.flatMap Round.steps ++ phase.steps).getLast? = _
  rw [h, List.getLast?_concat]

/-- Between two rounds there is no step, or an observation is the last. -/
theorem resolveNextStep_thinking (hash : HashOrder) (rounds : List Round) :
    agent.resolveNextStep hash (Dialogue.state agent input ⟨rounds, .thinking⟩)
      = (do
        let state := Dialogue.state agent input ⟨rounds, .thinking⟩
        let thought ← (agent.planner hash (agent.uuids (2 * rounds.length))).invoke hash state
        pure (.thought thought, state.addPreviousStep (.thought thought))) := by
  have hlength : (Dialogue.state agent input ⟨rounds, .thinking⟩).previousSteps.length
      = 2 * rounds.length := by
    show (rounds.flatMap Round.steps ++ []).length = _
    rw [List.append_nil, List.length_flatMap]
    simp [Round.steps, Nat.mul_comm]
  rw [ReACTAgentExecutor.resolveNextStep, hlength]
  rcases List.eq_nil_or_concat rounds with rfl | ⟨front, round, rfl⟩
  · rfl
  · have hlast : (Dialogue.state agent input ⟨front.concat round, .thinking⟩).previousSteps.getLast?
        = some (.observation { toolMessages :=
            [{ content := round.observation, toolCallId := round.id.val }] }) := by
      show ((front.concat round).flatMap Round.steps ++ []).getLast? = _
      rw [List.append_nil, List.concat_eq_append, List.flatMap_append, List.flatMap_singleton]
      exact List.getLast?_append_of_ne_nil _ (by nofun)
    simp only [hlast]

/-- Behind an action its tool is asked. -/
theorem resolveNextStep_acting (hash : HashOrder) (rounds : List Round) (act : Act) (id : Uuid) :
    agent.resolveNextStep hash (Dialogue.state agent input ⟨rounds, .acting act id⟩)
      = (do
        let state := Dialogue.state agent input ⟨rounds, .acting act id⟩
        let observation ← Action.ofExcept ((perform agent act id).map fun observation =>
          ({ toolMessages := [{ content := observation, toolCallId := id.val }] } :
            AgentObservation))
        pure (.observation observation, state.addPreviousStep (.observation observation))) := by
  have hlast := @state_previousSteps_last agent input rounds (.acting act id) _ rfl
  rw [ReACTAgentExecutor.resolveNextStep, hlast]
  show (Action.ofExcept (agent.worker _ (actThought id.val act.thought act.name act.arguments))
    >>= _) = _
  rw [worker_actThought]

/-- A thought is appended to whole rounds. -/
theorem addPreviousStep_thinking (rounds : List Round) {phase : Phase} {step : AgentStep}
    (h : phase.steps = [step]) :
    (Dialogue.state agent input ⟨rounds, .thinking⟩).addPreviousStep step
      = Dialogue.state agent input ⟨rounds, phase⟩ := by
  rw [AgentState.addPreviousStep, Dialogue.state, Dialogue.state, h]
  simp only [Phase.steps, List.append_nil]

/-- The observation of an action makes a round of it. -/
theorem addPreviousStep_acting (rounds : List Round) (act : Act) (id : Uuid)
    (observation : String) :
    (Dialogue.state agent input ⟨rounds, .acting act id⟩).addPreviousStep (.observation
        { toolMessages := [{ content := observation, toolCallId := id.val }] })
      = Dialogue.state agent input ⟨rounds ++ [⟨act, id, observation⟩], .thinking⟩ := by
  rw [AgentState.addPreviousStep, Dialogue.state, Dialogue.state, List.flatMap_append]
  simp only [Phase.steps, List.append_nil, List.append_assoc, List.flatMap_singleton]
  rfl

/-- **One step** of the executor adds contexts, and does what the dialogue does. -/
theorem resolveNextStep_simulates (hash : KeyOrder) (d : Dialogue)
    (m : Memory Json Conversation) :
    ∃ added, match d.next agent input.extractLatestPromptString m.world with
      | (.error e, c) => agent.resolveNextStep hash.toHashOrder (d.state agent input) m
          = (.error e, ⟨m.cells ++ added, c⟩)
      | (.ok d', c) => ∃ step : AgentStep, step.goesOn = d'.phase.goesOn ∧
          agent.resolveNextStep hash.toHashOrder (d.state agent input) m
            = (.ok (step, d'.state agent input), ⟨m.cells ++ added, c⟩) := by
  obtain ⟨rounds, phase⟩ := d
  cases phase with
  | thinking =>
      obtain ⟨added, hinvoke⟩ := invoke_eq_respond hash
        (agent.planner hash.toHashOrder (agent.uuids (2 * rounds.length)))
        (Dialogue.state agent input ⟨rounds, .thinking⟩) m
      rw [respond_planner] at hinvoke
      refine ⟨added, ?_⟩
      rw [resolveNextStep_thinking, Dialogue.next]
      simp only
      rcases hthink : think agent input.extractLatestPromptString rounds m.world
        with ⟨e | decided, c⟩
      · rw [Action.bind_of_error hthink] at hinvoke ⊢
        exact Action.bind_of_error hinvoke
      · rw [Action.bind_of_ok hthink] at hinvoke ⊢
        refine ⟨.thought (decided.toThought (agent.uuids (2 * rounds.length)).val), ?_, ?_⟩
        · cases decided with
          | call act => rfl
          | finish response => rfl
        · rw [Action.bind_of_ok hinvoke]
          have hsteps : (decided.phase (agent.uuids (2 * rounds.length))).steps
              = [.thought (decided.toThought (agent.uuids (2 * rounds.length)).val)] := by
            cases decided with
            | call act => rfl
            | finish response => rfl
          rw [addPreviousStep_thinking rounds hsteps]
          rfl
  | acting act id =>
      refine ⟨[], ?_⟩
      rw [resolveNextStep_acting, Dialogue.next]
      simp only
      cases perform agent act id with
      | error e =>
          rw [List.append_nil]
          rfl
      | ok observation =>
          refine ⟨.observation
            { toolMessages := [{ content := observation, toolCallId := id.val }] }, rfl, ?_⟩
          rw [List.append_nil, ← addPreviousStep_acting]
          rfl
  | answered response =>
      refine ⟨[], ?_⟩
      have hlast := @state_previousSteps_last agent input rounds (.answered response) _ rfl
      rw [ReACTAgentExecutor.resolveNextStep, hlast, List.append_nil]
      rfl

/-- A run of the executor is a run of the dialogue, by induction over its rounds. -/
theorem stream_simulates (hash : KeyOrder) (n : Nat) (d : Dialogue)
    (m : Memory Json Conversation) :
    ∃ added, stream (agent.resolveNextStep hash.toHashOrder) n (d.state agent input) m
      = ((d.run agent input.extractLatestPromptString n m.world).1.map (Dialogue.state agent input),
          (d.run agent input.extractLatestPromptString n m.world).2.1,
          ⟨m.cells ++ added, (d.run agent input.extractLatestPromptString n m.world).2.2⟩) := by
  induction n generalizing d m with
  | zero => exact ⟨[], by rw [List.append_nil]; rfl⟩
  | succ n ih =>
      obtain ⟨added, hstep⟩ := @resolveNextStep_simulates agent input hash d m
      rw [stream, Dialogue.run]
      rcases hnext : d.next agent input.extractLatestPromptString m.world with ⟨e | d', c⟩
      · rw [hnext] at hstep
        exact ⟨added, by rw [hstep]; rfl⟩
      · rw [hnext] at hstep
        obtain ⟨step, hgo, hresolve⟩ := hstep
        simp only [hresolve, hgo]
        split
        · obtain ⟨added', hrest⟩ := ih d' ⟨m.cells ++ added, c⟩
          refine ⟨added ++ added', ?_⟩
          rw [hrest, List.append_assoc]
          rfl
        · exact ⟨added, rfl⟩

end Simulation

/-! ### Runs -/

/-- **Main result.**  From an initial state the executor does what a dialogue does that has
neither rounds nor an action yet: it emits the states of the dialogues, ends as the dialogue ends,
and asks the model the same. -/
theorem stream_eq_dialogue (agent : ReACTAgentExecutor) (hash : KeyOrder) (input : PromptValue)
    (n : Nat) (m : Memory Json Conversation) :
    let run := Dialogue.run agent input.extractLatestPromptString n ⟨[], .thinking⟩ m.world
    ∃ added, stream (agent.resolveNextStep hash.toHashOrder) n (agent.initializeState input) m
      = (run.1.map (Dialogue.state agent input), run.2.1, ⟨m.cells ++ added, run.2.2⟩) :=
  stream_simulates hash n ⟨[], .thinking⟩ m

section Unbounded

variable {agent : ReACTAgentExecutor} {question : String}

/-- A model whose replies are all actions, with tools that answer. -/
def KeepsActing (agent : ReACTAgentExecutor) : Prop :=
  ∀ value c, ∃ reply c' act, agent.chatModel.ask value c = (.ok reply, c') ∧
    decision reply.stringify.toList = .ok (.call act) ∧
    ∀ id, ∃ observation, perform agent act id = .ok observation

/-- The tool of an action under way answers. -/
def Phase.Answers (agent : ReACTAgentExecutor) : Phase → Prop
  | .thinking => True
  | .acting act id => ∃ observation, perform agent act id = .ok observation
  | .answered _ => False

theorem next_of_keepsActing (hquestion : isNotBlankString question = true)
    (hformat : ∀ vars, ∃ value, agent.promptTemplate.formatPrompt vars = .ok value)
    (hact : KeepsActing agent) (d : Dialogue) (h : d.phase.Answers agent) (c : Conversation) :
    ∃ d' c', d.next agent question c = (.ok d', c') ∧ d'.phase.Answers agent := by
  obtain ⟨rounds, phase⟩ := d
  cases phase with
  | thinking =>
      obtain ⟨value, hvalue⟩ := hformat (agent.promptVariables (transcript rounds) question
        agent.allSchemas)
      obtain ⟨reply, c', act, hask, hdecision, hperform⟩ := hact value c
      have hthink : think agent question rounds c = (.ok (.call act), c') := by
        rw [think, assertTrue_of hquestion]
        simp only [Action.ofExcept_ok_bind, hvalue]
        rw [Action.bind_of_ok hask, hdecision]
        rfl
      exact ⟨⟨rounds, .acting act (agent.uuids (2 * rounds.length))⟩, c',
        Action.bind_of_ok hthink, hperform _⟩
  | acting act id =>
      obtain ⟨observation, hperform⟩ := h
      refine ⟨⟨rounds ++ [⟨act, id, observation⟩], .thinking⟩, c, ?_, trivial⟩
      rw [Dialogue.next]
      simp only [hperform, Action.ofExcept_ok_bind]
      rfl
  | answered response => exact h.elim

theorem length_run_of_keepsActing (hquestion : isNotBlankString question = true)
    (hformat : ∀ vars, ∃ value, agent.promptTemplate.formatPrompt vars = .ok value)
    (hact : KeepsActing agent) (n : Nat) (d : Dialogue) (h : d.phase.Answers agent)
    (c : Conversation) :
    (d.run agent question n c).1.length = n ∧ (d.run agent question n c).2.1 = none := by
  induction n generalizing d c with
  | zero => exact ⟨rfl, rfl⟩
  | succ n ih =>
      obtain ⟨d', c', hnext, h'⟩ := next_of_keepsActing hquestion hformat hact d h c
      have hgo : d'.phase.goesOn = true := by
        cases hphase : d'.phase with
        | thinking => rfl
        | acting act id => rfl
        | answered response =>
            rw [hphase] at h'
            exact h'.elim
      rw [Dialogue.run, hnext]
      simp only [hgo, if_true, List.length_cons]
      exact ⟨congrArg Nat.succ (ih d' h' c').1, (ih d' h' c').2⟩

end Unbounded

/-- **No number of rounds ends a run.**  As long as the model replies with actions and the tools
answer, the executor takes step after step: `max_react_loop` is not read. -/
theorem stream_goes_on (agent : ReACTAgentExecutor) (hash : KeyOrder) (input : PromptValue)
    (hquestion : isNotBlankString input.extractLatestPromptString = true)
    (hformat : ∀ vars, ∃ value, agent.promptTemplate.formatPrompt vars = .ok value)
    (hact : KeepsActing agent) (n : Nat) (m : Memory Json Conversation) :
    let run := stream (agent.resolveNextStep hash.toHashOrder) n (agent.initializeState input) m
    run.1.length = n ∧ run.2.1 = none := by
  obtain ⟨added, hstream⟩ := @stream_simulates agent input hash n ⟨[], .thinking⟩ m
  have hrun := length_run_of_keepsActing hquestion hformat hact n ⟨[], .thinking⟩ trivial m.world
  show (stream _ n (Dialogue.state agent input ⟨[], .thinking⟩) m).1.length = n ∧
    (stream _ n (Dialogue.state agent input ⟨[], .thinking⟩) m).2.1 = none
  rw [hstream, List.length_map]
  exact hrun

/-- A reply with an action. -/
def lookingReply : List Char := "I look.\nAction: look\nAction Input: x".toList

/-- An agent whose model looks again and again. -/
noncomputable def lookingAgent : ReACTAgentExecutor where
  formats := default
  promptTemplate := { formatPrompt := fun _ => .ok (.string "") }
  chatModel := chatModel fun _ _ => .ok [[{ text := String.ofList lookingReply }]]
  toolkits := [[{ name := String.ofList "look".toList, run := fun _ => .ok {} }]]
  allSchemas := []
  serializeParameters _ := ""
  shortDebugString _ := ""
  uuids _ := ⟨"0", by decide⟩

theorem keepsActing_lookingAgent : KeepsActing lookingAgent := by
  have hname : behindLast "Action: " (reSplitLines lookingReply) = "look".toList := by decide
  have hread : trim (behindLast "Action: " (reSplitLines lookingReply)) ≠ [] ∧
      trim (thoughtOf {} lookingReply) ≠ [] := by decide
  obtain ⟨act, hdecision, hact⟩ :
      ∃ act, decision lookingReply = .ok (.call act) ∧ act.name = "look".toList :=
    ⟨_, dif_pos hread, hname⟩
  refine fun value c => ⟨{ text := String.ofList lookingReply }, _, act, rfl, ?_, fun id => ?_⟩
  · show decision (String.ofList lookingReply).toList = _
    rw [String.toList_ofList, hdecision]
  · have htool : toolFor? lookingAgent.toolkits (act.call id)
        = some { name := String.ofList "look".toList, run := fun _ => .ok {} } := by
      rw [Act.call, hact]
      rfl
    exact ⟨"", by rw [perform, htool]; rfl⟩

/-- It goes on after six rounds. -/
theorem stream_goes_on_looking :
    let run := stream (lookingAgent.resolveNextStep KeyOrder.ofInsertion.toHashOrder) 14
      (lookingAgent.initializeState (.string "Where?")) ⟨[], {}⟩
    run.1.length = 14 ∧ run.2.1 = none :=
  stream_goes_on lookingAgent .ofInsertion (.string "Where?") (by decide) (fun _ => ⟨_, rfl⟩)
    keepsActing_lookingAgent 14 ⟨[], {}⟩

end Instinct.React
