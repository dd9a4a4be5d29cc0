/-
Instinct/Handler.lean

The task handler of a run as a machine that makes one call at a time:
`RunObjectTaskHandler::Handle`, the stream it subscribes to and the worker,
planner and joiner that it gives to the executor.

A `Thread` is a thread of the task scheduler.  It is `idle`, or it works on a
payload: it sets up the executor, resolves the next step, hands the emitted
state to the subscriber, or hands an exception to it.  `Thread.next` makes the
next call of the thread's program; between two calls of a thread anything may
happen in the store.

`advance_wp` says once what a step of a program keeps.  The setup makes one
update (`setUp_writes`), and the parts of a session make none
(`Session.resolve_quiet`).
-/
import Instinct.Recover

namespace Instinct

open Effects

/-! ### The toolkit of a run -/

/-- `FILE_SEARCH_TOOL_NAME`. -/
def fileSearchToolName : String := "FileSearch"

/-- `details::create_description`. -/
def createDescription (files : List VectorStoreFileObject) : String :=
  let highlights := String.join (files.zipIdx.map fun (file, i) =>
    toString (i + 1) ++ ". " ++ file.summary ++ " ")
  "Use this tool for more context information if user question is relevant to the the knowledge "
    ++ "base which has following highlights: " ++ highlights ++ "."

/-- `CreateSummaryGuidedFileSearch`: the schema of the tool. -/
def createSummaryGuidedFileSearch (files : List VectorStoreFileObject) :
    Except Exn FunctionTool := do
  assertNonEmptyRange files
  pure { name := fileSearchToolName, description := createDescription files }

/-- The vector stores that a run searches: the first of the assistant, and the first of the
thread if it has any. -/
def searchedVectorStoreIds (assistant : AssistantObject) (thread : ThreadObject) : List String :=
  assistant.toolResources.fileSearchVectorStoreIds.take 1
    ++ thread.toolResources.fileSearchVectorStoreIds.take 1

/-- `RunObjectTaskHandler::BuildBuiltInToolkits_`. -/
def buildBuiltInToolkits (config : HandlerConfig) (assistant : AssistantObject)
    (thread : ThreadObject) : HandlerM Toolkit :=
  if hasFileSearch assistant then do
    assertTrue (0 < assistant.toolResources.fileSearchVectorStoreIds.length)
      "should have at least one VectorStore"
    let ids := searchedVectorStoreIds assistant thread
    let relatedFiles ← perform (.listAllVectorStoreObjectFiles ids)
    let _ ← perform (.getStatelessRetriever ids)
    config.createLocalRankingModel
    let fileSearchTool ← createSummaryGuidedFileSearch relatedFiles
    pure [fileSearchTool]
  else pure []

/-! ### Worker, planner and joiner -/

/-- The tool calls that a toolkit has a tool for.  Without a toolkit no name is looked up. -/
def filterToolCalls (toolkit : Toolkit) : List ToolCallObject → Except Exn (List ToolCallObject)
  | [] => pure []
  | call :: calls =>
      if toolkit = [] then pure []
      else do
        let name := call.functionOrDefault.name
        assertTrue (isNotBlankString name) "Lookup by name is supported only."
        let filtered ← filterToolCalls toolkit calls
        pure (if toolkit.any fun tool => tool.name = name then call :: filtered else filtered)

/-- `filtered_tool_calls.at(i)`. -/
def toolCallAt (filtered : List ToolCallObject) (i : Nat) : Except Exn ToolCallObject :=
  match filtered[i]? with
  | some call => .ok call
  | none => .error (.other "vector::_M_range_check")

/-- The message of a tool result. -/
def functionMessage (result : FunctionToolResult) : Except Exn Message :=
  if result.hasError then .error (.instinct result.exception)
  else .ok
    { role := "tool", toolCallId := result.invocationId, content := result.returnValue }

/-- Invoke the filtered calls at some indices, one after the other. -/
def invokeTools (filtered : List ToolCallObject) : List Nat → HandlerM (List Message)
  | [] => pure []
  | i :: is => do
      let call ← toolCallAt filtered i
      let result ← perform (.tool call)
      let message ← functionMessage result
      let messages ← invokeTools filtered is
      pure (message :: messages)

/-- The calls that the filtered ones are picked from are counted, not the filtered ones. -/
def invokeFiltered (filtered : List ToolCallObject) (count : Nat) : HandlerM AgentObservation :=
  if filtered = [] then pure {}
  else do
    let messages ← invokeTools filtered (List.range count)
    pure { toolMessages := messages }

/-- `LocalToolkitsWorker::Invoke`. -/
def localToolkitsWorker (toolkit : Toolkit) (thought : AgentThought) :
    HandlerM AgentObservation := do
  let toolCalls :=
    (((AgentStep.thought thought).mutableContinuation.toolCallMessage).getD {}).toolCalls
  let filtered ← filterToolCalls toolkit toolCalls
  invokeFiltered filtered toolCalls.length

/-- `prompt_value.mutable_chat()->add_messages()`. -/
def PromptValue.addMessage (prompt : PromptValue) (message : Message) : PromptValue :=
  .chat (prompt.chatMessages ++ [message])

/-- The messages that a step adds to the prompt of the planner. -/
def AgentStep.promptMessages : AgentStep → List Message
  | .thought (.continuation asked) => asked.toolCallMessage.toList
  | .observation seen => seen.toolMessages
  | _ => []

/-- `OpenAIToolAgentPlanner::Invoke`. -/
def openAIToolAgentPlanner (overrides : ModelOverrides) (state : AgentState) :
    HandlerM AgentThought := do
  let prompt := (state.previousSteps.flatMap AgentStep.promptMessages).foldl
    PromptValue.addMessage state.input
  let message ← perform (.chatModel overrides prompt state.functionTools)
  pure (if 0 < message.toolCalls.length then .continuation { toolCallMessage := some message }
    else .finish { response := message.content })

/-- The join that is filled in where the plan has none. -/
def joinTask (callId : String) (size : Nat) : LLMCompilerTask :=
  { index := size
    toolCall := { id := callId, type := .function, function := some { name := "join" } }
    dependencies := (List.range (size - 1)).map fun i => (i + 1 : Int) }

/-- `LLMCompilerPlanerThoughtOutputParser::ParseResult`, after the text was matched. -/
def ParsedPlan.thought (plan : ParsedPlan) : AgentThought :=
  if plan.tasks = [] then .finish { response := plan.content }
  else
    let first := plan.tasks.filter fun task => !task.isJoin && task.dependencies.isEmpty
    let tasks := if plan.tasks.any (·.isJoin) then plan.tasks
      else plan.tasks ++ [joinTask plan.joinCallId (plan.tasks.length + 1)]
    .continuation
      { toolCallMessage := some
          { content := plan.thoughtLine, toolCalls := first.map (·.toolCall) }
        custom := .taskGraph { tasks := tasks } }

/-- The planner that `CreateLLMCompilerPlaner` builds. -/
def llmCompilerPlaner (overrides : ModelOverrides) (state : AgentState) :
    HandlerM AgentThought := do
  let plan ← perform (.planer overrides state)
  pure plan.thought

/-! ### One execution of a run -/

/-- What stays fixed once the executor is built. -/
structure Session where
  /-- The run object of the payload: a copy of the row at the time it was enqueued. -/
  run : RunObject
  kind : ExecutorKind
  toolkit : Toolkit
  overrides : ModelOverrides
  instructions : Option String
  hasFileSearch : Bool
  deriving Repr, DecidableEq

/-- The parts that `BuildAgentExecutor_` gives to the executor. -/
def Session.parts (session : Session) : AgentParts Call.Res where
  shouldEarlyStop _ step :=
    checkRunObjectForExecution session.run.threadId session.run.id step
  planner state :=
    match session.kind with
    | .openAITool => openAIToolAgentPlanner session.overrides state
    | .llmCompiler => llmCompilerPlaner session.overrides state
  worker := localToolkitsWorker session.toolkit
  joiner graph := perform (.joiner session.overrides session.instructions graph)

/-- The first of two texts that is not blank. -/
def firstNotBlank (a b : String) : Option String :=
  if isNotBlankString a then some a else if isNotBlankString b then some b else none

/-- The overrides of `BuildAgentExecutor_`: the run goes before the assistant. -/
def modelOverrides (run : RunObject) (assistant : AssistantObject) : ModelOverrides :=
  { modelName := firstNotBlank run.model assistant.model
    temperature := run.temperature.or assistant.temperature
    topP := run.topP.or assistant.topP
    stopWords := ["<END_OF_PLAN>", "<END_OF_RESPONSE>"] }

/-- `LLMObjectFactory::CreateChatModel` and `CreateAgentExecutor`: which executor is built. -/
def createAgentExecutor (config : HandlerConfig) : Except Exn ExecutorKind :=
  if config.provider = .local then .error (.undefinedBehaviour "chat_model->Configure")
  else if config.agentExecutorName = "llm_compiler" then .ok .llmCompiler
  else do
    assertTrue (config.provider ≠ .ollama)
      "Should be Chat model of OpenAI when openai_tool_agent_executor"
    pure .openAITool

/-- `RunObjectTaskHandler::BuildAgentExecutor_`. -/
def buildAgentExecutor (config : HandlerConfig) (run : RunObject) (assistant : AssistantObject)
    (toolkit : Toolkit) : Except Exn Session := do
  let kind ← createAgentExecutor config
  pure
    { run := run
      kind := kind
      toolkit := toolkit
      overrides := modelOverrides run assistant
      instructions := firstNotBlank run.instructions assistant.instructions
      hasFileSearch := hasFileSearch assistant }

/-- The update with which `Handle` takes the run. -/
def startRequest (config : HandlerConfig) (run : RunObject) : ModifyRunRequest :=
  { runId := run.id
    threadId := run.threadId
    status := .inProgress
    startedAt := config.currentTime
    expiresAt := config.laterTime }

/-- From the recovered state on: `none` where there is none. -/
def startSession (config : HandlerConfig) (run : RunObject) (assistant : AssistantObject)
    (toolkit : Toolkit) : Option AgentState → HandlerM (Option (Session × AgentState))
  | none => pure none
  | some state => do
      let session ← buildAgentExecutor config run assistant toolkit
      pure (some (session, state))

/-- The setup, once the run is taken. -/
def prepare (config : HandlerConfig) (run : RunObject) :
    HandlerM (Option (Session × AgentState)) := do
  let assistant? ← perform (.retrieveAssistant run.assistantId)
  assertTrue assistant?.isSome ("Failed to get assistant object with id: " ++ run.assistantId)
  let assistant := assistant?.getD {}
  let thread? ← perform (.retrieveThread run.threadId)
  assertTrue thread?.isSome ("Thread is missing. id=" ++ run.threadId)
  let localToolkit ← buildBuiltInToolkits config assistant (thread?.getD {})
  let state? ← recoverAgentState run localToolkit
  startSession config run assistant localToolkit state?

/-- `RunObjectTaskHandler::Handle` up to the stream.  `none`: it returns early. -/
def setUp (config : HandlerConfig) (run : RunObject) :
    HandlerM (Option (Session × AgentState)) := do
  let updated? ← perform (.modifyRun (startRequest config run))
  match updated? with
  | none => pure none
  | some _ => prepare config run

/-! ### The subscriber -/

/-- The local variables of `Handle` that its subscriber writes. -/
structure Locals where
  lastFileSearchCallIds : List String := []
  retrievedEntries : List SearchToolResponseEntry := []
  deriving Repr, DecidableEq

/-- The ids of the file search calls of a message. -/
def fileSearchCallIds (message : Message) : List String :=
  (message.toolCalls.filter fun call =>
    call.functionOrDefault.name = fileSearchToolName).map (·.id)

/-- The entries of the tool messages that answer a file search call. -/
def searchEntries (config : HandlerConfig) (callIds : List String) :
    List Message → Except Exn (List SearchToolResponseEntry)
  | [] => pure []
  | message :: messages =>
      if callIds.contains message.toolCallId then do
        let entries ← config.deserializeSearchToolResponse message.content
        let rest ← searchEntries config callIds messages
        pure (entries ++ rest)
      else searchEntries config callIds messages

/-- The local variables after a continuation. -/
def Locals.continued (locals : Locals) (session : Session) (message : Message) : Locals :=
  if session.hasFileSearch then { locals with lastFileSearchCallIds := fileSearchCallIds message }
  else locals

/-- The local variables after an observation. -/
def Locals.observed (config : HandlerConfig) (locals : Locals) (session : Session)
    (messages : List Message) : Except Exn Locals :=
  if session.hasFileSearch then do
    let entries ← searchEntries config locals.lastFileSearchCallIds messages
    pure { locals with retrievedEntries := locals.retrievedEntries ++ entries }
  else pure locals

/-- The subscriber of `Handle`: it acts on the last step of the emitted state. -/
def onNext (config : HandlerConfig) (session : Session) (locals : Locals) (state : AgentState) :
    HandlerM Locals :=
  match state.previousSteps.getLast? with
  | none => .raise (.undefinedBehaviour "current_state.previous_steps().rbegin()")
  | some (.thought (.continuation { toolCallMessage := some message, custom })) => do
      let continuation := { toolCallMessage := some message, custom := custom }
      onAgentContinuation continuation session.run
      pure (locals.continued session message)
  | some (.thought (.pause { toolCallMessage := some message, completed, custom })) => do
      let pause := { toolCallMessage := some message, completed := completed, custom := custom }
      onAgentPause pause session.run
      pure locals
  | some (.thought (.finish finish)) => do
      onAgentFinish config.currentTime { finish with question := state.input } session.run
        locals.retrievedEntries
      pure locals
  | some (.observation observation) =>
      if 0 < observation.toolMessages.length then do
        let locals ← locals.observed config session observation.toolMessages
        onAgentObservation observation session.run
        pure locals
      else pure locals
  | some _ => pure locals

/-- The error that an exception becomes. -/
def earlyStopError : Exn → RunStepError
  | .client what => { type := .invalidRequestError, message := what }
  | .instinct what => { type := .serverError, message := what }
  | .runtime what => { type := .serverError, message := what }
  | _ => { type := .serverError, message := "Uncaught exception" }

/-- The error callback of `Handle`. -/
def onError (config : HandlerConfig) (run : RunObject) (e : Exn) : HandlerM Unit :=
  onAgentFinish config.currentTime
    { isFailed := true, details := .earlyStop { error := some (earlyStopError e) } } run []

/-! ### Threads of the scheduler -/

/-- A thread of the task scheduler, and the part of `Handle` that it still has to run. -/
inductive Thread
  | idle
  /-- The behaviour of the thread is undefined. -/
  | broken
  | setup (run : RunObject) (program : HandlerM (Option (Session × AgentState)))
  | resolving (session : Session) (locals : Locals) (program : HandlerM (AgentStep × AgentState))
  | notifying (session : Session) (step : AgentStep) (state : AgentState)
      (program : HandlerM Locals)
  | failing (session : Session) (program : HandlerM Unit)

/-- `RunObjectTaskHandler::Handle` on a payload. -/
def Thread.handle (config : HandlerConfig) (run : RunObject) : Thread :=
  if run.status = .queued then .setup run (setUp config run) else .idle

/-- The next round of the stream. -/
def Thread.resolve (session : Session) (locals : Locals) (state : AgentState) : Thread :=
  .resolving session locals (resolveNextStep session.kind session.parts state)

/-- The stream hands an exception to the subscriber. -/
def Thread.fail (config : HandlerConfig) (session : Session) : Exn → Thread
  | .undefinedBehaviour _ => .broken
  | e => .failing session (onError config session.run e)

/-- An exception leaves `Handle`; the scheduler catches it. -/
def Thread.escape : Exn → Thread
  | .undefinedBehaviour _ => .broken
  | _ => .idle

/-- After the setup. -/
def Thread.afterSetup : Except Exn (Option (Session × AgentState)) → Thread
  | .ok (some (session, state)) => .resolve session {} state
  | .ok none => .idle
  | .error e => .escape e

/-- After a round of the stream: its state is emitted. -/
def Thread.afterResolve (config : HandlerConfig) (session : Session) (locals : Locals) :
    Except Exn (AgentStep × AgentState) → Thread
  | .ok (step, state) => .notifying session step state (onNext config session locals state)
  | .error e => .fail config session e

/-- After the subscriber: the loop goes on, or the stream is completed. -/
def Thread.afterNotify (config : HandlerConfig) (session : Session) (step : AgentStep)
    (state : AgentState) : Except Exn Locals → Thread
  | .ok locals => if step.goesOn then .resolve session locals state else .idle
  | .error e => .fail config session e

/-- After the error callback. -/
def Thread.afterFailure : Except Exn Unit → Thread
  | .ok _ => .idle
  | .error e => .escape e

/-- Make the next call of a program, or go on from its end. -/
def advance {α : Type} (config : HandlerConfig) (outside : Outside) (resume : HandlerM α → Thread)
    (finish : Except Exn α → Thread) (s : Store) : HandlerM α → Thread × Store
  | .call op k => (resume (k (op.exec config outside s).1), (op.exec config outside s).2)
  | .ret a => (finish (.ok a), s)
  | .raise e => (finish (.error e), s)

/-- One step of a thread. -/
def Thread.next (config : HandlerConfig) (outside : Outside) (s : Store) :
    Thread → Thread × Store
  | .idle => (.idle, s)
  | .broken => (.broken, s)
  | .setup run p => advance config outside (.setup run) .afterSetup s p
  | .resolving session locals p =>
      advance config outside (.resolving session locals) (.afterResolve config session locals) s p
  | .notifying session step state p =>
      advance config outside (.notifying session step state)
        (.afterNotify config session step state) s p
  | .failing session p => advance config outside (.failing session) .afterFailure s p

/-! ### What a step can be -/

section Advance

variable {config : HandlerConfig} {outside : Outside} {α : Type}

/-- A step of a program keeps what its calls have to keep, and reaches its postcondition. -/
theorem advance_wp {resume : HandlerM α → Thread} {finish : Except Exn α → Thread}
    {Q : Except Exn α → Store → Prop} {I : Thread → Store → Prop} {p : HandlerM α} {s : Store}
    (hp : p.wp (MayAnswer config) Q s)
    (hresume : ∀ p' s', p'.wp (MayAnswer config) Q s' → I (resume p') s')
    (hfinish : ∀ r, Q r s → I (finish r) s) :
    I (advance config outside resume finish s p).1
      (advance config outside resume finish s p).2 := by
  cases p with
  | ret a => exact hfinish _ hp
  | raise e => exact hfinish _ hp
  | call op k => exact hresume _ _ (hp _ _ ⟨outside, rfl⟩)

end Advance

/-! ### What the parts of a session do -/

/-- The planners think of a continuation or of a finish. -/
def AgentThought.IsPlanned : AgentThought → Prop
  | .continuation _ => True
  | .finish _ => True
  | _ => False

section Session

variable (session : Session)

theorem planner_returns (state : AgentState) :
    (session.parts.planner state).Returns AgentThought.IsPlanned := by
  unfold Session.parts
  cases session.kind with
  | openAITool =>
      refine (Program.returns_perform_bind _ _).mpr fun message => ?_
      show AgentThought.IsPlanned (if _ then _ else _)
      split <;> trivial
  | llmCompiler =>
      refine (Program.returns_perform_bind _ _).mpr fun plan => ?_
      show AgentThought.IsPlanned (if _ then _ else _)
      split <;> trivial

theorem perform_quiet {call : Call} (h : call.Quiet) : (perform call).Calls Call.Quiet :=
  (Program.calls_perform call).mpr h

theorem invokeTools_quiet (filtered : List ToolCallObject) (is : List Nat) :
    (invokeTools filtered is).Calls Call.Quiet := by
  induction is with
  | nil => trivial
  | cons i is ih =>
      refine Program.calls_bind (Program.calls_ofExcept _) fun call => ?_
      refine Program.calls_bind (perform_quiet ⟨rfl, rfl⟩) fun result => ?_
      refine Program.calls_bind (Program.calls_ofExcept _) fun message => ?_
      exact Program.calls_bind ih fun _ => trivial

theorem worker_quiet (toolkit : Toolkit) (thought : AgentThought) :
    (localToolkitsWorker toolkit thought).Calls Call.Quiet := by
  refine Program.calls_bind (Program.calls_ofExcept _) fun filtered => ?_
  unfold invokeFiltered
  split
  · trivial
  · exact Program.calls_bind (invokeTools_quiet _ _) fun _ => trivial

theorem checkRunObjectForExecution_quiet (threadId runId : String) (step : AgentStep) :
    (checkRunObjectForExecution threadId runId step).Calls Call.Quiet := by
  refine Program.calls_bind (perform_quiet ⟨rfl, rfl⟩) fun run? => ?_
  cases run? with
  | none => trivial
  | some run =>
      show Program.Calls _ (if _ then _ else _)
      split
      · trivial
      · split <;> trivial

/-- The parts of a session update neither runs nor steps. -/
theorem Session.parts_quiet : session.parts.Calls Call.Quiet where
  shouldEarlyStop _ step := checkRunObjectForExecution_quiet _ _ step
  planner state := by
    unfold Session.parts
    cases session.kind with
    | openAITool => exact Program.calls_bind (perform_quiet ⟨rfl, rfl⟩) fun _ => trivial
    | llmCompiler => exact Program.calls_bind (perform_quiet ⟨rfl, rfl⟩) fun _ => trivial
  worker thought := worker_quiet _ thought
  joiner _ := perform_quiet ⟨rfl, rfl⟩

theorem Session.resolve_quiet (state : AgentState) :
    (resolveNextStep session.kind session.parts state).Calls Call.Quiet :=
  calls_resolveNextStep session.kind session.parts_quiet

end Session

/-! ### What the setup does -/

/-- The call asks the services, and changes nothing. -/
def Call.Reads (call : Call) : Prop := call.writes = false ∧ call.Internal

section SetUp

variable {run : RunObject}

theorem perform_reads {call : Call} (h : call.Reads) : (perform call).Calls Call.Reads :=
  (Program.calls_perform call).mpr h

theorem previousContent_reads (previous : Option RunStepObject) :
    (previousContent run previous).Calls Call.Reads := by
  cases previous with
  | none => trivial
  | some previous =>
      simp only [previousContent]
      split
      · exact Program.calls_bind (perform_reads ⟨rfl, trivial⟩) fun _ => trivial
      · trivial

theorem loadStep_reads (isLast : Bool) (previous : Option RunStepObject) (step : RunStepObject) :
    (loadStep run isLast previous step).Calls Call.Reads := by
  unfold loadStep
  split
  · split
    · trivial
    · exact Program.calls_bind (previousContent_reads _) fun _ => trivial
  · split
    · exact Program.calls_bind (perform_reads ⟨rfl, trivial⟩) fun _ => trivial
    · trivial
  · trivial

theorem loadSteps_reads (previous : Option RunStepObject) (steps : List RunStepObject) :
    (loadSteps run previous steps).Calls Call.Reads := by
  induction steps generalizing previous with
  | nil => trivial
  | cons step steps ih =>
      refine Program.calls_bind (loadStep_reads _ _ _) fun loaded? => ?_
      cases loaded? with
      | none => trivial
      | some loaded => exact Program.calls_bind (ih _) fun _ => trivial

theorem recoverAgentState_reads (toolkit : Toolkit) :
    (recoverAgentState run toolkit).Calls Call.Reads := by
  have hload : (loadAgentStateFromRun run).Calls Call.Reads := by
    unfold loadAgentStateFromRun
    split
    · trivial
    · refine Program.calls_bind (perform_reads ⟨rfl, trivial⟩) fun message? => ?_
      split
      · trivial
      · refine Program.calls_bind (perform_reads ⟨rfl, trivial⟩) fun steps => ?_
        exact Program.calls_bind (loadSteps_reads _ _) fun _ => trivial
  -- the steps first, then the tools of the assistant
  refine Program.calls_bind hload fun state? => ?_
  cases state? with
  | none => trivial
  | some state =>
      refine Program.calls_bind (perform_reads ⟨rfl, trivial⟩) fun assistant? => ?_
      exact Program.calls_bind (Program.calls_ofExcept _) fun _ => trivial

theorem buildBuiltInToolkits_reads (config : HandlerConfig) (assistant : AssistantObject)
    (thread : ThreadObject) :
    (buildBuiltInToolkits config assistant thread).Calls Call.Reads := by
  unfold buildBuiltInToolkits
  split
  · refine Program.calls_bind (Program.calls_ofExcept _) fun _ => ?_
    refine Program.calls_bind (perform_reads ⟨rfl, trivial⟩) fun files => ?_
    refine Program.calls_bind (perform_reads ⟨rfl, trivial⟩) fun _ => ?_
    refine Program.calls_bind (Program.calls_ofExcept _) fun _ => ?_
    exact Program.calls_bind (Program.calls_ofExcept _) fun _ => trivial
  · trivial

theorem startSession_reads (config : HandlerConfig) (assistant : AssistantObject)
    (toolkit : Toolkit) (state? : Option AgentState) :
    (startSession config run assistant toolkit state?).Calls Call.Reads := by
  cases state? with
  | none => trivial
  | some state => exact Program.calls_bind (Program.calls_ofExcept _) fun _ => trivial

/-- Once the run is taken, the setup only reads. -/
theorem prepare_reads (config : HandlerConfig) : (prepare config run).Calls Call.Reads := by
  refine Program.calls_bind (perform_reads ⟨rfl, trivial⟩) fun assistant? => ?_
  refine Program.calls_bind (Program.calls_ofExcept _) fun _ => ?_
  refine Program.calls_bind (perform_reads ⟨rfl, trivial⟩) fun thread? => ?_
  refine Program.calls_bind (Program.calls_ofExcept _) fun _ => ?_
  refine Program.calls_bind (buildBuiltInToolkits_reads _ _ _) fun toolkit => ?_
  refine Program.calls_bind (recoverAgentState_reads _) fun state? => ?_
  exact startSession_reads _ _ _ _

/-- The setup makes one update: it sets the run to `in_progress`. -/
theorem setUp_writes (config : HandlerConfig) :
    (setUp config run).Calls (Call.WritesRun run (· = .inProgress)) := by
  refine Program.calls_bind (perform_writes (modifyRun_writes rfl rfl rfl)) fun updated? => ?_
  cases updated? with
  | none => trivial
  | some updated =>
      exact Program.calls_mono (prepare_reads config) fun call h =>
        (quiet_of_reads h.1).writesRun run _

theorem setUp_internal (config : HandlerConfig) : (setUp config run).Calls Call.Internal := by
  refine Program.calls_bind ((Program.calls_perform _).mpr trivial) fun updated? => ?_
  cases updated? with
  | none => trivial
  | some updated => exact Program.calls_mono (prepare_reads config) fun call h => h.2

end SetUp

end Instinct
