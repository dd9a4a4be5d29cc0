/-
Instinct/Calls.lean

The calls that the task handler of a run makes, and what each of them does.

A call of a service is an action on the store.  A call that leaves the process
(chat model, planner, joiner, tool, citation chain) is answered by `Outside`,
which may answer anything or throw.  Nothing is assumed about two answers to the
same question.

`exec_keeps`, `exec_queue` and `exec_runSteps` say which calls can change which
table.
-/
import Instinct.Agent
import Instinct.RunServiceSpec

namespace Instinct

open Effects Tables

/-! ### Configuration -/

/-- `ModelProvider`. -/
inductive ModelProvider
  | openAI
  | ollama
  | «local»
  | llmStudio
  | llamaCPP
  deriving Repr, DecidableEq

/-- The options that `BuildAgentExecutor_` overrides on the chat model. -/
structure ModelOverrides where
  modelName : Option String := none
  temperature : Option Rat := none
  topP : Option Rat := none
  stopWords : List String := []
  deriving Repr, DecidableEq

structure FunctionToolResult where
  invocationId : String := ""
  returnValue : String := ""
  hasError : Bool := false
  exception : String := ""
  deriving Repr, DecidableEq

/-- What the output parser of the LLM compiler's planner reads out of a generation: the
whole text, its thought line, and the tasks of its plan with their call ids. -/
structure ParsedPlan where
  content : String := ""
  thoughtLine : String := ""
  tasks : List LLMCompilerTask := []
  joinCallId : String := ""
  deriving Repr, DecidableEq

/-- A toolkit, by the schemas of its function tools. -/
abbrev Toolkit := List FunctionTool

/-- What a task handler is built with. -/
structure HandlerConfig where
  provider : ModelProvider := .openAI
  agentExecutorName : String := ""
  /-- What loading the files of the ranking model throws, if it throws. -/
  rankingModelError : Option String := none
  /-- `ProtobufUtils::Deserialize` of a `SearchToolResponse`. -/
  deserializeSearchToolResponse : String → Except Exn (List SearchToolResponseEntry) :=
    fun _ => .ok []
  /-- `ChronoUtils::GetCurrentEpochMicroSeconds`. -/
  currentTime : Nat := 1
  /-- `ChronoUtils::GetLaterEpoch(10min)`. -/
  laterTime : Nat := 1

/-- `CreateLocalRankingModel`. -/
def HandlerConfig.createLocalRankingModel (config : HandlerConfig) : Except Exn Unit :=
  match config.rankingModelError with
  | none => .ok ()
  | some what => .error (.other what)

/-- How the world outside the process answers. -/
structure Outside where
  chatModel : ModelOverrides → PromptValue → List FunctionTool → Except Exn Message :=
    fun _ _ _ => .error (.other "no answer")
  planer : ModelOverrides → AgentState → Except Exn ParsedPlan :=
    fun _ _ => .error (.other "no answer")
  joiner : ModelOverrides → Option String → LLMCompilerTaskGraph →
      Except Exn LLMCompilerJoinerResult :=
    fun _ _ _ => .error (.other "no answer")
  tool : ToolCallObject → Except Exn FunctionToolResult :=
    fun _ => .error (.other "no answer")
  citations : CitationAnnotatingContext → Except Exn AnswerWithCitations :=
    fun _ => .error (.other "no answer")

/-! ### Calls -/

/-- The calls of the task handler. -/
inductive Call
  | retrieveRun (req : GetRunRequest)
  | modifyRun (req : ModifyRunRequest)
  | listRunSteps (req : ListRunStepsRequest)
  | listAllSteps (threadId runId : String)
  | createRunStep (req : RunStepObject)
  | modifyRunStep (req : ModifyRunStepRequest)
  | createRawMessage (message : MessageObject)
  | retrieveMessage (threadId messageId : String)
  | getLatestUserMessageObject (threadId : String)
  | retrieveAssistant (assistantId : String)
  | retrieveThread (threadId : String)
  | listAllVectorStoreObjectFiles (vectorStoreIds : List String)
  | getStatelessRetriever (vectorStoreIds : List String)
  | chatModel (overrides : ModelOverrides) (prompt : PromptValue) (tools : List FunctionTool)
  | planer (overrides : ModelOverrides) (state : AgentState)
  | joiner (overrides : ModelOverrides) (instructions : Option String)
      (graph : LLMCompilerTaskGraph)
  | tool (call : ToolCallObject)
  | citations (context : CitationAnnotatingContext)

/-- What a call returns. -/
@[reducible]
def Call.Res : Call → Type
  | retrieveRun _ => Option RunObject
  | modifyRun _ => Option RunObject
  | listRunSteps _ => ListResponse RunStepObject
  | listAllSteps _ _ => List RunStepObject
  | createRunStep _ => Option RunStepObject
  | modifyRunStep _ => Option RunStepObject
  | createRawMessage _ => Option MessageObject
  | retrieveMessage _ _ => Option MessageObject
  | getLatestUserMessageObject _ => Option MessageObject
  | retrieveAssistant _ => Option AssistantObject
  | retrieveThread _ => Option ThreadObject
  | listAllVectorStoreObjectFiles _ => List VectorStoreFileObject
  | getStatelessRetriever _ => Unit
  | chatModel _ _ _ => Message
  | planer _ _ => ParsedPlan
  | joiner _ _ _ => LLMCompilerJoinerResult
  | tool _ => FunctionToolResult
  | citations _ => AnswerWithCitations

/-- The code of the task handler. -/
abbrev HandlerM (α : Type) : Type := Program Exn Call.Res α

/-- Make one call. -/
abbrev perform (call : Call) : HandlerM call.Res := Program.perform call

/-- `VectorStoreServiceImpl::ListAllVectorStoreObjectFiles`. -/
def listAllVectorStoreObjectFiles (vectorStoreIds : List String) :
    ServiceM (List VectorStoreFileObject) := do
  assertNonEmptyRange vectorStoreIds "should provide at least vector store id"
  Action.gets fun s =>
    s.vectorStoreFiles.rows.filter fun file => vectorStoreIds.contains file.vectorStoreId

/-- `SimpleRetrieverOperator::GetStatelessRetriever`: every vector store is loaded. -/
def getStatelessRetriever (rankingModel : Except Exn Unit) (vectorStoreIds : List String) :
    ServiceM Unit := fun s =>
  ((do
    assertTrue (vectorStoreIds ≠ [])
    rankingModel
    vectorStoreIds.forM fun id => do
      assertNotBlank id "should have non-blank instance_id"
      assertTrue (id ∈ s.vectorStoreInstances) ("should have found vector store by id " ++ id)),
    s)

/-- What a call does. -/
def Call.exec (config : HandlerConfig) (outside : Outside) : (call : Call) → ServiceM call.Res
  | .retrieveRun req => Instinct.retrieveRun req
  | .modifyRun req => Instinct.modifyRun req
  | .listRunSteps req => Instinct.listRunSteps req
  | .listAllSteps threadId runId => Instinct.listAllSteps threadId runId
  | .createRunStep req => Instinct.createRunStep req
  | .modifyRunStep req => Instinct.modifyRunStep req
  | .createRawMessage message => Instinct.createRawMessage message
  | .retrieveMessage threadId messageId => Instinct.retrieveMessage threadId messageId
  | .getLatestUserMessageObject threadId => Instinct.getLatestUserMessageObject threadId
  | .retrieveAssistant assistantId => Instinct.retrieveAssistant assistantId
  | .retrieveThread threadId => Instinct.retrieveThread threadId
  | .listAllVectorStoreObjectFiles ids => Instinct.listAllVectorStoreObjectFiles ids
  | .getStatelessRetriever ids =>
      Instinct.getStatelessRetriever config.createLocalRankingModel ids
  | .chatModel overrides prompt tools => Action.ofExcept (outside.chatModel overrides prompt tools)
  | .planer overrides state => Action.ofExcept (outside.planer overrides state)
  | .joiner overrides instructions graph =>
      Action.ofExcept (outside.joiner overrides instructions graph)
  | .tool call => Action.ofExcept (outside.tool call)
  | .citations context => Action.ofExcept (outside.citations context)

/-! ### How a call may be answered -/

/-- Some answer of the world outside makes the call end like this. -/
def MayAnswer (config : HandlerConfig) (call : Call) (s : Store) (r : Except Exn call.Res)
    (s' : Store) : Prop :=
  ∃ outside, call.exec config outside s = (r, s')

/-- The call is answered by the services alone. -/
def Call.Internal : Call → Prop
  | .chatModel .. | .planer .. | .joiner .. | .tool _ | .citations _ => False
  | _ => True

/-- The services have one answer. -/
theorem mayAnswer_iff_exec {config : HandlerConfig} (outside : Outside) (call : Call) (s : Store)
    (r : Except Exn call.Res) (s' : Store) (h : call.Internal) :
    MayAnswer config call s r s' ↔ call.exec config outside s = (r, s') := by
  have hsame : ∀ outside', call.exec config outside' s = call.exec config outside s := by
    intro outside'
    cases call <;> first | rfl | exact h.elim
  exact ⟨fun ⟨outside', h'⟩ => (hsame outside').symm.trans h', fun h' => ⟨outside, h'⟩⟩

/-- What a program ensures however its calls are answered, holds of a run that returned. -/
theorem run_of_ensures {α : Type} {config : HandlerConfig} {outside : Outside} {p : HandlerM α}
    {Q : α → Store → Prop} {s s' : Store} {a : α} (h : p.Ensures (MayAnswer config) Q s)
    (hrun : p.run (Call.exec config outside) s = (.ok a, s')) : Q a s' := by
  have hQ := @Program.wp_run _ _ _ _ _ _ (Call.exec config outside) _ _ _
    (fun op s => ⟨outside, rfl⟩) h
  rw [hrun] at hQ
  exact hQ a rfl

/-- A program that asks the services alone has one run. -/
theorem wp_of_run {α : Type} {config : HandlerConfig} (outside : Outside) {p : HandlerM α}
    {Q : Except Exn α → Store → Prop} {s s' : Store} {r : Except Exn α}
    (hp : p.Calls Call.Internal) (hrun : p.run (Call.exec config outside) s = (r, s'))
    (h : Q r s') : p.wp (MayAnswer config) Q s := by
  refine (Program.wp_iff_run hp (mayAnswer_iff_exec outside)).mpr ?_
  rwa [hrun]

/-! ### Which call changes which table -/

/-- The calls that write. -/
def Call.writes : Call → Bool
  | .modifyRun _ | .createRunStep _ | .modifyRunStep _ | .createRawMessage _ => true
  | _ => false

/-- The run update that a call makes. -/
def Call.runUpdate? : Call → Option ModifyRunRequest
  | .modifyRun req => some req
  | _ => none

/-- The step update that a call makes. -/
def Call.stepUpdate? : Call → Option ModifyRunStepRequest
  | .modifyRunStep req => some req
  | _ => none

section Exec

variable {config : HandlerConfig} {outside : Outside}

theorem keeps_listAllSteps (threadId runId : String) :
    Action.Keeps id (listAllSteps threadId runId) := fun s =>
  keeps_collectPages keeps_listRunSteps _ _ s

theorem keeps_getLatestUserMessageObject (threadId : String) :
    Action.Keeps id (getLatestUserMessageObject threadId) := fun s =>
  keeps_searchPages keeps_listMessages _ _ _ s

/-- The other calls change nothing. -/
theorem exec_reads {call : Call} (h : call.writes = false) :
    Action.Keeps id (call.exec config outside) := by
  cases call with
  | retrieveRun req => exact keeps_retrieveRun req
  | listRunSteps req => exact keeps_listRunSteps req
  | listAllSteps threadId runId => exact keeps_listAllSteps threadId runId
  | retrieveMessage threadId messageId => exact keeps_retrieveMessage threadId messageId
  | getLatestUserMessageObject threadId => exact keeps_getLatestUserMessageObject threadId
  | retrieveAssistant assistantId => exact Action.keeps_gets _
  | retrieveThread threadId =>
      exact Action.keeps_bind (Action.keeps_liftM _) fun _ => Action.keeps_gets _
  | listAllVectorStoreObjectFiles ids =>
      exact Action.keeps_bind (Action.keeps_liftM _) fun _ => Action.keeps_gets _
  | getStatelessRetriever ids => exact fun _ => rfl
  | chatModel overrides prompt tools => exact fun _ => rfl
  | planer overrides state => exact fun _ => rfl
  | joiner overrides instructions graph => exact fun _ => rfl
  | tool call => exact fun _ => rfl
  | citations context => exact fun _ => rfl
  | _ => simp [Call.writes] at h

/-- Only `ModifyRun` changes anything but messages and run steps. -/
theorem exec_keeps {β : Type} {f : Store → β}
    (hf : ∀ s m t n k,
      f { s with messages := m, runSteps := t, clock := n, nextNumber := k } = f s)
    {call : Call} (h : call.runUpdate? = none) : Action.Keeps f (call.exec config outside) := by
  cases call with
  | modifyRun req => simp [Call.runUpdate?] at h
  | createRunStep req => exact keeps_createRunStep (fun s t n k => hf s s.messages t n k) req
  | modifyRunStep req =>
      exact keeps_modifyRunStep (fun s t => hf s s.messages t s.clock s.nextNumber) req
  | createRawMessage message =>
      exact keeps_createRawMessage (fun s m n k => hf s m s.runSteps n k) message
  | _ => exact Action.keeps_of_id (exec_reads rfl)

/-- `ModifyRun` changes nothing but runs. -/
theorem keeps_modifyRun {β : Type} {f : Store → β} (hf : ∀ s r, f { s with runs := r } = f s)
    (req : ModifyRunRequest) : Action.Keeps f (modifyRun req) := by
  intro s
  rcases modifyRun_cases req s with ⟨e, h⟩ | ⟨run, -, h⟩
  · rw [h]
  · rw [h]
    exact hf s _

/-- No call of the handler touches the queue. -/
theorem exec_queue (call : Call) : Action.Keeps Store.queue (call.exec config outside) := by
  cases call with
  | modifyRun req => exact keeps_modifyRun (fun _ _ => rfl) req
  | _ => exact exec_keeps (fun _ _ _ _ _ => rfl) rfl

/-- Only `ModifyRunStep` changes a step that is there; steps are added at the end. -/
theorem exec_runSteps {call : Call} (h : call.stepUpdate? = none) (s : Store) :
    ∃ extra, (call.exec config outside s).2.runSteps.rows = s.runSteps.rows ++ extra := by
  have hkeeps : Action.Keeps Store.runSteps (call.exec config outside) →
      ∃ extra, (call.exec config outside s).2.runSteps.rows = s.runSteps.rows ++ extra :=
    fun hk => ⟨[], by rw [hk s, List.append_nil]⟩
  cases call with
  | modifyRunStep req => simp [Call.stepUpdate?] at h
  | createRunStep req =>
      -- a new step is appended, or nothing happens
      rcases createRunStep_cases req s with ⟨e, -, hsteps⟩ | ⟨id, -, -, -, hrows⟩
      · exact ⟨[], (congrArg Table.rows hsteps).trans (List.append_nil _).symm⟩
      · exact ⟨_, hrows⟩
  | modifyRun req => exact hkeeps (keeps_modifyRun (fun _ _ => rfl) req)
  | createRawMessage message => exact hkeeps (keeps_createRawMessage (fun _ _ _ _ => rfl) message)
  | _ => exact hkeeps (Action.keeps_of_id (exec_reads rfl))

end Exec

end Instinct
