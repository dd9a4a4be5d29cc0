/-
Instinct/ThreadRows.lean

The rows of a thread: its runs, their steps and its messages.

A service call that names another thread leaves them as they are, and a handler
names no thread but that of its run, whatever the agent answers (`KeepsTo`, which
holds from `Thread.handle` on).  So a step of a thread of the scheduler that works
on a run of another thread changes none of these rows (`rowsOf_next`).
-/
import Instinct.ListRuns
import Instinct.NewThreads
import Instinct.Threads

namespace Instinct

open Effects Tables

/-! ### Rows -/

/-- What the store holds of a thread. -/
@[ext]
structure ThreadRows where
  runs : List RunObject
  runSteps : List RunStepObject
  messages : List MessageObject

/-- The rows with the id of a thread. -/
def Store.rowsOf (s : Store) (threadId : String) : ThreadRows where
  runs := s.threadRuns threadId
  runSteps := s.runSteps.rows.filter fun step => step.threadId = threadId
  messages := s.messages.rows.filter fun message => message.threadId = threadId

section Rows

variable {s s' : Store} {t : String}

/-- An update of a run of another thread. -/
theorem rowsOf_assignRun {req : ModifyRunRequest} (h : req.threadId ≠ t) :
    (s.assignRun req).rowsOf t = s.rowsOf t := by
  refine ThreadRows.ext ?_ rfl rfl
  refine Table.filter_update_other s.runs _ _ (fun run => run.id_assign req) (fun _ h => h)
    (fun run => rfl) fun run hrun => ?_
  obtain rfl := of_decide_eq_true hrun
  exact Bool.eq_false_iff.mpr fun hnames => h (isRun_eq_true.mp hnames).1.symm

/-- An update of a step of another thread. -/
theorem rowsOf_assignRunStep {req : ModifyRunStepRequest} (h : req.threadId ≠ t) :
    (s.assignRunStep req).rowsOf t = s.rowsOf t := by
  refine ThreadRows.ext rfl ?_ rfl
  refine Table.filter_update_other s.runSteps _ _ (fun step => step.id_assign req) (fun _ h => h)
    (fun step => rfl) fun step hstep => ?_
  obtain rfl := of_decide_eq_true hstep
  exact Bool.eq_false_iff.mpr fun hnames => h (isRunStep_eq_true.mp hnames).2.1.symm

/-- A row that a condition does not select is added. -/
theorem filter_append_of_false {α : Type} {q : α → Bool} {rows : List α} {row : α}
    (h : q row = false) : (rows ++ [row]).filter q = rows.filter q := by
  rw [List.filter_append, List.filter_cons_of_neg (by rw [h]; exact Bool.false_ne_true),
    List.filter_nil, List.append_nil]

end Rows

/-! ### Service calls -/

section Services

variable {t : String}

theorem keeps_modifyRun_other {req : ModifyRunRequest} (h : req.threadId ≠ t) :
    Action.Keeps (·.rowsOf t) (modifyRun req) := by
  intro s
  rcases modifyRun_cases req s with ⟨e, he⟩ | ⟨run, -, hok⟩
  · rw [he]
  · rw [hok]
    exact rowsOf_assignRun h

theorem keeps_modifyRunStep_other {req : ModifyRunStepRequest} (h : req.threadId ≠ t) :
    Action.Keeps (·.rowsOf t) (modifyRunStep req) := by
  intro s
  rcases modifyRunStep_cases req s with he | hok
  · rw [he]
  · rw [hok]
    exact rowsOf_assignRunStep h

theorem keeps_generateId_rowsOf (kind : String) :
    Action.Keeps (·.rowsOf t) (generateId kind) := fun _ => rfl

theorem keeps_insertOneRunStep_other {step : RunStepObject} {hid : isBlankString step.id = false}
    (h : step.threadId ≠ t) : Action.Keeps (·.rowsOf t) (insertOneRunStep step hid) := by
  intro s
  rcases insertOneRunStep_cases step hid s with he | ⟨table, htable, hok⟩
  · rw [he]
  · rw [hok]
    refine ThreadRows.ext rfl ?_ rfl
    show table.rows.filter _ = _
    rw [Table.rows_insert htable]
    exact filter_append_of_false (decide_eq_false h)

theorem keeps_createRunStep_other {req : RunStepObject} (h : req.threadId ≠ t) :
    Action.Keeps (·.rowsOf t) (createRunStep req) := by
  unfold createRunStep
  refine Action.keeps_bind (Action.keeps_liftM _) fun _ => ?_
  refine Action.keeps_bind (keeps_generateId_rowsOf _) fun id => ?_
  refine Action.keeps_bind (keeps_insertOneRunStep_other h) fun _ => ?_
  exact Action.keeps_of_id (keeps_getRunStep _)

theorem keeps_createRawMessage_other {message : MessageObject} (h : message.threadId ≠ t) :
    Action.Keeps (·.rowsOf t) (createRawMessage message) := by
  unfold createRawMessage
  refine Action.keeps_bind (keeps_generateId_rowsOf _) fun id => ?_
  refine Action.keeps_bind ?_ fun _ => Action.keeps_of_id (keeps_retrieveMessage _ _)
  refine Action.keeps_bind (Action.keeps_liftM _) fun _ s => ?_
  rcases insertRow_cases (·.messages) (fun t s => { s with messages := t })
    (MessageObject.columns { message with id := id.val }) (fun _ => id.property) s with
    ⟨-, he⟩ | ⟨table, htable, hok⟩
  · rw [he]
  · rw [hok]
    refine ThreadRows.ext rfl rfl ?_
    show table.rows.filter _ = _
    rw [Table.rows_insert htable]
    exact filter_append_of_false (decide_eq_false h)

/-- The rows of one insert are messages of its thread. -/
theorem filter_insertMessageRows {now : Nat} {messages : List NewMessage}
    {table table' : Table MessageObject.id fun row => isBlankString row.id = false}
    (h : ∀ message ∈ messages, message.val.threadId ≠ t)
    (hinsert : insertMessageRows now messages table = some table') :
    (table'.rows.filter fun message => message.threadId = t)
      = table.rows.filter fun message => message.threadId = t := by
  induction messages generalizing table with
  | nil =>
      obtain rfl := Option.some.inj hinsert
      rfl
  | cons message messages ih =>
      obtain ⟨hfirst, hrest⟩ := List.forall_mem_cons.mp h
      obtain ⟨next, hnext, hinsert⟩ := Option.bind_eq_some_iff.mp hinsert
      rw [ih hrest hinsert, Table.rows_insert hnext]
      exact filter_append_of_false (decide_eq_false hfirst)

theorem threadId_numberedMessages (runId threadId : String) (now number : Nat)
    (requests : List CreateMessageRequest) :
    ∀ message ∈ numberedMessages runId threadId now number requests,
      message.val.threadId = threadId := by
  induction requests generalizing number with
  | nil => exact fun _ h => absurd h List.not_mem_nil
  | cons request requests ih => exact List.forall_mem_cons.mpr ⟨rfl, ih (number + 1)⟩

theorem keeps_insertNewMessages_other {threadId : String} (h : threadId ≠ t) (runId : String)
    (requests : List CreateMessageRequest) :
    Action.Keeps (·.rowsOf t) (insertNewMessages runId threadId requests) := by
  refine Action.keeps_ite (Action.keeps_pure _) fun s => ?_
  rw [Action.bind_of_ok (newMessages_eq runId threadId requests s)]
  have hmany : ∀ messages : List NewMessage, (∀ message ∈ messages, message.val.threadId ≠ t) →
      Action.Keeps (·.rowsOf t) (insertManyMessages messages) := by
    intro messages hmessages
    refine Action.keeps_bind (Action.keeps_liftM _) fun _ s => ?_
    split
    · next table hinsert =>
        exact ThreadRows.ext rfl rfl (filter_insertMessageRows hmessages hinsert)
    · rfl
  refine Action.keeps_bind (hmany _ fun message hmessage => ?_) (fun _ => Action.keeps_liftM _) _
  rw [threadId_numberedMessages _ _ _ _ _ message hmessage]
  exact h

theorem keeps_startRun_other {threadId : String} (hthread : isBlankString threadId = false)
    (h : threadId ≠ t) (options : RunOptions) (model : String)
    (toolResources : Option AssistantToolResources)
    (runId : { id : String // isBlankString id = false }) (assistantId : String) :
    Action.Keeps (·.rowsOf t)
      (startRun options model toolResources runId threadId assistantId) := by
  intro s
  rcases startRun_cases options model toolResources runId hthread assistantId s with
    ⟨e, -, he⟩ | ⟨-, table, htable, hok⟩
  · rw [he]
  · rw [hok]
    refine ThreadRows.ext ?_ rfl rfl
    show table.rows.filter _ = _
    rw [Table.rows_insert htable]
    exact filter_append_of_false (decide_eq_false h)

/-- A run is created in another thread. -/
theorem rowsOf_createRun {req : CreateRunRequest} (h : req.threadId ≠ t) (s : Store) :
    (createRun req s).2.rowsOf t = s.rowsOf t := by
  let P : Except Exn (Option RunObject) × Store → Prop := fun r => r.2.rowsOf t = s.rowsOf t
  show P (createRun req s)
  unfold createRun
  refine Action.bind_elim_liftM (P := P) (fun _ _ => rfl) fun _ hthread => ?_
  refine Action.keeps_bind (f := (·.rowsOf t)) (Action.keeps_liftM _) (fun _ => ?_) s
  refine Action.keeps_bind (Action.keeps_liftM _) fun _ => ?_
  refine Action.keeps_bind (Action.keeps_liftM _) fun _ => ?_
  refine Action.keeps_bind (keeps_generateId_rowsOf _) fun runId => ?_
  refine Action.keeps_bind (keeps_insertNewMessages_other h _ _) fun _ => ?_
  exact keeps_startRun_other (assertNotBlank_eq_ok.mp hthread) h _ _ _ runId _

/-- What a request stores once its two ids are drawn. -/
theorem keeps_store_other (req : CreateThreadAndRunRequest)
    (runId : { id : String // isBlankString id = false })
    {threadId : { id : String // isBlankString id = false }} (h : threadId.val ≠ t) :
    Action.Keeps (·.rowsOf t) (req.store runId threadId) := by
  unfold CreateThreadAndRunRequest.store
  refine Action.keeps_bind (keeps_insertRow fun _ _ _ => rfl) fun _ => ?_
  refine Action.keeps_bind (keeps_insertNewMessages_other h _ _) fun _ => ?_
  exact keeps_startRun_other threadId.property h _ _ _ runId _

/-- A new thread has the second id that its request draws. -/
theorem rowsOf_createThreadAndRun {req : CreateThreadAndRunRequest} {s : Store}
    (h : generateNextObjectId "thread" (s.nextNumber + 1) ≠ t) :
    (createThreadAndRun req s).2.rowsOf t = s.rowsOf t := by
  let P : Except Exn (Option RunObject) × Store → Prop := fun r => r.2.rowsOf t = s.rowsOf t
  show P (createThreadAndRun req s)
  unfold createThreadAndRun
  refine Action.bind_elim_liftM (P := P) (fun _ _ => rfl) fun _ _ => ?_
  refine Action.bind_elim_liftM (P := P) (fun _ _ => rfl) fun _ _ => ?_
  refine Action.bind_elim_liftM (P := P) (fun _ _ => rfl) fun _ _ => ?_
  refine Action.bind_elim_liftM (P := P) (fun _ _ => rfl) fun _ _ => ?_
  refine Action.bind_elim_liftM (P := P) (fun _ _ => rfl) fun _ _ => ?_
  exact @keeps_store_other t req (generatedId "run" s.nextNumber)
    (generatedId "thread" (s.nextNumber + 1)) h { s with nextNumber := s.nextNumber + 2 }

theorem rowsOf_submit {s : Store} {req : SubmitToolOutputsToRunRequest} {run : RunObject}
    {step : RunStepObject} (h : req.threadId ≠ t) :
    (s.submit req run step).rowsOf t = s.rowsOf t :=
  (@rowsOf_assignRun (s.assignRunStep (req.stepRequest run step)) t req.runRequest h).trans
    (@rowsOf_assignRunStep s t (req.stepRequest run step) h)

end Services

/-! ### The handler of a run -/

/-- The thread whose rows a call writes. -/
def Call.thread? : Call → Option String
  | .modifyRun req => some req.threadId
  | .createRunStep req => some req.threadId
  | .modifyRunStep req => some req.threadId
  | .createRawMessage message => some message.threadId
  | _ => none

/-- The call writes rows of one thread only. -/
def Call.WritesTo (threadId : String) (call : Call) : Prop :=
  ∀ t, call.thread? = some t → t = threadId

theorem writesTo_of_reads {call : Call} (h : call.writes = false) (threadId : String) :
    call.WritesTo threadId := by
  have hnone : call.thread? = none := by
    cases call <;> first | rfl | simp [Call.writes] at h
  intro t ht
  rw [hnone] at ht
  cases ht

/-- A call leaves the rows of the threads that it does not write to. -/
theorem exec_rowsOf {config : HandlerConfig} {outside : Outside} {call : Call} {threadId t : String}
    (h : call.WritesTo threadId) (hother : threadId ≠ t) :
    Action.Keeps (·.rowsOf t) (call.exec config outside) := by
  have hne : ∀ named, call.thread? = some named → named ≠ t := fun named hnamed heq =>
    hother ((h named hnamed).symm.trans heq)
  cases call with
  | modifyRun req => exact keeps_modifyRun_other (hne _ rfl)
  | createRunStep req => exact keeps_createRunStep_other (hne _ rfl)
  | modifyRunStep req => exact keeps_modifyRunStep_other (hne _ rfl)
  | createRawMessage message => exact keeps_createRawMessage_other (hne _ rfl)
  | _ => exact Action.keeps_of_id (exec_reads rfl)

section Programs

variable {run : RunObject} {threadId : String}

theorem perform_writesTo {call : Call} (h : call.WritesTo threadId) :
    (perform call).Calls (Call.WritesTo threadId) := (Program.calls_perform call).mpr h

theorem writesTo_of_thread {call : Call} (h : call.thread? = some threadId) :
    call.WritesTo threadId := by
  intro t ht
  rw [h] at ht
  exact (Option.some.inj ht).symm

theorem messageContent_writesTo (content : String) (context? : Option CitationAnnotatingContext) :
    (messageContent content context?).Calls (Call.WritesTo threadId) := by
  cases context? with
  | none => trivial
  | some context =>
      refine Program.calls_bind (perform_writesTo (writesTo_of_reads rfl _)) fun answer => ?_
      exact Program.calls_bind (Program.calls_ofExcept _) fun _ => trivial

theorem createMessageStep_writesTo (content : String)
    (context? : Option CitationAnnotatingContext) :
    (createMessageStep content run context?).Calls (Call.WritesTo run.threadId) := by
  refine Program.calls_bind (messageContent_writesTo content context?) fun text => ?_
  refine Program.calls_bind (perform_writesTo (writesTo_of_thread rfl)) fun message? => ?_
  cases message? with
  | none => trivial
  | some message =>
      exact Program.calls_bind (perform_writesTo (writesTo_of_thread rfl)) fun _ => trivial

theorem retrieveLastRunStep_writesTo :
    (retrieveLastRunStep run).Calls (Call.WritesTo run.threadId) :=
  Program.calls_bind (perform_writesTo (writesTo_of_reads rfl _)) fun _ => trivial

theorem onAgentContinuation_writesTo (continuation : AgentContinuation) :
    (onAgentContinuation continuation run).Calls (Call.WritesTo run.threadId) := by
  have hmessage : ∀ message, (continuationMessage message run).Calls
      (Call.WritesTo run.threadId) := by
    intro message
    unfold continuationMessage
    split
    · exact Program.calls_bind (createMessageStep_writesTo _ _) fun _ => trivial
    · trivial
  have hcalls : ∀ message, (continuationToolCalls continuation message run).Calls
      (Call.WritesTo run.threadId) := by
    intro message
    unfold continuationToolCalls
    split
    · exact Program.calls_bind (perform_writesTo (writesTo_of_thread rfl)) fun _ => trivial
    · trivial
  unfold onAgentContinuation
  refine Program.calls_bind (hmessage _) fun _ => ?_
  split
  · refine Program.calls_bind (hcalls _) fun _ => ?_
    split
    · exact Program.calls_bind (perform_writesTo (writesTo_of_thread rfl)) fun _ => trivial
    · trivial
  · trivial

theorem onAgentPause_writesTo (pause : AgentPause) :
    (onAgentPause pause run).Calls (Call.WritesTo run.threadId) := by
  unfold onAgentPause
  refine Program.calls_bind retrieveLastRunStep_writesTo fun last? => ?_
  cases last? with
  | none => trivial
  | some last =>
      refine Program.calls_bind (perform_writesTo (writesTo_of_thread rfl)) fun updated? => ?_
      split
      · exact Program.calls_bind (perform_writesTo (writesTo_of_thread rfl)) fun _ => trivial
      · trivial

theorem onAgentObservation_writesTo (observation : AgentObservation) :
    (onAgentObservation observation run).Calls (Call.WritesTo run.threadId) := by
  unfold onAgentObservation
  refine Program.calls_bind retrieveLastRunStep_writesTo fun last? => ?_
  cases last? with
  | none => trivial
  | some last =>
      refine Program.calls_bind (perform_writesTo (writesTo_of_thread rfl)) fun run? => ?_
      split
      · exact Program.calls_bind (perform_writesTo (writesTo_of_thread rfl)) fun _ => trivial
      · trivial

theorem finishStepRequest_thread (now : Nat) (finish : AgentFinish) (step : RunStepObject) :
    (finishStepRequest now finish run step).threadId = run.threadId := by
  unfold finishStepRequest
  split
  · rfl
  split
  · rfl
  split
  · rfl
  · rfl

theorem onAgentFinish_writesTo (now : Nat) (finish : AgentFinish)
    (results : List SearchToolResponseEntry) :
    (onAgentFinish now finish run results).Calls (Call.WritesTo run.threadId) := by
  have hmessage : (finishMessage finish run results).Calls (Call.WritesTo run.threadId) := by
    unfold finishMessage
    split
    · exact Program.calls_bind (createMessageStep_writesTo _ _) fun _ => trivial
    · trivial
  have hstep : ∀ last?, (finishLastStep now finish run last?).Calls
      (Call.WritesTo run.threadId) := by
    intro last?
    cases last? with
    | none => trivial
    | some last =>
        refine Program.calls_bind (perform_writesTo (writesTo_of_thread ?_)) fun _ => trivial
        exact congrArg some (finishStepRequest_thread now finish last)
  unfold onAgentFinish
  refine Program.calls_bind retrieveLastRunStep_writesTo fun last? => ?_
  refine Program.calls_bind hmessage fun _ => ?_
  split
  · refine Program.calls_bind (hstep _) fun _ => ?_
    split
    · refine Program.calls_bind (perform_writesTo (writesTo_of_thread ?_)) fun _ => trivial
      exact congrArg some (finishRunRequest_names now finish).1
    · trivial
  · trivial

/-- The subscriber writes to the thread of its run. -/
theorem onNext_writesTo (config : HandlerConfig) (session : Session) (locals : Locals)
    (state : AgentState) :
    (onNext config session locals state).Calls (Call.WritesTo session.run.threadId) := by
  unfold onNext
  split
  · trivial
  · exact Program.calls_bind (onAgentContinuation_writesTo _) fun _ => trivial
  · exact Program.calls_bind (onAgentPause_writesTo _) fun _ => trivial
  · exact Program.calls_bind (onAgentFinish_writesTo _ _ _) fun _ => trivial
  · split
    · refine Program.calls_bind (Program.calls_ofExcept _) fun _ => ?_
      exact Program.calls_bind (onAgentObservation_writesTo _) fun _ => trivial
    · trivial
  · trivial

theorem setUp_writesTo (config : HandlerConfig) :
    (setUp config run).Calls (Call.WritesTo run.threadId) := by
  refine Program.calls_bind (perform_writesTo (writesTo_of_thread rfl)) fun updated? => ?_
  cases updated? with
  | none => trivial
  | some updated =>
      exact Program.calls_mono (prepare_reads config) fun call h => writesTo_of_reads h.1 _

theorem localToolkitsWorker_writesTo (toolkit : Toolkit) (thought : AgentThought) :
    (localToolkitsWorker toolkit thought).Calls (Call.WritesTo threadId) := by
  have hinvoke : ∀ filtered is, (invokeTools filtered is).Calls (Call.WritesTo threadId) := by
    intro filtered is
    induction is with
    | nil => trivial
    | cons i is ih =>
        refine Program.calls_bind (Program.calls_ofExcept _) fun call => ?_
        refine Program.calls_bind (perform_writesTo (writesTo_of_reads rfl _)) fun result => ?_
        refine Program.calls_bind (Program.calls_ofExcept _) fun message => ?_
        exact Program.calls_bind ih fun _ => trivial
  refine Program.calls_bind (Program.calls_ofExcept _) fun filtered => ?_
  unfold invokeFiltered
  split
  · trivial
  · exact Program.calls_bind (hinvoke _ _) fun _ => trivial

theorem checkRunObjectForExecution_writesTo (runId : String) (step : AgentStep) :
    (checkRunObjectForExecution threadId runId step).Calls (Call.WritesTo threadId) := by
  refine Program.calls_bind (perform_writesTo (writesTo_of_reads rfl _)) fun run? => ?_
  cases run? with
  | none => trivial
  | some run =>
      show Program.Calls _ (if _ then _ else _)
      split
      · trivial
      · split <;> trivial

/-- The parts of a session only read and ask. -/
theorem Session.parts_writesTo (session : Session) :
    session.parts.Calls (Call.WritesTo session.run.threadId) where
  shouldEarlyStop _ step := checkRunObjectForExecution_writesTo _ step
  planner state := by
    unfold Session.parts
    cases session.kind with
    | openAITool =>
        refine Program.calls_bind (perform_writesTo (writesTo_of_reads rfl _)) fun _ => trivial
    | llmCompiler =>
        refine Program.calls_bind (perform_writesTo (writesTo_of_reads rfl _)) fun _ => trivial
  worker thought := localToolkitsWorker_writesTo _ thought
  joiner _ := perform_writesTo (writesTo_of_reads rfl _)

end Programs

/-! ### Threads of the scheduler -/

/-- What is left of the programs of a thread writes to the thread of its run. -/
def Thread.KeepsTo : Thread → Prop
  | .setup run p => p.Calls (Call.WritesTo run.threadId)
  | .resolving session _ p => p.Calls (Call.WritesTo session.run.threadId)
  | .notifying session _ _ p => p.Calls (Call.WritesTo session.run.threadId)
  | .failing session p => p.Calls (Call.WritesTo session.run.threadId)
  | _ => True

section KeepsTo

variable {config : HandlerConfig} {outside : Outside} {run : RunObject} {session : Session}
variable {s : Store} {thread : Thread} {t : String}

theorem keepsTo_handle : (Thread.handle config run).KeepsTo := by
  unfold Thread.handle
  split
  · exact setUp_writesTo config
  · trivial

theorem keepsTo_resolve (session : Session) (locals : Locals) (state : AgentState) :
    (Thread.resolve session locals state).KeepsTo :=
  calls_resolveNextStep session.kind session.parts_writesTo

theorem keepsTo_fail (session : Session) (e : Exn) :
    (Thread.fail config session e).KeepsTo := by
  cases e with
  | undefinedBehaviour place => trivial
  | _ => exact onAgentFinish_writesTo _ _ _

theorem keepsTo_escape (e : Exn) : (Thread.escape e).KeepsTo := by
  cases e <;> trivial

/-- **Step lemma.**  A thread keeps to the thread of its run. -/
theorem keepsTo_next (h : thread.KeepsTo) : (thread.next config outside s).1.KeepsTo := by
  cases thread with
  | idle => trivial
  | broken => trivial
  | setup run p =>
      cases p with
      | call op k => exact h.2 _
      | raise e => exact keepsTo_escape e
      | ret result =>
          rcases result with - | ⟨session, state⟩
          · trivial
          · exact keepsTo_resolve session {} state
  | resolving session locals p =>
      cases p with
      | call op k => exact h.2 _
      | raise e => exact keepsTo_fail session e
      | ret next => exact onNext_writesTo config session locals next.2
  | notifying session step state p =>
      cases p with
      | call op k => exact h.2 _
      | raise e => exact keepsTo_fail session e
      | ret locals =>
          show (if step.goesOn then _ else _ : Thread).KeepsTo
          split
          · exact keepsTo_resolve session locals state
          · trivial
  | failing session p =>
      cases p with
      | call op k => exact h.2 _
      | raise e => exact keepsTo_escape e
      | ret _ => trivial

/-- A step of a thread changes nothing, or it is one call that writes to the thread of its run. -/
theorem next_store (h : thread.KeepsTo) :
    (thread.next config outside s).2 = s ∨
    ∃ (call : Call) (run : RunObject), thread.run? = some run ∧ call.WritesTo run.threadId ∧
      (thread.next config outside s).2 = (call.exec config outside s).2 := by
  cases thread with
  | idle => exact .inl rfl
  | broken => exact .inl rfl
  | setup run p =>
      cases p with
      | call op k => exact .inr ⟨op, run, rfl, h.1, rfl⟩
      | _ => exact .inl rfl
  | resolving session locals p =>
      cases p with
      | call op k => exact .inr ⟨op, session.run, rfl, h.1, rfl⟩
      | _ => exact .inl rfl
  | notifying session step state p =>
      cases p with
      | call op k => exact .inr ⟨op, session.run, rfl, h.1, rfl⟩
      | _ => exact .inl rfl
  | failing session p =>
      cases p with
      | call op k => exact .inr ⟨op, session.run, rfl, h.1, rfl⟩
      | _ => exact .inl rfl

/-- **Frame.**  A step of a thread leaves the rows of every thread but that of its run. -/
theorem rowsOf_next (h : thread.KeepsTo)
    (hother : ∀ run, thread.run? = some run → run.threadId ≠ t) :
    (thread.next config outside s).2.rowsOf t = s.rowsOf t := by
  rcases next_store h with hsame | ⟨call, run, hrun, hwrites, hcall⟩
  · rw [hsame]
  · rw [hcall]
    exact exec_rowsOf hwrites (hother run hrun) s

end KeepsTo

end Instinct
