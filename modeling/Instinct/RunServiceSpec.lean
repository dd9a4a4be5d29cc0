/-
Instinct/RunServiceSpec.lean

What each call of the services can do, one lemma a call.

* `modifyRun_cases`, `modifyRunStep_cases`, `cancelRun_cases`: a call changes
  nothing, or it updates the row that its request names.
* `createRunStep_cases`, `createRun_creates`, `createThreadAndRun_creates`: a
  call adds one row and returns it, or it throws.
* `submitToolOutputs_cases`: an accepted request was checked (`Submits`), and
  then both of its updates go through.

The `keeps_…` lemmas say what a call leaves alone.
-/
import Instinct.RunService

namespace Instinct

open Effects Paging Tables

/-! ### What the calls do to runs -/

theorem retrieveRun_eq {req : GetRunRequest} (hthread : isBlankString req.threadId = false)
    (hrun : isBlankString req.runId = false) (s : Store) :
    retrieveRun req s = (.ok (s.run? req.threadId req.runId), s) := by
  simp only [retrieveRun, Action.bind_apply, Action.liftM_apply, assertNotBlank_of hthread,
    assertNotBlank_of hrun]
  rfl

/-- `RetrieveRun` only reads. -/
theorem keeps_retrieveRun (req : GetRunRequest) : Action.Keeps id (retrieveRun req) :=
  Action.keeps_bind (Action.keeps_liftM _) fun _ =>
    Action.keeps_bind (Action.keeps_liftM _) fun _ => Action.keeps_gets _

/-- A request that passes the checks names its run. -/
theorem checkModifyRun_names {req : ModifyRunRequest} (h : checkModifyRun req = .ok ()) :
    isBlankString req.threadId = false ∧ isBlankString req.runId = false := by
  obtain ⟨⟨⟩, hthread, h⟩ := checks_eq_ok.mp h
  obtain ⟨⟨⟩, hrun, -⟩ := checks_eq_ok.mp h
  exact ⟨assertNotBlank_eq_ok.mp hthread, assertNotBlank_eq_ok.mp hrun⟩

/-- A status update names nothing but its run. -/
theorem checkModifyRun_of {req : ModifyRunRequest} (hthread : isBlankString req.threadId = false)
    (hrun : isBlankString req.runId = false) (haction : req.requiredAction = none)
    (hmetadata : req.metadata = none) : checkModifyRun req = .ok () := by
  simp only [checkModifyRun, assertNotBlank_of hthread, assertNotBlank_of hrun, haction,
    hmetadata]
  rfl

theorem isRun_key {threadId runId : String} {run : RunObject} (h : isRun threadId runId run) :
    run.id = runId := (isRun_eq_true.mp h).2

/-- `ModifyRun` of a run that exists, with a request that passes the checks. -/
theorem modifyRun_eq {req : ModifyRunRequest} {s : Store} {run : RunObject}
    (hcheck : checkModifyRun req = .ok ()) (hrun : s.run? req.threadId req.runId = some run) :
    modifyRun req s = (.ok (some (run.assign req)), s.assignRun req) := by
  obtain ⟨hthread, hid⟩ := checkModifyRun_names hcheck
  have hcount : s.runs.count (isRun req.threadId req.runId) = 1 :=
    Table.count_of_find?_some hrun fun r hr => by
      rw [isRun_key hr, (Store.run?_some hrun).2]
  have hread : (s.assignRun req).run? req.threadId req.runId = some (run.assign req) := by
    rw [Store.run?_assignRun, if_pos ⟨rfl, rfl⟩, hrun]
    rfl
  simp only [modifyRun, Action.bind_apply, Action.liftM_apply, hcheck, updateRun, hcount,
    assertTrue_of]
  rw [@retrieveRun_eq { threadId := req.threadId, runId := req.runId } hthread hid, hread]

/-- `ModifyRun` fails and changes nothing, or it updates the run that the request names. -/
theorem modifyRun_cases (req : ModifyRunRequest) (s : Store) :
    (∃ e, modifyRun req s = (.error e, s)) ∨
    (∃ run, s.run? req.threadId req.runId = some run ∧
      modifyRun req s = (.ok (some (run.assign req)), s.assignRun req)) := by
  rcases hcheck : checkModifyRun req with e | u
  · refine .inl ⟨e, ?_⟩
    simp only [modifyRun, Action.bind_apply, Action.liftM_apply, hcheck]
  rcases hrun : s.run? req.threadId req.runId with - | run
  · -- no row is updated
    have hcount : s.runs.count (isRun req.threadId req.runId) = 0 := Table.count_of_find?_none hrun
    refine .inl ⟨.client "should have run object updated", ?_⟩
    simp only [modifyRun, Action.bind_apply, Action.liftM_apply, hcheck, updateRun, hcount,
      Store.assignRun_of_none hrun, assertTrue]
    rfl
  · exact .inr ⟨run, rfl, modifyRun_eq hcheck hrun⟩

/-- `CancelRun` changes nothing, or it sets the run to `cancelling`. -/
theorem cancelRun_cases (req : CancelRunRequest) (s : Store) :
    (cancelRun req s).2 = s ∨
    (cancelRun req s).2 = s.assignRun
      { threadId := req.threadId, runId := req.runId, status := .cancelling } := by
  have hread : ∀ s', (retrieveRun { threadId := req.threadId, runId := req.runId } s').2 = s' :=
    keeps_retrieveRun _
  unfold cancelRun
  refine Action.bind_elim_liftM (P := fun r => r.2 = s ∨ r.2 = _) (fun _ _ => .inl rfl)
    fun _ _ => ?_
  refine Action.bind_elim_liftM (P := fun r => r.2 = s ∨ r.2 = _) (fun _ _ => .inl rfl)
    fun _ _ => ?_
  exact .inr (hread _)

/-! ### What the calls do to run steps and messages -/

theorem templateVariable_of {name value : String} (h : value ≠ "") :
    templateVariable name value = .ok () := if_neg h

theorem ne_empty_of_not_blank {v : String} (h : isBlankString v = false) : v ≠ "" := by
  rintro rfl
  exact absurd h (by decide)

theorem getRunStep_eq {req : GetRunStepRequest} (hthread : req.threadId ≠ "")
    (hrun : req.runId ≠ "") (hstep : req.stepId ≠ "") (s : Store) :
    getRunStep req s = (.ok (s.runStep? req.threadId req.runId req.stepId), s) := by
  simp only [getRunStep, Action.bind_apply, Action.liftM_apply, templateVariable_of hthread,
    templateVariable_of hrun, templateVariable_of hstep]
  rfl

/-- `GetRunStep` only reads. -/
theorem keeps_getRunStep (req : GetRunStepRequest) : Action.Keeps id (getRunStep req) :=
  Action.keeps_bind (Action.keeps_liftM _) fun _ =>
    Action.keeps_bind (Action.keeps_liftM _) fun _ =>
      Action.keeps_bind (Action.keeps_liftM _) fun _ => Action.keeps_gets _

/-- `ModifyRunStep` of a step that exists. -/
theorem modifyRunStep_eq {req : ModifyRunStepRequest} {s : Store} {step : RunStepObject}
    (hthread : isBlankString req.threadId = false) (hrun : isBlankString req.runId = false)
    (hid : isBlankString req.stepId = false)
    (hstep : s.runStep? req.threadId req.runId req.stepId = some step) :
    modifyRunStep req s = (.ok (some (step.assign req)), s.assignRunStep req) := by
  have hcheck : checkModifyRunStep req = .ok () := by
    simp only [checkModifyRunStep, assertNotBlank_of hthread, assertNotBlank_of hrun,
      assertNotBlank_of hid]
    rfl
  simp only [modifyRunStep, Action.bind_apply, Action.liftM_apply, hcheck, updateRunStep]
  rw [@getRunStep_eq { threadId := req.threadId, runId := req.runId, stepId := req.stepId }
    (ne_empty_of_not_blank hthread) (ne_empty_of_not_blank hrun) (ne_empty_of_not_blank hid),
    Store.runStep?_assignRunStep hstep]

/-- `ModifyRunStep` changes nothing, or it updates the step that the request names. -/
theorem modifyRunStep_cases (req : ModifyRunStepRequest) (s : Store) :
    (modifyRunStep req s).2 = s ∨ (modifyRunStep req s).2 = s.assignRunStep req := by
  have hread : ∀ s', (getRunStep
      { runId := req.runId, stepId := req.stepId, threadId := req.threadId } s').2 = s' :=
    keeps_getRunStep _
  unfold modifyRunStep
  exact Action.bind_elim_liftM (P := fun r => r.2 = s ∨ r.2 = _) (fun _ _ => .inl rfl)
    fun _ _ => .inr (hread _)

/-- `CreateRunStep` throws and leaves the steps as they are, or it adds one step, which it
returns. -/
theorem createRunStep_cases (req : RunStepObject) (s : Store) :
    (∃ e, (createRunStep req s).1 = .error e ∧
      (createRunStep req s).2.runSteps = s.runSteps) ∨
    (∃ id, isBlankString id = false ∧ id ∉ s.runSteps.rows.map (·.id) ∧
      (createRunStep req s).1 = .ok (some (RunStepObject.columns { req with id := id } s.clock)) ∧
      (createRunStep req s).2.runSteps.rows
        = s.runSteps.rows ++ [RunStepObject.columns { req with id := id } s.clock]) := by
  rcases hcheck : checkCreateRunStep req with e | u
  · refine .inl ⟨e, ?_⟩
    simp only [createRunStep, Action.bind_apply, Action.liftM_apply, hcheck, and_self]
  -- the row is inserted under a new id, and read back
  obtain ⟨⟨⟩, hrun, hrest⟩ := checks_eq_ok.mp hcheck
  obtain ⟨⟨⟩, hthread, -⟩ := checks_eq_ok.mp hrest
  have hid := generateNextObjectId_not_blank "run_step" s.nextNumber
  have hgenerate : generateId "run_step" s = (.ok ⟨_, hid⟩, _) := rfl
  generalize generateNextObjectId "run_step" s.nextNumber = id at hid hgenerate
  rw [createRunStep, Action.liftM_bind_of_ok hcheck, Action.bind_of_ok hgenerate]
  rcases insertOneRunStep_cases { req with id := id } hid
      { s with nextNumber := s.nextNumber + 1 } with hinsert | ⟨t, ht, hinsert⟩
  · refine .inl ⟨duplicateKey, ?_⟩
    rw [Action.bind_of_error hinsert]
    exact ⟨rfl, rfl⟩
  · have hrows := Table.rows_insert ht
    have hfresh := Table.fresh_of_insert ht
    refine .inr ⟨id, hid, hfresh, ?_⟩
    rw [Action.bind_of_ok hinsert,
      @getRunStep_eq { threadId := req.threadId, runId := req.runId, stepId := id }
        (ne_empty_of_not_blank (assertNotBlank_eq_ok.mp hthread))
        (ne_empty_of_not_blank (assertNotBlank_eq_ok.mp hrun)) (ne_empty_of_not_blank hid)]
    refine ⟨congrArg Except.ok ?_, hrows⟩
    refine Table.find?_eq_some_of_mem (hrows ▸ List.mem_append_right _ List.mem_cons_self) ?_ ?_
    · exact isRunStep_eq_true.mpr ⟨rfl, rfl, rfl⟩
    · exact fun r hr => (isRunStep_eq_true.mp hr).1

theorem isMessage_eq_true {threadId messageId : String} {message : MessageObject} :
    isMessage threadId messageId message = true
      ↔ message.id = messageId ∧ message.threadId = threadId := by
  simp [isMessage]

/-- `RetrieveMessage` only reads. -/
theorem keeps_retrieveMessage (threadId messageId : String) :
    Action.Keeps id (retrieveMessage threadId messageId) :=
  Action.keeps_bind (Action.keeps_liftM _) fun _ =>
    Action.keeps_bind (Action.keeps_liftM _) fun _ => Action.keeps_gets _

theorem retrieveMessage_ok {threadId messageId : String} {s s' : Store}
    {found : Option MessageObject} (h : retrieveMessage threadId messageId s = (.ok found, s')) :
    found = s.messages.find? (isMessage threadId messageId) := by
  obtain ⟨⟨⟩, s₁, hid, h⟩ := Action.ok_of_bind h
  obtain ⟨-, rfl⟩ := Prod.mk.inj hid
  obtain ⟨⟨⟩, s₂, hthread, h⟩ := Action.ok_of_bind h
  obtain ⟨-, rfl⟩ := Prod.mk.inj hthread
  exact (Except.ok.inj (Prod.mk.inj h).1).symm

/-- A message that `CreateRawMessage` stores is read back. -/
theorem createRawMessage_ok {message : MessageObject} {s s' : Store} {found : Option MessageObject}
    (h : createRawMessage message s = (.ok found, s')) :
    ∃ created, found = some created ∧ isBlankString created.id = false := by
  obtain ⟨id, s₁, -, h⟩ := Action.ok_of_bind h
  obtain ⟨⟨⟩, s₂, hinsert, h⟩ := Action.ok_of_bind h
  have hrows := insertOneMessages_ok hinsert
  refine ⟨MessageObject.columns { message with id := id.val } s₁.clock, ?_, id.property⟩
  rw [retrieveMessage_ok h]
  refine Table.find?_eq_some_of_mem (hrows ▸ List.mem_append_right _ List.mem_cons_self) ?_ ?_
  · exact isMessage_eq_true.mpr ⟨rfl, rfl⟩
  · exact fun r hr => (isMessage_eq_true.mp hr).1

section Keeps

variable {β : Type} {f : Store → β}

theorem keeps_createRawMessage
    (hf : ∀ s t n m, f { s with messages := t, clock := n, nextNumber := m } = f s)
    (message : MessageObject) : Action.Keeps f (createRawMessage message) :=
  Action.keeps_bind (keeps_generateId (fun s n => hf s s.messages s.clock n) _) fun _ =>
    Action.keeps_bind (keeps_insertOneMessages (fun t s n => hf s t n s.nextNumber) _ _) fun _ =>
      Action.keeps_of_id (keeps_retrieveMessage _ _)

theorem keeps_createRunStep
    (hf : ∀ s t n m, f { s with runSteps := t, clock := n, nextNumber := m } = f s)
    (req : RunStepObject) : Action.Keeps f (createRunStep req) :=
  Action.keeps_bind (Action.keeps_liftM _) fun _ =>
    Action.keeps_bind (keeps_generateId (fun s n => hf s s.runSteps s.clock n) _) fun _ =>
      Action.keeps_bind (keeps_insertRow fun t s n => hf s t n s.nextNumber) fun _ =>
        Action.keeps_of_id (keeps_getRunStep _)

theorem keeps_modifyRunStep (hf : ∀ s t, f { s with runSteps := t } = f s)
    (req : ModifyRunStepRequest) : Action.Keeps f (modifyRunStep req) := by
  intro s
  rcases modifyRunStep_cases req s with h | h
  · rw [h]
  · rw [h]
    exact hf s _

end Keeps

/-! ### What the client calls do to the runs and the queue -/

/-- The runs and the waiting tasks. -/
def Store.tasks (s : Store) :
    Table RunObject.id (fun row => isBlankString row.id = false) × List RunObject :=
  (s.runs, s.queue)

/-- From `s` to `s'` a new run was added, in status `queued`, with a task for it. -/
structure Starts (s s' : Store) (run : RunObject) : Prop where
  fresh : run.id ∉ s.runs.rows.map (·.id)
  rows : s'.runs.rows = s.runs.rows ++ [run]
  queue : s'.queue = s.queue ++ [run]
  status : run.status = .queued
  thread : isBlankString run.threadId = false

/-- What a create call comes to: it throws and leaves runs and queue as they are, or it
starts a run, which it returns. -/
def CreatesRun (s : Store) (result : Except Exn (Option RunObject) × Store) : Prop :=
  (∃ e, result.1 = .error e ∧ result.2.tasks = s.tasks) ∨
  (∃ run, result.1 = .ok (some run) ∧ Starts s result.2 run)

/-- The row that an insert of a run adds. -/
def RunOptions.newRow (options : RunOptions) (model runId threadId assistantId : String)
    (now : Nat) : RunObject :=
  { options.newRun model runId threadId assistantId with createdAt := now }

/-- The table of runs can hold the row of a request. -/
def RunOptions.HoldsRow (options : RunOptions) (toolResources : Option AssistantToolResources) :
    Prop :=
  toolResources = none ∧
    options.maxPromptTokens < 2147483648 ∧ options.maxCompletionTokens < 2147483648

/-- The insert fails, or the new row is read back and enqueued. -/
theorem startRun_cases (options : RunOptions) (model : String)
    (toolResources : Option AssistantToolResources)
    (runId : { id : String // isBlankString id = false }) {threadId : String}
    (hthread : isBlankString threadId = false) (assistantId : String) (s : Store) :
    (∃ e, (options.HoldsRow toolResources → runId.val ∈ s.runs.rows.map RunObject.id) ∧
      startRun options model toolResources runId threadId assistantId s = (.error e, s)) ∨
    (options.HoldsRow toolResources ∧ ∃ t,
      s.runs.insert (options.newRow model runId.val threadId assistantId s.clock) runId.property
        = some t ∧
      startRun options model toolResources runId threadId assistantId s
        = (.ok (some (options.newRow model runId.val threadId assistantId s.clock)),
          { s with
            runs := t
            clock := s.clock + 1
            queue :=
              s.queue ++ [options.newRow model runId.val threadId assistantId s.clock] })) := by
  unfold startRun
  rcases insertOneRun_cases (options.newRun model runId.val threadId assistantId) toolResources
    runId.property s with ⟨e, htaken, hinsert⟩ | ⟨hholds, t, ht, hinsert⟩
  · rw [Action.bind_of_error hinsert]
    exact .inl ⟨e, fun h => htaken h.1 h.2, rfl⟩
  · -- the new row is read back
    have hrows := Table.rows_insert ht
    have hfound : t.find? (isRun threadId runId.val)
        = some (options.newRow model runId.val threadId assistantId s.clock) := by
      refine Table.find?_eq_some_of_mem (hrows ▸ List.mem_append_right _ List.mem_cons_self) ?_ ?_
      · exact isRun_eq_true.mpr ⟨rfl, rfl⟩
      · exact fun r hr => isRun_key hr
    have hread : retrieveRun ⟨runId.val, threadId⟩ { s with runs := t, clock := s.clock + 1 }
        = (.ok (some _), _) := (@retrieveRun_eq ⟨runId.val, threadId⟩ hthread runId.property _).trans (by
          rw [← hfound]
          rfl)
    rw [Action.bind_of_ok hinsert, Action.bind_of_ok hread]
    exact .inr ⟨hholds, t, ht, rfl⟩

theorem startRun_creates {s s' : Store} (htasks : s'.tasks = s.tasks) (options : RunOptions)
    (model : String) (toolResources : Option AssistantToolResources)
    (runId : { id : String // isBlankString id = false }) {threadId : String}
    (hthread : isBlankString threadId = false) (assistantId : String) :
    CreatesRun s (startRun options model toolResources runId threadId assistantId s') := by
  obtain ⟨hruns, hqueue⟩ := Prod.mk.inj htasks
  rcases startRun_cases options model toolResources runId hthread assistantId s'
    with ⟨e, -, hstart⟩ | ⟨-, t, ht, hstart⟩
  · rw [hstart]
    exact .inl ⟨e, rfl, htasks⟩
  · rw [hstart]
    -- inserted and queued in one step, with the row as it was stored
    refine .inr ⟨_, rfl, ?_⟩
    exact
      { fresh := hruns ▸ Table.fresh_of_insert ht
        rows := hruns ▸ Table.rows_insert ht
        queue := congrArg (· ++ _) hqueue
        status := rfl
        thread := hthread }

/-- What precedes the insert of a run touches the messages only. -/
theorem keeps_insertNewMessages {β : Type} {f : Store → β}
    (hf : ∀ s t n m, f { s with messages := t, clock := n, nextNumber := m } = f s)
    (runId threadId : String) (requests : List CreateMessageRequest) :
    Action.Keeps f (insertNewMessages runId threadId requests) := by
  have hmessages : ∀ requests, Action.Keeps f (newMessages runId threadId requests) := by
    intro requests
    -- the identifiers are drawn one by one, the messages inserted at the end
    induction requests with
    | nil => exact Action.keeps_pure _
    | cons request requests ih =>
        refine Action.keeps_bind ?_ fun message => Action.keeps_bind ih fun _ => Action.keeps_pure _
        refine Action.keeps_bind (keeps_generateId (fun s n => hf s s.messages s.clock n) _)
          fun id => ?_
        exact Action.keeps_bind (Action.keeps_gets _) fun _ => Action.keeps_pure _
  refine Action.keeps_ite (Action.keeps_pure _) ?_
  refine Action.keeps_bind (hmessages _) fun messages => ?_
  exact Action.keeps_bind (keeps_insertManyMessages (fun t s n => hf s t n s.nextNumber) _)
    fun _ => Action.keeps_liftM _

/-- `CreateRun` starts a run, or leaves runs and queue as they are. -/
theorem createRun_creates (req : CreateRunRequest) (s : Store) :
    CreatesRun s (createRun req s) := by
  unfold createRun
  refine Action.bind_elim_liftM (fun e _ => .inl ⟨e, rfl, rfl⟩) fun _ hthread => ?_
  refine Action.bind_elim_liftM (fun e _ => .inl ⟨e, rfl, rfl⟩) fun _ _ => ?_
  refine Action.bind_elim_liftM (fun e _ => .inl ⟨e, rfl, rfl⟩) fun _ _ => ?_
  refine Action.bind_elim_liftM (fun e _ => .inl ⟨e, rfl, rfl⟩) fun _ _ => ?_
  refine Action.bind_elim_keeps (keeps_generateId (f := Store.tasks) (fun _ _ => rfl) _)
    (fun e s' h => .inl ⟨e, rfl, h⟩) fun runId s₁ h₁ => ?_
  refine Action.bind_elim_keeps (keeps_insertNewMessages (f := Store.tasks) (fun _ _ _ _ => rfl) _ _ _)
    (fun e s' h => .inl ⟨e, rfl, h.trans h₁⟩) fun _ s₂ h₂ => ?_
  exact startRun_creates (h₂.trans h₁) _ _ _ runId (assertNotBlank_eq_ok.mp hthread) _

theorem keeps_insertOneThread (thread : ThreadObject) (hid : isBlankString thread.id = false) :
    Action.Keeps Store.tasks (insertOneThread thread hid) :=
  keeps_insertRow fun _ _ _ => rfl

/-- `CreateThreadAndRun` starts a run, or leaves runs and queue as they are. -/
theorem createThreadAndRun_creates (req : CreateThreadAndRunRequest) (s : Store) :
    CreatesRun s (createThreadAndRun req s) := by
  unfold createThreadAndRun
  refine Action.bind_elim_liftM (fun e _ => .inl ⟨e, rfl, rfl⟩) fun _ _ => ?_
  refine Action.bind_elim_liftM (fun e _ => .inl ⟨e, rfl, rfl⟩) fun _ _ => ?_
  refine Action.bind_elim_liftM (fun e _ => .inl ⟨e, rfl, rfl⟩) fun _ _ => ?_
  refine Action.bind_elim_liftM (fun e _ => .inl ⟨e, rfl, rfl⟩) fun _ _ => ?_
  refine Action.bind_elim_liftM (fun e _ => .inl ⟨e, rfl, rfl⟩) fun _ _ => ?_
  -- from here every step may fail, and none of them has touched a run or a task
  refine Action.bind_elim_keeps (keeps_generateId (f := Store.tasks) (fun _ _ => rfl) _)
    (fun e s' h => .inl ⟨e, rfl, h⟩) fun runId s₁ h₁ => ?_
  refine Action.bind_elim_keeps (keeps_generateId (f := Store.tasks) (fun _ _ => rfl) _)
    (fun e s' h => .inl ⟨e, rfl, h.trans h₁⟩) fun threadId s₂ h₂ => ?_
  refine Action.bind_elim_keeps (keeps_insertOneThread _ _)
    (fun e s' h => .inl ⟨e, rfl, (h.trans h₂).trans h₁⟩) fun _ s₃ h₃ => ?_
  refine Action.bind_elim_keeps (keeps_insertNewMessages (f := Store.tasks) (fun _ _ _ _ => rfl) _ _ _)
    (fun e s' h => .inl ⟨e, rfl, ((h.trans h₃).trans h₂).trans h₁⟩) fun _ s₄ h₄ => ?_
  exact startRun_creates (((h₄.trans h₃).trans h₂).trans h₁) _ _ _ runId threadId.property _

/-- The step update of `SubmitToolOutputs`. -/
def SubmitToolOutputsToRunRequest.stepRequest (req : SubmitToolOutputsToRunRequest)
    (run : RunObject) (step : RunStepObject) : ModifyRunStepRequest :=
  { threadId := req.threadId
    runId := req.runId
    stepId := step.id
    stepDetails := some { step.stepDetails with
      toolCalls := (submitOutputs step.stepDetails.toolCalls run.requiredAction.functionCallIds
        req.toolOutputs).1 } }

/-- The run update of `SubmitToolOutputs`. -/
def SubmitToolOutputsToRunRequest.runRequest (req : SubmitToolOutputsToRunRequest) :
    ModifyRunRequest :=
  { threadId := req.threadId, runId := req.runId, status := .queued }

/-- What `SubmitToolOutputs` has checked when it accepts a request: `run` is the run and
`step` its newest step. -/
structure Submits (s : Store) (req : SubmitToolOutputsToRunRequest) (run : RunObject)
    (step : RunStepObject) : Prop where
  runId : isBlankString req.runId = false
  threadId : isBlankString req.threadId = false
  found : s.run? req.threadId req.runId = some run
  status : run.status = .requiresAction
  action : run.requiredAction.type = .submitToolOutputs
  newest : (arrange (·.createdAt) true (s.stepsOf req.threadId req.runId)).head? = some step
  stepStatus : step.status = .inProgress
  waiting : 0 < run.requiredAction.functionCallIds.length
  covered : (submitOutputs step.stepDetails.toolCalls run.requiredAction.functionCallIds
    req.toolOutputs).2 = []

/-- The store after an accepted `SubmitToolOutputs`. -/
def Store.submit (s : Store) (req : SubmitToolOutputsToRunRequest) (run : RunObject)
    (step : RunStepObject) : Store :=
  { (s.assignRunStep (req.stepRequest run step)).assignRun req.runRequest with
    queue := s.queue ++ [run.assign req.runRequest] }

/-- An accepted request is carried out: both updates meet their row. -/
theorem Submits.updates {s : Store} {req : SubmitToolOutputsToRunRequest} {run : RunObject}
    {step : RunStepObject} (h : Submits s req run step) :
    modifyRunStep (req.stepRequest run step) s
        = (.ok (some (step.assign (req.stepRequest run step))),
          s.assignRunStep (req.stepRequest run step)) ∧
      modifyRun req.runRequest (s.assignRunStep (req.stepRequest run step))
        = (.ok (some (run.assign req.runRequest)),
          (s.assignRunStep (req.stepRequest run step)).assignRun req.runRequest) := by
  have hmem : step ∈ s.stepsOf req.threadId req.runId :=
    mem_arrange.mp (List.mem_of_mem_head? h.newest)
  constructor
  · exact modifyRunStep_eq h.threadId h.runId
      (s.runSteps.valid step (List.mem_of_mem_filter hmem)) (Store.runStep?_of_mem hmem)
  · exact modifyRun_eq (checkModifyRun_of h.threadId h.runId rfl rfl) h.found

/-- `SubmitToolOutputs` throws and changes nothing, or it stores the outputs, sets the run
back to `queued` and enqueues it. -/
theorem submitToolOutputs_cases (req : SubmitToolOutputsToRunRequest) (s : Store) :
    (∃ e, submitToolOutputs req s = (.error e, s)) ∨
    (∃ run step, Submits s req run step ∧ submitToolOutputs req s
      = (.ok (some (run.assign req.runRequest)), s.submit req run step)) := by
  -- every check either throws or passes
  let P : Except Exn (Option RunObject) × Store → Prop := fun r => (∃ e, r = (.error e, s)) ∨
    (∃ run step, Submits s req run step ∧
      r = (.ok (some (run.assign req.runRequest)), s.submit req run step))
  show P (submitToolOutputs req s)
  unfold submitToolOutputs
  refine Action.bind_elim_liftM (P := P) (fun e _ => .inl ⟨e, rfl⟩) fun _ hrunId => ?_
  refine Action.bind_elim_liftM (P := P) (fun e _ => .inl ⟨e, rfl⟩) fun _ hthreadId => ?_
  have hrunId := assertNotBlank_eq_ok.mp hrunId
  have hthreadId := assertNotBlank_eq_ok.mp hthreadId
  rw [Action.bind_of_ok (@retrieveRun_eq ⟨req.runId, req.threadId⟩ hthreadId hrunId s)]
  refine Action.bind_elim_liftM (P := P) (fun e _ => .inl ⟨e, rfl⟩) fun _ hfound => ?_
  obtain ⟨run, hrun⟩ := Option.isSome_iff_exists.mp (assertTrue_eq_ok.mp hfound)
  simp only [hrun, Option.getD_some]
  refine Action.bind_elim_liftM (P := P) (fun e _ => .inl ⟨e, rfl⟩) fun _ hstatus => ?_
  refine Action.bind_elim_liftM (P := P) (fun e _ => .inl ⟨e, rfl⟩) fun _ haction => ?_
  -- the newest step
  obtain ⟨response, hresponse, hdata⟩ := @listRunSteps_newest s _ _
    (ne_empty_of_not_blank hthreadId) (ne_empty_of_not_blank hrunId) 1 (by decide)
  rw [Action.bind_of_ok hresponse]
  refine Action.bind_elim_liftM (P := P) (fun e _ => .inl ⟨e, rfl⟩) fun _ hone => ?_
  obtain ⟨step, hstep⟩ := List.length_eq_one_iff.mp (assertTrue_eq_ok.mp hone)
  simp only [hstep, List.headD_cons]
  refine Action.bind_elim_liftM (P := P) (fun e _ => .inl ⟨e, rfl⟩) fun _ hstepStatus => ?_
  refine Action.bind_elim_liftM (P := P) (fun e _ => .inl ⟨e, rfl⟩) fun _ hwaiting => ?_
  refine Action.bind_elim_liftM (P := P) (fun e _ => .inl ⟨e, rfl⟩) fun _ hcovered => ?_
  have hsubmits : Submits s req run step :=
    { runId := hrunId
      threadId := hthreadId
      found := hrun
      status := assertTrue_eq_ok.mp hstatus
      action := assertTrue_eq_ok.mp haction
      newest := by
        have hhead := congrArg List.head? hdata
        rw [hstep, List.head?_take] at hhead
        exact hhead.symm
      stepStatus := assertTrue_eq_ok.mp hstepStatus
      waiting := assertTrue_eq_ok.mp hwaiting
      covered := assertTrue_eq_ok.mp hcovered }
  -- both updates go through
  obtain ⟨hstepUpdate, hrunUpdate⟩ := hsubmits.updates
  refine .inr ⟨run, step, hsubmits, (Action.bind_of_ok hstepUpdate).trans ?_⟩
  refine (Action.liftM_bind_of_ok rfl).trans ?_
  exact Action.bind_of_ok hrunUpdate

end Instinct
