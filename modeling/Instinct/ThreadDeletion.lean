/-
Instinct/ThreadDeletion.lean

`ThreadServiceImpl::DeleteThread` beside clients, queue and threads of the
scheduler.

A deletion is turned down while a run of the thread is in progress or being
cancelled.  Every other thread keeps its rows as they are, whatever is done
elsewhere (`rowsOf_lasts`).
-/
import Instinct.System
import Instinct.ThreadRows

namespace Instinct

open Effects Tables Transitions Paging

/-! ### The service call -/

structure DeleteThreadRequest where
  threadId : String := ""
  deriving DecidableEq

structure DeleteThreadResponse where
  deleted : Bool
  object : String
  id : String
  deriving DecidableEq

/-- `EntitySQLUtils::SelectManyRuns`, for a context with statuses and without cursors. -/
def selectRunsIn (threadId : String) (possibleStatuses : List RunObjectStatus)
    (order : ListRequestOrder) (limit : Int32) : ServiceM (List RunObject) := fun s =>
  (selectMany (·.id) (·.createdAt)
    ((s.threadRuns threadId).filter fun run => possibleStatuses.contains run.status)
    none none order limit, s)

/-- `EntitySQLUtils::DeleteManyRuns`. -/
def deleteManyRuns (threadId : String) : ServiceM Nat := fun s =>
  (.ok (s.runs.count fun run => run.threadId = threadId),
    { s with runs := s.runs.delete fun run => run.threadId = threadId })

/-- `EntitySQLUtils::DeleteManyRunSteps`. -/
def deleteManyRunSteps (threadId : String) : ServiceM Nat := fun s =>
  (.ok (s.runSteps.count fun step => step.threadId = threadId),
    { s with runSteps := s.runSteps.delete fun step => step.threadId = threadId })

/-- `EntitySQLUtils::DeleteManyMessages`. -/
def deleteManyMessages (threadId : String) : ServiceM Nat := fun s =>
  (.ok (s.messages.count fun message => message.threadId = threadId),
    { s with messages := s.messages.delete fun message => message.threadId = threadId })

/-- `EntitySQLUtils::DeleteThread`. -/
def deleteOneThread (threadId : String) : ServiceM Nat := fun s =>
  (.ok (s.threads.count fun thread => thread.id = threadId),
    { s with threads := s.threads.delete fun thread => thread.id = threadId })

/-- The assertions of `DeleteThread`. -/
def checkDeletion (threadId : String) : ServiceM Unit := do
  assertNotBlank threadId "should provide thread id for  deletion"
  let transitionRuns ← selectRunsIn threadId [.inProgress, .cancelling] .desc 1
  assertTrue (transitionRuns = [])
    ("Some run objects in this thread are in active state which prevents delete of this thread. "
      ++ "thread_id=" ++ threadId ++ ", run_ids="
      ++ ",".intercalate (transitionRuns.map (·.id)))

/-- `ThreadServiceImpl::DeleteThread`. -/
def deleteThread (req : DeleteThreadRequest) : ServiceM DeleteThreadResponse := do
  checkDeletion req.threadId
  let _ ← deleteManyRuns req.threadId
  let _ ← deleteManyRunSteps req.threadId
  let _ ← deleteManyMessages req.threadId
  let count ← deleteOneThread req.threadId
  pure { deleted := count = 1, object := "thread.deleted", id := req.threadId }

/-! ### What a deletion does -/

/-- The statuses of a run that keep its thread from being deleted. -/
def RunObjectStatus.IsBusy (status : RunObjectStatus) : Prop :=
  status = .inProgress ∨ status = .cancelling

/-- The store without a thread. -/
def Store.without (s : Store) (threadId : String) : Store :=
  { s with
    runs := s.runs.delete fun run => run.threadId = threadId
    runSteps := s.runSteps.delete fun step => step.threadId = threadId
    messages := s.messages.delete fun message => message.threadId = threadId
    threads := s.threads.delete fun thread => thread.id = threadId }

section Deletion

variable {s : Store} {t : String}

theorem selectRunsIn_eq (s : Store) (threadId : String) :
    ∃ runs, selectRunsIn threadId [.inProgress, .cancelling] .desc 1 s = (.ok runs, s) ∧
      (runs = [] ↔ ∀ run ∈ s.threadRuns threadId, ¬ run.status.IsBusy) := by
  have hlimit : ¬ (1 : Int32) < 0 := by decide
  refine ⟨_, congrArg (·, s) (selectMany_eq_ok.mpr ⟨hlimit, rfl⟩), ?_⟩
  have hone : (1 : Int32).toNatClampNeg = 1 := rfl
  rw [hone, List.take_eq_nil_iff, or_iff_right Nat.one_ne_zero, ← List.length_eq_zero_iff,
    (arrange_perm _ _ _).length_eq, List.length_eq_zero_iff, List.filter_eq_nil_iff]
  refine forall₂_congr fun run _ => not_congr ?_
  rw [List.contains_eq_mem, decide_eq_true_iff, List.mem_cons, List.mem_singleton]
  exact Iff.rfl

/-- The check turns a deletion down, or no run of the thread is busy. -/
theorem checkDeletion_cases (threadId : String) (s : Store) :
    (∃ e, checkDeletion threadId s = (.error e, s)) ∨
    ((∀ run ∈ s.threadRuns threadId, ¬ run.status.IsBusy) ∧
      checkDeletion threadId s = (.ok (), s)) := by
  let P : Except Exn Unit × Store → Prop := fun r => (∃ e, r = (.error e, s)) ∨
    ((∀ run ∈ s.threadRuns threadId, ¬ run.status.IsBusy) ∧ r = (.ok (), s))
  show P (checkDeletion threadId s)
  obtain ⟨runs, hselect, hruns⟩ := selectRunsIn_eq s threadId
  unfold checkDeletion
  refine Action.bind_elim_liftM (P := P) (fun e _ => .inl ⟨e, rfl⟩) fun _ _ => ?_
  rw [Action.bind_of_ok hselect]
  by_cases hempty : runs = []
  · exact .inr ⟨hruns.mp hempty, congrArg (·, s) (if_pos hempty)⟩
  · exact .inl ⟨_, congrArg (·, s) (if_neg hempty)⟩

/-- **A deletion is turned down and changes nothing, or it is complete.** -/
theorem deleteThread_cases (req : DeleteThreadRequest) (s : Store) :
    (∃ e, deleteThread req s = (.error e, s)) ∨
    ((∀ run ∈ s.threadRuns req.threadId, ¬ run.status.IsBusy) ∧
      ∃ response, deleteThread req s = (.ok response, s.without req.threadId)) := by
  unfold deleteThread
  rcases checkDeletion_cases req.threadId s with ⟨e, he⟩ | ⟨hidle, hok⟩
  · exact .inl ⟨e, Action.bind_of_error he⟩
  · -- nothing fails behind the check
    rw [Action.bind_of_ok hok]
    exact .inr ⟨hidle, _, rfl⟩

/-- What a deletion selects is gone. -/
theorem filter_delete_same {α κ : Type} {key : α → κ} {Valid : α → Prop} (table : Table key Valid)
    (p : α → Bool) : (table.delete p).rows.filter p = [] := by
  refine List.filter_eq_nil_iff.mpr fun row hrow hp => ?_
  have hnot := (List.mem_filter.mp hrow).2
  rw [hp] at hnot
  cases hnot

theorem rowsOf_without (s : Store) (t : String) : (s.without t).rowsOf t = ⟨[], [], []⟩ :=
  ThreadRows.ext (filter_delete_same _ _) (filter_delete_same _ _) (filter_delete_same _ _)

/-- The rows of another thread stay. -/
theorem rowsOf_without_other {u : String} (h : u ≠ t) : (s.without u).rowsOf t = s.rowsOf t := by
  have hother : ∀ {α : Type} (f : α → String) (row : α), decide (f row = t) = true →
      decide (f row = u) = false := by
    intro α f row ht
    exact decide_eq_false fun hu => h (hu.symm.trans (of_decide_eq_true ht))
  refine ThreadRows.ext ?_ ?_ ?_
  · exact Table.filter_delete_other s.runs (hother RunObject.threadId)
  · exact Table.filter_delete_other s.runSteps (hother RunStepObject.threadId)
  · exact Table.filter_delete_other s.messages (hother MessageObject.threadId)

end Deletion

/-! ### The system with deletions -/

/-- The steps of the system, and a client that deletes a thread. -/
inductive ThreadsLabel (ι : Type)
  | runs (label : Label ι)
  | deleteThread (req : DeleteThreadRequest)

section Deletions

variable {ι : Type} [DecidableEq ι]

/-- One step; like the other service calls a deletion is atomic. -/
def System.stepThreads (config : HandlerConfig) (sys : System ι) :
    ThreadsLabel ι → Option (System ι)
  | .runs label => sys.step config label
  | .deleteThread req => some { sys with store := (Instinct.deleteThread req sys.store).2 }

/-- A client sets a status itself. -/
def ThreadsLabel.SetsStatus : ThreadsLabel ι → Prop
  | .runs label => label.SetsStatus
  | .deleteThread _ => False

/-- The step may give the thread its first rows: a run is created in it, a new thread gets its
id, or its messages are written. -/
def ThreadsLabel.Fills (sys : System ι) (t : String) : ThreadsLabel ι → Prop
  | .runs (.createRun req) => req.threadId = t
  | .runs (.createThreadAndRun _) =>
      generateNextObjectId "thread" (sys.store.nextNumber + 1) = t
  | .runs (.others tables) => (tables.rowsOf t).messages ≠ (sys.store.rowsOf t).messages
  | _ => False

/-- The step may change rows of the thread: it fills it, or it is of a client that names it, or of
a handler of one of its runs. -/
def ThreadsLabel.Concerns (sys : System ι) (t : String) (label : ThreadsLabel ι) : Prop :=
  label.Fills sys t ∨ match label with
    | .runs (.submitToolOutputs req) => req.threadId = t
    | .runs (.cancelRun req) => req.threadId = t
    | .runs (.modifyRun req) => req.threadId = t
    | .runs (.handler j _) => ∃ run, (sys.pool j).run? = some run ∧ run.threadId = t
    | .deleteThread req => req.threadId = t
    | _ => False

variable {config : HandlerConfig} {sys sys' : System ι} {label : ThreadsLabel ι} {t : String}

/-- What a step does to the threads of the scheduler. -/
theorem pool_step (h : sys.stepThreads config label = some sys') :
    sys'.pool = sys.pool ∨ ∃ j thread, sys'.pool = Function.update sys.pool j thread ∧
      ((∃ run, thread = Thread.handle config run) ∨
        ∃ outside, thread = ((sys.pool j).next config outside sys.store).1) := by
  cases label with
  | deleteThread req =>
      obtain rfl := Option.some.inj h
      exact .inl rfl
  | runs label =>
      cases step_cases h with
      | dequeues j position run _ _ hpool => exact .inr ⟨j, _, hpool, .inl ⟨run, rfl⟩⟩
      | advances j outside _ hpool => exact .inr ⟨j, _, hpool, .inr ⟨outside, rfl⟩⟩
      | quiet _ hpool => exact .inl hpool
      | starts _ _ hpool => exact .inl hpool
      | submits _ _ _ _ _ hpool => exact .inl hpool
      | cancels _ _ _ hpool => exact .inl hpool
      | modifies _ _ _ hpool => exact .inl hpool

theorem keepsTo_step (hkeeps : ∀ j, (sys.pool j).KeepsTo)
    (h : sys.stepThreads config label = some sys') : ∀ j, (sys'.pool j).KeepsTo := by
  rcases pool_step h with hpool | ⟨j, thread, hpool, hthread⟩
  · rw [hpool]
    exact hkeeps
  · rw [hpool]
    refine (Function.forall_update_iff _ fun _ (thread : Thread) => thread.KeepsTo).mpr
      ⟨?_, fun k _ => hkeeps k⟩
    rcases hthread with ⟨run, rfl⟩ | ⟨outside, rfl⟩
    · exact keepsTo_handle
    · exact keepsTo_next (hkeeps j)

/-! ### Other threads keep their rows -/

/-- **Step lemma.**  A step that does not concern a thread leaves its rows. -/
theorem rowsOf_step (hkeeps : ∀ j, (sys.pool j).KeepsTo) (hlabel : ¬ label.Concerns sys t)
    (h : sys.stepThreads config label = some sys') :
    sys'.store.rowsOf t = sys.store.rowsOf t := by
  obtain ⟨hfills, hnames⟩ := not_or.mp hlabel
  cases label with
  | deleteThread req =>
      obtain rfl := Option.some.inj h
      show (Instinct.deleteThread req sys.store).2.rowsOf t = _
      rcases deleteThread_cases req sys.store with ⟨e, he⟩ | ⟨-, response, hok⟩
      · rw [he]
      · rw [hok]
        exact rowsOf_without_other hnames
  | runs label =>
      cases label with
      | createRun req =>
          obtain rfl := Option.some.inj h
          exact rowsOf_createRun hfills sys.store
      | createThreadAndRun req =>
          obtain rfl := Option.some.inj h
          exact rowsOf_createThreadAndRun hfills
      | submitToolOutputs req =>
          obtain rfl := Option.some.inj h
          show (submitToolOutputs req sys.store).2.rowsOf t = _
          rcases submitToolOutputs_cases req sys.store with ⟨e, he⟩ | ⟨run, step, -, hok⟩
          · rw [he]
          · rw [hok]
            exact rowsOf_submit hnames
      | cancelRun req =>
          obtain rfl := Option.some.inj h
          show (cancelRun req sys.store).2.rowsOf t = _
          rcases cancelRun_cases req sys.store with hsame | hcancel
          · rw [hsame]
          · rw [hcancel]
            exact rowsOf_assignRun hnames
      | modifyRun req =>
          obtain rfl := Option.some.inj h
          exact keeps_modifyRun_other hnames sys.store
      | others tables =>
          obtain rfl := Option.some.inj h
          exact ThreadRows.ext rfl rfl (not_not.mp hfills)
      | dequeue j position =>
          simp only [System.stepThreads, System.step] at h
          split at h
          · obtain rfl := Option.some.inj h
            rfl
          · cases h
      | handler j outside =>
          obtain rfl := Option.some.inj h
          exact rowsOf_next (hkeeps j) fun run hrun heq => hnames ⟨run, hrun, heq⟩

/-- **A thread is left alone.**  In every run of the system, deletions of other threads included,
the rows of a thread stay as they are until a step concerns it. -/
theorem rowsOf_lasts (config : HandlerConfig) {initial sys₁ sys₂ : System ι} (t : String)
    (hinitial : initial.Initial) (hreaches : Reaches (System.stepThreads config) initial sys₁)
    (hlater : Runs (System.stepThreads config) (fun sys label => ¬ label.Concerns sys t)
      sys₁ sys₂) :
    sys₂.store.rowsOf t = sys₁.store.rowsOf t := by
  have hidle : ∀ j, (initial.pool j).KeepsTo := fun j => by
    rw [hinitial.pool j]
    trivial
  have hkeeps : ∀ j, (sys₁.pool j).KeepsTo :=
    hreaches.invariant (fun _ _ _ h _ hstep => keepsTo_step h hstep) hidle
  have hboth : (∀ j, (sys₂.pool j).KeepsTo) ∧ sys₂.store.rowsOf t = sys₁.store.rowsOf t := by
    refine hlater.invariant (I := fun sys => (∀ j, (sys.pool j).KeepsTo) ∧
      sys.store.rowsOf t = sys₁.store.rowsOf t) ?_ ⟨hkeeps, rfl⟩
    exact fun _ _ _ h hlabel hstep =>
      ⟨keepsTo_step h.1 hstep, (rowsOf_step h.1 hlabel hstep).trans h.2⟩
  exact hboth.2

end Deletions

/-- A run is created in another thread and completed by its client, and the thread is deleted. -/
def otherThread : List (ThreadsLabel Unit) :=
  [.runs (.createRun { threadId := "thread_2", assistantId := "assistant_1" }),
    .runs (.modifyRun { threadId := "thread_2", runId := "run_2", status := .completed }),
    .deleteThread { threadId := "thread_2" }]

/-- The failed run and its thread stay. -/
theorem rowsOf_lasts_other :
    ∃ sys, execute (System.stepThreads {}) otherThread failedSystem = some sys ∧
      sys.store.rowsOf "thread_1" = failedSystem.store.rowsOf "thread_1" := by
  have hreaches : execute (System.stepThreads {}) ((workedOn 13).map .runs)
      (oneThread questionStore) = some failedSystem := rfl
  have hother : ∀ sys : System Unit, ∀ label ∈ otherThread, ¬ label.Concerns sys "thread_1" := by
    simp [otherThread, ThreadsLabel.Concerns, ThreadsLabel.Fills]
  refine ⟨_, rfl, rowsOf_lasts {} "thread_1" ⟨rfl, rfl, fun _ => rfl⟩
    (runs_of_execute (fun _ _ _ => trivial) hreaches) ?_⟩
  exact runs_of_execute hother rfl

end Instinct
