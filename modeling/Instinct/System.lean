/-
Instinct/System.lean

Clients, the queue and the threads of the scheduler on one store.

`System.step` is one atomic step of the whole: a service call of a client, a
thread that takes a task from the queue, or one call of a thread.  Steps of
different parties interleave in any order.

The invariant `HeldOnce` says who may still update a run: at most one task or
thread holds it, and nobody holds a run that waits for outputs or has ended.  So
a run that has ended stays as it is until a client cancels it
(`terminal_lasts`).  That leaves out clients that set a status themselves: the
body of a `ModifyRun` reaches the service as it is, its status included.

A cancellation is not seen by a thread that is past its stop predicate, and one
that sees it acts once more on the step before.  `cancelRun_lasts` says when a
cancellation lasts.
-/
import Mathlib.Logic.Function.Basic
import Instinct.Threads
import Instinct.Transitions

namespace Instinct

open Effects Tables Transitions

/-! ### The system -/

/-- The store and the threads of the scheduler. -/
structure System (ι : Type) where
  store : Store
  pool : ι → Thread

/-- The steps of the system. -/
inductive Label (ι : Type)
  | createRun (req : CreateRunRequest)
  | createThreadAndRun (req : CreateThreadAndRunRequest)
  | submitToolOutputs (req : SubmitToolOutputsToRunRequest)
  | cancelRun (req : CancelRunRequest)
  /-- `RunController` hands the body of the client on as it is. -/
  | modifyRun (req : ModifyRunRequest)
  /-- The other services change their own tables. -/
  | others (tables : Store)
  /-- An idle thread takes a task from the queue, which keeps no order between producers. -/
  | dequeue (j : ι) (position : Nat)
  /-- A thread makes one call, or goes on from the end of its program. -/
  | handler (j : ι) (outside : Outside)

section System

variable {ι : Type} [DecidableEq ι]

/-- One step of the system, if it is enabled. -/
def System.step (config : HandlerConfig) (sys : System ι) : Label ι → Option (System ι)
  | .createRun req => some { sys with store := (createRun req sys.store).2 }
  | .createThreadAndRun req => some { sys with store := (createThreadAndRun req sys.store).2 }
  | .submitToolOutputs req => some { sys with store := (submitToolOutputs req sys.store).2 }
  | .cancelRun req => some { sys with store := (cancelRun req sys.store).2 }
  | .modifyRun req => some { sys with store := (modifyRun req sys.store).2 }
  | .others tables => some
      { sys with store := { tables with
          runs := sys.store.runs, runSteps := sys.store.runSteps, queue := sys.store.queue } }
  | .dequeue j position =>
      match sys.pool j, sys.store.queue[position]? with
      | .idle, some run => some
          { store := { sys.store with queue := sys.store.queue.eraseIdx position }
            pool := Function.update sys.pool j (Thread.handle config run) }
      | _, _ => none
  | .handler j outside => some
      { store := ((sys.pool j).next config outside sys.store).2
        pool := Function.update sys.pool j ((sys.pool j).next config outside sys.store).1 }

end System

/-- At first there is no run, and nobody works. -/
structure System.Initial {ι : Type} (sys : System ι) : Prop where
  runs : sys.store.runs.rows = []
  queue : sys.store.queue = []
  pool : ∀ j, sys.pool j = .idle

/-! ### Who holds a run -/

section Held

variable {ι : Type} {rows rows' queue : List RunObject} {pool : ι → Thread}

/-- A task or a thread holds the run of an id. -/
def Held (queue : List RunObject) (pool : ι → Thread) (id : String) : Prop :=
  (∃ run ∈ queue, run.id = id) ∨ ∃ j, (pool j).Holds id

/-- **The invariant.**  Every run is held by one task or thread at most, and nobody holds a
run that is settled. -/
structure HeldOnce (rows queue : List RunObject) (pool : ι → Thread) : Prop where
  stored : ∀ id, Held queue pool id → id ∈ rows.map (·.id)
  tasks : (queue.map (·.id)).Nodup
  taskOrThread : ∀ run ∈ queue, ∀ j, ¬ (pool j).Holds run.id
  threads : ∀ j k id, (pool j).Holds id → (pool k).Holds id → j = k
  settled : ∀ row ∈ rows, row.status.Settled → ¬ Held queue pool row.id

/-- Other rows, while no row goes and no held run gets settled. -/
theorem HeldOnce.of_rows (h : HeldOnce rows queue pool)
    (hids : ∀ id ∈ rows.map (·.id), id ∈ rows'.map (·.id))
    (hsettled : ∀ row ∈ rows', row.status.Settled → ¬ Held queue pool row.id) :
    HeldOnce rows' queue pool :=
  { h with
    stored := fun id hheld => hids id (h.stored id hheld)
    settled := hsettled }

theorem held_enqueue {run : RunObject} {id : String} :
    Held (queue ++ [run]) pool id ↔ Held queue pool id ∨ run.id = id := by
  unfold Held
  simp only [List.mem_append, List.mem_singleton]
  constructor
  · rintro (⟨run', hmem | rfl, rfl⟩ | hthread)
    · exact .inl (.inl ⟨run', hmem, rfl⟩)
    · exact .inr rfl
    · exact .inl (.inr hthread)
  · rintro ((⟨run', hmem, rfl⟩ | hthread) | rfl)
    · exact .inl ⟨run', .inl hmem, rfl⟩
    · exact .inr hthread
    · exact .inl ⟨run, .inr rfl, rfl⟩

/-- A run that nobody holds, and that is not settled, may be enqueued. -/
theorem HeldOnce.enqueue (h : HeldOnce rows queue pool) {run : RunObject}
    (hstored : run.id ∈ rows.map (·.id)) (hfree : ¬ Held queue pool run.id)
    (hopen : ∀ row ∈ rows, row.id = run.id → ¬ row.status.Settled) :
    HeldOnce rows (queue ++ [run]) pool where
  stored id hheld := by
    rcases held_enqueue.mp hheld with hheld | rfl
    · exact h.stored id hheld
    · exact hstored
  tasks := by
    rw [List.map_append, List.nodup_append]
    -- a second task of the run would mean that it was held before
    refine ⟨h.tasks, List.nodup_singleton _, fun id hid id' hid' heq => hfree ?_⟩
    obtain ⟨run', hmem, rfl⟩ := List.mem_map.mp hid
    exact .inl ⟨run', hmem, heq.trans (List.mem_singleton.mp hid')⟩
  taskOrThread run' hmem j := by
    rcases List.mem_append.mp hmem with hmem | hmem
    · exact h.taskOrThread run' hmem j
    · obtain rfl := List.mem_singleton.mp hmem
      exact fun hholds => hfree (.inr ⟨j, hholds⟩)
  threads := h.threads
  settled row hrow hstatus hheld := by
    rcases held_enqueue.mp hheld with hheld | hid
    · exact h.settled row hrow hstatus hheld
    · exact hopen row hrow hid.symm hstatus

/-- The rows after a run update: rows as they were, and the updated one. -/
theorem mem_assignRun {s : Store} {req : ModifyRunRequest} {row : RunObject}
    (h : row ∈ (s.assignRun req).runs.rows) :
    row ∈ s.runs.rows ∨ ∃ old ∈ s.runs.rows, isRun req.threadId req.runId old = true ∧
      row = old.assign req := by
  obtain ⟨old, hold, rfl⟩ := List.mem_map.mp h
  split
  · exact .inr ⟨old, hold, ‹_›, rfl⟩
  · exact .inl hold

theorem ids_assignRun (s : Store) (req : ModifyRunRequest) :
    (s.assignRun req).runs.rows.map (·.id) = s.runs.rows.map (·.id) := by
  have hrows : (s.assignRun req).runs.rows
      = s.runs.rows.map fun row =>
          if isRun req.threadId req.runId row then row.assign req else row := rfl
  rw [hrows, List.map_map]
  refine List.map_congr_left fun row _ => ?_
  show (if isRun req.threadId req.runId row then row.assign req else row).id = row.id
  split <;> rfl

theorem status_assign {run : RunObject} {req : ModifyRunRequest}
    (h : req.status ≠ .unknownRunObjectStatus) : (run.assign req).status = req.status := if_neg h

theorem status_assign_unknown {run : RunObject} {req : ModifyRunRequest}
    (h : req.status = .unknownRunObjectStatus) : (run.assign req).status = run.status := if_pos h

theorem not_settled_queued : ¬ RunObjectStatus.Settled .queued := by
  rintro (h | h)
  · simp at h
  · simp [RunObjectStatus.isTerminal] at h

theorem not_settled_cancelling : ¬ RunObjectStatus.Settled .cancelling := by
  rintro (h | h)
  · simp at h
  · simp [RunObjectStatus.isTerminal] at h

/-- A new run comes with a task for it. -/
theorem heldOnce_starts {s s' : Store} {pool : ι → Thread} {run : RunObject}
    (h : HeldOnce s.runs.rows s.queue pool) (hstarts : Starts s s' run) :
    HeldOnce s'.runs.rows s'.queue pool := by
  have hfree : ¬ Held s.queue pool run.id := fun hheld => hstarts.fresh (h.stored _ hheld)
  have hunsettled : ¬ run.status.Settled := by
    rw [hstarts.status]
    exact not_settled_queued
  rw [hstarts.queue, hstarts.rows]
  -- the new row is the only one the invariant did not know, and nothing held it before
  refine HeldOnce.enqueue (h.of_rows (fun id hid => ?_) fun row hrow hsettled => ?_) ?_ hfree ?_
  · rw [List.map_append]
    exact List.mem_append_left _ hid
  · rcases List.mem_append.mp hrow with hrow | hrow
    · exact h.settled row hrow hsettled
    · exact List.mem_singleton.mp hrow ▸ hfree
  · rw [List.map_append]
    exact List.mem_append_right _ List.mem_cons_self
  · intro row hrow hid
    rcases List.mem_append.mp hrow with hrow | hrow
    · exact absurd (hid ▸ List.mem_map_of_mem hrow) hstarts.fresh
    · exact List.mem_singleton.mp hrow ▸ hunsettled

/-- An update to a status that is not settled. -/
theorem heldOnce_assignRun {s : Store} {pool : ι → Thread} {req : ModifyRunRequest}
    (h : HeldOnce s.runs.rows s.queue pool) (hknown : req.status ≠ .unknownRunObjectStatus)
    (hunsettled : ¬ req.status.Settled) :
    HeldOnce (s.assignRun req).runs.rows s.queue pool := by
  refine h.of_rows (fun id hid => (ids_assignRun s req).symm ▸ hid) fun row hrow hsettled => ?_
  rcases mem_assignRun hrow with hrow | ⟨old, -, -, rfl⟩
  · exact h.settled row hrow hsettled
  · exact absurd (status_assign hknown ▸ hsettled) hunsettled

/-- An update without a status. -/
theorem heldOnce_assignRun_unknown {s : Store} {pool : ι → Thread} {req : ModifyRunRequest}
    (h : HeldOnce s.runs.rows s.queue pool) (hunknown : req.status = .unknownRunObjectStatus) :
    HeldOnce (s.assignRun req).runs.rows s.queue pool := by
  refine h.of_rows (fun id hid => (ids_assignRun s req).symm ▸ hid) fun row hrow hsettled => ?_
  rcases mem_assignRun hrow with hrow | ⟨old, hold, -, rfl⟩
  · exact h.settled row hrow hsettled
  · rw [status_assign_unknown hunknown] at hsettled
    exact h.settled old hold hsettled

/-- Rows of one id are one row. -/
theorem eq_of_id {s : Store} {row row' : RunObject} (hrow : row ∈ s.runs.rows)
    (hrow' : row' ∈ s.runs.rows) (hid : row.id = row'.id) : row = row' :=
  List.inj_on_of_nodup_map s.runs.nodup hrow hrow' hid

/-- An accepted request enqueues its run again. -/
theorem heldOnce_submit {s : Store} {pool : ι → Thread} {req : SubmitToolOutputsToRunRequest}
    {run : RunObject} {step : RunStepObject} (h : HeldOnce s.runs.rows s.queue pool)
    (hsubmits : Submits s req run step) :
    HeldOnce (s.submit req run step).runs.rows (s.submit req run step).queue pool := by
  have hmem := List.mem_of_find?_eq_some hsubmits.found
  have hnames := isRun_eq_true.mpr (Store.run?_some hsubmits.found)
  have hknown : req.runRequest.status ≠ .unknownRunObjectStatus := by
    simp [SubmitToolOutputsToRunRequest.runRequest]
  have hassign : HeldOnce (s.submit req run step).runs.rows s.queue pool :=
    heldOnce_assignRun h hknown not_settled_queued
  have hids : (s.submit req run step).runs.rows.map (·.id) = s.runs.rows.map (·.id) :=
    ids_assignRun s req.runRequest
  -- a run that waits for its tools is settled, so the invariant says that nothing holds it
  refine hassign.enqueue ?_ (h.settled run hmem (.inl hsubmits.status)) ?_
  · rw [hids, RunObject.id_assign]
    exact List.mem_map_of_mem hmem
  · intro row hrow hid hsettled
    have hrow : row ∈ (s.assignRun req.runRequest).runs.rows := hrow
    rcases mem_assignRun hrow with hold | ⟨old, -, -, rfl⟩
    · -- the row of the request was updated
      obtain rfl := eq_of_id hold hmem hid
      obtain ⟨old, hold', heq⟩ := List.mem_map.mp hrow
      have hsame : old.id = row.id := by
        rw [← heq]
        split <;> rfl
      obtain rfl := eq_of_id hold' hold hsame
      rw [show isRun req.runRequest.threadId req.runRequest.runId old = true from hnames,
        if_pos rfl] at heq
      rw [← heq] at hsettled
      exact not_settled_queued hsettled
    · exact not_settled_queued hsettled

/-- The threads are sound, and every run is held once at most. -/
structure System.WellHeld (sys : System ι) : Prop where
  sound : ∀ j, (sys.pool j).Sound
  heldOnce : HeldOnce sys.store.runs.rows sys.store.queue sys.pool

theorem wellHeld_of_initial {sys : System ι} (h : sys.Initial) : sys.WellHeld where
  sound j := by
    rw [h.pool j]
    trivial
  heldOnce := by
    have hfree : ∀ id, ¬ Held sys.store.queue sys.pool id := by
      rintro id (⟨run, hrun, -⟩ | ⟨j, hholds⟩)
      · rw [h.queue] at hrun
        simp at hrun
      · rw [h.pool j] at hholds
        simp [Thread.Holds, Thread.isSpent] at hholds
    -- every clause speaks of what is held, and at the start nothing is
    exact
      { stored := fun id hid => absurd hid (hfree id)
        tasks := by rw [h.queue]; exact List.nodup_nil
        taskOrThread := fun run hrun => absurd (.inl ⟨run, hrun, rfl⟩) (hfree run.id)
        threads := fun j k id hj => absurd (.inr ⟨j, hj⟩) (hfree id)
        settled := fun row _ _ => hfree row.id }

variable [DecidableEq ι]

theorem holds_update {j k : ι} {thread : Thread} {id : String}
    (h : (Function.update pool j thread k).Holds id) :
    (k = j ∧ thread.Holds id) ∨ (k ≠ j ∧ (pool k).Holds id) := by
  by_cases hk : k = j
  · subst hk
    rw [Function.update_self] at h
    exact .inl ⟨rfl, h⟩
  · rw [Function.update_of_ne hk] at h
    exact .inr ⟨hk, h⟩

theorem holds_handle {config : HandlerConfig} {run : RunObject} {id : String}
    (h : (Thread.handle config run).Holds id) : run.id = id := by
  obtain ⟨-, run', hrun, hid⟩ := h
  unfold Thread.handle at hrun
  split at hrun
  · exact Option.some.inj hrun ▸ hid
  · simp [Thread.run?] at hrun

/-- A thread takes a task. -/
theorem HeldOnce.dequeue (h : HeldOnce rows queue pool) {config : HandlerConfig} (j : ι)
    {position : Nat} {run : RunObject} (hrun : queue[position]? = some run) :
    HeldOnce rows (queue.eraseIdx position)
      (Function.update pool j (Thread.handle config run)) := by
  obtain ⟨hlt, rfl⟩ := List.getElem?_eq_some_iff.mp hrun
  have hperm := List.getElem_cons_eraseIdx_perm hlt
  have hmem : ∀ run' ∈ queue.eraseIdx position, run' ∈ queue := fun run' hrun' =>
    List.mem_of_mem_eraseIdx hrun'
  obtain ⟨hother, hnodup⟩ := List.nodup_cons.mp ((hperm.map (·.id)).nodup_iff.mpr h.tasks)
  -- the task moves from the queue to the thread, so nothing becomes held that was not
  have hheld : ∀ id, Held (queue.eraseIdx position)
      (Function.update pool j (Thread.handle config queue[position])) id →
        Held queue pool id := by
    rintro id (⟨run', hrun', hid⟩ | ⟨k, hholds⟩)
    · exact .inl ⟨run', hmem run' hrun', hid⟩
    · rcases holds_update hholds with ⟨-, hhandle⟩ | ⟨-, hholds⟩
      · exact .inl ⟨_, List.getElem_mem hlt, holds_handle hhandle⟩
      · exact .inr ⟨k, hholds⟩
  exact
    { stored := fun id hid => h.stored id (hheld id hid)
      tasks := hnodup
      taskOrThread := by
        intro run' hrun' k hholds
        rcases holds_update hholds with ⟨-, hhandle⟩ | ⟨-, hholds⟩
        · refine hother (List.mem_map.mpr ⟨run', hrun', ?_⟩)
          exact (holds_handle hhandle).symm
        · exact h.taskOrThread run' (hmem run' hrun') k hholds
      threads := by
        intro k k' id hk hk'
        -- the run of the task taken was in the queue, so no thread held it
        have htask : ∀ k'', (Thread.handle config queue[position]).Holds id →
            ¬ (pool k'').Holds id := fun k'' hhandle hholds =>
          h.taskOrThread _ (List.getElem_mem hlt) k'' (holds_handle hhandle ▸ hholds)
        rcases holds_update hk with ⟨rfl, hown⟩ | ⟨-, hother⟩
        · rcases holds_update hk' with ⟨rfl, -⟩ | ⟨-, hother'⟩
          · rfl
          · exact absurd hother' (htask k' hown)
        · rcases holds_update hk' with ⟨rfl, hown'⟩ | ⟨-, hother'⟩
          · exact absurd hother (htask k hown')
          · exact h.threads k k' id hother hother'
      settled := fun row hrow hstatus hid => h.settled row hrow hstatus (hheld _ hid) }

/-- A sound thread makes a step. -/
theorem HeldOnce.advance {s s' : Store} (h : HeldOnce s.runs.rows s.queue pool) (j : ι)
    {next : Thread} (hstep : Advances (pool j) next s s') :
    HeldOnce s'.runs.rows s'.queue (Function.update pool j next) := by
  have hheld : ∀ id, Held s.queue (Function.update pool j next) id → Held s.queue pool id := by
    rintro id (htask | ⟨k, hholds⟩)
    · exact .inl htask
    · rcases holds_update hholds with ⟨rfl, hown⟩ | ⟨-, hother⟩
      · exact .inr ⟨k, hstep.holds hown⟩
      · exact .inr ⟨k, hother⟩
  have hpool : HeldOnce s.runs.rows s.queue (Function.update pool j next) :=
    { stored := fun id hid => h.stored id (hheld id hid)
      tasks := h.tasks
      taskOrThread := fun run hrun k hholds => by
        rcases holds_update hholds with ⟨rfl, hown⟩ | ⟨-, hother⟩
        · exact h.taskOrThread run hrun k (hstep.holds hown)
        · exact h.taskOrThread run hrun k hother
      threads := fun k k' id hk hk' => by
        rcases holds_update hk with ⟨rfl, hown⟩ | ⟨-, hother⟩
        · rcases holds_update hk' with ⟨rfl, -⟩ | ⟨-, hother'⟩
          · rfl
          · exact h.threads _ _ id (hstep.holds hown) hother'
        · rcases holds_update hk' with ⟨rfl, hown'⟩ | ⟨-, hother'⟩
          · exact h.threads _ _ id hother (hstep.holds hown')
          · exact h.threads _ _ id hother hother'
      settled := fun row hrow hstatus hid => h.settled row hrow hstatus (hheld _ hid) }
  rw [hstep.queue]
  rcases hstep.runs with hruns | ⟨run, req, hrun, hspent, -, hid, hruns, hstatus⟩
  · rw [hruns]
    exact hpool
  · rw [hruns]
    refine hpool.of_rows (fun id hid => (ids_assignRun s req).symm ▸ hid) ?_
    intro row hrow hsettled
    rcases mem_assignRun hrow with hrow | ⟨old, -, hold, rfl⟩
    · exact hpool.settled row hrow hsettled
    -- the updated row: the thread was the only holder, and is spent
    have hholds : (pool j).Holds req.runId := ⟨hspent, run, hrun, hid.symm⟩
    rw [RunObject.id_assign, isRun_key hold]
    rcases hstatus with hprogress | ⟨-, hdone⟩
    · rw [status_assign (by rw [hprogress]; simp), hprogress] at hsettled
      exact absurd hsettled not_settled_inProgress
    · rintro (⟨run', hrun', htask⟩ | ⟨k, hk⟩)
      · exact h.taskOrThread run' hrun' j (htask ▸ hholds)
      · rcases holds_update hk with ⟨-, hk⟩ | ⟨hne, hk⟩
        · rw [hk.1] at hdone
          simp at hdone
        · exact hne (h.threads k j _ hk hholds)

end Held

/-! ### What a step of the system can be -/

section Steps

variable {ι : Type} [DecidableEq ι] {config : HandlerConfig} {sys sys' : System ι}
variable {label : Label ι}

/-- The status update of a cancellation. -/
def CancelRunRequest.runRequest (req : CancelRunRequest) : ModifyRunRequest :=
  { threadId := req.threadId, runId := req.runId, status := .cancelling }

/-- What a step of the system can be, by what it does to runs, queue and threads. -/
inductive StepCase (config : HandlerConfig) (sys sys' : System ι) (label : Label ι) : Prop
  | quiet (htasks : sys'.store.tasks = sys.store.tasks) (hpool : sys'.pool = sys.pool)
  | starts (run : RunObject) (h : Starts sys.store sys'.store run) (hpool : sys'.pool = sys.pool)
  | submits (req : SubmitToolOutputsToRunRequest) (run : RunObject) (step : RunStepObject)
      (h : Submits sys.store req run step) (hstore : sys'.store = sys.store.submit req run step)
      (hpool : sys'.pool = sys.pool)
  | cancels (req : CancelRunRequest) (hlabel : label = .cancelRun req)
      (hstore : sys'.store = sys.store.assignRun req.runRequest) (hpool : sys'.pool = sys.pool)
  | modifies (req : ModifyRunRequest) (hlabel : label = .modifyRun req)
      (hstore : sys'.store = sys.store.assignRun req) (hpool : sys'.pool = sys.pool)
  | dequeues (j : ι) (position : Nat) (run : RunObject)
      (hrun : sys.store.queue[position]? = some run)
      (htasks : sys'.store.tasks = (sys.store.runs, sys.store.queue.eraseIdx position))
      (hpool : sys'.pool = Function.update sys.pool j (Thread.handle config run))
  | advances (j : ι) (outside : Outside)
      (hstore : sys'.store = ((sys.pool j).next config outside sys.store).2)
      (hpool : sys'.pool
        = Function.update sys.pool j ((sys.pool j).next config outside sys.store).1)

theorem stepCase_of_creates {result : Except Exn (Option RunObject) × Store}
    (h : CreatesRun sys.store result) :
    StepCase config sys { sys with store := result.2 } label := by
  rcases h with ⟨e, -, htasks⟩ | ⟨run, -, hstarts⟩
  · exact .quiet htasks rfl
  · exact .starts run hstarts rfl

/-- A step of the system is one of these cases. -/
theorem step_cases (h : sys.step config label = some sys') : StepCase config sys sys' label := by
  cases label with
  | createRun req =>
      obtain rfl := Option.some.inj h
      exact stepCase_of_creates (createRun_creates req sys.store)
  | createThreadAndRun req =>
      obtain rfl := Option.some.inj h
      exact stepCase_of_creates (createThreadAndRun_creates req sys.store)
  | submitToolOutputs req =>
      obtain rfl := Option.some.inj h
      rcases submitToolOutputs_cases req sys.store with ⟨e, hfails⟩ | ⟨run, step, hsubmits, hok⟩
      · exact .quiet (congrArg (fun r => r.2.tasks) hfails) rfl
      · exact .submits req run step hsubmits (congrArg Prod.snd hok) rfl
  | cancelRun req =>
      obtain rfl := Option.some.inj h
      rcases cancelRun_cases req sys.store with hsame | hcancel
      · exact .quiet (congrArg Store.tasks hsame) rfl
      · exact .cancels req rfl hcancel rfl
  | modifyRun req =>
      obtain rfl := Option.some.inj h
      rcases modifyRun_cases req sys.store with ⟨e, he⟩ | ⟨run, -, hok⟩
      · exact .quiet (congrArg (fun r => r.2.tasks) he) rfl
      · exact .modifies req rfl (congrArg Prod.snd hok) rfl
  | others tables =>
      obtain rfl := Option.some.inj h
      exact .quiet rfl rfl
  -- the only label that can be refused: the thread is busy or the position is empty
  | dequeue j position =>
      simp only [System.step] at h
      split at h
      · rename_i run hidle hrun
        obtain rfl := Option.some.inj h
        exact .dequeues j position run hrun rfl rfl
      · simp at h
  | handler j outside =>
      obtain rfl := Option.some.inj h
      exact .advances j outside rfl rfl

/-- A thread that takes a task from the queue is sound, and the others keep what they had. -/
theorem sound_dequeues {j : ι} {run : RunObject} (hsound : ∀ k, (sys.pool k).Sound)
    (hpool : sys'.pool = Function.update sys.pool j (Thread.handle config run)) :
    ∀ k, (sys'.pool k).Sound := by
  rw [hpool]
  exact (Function.forall_update_iff _ fun _ (thread : Thread) => thread.Sound).mpr
    ⟨sound_handle, fun k _ => hsound k⟩

theorem sound_advances {j : ι} {outside : Outside} (hsound : ∀ k, (sys.pool k).Sound)
    (hpool : sys'.pool
      = Function.update sys.pool j ((sys.pool j).next config outside sys.store).1) :
    ∀ k, (sys'.pool k).Sound := by
  rw [hpool]
  exact (Function.forall_update_iff _ fun _ (thread : Thread) => thread.Sound).mpr
    ⟨sound_next (hsound j), fun k _ => hsound k⟩

/-- **Step lemma.**  Whatever clients do, the threads stay sound. -/
theorem System.sound_step (hsound : ∀ j, (sys.pool j).Sound)
    (hstep : sys.step config label = some sys') : ∀ j, (sys'.pool j).Sound := by
  cases step_cases hstep with
  | dequeues j position run hrun htasks hpool => exact sound_dequeues hsound hpool
  | advances j outside hstore hpool => exact sound_advances hsound hpool
  | quiet htasks hpool => exact hpool ▸ hsound
  | starts run hstarts hpool => exact hpool ▸ hsound
  | submits req run step hsubmits hstore hpool => exact hpool ▸ hsound
  | cancels req hlabel hstore hpool => exact hpool ▸ hsound
  | modifies req hlabel hstore hpool => exact hpool ▸ hsound

/-- The step is a `ModifyRun` of a client with a status. -/
def Label.SetsStatus : Label ι → Prop
  | .modifyRun req => req.status ≠ .unknownRunObjectStatus
  | _ => False

instance : (label : Label ι) → Decidable label.SetsStatus
  | .modifyRun req => inferInstanceAs (Decidable (req.status ≠ .unknownRunObjectStatus))
  | .createRun _ => .isFalse id
  | .createThreadAndRun _ => .isFalse id
  | .submitToolOutputs _ => .isFalse id
  | .cancelRun _ => .isFalse id
  | .others _ => .isFalse id
  | .dequeue _ _ => .isFalse id
  | .handler _ _ => .isFalse id

/-- **Step lemma.**  Runs are held once, unless a client sets a status itself. -/
theorem wellHeld_step (h : sys.WellHeld) (hlabel : ¬ label.SetsStatus)
    (hstep : sys.step config label = some sys') : sys'.WellHeld := by
  obtain ⟨hsound, hheld⟩ := h
  refine ⟨System.sound_step hsound hstep, ?_⟩
  cases step_cases hstep with
  | quiet htasks hpool =>
      obtain ⟨hruns, hqueue⟩ := Prod.mk.inj htasks
      rw [hruns, hqueue, hpool]
      exact hheld
  | starts run hstarts hpool => exact hpool ▸ heldOnce_starts hheld hstarts
  | submits req run step hsubmits hstore hpool =>
      rw [hpool, hstore]
      exact heldOnce_submit hheld hsubmits
  | cancels req hcancel hstore hpool =>
      rw [hpool, hstore]
      exact heldOnce_assignRun hheld (by simp [CancelRunRequest.runRequest])
        not_settled_cancelling
  | modifies req hmodify hstore hpool =>
      subst hmodify
      rw [hpool, hstore]
      exact heldOnce_assignRun_unknown hheld (not_not.mp hlabel)
  | dequeues j position run hrun htasks hpool =>
      obtain ⟨hruns, hqueue⟩ := Prod.mk.inj htasks
      rw [hruns, hqueue, hpool]
      exact hheld.dequeue j hrun
  | advances j outside hstore hpool =>
      rw [hstore, hpool]
      exact hheld.advance j (next_advances (hsound j))

/-! ### Runs that have ended -/

variable {run : RunObject} {P : RunObjectStatus → Prop}

theorem runIs_assignRun_other {s : Store} {req : ModifyRunRequest} (h : s.RunIs run P)
    (hother : ¬ (run.threadId = req.threadId ∧ run.id = req.runId)) :
    (s.assignRun req).RunIs run P := by
  obtain ⟨stored, hstored, hP⟩ := h
  exact ⟨stored, by rw [Store.run?_assignRun, if_neg hother, hstored], hP⟩

/-- The step is a `ModifyRun` of a client with a status for the run. -/
def Label.SetsStatusOf (run : RunObject) : Label ι → Prop
  | .modifyRun req => req.status ≠ .unknownRunObjectStatus ∧
      run.threadId = req.threadId ∧ run.id = req.runId
  | _ => False

omit [DecidableEq ι] in
theorem setsStatus_of_setsStatusOf (h : label.SetsStatusOf run) : label.SetsStatus := by
  cases label with
  | modifyRun req => exact h.1
  | _ => exact h.elim

omit [DecidableEq ι] in
/-- A `ModifyRun` of a client that sets no status of the run. -/
theorem runIs_modifies {s : Store} {req : ModifyRunRequest} (h : s.RunIs run P)
    (hlabel : ¬ Label.SetsStatusOf run (.modifyRun req : Label ι)) :
    (s.assignRun req).RunIs run P := by
  by_cases hnames : run.threadId = req.threadId ∧ run.id = req.runId
  · have hunknown : req.status = .unknownRunObjectStatus := by
      by_contra hknown
      exact hlabel ⟨hknown, hnames⟩
    obtain ⟨stored, hstored, hP⟩ := h
    refine ⟨stored.assign req, ?_, (status_assign_unknown hunknown).symm ▸ hP⟩
    rw [Store.run?_assignRun, if_pos hnames, hstored]
    rfl
  · exact runIs_assignRun_other h hnames

theorem runIs_starts {s s' : Store} {new : RunObject} (h : s.RunIs run P)
    (hstarts : Starts s s' new) : s'.RunIs run P := by
  obtain ⟨stored, hstored, hP⟩ := h
  refine ⟨stored, ?_, hP⟩
  unfold Store.run? Table.find? at hstored ⊢
  rw [hstarts.rows, List.find?_append, hstored]
  rfl

/-- The stored row of a run. -/
theorem mem_of_runIs {s : Store} (h : s.RunIs run P) :
    ∃ stored ∈ s.runs.rows, stored.id = run.id ∧ stored.threadId = run.threadId ∧
      P stored.status := by
  obtain ⟨stored, hstored, hP⟩ := h
  obtain ⟨hthread, hid⟩ := Store.run?_some hstored
  exact ⟨stored, List.mem_of_find?_eq_some hstored, hid, hthread, hP⟩

/-- Requests that are accepted do not name a run that does not wait for outputs. -/
theorem submits_other {s : Store} {req : SubmitToolOutputsToRunRequest} {waiting : RunObject}
    {step : RunStepObject} (hsubmits : Submits s req waiting step) (h : s.RunIs run P)
    (hP : ∀ status, P status → status ≠ .requiresAction) : run.id ≠ req.runId := by
  intro hid
  obtain ⟨stored, hmem, hstored, -, hstatus⟩ := mem_of_runIs h
  have hwaiting := Store.run?_some hsubmits.found
  obtain rfl := eq_of_id hmem (List.mem_of_find?_eq_some hsubmits.found)
    (hstored.trans (hid.trans hwaiting.2.symm))
  exact hP _ hstatus hsubmits.status

/-- The step cancels the run. -/
def Label.Cancels (run : RunObject) : Label ι → Prop
  | .cancelRun req => run.threadId = req.threadId ∧ run.id = req.runId
  | _ => False

/-- **Step lemma.**  Nothing but a cancellation changes the status of a settled run that
waits for no outputs, where clients set none. -/
theorem terminal_step {status : RunObjectStatus} (hterminal : status.isTerminal = true)
    (hheld : sys.WellHeld) (h : sys.store.RunIs run (· = status))
    (hlabel : ¬ label.Cancels run) (hsets : ¬ label.SetsStatusOf run)
    (hstep : sys.step config label = some sys') : sys'.store.RunIs run (· = status) := by
  cases step_cases hstep with
  | quiet htasks hpool => exact h.of_runs_eq (Prod.mk.inj htasks).1
  | starts new hstarts hpool => exact runIs_starts h hstarts
  | submits req waiting step hsubmits hstore hpool =>
      have hother := submits_other hsubmits h fun status' hstatus hwaits => by
        rw [← hstatus, hwaits] at hterminal
        simp [RunObjectStatus.isTerminal] at hterminal
      rw [hstore]
      exact runIs_assignRun_other h fun hnames => hother hnames.2
  | cancels req hcancel hstore hpool =>
      subst hcancel
      rw [hstore]
      exact runIs_assignRun_other h hlabel
  | modifies req hmodify hstore hpool =>
      subst hmodify
      rw [hstore]
      exact runIs_modifies h hsets
  | dequeues j position task htask htasks hpool => exact h.of_runs_eq (Prod.mk.inj htasks).1
  | advances j outside hstore hpool =>
      rw [hstore]
      rcases (next_advances (hheld.sound j)).runs with
        hruns | ⟨task, req, htask, hspent, hthread, hid, hruns, -⟩
      · exact h.of_runs_eq hruns
      · refine (runIs_assignRun_other h fun hnames => ?_).of_runs_eq hruns
        -- the thread would hold a run that has ended
        obtain ⟨stored, hmem, hstored, -, hstatus⟩ := mem_of_runIs h
        refine hheld.heldOnce.settled stored hmem (.inr (hstatus ▸ hterminal))
          (.inr ⟨j, hspent, ?_⟩)
        exact ⟨task, htask, hid.symm.trans (hnames.2.symm.trans hstored.symm)⟩

end Steps

section Terminal

variable {ι : Type} [DecidableEq ι]

/-- **A run that has ended stays as it is, unless it is cancelled.**  In every run of the
system in which clients set no status themselves, a status that is terminal is the same in
every later state that is reached without a `CancelRun` of the run. -/
theorem terminal_lasts (config : HandlerConfig) {initial sys₁ sys₂ : System ι} (run : RunObject)
    (status : RunObjectStatus) (hinitial : initial.Initial)
    (hreaches : Runs (System.step config) (fun _ label => ¬ label.SetsStatus) initial sys₁)
    (hrun : sys₁.store.RunIs run (· = status)) (hterminal : status.isTerminal = true)
    (hlater : Runs (System.step config)
      (fun _ label => ¬ label.Cancels run ∧ ¬ label.SetsStatus) sys₁ sys₂) :
    sys₂.store.RunIs run (· = status) := by
  have hheld : sys₁.WellHeld :=
    hreaches.invariant (fun _ _ _ hheld hlabel hstep => wellHeld_step hheld hlabel hstep)
      (wellHeld_of_initial hinitial)
  have hboth : sys₂.WellHeld ∧ sys₂.store.RunIs run (· = status) := by
    refine hlater.invariant (I := fun sys => sys.WellHeld ∧ sys.store.RunIs run (· = status))
      ?_ ⟨hheld, hrun⟩
    intro sys label sys' h hlabel hstep
    exact ⟨wellHeld_step h.1 hlabel.2 hstep,
      terminal_step hterminal h.1 h.2 hlabel.1 (hlabel.2 ∘ setsStatus_of_setsStatusOf) hstep⟩
  exact hboth.2

end Terminal

/-- One thread of the scheduler, which has nothing to do. -/
def oneThread (store : Store) : System Unit := { store := store, pool := fun _ => .idle }

/-- A client asks for a run. -/
def createQuestionRun : Label Unit :=
  .createRun { threadId := "thread_1", assistantId := "assistant_1" }

/-- A client cancels the run. -/
def cancelQuestionRun : CancelRunRequest := { threadId := "thread_1", runId := "run_1" }

/-- The names of the run. -/
def questionRun : RunObject := { threadId := "thread_1", id := "run_1" }

/-- The run is created, taken from the queue, and worked on for some steps.  Every call of a
model throws. -/
def workedOn (steps : Nat) : List (Label Unit) :=
  createQuestionRun :: .dequeue () 0 :: List.replicate steps (.handler () {})

/-- The run has failed: the first call of a model has thrown. -/
def failedSystem : System Unit :=
  (execute (System.step {}) (workedOn 13) (oneThread questionStore)).getD (oneThread questionStore)

theorem execute_failedSystem :
    execute (System.step {}) (workedOn 13) (oneThread questionStore) = some failedSystem := rfl

theorem not_setsStatus_workedOn (steps : Nat) :
    ∀ label ∈ workedOn steps, ¬ label.SetsStatus := by
  intro label hlabel
  rcases List.mem_cons.mp hlabel with rfl | hlabel
  · exact id
  rcases List.mem_cons.mp hlabel with rfl | hlabel
  · exact id
  · obtain rfl := List.eq_of_mem_replicate hlabel
    exact id

/-- A client changes the expiry of the run, and nothing else. -/
def postponeQuestionRun : Label Unit :=
  .modifyRun { threadId := "thread_1", runId := "run_1", expiresAt := 100 }

/-- The run stays failed while its expiry is changed, and another run is created and taken. -/
theorem terminal_lasts_failed :
    ∃ sys, execute (System.step {}) [postponeQuestionRun, createQuestionRun, .dequeue () 0]
        failedSystem = some sys ∧
      sys.store.RunIs questionRun (· = .failed) := by
  have hother : ∀ _ : System Unit,
      ∀ label ∈ [postponeQuestionRun, createQuestionRun, .dequeue () 0],
        ¬ label.Cancels questionRun ∧ ¬ label.SetsStatus := by
    simp [postponeQuestionRun, createQuestionRun, Label.Cancels, Label.SetsStatus]
  refine ⟨_, rfl, terminal_lasts {} questionRun .failed ⟨rfl, rfl, fun _ => rfl⟩
    (runs_of_execute (fun _ => not_setsStatus_workedOn 13) execute_failedSystem)
    ⟨_, rfl, rfl⟩ rfl ?_⟩
  exact runs_of_execute hother rfl

/-- `CancelRun` sets the failed run to `cancelling`. -/
theorem cancelRun_reopens_failed :
    (oneThread questionStore).Initial ∧
      Reaches (System.step {}) (oneThread questionStore) failedSystem ∧
      failedSystem.store.RunIs questionRun (· = .failed) ∧
      ∃ sys, failedSystem.step {} (.cancelRun cancelQuestionRun) = some sys ∧
        sys.store.RunIs questionRun (· = .cancelling) :=
  ⟨⟨rfl, rfl, fun _ => rfl⟩, runs_of_execute (fun _ _ _ => trivial) execute_failedSystem,
    ⟨_, rfl, rfl⟩, _, rfl, ⟨_, rfl, rfl⟩⟩

/-! ### Cancelled runs -/

/-- The statuses that a cancellation is meant to end. -/
def RunObjectStatus.IsLive (status : RunObjectStatus) : Prop :=
  status = .queued ∨ status = .inProgress ∨ status = .requiresAction

/-- The statuses of a run that is being cancelled or has ended. -/
def RunObjectStatus.IsEnding (status : RunObjectStatus) : Prop :=
  status = .cancelling ∨ status.isTerminal = true

/-- Nobody is going to set the run to a live status: no task of it waits, and the threads that
work on it are closing. -/
structure System.Closes {ι : Type} (config : HandlerConfig) (sys : System ι) (run : RunObject) :
    Prop where
  tasks : ∀ task ∈ sys.store.queue, task.id ≠ run.id
  threads : ∀ j task, (sys.pool j).run? = some task → task.id = run.id →
    (sys.pool j).Closing config

section Cancelled

variable {ι : Type} [DecidableEq ι] {config : HandlerConfig} {sys sys' : System ι}
variable {label : Label ι} {run : RunObject}

theorem ne_requiresAction_of_ending {status : RunObjectStatus} (h : status.IsEnding) :
    status ≠ .requiresAction := by
  rintro rfl
  rcases h with h | h
  · cases h
  · simp [RunObjectStatus.isTerminal] at h

/-- A cancelled run that nobody reopens. -/
structure System.Cancelled (config : HandlerConfig) (sys : System ι) (run : RunObject) :
    Prop where
  sound : ∀ j, (sys.pool j).Sound
  status : sys.store.RunIs run RunObjectStatus.IsEnding
  closes : sys.Closes config run

omit [DecidableEq ι] in
theorem closes_congr (h : sys.Closes config run) (hpool : sys'.pool = sys.pool)
    (hqueue : ∀ task ∈ sys'.store.queue, task ∈ sys.store.queue ∨ task.id ≠ run.id) :
    sys'.Closes config run where
  tasks task htask := (hqueue task htask).elim (h.tasks task) id
  threads := hpool ▸ h.threads

/-- A closing thread, or one that works on another run, leaves the run at its end. -/
theorem runIs_next {s : Store} {thread : Thread} {outside : Outside} (hsound : thread.Sound)
    (hclosing : ∀ task, thread.run? = some task → task.id = run.id → thread.Closing config)
    (h : s.RunIs run RunObjectStatus.IsEnding) :
    (thread.next config outside s).2.RunIs run RunObjectStatus.IsEnding := by
  rcases (next_advances hsound).runs with hruns | ⟨task, req, htask, -, -, hid, hruns, -⟩
  · exact h.of_runs_eq hruns
  -- a thread that works on the run only closes it, any other one writes another row
  by_cases hsame : task.id = run.id
  · rcases closing_runs hsound (hclosing task htask hsame) with hruns | ⟨req, hterminal, hruns⟩
    · exact h.of_runs_eq hruns
    · refine Store.RunIs.of_runs_eq (s := s.assignRun req) ?_ hruns
      by_cases hnames : run.threadId = req.threadId ∧ run.id = req.runId
      · have hknown : req.status ≠ .unknownRunObjectStatus := by
          intro hunknown
          rw [hunknown] at hterminal
          simp [RunObjectStatus.isTerminal] at hterminal
        exact (h.assignRun hnames.1.symm hnames.2.symm hknown).mono fun status hstatus =>
          .inr (hstatus ▸ hterminal)
      · exact runIs_assignRun_other h hnames
  · refine (runIs_assignRun_other h fun hnames => hsame ?_).of_runs_eq hruns
    exact hid.symm.trans hnames.2.symm

/-- A thread that takes a task from the queue does not take up the run, which has none there. -/
theorem closes_dequeues {j : ι} {position : Nat} {task : RunObject} (h : sys.Closes config run)
    (htask : sys.store.queue[position]? = some task)
    (hqueue : sys'.store.queue = sys.store.queue.eraseIdx position)
    (hpool : sys'.pool = Function.update sys.pool j (Thread.handle config task)) :
    sys'.Closes config run where
  tasks task' htask' := by
    rw [hqueue] at htask'
    exact h.tasks task' (List.mem_of_mem_eraseIdx htask')
  threads := by
    rw [hpool]
    refine (Function.forall_update_iff _ fun _ (thread : Thread) => ∀ run',
      thread.run? = some run' → run'.id = run.id → thread.Closing config).mpr
        ⟨fun run' hrun' hid => ?_, fun k _ => h.threads k⟩
    unfold Thread.handle at hrun' ⊢
    split at hrun'
    · obtain rfl : task = run' := Option.some.inj hrun'
      exact absurd hid (h.tasks task (List.mem_of_getElem? htask))
    · simp [Thread.run?] at hrun'

/-- A closing thread goes on closing. -/
theorem closes_advances {j : ι} {outside : Outside} (hsound : ∀ k, (sys.pool k).Sound)
    (h : sys.Closes config run)
    (hstore : sys'.store = ((sys.pool j).next config outside sys.store).2)
    (hpool : sys'.pool
      = Function.update sys.pool j ((sys.pool j).next config outside sys.store).1) :
    sys'.Closes config run where
  tasks task htask := by
    rw [hstore, (next_advances (hsound j)).queue] at htask
    exact h.tasks task htask
  threads := by
    rw [hpool]
    refine (Function.forall_update_iff _ fun _ (thread : Thread) => ∀ task,
      thread.run? = some task → task.id = run.id → thread.Closing config).mpr
        ⟨fun task htask hid => ?_, fun k _ => h.threads k⟩
    have hbefore := (next_advances (hsound j)).run task htask
    exact closing_next (h.threads j task hbefore hid)

/-- An accepted cancellation of the run, or one of another run. -/
theorem runIs_cancels {s : Store} {req : CancelRunRequest} (h : s.RunIs run P)
    (hother : ¬ (run.threadId = req.threadId ∧ run.id = req.runId) → ∀ status, P status →
      status.IsEnding) :
    (s.assignRun req.runRequest).RunIs run RunObjectStatus.IsEnding := by
  by_cases hnames : run.threadId = req.threadId ∧ run.id = req.runId
  · exact (h.assignRun hnames.1.symm hnames.2.symm (by simp [CancelRunRequest.runRequest])).mono
      fun status hstatus => .inl hstatus
  · exact runIs_assignRun_other (h.mono (hother hnames)) hnames

/-- **Step lemma.**  A cancelled run that nobody reopens stays so, unless a client sets its
status. -/
theorem cancelled_step (h : sys.Cancelled config run) (hlabel : ¬ label.SetsStatusOf run)
    (hstep : sys.step config label = some sys') : sys'.Cancelled config run := by
  obtain ⟨hsound, hstatus, hcloses⟩ := h
  obtain ⟨stored, hmem, hid, -, -⟩ := mem_of_runIs hstatus
  have hsound' := System.sound_step hsound hstep
  cases step_cases hstep with
  | quiet htasks hpool =>
      obtain ⟨hruns, hqueue⟩ := Prod.mk.inj htasks
      exact ⟨hsound', hstatus.of_runs_eq hruns,
        closes_congr hcloses hpool fun task htask => .inl (hqueue ▸ htask)⟩
  | starts new hstarts hpool =>
      refine ⟨hsound', runIs_starts hstatus hstarts, closes_congr hcloses hpool ?_⟩
      intro task htask
      rw [hstarts.queue] at htask
      rcases List.mem_append.mp htask with htask | htask
      · exact .inl htask
      · -- the new run has an id of its own, so it is not the cancelled one
        refine .inr fun hnew => hstarts.fresh ?_
        rw [← List.mem_singleton.mp htask, hnew, ← hid]
        exact List.mem_map_of_mem hmem
  | submits req waiting step hsubmits hstore hpool =>
      -- the request needs a run in `requires_action`, which the cancelled one is not
      have hother := submits_other hsubmits hstatus fun _ => ne_requiresAction_of_ending
      refine ⟨hsound', ?_, closes_congr hcloses hpool ?_⟩
      · rw [hstore]
        exact runIs_assignRun_other hstatus fun hnames => hother hnames.2
      · intro task htask
        rw [hstore] at htask
        rcases List.mem_append.mp htask with htask | htask
        · exact .inl htask
        · refine .inr fun hnew => hother ?_
          rw [← hnew, List.mem_singleton.mp htask]
          exact (Store.run?_some hsubmits.found).2
  | cancels req hcancel hstore hpool =>
      refine ⟨hsound', ?_, closes_congr hcloses hpool fun task htask => ?_⟩
      · rw [hstore]
        exact runIs_cancels hstatus fun _ _ hending => hending
      · rw [hstore] at htask
        exact .inl htask
  | modifies req hmodify hstore hpool =>
      subst hmodify
      refine ⟨hsound', ?_, closes_congr hcloses hpool fun task htask => ?_⟩
      · rw [hstore]
        exact runIs_modifies hstatus hlabel
      · rw [hstore] at htask
        exact .inl htask
  | dequeues j position task htask htasks hpool =>
      obtain ⟨hruns, hqueue⟩ := Prod.mk.inj htasks
      exact ⟨hsound', hstatus.of_runs_eq hruns, closes_dequeues hcloses htask hqueue hpool⟩
  | advances j outside hstore hpool =>
      refine ⟨hsound', ?_, closes_advances hsound hcloses hstore hpool⟩
      rw [hstore]
      exact runIs_next (hsound j) (hcloses.threads j) hstatus

/-- A `CancelRun` that is accepted has set its run to `cancelling`. -/
theorem cancelRun_ok {req : CancelRunRequest} {s : Store} {result : Option RunObject}
    (h : (cancelRun req s).1 = .ok result) : (cancelRun req s).2 = s.assignRun req.runRequest := by
  rcases hcancel : cancelRun req s with ⟨r, s'⟩
  rw [hcancel] at h
  obtain rfl : r = .ok result := h
  obtain ⟨⟨⟩, s₁, hthread, hrest⟩ := Action.ok_of_bind hcancel
  obtain ⟨⟨⟩, s₂, hrun, hrest⟩ := Action.ok_of_bind hrest
  obtain ⟨-, rfl⟩ := Prod.mk.inj hthread
  obtain ⟨-, rfl⟩ := Prod.mk.inj hrun
  obtain ⟨count, s₃, hupdate, hread⟩ := Action.ok_of_bind hrest
  obtain ⟨-, rfl⟩ := Prod.mk.inj hupdate
  -- the answer is read back after the update, and reading leaves the store alone
  have hkeeps := keeps_retrieveRun { threadId := req.threadId, runId := req.runId }
    (s.assignRun req.runRequest)
  have hread : retrieveRun { threadId := req.threadId, runId := req.runId }
    (s.assignRun req.runRequest) = (.ok result, s') := hread
  rw [hread] at hkeeps
  exact hkeeps

/-- **When a cancellation lasts.**  In every run of the system: if a `CancelRun` is accepted on
a live run at a moment when no task of it waits and every thread that works on it is closing,
then in every later state, whatever clients and threads do short of a `ModifyRun` with a status
of the run, the run is being cancelled or has ended. -/
theorem cancelRun_lasts (config : HandlerConfig) {initial sys₁ sys₂ : System ι} (run : RunObject)
    (req : CancelRunRequest) (hinitial : initial.Initial)
    (hreaches : Reaches (System.step config) initial sys₁)
    (hrun : sys₁.store.RunIs run RunObjectStatus.IsLive)
    (hnames : run.threadId = req.threadId ∧ run.id = req.runId)
    (haccepted : ∃ cancelled, (cancelRun req sys₁.store).1 = .ok (some cancelled))
    (hcloses : sys₁.Closes config run)
    (hlater : Runs (System.step config) (fun _ label => ¬ label.SetsStatusOf run)
      { sys₁ with store := (cancelRun req sys₁.store).2 } sys₂) :
    sys₂.store.RunIs run RunObjectStatus.IsEnding := by
  obtain ⟨cancelled, hok⟩ := haccepted
  have hsound : ∀ j, (sys₁.pool j).Sound :=
    hreaches.invariant (I := fun sys => ∀ j, (sys.pool j).Sound)
      (fun _ _ _ h _ hstep => System.sound_step h hstep) (wellHeld_of_initial hinitial).sound
  have hcancelled : { sys₁ with store := (cancelRun req sys₁.store).2 }.Cancelled config run := by
    -- the accepted call stores `cancelling`, and the queue and the threads stay as they were
    refine ⟨hsound, ?_, closes_congr hcloses rfl ?_⟩
    · show (cancelRun req sys₁.store).2.RunIs run _
      rw [cancelRun_ok hok]
      exact runIs_cancels hrun fun hother => absurd hnames hother
    · show ∀ task ∈ (cancelRun req sys₁.store).2.queue, _
      rw [cancelRun_ok hok]
      exact fun task htask => .inl htask
  exact (hlater.invariant (fun _ _ _ h hlabel hstep => cancelled_step h hlabel hstep)
    hcancelled).status

end Cancelled

/-- The run of an assistant that is gone: its setup has thrown, and the run is left in
progress. -/
def abandoned : System Unit :=
  (execute (System.step {}) (workedOn 3)
    (oneThread { questionStore with assistants := .empty })).getD (oneThread questionStore)

theorem execute_abandoned : execute (System.step {}) (workedOn 3)
    (oneThread { questionStore with assistants := .empty }) = some abandoned := rfl

/-- A cancellation of the run that was left in progress lasts. -/
theorem cancelRun_lasts_abandoned :
    ∃ sys, execute (System.step {})
        [.handler () {}, postponeQuestionRun, createQuestionRun, .dequeue () 0]
        { abandoned with store := (cancelRun cancelQuestionRun abandoned.store).2 } = some sys ∧
      sys.store.RunIs questionRun RunObjectStatus.IsEnding := by
  have hidle : ∀ j, (abandoned.pool j).run? = none := fun _ => rfl
  have hcloses : abandoned.Closes {} questionRun :=
    { tasks := by decide
      threads := fun j task htask => by
        rw [hidle j] at htask
        simp at htask }
  refine ⟨_, rfl, cancelRun_lasts {} questionRun cancelQuestionRun ⟨rfl, rfl, fun _ => rfl⟩
    (runs_of_execute (fun _ _ _ => trivial) execute_abandoned) ⟨_, rfl, .inr (.inl rfl)⟩
    ⟨rfl, rfl⟩ ⟨_, rfl⟩ hcloses ?_⟩
  have hsets : ∀ _ : System Unit, ∀ label ∈
      [.handler () {}, postponeQuestionRun, createQuestionRun, .dequeue () 0],
        ¬ label.SetsStatusOf questionRun := by
    simp [postponeQuestionRun, createQuestionRun, Label.SetsStatusOf]
  exact runs_of_execute hsets rfl

/-- A run is cancelled while its task waits in the queue.  The thread that takes the task sets
the run to `in_progress`. -/
theorem cancelRun_undone :
    (oneThread questionStore).Initial ∧ ∃ sys₁ sys₂ cancelled sys₃,
      (oneThread questionStore).step {} createQuestionRun = some sys₁ ∧
      sys₁.store.RunIs questionRun (· = .queued) ∧
      cancelRun cancelQuestionRun sys₁.store = (.ok (some cancelled), sys₂) ∧
      execute (System.step {}) [.dequeue () 0, .handler () {}] { sys₁ with store := sys₂ }
        = some sys₃ ∧
      sys₃.store.RunIs questionRun (· = .inProgress) :=
  ⟨⟨rfl, rfl, fun _ => rfl⟩, _, _, _, _, rfl, ⟨_, rfl, rfl⟩, rfl, rfl, ⟨_, rfl, rfl⟩⟩

end Instinct
