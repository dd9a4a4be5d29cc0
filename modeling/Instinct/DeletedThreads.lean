/-
Instinct/DeletedThreads.lean

Deleted threads stay deleted.

A deletion waits for no task: the queue and the threads of the scheduler may still hold runs of
the thread.  None of these has begun, since a run that a thread works on is in progress or being
cancelled (`System.Engaged`), and a thread that begins its run asks for its row first.  So nothing
of the thread comes back until somebody fills it again (`deleteThread_lasts`).  Here every service
call is one step, the deletion too, and before it no client sets a status itself.

That a run is worked on by one thread only needs that no id is given twice, also when its row has
been deleted (`System.Kept`).
-/
import Instinct.ObjectIds
import Instinct.ThreadDeletion

namespace Instinct

open Effects Tables Transitions

/-! ### Numbers of ids -/

/-- The counter of ids has not gone back. -/
def CountsOn (s s' : Store) : Prop := s.nextNumber ≤ s'.nextNumber

section CountsOn

variable {config : HandlerConfig} {outside : Outside} {s : Store}

theorem countsOn_of_keeps {α : Type} {x : ServiceM α} (h : Action.Keeps Store.nextNumber x) :
    Action.Moves CountsOn x := fun s => Nat.le_of_eq (h s).symm

theorem countsOn_bind {α β : Type} {x : ServiceM α} {f : α → ServiceM β}
    (hx : Action.Moves CountsOn x) (hf : ∀ a, Action.Moves CountsOn (f a)) :
    Action.Moves CountsOn (x >>= f) :=
  Action.moves_bind (R := CountsOn) (fun _ _ _ => Nat.le_trans) hx hf

theorem countsOn_generateId (kind : String) : Action.Moves CountsOn (generateId kind) :=
  fun s => Nat.le_succ s.nextNumber

theorem exec_countsOn (call : Call) : Action.Moves CountsOn (call.exec config outside) := by
  cases call with
  | modifyRun req => exact countsOn_of_keeps (keeps_modifyRun (fun _ _ => rfl) req)
  | modifyRunStep req => exact countsOn_of_keeps (keeps_modifyRunStep (fun _ _ => rfl) req)
  | createRunStep req =>
      refine countsOn_bind (countsOn_of_keeps (Action.keeps_liftM _)) fun _ => ?_
      refine countsOn_bind (countsOn_generateId _) fun _ => ?_
      refine countsOn_bind (countsOn_of_keeps (keeps_insertRow fun _ _ _ => rfl)) fun _ => ?_
      exact countsOn_of_keeps (Action.keeps_of_id (keeps_getRunStep _))
  | createRawMessage message =>
      refine countsOn_bind (countsOn_generateId _) fun _ => ?_
      refine countsOn_bind (countsOn_of_keeps (keeps_insertOneMessages (fun _ _ _ => rfl) _ _))
        fun _ => ?_
      exact countsOn_of_keeps (Action.keeps_of_id (keeps_retrieveMessage _ _))
  | _ => exact countsOn_of_keeps (Action.keeps_of_id (exec_reads rfl))

theorem countsOn_insertNewMessages (runId threadId : String)
    (requests : List CreateMessageRequest) :
    Action.Moves CountsOn (insertNewMessages runId threadId requests) := by
  intro s
  unfold insertNewMessages
  split
  · exact Nat.le_refl _
  · rw [Action.bind_of_ok (newMessages_eq runId threadId requests s)]
    have hmany : ∀ messages, Action.Moves CountsOn (insertManyMessages messages >>= fun count =>
        liftM (assertTrue (count = requests.length)
          "should have saved all additional messages")) := fun messages =>
      countsOn_bind (countsOn_of_keeps (keeps_insertManyMessages (fun _ _ _ => rfl) _))
        fun _ => countsOn_of_keeps (Action.keeps_liftM _)
    exact @Nat.le_trans _ (s.nextNumber + requests.length) _ (Nat.le_add_right _ _)
      (hmany _ { s with nextNumber := s.nextNumber + requests.length })

/-- A create call draws the id of its run first. -/
structure DrawsRun (s : Store) (result : Except Exn (Option RunObject) × Store) : Prop where
  counter : CountsOn s result.2
  run : ∀ run, result.1 = .ok (some run) →
    run.id = generateNextObjectId "run" s.nextNumber ∧ s.nextNumber < result.2.nextNumber

theorem drawsRun_of_error {e : Exn} {s' : Store} (h : CountsOn s s') :
    DrawsRun s (.error e, s') where
  counter := h
  run _ hok := by cases hok

theorem startRun_draws {s' : Store} (h : s.nextNumber < s'.nextNumber) {threadId : String}
    (hthread : isBlankString threadId = false) (options : RunOptions) (model : String)
    (toolResources : Option AssistantToolResources) (assistantId : String) :
    DrawsRun s (startRun options model toolResources (generatedId "run" s.nextNumber) threadId
      assistantId s') := by
  rcases startRun_cases options model toolResources (generatedId "run" s.nextNumber) hthread
    assistantId s' with ⟨e, -, he⟩ | ⟨-, table, -, hok⟩
  · rw [he]
    exact drawsRun_of_error (Nat.le_of_lt h)
  · rw [hok]
    refine ⟨Nat.le_of_lt h, fun run hrun => ?_⟩
    obtain rfl := Option.some.inj (Except.ok.inj hrun)
    exact ⟨rfl, h⟩

/-- Messages are inserted, and the run is started. -/
theorem insertAndStart_draws {s' : Store} (h : s.nextNumber < s'.nextNumber) {threadId : String}
    (hthread : isBlankString threadId = false) (runId : String)
    (requests : List CreateMessageRequest) (options : RunOptions) (model : String)
    (toolResources : Option AssistantToolResources) (assistantId : String) :
    DrawsRun s ((insertNewMessages runId threadId requests >>= fun _ =>
      startRun options model toolResources (generatedId "run" s.nextNumber) threadId
        assistantId) s') := by
  have hinsert := countsOn_insertNewMessages runId threadId requests s'
  refine Action.bind_elim (fun e s'' he => drawsRun_of_error ?_) fun _ s'' hok => ?_
  · rw [he] at hinsert
    exact Nat.le_trans (Nat.le_of_lt h) hinsert
  · rw [hok] at hinsert
    exact startRun_draws (Nat.lt_of_lt_of_le h hinsert) hthread _ _ _ _

theorem generateId_eq (kind : String) (s : Store) : generateId kind s
    = (.ok (generatedId kind s.nextNumber), { s with nextNumber := s.nextNumber + 1 }) := rfl

theorem createRun_draws (req : CreateRunRequest) (s : Store) : DrawsRun s (createRun req s) := by
  unfold createRun
  refine Action.bind_elim_liftM (fun e _ => drawsRun_of_error (Nat.le_refl _)) fun _ hthread => ?_
  refine Action.bind_elim_liftM (fun e _ => drawsRun_of_error (Nat.le_refl _)) fun _ _ => ?_
  refine Action.bind_elim_liftM (fun e _ => drawsRun_of_error (Nat.le_refl _)) fun _ _ => ?_
  refine Action.bind_elim_liftM (fun e _ => drawsRun_of_error (Nat.le_refl _)) fun _ _ => ?_
  rw [Action.bind_of_ok (generateId_eq "run" s)]
  exact insertAndStart_draws (Nat.lt_succ_self _) (assertNotBlank_eq_ok.mp hthread) _ _ _ _ _ _

theorem createThreadAndRun_draws (req : CreateThreadAndRunRequest) (s : Store) :
    DrawsRun s (createThreadAndRun req s) := by
  unfold createThreadAndRun
  refine Action.bind_elim_liftM (fun e _ => drawsRun_of_error (Nat.le_refl _)) fun _ _ => ?_
  refine Action.bind_elim_liftM (fun e _ => drawsRun_of_error (Nat.le_refl _)) fun _ _ => ?_
  refine Action.bind_elim_liftM (fun e _ => drawsRun_of_error (Nat.le_refl _)) fun _ _ => ?_
  refine Action.bind_elim_liftM (fun e _ => drawsRun_of_error (Nat.le_refl _)) fun _ _ => ?_
  refine Action.bind_elim_liftM (fun e _ => drawsRun_of_error (Nat.le_refl _)) fun _ _ => ?_
  rw [Action.bind_of_ok (generateId_eq "run" s), Action.bind_of_ok (generateId_eq "thread" _)]
  refine Action.bind_elim_keeps (f := Store.nextNumber) (keeps_insertRow fun _ _ _ => rfl)
    (fun e s' h => drawsRun_of_error ?_) fun _ s' h => ?_
  · exact Nat.le_trans (Nat.le_add_right _ 2) (Nat.le_of_eq h.symm)
  · refine insertAndStart_draws ?_ (generateNextObjectId_not_blank _ _) _ _ _ _ _ _
    rw [h]
    exact Nat.lt_add_of_pos_right Nat.two_pos

end CountsOn

/-! ### Threads that have not begun -/

/-- The thread has not begun its run, or was turned down when it did. -/
def Thread.IsOff (config : HandlerConfig) : Thread → Prop
  | .setup run p => p = setUp config run ∨ p = .ret none ∨ ∃ e, p = .raise e
  | _ => False

section Off

variable {config : HandlerConfig} {outside : Outside} {run run' : RunObject} {s : Store}
variable {thread : Thread} {t : String}

theorem off_handle (h : (Thread.handle config run).run? = some run') :
    (Thread.handle config run).IsOff config := by
  by_cases hqueued : run.status = .queued
  · rw [Thread.handle, if_pos hqueued]
    exact .inl rfl
  · rw [Thread.handle, if_neg hqueued] at h
    cases h

/-- A thread that has not begun asks for its run first, and is turned down where there is none. -/
theorem off_next (hoff : thread.IsOff config) (hrun : thread.run? = some run) :
    ((thread.next config outside s).2 = s ∧
      ∀ run', (thread.next config outside s).1.run? = some run' →
        (thread.next config outside s).1.IsOff config) ∨
    (∃ stored, s.run? run.threadId run.id = some stored ∧
      (thread.next config outside s).2 = s.assignRun (startRequest config run)) := by
  cases thread with
  | setup run₀ p =>
      obtain rfl : run₀ = run := Option.some.inj hrun
      rcases hoff with rfl | rfl | ⟨e, rfl⟩
      · rcases modifyRun_cases (startRequest config run₀) s with ⟨e, he⟩ | ⟨stored, hstored, hok⟩
        · have hnext : Thread.next config outside s (.setup run₀ (setUp config run₀))
              = (.setup run₀ (.raise e), s) := by
            show (Thread.setup run₀ (Program.bind (Program.ofExcept
              (modifyRun (startRequest config run₀) s).1) _),
                (modifyRun (startRequest config run₀) s).2) = _
            rw [he]
            rfl
          rw [hnext]
          exact .inl ⟨rfl, fun _ _ => .inr (.inr ⟨e, rfl⟩)⟩
        · refine .inr ⟨stored, hstored, ?_⟩
          show (modifyRun (startRequest config run₀) s).2 = _
          rw [hok]
      · exact .inl ⟨rfl, fun _ h => by cases h⟩
      · refine .inl ⟨rfl, fun run' h => ?_⟩
        have hnone : (Thread.escape e).run? = some run' := h
        rw [run?_escape] at hnone
        cases hnone
  | _ => exact hoff.elim

/-- A thread that makes no further call changes nothing. -/
theorem next_of_spent (h : thread.isSpent = true) : (thread.next config outside s).2 = s := by
  cases thread with
  | setup run p => cases h
  | resolving session locals p => cases h
  | notifying session step state p =>
      cases p with
      | call op k =>
          have hfalse : (!step.goesOn && false) = true := h
          rw [Bool.and_false] at hfalse
          cases hfalse
      | _ => rfl
  | failing session p =>
      cases p with
      | call op k => cases h
      | _ => rfl
  | _ => rfl

/-- A deletion leaves the runs of other threads. -/
theorem runIs_without {P : RunObjectStatus → Prop} (h : s.RunIs run P) (hother : run.threadId ≠ t) :
    (s.without t).RunIs run P := by
  obtain ⟨stored, hstored, hP⟩ := h
  refine ⟨stored, ?_, hP⟩
  refine (List.find?_filter).trans ((congrArg (s.runs.rows.find? ·) (funext fun row => ?_)).trans
    hstored)
  cases hnames : isRun run.threadId run.id row with
  | false => simp
  | true =>
      have hthread := (isRun_eq_true.mp hnames).1
      simp [hthread, hother]

theorem busy_of_runIs (h : s.RunIs run RunObjectStatus.IsBusy) :
    ∃ stored ∈ s.threadRuns run.threadId, stored.status.IsBusy := by
  obtain ⟨stored, hmem, -, hthread, hbusy⟩ := mem_of_runIs h
  exact ⟨stored, List.mem_filter.mpr ⟨hmem, decide_eq_true hthread⟩, hbusy⟩

end Off

/-! ### Runs that there have been -/

/-- A row for each run that there has been. -/
abbrev RunTable := Table RunObject.id fun row => isBlankString row.id = false

/-- The store, if no run had been deleted. -/
def Store.withRuns (s : Store) (all : RunTable) : Store := { s with runs := all }

/-- **The invariant.**  Runs have the numbers of the counter, and a run is held once at most, also
when its row has been deleted. -/
structure System.Kept {ι : Type} (sys : System ι) (all : RunTable) : Prop where
  sound : ∀ j, (sys.pool j).Sound
  keepsTo : ∀ j, (sys.pool j).KeepsTo
  stored : ∀ row ∈ sys.store.runs.rows, row ∈ all.rows
  numbered : ∀ row ∈ all.rows,
    ∃ n < sys.store.nextNumber, row.id = generateNextObjectId "run" n
  heldOnce : HeldOnce all.rows sys.store.queue sys.pool

section Kept

variable {ι : Type} {config : HandlerConfig} {sys sys' : System ι} {all : RunTable}

theorem kept_of_initial (h : sys.Initial) : sys.Kept .empty where
  sound j := by
    rw [h.pool j]
    trivial
  keepsTo j := by
    rw [h.pool j]
    trivial
  stored row hrow := by
    rw [h.runs] at hrow
    exact hrow
  numbered row hrow := by cases hrow
  heldOnce := by
    have hheld := (wellHeld_of_initial h).heldOnce
    rw [h.runs] at hheld
    exact hheld

/-- A row of a run that there is, is the one that there has been. -/
theorem run?_withRuns {s : Store} {threadId runId : String} {run : RunObject}
    (hstored : ∀ row ∈ s.runs.rows, row ∈ all.rows) (h : s.run? threadId runId = some run) :
    (s.withRuns all).run? threadId runId = some run :=
  Table.find?_eq_some_of_mem (hstored run (List.mem_of_find?_eq_some h)) (List.find?_some h)
    fun _ hrow => (isRun_eq_true.mp hrow).2.trans (Store.run?_some h).2.symm

theorem stored_assignRun {s : Store} {req : ModifyRunRequest}
    (hstored : ∀ row ∈ s.runs.rows, row ∈ all.rows) :
    ∀ row ∈ (s.assignRun req).runs.rows, row ∈ ((s.withRuns all).assignRun req).runs.rows := by
  intro row hrow
  obtain ⟨old, hold, rfl⟩ := List.mem_map.mp hrow
  exact List.mem_map_of_mem (hstored old hold)

/-- A number that has been given, has been given later. -/
theorem numbered_mono {s s' : Store} {id : String} (hcounts : CountsOn s s')
    (h : ∃ n < s.nextNumber, id = generateNextObjectId "run" n) :
    ∃ n < s'.nextNumber, id = generateNextObjectId "run" n := by
  obtain ⟨n, hn, hid⟩ := h
  exact ⟨n, Nat.lt_of_lt_of_le hn hcounts, hid⟩

/-- Updates keep the numbers. -/
theorem numbered_assignRun {s s' : Store} {req : ModifyRunRequest} (hcounts : CountsOn s s')
    (h : ∀ row ∈ all.rows, ∃ n < s.nextNumber, row.id = generateNextObjectId "run" n) :
    ∀ row ∈ ((s.withRuns all).assignRun req).runs.rows,
      ∃ n < s'.nextNumber, row.id = generateNextObjectId "run" n := by
  intro row hrow
  rcases mem_assignRun hrow with hrow | ⟨old, hold, -, rfl⟩
  · exact numbered_mono hcounts (h row hrow)
  · rw [RunObject.id_assign]
    exact numbered_mono hcounts (h old hold)

/-- Rows of runs may go, while threads and queue stay. -/
theorem kept_of_stored (h : sys.Kept all) (hcounts : CountsOn sys.store sys'.store)
    (hstored : ∀ row ∈ sys'.store.runs.rows, row ∈ sys.store.runs.rows)
    (hqueue : sys'.store.queue = sys.store.queue) (hpool : sys'.pool = sys.pool) :
    sys'.Kept all where
  sound := hpool ▸ h.sound
  keepsTo := hpool ▸ h.keepsTo
  stored row hrow := h.stored row (hstored row hrow)
  numbered row hrow := numbered_mono hcounts (h.numbered row hrow)
  heldOnce := by
    rw [hqueue, hpool]
    exact h.heldOnce

/-- A run is updated. -/
theorem kept_of_assignRun (req : ModifyRunRequest) (h : sys.Kept all)
    (hsound : ∀ j, (sys'.pool j).Sound) (hkeeps : ∀ j, (sys'.pool j).KeepsTo)
    (hcounts : CountsOn sys.store sys'.store)
    (hruns : sys'.store.runs = (sys.store.assignRun req).runs)
    (hheld : HeldOnce ((sys.store.withRuns all).assignRun req).runs.rows sys'.store.queue
      sys'.pool) :
    sys'.Kept ((sys.store.withRuns all).assignRun req).runs where
  sound := hsound
  keepsTo := hkeeps
  stored := by
    rw [hruns]
    exact stored_assignRun h.stored
  numbered := numbered_assignRun hcounts h.numbered
  heldOnce := hheld

theorem kept_quiet (h : sys.Kept all) (hcounts : CountsOn sys.store sys'.store)
    (htasks : sys'.store.tasks = sys.store.tasks) (hpool : sys'.pool = sys.pool) :
    sys'.Kept all := by
  obtain ⟨hruns, hqueue⟩ := Prod.mk.inj htasks
  refine kept_of_stored h hcounts (fun row hrow => ?_) hqueue hpool
  rw [hruns] at hrow
  exact hrow

/-- A new run has a number that no run has had. -/
theorem kept_creates {result : Except Exn (Option RunObject) × Store} (h : sys.Kept all)
    (hcreates : CreatesRun sys.store result) (hdraws : DrawsRun sys.store result)
    (hstore : sys'.store = result.2) (hpool : sys'.pool = sys.pool) :
    ∃ all', sys'.Kept all' := by
  rcases hcreates with ⟨e, -, htasks⟩ | ⟨run, hok, hstarts⟩
  · exact ⟨all, kept_quiet h (hstore ▸ hdraws.counter) (hstore ▸ htasks) hpool⟩
  · obtain ⟨hid, hlt⟩ := hdraws.run run hok
    have hfresh : run.id ∉ all.rows.map (·.id) := by
      intro hmem
      obtain ⟨row, hrow, heq⟩ := List.mem_map.mp hmem
      obtain ⟨n, hn, hnumber⟩ := h.numbered row hrow
      have hsame := generateNextObjectId_injective "run" (hnumber.symm.trans (heq.trans hid))
      exact absurd hsame (Nat.ne_of_lt hn)
    have hmem : run ∈ result.2.runs.rows := by
      rw [hstarts.rows]
      exact List.mem_append_right _ List.mem_cons_self
    obtain ⟨all', hinsert⟩ := @Table.insert_isSome _ _ _ _ _ all run
      (result.2.runs.valid run hmem) hfresh
    have hrows : all'.rows = all.rows ++ [run] := Table.rows_insert hinsert
    have hghost : Starts (sys.store.withRuns all) (result.2.withRuns all') run :=
      ⟨hfresh, hrows, hstarts.queue, hstarts.status, hstarts.thread⟩
    refine ⟨all', hpool ▸ h.sound, hpool ▸ h.keepsTo, fun row hrow => ?_, fun row hrow => ?_, ?_⟩
    · rw [hstore, hstarts.rows] at hrow
      rw [hrows]
      exact (List.mem_append.mp hrow).elim (fun hrow => List.mem_append_left _ (h.stored row hrow))
        (List.mem_append_right _)
    · rw [hrows] at hrow
      rw [hstore]
      rcases List.mem_append.mp hrow with hrow | hrow
      · exact numbered_mono hdraws.counter (h.numbered row hrow)
      · exact ⟨_, hlt, List.mem_singleton.mp hrow ▸ hid⟩
    · rw [hstore, hpool]
      exact @heldOnce_starts _ (sys.store.withRuns all) (result.2.withRuns all') _ _ h.heldOnce
        hghost

theorem kept_submits {req : SubmitToolOutputsToRunRequest} {run : RunObject}
    {step : RunStepObject} (h : sys.Kept all) (hsubmits : Submits sys.store req run step)
    (hstore : sys'.store = sys.store.submit req run step) (hpool : sys'.pool = sys.pool) :
    ∃ all', sys'.Kept all' := by
  have hghost : Submits (sys.store.withRuns all) req run step :=
    { hsubmits with found := run?_withRuns h.stored hsubmits.found }
  have hheld := @heldOnce_submit _ (sys.store.withRuns all) _ _ _ _ h.heldOnce hghost
  refine ⟨_, kept_of_assignRun req.runRequest h (hpool ▸ h.sound) (hpool ▸ h.keepsTo) ?_ ?_ ?_⟩
  · rw [hstore]
    exact Nat.le_refl _
  · rw [hstore]
    rfl
  · rw [hstore, hpool]
    exact hheld

theorem kept_cancels {req : CancelRunRequest} (h : sys.Kept all)
    (hstore : sys'.store = sys.store.assignRun req.runRequest) (hpool : sys'.pool = sys.pool) :
    ∃ all', sys'.Kept all' := by
  have hheld := @heldOnce_assignRun _ (sys.store.withRuns all) _ req.runRequest h.heldOnce
    (by simp [CancelRunRequest.runRequest]) not_settled_cancelling
  refine ⟨_, kept_of_assignRun req.runRequest h (hpool ▸ h.sound) (hpool ▸ h.keepsTo) ?_ ?_ ?_⟩
  · rw [hstore]
    exact Nat.le_refl _
  · rw [hstore]
  · rw [hstore, hpool]
    exact hheld

/-- A client changes a run, but not its status. -/
theorem kept_modifies {req : ModifyRunRequest} (h : sys.Kept all)
    (hunknown : req.status = .unknownRunObjectStatus)
    (hstore : sys'.store = sys.store.assignRun req) (hpool : sys'.pool = sys.pool) :
    ∃ all', sys'.Kept all' := by
  have hheld := @heldOnce_assignRun_unknown _ (sys.store.withRuns all) _ req h.heldOnce hunknown
  refine ⟨_, kept_of_assignRun req h (hpool ▸ h.sound) (hpool ▸ h.keepsTo) ?_ ?_ ?_⟩
  · rw [hstore]
    exact Nat.le_refl _
  · rw [hstore]
  · rw [hstore, hpool]
    exact hheld

variable [DecidableEq ι]

theorem kept_dequeues {j : ι} {position : Nat} {run : RunObject} (h : sys.Kept all)
    (hsound : ∀ k, (sys'.pool k).Sound) (hkeeps : ∀ k, (sys'.pool k).KeepsTo)
    (hrun : sys.store.queue[position]? = some run)
    (hstore : sys'.store = { sys.store with queue := sys.store.queue.eraseIdx position })
    (hpool : sys'.pool = Function.update sys.pool j (Thread.handle config run)) :
    sys'.Kept all := by
  refine ⟨hsound, hkeeps, ?_, ?_, ?_⟩
  · rw [hstore]
    exact h.stored
  · rw [hstore]
    exact h.numbered
  · rw [hstore, hpool]
    exact h.heldOnce.dequeue j hrun

theorem kept_advances {j : ι} {next : Thread} (h : sys.Kept all)
    (hsound : ∀ k, (sys'.pool k).Sound) (hkeeps : ∀ k, (sys'.pool k).KeepsTo)
    (hcounts : CountsOn sys.store sys'.store)
    (hstep : Advances (sys.pool j) next sys.store sys'.store)
    (hpool : sys'.pool = Function.update sys.pool j next) : ∃ all', sys'.Kept all' := by
  rcases hstep.runs with hruns | ⟨run, req, hrun, hspent, hthread, hid, hruns, hstatus⟩
  · have hghost : Advances (sys.pool j) next (sys.store.withRuns all) (sys'.store.withRuns all) :=
      ⟨hstep.queue, hstep.run, hstep.spent, .inl rfl⟩
    refine ⟨all, hsound, hkeeps, ?_, fun row hrow => ?_, ?_⟩
    · rw [hruns]
      exact h.stored
    · exact numbered_mono hcounts (h.numbered row hrow)
    · rw [hpool]
      exact @HeldOnce.advance _ _ _ (sys.store.withRuns all) (sys'.store.withRuns all) h.heldOnce
        j _ hghost
  · let all' := ((sys.store.withRuns all).assignRun req).runs
    have hghost : Advances (sys.pool j) next (sys.store.withRuns all) (sys'.store.withRuns all') :=
      ⟨hstep.queue, hstep.run, hstep.spent,
        .inr ⟨run, req, hrun, hspent, hthread, hid, rfl, hstatus⟩⟩
    refine ⟨all', kept_of_assignRun req h hsound hkeeps hcounts hruns ?_⟩
    rw [hpool]
    exact @HeldOnce.advance _ _ _ (sys.store.withRuns all) (sys'.store.withRuns all') h.heldOnce
      j _ hghost

end Kept

/-! ### One step of the system -/

section Steps

variable {ι : Type} [DecidableEq ι] {config : HandlerConfig} {sys sys' : System ι}
variable {label : ThreadsLabel ι} {all : RunTable}

/-- The other services do not set the counter of ids back. -/
def ThreadsLabel.CountsOn (sys : System ι) : ThreadsLabel ι → Prop
  | .runs (.others tables) => Instinct.CountsOn sys.store tables
  | _ => True

theorem sound_stepThreads (hsound : ∀ j, (sys.pool j).Sound)
    (h : sys.stepThreads config label = some sys') : ∀ j, (sys'.pool j).Sound := by
  rcases pool_step h with hpool | ⟨j, thread, hpool, hthread⟩
  · rw [hpool]
    exact hsound
  · rw [hpool]
    refine (Function.forall_update_iff _ fun _ (thread : Thread) => thread.Sound).mpr
      ⟨?_, fun k _ => hsound k⟩
    rcases hthread with ⟨run, rfl⟩ | ⟨outside, rfl⟩
    · exact sound_handle
    · exact sound_next (hsound j)

theorem countsOn_step (hkeeps : ∀ j, (sys.pool j).KeepsTo) (hlabel : label.CountsOn sys)
    (h : sys.stepThreads config label = some sys') : CountsOn sys.store sys'.store := by
  cases label with
  | deleteThread req =>
      obtain rfl := Option.some.inj h
      show CountsOn sys.store (deleteThread req sys.store).2
      rcases deleteThread_cases req sys.store with ⟨e, he⟩ | ⟨-, response, hok⟩
      · rw [he]
        exact Nat.le_refl _
      · rw [hok]
        exact Nat.le_refl _
  | runs label =>
      cases label with
      | createRun req =>
          obtain rfl := Option.some.inj h
          exact (createRun_draws req sys.store).counter
      | createThreadAndRun req =>
          obtain rfl := Option.some.inj h
          exact (createThreadAndRun_draws req sys.store).counter
      | submitToolOutputs req =>
          obtain rfl := Option.some.inj h
          show CountsOn sys.store (submitToolOutputs req sys.store).2
          rcases submitToolOutputs_cases req sys.store with ⟨e, he⟩ | ⟨run, step, -, hok⟩
          · rw [he]
            exact Nat.le_refl _
          · rw [hok]
            exact Nat.le_refl _
      | cancelRun req =>
          obtain rfl := Option.some.inj h
          show CountsOn sys.store (cancelRun req sys.store).2
          rcases cancelRun_cases req sys.store with hsame | hcancel
          · rw [hsame]
            exact Nat.le_refl _
          · rw [hcancel]
            exact Nat.le_refl _
      | modifyRun req =>
          obtain rfl := Option.some.inj h
          exact countsOn_of_keeps (keeps_modifyRun (fun _ _ => rfl) req) sys.store
      | others tables =>
          obtain rfl := Option.some.inj h
          exact hlabel
      | dequeue j position =>
          simp only [System.stepThreads, System.step] at h
          split at h
          · obtain rfl := Option.some.inj h
            exact Nat.le_refl _
          · cases h
      | handler j outside =>
          obtain rfl := Option.some.inj h
          show CountsOn sys.store ((sys.pool j).next config outside sys.store).2
          rcases @next_store config outside sys.store _ (hkeeps j) with
            hsame | ⟨call, -, -, -, hcall⟩
          · rw [hsame]
            exact Nat.le_refl _
          · rw [hcall]
            exact exec_countsOn call sys.store

/-- **Step lemma.**  What is known of runs stays known. -/
theorem kept_step (h : sys.Kept all) (hlabel : label.CountsOn sys) (hsets : ¬ label.SetsStatus)
    (hstep : sys.stepThreads config label = some sys') : ∃ all', sys'.Kept all' := by
  have hcounts := countsOn_step h.keepsTo hlabel hstep
  have hsound := sound_stepThreads h.sound hstep
  have hkeeps := keepsTo_step h.keepsTo hstep
  cases label with
  | deleteThread req =>
      obtain rfl := Option.some.inj hstep
      rcases deleteThread_cases req sys.store with ⟨e, he⟩ | ⟨-, response, hok⟩
      · refine ⟨all, kept_quiet h hcounts ?_ rfl⟩
        show (deleteThread req sys.store).2.tasks = _
        rw [he]
      · refine ⟨all, kept_of_stored h hcounts (fun row hrow => ?_) ?_ rfl⟩
        · change row ∈ (deleteThread req sys.store).2.runs.rows at hrow
          rw [hok] at hrow
          exact (List.mem_filter.mp hrow).1
        · show (deleteThread req sys.store).2.queue = _
          rw [hok]
          rfl
  | runs label =>
      cases label with
      | createRun req =>
          obtain rfl := Option.some.inj hstep
          exact kept_creates h (createRun_creates req sys.store) (createRun_draws req sys.store)
            rfl rfl
      | createThreadAndRun req =>
          obtain rfl := Option.some.inj hstep
          exact kept_creates h (createThreadAndRun_creates req sys.store)
            (createThreadAndRun_draws req sys.store) rfl rfl
      | submitToolOutputs req =>
          obtain rfl := Option.some.inj hstep
          rcases submitToolOutputs_cases req sys.store with ⟨e, he⟩ | ⟨run, step, hsubmits, hok⟩
          · exact ⟨all, kept_quiet h hcounts (congrArg (fun r => r.2.tasks) he) rfl⟩
          · exact kept_submits h hsubmits (congrArg Prod.snd hok) rfl
      | cancelRun req =>
          obtain rfl := Option.some.inj hstep
          rcases cancelRun_cases req sys.store with hsame | hcancel
          · exact ⟨all, kept_quiet h hcounts (congrArg Store.tasks hsame) rfl⟩
          · exact kept_cancels h hcancel rfl
      | modifyRun req =>
          obtain rfl := Option.some.inj hstep
          rcases modifyRun_cases req sys.store with ⟨e, he⟩ | ⟨run, -, hok⟩
          · exact ⟨all, kept_quiet h hcounts (congrArg (fun r => r.2.tasks) he) rfl⟩
          · exact kept_modifies h (not_not.mp hsets) (congrArg Prod.snd hok) rfl
      | others tables =>
          obtain rfl := Option.some.inj hstep
          exact ⟨all, kept_quiet h hcounts rfl rfl⟩
      | dequeue j position =>
          simp only [System.stepThreads, System.step] at hstep
          split at hstep
          · rename_i run hidle hrun
            obtain rfl := Option.some.inj hstep
            exact ⟨all, kept_dequeues h hsound hkeeps hrun rfl rfl⟩
          · cases hstep
      | handler j outside =>
          obtain rfl := Option.some.inj hstep
          exact kept_advances h hsound hkeeps hcounts (next_advances (h.sound j)) rfl

/-! ### Who works on a run -/

/-- A run that a thread has begun and not ended is in progress or being cancelled. -/
def System.Engaged (config : HandlerConfig) (sys : System ι) : Prop :=
  ∀ j run, (sys.pool j).isSpent = false → (sys.pool j).run? = some run →
    (sys.pool j).IsOff config ∨ sys.store.RunIs run RunObjectStatus.IsBusy

omit [DecidableEq ι] in
theorem engaged_of_initial (h : sys.Initial) : sys.Engaged config := by
  intro j run hspent hrun
  rw [h.pool j] at hrun
  cases hrun

omit [DecidableEq ι] in
theorem engaged_of_busy (h : sys.Engaged config) (hpool : sys'.pool = sys.pool)
    (hbusy : ∀ run, sys.store.RunIs run RunObjectStatus.IsBusy →
      sys'.store.RunIs run RunObjectStatus.IsBusy) : sys'.Engaged config := by
  intro j run hspent hrun
  rw [hpool] at hspent hrun ⊢
  exact (h j run hspent hrun).imp_right (hbusy run)

theorem busy_ne_requiresAction {status : RunObjectStatus} (h : status.IsBusy) :
    status ≠ .requiresAction := by
  rintro rfl
  rcases h with h | h <;> cases h

/-- A run update leaves a busy run busy, or it is another run. -/
theorem busy_assignRun {s : Store} {req : ModifyRunRequest} {run : RunObject}
    (h : s.RunIs run RunObjectStatus.IsBusy)
    (hreq : run.threadId = req.threadId ∧ run.id = req.runId → req.status.IsBusy) :
    (s.assignRun req).RunIs run RunObjectStatus.IsBusy := by
  by_cases hnames : run.threadId = req.threadId ∧ run.id = req.runId
  · have hbusy := hreq hnames
    have hknown : req.status ≠ .unknownRunObjectStatus := by
      intro hunknown
      rw [hunknown] at hbusy
      rcases hbusy with h | h <;> cases h
    refine (h.assignRun hnames.1.symm hnames.2.symm hknown).mono fun status hstatus => ?_
    exact hstatus ▸ hbusy
  · exact runIs_assignRun_other h hnames

omit [DecidableEq ι] in
/-- A step of a thread, for the thread itself. -/
theorem engaged_self {j : ι} {outside : Outside} {run : RunObject} (h : sys.Engaged config)
    (hsound : ∀ j, (sys.pool j).Sound)
    (hspent : ((sys.pool j).next config outside sys.store).1.isSpent = false)
    (hrun : ((sys.pool j).next config outside sys.store).1.run? = some run) :
    ((sys.pool j).next config outside sys.store).1.IsOff config ∨
      ((sys.pool j).next config outside sys.store).2.RunIs run RunObjectStatus.IsBusy := by
  have hadv := @next_advances config outside sys.store _ (hsound j)
  have hown := hadv.run run hrun
  rcases h j run (hadv.spent hspent) hown with hoff | hbusy
  · rcases off_next hoff hown with ⟨-, hnext⟩ | ⟨stored, hstored, hassign⟩
    · exact .inl (hnext run hrun)
    · have hstarted : (sys.store.assignRun (startRequest config run)).RunIs run (· = .inProgress) :=
        Store.RunIs.assignRun (P := fun _ => True) ⟨stored, hstored, trivial⟩ rfl rfl
          (by simp [startRequest])
      rw [hassign]
      exact .inr (hstarted.mono fun _ hstatus => .inl hstatus)
  · refine .inr ?_
    rcases hadv.runs with hruns | ⟨run', req, -, -, -, -, hruns, hstatus⟩
    · exact hbusy.of_runs_eq hruns
    · refine (busy_assignRun hbusy fun _ => ?_).of_runs_eq hruns
      rcases hstatus with hprogress | ⟨-, hdone⟩
      · exact .inl hprogress
      · rw [hspent] at hdone
        cases hdone

omit [DecidableEq ι] in
/-- A step of a thread, for another thread: the run that it works on is not that of the step. -/
theorem engaged_other {j k : ι} {outside : Outside} {run : RunObject} (h : sys.Engaged config)
    (hkept : sys.Kept all) (hne : k ≠ j) (hspent : (sys.pool k).isSpent = false)
    (hrun : (sys.pool k).run? = some run) :
    (sys.pool k).IsOff config ∨
      ((sys.pool j).next config outside sys.store).2.RunIs run RunObjectStatus.IsBusy := by
  refine (h k run hspent hrun).imp_right fun hbusy => ?_
  rcases (@next_advances config outside sys.store _ (hkept.sound j)).runs with
    hruns | ⟨run', req, hrun', hspent', -, hid, hruns, -⟩
  · exact hbusy.of_runs_eq hruns
  · refine (busy_assignRun hbusy fun hnames => ?_).of_runs_eq hruns
    -- both threads would hold the run
    exact absurd (hkept.heldOnce.threads k j run.id ⟨hspent, run, hrun, rfl⟩
      ⟨hspent', run', hrun', hid.symm.trans hnames.2.symm⟩) hne

/-- **Step lemma.** -/
theorem engaged_step (hkept : sys.Kept all) (h : sys.Engaged config) (hsets : ¬ label.SetsStatus)
    (hstep : sys.stepThreads config label = some sys') : sys'.Engaged config := by
  cases label with
  | deleteThread req =>
      obtain rfl := Option.some.inj hstep
      refine engaged_of_busy h rfl fun run hbusy => ?_
      show (deleteThread req sys.store).2.RunIs run _
      rcases deleteThread_cases req sys.store with ⟨e, he⟩ | ⟨hidle, response, hok⟩
      · rw [he]
        exact hbusy
      · rw [hok]
        refine runIs_without hbusy fun hthread => ?_
        obtain ⟨stored, hmem, hstatus⟩ := busy_of_runIs hbusy
        exact hidle stored (hthread ▸ hmem) hstatus
  | runs label =>
      cases step_cases hstep with
      | quiet htasks hpool =>
          exact engaged_of_busy h hpool fun run hbusy => hbusy.of_runs_eq (Prod.mk.inj htasks).1
      | starts new hstarts hpool =>
          exact engaged_of_busy h hpool fun run hbusy => runIs_starts hbusy hstarts
      | submits req waiting step hsubmits hstore hpool =>
          refine engaged_of_busy h hpool fun run hbusy => ?_
          rw [hstore]
          have hother := submits_other hsubmits hbusy fun _ => busy_ne_requiresAction
          exact runIs_assignRun_other hbusy fun hnames => hother hnames.2
      | cancels req hlabel hstore hpool =>
          refine engaged_of_busy h hpool fun run hbusy => ?_
          rw [hstore]
          exact busy_assignRun hbusy fun _ => .inr rfl
      | modifies req hmodify hstore hpool =>
          subst hmodify
          refine engaged_of_busy h hpool fun run hbusy => ?_
          rw [hstore]
          have hof : ¬ Label.SetsStatusOf run (.modifyRun req : Label ι) := fun hof => hsets hof.1
          exact runIs_modifies hbusy hof
      | dequeues j position task htask htasks hpool =>
          intro k run hspent hrun
          rw [hpool] at hspent hrun ⊢
          by_cases hk : k = j
          · subst hk
            rw [Function.update_self] at hrun ⊢
            exact .inl (off_handle hrun)
          · rw [Function.update_of_ne hk] at hspent hrun ⊢
            exact (h k run hspent hrun).imp_right fun hbusy =>
              hbusy.of_runs_eq (Prod.mk.inj htasks).1
      | advances j outside hstore hpool =>
          intro k run hspent hrun
          rw [hpool] at hspent hrun ⊢
          rw [hstore]
          by_cases hk : k = j
          · subst hk
            rw [Function.update_self] at hspent hrun ⊢
            exact engaged_self h hkept.sound hspent hrun
          · rw [Function.update_of_ne hk] at hspent hrun ⊢
            exact engaged_other h hkept hk hspent hrun

/-! ### After the deletion -/

/-- No run of the thread is left, and nobody works on one. -/
structure System.Gone (config : HandlerConfig) (sys : System ι) (t : String) : Prop where
  sound : ∀ j, (sys.pool j).Sound
  keepsTo : ∀ j, (sys.pool j).KeepsTo
  runs : sys.store.threadRuns t = []
  off : ∀ j run, (sys.pool j).isSpent = false → (sys.pool j).run? = some run → run.threadId = t →
    (sys.pool j).IsOff config

variable {t : String}

theorem run?_of_threadRuns {s : Store} (h : s.threadRuns t = []) (runId : String) :
    s.run? t runId = none := by
  cases hfound : s.run? t runId with
  | none => rfl
  | some run =>
      have hmem : run ∈ s.threadRuns t := List.mem_filter.mpr
        ⟨List.mem_of_find?_eq_some hfound, decide_eq_true (Store.run?_some hfound).1⟩
      rw [h] at hmem
      cases hmem

omit [DecidableEq ι] in
/-- The runs of a thread without busy runs are deleted. -/
theorem gone_of_idle {s : Store} (hkept : sys.Kept all) (hengaged : sys.Engaged config)
    (hidle : ∀ run ∈ sys.store.threadRuns t, ¬ run.status.IsBusy) (hruns : s.threadRuns t = []) :
    System.Gone config { sys with store := s } t where
  sound := hkept.sound
  keepsTo := hkept.keepsTo
  runs := hruns
  off j run hspent hrun hthread := by
    rcases hengaged j run hspent hrun with hoff | hbusy
    · exact hoff
    · obtain ⟨stored, hmem, hstatus⟩ := busy_of_runIs hbusy
      exact absurd hstatus (hidle stored (hthread ▸ hmem))

omit [DecidableEq ι] in
/-- A thread of the scheduler leaves a thread that is gone as it is. -/
theorem rowsOf_next_of_gone (h : sys.Gone config t) (j : ι) (outside : Outside) :
    ((sys.pool j).next config outside sys.store).2.rowsOf t = sys.store.rowsOf t := by
  by_cases hown : ∃ run, (sys.pool j).run? = some run ∧ run.threadId = t
  · obtain ⟨run, hrun, rfl⟩ := hown
    cases hspent : (sys.pool j).isSpent with
    | true => rw [next_of_spent hspent]
    | false =>
        rcases off_next (h.off j run hspent hrun rfl) hrun with ⟨hsame, -⟩ | ⟨stored, hstored, -⟩
        · rw [hsame]
        · rw [run?_of_threadRuns h.runs] at hstored
          cases hstored
  · exact rowsOf_next (h.keepsTo j) fun run hrun hthread => hown ⟨run, hrun, hthread⟩

/-- Only what fills a thread gives it rows again. -/
theorem rowsOf_step_of_gone (h : sys.Gone config t) (hlabel : ¬ label.Fills sys t)
    (hstep : sys.stepThreads config label = some sys') :
    sys'.store.rowsOf t = sys.store.rowsOf t ∨ sys'.store.rowsOf t = ⟨[], [], []⟩ := by
  by_cases hconcerns : label.Concerns sys t
  · have hnames := hconcerns.resolve_left hlabel
    cases label with
    | deleteThread req =>
        obtain rfl := Option.some.inj hstep
        obtain rfl : req.threadId = t := hnames
        rcases deleteThread_cases req sys.store with ⟨e, he⟩ | ⟨-, response, hok⟩
        · exact .inl (congrArg (fun r => r.2.rowsOf req.threadId) he)
        · refine .inr ?_
          show (deleteThread req sys.store).2.rowsOf req.threadId = _
          rw [hok]
          exact rowsOf_without _ _
    | runs label =>
        refine .inl ?_
        cases label with
        | submitToolOutputs req =>
            obtain rfl := Option.some.inj hstep
            obtain rfl : req.threadId = t := hnames
            rcases submitToolOutputs_cases req sys.store with ⟨e, he⟩ | ⟨run, step, hsubmits, -⟩
            · exact congrArg (fun r => r.2.rowsOf req.threadId) he
            · have hfound := hsubmits.found
              rw [run?_of_threadRuns h.runs] at hfound
              cases hfound
        | cancelRun req =>
            obtain rfl := Option.some.inj hstep
            obtain rfl : req.threadId = t := hnames
            show (cancelRun req sys.store).2.rowsOf req.threadId = _
            rcases cancelRun_cases req sys.store with hsame | hcancel
            · rw [hsame]
            · rw [hcancel, Store.assignRun_of_none (run?_of_threadRuns h.runs req.runId)]
        | modifyRun req =>
            obtain rfl := Option.some.inj hstep
            obtain rfl : req.threadId = t := hnames
            rcases modifyRun_cases req sys.store with ⟨e, he⟩ | ⟨run, hfound, -⟩
            · exact congrArg (fun r => r.2.rowsOf req.threadId) he
            · rw [run?_of_threadRuns h.runs] at hfound
              cases hfound
        | handler j outside =>
            obtain rfl := Option.some.inj hstep
            exact rowsOf_next_of_gone h j outside
        | _ => exact hnames.elim
  · exact .inl (rowsOf_step h.keepsTo hconcerns hstep)

/-- **Step lemma.**  A thread that is gone stays gone until it is filled. -/
theorem gone_step (h : sys.Gone config t) (hlabel : ¬ label.Fills sys t)
    (hstep : sys.stepThreads config label = some sys') : sys'.Gone config t := by
  have hruns : sys'.store.threadRuns t = [] := by
    rcases rowsOf_step_of_gone h hlabel hstep with hsame | hempty
    · exact (congrArg ThreadRows.runs hsame).trans h.runs
    · exact congrArg ThreadRows.runs hempty
  refine ⟨sound_stepThreads h.sound hstep, keepsTo_step h.keepsTo hstep, hruns,
    fun k run hspent hrun hthread => ?_⟩
  rcases pool_step hstep with hpool | ⟨j, thread, hpool, hnew⟩
  · rw [hpool] at hspent hrun ⊢
    exact h.off k run hspent hrun hthread
  · rw [hpool] at hspent hrun ⊢
    by_cases hk : k = j
    · subst hk
      rw [Function.update_self] at hspent hrun ⊢
      rcases hnew with ⟨task, rfl⟩ | ⟨outside, rfl⟩
      · exact off_handle hrun
      · have hadv := @next_advances config outside sys.store _ (h.sound k)
        have hown := hadv.run run hrun
        rcases off_next (h.off k run (hadv.spent hspent) hown hthread) hown with
          ⟨-, hnext⟩ | ⟨stored, hstored, -⟩
        · exact hnext run hrun
        · rw [hthread, run?_of_threadRuns h.runs] at hstored
          cases hstored
    · rw [Function.update_of_ne hk] at hspent hrun ⊢
      exact h.off k run hspent hrun hthread

/-- **Run lemma.** -/
theorem kept_of_runs {initial : System ι} (hinitial : initial.Initial)
    (h : Runs (System.stepThreads config)
      (fun sys label => label.CountsOn sys ∧ ¬ label.SetsStatus) initial sys) :
    (∃ all, sys.Kept all) ∧ sys.Engaged config := by
  refine h.invariant (I := fun sys => (∃ all, sys.Kept all) ∧ sys.Engaged config) ?_
    ⟨⟨_, kept_of_initial hinitial⟩, engaged_of_initial hinitial⟩
  rintro sys label sys' ⟨⟨all, hkept⟩, hengaged⟩ ⟨hcounts, hsets⟩ hstep
  exact ⟨kept_step hkept hcounts hsets hstep, engaged_step hkept hengaged hsets hstep⟩

/-- **A deleted thread stays deleted.**  In every run of the system in which ids are numbered
upwards and clients set no status themselves, after a deletion that went through the store holds
nothing of the thread until a step fills it, although tasks of its runs may still be taken and
begun. -/
theorem deleteThread_lasts (config : HandlerConfig) {initial sys₁ sys₂ : System ι}
    {req : DeleteThreadRequest} {response : DeleteThreadResponse} {s : Store}
    (hinitial : initial.Initial)
    (hreaches : Runs (System.stepThreads config)
      (fun sys label => label.CountsOn sys ∧ ¬ label.SetsStatus) initial sys₁)
    (hdeletes : deleteThread req sys₁.store = (.ok response, s))
    (hlater : Runs (System.stepThreads config) (fun sys label => ¬ label.Fills sys req.threadId)
      { sys₁ with store := s } sys₂) :
    sys₂.store.rowsOf req.threadId = ⟨[], [], []⟩ := by
  obtain ⟨⟨all, hkept⟩, hengaged⟩ := kept_of_runs hinitial hreaches
  rcases deleteThread_cases req sys₁.store with ⟨e, he⟩ | ⟨hidle, response', hok⟩
  · cases he.symm.trans hdeletes
  · obtain rfl := congrArg Prod.snd (hdeletes.symm.trans hok)
    have hempty := rowsOf_without sys₁.store req.threadId
    have hgone := gone_of_idle hkept hengaged hidle (congrArg ThreadRows.runs hempty)
    have hboth : sys₂.Gone config req.threadId ∧
        sys₂.store.rowsOf req.threadId = ⟨[], [], []⟩ := by
      refine hlater.invariant (I := fun sys => sys.Gone config req.threadId ∧
        sys.store.rowsOf req.threadId = ⟨[], [], []⟩) ?_ ⟨hgone, hempty⟩
      intro sys label sys' h hlabel hstep
      refine ⟨gone_step h.1 hlabel hstep, ?_⟩
      exact (rowsOf_step_of_gone h.1 hlabel hstep).elim (·.trans h.2) id
    exact hboth.2

end Steps

/-- A run is asked for, and its thread is deleted before anyone takes it. -/
def askedSystem : System Unit :=
  (execute (System.stepThreads {}) [.runs createQuestionRun] (oneThread questionStore)).getD
    (oneThread questionStore)

theorem runs_askedSystem :
    Runs (System.stepThreads {}) (fun sys label => label.CountsOn sys ∧ ¬ label.SetsStatus)
      (oneThread questionStore) askedSystem := by
  have hasked : execute (System.stepThreads {}) [.runs createQuestionRun]
      (oneThread questionStore) = some askedSystem := rfl
  have hcounts : ∀ sys : System Unit, ∀ label ∈ [ThreadsLabel.runs createQuestionRun],
      label.CountsOn sys ∧ ¬ label.SetsStatus := by
    simp [createQuestionRun, ThreadsLabel.CountsOn, ThreadsLabel.SetsStatus, Label.SetsStatus]
  exact runs_of_execute hcounts hasked

/-- The thread of the scheduler takes the run and begins it. -/
def beginsRun : List (ThreadsLabel Unit) :=
  .runs (.dequeue () 0) :: List.replicate 3 (.runs (.handler () {}))

/-- The run was queued when its thread was deleted, and is taken afterwards. -/
theorem deleteThread_lasts_queued :
    ∃ response s sys,
      deleteThread { threadId := "thread_1" } askedSystem.store = (.ok response, s) ∧
      s.queue.length = 1 ∧
      execute (System.stepThreads {}) beginsRun { askedSystem with store := s } = some sys ∧
      sys.store.rowsOf "thread_1" = ⟨[], [], []⟩ := by
  have hlater : ∀ sys : System Unit, ∀ label ∈ beginsRun, ¬ label.Fills sys "thread_1" := by
    simp [beginsRun, ThreadsLabel.Fills]
  refine ⟨_, _, _, rfl, rfl, rfl, @deleteThread_lasts Unit _ {} (oneThread questionStore)
    askedSystem _ { threadId := "thread_1" } _ _ ⟨rfl, rfl, fun _ => rfl⟩
    runs_askedSystem rfl ?_⟩
  exact runs_of_execute hlater rfl

end Instinct
