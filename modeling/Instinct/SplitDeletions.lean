/-
Instinct/SplitDeletions.lean

Deletions that are not one step.

The statements of `DeleteThread` stand in no transaction, and other parties, other deletions among
them, may take steps between them; every other service call is one step.  Before the runs are
deleted such a step can begin a run that the check has passed over; behind that statement nobody
can begin one any more.  So deletions are as good as one step, if nothing concerns a thread between
the check of its deletion and the first statement (`statements_delete`).  A run that is begun there
leaves rows (`statements_leave_rows`).
-/
import Instinct.DeletedThreads

namespace Instinct

open Effects Tables Transitions

/-! ### The statements -/

/-- The statements of `ThreadServiceImpl::DeleteThread` behind its check. -/
inductive DeletionStatement
  | deleteManyRuns
  | deleteManyRunSteps
  | deleteManyMessages
  | deleteOneThread
  deriving DecidableEq

/-- What a statement does. -/
def DeletionStatement.exec (threadId : String) : DeletionStatement → ServiceM Nat
  | deleteManyRuns => Instinct.deleteManyRuns threadId
  | deleteManyRunSteps => Instinct.deleteManyRunSteps threadId
  | deleteManyMessages => Instinct.deleteManyMessages threadId
  | deleteOneThread => Instinct.deleteOneThread threadId

/-- The statements in their order. -/
def deletionStatements : List DeletionStatement :=
  [.deleteManyRuns, .deleteManyRunSteps, .deleteManyMessages, .deleteOneThread]

/-- An accepted deletion is these statements, one after the other. -/
theorem foldl_deletionStatements (s : Store) (t : String) :
    deletionStatements.foldl (fun s statement => (statement.exec t s).2) s = s.without t := rfl

/-- The rows that a statement deletes are gone. -/
def DeletionStatement.Done (rows : ThreadRows) : DeletionStatement → Prop
  | deleteManyRuns => rows.runs = []
  | deleteManyRunSteps => rows.runSteps = []
  | deleteManyMessages => rows.messages = []
  | deleteOneThread => True

section Statements

variable {s : Store} {t u : String} {statement other : DeletionStatement}

theorem done_exec : statement.Done ((statement.exec t s).2.rowsOf t) := by
  cases statement with
  | deleteOneThread => trivial
  | _ => exact filter_delete_same _ _

theorem filter_delete_of_nil {α κ : Type} {key : α → κ} {Valid : α → Prop}
    {table : Table key Valid} {p q : α → Bool} (h : table.rows.filter q = []) :
    (table.delete p).rows.filter q = [] :=
  List.filter_eq_nil_iff.mpr fun row hrow =>
    List.filter_eq_nil_iff.mp h row (List.mem_filter.mp hrow).1

/-- A statement brings no rows back. -/
theorem done_exec_other (h : other.Done (s.rowsOf t)) :
    other.Done ((statement.exec u s).2.rowsOf t) := by
  cases other with
  | deleteManyRuns =>
      cases statement with
      | deleteManyRuns => exact filter_delete_of_nil h
      | _ => exact h
  | deleteManyRunSteps =>
      cases statement with
      | deleteManyRunSteps => exact filter_delete_of_nil h
      | _ => exact h
  | deleteManyMessages =>
      cases statement with
      | deleteManyMessages => exact filter_delete_of_nil h
      | _ => exact h
  | deleteOneThread => trivial

theorem done_empty : statement.Done ⟨[], [], []⟩ := by
  cases statement <;> trivial

/-- A statement creates no run. -/
theorem mem_runs_exec {row : RunObject} (h : row ∈ (statement.exec u s).2.runs.rows) :
    row ∈ s.runs.rows := by
  cases statement with
  | deleteManyRuns => exact (List.mem_filter.mp h).1
  | _ => exact h

theorem mem_threadRuns_exec {row : RunObject} (h : row ∈ (statement.exec u s).2.threadRuns t) :
    row ∈ s.threadRuns t :=
  List.mem_filter.mpr ⟨mem_runs_exec (List.mem_filter.mp h).1, (List.mem_filter.mp h).2⟩

theorem countsOn_statement : CountsOn s (statement.exec u s).2 := by
  cases statement <;> exact Nat.le_refl _

theorem queue_exec : (statement.exec u s).2.queue = s.queue := by
  cases statement <;> rfl

/-- Only the first statement touches runs, and only those of its thread. -/
theorem runIs_exec {run : RunObject} {P : RunObjectStatus → Prop} (h : s.RunIs run P)
    (hother : statement = .deleteManyRuns → run.threadId ≠ u) :
    (statement.exec u s).2.RunIs run P := by
  cases statement with
  | deleteManyRuns => exact (runIs_without h (hother rfl)).of_runs_eq rfl
  | _ => exact h.of_runs_eq rfl

/-- The runs are deleted first. -/
theorem not_mem_of_suffix {rest : List DeletionStatement}
    (h : statement :: rest <:+ deletionStatements) : .deleteManyRuns ∉ rest := by
  simp only [deletionStatements, List.suffix_cons_iff, List.cons.injEq] at h
  rcases h with ⟨-, rfl⟩ | ⟨-, rfl⟩ | ⟨-, rfl⟩ | ⟨-, rfl⟩ | h
  · simp
  · simp
  · simp
  · simp
  · cases List.suffix_nil.mp h

end Statements

/-! ### The system during deletions -/

/-- The system, and what the requests that delete threads still have to do, once they have passed
their checks. -/
structure DeletingSystem (ι κ : Type) where
  system : System ι
  deletions : κ → Option (String × List DeletionStatement)

/-- Other parties take a step, or a request takes one. -/
inductive DeletionLabel (ι κ : Type)
  | others (label : Label ι)
  | check (k : κ) (threadId : String)
  | statement (k : κ)

section Deleting

variable {ι κ : Type} [DecidableEq ι] [DecidableEq κ]

/-- One step; a check that turns its request down is none. -/
def DeletingSystem.step (config : HandlerConfig) (d : DeletingSystem ι κ) :
    DeletionLabel ι κ → Option (DeletingSystem ι κ)
  | .others label => (d.system.step config label).map fun sys => { d with system := sys }
  | .check k threadId =>
      match d.deletions k, (checkDeletion threadId d.system.store).1 with
      | none, .ok _ => some
          { d with deletions :=
              Function.update d.deletions k (some (threadId, deletionStatements)) }
      | _, _ => none
  | .statement k =>
      match d.deletions k with
      | some (threadId, statement :: rest) => some
          { system := { d.system with store := (statement.exec threadId d.system.store).2 }
            deletions := Function.update d.deletions k (some (threadId, rest)) }
      | _ => none

/-- At first no thread is being deleted. -/
structure DeletingSystem.Initial (d : DeletingSystem ι κ) : Prop where
  system : d.system.Initial
  deletions : ∀ k, d.deletions k = none

/-- A request has passed its check, and has still to delete the runs of its thread. -/
def DeletingSystem.Awaits (d : DeletingSystem ι κ) (k : κ) (t : String) : Prop :=
  ∃ rest, d.deletions k = some (t, rest) ∧ .deleteManyRuns ∈ rest

/-- The step comes between no check and the first statement behind it with something that concerns
their thread.  The other services do not set the counter of ids back, and clients set no status
themselves. -/
def DeletionLabel.Spares (d : DeletingSystem ι κ) : DeletionLabel ι κ → Prop
  | .others label => (∀ k t, d.Awaits k t → ¬ (ThreadsLabel.runs label).Concerns d.system t) ∧
      (ThreadsLabel.runs label).CountsOn d.system ∧ ¬ label.SetsStatus
  | _ => True

/-- The step may give the thread its first rows. -/
def DeletionLabel.Fills (d : DeletingSystem ι κ) (t : String) : DeletionLabel ι κ → Prop
  | .others label => (ThreadsLabel.runs label).Fills d.system t
  | _ => False

/-- **The invariant** of all requests: where one has passed its check, no run of its thread has
begun since. -/
structure DeletingSystem.Orderly (config : HandlerConfig) (d : DeletingSystem ι κ) : Prop where
  kept : ∃ all, d.system.Kept all
  engaged : d.system.Engaged config
  suffix : ∀ k t rest, d.deletions k = some (t, rest) → rest <:+ deletionStatements
  idle : ∀ k t, d.Awaits k t → ∀ run ∈ d.system.store.threadRuns t, ¬ run.status.IsBusy

/-- **The invariant** of one request: what its statements have deleted stays away. -/
structure DeletingSystem.Clears (config : HandlerConfig) (d : DeletingSystem ι κ) (k : κ)
    (t : String) (rest : List DeletionStatement) : Prop where
  deletion : d.deletions k = some (t, rest)
  suffix : rest <:+ deletionStatements
  orderly : .deleteManyRuns ∈ rest → d.Orderly config
  gone : .deleteManyRuns ∉ rest → d.system.Gone config t
  done : ∀ statement, statement ∉ rest → statement.Done (d.system.store.rowsOf t)

variable {config : HandlerConfig} {d d' : DeletingSystem ι κ} {sys : System ι}
variable {label : DeletionLabel ι κ} {statement : DeletionStatement} {k : κ} {t u : String}
variable {rest : List DeletionStatement}

/-! ### Steps of all requests -/

omit [DecidableEq ι] in
/-- What a request still has to do changes by its own steps. -/
theorem deletions_update {deletions : κ → Option (String × List DeletionStatement)} {j : κ}
    {rest' : List DeletionStatement}
    (h : Function.update deletions k (some (t, rest)) j = some (u, rest')) :
    (j = k ∧ u = t ∧ rest' = rest) ∨ (j ≠ k ∧ deletions j = some (u, rest')) := by
  by_cases hjk : j = k
  · subst hjk
    rw [Function.update_self] at h
    cases h
    exact .inl ⟨rfl, rfl, rfl⟩
  · rw [Function.update_of_ne hjk] at h
    exact .inr ⟨hjk, h⟩

omit [DecidableEq ι] [DecidableEq κ] in
theorem orderly_of_initial (h : d.Initial) : d.Orderly config where
  kept := ⟨_, kept_of_initial h.system⟩
  engaged := engaged_of_initial h.system
  suffix k t rest hk := by
    rw [h.deletions k] at hk
    cases hk
  idle k t hawaits := by
    obtain ⟨rest, hk, -⟩ := hawaits
    rw [h.deletions k] at hk
    cases hk

omit [DecidableEq κ] in
/-- A step of another party. -/
theorem orderly_others {label : Label ι} (h : d.Orderly config)
    (hlabel : (DeletionLabel.others label).Spares d)
    (hstep : d.system.step config label = some sys) :
    DeletingSystem.Orderly config { d with system := sys } := by
  obtain ⟨hspares, hcounts, hsets⟩ := hlabel
  obtain ⟨all, hkept⟩ := h.kept
  have hsets : ¬ (ThreadsLabel.runs label).SetsStatus := hsets
  have hstep : d.system.stepThreads config (.runs label) = some sys := hstep
  refine ⟨kept_step hkept hcounts hsets hstep, engaged_step hkept h.engaged hsets hstep, h.suffix,
    fun k t hawaits => ?_⟩
  have hrows := rowsOf_step hkept.keepsTo (hspares k t hawaits) hstep
  have hthreadRuns : sys.store.threadRuns t = d.system.store.threadRuns t :=
    congrArg ThreadRows.runs hrows
  show ∀ run ∈ sys.store.threadRuns t, _
  rw [hthreadRuns]
  exact h.idle k t hawaits

omit [DecidableEq ι] in
/-- A request passes its check. -/
theorem orderly_check (h : d.Orderly config)
    (hidle : ∀ run ∈ d.system.store.threadRuns t, ¬ run.status.IsBusy) :
    DeletingSystem.Orderly config
      { d with deletions := Function.update d.deletions k (some (t, deletionStatements)) } where
  kept := h.kept
  engaged := h.engaged
  suffix j u rest hj := by
    rcases deletions_update hj with ⟨rfl, rfl, rfl⟩ | ⟨-, hj⟩
    · exact List.suffix_rfl
    · exact h.suffix j u rest hj
  idle j u hawaits := by
    obtain ⟨rest, hj, hruns⟩ := hawaits
    rcases deletions_update hj with ⟨rfl, rfl, rfl⟩ | ⟨-, hj⟩
    · exact hidle
    · exact h.idle j u ⟨rest, hj, hruns⟩

omit [DecidableEq ι] [DecidableEq κ] in
/-- The statements take nothing from a run that is worked on. -/
theorem engaged_exec (h : d.Orderly config)
    (hnext : d.deletions k = some (u, statement :: rest)) :
    System.Engaged config { d.system with store := (statement.exec u d.system.store).2 } := by
  refine engaged_of_busy h.engaged rfl fun run hbusy => runIs_exec hbusy fun hfirst hthread => ?_
  obtain ⟨stored, hmem, hstatus⟩ := busy_of_runIs hbusy
  have hawaits : d.Awaits k u := ⟨_, hnext, hfirst ▸ List.mem_cons_self⟩
  exact h.idle k u hawaits stored (hthread ▸ hmem) hstatus

omit [DecidableEq ι] in
/-- A request takes its next statement. -/
theorem orderly_statement (h : d.Orderly config)
    (hnext : d.deletions k = some (u, statement :: rest)) :
    DeletingSystem.Orderly config
      { system := { d.system with store := (statement.exec u d.system.store).2 }
        deletions := Function.update d.deletions k (some (u, rest)) } where
  kept := by
    obtain ⟨all, hkept⟩ := h.kept
    exact ⟨all, kept_of_stored hkept countsOn_statement (fun _ => mem_runs_exec) queue_exec rfl⟩
  engaged := engaged_exec h hnext
  suffix j t rest' hj := by
    rcases deletions_update hj with ⟨rfl, rfl, rfl⟩ | ⟨-, hj⟩
    · exact (List.suffix_cons statement rest').trans (h.suffix j t _ hnext)
    · exact h.suffix j t rest' hj
  idle j t hawaits run hrun := by
    obtain ⟨rest', hj, hruns⟩ := hawaits
    rcases deletions_update hj with ⟨rfl, rfl, rfl⟩ | ⟨-, hj⟩
    · -- the request has its first statement behind it
      exact absurd hruns (not_mem_of_suffix (h.suffix j t _ hnext))
    · exact h.idle j t ⟨rest', hj, hruns⟩ run (mem_threadRuns_exec hrun)

/-- **Step lemma.** -/
theorem orderly_step (h : d.Orderly config) (hlabel : label.Spares d)
    (hstep : d.step config label = some d') : d'.Orderly config := by
  cases label with
  | others label =>
      obtain ⟨sys, hsys, rfl⟩ := Option.map_eq_some_iff.mp hstep
      exact orderly_others h hlabel hsys
  | check k t =>
      simp only [DeletingSystem.step] at hstep
      split at hstep
      · rename_i hnone hcheck
        obtain rfl := Option.some.inj hstep
        rcases checkDeletion_cases t d.system.store with ⟨e, he⟩ | ⟨hidle, -⟩
        · rw [he] at hcheck
          cases hcheck
        · exact orderly_check h hidle
      · cases hstep
  | statement k =>
      simp only [DeletingSystem.step] at hstep
      split at hstep
      · rename_i u statement rest hnext
        obtain rfl := Option.some.inj hstep
        exact orderly_statement h hnext
      · cases hstep

/-! ### Steps beside one request -/

omit [DecidableEq κ] in
/-- A step of another party. -/
theorem clears_others {label : Label ι} (h : d.Clears config k t rest)
    (hfills : ¬ (DeletionLabel.others label).Fills d t)
    (hlabel : d.Awaits k t → (DeletionLabel.others label).Spares d)
    (hstep : d.system.step config label = some sys) :
    DeletingSystem.Clears config { d with system := sys } k t rest := by
  have hthreads : d.system.stepThreads config (.runs label) = some sys := hstep
  by_cases hruns : .deleteManyRuns ∈ rest
  · have hawaits : d.Awaits k t := ⟨rest, h.deletion, hruns⟩
    have horderly := h.orderly hruns
    obtain ⟨all, hkept⟩ := horderly.kept
    have hrows := rowsOf_step hkept.keepsTo ((hlabel hawaits).1 k t hawaits) hthreads
    refine ⟨h.deletion, h.suffix, fun _ => orderly_others horderly (hlabel hawaits) hstep,
      fun hnot => absurd hruns hnot, fun statement hstatement => ?_⟩
    rw [hrows]
    exact h.done statement hstatement
  · have hgone := h.gone hruns
    refine ⟨h.deletion, h.suffix, fun hin => absurd hin hruns,
      fun _ => gone_step hgone hfills hthreads, fun statement hstatement => ?_⟩
    rcases rowsOf_step_of_gone hgone hfills hthreads with hsame | hempty
    · rw [hsame]
      exact h.done statement hstatement
    · rw [hempty]
      exact done_empty

omit [DecidableEq ι] [DecidableEq κ] in
/-- A statement, of whatever request, leaves a thread that is gone as it is. -/
theorem gone_exec (h : sys.Gone config t) :
    System.Gone config { sys with store := (statement.exec u sys.store).2 } t where
  sound := h.sound
  keepsTo := h.keepsTo
  runs := List.eq_nil_iff_forall_not_mem.mpr fun row hrow => by
    have hmem := mem_threadRuns_exec hrow
    rw [h.runs] at hmem
    cases hmem
  off := h.off

omit [DecidableEq ι] in
/-- The request takes its next statement. -/
theorem clears_statement (h : d.Clears config k t (statement :: rest)) :
    DeletingSystem.Clears config
      { system := { d.system with store := (statement.exec t d.system.store).2 }
        deletions := Function.update d.deletions k (some (t, rest)) } k t rest := by
  have hnot := not_mem_of_suffix h.suffix
  refine ⟨Function.update_self .., (List.suffix_cons statement rest).trans h.suffix,
    fun hin => absurd hin hnot, fun _ => ?_, fun other hother => ?_⟩
  · by_cases hfirst : statement = .deleteManyRuns
    · subst hfirst
      have horderly := h.orderly List.mem_cons_self
      obtain ⟨all, hkept⟩ := horderly.kept
      exact gone_of_idle hkept horderly.engaged
        (horderly.idle k t ⟨_, h.deletion, List.mem_cons_self⟩) (filter_delete_same _ _)
    · refine gone_exec (h.gone fun hin => ?_)
      exact (List.mem_cons.mp hin).elim (fun heq => hfirst heq.symm) hnot
  · by_cases hsame : other = statement
    · subst hsame
      exact done_exec
    · exact done_exec_other (h.done other fun hin => (List.mem_cons.mp hin).elim hsame hother)

omit [DecidableEq ι] in
/-- Another request takes its next statement. -/
theorem clears_statement_other {j : κ} {rest' : List DeletionStatement}
    (h : d.Clears config k t rest) (hne : k ≠ j)
    (hnext : d.deletions j = some (u, statement :: rest')) :
    DeletingSystem.Clears config
      { system := { d.system with store := (statement.exec u d.system.store).2 }
        deletions := Function.update d.deletions j (some (u, rest')) } k t rest where
  deletion := (Function.update_of_ne hne ..).trans h.deletion
  suffix := h.suffix
  orderly hin := orderly_statement (h.orderly hin) hnext
  gone hnot := gone_exec (h.gone hnot)
  done other hother := done_exec_other (h.done other hother)

/-- **Step lemma.** -/
theorem clears_step (h : ∃ rest, d.Clears config k t rest) (hfills : ¬ label.Fills d t)
    (hlabel : d.Awaits k t → label.Spares d) (hstep : d.step config label = some d') :
    ∃ rest, d'.Clears config k t rest := by
  obtain ⟨rest, h⟩ := h
  cases label with
  | others label =>
      obtain ⟨sys, hsys, rfl⟩ := Option.map_eq_some_iff.mp hstep
      exact ⟨rest, clears_others h hfills hlabel hsys⟩
  | check j u =>
      have hspares : (DeletionLabel.check j u : DeletionLabel ι κ).Spares d := trivial
      have horderly : .deleteManyRuns ∈ rest → d'.Orderly config := fun hin =>
        orderly_step (h.orderly hin) hspares hstep
      simp only [DeletingSystem.step] at hstep
      split at hstep
      · rename_i hnone hcheck
        obtain rfl := Option.some.inj hstep
        -- the request itself is past its check
        have hne : k ≠ j := by
          rintro rfl
          rw [h.deletion] at hnone
          cases hnone
        exact ⟨rest, (Function.update_of_ne hne ..).trans h.deletion, h.suffix, horderly, h.gone,
          h.done⟩
      · cases hstep
  | statement j =>
      simp only [DeletingSystem.step] at hstep
      split at hstep
      · rename_i u statement rest' hnext
        obtain rfl := Option.some.inj hstep
        by_cases hkj : k = j
        · subst hkj
          obtain ⟨rfl, rfl⟩ := Prod.mk.inj (Option.some.inj (h.deletion.symm.trans hnext))
          exact ⟨rest', clears_statement h⟩
        · exact ⟨rest, clears_statement_other h hkj hnext⟩
      · cases hstep

/-- **Deletions in statements are as good as one step, behind the first statement.**  Where nothing
concerns a thread between the check of a deletion and the deletion of its runs, and nothing fills
the thread until the statements of the request are through, the store holds nothing of the thread
then, and for as long as nothing fills it. -/
theorem statements_delete (config : HandlerConfig) {initial d₁ d₂ : DeletingSystem ι κ} {k : κ}
    {t : String} (hinitial : initial.Initial)
    (hreaches : Runs (DeletingSystem.step config) (fun d label => label.Spares d) initial d₁)
    (hchecked : d₁.deletions k = some (t, deletionStatements))
    (hlater : Runs (DeletingSystem.step config)
      (fun d label => ¬ label.Fills d t ∧ (d.Awaits k t → label.Spares d)) d₁ d₂)
    (hdone : d₂.deletions k = some (t, [])) :
    d₂.system.store.rowsOf t = ⟨[], [], []⟩ := by
  have horderly : d₁.Orderly config :=
    hreaches.invariant (fun _ _ _ h hlabel hstep => orderly_step h hlabel hstep)
      (orderly_of_initial hinitial)
  have hstart : d₁.Clears config k t deletionStatements :=
    { deletion := hchecked
      suffix := List.suffix_rfl
      orderly := fun _ => horderly
      gone := fun hnot => absurd List.mem_cons_self hnot
      done := fun statement hnot => by cases statement <;> simp [deletionStatements] at hnot }
  obtain ⟨rest, hclears⟩ : ∃ rest, d₂.Clears config k t rest :=
    hlater.invariant (I := fun d => ∃ rest, d.Clears config k t rest)
      (fun _ _ _ h hlabel hstep => clears_step h hlabel.1 hlabel.2 hstep) ⟨_, hstart⟩
  obtain ⟨-, rfl⟩ := Prod.mk.inj (Option.some.inj (hclears.deletion.symm.trans hdone))
  have hall : ∀ statement : DeletionStatement, statement.Done (d₂.system.store.rowsOf t) :=
    fun statement => hclears.done statement List.not_mem_nil
  exact ThreadRows.ext (hall .deleteManyRuns) (hall .deleteManyRunSteps) (hall .deleteManyMessages)

end Deleting

/-- Nobody deletes anything. -/
def noDeletions (sys : System Unit) : DeletingSystem Unit Bool :=
  { system := sys, deletions := fun _ => none }

/-- A run is asked for, and two requests that delete its thread pass their checks. -/
def asksAndChecks : List (DeletionLabel Unit Bool) :=
  [.others createQuestionRun, .check true "thread_1", .check false "thread_1"]

/-- Nobody has taken the run yet. -/
def checkedSystem : DeletingSystem Unit Bool :=
  (execute (DeletingSystem.step {}) asksAndChecks (noDeletions (oneThread questionStore))).getD
    (noDeletions (oneThread questionStore))

theorem runs_checkedSystem :
    Runs (DeletingSystem.step {}) (fun d label => label.Spares d)
      (noDeletions (oneThread questionStore)) checkedSystem := by
  have hchecks : ∀ d : DeletingSystem Unit Bool, ∀ label ∈
      [DeletionLabel.check true "thread_1", .check false "thread_1"], label.Spares d := by
    simp [DeletionLabel.Spares]
  refine .head ⟨.others createQuestionRun, ⟨?_, trivial, id⟩, rfl⟩ (runs_of_execute hchecks rfl)
  rintro k t ⟨rest, hnone, -⟩
  cases hnone

/-- The thread of the scheduler takes the queued run, and begins it when one of the requests has
deleted it. -/
theorem statements_delete_queued :
    ∃ d₁ d₂ d, execute (DeletingSystem.step {})
        [.others (.dequeue () 0), .statement true] checkedSystem = some d₁ ∧
      d₁.step {} (.others (.handler () {})) = some d₂ ∧
      execute (DeletingSystem.step {}) (.statement false :: List.replicate 3 (.statement true)) d₂
        = some d ∧
      d.system.store.rowsOf "thread_1" = ⟨[], [], []⟩ := by
  have hwindow : ∀ d : DeletingSystem Unit Bool, ∀ label ∈
      [DeletionLabel.others (.dequeue () 0), .statement true],
        ¬ label.Fills d "thread_1" ∧ (d.Awaits true "thread_1" → label.Spares d) := by
    simp [DeletionLabel.Fills, DeletionLabel.Spares, ThreadsLabel.CountsOn,
      ThreadsLabel.Concerns, ThreadsLabel.Fills, Label.SetsStatus]
  have hrest : ∀ d : DeletingSystem Unit Bool, ∀ label ∈
      DeletionLabel.statement false :: List.replicate 3 (DeletionLabel.statement true),
        ¬ label.Fills d "thread_1" ∧ (d.Awaits true "thread_1" → label.Spares d) := by
    simp [DeletionLabel.Fills, DeletionLabel.Spares]
  refine ⟨_, _, _, rfl, rfl, rfl, statements_delete {} (k := true)
    ⟨⟨rfl, rfl, fun _ => rfl⟩, fun _ => rfl⟩ runs_checkedSystem rfl ?_ rfl⟩
  -- the run is begun behind the first statement, where nothing is asked of the step
  refine (runs_of_execute hwindow rfl).trans (.head ⟨.others (.handler () {}), ⟨id, ?_⟩, rfl⟩
    (runs_of_execute hrest rfl))
  rintro ⟨rest, hk, hin⟩
  cases hk
  simp at hin

/-- A model that answers at once. -/
def answersSix : Outside :=
  { chatModel := fun _ _ _ => .ok { role := "assistant", content := "6" } }

/-- The run is begun before the runs are deleted, and goes on behind the last statement. -/
def beginsEarly : List (DeletionLabel Unit Bool) :=
  .others (.dequeue () 0) :: List.replicate 4 (.others (.handler () answersSix))
    ++ List.replicate 4 (.statement true) ++ List.replicate 9 (.others (.handler () answersSix))

/-- What is left of the deletion then. -/
def leftSystem : DeletingSystem Unit Bool :=
  (execute (DeletingSystem.step {}) beginsEarly checkedSystem).getD checkedSystem

/-- Between check and first statement a run can be begun, and its handler writes a step and a
message of the deleted thread. -/
theorem statements_leave_rows :
    execute (DeletingSystem.step {}) beginsEarly checkedSystem = some leftSystem ∧
      leftSystem.deletions true = some ("thread_1", []) ∧
      (leftSystem.system.store.rowsOf "thread_1").runSteps.length = 1 ∧
      (leftSystem.system.store.rowsOf "thread_1").messages.length = 1 :=
  ⟨rfl, rfl, by decide +kernel, by decide +kernel⟩

end Instinct
