/-
Instinct/Settle.lean

In which status `Handle` leaves its run.

`RunIs` says what the stored status of a run is, and each callback gets one lemma
that says which status it ensures: a continuation and an observation leave the
run `in_progress`, a pause and a finish settle it, and so does the error callback
(`onError_settles`).  `ThreadSettles` is the invariant of a thread that works
alone.  It needs that a pause finds a step to update: the step of the
continuation before it is stored (`Ready`).

What is left is the setup, in the next module.  It takes the run before it
checks anything, and its early returns and exceptions do not reach the error
callback.
-/
import Mathlib.Logic.Relation
import Instinct.Handler

namespace Instinct

open Effects

/-! ### The status of a run -/

/-- The run is stored, and its status satisfies `P`. -/
def Store.RunIs (s : Store) (run : RunObject) (P : RunObjectStatus → Prop) : Prop :=
  ∃ stored, s.run? run.threadId run.id = some stored ∧ P stored.status

/-- The statuses in which a run waits for nobody but its client. -/
def RunObjectStatus.Settled (status : RunObjectStatus) : Prop :=
  status = .requiresAction ∨ status.isTerminal = true

/-- The run has a step. -/
def Store.HasStep (s : Store) (run : RunObject) : Prop :=
  ∃ step, step ∈ s.stepsOf run.threadId run.id

section Statuses

variable {config : HandlerConfig} {s s' : Store} {run : RunObject}
variable {P Q : RunObjectStatus → Prop} {call : Call} {r : Except Exn call.Res}

theorem Store.RunIs.mono (h : s.RunIs run P) (hPQ : ∀ status, P status → Q status) :
    s.RunIs run Q := by
  obtain ⟨stored, hstored, hP⟩ := h
  exact ⟨stored, hstored, hPQ _ hP⟩

theorem Store.RunIs.of_runs_eq (h : s.RunIs run P) (hruns : s'.runs = s.runs) :
    s'.RunIs run P := by
  obtain ⟨stored, hstored, hP⟩ := h
  exact ⟨stored, (congrArg (fun runs => runs.find? (isRun run.threadId run.id)) hruns).trans
    hstored, hP⟩

theorem Store.RunIs.not_blank (h : s.RunIs run P) : isBlankString run.id = false := by
  obtain ⟨stored, hstored, -⟩ := h
  rw [← (Store.run?_some hstored).2]
  exact s.runs.valid stored (List.mem_of_find?_eq_some hstored)

/-- A status update of a run that is there. -/
theorem Store.RunIs.assignRun {req : ModifyRunRequest} (h : s.RunIs run P)
    (hthread : req.threadId = run.threadId) (hid : req.runId = run.id)
    (hstatus : req.status ≠ .unknownRunObjectStatus) :
    (s.assignRun req).RunIs run (· = req.status) := by
  obtain ⟨stored, hstored, -⟩ := h
  refine ⟨stored.assign req, ?_, if_neg hstatus⟩
  rw [Store.run?_assignRun, if_pos ⟨hthread.symm, hid.symm⟩, hstored]
  rfl

/-- Only a run update changes the status of a run. -/
theorem runIs_of_noUpdate (hcall : call.runUpdate? = none) (h : MayAnswer config call s r s')
    (hrun : s.RunIs run P) : s'.RunIs run P := by
  obtain ⟨outside, h⟩ := h
  refine hrun.of_runs_eq ?_
  have hkeeps := @exec_keeps config outside _ Store.runs (fun _ _ _ _ _ => rfl) call hcall s
  rwa [h] at hkeeps

/-- A run update throws and changes nothing, or it sets its status. -/
theorem modifyRun_sets {req : ModifyRunRequest} {r : Except Exn (Option RunObject)}
    (h : MayAnswer config (.modifyRun req) s r s') (hrun : s.RunIs run P)
    (hthread : req.threadId = run.threadId) (hid : req.runId = run.id)
    (hstatus : req.status ≠ .unknownRunObjectStatus) :
    (∃ e, r = .error e ∧ s' = s) ∨
      (∃ updated, r = .ok (some updated) ∧ s' = s.assignRun req ∧
        s'.RunIs run (· = req.status)) := by
  obtain ⟨outside, h⟩ := h
  have h : modifyRun req s = (r, s') := h
  rcases modifyRun_cases req s with ⟨e, he⟩ | ⟨stored, -, hok⟩
  · obtain ⟨rfl, rfl⟩ := Prod.mk.inj (h.symm.trans he)
    exact .inl ⟨e, rfl, rfl⟩
  · obtain ⟨rfl, rfl⟩ := Prod.mk.inj (h.symm.trans hok)
    exact .inr ⟨_, rfl, rfl, hrun.assignRun hthread hid hstatus⟩

/-- A run update that is only about the status goes through. -/
theorem modifyRun_succeeds {req : ModifyRunRequest} {r : Except Exn (Option RunObject)}
    (h : MayAnswer config (.modifyRun req) s r s') (hrun : s.RunIs run P)
    (hthread : req.threadId = run.threadId) (hid : req.runId = run.id)
    (hblank : isBlankString run.threadId = false) (haction : req.requiredAction = none)
    (hmetadata : req.metadata = none) : ∃ updated, r = .ok (some updated) := by
  obtain ⟨outside, h⟩ := h
  obtain ⟨stored, hstored, -⟩ := id hrun
  have hcheck := checkModifyRun_of (hthread ▸ hblank) (hid ▸ hrun.not_blank) haction hmetadata
  rw [← hthread, ← hid] at hstored
  have hok : modifyRun req s = (r, s') := h
  rw [modifyRun_eq hcheck hstored] at hok
  exact ⟨_, (Prod.mk.inj hok).1.symm⟩

/-- Updates of other runs, and to statuses in `P`, keep a run in `P`. -/
theorem runIs_of_writes (hcall : call.WritesRun run P)
    (hknown : ∀ status, P status → status ≠ .unknownRunObjectStatus)
    (h : MayAnswer config call s r s') (hrun : s.RunIs run P) : s'.RunIs run P := by
  cases call with
  | modifyRun req =>
      obtain ⟨hthread, hid, hstatus⟩ := hcall req rfl
      rcases modifyRun_sets h hrun hthread hid (hknown _ hstatus) with
        ⟨e, rfl, rfl⟩ | ⟨updated, rfl, -, hset⟩
      · exact hrun
      · exact hset.mono fun status hs => hs ▸ hstatus
  | _ => exact runIs_of_noUpdate rfl h hrun

/-- No call removes a run. -/
theorem runIs_true (h : MayAnswer config call s r s') (hrun : s.RunIs run fun _ => True) :
    s'.RunIs run fun _ => True := by
  cases call with
  | modifyRun req =>
      obtain ⟨outside, h⟩ := h
      have h : modifyRun req s = (r, s') := h
      rcases modifyRun_cases req s with ⟨e, he⟩ | ⟨stored, -, hok⟩
      · obtain ⟨rfl, rfl⟩ := Prod.mk.inj (h.symm.trans he)
        exact hrun
      · obtain ⟨rfl, rfl⟩ := Prod.mk.inj (h.symm.trans hok)
        obtain ⟨own, hown, -⟩ := hrun
        unfold Store.RunIs
        rw [Store.run?_assignRun, hown]
        -- the row may have been rewritten, but a row of the run is still found
        split
        · exact ⟨_, rfl, trivial⟩
        · exact ⟨_, rfl, trivial⟩
  | _ => exact runIs_of_noUpdate rfl h hrun

/-- No call removes a step. -/
theorem hasStep_of_answer (h : MayAnswer config call s r s') (hstep : s.HasStep run) :
    s'.HasStep run := by
  obtain ⟨outside, h⟩ := h
  obtain ⟨step, hmem⟩ := hstep
  obtain ⟨hrow, hof⟩ := List.mem_filter.mp hmem
  have hextra := @exec_runSteps config outside call
  cases call with
  | modifyRunStep req =>
      have h : modifyRunStep req s = (r, s') := h
      rcases modifyRunStep_cases req s with hsame | hassign
      · rw [h] at hsame
        obtain rfl : s' = s := hsame
        exact ⟨step, hmem⟩
      · rw [h] at hassign
        obtain rfl : s' = s.assignRunStep req := hassign
        -- an updated step keeps its thread and its run
        refine ⟨_, List.mem_filter.mpr ⟨List.mem_map_of_mem hrow, ?_⟩⟩
        split
        · exact hof
        · exact hof
  | _ =>
      obtain ⟨extra, hrows⟩ := hextra rfl s
      rw [h] at hrows
      exact ⟨step, List.mem_filter.mpr ⟨hrows ▸ List.mem_append_left _ hrow, hof⟩⟩

end Statuses

/-! ### What the callbacks ensure -/

section Callbacks

variable {config : HandlerConfig} {s s' : Store} {run : RunObject}
variable {P : RunObjectStatus → Prop} {α : Type}

/-- A program that updates the run to statuses in `P` only, if at all, keeps it in `P`. -/
theorem runIs_wp {p : HandlerM α} (hp : p.Calls (Call.WritesRun run P))
    (hknown : ∀ status, P status → status ≠ .unknownRunObjectStatus) (hrun : s.RunIs run P) :
    p.wp (MayAnswer config) (fun _ s' => s'.RunIs run P) s :=
  Program.wp_invariant hp (fun _ _ _ _ hcall h hinv => runIs_of_writes hcall hknown h hinv) hrun

/-- No program removes a run or a step. -/
theorem stored_wp (p : HandlerM α) (hrun : s.RunIs run fun _ => True) :
    p.wp (MayAnswer config)
      (fun _ s' => s'.RunIs run (fun _ => True) ∧ (s.HasStep run → s'.HasStep run)) s := by
  refine Program.wp_invariant (P := fun _ => True) (Program.calls_true p)
    (fun _ _ _ _ _ h hinv => ?_) ⟨hrun, id⟩
  exact ⟨runIs_true h hinv.1, fun hstep => hasStep_of_answer h (hinv.2 hstep)⟩

/-- A step stays as it is while no step is updated. -/
theorem mem_stepsOf_wp {p : HandlerM α} (hp : p.Calls Call.KeepsSteps) {step : RunStepObject}
    (hstep : step ∈ s.stepsOf run.threadId run.id) :
    p.wp (MayAnswer config) (fun _ s' => step ∈ s'.stepsOf run.threadId run.id) s := by
  refine Program.wp_invariant hp (fun call s r s' hcall h hmem => ?_) hstep
  obtain ⟨outside, h⟩ := h
  obtain ⟨extra, hrows⟩ := @exec_runSteps config outside call hcall s
  rw [h] at hrows
  obtain ⟨hrow, hof⟩ := List.mem_filter.mp hmem
  exact List.mem_filter.mpr ⟨hrows ▸ List.mem_append_left _ hrow, hof⟩

theorem lastOfPage_isSome (hstep : s.HasStep run) :
    ∃ last, s.lastOfPage run = some last ∧ last ∈ s.stepsOf run.threadId run.id := by
  obtain ⟨step, hmem⟩ := hstep
  have hne : (Paging.arrange (·.createdAt) true (s.stepsOf run.threadId run.id)).take 20 ≠ [] := by
    intro hnil
    have hempty := (List.take_eq_nil_iff.mp hnil).resolve_left (by decide)
    have hin :=
      (@Paging.mem_arrange _ (fun step : RunStepObject => step.createdAt) true _ _).mpr hmem
    rw [hempty] at hin
    simp at hin
  obtain ⟨last, hlast⟩ := Option.isSome_iff_exists.mp (List.getLast?_isSome.mpr hne)
  exact ⟨last, hlast, mem_of_lastOfPage hlast⟩

theorem retrieveLastRunStep_wp (hthread : isBlankString run.threadId = false)
    (hid : isBlankString run.id = false) (s : Store) :
    (retrieveLastRunStep run).wp (MayAnswer config)
      (fun r s' => r = .ok (s.lastOfPage run) ∧ s' = s) s :=
  wp_of_run {} (Program.calls_bind ((Program.calls_perform _).mpr trivial) fun _ => trivial)
    (retrieveLastRunStep_run hthread hid s) ⟨rfl, rfl⟩

/-- The update of a step that is there goes through. -/
theorem modifyRunStep_succeeds {request : RunStepObject → ModifyRunStepRequest}
    (hrequest : Targets request run) (hthread : isBlankString run.threadId = false)
    (hid : isBlankString run.id = false) {step : RunStepObject}
    (hstep : step ∈ s.stepsOf run.threadId run.id) {r : Except Exn (Option RunStepObject)}
    (h : MayAnswer config (.modifyRunStep (request step)) s r s') :
    (∃ updated, r = .ok (some updated)) ∧ s'.runs = s.runs := by
  obtain ⟨outside, h⟩ := h
  have h : modifyRunStep (request step) s = (r, s') := h
  obtain ⟨hreqThread, hreqRun, hreqStep⟩ := hrequest step
  have hfound : s.runStep? (request step).threadId (request step).runId (request step).stepId
      = some step := by
    rw [hreqThread, hreqRun, hreqStep]
    exact Store.runStep?_of_mem hstep
  rw [modifyRunStep_eq (hreqThread ▸ hthread) (hreqRun ▸ hid)
    (hreqStep ▸ s.runSteps.valid step (List.mem_of_mem_filter hstep)) hfound] at h
  obtain ⟨rfl, rfl⟩ := Prod.mk.inj h
  exact ⟨⟨_, rfl⟩, rfl⟩

/-- A continuation with tool calls leaves a step. -/
theorem onAgentContinuation_stores (continuation : AgentContinuation) (s : Store) :
    (onAgentContinuation continuation run).Ensures (MayAnswer config)
      (fun _ s' => 0 < (continuation.toolCallMessage.getD {}).toolCalls.length →
        s'.HasStep run) s := by
  refine Program.ensures_bind (continuationMessage_true _ s) fun done s₁ hdone => ?_
  subst hdone
  rw [if_pos rfl]
  -- the step of the tool calls is stored before the run is updated
  have hstored : (continuationToolCalls continuation (continuation.toolCallMessage.getD {})
      run).Ensures (MayAnswer config)
      (fun _ s' => 0 < (continuation.toolCallMessage.getD {}).toolCalls.length →
        s'.HasStep run) s₁ := by
    unfold continuationToolCalls
    split
    · refine Program.ensures_perform_bind fun step? s₂ hstep => Program.ensures_ret fun _ => ?_
      obtain ⟨outside, hstep⟩ := hstep
      have hstep : createRunStep _ s₁ = _ := hstep
      have hcases := createRunStep_cases
        (continuationStep continuation (continuation.toolCallMessage.getD {}) run) s₁
      rw [hstep] at hcases
      rcases hcases with ⟨e, he, -⟩ | ⟨id, -, -, -, hrows⟩
      · simp at he
      · refine ⟨_, List.mem_filter.mpr ⟨hrows ▸ List.mem_append_right _ List.mem_cons_self, ?_⟩⟩
        exact isStepOf_eq_true.mpr ⟨rfl, rfl⟩
    · rename_i hnone
      exact Program.ensures_ret fun hcalls => absurd hcalls hnone
  refine Program.ensures_bind hstored fun stepDone s₂ hstep => ?_
  split
  · refine Program.ensures_perform_bind fun updated? s₃ hupdate => ?_
    refine Program.ensures_ret fun hcalls => ?_
    exact hasStep_of_answer hupdate (hstep hcalls)
  · exact Program.ensures_ret hstep

/-- A pause of a run that has a step makes it wait for outputs. -/
theorem onAgentPause_settles (pause : AgentPause) (hthread : isBlankString run.threadId = false)
    (hrun : s.RunIs run P) (hstep : s.HasStep run) :
    (onAgentPause pause run).Ensures (MayAnswer config)
      (fun _ s' => s'.RunIs run (· = .requiresAction)) s := by
  obtain ⟨last, hlast, hmem⟩ := lastOfPage_isSome hstep
  -- the last step exists, so the pause finds one to update
  have hread : (retrieveLastRunStep run).Ensures (MayAnswer config)
      (fun last? s' => last? = some last ∧ s' = s) s :=
    Program.wp_mono (retrieveLastRunStep_wp hthread hrun.not_blank s) fun r s' ⟨hr, hs⟩ a ha =>
      ⟨(Except.ok.inj (hr.symm.trans ha)).symm.trans hlast, hs⟩
  refine Program.ensures_bind hread fun last? s₁ h => ?_
  obtain ⟨rfl, rfl⟩ := h
  refine Program.ensures_perform_bind fun updated? s₂ hupdate => ?_
  obtain ⟨⟨updated, hupdated⟩, hruns⟩ := modifyRunStep_succeeds (pauseStepRequest_targets pause)
    hthread hrun.not_blank hmem hupdate
  obtain rfl : updated? = some updated := Except.ok.inj hupdated
  rw [Option.isSome_some, if_pos rfl]
  refine Program.ensures_perform_bind fun run? s₃ hset => Program.ensures_ret ?_
  rcases modifyRun_sets hset (hrun.of_runs_eq hruns) rfl rfl nofun with ⟨e, he, -⟩ | ⟨_, -, -, h⟩
  · simp at he
  · exact h

/-- The run update of a finish is only about the status and its time. -/
theorem finishRunRequest_bare (now : Nat) (finish : AgentFinish) :
    (finishRunRequest now finish run).requiredAction = none ∧
      (finishRunRequest now finish run).metadata = none := by
  unfold finishRunRequest
  split
  · exact ⟨rfl, rfl⟩
  split
  · exact ⟨rfl, rfl⟩
  split
  · exact ⟨rfl, rfl⟩
  · exact ⟨rfl, rfl⟩

/-- The end of a finish: the last step and the run are updated. -/
theorem finishUpdates_wp (now : Nat) (finish : AgentFinish)
    (hthread : isBlankString run.threadId = false) (hrun : s.RunIs run P)
    {last? : Option RunStepObject}
    (hlast : ∀ last, last? = some last → last ∈ s.stepsOf run.threadId run.id) :
    ((finishLastStep now finish run last?).bind fun stepDone =>
      if stepDone then do
        let _ ← perform (.modifyRun (finishRunRequest now finish run))
        pure ()
      else pure ()).wp (MayAnswer config)
        (fun r s' => r = .ok () ∧ s'.RunIs run (·.isTerminal = true)) s := by
  obtain ⟨hreqThread, hreqRun⟩ := @finishRunRequest_names run now finish
  have hterminal := @finishRunRequest_terminal run now finish
  have hknown : (finishRunRequest now finish run).status ≠ .unknownRunObjectStatus := by
    intro hunknown
    rw [hunknown] at hterminal
    simp [RunObjectStatus.isTerminal] at hterminal
  -- with or without a last step, the update of the run comes last
  have hset : ∀ s₁ : Store, s₁.RunIs run P →
      ((perform (.modifyRun (finishRunRequest now finish run))).bind fun _ => .ret ()).wp
        (MayAnswer config) (fun r s' => r = .ok () ∧ s'.RunIs run (·.isTerminal = true)) s₁ := by
    intro s₁ hrun₁
    refine Program.wp_perform_bind.mpr fun r s₂ hr => ?_
    obtain ⟨updated, rfl⟩ := modifyRun_succeeds hr hrun₁ hreqThread hreqRun hthread
      (finishRunRequest_bare now finish).1 (finishRunRequest_bare now finish).2
    rcases modifyRun_sets hr hrun₁ hreqThread hreqRun hknown with ⟨e, he, -⟩ | ⟨_, -, -, h⟩
    · simp at he
    · exact ⟨rfl, h.mono fun status hs => hs ▸ hterminal⟩
  cases last? with
  | none => exact hset s hrun
  | some last =>
      simp only [finishLastStep, Program.bind_eq, Program.bind_assoc]
      refine Program.wp_perform_bind.mpr fun r s₁ hr => ?_
      obtain ⟨⟨updated, rfl⟩, hruns⟩ := modifyRunStep_succeeds
        (finishStepRequest_targets now finish) hthread hrun.not_blank (hlast last rfl) hr
      exact hset s₁ (hrun.of_runs_eq hruns)

/-- A finish that returns has ended the run. -/
theorem onAgentFinish_settles (now : Nat) (finish : AgentFinish)
    (results : List SearchToolResponseEntry) (hthread : isBlankString run.threadId = false)
    (hrun : s.RunIs run fun _ => True) :
    (onAgentFinish now finish run results).Ensures (MayAnswer config)
      (fun _ s' => s'.RunIs run (·.isTerminal = true)) s := by
  have hread : (retrieveLastRunStep run).Ensures (MayAnswer config)
      (fun last? s' => last? = s.lastOfPage run ∧ s' = s) s :=
    Program.wp_mono (retrieveLastRunStep_wp hthread hrun.not_blank s) fun r s' ⟨hr, hs⟩ a ha =>
      ⟨(Except.ok.inj (hr.symm.trans ha)).symm, hs⟩
  refine Program.ensures_bind hread fun last? s₁ h => ?_
  obtain ⟨rfl, rfl⟩ := h
  -- the message leaves the run and its last step alone
  have hquiet := finishMessage_quiet finish run results
  have hmessage : (finishMessage finish run results).Ensures (MayAnswer config)
      (fun done s' => done = true ∧ s'.RunIs run (fun _ => True) ∧
        ∀ last, s₁.lastOfPage run = some last → last ∈ s'.stepsOf run.threadId run.id) s₁ := by
    have hsteps : (finishMessage finish run results).wp (MayAnswer config) (fun _ s' =>
        ∀ last, s₁.lastOfPage run = some last → last ∈ s'.stepsOf run.threadId run.id) s₁ := by
      cases hlast : s₁.lastOfPage run with
      | none =>
          refine Program.wp_mono (stored_wp _ hrun) fun _ _ _ last hlast' => ?_
          simp at hlast'
      | some last =>
          refine Program.wp_mono (mem_stepsOf_wp (keepsSteps_of_quiet hquiet)
            (mem_of_lastOfPage hlast)) fun _ s' hmem last' hlast' => ?_
          exact Option.some.inj hlast' ▸ hmem
    refine Program.wp_mono (Program.wp_and (finishMessage_true finish results s₁)
      (Program.wp_and (stored_wp _ hrun) hsteps)) fun r s' h done hdone => ?_
    exact ⟨h.1 done hdone, h.2.1.1, h.2.2⟩
  refine Program.ensures_bind hmessage fun done s₂ h => ?_
  obtain ⟨rfl, hrun₂, hlast⟩ := h
  rw [if_pos rfl]
  exact Program.wp_mono (finishUpdates_wp now finish hthread hrun₂ hlast) fun r s' h _ _ => h.2

/-- **The error callback always ends the run.** -/
theorem onError_settles (e : Exn) (hthread : isBlankString run.threadId = false)
    (hrun : s.RunIs run fun _ => True) :
    (onError config run e).wp (MayAnswer config)
      (fun r s' => r = .ok () ∧ s'.RunIs run (·.isTerminal = true)) s := by
  refine Program.wp_bind.mpr (Program.wp_mono
    (retrieveLastRunStep_wp hthread hrun.not_blank s) fun r s' h => ?_)
  obtain ⟨rfl, rfl⟩ := h
  exact finishUpdates_wp _ _ hthread hrun fun last hlast => mem_of_lastOfPage hlast

end Callbacks

/-! ### A round of the stream -/

/-- If the state ends with a continuation with calls, then its step is stored. -/
def Ready (run : RunObject) (state : AgentState) (s : Store) : Prop :=
  ∀ message custom, state.previousSteps.getLast?
      = some (.thought (.continuation { toolCallMessage := some message, custom := custom })) →
    0 < message.toolCalls.length → s.HasStep run

/-- A state that the stream emits while its stop predicate does not fire. -/
structure Emitted (run : RunObject) (step : AgentStep) (state : AgentState) (s : Store) :
    Prop where
  last : state.previousSteps.getLast? = some step
  follows : (∃ continuation, step = .thought (.continuation continuation)) ∨
    (∃ message completed custom, step = .thought (.pause
      { toolCallMessage := some message, completed := completed, custom := custom }) ∧
        s.HasStep run) ∨
    (∃ finish, step = .thought (.finish finish)) ∨
    (∃ observation, step = .observation observation)

section Rounds

variable {config : HandlerConfig} {session : Session} {state : AgentState} {s : Store}

theorem not_unknown_of_inProgress (status : RunObjectStatus) (h : status = .inProgress) :
    status ≠ .unknownRunObjectStatus := by
  rw [h]
  simp

/-- The stop predicate does not fire while the run is in progress. -/
theorem checkRunObjectForExecution_passes {run : RunObject} {agentStep : AgentStep}
    (hrun : s.RunIs run (· = .inProgress)) :
    (checkRunObjectForExecution run.threadId run.id agentStep).Ensures (MayAnswer config)
      (fun next s' => next.1 = false ∧ s' = s) s := by
  obtain ⟨stored, hstored, hstatus⟩ := hrun
  refine Program.ensures_perform_bind fun run? s' h => ?_
  obtain ⟨outside, h⟩ := h
  have h : retrieveRun { runId := run.id, threadId := run.threadId } s = (.ok run?, s') := h
  obtain rfl : s' = s := by
    have hkeeps := keeps_retrieveRun { runId := run.id, threadId := run.threadId } s
    rw [h] at hkeeps
    exact hkeeps
  -- both identifiers pass their checks, and the row read is the stored one
  obtain ⟨⟨⟩, s₁, hthread, h⟩ := Action.ok_of_bind h
  obtain ⟨⟨⟩, s₂, hid, h⟩ := Action.ok_of_bind h
  obtain ⟨-, rfl⟩ := Prod.mk.inj hthread
  obtain ⟨-, rfl⟩ := Prod.mk.inj hid
  obtain rfl : some stored = run? :=
    hstored.symm.trans (Except.ok.inj (Prod.mk.inj h).1)
  simp only [hstatus]
  exact Program.ensures_ret ⟨rfl, rfl⟩

/-- A round of the stream leaves the run in progress and emits a state. -/
theorem resolve_emits (hrun : s.RunIs session.run (· = .inProgress))
    (hready : Ready session.run state s) :
    (resolveNextStep session.kind session.parts state).wp (MayAnswer config)
      (fun r s' => s'.RunIs session.run (· = .inProgress) ∧
        ∀ next, r = .ok next → Emitted session.run next.1 next.2 s') s := by
  have hstatus := @runIs_wp config _ _ _ _ _ (writes_of_quiet (session.resolve_quiet state))
    not_unknown_of_inProgress hrun
  have hkept := @stored_wp config _ _ _ (resolveNextStep session.kind session.parts state)
    (hrun.mono fun _ _ => trivial)
  have hfollows : (resolveNextStep session.kind session.parts state).Ensures (MayAnswer config)
      (fun next _ => session.kind.Takes state next ∧
        CanFollow AgentThought.IsPlanned state next.1) s := by
    refine Program.ensures_bind (checkRunObjectForExecution_passes hrun) fun next s' h => ?_
    obtain ⟨stop, agentStep⟩ := next
    obtain ⟨rfl, -⟩ := h
    refine Program.wp_mono (Program.wp_returns (Program.ensures_true _ s')
      (step_takes session.kind (planner_returns session))) fun r s'' h => h.2
  refine Program.wp_mono (Program.wp_and hstatus (Program.wp_and hkept hfollows))
    fun r s' h => ⟨h.1, ?_⟩
  rintro ⟨step, state'⟩ rfl
  obtain ⟨-, ⟨-, hsteps⟩, hnext⟩ := h
  obtain ⟨htakes, hfollow⟩ := hnext _ rfl
  refine ⟨htakes.lasting.1, ?_⟩
  -- one case for each way the executor can answer the state
  cases hfollow with
  | @planned thought h =>
      cases thought with
      | continuation continuation => exact .inl ⟨_, rfl⟩
      | finish finish => exact .inr (.inr (.inl ⟨_, rfl⟩))
      | unset => exact h.elim
      | pause pause => exact h.elim
  | continued => exact .inl ⟨_, rfl⟩
  | @paused message custom pause hlast hcalls hpause =>
      obtain ⟨completed, toolCallMessage, pauseCustom⟩ := pause
      obtain rfl : toolCallMessage = some message := hpause
      exact .inr (.inl ⟨message, completed, pauseCustom, rfl,
        hsteps (hready message custom hlast hcalls)⟩)
  | observed => exact .inr (.inr (.inr ⟨_, rfl⟩))
  | joined => exact .inr (.inr (.inl ⟨_, rfl⟩))

/-- What the subscriber leaves: the next round is ready, or the run is settled. -/
def Notified (run : RunObject) (step : AgentStep) (state : AgentState) (s : Store) : Prop :=
  if step.goesOn then s.RunIs run (· = .inProgress) ∧ Ready run state s
  else s.RunIs run RunObjectStatus.Settled

/-- The subscriber acts on an emitted state. -/
theorem onNext_notifies {step : AgentStep} (locals : Locals)
    (hthread : isBlankString session.run.threadId = false)
    (hrun : s.RunIs session.run (· = .inProgress)) (h : Emitted session.run step state s) :
    (onNext config session locals state).Ensures (MayAnswer config)
      (fun _ s' => Notified session.run step state s') s := by
  obtain ⟨hlast, hfollows⟩ := h
  have hknown := not_unknown_of_inProgress
  rcases hfollows with ⟨⟨_ | message, custom⟩, rfl⟩ | ⟨message, completed, custom, rfl, hstep⟩ |
    ⟨finish, rfl⟩ | ⟨observation, rfl⟩
  · -- a continuation without a message: nothing is done
    simp only [onNext, hlast]
    refine Program.ensures_ret ⟨hrun, fun message custom' hcontinued => ?_⟩
    rw [hlast] at hcontinued
    simp at hcontinued
  · simp only [onNext, hlast]
    have hstatus := @runIs_wp config _ _ _ _ _ (@onAgentContinuation_writes session.run
      { toolCallMessage := some message, custom := custom }) hknown hrun
    refine Program.ensures_bind (Program.wp_mono (Program.wp_and hstatus
      (onAgentContinuation_stores { toolCallMessage := some message, custom := custom } s))
      fun r s' h a ha => And.intro h.1 (h.2 a ha)) fun _ s' h => Program.ensures_ret ⟨h.1, ?_⟩
    intro message' custom' hcontinued hcalls
    rw [hlast] at hcontinued
    simp only [Option.some.injEq, AgentStep.thought.injEq, AgentThought.continuation.injEq,
      AgentContinuation.mk.injEq] at hcontinued
    exact h.2 (hcontinued.1 ▸ hcalls)
  · simp only [onNext, hlast]
    exact Program.ensures_bind (onAgentPause_settles _ hthread hrun hstep) fun _ s' h =>
      Program.ensures_ret (h.mono fun _ hs => .inl hs)
  · simp only [onNext, hlast]
    exact Program.ensures_bind (onAgentFinish_settles _ _ _ hthread
      (hrun.mono fun _ _ => trivial)) fun _ s' h => Program.ensures_ret (h.mono fun _ => .inr)
  · have hready : Ready session.run state s := by
      intro message custom hcontinued
      rw [hlast] at hcontinued
      simp at hcontinued
    simp only [onNext, hlast]
    split
    · -- the local variables may throw; when they do not, the callback follows
      refine Program.ensures_bind (Program.wp_mono (runIs_wp (P := (· = .inProgress))
        (Program.calls_ofExcept _) hknown hrun) fun r s' h a _ => h) fun locals s₁ hrun₁ => ?_
      refine Program.ensures_bind (Program.wp_mono (runIs_wp
        (@onAgentObservation_writes session.run observation) hknown hrun₁)
        fun r s' h a _ => h) fun _ s₂ hrun₂ => Program.ensures_ret ⟨hrun₂, ?_⟩
      intro message custom hcontinued
      rw [hlast] at hcontinued
      simp at hcontinued
    · exact Program.ensures_ret ⟨hrun, hready⟩

end Rounds

/-! ### A thread that works alone -/

/-- What the setup has to come to: a session that is ready, or a settled run. -/
def SetUpDone (run : RunObject) : Except Exn (Option (Session × AgentState)) → Store → Prop
  | .ok (some (session, state)), s =>
      session.run = run ∧ s.RunIs run (· = .inProgress) ∧ Ready run state s
  | .error (.undefinedBehaviour _), _ => True
  | _, s => s.RunIs run RunObjectStatus.Settled

/-- The invariant of a thread that settles its run: what is left of its program leads there. -/
def ThreadSettles (config : HandlerConfig) (run : RunObject) : Thread → Store → Prop
  | .idle, s => s.RunIs run RunObjectStatus.Settled
  | .broken, _ => True
  | .setup _ p, s => p.wp (MayAnswer config) (SetUpDone run) s
  | .resolving session _ p, s => session.run = run ∧
      p.wp (MayAnswer config) (fun r s' => s'.RunIs run (· = .inProgress) ∧
        ∀ next, r = .ok next → Emitted run next.1 next.2 s') s
  | .notifying session step state p, s => session.run = run ∧
      p.wp (MayAnswer config) (fun r s' => s'.RunIs run (fun _ => True) ∧
        ∀ locals, r = .ok locals → Notified run step state s') s
  | .failing session p, s => session.run = run ∧
      p.wp (MayAnswer config) (fun _ s' => s'.RunIs run (·.isTerminal = true)) s

section Alone

variable {config : HandlerConfig} {outside : Outside} {run : RunObject} {s : Store}

theorem threadSettles_resolve {session : Session} {locals : Locals} {state : AgentState}
    (hsession : session.run = run) (hrun : s.RunIs run (· = .inProgress))
    (hready : Ready run state s) :
    ThreadSettles config run (.resolve session locals state) s := by
  subst hsession
  exact ⟨rfl, resolve_emits hrun hready⟩

theorem threadSettles_fail {session : Session} (e : Exn) (hsession : session.run = run)
    (hthread : isBlankString run.threadId = false) (hrun : s.RunIs run fun _ => True) :
    ThreadSettles config run (.fail config session e) s := by
  subst hsession
  have hfailing : ThreadSettles config session.run
      (.failing session (onError config session.run e)) s :=
    ⟨rfl, Program.wp_mono (onError_settles e hthread hrun) fun r s' h => h.2⟩
  cases e with
  | undefinedBehaviour place => trivial
  | _ => exact hfailing

theorem threadSettles_escape (e : Exn)
    (h : (∃ place, e = .undefinedBehaviour place) ∨ s.RunIs run RunObjectStatus.Settled) :
    ThreadSettles config run (.escape e) s := by
  rcases h with ⟨place, rfl⟩ | h
  · trivial
  · cases e with
    | undefinedBehaviour place => trivial
    | _ => exact h

/-- **Step lemma.**  A thread on its way to a settled run stays on it. -/
theorem threadSettles_next {thread : Thread} (hthread : isBlankString run.threadId = false)
    (h : ThreadSettles config run thread s) :
    ThreadSettles config run (thread.next config outside s).1
      (thread.next config outside s).2 := by
  cases thread with
  | idle => exact h
  | broken => trivial
  | setup run' p =>
      refine advance_wp (I := ThreadSettles config run) h (fun p' s' h' => h') ?_
      -- the setup throws, finds no state to work on, or starts the session
      rintro (e | _ | ⟨session, state⟩) hdone
      · refine threadSettles_escape e ?_
        cases e with
        | undefinedBehaviour place => exact .inl ⟨place, rfl⟩
        | _ => exact .inr hdone
      · exact hdone
      · exact threadSettles_resolve hdone.1 hdone.2.1 hdone.2.2
  | resolving session locals p =>
      obtain ⟨rfl, h⟩ := h
      refine advance_wp (I := ThreadSettles config session.run) h (fun p' s' h' => ⟨rfl, h'⟩) ?_
      rintro (e | ⟨step, state⟩) ⟨hrun, hemitted⟩
      · exact threadSettles_fail e rfl hthread (hrun.mono fun _ _ => trivial)
      · have hknown := hrun.mono fun _ _ => trivial
        refine ⟨rfl, Program.wp_mono (Program.wp_and (stored_wp _ hknown)
          (onNext_notifies locals hthread hrun (hemitted _ rfl))) fun r s' h => ⟨h.1.1, h.2⟩⟩
  | notifying session step state p =>
      obtain ⟨rfl, h⟩ := h
      refine advance_wp (I := ThreadSettles config session.run) h (fun p' s' h' => ⟨rfl, h'⟩) ?_
      rintro (e | locals) ⟨hrun, hnotified⟩
      · exact threadSettles_fail e rfl hthread hrun
      · have hnotified := hnotified locals rfl
        -- whether the loop goes on decides what the callback left behind
        unfold Notified at hnotified
        show ThreadSettles config session.run (if step.goesOn then _ else _) s
        split at hnotified
        · rw [if_pos ‹_›]
          exact threadSettles_resolve rfl hnotified.1 hnotified.2
        · rw [if_neg ‹_›]
          exact hnotified
  | failing session p =>
      obtain ⟨rfl, h⟩ := h
      refine advance_wp (I := ThreadSettles config session.run) h (fun p' s' h' => ⟨rfl, h'⟩) ?_
      rintro (e | _) hterminal
      · exact threadSettles_escape e (.inr (hterminal.mono fun _ => .inr))
      · exact hterminal.mono fun _ => .inr

/-- A step of a thread with the store to itself. -/
def WorksAlone (config : HandlerConfig) (before after : Thread × Store) : Prop :=
  ∃ outside, before.1.next config outside before.2 = after

/-- **Run lemma.**  A thread on its way to a settled run, that works alone, stays on it. -/
theorem threadSettles_run {before after : Thread × Store}
    (hthread : isBlankString run.threadId = false)
    (h : ThreadSettles config run before.1 before.2)
    (hrun : Relation.ReflTransGen (WorksAlone config) before after) :
    ThreadSettles config run after.1 after.2 := by
  induction hrun with
  | refl => exact h
  | tail _ hstep ih =>
      obtain ⟨outside, rfl⟩ := hstep
      exact threadSettles_next hthread ih

end Alone

end Instinct
