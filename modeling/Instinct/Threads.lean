/-
Instinct/Threads.lean

What a thread of the scheduler can do to the runs.

`Sound` says what is left of a thread's program: which updates of its run it can
still make, and that an update that settles the run is its last call.  It holds
from `Thread.handle` on (`sound_next`), whatever other parties do to the store
between two steps.

`Advances` says once what one step of a sound thread does.  A thread `Holds` its
run until it has settled it: every later result about several threads goes
through `Holds` and `Advances`, and does not look into the programs again.
-/
import Instinct.Settle

namespace Instinct

open Effects

/-! ### Runs of threads -/

/-- The program has returned. -/
def hasReturned {α : Type} : HandlerM α → Bool
  | .ret _ => true
  | _ => false

/-- The run that a thread works on. -/
def Thread.run? : Thread → Option RunObject
  | .setup run _ => some run
  | .resolving session _ _ => some session.run
  | .notifying session _ _ _ => some session.run
  | .failing session _ => some session.run
  | _ => none

/-- The thread makes no further call. -/
def Thread.isSpent : Thread → Bool
  | .setup _ _ => false
  | .resolving _ _ _ => false
  | .notifying _ step _ p => !step.goesOn && hasReturned p
  | .failing _ p => hasReturned p
  | _ => true

/-- The thread may still update the run of an id. -/
def Thread.Holds (thread : Thread) (id : String) : Prop :=
  thread.isSpent = false ∧ ∃ run, thread.run? = some run ∧ run.id = id

/-- A call that settles a run. -/
def Call.Settles (call : Call) : Prop :=
  ∃ req, call.runUpdate? = some req ∧ req.status.Settled

/-- The statuses that the subscriber may set after a step: it settles the run only where the
stream ends. -/
def AgentStep.Allows (step : AgentStep) (status : RunObjectStatus) : Prop :=
  status = .inProgress ∨ (step.goesOn = false ∧ status.Settled)

/-- A session that the setup returns executes the run it was set up for. -/
def SessionOf (run : RunObject) (result : Option (Session × AgentState)) : Prop :=
  ∀ session state, result = some (session, state) → session.run = run

/-- Where the stream goes on, the emitted state ends with the step just taken. -/
def EndsWithStep (next : AgentStep × AgentState) : Prop :=
  next.1.goesOn = true → next.2.previousSteps.getLast? = some next.1

/-- What is left of the programs of a thread. -/
def Thread.Sound : Thread → Prop
  | .setup run p => p.Calls (Call.WritesRun run (· = .inProgress)) ∧ p.Returns (SessionOf run)
  | .resolving _ _ p => p.Calls Call.Quiet ∧ p.Returns EndsWithStep
  | .notifying session step _ p =>
      p.Calls (Call.WritesRun session.run step.Allows) ∧ p.Final Call.Settles
  | .failing session p =>
      p.Calls (Call.WritesRun session.run (·.isTerminal = true)) ∧ p.Final Call.Settles
  | _ => True

section Sound

variable {config : HandlerConfig} {outside : Outside} {run : RunObject} {session : Session}
variable {s : Store} {thread : Thread}

theorem startSession_returns (assistant : AssistantObject) (toolkit : Toolkit)
    (state? : Option AgentState) :
    (startSession config run assistant toolkit state?).Returns (SessionOf run) := by
  cases state? with
  | none =>
      intro session state hnone
      simp at hnone
  | some state =>
      unfold startSession buildAgentExecutor
      rcases createAgentExecutor config with e | kind
      · trivial
      · rintro session state' ⟨⟩
        rfl

/-- The setup returns sessions of its run. -/
theorem setUp_returns : (setUp config run).Returns (SessionOf run) := by
  refine Program.returns_bind fun updated? => ?_
  cases updated? with
  | none =>
      intro session state hnone
      simp at hnone
  | some updated =>
      refine Program.returns_bind fun assistant? => Program.returns_bind fun _ => ?_
      refine Program.returns_bind fun thread? => Program.returns_bind fun _ => ?_
      refine Program.returns_bind fun toolkit => Program.returns_bind fun state? => ?_
      exact startSession_returns _ _ _

theorem checkRunObjectForExecution_stops (threadId runId : String) (step : AgentStep) :
    (checkRunObjectForExecution threadId runId step).Returns
      fun next => next.1 = true → next.2.goesOn = false := by
  refine (Program.returns_perform_bind _ _).mpr fun run? => ?_
  cases run? with
  | none => exact fun h => by simp at h
  | some run =>
      simp only []
      split
      · exact fun _ => rfl
      · split
        · exact fun _ => rfl
        · exact fun h => by simp at h

theorem resolve_returns (state : AgentState) :
    (resolveNextStep session.kind session.parts state).Returns EndsWithStep := by
  refine Program.returns_bind_of (checkRunObjectForExecution_stops _ _ _) ?_
  rintro ⟨stop, agentStep⟩ hstop
  cases stop with
  | true =>
      intro hgo
      rw [hstop rfl] at hgo
      simp at hgo
  | false =>
      exact Program.returns_mono (step_takes session.kind (planner_returns session))
        fun next h _ => h.1.lasting.1

theorem not_settled_inProgress : ¬ RunObjectStatus.Settled .inProgress := by
  rintro (h | h)
  · simp at h
  · simp [RunObjectStatus.isTerminal] at h

/-- A program that only sets runs to `in_progress` settles none. -/
theorem final_of_inProgress {α : Type} {p : HandlerM α}
    (h : p.Calls (Call.WritesRun run (· = .inProgress))) : p.Final Call.Settles := by
  refine Program.final_of_calls (Program.calls_mono h fun call hcall => ?_)
  rintro ⟨req, hreq, hsettled⟩
  rw [(hcall req hreq).2.2] at hsettled
  exact not_settled_inProgress hsettled

theorem final_of_updatesRun {α : Type} {p : HandlerM α} (h : p.Final Call.UpdatesRun) :
    p.Final Call.Settles :=
  Program.final_mono h fun call ⟨req, hreq, _⟩ => by simp [Call.UpdatesRun, hreq]

/-- A step that settles the run is not one after which the stream goes on. -/
theorem EndsWithStep.goesOn_eq_false {step : AgentStep} {state : AgentState}
    (hends : EndsWithStep (step, state)) {thought : AgentThought}
    (hlast : state.previousSteps.getLast? = some (.thought thought))
    (hnot : ∀ continuation, thought ≠ .continuation continuation) : step.goesOn = false := by
  cases hgo : step.goesOn with
  | false => rfl
  | true =>
      have hstep := (hends hgo).symm.trans hlast
      obtain rfl : step = .thought thought := Option.some.inj hstep
      cases thought with
      | continuation continuation => exact absurd rfl (hnot continuation)
      | _ => simp [AgentStep.goesOn] at hgo

/-- What the subscriber can do to the run, by the last step of the emitted state. -/
theorem onNext_sound (locals : Locals) {step : AgentStep} {state : AgentState}
    (hends : EndsWithStep (step, state)) :
    (onNext config session locals state).Calls (Call.WritesRun session.run step.Allows) ∧
      (onNext config session locals state).Final Call.Settles := by
  have hprogress : ∀ status : RunObjectStatus, status = .inProgress → step.Allows status :=
    fun _ => .inl
  unfold onNext
  split
  · exact ⟨trivial, trivial⟩
  · -- a continuation
    rename_i message custom hlast
    have hwrites := @onAgentContinuation_writes session.run
      { toolCallMessage := some message, custom := custom }
    have hcalls := Program.calls_bind (f := fun _ => .ret (locals.continued session message))
      hwrites fun _ => trivial
    exact ⟨Program.calls_mono hcalls fun call h req hreq =>
      ⟨(h req hreq).1, (h req hreq).2.1, hprogress _ (h req hreq).2.2⟩, final_of_inProgress hcalls⟩
  · -- a pause
    rename_i completed message custom hlast
    have hstop := hends.goesOn_eq_false hlast fun _ => nofun
    have hwrites := @onAgentPause_writes session.run
      { toolCallMessage := some message, completed := completed, custom := custom }
    refine ⟨Program.calls_bind (Program.calls_mono hwrites fun call h req hreq => ?_)
      fun _ => trivial, Program.final_map _ (final_of_updatesRun (onAgentPause_final _))⟩
    exact ⟨(h req hreq).1, (h req hreq).2.1, .inr ⟨hstop, .inl (h req hreq).2.2⟩⟩
  · -- a finish
    rename_i finish hlast
    have hstop := hends.goesOn_eq_false hlast fun _ => nofun
    refine ⟨Program.calls_bind (Program.calls_mono (onAgentFinish_writes _ _ _)
      fun call h req hreq => ?_) fun _ => trivial,
      Program.final_map _ (final_of_updatesRun (onAgentFinish_final _ _ _))⟩
    exact ⟨(h req hreq).1, (h req hreq).2.1, .inr ⟨hstop, .inr (h req hreq).2.2⟩⟩
  · -- an observation
    rename_i observation hlast
    split
    · have hcalls : (do
          let locals ← locals.observed config session observation.toolMessages
          onAgentObservation observation session.run
          pure locals : HandlerM Locals).Calls
            (Call.WritesRun session.run (· = .inProgress)) := by
        refine Program.calls_bind (Program.calls_ofExcept _) fun locals => ?_
        exact Program.calls_bind (onAgentObservation_writes observation) fun _ => trivial
      exact ⟨Program.calls_mono hcalls fun call h req hreq =>
        ⟨(h req hreq).1, (h req hreq).2.1, hprogress _ (h req hreq).2.2⟩,
        final_of_inProgress hcalls⟩
    · exact ⟨trivial, trivial⟩
  · exact ⟨trivial, trivial⟩

theorem sound_handle : (Thread.handle config run).Sound := by
  unfold Thread.handle
  split
  · exact ⟨setUp_writes config, setUp_returns⟩
  · trivial

theorem sound_resolve (session : Session) (locals : Locals) (state : AgentState) :
    (Thread.resolve session locals state).Sound :=
  ⟨session.resolve_quiet state, resolve_returns state⟩

theorem sound_fail (session : Session) (e : Exn) : (Thread.fail config session e).Sound := by
  have hfailing : (Thread.failing session (onError config session.run e)).Sound :=
    ⟨onAgentFinish_writes _ _ _, final_of_updatesRun (onAgentFinish_final _ _ _)⟩
  cases e with
  | undefinedBehaviour place => trivial
  | _ => exact hfailing

theorem sound_escape (e : Exn) : (Thread.escape e).Sound := by
  cases e <;> trivial

/-- **Step lemma.**  A sound thread stays sound. -/
theorem sound_next (h : thread.Sound) : (thread.next config outside s).1.Sound := by
  cases thread with
  | idle => trivial
  | broken => trivial
  | setup run p =>
      obtain ⟨hcalls, hreturns⟩ := h
      cases p with
      | call op k => exact ⟨hcalls.2 _, hreturns _⟩
      | raise e => exact sound_escape e
      | ret result =>
          rcases result with - | ⟨session, state⟩
          · trivial
          · exact sound_resolve session {} state
  | resolving session locals p =>
      obtain ⟨hcalls, hreturns⟩ := h
      cases p with
      | call op k => exact ⟨hcalls.2 _, hreturns _⟩
      | raise e => exact sound_fail session e
      | ret next => exact onNext_sound locals hreturns
  | notifying session step state p =>
      obtain ⟨hcalls, hfinal⟩ := h
      cases p with
      | call op k => exact ⟨hcalls.2 _, hfinal.2 _⟩
      | raise e => exact sound_fail session e
      | ret locals =>
          -- the callback has returned: the loop goes on from its locals, or the thread ends
          show (if step.goesOn then _ else _ : Thread).Sound
          split
          · exact sound_resolve session locals state
          · trivial
  | failing session p =>
      obtain ⟨hcalls, hfinal⟩ := h
      cases p with
      | call op k => exact ⟨hcalls.2 _, hfinal.2 _⟩
      | raise e => exact sound_escape e
      | ret _ => trivial

end Sound

/-! ### What a step of a thread does -/

/-- What one step of a thread does: it leaves the queue as it is, it keeps to the run of the
thread, and it makes at most one update of that run, after which the thread is spent if the
update settles the run. -/
structure Advances (thread next : Thread) (s s' : Store) : Prop where
  queue : s'.queue = s.queue
  run : ∀ run, next.run? = some run → thread.run? = some run
  spent : next.isSpent = false → thread.isSpent = false
  runs : s'.runs = s.runs ∨ ∃ run req, thread.run? = some run ∧ thread.isSpent = false ∧
    req.threadId = run.threadId ∧ req.runId = run.id ∧ s'.runs = (s.assignRun req).runs ∧
    (req.status = .inProgress ∨ req.status.Settled ∧ next.isSpent = true)

section Advances

variable {config : HandlerConfig} {outside : Outside} {s s' : Store} {thread next : Thread}

/-- A call leaves the runs as they are, or it is a run update that went through. -/
theorem exec_runs (call : Call) (s : Store) :
    (call.exec config outside s).2.runs = s.runs ∨
    ∃ req result, call.runUpdate? = some req ∧ (call.exec config outside s).1 = .ok result ∧
      (call.exec config outside s).2.runs = (s.assignRun req).runs := by
  have hkeeps := @exec_keeps config outside _ Store.runs (fun _ _ _ _ _ => rfl) call
  cases call with
  | modifyRun req =>
      rcases modifyRun_cases req s with ⟨e, h⟩ | ⟨run, -, h⟩
      · exact .inl (congrArg (fun r => r.2.runs) h)
      · exact .inr ⟨req, some (run.assign req), rfl, congrArg Prod.fst h,
          congrArg (fun r => r.2.runs) h⟩
  | _ => exact .inl (hkeeps rfl s)

theorem Advances.holds (h : Advances thread next s s') {id : String} (hnext : next.Holds id) :
    thread.Holds id := by
  obtain ⟨hspent, run, hrun, hid⟩ := hnext
  exact ⟨h.spent hspent, run, h.run run hrun, hid⟩

/-- A step that makes no call. -/
theorem advances_quiet (hrun : ∀ run, next.run? = some run → thread.run? = some run)
    (hspent : next.isSpent = false → thread.isSpent = false) : Advances thread next s s :=
  ⟨rfl, hrun, hspent, .inl rfl⟩

/-- A step that makes a call of the thread's program. -/
theorem advances_call {op : Call} {run : RunObject} {allowed : RunObjectStatus → Prop}
    (hrun : thread.run? = some run) (hspent : thread.isSpent = false)
    (hnext : next.run? = some run) (hwrites : op.WritesRun run allowed)
    (hallowed : ∀ status result, allowed status →
      (op.exec config outside s).1 = .ok result → op.runUpdate?.map (·.status) = some status →
      status = .inProgress ∨ status.Settled ∧ next.isSpent = true) :
    Advances thread next s (op.exec config outside s).2 where
  queue := exec_queue op s
  run run' hrun' := by rw [hrun, ← hnext, hrun']
  spent _ := hspent
  runs := by
    rcases @exec_runs config outside op s with hsame | ⟨req, result, hreq, hresult, hupdate⟩
    · exact .inl hsame
    · obtain ⟨hthread, hid, hstatus⟩ := hwrites req hreq
      exact .inr ⟨run, req, hrun, hspent, hthread, hid, hupdate,
        hallowed _ result hstatus hresult (by rw [hreq]; rfl)⟩

theorem run?_fail {session : Session} {e : Exn} {run : RunObject}
    (h : (Thread.fail config session e).run? = some run) : session.run = run := by
  cases e with
  | undefinedBehaviour place => simp [Thread.fail, Thread.run?] at h
  | _ => exact Option.some.inj h

theorem run?_escape (e : Exn) : (Thread.escape e).run? = none := by
  cases e <;> rfl

/-- An update that settles a run is the last call. -/
theorem hasReturned_of_settles {α : Type} {op : Call} {k : Except Exn op.Res → HandlerM α}
    (hfinal : Program.Final Call.Settles (.call op k)) {status : RunObjectStatus}
    (hstatus : status.Settled) (hreq : op.runUpdate?.map (·.status) = some status)
    {r : Except Exn op.Res} {result : op.Res} (hresult : r = .ok result) :
    hasReturned (k r) = true := by
  obtain ⟨req, hupdate, rfl⟩ := Option.map_eq_some_iff.mp hreq
  obtain ⟨b, hb⟩ := hfinal.1 ⟨req, hupdate, hstatus⟩ result
  rw [hresult, hb]
  rfl

/-- **What a step of a sound thread does.** -/
theorem next_advances (h : thread.Sound) :
    Advances thread (thread.next config outside s).1 s (thread.next config outside s).2 := by
  cases thread with
  | idle => exact advances_quiet (fun _ => id) id
  | broken => exact advances_quiet (fun _ => id) id
  | setup run p =>
      obtain ⟨hcalls, hreturns⟩ := h
      cases p with
      | call op k => exact advances_call rfl rfl rfl hcalls.1 fun _ _ h _ _ => .inl h
      | raise e =>
          refine advances_quiet (fun run' hrun' => ?_) fun _ => rfl
          rw [show (Thread.next config outside s (.setup run (.raise e))).1.run? = none
            from run?_escape e] at hrun'
          -- an exception that escapes leaves no run behind
          simp at hrun'
      | ret result =>
          rcases result with - | ⟨session, state⟩
          · exact advances_quiet (fun run' hrun' => by simp [Thread.next, advance,
              Thread.afterSetup, Thread.run?] at hrun') fun _ => rfl
          · obtain rfl : session.run = run := hreturns session state rfl
            exact advances_quiet (fun _ => id) fun _ => rfl
  | resolving session locals p =>
      obtain ⟨hcalls, -⟩ := h
      cases p with
      | call op k =>
          exact advances_call rfl rfl rfl (hcalls.1.writesRun session.run (· = .inProgress))
            fun _ _ h _ _ => .inl h
      | raise e =>
          exact advances_quiet (fun run' hrun' => congrArg some (run?_fail hrun')) fun _ => rfl
      | ret next => exact advances_quiet (fun _ => id) fun _ => rfl
  | notifying session step state p =>
      obtain ⟨hcalls, hfinal⟩ := h
      cases p with
      | call op k =>
          refine advances_call rfl (Bool.and_false _) rfl hcalls.1
            fun status result hallows hresult hreq => hallows.imp_right fun ⟨hgo, hsettled⟩ => ?_
          -- a settling write is the last one of a callback that ends the loop
          refine ⟨hsettled, ?_⟩
          show (!step.goesOn && hasReturned (k _)) = true
          rw [hgo, hasReturned_of_settles hfinal hsettled hreq hresult]
          rfl
      | raise e =>
          exact advances_quiet (fun run' hrun' => congrArg some (run?_fail hrun'))
            fun _ => Bool.and_false _
      | ret locals =>
          show Advances _ (if step.goesOn then _ else _ : Thread) s s
          by_cases hgo : step.goesOn = true
          · rw [if_pos hgo]
            exact advances_quiet (fun _ => id) fun _ => by
              simp [Thread.isSpent, hgo]
          · rw [if_neg hgo]
            exact advances_quiet (fun run' hrun' => by simp [Thread.run?] at hrun')
              fun hspent => by simp [Thread.isSpent] at hspent
  | failing session p =>
      obtain ⟨hcalls, hfinal⟩ := h
      cases p with
      | call op k =>
          refine advances_call rfl rfl rfl hcalls.1 fun status result hterminal hresult hreq => ?_
          exact .inr ⟨.inr hterminal,
            hasReturned_of_settles hfinal (.inr hterminal) hreq hresult⟩
      | raise e =>
          refine advances_quiet (fun run' hrun' => ?_) fun _ => rfl
          rw [show (Thread.next config outside s (.failing session (.raise e))).1.run? = none
            from run?_escape e] at hrun'
          simp at hrun'
      | ret _ =>
          exact advances_quiet (fun run' hrun' => by simp [Thread.next, advance,
            Thread.afterFailure, Thread.run?] at hrun')
            fun hspent => by simp [Thread.next, advance, Thread.afterFailure,
              Thread.isSpent] at hspent

end Advances

/-! ### Threads that close their run -/

/-- The call sets no run to a status other than a terminal one. -/
def Call.Ends (call : Call) : Prop :=
  ∀ req, call.runUpdate? = some req → req.status.isTerminal = true

/-- The stream ends with the step, and the subscriber can only end the run. -/
def EmitsEnd (config : HandlerConfig) (session : Session) (next : AgentStep × AgentState) : Prop :=
  next.1.goesOn = false ∧
    ∀ locals, (onNext config session locals next.2).Calls Call.Ends

/-- What is left of the thread can only end its run: it is done with it or in its error
callback, it hands over the last state of the stream, it can only come to such a state, or
it is in a setup that only reads and comes to nothing. -/
def Thread.Closing (config : HandlerConfig) : Thread → Prop
  | .setup _ p => p.Calls (fun call => ¬ call.UpdatesRun) ∧ p.Returns (· = none)
  | .resolving session _ p => p.Returns (EmitsEnd config session)
  | .notifying _ step _ p => step.goesOn = false ∧ p.Calls Call.Ends
  | _ => True

section Closing

variable {config : HandlerConfig} {outside : Outside} {s : Store} {thread : Thread}

theorem closing_fail (session : Session) (e : Exn) :
    (Thread.fail config session e).Closing config := by
  cases e <;> trivial

theorem closing_escape (e : Exn) : (Thread.escape e).Closing config := by
  cases e <;> trivial

/-- A closing thread stays one. -/
theorem closing_next (h : thread.Closing config) :
    (thread.next config outside s).1.Closing config := by
  cases thread with
  | idle => trivial
  | broken => trivial
  | setup run p =>
      obtain ⟨hcalls, hreturns⟩ := h
      cases p with
      | call op k => exact ⟨hcalls.2 _, hreturns _⟩
      | raise e => exact closing_escape e
      | ret result =>
          obtain rfl : result = none := hreturns
          trivial
  | resolving session locals p =>
      cases p with
      | call op k => exact h _
      | raise e => exact closing_fail session e
      | ret next => exact ⟨h.1, h.2 locals⟩
  | notifying session step state p =>
      obtain ⟨hgo, hcalls⟩ := h
      cases p with
      | call op k => exact ⟨hgo, hcalls.2 _⟩
      | raise e => exact closing_fail session e
      | ret locals =>
          show (if step.goesOn then _ else _ : Thread).Closing config
          -- a closing callback never goes back to the loop
          rw [if_neg (by simp [hgo])]
          trivial
  | failing session p =>
      cases p with
      | call op k => trivial
      | raise e => exact closing_escape e
      | ret _ => trivial

/-- A closing thread ends its run, if it updates it. -/
theorem closing_runs (hsound : thread.Sound) (h : thread.Closing config) :
    (thread.next config outside s).2.runs = s.runs ∨
    ∃ req, req.status.isTerminal = true ∧
      (thread.next config outside s).2.runs = (s.assignRun req).runs := by
  -- a call that ends the run writes a terminal status or does not write the run
  have hcall : ∀ op : Call, op.Ends → (op.exec config outside s).2.runs = s.runs ∨
      ∃ req : ModifyRunRequest, req.status.isTerminal = true ∧
        (op.exec config outside s).2.runs = (s.assignRun req).runs := by
    intro op hends
    rcases @exec_runs config outside op s with hsame | ⟨req, result, hreq, -, hupdate⟩
    · exact .inl hsame
    · exact .inr ⟨req, hends req hreq, hupdate⟩
  cases thread with
  | idle => exact .inl rfl
  | broken => exact .inl rfl
  | setup run p =>
      cases p with
      | call op k =>
          refine hcall op fun req hreq => absurd (fun hnone => ?_) h.1.1
          rw [hreq] at hnone
          simp at hnone
      | _ => exact .inl rfl
  | resolving session locals p =>
      cases p with
      | call op k => exact hcall op fun req hreq => by simp [hsound.1.1.1] at hreq
      | _ => exact .inl rfl
  | notifying session step state p =>
      cases p with
      | call op k => exact hcall op h.2.1
      | _ => exact .inl rfl
  | failing session p =>
      cases p with
      | call op k => exact hcall op fun req hreq => (hsound.1.1 req hreq).2.2
      | _ => exact .inl rfl

end Closing

end Instinct
