/-
Instinct/SearchEntries.lean

The search entries of a run: what the executions of the run observe, and what
they hand to `OnAgentFinish_`.

The entries that `Handle` has retrieved, and the ids of the calls that it waits
for, are local variables of one call of `Handle`.  A run that pauses is executed
by several calls.  To say what a whole run has observed, the system keeps a
record beside it: for each run, the steps that were handed to the subscriber so
far, by whichever thread (`RecordedSystem`).  The record is read by nobody.
`observedIn` goes over the steps of a run as one call of `Handle` would.

The invariant `Keeps` compares the two.  It holds from any step that starts a
call of `Handle` on a run without entries, so that the final answer gets all
entries if no call of `Handle` has to continue where another one has retrieved
entries (`finish_has_entries`).  A run that searches, pauses and is resumed
loses its entries (`finish_loses_entries`).
-/
import Instinct.System

namespace Instinct

open Effects Tables Transitions

/-! ### What a run has observed -/

/-- One step of a run is observed: a continuation asks for searches, an observation answers
them. -/
def observeStep (config : HandlerConfig) (seen : Locals) : AgentStep → Except Exn Locals
  | .thought (.continuation { toolCallMessage := some message, .. }) =>
      .ok { seen with lastFileSearchCallIds := fileSearchCallIds message }
  | .observation observation => do
      let entries ← searchEntries config seen.lastFileSearchCallIds observation.toolMessages
      pure { seen with retrievedEntries := seen.retrievedEntries ++ entries }
  | _ => .ok seen

/-- The steps of a run are observed, from the first on. -/
def observedIn (config : HandlerConfig) (steps : List AgentStep) : Except Exn Locals :=
  steps.foldlM (observeStep config) {}

/-- The steps of a run have these entries. -/
def HasEntries (config : HandlerConfig) (steps : List AgentStep)
    (entries : List SearchToolResponseEntry) : Prop :=
  (observedIn config steps).map (·.retrievedEntries) = .ok entries

instance (config : HandlerConfig) (steps : List AgentStep)
    (entries : List SearchToolResponseEntry) : Decidable (HasEntries config steps entries) :=
  inferInstanceAs (Decidable (_ = _))

/-! ### The system with its record -/

/-- What a thread hands to its subscriber in its next step. -/
def Thread.handing? : Thread → Option (Session × Locals × AgentState)
  | .resolving session locals (.ret (_, state)) => some (session, locals, state)
  | _ => none

/-- The entries of the final answer, and its run, where a thread hands a finish to its
subscriber. -/
def Thread.finishing? (thread : Thread) : Option (Session × List SearchToolResponseEntry) :=
  thread.handing?.bind fun (session, locals, state) =>
    match state.previousSteps.getLast? with
    | some (.thought (.finish _)) => some (session, locals.retrievedEntries)
    | _ => none

/-- The steps that the subscribers of each run were handed. -/
abbrev RunRecord : Type := String → List AgentStep

/-- The record after a step of a thread. -/
def RunRecord.after (record : RunRecord) (thread : Thread) : RunRecord :=
  match thread.handing? with
  | some (session, _, state) =>
      Function.update record session.run.id
        (record session.run.id ++ state.previousSteps.getLast?.toList)
  | none => record

/-- The system, and the record beside it. -/
structure RecordedSystem (ι : Type) where
  system : System ι
  record : RunRecord

section RecordedSystem

variable {ι : Type} [DecidableEq ι]

/-- The record after a step of the system. -/
def RecordedSystem.recordAfter (recorded : RecordedSystem ι) : Label ι → RunRecord
  | .handler j _ => recorded.record.after (recorded.system.pool j)
  | _ => recorded.record

/-- One step of the system is recorded. -/
def RecordedSystem.step (config : HandlerConfig) (recorded : RecordedSystem ι)
    (label : Label ι) : Option (RecordedSystem ι) :=
  (recorded.system.step config label).map fun system =>
    { system := system, record := recorded.recordAfter label }

end RecordedSystem

/-- At first nothing is recorded. -/
structure RecordedSystem.Initial {ι : Type} (recorded : RecordedSystem ι) : Prop where
  system : recorded.system.Initial
  record : ∀ id, recorded.record id = []

/-! ### When the local variables are enough -/

/-- An observation answers calls that this call of `Handle` waits for, or it finds nothing. -/
def AnswersOwnCalls (config : HandlerConfig) (seen : Except Exn Locals) (locals : Locals) :
    Option AgentStep → Prop
  | some (.observation observation) =>
      match seen with
      | .ok seen => seen.lastFileSearchCallIds = locals.lastFileSearchCallIds ∨
          searchEntries config seen.lastFileSearchCallIds observation.toolMessages = .ok []
      | .error _ => True
  | _ => True

/-- The thread does not continue where another call of `Handle` has retrieved entries. -/
def Thread.StartsFresh (config : HandlerConfig) (record : RunRecord) : Thread → Prop
  | .setup _ (.ret (some (session, _))) =>
      session.hasFileSearch = true → HasEntries config (record session.run.id) []
  | .resolving session locals (.ret (_, state)) =>
      session.hasFileSearch = true →
        AnswersOwnCalls config (observedIn config (record session.run.id)) locals
          state.previousSteps.getLast?
  | _ => True

instance (config : HandlerConfig) (seen : Except Exn Locals) (locals : Locals) :
    (step? : Option AgentStep) → Decidable (AnswersOwnCalls config seen locals step?)
  | some (.observation _) =>
      match seen with
      | .ok _ => inferInstanceAs (Decidable (_ ∨ _))
      | .error _ => .isTrue trivial
  | some (.thought _) => .isTrue trivial
  | some .unset => .isTrue trivial
  | none => .isTrue trivial

instance (config : HandlerConfig) (record : RunRecord) :
    (thread : Thread) → Decidable (thread.StartsFresh config record)
  | .setup _ (.ret (some (session, _))) =>
      inferInstanceAs (Decidable (session.hasFileSearch = true → HasEntries _ _ _))
  | .setup _ (.ret none) => .isTrue trivial
  | .setup _ (.raise _) => .isTrue trivial
  | .setup _ (.call _ _) => .isTrue trivial
  | .resolving session locals (.ret (_, state)) =>
      inferInstanceAs (Decidable (session.hasFileSearch = true →
        AnswersOwnCalls config (observedIn config (record session.run.id)) locals
          state.previousSteps.getLast?))
  | .resolving _ _ (.raise _) => .isTrue trivial
  | .resolving _ _ (.call _ _) => .isTrue trivial
  | .idle => .isTrue trivial
  | .broken => .isTrue trivial
  | .notifying .. => .isTrue trivial
  | .failing .. => .isTrue trivial

/-- The step starts fresh. -/
def RecordedSystem.StartsFresh {ι : Type} (config : HandlerConfig)
    (recorded : RecordedSystem ι) : Label ι → Prop
  | .handler j _ => (recorded.system.pool j).StartsFresh config recorded.record
  | _ => True

instance {ι : Type} (config : HandlerConfig) (recorded : RecordedSystem ι) :
    (label : Label ι) → Decidable (recorded.StartsFresh config label)
  | .handler j _ => inferInstanceAs (Decidable ((recorded.system.pool j).StartsFresh _ _))
  | .createRun _ => .isTrue trivial
  | .createThreadAndRun _ => .isTrue trivial
  | .submitToolOutputs _ => .isTrue trivial
  | .cancelRun _ => .isTrue trivial
  | .modifyRun _ => .isTrue trivial
  | .others _ => .isTrue trivial
  | .dequeue _ _ => .isTrue trivial

/-- A finish that the thread hands to its subscriber gets the entries that its run has
observed. -/
def Thread.FinishHasEntries (config : HandlerConfig) (record : RunRecord) (thread : Thread) :
    Prop :=
  match thread.finishing? with
  | some (session, entries) =>
      session.hasFileSearch = true → HasEntries config (record session.run.id) entries
  | none => True

instance (config : HandlerConfig) (record : RunRecord) (thread : Thread) :
    Decidable (thread.FinishHasEntries config record) :=
  match h : thread.finishing? with
  | some (session, entries) =>
      decidable_of_iff
        (session.hasFileSearch = true → HasEntries config (record session.run.id) entries)
        (by simp only [Thread.FinishHasEntries, h])
  | none => .isTrue (by simp only [Thread.FinishHasEntries, h])

section Observed

variable {config : HandlerConfig} {steps : List AgentStep} {session : Session}

/-- One more step. -/
theorem observedIn_append {seen : Locals} (h : observedIn config steps = .ok seen)
    (step : AgentStep) : observedIn config (steps ++ [step]) = observeStep config seen step := by
  unfold observedIn at h ⊢
  rw [List.foldlM_append, h]
  show List.foldlM (observeStep config) seen [step] = _
  rw [List.foldlM_cons]
  exact bind_pure _

theorem hasEntries_iff {entries : List SearchToolResponseEntry} :
    HasEntries config steps entries ↔
      ∃ seen, observedIn config steps = .ok seen ∧ seen.retrievedEntries = entries := by
  unfold HasEntries
  cases observedIn config steps with
  | error e => simp [Except.map]
  | ok seen => simp [Except.map]

/-- Nothing is awaited, nothing is found. -/
theorem searchEntries_nil (messages : List Message) :
    searchEntries config [] messages = .ok [] := by
  induction messages with
  | nil => rfl
  | cons message messages ih => exact ih

/-- What a thread that hands over a finish looks like. -/
theorem finishing?_some {thread : Thread} {entries : List SearchToolResponseEntry}
    (h : thread.finishing? = some (session, entries)) :
    ∃ locals step state finish, thread = .resolving session locals (.ret (step, state)) ∧
      state.previousSteps.getLast? = some (.thought (.finish finish)) ∧
      locals.retrievedEntries = entries := by
  obtain ⟨handing, hhanding, hlast⟩ := Option.bind_eq_some_iff.mp h
  unfold Thread.handing? at hhanding
  -- only a thread that has just resolved a step hands it to a callback
  split at hhanding
  · rename_i session' locals step state
    obtain rfl := Option.some.inj hhanding
    simp only at hlast
    split at hlast
    · rename_i finish hfinish
      obtain ⟨rfl, rfl⟩ := Prod.mk.inj (Option.some.inj hlast)
      exact ⟨locals, step, state, finish, rfl, hfinish, rfl⟩
    · cases hlast
  · cases hhanding

/-- The next step of such a thread calls `OnAgentFinish_`, with these entries. -/
theorem next_of_finishing {thread : Thread} {entries : List SearchToolResponseEntry}
    (h : thread.finishing? = some (session, entries)) (outside : Outside) (s : Store) :
    ∃ locals step state, ∃ finish : AgentFinish, (thread.next config outside s).1
      = .notifying session step state
        ((onAgentFinish config.currentTime { finish with question := state.input } session.run
          entries).bind fun _ => .ret locals) := by
  obtain ⟨locals, step, state, finish, rfl, hlast, rfl⟩ := finishing?_some h
  refine ⟨locals, step, state, finish, ?_⟩
  show Thread.notifying session step state (onNext config session locals state) = _
  unfold onNext
  rw [hlast]
  rfl

/-! ### The invariant -/

/-- The local variables of a call of `Handle` have the entries of the whole run.  The ids that
it waits for are those of the last continuation, or there are none yet. -/
def Agrees (config : HandlerConfig) (steps : List AgentStep) (locals : Locals) : Prop :=
  ∃ seen, observedIn config steps = .ok seen ∧
    seen.retrievedEntries = locals.retrievedEntries ∧
    (locals.lastFileSearchCallIds = seen.lastFileSearchCallIds ∨
      locals.lastFileSearchCallIds = [])

/-- The local variables of a thread agree with the record of its run. -/
def Thread.Keeps (config : HandlerConfig) (record : RunRecord) : Thread → Prop
  | .resolving session locals _ =>
      session.hasFileSearch = true → Agrees config (record session.run.id) locals
  | .notifying session _ _ p =>
      session.hasFileSearch = true → p.Returns (Agrees config (record session.run.id))
  | _ => True

/-- A step that neither asks for a search nor answers one. -/
theorem agrees_quiet {locals : Locals} {step : AgentStep} (h : Agrees config steps locals)
    (hquiet : ∀ seen, observeStep config seen step = .ok seen) :
    Agrees config (steps ++ [step]) locals := by
  obtain ⟨seen, hseen, hrest⟩ := h
  refine ⟨seen, ?_, hrest⟩
  rw [observedIn_append hseen]
  exact hquiet seen

/-- A continuation: both wait for its calls. -/
theorem agrees_continued {locals : Locals} {message : Message} {custom : Any}
    (h : Agrees config steps locals) (hsearch : session.hasFileSearch = true) :
    Agrees config (steps ++ [.thought (.continuation { toolCallMessage := some message, custom })])
      (locals.continued session message) := by
  obtain ⟨seen, hseen, hentries, -⟩ := h
  refine ⟨{ seen with lastFileSearchCallIds := fileSearchCallIds message }, ?_, ?_⟩
  · rw [observedIn_append hseen]
    rfl
  · unfold Locals.continued
    rw [if_pos hsearch]
    exact ⟨hentries, .inl rfl⟩

/-- An observation, where the call of `Handle` waits for the same calls as the run, or the run
finds nothing. -/
theorem agrees_observed {locals locals' : Locals} {observation : AgentObservation}
    (h : Agrees config steps locals) (hsearch : session.hasFileSearch = true)
    (hfresh : AnswersOwnCalls config (observedIn config steps) locals
      (some (.observation observation)))
    (hlocals : locals.observed config session observation.toolMessages = .ok locals') :
    Agrees config (steps ++ [.observation observation]) locals' := by
  obtain ⟨seen, hseen, hentries, hids⟩ := h
  rw [hseen] at hfresh
  unfold Locals.observed at hlocals
  rw [if_pos hsearch] at hlocals
  -- both find the same entries
  have hsame : searchEntries config seen.lastFileSearchCallIds observation.toolMessages
      = searchEntries config locals.lastFileSearchCallIds observation.toolMessages := by
    rcases hids with hids | hnone
    · rw [hids]
    · rcases hfresh with hfresh | hfresh
      · rw [hfresh]
      · rw [hfresh, hnone, searchEntries_nil]
  cases hfound : searchEntries config locals.lastFileSearchCallIds observation.toolMessages with
  | error e =>
      rw [hfound] at hlocals
      cases hlocals
  | ok entries =>
      rw [hfound] at hlocals
      obtain rfl := Except.ok.inj hlocals
      refine ⟨{ seen with retrievedEntries := seen.retrievedEntries ++ entries }, ?_, ?_, hids⟩
      · rw [observedIn_append hseen]
        show (do let entries ← searchEntries config _ _; pure _ : Except Exn Locals) = _
        rw [hsame, hfound]
        rfl
      · show seen.retrievedEntries ++ entries = locals.retrievedEntries ++ entries
        rw [hentries]

/-- **What the subscriber keeps.**  After it has taken a step, the local variables agree with
the record that has this step too. -/
theorem onNext_agrees {locals : Locals} {state : AgentState}
    (h : Agrees config steps locals) (hsearch : session.hasFileSearch = true)
    (hfresh : AnswersOwnCalls config (observedIn config steps) locals
      state.previousSteps.getLast?) :
    (onNext config session locals state).Returns
      (Agrees config (steps ++ state.previousSteps.getLast?.toList)) := by
  unfold onNext
  cases hlast : state.previousSteps.getLast? with
  | none => trivial
  | some step =>
      show Program.Returns (Agrees config (steps ++ [step])) _
      -- only an observation adds to the entries, and only a continuation to the calls
      cases step with
      | unset => exact agrees_quiet h fun _ => rfl
      | thought thought =>
          cases thought with
          | unset => exact agrees_quiet h fun _ => rfl
          | continuation asked =>
              obtain ⟨message?, custom⟩ := asked
              cases message? with
              | none => exact agrees_quiet h fun _ => rfl
              | some message =>
                  exact Program.returns_bind fun _ => agrees_continued h hsearch
          | pause pause =>
              obtain ⟨completed, message?, custom⟩ := pause
              cases message? with
              | none => exact agrees_quiet h fun _ => rfl
              | some message =>
                  exact Program.returns_bind fun _ => agrees_quiet h fun _ => rfl
          | finish finish =>
              exact Program.returns_bind fun _ => agrees_quiet h fun _ => rfl
      | observation observation =>
          rw [hlast] at hfresh
          show Program.Returns _ (if _ then _ else _)
          split
          · -- the local variables, then the callback
            cases hlocals : locals.observed config session observation.toolMessages with
            | error e => trivial
            | ok locals' =>
                show Program.Returns _
                  ((onAgentObservation observation session.run).bind fun _ => .ret locals')
                exact Program.returns_bind fun _ => agrees_observed h hsearch hfresh hlocals
          · -- no message, no entry
            rename_i hnone
            have hnil : observation.toolMessages = [] :=
              List.length_eq_zero_iff.mp (Nat.eq_zero_of_not_pos hnone)
            refine agrees_quiet h fun seen => ?_
            show (do let entries ← searchEntries config _ _; pure _ : Except Exn Locals) = _
            rw [hnil]
            show Except.ok { seen with retrievedEntries := seen.retrievedEntries ++ [] } = _
            rw [List.append_nil]

end Observed

section Threads

variable {config : HandlerConfig} {record : RunRecord} {thread : Thread}

/-- The record of other runs. -/
theorem after_of_handing {session : Session} {locals : Locals} {state : AgentState}
    (h : thread.handing? = some (session, locals, state)) :
    record.after thread = Function.update record session.run.id
      (record session.run.id ++ state.previousSteps.getLast?.toList) := by
  unfold RunRecord.after
  rw [h]

theorem after_of_not_handing (h : thread.handing? = none) : record.after thread = record := by
  unfold RunRecord.after
  rw [h]

/-- What an exception leads to keeps no entries. -/
theorem keeps_fail (session : Session) (e : Exn) :
    (Thread.fail config session e).Keeps config record := by
  cases e <;> trivial

theorem keeps_escape (e : Exn) : (Thread.escape e).Keeps config record := by
  cases e <;> trivial

/-- **Step lemma of a thread.** -/
theorem keeps_next (h : thread.Keeps config record) (hfresh : thread.StartsFresh config record)
    (outside : Outside) (s : Store) :
    (thread.next config outside s).1.Keeps config (record.after thread) := by
  cases thread with
  | idle => trivial
  | broken => trivial
  | setup run p =>
      rw [after_of_not_handing rfl]
      cases p with
      | call op k => trivial
      | raise e => exact keeps_escape e
      | ret result =>
          cases result with
          | none => trivial
          | some started =>
              -- a call of `Handle` starts, with nothing in its local variables
              obtain ⟨session, state⟩ := started
              intro hsearch
              obtain ⟨seen, hseen, hentries⟩ := hasEntries_iff.mp (hfresh hsearch)
              exact ⟨seen, hseen, hentries, .inr rfl⟩
  | resolving session locals p =>
      cases p with
      | call op k =>
          rw [after_of_not_handing rfl]
          exact h
      | raise e => exact keeps_fail session e
      | ret next =>
          -- the step is recorded, and the subscriber is called
          obtain ⟨step, state⟩ := next
          rw [after_of_handing rfl]
          intro hsearch
          rw [Function.update_self]
          exact onNext_agrees (h hsearch) hsearch (hfresh hsearch)
  | notifying session step state p =>
      rw [after_of_not_handing rfl]
      cases p with
      | call op k => exact fun hsearch => h hsearch _
      | raise e => exact keeps_fail session e
      | ret locals =>
          show Thread.Keeps config record (if _ then _ else _)
          split
          · exact h
          · trivial
  | failing session p =>
      rw [after_of_not_handing rfl]
      cases p with
      | call op k => trivial
      | raise e => exact keeps_escape e
      | ret result => trivial

/-- The step of another thread, on another run. -/
theorem keeps_other {other : Thread} (h : other.Keeps config record)
    (hother : ∀ run run', thread.isSpent = false → thread.run? = some run →
      other.run? = some run' → run'.id ≠ run.id) :
    other.Keeps config (record.after thread) := by
  cases hhanding : thread.handing? with
  | none =>
      rw [after_of_not_handing hhanding]
      exact h
  | some handing =>
      obtain ⟨session, locals, state⟩ := handing
      have hrun : thread.isSpent = false ∧ thread.run? = some session.run := by
        unfold Thread.handing? at hhanding
        split at hhanding
        · obtain ⟨rfl, -⟩ := Prod.mk.inj (Option.some.inj hhanding)
          exact ⟨rfl, rfl⟩
        · cases hhanding
      rw [after_of_handing hhanding]
      cases other with
      | resolving session' locals' p =>
          intro hsearch
          -- the record changes at the run of the thread that moved, which is another one
          rw [Function.update_of_ne (hother _ _ hrun.1 hrun.2 rfl)]
          exact h hsearch
      | notifying session' step state' p =>
          intro hsearch
          rw [Function.update_of_ne (hother _ _ hrun.1 hrun.2 rfl)]
          exact h hsearch
      | _ => trivial

end Threads

/-! ### Runs of the recorded system -/

/-- The system is well held, and every thread that is still at work agrees with the record. -/
structure RecordedSystem.Keeps {ι : Type} (config : HandlerConfig)
    (recorded : RecordedSystem ι) : Prop where
  wellHeld : recorded.system.WellHeld
  threads : ∀ j, (recorded.system.pool j).isSpent = false →
    (recorded.system.pool j).Keeps config recorded.record

section Recorded

variable {ι : Type} [DecidableEq ι] {config : HandlerConfig}
variable {recorded recorded' : RecordedSystem ι} {label : Label ι}

omit [DecidableEq ι] in
/-- At first nobody works. -/
theorem keeps_of_initial (h : recorded.Initial) : recorded.Keeps config where
  wellHeld := wellHeld_of_initial h.system
  threads j := by
    rw [h.system.pool j]
    intro _
    trivial

omit [DecidableEq ι] in
/-- Only the steps of threads are recorded. -/
theorem recordAfter_of_not_handler (h : ∀ j outside, label ≠ .handler j outside) :
    recorded.recordAfter label = recorded.record := by
  cases label with
  | handler j outside => exact absurd rfl (h j outside)
  | _ => rfl

/-- Where no thread makes a step, each one is as it was, or takes a task. -/
theorem pool_of_not_handler {system : System ι}
    (hstep : recorded.system.step config label = some system)
    (h : ∀ j outside, label ≠ .handler j outside) (k : ι) :
    system.pool k = recorded.system.pool k ∨ ∃ run, system.pool k = Thread.handle config run := by
  cases label with
  | handler j outside => exact absurd rfl (h j outside)
  | dequeue j position =>
      simp only [System.step] at hstep
      split at hstep
      · rename_i run hidle hrun
        obtain rfl := Option.some.inj hstep
        -- a thread that takes a task starts from its handler, the others stay
        by_cases hk : k = j
        · subst hk
          exact .inr ⟨run, Function.update_self ..⟩
        · exact .inl (Function.update_of_ne hk ..)
      · cases hstep
  | _ =>
      obtain rfl := Option.some.inj hstep
      exact .inl rfl

omit [DecidableEq ι] in
theorem keeps_handle (run : RunObject) (record : RunRecord) :
    (Thread.handle config run).Keeps config record := by
  unfold Thread.handle
  split <;> trivial

/-- **Step lemma.** -/
theorem keeps_step (h : recorded.Keeps config) (hfresh : recorded.StartsFresh config label)
    (hlabel : ¬ label.SetsStatus)
    (hstep : recorded.step config label = some recorded') : recorded'.Keeps config := by
  obtain ⟨system, hsystem, rfl⟩ := Option.map_eq_some_iff.mp hstep
  refine ⟨wellHeld_step h.wellHeld hlabel hsystem, fun k hspent => ?_⟩
  show (system.pool k).Keeps config (recorded.recordAfter label)
  by_cases hhandler : ∃ j outside, label = .handler j outside
  · obtain ⟨j, outside, rfl⟩ := hhandler
    obtain rfl := Option.some.inj hsystem
    show Thread.Keeps config (recorded.record.after (recorded.system.pool j))
      (Function.update recorded.system.pool j _ k)
    have hspent : (Function.update recorded.system.pool j
      ((recorded.system.pool j).next config outside recorded.system.store).1 k).isSpent = false :=
        hspent
    have hadvances : Advances (recorded.system.pool j)
        ((recorded.system.pool j).next config outside recorded.system.store).1
        recorded.system.store _ := next_advances (h.wellHeld.sound j)
    by_cases hk : k = j
    · -- the thread itself
      subst hk
      rw [Function.update_self] at hspent ⊢
      exact keeps_next (h.threads k (hadvances.spent hspent)) hfresh outside _
    · -- another thread: it does not hold the run of this one
      rw [Function.update_of_ne hk] at hspent ⊢
      refine keeps_other (h.threads k hspent) fun run run' hspent' hrun hrun' hid => hk ?_
      exact h.wellHeld.heldOnce.threads k j run.id ⟨hspent, run', hrun', hid⟩
        ⟨hspent', run, hrun, rfl⟩
  · -- no thread moved, so the record is the same
    have hno : ∀ j outside, label ≠ .handler j outside := fun j outside heq =>
      hhandler ⟨j, outside, heq⟩
    rw [recordAfter_of_not_handler hno]
    rcases pool_of_not_handler hsystem hno k with hsame | ⟨run, hhandle⟩
    · have hspent : (system.pool k).isSpent = false := hspent
      rw [hsame] at hspent ⊢
      exact h.threads k hspent
    · rw [hhandle]
      exact keeps_handle run _

omit [DecidableEq ι] in
/-- A thread that agrees with the record hands over the entries of its run. -/
theorem finishHasEntries_of_keeps (h : recorded.Keeps config) (j : ι) :
    (recorded.system.pool j).FinishHasEntries config recorded.record := by
  unfold Thread.FinishHasEntries
  cases hfinish : (recorded.system.pool j).finishing? with
  | none => trivial
  | some finishing =>
      obtain ⟨session, entries⟩ := finishing
      intro hsearch
      obtain ⟨locals, step, state, finish, hpool, -, rfl⟩ := finishing?_some hfinish
      have hagrees := h.threads j
      rw [hpool] at hagrees
      obtain ⟨seen, hseen, hentries, -⟩ := hagrees rfl hsearch
      exact hasEntries_iff.mpr ⟨seen, hseen, hentries⟩

/-- **When the final answer gets its entries.**  In every run of the system, whatever clients
and threads do: if no call of `Handle` continues where another one has retrieved entries, and
clients set no status themselves, then every finish is handed to `OnAgentFinish_` with exactly
the entries that its run has observed, in the order observed. -/
theorem finish_has_entries (config : HandlerConfig) {initial recorded : RecordedSystem ι}
    (hinitial : initial.Initial)
    (hruns : Runs (RecordedSystem.step config)
      (fun recorded label => recorded.StartsFresh config label ∧ ¬ label.SetsStatus)
      initial recorded) (j : ι) :
    (recorded.system.pool j).FinishHasEntries config recorded.record := by
  have hkeeps : recorded.Keeps config := by
    refine hruns.invariant (I := fun recorded => recorded.Keeps config) ?_
      (keeps_of_initial hinitial)
    intro recorded label recorded' h hlabel hstep
    exact keeps_step h hlabel.1 hlabel.2 hstep
  exact finishHasEntries_of_keeps hkeeps j

end Recorded

/-! ### A run that searches and asks its user -/

/-- An assistant that searches a file. -/
def searchStore : Store :=
  { questionStore with
    assistants :=
      { rows :=
          [{ id := "assistant_1"
             tools := [{ type := .fileSearch }]
             toolResources := { fileSearchVectorStoreIds := ["vs_1"] } }]
        nodup := by decide
        valid := by decide }
    vectorStoreFiles :=
      { rows := [{ fileId := "file_1", vectorStoreId := "vs_1", status := .completed }]
        nodup := by decide
        valid := by decide }
    vectorStoreInstances := ["vs_1"] }

/-- The result of a search is one entry. -/
def searchConfig : HandlerConfig where
  deserializeSearchToolResponse content := .ok [{ content := content, fileSource := "file_1" }]

/-- The model asks for a call. -/
def askFor (name : String) : Message :=
  { role := "assistant"
    toolCalls :=
      [{ id := name
         type := .function
         function := some { name := name, arguments := "1 + 2 + 4" } }] }

/-- A model that asks for some calls, one after the other, and then answers. -/
def modelAskingFor (names : List String) : Outside where
  chatModel _ prompt _ := .ok <|
    match names[prompt.chatMessages.length / 2]? with
    | some name => askFor name
    | none => { role := "assistant", content := "7" }
  tool call := .ok { invocationId := call.id, returnValue := "1 + 2 + 4 = 7" }
  citations _ := .ok { answer := "7" }

/-- A run that is executed for some steps until it pauses, and for some steps after its user
has submitted the output of `sum`. -/
def pausedAndResumed (names : List String) (before after : Nat) : List (Label Unit) :=
  createQuestionRun :: .dequeue () 0
    :: List.replicate before (.handler () (modelAskingFor names))
    ++ .submitToolOutputs
        { threadId := "thread_1"
          runId := "run_1"
          toolOutputs := [{ toolCallId := "sum", output := "7" }] }
      :: .dequeue () 0 :: List.replicate after (.handler () (modelAskingFor names))

/-- Nothing is recorded yet. -/
def searching : RecordedSystem Unit := { system := oneThread searchStore, record := fun _ => [] }

/-- The run asks its user first, and searches then. -/
theorem finish_has_entries_searchLast :
    ∃ found,
      Runs (RecordedSystem.step searchConfig)
        (fun recorded label => recorded.StartsFresh searchConfig label ∧ ¬ label.SetsStatus)
        searching found ∧
      (found.system.pool ()).finishing?.map (·.2)
        = some [{ content := "1 + 2 + 4 = 7", fileSource := "file_1" }] ∧
      (found.system.pool ()).FinishHasEntries searchConfig found.record := by
  have hfound : (execute (fun recorded label =>
        if recorded.StartsFresh searchConfig label ∧ ¬ label.SetsStatus then
          recorded.step searchConfig label
        else none)
      (pausedAndResumed ["sum", fileSearchToolName] 21 30) searching).any (fun found =>
        (found.system.pool ()).finishing?.map (·.2)
          = some [{ content := "1 + 2 + 4 = 7", fileSource := "file_1" }]) = true := by
    decide +kernel
  obtain ⟨found, hexecute, hfinish⟩ := (Option.any_eq_true _ _).mp hfound
  have hruns := runs_of_execute_where hexecute
  refine ⟨found, hruns, of_decide_eq_true hfinish, ?_⟩
  exact finish_has_entries searchConfig ⟨⟨rfl, rfl, fun _ => rfl⟩, fun _ => rfl⟩ hruns ()

/-- The run searches first, and asks its user then: its entries are lost. -/
theorem finish_loses_entries :
    searching.Initial ∧ ∃ lost,
      Reaches (RecordedSystem.step searchConfig) searching lost ∧
      ¬ (lost.system.pool ()).FinishHasEntries searchConfig lost.record := by
  have hlost : (execute (RecordedSystem.step searchConfig)
      (pausedAndResumed [fileSearchToolName, "sum"] 34 17) searching).any (fun lost =>
        ¬ (lost.system.pool ()).FinishHasEntries searchConfig lost.record) = true := by
    decide +kernel
  obtain ⟨lost, hexecute, hloses⟩ := (Option.any_eq_true _ _).mp hlost
  exact ⟨⟨⟨rfl, rfl, fun _ => rfl⟩, fun _ => rfl⟩, lost,
    runs_of_execute (fun _ _ _ => trivial) hexecute, of_decide_eq_true hloses⟩

end Instinct
