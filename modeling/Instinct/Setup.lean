/-
Instinct/Setup.lean

What `Handle` needs from the store before its stream.

Between taking the run and subscribing to the stream, `Handle` reads the
assistant, the thread, the files of the vector stores, the conversation and the
steps.  `Executes` says what it must find there; `prepare_run` and
`prepare_fails` say that it goes on if it finds that, and returns early or throws
otherwise.  Neither exit updates the run again, which gives the main result
`handle_settles_iff`.
-/
import Instinct.Settle

namespace Instinct

open Effects

/-! ### Checks that throw -/

/-- An exception, and no undefined behaviour. -/
def Throws {α : Type} (r : Except Exn α) : Prop :=
  ∃ e, r = .error e ∧ ∀ place, e ≠ .undefinedBehaviour place

/-- The checks pass if and only if `P` holds, and throw otherwise. -/
structure Checks {α : Type} (r : Except Exn α) (P : Prop) : Prop where
  passes : P → ∃ a, r = .ok a
  throws : ¬ P → Throws r

section Checks

variable {α β : Type} {P Q : Prop}

theorem checks_assertTrue {v : Prop} [Decidable v] (message : String) :
    Checks (assertTrue v message) v where
  passes h := ⟨(), if_pos h⟩
  throws h := ⟨.client message, if_neg h, nofun⟩

theorem checks_assertNotBlank {v : String} (message : String) :
    Checks (assertNotBlank v message) (isBlankString v = false) where
  passes h := ⟨(), assertNotBlank_of h⟩
  throws h := ⟨.client message, if_pos (eq_true_of_ne_false h), nofun⟩

theorem checks_ok {r : Except Exn α} {a : α} (h : r = .ok a) : Checks r True :=
  ⟨fun _ => ⟨a, h⟩, fun hnot => absurd trivial hnot⟩

theorem Checks.bind {r : Except Exn α} {f : α → Except Exn β} (hr : Checks r P)
    (hf : ∀ a, r = .ok a → Checks (f a) Q) : Checks (r >>= f) (P ∧ Q) where
  passes h := by
    obtain ⟨a, rfl⟩ := hr.passes h.1
    exact (hf a rfl).passes h.2
  throws h := by
    by_cases hP : P
    · obtain ⟨a, rfl⟩ := hr.passes hP
      exact (hf a rfl).throws fun hQ => h ⟨hP, hQ⟩
    · obtain ⟨e, rfl, he⟩ := hr.throws hP
      exact ⟨e, rfl, he⟩

/-- A check that does not pass throws. -/
theorem Checks.thrown {r : Except Exn α} (h : Checks r P) {e : Exn} (hr : r = .error e)
    (place : String) : e ≠ .undefinedBehaviour place := by
  by_cases hP : P
  · obtain ⟨a, ha⟩ := h.passes hP
    rw [hr] at ha
    cases ha
  · obtain ⟨e', he', hthrown⟩ := h.throws hP
    rw [Except.error.inj (hr.symm.trans he')]
    exact hthrown place

theorem Checks.congr {r : Except Exn α} (h : Checks r P) (hPQ : P ↔ Q) : Checks r Q :=
  ⟨fun hQ => h.passes (hPQ.mpr hQ), fun hQ => h.throws fun hP => hQ (hPQ.mp hP)⟩

/-- Checks of all elements of a list. -/
theorem checks_forM {f : α → Except Exn Unit} {R : α → Prop} (hf : ∀ a, Checks (f a) (R a))
    (l : List α) : Checks (l.forM f) (∀ a ∈ l, R a) := by
  induction l with
  | nil => exact ⟨fun _ => ⟨(), rfl⟩, fun h => absurd (fun a ha => by simp at ha) h⟩
  | cons a l ih =>
      have hcons := (hf a).bind fun _ _ => ih
      exact
        { passes := fun h => hcons.passes (List.forall_mem_cons.mp h)
          throws := fun h => hcons.throws fun hall => h (List.forall_mem_cons.mpr hall) }

end Checks

/-! ### What the setup needs -/

/-- What file search needs: a vector store on the assistant, the files of the ranking model,
vector stores that can be loaded, and a file in one of them. -/
structure Store.Searches (s : Store) (config : HandlerConfig) (assistant : AssistantObject)
    (thread : ThreadObject) : Prop where
  vectorStore : 0 < assistant.toolResources.fileSearchVectorStoreIds.length
  rankingModel : config.rankingModelError = none
  instances : ∀ id ∈ searchedVectorStoreIds assistant thread,
    isBlankString id = false ∧ id ∈ s.vectorStoreInstances
  files : ∃ file ∈ s.vectorStoreFiles.rows,
    file.vectorStoreId ∈ searchedVectorStoreIds assistant thread

/-- What the setup of a run needs. -/
def Store.Executes (s : Store) (config : HandlerConfig) (run : RunObject) : Prop :=
  ∃ assistant thread,
    (s.assistants.find? fun row => row.id = run.assistantId) = some assistant ∧
    (s.threads.find? fun row => row.id = run.threadId) = some thread ∧
    (hasFileSearch assistant = true → s.Searches config assistant thread) ∧
    (∃ content, s.HasInput run.threadId content) ∧
    (∃ steps, listAllSteps run.threadId run.id s = (.ok steps, s) ∧ StepsLoad none steps) ∧
    (config.agentExecutorName = "llm_compiler" ∨ config.provider ≠ .ollama)

section Prepare

variable {config : HandlerConfig} {outside : Outside} {run : RunObject} {s : Store}
variable {assistant : AssistantObject} {thread : ThreadObject}

theorem checks_createLocalRankingModel :
    Checks config.createLocalRankingModel (config.rankingModelError = none) := by
  unfold HandlerConfig.createLocalRankingModel
  cases config.rankingModelError with
  | none => exact ⟨fun _ => ⟨(), rfl⟩, fun h => absurd rfl h⟩
  | some what => exact ⟨nofun, fun _ => ⟨.other what, rfl, nofun⟩⟩

theorem checks_getStatelessRetriever (ids : List String) :
    (getStatelessRetriever config.createLocalRankingModel ids s).2 = s ∧
    Checks (getStatelessRetriever config.createLocalRankingModel ids s).1
      (ids ≠ [] ∧ config.rankingModelError = none ∧
        ∀ id ∈ ids, isBlankString id = false ∧ id ∈ s.vectorStoreInstances) := by
  refine ⟨rfl, (checks_assertTrue _).bind fun _ _ => checks_createLocalRankingModel.bind
    fun _ _ => checks_forM (fun id => ?_) ids⟩
  exact (checks_assertNotBlank _).bind fun _ _ => checks_assertTrue _

/-- The program only reads, and it checks `P`. -/
def ReadsAndChecks {α : Type} (config : HandlerConfig) (outside : Outside) (p : HandlerM α)
    (s : Store) (P : Prop) : Prop :=
  (p.run (Call.exec config outside) s).2 = s ∧ Checks (p.run (Call.exec config outside) s).1 P

section ReadsAndChecks

variable {α β : Type} {P Q : Prop}

theorem ReadsAndChecks.bind {p : HandlerM α} {f : α → HandlerM β}
    (hp : ReadsAndChecks config outside p s P)
    (hf : ∀ a, p.run (Call.exec config outside) s = (.ok a, s) →
      ReadsAndChecks config outside (f a) s Q) :
    ReadsAndChecks config outside (p.bind f) s (P ∧ Q) := by
  obtain ⟨hstate, hchecks⟩ := hp
  rcases e : p.run (Call.exec config outside) s with ⟨error | a, s'⟩
  · rw [e] at hstate hchecks
    obtain rfl : s' = s := hstate
    -- the first part threw, so its own check failed
    have hP : ¬ P := fun hP => by
      obtain ⟨a, ha⟩ := hchecks.passes hP
      simp at ha
    obtain ⟨_, herror, he⟩ := hchecks.throws hP
    unfold ReadsAndChecks
    rw [Program.run_bind_of_error _ e]
    exact ⟨rfl, fun h => absurd h.1 hP, fun _ => ⟨error, rfl, Except.error.inj herror ▸ he⟩⟩
  · rw [e] at hstate hchecks
    obtain rfl : s' = s := hstate
    -- the first part passed, so its check holds and the second part decides
    have hP : P := by
      by_contra hP
      obtain ⟨_, he, -⟩ := hchecks.throws hP
      simp at he
    unfold ReadsAndChecks
    rw [Program.run_bind_of_ok _ e]
    obtain ⟨hstate', hchecks'⟩ := hf a e
    exact ⟨hstate', hchecks'.congr ⟨fun h => ⟨hP, h⟩, And.right⟩⟩

theorem ReadsAndChecks.congr {p : HandlerM α} (h : ReadsAndChecks config outside p s P)
    (hPQ : P ↔ Q) : ReadsAndChecks config outside p s Q := ⟨h.1, h.2.congr hPQ⟩

theorem readsAndChecks_liftM {r : Except Exn α} (h : Checks r P) :
    ReadsAndChecks config outside (liftM r) s P := by
  cases r <;> exact ⟨rfl, h⟩

theorem readsAndChecks_perform {call : Call} (hstate : (call.exec config outside s).2 = s)
    (h : Checks (call.exec config outside s).1 P) :
    ReadsAndChecks config outside (perform call) s P := by
  unfold ReadsAndChecks
  rw [Program.run_perform]
  exact ⟨hstate, h⟩

theorem readsAndChecks_pure (a : α) : ReadsAndChecks config outside (pure a) s True :=
  ⟨rfl, checks_ok rfl⟩

end ReadsAndChecks

theorem checks_assertNonEmptyRange {α : Type} (r : List α) (message : String) :
    Checks (assertNonEmptyRange r message) (r ≠ []) := by
  unfold assertNonEmptyRange
  cases r with
  | nil => exact ⟨fun h => absurd rfl h, fun _ => ⟨.client message, rfl, nofun⟩⟩
  | cons a r => exact ⟨fun _ => ⟨(), rfl⟩, fun h => absurd (List.cons_ne_nil a r) h⟩

/-- The files of some vector stores. -/
def Store.filesOf (s : Store) (vectorStoreIds : List String) : List VectorStoreFileObject :=
  s.vectorStoreFiles.rows.filter fun file => vectorStoreIds.contains file.vectorStoreId

theorem listAllVectorStoreObjectFiles_eq {ids : List String} (h : ids ≠ []) :
    listAllVectorStoreObjectFiles ids s = (.ok (s.filesOf ids), s) := by
  have hcheck : assertNonEmptyRange ids "should provide at least vector store id" = .ok () := by
    rw [assertNonEmptyRange, if_neg (by simpa using h)]
  simp only [listAllVectorStoreObjectFiles, Action.bind_apply, Action.liftM_apply, hcheck]
  rfl

/-- Building the toolkit checks what file search needs. -/
theorem buildBuiltInToolkits_checks :
    ReadsAndChecks config outside (buildBuiltInToolkits config assistant thread) s
      (hasFileSearch assistant = true → s.Searches config assistant thread) := by
  unfold buildBuiltInToolkits
  by_cases hsearch : hasFileSearch assistant = true
  swap
  · rw [if_neg hsearch]
    obtain ⟨hstate, hchecks⟩ := @readsAndChecks_pure config outside s _ ([] : Toolkit)
    exact ⟨hstate, hchecks.congr ⟨fun _ h => absurd h hsearch, fun _ => trivial⟩⟩
  rw [if_pos hsearch]
  have hids : 0 < assistant.toolResources.fileSearchVectorStoreIds.length →
      searchedVectorStoreIds assistant thread ≠ [] := by
    intro hpos hnil
    obtain ⟨hnone, -⟩ := List.append_eq_nil_iff.mp hnil
    rcases List.take_eq_nil_iff.mp hnone with h | h
    · simp at h
    · simp [h] at hpos
  -- the checks in the order in which the toolkit makes them
  refine ReadsAndChecks.congr
    (P := 0 < assistant.toolResources.fileSearchVectorStoreIds.length ∧ True ∧
      (searchedVectorStoreIds assistant thread ≠ [] ∧ config.rankingModelError = none ∧
        ∀ id ∈ searchedVectorStoreIds assistant thread,
          isBlankString id = false ∧ id ∈ s.vectorStoreInstances) ∧
      config.rankingModelError = none ∧
      s.filesOf (searchedVectorStoreIds assistant thread) ≠ [] ∧ True) ?_ ?_
  · refine (readsAndChecks_liftM (checks_assertTrue _)).bind fun _ hfirst => ?_
    have hfirst : 0 < assistant.toolResources.fileSearchVectorStoreIds.length := by
      by_contra hnot
      rw [assertTrue, if_neg hnot] at hfirst
      simp at hfirst
    have hlist : Call.exec config outside (.listAllVectorStoreObjectFiles
        (searchedVectorStoreIds assistant thread)) s = _ :=
      listAllVectorStoreObjectFiles_eq (hids hfirst)
    have hread : ReadsAndChecks config outside (perform (.listAllVectorStoreObjectFiles
        (searchedVectorStoreIds assistant thread))) s True :=
      readsAndChecks_perform (congrArg Prod.snd hlist) (checks_ok (congrArg Prod.fst hlist))
    refine hread.bind fun files hfiles => ?_
    obtain rfl : s.filesOf (searchedVectorStoreIds assistant thread) = files := by
      rw [Program.run_perform, hlist] at hfiles
      exact Except.ok.inj (Prod.mk.inj hfiles).1
    have hretriever : ReadsAndChecks config outside (perform (.getStatelessRetriever
        (searchedVectorStoreIds assistant thread))) s _ :=
      readsAndChecks_perform (checks_getStatelessRetriever _).1 (checks_getStatelessRetriever _).2
    refine hretriever.bind fun _ _ => ?_
    refine (readsAndChecks_liftM checks_createLocalRankingModel).bind fun _ _ => ?_
    refine (readsAndChecks_liftM ?_).bind fun _ _ => readsAndChecks_pure _
    exact ((checks_assertNonEmptyRange _ _).bind fun _ _ => checks_ok rfl).congr
      (iff_of_eq (and_true _))
  · constructor
    · -- a nonempty list of files is a file in one of the vector stores
      rintro ⟨hfirst, -, ⟨-, hranking, hinstances⟩, -, hfiles, -⟩ -
      obtain ⟨file, hfile⟩ := List.exists_mem_of_ne_nil _ hfiles
      obtain ⟨hrow, hin⟩ := List.mem_filter.mp hfile
      exact ⟨hfirst, hranking, hinstances, file, hrow, List.contains_iff_mem.mp hin⟩
    · intro h
      obtain ⟨hfirst, hranking, hinstances, file, hrow, hin⟩ := h hsearch
      refine ⟨hfirst, trivial, ⟨hids hfirst, hranking, hinstances⟩, hranking, ?_, trivial⟩
      exact List.ne_nil_of_mem (List.mem_filter.mpr ⟨hrow, List.contains_iff_mem.mpr hin⟩)

/-- The loader gives up, or a check throws. -/
def EndsEarly {α : Type} (r : Except Exn (Option α)) : Prop := r = .ok none ∨ Throws r

/-- What the loader needs. -/
def Store.Loads (s : Store) (run : RunObject) : Prop :=
  (∃ content, s.HasInput run.threadId content) ∧
    ∃ steps, listAllSteps run.threadId run.id s = (.ok steps, s) ∧ StepsLoad none steps

theorem recover_run (toolkit : Toolkit) (hqueued : run.status = .queued)
    (hthread : run.threadId ≠ "") (hid : run.id ≠ "")
    (hassistant : s.HasAssistant run.assistantId) (h : s.Loads run) :
    ∃ state, (recoverAgentState run toolkit).run (Call.exec config outside) s
      = (.ok (some state), s) ∧ Ready run state s := by
  obtain ⟨⟨content, hinput⟩, steps, hsteps, hload⟩ := h
  have hloaded := @loadAgentState_run config outside _ _ hqueued hthread _ hinput _ hsteps hload
  have hrecover := @recoverAgentState_of_loaded config outside _ toolkit _ _ _ hloaded
  obtain ⟨assistant, hfound⟩ := Option.isSome_iff_exists.mp hassistant
  rw [hfound] at hrecover
  refine ⟨_, hrecover, fun message custom hlast _ => ?_⟩
  -- a state with steps was loaded from steps
  obtain ⟨steps', hmem, hlist⟩ := listAllSteps_ok s hthread hid
  obtain rfl := Except.ok.inj (Prod.mk.inj (hsteps.symm.trans (hlist s rfl))).1
  cases steps with
  | nil => simp [Store.loadedState, Store.loadedSteps] at hlast
  | cons step steps => exact ⟨step, hmem step List.mem_cons_self⟩

theorem recover_fails (toolkit : Toolkit) (hqueued : run.status = .queued)
    (hthread : run.threadId ≠ "") (hid : run.id ≠ "") (h : ¬ s.Loads run) :
    EndsEarly ((recoverAgentState run toolkit).run (Call.exec config outside) s).1 := by
  obtain ⟨steps, -, hlist⟩ := listAllSteps_ok s hthread hid
  have hfails := @loadAgentState_fails config outside _ _ hqueued hthread _ (hlist s rfl)
    fun hload => h ⟨hload.1, steps, hlist s rfl, hload.2⟩
  unfold recoverAgentState
  have hearly : ∀ {r s'}, (loadAgentStateFromRun run).run (Call.exec config outside) s = (r, s') →
      r = .ok none ∨ r = .error (missingVariable "message_id") := fun hr => by
    have hresult := hfails.2
    rwa [hr] at hresult
  rcases e : (loadAgentStateFromRun run).run (Call.exec config outside) s with ⟨r, s'⟩
  -- both ways out end before an executor is built
  rcases hearly e with rfl | rfl
  · rw [Program.bind_eq, Program.run_bind_of_ok _ e]
    exact .inl rfl
  · rw [Program.bind_eq, Program.run_bind_of_error _ e]
    exact .inr ⟨_, rfl, nofun⟩

/-- The executor is built, unless it needs another chat model.  Without any chat model the
behaviour is undefined. -/
theorem createAgentExecutor_cases (config : HandlerConfig) :
    ((config.agentExecutorName = "llm_compiler" ∨ config.provider ≠ .ollama) ∧
      ((∃ kind, createAgentExecutor config = .ok kind) ∨
        ∃ place, createAgentExecutor config = .error (.undefinedBehaviour place))) ∨
    (¬ (config.agentExecutorName = "llm_compiler" ∨ config.provider ≠ .ollama) ∧
      Throws (createAgentExecutor config)) := by
  unfold createAgentExecutor
  by_cases hname : config.agentExecutorName = "llm_compiler"
  · refine .inl ⟨.inl hname, ?_⟩
    by_cases hlocal : config.provider = .local
    · exact .inr ⟨_, if_pos hlocal⟩
    · exact .inl ⟨_, by rw [if_neg hlocal, if_pos hname]⟩
  · cases hprovider : config.provider with
    | «local» => exact .inl ⟨.inr nofun, .inr ⟨_, if_pos rfl⟩⟩
    | ollama =>
        -- the only provider that has no client here
        refine .inr ⟨by simp [hname], ?_⟩
        rw [if_neg nofun, if_neg hname]
        exact ⟨.client _, rfl, nofun⟩
    | _ =>
        refine .inl ⟨.inr nofun, .inl ⟨.openAITool, ?_⟩⟩
        rw [if_neg nofun, if_neg hname]
        rfl

/-- `RetrieveThread` asserts that it is given an id. -/
theorem retrieveThread_eq {threadId : String} (hthread : isBlankString threadId = false) :
    retrieveThread threadId s
      = (.ok (s.threads.find? fun row => row.id = threadId), s) := by
  simp only [retrieveThread, Action.bind_apply, Action.liftM_apply, assertNotBlank_of hthread]
  rfl

/-- The setup reads the assistant and the thread, builds the toolkit and loads the state. -/
theorem prepare_run_of_found (hthread : isBlankString run.threadId = false)
    (hassistant : (s.assistants.find? fun row => row.id = run.assistantId) = some assistant)
    (hfound : (s.threads.find? fun row => row.id = run.threadId) = some thread) :
    (prepare config run).run (Call.exec config outside) s
      = ((buildBuiltInToolkits config assistant thread).bind fun toolkit =>
          (recoverAgentState run toolkit).bind
            (startSession config run assistant toolkit)).run (Call.exec config outside) s := by
  have hreadAssistant : Call.exec config outside (.retrieveAssistant run.assistantId) s
      = (.ok (some assistant), s) := congrArg (fun found => (Except.ok found, s)) hassistant
  have hreadThread : Call.exec config outside (.retrieveThread run.threadId) s
      = (.ok (some thread), s) := (retrieveThread_eq hthread).trans (by rw [hfound])
  refine (Program.run_perform_bind _ _ _ s).trans ?_
  rw [hreadAssistant]
  refine (Program.run_perform_bind _ _ _ s).trans ?_
  rw [hreadThread]
  rfl

/-- **What the setup comes to, if the store has what it needs.** -/
theorem prepare_run (hqueued : run.status = .queued)
    (hthread : isBlankString run.threadId = false) (hid : run.id ≠ "")
    (h : s.Executes config run) :
    (∃ session state, (prepare config run).run (Call.exec config outside) s
        = (.ok (some (session, state)), s) ∧ session.run = run ∧ Ready run state s) ∨
    (∃ place, (prepare config run).run (Call.exec config outside) s
        = (.error (.undefinedBehaviour place), s)) := by
  obtain ⟨assistant, thread, hassistant, hfound, hsearch, hinput, hsteps, hexecutor⟩ := h
  rw [prepare_run_of_found hthread hassistant hfound]
  obtain ⟨hstate, hchecks⟩ := @buildBuiltInToolkits_checks config outside s assistant thread
  obtain ⟨toolkit, htoolkit⟩ := hchecks.passes hsearch
  have hbuilt : (buildBuiltInToolkits config assistant thread).run (Call.exec config outside) s
      = (.ok toolkit, s) := Prod.ext htoolkit hstate
  obtain ⟨state, hrecover, hready⟩ := @recover_run config outside _ s toolkit hqueued
    (ne_empty_of_not_blank hthread) hid (by rw [Store.HasAssistant, hassistant]; rfl)
    ⟨hinput, hsteps⟩
  rw [Program.run_bind_of_ok _ hbuilt, Program.run_bind_of_ok _ hrecover]
  unfold startSession buildAgentExecutor
  -- what is left is the executor: built, undefined, or refused
  rcases createAgentExecutor_cases config with ⟨-, ⟨kind, hkind⟩ | ⟨place, hplace⟩⟩ | ⟨hnone, -⟩
  · rw [hkind]
    exact .inl ⟨_, state, rfl, rfl, hready⟩
  · rw [hplace]
    exact .inr ⟨place, rfl⟩
  · exact absurd hexecutor hnone

/-- A part of the setup that throws ends it. -/
theorem endsEarly_of_throws {α β : Type} {p : HandlerM α} {f : α → HandlerM (Option β)}
    (h : Throws (p.run (Call.exec config outside) s).1) :
    EndsEarly ((p.bind f).run (Call.exec config outside) s).1 := by
  obtain ⟨e, herror, he⟩ := h
  rcases hrun : p.run (Call.exec config outside) s with ⟨r, s'⟩
  rw [hrun] at herror
  obtain rfl : r = .error e := herror
  rw [Program.run_bind_of_error _ hrun]
  exact .inr ⟨e, rfl, he⟩

/-- **Without what it needs, the setup returns early or throws.** -/
theorem prepare_fails (hqueued : run.status = .queued)
    (hthread : isBlankString run.threadId = false) (hid : run.id ≠ "")
    (h : ¬ s.Executes config run) :
    EndsEarly ((prepare config run).run (Call.exec config outside) s).1 := by
  -- the reads in their order, each of which may be the one that stops the setup
  rcases hassistant : s.assistants.find? fun row => row.id = run.assistantId with - | assistant
  · have hread : Call.exec config outside (.retrieveAssistant run.assistantId) s
        = (.ok none, s) := congrArg (fun found => (Except.ok found, s)) hassistant
    unfold prepare
    rw [Program.bind_eq, Program.run_perform_bind, hread]
    exact .inr ⟨_, rfl, nofun⟩
  rcases hfound : s.threads.find? fun row => row.id = run.threadId with - | thread
  · have hread : Call.exec config outside (.retrieveAssistant run.assistantId) s
        = (.ok (some assistant), s) := congrArg (fun found => (Except.ok found, s)) hassistant
    have hreadThread : Call.exec config outside (.retrieveThread run.threadId) s
        = (.ok none, s) := (retrieveThread_eq hthread).trans (by rw [hfound])
    unfold prepare
    rw [Program.bind_eq, Program.run_perform_bind, hread]
    show EndsEarly (((perform (.retrieveThread run.threadId)).bind _).run _ s).1
    rw [Program.run_perform_bind, hreadThread]
    exact .inr ⟨_, rfl, nofun⟩
  rw [prepare_run_of_found hthread hassistant hfound]
  obtain ⟨hstate, hchecks⟩ := @buildBuiltInToolkits_checks config outside s assistant thread
  by_cases hsearch : hasFileSearch assistant = true → s.Searches config assistant thread
  swap
  · exact endsEarly_of_throws (hchecks.throws hsearch)
  obtain ⟨toolkit, htoolkit⟩ := hchecks.passes hsearch
  have hbuilt : (buildBuiltInToolkits config assistant thread).run (Call.exec config outside) s
      = (.ok toolkit, s) := Prod.ext htoolkit hstate
  rw [Program.run_bind_of_ok _ hbuilt]
  by_cases hloads : s.Loads run
  swap
  · -- no state is recovered
    have hearly := @recover_fails config outside _ s toolkit hqueued
      (ne_empty_of_not_blank hthread) hid hloads
    rcases hearly with hnone | hthrows
    · rw [Program.run_bind_of_ok _ (Prod.ext hnone rfl)]
      exact .inl rfl
    · exact endsEarly_of_throws hthrows
  obtain ⟨state, hrecover, -⟩ := @recover_run config outside _ s toolkit hqueued
    (ne_empty_of_not_blank hthread) hid (by rw [Store.HasAssistant, hassistant]; rfl) hloads
  rw [Program.run_bind_of_ok _ hrecover]
  unfold startSession buildAgentExecutor
  rcases createAgentExecutor_cases config with ⟨hexecutor, -⟩ | ⟨-, e, herror, he⟩
  · exact absurd ⟨assistant, thread, hassistant, hfound, hsearch, hloads.1, hloads.2, hexecutor⟩ h
  · rw [herror]
    exact .inr ⟨e, rfl, he⟩

end Prepare

/-! ### Runs that are not abandoned -/

section Handle

variable {config : HandlerConfig} {run : RunObject} {s : Store}

/-- What the setup needs is not in the table of runs. -/
theorem executes_assignRun (req : ModifyRunRequest) (hthread : run.threadId ≠ "")
    (hid : run.id ≠ "") :
    (s.assignRun req).Executes config run ↔ s.Executes config run := by
  obtain ⟨found, hfound⟩ := getLatestUserMessageObject_ok s hthread
  obtain ⟨steps, -, hlist⟩ := listAllSteps_ok s hthread hid
  -- the messages, the steps and the vector stores are not touched by the update
  have hinput : (∃ content, (s.assignRun req).HasInput run.threadId content)
      ↔ ∃ content, s.HasInput run.threadId content := by
    unfold Store.HasInput
    rw [hfound s rfl, hfound (s.assignRun req) rfl]
    simp
  have hsteps : (∃ steps, listAllSteps run.threadId run.id (s.assignRun req)
        = (.ok steps, s.assignRun req) ∧ StepsLoad none steps)
      ↔ ∃ steps, listAllSteps run.threadId run.id s = (.ok steps, s) ∧ StepsLoad none steps := by
    rw [hlist s rfl, hlist (s.assignRun req) rfl]
    simp
  have hsearches : ∀ assistant thread,
      (s.assignRun req).Searches config assistant thread ↔ s.Searches config assistant thread :=
    fun assistant thread =>
      ⟨fun h => ⟨h.vectorStore, h.rankingModel, h.instances, h.files⟩,
        fun h => ⟨h.vectorStore, h.rankingModel, h.instances, h.files⟩⟩
  unfold Store.Executes
  simp only [hinput, hsteps, hsearches]
  exact Iff.rfl

/-- The run is taken: the rest of the setup works on the store with the update. -/
theorem setUp_run (hthread : isBlankString run.threadId = false)
    (hrun : s.RunIs run fun _ => True) :
    (setUp config run).run (Call.exec config {}) s
      = (prepare config run).run (Call.exec config {}) (s.assignRun (startRequest config run)) := by
  rcases htaken : Call.exec config {} (.modifyRun (startRequest config run)) s with ⟨r, s'⟩
  have hanswer : MayAnswer config (.modifyRun (startRequest config run)) s r s' := ⟨{}, htaken⟩
  obtain ⟨updated, rfl⟩ := modifyRun_succeeds hanswer hrun rfl rfl hthread rfl rfl
  rcases modifyRun_sets hanswer hrun rfl rfl (by simp [startRequest])
    with ⟨e, he, -⟩ | ⟨_, -, rfl, -⟩
  · simp at he
  · refine (Program.run_perform_bind _ _ _ s).trans ?_
    rw [htaken]

/-- A thread that sets up does what its program does. -/
theorem worksAlone_setup {outside : Outside} {p : HandlerM (Option (Session × AgentState))}
    {r : Except Exn (Option (Session × AgentState))} {s' : Store}
    (h : p.run (Call.exec config outside) s = (r, s')) :
    Relation.ReflTransGen (WorksAlone config) (.setup run p, s) (.afterSetup r, s') := by
  induction p generalizing s with
  | ret a =>
      obtain ⟨rfl, rfl⟩ := Prod.mk.inj h
      exact .single ⟨outside, rfl⟩
  | raise e =>
      obtain ⟨rfl, rfl⟩ := Prod.mk.inj h
      exact .single ⟨outside, rfl⟩
  | call op k ih => exact .head ⟨outside, rfl⟩ (ih _ h)

theorem afterSetup_of_endsEarly {r : Except Exn (Option (Session × AgentState))}
    (h : EndsEarly r) : Thread.afterSetup r = .idle := by
  rcases h with rfl | ⟨e, rfl, he⟩
  · rfl
  · cases e with
    | undefinedBehaviour place => exact absurd rfl (he place)
    | _ => rfl

theorem not_settled_of_inProgress {status : RunObjectStatus} (h : status = .inProgress) :
    ¬ status.Settled := by
  rw [h]
  rintro (h | h)
  · simp at h
  · simp [RunObjectStatus.isTerminal] at h

end Handle

/-- **When `Handle` does not abandon its run.**  On a payload of a queued run that is stored
as queued, and with the store to itself, `Handle` leaves the run in `requires_action` or in a
terminal status whenever it returns or throws, whatever model and tools do, if and only if
the store holds what the setup needs. -/
theorem handle_settles_iff (config : HandlerConfig) (run : RunObject) (s : Store)
    (hqueued : run.status = .queued) (hthread : isBlankString run.threadId = false)
    (hstored : s.RunIs run (· = .queued)) :
    (∀ s', Relation.ReflTransGen (WorksAlone config) (Thread.handle config run, s) (.idle, s') →
        s'.RunIs run RunObjectStatus.Settled)
      ↔ s.Executes config run := by
  have hknown : s.RunIs run fun _ => True := hstored.mono fun _ _ => trivial
  have hid := ne_empty_of_not_blank hstored.not_blank
  have hstart : Thread.handle config run = .setup run (setUp config run) := if_pos hqueued
  have hset : (s.assignRun (startRequest config run)).RunIs run (· = .inProgress) :=
    hknown.assignRun rfl rfl nofun
  rw [hstart, ← executes_assignRun (startRequest config run) (ne_empty_of_not_blank hthread) hid]
  constructor
  · intro hsettles
    by_contra hnot
    -- the setup ends early, and the run stays in progress
    have hearly := @prepare_fails config {} _ _ hqueued hthread hid hnot
    rcases hrun : (prepare config run).run (Call.exec config {})
      (s.assignRun (startRequest config run)) with ⟨r, s'⟩
    rw [hrun] at hearly
    have hpath := @worksAlone_setup config run s {} _ _ _
      ((setUp_run hthread hknown).trans hrun)
    rw [afterSetup_of_endsEarly hearly] at hpath
    have hstate : s' = s.assignRun (startRequest config run) := by
      have hkeeps := Program.keeps_run (@prepare_reads run config)
        (fun call h => @exec_reads config {} call h.1)
        (s.assignRun (startRequest config run))
      rwa [hrun] at hkeeps
    obtain ⟨stored, hfound, hsettled⟩ := hsettles s' hpath
    obtain ⟨stored', hfound', hprogress⟩ := hstate ▸ hset
    rw [hfound] at hfound'
    obtain rfl := Option.some.inj hfound'
    exact not_settled_of_inProgress hprogress hsettled
  · intro hexecutes s' hpath
    refine @threadSettles_run config run _ (.idle, s') hthread ?_ hpath
    -- the setup comes to a session
    rcases @prepare_run config {} _ _ hqueued hthread hid hexecutes with
      ⟨session, state, hrun, hsession, hready⟩ | ⟨place, hrun⟩
    · exact wp_of_run {} (setUp_internal config) ((setUp_run hthread hknown).trans hrun)
        ⟨hsession, hset, hready⟩
    · exact wp_of_run {} (setUp_internal config) ((setUp_run hthread hknown).trans hrun) trivial

/-- A queued run. -/
def askedRun : RunObject :=
  { id := "run_1", threadId := "thread_1", assistantId := "assistant_1", status := .queued }

/-- A store that has what the setup of the queued run needs. -/
def askedStore : Store :=
  { questionStore with runs := { rows := [askedRun], nodup := by decide, valid := by decide } }

theorem executes_asked : askedStore.Executes {} askedRun :=
  ⟨_, _, rfl, rfl, by simp [hasFileSearch], ⟨_, questionMessage, rfl, rfl⟩,
    ⟨[], rfl, trivial⟩, .inr (by decide)⟩

/-- Whatever the model answers to the question, the run is settled. -/
theorem handle_settles_asked :
    askedStore.Executes {} askedRun ∧
      ∀ s', Relation.ReflTransGen (WorksAlone {}) (Thread.handle {} askedRun, askedStore)
          (.idle, s') → s'.RunIs askedRun RunObjectStatus.Settled :=
  ⟨executes_asked, (handle_settles_iff {} askedRun askedStore rfl (by decide)
    ⟨askedRun, rfl, rfl⟩).mpr executes_asked⟩

/-- The queued run without its assistant: the setup throws once the run is taken, and `Handle`
leaves it in progress. -/
theorem handle_abandons_run :
    ∃ s s', s.RunIs askedRun (· = .queued) ∧
      Relation.ReflTransGen (WorksAlone {}) (Thread.handle {} askedRun, s) (.idle, s') ∧
      s'.RunIs askedRun (· = .inProgress) :=
  ⟨{ askedStore with assistants := .empty }, _, ⟨askedRun, rfl, rfl⟩,
    @worksAlone_setup {} askedRun _ {} _ _ _ rfl, ⟨_, rfl, rfl⟩⟩

end Instinct
