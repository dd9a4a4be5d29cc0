/-
Instinct/CancelledFiles.lean

Handlers of file tasks and clients that cancel file batches, in any interleaving.

The handler looks at the status of the file before each of its two updates, and
updates whatever the row says by then.  A cancellation between the look and the
update is overwritten.  `cancelled_file_stays` says that this is the only way: in
every run without such a cancellation a cancelled file stays cancelled.
-/
import Instinct.Pools
import Instinct.Transitions
import Instinct.VectorStoreCalls

namespace Instinct

open Effects Tables Transitions

/-! ### The system -/

/-- The store, and the handlers that are at work. -/
abbrev FilePool : Type := Pool Exn Store VectorStoreCall.Res

/-- A worker takes the task of a file, a handler makes its next call, or a client cancels a
file batch. -/
inductive FileEvent
  | take (file : VectorStoreFileObject)
  | handler (i : Nat) (outside : FileOutside)
  | cancel (req : CancelVectorStoreFileBatchRequest)

/-- The state after an event. -/
def fileStep (config : FileHandlerConfig) (pool : FilePool) : FileEvent → Option FilePool
  | .take file => some (pool.spawn (FileObjectTaskHandler.handle config file))
  | .handler i outside => pool.advance (VectorStoreCall.exec config outside) i
  | .cancel req => some { pool with store := (cancelVectorStoreFileBatch req pool.store).2 }

/-- The status of a vector store file. -/
def Store.fileStatus? (s : Store) (vectorStoreId fileId : String) :
    Option VectorStoreFileStatus :=
  (s.vectorStoreFiles.find? (isVectorStoreFile vectorStoreId fileId)).map (·.status)

/-- The update of a file that a handler makes next. -/
def pendingUpdate? (p : VectorStoreM Unit) : Option ModifyVectorStoreFileRequest :=
  p.next?.bind VectorStoreCall.fileUpdate?

/-- No handler is about to update a file that the event cancels. -/
def FileEvent.Undisturbed (pool : FilePool) : FileEvent → Prop
  | .cancel req => ∀ p ∈ pool.threads, ∀ update ∈ pendingUpdate? p,
      ∀ file ∈ pool.store.vectorStoreFiles.rows,
        isVectorStoreFile update.vectorStoreId update.fileId file = true →
        isFileOfBatch req.vectorStoreId req.batchId file = true → file.status ≠ .inProgress
  | _ => True

instance (pool : FilePool) (event : FileEvent) : Decidable (event.Undisturbed pool) := by
  cases event <;> unfold FileEvent.Undisturbed <;> infer_instance

/-! ### What updates do to a status -/

section FileStatus

variable {s s' : Store} {vectorStoreId fileId : String}

theorem fileStatus?_of_vectorStoreFiles (h : s'.vectorStoreFiles = s.vectorStoreFiles) :
    s'.fileStatus? vectorStoreId fileId = s.fileStatus? vectorStoreId fileId := by
  unfold Store.fileStatus?
  rw [h]

/-- The statuses of files are what they were, but the file that the request names may have the
status of the request. -/
def AssignsStatus (req : ModifyVectorStoreFileRequest) (s s' : Store) : Prop :=
  ∀ vectorStoreId fileId, s'.fileStatus? vectorStoreId fileId = s.fileStatus? vectorStoreId fileId ∨
    (req.vectorStoreId = vectorStoreId ∧ req.fileId = fileId) ∧
      s'.fileStatus? vectorStoreId fileId = some req.status

variable {req : ModifyVectorStoreFileRequest}

theorem AssignsStatus.refl (s : Store) : AssignsStatus req s s := fun _ _ => .inl rfl

theorem AssignsStatus.trans (s s' s'' : Store) (h : AssignsStatus req s s')
    (h' : AssignsStatus req s' s'') : AssignsStatus req s s'' := by
  intro vectorStoreId fileId
  rcases h' vectorStoreId fileId with hsame | hassigned
  · rw [hsame]
    exact h vectorStoreId fileId
  · exact .inr hassigned

theorem isVectorStoreFile_iff {file : VectorStoreFileObject} :
    isVectorStoreFile vectorStoreId fileId file = true ↔
      file.fileId = fileId ∧ file.vectorStoreId = vectorStoreId := by
  simp only [isVectorStoreFile, Bool.and_eq_true, decide_eq_true_eq]

/-- An update leaves the status of a file as it is, unless it selects the row of that file. -/
theorem fileStatus?_of_update {p : VectorStoreFileObject → Bool}
    {f : VectorStoreFileObject → VectorStoreFileObject}
    (hkey : ∀ file, (f file).fileId = file.fileId ∧ (f file).vectorStoreId = file.vectorStoreId)
    (h : s'.vectorStoreFiles.rows
      = s.vectorStoreFiles.rows.map fun file => if p file then f file else file)
    (vectorStoreId fileId : String) :
    s'.fileStatus? vectorStoreId fileId = s.fileStatus? vectorStoreId fileId ∨
    ∃ file, s.vectorStoreFiles.find? (isVectorStoreFile vectorStoreId fileId) = some file ∧
      p file = true ∧ s'.fileStatus? vectorStoreId fileId = some (f file).status := by
  -- the update keeps the key, so the same row is found
  have hq : (isVectorStoreFile vectorStoreId fileId ∘ fun file => if p file then f file else file)
      = isVectorStoreFile vectorStoreId fileId := by
    funext file
    show isVectorStoreFile vectorStoreId fileId (if p file then f file else file) = _
    split
    · rw [isVectorStoreFile, isVectorStoreFile, (hkey file).1, (hkey file).2]
    · rfl
  have hstatus : s'.fileStatus? vectorStoreId fileId
      = ((s.vectorStoreFiles.find? (isVectorStoreFile vectorStoreId fileId)).map
          fun file => if p file then f file else file).map (·.status) := by
    rw [Store.fileStatus?, Table.find?, h, List.find?_map, hq]
    rfl
  -- without such a row nothing is found before or after
  rcases e : s.vectorStoreFiles.find? (isVectorStoreFile vectorStoreId fileId) with - | file
  · rw [e] at hstatus
    have hold : s.fileStatus? vectorStoreId fileId = none := by rw [Store.fileStatus?, e]; rfl
    exact .inl (hstatus.trans hold.symm)
  · rw [e, Option.map_some, Option.map_some] at hstatus
    have hold : s.fileStatus? vectorStoreId fileId = some file.status := by
      rw [Store.fileStatus?, e]
      rfl
    -- the row of the file is updated, or another one is
    by_cases hp : p file = true
    · rw [if_pos hp] at hstatus
      exact .inr ⟨file, rfl, hp, hstatus⟩
    · rw [if_neg hp] at hstatus
      exact .inl (hstatus.trans hold.symm)

theorem updateVectorStoreFile_assigns (req : ModifyVectorStoreFileRequest) :
    Action.Moves (AssignsStatus req) (VectorStoreFileDataMapper.updateVectorStoreFile req) := by
  refine Action.moves_bind AssignsStatus.trans
    (Action.moves_of_keeps AssignsStatus.refl (Action.keeps_liftM _)) fun _ => ?_
  refine Action.moves_bind AssignsStatus.trans
    (Action.moves_of_keeps AssignsStatus.refl (Action.keeps_liftM _)) fun _ => ?_
  intro s vectorStoreId fileId
  refine Or.elim (fileStatus?_of_update (f := (·.assign req)) (fun _ => ⟨rfl, rfl⟩) (by rfl)
    vectorStoreId fileId) .inl ?_
  rintro ⟨file, hfind, hnamed, hstatus⟩
  -- without a status in the request the row keeps its own
  by_cases hunknown : req.status = .unknownVectorStoreFileStatus
  · refine .inl (hstatus.trans ?_)
    rw [Store.fileStatus?, hfind]
    exact congrArg some (if_pos hunknown)
  · obtain ⟨hid, hvs⟩ := isVectorStoreFile_iff.mp (List.find?_some hfind)
    obtain ⟨hid', hvs'⟩ := isVectorStoreFile_iff.mp hnamed
    refine .inr ⟨⟨hvs'.symm.trans hvs, hid'.symm.trans hid⟩, hstatus.trans (congrArg some ?_)⟩
    exact if_neg hunknown

theorem modifyVectorStoreFile_assigns (req : ModifyVectorStoreFileRequest) :
    Action.Moves (AssignsStatus req) (modifyVectorStoreFile req) := by
  have hreads : ∀ {α : Type} {x : ServiceM α}, Action.Keeps id x →
      Action.Moves (AssignsStatus req) x := Action.moves_of_keeps AssignsStatus.refl
  refine Action.moves_bind AssignsStatus.trans (hreads (Action.keeps_liftM _)) fun _ => ?_
  refine Action.moves_bind AssignsStatus.trans (hreads (Action.keeps_liftM _)) fun _ => ?_
  refine Action.moves_bind AssignsStatus.trans (hreads (Action.keeps_gets _)) fun _ => ?_
  refine Action.moves_bind AssignsStatus.trans (hreads (Action.keeps_liftM _)) fun _ => ?_
  refine Action.moves_bind AssignsStatus.trans (updateVectorStoreFile_assigns req) fun _ => ?_
  refine Action.moves_bind AssignsStatus.trans (hreads (Action.keeps_liftM _)) fun _ => ?_
  exact hreads (Action.keeps_gets _)

/-- The statuses of files are what they were, but files of the batch that were in progress may
be cancelled. -/
def CancelsFiles (req : CancelVectorStoreFileBatchRequest) (s s' : Store) : Prop :=
  ∀ vectorStoreId fileId, s'.fileStatus? vectorStoreId fileId = s.fileStatus? vectorStoreId fileId ∨
    (∃ file ∈ s.vectorStoreFiles.rows, isVectorStoreFile vectorStoreId fileId file = true ∧
      isFileOfBatch req.vectorStoreId req.batchId file = true ∧ file.status = .inProgress) ∧
      s'.fileStatus? vectorStoreId fileId = some .cancelled

variable {cancelReq : CancelVectorStoreFileBatchRequest}

theorem cancelVectorStoreFiles_cancels (req : CancelVectorStoreFileBatchRequest) (s : Store) :
    CancelsFiles req s
      (VectorStoreFileDataMapper.cancelVectorStoreFiles req.vectorStoreId req.batchId s).2 := by
  refine Action.bind_elim_liftM (P := fun r => CancelsFiles req s r.2) (fun _ _ _ _ => .inl rfl)
    fun _ _ => ?_
  refine Action.bind_elim_liftM (P := fun r => CancelsFiles req s r.2) (fun _ _ _ _ => .inl rfl)
    fun _ _ => ?_
  intro vectorStoreId fileId
  refine Or.elim (fileStatus?_of_update (f := VectorStoreFileObject.cancel) (fun _ => ⟨rfl, rfl⟩)
    (by rfl) vectorStoreId fileId) .inl ?_
  rintro ⟨file, hfind, hcancels, hstatus⟩
  obtain ⟨hbatch, hprogress⟩ := Bool.and_eq_true_iff.mp hcancels
  exact .inr ⟨⟨file, List.mem_of_find?_eq_some hfind, List.find?_some hfind, hbatch,
    of_decide_eq_true hprogress⟩, hstatus⟩

theorem cancelVectorStoreFileBatch_cancels (req : CancelVectorStoreFileBatchRequest) (s : Store) :
    CancelsFiles req s (cancelVectorStoreFileBatch req s).2 := by
  have hsame : ∀ {s' : Store}, s'.vectorStoreFiles = s.vectorStoreFiles → CancelsFiles req s s' :=
    fun h _ _ => .inl (fileStatus?_of_vectorStoreFiles h)
  refine Action.bind_elim_liftM (P := fun r => CancelsFiles req s r.2) (fun _ _ => hsame rfl)
    fun _ _ => ?_
  refine Action.bind_elim_keeps (P := fun r => CancelsFiles req s r.2) (f := Store.vectorStoreFiles)
    ?_ (fun _ _ => hsame) fun batches s' hs' => ?_
  · exact Action.keeps_bind (Action.keeps_liftM _) fun _ _ => rfl
  refine Action.bind_elim_liftM (P := fun r => CancelsFiles req s r.2) (fun _ _ => hsame hs')
    fun _ _ => ?_
  -- the one statement that touches files; what follows it only reads
  have hfiles : ∀ t, t.vectorStoreFiles = (VectorStoreFileDataMapper.cancelVectorStoreFiles
      req.vectorStoreId req.batchId s').2.vectorStoreFiles → CancelsFiles req s t := by
    intro t ht vectorStoreId fileId
    rw [fileStatus?_of_vectorStoreFiles ht, ← fileStatus?_of_vectorStoreFiles hs', ← hs']
    exact cancelVectorStoreFiles_cancels req s' vectorStoreId fileId
  refine Action.bind_elim (P := fun r => CancelsFiles req s r.2)
    (fun _ t h => hfiles t (by rw [h])) fun files t h => ?_
  refine hfiles _ ?_
  rw [h]
  exact Action.keeps_of_id (Action.keeps_bind (Action.keeps_liftM _) fun _ =>
    keeps_getVectorStoreFileBatch _ _) t

end FileStatus

/-! ### The calls of the handler -/

/-- The handler inserts no rows and cancels nothing. -/
def VectorStoreCall.IsHandlerCall (call : VectorStoreCall) : Prop :=
  call.insertsFiles = false ∧ ∀ update ∈ call.fileUpdate?, update.status ≠ .cancelled

/-- The call found the file in progress. -/
def FindsInProgress (vectorStoreId fileId : String) :
    (call : VectorStoreCall) → Except Exn call.Res → Prop
  | .getVectorStoreFile vectorStoreId' fileId', .ok (some file) =>
      vectorStoreId' = vectorStoreId ∧ fileId' = fileId ∧ file.status = .inProgress
  | _, _ => False

/-- An update of a file stands right after a call that found the file in progress. -/
def UpdateAfterCheck (call : VectorStoreCall) (r : Except Exn call.Res) (next : VectorStoreCall) :
    Prop :=
  ∀ update ∈ next.fileUpdate?, FindsInProgress update.vectorStoreId update.fileId call r

section Handler

variable {config : FileHandlerConfig} {file : VectorStoreFileObject}

theorem updateAfterCheck_of_no_update (call : VectorStoreCall) (r : Except Exn call.Res)
    (next : VectorStoreCall) (h : next.fileUpdate? = none) : UpdateAfterCheck call r next := by
  intro update hupdate
  rw [h] at hupdate
  simp at hupdate

theorem calls_ingestFile : (ingestFile config file).Calls fun call =>
    call.insertsFiles = false ∧ call.fileUpdate? = none := by
  refine (Program.calls_perform_bind _ _).mpr ⟨⟨rfl, rfl⟩, fun vectorStore? => ?_⟩
  refine Program.calls_bind (Program.calls_ofExcept _) fun vectorStore => ?_
  refine (Program.calls_perform_bind _ _).mpr ⟨⟨rfl, rfl⟩, fun fileObject? => ?_⟩
  refine Program.calls_bind (Program.calls_ofExcept _) fun fileObject => ?_
  refine (Program.calls_perform_bind _ _).mpr ⟨⟨rfl, rfl⟩, fun _ => ?_⟩
  refine (Program.calls_perform_bind _ _).mpr ⟨⟨rfl, rfl⟩, fun ingestor? => ?_⟩
  refine Program.calls_bind (Program.calls_ofExcept _) fun ingestor => ?_
  refine (Program.calls_perform_bind _ _).mpr ⟨⟨rfl, rfl⟩, fun _ => ?_⟩
  refine (Program.calls_perform_bind _ _).mpr ⟨⟨rfl, rfl⟩, fun _ => ?_⟩
  refine (Program.calls_perform_bind _ _).mpr ⟨⟨rfl, rfl⟩, fun docs => ?_⟩
  exact (Program.calls_perform _).mpr ⟨rfl, rfl⟩

/-- A first update of the file that was looked at may follow the look. -/
theorem follows_checkVectorStoreFileOk {vectorStoreId fileId : String} {p : VectorStoreM Unit}
    (hp : p.Follows UpdateAfterCheck) (hfirst : ∀ op update, p.next? = some op →
      update ∈ op.fileUpdate? → update.vectorStoreId = vectorStoreId ∧ update.fileId = fileId) :
    ((checkVectorStoreFileOk vectorStoreId fileId).bind fun ok =>
      if ok then p else .ret ()).Follows UpdateAfterCheck := by
  rw [checkVectorStoreFileOk, Program.bind_eq, Program.bind_assoc]
  refine Program.follows_perform_bind (fun found op hop update hupdate => ?_) fun found => ?_
  · -- the call right after the check
    -- the calls further on
    simp only [Program.pure_eq, Program.ret_bind] at hop
    split at hop
    · rename_i hok
      obtain ⟨hvs, hfile⟩ := hfirst op update hop hupdate
      obtain ⟨file, rfl, hstatus⟩ := (Option.any_eq_true _ _).mp hok
      exact ⟨hvs.symm, hfile.symm, of_decide_eq_true hstatus⟩
    · simp [Program.next?] at hop
  · simp only [Program.pure_eq, Program.ret_bind]
    split
    · exact hp
    · trivial

theorem no_update_of_aboutBatches {call : VectorStoreCall} (h : call.aboutBatches = true) :
    call.insertsFiles = false ∧ call.fileUpdate? = none := by
  cases call <;> first | exact ⟨rfl, rfl⟩ | simp [VectorStoreCall.aboutBatches] at h

theorem follows_finishFile (result : Except Exn String) :
    (finishFile file result).Follows UpdateAfterCheck := by
  have hrest : ∀ modified, (finishBatch file modified).Calls fun call =>
      call.fileUpdate? = none :=
    calls_finishBatch fun _ h => (no_update_of_aboutBatches h).2
  refine follows_checkVectorStoreFileOk (p := (request (.modifyVectorStoreFile
    (finalUpdate file result))).bind (finishBatch file)) ?_ fun op update hop hupdate => ?_
  · refine Program.follows_perform_bind (fun modified op hop => ?_) fun modified => ?_
    · exact updateAfterCheck_of_no_update _ _ _ (Program.of_next? (hrest modified) hop)
    · exact Program.follows_of_calls updateAfterCheck_of_no_update (hrest modified)
  · obtain rfl := Option.some.inj hop
    obtain rfl := Option.some.inj hupdate
    cases result <;> exact ⟨rfl, rfl⟩

/-- **The handler looks before each update of its file.** -/
theorem follows_handle : (FileObjectTaskHandler.handle config file).Follows UpdateAfterCheck := by
  have hattempt : (attempt (ingestFile config file)).Calls fun call => call.fileUpdate? = none :=
    calls_attempt (Program.calls_mono calls_ingestFile fun _ h => h.2)
  have hnext : ∀ result op, (finishFile file result).next? = some op → op.fileUpdate? = none := by
    intro result op hop
    obtain rfl := Option.some.inj hop
    rfl
  -- the first check, and the update to `in_progress` after it
  refine follows_checkVectorStoreFileOk (p := (request (.modifyVectorStoreFile
    { fileId := file.fileId, vectorStoreId := file.vectorStoreId, status := .inProgress })).bind
      fun modified => (liftM (assertValue modified "should have VectorStoreFileObject updated") :
        VectorStoreM _).bind fun _ => (attempt (ingestFile config file)).bind (finishFile file))
    ?_ fun op update hop hupdate => ?_
  · refine Program.follows_perform_bind (fun modified op hop => ?_) fun modified => ?_
    · refine updateAfterCheck_of_no_update _ _ _ ?_
      -- no update follows before the second check, which `finishFile` makes
      cases modified with
      | none => simp [assertValue, Program.next?] at hop
      | some found =>
          change ((attempt (ingestFile config file)).bind (finishFile file)).next? = some op at hop
          rcases Program.next?_bind hop with hfirst | ⟨result, hlast⟩
          · exact Program.of_next? hattempt hfirst
          · exact hnext result op hlast
    · cases modified with
      | none => trivial
      | some found =>
          show Program.Follows _ ((attempt (ingestFile config file)).bind (finishFile file))
          exact Program.follows_bind updateAfterCheck_of_no_update hattempt follows_finishFile hnext
  · obtain rfl := Option.some.inj hop
    obtain rfl := Option.some.inj hupdate
    exact ⟨rfl, rfl⟩

theorem isHandlerCall_of_no_update {call : VectorStoreCall}
    (h : call.insertsFiles = false ∧ call.fileUpdate? = none) : call.IsHandlerCall := by
  refine ⟨h.1, fun update hupdate => ?_⟩
  rw [h.2] at hupdate
  simp at hupdate

theorem isHandlerCall_modify {update : ModifyVectorStoreFileRequest}
    (h : update.status ≠ .cancelled) :
    VectorStoreCall.IsHandlerCall (.modifyVectorStoreFile update) := by
  refine ⟨rfl, fun update' hupdate => ?_⟩
  obtain rfl := Option.some.inj hupdate
  exact h

theorem calls_handle :
    (FileObjectTaskHandler.handle config file).Calls VectorStoreCall.IsHandlerCall := by
  have hcheck : VectorStoreCall.IsHandlerCall
      (.getVectorStoreFile file.vectorStoreId file.fileId) :=
    isHandlerCall_of_no_update ⟨rfl, rfl⟩
  refine Program.calls_bind (calls_checkVectorStoreFileOk hcheck) fun ok => ?_
  show Program.Calls _ (if ok = true then (request _).bind _ else _)
  split
  · refine (Program.calls_perform_bind _ _).mpr ⟨isHandlerCall_modify nofun, fun modified => ?_⟩
    refine Program.calls_bind (Program.calls_ofExcept _) fun _ => ?_
    refine Program.calls_bind (calls_attempt (Program.calls_mono calls_ingestFile
      fun _ => isHandlerCall_of_no_update)) fun result => ?_
    -- the last update sets `completed` or `failed`
    refine calls_finishFile hcheck (fun call h => ?_) result (isHandlerCall_modify ?_)
    · exact isHandlerCall_of_no_update (no_update_of_aboutBatches h)
    · cases result <;> nofun
  · trivial

end Handler

/-! ### What every handler at work satisfies -/

/-- Every call of the handler is one of its own, it looks before each update of a file, and
the file that it is about to update is not cancelled. -/
structure HandlerOk (s : Store) (p : VectorStoreM Unit) : Prop where
  calls : p.Calls VectorStoreCall.IsHandlerCall
  follows : p.Follows UpdateAfterCheck
  pending : ∀ update ∈ pendingUpdate? p,
    s.fileStatus? update.vectorStoreId update.fileId ≠ some .cancelled

section HandlerOk

variable {config : FileHandlerConfig} {outside : FileOutside} {s s' : Store}
variable {call : VectorStoreCall} {vectorStoreId fileId : String}

/-- What a call of the handler does to the status of a file. -/
theorem fileStatus?_exec (h : call.IsHandlerCall) (s : Store) (vectorStoreId fileId : String) :
    (call.exec config outside s).2.fileStatus? vectorStoreId fileId
        = s.fileStatus? vectorStoreId fileId ∨
    ∃ update ∈ call.fileUpdate?, update.vectorStoreId = vectorStoreId ∧ update.fileId = fileId ∧
      (call.exec config outside s).2.fileStatus? vectorStoreId fileId ≠ some .cancelled := by
  rcases e : call.fileUpdate? with - | update
  · exact .inl (fileStatus?_of_vectorStoreFiles (exec_vectorStoreFiles e h.1 s))
  · cases call with
    | modifyVectorStoreFile req =>
        obtain rfl := Option.some.inj e
        rcases modifyVectorStoreFile_assigns req s vectorStoreId fileId with
          hsame | ⟨⟨hvs, hfile⟩, hstatus⟩
        · exact .inl hsame
        · refine .inr ⟨req, rfl, hvs, hfile, fun hcancelled => h.2 req rfl ?_⟩
          exact Option.some.inj (hstatus.symm.trans hcancelled)
    | _ => simp [VectorStoreCall.fileUpdate?] at e

/-- A file that was found in progress is not cancelled, and looking changes nothing. -/
theorem fileStatus?_of_findsInProgress
    (h : FindsInProgress vectorStoreId fileId call (call.exec config outside s).1) :
    (call.exec config outside s).2.fileStatus? vectorStoreId fileId = some .inProgress := by
  cases call with
  | getVectorStoreFile vectorStoreId' fileId' =>
      rcases e : VectorStoreCall.exec config outside
        (.getVectorStoreFile vectorStoreId' fileId') s with ⟨found | found, t⟩
      · rw [e] at h
        exact h.elim
      · rw [e] at h
        cases found with
        | none => exact h.elim
        | some file =>
            -- the answer is the row that the statement has found
            obtain ⟨rfl, rfl, hstatus⟩ := h
            obtain ⟨-, -, e⟩ := Action.ok_of_bind_liftM e
            obtain ⟨-, -, e⟩ := Action.ok_of_bind_liftM e
            obtain ⟨hfind, rfl⟩ := Prod.mk.inj e
            exact (congrArg (Option.map (·.status)) (Except.ok.inj hfind)).trans
              (congrArg some hstatus)
  | _ => exact h.elim

theorem HandlerOk.of_status {p : VectorStoreM Unit} (h : HandlerOk s p)
    (hstatus : ∀ vectorStoreId fileId, s.fileStatus? vectorStoreId fileId ≠ some .cancelled →
      s'.fileStatus? vectorStoreId fileId ≠ some .cancelled) : HandlerOk s' p :=
  ⟨h.calls, h.follows, fun update hupdate => hstatus _ _ (h.pending update hupdate)⟩

theorem handlerOk_handle (config : FileHandlerConfig) (s : Store) (file : VectorStoreFileObject) :
    HandlerOk s (FileObjectTaskHandler.handle config file) := by
  refine ⟨calls_handle, follows_handle, fun update hupdate => ?_⟩
  obtain ⟨op, hop, hupdate⟩ := Option.bind_eq_some_iff.mp hupdate
  obtain rfl := Option.some.inj hop
  simp [VectorStoreCall.fileUpdate?] at hupdate

/-- A call of a handler keeps what all handlers satisfy. -/
theorem handlersOk_advance {pool pool' : FilePool} {i : Nat} (h : pool.All HandlerOk)
    (hstep : pool.advance (VectorStoreCall.exec config outside) i = some pool') :
    pool'.All HandlerOk := by
  refine Pool.All.advance h hstep (fun call k hself => ?_) fun call k p hself hp => ?_
  · -- the handler itself: its next update was just checked
    refine ⟨hself.calls.2 _, (hself.follows _).2, fun update hupdate => ?_⟩
    obtain ⟨op, hop, hupdate⟩ := Option.bind_eq_some_iff.mp hupdate
    have hfound := (hself.follows _).1 op hop update hupdate
    rw [fileStatus?_of_findsInProgress hfound]
    nofun
  · -- another handler: no file gets cancelled by this call
    refine hp.of_status fun vectorStoreId fileId hnot => ?_
    rcases fileStatus?_exec hself.calls.1 pool.store vectorStoreId fileId with
      hsame | ⟨_, _, _, _, hstatus⟩
    · rw [hsame]
      exact hnot
    · exact hstatus

/-- **Step lemma.**  Every event keeps what all handlers satisfy, unless it cancels a file that
a handler is about to update. -/
theorem handlersOk_step {pool pool' : FilePool} {event : FileEvent} (h : pool.All HandlerOk)
    (hok : event.Undisturbed pool) (hstep : fileStep config pool event = some pool') :
    pool'.All HandlerOk := by
  cases event with
  | take file =>
      obtain rfl := Option.some.inj hstep
      exact h.spawn (handlerOk_handle config pool.store file)
  | handler i outside => exact handlersOk_advance h hstep
  | cancel req =>
      obtain rfl := Option.some.inj hstep
      intro p hp
      -- the cancelled files must be none that this handler is about to update
      obtain ⟨hcalls, hfollows, hpending⟩ := h p hp
      refine ⟨hcalls, hfollows, fun update hupdate => ?_⟩
      rcases cancelVectorStoreFileBatch_cancels req pool.store update.vectorStoreId
        update.fileId with hsame | ⟨⟨file, hmem, hfile, hbatch, hprogress⟩, -⟩
      · exact fun hcancelled => hpending update hupdate (hsame.symm.trans hcancelled)
      · exact absurd hprogress (hok p hp update hupdate file hmem hfile hbatch)

/-- **Step lemma.**  No event makes a cancelled file anything else. -/
theorem cancelled_fileStep {pool pool' : FilePool} {event : FileEvent} (h : pool.All HandlerOk)
    (hstep : fileStep config pool event = some pool')
    (hcancelled : pool.store.fileStatus? vectorStoreId fileId = some .cancelled) :
    pool'.store.fileStatus? vectorStoreId fileId = some .cancelled := by
  cases event with
  | take file =>
      obtain rfl := Option.some.inj hstep
      exact hcancelled
  | handler i outside =>
      obtain ⟨call, k, hmem, rfl⟩ := Pool.advance_cases hstep
      obtain ⟨hcalls, -, hpending⟩ := h _ hmem
      -- an update of this file would be pending, which the invariant excludes
      rcases @fileStatus?_exec config outside call hcalls.1 pool.store vectorStoreId fileId with
        hsame | ⟨update, hupdate, rfl, rfl, -⟩
      · exact hsame.trans hcancelled
      · exact absurd hcancelled (hpending update hupdate)
  | cancel req =>
      obtain rfl := Option.some.inj hstep
      rcases cancelVectorStoreFileBatch_cancels req pool.store vectorStoreId fileId with
        hsame | ⟨-, hstatus⟩
      · exact hsame.trans hcancelled
      · exact hstatus

end HandlerOk

/-! ### Runs -/

/-- **A cancelled file stays cancelled**, in every run in which no cancellation falls between
a handler's look at a file and the update that follows it. -/
theorem cancelled_file_stays (config : FileHandlerConfig) (s : Store) (pool pool' : FilePool)
    (vectorStoreId fileId : String)
    (h : Runs (fileStep config) (fun pool event => event.Undisturbed pool) { store := s } pool)
    (hcancelled : pool.store.fileStatus? vectorStoreId fileId = some .cancelled)
    (h' : Runs (fileStep config) (fun pool event => event.Undisturbed pool) pool pool') :
    pool'.store.fileStatus? vectorStoreId fileId = some .cancelled := by
  have hinitial : ({ store := s } : FilePool).All HandlerOk := nofun
  have hpool : pool.All HandlerOk :=
    h.invariant (fun _ _ _ hi hok hstep => handlersOk_step hi hok hstep) hinitial
  refine (h'.invariant (I := fun pool => pool.All HandlerOk ∧
    pool.store.fileStatus? vectorStoreId fileId = some .cancelled) ?_ ⟨hpool, hcancelled⟩).2
  rintro _ event _ ⟨hi, hstatus⟩ hok hstep
  exact ⟨handlersOk_step hi hok hstep, cancelled_fileStep hi hstep hstatus⟩

/-- A file of a batch, in progress. -/
def waitingFile : VectorStoreFileObject :=
  { fileId := "file_1", vectorStoreId := "vs_1", status := .inProgress, fileBatchId := "vsfb_1" }

/-- The batch with this one file. -/
def waitingFileStore : Store where
  vectorStoreFiles := { rows := [waitingFile], nodup := by decide, valid := by decide }
  vectorStoreFileBatches :=
    { rows := [{ id := "vsfb_1", vectorStoreId := "vs_1", status := .inProgress }]
      nodup := by decide
      valid := by decide }

/-- A client cancels the batch. -/
def cancelBatch : FileEvent := .cancel { batchId := "vsfb_1", vectorStoreId := "vs_1" }

/-- The handler has made its first calls. -/
def handlerAtWork (calls : Nat) : FilePool :=
  (execute (fileStep { retriever := wholeTexts })
    (.take waitingFile :: List.replicate calls (.handler 0 {})) { store := waitingFileStore }).getD
      { store := waitingFileStore }

/-- The batch is cancelled after these calls. -/
def cancelledAfter (calls : Nat) : FilePool :=
  (fileStep { retriever := wholeTexts } (handlerAtWork calls) cancelBatch).getD
    (handlerAtWork calls)

theorem undisturbed_take_handler (calls : Nat) (pool : FilePool) :
    ∀ event ∈ FileEvent.take waitingFile :: List.replicate calls (.handler 0 {}),
      event.Undisturbed pool := by
  intro event hevent
  rcases List.mem_cons.mp hevent with rfl | hevent
  · trivial
  · obtain rfl := List.eq_of_mem_replicate hevent
    trivial

/-- The file stays cancelled when the batch is cancelled after the first update: the handler
looks again and stops. -/
theorem cancelled_file_stays_waiting :
    ∃ pool, execute (fileStep { retriever := wholeTexts })
        [.handler 0 {}, .handler 0 {}] (cancelledAfter 2) = some pool ∧
      pool.store.fileStatus? "vs_1" "file_1" = some .cancelled := by
  have hbefore : Runs (fileStep { retriever := wholeTexts })
      (fun pool event => event.Undisturbed pool) { store := waitingFileStore } (handlerAtWork 2) :=
    runs_of_execute (undisturbed_take_handler 2) rfl
  have hcancel : Runs (fileStep { retriever := wholeTexts })
      (fun pool event => event.Undisturbed pool) { store := waitingFileStore } (cancelledAfter 2) :=
    hbefore.tail ⟨cancelBatch, by decide, rfl⟩
  refine ⟨_, rfl, cancelled_file_stays { retriever := wholeTexts } waitingFileStore
    (cancelledAfter 2) _ "vs_1" "file_1" hcancel rfl ?_⟩
  exact @runs_of_execute _ _ _ _ _ _ (List.replicate 2 (.handler 0 {}))
    (fun pool event hevent => List.eq_of_mem_replicate hevent ▸ trivial) rfl

/-- The batch is cancelled after the handler looked at the file: its update sets the file to
`in_progress` again. -/
theorem cancelled_file_reopened :
    ¬ ∀ config s pool pool' vectorStoreId fileId,
      Reaches (fileStep config) { store := s } pool →
      pool.store.fileStatus? vectorStoreId fileId = some .cancelled →
      Reaches (fileStep config) pool pool' →
      pool'.store.fileStatus? vectorStoreId fileId = some .cancelled := by
  intro h
  -- the handler has checked the file when the batch is cancelled
  have hcancel : Reaches (fileStep { retriever := wholeTexts }) { store := waitingFileStore }
      (cancelledAfter 1) :=
    runs_of_execute (fun _ _ _ => trivial) (show execute (fileStep { retriever := wholeTexts })
      [.take waitingFile, .handler 0 {}, cancelBatch] { store := waitingFileStore } = _ from rfl)
  -- and its next call is the update
  have hupdate : Reaches (fileStep { retriever := wholeTexts }) (cancelledAfter 1)
      (((cancelledAfter 1).advance (VectorStoreCall.exec { retriever := wholeTexts } {}) 0).getD
        (cancelledAfter 1)) :=
    .single ⟨.handler 0 {}, trivial, rfl⟩
  have hstays := h { retriever := wholeTexts } waitingFileStore _ _ "vs_1" "file_1" hcancel rfl
    hupdate
  exact absurd hstays (by decide)

end Instinct
