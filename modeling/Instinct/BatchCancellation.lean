/-
Instinct/BatchCancellation.lean

What `CancelVectorStoreFileBatch` leaves behind.

The call sets the batch to `cancelled` first, whatever its status was, and throws
afterwards if no file was in progress.  So a batch without such a file ends up
half-cancelled (`cancelVectorStoreFileBatch_of_not_selects`), and one that is done
can still be cancelled.  `cancels_all_or_nothing_iff` says which requests leave
everything or nothing.
-/
import Instinct.VectorStores

namespace Instinct

open Effects Tables

/-! ### Whole cancellations -/

/-- A file of the batch that is in progress. -/
def isWaitingFile (batchId : String) (file : VectorStoreFileObject) : Bool :=
  file.fileBatchId = batchId && file.status = .inProgress

/-- The batch is cancelled with all its files, or, when the call throws, nothing is changed. -/
def CancelsAllOrNothing (batch : VectorStoreFileBatchObject) (s : Store) :
    Except Exn (Option VectorStoreFileBatchObject) × Store → Prop
  | (.error _, s') =>
      s'.vectorStoreFileBatches.rows = s.vectorStoreFileBatches.rows ∧
      s'.vectorStoreFiles.rows = s.vectorStoreFiles.rows
  | (.ok _, s') =>
      batch.status = .inProgress ∧
      (s'.vectorStoreFileBatches.find? fun row => row.id = batch.id).map (·.status)
        = some .cancelled ∧
      s'.vectorStoreFiles.rows = s.vectorStoreFiles.rows.map fun file =>
        if isWaitingFile batch.id file then file.cancel else file

/-- The update of the batch. -/
def CancelVectorStoreFileBatchRequest.update (req : CancelVectorStoreFileBatchRequest) :
    ModifyVectorStoreFileBatchRequest :=
  { status := .cancelled, batchId := req.batchId, vectorStoreId := req.vectorStoreId }

/-- The files that `CancelVectorStoreFiles` updates for the request. -/
def CancelVectorStoreFileBatchRequest.selects (req : CancelVectorStoreFileBatchRequest)
    (file : VectorStoreFileObject) : Bool :=
  isFileOfBatch req.vectorStoreId req.batchId file && file.status = .inProgress

/-- The request names a vector store, with a file of the batch that is in progress. -/
def CancelVectorStoreFileBatchRequest.SelectsSome (req : CancelVectorStoreFileBatchRequest)
    (s : Store) : Prop :=
  isBlankString req.vectorStoreId = false ∧ ∃ file ∈ s.vectorStoreFiles.rows, req.selects file

/-- The store after an update of the files. -/
def Store.cancelFiles (s : Store) (req : CancelVectorStoreFileBatchRequest) : Store :=
  { s with
    vectorStoreFiles := s.vectorStoreFiles.update req.selects VectorStoreFileObject.cancel
      cancel_key cancel_status_ne }

section Cancellation

variable {req : CancelVectorStoreFileBatchRequest} {s : Store} {batch : VectorStoreFileBatchObject}

/-! ### The two updates -/

theorem findBatch_eq (hbatch : batch ∈ s.vectorStoreFileBatches.rows) :
    s.vectorStoreFileBatches.find? (fun row => row.id = batch.id) = some batch :=
  Table.find?_eq_some_of_mem hbatch (decide_eq_true rfl) fun _ hrow => of_decide_eq_true hrow

theorem isBlankString_batchId (hbatch : batch ∈ s.vectorStoreFileBatches.rows)
    (hid : req.batchId = batch.id) : isBlankString req.batchId = false := by
  rw [hid]
  exact s.vectorStoreFileBatches.valid batch hbatch

/-- One batch has the id of the request. -/
theorem updateVectorStoreFileBatch_eq (hbatch : batch ∈ s.vectorStoreFileBatches.rows)
    (hid : req.batchId = batch.id) :
    VectorStoreFileBatchDataMapper.updateVectorStoreFileBatch req.update s
      = (.ok 1, s.assignFileBatch req.update) := by
  have hblank : isBlankString req.update.batchId = false := isBlankString_batchId hbatch hid
  have hcount : s.vectorStoreFileBatches.count (fun row => row.id = req.batchId) = 1 := by
    rw [hid]
    exact Table.count_of_find?_some (findBatch_eq hbatch) fun _ hrow => of_decide_eq_true hrow
  refine (Action.bind_of_ok (congrArg (·, s) (templateVariable_of_not_blank hblank))).trans ?_
  rw [← hcount]
  rfl

theorem cancelVectorStoreFiles_eq (hid : isBlankString req.batchId = false)
    (hvs : isBlankString req.vectorStoreId = false) (s : Store) :
    VectorStoreFileDataMapper.cancelVectorStoreFiles req.vectorStoreId req.batchId s
      = (.ok (s.vectorStoreFiles.count req.selects), s.cancelFiles req) := by
  refine (Action.bind_of_ok (congrArg (·, s) (assertNotBlank_of hid))).trans ?_
  exact Action.bind_of_ok (congrArg (·, s) (assertNotBlank_of hvs))

/-- A cancellation updates the batch, and goes on from there. -/
theorem cancelVectorStoreFileBatch_eq (hbatch : batch ∈ s.vectorStoreFileBatches.rows)
    (hid : req.batchId = batch.id) :
    cancelVectorStoreFileBatch req s
      = (do
          let files ← VectorStoreFileDataMapper.cancelVectorStoreFiles req.vectorStoreId req.batchId
          assertTrue (0 < files) "should have vector store files updated"
          getVectorStoreFileBatch req.vectorStoreId req.batchId : ServiceM _)
        (s.assignFileBatch req.update) := by
  refine (Action.bind_of_ok (congrArg (·, s)
    (assertNotBlank_of (isBlankString_batchId hbatch hid)))).trans ?_
  exact Action.bind_of_ok (updateVectorStoreFileBatch_eq hbatch hid)

/-- The updated batch is in its place. -/
theorem assign_mem (hbatch : batch ∈ s.vectorStoreFileBatches.rows)
    (hid : req.batchId = batch.id) :
    batch.assign req.update s.clock ∈ (s.assignFileBatch req.update).vectorStoreFileBatches.rows :=
  List.mem_map.mpr ⟨batch, hbatch, if_pos (decide_eq_true hid.symm)⟩

/-! ### What a cancellation leaves -/

/-- A file in progress is cancelled, and the call returns. -/
theorem cancelVectorStoreFileBatch_of_selectsSome (hbatch : batch ∈ s.vectorStoreFileBatches.rows)
    (hid : req.batchId = batch.id) (hselects : req.SelectsSome s) :
    ∃ found, cancelVectorStoreFileBatch req s
      = (.ok (some found), (s.assignFileBatch req.update).cancelFiles req) := by
  obtain ⟨hvs, file, hfile, hsel⟩ := hselects
  have hcount : 0 < (s.assignFileBatch req.update).vectorStoreFiles.count req.selects :=
    List.length_pos_of_mem (List.mem_filter.mpr ⟨hfile, hsel⟩)
  have hmem : batch.assign req.update s.clock
      ∈ ((s.assignFileBatch req.update).cancelFiles req).vectorStoreFileBatches.rows :=
    assign_mem hbatch hid
  refine ⟨((s.assignFileBatch req.update).cancelFiles req).withBatchCounts req.vectorStoreId
    (batch.assign req.update s.clock), ?_⟩
  rw [cancelVectorStoreFileBatch_eq hbatch hid, Action.bind_of_ok
    (cancelVectorStoreFiles_eq (isBlankString_batchId hbatch hid) hvs _), assertTrue_of hcount]
  refine (Action.bind_of_ok rfl).trans ?_
  rw [hid]
  exact getVectorStoreFileBatch_eq hmem hvs

/-- Without a file in progress the call throws, after the update of the batch. -/
theorem cancelVectorStoreFileBatch_of_not_selectsSome
    (hbatch : batch ∈ s.vectorStoreFileBatches.rows) (hid : req.batchId = batch.id)
    (hselects : ¬ req.SelectsSome s) :
    ∃ e s', cancelVectorStoreFileBatch req s = (.error e, s') ∧
      s'.vectorStoreFileBatches = (s.assignFileBatch req.update).vectorStoreFileBatches ∧
      s'.vectorStoreFiles.rows = s.vectorStoreFiles.rows := by
  rw [cancelVectorStoreFileBatch_eq hbatch hid]
  by_cases hvs : isBlankString req.vectorStoreId = false
  · have hnone : ∀ file ∈ s.vectorStoreFiles.rows, ¬ req.selects file = true :=
      fun file hfile hsel => hselects ⟨hvs, file, hfile, hsel⟩
    have hcount : ¬ 0 < (s.assignFileBatch req.update).vectorStoreFiles.count req.selects := by
      have hzero : s.vectorStoreFiles.count req.selects = 0 :=
        Table.count_of_find?_none (List.find?_eq_none.mpr hnone)
      exact fun hpos => Nat.ne_of_gt hpos hzero
    refine ⟨.client "should have vector store files updated",
      (s.assignFileBatch req.update).cancelFiles req, ?_, rfl, ?_⟩
    · rw [Action.bind_of_ok (cancelVectorStoreFiles_eq (isBlankString_batchId hbatch hid) hvs _)]
      exact Action.bind_of_error (congrArg (·, _) (if_neg hcount))
    · -- the update of the files meets no row
      exact (List.map_congr_left fun file hfile => if_neg (hnone file hfile)).trans
        (List.map_id' _)
  · have hblank : isBlankString req.vectorStoreId = true := (Bool.not_eq_false _).mp hvs
    refine ⟨.client "should provide vector_store_id", s.assignFileBatch req.update,
      Action.bind_of_error ?_, rfl, rfl⟩
    refine (Action.bind_of_ok (congrArg (·, _) (assertNotBlank_of
      (isBlankString_batchId hbatch hid)))).trans ?_
    exact Action.bind_of_error (congrArg (·, _) (if_pos hblank))

/-! ### Exactly when all or nothing is done -/

/-- The files that are in progress are those that are selected, if they are in the vector store
of the request. -/
theorem cancelFiles_rows_iff (hid : req.batchId = batch.id) :
    (s.cancelFiles req).vectorStoreFiles.rows = (s.vectorStoreFiles.rows.map fun file =>
        if isWaitingFile batch.id file then file.cancel else file)
      ↔ ∀ file ∈ s.vectorStoreFiles.rows, isWaitingFile batch.id file = true →
          file.vectorStoreId = req.vectorStoreId := by
  have hselects : ∀ file : VectorStoreFileObject, req.selects file
      = (decide (file.vectorStoreId = req.vectorStoreId) && isWaitingFile batch.id file) := by
    intro file
    rw [CancelVectorStoreFileBatchRequest.selects, isFileOfBatch, isWaitingFile, hid,
      Bool.and_assoc]
  refine List.map_inj_left.trans (forall₂_congr fun file _ => ?_)
  rw [hselects]
  by_cases hwaits : isWaitingFile batch.id file = true
  · have hprogress : file.status = .inProgress :=
      of_decide_eq_true (Bool.and_eq_true_iff.mp hwaits).2
    by_cases hvs : file.vectorStoreId = req.vectorStoreId
    · simp only [hwaits, hvs, decide_true, Bool.and_self, if_true, forall_const]
    · -- the file is left in progress
      have hne : file ≠ file.cancel := by
        intro h
        have hcancelled : file.status = .cancelled := congrArg (·.status) h
        rw [hprogress] at hcancelled
        cases hcancelled
      simp only [hwaits, hvs, hne, decide_false, Bool.false_and, Bool.false_eq_true, if_false,
        if_true, forall_const]
  · simp only [hwaits, Bool.and_false, Bool.false_eq_true, if_false, false_implies]

/-- The update of the batch changes no row if the batch looked like that before. -/
theorem assignFileBatch_rows_iff (hbatch : batch ∈ s.vectorStoreFileBatches.rows)
    (hid : req.batchId = batch.id) :
    (s.assignFileBatch req.update).vectorStoreFileBatches.rows = s.vectorStoreFileBatches.rows
      ↔ batch.status = .cancelled ∧ batch.modifiedAt = s.clock := by
  have hsame : batch.assign req.update s.clock = batch
      ↔ batch.status = .cancelled ∧ batch.modifiedAt = s.clock := by
    constructor
    · intro h
      exact ⟨(congrArg (·.status) h).symm, (congrArg (·.modifiedAt) h).symm⟩
    · rintro ⟨hstatus, hmodified⟩
      cases batch
      subst hstatus hmodified
      rfl
  have hrows : (s.assignFileBatch req.update).vectorStoreFileBatches.rows
      = s.vectorStoreFileBatches.rows.map fun row =>
        if row.id = req.batchId then row.assign req.update s.clock else row := by
    show (s.vectorStoreFileBatches.rows.map fun row =>
      if decide (row.id = req.batchId) = true then row.assign req.update s.clock else row) = _
    simp only [decide_eq_true_eq]
  rw [← hsame, hrows]
  constructor
  · intro h
    have hrow := List.map_inj_left.mp (h.trans (List.map_id' _).symm) batch hbatch
    exact (if_pos hid.symm).symm.trans hrow
  · intro h
    refine (List.map_congr_left fun row hrow => ?_).trans (List.map_id' _)
    split
    · -- no other row has the id
      rename_i hrid
      have heq : row = batch := List.inj_on_of_nodup_map s.vectorStoreFileBatches.nodup hrow hbatch
        (hrid.trans hid)
      rw [heq]
      exact h
    · rfl

/-- **A cancellation is all or nothing** if and only if the batch is in progress and its files
in progress, of which there are some, are in the vector store of the request; or no file is
selected, and the row of the batch is the one that the update writes. -/
theorem cancels_all_or_nothing_iff (hbatch : batch ∈ s.vectorStoreFileBatches.rows)
    (hid : req.batchId = batch.id) :
    CancelsAllOrNothing batch s (cancelVectorStoreFileBatch req s)
      ↔ (req.SelectsSome s ∧ batch.status = .inProgress ∧
          ∀ file ∈ s.vectorStoreFiles.rows, isWaitingFile batch.id file = true →
            file.vectorStoreId = req.vectorStoreId) ∨
        (¬ req.SelectsSome s ∧ batch.status = .cancelled ∧ batch.modifiedAt = s.clock) := by
  by_cases hselects : req.SelectsSome s
  · obtain ⟨found, h⟩ := cancelVectorStoreFileBatch_of_selectsSome hbatch hid hselects
    have hcancelled : (((s.assignFileBatch req.update).cancelFiles req).vectorStoreFileBatches.find?
        fun row => row.id = batch.id).map (·.status) = some .cancelled := by
      have hmem : batch.assign req.update s.clock
          ∈ ((s.assignFileBatch req.update).cancelFiles req).vectorStoreFileBatches.rows :=
        assign_mem hbatch hid
      exact congrArg (Option.map (·.status)) (findBatch_eq hmem)
    rw [h]
    simp only [hselects, true_and, not_true_eq_false, false_and, or_false]
    refine and_congr_right fun _ => (and_iff_right hcancelled).trans ?_
    exact cancelFiles_rows_iff (s := s.assignFileBatch req.update) hid
  · obtain ⟨e, s', h, hbatches, hfiles⟩ :=
      cancelVectorStoreFileBatch_of_not_selectsSome hbatch hid hselects
    rw [h]
    simp only [hselects, false_and, false_or, not_false_eq_true, true_and]
    refine (and_iff_left hfiles).trans ?_
    rw [hbatches]
    exact assignFileBatch_rows_iff hbatch hid

end Cancellation

/-! ### Batches -/

/-- A store with one batch and one file of it. -/
def oneFileBatch (batchStatus : VectorStoreFileBatchStatus) (fileStatus : VectorStoreFileStatus)
    (hvalid : fileStatus ≠ .unknownVectorStoreFileStatus) : Store where
  vectorStoreFiles :=
    { rows := [{ fileId := "file_1", vectorStoreId := "vs_1", status := fileStatus,
                 fileBatchId := "vsfb_1" }]
      nodup := List.nodup_singleton _
      valid := List.forall_mem_singleton.mpr hvalid }
  vectorStoreFileBatches :=
    { rows := [{ id := "vsfb_1", vectorStoreId := "vs_1", status := batchStatus }]
      nodup := List.nodup_singleton _
      valid := List.forall_mem_singleton.mpr (show isBlankString "vsfb_1" = false by decide) }

/-- A pending batch is cancelled with its file. -/
theorem cancels_all_or_nothing_pending :
    CancelsAllOrNothing { id := "vsfb_1", vectorStoreId := "vs_1", status := .inProgress }
      (oneFileBatch .inProgress .inProgress (by decide))
      (cancelVectorStoreFileBatch { batchId := "vsfb_1", vectorStoreId := "vs_1" }
        (oneFileBatch .inProgress .inProgress (by decide))) := by
  refine (cancels_all_or_nothing_iff (List.mem_singleton.mpr rfl) rfl).mpr (.inl ⟨?_, rfl, ?_⟩)
  · exact ⟨by decide, _, List.mem_singleton.mpr rfl, by decide⟩
  · intro file hfile _
    rw [List.mem_singleton.mp hfile]

/-- A pending batch whose file is completed: the call throws, and the batch is cancelled. -/
theorem cancels_half : ¬ ∀ (req : CancelVectorStoreFileBatchRequest) (s : Store)
    (batch : VectorStoreFileBatchObject), batch ∈ s.vectorStoreFileBatches.rows →
    req.batchId = batch.id →
    CancelsAllOrNothing batch s (cancelVectorStoreFileBatch req s) := by
  intro h
  have hrows := h { batchId := "vsfb_1", vectorStoreId := "vs_1" }
    (oneFileBatch .inProgress .completed (by decide)) _ (List.mem_singleton.mpr rfl) rfl
  exact absurd (congrArg (List.map (·.status)) hrows.1) (by decide)

end Instinct
