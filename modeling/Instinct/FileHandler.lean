/-
Instinct/FileHandler.lean

The end of `FileObjectTaskHandler::Handle`: the update of the batch.

The handler counts the files of the batch by their statuses, and lets one
cancelled file outweigh the failed ones.  The background task lets the last file
of its page decide.  `batch_status_agrees_iff` says for which batches the two
give the same terminal status.
-/
import Instinct.FileBatches
import Instinct.VectorStoreCalls

namespace Instinct

open Effects Tables Paging

/-! ### What the counts say -/

section Counts

variable {files : List VectorStoreFileObject}

theorem countP_status_pos {status : VectorStoreFileStatus} :
    0 < files.countP (fun file => file.status = status) ↔ ∃ file ∈ files, file.status = status := by
  rw [List.countP_pos_iff]
  simp only [decide_eq_true_eq]

/-- Without files in progress the counts of a batch with one kind of spoiled files give the
status that the files call for. -/
theorem status_fileCounts
    (hknown : ∀ file ∈ files, file.status ≠ .unknownVectorStoreFileStatus)
    (hnowait : ∀ file ∈ files, file.status ≠ .inProgress)
    (hone : (∀ file ∈ files, file.status ≠ .failed) ∨ ∀ file ∈ files, file.status ≠ .cancelled) :
    expectedStatus files = some (fileCounts files).status := by
  unfold FileCounts.status fileCounts
  simp only [countP_status_pos, List.countP_eq_length, decide_eq_true_eq]
  -- all files are completed, or one of them has failed or was cancelled
  by_cases hall : ∀ file ∈ files, file.status = .completed
  · rw [expectedStatus_eq_completed_iff.mpr hall]
    have hno : ∀ status : VectorStoreFileStatus, status ≠ .completed →
        ¬ ∃ file ∈ files, file.status = status := by
      rintro status hne ⟨file, hfile, rfl⟩
      exact hne (hall file hfile)
    rw [if_neg (hno .cancelled nofun), if_neg (hno .failed nofun), if_pos hall]
  · obtain ⟨file, hnot⟩ := not_forall.mp hall
    obtain ⟨hfile, hstatus⟩ := Classical.not_imp.mp hnot
    have hopen : file.isOpen = true := decide_eq_true hstatus
    rw [expectedStatus_of_spoiled ⟨file, hfile, hopen⟩ hnowait]
    have hspoiled := failed_or_cancelled hopen (hknown file hfile) (hnowait file hfile)
    -- the two read the files in different orders, so only one of the statuses may occur
    rcases hone with hnone | hnone
    · rw [if_neg fun ⟨f, hf, hfailed⟩ => hnone f hf hfailed,
        if_pos ⟨file, hfile, hspoiled.resolve_left (hnone file hfile)⟩]
    · have hfailed := hspoiled.resolve_right (hnone file hfile)
      rw [if_pos ⟨file, hfile, hfailed⟩, if_neg fun ⟨f, hf, hcancelled⟩ => hnone f hf hcancelled,
        if_pos ⟨file, hfile, hfailed⟩]

end Counts

/-! ### The update of the batch -/

section UpdateFileBatch

variable {config : FileHandlerConfig} {outside : FileOutside} {s : Store}
variable {batch : VectorStoreFileBatchObject} {file : VectorStoreFileObject}

theorem withBatchCounts_eq (hbatch : batch ∈ s.vectorStoreFileBatches.rows) :
    s.withBatchCounts batch.vectorStoreId batch
      = { batch with fileCounts := fileCounts (s.batchFiles batch) } := by
  -- the id is not blank, so the statement restricts to the batch
  have hne : batch.id ≠ "" := by
    intro hempty
    have hvalid := s.vectorStoreFileBatches.valid batch hbatch
    rw [hempty] at hvalid
    simp at hvalid
  have hfun : (fun file : VectorStoreFileObject =>
        decide (file.vectorStoreId = batch.vectorStoreId) &&
          (decide (batch.id = "") || decide (file.fileBatchId = batch.id)))
      = isFileOfBatch batch.vectorStoreId batch.id := by
    funext file
    rw [isFileOfBatch, decide_eq_false hne, Bool.false_or]
  rw [Store.withBatchCounts, hfun]
  rfl

/-- **The update that the handler makes**, once no file of the batch is in progress. -/
theorem updateFileBatch_run (hbatch : batch ∈ s.vectorStoreFileBatches.rows)
    (hvs : isBlankString batch.vectorStoreId = false)
    (hvectorStore : file.vectorStoreId = batch.vectorStoreId) (hid : file.fileBatchId = batch.id)
    (hnowait : ∀ file ∈ s.batchFiles batch, file.status ≠ .inProgress) :
    ∃ update s', (updateFileBatch file).run (VectorStoreCall.exec config outside) s
        = (.ok (some update), s') ∧
      update.status = (fileCounts (s.batchFiles batch)).status := by
  have hget : VectorStoreCall.exec config outside
        (.getVectorStoreFileBatch file.vectorStoreId file.fileBatchId) s
      = (.ok (some { batch with fileCounts := fileCounts (s.batchFiles batch) }), s) := by
    rw [hvectorStore, hid, ← withBatchCounts_eq hbatch]
    exact getVectorStoreFileBatch_eq hbatch hvs
  -- no file is in progress, so the handler decides
  have hzero : (fileCounts (s.batchFiles batch)).inProgress = 0 := by
    refine Nat.eq_zero_of_not_pos fun hpos => ?_
    obtain ⟨f, hf, hprogress⟩ := countP_status_pos.mp hpos
    exact hnowait f hf hprogress
  let update : ModifyVectorStoreFileBatchRequest :=
    { vectorStoreId := batch.vectorStoreId
      batchId := batch.id
      status := (fileCounts (s.batchFiles batch)).status }
  obtain ⟨found, hmodify⟩ := @modifyVectorStoreFileBatch_ok update s batch hbatch rfl hvs
  have hmodify' : VectorStoreCall.exec config outside (.modifyVectorStoreFileBatch update) s
      = (.ok (some found), s.assignFileBatch update) := hmodify
  refine ⟨update, s.assignFileBatch update, ?_, rfl⟩
  rw [updateFileBatch, Program.bind_eq, Program.run_perform_bind, hget]
  simp only [hzero, if_true]
  rw [Program.bind_eq, Program.run_perform_bind, hmodify']
  rfl

end UpdateFileBatch

/-! ### The two statuses of a batch -/

/-- The handler of a file sets a status of the batch, and the background task sets the same one,
in every order of the files. -/
def BatchStatusAgrees (config : FileHandlerConfig) (outside : FileOutside) (s : Store)
    (batch : VectorStoreFileBatchObject) (file : VectorStoreFileObject) : Prop :=
  ∃ update s', (updateFileBatch file).run (VectorStoreCall.exec config outside) s
      = (.ok (some update), s') ∧
    ∀ t, Reordered s t → ∀ rounds, ∃ update' t',
      handleFileBatch (rounds + 1) batch t = (.ok (some (some update')), t') ∧
      update'.status = update.status

section Agree

variable {config : FileHandlerConfig} {outside : FileOutside} {s : Store}
variable {batch : VectorStoreFileBatchObject} {file : VectorStoreFileObject}

theorem Reordered.mem_batches {t : Store} (h : Reordered s t)
    (hbatch : batch ∈ s.vectorStoreFileBatches.rows) :
    batch ∈ t.vectorStoreFileBatches.rows := by
  obtain ⟨table, rfl, -⟩ := h
  exact hbatch

theorem oneVerdict_of_batchStatusAgrees (hbatch : batch ∈ s.vectorStoreFileBatches.rows)
    (h : BatchStatusAgrees config outside s batch file) :
    isBlankString batch.vectorStoreId = false ∧ batch.vectorStoreId ∈ s.vectorStoreInstances ∧
      OneVerdict (s.batchFiles batch) := by
  obtain ⟨update, s', -, hsame⟩ := h
  obtain ⟨update', t', hresult, -⟩ := hsame s (.refl s) 0
  obtain ⟨hvs, hloaded⟩ := loaded_of_handleFileBatch hresult
  -- every order of the files is the order of some reordered store
  have hverdict : ∀ order : List VectorStoreFileObject, order.Perm (s.batchFiles batch) →
      verdict (order.take 21) = some update.status := by
    intro order horder
    obtain ⟨t, hr, hpage⟩ := exists_reordered horder
    obtain ⟨update', t', hresult, hstatus⟩ := hsame t hr 0
    obtain ⟨hvs', hloaded'⟩ := loaded_of_handleFileBatch hresult
    obtain ⟨update?, -, hverdict, heq⟩ :=
      handleFileBatch_eq 0 (hr.mem_batches hbatch) hvs' hloaded'
    obtain ⟨hupdate, -⟩ := Prod.mk.inj (hresult.symm.trans heq)
    obtain rfl := Option.some.inj (Except.ok.inj hupdate)
    rw [hpage, verdict_map_untimed] at hverdict
    rw [← hverdict, Option.map_some, hstatus]
  exact ⟨hvs, hloaded, oneVerdict_of_agree hverdict⟩

/-- The background task comes to the status that the counts give. -/
theorem batchStatusAgrees_of_oneVerdict (hbatch : batch ∈ s.vectorStoreFileBatches.rows)
    (hfile : file ∈ s.batchFiles batch) (hvs : isBlankString batch.vectorStoreId = false)
    (hloaded : batch.vectorStoreId ∈ s.vectorStoreInstances)
    (hnowait : ∀ file ∈ s.batchFiles batch, file.status ≠ .inProgress)
    (hverdict : OneVerdict (s.batchFiles batch))
    (hone : (∀ file ∈ s.batchFiles batch, file.status ≠ .failed) ∨
      ∀ file ∈ s.batchFiles batch, file.status ≠ .cancelled) :
    BatchStatusAgrees config outside s batch file := by
  have hof := (List.mem_filter.mp hfile).2
  simp only [isFileOfBatch, Bool.and_eq_true, decide_eq_true_eq] at hof
  obtain ⟨update, s', hrun, hstatus⟩ :=
    @updateFileBatch_run config outside s batch file hbatch hvs hof.1 hof.2 hnowait
  -- the handler decides by the counts, the task by the first page
  have hexpected := status_fileCounts (fun _ => status_of_mem_batchFiles) hnowait hone
  refine ⟨update, s', hrun, fun t hr rounds => ?_⟩
  have hloaded' : batch.vectorStoreId ∈ t.vectorStoreInstances := by
    obtain ⟨table, rfl, -⟩ := hr
    exact hloaded
  obtain ⟨update?, -, hpageverdict, heq⟩ :=
    handleFileBatch_eq rounds (hr.mem_batches hbatch) hvs hloaded'
  -- one verdict, whichever page it is
  have hpage : verdict (t.firstPage batch) = expectedStatus (t.batchFiles batch) :=
    (hr.oneVerdict_iff.mpr hverdict).verdict_eq (fun _ => status_of_mem_batchFiles)
      (arrange_perm _ _ _)
  rw [hpage, hr.expectedStatus_eq, hexpected] at hpageverdict
  obtain ⟨update', rfl, hupdate⟩ := Option.map_eq_some_iff.mp hpageverdict
  exact ⟨update', _, heq, hupdate.trans hstatus.symm⟩

end Agree

/-- **When the handler and the background task agree.**  For a batch with no file in progress,
one of whose files was just handled, the status that the handler sets is the status that the
background task sets, in every order of the files, exactly when the retriever can be loaded and
all files are completed, or at most 20 are and the others have all failed or were all
cancelled. -/
theorem batch_status_agrees_iff (config : FileHandlerConfig) (outside : FileOutside) (s : Store)
    (batch : VectorStoreFileBatchObject) (file : VectorStoreFileObject)
    (hbatch : batch ∈ s.vectorStoreFileBatches.rows) (hfile : file ∈ s.batchFiles batch)
    (hnowait : ∀ file ∈ s.batchFiles batch, file.status ≠ .inProgress) :
    BatchStatusAgrees config outside s batch file ↔
    isBlankString batch.vectorStoreId = false ∧ batch.vectorStoreId ∈ s.vectorStoreInstances ∧
      ((∀ file ∈ s.batchFiles batch, file.status = .completed) ∨
        ((s.batchFiles batch).countP fun file => file.status = .completed) ≤ 20 ∧
          ((∀ file ∈ s.batchFiles batch, file.status ≠ .failed) ∨
            ∀ file ∈ s.batchFiles batch, file.status ≠ .cancelled)) := by
  constructor
  · intro h
    obtain ⟨hvs, hloaded, hverdict⟩ := oneVerdict_of_batchStatusAgrees hbatch h
    refine ⟨hvs, hloaded, ?_⟩
    -- a file in progress is excluded, so the other case of `OneVerdict` remains
    rcases hverdict with hall | ⟨hcount, ⟨hwaits, -⟩ | ⟨-, hone⟩⟩
    · exact .inl hall
    · obtain ⟨waiting, hmem, hprogress⟩ := hwaits
      exact absurd hprogress (hnowait waiting hmem)
    · exact .inr ⟨hcount, hone⟩
  · rintro ⟨hvs, hloaded, hfiles⟩
    refine batchStatusAgrees_of_oneVerdict hbatch hfile hvs hloaded hnowait
      (hfiles.imp_right fun h => ⟨h.1, .inr ⟨hnowait, h.2⟩⟩) ?_
    rcases hfiles with hall | ⟨-, hone⟩
    · refine .inl fun f hf hfailed => ?_
      rw [hall f hf] at hfailed
      simp at hfailed
    · exact hone

/-- The first file of a batch of two completed files. -/
def completedFile : VectorStoreFileObject :=
  { fileId := "file_1", vectorStoreId := "vs_1", status := .completed, fileBatchId := "vsfb_1" }

/-- The theorem at two completed files. -/
theorem completedFiles_agree :
    BatchStatusAgrees { retriever := wholeTexts } {} completedFiles pendingBatch completedFile :=
  (batch_status_agrees_iff { retriever := wholeTexts } {} completedFiles pendingBatch completedFile
    (List.mem_singleton.mpr rfl) (by decide) (by decide)).mpr
      ⟨by decide, by decide, .inl (by decide)⟩

/-- A file that was just found failed. -/
def failedFile : VectorStoreFileObject :=
  { fileId := "file_1", vectorStoreId := "vs_1", status := .failed, fileBatchId := "vsfb_1" }

/-- A failed file and a cancelled one. -/
def failedAndCancelled : Store :=
  twoFiles failedRow ⟨{ status := .cancelled }, nofun⟩

/-- For these the two statuses may differ. -/
theorem failedAndCancelled_disagree :
    ¬ ∀ config outside s batch file, batch ∈ s.vectorStoreFileBatches.rows →
      file ∈ s.batchFiles batch → (∀ file ∈ s.batchFiles batch, file.status ≠ .inProgress) →
      isBlankString batch.vectorStoreId = false → batch.vectorStoreId ∈ s.vectorStoreInstances →
      BatchStatusAgrees config outside s batch file := by
  intro h
  have hbatch : pendingBatch ∈ failedAndCancelled.vectorStoreFileBatches.rows :=
    List.mem_singleton.mpr rfl
  have hagrees := h { retriever := wholeTexts } {} failedAndCancelled pendingBatch failedFile hbatch
    (by decide) (by decide) (by decide) (by decide)
  obtain ⟨-, -, hall | ⟨-, ⟨hwaits, -⟩ | ⟨-, hone⟩⟩⟩ :=
    oneVerdict_of_batchStatusAgrees hbatch hagrees
  · exact absurd hall (by decide)
  · exact absurd hwaits (by decide)
  · exact absurd hone (by decide)

end Instinct
