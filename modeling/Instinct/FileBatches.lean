/-
Instinct/FileBatches.lean

The background task that settles file batches.

For a pending batch the task asks for the files of the batch, page after page,
and folds three values over them: whether all are completed, whether the status
is terminal, and which status it is.  The endpoint never says that there are
more pages (`Instinct/ListVectorStores.lean`), so that one page decides, and on
that page the last file that is not completed (`verdict`).

Which files are on the page, and which of them is last, depends on the order in
which they are stored.  `handleFileBatch_decides_iff` says for which batches the
outcome does not depend on it, and is the one that the files call for.
-/
import Instinct.ListVectorStores
import Instinct.VectorStoreDeletion
import Mathlib.Data.List.Induction

namespace Instinct

open Effects Tables Paging

/-! ### `FileBatchObjectBackgroundTask` -/

/-- The locals of the task for one batch. -/
structure BatchScan where
  request : ModifyVectorStoreFileBatchRequest
  terms : List String := []
  terminal : Bool := false
  completed : Bool := true
  deriving DecidableEq

/-- The body of the loop over a page. -/
def BatchScan.visit (scan : BatchScan) (file : VectorStoreFileObject) : BatchScan :=
  match file.status with
  | .failed =>
      { request :=
          { scan.request with
            status := .failed
            lastError := some (file.lastError.getD {}) }
        terms := scan.terms ++ [file.fileId]
        terminal := true
        completed := false }
  | .cancelled =>
      { request := { scan.request with status := .cancelled }
        terms := scan.terms ++ [file.fileId]
        terminal := true
        completed := false }
  | .inProgress => { scan with terminal := false, completed := false }
  | _ => scan

/-- The body of the `do` loop, and whether there are more pages. -/
def scanPage (req : ListFilesInVectorStoreBatchRequest) (scan : BatchScan) :
    ServiceM (BatchScan × Bool) := do
  let resp ← listFilesInVectorStoreBatch req
  let scan := resp.data.foldl BatchScan.visit { scan with terms := [] }
  if scan.terms ≠ [] then
    onRetrieval (remove req.vectorStoreId (.terms metadataSchemaFileSourceKey scan.terms))
  pure (scan, resp.hasMore)

/-- The `do` loop, in `rounds` rounds at most. -/
def scanFiles (req : ListFilesInVectorStoreBatchRequest) :
    Nat → BatchScan → ServiceM (Option BatchScan)
  | 0, _ => pure none
  | rounds + 1, scan => do
      let (scan, hasMore) ← scanPage req scan
      if hasMore && !scan.terminal then scanFiles req rounds scan
      else pure (some scan)

/-- The update that is made after the scan. -/
def BatchScan.update? (scan : BatchScan) : Option ModifyVectorStoreFileBatchRequest :=
  if scan.completed then some { scan.request with status := .completed }
  else if scan.terminal then some scan.request
  else none

/-- The body of the loop over the pending batches: the update that was made, if any.  `none`: the
scan did not end. -/
def handleFileBatch (rounds : Nat) (batch : VectorStoreFileBatchObject) :
    ServiceM (Option (Option ModifyVectorStoreFileBatchRequest)) := do
  let now ← Action.gets fun s : Store => s.clock
  getStatefulRetriever batch.vectorStoreId
  let scan? ← scanFiles { vectorStoreId := batch.vectorStoreId, batchId := batch.id } rounds
    { request :=
        { batchId := batch.id
          vectorStoreId := batch.vectorStoreId
          sanityCheckAt := now } }
  match scan? with
  | none => pure none
  | some scan =>
      match scan.update? with
      | none => pure (some none)
      | some update => do
          let _ ← modifyVectorStoreFileBatch update
          pure (some (some update))

/-- `FileBatchObjectBackgroundTask::Handle`. -/
def FileBatchObjectBackgroundTask.handle (rounds : Nat) (scanBatchSize : Int32 := 10) :
    ServiceM (List (Option (Option ModifyVectorStoreFileBatchRequest))) := do
  let batches ← listPendingFileBatcheObjects scanBatchSize
  batches.mapM (handleFileBatch rounds)

/-! ### What a page decides -/

/-- The file is neither completed nor still in progress. -/
def VectorStoreFileObject.isSpoiled (file : VectorStoreFileObject) : Bool :=
  file.status = .failed || file.status = .cancelled

/-- What a file that is not completed decides for its batch. -/
def VectorStoreFileObject.decision (file : VectorStoreFileObject) :
    Option VectorStoreFileBatchStatus :=
  match file.status with
  | .failed => some .failed
  | .cancelled => some .cancelled
  | _ => none

/-- The file is not completed. -/
def VectorStoreFileObject.isOpen (file : VectorStoreFileObject) : Bool :=
  file.status ≠ .completed

/-- The last file that is not completed decides. -/
def verdict (page : List VectorStoreFileObject) : Option VectorStoreFileBatchStatus :=
  match page.reverse.find? (·.isOpen) with
  | none => some .completed
  | some file => file.decision

section Verdict

variable {page files : List VectorStoreFileObject} {file : VectorStoreFileObject}

theorem verdict_of_completed (h : ∀ file ∈ page, file.status = .completed) :
    verdict page = some .completed := by
  have hnone : page.reverse.find? (·.isOpen) = none := by
    refine List.find?_eq_none.mpr fun file hfile => ?_
    simp [VectorStoreFileObject.isOpen, h file (List.mem_reverse.mp hfile)]
  rw [verdict, hnone]

/-- A page is decided by one of its open files, if it has any. -/
theorem verdict_of_open (hfile : file ∈ page) (hopen : file.isOpen = true) :
    ∃ last ∈ page, last.isOpen = true ∧ verdict page = last.decision := by
  obtain ⟨last, hlast⟩ := Option.isSome_iff_exists.mp
    (List.find?_isSome.mpr ⟨file, List.mem_reverse.mpr hfile, hopen⟩)
  refine ⟨last, List.mem_reverse.mp (List.mem_of_find?_eq_some hlast), List.find?_some hlast, ?_⟩
  rw [verdict, hlast]

theorem verdict_concat (hopen : file.isOpen = true) : verdict (page ++ [file]) = file.decision := by
  rw [verdict, List.reverse_append, List.reverse_singleton, List.singleton_append,
    List.find?_cons_of_pos hopen]

/-- An order that puts one element last among the first `n + 1`. -/
theorem take_insert {α : Type} (n : Nat) (a : α) (rest : List α) :
    (rest.take n ++ a :: rest.drop n).take (n + 1) = rest.take n ++ [a] := by
  rcases Nat.lt_or_ge rest.length n with hlt | hle
  · rw [List.take_of_length_le hlt.le, List.drop_eq_nil_of_le hlt.le]
    refine List.take_of_length_le ?_
    rw [List.length_append, List.length_singleton]
    omega
  · have hlen : (rest.take n).length = n := by rw [List.length_take, Nat.min_eq_left hle]
    rw [List.take_append, List.take_of_length_le (by omega), hlen, Nat.add_sub_cancel_left]
    rfl

/-- **Any open file may decide**, in an order that puts it last on the page. -/
theorem exists_order_decided_by (n : Nat) (hfile : file ∈ files) (hopen : file.isOpen = true) :
    ∃ order : List VectorStoreFileObject, order.Perm files ∧
      verdict (order.take (n + 1)) = file.decision := by
  obtain ⟨before, after, rfl⟩ := List.append_of_mem hfile
  refine ⟨(before ++ after).take n ++ file :: (before ++ after).drop n, ?_, ?_⟩
  · refine List.perm_middle.trans ?_
    rw [List.take_append_drop]
    exact List.perm_middle.symm
  · rw [take_insert, verdict_concat hopen]

/-- Where the completed files fill a page, they may decide. -/
theorem exists_order_completed {n : Nat}
    (h : n ≤ files.countP fun file => file.status = .completed) :
    ∃ order : List VectorStoreFileObject, order.Perm files ∧
      verdict (order.take n) = some .completed := by
  refine ⟨files.filter (fun file => file.status = .completed)
    ++ files.filter fun file => !decide (file.status = .completed), ?_, ?_⟩
  · exact List.filter_append_perm _ _
  · rw [List.countP_eq_length_filter] at h
    rw [List.take_append_of_le_length h]
    refine verdict_of_completed fun file hfile => ?_
    simpa using (List.mem_filter.mp (List.mem_of_mem_take hfile)).2

/-- Where they do not, one of the open files decides. -/
theorem exists_open_of_page {n : Nat} {order : List VectorStoreFileObject}
    (h : (order.countP fun file => file.status = .completed) ≤ n)
    (hfile : file ∈ order) (hopen : file.isOpen = true) :
    ∃ last ∈ order.take (n + 1), last.isOpen = true ∧
      verdict (order.take (n + 1)) = last.decision := by
  by_cases hex : ∃ file ∈ order.take (n + 1), file.isOpen = true
  · obtain ⟨first, hfirst, hfirstopen⟩ := hex
    exact verdict_of_open hfirst hfirstopen
  · -- otherwise the page is full of completed files, and no file is left for the rest
    have hall : ∀ file ∈ order.take (n + 1), file.status = .completed := by
      intro file hmem
      by_contra hne
      exact hex ⟨file, hmem, decide_eq_true hne⟩
    have hcount : ((order.take (n + 1)).countP fun file => file.status = .completed)
        = (order.take (n + 1)).length :=
      List.countP_eq_length.mpr fun file hmem => decide_eq_true (hall file hmem)
    have hsub := (List.take_sublist (n + 1) order).countP_le
      (p := fun file : VectorStoreFileObject => decide (file.status = .completed))
    have hlen : order.length ≤ n := by
      rw [hcount, List.length_take] at hsub
      omega
    rw [List.take_of_length_le (by omega)] at hall
    exact absurd (hall file hfile) (of_decide_eq_true hopen)

end Verdict

/-! ### What the files of a batch call for -/

/-- The status that a batch with these files should be given, if any. -/
def expectedStatus (files : List VectorStoreFileObject) : Option VectorStoreFileBatchStatus :=
  if files.all (!·.isOpen) then some .completed
  else if files.any fun file => file.status = .inProgress then none
  else if files.any fun file => file.status = .failed then some .failed
  else some .cancelled

section Expected

variable {files files' : List VectorStoreFileObject} {file : VectorStoreFileObject}

theorem expectedStatus_eq_completed_iff :
    expectedStatus files = some .completed ↔ ∀ file ∈ files, file.status = .completed := by
  have hall : files.all (!·.isOpen) = true ↔ ∀ file ∈ files, file.status = .completed := by
    simp [VectorStoreFileObject.isOpen]
  unfold expectedStatus
  split
  · rename_i h
    exact iff_of_true rfl (hall.mp h)
  · rename_i h
    refine iff_of_false ?_ fun hcompleted => h (hall.mpr hcompleted)
    split
    · simp
    · split <;> simp

theorem expectedStatus_cases (files : List VectorStoreFileObject) :
    expectedStatus files = none ∨ expectedStatus files = some .completed ∨
      expectedStatus files = some .failed ∨ expectedStatus files = some .cancelled := by
  unfold expectedStatus
  split
  · exact .inr (.inl rfl)
  · split
    · exact .inl rfl
    · split
      · exact .inr (.inr (.inl rfl))
      · exact .inr (.inr (.inr rfl))

/-- The batch waits exactly for the files in progress. -/
theorem expectedStatus_eq_none_iff :
    expectedStatus files = none ↔ ∃ file ∈ files, file.status = .inProgress := by
  unfold expectedStatus
  by_cases hwaits : ∃ file ∈ files, file.status = .inProgress
  · obtain ⟨file, hfile, hstatus⟩ := hwaits
    -- a file in progress is open, so not all files are completed
    have hopen : files.all (!·.isOpen) = false := by
      refine List.all_eq_false.mpr ⟨file, hfile, ?_⟩
      simp [VectorStoreFileObject.isOpen, hstatus]
    have hany : (files.any fun file => file.status = .inProgress) = true :=
      List.any_eq_true.mpr ⟨file, hfile, decide_eq_true hstatus⟩
    simp only [hopen, hany]
    exact iff_of_true rfl ⟨file, hfile, hstatus⟩
  · have hany : (files.any fun file => file.status = .inProgress) = false := by
      refine List.any_eq_false.mpr fun file hfile hstatus => hwaits ⟨file, hfile, ?_⟩
      exact of_decide_eq_true hstatus
    -- without one, both branches name a status
    refine iff_of_false ?_ hwaits
    rw [hany]
    split
    · simp
    · simp only [Bool.false_eq_true, if_false]
      split <;> simp

/-- Without files in progress, a spoiled batch has failed where a file has. -/
theorem expectedStatus_of_spoiled (hopen : ∃ file ∈ files, file.isOpen = true)
    (hwaits : ∀ file ∈ files, file.status ≠ .inProgress) :
    expectedStatus files =
      if ∃ file ∈ files, file.status = .failed then some .failed else some .cancelled := by
  obtain ⟨file, hfile, hfileopen⟩ := hopen
  have hall : files.all (!·.isOpen) = false :=
    List.all_eq_false.mpr ⟨file, hfile, by simp [hfileopen]⟩
  have hany : (files.any fun file => file.status = .inProgress) = false :=
    List.any_eq_false.mpr fun file hfile hstatus => hwaits file hfile (of_decide_eq_true hstatus)
  simp only [expectedStatus, hall, hany, List.any_eq_true, decide_eq_true_eq]
  rfl

/-- A file that is open and not in progress has failed or was cancelled. -/
theorem failed_or_cancelled (hopen : file.isOpen = true)
    (hknown : file.status ≠ .unknownVectorStoreFileStatus) (hwaits : file.status ≠ .inProgress) :
    file.status = .failed ∨ file.status = .cancelled := by
  have hcompleted : file.status ≠ .completed := of_decide_eq_true hopen
  cases hstatus : file.status with
  | failed => exact .inl rfl
  | cancelled => exact .inr rfl
  | _ => simp [hstatus] at hknown hwaits hcompleted

theorem decision_of_not_spoiled (h : file.isSpoiled = false) : file.decision = none := by
  revert h
  unfold VectorStoreFileObject.isSpoiled VectorStoreFileObject.decision
  cases file.status <;> decide

theorem isOpen_of_isSpoiled (h : file.isSpoiled = true) : file.isOpen = true := by
  revert h
  unfold VectorStoreFileObject.isSpoiled VectorStoreFileObject.isOpen
  cases file.status <;> decide

end Expected

/-! ### Files with one verdict -/

/-- The files decide alike in every order: they are all completed, or the completed ones do not
fill a page, and the others are all in progress, or they have all failed, or were all
cancelled. -/
def OneVerdict (files : List VectorStoreFileObject) : Prop :=
  (∀ file ∈ files, file.status = .completed) ∨
    (files.countP fun file => file.status = .completed) ≤ 20 ∧
      ((∃ file ∈ files, file.status = .inProgress) ∧ (∀ file ∈ files, file.isSpoiled = false) ∨
        (∀ file ∈ files, file.status ≠ .inProgress) ∧
          ((∀ file ∈ files, file.status ≠ .failed) ∨ ∀ file ∈ files, file.status ≠ .cancelled))

section OneVerdict

variable {files order : List VectorStoreFileObject}

/-- Such files are decided by any page as all of them together should be. -/
theorem OneVerdict.verdict_eq (h : OneVerdict files)
    (hknown : ∀ file ∈ files, file.status ≠ .unknownVectorStoreFileStatus)
    (horder : order.Perm files) : verdict (order.take 21) = expectedStatus files := by
  by_cases hall : ∀ file ∈ files, file.status = .completed
  · rw [expectedStatus_eq_completed_iff.mpr hall]
    exact verdict_of_completed fun file hfile =>
      hall file (horder.subset (List.mem_of_mem_take hfile))
  · have hopen : ∃ file ∈ files, file.isOpen = true := by
      obtain ⟨file, hnot⟩ := not_forall.mp hall
      obtain ⟨hfile, hstatus⟩ := Classical.not_imp.mp hnot
      exact ⟨file, hfile, decide_eq_true hstatus⟩
    obtain ⟨hcount, hkinds⟩ := h.resolve_left hall
    obtain ⟨file, hfile, hfileopen⟩ := hopen
    -- the page shows an open file, and the last one that it shows decides
    obtain ⟨last, hlastpage, hlastopen, hverdict⟩ :=
      exists_open_of_page (horder.countP_eq _ ▸ hcount) (horder.symm.subset hfile) hfileopen
    have hlast := horder.subset (List.mem_of_mem_take hlastpage)
    rw [hverdict]
    -- all open files say the same, so it does not matter which one is the last
    rcases hkinds with ⟨hwaits, hspoiled⟩ | ⟨hwaits, hone⟩
    · rw [expectedStatus_eq_none_iff.mpr hwaits, decision_of_not_spoiled (hspoiled last hlast)]
    · rw [expectedStatus_of_spoiled ⟨file, hfile, hfileopen⟩ hwaits]
      have hlaststatus := failed_or_cancelled hlastopen (hknown last hlast) (hwaits last hlast)
      rcases hone with hnone | hnone
      · -- only cancelled files
        have hlastcancelled := hlaststatus.resolve_left (hnone last hlast)
        rw [if_neg fun ⟨file, hfile, hfailed⟩ => hnone file hfile hfailed]
        rw [VectorStoreFileObject.decision, hlastcancelled]
      · -- only failed files
        have hlastfailed := hlaststatus.resolve_right (hnone last hlast)
        rw [if_pos ⟨last, hlast, hlastfailed⟩]
        rw [VectorStoreFileObject.decision, hlastfailed]

/-- **Only such files have one verdict.**  Every other mixture has two orders that are decided
differently. -/
theorem oneVerdict_of_agree {status? : Option VectorStoreFileBatchStatus}
    (h : ∀ order : List VectorStoreFileObject, order.Perm files →
      verdict (order.take 21) = status?) : OneVerdict files := by
  refine Classical.or_iff_not_imp_left.mpr fun hall => ?_
  -- any open file decides in some order
  have hdecides : ∀ file ∈ files, file.isOpen = true → file.decision = status? := by
    intro file hfile hopen
    obtain ⟨order, horder, hdecision⟩ := exists_order_decided_by 20 hfile hopen
    exact hdecision.symm.trans (h order horder)
  obtain ⟨file, hnot⟩ := not_forall.mp hall
  obtain ⟨hfile, hstatus⟩ := Classical.not_imp.mp hnot
  have hfiledecides := hdecides file hfile (decide_eq_true hstatus)
  refine ⟨?_, ?_⟩
  · -- the completed files first
    by_contra hmany
    have hfull : 21 ≤ files.countP fun file => file.status = .completed := by omega
    obtain ⟨order, horder, hcompleted⟩ := exists_order_completed hfull
    rw [h order horder, ← hfiledecides] at hcompleted
    revert hcompleted
    unfold VectorStoreFileObject.decision
    cases file.status <;> decide
  · by_cases hwaits : ∃ file ∈ files, file.status = .inProgress
    · refine .inl ⟨hwaits, fun spoiled hspoiled => Bool.eq_false_iff.mpr fun hisSpoiled => ?_⟩
      obtain ⟨waiting, hwaiting, hprogress⟩ := hwaits
      have hnone := hdecides waiting hwaiting
        (by rw [VectorStoreFileObject.isOpen, hprogress]; rfl)
      rw [VectorStoreFileObject.decision, hprogress] at hnone
      have hsome := hdecides spoiled hspoiled (isOpen_of_isSpoiled hisSpoiled)
      rw [← hnone] at hsome
      revert hisSpoiled hsome
      unfold VectorStoreFileObject.isSpoiled VectorStoreFileObject.decision
      cases spoiled.status <;> decide
    · refine .inr ⟨fun file hfile hprogress => hwaits ⟨file, hfile, hprogress⟩, ?_⟩
      by_contra hboth
      obtain ⟨hfailed, hcancelled⟩ := not_or.mp hboth
      obtain ⟨failed, hnot⟩ := not_forall.mp hfailed
      obtain ⟨hmem, hstatus⟩ := Classical.not_imp.mp hnot
      obtain ⟨cancelled, hnot'⟩ := not_forall.mp hcancelled
      obtain ⟨hmem', hstatus'⟩ := Classical.not_imp.mp hnot'
      rw [ne_eq, not_not] at hstatus hstatus'
      have hdecision := hdecides failed hmem
        (by rw [VectorStoreFileObject.isOpen, hstatus]; rfl)
      have hdecision' := hdecides cancelled hmem'
        (by rw [VectorStoreFileObject.isOpen, hstatus']; rfl)
      rw [VectorStoreFileObject.decision, hstatus] at hdecision
      rw [VectorStoreFileObject.decision, hstatus', ← hdecision] at hdecision'
      simp at hdecision'

end OneVerdict

/-! ### What a scan finds -/

/-- The locals after a page. -/
structure Scanned (page : List VectorStoreFileObject) (scan scan' : BatchScan) : Prop where
  terms : scan'.terms = scan.terms ++ (page.filter (·.isSpoiled)).map (·.fileId)
  batchId : scan'.request.batchId = scan.request.batchId
  vectorStoreId : scan'.request.vectorStoreId = scan.request.vectorStoreId
  completed : scan'.completed = (scan.completed && page.all fun file => !file.isOpen)
  decided : ∀ last, page.reverse.find? (·.isOpen) = some last →
    scan'.terminal = last.isSpoiled ∧
      (last.isSpoiled = true → last.decision = some scan'.request.status)

section Scan

variable {page : List VectorStoreFileObject} {file : VectorStoreFileObject} {scan : BatchScan}

/-- A file is completed, in progress, or spoiled and decides. -/
theorem visit_cases (scan : BatchScan) (h : file.status ≠ .unknownVectorStoreFileStatus) :
    file.isOpen = false ∧ file.isSpoiled = false ∧ scan.visit file = scan ∨
    file.isOpen = true ∧ file.isSpoiled = false ∧
      scan.visit file = { scan with terminal := false, completed := false } ∨
    file.isOpen = true ∧ file.isSpoiled = true ∧ ∃ status lastError,
      file.decision = some status ∧ scan.visit file =
        { request := { scan.request with status := status, lastError := lastError }
          terms := scan.terms ++ [file.fileId]
          terminal := true
          completed := false } := by
  unfold VectorStoreFileObject.isOpen VectorStoreFileObject.isSpoiled
    VectorStoreFileObject.decision BatchScan.visit
  cases hstatus : file.status with
  | unknownVectorStoreFileStatus => exact absurd hstatus h
  | completed => exact .inl ⟨rfl, rfl, rfl⟩
  | inProgress => exact .inr (.inl ⟨rfl, rfl, rfl⟩)
  | failed => exact .inr (.inr ⟨rfl, rfl, _, _, rfl, rfl⟩)
  | cancelled => exact .inr (.inr ⟨rfl, rfl, _, _, rfl, rfl⟩)

/-- **The loop over a page.**  By induction from the end of the page, where the file stands
that decides. -/
theorem scanned_foldl (scan : BatchScan)
    (h : ∀ file ∈ page, file.status ≠ .unknownVectorStoreFileStatus) :
    Scanned page scan (page.foldl BatchScan.visit scan) := by
  induction page using List.reverseRecOn with
  | nil =>
      exact
        { terms := (List.append_nil _).symm
          batchId := rfl
          vectorStoreId := rfl
          completed := (Bool.and_true _).symm
          decided := fun last hlast => by simp at hlast }
  | append_singleton page file ih =>
      have hpage := ih fun f hf => h f (List.mem_append_left _ hf)
      rw [List.foldl_append, List.foldl_cons, List.foldl_nil]
      generalize page.foldl BatchScan.visit scan = before at hpage
      -- the next file is completed, in progress, or spoiled
      rcases visit_cases before (h file (List.mem_append_right _ List.mem_cons_self)) with
        ⟨hopen, hspoiled, heq⟩ | ⟨hopen, hspoiled, heq⟩ |
        ⟨hopen, hspoiled, status, lastError, hdecision, heq⟩
      · rw [heq]
        refine ⟨?_, hpage.batchId, hpage.vectorStoreId, ?_, fun last hlast => ?_⟩
        · simp [hpage.terms, hspoiled]
        · simp [hpage.completed, hopen]
        · refine hpage.decided last ?_
          simpa [hopen] using hlast
      · rw [heq]
        refine ⟨?_, hpage.batchId, hpage.vectorStoreId, ?_, fun last hlast => ?_⟩
        · simp [hpage.terms, hspoiled]
        · simp [hopen]
        · obtain rfl : file = last := by simpa [hopen] using hlast
          exact ⟨hspoiled.symm, fun hs => absurd (hspoiled.symm.trans hs) Bool.false_ne_true⟩
      · rw [heq]
        refine ⟨?_, hpage.batchId, hpage.vectorStoreId, ?_, fun last hlast => ?_⟩
        · simp [hpage.terms, hspoiled]
        · simp [hopen]
        · obtain rfl : file = last := by simpa [hopen] using hlast
          exact ⟨hspoiled.symm, fun _ => hdecision⟩

/-- The update after a scan of one page is the verdict of the page. -/
theorem update?_of_scanned {scan' : BatchScan} (h : Scanned page scan scan')
    (hcompleted : scan.completed = true) :
    scan'.update?.map (·.status) = verdict page := by
  have hall := h.completed
  rw [hcompleted, Bool.true_and] at hall
  rcases hlast : page.reverse.find? (·.isOpen) with - | last
  · -- no open file: the scan is still completed
    have hopen := List.find?_eq_none.mp hlast
    have htrue : scan'.completed = true := by
      rw [hall, List.all_eq_true]
      intro file hfile
      simpa using hopen file (List.mem_reverse.mpr hfile)
    simp [BatchScan.update?, htrue, verdict, hlast]
  · -- the last open file has left its status
    have hfalse : scan'.completed = false := by
      rw [hall, List.all_eq_false]
      refine ⟨last, List.mem_reverse.mp (List.mem_of_find?_eq_some hlast), ?_⟩
      simpa using List.find?_some hlast
    obtain ⟨hterminal, hdecision⟩ := h.decided last hlast
    cases hspoiled : last.isSpoiled with
    | true =>
        rw [hspoiled] at hterminal
        simp [BatchScan.update?, hfalse, hterminal, verdict, hlast, hdecision hspoiled]
    | false =>
        rw [hspoiled] at hterminal
        simp [BatchScan.update?, hfalse, hterminal, verdict, hlast,
          decision_of_not_spoiled hspoiled]

theorem update?_names {update : ModifyVectorStoreFileBatchRequest}
    (h : scan.update? = some update) :
    update.batchId = scan.request.batchId ∧ update.vectorStoreId = scan.request.vectorStoreId := by
  unfold BatchScan.update? at h
  split at h
  · rw [← Option.some.inj h]
    exact ⟨rfl, rfl⟩
  · split at h
    · rw [← Option.some.inj h]
      exact ⟨rfl, rfl⟩
    · simp at h

end Scan

/-! ### What the task does with a batch -/

/-- The files of a batch. -/
def Store.batchFiles (s : Store) (batch : VectorStoreFileBatchObject) :
    List VectorStoreFileObject :=
  s.vectorStoreFiles.rows.filter (isFileOfBatch batch.vectorStoreId batch.id)

/-- The files that the task asks for: a page and the row too many. -/
def Store.firstPage (s : Store) (batch : VectorStoreFileBatchObject) :
    List VectorStoreFileObject :=
  (arrange (·.createdAt) true (s.batchFiles batch)).take 21

section HandleFileBatch

variable {s : Store} {batch : VectorStoreFileBatchObject}

theorem mem_firstPage {file : VectorStoreFileObject} (h : file ∈ s.firstPage batch) :
    file ∈ s.batchFiles batch := mem_arrange.mp (List.mem_of_mem_take h)

theorem status_of_mem_batchFiles {file : VectorStoreFileObject} (h : file ∈ s.batchFiles batch) :
    file.status ≠ .unknownVectorStoreFileStatus :=
  s.vectorStoreFiles.valid file (List.mem_of_mem_filter h)

/-- The answer to the request of the task. -/
theorem listFilesInVectorStoreBatch_first (hvs : isBlankString batch.vectorStoreId = false)
    (hid : isBlankString batch.id = false) :
    ∃ resp, listFilesInVectorStoreBatch
        { vectorStoreId := batch.vectorStoreId, batchId := batch.id } s = (.ok resp, s) ∧
      resp.data = s.firstPage batch ∧ resp.hasMore = false := by
  -- without cursors all files are between them
  have hall : betweenCursors (·.fileId) {} (s.batchFiles batch) = s.batchFiles batch := by
    have hnone : notBlankCursor "" = none := rfl
    rw [betweenCursors, hnone, filter_isBefore_none]
    exact List.filter_eq_self.mpr fun _ _ => rfl
  rcases @listOverfull_cases VectorStoreFileObject (·.fileId) (·.createdAt) (s.batchFiles batch) {}
    with ⟨hmax, -⟩ | ⟨-, resp, hresp, hover⟩
  · exact absurd hmax (by decide)
  · -- `has_more` is false, whatever the number of files is
    refine ⟨resp, ?_, ?_, hover.hasMore⟩
    · simp only [listFilesInVectorStoreBatch, Action.bind_apply, Action.liftM_apply,
        assertNotBlank_of hvs, assertNotBlank_of hid]
      exact Prod.ext hresp rfl
    · rw [hover.data, hall]
      rfl

/-- The documents and rows of some files are removed. -/
def Store.cleanedUp (s : Store) (vectorStoreId : String) (fileIds : List String) : Store :=
  { s with
    retrieval := s.retrieval.removed vectorStoreId (.terms metadataSchemaFileSourceKey fileIds) }

/-- **The first page is the last.** -/
theorem scanFiles_eq (rounds : Nat) {scan : BatchScan} (hscan : scan.terms = [])
    (hvs : isBlankString batch.vectorStoreId = false) (hid : isBlankString batch.id = false) :
    scanFiles { vectorStoreId := batch.vectorStoreId, batchId := batch.id } (rounds + 1) scan s
      = (.ok (some ((s.firstPage batch).foldl BatchScan.visit scan)),
        s.cleanedUp batch.vectorStoreId
          (((s.firstPage batch).filter (·.isSpoiled)).map (·.fileId))) := by
  obtain ⟨resp, hresp, hdata, hmore⟩ := listFilesInVectorStoreBatch_first (s := s) hvs hid
  have hscanned : Scanned (s.firstPage batch) scan _ := scanned_foldl scan fun file hfile =>
    status_of_mem_batchFiles (mem_firstPage hfile)
  have hterms := hscanned.terms
  rw [hscan, List.nil_append] at hterms
  have hempty : { scan with terms := [] } = scan := by rw [← hscan]
  -- one round: the page is visited, then the spoiled files are removed
  have hpage : scanPage { vectorStoreId := batch.vectorStoreId, batchId := batch.id } scan s
      = (.ok ((s.firstPage batch).foldl BatchScan.visit scan, false),
        s.cleanedUp batch.vectorStoreId
          (((s.firstPage batch).filter (·.isSpoiled)).map (·.fileId))) := by
    rw [scanPage, Action.bind_of_ok hresp]
    simp only [hempty, hdata, hmore]
    split
    · rename_i hne
      rw [hterms] at hne
      have hremove : onRetrieval (remove batch.vectorStoreId
          (.terms metadataSchemaFileSourceKey
            ((s.firstPage batch).foldl BatchScan.visit scan).terms)) s
          = (.ok (), s.cleanedUp batch.vectorStoreId
              (((s.firstPage batch).filter (·.isSpoiled)).map (·.fileId))) := by
        rw [hterms, onRetrieval, remove_terms_eq hne]
        rfl
      rw [Action.bind_of_ok hremove]
      rfl
    · rename_i hnil
      -- nothing is spoiled, and nothing removed
      rw [hterms, not_not] at hnil
      rw [hnil, Store.cleanedUp, removed_no_terms]
      rfl
  -- `has_more` is false, so this round is the last
  rw [scanFiles, Action.bind_of_ok hpage]
  rfl

/-- The store after the update was made, if there is one. -/
def Store.updatedFileBatch (s : Store) : Option ModifyVectorStoreFileBatchRequest → Store
  | none => s
  | some update => s.assignFileBatch update

/-- **What the task does with a batch** whose retriever can be loaded: it removes the spoiled
files of the first page and makes the update that this page decides. -/
theorem handleFileBatch_eq (rounds : Nat) (hbatch : batch ∈ s.vectorStoreFileBatches.rows)
    (hvs : isBlankString batch.vectorStoreId = false)
    (hloaded : batch.vectorStoreId ∈ s.vectorStoreInstances) :
    ∃ update? : Option ModifyVectorStoreFileBatchRequest,
      (∀ update, update? = some update → update.batchId = batch.id) ∧
      update?.map (·.status) = verdict (s.firstPage batch) ∧
      handleFileBatch (rounds + 1) batch s
        = (.ok (some update?), (s.cleanedUp batch.vectorStoreId
            (((s.firstPage batch).filter (·.isSpoiled)).map (·.fileId))).updatedFileBatch
              update?) := by
  have hid := s.vectorStoreFileBatches.valid batch hbatch
  have hretriever : getStatefulRetriever batch.vectorStoreId s = (.ok (), s) :=
    Prod.ext (getStatefulRetriever_ok_iff.mpr ⟨hvs, hloaded⟩) (keeps_getStatefulRetriever _ s)
  -- the locals before the scan
  let scan : BatchScan :=
    { request :=
        { batchId := batch.id, vectorStoreId := batch.vectorStoreId, sanityCheckAt := s.clock } }
  have hscan := scanFiles_eq (s := s) rounds (rfl : scan.terms = []) hvs hid
  have hscanned : Scanned (s.firstPage batch) scan _ := scanned_foldl scan fun file hfile =>
    status_of_mem_batchFiles (mem_firstPage hfile)
  have hverdict := update?_of_scanned hscanned rfl
  generalize hids : ((s.firstPage batch).filter (·.isSpoiled)).map (·.fileId) = ids at hscan ⊢
  generalize (s.firstPage batch).foldl BatchScan.visit scan = scan' at hscan hscanned hverdict
  refine ⟨scan'.update?, fun update hupdate => ?_, hverdict, ?_⟩
  · exact (update?_names hupdate).1.trans hscanned.batchId
  · have hclock : Action.gets (fun s : Store => s.clock) s
        = ((.ok s.clock, s) : Except Exn Nat × Store) := rfl
    rw [handleFileBatch, Action.bind_of_ok hclock, Action.bind_of_ok hretriever,
      Action.bind_of_ok hscan]
    rcases hupdate : scan'.update? with - | update
    · simp only [hupdate]
      rfl
    · obtain ⟨hbatchId, hvectorStoreId⟩ := update?_names hupdate
      obtain ⟨found, hmodify⟩ := modifyVectorStoreFileBatch_ok
        (s := s.cleanedUp batch.vectorStoreId ids) hbatch (hbatchId.trans hscanned.batchId)
        (by rw [hvectorStoreId, hscanned.vectorStoreId]; exact hvs)
      simp only [hupdate, Action.bind_of_ok hmodify]
      rfl

/-- Without a retriever there is no result. -/
theorem loaded_of_handleFileBatch {rounds : Nat}
    {result : Option (Option ModifyVectorStoreFileBatchRequest)} {s' : Store}
    (h : handleFileBatch rounds batch s = (.ok result, s')) :
    isBlankString batch.vectorStoreId = false ∧
      batch.vectorStoreId ∈ s.vectorStoreInstances := by
  obtain ⟨now, s₁, hnow, h⟩ := Action.ok_of_bind h
  obtain ⟨-, rfl⟩ := Prod.mk.inj hnow
  obtain ⟨⟨⟩, s₂, hretriever, -⟩ := Action.ok_of_bind h
  exact getStatefulRetriever_ok_iff.mp (congrArg Prod.fst hretriever)

end HandleFileBatch

/-! ### What the task should do -/

/-- What the task should do with a batch: it is completed if all its files are, it waits while
one of them is in progress, and otherwise it comes to a terminal status, once the documents of
its spoiled files are removed. -/
structure Decides (batch : VectorStoreFileBatchObject) (s s' : Store)
    (status? : Option VectorStoreFileBatchStatus) : Prop where
  completed : status? = some .completed ↔ ∀ file ∈ s.batchFiles batch, file.status = .completed
  waits : (∃ file ∈ s.batchFiles batch, file.status = .inProgress) → status? = none
  settles : (∀ file ∈ s.batchFiles batch, file.status ≠ .inProgress) →
    status? = some .completed ∨ status? = some .failed ∨ status? = some .cancelled
  removes : status? = some .failed ∨ status? = some .cancelled →
    ∀ file ∈ s.batchFiles batch, file.isSpoiled = true →
      s'.retrieval.HasNone batch.vectorStoreId file.fileId
  unchanged : status? = none → s'.vectorStoreFileBatches = s.vectorStoreFileBatches
  stored : ∀ status, status? = some status →
    ∀ row ∈ s'.vectorStoreFileBatches.rows, row.id = batch.id → row.status = status

/-- The task ends on a batch, sets `status?` and decides as it should. -/
def Store.Handles (s : Store) (batch : VectorStoreFileBatchObject)
    (status? : Option VectorStoreFileBatchStatus) : Prop :=
  ∀ rounds, ∃ update? s', handleFileBatch (rounds + 1) batch s = (.ok (some update?), s') ∧
    update?.map (·.status) = status? ∧ Decides batch s s' status?

/-- A file without the time at which it was stored. -/
def VectorStoreFileObject.untimed (file : VectorStoreFileObject) : VectorStoreFileObject :=
  { file with createdAt := 0 }

/-- Two stores that differ in the order of the vector store files, by their rows and by their
times. -/
def Reordered (s t : Store) : Prop :=
  ∃ table, t = { s with vectorStoreFiles := table } ∧
    (table.rows.map (·.untimed)).Perm (s.vectorStoreFiles.rows.map (·.untimed))

/-- The batches for which the outcome does not depend on the order of their files, and is the
one that the files call for. -/
def OrderFree (s : Store) (batch : VectorStoreFileBatchObject) : Prop :=
  isBlankString batch.vectorStoreId = false ∧ batch.vectorStoreId ∈ s.vectorStoreInstances ∧
  OneVerdict (s.batchFiles batch) ∧
  ((s.batchFiles batch).length ≤ 21 ∨ ∀ file ∈ s.batchFiles batch, file.isSpoiled = true →
    s.retrieval.HasNone batch.vectorStoreId file.fileId)

/-! ### What removal leaves of a file -/

section HasNone

variable {s : RetrievalState} {vectorStoreId fileId : String} {ids : List String}

theorem selects_terms_of_holds {doc : Document}
    (h : doc.holds metadataSchemaFileSourceKey fileId) :
    (SearchQuery.terms metadataSchemaFileSourceKey ids).selects doc = true ↔ fileId ∈ ids := by
  simp only [SearchQuery.selects, stringValue_of_holds h, Option.any_some]
  exact List.contains_iff_mem

theorem hasNone_removed (h : s.HasNone vectorStoreId fileId) (query : SearchQuery) :
    (s.removed vectorStoreId query).HasNone vectorStoreId fileId where
  documents doc hdoc := h.documents doc (mem_docStore_removed.mp hdoc).1
  rows row hrow := h.rows row (mem_vectorTables_removed hrow).1

/-- The files that are named are removed. -/
theorem hasNone_of_mem (h : fileId ∈ ids) :
    (s.removed vectorStoreId (.terms metadataSchemaFileSourceKey ids)).HasNone
      vectorStoreId fileId where
  documents doc hdoc hof := by
    have hkept := (mem_docStore_removed.mp hdoc).2
    rw [(selects_terms_of_holds hof.2).mpr h] at hkept
    exact Bool.false_ne_true hkept.symm
  rows row hrow hof := by
    have hkept := (mem_vectorTables_removed hrow).2 rfl
    rw [(selects_terms_of_holds hof).mpr h] at hkept
    exact Bool.false_ne_true hkept.symm

/-- The others are not. -/
theorem hasNone_of_not_mem (h : fileId ∉ ids)
    (hnone : (s.removed vectorStoreId (.terms metadataSchemaFileSourceKey ids)).HasNone
      vectorStoreId fileId) : s.HasNone vectorStoreId fileId where
  documents doc hdoc hof := by
    refine hnone.documents doc (mem_docStore_removed.mpr ⟨hdoc, ?_⟩) hof
    exact Bool.eq_false_iff.mpr fun hselects => h ((selects_terms_of_holds hof.2).mp hselects)
  rows row hrow hof := by
    refine hnone.rows row ?_ hof
    simp only [RetrievalState.removed, Function.update_self, List.mem_filter, Bool.not_eq_true']
    exact ⟨hrow, Bool.eq_false_iff.mpr fun hselects => h ((selects_terms_of_holds hof).mp hselects)⟩

end HasNone

/-! ### Batches that do not depend on the order -/

section OrderFree

variable {s t : Store} {batch : VectorStoreFileBatchObject}

theorem firstPage_of_length_le (h : (s.batchFiles batch).length ≤ 21) :
    s.firstPage batch = arrange (·.createdAt) true (s.batchFiles batch) :=
  List.take_of_length_le (by rw [length_arrange]; exact h)

/-- The first page decides as all files together should. -/
theorem OrderFree.verdict_eq (h : OrderFree s batch) :
    verdict (s.firstPage batch) = expectedStatus (s.batchFiles batch) :=
  h.2.2.1.verdict_eq (fun _ => status_of_mem_batchFiles) (arrange_perm _ _ _)

theorem status_of_updatedFileBatch {update? : Option ModifyVectorStoreFileBatchRequest}
    {status : VectorStoreFileBatchStatus}
    (hnames : ∀ update, update? = some update → update.batchId = batch.id)
    (hstatus : update?.map (·.status) = some status)
    (hknown : status ≠ .unknownVectorStoreFileBatchStatus) {row : VectorStoreFileBatchObject}
    (hrow : row ∈ (s.updatedFileBatch update?).vectorStoreFileBatches.rows)
    (hid : row.id = batch.id) : row.status = status := by
  obtain ⟨update, rfl, hupdate⟩ := Option.map_eq_some_iff.mp hstatus
  obtain ⟨old, -, hold⟩ := List.mem_map.mp hrow
  have hbatchId := hnames update rfl
  by_cases heq : old.id = update.batchId
  · rw [if_pos (decide_eq_true heq)] at hold
    rw [← hold]
    show (if update.status = .unknownVectorStoreFileBatchStatus then old.status
      else update.status) = status
    rw [hupdate, if_neg hknown]
  · rw [if_neg (by simpa using heq)] at hold
    exact absurd (by rw [hold, hid, hbatchId]) heq

/-- **Such a batch is handled as it should be.** -/
theorem OrderFree.handles (h : OrderFree s batch)
    (hbatch : batch ∈ s.vectorStoreFileBatches.rows) :
    s.Handles batch (expectedStatus (s.batchFiles batch)) := by
  intro rounds
  obtain ⟨update?, hnames, hstatus, heq⟩ := handleFileBatch_eq rounds hbatch h.1 h.2.1
  -- every page has the verdict of the batch
  rw [h.verdict_eq] at hstatus
  refine ⟨update?, _, heq, hstatus, ?_⟩
  have hcases := expectedStatus_cases (s.batchFiles batch)
  exact
    { completed := expectedStatus_eq_completed_iff
      waits := expectedStatus_eq_none_iff.mpr
      settles := fun hwaits => hcases.resolve_left fun hnone => by
        obtain ⟨file, hfile, hprogress⟩ := expectedStatus_eq_none_iff.mp hnone
        exact hwaits file hfile hprogress
      removes := fun _ file hfile hspoiled => by
        have hretrieval : ∀ t : Store, (t.updatedFileBatch update?).retrieval = t.retrieval := by
          intro t
          cases update? <;> rfl
        rw [hretrieval]
        rcases h.2.2.2 with hlength | hnone
        · -- the page holds all files
          refine hasNone_of_mem (List.mem_map_of_mem (List.mem_filter.mpr ⟨?_, hspoiled⟩))
          rw [firstPage_of_length_le hlength]
          exact mem_arrange.mpr hfile
        · exact hasNone_removed (hnone file hfile hspoiled) _
      unchanged := fun hnone => by
        rw [hnone, Option.map_eq_none_iff] at hstatus
        rw [hstatus]
        rfl
      stored := fun status hsome row hrow hid => by
        refine status_of_updatedFileBatch hnames (hstatus.trans hsome) ?_ hrow hid
        rintro rfl
        rw [hsome] at hcases
        simp at hcases }

/-! ### Other orders -/

theorem Reordered.refl (s : Store) : Reordered s s := ⟨s.vectorStoreFiles, rfl, .refl _⟩

theorem Reordered.symm (h : Reordered s t) : Reordered t s := by
  obtain ⟨table, rfl, hperm⟩ := h
  exact ⟨s.vectorStoreFiles, rfl, hperm.symm⟩

theorem filter_map_untimed (batch : VectorStoreFileBatchObject)
    (rows : List VectorStoreFileObject) :
    (rows.filter (isFileOfBatch batch.vectorStoreId batch.id)).map (·.untimed)
      = (rows.map (·.untimed)).filter (isFileOfBatch batch.vectorStoreId batch.id) := by
  rw [List.filter_map]
  rfl

theorem Reordered.perm (h : Reordered s t) (batch : VectorStoreFileBatchObject) :
    ((t.batchFiles batch).map (·.untimed)).Perm ((s.batchFiles batch).map (·.untimed)) := by
  obtain ⟨table, rfl, hperm⟩ := h
  rw [Store.batchFiles, Store.batchFiles, filter_map_untimed, filter_map_untimed]
  exact hperm.filter _

theorem Reordered.exists_file (h : Reordered s t) {file : VectorStoreFileObject}
    (hfile : file ∈ t.batchFiles batch) :
    ∃ file' ∈ s.batchFiles batch, file'.status = file.status ∧ file'.fileId = file.fileId := by
  have hmem := (h.perm batch).subset (List.mem_map_of_mem (f := (·.untimed)) hfile)
  obtain ⟨file', hfile', heq⟩ := List.mem_map.mp hmem
  exact ⟨file', hfile', congrArg (·.status) heq, congrArg (·.fileId) heq⟩

theorem Reordered.exists_file_iff (h : Reordered s t) {P : VectorStoreFileStatus → String → Prop} :
    (∃ file ∈ t.batchFiles batch, P file.status file.fileId) ↔
      ∃ file ∈ s.batchFiles batch, P file.status file.fileId := by
  constructor
  · rintro ⟨file, hfile, hp⟩
    obtain ⟨file', hfile', hstatus, hid⟩ := h.exists_file hfile
    exact ⟨file', hfile', hstatus ▸ hid ▸ hp⟩
  · rintro ⟨file, hfile, hp⟩
    obtain ⟨file', hfile', hstatus, hid⟩ := h.symm.exists_file hfile
    exact ⟨file', hfile', hstatus ▸ hid ▸ hp⟩

theorem Reordered.forall_file_iff (h : Reordered s t) {P : VectorStoreFileStatus → String → Prop} :
    (∀ file ∈ t.batchFiles batch, P file.status file.fileId) ↔
      ∀ file ∈ s.batchFiles batch, P file.status file.fileId := by
  constructor
  · intro hp file hfile
    obtain ⟨file', hfile', hstatus, hid⟩ := h.symm.exists_file hfile
    exact hstatus ▸ hid ▸ hp file' hfile'
  · intro hp file hfile
    obtain ⟨file', hfile', hstatus, hid⟩ := h.exists_file hfile
    exact hstatus ▸ hid ▸ hp file' hfile'

theorem Reordered.expectedStatus_eq (h : Reordered s t) :
    expectedStatus (t.batchFiles batch) = expectedStatus (s.batchFiles batch) := by
  have hany : ∀ p : VectorStoreFileStatus → Bool,
      ((t.batchFiles batch).any fun file => p file.status)
        = (s.batchFiles batch).any fun file => p file.status := by
    intro p
    rw [Bool.eq_iff_iff, List.any_eq_true, List.any_eq_true]
    exact h.exists_file_iff (P := fun status _ => p status = true)
  have hall : ((t.batchFiles batch).all (!·.isOpen)) = (s.batchFiles batch).all (!·.isOpen) := by
    rw [Bool.eq_iff_iff, List.all_eq_true, List.all_eq_true]
    exact h.forall_file_iff (P := fun status _ => (!decide (status ≠ .completed)) = true)
  rw [expectedStatus, hall, hany (· = .inProgress), hany (· = .failed)]
  rfl

theorem Reordered.oneVerdict_iff (h : Reordered s t) :
    OneVerdict (t.batchFiles batch) ↔ OneVerdict (s.batchFiles batch) := by
  have hcount : ((t.batchFiles batch).countP fun file => file.status = .completed)
      = (s.batchFiles batch).countP fun file => file.status = .completed := by
    have hperm := (h.perm batch).countP_eq fun file => file.status = .completed
    rwa [List.countP_map, List.countP_map] at hperm
  -- `OneVerdict` looks at statuses and at their number only
  have hstatus : ∀ p : VectorStoreFileStatus → Prop,
      (∀ file ∈ t.batchFiles batch, p file.status) ↔ ∀ file ∈ s.batchFiles batch, p file.status :=
    fun p => h.forall_file_iff (P := fun status _ => p status)
  have hspoiled : (∀ file ∈ t.batchFiles batch, file.isSpoiled = false) ↔
      ∀ file ∈ s.batchFiles batch, file.isSpoiled = false :=
    hstatus fun status => (decide (status = .failed) || decide (status = .cancelled)) = false
  have hwaits : (∃ file ∈ t.batchFiles batch, file.status = .inProgress) ↔
      ∃ file ∈ s.batchFiles batch, file.status = .inProgress :=
    h.exists_file_iff (P := fun status _ => status = .inProgress)
  unfold OneVerdict
  rw [hcount, hspoiled, hwaits, hstatus (· = .completed), hstatus (· ≠ .inProgress),
    hstatus (· ≠ .failed), hstatus (· ≠ .cancelled)]

/-- The condition does not depend on the order. -/
theorem OrderFree.reordered (h : OrderFree s batch) (hr : Reordered s t) : OrderFree t batch := by
  obtain ⟨hvs, hloaded, hfiles⟩ := h
  have hlength : (t.batchFiles batch).length = (s.batchFiles batch).length := by
    have hperm := (hr.perm batch).length_eq
    rwa [List.length_map, List.length_map] at hperm
  -- the files that must have no documents are named by status and id
  have hnone : (∀ file ∈ t.batchFiles batch, file.isSpoiled = true →
        s.retrieval.HasNone batch.vectorStoreId file.fileId) ↔
      ∀ file ∈ s.batchFiles batch, file.isSpoiled = true →
        s.retrieval.HasNone batch.vectorStoreId file.fileId :=
    hr.forall_file_iff (P := fun status fileId =>
      (decide (status = .failed) || decide (status = .cancelled)) = true →
        s.retrieval.HasNone batch.vectorStoreId fileId)
  have hsame : t.vectorStoreInstances = s.vectorStoreInstances ∧ t.retrieval = s.retrieval := by
    obtain ⟨table, rfl, -⟩ := hr
    exact ⟨rfl, rfl⟩
  refine ⟨hvs, hsame.1 ▸ hloaded, ?_⟩
  rw [hsame.2, hlength, hnone, hr.oneVerdict_iff]
  exact hfiles

theorem verdict_map_untimed (page : List VectorStoreFileObject) :
    verdict (page.map (·.untimed)) = verdict page := by
  have hfun : ((·.isOpen) ∘ fun file : VectorStoreFileObject => file.untimed) = (·.isOpen) := rfl
  rw [verdict, verdict, ← List.map_reverse, List.find?_map, hfun]
  cases page.reverse.find? (·.isOpen) <;> rfl

/-- Every order of the files of a batch is the order of the first page in some store. -/
theorem exists_reordered {order : List VectorStoreFileObject}
    (h : order.Perm (s.batchFiles batch)) :
    ∃ t, Reordered s t ∧ t.firstPage batch = (order.take 21).map (·.untimed) := by
  -- the files of the batch come first, in the order that is asked for
  let others := s.vectorStoreFiles.rows.filter fun file =>
    !isFileOfBatch batch.vectorStoreId batch.id file
  have hperm : ((order ++ others).map (·.untimed)).Perm
      (s.vectorStoreFiles.rows.map (·.untimed)) :=
    ((h.append_right others).trans (List.filter_append_perm _ _)).map _
  have hkeys := hperm.map fun row : VectorStoreFileObject => (row.fileId, row.vectorStoreId)
  have hkeys' : (s.vectorStoreFiles.rows.map (·.untimed)).map
        (fun row : VectorStoreFileObject => (row.fileId, row.vectorStoreId))
      = s.vectorStoreFiles.rows.map fun row => (row.fileId, row.vectorStoreId) := by
    rw [List.map_map]
    rfl
  let table : VectorStoreFileDataMapper.FileTable :=
    { rows := (order ++ others).map (·.untimed)
      nodup := hkeys.nodup_iff.mpr (hkeys' ▸ s.vectorStoreFiles.nodup)
      valid := fun file hfile => by
        obtain ⟨old, hold, rfl⟩ := List.mem_map.mp (hperm.subset hfile)
        exact s.vectorStoreFiles.valid old hold }
  -- rows without times stay so
  have htwice : (s.vectorStoreFiles.rows.map (·.untimed)).map (·.untimed)
      = s.vectorStoreFiles.rows.map (·.untimed) := by
    rw [List.map_map]
    rfl
  have hreordered := hperm.map (·.untimed)
  rw [htwice] at hreordered
  refine ⟨{ s with vectorStoreFiles := table }, ⟨table, rfl, hreordered⟩, ?_⟩
  have horder : order.filter (isFileOfBatch batch.vectorStoreId batch.id) = order :=
    List.filter_eq_self.mpr fun file hfile => (List.mem_filter.mp (h.subset hfile)).2
  have hothers : others.filter (isFileOfBatch batch.vectorStoreId batch.id) = [] := by
    refine List.filter_eq_nil_iff.mpr fun file hfile => ?_
    simpa using (List.mem_filter.mp hfile).2
  have hfiles : Store.batchFiles { s with vectorStoreFiles := table } batch
      = order.map (·.untimed) := by
    show ((order ++ others).map (·.untimed)).filter _ = _
    rw [← filter_map_untimed, List.filter_append, horder, hothers, List.append_nil]
  rw [Store.firstPage, hfiles, arrange_of_same_stamp (n := 0), List.map_take]
  intro file hfile
  obtain ⟨old, -, rfl⟩ := List.mem_map.mp hfile
  rfl

/-- The files of a batch have different ids. -/
theorem nodup_fileIds (s : Store) (batch : VectorStoreFileBatchObject) :
    ((s.batchFiles batch).map (·.fileId)).Nodup := by
  have hkeys : ((s.batchFiles batch).map fun row => (row.fileId, row.vectorStoreId)).Nodup :=
    (List.filter_sublist.map _).nodup s.vectorStoreFiles.nodup
  have hpair : (s.batchFiles batch).map (fun row => (row.fileId, row.vectorStoreId))
      = ((s.batchFiles batch).map (·.fileId)).map fun id => (id, batch.vectorStoreId) := by
    rw [List.map_map]
    refine List.map_congr_left fun row hrow => Prod.ext rfl ?_
    have hof := (List.mem_filter.mp hrow).2
    simp only [isFileOfBatch, Bool.and_eq_true, decide_eq_true_eq] at hof
    exact hof.1
  exact List.Nodup.of_map _ (hpair ▸ hkeys)

/-- What a handled batch looks like after the task. -/
theorem Store.Handles.result {status? : Option VectorStoreFileBatchStatus}
    (h : s.Handles batch status?) (hbatch : batch ∈ s.vectorStoreFileBatches.rows) :
    verdict (s.firstPage batch) = status? ∧
    ∃ s', s'.retrieval = s.retrieval.removed batch.vectorStoreId
        (.terms metadataSchemaFileSourceKey
          (((s.firstPage batch).filter (·.isSpoiled)).map (·.fileId))) ∧
      Decides batch s s' status? := by
  obtain ⟨update?, s', hresult, hstatus, hdecides⟩ := h 0
  obtain ⟨hvs, hloaded⟩ := loaded_of_handleFileBatch hresult
  obtain ⟨update?', -, hstatus', heq⟩ := handleFileBatch_eq 0 hbatch hvs hloaded
  obtain ⟨hupdate, rfl⟩ := Prod.mk.inj (hresult.symm.trans heq)
  obtain rfl := Option.some.inj (Except.ok.inj hupdate)
  refine ⟨hstatus'.symm.trans hstatus, _, ?_, hdecides⟩
  cases update? <;> rfl

/-- **Only such a batch is handled as it should be in every order.** -/
theorem orderFree_of_handles {status? : Option VectorStoreFileBatchStatus}
    (hbatch : batch ∈ s.vectorStoreFileBatches.rows)
    (h : ∀ t, Reordered s t → t.Handles batch status?) : OrderFree s batch := by
  obtain ⟨update?, s', hresult, -, hdecides⟩ := h s (.refl s) 0
  obtain ⟨hvs, hloaded⟩ := loaded_of_handleFileBatch hresult
  have hstored : ∀ {t}, Reordered s t → batch ∈ t.vectorStoreFileBatches.rows := by
    rintro t ⟨table, rfl, -⟩
    exact hbatch
  have hverdict : ∀ order : List VectorStoreFileObject, order.Perm (s.batchFiles batch) →
      verdict (order.take 21) = status? := by
    intro order horder
    obtain ⟨t, hr, hpage⟩ := exists_reordered horder
    have hpageverdict := ((h t hr).result (hstored hr)).1
    rwa [hpage, verdict_map_untimed] at hpageverdict
  have hone := oneVerdict_of_agree hverdict
  refine ⟨hvs, hloaded, hone, Classical.or_iff_not_imp_left.mpr fun hlength => ?_⟩
  -- a spoiled file behind the page keeps its documents
  intro file hfile hspoiled
  have hterminal : status? = some .failed ∨ status? = some .cancelled := by
    have hopen : file.status ≠ .completed := of_decide_eq_true (isOpen_of_isSpoiled hspoiled)
    have hnowait : ∀ file ∈ s.batchFiles batch, file.status ≠ .inProgress := by
      rcases hone with hall | ⟨-, ⟨-, hnone⟩ | ⟨hnowait, -⟩⟩
      · exact absurd (hall file hfile) hopen
      · exact absurd ((hnone file hfile).symm.trans hspoiled) Bool.false_ne_true
      · exact hnowait
    exact (hdecides.settles hnowait).resolve_left fun hcompleted =>
      hopen (hdecides.completed.mp hcompleted file hfile)
  obtain ⟨before, after, hfiles⟩ := List.append_of_mem hfile
  have horder : ((before ++ after) ++ [file]).Perm (s.batchFiles batch) := by
    rw [hfiles]
    exact (List.perm_append_singleton file (before ++ after)).trans List.perm_middle.symm
  have hlong : 21 ≤ (before ++ after).length := by
    have hlen := horder.length_eq
    rw [List.length_append, List.length_singleton] at hlen
    omega
  obtain ⟨t, hr, hpage⟩ := exists_reordered horder
  rw [List.take_append_of_le_length hlong] at hpage
  obtain ⟨-, t', hretrieval, hdecides'⟩ := (h t hr).result (hstored hr)
  obtain ⟨file', hfile', hstatus, hid⟩ := hr.symm.exists_file hfile
  have hspoiled' : file'.isSpoiled = true := by
    rw [VectorStoreFileObject.isSpoiled, hstatus]
    exact hspoiled
  have hnone := hdecides'.removes hterminal file' hfile' hspoiled'
  have hsame : t.retrieval = s.retrieval := by
    obtain ⟨table, rfl, -⟩ := hr
    rfl
  rw [hretrieval, hid, hsame] at hnone
  refine hasNone_of_not_mem (fun hmem => ?_) hnone
  -- its id is the id of no other file
  obtain ⟨other, hother, hotherid⟩ := List.mem_map.mp hmem
  have hotherpage := (List.mem_filter.mp hother).1
  rw [hpage] at hotherpage
  obtain ⟨old, hold, rfl⟩ := List.mem_map.mp hotherpage
  have hnodup := (horder.map (·.fileId)).nodup_iff.mpr (nodup_fileIds s batch)
  rw [List.map_append, List.nodup_append] at hnodup
  exact hnodup.2.2 _ (List.mem_map_of_mem (List.mem_of_mem_take hold)) _
    (List.mem_map_of_mem List.mem_cons_self) hotherid

end OrderFree

/-- **When the outcome of a batch is right in every order.**  The task ends on the batch with
one and the same decision, the one that the statuses of the files call for, in every order in
which they can be stored, exactly when the retriever can be loaded and all files are completed,
or at most 20 are: then the others are all in progress, or they have all failed, or were all
cancelled, and in the latter cases the page holds all files or they have no documents. -/
theorem handleFileBatch_decides_iff (s : Store) (batch : VectorStoreFileBatchObject)
    (hbatch : batch ∈ s.vectorStoreFileBatches.rows) :
    (∃ status?, ∀ t, Reordered s t → t.Handles batch status?) ↔ OrderFree s batch := by
  constructor
  · rintro ⟨status?, h⟩
    exact orderFree_of_handles hbatch h
  · intro h
    refine ⟨expectedStatus (s.batchFiles batch), fun t hr => ?_⟩
    have hbatch' : batch ∈ t.vectorStoreFileBatches.rows := by
      obtain ⟨table, rfl, -⟩ := hr
      exact hbatch
    rw [← hr.expectedStatus_eq]
    exact (h.reordered hr).handles hbatch'

/-! ### Batches of two files -/

/-- A batch. -/
def pendingBatch : VectorStoreFileBatchObject :=
  { id := "vsfb_1"
    createdAt := 1
    modifiedAt := 1
    vectorStoreId := "vs_1"
    status := .inProgress }

/-- The batch with two files. -/
def twoFiles (first second : VectorStoreFileRow) : Store where
  vectorStoreFiles :=
    { rows :=
        [{ first.val with fileId := "file_1", vectorStoreId := "vs_1", fileBatchId := "vsfb_1" },
          { second.val with fileId := "file_2", vectorStoreId := "vs_1", fileBatchId := "vsfb_1" }]
      nodup := by simp
      valid := by
        simp only [List.mem_cons, List.not_mem_nil, or_false]
        rintro row (rfl | rfl)
        · exact first.property
        · exact second.property }
  vectorStoreFileBatches :=
    { rows := [pendingBatch]
      nodup := by decide
      valid := by decide }
  vectorStoreInstances := ["vs_1"]

/-- A file that has failed. -/
def failedRow : VectorStoreFileRow := ⟨{ status := .failed }, nofun⟩

/-- Two completed files. -/
def completedFiles : Store :=
  twoFiles ⟨{ status := .completed }, nofun⟩ ⟨{ status := .completed }, nofun⟩

/-- The theorem at two completed files. -/
theorem completedFiles_handled :
    ∃ status?, ∀ t, Reordered completedFiles t → t.Handles pendingBatch status? :=
  (handleFileBatch_decides_iff completedFiles pendingBatch (List.mem_singleton.mpr rfl)).mpr
    ⟨by decide, by decide, .inl (by decide), .inl (by decide)⟩

/-- A file that is in progress, and one that has failed. -/
def failedAndWaiting : Store :=
  twoFiles ⟨{ status := .inProgress }, nofun⟩ failedRow

/-- Such a batch comes to a terminal status too early, in one of the orders. -/
theorem failedAndWaiting_not_handled :
    ¬ ∀ s batch, batch ∈ s.vectorStoreFileBatches.rows →
      isBlankString batch.vectorStoreId = false → batch.vectorStoreId ∈ s.vectorStoreInstances →
      ∃ status?, ∀ t, Reordered s t → t.Handles batch status? := by
  intro h
  have hbatch : pendingBatch ∈ failedAndWaiting.vectorStoreFileBatches.rows :=
    List.mem_singleton.mpr rfl
  obtain ⟨status?, hhandles⟩ :=
    h failedAndWaiting pendingBatch hbatch (by decide) (by decide)
  obtain ⟨-, -, hall | ⟨-, ⟨-, hspoiled⟩ | ⟨hwaits, -⟩⟩, -⟩ :=
    orderFree_of_handles hbatch hhandles
  · exact absurd hall (by decide)
  · exact absurd hspoiled (by decide)
  · exact absurd hwaits (by decide)

end Instinct
