/-
Instinct/VectorStoreDeletion.lean

Deleting a file of a vector store.

`DeleteVectorStoreFile` takes the row of the file away and then asks the
retriever of the vector store to remove by `parent_doc_id`, with the id of the
file.  But ingestion writes the id of a file into `file_source`: the
`parent_doc_id` of a document is the root, that of a row is the UUID of its
document.  No file id is one of these, so that the removal takes nothing
(`removed_parentDocId`).

`deleteVectorStoreFile_removes_iff`: what was ingested for the file is gone after
the call only when there was nothing of it before.
-/
import Instinct.VectorStores

namespace Instinct

open Effects Transitions Tables

/-! ### The calls of the retriever operator -/

/-- `SimpleRetrieverOperator::CleanupRetriever`: the documents of the vector store, then its
table. -/
def cleanupRetriever (vectorStoreId : String) (s : RetrievalState) : RetrievalState :=
  { s with
    docStore := s.docStore.filter fun doc =>
      !(SearchQuery.term vectorStoreIdKey vectorStoreId).selects doc
    vectorTables := Function.update s.vectorTables vectorStoreId [] }

/-- Calls of a stateful retriever and the removal of a whole one. -/
inductive OperatorCall
  | retriever (call : RetrieverCall)
  | cleanupRetriever (vectorStoreId : String)

/-- The stores after a call. -/
def operatorStep (config : RetrieverConfig) (s : RetrievalState) :
    OperatorCall → Option RetrievalState
  | .retriever call => retrieverStep config s call
  | .cleanupRetriever vectorStoreId => some (cleanupRetriever vectorStoreId s)

section Formed

variable {config : RetrieverConfig} {s s' : RetrievalState}

theorem RetrievalState.Formed.cleanupRetriever (h : s.Formed config) (vectorStoreId : String) :
    (cleanupRetriever vectorStoreId s).Formed config where
  ids doc hdoc := h.ids doc (List.mem_of_mem_filter hdoc)
  nodup := (List.filter_sublist.map _).nodup h.nodup
  roots doc hdoc := h.roots doc (List.mem_of_mem_filter hdoc)
  owned doc hdoc := h.owned doc (List.mem_of_mem_filter hdoc)
  parents other row hrow := by
    by_cases hother : other = vectorStoreId
    · subst hother
      simp [Instinct.cleanupRetriever] at hrow
    · simp only [Instinct.cleanupRetriever, Function.update_of_ne hother] at hrow
      exact h.parents other row hrow

/-- The documents are roots and the rows name UUIDs, whatever the operator was asked for. -/
theorem formed_of_operator (h : Reaches (operatorStep config) {} s) : s.Formed config := by
  refine h.invariant (I := fun s => s.Formed config) (fun s call s' hs _ hstep => ?_) formed_empty
  cases call with
  | retriever call => exact hs.step hstep
  | cleanupRetriever vectorStoreId =>
      obtain rfl := Option.some.inj hstep
      exact hs.cleanupRetriever vectorStoreId

end Formed

/-! ### What a file leaves in the stores -/

/-- The document was ingested for the file, through the vector store. -/
def IsDocumentOf (vectorStoreId fileId : String) (doc : Document) : Prop :=
  doc.holds vectorStoreIdKey vectorStoreId ∧ doc.holds metadataSchemaFileSourceKey fileId

instance (vectorStoreId fileId : String) (doc : Document) :
    Decidable (IsDocumentOf vectorStoreId fileId doc) :=
  inferInstanceAs (Decidable (_ ∧ _))

/-- The row was made from a document of the file. -/
def IsRowOf (fileId : String) (row : Document) : Prop :=
  row.holds metadataSchemaFileSourceKey fileId

instance (fileId : String) (row : Document) : Decidable (IsRowOf fileId row) :=
  inferInstanceAs (Decidable (_ = _))

/-- Nothing of the file is in the stores of the vector store. -/
structure RetrievalState.HasNone (s : RetrievalState) (vectorStoreId fileId : String) : Prop where
  documents : ∀ doc ∈ s.docStore, ¬ IsDocumentOf vectorStoreId fileId doc
  rows : ∀ row ∈ s.vectorTables vectorStoreId, ¬ IsRowOf fileId row

/-- From `s` to `s'` the documents and rows of the file are removed, and nothing else is
changed. -/
structure FileRemoved (vectorStoreId fileId : String) (s s' : RetrievalState) : Prop where
  hasNone : s'.HasNone vectorStoreId fileId
  documents : s'.docStore =
    s.docStore.filter fun doc => ¬ IsDocumentOf vectorStoreId fileId doc
  rows : s'.vectorTables vectorStoreId =
    (s.vectorTables vectorStoreId).filter fun row => ¬ IsRowOf fileId row
  others : ∀ other, other ≠ vectorStoreId → s'.vectorTables other = s.vectorTables other

/-! ### What the call does -/

section Delete

variable {config : RetrieverConfig}

/-- The id of a file has a character that no UUID and not the root has. -/
theorem underscore_mem_fileId (n : Nat) : '_' ∈ (generateNextObjectId "file" n).toList := by
  rw [generateNextObjectId, String.toList_append, String.toList_append, List.append_assoc]
  exact List.mem_append_right _ (List.mem_append_left _ (by decide))

/-- No document and no row names a file as its parent. -/
theorem removed_parentDocId {s : RetrievalState} (hs : s.Formed config) (vectorStoreId : String)
    (n : Nat) :
    s.removed vectorStoreId (.term metadataSchemaParentDocIdKey (generateNextObjectId "file" n))
      = s := by
  have hmem := underscore_mem_fileId n
  refine removed_of_none (fun doc hdoc => ?_) fun row hrow => ?_
  · refine decide_eq_false fun hselects => ?_
    have hroot := holds_of_stringValue hselects (hs.roots doc hdoc)
    exact absurd (hroot ▸ hmem) (by decide)
  · refine decide_eq_false fun hselects => ?_
    obtain ⟨m, -, hparent⟩ := hs.parents vectorStoreId row hrow
    exact config.uuids.text_ne m _ hmem (by decide) (holds_of_stringValue hselects hparent)

/-- A call that returned removed by `parent_doc_id`, and changed the stores in no other way. -/
theorem deleteVectorStoreFile_ok {req : DeleteVectorStoreFileRequest} {s s' : Store}
    {response : DeleteVectorStoreFileResponse}
    (h : deleteVectorStoreFile req s = (.ok response, s')) :
    s'.retrieval = s.retrieval.removed req.vectorStoreId
      (.term metadataSchemaParentDocIdKey req.fileId) := by
  obtain ⟨⟨⟩, -, h⟩ := Action.ok_of_bind_liftM h
  obtain ⟨⟨⟩, -, h⟩ := Action.ok_of_bind_liftM h
  obtain ⟨count, s₁, hdelete, h⟩ := Action.ok_of_bind h
  obtain ⟨found, s₂, hget, h⟩ := Action.ok_of_bind h
  obtain ⟨hfound, rfl⟩ := Prod.mk.inj hget
  obtain ⟨-, rfl⟩ := Prod.mk.inj hdelete
  rcases found with - | vectorStore
  · simp at h
  · -- the vector store that was found has the id that was asked for
    have hfind : s.vectorStores.find? (fun row => row.id = req.vectorStoreId)
        = some vectorStore := Except.ok.inj hfound
    have hid : vectorStore.id = req.vectorStoreId := by
      simpa only [decide_eq_true_eq] using List.find?_some hfind
    obtain ⟨⟨⟩, s₂, hload, h⟩ := Action.ok_of_bind h
    obtain ⟨⟨⟩, s₃, hremove, h⟩ := Action.ok_of_bind h
    obtain ⟨-, rfl⟩ := Prod.mk.inj h
    obtain rfl : s₂ = _ := (congrArg Prod.snd hload).symm.trans (keeps_getStatefulRetriever _ _)
    have hcheck : ∀ schema, metadataSchemaParentDocIdKey ∈ schema →
        (SearchQuery.term metadataSchemaParentDocIdKey req.fileId).check schema = .ok () :=
      fun schema hname => assertTrue_of hname
    have hstore := (congrArg (fun r => r.2.retrieval) hremove).symm
    simp only [onRetrieval, remove_eq (hcheck _ (by decide)) (hcheck _ (by decide))] at hstore
    rw [hstore, hid]
    rfl

end Delete

/-! ### When a file is gone -/

section FileRemoved

variable {vectorStoreId fileId : String} {s : RetrievalState}

/-- Where nothing changes, the file is gone only if it was not there. -/
theorem fileRemoved_self_iff :
    FileRemoved vectorStoreId fileId s s ↔ s.HasNone vectorStoreId fileId := by
  refine ⟨fun h => h.hasNone, fun h => ⟨h, ?_, ?_, fun _ _ => rfl⟩⟩
  · exact (List.filter_eq_self.mpr fun doc hdoc => decide_eq_true (h.documents doc hdoc)).symm
  · exact (List.filter_eq_self.mpr fun row hrow => decide_eq_true (h.rows row hrow)).symm

end FileRemoved

/-- **When `DeleteVectorStoreFile` removes the file.**  In every state that calls of the
retriever operator reach, a call that returned has removed the documents and rows of the file,
and nothing else, exactly when ingestion had left none of them. -/
theorem deleteVectorStoreFile_removes_iff (config : RetrieverConfig) (vectorStoreId : String)
    (n : Nat) {s s' : Store} {response : DeleteVectorStoreFileResponse}
    (hs : Reaches (operatorStep config) {} s.retrieval)
    (h : deleteVectorStoreFile
      { vectorStoreId := vectorStoreId, fileId := generateNextObjectId "file" n } s
        = (.ok response, s')) :
    FileRemoved vectorStoreId (generateNextObjectId "file" n) s.retrieval s'.retrieval ↔
      s.retrieval.HasNone vectorStoreId (generateNextObjectId "file" n) := by
  have hretrieval := deleteVectorStoreFile_ok h
  rw [removed_parentDocId (formed_of_operator hs)] at hretrieval
  rw [hretrieval]
  exact fileRemoved_self_iff

/-! ### A file of one page -/

/-- What is ingested for a file of one page. -/
def onePageState : RetrievalState :=
  ((RetrieverCall.ingestFile "vs_1" (generateNextObjectId "file" 1) "/tmp/a.txt" ["some text"]
    none).exec wholeTexts {}).2

theorem reaches_onePageState : Reaches (operatorStep wholeTexts) {} onePageState :=
  .single ⟨.retriever (.ingestFile "vs_1" (generateNextObjectId "file" 1) "/tmp/a.txt"
    ["some text"] none), trivial, rfl⟩

/-- A vector store with that file. -/
def onePage : Store where
  vectorStores :=
    { rows := [{ id := "vs_1", createdAt := 1 }]
      nodup := by decide
      valid := by decide }
  vectorStoreFiles :=
    { rows :=
        [{ fileId := generateNextObjectId "file" 1, createdAt := 2, vectorStoreId := "vs_1",
           status := .completed }]
      nodup := by decide
      valid := by decide }
  vectorStoreInstances := ["vs_1"]
  retrieval := onePageState

/-- The store after the file is deleted. -/
def onePageDeleted : Store :=
  (deleteVectorStoreFile
    { vectorStoreId := "vs_1", fileId := generateNextObjectId "file" 1 } onePage).2

theorem deleteVectorStoreFile_onePage : deleteVectorStoreFile
    { vectorStoreId := "vs_1", fileId := generateNextObjectId "file" 1 } onePage
      = (.ok { id := generateNextObjectId "file" 1, deleted := true }, onePageDeleted) :=
  Prod.ext (by decide) rfl

/-- The theorem at this store. -/
theorem onePage_removed_iff :
    FileRemoved "vs_1" (generateNextObjectId "file" 1) onePage.retrieval
        onePageDeleted.retrieval ↔
      onePage.retrieval.HasNone "vs_1" (generateNextObjectId "file" 1) :=
  deleteVectorStoreFile_removes_iff wholeTexts "vs_1" 1 reaches_onePageState
    deleteVectorStoreFile_onePage

/-- The page is still there, although the call returned `deleted`. -/
theorem onePage_not_removed : ¬ ∀ config vectorStoreId n s s' response,
    Reaches (operatorStep config) {} s.retrieval →
    deleteVectorStoreFile
      { vectorStoreId := vectorStoreId, fileId := generateNextObjectId "file" n } s
        = (.ok response, s') →
    response.deleted = true →
    FileRemoved vectorStoreId (generateNextObjectId "file" n) s.retrieval s'.retrieval := by
  intro h
  have hremoved := h wholeTexts "vs_1" 1 onePage onePageDeleted _ reaches_onePageState
    deleteVectorStoreFile_onePage rfl
  have hretrieval : onePageDeleted.retrieval = onePageState :=
    (deleteVectorStoreFile_ok deleteVectorStoreFile_onePage).trans
      (removed_parentDocId (formed_of_operator reaches_onePageState) _ _)
  rw [hretrieval] at hremoved
  have hrows := hremoved.hasNone.rows
  revert hrows
  decide

end Instinct
