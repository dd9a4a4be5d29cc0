/-
Instinct/VectorStores.lean

The vector store side of the assistant service: the statements of
`VectorStoreDataMapper`, `VectorStoreFileDataMapper` and
`VectorStoreFileBatchDataMapper`, the instances of the vector store operator,
and the calls of `VectorStoreServiceImpl` that are made of them.

A statement is one atomic action on the store.  Here a service call is one
action as well; the calls that create things, whose statements may stand far
apart, are programs of such actions (`Instinct/VectorStoreCalls.lean`).
-/
import Instinct.Listing

namespace Instinct

open Effects Tables

/-! ### `VectorStoreDataMapper` -/

namespace VectorStoreDataMapper

/-- `InsertVectorStore`: the id of the new row. -/
def insertVectorStore (req : CreateVectorStoreRequest) : ServiceM String := do
  let id ← generateId "vs"
  (match req.expiresAfter with
    | some policy => do
        assertTrue (policy.anchor = .lastActiveAt) "should have anchor set to last_active_at"
        assertTrue (0 < policy.days) "should have expires_after.days set with a positive value"
    | none => pure () : Except Exn Unit)
  insertRow (·.vectorStores) (fun t s => { s with vectorStores := t })
    (fun now =>
      { id := id.val
        createdAt := now
        name := req.name
        status := .inProgress
        expiresAfter := req.expiresAfter
        lastActiveAt := now }) fun _ => id.property
  pure id.val

/-- `GetVectorStore`. -/
def getVectorStore (id : String) : ServiceM (Option VectorStoreObject) :=
  Action.gets fun s => s.vectorStores.find? fun row => row.id = id

end VectorStoreDataMapper

/-! ### `VectorStoreFileDataMapper` -/

/-- The primary key of a vector store file. -/
def isVectorStoreFile (vectorStoreId fileId : String) (file : VectorStoreFileObject) : Bool :=
  file.fileId = fileId && file.vectorStoreId = vectorStoreId

/-- The condition `vector_store_id = … and file_batch_id = …`. -/
def isFileOfBatch (vectorStoreId batchId : String) (file : VectorStoreFileObject) : Bool :=
  file.vectorStoreId = vectorStoreId && file.fileBatchId = batchId

/-- A row of the table of vector store files. -/
abbrev VectorStoreFileRow : Type :=
  { file : VectorStoreFileObject // file.status ≠ .unknownVectorStoreFileStatus }

/-- The counts of `CountVectorStoreFiles`. -/
def fileCounts (files : List VectorStoreFileObject) : FileCounts where
  inProgress := files.countP fun file => file.status = .inProgress
  completed := files.countP fun file => file.status = .completed
  failed := files.countP fun file => file.status = .failed
  cancelled := files.countP fun file => file.status = .cancelled
  total := files.length

/-- The assignments of `UpdateVectorStoreFile`. -/
def VectorStoreFileObject.assign (file : VectorStoreFileObject)
    (req : ModifyVectorStoreFileRequest) : VectorStoreFileObject :=
  { file with
    status := if req.status = .unknownVectorStoreFileStatus then file.status else req.status
    lastError := req.lastError.or file.lastError
    summary := if isNotBlankString req.summary then req.summary else file.summary }

theorem VectorStoreFileObject.status_assign {file : VectorStoreFileObject}
    {req : ModifyVectorStoreFileRequest} (h : file.status ≠ .unknownVectorStoreFileStatus) :
    (file.assign req).status ≠ .unknownVectorStoreFileStatus := by
  show (if req.status = .unknownVectorStoreFileStatus then file.status else req.status) ≠ _
  split
  · exact h
  · assumption

/-- The assignment of `CancelVectorStoreFiles`. -/
def VectorStoreFileObject.cancel (file : VectorStoreFileObject) : VectorStoreFileObject :=
  { file with status := .cancelled }

/-- A cancelled file keeps its key. -/
theorem cancel_key (file : VectorStoreFileObject) :
    (file.cancel.fileId, file.cancel.vectorStoreId) = (file.fileId, file.vectorStoreId) := rfl

/-- A cancelled file has a known status. -/
theorem cancel_status_ne (file : VectorStoreFileObject)
    (_ : file.status ≠ .unknownVectorStoreFileStatus) :
    file.cancel.status ≠ .unknownVectorStoreFileStatus :=
  fun h => by cases h

namespace VectorStoreFileDataMapper

/-- The table of vector store files. -/
abbrev FileTable : Type :=
  Table (fun row : VectorStoreFileObject => (row.fileId, row.vectorStoreId))
    fun row => row.status ≠ .unknownVectorStoreFileStatus

/-- `InsertVectorStoreFile`: how many rows were inserted. -/
def insertVectorStoreFile (req : CreateVectorStoreFileRequest) : ServiceM Nat := do
  templateVariable "file_id" req.fileId
  templateVariable "vector_store_id" req.vectorStoreId
  insertRow (·.vectorStoreFiles) (fun t s => { s with vectorStoreFiles := t })
    (fun now =>
      { fileId := req.fileId
        createdAt := now
        vectorStoreId := req.vectorStoreId
        status := .inProgress }) fun _ => nofun
  pure 1

/-- The rows of one insert statement, all or none. -/
def insertFileRows : List VectorStoreFileRow → FileTable → Option FileTable
  | [], table => some table
  | file :: rest, table => (table.insert file.val file.property).bind (insertFileRows rest)

/-- `InsertManyVectorStoreFiles`: the ids of the files. -/
def insertManyVectorStoreFiles (vectorStoreId : String) (fileIds : List String)
    (batchId : String := "") : ServiceM (List String) := do
  assertNonEmptyRange fileIds "should have at least one file id"
  fun s =>
    let rows := fileIds.map fun fileId : String =>
      (⟨{ fileId := fileId
          createdAt := s.clock
          vectorStoreId := vectorStoreId
          status := .inProgress
          fileBatchId := batchId }, nofun⟩ : VectorStoreFileRow)
    match insertFileRows rows s.vectorStoreFiles with
    | some table => (.ok fileIds, { s with vectorStoreFiles := table, clock := s.clock + 1 })
    | none => (.error duplicateKey, s)

/-- `ListVectorStoreFiles`, by file ids. -/
def listVectorStoreFilesById (vectorStoreId : String) (fileIds : List String) :
    ServiceM (List VectorStoreFileObject) :=
  Action.gets fun s => s.vectorStoreFiles.rows.filter fun file =>
    file.vectorStoreId = vectorStoreId && fileIds.contains file.fileId

/-- `CountVectorStoreFiles`.  The batch counts only where the request names one. -/
def countVectorStoreFiles (vectorStoreId : String) (batchId : String := "") :
    ServiceM FileCounts := do
  templateVariable "vector_store_id" vectorStoreId
  Action.gets fun s => fileCounts (s.vectorStoreFiles.rows.filter fun file =>
    file.vectorStoreId = vectorStoreId && (batchId = "" || file.fileBatchId = batchId))

/-- `DeleteVectorStoreFile`: how many rows were deleted. -/
def deleteVectorStoreFile (vectorStoreId fileId : String) : ServiceM Nat := fun s =>
  (.ok (s.vectorStoreFiles.count (isVectorStoreFile vectorStoreId fileId)),
    { s with
      vectorStoreFiles := s.vectorStoreFiles.delete (isVectorStoreFile vectorStoreId fileId) })

/-- `GetVectorStoreFile`. -/
def getVectorStoreFile (vectorStoreId fileId : String) :
    ServiceM (Option VectorStoreFileObject) :=
  Action.gets fun s => s.vectorStoreFiles.find? (isVectorStoreFile vectorStoreId fileId)

/-- `CancelVectorStoreFiles`: how many rows were updated. -/
def cancelVectorStoreFiles (vectorStoreId batchId : String) : ServiceM Nat := do
  assertNotBlank batchId "should provide batch_id"
  assertNotBlank vectorStoreId "should provide vector_store_id"
  fun s =>
    let cancels := fun file : VectorStoreFileObject =>
      isFileOfBatch vectorStoreId batchId file && file.status = .inProgress
    (.ok (s.vectorStoreFiles.count cancels),
      { s with
        vectorStoreFiles := s.vectorStoreFiles.update cancels VectorStoreFileObject.cancel
          cancel_key cancel_status_ne })

/-- `UpdateVectorStoreFile`: how many rows were updated. -/
def updateVectorStoreFile (req : ModifyVectorStoreFileRequest) : ServiceM Nat := do
  templateVariable "vector_store_id" req.vectorStoreId
  templateVariable "file_id" req.fileId
  fun s =>
    (.ok (s.vectorStoreFiles.count (isVectorStoreFile req.vectorStoreId req.fileId)),
      { s with
        vectorStoreFiles := s.vectorStoreFiles.update
          (isVectorStoreFile req.vectorStoreId req.fileId) (·.assign req)
          (fun _ => rfl) fun _ h => VectorStoreFileObject.status_assign h })

end VectorStoreFileDataMapper

/-! ### `VectorStoreFileBatchDataMapper` -/

/-- The assignments of `UpdateVectorStoreFileBatch`. -/
def VectorStoreFileBatchObject.assign (batch : VectorStoreFileBatchObject)
    (req : ModifyVectorStoreFileBatchRequest) (now : Nat) : VectorStoreFileBatchObject :=
  { batch with
    status := if req.status = .unknownVectorStoreFileBatchStatus then batch.status else req.status
    lastError := req.lastError.or batch.lastError
    sanityCheckAt := if 0 < req.sanityCheckAt then req.sanityCheckAt else batch.sanityCheckAt
    modifiedAt := now }

/-- The store after an update of the file batch that a request names. -/
def Store.assignFileBatch (s : Store) (req : ModifyVectorStoreFileBatchRequest) : Store :=
  { s with
    vectorStoreFileBatches := s.vectorStoreFileBatches.update (fun row => row.id = req.batchId)
      (fun batch => batch.assign req s.clock) (fun _ => rfl) fun _ h => h
    clock := s.clock + 1 }

namespace VectorStoreFileBatchDataMapper

/-- `InsertVectorStoreFileBatch`: the id of the new row. -/
def insertVectorStoreFileBatch (req : CreateVectorStoreFileBatchRequest) : ServiceM String := do
  let id ← generateId "vsfb"
  insertRow (·.vectorStoreFileBatches) (fun t s => { s with vectorStoreFileBatches := t })
    (fun now =>
      { id := id.val
        createdAt := now
        modifiedAt := now
        vectorStoreId := req.vectorStoreId
        status := .inProgress }) fun _ => id.property
  pure id.val

/-- `GetVectorStoreFileBatch`: the statement does not look at the vector store. -/
def getVectorStoreFileBatch (_vectorStoreId batchId : String) :
    ServiceM (Option VectorStoreFileBatchObject) :=
  Action.gets fun s => s.vectorStoreFileBatches.find? fun row => row.id = batchId

/-- `UpdateVectorStoreFileBatch`: how many rows were updated. -/
def updateVectorStoreFileBatch (req : ModifyVectorStoreFileBatchRequest) : ServiceM Nat := do
  templateVariable "batch_id" req.batchId
  fun s =>
    (.ok (s.vectorStoreFileBatches.count fun row => row.id = req.batchId), s.assignFileBatch req)

/-- `ListPendingFileBatchObjects`, of all vector stores: the batches without a sanity check,
those that waited longest first. -/
def listPendingFileBatchObjects (limit : Nat) : ServiceM (List VectorStoreFileBatchObject) :=
  Action.gets fun s => (Paging.arrange (·.modifiedAt) false
    (s.vectorStoreFileBatches.rows.filter fun row => row.sanityCheckAt = 0)).take limit

end VectorStoreFileBatchDataMapper

/-! ### `DuckDBVectorStoreOperator` and `SimpleRetrieverOperator` -/

/-- `CreateInstance`. -/
def createInstance (instanceId : String) : ServiceM Unit := do
  assertNotBlank instanceId "should have non-blank instance_id"
  let instances ← Action.gets fun s : Store => s.vectorStoreInstances
  assertTrue (instanceId ∉ instances) ("instance with id " ++ instanceId ++ " already exists")
  Action.modify fun s => { s with vectorStoreInstances := s.vectorStoreInstances ++ [instanceId] }

/-- `SimpleRetrieverOperator::ProvisionRetriever`. -/
def provisionRetriever (vectorStoreId : String) : ServiceM Unit := createInstance vectorStoreId

/-- `LoadInstance`: whether there is such an instance. -/
def loadInstance (instanceId : String) : ServiceM Bool := do
  assertNotBlank instanceId "should have non-blank instance_id"
  Action.gets fun s => s.vectorStoreInstances.contains instanceId

/-- `SimpleRetrieverOperator::GetStatefulRetriever`. -/
def getStatefulRetriever (vectorStoreId : String) : ServiceM Unit := do
  assertNotBlank vectorStoreId "should have non-blank vector_store_object_id"
  let vectorStore ← loadInstance vectorStoreId
  assertTrue (vectorStore = true) ("should have found vector store by id " ++ vectorStoreId)

/-- Getting a retriever changes nothing. -/
theorem keeps_getStatefulRetriever (vectorStoreId : String) :
    Action.Keeps id (getStatefulRetriever vectorStoreId) := by
  refine Action.keeps_bind (Action.keeps_liftM _) fun _ => ?_
  refine Action.keeps_bind ?_ fun _ => Action.keeps_liftM _
  exact Action.keeps_bind (Action.keeps_liftM _) fun _ => Action.keeps_gets _

/-- There is a retriever where there is an instance. -/
theorem getStatefulRetriever_ok_iff {vectorStoreId : String} {s : Store} :
    (getStatefulRetriever vectorStoreId s).1 = .ok () ↔
      isBlankString vectorStoreId = false ∧ vectorStoreId ∈ s.vectorStoreInstances := by
  by_cases hblank : isBlankString vectorStoreId = false
  · simp only [getStatefulRetriever, loadInstance, Action.bind_apply, Action.liftM_apply,
      assertNotBlank_of hblank, Action.gets_apply, assertTrue_eq_ok, hblank, true_and]
    exact List.contains_iff_mem
  · refine iff_of_false (fun h => hblank ?_) fun h => hblank h.1
    obtain ⟨⟨⟩, hcheck, -⟩ := Action.ok_of_bind_liftM (Prod.ext h rfl)
    exact assertNotBlank_eq_ok.mp hcheck

/-- An action on the doc store and the vector tables. -/
def onRetrieval {α : Type} (action : RetrievalM α) : ServiceM α := fun s =>
  ((action s.retrieval).1, { s with retrieval := (action s.retrieval).2 })

/-! ### `VectorStoreServiceImpl` -/

/-- `VectorStoreServiceImpl::GetVectorStore`. -/
def getVectorStore (vectorStoreId : String) : ServiceM (Option VectorStoreObject) := do
  match ← VectorStoreDataMapper.getVectorStore vectorStoreId with
  | none => pure none
  | some vs =>
      let counts ← VectorStoreFileDataMapper.countVectorStoreFiles vectorStoreId
      pure (some { vs with fileCounts := counts })

/-- `VectorStoreServiceImpl::GetVectorStoreFile`. -/
def getVectorStoreFile (vectorStoreId fileId : String) :
    ServiceM (Option VectorStoreFileObject) := do
  assertNotBlank vectorStoreId "should have provide vector_store_id"
  assertNotBlank fileId "should have provide file_id"
  VectorStoreFileDataMapper.getVectorStoreFile vectorStoreId fileId

/-- `VectorStoreServiceImpl::ModifyVectorStoreFile`. -/
def modifyVectorStoreFile (req : ModifyVectorStoreFileRequest) :
    ServiceM (Option VectorStoreFileObject) := do
  assertNotBlank req.fileId "should provide file_id"
  assertNotBlank req.vectorStoreId "should provide vector_store_id"
  let found ← VectorStoreFileDataMapper.getVectorStoreFile req.vectorStoreId req.fileId
  assertTrue (found.isSome = true) "should have found VectorStoreFileObject before update"
  let count ← VectorStoreFileDataMapper.updateVectorStoreFile req
  assertTrue (count = 1) "should have VectorStoreFile updated"
  VectorStoreFileDataMapper.getVectorStoreFile req.vectorStoreId req.fileId

/-- `VectorStoreServiceImpl::GetVectorStoreFileBatch`.  The batch is dereferenced without
asking whether it was found. -/
def getVectorStoreFileBatch (vectorStoreId batchId : String) :
    ServiceM (Option VectorStoreFileBatchObject) := do
  assertNotBlank vectorStoreId "should provide valid vector_store_id"
  assertNotBlank batchId "should provide valid batch_id"
  let counts ← VectorStoreFileDataMapper.countVectorStoreFiles vectorStoreId batchId
  match ← VectorStoreFileBatchDataMapper.getVectorStoreFileBatch vectorStoreId batchId with
  | none => Action.throw (.undefinedBehaviour "batch_object->mutable_file_counts()")
  | some batch => pure (some { batch with fileCounts := counts })

/-- `VectorStoreServiceImpl::ModifyVectorStoreFileBatch`. -/
def modifyVectorStoreFileBatch (req : ModifyVectorStoreFileBatchRequest) :
    ServiceM (Option VectorStoreFileBatchObject) := do
  assertNotBlank req.batchId "batch id should not be blank"
  assertNotBlank req.vectorStoreId "vector store id should not be blank"
  let count ← VectorStoreFileBatchDataMapper.updateVectorStoreFileBatch req
  assertTrue (count ≠ 0)
  getVectorStoreFileBatch req.vectorStoreId req.batchId

theorem templateVariable_of_not_blank {name text : String} (h : isBlankString text = false) :
    templateVariable name text = .ok () := by
  refine if_neg ?_
  rintro rfl
  simp at h

/-- A file batch with the counts of its files. -/
def Store.withBatchCounts (s : Store) (vectorStoreId : String)
    (batch : VectorStoreFileBatchObject) : VectorStoreFileBatchObject :=
  { batch with
    fileCounts := fileCounts (s.vectorStoreFiles.rows.filter fun file =>
      file.vectorStoreId = vectorStoreId && (batch.id = "" || file.fileBatchId = batch.id)) }

/-- A file batch that is stored is found, with the counts of its files. -/
theorem getVectorStoreFileBatch_eq {s : Store} {vectorStoreId : String}
    {batch : VectorStoreFileBatchObject} (hbatch : batch ∈ s.vectorStoreFileBatches.rows)
    (hvs : isBlankString vectorStoreId = false) :
    getVectorStoreFileBatch vectorStoreId batch.id s
      = (.ok (some (s.withBatchCounts vectorStoreId batch)), s) := by
  have hblank := s.vectorStoreFileBatches.valid batch hbatch
  have hfind : s.vectorStoreFileBatches.find? (fun row => row.id = batch.id) = some batch :=
    Table.find?_eq_some_of_mem hbatch (decide_eq_true rfl) fun row hrow => of_decide_eq_true hrow
  simp only [getVectorStoreFileBatch, VectorStoreFileDataMapper.countVectorStoreFiles,
    VectorStoreFileBatchDataMapper.getVectorStoreFileBatch, Action.bind_apply, Action.liftM_apply,
    Action.gets_apply, assertNotBlank_of hblank, assertNotBlank_of hvs,
    templateVariable_of_not_blank hvs, hfind]
  rfl

/-- An update of a file batch that is stored goes through. -/
theorem modifyVectorStoreFileBatch_ok {req : ModifyVectorStoreFileBatchRequest} {s : Store}
    {batch : VectorStoreFileBatchObject} (hbatch : batch ∈ s.vectorStoreFileBatches.rows)
    (hid : req.batchId = batch.id) (hvs : isBlankString req.vectorStoreId = false) :
    ∃ found, modifyVectorStoreFileBatch req s = (.ok (some found), s.assignFileBatch req) := by
  have hblank : isBlankString req.batchId = false := by
    rw [hid]
    exact s.vectorStoreFileBatches.valid batch hbatch
  have hcount : s.vectorStoreFileBatches.count (fun row => row.id = req.batchId) ≠ 0 := by
    have hmem : batch ∈ s.vectorStoreFileBatches.rows.filter fun row => row.id = req.batchId :=
      List.mem_filter.mpr ⟨hbatch, decide_eq_true hid.symm⟩
    exact Nat.ne_of_gt (List.length_pos_of_mem hmem)
  have hupdate : VectorStoreFileBatchDataMapper.updateVectorStoreFileBatch req s
      = (.ok (s.vectorStoreFileBatches.count fun row => row.id = req.batchId),
        s.assignFileBatch req) := by
    simp only [VectorStoreFileBatchDataMapper.updateVectorStoreFileBatch,
      templateVariable_of_not_blank hblank]
    rfl
  -- the answer is read after the update, and finds the updated row
  have hmem : batch.assign req s.clock ∈ (s.assignFileBatch req).vectorStoreFileBatches.rows :=
    List.mem_map.mpr ⟨batch, hbatch, if_pos (decide_eq_true hid.symm)⟩
  refine ⟨(s.assignFileBatch req).withBatchCounts req.vectorStoreId (batch.assign req s.clock), ?_⟩
  simp only [modifyVectorStoreFileBatch, Action.bind_apply, Action.liftM_apply,
    assertNotBlank_of hblank, assertNotBlank_of hvs, hupdate, assertTrue_of hcount]
  rw [hid]
  exact getVectorStoreFileBatch_eq hmem hvs

/-- `VectorStoreServiceImpl::CancelVectorStoreFileBatch`. -/
def cancelVectorStoreFileBatch (req : CancelVectorStoreFileBatchRequest) :
    ServiceM (Option VectorStoreFileBatchObject) := do
  assertNotBlank req.batchId "should have non-blank"
  let batches ← VectorStoreFileBatchDataMapper.updateVectorStoreFileBatch
    { status := .cancelled, batchId := req.batchId, vectorStoreId := req.vectorStoreId }
  assertTrue (batches = 1) "should have VectorStoreFileBatch updated"
  let files ← VectorStoreFileDataMapper.cancelVectorStoreFiles req.vectorStoreId req.batchId
  assertTrue (0 < files) "should have vector store files updated"
  getVectorStoreFileBatch req.vectorStoreId req.batchId

/-- `VectorStoreServiceImpl::DeleteVectorStoreFile`.  The vector store is dereferenced without
asking whether it was found. -/
def deleteVectorStoreFile (req : DeleteVectorStoreFileRequest) :
    ServiceM DeleteVectorStoreFileResponse := do
  assertNotBlank req.vectorStoreId "should have provide vector_store_id"
  assertNotBlank req.fileId "should have provide file_id"
  let count ← VectorStoreFileDataMapper.deleteVectorStoreFile req.vectorStoreId req.fileId
  let response : DeleteVectorStoreFileResponse :=
    { id := req.fileId, deleted := decide (count = 1) }
  match ← VectorStoreDataMapper.getVectorStore req.vectorStoreId with
  | none => Action.throw (.undefinedBehaviour "vector_store_object->id()")
  | some vectorStore =>
      getStatefulRetriever vectorStore.id
      onRetrieval (remove vectorStore.id (.term metadataSchemaParentDocIdKey req.fileId))
      pure response

/-- `VectorStoreServiceImpl::ListPendingFileBatcheObjects`. -/
def listPendingFileBatcheObjects (limit : Int32) : ServiceM (List VectorStoreFileBatchObject) := do
  assertTrue (1 ≤ limit) "limit should be a positive number"
  VectorStoreFileBatchDataMapper.listPendingFileBatchObjects limit.toNatClampNeg

/-! ### What the calls leave as it is -/

section Keeps

variable {β : Type} {f : Store → β}

theorem keeps_insertVectorStore (hf : ∀ s t n k,
      f { s with vectorStores := t, clock := n, nextNumber := k } = f s)
    (req : CreateVectorStoreRequest) :
    Action.Keeps f (VectorStoreDataMapper.insertVectorStore req) := by
  refine Action.keeps_bind (keeps_generateId (fun s n => hf s s.vectorStores s.clock n) _)
    fun id => Action.keeps_bind (Action.keeps_liftM _) fun _ => ?_
  refine Action.keeps_bind ?_ fun _ => Action.keeps_pure _
  exact keeps_insertRow fun t s n => hf s t n s.nextNumber

theorem keeps_insertVectorStoreFile
    (hf : ∀ s t n, f { s with vectorStoreFiles := t, clock := n } = f s)
    (req : CreateVectorStoreFileRequest) :
    Action.Keeps f (VectorStoreFileDataMapper.insertVectorStoreFile req) := by
  refine Action.keeps_bind (Action.keeps_liftM _) fun _ => ?_
  refine Action.keeps_bind (Action.keeps_liftM _) fun _ => ?_
  exact Action.keeps_bind (keeps_insertRow fun t s n => hf s t n) fun _ => Action.keeps_pure _

theorem keeps_insertManyVectorStoreFiles
    (hf : ∀ s t n, f { s with vectorStoreFiles := t, clock := n } = f s) (vectorStoreId : String)
    (fileIds : List String) (batchId : String) : Action.Keeps f
      (VectorStoreFileDataMapper.insertManyVectorStoreFiles vectorStoreId fileIds batchId) := by
  refine Action.keeps_bind (Action.keeps_liftM _) fun _ s => ?_
  simp only []
  split
  · exact hf s _ _
  · rfl

theorem keeps_insertVectorStoreFileBatch (hf : ∀ s t n k,
      f { s with vectorStoreFileBatches := t, clock := n, nextNumber := k } = f s)
    (req : CreateVectorStoreFileBatchRequest) :
    Action.Keeps f (VectorStoreFileBatchDataMapper.insertVectorStoreFileBatch req) := by
  refine Action.keeps_bind (keeps_generateId (fun s n => hf s s.vectorStoreFileBatches s.clock n) _)
    fun id => Action.keeps_bind ?_ fun _ => Action.keeps_pure _
  exact keeps_insertRow fun t s n => hf s t n s.nextNumber

theorem keeps_createInstance (hf : ∀ s ids, f { s with vectorStoreInstances := ids } = f s)
    (instanceId : String) : Action.Keeps f (createInstance instanceId) := by
  refine Action.keeps_bind (Action.keeps_liftM _) fun _ => ?_
  refine Action.keeps_bind (Action.keeps_gets _) fun ids => ?_
  exact Action.keeps_bind (Action.keeps_liftM _) fun _ s => hf s _

theorem keeps_getVectorStore (vectorStoreId : String) :
    Action.Keeps id (getVectorStore vectorStoreId) := by
  refine Action.keeps_bind (Action.keeps_gets _) fun found => ?_
  cases found with
  | none => exact Action.keeps_pure _
  | some vs =>
      refine Action.keeps_bind ?_ fun _ => Action.keeps_pure _
      exact Action.keeps_bind (Action.keeps_liftM _) fun _ => Action.keeps_gets _

theorem keeps_getVectorStoreFile (vectorStoreId fileId : String) :
    Action.Keeps id (getVectorStoreFile vectorStoreId fileId) := by
  refine Action.keeps_bind (Action.keeps_liftM _) fun _ => ?_
  exact Action.keeps_bind (Action.keeps_liftM _) fun _ => Action.keeps_gets _

theorem keeps_getVectorStoreFileBatch (vectorStoreId batchId : String) :
    Action.Keeps id (getVectorStoreFileBatch vectorStoreId batchId) := by
  refine Action.keeps_bind (Action.keeps_liftM _) fun _ => ?_
  refine Action.keeps_bind (Action.keeps_liftM _) fun _ => ?_
  refine Action.keeps_bind ?_ fun counts => Action.keeps_bind (Action.keeps_gets _) fun found => ?_
  · exact Action.keeps_bind (Action.keeps_liftM _) fun _ => Action.keeps_gets _
  · cases found with
    | none => exact fun _ => rfl
    | some batch => exact Action.keeps_pure _

theorem keeps_modifyVectorStoreFile (hf : ∀ s t, f { s with vectorStoreFiles := t } = f s)
    (req : ModifyVectorStoreFileRequest) : Action.Keeps f (modifyVectorStoreFile req) := by
  refine Action.keeps_bind (Action.keeps_liftM _) fun _ => ?_
  refine Action.keeps_bind (Action.keeps_liftM _) fun _ => ?_
  refine Action.keeps_bind (Action.keeps_gets _) fun _ => ?_
  refine Action.keeps_bind (Action.keeps_liftM _) fun _ => ?_
  refine Action.keeps_bind ?_ fun _ =>
    Action.keeps_bind (Action.keeps_liftM _) fun _ => Action.keeps_gets _
  refine Action.keeps_bind (Action.keeps_liftM _) fun _ => ?_
  exact Action.keeps_bind (Action.keeps_liftM _) fun _ s => hf s _

theorem keeps_modifyVectorStoreFileBatch
    (hf : ∀ s t n, f { s with vectorStoreFileBatches := t, clock := n } = f s)
    (req : ModifyVectorStoreFileBatchRequest) :
    Action.Keeps f (modifyVectorStoreFileBatch req) := by
  refine Action.keeps_bind (Action.keeps_liftM _) fun _ => ?_
  refine Action.keeps_bind (Action.keeps_liftM _) fun _ => ?_
  refine Action.keeps_bind ?_ fun _ => Action.keeps_bind (Action.keeps_liftM _) fun _ =>
    Action.keeps_of_id (keeps_getVectorStoreFileBatch _ _)
  exact Action.keeps_bind (Action.keeps_liftM _) fun _ s => hf s _ _

theorem keeps_onRetrieval {α : Type} (hf : ∀ s r, f { s with retrieval := r } = f s)
    (action : RetrievalM α) : Action.Keeps f (onRetrieval action) := fun s => hf s _

end Keeps

end Instinct
