/-
Instinct/VectorStoreCalls.lean

The calls that clients of the vector store service and the handler of file tasks
make, and the programs that are made of them.

A call of a data mapper, of a service, of the retriever operator or of the
scheduler is one atomic action on the store.  What leaves the process (the file
store, ingestors, the chain that summarises) is answered by `FileOutside`, which
may answer anything or throw.

`exec_instances` and `exec_vectorStoreFiles` say which calls can change the
instances and the rows of vector store files.
-/
import Instinct.VectorStores

namespace Instinct

open Effects Tables

/-! ### Configuration -/

/-- What an ingestor reads out of a file: the texts of its pages, and what it throws after
them. -/
structure Ingestor where
  filePath : String := ""
  pages : List String := []
  failure : Option Exn := none
  deriving DecidableEq

/-- How the world outside the process answers the handler of file tasks. -/
structure FileOutside where
  retrieveFile : String → Except Exn (Option FileObject) := fun _ => .ok none
  downloadFile : FileObject → Except Exn Unit := fun _ => .ok ()
  createIngestor : FileObject → Except Exn (Option Ingestor) := fun _ => .ok none
  createSummary : List Document → Except Exn String := fun _ => .error (.other "no answer")

/-- What the handler of file tasks is built with. -/
structure FileHandlerConfig where
  retriever : RetrieverConfig
  /-- `VectorStoreFileObject::ShortDebugString`. -/
  shortDebugString : VectorStoreFileObject → String := fun file => file.fileId

/-! ### Calls -/

/-- The calls of clients and of the handler of file tasks. -/
inductive VectorStoreCall
  | insertVectorStore (req : CreateVectorStoreRequest)
  | insertVectorStoreFile (req : CreateVectorStoreFileRequest)
  | insertManyVectorStoreFiles (vectorStoreId : String) (fileIds : List String) (batchId : String)
  | insertVectorStoreFileBatch (req : CreateVectorStoreFileBatchRequest)
  | listVectorStoreFilesById (vectorStoreId : String) (fileIds : List String)
  | enqueue (file : VectorStoreFileObject)
  | provisionRetriever (vectorStoreId : String)
  | getVectorStore (vectorStoreId : String)
  | getVectorStoreFile (vectorStoreId fileId : String)
  | getVectorStoreFileBatch (vectorStoreId batchId : String)
  | modifyVectorStoreFile (req : ModifyVectorStoreFileRequest)
  | modifyVectorStoreFileBatch (req : ModifyVectorStoreFileBatchRequest)
  | getStatefulRetriever (vectorStoreId : String)
  | ingest (vectorStoreId fileId : String) (ingestor : Ingestor)
  | findDocuments (fileId : String)
  | retrieveFile (fileId : String)
  | downloadFile (file : FileObject)
  | createIngestor (file : FileObject)
  | createSummary (docs : List Document)
  deriving DecidableEq

/-- What a call returns. -/
@[reducible]
def VectorStoreCall.Res : VectorStoreCall → Type
  | insertVectorStore _ => String
  | insertVectorStoreFile _ => Nat
  | insertManyVectorStoreFiles _ _ _ => List String
  | insertVectorStoreFileBatch _ => String
  | listVectorStoreFilesById _ _ => List VectorStoreFileObject
  | enqueue _ => Unit
  | provisionRetriever _ => Unit
  | getVectorStore _ => Option VectorStoreObject
  | getVectorStoreFile _ _ => Option VectorStoreFileObject
  | getVectorStoreFileBatch _ _ => Option VectorStoreFileBatchObject
  | modifyVectorStoreFile _ => Option VectorStoreFileObject
  | modifyVectorStoreFileBatch _ => Option VectorStoreFileBatchObject
  | getStatefulRetriever _ => Unit
  | ingest _ _ _ => Unit
  | findDocuments _ => List Document
  | retrieveFile _ => Option FileObject
  | downloadFile _ => Unit
  | createIngestor _ => Option Ingestor
  | createSummary _ => String

/-- Code that makes these calls. -/
abbrev VectorStoreM (α : Type) : Type := Program Exn VectorStoreCall.Res α

/-- Make one call. -/
abbrev request (call : VectorStoreCall) : VectorStoreM call.Res := Program.perform call

/-- What a call does. -/
def VectorStoreCall.exec (config : FileHandlerConfig) (outside : FileOutside) :
    (call : VectorStoreCall) → ServiceM call.Res
  | .insertVectorStore req => VectorStoreDataMapper.insertVectorStore req
  | .insertVectorStoreFile req => VectorStoreFileDataMapper.insertVectorStoreFile req
  | .insertManyVectorStoreFiles vectorStoreId fileIds batchId =>
      VectorStoreFileDataMapper.insertManyVectorStoreFiles vectorStoreId fileIds batchId
  | .insertVectorStoreFileBatch req =>
      VectorStoreFileBatchDataMapper.insertVectorStoreFileBatch req
  | .listVectorStoreFilesById vectorStoreId fileIds =>
      VectorStoreFileDataMapper.listVectorStoreFilesById vectorStoreId fileIds
  | .enqueue file => Action.modify fun s => { s with fileQueue := s.fileQueue ++ [file] }
  | .provisionRetriever vectorStoreId => Instinct.provisionRetriever vectorStoreId
  | .getVectorStore vectorStoreId => Instinct.getVectorStore vectorStoreId
  | .getVectorStoreFile vectorStoreId fileId => Instinct.getVectorStoreFile vectorStoreId fileId
  | .getVectorStoreFileBatch vectorStoreId batchId =>
      Instinct.getVectorStoreFileBatch vectorStoreId batchId
  | .modifyVectorStoreFile req => Instinct.modifyVectorStoreFile req
  | .modifyVectorStoreFileBatch req => Instinct.modifyVectorStoreFileBatch req
  | .getStatefulRetriever vectorStoreId => Instinct.getStatefulRetriever vectorStoreId
  | .ingest vectorStoreId fileId ingestor =>
      onRetrieval (Instinct.ingest config.retriever vectorStoreId
        ⟨fileDocuments config.retriever vectorStoreId fileId ingestor.filePath ingestor.pages,
          ingestor.failure⟩)
  | .findDocuments fileId => Action.gets fun s => s.retrieval.docStore.filter fun doc =>
      (SearchQuery.term metadataSchemaFileSourceKey fileId).selects doc
  | .retrieveFile fileId => Action.ofExcept (outside.retrieveFile fileId)
  | .downloadFile file => Action.ofExcept (outside.downloadFile file)
  | .createIngestor file => Action.ofExcept (outside.createIngestor file)
  | .createSummary docs => Action.ofExcept (outside.createSummary docs)

/-! ### Which call changes what -/

/-- The calls that write. -/
def VectorStoreCall.writes : VectorStoreCall → Bool
  | .insertVectorStore _ | .insertVectorStoreFile _ | .insertManyVectorStoreFiles _ _ _
  | .insertVectorStoreFileBatch _ | .enqueue _ | .provisionRetriever _
  | .modifyVectorStoreFile _ | .modifyVectorStoreFileBatch _ | .ingest _ _ _ => true
  | _ => false

/-- The update of a file that a call makes. -/
def VectorStoreCall.fileUpdate? : VectorStoreCall → Option ModifyVectorStoreFileRequest
  | .modifyVectorStoreFile req => some req
  | _ => none

/-- The calls that insert rows of vector store files. -/
def VectorStoreCall.insertsFiles : VectorStoreCall → Bool
  | .insertVectorStoreFile _ | .insertManyVectorStoreFiles _ _ _ => true
  | _ => false

section Exec

variable {config : FileHandlerConfig} {outside : FileOutside}

/-- The other calls change nothing. -/
theorem exec_reads_vectorStores {call : VectorStoreCall} (h : call.writes = false) :
    Action.Keeps id (call.exec config outside) := by
  cases call with
  | listVectorStoreFilesById vectorStoreId fileIds => exact Action.keeps_gets _
  | getVectorStore vectorStoreId => exact keeps_getVectorStore _
  | getVectorStoreFile vectorStoreId fileId => exact keeps_getVectorStoreFile _ _
  | getVectorStoreFileBatch vectorStoreId batchId => exact keeps_getVectorStoreFileBatch _ _
  | getStatefulRetriever vectorStoreId => exact keeps_getStatefulRetriever _
  | findDocuments fileId => exact Action.keeps_gets _
  | retrieveFile fileId => exact fun _ => rfl
  | downloadFile file => exact fun _ => rfl
  | createIngestor file => exact fun _ => rfl
  | createSummary docs => exact fun _ => rfl
  | _ => simp [VectorStoreCall.writes] at h

/-- Only inserts and updates change the rows of vector store files. -/
theorem exec_vectorStoreFiles {call : VectorStoreCall} (hupdate : call.fileUpdate? = none)
    (hinserts : call.insertsFiles = false) :
    Action.Keeps Store.vectorStoreFiles (call.exec config outside) := by
  cases call with
  | insertVectorStore req => exact keeps_insertVectorStore (fun _ _ _ _ => rfl) req
  | insertVectorStoreFile req => simp [VectorStoreCall.insertsFiles] at hinserts
  | insertManyVectorStoreFiles vectorStoreId fileIds batchId =>
      simp [VectorStoreCall.insertsFiles] at hinserts
  | insertVectorStoreFileBatch req =>
      exact keeps_insertVectorStoreFileBatch (fun _ _ _ _ => rfl) req
  | enqueue file => exact fun _ => rfl
  | provisionRetriever vectorStoreId => exact keeps_createInstance (fun _ _ => rfl) _
  | modifyVectorStoreFile req => simp [VectorStoreCall.fileUpdate?] at hupdate
  | modifyVectorStoreFileBatch req =>
      exact keeps_modifyVectorStoreFileBatch (fun _ _ _ => rfl) req
  | ingest vectorStoreId fileId ingestor => exact keeps_onRetrieval (fun _ _ => rfl) _
  -- the calls left only read
  | _ => exact Action.keeps_of_id (exec_reads_vectorStores rfl)

/-- Only provisioning changes the instances. -/
theorem exec_instances {call : VectorStoreCall} (h : ∀ id, call ≠ .provisionRetriever id) :
    Action.Keeps Store.vectorStoreInstances (call.exec config outside) := by
  cases call with
  | insertVectorStore req => exact keeps_insertVectorStore (fun _ _ _ _ => rfl) req
  | insertVectorStoreFile req => exact keeps_insertVectorStoreFile (fun _ _ _ => rfl) req
  | insertManyVectorStoreFiles vectorStoreId fileIds batchId =>
      exact keeps_insertManyVectorStoreFiles (fun _ _ _ => rfl) vectorStoreId fileIds batchId
  | insertVectorStoreFileBatch req =>
      exact keeps_insertVectorStoreFileBatch (fun _ _ _ _ => rfl) req
  | enqueue file => exact fun _ => rfl
  | provisionRetriever vectorStoreId => exact absurd rfl (h vectorStoreId)
  | modifyVectorStoreFile req => exact keeps_modifyVectorStoreFile (fun _ _ => rfl) req
  | modifyVectorStoreFileBatch req =>
      exact keeps_modifyVectorStoreFileBatch (fun _ _ _ => rfl) req
  | ingest vectorStoreId fileId ingestor => exact keeps_onRetrieval (fun _ _ => rfl) _
  -- the calls left only read
  | _ => exact Action.keeps_of_id (exec_reads_vectorStores rfl)

end Exec

/-- `assert_true` of an optional value, and the value. -/
def assertValue {α : Type} (value : Option α) (message : String := "assertion failed") :
    Except Exn α :=
  match value with
  | some a => .ok a
  | none => .error (.client message)

/-! ### Clients -/

/-- `VectorStoreServiceImpl::CreateVectorStore`. -/
def createVectorStore (req : CreateVectorStoreRequest) :
    VectorStoreM (Option VectorStoreObject) := do
  let pk ← request (.insertVectorStore req)
  if 0 < req.fileIds.length then do
    let _ ← request (.insertManyVectorStoreFiles pk req.fileIds "")
    let files ← request (.listVectorStoreFilesById pk req.fileIds)
    files.forM fun file => request (.enqueue file)
  let found ← request (.getVectorStore pk)
  let vectorStore ← assertValue found "should have found created VectorStore"
  request (.provisionRetriever vectorStore.id)
  pure (some vectorStore)

/-- `VectorStoreServiceImpl::CreateVectorStoreFile`.  The file is dereferenced without asking
whether it was found. -/
def createVectorStoreFile (req : CreateVectorStoreFileRequest) :
    VectorStoreM (Option VectorStoreFileObject) := do
  assertNotBlank req.fileId "should provide file_id"
  assertNotBlank req.vectorStoreId "should provide vector_store_id"
  let count ← request (.insertVectorStoreFile req)
  assertTrue (count ≠ 0) "should have vector store file created"
  match ← request (.getVectorStoreFile req.vectorStoreId req.fileId) with
  | none => .raise (.undefinedBehaviour "file_object->file_id()")
  | some file => do
      request (.enqueue file)
      pure (some file)

/-- `VectorStoreServiceImpl::CreateVectorStoreFileBatch`. -/
def createVectorStoreFileBatch (req : CreateVectorStoreFileBatchRequest) :
    VectorStoreM (Option VectorStoreFileBatchObject) := do
  assertTrue (0 < req.fileIds.length) "should provide at least one file_id"
  assertNotBlank req.vectorStoreId "should provide valid vector_store_id"
  let pk ← request (.insertVectorStoreFileBatch req)
  let _ ← request (.insertManyVectorStoreFiles req.vectorStoreId req.fileIds pk)
  let files ← request (.listVectorStoreFilesById req.vectorStoreId req.fileIds)
  files.forM fun file => request (.enqueue file)
  request (.getVectorStoreFileBatch req.vectorStoreId pk)

/-! ### `FileObjectTaskHandler` -/

/-- `FileObjectTaskHandler::CheckVectorStoreFileOk`. -/
def checkVectorStoreFileOk (vectorStoreId fileId : String) : VectorStoreM Bool := do
  let file ← request (.getVectorStoreFile vectorStoreId fileId)
  pure (file.any fun file => file.status = .inProgress)

/-- The body of the `try` block: the summary of the file. -/
def ingestFile (config : FileHandlerConfig) (file : VectorStoreFileObject) :
    VectorStoreM String := do
  let vectorStore? ← request (.getVectorStore file.vectorStoreId)
  let vectorStore ← assertValue vectorStore? "should have found VectorStoreObject for file"
  let fileObject? ← request (.retrieveFile file.fileId)
  let fileObject ← assertValue fileObject?
    ("should have found file object with VectorStoreFileObject " ++ config.shortDebugString file)
  request (.downloadFile fileObject)
  let ingestor? ← request (.createIngestor fileObject)
  let ingestor ← assertValue ingestor? "should have created ingestor for file"
  request (.getStatefulRetriever vectorStore.id)
  request (.ingest vectorStore.id file.fileId ingestor)
  let docs ← request (.findDocuments file.fileId)
  request (.createSummary docs)

/-- The message of an exception that the `catch` block handles.  Whatever has a text is a
`std::exception`. -/
def failureMessage : Exn → String
  | .client message => message
  | .instinct message => message
  | .runtime what => what
  | .other what => what
  | .undefinedBehaviour _ => "File handling failed due to unknown exception"

/-- The update of the file at the end of `Handle`. -/
def finalUpdate (file : VectorStoreFileObject) : Except Exn String → ModifyVectorStoreFileRequest
  | .ok summary =>
      { fileId := file.fileId
        vectorStoreId := file.vectorStoreId
        status := .completed
        summary := summary }
  | .error e =>
      { fileId := file.fileId
        vectorStoreId := file.vectorStoreId
        status := .failed
        lastError := some { code := .serverError, message := failureMessage e } }

/-- The status that the counts of a batch give, once no file is in progress. -/
def FileCounts.status (counts : FileCounts) : VectorStoreFileBatchStatus :=
  if 0 < counts.cancelled then .cancelled
  else if 0 < counts.failed then .failed
  else if counts.completed = counts.total then .completed
  else .unknownVectorStoreFileBatchStatus

/-- The update of the batch at the end of `Handle`, as it was made.  The batch is dereferenced
without asking whether it was found. -/
def updateFileBatch (file : VectorStoreFileObject) :
    VectorStoreM (Option ModifyVectorStoreFileBatchRequest) := do
  match ← request (.getVectorStoreFileBatch file.vectorStoreId file.fileBatchId) with
  | none => .raise (.undefinedBehaviour "file_batch_object->file_counts()")
  | some batch =>
      if batch.fileCounts.inProgress = 0 then do
        let update : ModifyVectorStoreFileBatchRequest :=
          { vectorStoreId := batch.vectorStoreId
            batchId := batch.id
            status := batch.fileCounts.status }
        let modified ← request (.modifyVectorStoreFileBatch update)
        let _ ← assertValue modified
        pure (some update)
      else pure none

/-- The end of `Handle`, after the `try` statement. -/
def finishFile (file : VectorStoreFileObject) (result : Except Exn String) : VectorStoreM Unit := do
  if ← checkVectorStoreFileOk file.vectorStoreId file.fileId then do
    let modified ← request (.modifyVectorStoreFile (finalUpdate file result))
    let _ ← assertValue modified
    if isNotBlankString file.fileBatchId then do
      let _ ← updateFileBatch file

/-- What the `try` statement leaves: nothing catches undefined behaviour. -/
def attempt (p : VectorStoreM String) : VectorStoreM (Except Exn String) :=
  (p.bind fun summary => .ret (.ok summary)).tryCatch fun
    | .undefinedBehaviour place => .raise (.undefinedBehaviour place)
    | e => .ret (.error e)

/-- `FileObjectTaskHandler::Handle` on a payload. -/
def FileObjectTaskHandler.handle (config : FileHandlerConfig) (file : VectorStoreFileObject) :
    VectorStoreM Unit := do
  if ← checkVectorStoreFileOk file.vectorStoreId file.fileId then do
    let modified ← request (.modifyVectorStoreFile
      { fileId := file.fileId, vectorStoreId := file.vectorStoreId, status := .inProgress })
    let _ ← assertValue modified "should have VectorStoreFileObject updated"
    let result ← attempt (ingestFile config file)
    finishFile file result

/-! ### Which calls the handler makes -/

/-- The calls about file batches. -/
def VectorStoreCall.aboutBatches : VectorStoreCall → Bool
  | .getVectorStoreFileBatch _ _ | .modifyVectorStoreFileBatch _ => true
  | _ => false

/-- What follows the last update of the file: the update of its batch. -/
def finishBatch (file : VectorStoreFileObject) (modified : Option VectorStoreFileObject) :
    VectorStoreM Unit := do
  let _ ← assertValue modified
  if isNotBlankString file.fileBatchId then do
    let _ ← updateFileBatch file

section HandlerCalls

variable {P : VectorStoreCall → Prop} {file : VectorStoreFileObject}

theorem calls_checkVectorStoreFileOk {vectorStoreId fileId : String}
    (h : P (.getVectorStoreFile vectorStoreId fileId)) :
    (checkVectorStoreFileOk vectorStoreId fileId).Calls P :=
  (Program.calls_perform_bind _ _).mpr ⟨h, fun _ => trivial⟩

theorem calls_attempt {p : VectorStoreM String} (hp : p.Calls P) : (attempt p).Calls P := by
  refine Program.calls_tryCatch (Program.calls_bind hp fun _ => trivial) fun e => ?_
  cases e <;> trivial

theorem calls_updateFileBatch (hbatch : ∀ call, call.aboutBatches = true → P call) :
    (updateFileBatch file).Calls P := by
  refine (Program.calls_perform_bind _ _).mpr ⟨hbatch _ rfl, fun batch? => ?_⟩
  cases batch? with
  | none => trivial
  | some batch =>
      show Program.Calls _ (if batch.fileCounts.inProgress = 0 then _ else _)
      split
      · refine (Program.calls_perform_bind _ _).mpr ⟨hbatch _ rfl, fun modified => ?_⟩
        exact Program.calls_bind (Program.calls_ofExcept _) fun _ => trivial
      · trivial

theorem calls_finishBatch (hbatch : ∀ call, call.aboutBatches = true → P call)
    (modified : Option VectorStoreFileObject) : (finishBatch file modified).Calls P := by
  refine Program.calls_bind (Program.calls_ofExcept _) fun _ => ?_
  show Program.Calls _ (if isNotBlankString file.fileBatchId = true then _ else _)
  split
  · exact Program.calls_bind (calls_updateFileBatch hbatch) fun _ => trivial
  · trivial

theorem calls_finishFile (hcheck : P (.getVectorStoreFile file.vectorStoreId file.fileId))
    (hbatch : ∀ call, call.aboutBatches = true → P call) (result : Except Exn String)
    (hupdate : P (.modifyVectorStoreFile (finalUpdate file result))) :
    (finishFile file result).Calls P := by
  refine Program.calls_bind (calls_checkVectorStoreFileOk hcheck) fun ok => ?_
  show Program.Calls _ (if ok = true then
    (request (.modifyVectorStoreFile (finalUpdate file result))).bind (finishBatch file) else _)
  split
  · exact (Program.calls_perform_bind _ _).mpr ⟨hupdate, calls_finishBatch hbatch⟩
  · trivial

end HandlerCalls

end Instinct
