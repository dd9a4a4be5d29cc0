/-
Instinct/Files.lean

The file service: rows of files in the database, their contents in the object
store, and the calls that keep both.

A call changes the two stores one after the other, and any of its steps may fail
(`Faults`).  Nothing is undone.  `files_consistent` says which calls leave the two
stores in agreement, whatever else fails.
-/
import Instinct.Listing
import Instinct.ObjectIds
import Instinct.Transitions
import Mathlib.Data.List.Basic
import Mathlib.Tactic.IntervalCases

namespace Instinct

open Effects Tables Transitions

/-! ### Steps that may fail -/

/-- The steps of a call that touch the object store or the database. -/
inductive FileStep
  | putPath | putSize | putRemove
  | statePath | stateExists
  | deletePath | deleteExists | deleteRemove
  | getPath | getExists | getOpen
  | insertRow | selectRow | deleteRow
  deriving DecidableEq

/-- What fails in one call. -/
structure Faults where
  /-- The step throws, and changes nothing. -/
  throws : FileStep → Option Exn := fun _ => none
  /-- Whether the file to write is opened.  A stream that is not open throws nothing. -/
  opens : Bool := true
  /-- The bytes that are written before the stream fails, which throws nothing. -/
  written : Option Nat := none
  /-- The bytes that are read before the stream fails, which throws nothing. -/
  read : Option Nat := none

/-- A step of the call. -/
def Faults.step (faults : Faults) (step : FileStep) : Except Exn Unit :=
  match faults.throws step with
  | some e => .error e
  | none => .ok ()

/-- What of some bytes gets through. -/
def through (limit : Option Nat) (bytes : List UInt8) : List UInt8 :=
  match limit with
  | some n => bytes.take n
  | none => bytes

/-! ### The two stores -/

/-- The rows of `instinct_file`, whose columns are not null, and the objects of the bucket.
A `text` that is empty is null. -/
structure FileStores where
  files : Table FileObject.id fun row => row.filename ≠ "" := .empty
  objects : String → Option (List UInt8) := fun _ => none
  nextNumber : Nat := 1

/-- Service code on the two stores. -/
abbrev FileM (α : Type) : Type := Action Exn FileStores α

/-- `OSSStatus_ErrorType`. -/
inductive OSSStatusErrorType
  | unknownOSSError
  | objectNotFound
  | fileNotOpen
  | emptyFile
  deriving DecidableEq

structure OSSStatus where
  hasError : Bool := false
  message : String := ""
  errorType : OSSStatusErrorType := .unknownOSSError
  deriving DecidableEq

structure ObjectState where
  status : OSSStatus := {}
  byteSize : Int32 := 0
  deriving DecidableEq

/-- `to_string(OSSStatus_ErrorType)`. -/
def OSSStatusErrorType.text : OSSStatusErrorType → String
  | .objectNotFound => "ObjectNotFound"
  | _ => "UnknwnOSSError"

/-- `assert_status_ok`. -/
def assertStatusOk (status : OSSStatus) : Except Exn Unit :=
  if status.hasError then .error (.client ("ObjectStore operation failed. error_type="
    ++ status.errorType.text ++ " ,message=" ++ status.message))
  else .ok ()

/-- `to_string(FileObjectPurpose)`. -/
def FileObjectPurpose.text : FileObjectPurpose → String
  | .assistants => "assistants"
  | .assistantsOutput => "assistants_output"
  | .unknownFileObjectPurpose => "unknown"

/-- `file_id.back() % 10`. -/
def partitionId (fileId : String) : Nat := (fileId.toList.getLastD '0').toNat % 10

/-- `map_file_object_key`. -/
def mapFileObjectKey (purpose : FileObjectPurpose) (fileId : String) : String :=
  purpose.text ++ "/" ++ toString (partitionId fileId) ++ "/" ++ fileId

/-- What is stored under one key is replaced. -/
def FileStores.setObject (s : FileStores) (key : String) (object : Option (List UInt8)) :
    FileStores :=
  { s with objects := fun k => if k = key then object else s.objects k }

/-! ### `FileSystemObjectStore` -/

namespace FileSystemObjectStore

/-- The stream writes to the file, as far as it gets. -/
def write (faults : Faults) (key : String) (bytes : List UInt8) : FileM Unit :=
  Action.modify fun s =>
    if faults.opens then s.setObject key (some (through faults.written bytes)) else s

/-- `PutObject` of a stream. -/
def putObjectStream (faults : Faults) (key : String) (input : List UInt8) :
    FileM OSSStatus := do
  faults.step .putPath
  write faults key input
  let object ← Action.gets fun s => s.objects key
  match object with
  | none => Action.throw (.other "filesystem error: cannot get file size")
  | some bytes => do
      faults.step .putSize
      if bytes = [] then do
        faults.step .putRemove
        Action.modify fun s => s.setObject key none
        pure { hasError := true, errorType := .emptyFile }
      else if faults.opens then pure {}
      else pure { hasError := true, errorType := .fileNotOpen }

/-- `PutObject` of a buffer: nobody asks whether the stream is open, or good. -/
def putObject (faults : Faults) (key : String) (buffer : List UInt8) : FileM OSSStatus := do
  faults.step .putPath
  write faults key buffer
  pure {}

/-- `GetObject`, into a buffer: `ReadString` throws where the file is not opened. -/
def getObject (faults : Faults) (key : String) : FileM (Except OSSStatus (List UInt8)) := do
  faults.step .getPath
  faults.step .getExists
  let object ← Action.gets fun s => s.objects key
  match object with
  | none => pure (.error { hasError := true, errorType := .objectNotFound })
  | some bytes => do
      faults.step .getOpen
      pure (.ok (through faults.read bytes))

/-- `GetObject`, into a stream. -/
def getObjectStream (faults : Faults) (key : String) : FileM (Except OSSStatus (List UInt8)) := do
  faults.step .getPath
  faults.step .getExists
  let object ← Action.gets fun s => s.objects key
  match object with
  | none => pure (.error { hasError := true, errorType := .objectNotFound })
  | some bytes =>
      if (faults.throws .getOpen).isSome then
        pure (.error { hasError := true, errorType := .fileNotOpen })
      else pure (.ok (through faults.read bytes))

/-- `DeleteObject`. -/
def deleteObject (faults : Faults) (key : String) : FileM OSSStatus := do
  faults.step .deletePath
  faults.step .deleteExists
  let object ← Action.gets fun s => s.objects key
  match object with
  | none => pure { hasError := true, errorType := .objectNotFound }
  | some _ => do
      faults.step .deleteRemove
      Action.modify fun s => s.setObject key none
      pure {}

/-- `GetObjectState`. -/
def getObjectState (faults : Faults) (key : String) : FileM ObjectState := do
  faults.step .statePath
  faults.step .stateExists
  let object ← Action.gets fun s => s.objects key
  match object with
  | none => pure { status := { hasError := true, errorType := .objectNotFound } }
  | some bytes => pure { byteSize := Int32.ofNat bytes.length }

end FileSystemObjectStore

/-! ### `EntitySQLUtils` -/

/-- `InsertOneFile`. -/
def insertOneFile (faults : Faults) (row : FileObject) : FileM Unit := do
  faults.step .insertRow
  fun s =>
    if h : row.filename ≠ "" then
      match s.files.insert row h with
      | some t => (.ok (), { s with files := t })
      | none => (.error duplicateKey, s)
    else (.error (.client "Constraint Error: NOT NULL constraint failed"), s)

/-- `SelectOneFile`. -/
def selectOneFile (faults : Faults) (fileId : String) : FileM (Option FileObject) := do
  templateVariable "file_id" fileId
  faults.step .selectRow
  Action.gets fun s => s.files.find? fun row => row.id = fileId

/-- `DeleteFile`: how many rows were deleted. -/
def deleteOneFile (faults : Faults) (fileId : String) : FileM Nat := do
  templateVariable "file_id" fileId
  faults.step .deleteRow
  fun s => (.ok (s.files.count fun row => row.id = fileId),
    { s with files := s.files.delete fun row => row.id = fileId })

/-! ### `FileServiceImpl` -/

structure UploadFileRequest where
  fileContent : List UInt8 := []
  filename : String := ""
  purpose : FileObjectPurpose := .unknownFileObjectPurpose
  deriving DecidableEq

structure DeleteFileResponse where
  id : String := ""
  deleted : Bool := false
  deriving Repr, DecidableEq

namespace FileServiceImpl

/-- `details::generate_next_object_id("file")`. -/
def generateFileId : FileM String := fun s =>
  (.ok (generateNextObjectId "file" s.nextNumber), { s with nextNumber := s.nextNumber + 1 })

/-- `RetrieveFile`. -/
def retrieveFile (faults : Faults) (fileId : String) : FileM (Option FileObject) :=
  selectOneFile faults fileId

/-- The second half of both `UploadFile`s: the row, with the size of the object. -/
def recordFile (faults : Faults) (req : UploadFileRequest) (id : String) :
    FileM (Option FileObject) := do
  let state ← FileSystemObjectStore.getObjectState faults (mapFileObjectKey req.purpose id)
  assertStatusOk state.status
  insertOneFile faults
    { id := id, bytes := state.byteSize, filename := req.filename, purpose := req.purpose }
  retrieveFile faults id

/-- `UploadFile` of the content in the request. -/
def uploadFile (faults : Faults) (req : UploadFileRequest) : FileM (Option FileObject) := do
  assertTrue (req.purpose ≠ .unknownFileObjectPurpose) "should provide purpose"
  let id ← generateFileId
  let status ← FileSystemObjectStore.putObject faults (mapFileObjectKey req.purpose id)
    req.fileContent
  assertStatusOk status
  recordFile faults req id

/-- `UploadFile` of a stream: the purpose is not asked for. -/
def uploadFileStream (faults : Faults) (req : UploadFileRequest) (input : List UInt8) :
    FileM (Option FileObject) := do
  let id ← generateFileId
  let status ← FileSystemObjectStore.putObjectStream faults (mapFileObjectKey req.purpose id)
    input
  assertStatusOk status
  recordFile faults req id

/-- `DeleteFile`. -/
def deleteFile (faults : Faults) (fileId : String) : FileM DeleteFileResponse := do
  assertNotBlank fileId "should provide file_id"
  let file ← retrieveFile faults fileId
  match file with
  | none => pure { id := fileId, deleted := false }
  | some file => do
      let count ← deleteOneFile faults fileId
      let status ← FileSystemObjectStore.deleteObject faults
        (mapFileObjectKey file.purpose file.id)
      if status.hasError && status.errorType = .objectNotFound then
        pure { id := fileId, deleted := false }
      else do
        assertStatusOk status
        pure { id := file.id, deleted := decide (count = 1) }

/-- `DownloadFile` as a string. -/
def downloadFile (faults : Faults) (fileId : String) : FileM (Option (List UInt8)) := do
  let file ← retrieveFile faults fileId
  match file with
  | none => pure none
  | some file => do
      let object ← FileSystemObjectStore.getObject faults (mapFileObjectKey file.purpose file.id)
      match object with
      | .ok bytes => pure (some bytes)
      | .error status =>
          if status.hasError && status.errorType = .objectNotFound then pure none
          else do
            assertStatusOk status
            pure (some [])

/-- `DownloadFile` into a stream. -/
def downloadFileStream (faults : Faults) (bucketName fileId : String) : FileM (List UInt8) := do
  let file ← retrieveFile faults fileId
  match file with
  | none => Action.throw (.client ("Attempted to download non-existing file: bucket="
      ++ bucketName ++ ", file_id=" ++ fileId))
  | some file => do
      let object ← FileSystemObjectStore.getObjectStream faults
        (mapFileObjectKey file.purpose file.id)
      match object with
      | .ok bytes => pure bytes
      | .error status => do
          assertStatusOk status
          pure []

end FileServiceImpl

/-! ### Calls, one after the other -/

/-- The calls of clients. -/
inductive FileServiceCall
  | uploadFile (req : UploadFileRequest)
  | uploadFileStream (req : UploadFileRequest) (input : List UInt8)
  | retrieveFile (fileId : String)
  | downloadFile (fileId : String)
  | downloadFileStream (bucketName fileId : String)
  | deleteFile (fileId : String)

/-- The two stores after a call, returned or thrown. -/
def FileServiceCall.run (faults : Faults) (s : FileStores) : FileServiceCall → FileStores
  | uploadFile req => (FileServiceImpl.uploadFile faults req s).2
  | uploadFileStream req input => (FileServiceImpl.uploadFileStream faults req input s).2
  | retrieveFile fileId => (FileServiceImpl.retrieveFile faults fileId s).2
  | downloadFile fileId => (FileServiceImpl.downloadFile faults fileId s).2
  | downloadFileStream bucketName fileId =>
      (FileServiceImpl.downloadFileStream faults bucketName fileId s).2
  | deleteFile fileId => (FileServiceImpl.deleteFile faults fileId s).2

/-- The content that a call uploads. -/
def FileServiceCall.content? : FileServiceCall → Option (List UInt8)
  | uploadFile req => some req.fileContent
  | uploadFileStream _ input => some input
  | _ => none

/-- The two stores, and which content was uploaded under an id. -/
structure FileHistory where
  stores : FileStores := {}
  uploaded : String → Option (List UInt8) := fun _ => none

/-- The id that the next upload gets. -/
def FileStores.nextId (s : FileStores) : String := generateNextObjectId "file" s.nextNumber

/-- The content is uploaded under the id. -/
def noteUpload (uploaded : String → Option (List UInt8)) (fileId : String)
    (content : List UInt8) : String → Option (List UInt8) :=
  fun id => if id = fileId then some content else uploaded id

/-- A call in which something may fail. -/
def fileServiceStep (h : FileHistory) (event : FileServiceCall × Faults) : Option FileHistory :=
  some
    { stores := event.1.run event.2 h.stores
      uploaded := event.1.content?.elim h.uploaded (noteUpload h.uploaded h.stores.nextId) }

/-- **The two stores agree**: a file has a row exactly when it has an object, and a file with a
row is retrieved with the length of the content that was uploaded, and downloaded as this
content. -/
def FilesAgree (h : FileHistory) : Prop :=
  ∀ fileId : String,
    ((∃ file ∈ h.stores.files.rows, file.id = fileId) ↔
      ∃ purpose, (h.stores.objects (mapFileObjectKey purpose fileId)).isSome) ∧
    ∀ file ∈ h.stores.files.rows, file.id = fileId → ∃ content,
      h.uploaded fileId = some content ∧
      (FileServiceImpl.retrieveFile {} fileId h.stores).1 = .ok (some file) ∧
      file.bytes.toInt = content.length ∧
      (FileServiceImpl.downloadFile {} fileId h.stores).1 = .ok (some content) ∧
      ∀ bucketName, (FileServiceImpl.downloadFileStream {} bucketName fileId h.stores).1
        = .ok content

/-- Nothing keeps the row of a stored object from being inserted. -/
def Faults.RecordsRow (faults : Faults) (req : UploadFileRequest) : Prop :=
  faults.throws .statePath = none ∧ faults.throws .stateExists = none ∧
    faults.throws .insertRow = none ∧ req.filename ≠ ""

/-- The content is stored as a whole, and its length is an `int32`. -/
def Faults.StoresWhole (faults : Faults) (content : List UInt8) : Prop :=
  through faults.written content = content ∧ content.length < 2 ^ 31

/-- The call leaves no half of its work behind: it stores nothing, or what it stores is whole
and gets its row; it deletes no row, or the object as well. -/
def FileServiceCall.Whole (faults : Faults) (s : FileStores) : FileServiceCall → Prop
  | uploadFile req =>
      req.purpose = .unknownFileObjectPurpose ∨ faults.throws .putPath ≠ none ∨
        faults.opens = false ∨ faults.RecordsRow req ∧ faults.StoresWhole req.fileContent
  | uploadFileStream req input =>
      faults.throws .putPath ≠ none ∨ faults.opens = false ∨
        faults.throws .putSize = none ∧
          (through faults.written input = [] ∧ faults.throws .putRemove = none ∨
            through faults.written input ≠ [] ∧ faults.RecordsRow req ∧ faults.StoresWhole input)
  | deleteFile fileId =>
      (∀ file ∈ s.files.rows, file.id ≠ fileId) ∨ faults.throws .selectRow ≠ none ∨
        faults.throws .deleteRow ≠ none ∨
          faults.throws .deletePath = none ∧ faults.throws .deleteExists = none ∧
            faults.throws .deleteRemove = none
  | _ => True

/-! ### Keys -/

theorem slash_notMem_text (purpose : FileObjectPurpose) : '/' ∉ purpose.text.toList := by
  cases purpose <;> decide

theorem slash_notMem_partitionId (fileId : String) :
    '/' ∉ (toString (partitionId fileId)).toList := by
  have hlt : partitionId fileId < 10 := Nat.mod_lt _ (by decide)
  generalize partitionId fileId = n at hlt
  interval_cases n <;> decide

theorem text_injective : Function.Injective FileObjectPurpose.text := by
  intro p q h
  cases p <;> cases q <;> first | rfl | exact absurd h (by decide)

/-- The part before the first slash, and the part behind it. -/
theorem append_slash_inj {a b x y : List Char} (ha : '/' ∉ a) (hb : '/' ∉ b)
    (h : a ++ '/' :: x = b ++ '/' :: y) : a = b ∧ x = y := by
  induction a generalizing b with
  | nil =>
      cases b with
      | nil => exact ⟨rfl, (List.cons.inj h).2⟩
      | cons d ds => exact absurd (List.mem_cons.mpr (.inl (List.cons.inj h).1)) hb
  | cons c cs ih =>
      cases b with
      | nil => exact absurd (List.mem_cons.mpr (.inl (List.cons.inj h).1.symm)) ha
      | cons d ds =>
          rw [List.cons_append, List.cons_append] at h
          obtain ⟨rfl, htail⟩ := List.cons.inj h
          obtain ⟨rfl, rfl⟩ := ih (fun hc => ha (List.mem_cons_of_mem _ hc))
            (fun hd => hb (List.mem_cons_of_mem _ hd)) htail
          exact ⟨rfl, rfl⟩

/-- A key names the purpose and the file. -/
theorem mapFileObjectKey_inj {p q : FileObjectPurpose} {fileId fileId' : String}
    (h : mapFileObjectKey p fileId = mapFileObjectKey q fileId') : p = q ∧ fileId = fileId' := by
  have hlist : ∀ (p : FileObjectPurpose) (fileId : String), (mapFileObjectKey p fileId).toList
      = p.text.toList ++ '/' :: ((toString (partitionId fileId)).toList
        ++ '/' :: fileId.toList) := by
    intro p fileId
    simp [mapFileObjectKey]
  have h := congrArg String.toList h
  rw [hlist, hlist] at h
  -- a purpose and a partition have no slash, so that the first two slashes end them
  obtain ⟨hpurpose, h⟩ := append_slash_inj (slash_notMem_text p) (slash_notMem_text q) h
  obtain ⟨-, h⟩ := append_slash_inj (slash_notMem_partitionId fileId)
    (slash_notMem_partitionId fileId') h
  exact ⟨text_injective (String.toList_inj.mp hpurpose), String.toList_inj.mp h⟩

/-! ### Sound stores -/

/-- Every row has its object, with what was uploaded; every object has its row; and the ids of
the rows have been generated. -/
structure FileStores.Sound (s : FileStores) (uploaded : String → Option (List UInt8)) :
    Prop where
  rows : ∀ file ∈ s.files.rows, ∃ content, uploaded file.id = some content ∧
    s.objects (mapFileObjectKey file.purpose file.id) = some content ∧
    file.bytes = Int32.ofNat content.length ∧ content.length < 2 ^ 31
  objects : ∀ key, (s.objects key).isSome →
    ∃ file ∈ s.files.rows, key = mapFileObjectKey file.purpose file.id
  ids : ∀ file ∈ s.files.rows, ∃ n < s.nextNumber, file.id = generateNextObjectId "file" n

section Sound

variable {s t : FileStores} {uploaded : String → Option (List UInt8)} {content : List UInt8}

theorem sound_empty : FileStores.Sound {} uploaded := ⟨nofun, nofun, nofun⟩

/-- The next id is not the id of a row. -/
theorem FileStores.Sound.id_ne_nextId (h : s.Sound uploaded) :
    ∀ file ∈ s.files.rows, file.id ≠ s.nextId := by
  intro file hfile hid
  obtain ⟨n, hn, hgenerated⟩ := h.ids file hfile
  exact Nat.ne_of_lt hn (generateNextObjectId_injective "file" (hgenerated.symm.trans hid))

/-- There is no object yet for the next id. -/
theorem FileStores.Sound.objects_nextId (h : s.Sound uploaded) (purpose : FileObjectPurpose) :
    s.objects (mapFileObjectKey purpose s.nextId) = none := by
  refine Option.not_isSome_iff_eq_none.mp fun hsome => ?_
  obtain ⟨file, hfile, hkey⟩ := h.objects _ hsome
  exact h.id_ne_nextId file hfile (mapFileObjectKey_inj hkey).2.symm

/-- A row keeps its content in an upload. -/
theorem FileStores.Sound.noteUpload (h : s.Sound uploaded) :
    s.Sound (noteUpload uploaded s.nextId content) where
  rows file hfile := by
    obtain ⟨stored, hstored, hrest⟩ := h.rows file hfile
    exact ⟨stored, (if_neg (h.id_ne_nextId file hfile)).trans hstored, hrest⟩
  objects := h.objects
  ids := h.ids

/-- An id is generated. -/
theorem FileStores.Sound.generated (h : s.Sound uploaded) :
    ({ s with nextNumber := s.nextNumber + 1 } : FileStores).Sound uploaded where
  rows := h.rows
  objects := h.objects
  ids file hfile := by
    obtain ⟨n, hn, hid⟩ := h.ids file hfile
    exact ⟨n, Nat.lt_succ_of_lt hn, hid⟩

/-- An object and its row are stored, under a generated id that is not yet in use. -/
theorem FileStores.Sound.stored {row : FileObject} (h : s.Sound uploaded)
    (hnew : ∀ file ∈ s.files.rows, file.id ≠ row.id)
    (hgenerated : ∃ n < s.nextNumber, row.id = generateNextObjectId "file" n)
    (huploaded : uploaded row.id = some content)
    (hbytes : row.bytes = Int32.ofNat content.length) (hlength : content.length < 2 ^ 31)
    (hrows : t.files.rows = s.files.rows ++ [row])
    (hobjects : t.objects
      = (s.setObject (mapFileObjectKey row.purpose row.id) (some content)).objects)
    (hnumber : t.nextNumber = s.nextNumber) : t.Sound uploaded where
  rows file hfile := by
    rw [hrows] at hfile
    rw [hobjects]
    rcases List.mem_append.mp hfile with hold | hrow
    · obtain ⟨stored, hstored, hobject, hrest⟩ := h.rows file hold
      refine ⟨stored, hstored, (if_neg fun hkey => ?_).trans hobject, hrest⟩
      exact hnew file hold (mapFileObjectKey_inj hkey).2
    · obtain rfl := List.mem_singleton.mp hrow
      exact ⟨content, huploaded, if_pos rfl, hbytes, hlength⟩
  objects key hkey := by
    rw [hobjects] at hkey
    rw [hrows]
    by_cases hrow : key = mapFileObjectKey row.purpose row.id
    · exact ⟨row, List.mem_append_right _ (List.mem_singleton.mpr rfl), hrow⟩
    · have hold : (s.setObject (mapFileObjectKey row.purpose row.id) (some content)).objects key
          = s.objects key := if_neg hrow
      rw [hold] at hkey
      obtain ⟨file, hfile, hfilekey⟩ := h.objects key hkey
      exact ⟨file, List.mem_append_left _ hfile, hfilekey⟩
  ids file hfile := by
    rw [hrows] at hfile
    rw [hnumber]
    rcases List.mem_append.mp hfile with hold | hrow
    · exact h.ids file hold
    · obtain rfl := List.mem_singleton.mp hrow
      exact hgenerated

/-- A row is deleted, and its object as well. -/
theorem FileStores.Sound.deleted {file : FileObject} (h : s.Sound uploaded)
    (hfile : file ∈ s.files.rows) :
    (({ s with files := s.files.delete fun row => row.id = file.id } : FileStores).setObject
      (mapFileObjectKey file.purpose file.id) none).Sound uploaded where
  rows row hrow := by
    obtain ⟨hmem, hother⟩ := List.mem_filter.mp hrow
    obtain ⟨stored, hstored, hobject, hrest⟩ := h.rows row hmem
    refine ⟨stored, hstored, (if_neg fun hkey => ?_).trans hobject, hrest⟩
    have hsame := (mapFileObjectKey_inj hkey).2
    simp [hsame] at hother
  objects key hkey := by
    by_cases hdeleted : key = mapFileObjectKey file.purpose file.id
    · have hnone : (({ s with files := s.files.delete fun row => row.id = file.id } :
          FileStores).setObject (mapFileObjectKey file.purpose file.id) none).objects key = none :=
        if_pos hdeleted
      rw [hnone] at hkey
      simp at hkey
    · have hold : (({ s with files := s.files.delete fun row => row.id = file.id } :
          FileStores).setObject (mapFileObjectKey file.purpose file.id) none).objects key
          = s.objects key := if_neg hdeleted
      rw [hold] at hkey
      obtain ⟨row, hrow, hrowkey⟩ := h.objects key hkey
      refine ⟨row, List.mem_filter.mpr ⟨hrow, ?_⟩, hrowkey⟩
      simp only [Bool.not_eq_true', decide_eq_false_iff_not]
      intro hid
      obtain rfl := List.inj_on_of_nodup_map s.files.nodup hrow hfile hid
      exact hdeleted hrowkey
  ids row hrow := h.ids row (List.mem_of_mem_filter hrow)

end Sound

/-! ### What uploads do -/

section Upload

variable {faults : Faults} {s : FileStores} {uploaded : String → Option (List UInt8)}
variable {req : UploadFileRequest} {key fileId : String} {bytes : List UInt8}

theorem Faults.step_of_none {step : FileStep} (h : faults.throws step = none) :
    faults.step step = .ok () := by
  rw [Faults.step, h]

theorem Faults.step_of_some {step : FileStep} {e : Exn} (h : faults.throws step = some e) :
    faults.step step = .error e := by
  rw [Faults.step, h]

/-- `PutObject` of a buffer stores what gets through, unless it comes to nothing. -/
theorem putObject_cases (faults : Faults) (s : FileStores) (key : String)
    (buffer : List UInt8) :
    (∃ e, faults.throws .putPath = some e ∧
      FileSystemObjectStore.putObject faults key buffer s = (.error e, s)) ∨
    (faults.opens = false ∧ FileSystemObjectStore.putObject faults key buffer s = (.ok {}, s)) ∨
    faults.throws .putPath = none ∧ faults.opens = true ∧
      FileSystemObjectStore.putObject faults key buffer s
        = (.ok {}, s.setObject key (some (through faults.written buffer))) := by
  rcases e : faults.throws .putPath with - | e'
  · rcases hopens : faults.opens with - | -
    · refine .inr (.inl ⟨rfl, ?_⟩)
      simp [FileSystemObjectStore.putObject, FileSystemObjectStore.write, Action.bind_apply,
        Faults.step_of_none e, hopens]
    · refine .inr (.inr ⟨rfl, rfl, ?_⟩)
      simp [FileSystemObjectStore.putObject, FileSystemObjectStore.write, Action.bind_apply,
        Faults.step_of_none e, hopens]
  · refine .inl ⟨e', rfl, ?_⟩
    simp [FileSystemObjectStore.putObject, Action.bind_apply, Faults.step_of_some e]

/-- Storing an object under a new key and removing it again. -/
theorem setObject_none_of_new (h : s.objects key = none) :
    (s.setObject key (some bytes)).setObject key none = s := by
  have hobjects : ((s.setObject key (some bytes)).setObject key none).objects = s.objects := by
    funext k
    by_cases hk : k = key
    · exact (if_pos hk).trans (hk ▸ h).symm
    · exact (if_neg hk).trans (if_neg hk)
  exact congrArg (fun objects => ({ s with objects := objects } : FileStores)) hobjects

/-- `PutObject` of a stream under a new key stores nothing, or fails with the object stored, or
stores what gets through. -/
theorem putObjectStream_cases (faults : Faults) (h : s.objects key = none) (input : List UInt8) :
    (∃ r, FileSystemObjectStore.putObjectStream faults key input s = (r, s) ∧
      ∀ status, r = .ok status → status.hasError = true) ∨
    (faults.throws .putPath = none ∧ faults.opens = true ∧ (faults.throws .putSize ≠ none ∨
      through faults.written input = [] ∧ faults.throws .putRemove ≠ none)) ∨
    faults.throws .putPath = none ∧ faults.opens = true ∧ through faults.written input ≠ [] ∧
      FileSystemObjectStore.putObjectStream faults key input s
        = (.ok {}, s.setObject key (some (through faults.written input))) := by
  have hset : ∀ object, (s.setObject key object).objects key = object := fun _ => if_pos rfl
  -- the path, the stream, the size and the removal of an empty file, in this order
  rcases hpath : faults.throws .putPath with - | e
  · rcases hopens : faults.opens with - | -
    · refine .inl ⟨.error (.other "filesystem error: cannot get file size"), ?_, nofun⟩
      simp [FileSystemObjectStore.putObjectStream, FileSystemObjectStore.write,
        Action.bind_apply, Faults.step_of_none hpath, hopens, h]
    · rcases hsize : faults.throws .putSize with - | e
      · by_cases hempty : through faults.written input = []
        · rcases hremove : faults.throws .putRemove with - | e
          · refine .inl ⟨.ok { hasError := true, errorType := .emptyFile }, ?_, ?_⟩
            · simp [FileSystemObjectStore.putObjectStream, FileSystemObjectStore.write,
                Action.bind_apply, Faults.step_of_none hpath, hopens, hset,
                Faults.step_of_none hsize, hempty, Faults.step_of_none hremove,
                setObject_none_of_new h]
            · rintro status ⟨⟩
              rfl
          · exact .inr (.inl ⟨rfl, rfl, .inr ⟨hempty, nofun⟩⟩)
        · refine .inr (.inr ⟨rfl, rfl, hempty, ?_⟩)
          simp [FileSystemObjectStore.putObjectStream, FileSystemObjectStore.write,
            Action.bind_apply, Faults.step_of_none hpath, hopens, hset,
            Faults.step_of_none hsize, hempty]
      · exact .inr (.inl ⟨rfl, rfl, .inl nofun⟩)
  · refine .inl ⟨.error e, ?_, nofun⟩
    simp [FileSystemObjectStore.putObjectStream, Action.bind_apply, Faults.step_of_some hpath]

theorem keeps_retrieveFile (fileId : String) :
    Action.Keeps id (FileServiceImpl.retrieveFile faults fileId) := by
  refine Action.keeps_bind (Action.keeps_liftM _) fun _ => ?_
  exact Action.keeps_bind (Action.keeps_liftM _) fun _ => Action.keeps_gets _

/-- Without an object there is no row. -/
theorem recordFile_missing (h : s.objects (mapFileObjectKey req.purpose fileId) = none) :
    (FileServiceImpl.recordFile faults req fileId s).2 = s := by
  rcases hpath : faults.throws .statePath with - | e
  · rcases hexists : faults.throws .stateExists with - | e
    · simp [FileServiceImpl.recordFile, FileSystemObjectStore.getObjectState, Action.bind_apply,
        Faults.step_of_none hpath, Faults.step_of_none hexists, h, assertStatusOk]
    · simp [FileServiceImpl.recordFile, FileSystemObjectStore.getObjectState, Action.bind_apply,
        Faults.step_of_none hpath, Faults.step_of_some hexists]
  · simp [FileServiceImpl.recordFile, FileSystemObjectStore.getObjectState, Action.bind_apply,
      Faults.step_of_some hpath]

theorem insertOneFile_of {row : FileObject} {hrow : row.filename ≠ ""}
    {table : Table FileObject.id fun row => row.filename ≠ ""}
    (hinsert : faults.throws .insertRow = none) (htable : s.files.insert row hrow = some table) :
    insertOneFile faults row s = (.ok (), { s with files := table }) := by
  rw [insertOneFile, Faults.step_of_none hinsert]
  show dite _ _ _ = _
  rw [dif_pos hrow, htable]

/-- The row of an object that is there. -/
theorem recordFile_adds (hrecords : faults.RecordsRow req)
    (hobject : s.objects (mapFileObjectKey req.purpose fileId) = some bytes)
    (hnew : ∀ file ∈ s.files.rows, file.id ≠ fileId) :
    ∃ t, (FileServiceImpl.recordFile faults req fileId s).2 = { s with files := t } ∧
      t.rows = s.files.rows ++
        [{ id := fileId
           bytes := Int32.ofNat bytes.length
           filename := req.filename
           purpose := req.purpose }] := by
  obtain ⟨hpath, hexists, hinsert, hname⟩ := hrecords
  have hstate : FileSystemObjectStore.getObjectState faults (mapFileObjectKey req.purpose fileId) s
      = (.ok { byteSize := Int32.ofNat bytes.length }, s) := by
    simp [FileSystemObjectStore.getObjectState, Action.bind_apply, Faults.step_of_none hpath,
      Faults.step_of_none hexists, hobject]
  let row : FileObject :=
    { id := fileId
      bytes := Int32.ofNat bytes.length
      filename := req.filename
      purpose := req.purpose }
  -- the id is new, so the insertion goes through
  have hkey : row.id ∉ s.files.rows.map FileObject.id := by
    intro hmem
    obtain ⟨file, hfile, hid⟩ := List.mem_map.mp hmem
    exact hnew file hfile hid
  obtain ⟨t, ht⟩ : ∃ t, s.files.insert row hname = some t := Table.insert_isSome hkey
  have hinserted : insertOneFile faults row s = (.ok (), { s with files := t }) :=
    insertOneFile_of hinsert ht
  refine ⟨t, ?_, Table.rows_insert ht⟩
  rw [FileServiceImpl.recordFile, Action.bind_of_ok hstate]
  show ((insertOneFile faults row >>= fun _ => FileServiceImpl.retrieveFile faults fileId) s).2 = _
  rw [Action.bind_of_ok hinserted]
  exact keeps_retrieveFile fileId _

/-- The second half of an upload, once the object is stored. -/
theorem sound_recordFile {content : List UInt8} (h : s.Sound uploaded)
    (hnew : ∀ file ∈ s.files.rows, file.id ≠ fileId)
    (hgenerated : ∃ n < s.nextNumber, fileId = generateNextObjectId "file" n)
    (huploaded : uploaded fileId = some content) (hrecords : faults.RecordsRow req)
    (hwhole : faults.StoresWhole content) :
    (FileServiceImpl.recordFile faults req fileId (s.setObject
      (mapFileObjectKey req.purpose fileId) (some (through faults.written content)))).2.Sound
        uploaded := by
  rw [hwhole.1]
  obtain ⟨t, hstate, hrows⟩ := recordFile_adds (s := s.setObject
    (mapFileObjectKey req.purpose fileId) (some content)) hrecords (if_pos rfl) hnew
  rw [hstate]
  exact h.stored hnew hgenerated huploaded rfl hwhole.2 hrows rfl rfl

theorem nextId_generated (s : FileStores) :
    ∃ n < s.nextNumber + 1, s.nextId = generateNextObjectId "file" n :=
  ⟨s.nextNumber, Nat.lt_succ_self _, rfl⟩

/-- **`UploadFile` of a content** leaves the stores sound, if it is whole. -/
theorem sound_uploadFile (h : s.Sound uploaded)
    (hwhole : FileServiceCall.Whole faults s (.uploadFile req)) :
    (FileServiceImpl.uploadFile faults req s).2.Sound
      (noteUpload uploaded s.nextId req.fileContent) := by
  have hnoted : s.Sound (noteUpload uploaded s.nextId req.fileContent) := h.noteUpload
  by_cases hpurpose : req.purpose = .unknownFileObjectPurpose
  · simp only [FileServiceImpl.uploadFile, Action.bind_apply, Action.liftM_apply, assertTrue,
      hpurpose, ne_eq, not_true_eq_false, if_false]
    exact hnoted
  · have hupload : FileServiceImpl.uploadFile faults req s
        = (FileSystemObjectStore.putObject faults (mapFileObjectKey req.purpose s.nextId)
            req.fileContent >>= fun status => do
              assertStatusOk status
              FileServiceImpl.recordFile faults req s.nextId)
          { s with nextNumber := s.nextNumber + 1 } := by
      rw [FileServiceImpl.uploadFile, assertTrue_of hpurpose]
      rfl
    -- the object cannot be put, comes to nothing, or is stored
    rw [hupload]
    rcases putObject_cases faults { s with nextNumber := s.nextNumber + 1 }
      (mapFileObjectKey req.purpose s.nextId) req.fileContent with
      ⟨e, -, hput⟩ | ⟨-, hput⟩ | ⟨hpath, hopens, hput⟩
    · rw [Action.bind_of_error hput]
      exact hnoted.generated
    · rw [Action.bind_of_ok hput]
      -- without an object there is no state to record
      have hsame : (FileServiceImpl.recordFile faults req s.nextId
          { s with nextNumber := s.nextNumber + 1 }).2
          = { s with nextNumber := s.nextNumber + 1 } :=
        recordFile_missing (h.objects_nextId req.purpose)
      exact hsame.symm ▸ hnoted.generated
    · rw [Action.bind_of_ok hput]
      rcases hwhole with hunknown | hfails | hclosed | ⟨hrecords, hstores⟩
      · exact absurd hunknown hpurpose
      · exact absurd hpath hfails
      · exact absurd (hopens.symm.trans hclosed) nofun
      · exact sound_recordFile hnoted.generated h.id_ne_nextId (nextId_generated s) (if_pos rfl)
          hrecords hstores

/-- **`UploadFile` of a stream** leaves the stores sound, if it is whole. -/
theorem sound_uploadFileStream {input : List UInt8} (h : s.Sound uploaded)
    (hwhole : FileServiceCall.Whole faults s (.uploadFileStream req input)) :
    (FileServiceImpl.uploadFileStream faults req input s).2.Sound
      (noteUpload uploaded s.nextId input) := by
  have hnoted : s.Sound (noteUpload uploaded s.nextId input) := h.noteUpload
  have hupload : FileServiceImpl.uploadFileStream faults req input s
      = (FileSystemObjectStore.putObjectStream faults (mapFileObjectKey req.purpose s.nextId)
          input >>= fun status => do
            assertStatusOk status
            FileServiceImpl.recordFile faults req s.nextId)
        { s with nextNumber := s.nextNumber + 1 } := rfl
  -- nothing is stored, an object is left behind, or it is stored whole
  rw [hupload]
  rcases putObjectStream_cases (s := { s with nextNumber := s.nextNumber + 1 }) faults
    (h.objects_nextId req.purpose) input with
    ⟨r, hput, hfailed⟩ | ⟨hpath, hopens, hleft⟩ | ⟨hpath, hopens, hfull, hput⟩
  · cases r with
    | error e =>
        rw [Action.bind_of_error hput]
        exact hnoted.generated
    | ok status =>
        rw [Action.bind_of_ok hput, assertStatusOk, hfailed status rfl]
        exact hnoted.generated
  · -- what a whole call excludes
    exfalso
    rcases hwhole with hfails | hclosed | ⟨hsize, hremoved | ⟨hfull, -⟩⟩
    · exact hfails hpath
    · exact absurd (hopens.symm.trans hclosed) nofun
    · rcases hleft with hleft | ⟨-, hleft⟩
      · exact hleft hsize
      · exact hleft hremoved.2
    · rcases hleft with hleft | ⟨hempty, -⟩
      · exact hleft hsize
      · exact hfull hempty
  · rw [Action.bind_of_ok hput]
    rcases hwhole with hfails | hclosed | ⟨-, ⟨hempty, -⟩ | ⟨-, hrecords, hstores⟩⟩
    · exact absurd hpath hfails
    · exact absurd (hopens.symm.trans hclosed) nofun
    · exact absurd hempty hfull
    · exact sound_recordFile hnoted.generated h.id_ne_nextId (nextId_generated s) (if_pos rfl)
        hrecords hstores

/-- `RetrieveFile` finds the row of a file, or fails. -/
theorem retrieveFile_cases (faults : Faults) (s : FileStores) (fileId : String) :
    (∃ e, FileServiceImpl.retrieveFile faults fileId s = (.error e, s)) ∨
    fileId ≠ "" ∧ faults.throws .selectRow = none ∧
      FileServiceImpl.retrieveFile faults fileId s
        = (.ok (s.files.find? fun row => row.id = fileId), s) := by
  by_cases hid : fileId = ""
  · refine .inl ⟨missingVariable "file_id", ?_⟩
    simp [FileServiceImpl.retrieveFile, selectOneFile, templateVariable, Action.bind_apply, hid]
  · rcases hselect : faults.throws .selectRow with - | e
    · refine .inr ⟨hid, rfl, ?_⟩
      simp [FileServiceImpl.retrieveFile, selectOneFile, templateVariable, Action.bind_apply, hid,
        Faults.step_of_none hselect]
    · refine .inl ⟨e, ?_⟩
      simp [FileServiceImpl.retrieveFile, selectOneFile, templateVariable, Action.bind_apply, hid,
        Faults.step_of_some hselect]

/-- **`DeleteFile`** leaves the stores sound, if it is whole. -/
theorem sound_deleteFile (h : s.Sound uploaded)
    (hwhole : FileServiceCall.Whole faults s (.deleteFile fileId)) :
    (FileServiceImpl.deleteFile faults fileId s).2.Sound uploaded := by
  refine Action.bind_elim_liftM (P := fun r : Except Exn DeleteFileResponse × FileStores =>
    r.2.Sound uploaded) (fun _ _ => h) fun _ _ => ?_
  rcases retrieveFile_cases faults s fileId with ⟨e, hretrieve⟩ | ⟨hid, hselect, hretrieve⟩
  · rw [Action.bind_of_error hretrieve]
    exact h
  · rw [Action.bind_of_ok hretrieve]
    -- there is such a file, or the call ends here
    rcases hfind : s.files.find? (fun row => row.id = fileId) with - | file
    · exact h
    · have hmem : file ∈ s.files.rows := List.mem_of_find?_eq_some hfind
      have hfile : file.id = fileId := by
        simpa only [decide_eq_true_eq] using List.find?_some hfind
      obtain ⟨content, -, hobject, -⟩ := h.rows file hmem
      rw [← hfile] at hid hwhole ⊢
      rcases hdelete : faults.throws .deleteRow with - | e
      · rcases hwhole with hnone | hselect' | hdelete' | ⟨hpath, hexists, hremove⟩
        · exact absurd rfl (hnone file hmem)
        · exact absurd hselect hselect'
        · exact absurd hdelete hdelete'
        · -- the row is deleted first, then the object
          have hdeleted : deleteOneFile faults file.id s
              = (.ok (s.files.count fun row => row.id = file.id),
                { s with files := s.files.delete fun row => row.id = file.id }) := by
            rw [deleteOneFile, templateVariable, if_neg hid, Faults.step_of_none hdelete]
            rfl
          have hremoved : ∀ t : FileStores, t.objects = s.objects →
              FileSystemObjectStore.deleteObject faults
                (mapFileObjectKey file.purpose file.id) t
              = (.ok {}, t.setObject (mapFileObjectKey file.purpose file.id) none) := by
            intro t ht
            simp [FileSystemObjectStore.deleteObject, Action.bind_apply,
              Faults.step_of_none hpath, Faults.step_of_none hexists,
              Faults.step_of_none hremove, ht, hobject]
          simp only []
          rw [Action.bind_of_ok hdeleted, Action.bind_of_ok (hremoved
            { s with files := s.files.delete fun row => row.id = file.id } rfl)]
          exact h.deleted hmem
      · -- the row cannot be deleted, and the object is left alone
        have hfailed : deleteOneFile faults file.id s = (.error e, s) := by
          rw [deleteOneFile, templateVariable, if_neg hid, Faults.step_of_some hdelete]
          rfl
        simp only []
        rw [Action.bind_of_error hfailed]
        exact h

end Upload

/-! ### Runs -/

section Runs

variable {faults : Faults} {s : FileStores}

theorem keeps_downloadFile (fileId : String) :
    Action.Keeps id (FileServiceImpl.downloadFile faults fileId) := by
  refine Action.keeps_bind (keeps_retrieveFile fileId) fun file => ?_
  cases file with
  | none => exact Action.keeps_pure _
  | some file =>
      -- the object is read, then handed over
      refine Action.keeps_bind ?_ fun object => ?_
      · refine Action.keeps_bind (Action.keeps_liftM _) fun _ => ?_
        refine Action.keeps_bind (Action.keeps_liftM _) fun _ => ?_
        refine Action.keeps_bind (Action.keeps_gets _) fun object => ?_
        cases object with
        | none => exact Action.keeps_pure _
        | some bytes =>
            exact Action.keeps_bind (Action.keeps_liftM _) fun _ => Action.keeps_pure _
      · cases object with
        | ok bytes => exact Action.keeps_pure _
        | error status =>
            refine Action.keeps_ite (Action.keeps_pure _) ?_
            exact Action.keeps_bind (Action.keeps_liftM _) fun _ => Action.keeps_pure _

theorem keeps_downloadFileStream (bucketName fileId : String) :
    Action.Keeps id (FileServiceImpl.downloadFileStream faults bucketName fileId) := by
  refine Action.keeps_bind (keeps_retrieveFile fileId) fun file => ?_
  cases file with
  | none => exact fun _ => rfl
  | some file =>
      -- the object is read, then handed over
      refine Action.keeps_bind ?_ fun object => ?_
      · refine Action.keeps_bind (Action.keeps_liftM _) fun _ => ?_
        refine Action.keeps_bind (Action.keeps_liftM _) fun _ => ?_
        refine Action.keeps_bind (Action.keeps_gets _) fun object => ?_
        cases object with
        | none => exact Action.keeps_pure _
        | some bytes => exact Action.keeps_ite (Action.keeps_pure _) (Action.keeps_pure _)
      · cases object with
        | ok bytes => exact Action.keeps_pure _
        | error status =>
            exact Action.keeps_bind (Action.keeps_liftM _) fun _ => Action.keeps_pure _

theorem sound_of_keeps {α : Type} {x : FileM α} {uploaded : String → Option (List UInt8)}
    (hx : Action.Keeps id x) (hs : s.Sound uploaded) : (x s).2.Sound uploaded := by
  have hsame : (x s).2 = s := hx s
  rw [hsame]
  exact hs

/-- **Step lemma.**  A whole call leaves the stores sound. -/
theorem sound_step {h h' : FileHistory} {event : FileServiceCall × Faults}
    (hs : h.stores.Sound h.uploaded) (hwhole : event.1.Whole event.2 h.stores)
    (hstep : fileServiceStep h event = some h') : h'.stores.Sound h'.uploaded := by
  obtain rfl := Option.some.inj hstep
  obtain ⟨call, faults⟩ := event
  cases call with
  | uploadFile req => exact sound_uploadFile hs hwhole
  | uploadFileStream req input => exact sound_uploadFileStream hs hwhole
  | retrieveFile fileId => exact sound_of_keeps (keeps_retrieveFile fileId) hs
  | downloadFile fileId => exact sound_of_keeps (keeps_downloadFile fileId) hs
  | downloadFileStream bucketName fileId =>
      exact sound_of_keeps (keeps_downloadFileStream bucketName fileId) hs
  | deleteFile fileId => exact sound_deleteFile hs hwhole

/-- Sound stores agree. -/
theorem filesAgree_of_sound {h : FileHistory} (hs : h.stores.Sound h.uploaded) :
    FilesAgree h := by
  intro fileId
  refine ⟨⟨?_, ?_⟩, ?_⟩
  · -- a row has its object
    rintro ⟨file, hfile, rfl⟩
    obtain ⟨content, -, hobject, -⟩ := hs.rows file hfile
    exact ⟨file.purpose, Option.isSome_iff_exists.mpr ⟨content, hobject⟩⟩
  · -- an object has its row, since its key names the file
    rintro ⟨purpose, hobject⟩
    obtain ⟨file, hfile, hkey⟩ := hs.objects _ hobject
    exact ⟨file, hfile, (mapFileObjectKey_inj hkey).2.symm⟩
  · rintro file hfile rfl
    obtain ⟨content, huploaded, hobject, hbytes, hlength⟩ := hs.rows file hfile
    -- the id was generated, so it can be asked for
    have hid : file.id ≠ "" := by
      obtain ⟨n, -, hgenerated⟩ := hs.ids file hfile
      intro hempty
      have hblank := generateNextObjectId_not_blank "file" n
      rw [← hgenerated, hempty] at hblank
      simp at hblank
    have hfind : h.stores.files.find? (fun row => row.id = file.id) = some file :=
      Table.find?_eq_some_of_mem hfile (decide_eq_true rfl) fun row hrow => of_decide_eq_true hrow
    have hretrieve : FileServiceImpl.retrieveFile {} file.id h.stores
        = (.ok (some file), h.stores) := by
      rw [FileServiceImpl.retrieveFile, selectOneFile, templateVariable, if_neg hid, ← hfind]
      rfl
    refine ⟨content, huploaded, congrArg Prod.fst hretrieve, ?_, ?_, fun bucketName => ?_⟩
    · rw [hbytes]
      exact Int32.toInt_ofNat_of_lt hlength
    · rw [FileServiceImpl.downloadFile, Action.bind_of_ok hretrieve]
      simp [FileSystemObjectStore.getObject, Action.bind_apply, Faults.step, hobject, through]
    · rw [FileServiceImpl.downloadFileStream, Action.bind_of_ok hretrieve]
      simp [FileSystemObjectStore.getObjectStream, Action.bind_apply, Faults.step, hobject, through]

end Runs

/-- **The two stores agree after every call**, returned or thrown, in every run whose calls are
all whole. -/
theorem files_consistent (h : FileHistory)
    (hrun : Runs fileServiceStep (fun h event => event.1.Whole event.2 h.stores) {} h) :
    FilesAgree h :=
  filesAgree_of_sound (hrun.invariant (I := fun h => h.stores.Sound h.uploaded)
    (fun _ _ _ hs hwhole hstep => sound_step hs hwhole hstep) sound_empty)

/-- An upload with a name. -/
def namedUpload : UploadFileRequest :=
  { fileContent := [104, 105], filename := "a.txt", purpose := .assistants }

/-- A file is uploaded; an empty stream is refused; the row of the file cannot be deleted. -/
def wholeCalls : List (FileServiceCall × Faults) :=
  [(.uploadFile namedUpload, {}),
    (.uploadFileStream { namedUpload with filename := "b.txt" } [], {}),
    (.deleteFile "file_1", { throws := fun step =>
      if step = .deleteRow then some (.client "IO Error") else none })]

/-- The two stores agree after these calls, and the file is still there. -/
theorem files_consistent_wholeCalls :
    ∃ h, execute fileServiceStep wholeCalls {} = some h ∧ FilesAgree h ∧
      h.stores.files.rows = [{ id := "file_1", bytes := 2, filename := "a.txt",
                               purpose := .assistants }] := by
  refine ⟨_, rfl, files_consistent _ ?_, rfl⟩
  refine .tail (.tail (.single ⟨(.uploadFile namedUpload, {}), ?_, rfl⟩)
    ⟨(.uploadFileStream { namedUpload with filename := "b.txt" } [], {}), ?_, rfl⟩)
    ⟨(.deleteFile "file_1", { throws := fun step =>
      if step = .deleteRow then some (.client "IO Error") else none }), ?_, rfl⟩
  · exact .inr (.inr (.inr ⟨⟨rfl, rfl, rfl, by decide⟩, rfl, by decide⟩))
  · exact .inr (.inr ⟨rfl, .inl ⟨rfl, rfl⟩⟩)
  · exact .inr (.inr (.inl nofun))

/-- A file whose name is empty is stored, and then its row is refused. -/
theorem nameless_file_without_row :
    ¬ ∀ h, Reaches fileServiceStep {} h → FilesAgree h := by
  intro hall
  let nameless : FileServiceCall × Faults := (.uploadFile { namedUpload with filename := "" }, {})
  have hstep : Reaches fileServiceStep {} ((fileServiceStep {} nameless).getD {}) :=
    .single ⟨nameless, trivial, rfl⟩
  obtain ⟨-, hrow⟩ := (hall _ hstep "file_1").1
  obtain ⟨file, hfile, -⟩ := hrow ⟨.assistants, rfl⟩
  exact absurd (show file ∈ [] from hfile) List.not_mem_nil

end Instinct
