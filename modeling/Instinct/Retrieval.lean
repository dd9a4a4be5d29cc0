/-
Instinct/Retrieval.lean

The stateful retrievers of the assistant service: one doc store that all vector
stores share, one vector table for each of them, and `ChunkedMultiVectorRetriever`
over both.

A document that is ingested is stored in the doc store under a new UUID.  Its
chunks become rows of the vector table, and their `parent_doc_id` names the
document.  A search finds rows and answers the documents they name.

`Remove` deletes by a metadata filter, from the whole doc store and from the
vector table of its own vector store.  What the filters of the callers name
decides whether that reaches further than it should:
`retriever_calls_isolated_iff` says under which condition (`Separate`) the calls
for one vector store leave the others alone and no row loses its document.
-/
import Instinct.Core
import Instinct.Decimal
import Instinct.Transitions
import Mathlib.Data.List.Nodup
import Mathlib.Data.String.Basic
import Mathlib.Logic.Function.Basic

namespace Instinct

open Effects Transitions

/-! ### Documents and their metadata -/

def metadataSchemaParentDocIdKey : String := "parent_doc_id"
def metadataSchemaPageNoKey : String := "page_no"
def metadataSchemaFileSourceKey : String := "file_source"
def metadataSchemaChunkStartIndexKey : String := "start_index"
def metadataSchemaChunkEndIndexKey : String := "end_index"
def vectorStoreIdKey : String := "vs_id"
def rootDocId : String := "ROOT"

/-- The value of a metadata field. -/
inductive PrimitiveValue
  | string (value : String)
  | int (value : Int32)
  deriving DecidableEq

/-- `value.string_value()`: empty where the field holds something else. -/
def PrimitiveValue.stringValue : PrimitiveValue → String
  | .string value => value
  | .int _ => ""

structure MetadataField where
  name : String
  value : PrimitiveValue
  deriving DecidableEq

structure Document where
  id : String := ""
  text : String := ""
  metadata : List MetadataField := []
  deriving DecidableEq

/-- `DocumentUtils::GetMetadataFieldValue`: the first field of that name. -/
def Document.metadataFieldValue (doc : Document) (name : String) : Option PrimitiveValue :=
  (doc.metadata.find? fun field => field.name = name).map (·.value)

/-- `DocumentUtils::GetStringValueMetadataField`. -/
def Document.stringValueMetadataField (doc : Document) (name : String) : Option String :=
  (doc.metadataFieldValue name).map (·.stringValue)

/-- The value that a row stores for a column: the last field of that name. -/
def Document.storedValue (doc : Document) (name : String) : Option PrimitiveValue :=
  (doc.metadata.reverse.find? fun field => field.name = name).map (·.value)

/-- The fields of `DocumentUtils::AddPresetMetadataFields`. -/
def presetMetadataFields (parentDocId : String) (pageNo : Int32) (source : String)
    (startIndex endIndex : Int32) : List MetadataField :=
  [⟨metadataSchemaParentDocIdKey, .string parentDocId⟩,
    ⟨metadataSchemaPageNoKey, .int pageNo⟩,
    ⟨metadataSchemaFileSourceKey, .string source⟩,
    ⟨metadataSchemaChunkStartIndexKey, .int startIndex⟩,
    ⟨metadataSchemaChunkEndIndexKey, .int endIndex⟩]

/-- `DocumentUtils::AddPresetMetadataFields`. -/
def Document.addPresetMetadataFields (doc : Document) (parentDocId : String) (pageNo : Int32)
    (source : String) (startIndex endIndex : Int32) : Document :=
  { doc with
    metadata := doc.metadata ++ presetMetadataFields parentDocId pageNo source startIndex endIndex }

/-- The names of `CreateVectorStorePresetMetadataSchema`, the columns of a vector table. -/
def vectorStoreSchema : List String :=
  [metadataSchemaParentDocIdKey, metadataSchemaPageNoKey, metadataSchemaFileSourceKey,
    metadataSchemaChunkStartIndexKey, metadataSchemaChunkEndIndexKey]

/-- The names of `CreatePresetMetadataSchemaForRetrieverOperator`, the columns of the doc
store. -/
def docStoreSchema : List String := vectorStoreSchema ++ [vectorStoreIdKey]

/-- The row of a document, with the columns of a schema.  `none`: a column has no field. -/
def Document.row (schema : List String) (doc : Document) : Option Document :=
  (schema.mapM fun name => (doc.storedValue name).map (MetadataField.mk name)).map fun fields =>
    { doc with metadata := fields }

/-- The row stores `value` in the column `name`. -/
def Document.holds (doc : Document) (name value : String) : Prop :=
  doc.metadataFieldValue name = some (.string value)

instance (doc : Document) (name value : String) : Decidable (doc.holds name value) :=
  inferInstanceAs (Decidable (_ = _))

/-! ### Ingestors and splitters -/

/-- `text.find(part)`, in bytes. -/
def findText (part : List Char) : List Char → Option Nat
  | [] => if part = [] then some 0 else none
  | c :: rest =>
      if part.isPrefixOf (c :: rest) then some 0
      else (findText part rest).map (· + c.utf8Size)

/-- `static_cast<int32_t>(text.find(part))`: minus one where the part is not found. -/
def startIndexOf (text part : String) : Int32 :=
  ((findText part.toList text.toList).map Int32.ofNat).getD (-1)

/-- `BaseIngestor::CreateNewDocument`, with the field that the file handler adds. -/
def createNewDocument (text parentDocId : String) (pageNo : Int32) (source vectorStoreId : String) :
    Document :=
  { text := text
    metadata := presetMetadataFields parentDocId pageNo source 0 0
      ++ [⟨vectorStoreIdKey, .string vectorStoreId⟩] }

/-- A chunk of `BaseTextSplitter::SplitDocuments`. -/
def splitDocument (splitText : String → List String) (doc : Document) : List Document :=
  (splitText doc.text).map fun chunk =>
    { text := chunk
      metadata := doc.metadata ++
        [⟨metadataSchemaChunkStartIndexKey, .int (startIndexOf doc.text chunk)⟩,
          ⟨metadataSchemaChunkEndIndexKey,
            .int (startIndexOf doc.text chunk + Int32.ofNat chunk.utf8ByteSize)⟩] }

/-- A chunk of the parent splitter in `ChunkedMultiVectorRetriever::Ingest`. -/
def splitParentDoc (splitText : String → List String) (doc : Document) : List Document :=
  (splitText doc.text).map fun chunk => { text := chunk, metadata := doc.metadata }

/-- One round of `ChunkedMultiVectorRetriever::SplitChildDoc_`. -/
def childDoc (parent : Document) (chunk : String) (pageNo : Int32) : Except Exn Document := do
  let fileSource := parent.stringValueMetadataField metadataSchemaFileSourceKey
  assertTrue (fileSource.all isBlankString = false)
    "should have found parent_doc_id in parent doc's metadata"
  let startIndex := startIndexOf parent.text chunk
  pure (({ text := chunk, metadata := parent.metadata } : Document).addPresetMetadataFields
    parent.id pageNo (fileSource.getD "") startIndex
    (startIndex + Int32.ofNat chunk.utf8ByteSize))

/-- `ChunkedMultiVectorRetriever::SplitChildDoc_`. -/
def splitChildDoc (splitText : String → List String) (parent : Document) :
    Except Exn (List Document) :=
  ((splitText parent.text).zipIdx 1).mapM fun (chunk, i) => childDoc parent chunk (Int32.ofNat i)

/-! ### Queries -/

/-- The queries that the callers build. -/
inductive SearchQuery
  | term (name value : String)
  | terms (name : String) (values : List String)
  deriving Repr, DecidableEq

/-- The row satisfies the query. -/
def SearchQuery.selects (query : SearchQuery) (row : Document) : Bool :=
  match query with
  | .term name value => row.stringValueMetadataField name = some value
  | .terms name values => (row.stringValueMetadataField name).any values.contains

/-- What executing the query throws: for an unknown column and for an empty list. -/
def SearchQuery.check (schema : List String) : SearchQuery → Except Exn Unit
  | .term name _ =>
      assertTrue (name ∈ schema) ("Binder Error: Referenced column \"" ++ name ++ "\" not found")
  | .terms name values => do
      assertTrue (values ≠ []) "Parser Error: syntax error at or near \")\""
      assertTrue (name ∈ schema) ("Binder Error: Referenced column \"" ++ name ++ "\" not found")

structure SearchRequest where
  query : String := ""
  topK : Int32 := 0
  metadataFilter : Option SearchQuery := none
  deriving DecidableEq

/-! ### The stores -/

/-- A character of a UUID: a hexadecimal digit or a dash. -/
def isUuidChar (c : Char) : Bool := c.isDigit || "abcdef-".toList.contains c

/-- The texts of the UUIDs that the stores draw: never the same twice, never empty. -/
structure UuidSource where
  text : Nat → String
  injective : Function.Injective text
  chars : ∀ n, ∀ c ∈ (text n).toList, isUuidChar c = true
  nonempty : ∀ n, text n ≠ ""

/-- A text with another character in it is no UUID. -/
theorem UuidSource.text_ne (uuids : UuidSource) (n : Nat) (text : String) {c : Char}
    (hmem : c ∈ text.toList) (hchar : isUuidChar c = false) : uuids.text n ≠ text := by
  intro h
  have huuid := uuids.chars n c (h ▸ hmem)
  rw [hchar] at huuid
  exact Bool.false_ne_true huuid

/-- How a retriever splits, embeds and searches.  A search answers rows of the table. -/
structure RetrieverConfig where
  uuids : UuidSource
  splitText : String → List String
  splitChildText : String → List String
  splitParentText : Option (String → List String) := none
  embedDocuments : List String → Except Exn Unit := fun _ => .ok ()
  searchDocuments : SearchRequest → List Document → Except Exn (List Document)
  search_subset : ∀ request rows found, searchDocuments request rows = .ok found → found ⊆ rows

/-- The doc store and the vector tables.  `nextUuid` numbers the UUID that is drawn next. -/
structure RetrievalState where
  docStore : List Document := []
  vectorTables : String → List Document := fun _ => []
  nextUuid : Nat := 0

abbrev RetrievalM : Type → Type := Action Exn RetrievalState

/-- `append_row_basic_fields`: every document gets the next UUID as its id. -/
def assignIds (uuids : UuidSource) : Nat → List Document → List Document
  | _, [] => []
  | n, doc :: docs => { doc with id := uuids.text n } :: assignIds uuids (n + 1) docs

/-- What `BaseDuckDBStore::AddDocuments` throws once its transaction is rolled back. -/
def addDocumentError : Exn := .instinct "Failed to AddDocument due to DuckDB error."

/-- `doc_store_->AddDocuments(batch, update_result)`: the documents with their ids.  A document
without a field for some column leaves the appender with a row cut short, so that the
statement fails. -/
def addToDocStore (config : RetrieverConfig) (docs : List Document) :
    RetrievalM (List Document) := fun s =>
  let docs := assignIds config.uuids s.nextUuid docs
  match docs.mapM (Document.row docStoreSchema) with
  | some rows =>
      (.ok docs,
        { s with docStore := s.docStore ++ rows, nextUuid := s.nextUuid + docs.length })
  | none => (.error addDocumentError, s)

/-- `vector_store_->AddDocuments(sub_docs, update_result)`, on the table of `vectorStoreId`. -/
def addToVectorTable (config : RetrieverConfig) (vectorStoreId : String) (docs : List Document) :
    RetrievalM Unit := do
  config.embedDocuments (docs.map (·.text))
  fun s =>
    let docs := assignIds config.uuids s.nextUuid docs
    match docs.mapM (Document.row vectorStoreSchema) with
    | some rows =>
        (.ok (),
          { s with
            vectorTables := Function.update s.vectorTables vectorStoreId
              (s.vectorTables vectorStoreId ++ rows)
            nextUuid := s.nextUuid + docs.length })
    | none => (.error addDocumentError, s)

/-- `rpp::operators::buffer`: full buffers are handed on, the last one only when the source
completes. -/
def bufferFrom {α : Type} (size : Nat) (completes : Bool) : List α → List α → List (List α)
  | pending, [] => if completes && !pending.isEmpty then [pending] else []
  | pending, x :: xs =>
      if pending.length + 1 = size then (pending ++ [x]) :: bufferFrom size completes [] xs
      else bufferFrom size completes (pending ++ [x]) xs

/-- Documents that an ingestor hands on, and what it throws after them. -/
structure DocumentStream where
  docs : List Document
  failure : Option Exn := none

/-- One round of `MultiVectorRetriever::Ingest`. -/
def ingestBatch (config : RetrieverConfig) (vectorStoreId : String) (batch : List Document) :
    RetrievalM Unit := do
  let parents ← addToDocStore config batch
  parents.forM fun parent => do
    let subDocs ← (splitChildDoc config.splitChildText parent : Except Exn (List Document))
    addToVectorTable config vectorStoreId subDocs

/-- `ChunkedMultiVectorRetriever::Ingest`. -/
def ingest (config : RetrieverConfig) (vectorStoreId : String) (input : DocumentStream) :
    RetrievalM Unit := do
  let docs := match config.splitParentText with
    | some splitText => input.docs.flatMap (splitParentDoc splitText)
    | none => input.docs
  (bufferFrom 50 input.failure.isNone [] docs).forM (ingestBatch config vectorStoreId)
  match input.failure with
  | some e => Action.throw e
  | none => pure ()

/-- `MultiVectorRetriever::Remove`: from the doc store, then from the own table. -/
def remove (vectorStoreId : String) (query : SearchQuery) : RetrievalM Unit := do
  query.check docStoreSchema
  Action.modify fun s => { s with docStore := s.docStore.filter fun doc => !query.selects doc }
  query.check vectorStoreSchema
  Action.modify fun s =>
    { s with
      vectorTables := Function.update s.vectorTables vectorStoreId
        ((s.vectorTables vectorStoreId).filter fun row => !query.selects row) }

/-- The `parent_doc_id` of a row. -/
def parentDocIdOf (row : Document) : String :=
  (row.stringValueMetadataField metadataSchemaParentDocIdKey).getD ""

/-- `MultiVectorRetriever::Retrieve`: the documents that the found rows name. -/
def retrieve (config : RetrieverConfig) (vectorStoreId : String) (request : SearchRequest) :
    RetrievalM (List Document) := fun s =>
  ((do
    let rows ← config.searchDocuments request (s.vectorTables vectorStoreId)
    let parentIds := rows.map parentDocIdOf
    parentIds.forM fun id =>
      assertNotBlank id "should have found parent_doc_id in parent doc's metadata"
    pure (s.docStore.filter fun doc => parentIds.contains doc.id) : Except Exn (List Document)), s)

/-! ### The calls -/

/-- The documents that the file handler ingests: what the ingestor makes of the pages of a
file, cut into chunks. -/
def fileDocuments (config : RetrieverConfig) (vectorStoreId fileId filePath : String)
    (pages : List String) : List Document :=
  (pages.zipIdx 1).flatMap fun (text, pageNo) =>
    splitDocument config.splitText (createNewDocument text rootDocId (Int32.ofNat pageNo)
      (if isBlankString fileId then filePath else fileId) vectorStoreId)

/-- The calls of stateful retrievers: the file handler ingests a file, `DeleteVectorStoreFile`
removes by `parent_doc_id`, the background task of file batches removes by `file_source`. -/
inductive RetrieverCall
  | ingestFile (vectorStoreId fileId filePath : String) (pages : List String)
      (failure : Option Exn)
  | deleteFile (vectorStoreId fileId : String)
  | cleanUp (vectorStoreId : String) (fileIds : List String)
  deriving DecidableEq

/-- The vector store whose retriever is called. -/
def RetrieverCall.vectorStoreId : RetrieverCall → String
  | .ingestFile vectorStoreId _ _ _ _ => vectorStoreId
  | .deleteFile vectorStoreId _ => vectorStoreId
  | .cleanUp vectorStoreId _ => vectorStoreId

def RetrieverCall.exec (config : RetrieverConfig) : RetrieverCall → RetrievalM Unit
  | .ingestFile vectorStoreId fileId filePath pages failure =>
      ingest config vectorStoreId
        ⟨fileDocuments config vectorStoreId fileId filePath pages, failure⟩
  | .deleteFile vectorStoreId fileId =>
      remove vectorStoreId (.term metadataSchemaParentDocIdKey fileId)
  | .cleanUp vectorStoreId fileIds =>
      remove vectorStoreId (.terms metadataSchemaFileSourceKey fileIds)

/-- The stores after a call.  What a call changed before it threw stays changed. -/
def retrieverStep (config : RetrieverConfig) (s : RetrievalState) (call : RetrieverCall) :
    Option RetrievalState :=
  some (call.exec config s).2

/-! ### Rows of documents -/

theorem Document.row_id {schema : List String} {doc row : Document}
    (h : doc.row schema = some row) : row.id = doc.id := by
  obtain ⟨fields, -, rfl⟩ := Option.map_eq_some_iff.mp h
  rfl

/-- A row holds what its document stores. -/
theorem Document.row_value {schema : List String} {doc row : Document}
    (h : doc.row schema = some row) {name : String} (hname : name ∈ schema) :
    row.metadataFieldValue name = doc.storedValue name := by
  obtain ⟨fields, hfields, rfl⟩ := Option.map_eq_some_iff.mp h
  show (fields.find? fun field => field.name = name).map (·.value) = doc.storedValue name
  clear h
  induction schema generalizing fields with
  | nil => simp at hname
  | cons first rest ih =>
      rw [List.mapM_cons] at hfields
      obtain ⟨field, hfield, hrest⟩ := Option.bind_eq_some_iff.mp hfields
      obtain ⟨fields', hfields', hcons⟩ := Option.bind_eq_some_iff.mp hrest
      obtain rfl : field :: fields' = fields := Option.some.inj hcons
      obtain ⟨value, hvalue, rfl⟩ := Option.map_eq_some_iff.mp hfield
      -- the columns of the schema one by one
      by_cases heq : first = name
      · subst heq
        simp [hvalue]
      · rw [List.find?_cons_of_neg (by simpa using heq)]
        refine ih ?_ fields' hfields'
        exact (List.mem_cons.mp hname).resolve_left fun e => heq e.symm

/-- The rows of some documents, one for each. -/
theorem forall₂_of_mapM_row {schema : List String} {docs rows : List Document}
    (h : docs.mapM (Document.row schema) = some rows) :
    List.Forall₂ (fun doc row => doc.row schema = some row) docs rows := by
  induction docs generalizing rows with
  | nil =>
      obtain rfl := Option.some.inj h
      exact .nil
  | cons doc docs ih =>
      rw [List.mapM_cons] at h
      obtain ⟨row, hrow, hrest⟩ := Option.bind_eq_some_iff.mp h
      obtain ⟨rows', hrows', hcons⟩ := Option.bind_eq_some_iff.mp hrest
      obtain rfl : row :: rows' = rows := Option.some.inj hcons
      exact .cons hrow (ih hrows')

theorem exists_doc_of_mem_row {schema : List String} {docs rows : List Document}
    (h : List.Forall₂ (fun doc row => doc.row schema = some row) docs rows) {row : Document}
    (hrow : row ∈ rows) : ∃ doc ∈ docs, doc.row schema = some row := by
  induction h with
  | nil => simp at hrow
  | @cons doc r docs rows hdoc _ ih =>
      rcases List.mem_cons.mp hrow with rfl | hmem
      · exact ⟨doc, List.mem_cons_self, hdoc⟩
      · obtain ⟨d, hd, hdrow⟩ := ih hmem
        exact ⟨d, List.mem_cons_of_mem doc hd, hdrow⟩

theorem exists_row_of_mem_doc {schema : List String} {docs rows : List Document}
    (h : List.Forall₂ (fun doc row => doc.row schema = some row) docs rows) {doc : Document}
    (hdoc : doc ∈ docs) : ∃ row ∈ rows, doc.row schema = some row := by
  induction h with
  | nil => simp at hdoc
  | @cons d row docs rows hd _ ih =>
      rcases List.mem_cons.mp hdoc with rfl | hmem
      · exact ⟨row, List.mem_cons_self, hd⟩
      · obtain ⟨r, hr, hdr⟩ := ih hmem
        exact ⟨r, List.mem_cons_of_mem row hr, hdr⟩

theorem map_id_of_forall₂_row {schema : List String} {docs rows : List Document}
    (h : List.Forall₂ (fun doc row => doc.row schema = some row) docs rows) :
    rows.map (·.id) = docs.map (·.id) := by
  induction h with
  | nil => rfl
  | cons hdoc _ ih => rw [List.map_cons, List.map_cons, ih, Document.row_id hdoc]

/-! ### Ids -/

theorem length_assignIds (uuids : UuidSource) (n : Nat) (docs : List Document) :
    (assignIds uuids n docs).length = docs.length := by
  induction docs generalizing n with
  | nil => rfl
  | cons doc docs ih => exact congrArg (· + 1) (ih (n + 1))

theorem map_id_assignIds (uuids : UuidSource) (n : Nat) (docs : List Document) :
    (assignIds uuids n docs).map (·.id) = (List.range' n docs.length).map uuids.text := by
  induction docs generalizing n with
  | nil => rfl
  | cons doc docs ih =>
      rw [assignIds, List.map_cons, ih, List.length_cons, List.range'_succ, List.map_cons]

/-- An id is all that a document gets. -/
theorem exists_of_mem_assignIds {uuids : UuidSource} {n : Nat} {docs : List Document}
    {doc : Document} (h : doc ∈ assignIds uuids n docs) :
    ∃ old ∈ docs, doc = { old with id := doc.id } := by
  induction docs generalizing n with
  | nil => simp [assignIds] at h
  | cons d docs ih =>
      rcases List.mem_cons.mp h with rfl | hmem
      · exact ⟨d, List.mem_cons_self, rfl⟩
      · obtain ⟨old, hold, heq⟩ := ih hmem
        exact ⟨old, List.mem_cons_of_mem d hold, heq⟩

/-! ### What ingestion adds -/

/-- A document as the ingestors make them for a file of a vector store. -/
structure FromFile (vectorStoreId : String) (doc : Document) : Prop where
  root : doc.storedValue metadataSchemaParentDocIdKey = some (.string rootDocId)
  owner : doc.storedValue vectorStoreIdKey = some (.string vectorStoreId)
  source : ∃ source, doc.storedValue metadataSchemaFileSourceKey = some (.string source) ∧
    doc.metadataFieldValue metadataSchemaFileSourceKey = some (.string source)

theorem fromFile_of_split {config : RetrieverConfig} {vectorStoreId fileId filePath : String}
    {pages : List String} {doc : Document}
    (h : doc ∈ fileDocuments config vectorStoreId fileId filePath pages) :
    FromFile vectorStoreId doc := by
  obtain ⟨⟨text, pageNo⟩, -, hsplit⟩ := List.mem_flatMap.mp h
  obtain ⟨chunk, -, rfl⟩ := List.mem_map.mp hsplit
  exact ⟨rfl, rfl, _, rfl, rfl⟩

theorem FromFile.splitParent {splitText : String → List String} {vectorStoreId : String}
    {parent doc : Document} (hparent : FromFile vectorStoreId parent)
    (h : doc ∈ splitParentDoc splitText parent) : FromFile vectorStoreId doc := by
  obtain ⟨chunk, -, rfl⟩ := List.mem_map.mp h
  exact ⟨hparent.root, hparent.owner, hparent.source⟩

/-- A chunk names its parent and the file of its parent. -/
theorem childDoc_stores {parent doc : Document} {chunk : String} {pageNo : Int32}
    (h : childDoc parent chunk pageNo = .ok doc) :
    doc.storedValue metadataSchemaParentDocIdKey = some (.string parent.id) ∧
    ∃ source, parent.stringValueMetadataField metadataSchemaFileSourceKey = some source ∧
      doc.storedValue metadataSchemaFileSourceKey = some (.string source) := by
  obtain ⟨⟨⟩, hcheck, hdoc⟩ := checks_eq_ok.mp h
  obtain rfl := Except.ok.inj hdoc
  have hsome := assertTrue_eq_ok.mp hcheck
  rcases hsource : parent.stringValueMetadataField metadataSchemaFileSourceKey with - | source
  · simp [hsource] at hsome
  · -- the preset fields are appended, so they count before the fields of the parent
    have hstored : ∀ name value, (presetMetadataFields parent.id pageNo source
          (startIndexOf parent.text chunk)
          (startIndexOf parent.text chunk + Int32.ofNat chunk.utf8ByteSize)).reverse.find?
            (fun field => field.name = name) = some ⟨name, .string value⟩ →
        (({ text := chunk, metadata := parent.metadata } : Document).addPresetMetadataFields
          parent.id pageNo source (startIndexOf parent.text chunk)
          (startIndexOf parent.text chunk + Int32.ofNat chunk.utf8ByteSize)).storedValue name
            = some (.string value) := by
      intro name value hfind
      simp only [Document.storedValue, Document.addPresetMetadataFields, List.reverse_append,
        List.find?_append, hfind, Option.some_or, Option.map_some]
    exact ⟨hstored _ _ rfl, source, rfl, hstored _ _ rfl⟩

theorem exists_childDoc_of_mem {splitText : String → List String} {parent doc : Document}
    {docs : List Document} (h : splitChildDoc splitText parent = .ok docs) (hdoc : doc ∈ docs) :
    ∃ chunk pageNo, childDoc parent chunk pageNo = .ok doc := by
  unfold splitChildDoc at h
  generalize (splitText parent.text).zipIdx 1 = chunks at h
  induction chunks generalizing docs with
  | nil =>
      obtain rfl := Except.ok.inj h
      simp at hdoc
  | cons first rest ih =>
      rw [List.mapM_cons] at h
      obtain ⟨child, hchild, h⟩ := checks_eq_ok.mp h
      obtain ⟨children, hchildren, h⟩ := checks_eq_ok.mp h
      obtain rfl := Except.ok.inj h
      -- the child of the first chunk, or of a later one
      rcases List.mem_cons.mp hdoc with rfl | hmem
      · exact ⟨first.1, _, hchild⟩
      · exact ih hmem hchildren

/-- A row and the document that it names: stored for the same vector store and file. -/
structure NamesDocument (vectorStoreId : String) (row doc : Document) : Prop where
  parent : row.holds metadataSchemaParentDocIdKey doc.id
  owner : doc.holds vectorStoreIdKey vectorStoreId
  source : ∃ source, doc.holds metadataSchemaFileSourceKey source ∧
    row.holds metadataSchemaFileSourceKey source

/-- What ingestion for one vector store does to the stores: it adds root documents of that
vector store under new ids, and rows that name them. -/
structure Ingested (config : RetrieverConfig) (vectorStoreId : String) (s s' : RetrievalState)
    (new : List Document) (numbers : List Nat) : Prop where
  docStore : s'.docStore = s.docStore ++ new
  ids : new.map (·.id) = numbers.map config.uuids.text
  nodup : numbers.Nodup
  fresh : ∀ n ∈ numbers, s.nextUuid ≤ n ∧ n < s'.nextUuid
  next : s.nextUuid ≤ s'.nextUuid
  roots : ∀ doc ∈ new, doc.holds metadataSchemaParentDocIdKey rootDocId
  owned : ∀ doc ∈ new, doc.holds vectorStoreIdKey vectorStoreId
  others : ∀ other, other ≠ vectorStoreId → s'.vectorTables other = s.vectorTables other
  rows : ∀ row ∈ s'.vectorTables vectorStoreId, row ∈ s.vectorTables vectorStoreId ∨
    ∃ doc ∈ new, NamesDocument vectorStoreId row doc

/-- The relation of `Ingested`, as one along which actions move. -/
def Ingests (config : RetrieverConfig) (vectorStoreId : String) (s s' : RetrievalState) : Prop :=
  ∃ new numbers, Ingested config vectorStoreId s s' new numbers

section Ingests

variable {config : RetrieverConfig} {vectorStoreId : String}

theorem Ingests.refl (s : RetrievalState) : Ingests config vectorStoreId s s := by
  refine ⟨[], [], ?_⟩
  exact
    { docStore := (List.append_nil _).symm
      ids := rfl
      nodup := List.nodup_nil
      fresh := by simp
      next := Nat.le_refl _
      roots := by simp
      owned := by simp
      others := fun _ _ => rfl
      rows := fun _ h => .inl h }

theorem Ingests.trans (s s' s'' : RetrievalState) :
    Ingests config vectorStoreId s s' → Ingests config vectorStoreId s' s'' →
      Ingests config vectorStoreId s s'' := by
  rintro ⟨new, numbers, h⟩ ⟨new', numbers', h'⟩
  refine ⟨new ++ new', numbers ++ numbers', ?_⟩
  exact
    { docStore := by rw [h'.docStore, h.docStore, List.append_assoc]
      ids := by rw [List.map_append, List.map_append, h.ids, h'.ids]
      nodup := by
        refine List.nodup_append.mpr ⟨h.nodup, h'.nodup, fun m hm n hn => ?_⟩
        -- later documents have later numbers
        have hlt := (h.fresh m hm).2
        have hle := (h'.fresh n hn).1
        omega
      fresh := fun n hn => by
        have hnext := h.next
        have hnext' := h'.next
        rcases List.mem_append.mp hn with hn | hn
        · have hold := h.fresh n hn
          omega
        · have hnew := h'.fresh n hn
          omega
      next := Nat.le_trans h.next h'.next
      roots := fun doc hdoc => (List.mem_append.mp hdoc).elim (h.roots doc) (h'.roots doc)
      owned := fun doc hdoc => (List.mem_append.mp hdoc).elim (h.owned doc) (h'.owned doc)
      others := fun other hother => (h'.others other hother).trans (h.others other hother)
      rows := fun row hrow => by
        rcases h'.rows row hrow with hrow | ⟨doc, hdoc, hnames⟩
        · rcases h.rows row hrow with hrow | ⟨doc, hdoc, hnames⟩
          · exact .inl hrow
          · exact .inr ⟨doc, List.mem_append_left new' hdoc, hnames⟩
        · exact .inr ⟨doc, List.mem_append_right new hdoc, hnames⟩ }

/-- What the rows of one batch do: they are added to the table of the vector store, and each
names one of the parents. -/
structure AddsRows (vectorStoreId : String) (parents : List Document) (s s' : RetrievalState) :
    Prop where
  docStore : s'.docStore = s.docStore
  next : s.nextUuid ≤ s'.nextUuid
  others : ∀ other, other ≠ vectorStoreId → s'.vectorTables other = s.vectorTables other
  rows : ∀ row ∈ s'.vectorTables vectorStoreId, row ∈ s.vectorTables vectorStoreId ∨
    ∃ parent ∈ parents, row.holds metadataSchemaParentDocIdKey parent.id ∧
      ∃ source, parent.stringValueMetadataField metadataSchemaFileSourceKey = some source ∧
        row.holds metadataSchemaFileSourceKey source

theorem AddsRows.refl (parents : List Document) (s : RetrievalState) :
    AddsRows vectorStoreId parents s s :=
  ⟨rfl, Nat.le_refl _, fun _ _ => rfl, fun _ h => .inl h⟩

theorem AddsRows.trans (parents : List Document) (s s' s'' : RetrievalState)
    (h : AddsRows vectorStoreId parents s s') (h' : AddsRows vectorStoreId parents s' s'') :
    AddsRows vectorStoreId parents s s'' where
  docStore := h'.docStore.trans h.docStore
  next := Nat.le_trans h.next h'.next
  others := fun other hother => (h'.others other hother).trans (h.others other hother)
  rows := fun row hrow => (h'.rows row hrow).elim (h.rows row) .inr

/-- The chunks of one parent. -/
theorem addsRows_addToVectorTable {parents : List Document} {parent : Document}
    (hparent : parent ∈ parents) {docs : List Document}
    (hdocs : splitChildDoc config.splitChildText parent = .ok docs) :
    Action.Moves (AddsRows vectorStoreId parents) (addToVectorTable config vectorStoreId docs) := by
  refine Action.moves_bind (AddsRows.trans parents)
    (Action.moves_of_keeps (AddsRows.refl parents) (Action.keeps_liftM _)) fun _ s => ?_
  rcases hrows : (assignIds config.uuids s.nextUuid docs).mapM (Document.row vectorStoreSchema)
    with - | rows
  · simp only [hrows]
    exact AddsRows.refl parents s
  · simp only [hrows]
    refine ⟨rfl, Nat.le_add_right _ _, fun other hother => ?_, fun row hrow => ?_⟩
    · exact Function.update_of_ne hother _ _
    · simp only [Function.update_self] at hrow
      rcases List.mem_append.mp hrow with hold | hnew
      · exact .inl hold
      · -- a new row comes from a chunk, and names its parent
        obtain ⟨doc, hdoc, hdocrow⟩ := exists_doc_of_mem_row (forall₂_of_mapM_row hrows) hnew
        obtain ⟨old, hold, heq⟩ := exists_of_mem_assignIds hdoc
        obtain ⟨chunk, pageNo, hchild⟩ := exists_childDoc_of_mem hdocs hold
        obtain ⟨hstored, source, hsource, hstored'⟩ := childDoc_stores hchild
        -- the id that is assigned changes no stored field
        have hsame : ∀ name, doc.storedValue name = old.storedValue name := by
          intro name
          rw [heq]
          rfl
        refine .inr ⟨parent, hparent, ?_, source, hsource, ?_⟩
        · rw [Document.holds, Document.row_value hdocrow (by decide), hsame, hstored]
        · rw [Document.holds, Document.row_value hdocrow (by decide), hsame, hstored']

/-- The documents of a batch with their rows, and then the rows that name them. -/
theorem ingests_of_addsRows {s s' : RetrievalState} {batch rows : List Document}
    (hbatch : ∀ doc ∈ batch, FromFile vectorStoreId doc)
    (hall : List.Forall₂ (fun doc row => doc.row docStoreSchema = some row)
      (assignIds config.uuids s.nextUuid batch) rows)
    (hadds : AddsRows vectorStoreId (assignIds config.uuids s.nextUuid batch)
      { s with
        docStore := s.docStore ++ rows
        nextUuid := s.nextUuid + (assignIds config.uuids s.nextUuid batch).length } s') :
    Ingests config vectorStoreId s s' := by
  have hnext : s.nextUuid + batch.length ≤ s'.nextUuid := by
    rw [← length_assignIds config.uuids s.nextUuid batch]
    exact hadds.next
  -- assigned ids leave the owner and the source as they are
  have hrow : ∀ doc ∈ assignIds config.uuids s.nextUuid batch, FromFile vectorStoreId doc := by
    intro doc hdoc
    obtain ⟨old, hold, heq⟩ := exists_of_mem_assignIds hdoc
    obtain ⟨hroot, howner, hsource⟩ := hbatch old hold
    rw [heq]
    exact ⟨hroot, howner, hsource⟩
  refine ⟨rows, List.range' s.nextUuid batch.length, ?_⟩
  exact
    { docStore := hadds.docStore
      ids := (map_id_of_forall₂_row hall).trans (map_id_assignIds _ _ _)
      nodup := List.nodup_range'
      fresh := fun n hn => by
        have hn := List.mem_range'_1.mp hn
        omega
      next := by omega
      roots := fun row hmem => by
        obtain ⟨doc, hdoc, hdocrow⟩ := exists_doc_of_mem_row hall hmem
        rw [Document.holds, Document.row_value hdocrow (by decide), (hrow doc hdoc).root]
      owned := fun row hmem => by
        obtain ⟨doc, hdoc, hdocrow⟩ := exists_doc_of_mem_row hall hmem
        rw [Document.holds, Document.row_value hdocrow (by decide), (hrow doc hdoc).owner]
      others := hadds.others
      rows := fun row hmem => by
        rcases hadds.rows row hmem with hold | ⟨parent, hparent, hnames, source, hsource, hfile⟩
        · exact .inl hold
        · obtain ⟨doc, hdoc, hdocrow⟩ := exists_row_of_mem_doc hall hparent
          obtain ⟨-, howner, source', hstored, hfirst⟩ := hrow parent hparent
          rw [Document.stringValueMetadataField, hfirst] at hsource
          obtain rfl : source' = source := Option.some.inj hsource
          refine .inr ⟨doc, hdoc, ?_, ?_, source', ?_, hfile⟩
          · rw [Document.row_id hdocrow]
            exact hnames
          · rw [Document.holds, Document.row_value hdocrow (by decide), howner]
          · rw [Document.holds, Document.row_value hdocrow (by decide), hstored] }

/-- **One batch.**  Its documents are stored, then the chunks of each. -/
theorem ingests_ingestBatch {batch : List Document}
    (hbatch : ∀ doc ∈ batch, FromFile vectorStoreId doc) :
    Action.Moves (Ingests config vectorStoreId) (ingestBatch config vectorStoreId batch) := by
  intro s
  rw [ingestBatch, Action.bind_apply, addToDocStore]
  rcases hrows : (assignIds config.uuids s.nextUuid batch).mapM (Document.row docStoreSchema)
    with - | rows
  · exact Ingests.refl s
  · -- the parents with their rows are in the doc store before the first chunk is made
    have hloop : Action.Moves (AddsRows vectorStoreId (assignIds config.uuids s.nextUuid batch))
        ((assignIds config.uuids s.nextUuid batch).forM fun parent =>
          (liftM (splitChildDoc config.splitChildText parent) : RetrievalM (List Document)) >>=
            addToVectorTable config vectorStoreId) := by
      refine Action.moves_forM (AddsRows.refl _) (AddsRows.trans _) fun parent hparent s => ?_
      rcases hdocs : splitChildDoc config.splitChildText parent with e | docs
      · exact AddsRows.refl _ s
      · exact addsRows_addToVectorTable hparent hdocs s
    exact ingests_of_addsRows hbatch (forall₂_of_mapM_row hrows) (hloop _)

theorem mem_of_mem_bufferFrom {α : Type} {size : Nat} {completes : Bool} {pending xs batch : List α}
    (h : batch ∈ bufferFrom size completes pending xs) {a : α} (ha : a ∈ batch) :
    a ∈ pending ∨ a ∈ xs := by
  induction xs generalizing pending with
  | nil =>
      unfold bufferFrom at h
      split at h
      · exact .inl (List.mem_singleton.mp h ▸ ha)
      · simp at h
  | cons x xs ih =>
      unfold bufferFrom at h
      split at h
      · -- the buffer is full: it is this batch, or a later one
        rcases List.mem_cons.mp h with rfl | h
        · rcases List.mem_append.mp ha with hp | hx
          · exact .inl hp
          · exact .inr (List.mem_singleton.mp hx ▸ List.mem_cons_self)
        · rcases ih h with hp | hx
          · simp at hp
          · exact .inr (List.mem_cons_of_mem x hx)
      · rcases ih h with hp | hx
        · rcases List.mem_append.mp hp with hp | hx
          · exact .inl hp
          · exact .inr (List.mem_singleton.mp hx ▸ List.mem_cons_self)
        · exact .inr (List.mem_cons_of_mem x hx)

/-- **Ingestion.** -/
theorem ingests_ingest {input : DocumentStream}
    (hinput : ∀ doc ∈ input.docs, FromFile vectorStoreId doc) :
    Action.Moves (Ingests config vectorStoreId) (ingest config vectorStoreId input) := by
  unfold ingest
  refine Action.moves_bind Ingests.trans ?_ fun _ => ?_
  · refine Action.moves_forM Ingests.refl Ingests.trans fun batch hbatch => ?_
    refine ingests_ingestBatch fun doc hdoc => ?_
    have hmem := (mem_of_mem_bufferFrom hbatch hdoc).resolve_left (by simp)
    split at hmem
    · -- the parents are split first where a parent splitter is set
      obtain ⟨parent, hparent, hsplit⟩ := List.mem_flatMap.mp hmem
      exact (hinput parent hparent).splitParent hsplit
    · exact hinput doc hmem
  · split
    · exact fun s => Ingests.refl s
    · exact fun s => Ingests.refl s

end Ingests

/-! ### What removal takes away -/

/-- The stores after a removal. -/
def RetrievalState.removed (s : RetrievalState) (vectorStoreId : String) (query : SearchQuery) :
    RetrievalState :=
  { s with
    docStore := s.docStore.filter fun doc => !query.selects doc
    vectorTables := Function.update s.vectorTables vectorStoreId
      ((s.vectorTables vectorStoreId).filter fun row => !query.selects row) }

/-- A query that both stores accept removes the rows it selects. -/
theorem remove_eq {vectorStoreId : String} {query : SearchQuery} {s : RetrievalState}
    (hdocs : query.check docStoreSchema = .ok ()) (hrows : query.check vectorStoreSchema = .ok ()) :
    remove vectorStoreId query s = (.ok (), s.removed vectorStoreId query) := by
  simp only [remove, Action.bind_apply, Action.liftM_apply, hdocs, Action.modify_apply, hrows,
    RetrievalState.removed]

/-- Removing the documents and rows of some files. -/
theorem remove_terms_eq {vectorStoreId : String} {fileIds : List String} {s : RetrievalState}
    (h : fileIds ≠ []) :
    remove vectorStoreId (.terms metadataSchemaFileSourceKey fileIds) s
      = (.ok (), s.removed vectorStoreId (.terms metadataSchemaFileSourceKey fileIds)) := by
  have hcheck : ∀ schema, metadataSchemaFileSourceKey ∈ schema →
      (SearchQuery.terms metadataSchemaFileSourceKey fileIds).check schema = .ok () :=
    fun schema hname => checks_eq_ok.mpr ⟨(), assertTrue_of h, assertTrue_of hname⟩
  exact remove_eq (hcheck _ (by decide)) (hcheck _ (by decide))

/-- A query that selects nothing in the doc store and in the table removes nothing. -/
theorem removed_of_none {s : RetrievalState} {vectorStoreId : String} {query : SearchQuery}
    (hdocs : ∀ doc ∈ s.docStore, query.selects doc = false)
    (hrows : ∀ row ∈ s.vectorTables vectorStoreId, query.selects row = false) :
    s.removed vectorStoreId query = s := by
  have hall : ∀ rows : List Document, (∀ row ∈ rows, query.selects row = false) →
      rows.filter (fun row => !query.selects row) = rows :=
    fun rows h => List.filter_eq_self.mpr fun row hrow => by rw [h row hrow, Bool.not_false]
  rw [RetrievalState.removed, hall _ hdocs, hall _ hrows, Function.update_eq_self]

/-- A query for no value selects nothing. -/
theorem removed_no_terms (s : RetrievalState) (vectorStoreId name : String) :
    s.removed vectorStoreId (.terms name []) = s := by
  have hnone : ∀ doc : Document, (SearchQuery.terms name []).selects doc = false := by
    intro doc
    show (doc.stringValueMetadataField name).any [].contains = false
    cases doc.stringValueMetadataField name <;> rfl
  exact removed_of_none (fun doc _ => hnone doc) fun row _ => hnone row

/-- The query of a call that removes. -/
def RetrieverCall.query? : RetrieverCall → Option SearchQuery
  | .ingestFile _ _ _ _ _ => none
  | .deleteFile _ fileId => some (.term metadataSchemaParentDocIdKey fileId)
  | .cleanUp _ fileIds => some (.terms metadataSchemaFileSourceKey fileIds)

/-- **What one call can do.**  It ingests, or it removes what its query selects. -/
theorem retrieverCall_cases (config : RetrieverConfig) (call : RetrieverCall)
    (s : RetrievalState) :
    call.query? = none ∧ Ingests config call.vectorStoreId s (call.exec config s).2 ∨
    ∃ query, call.query? = some query ∧
      (call.exec config s).2 = s.removed call.vectorStoreId query := by
  cases call with
  | ingestFile vectorStoreId fileId filePath pages failure =>
      exact .inl ⟨rfl, ingests_ingest (fun doc hdoc => fromFile_of_split hdoc) s⟩
  | deleteFile vectorStoreId fileId =>
      -- both tables have the column that is asked for
      have hcheck : ∀ schema, metadataSchemaParentDocIdKey ∈ schema →
          (SearchQuery.term metadataSchemaParentDocIdKey fileId).check schema = .ok () :=
        fun schema hname => assertTrue_of hname
      refine .inr ⟨_, rfl, ?_⟩
      rw [RetrieverCall.exec, remove_eq (hcheck _ (by decide)) (hcheck _ (by decide))]
      rfl
  | cleanUp vectorStoreId fileIds =>
      refine .inr ⟨_, rfl, ?_⟩
      by_cases hnil : fileIds = []
      · -- the statement with an empty list is refused
        subst hnil
        exact (removed_no_terms s vectorStoreId metadataSchemaFileSourceKey).symm
      · rw [RetrieverCall.exec, remove_terms_eq hnil]
        rfl

/-! ### Every reachable state -/

/-- What holds of the stores after any calls: ids are UUIDs drawn before, and distinct; the
documents are roots; rows name documents, present or not, by such an id. -/
structure RetrievalState.Formed (config : RetrieverConfig) (s : RetrievalState) : Prop where
  ids : ∀ doc ∈ s.docStore, ∃ n < s.nextUuid, doc.id = config.uuids.text n
  nodup : (s.docStore.map (·.id)).Nodup
  roots : ∀ doc ∈ s.docStore, doc.holds metadataSchemaParentDocIdKey rootDocId
  owned : ∀ doc ∈ s.docStore, ∃ vectorStoreId, doc.holds vectorStoreIdKey vectorStoreId
  parents : ∀ vectorStoreId, ∀ row ∈ s.vectorTables vectorStoreId,
    ∃ n < s.nextUuid, row.holds metadataSchemaParentDocIdKey (config.uuids.text n)

section Reachable

variable {config : RetrieverConfig} {vectorStoreId : String} {s s' : RetrievalState}

theorem mem_vectorTables_removed {query : SearchQuery} {other : String} {row : Document}
    (h : row ∈ (s.removed vectorStoreId query).vectorTables other) :
    row ∈ s.vectorTables other ∧ (other = vectorStoreId → query.selects row = false) := by
  by_cases hother : other = vectorStoreId
  · subst hother
    simp only [RetrievalState.removed, Function.update_self, List.mem_filter,
      Bool.not_eq_true'] at h
    exact ⟨h.1, fun _ => h.2⟩
  · simp only [RetrievalState.removed, Function.update_of_ne hother] at h
    exact ⟨h, fun heq => absurd heq hother⟩

theorem mem_docStore_removed {query : SearchQuery} {doc : Document} :
    doc ∈ (s.removed vectorStoreId query).docStore ↔
      doc ∈ s.docStore ∧ query.selects doc = false := by
  simp only [RetrievalState.removed, List.mem_filter, Bool.not_eq_true']

theorem RetrievalState.Formed.ingests (h : s.Formed config)
    (hi : Ingests config vectorStoreId s s') : s'.Formed config := by
  obtain ⟨new, numbers, hi⟩ := hi
  have hnew : ∀ doc ∈ new, ∃ n ∈ numbers, doc.id = config.uuids.text n := by
    intro doc hdoc
    have hid := List.mem_map_of_mem (f := (·.id)) hdoc
    rw [hi.ids] at hid
    obtain ⟨n, hn, heq⟩ := List.mem_map.mp hid
    exact ⟨n, hn, heq.symm⟩
  refine ⟨fun doc hdoc => ?_, ?_, fun doc hdoc => ?_, fun doc hdoc => ?_, fun other row hrow => ?_⟩
  · rw [hi.docStore] at hdoc
    rcases List.mem_append.mp hdoc with hold | hdoc
    · obtain ⟨n, hn, hid⟩ := h.ids doc hold
      exact ⟨n, Nat.lt_of_lt_of_le hn hi.next, hid⟩
    · obtain ⟨n, hn, hid⟩ := hnew doc hdoc
      exact ⟨n, (hi.fresh n hn).2, hid⟩
  · rw [hi.docStore, List.map_append, hi.ids, List.nodup_append]
    refine ⟨h.nodup, hi.nodup.map config.uuids.injective, fun a ha b hb hab => ?_⟩
    obtain ⟨doc, hdoc, rfl⟩ := List.mem_map.mp ha
    obtain ⟨m, hm, rfl⟩ := List.mem_map.mp hb
    obtain ⟨n, hn, hid⟩ := h.ids doc hdoc
    have hmn : n = m := config.uuids.injective (hid.symm.trans hab)
    -- an old number is not a new one
    have hfresh := (hi.fresh m hm).1
    omega
  · rw [hi.docStore] at hdoc
    exact (List.mem_append.mp hdoc).elim (h.roots doc) (hi.roots doc)
  · rw [hi.docStore] at hdoc
    exact (List.mem_append.mp hdoc).elim (h.owned doc) fun hnew => ⟨_, hi.owned doc hnew⟩
  · have hold : row ∈ s.vectorTables other →
        ∃ n < s'.nextUuid, row.holds metadataSchemaParentDocIdKey (config.uuids.text n) := by
      intro hrow
      obtain ⟨n, hn, hparent⟩ := h.parents other row hrow
      exact ⟨n, Nat.lt_of_lt_of_le hn hi.next, hparent⟩
    -- the own table gets rows, the others stay
    by_cases hother : other = vectorStoreId
    · subst hother
      rcases hi.rows row hrow with hrow | ⟨doc, hdoc, hnames⟩
      · exact hold hrow
      · obtain ⟨n, hn, hid⟩ := hnew doc hdoc
        exact ⟨n, (hi.fresh n hn).2, hid ▸ hnames.parent⟩
    · exact hold (hi.others other hother ▸ hrow)

theorem RetrievalState.Formed.removed (h : s.Formed config) (query : SearchQuery) :
    (s.removed vectorStoreId query).Formed config where
  ids doc hdoc := h.ids doc (mem_docStore_removed.mp hdoc).1
  nodup := (List.filter_sublist.map _).nodup h.nodup
  roots doc hdoc := h.roots doc (mem_docStore_removed.mp hdoc).1
  owned doc hdoc := h.owned doc (mem_docStore_removed.mp hdoc).1
  parents other row hrow := h.parents other row (mem_vectorTables_removed hrow).1

theorem RetrievalState.Formed.step {call : RetrieverCall} (h : s.Formed config)
    (hstep : retrieverStep config s call = some s') : s'.Formed config := by
  obtain rfl := Option.some.inj hstep
  rcases retrieverCall_cases config call s with ⟨-, hi⟩ | ⟨query, -, heq⟩
  · exact h.ingests hi
  · rw [heq]
    exact h.removed query

theorem formed_empty : ({} : RetrievalState).Formed config where
  ids := by simp
  nodup := List.nodup_nil
  roots := by simp
  owned := by simp
  parents := by simp

end Reachable

/-! ### Isolation -/

/-- The documents that were ingested through a vector store. -/
def RetrievalState.documentsOf (s : RetrievalState) (vectorStoreId : String) : List Document :=
  s.docStore.filter fun doc => doc.holds vectorStoreIdKey vectorStoreId

/-- Every row of every vector table names a document that is present. -/
def RetrievalState.RowsHaveDocuments (s : RetrievalState) : Prop :=
  ∀ vectorStoreId, ∀ row ∈ s.vectorTables vectorStoreId,
    ∃ doc ∈ s.docStore, row.holds metadataSchemaParentDocIdKey doc.id

/-- Between two states the other vector stores keep their documents and their answers. -/
structure Isolated (config : RetrieverConfig) (vectorStoreId : String) (s s' : RetrievalState) :
    Prop where
  documents : ∀ other, other ≠ vectorStoreId → s'.documentsOf other = s.documentsOf other
  answers : ∀ other, other ≠ vectorStoreId → ∀ request,
    (retrieve config other request s').1 = (retrieve config other request s).1

/-- A call stays within its vector store: `DeleteVectorStoreFile` does not name the root, or
nothing of another vector store is there and no row is left behind; the background task does
not name a file of which another vector store has documents. -/
def Separate (s : RetrievalState) : RetrieverCall → Prop
  | .ingestFile _ _ _ _ _ => True
  | .deleteFile vectorStoreId fileId => fileId = rootDocId →
      (∀ doc ∈ s.docStore, doc.holds vectorStoreIdKey vectorStoreId) ∧
      s.vectorTables vectorStoreId = []
  | .cleanUp vectorStoreId fileIds => ∀ doc ∈ s.docStore,
      (∃ fileId ∈ fileIds,
        doc.stringValueMetadataField metadataSchemaFileSourceKey = some fileId) →
      doc.holds vectorStoreIdKey vectorStoreId

/-- The invariant of separate calls: every row names a document of its own vector store that
is present and was ingested from the same file. -/
def RetrievalState.Linked (s : RetrievalState) : Prop :=
  ∀ vectorStoreId, ∀ row ∈ s.vectorTables vectorStoreId,
    ∃ doc ∈ s.docStore, NamesDocument vectorStoreId row doc

section Isolation

variable {config : RetrieverConfig} {vectorStoreId : String} {s s' : RetrievalState}

theorem stringValue_of_holds {doc : Document} {name value : String} (h : doc.holds name value) :
    doc.stringValueMetadataField name = some value := by
  rw [Document.stringValueMetadataField, h]
  rfl

theorem eq_of_holds {doc : Document} {name value value' : String} (h : doc.holds name value)
    (h' : doc.holds name value') : value = value' :=
  Option.some.inj ((stringValue_of_holds h).symm.trans (stringValue_of_holds h'))

theorem holds_of_stringValue {doc : Document} {name value value' : String}
    (h : doc.stringValueMetadataField name = some value') (hstring : doc.holds name value) :
    value = value' :=
  Option.some.inj ((stringValue_of_holds hstring).symm.trans h)

theorem RetrievalState.Linked.rowsHaveDocuments (h : s.Linked) : s.RowsHaveDocuments := by
  intro vectorStoreId row hrow
  obtain ⟨doc, hdoc, hnames⟩ := h vectorStoreId row hrow
  exact ⟨doc, hdoc, hnames.parent⟩

/-- What a separate removal selects: documents of its own vector store, and with a document
also the rows of that vector store that name it. -/
structure SelectsOwn (s : RetrievalState) (vectorStoreId : String) (query : SearchQuery) :
    Prop where
  owned : ∀ doc ∈ s.docStore, query.selects doc = true →
    doc.holds vectorStoreIdKey vectorStoreId
  rows : ∀ row ∈ s.vectorTables vectorStoreId, ∀ doc ∈ s.docStore,
    NamesDocument vectorStoreId row doc → query.selects doc = true → query.selects row = true

theorem selectsOwn_of_separate (hs : s.Formed config) {call : RetrieverCall}
    (h : Separate s call) {query : SearchQuery} (hquery : call.query? = some query) :
    SelectsOwn s call.vectorStoreId query := by
  cases call with
  | ingestFile vectorStoreId fileId filePath pages failure => simp [RetrieverCall.query?] at hquery
  | deleteFile vectorStoreId fileId =>
      obtain rfl := Option.some.inj hquery
      -- every document is a root, so only the root can be named
      have hroot : ∀ doc ∈ s.docStore,
          (SearchQuery.term metadataSchemaParentDocIdKey fileId).selects doc = true →
          fileId = rootDocId := by
        intro doc hdoc hselects
        exact (holds_of_stringValue (of_decide_eq_true hselects) (hs.roots doc hdoc)).symm
      constructor
      · intro doc hdoc hselects
        exact (h (hroot doc hdoc hselects)).1 doc hdoc
      · intro row hrow doc hdoc _ hselects
        have hempty := (h (hroot doc hdoc hselects)).2
        simp [RetrieverCall.vectorStoreId, hempty] at hrow
  | cleanUp vectorStoreId fileIds =>
      obtain rfl := Option.some.inj hquery
      constructor
      · intro doc hdoc hselects
        obtain ⟨fileId, hsource, hmem⟩ := (Option.any_eq_true _ _).mp hselects
        exact h doc hdoc ⟨fileId, List.contains_iff_mem.mp hmem, hsource⟩
      · intro row hrow doc hdoc hnames hselects
        obtain ⟨source, hdocsource, hrowsource⟩ := hnames.source
        simp only [SearchQuery.selects, stringValue_of_holds hdocsource,
          stringValue_of_holds hrowsource] at hselects ⊢
        exact hselects

theorem RetrievalState.Linked.ingests (h : s.Linked) (hi : Ingests config vectorStoreId s s') :
    s'.Linked := by
  obtain ⟨new, numbers, hi⟩ := hi
  have hold : ∀ other, ∀ row ∈ s.vectorTables other,
      ∃ doc ∈ s'.docStore, NamesDocument other row doc := by
    intro other row hrow
    obtain ⟨doc, hdoc, hnames⟩ := h other row hrow
    rw [hi.docStore]
    exact ⟨doc, List.mem_append_left new hdoc, hnames⟩
  intro other row hrow
  -- the own table gets rows with their documents, the others stay
  by_cases hother : other = vectorStoreId
  · subst hother
    rcases hi.rows row hrow with hrow | ⟨doc, hdoc, hnames⟩
    · exact hold other row hrow
    · rw [hi.docStore]
      exact ⟨doc, List.mem_append_right s.docStore hdoc, hnames⟩
  · exact hold other row (hi.others other hother ▸ hrow)

theorem RetrievalState.Linked.removed (h : s.Linked) {query : SearchQuery}
    (hown : SelectsOwn s vectorStoreId query) : (s.removed vectorStoreId query).Linked := by
  intro other row hrow
  obtain ⟨hmem, hkept⟩ := mem_vectorTables_removed hrow
  obtain ⟨doc, hdoc, hnames⟩ := h other row hmem
  refine ⟨doc, mem_docStore_removed.mpr ⟨hdoc, Bool.eq_false_iff.mpr fun hselects => ?_⟩, hnames⟩
  -- a document that is taken away belongs to the vector store, and takes its rows along
  have hother : other = vectorStoreId := eq_of_holds hnames.owner (hown.owned doc hdoc hselects)
  subst hother
  have hrowselects := hown.rows row hmem doc hdoc hnames hselects
  rw [hkept rfl] at hrowselects
  exact Bool.false_ne_true hrowselects

/-- The answers of a retriever depend on its rows and on the documents that they name. -/
theorem retrieve_congr {other : String} (htable : s'.vectorTables other = s.vectorTables other)
    (hdocs : ∀ ids, ids ⊆ (s.vectorTables other).map parentDocIdOf →
      (s'.docStore.filter fun doc => ids.contains doc.id)
        = s.docStore.filter fun doc => ids.contains doc.id)
    (request : SearchRequest) :
    (retrieve config other request s').1 = (retrieve config other request s).1 := by
  simp only [retrieve, htable]
  rcases hfound : config.searchDocuments request (s.vectorTables other) with e | rows
  · rfl
  · -- only documents that the found rows name are looked at
    have hsubset : rows.map parentDocIdOf ⊆ (s.vectorTables other).map parentDocIdOf :=
      List.map_subset _ (config.search_subset request _ rows hfound)
    show (do
      (rows.map parentDocIdOf).forM fun id =>
        assertNotBlank id "should have found parent_doc_id in parent doc's metadata"
      pure (s'.docStore.filter fun doc => (rows.map parentDocIdOf).contains doc.id) :
        Except Exn (List Document)) = _
    rw [hdocs _ hsubset]
    rfl

theorem parentDocIdOf_eq {row : Document} {id : String}
    (h : row.holds metadataSchemaParentDocIdKey id) : parentDocIdOf row = id := by
  rw [parentDocIdOf, stringValue_of_holds h]
  rfl

theorem isolated_ingests (hs : s.Formed config) (hi : Ingests config vectorStoreId s s') :
    Isolated config vectorStoreId s s' := by
  obtain ⟨new, numbers, hi⟩ := hi
  constructor
  · intro other hother
    have hnone : (new.filter fun doc => doc.holds vectorStoreIdKey other) = [] := by
      refine List.filter_eq_nil_iff.mpr fun doc hdoc hholds => hother ?_
      exact eq_of_holds (of_decide_eq_true hholds) (hi.owned doc hdoc)
    rw [RetrievalState.documentsOf, hi.docStore, List.filter_append, hnone, List.append_nil]
    rfl
  · intro other hother request
    refine retrieve_congr (hi.others other hother) (fun ids hids => ?_) request
    have hnone : (new.filter fun doc => ids.contains doc.id) = [] := by
      refine List.filter_eq_nil_iff.mpr fun doc hdoc hcontains => ?_
      -- an id that a row names was drawn before
      obtain ⟨row, hrow, hparent⟩ := List.mem_map.mp (hids (List.contains_iff_mem.mp hcontains))
      obtain ⟨n, hn, hholds⟩ := hs.parents other row hrow
      have hid := List.mem_map_of_mem (f := (·.id)) hdoc
      rw [hi.ids] at hid
      obtain ⟨m, hm, heq⟩ := List.mem_map.mp hid
      rw [parentDocIdOf_eq hholds] at hparent
      have hmn : n = m := config.uuids.injective (hparent.trans heq.symm)
      have hfresh := (hi.fresh m hm).1
      omega
    rw [hi.docStore, List.filter_append, hnone, List.append_nil]

theorem isolated_removed (hs : s.Formed config) (hl : s.Linked) {query : SearchQuery}
    (hown : SelectsOwn s vectorStoreId query) :
    Isolated config vectorStoreId s (s.removed vectorStoreId query) := by
  have hfilter : ∀ p : Document → Bool,
      (∀ doc ∈ s.docStore, p doc = true → query.selects doc = false) →
      (s.removed vectorStoreId query).docStore.filter p = s.docStore.filter p := by
    intro p hp
    rw [RetrievalState.removed, List.filter_filter]
    refine List.filter_congr fun doc hdoc => ?_
    cases hpdoc : p doc
    · exact Bool.false_and _
    · rw [hp doc hdoc hpdoc]
      rfl
  constructor
  · intro other hother
    refine hfilter _ fun doc hdoc hholds => Bool.eq_false_iff.mpr fun hselects => hother ?_
    exact eq_of_holds (of_decide_eq_true hholds) (hown.owned doc hdoc hselects)
  · intro other hother request
    refine retrieve_congr (Function.update_of_ne hother _ _) (fun ids hids => ?_) request
    refine hfilter _ fun doc hdoc hcontains => Bool.eq_false_iff.mpr fun hselects => hother ?_
    -- the document that a row of the other vector store names is a document of that store
    obtain ⟨row, hrow, hparent⟩ := List.mem_map.mp (hids (List.contains_iff_mem.mp hcontains))
    obtain ⟨named, hnamed, hnames⟩ := hl other row hrow
    rw [parentDocIdOf_eq hnames.parent] at hparent
    obtain rfl : named = doc := List.inj_on_of_nodup_map hs.nodup hnamed hdoc hparent
    exact eq_of_holds hnames.owner (hown.owned named hdoc hselects)

/-- **Step.**  A separate call keeps the rows linked and leaves the other vector stores
alone. -/
theorem separate_step (hs : s.Formed config) (hl : s.Linked) {call : RetrieverCall}
    (hsep : Separate s call) :
    (call.exec config s).2.Linked ∧
      Isolated config call.vectorStoreId s (call.exec config s).2 := by
  rcases retrieverCall_cases config call s with ⟨-, hi⟩ | ⟨query, hquery, heq⟩
  · exact ⟨hl.ingests hi, isolated_ingests hs hi⟩
  · rw [heq]
    have hown := selectsOwn_of_separate hs hsep hquery
    exact ⟨hl.removed hown, isolated_removed hs hl hown⟩

/-- A document that a removal takes away belonged to the vector store, where the others keep
theirs. -/
theorem owned_of_isolated (hs : s.Formed config) {query : SearchQuery}
    (h : Isolated config vectorStoreId s (s.removed vectorStoreId query)) {doc : Document}
    (hdoc : doc ∈ s.docStore) (hselects : query.selects doc = true) :
    doc.holds vectorStoreIdKey vectorStoreId := by
  obtain ⟨owner, howner⟩ := hs.owned doc hdoc
  by_cases heq : owner = vectorStoreId
  · exact heq ▸ howner
  · have hmem : doc ∈ s.documentsOf owner :=
      List.mem_filter.mpr ⟨hdoc, decide_eq_true howner⟩
    rw [← h.documents owner heq] at hmem
    have hkept := (mem_docStore_removed.mp (List.mem_of_mem_filter hmem)).2
    rw [hselects] at hkept
    exact absurd hkept.symm Bool.false_ne_true

/-- A call that leaves the others alone and every row its document is separate. -/
theorem separate_of_isolated (hs : s.Formed config) {call : RetrieverCall}
    (hi : Isolated config call.vectorStoreId s (call.exec config s).2)
    (hrows : (call.exec config s).2.RowsHaveDocuments) : Separate s call := by
  rcases retrieverCall_cases config call s with ⟨hquery, -⟩ | ⟨query, hquery, heq⟩
  · cases call with
    | ingestFile vectorStoreId fileId filePath pages failure => trivial
    | deleteFile vectorStoreId fileId => simp [RetrieverCall.query?] at hquery
    | cleanUp vectorStoreId fileIds => simp [RetrieverCall.query?] at hquery
  · rw [heq] at hi hrows
    cases call with
    | ingestFile vectorStoreId fileId filePath pages failure => trivial
    | deleteFile vectorStoreId fileId =>
        obtain rfl := Option.some.inj hquery
        rintro rfl
        have hselects : ∀ doc ∈ s.docStore,
            (SearchQuery.term metadataSchemaParentDocIdKey rootDocId).selects doc = true :=
          fun doc hdoc => decide_eq_true (stringValue_of_holds (hs.roots doc hdoc))
        refine ⟨fun doc hdoc => owned_of_isolated hs hi hdoc (hselects doc hdoc), ?_⟩
        -- no document is left for a row that is not removed, and no row names the root
        refine List.eq_nil_iff_forall_not_mem.mpr fun row hrow => ?_
        obtain ⟨n, -, hparent⟩ := hs.parents vectorStoreId row hrow
        have hkept : (SearchQuery.term metadataSchemaParentDocIdKey rootDocId).selects row
            = false := by
          refine decide_eq_false fun hroot => ?_
          exact config.uuids.text_ne n rootDocId (c := 'R') (by decide) (by decide)
            (holds_of_stringValue hroot hparent)
        have hmem : row ∈ (s.removed vectorStoreId
            (.term metadataSchemaParentDocIdKey rootDocId)).vectorTables vectorStoreId := by
          simp only [RetrievalState.removed, Function.update_self, List.mem_filter, hkept]
          exact ⟨hrow, rfl⟩
        obtain ⟨doc, hdoc, -⟩ := hrows vectorStoreId row hmem
        obtain ⟨hdoc, hnot⟩ := mem_docStore_removed.mp hdoc
        rw [hselects doc hdoc] at hnot
        exact Bool.false_ne_true hnot.symm
    | cleanUp vectorStoreId fileIds =>
        obtain rfl := Option.some.inj hquery
        rintro doc hdoc ⟨fileId, hmem, hsource⟩
        refine owned_of_isolated hs hi hdoc ?_
        simp only [SearchQuery.selects, hsource, Option.any_some]
        exact List.contains_iff_mem.mpr hmem

end Isolation

/-- **Separate calls are isolated, and no others.**  In every state that separate calls reach,
every row of every vector table names a document that is present.  The next call changes
neither the documents of the other vector stores nor what their retrievers answer, and
leaves every row its document, exactly when it is separate. -/
theorem retriever_calls_isolated_iff (config : RetrieverConfig) {s : RetrievalState}
    (h : Runs (retrieverStep config) Separate {} s) :
    s.RowsHaveDocuments ∧
    ∀ call, Isolated config call.vectorStoreId s (call.exec config s).2 ∧
      (call.exec config s).2.RowsHaveDocuments ↔ Separate s call := by
  have hempty : ({} : RetrievalState).Formed config ∧ ({} : RetrievalState).Linked :=
    ⟨formed_empty, fun _ _ hrow => absurd hrow List.not_mem_nil⟩
  have hinv : s.Formed config ∧ s.Linked := by
    refine h.invariant (I := fun s => s.Formed config ∧ s.Linked)
      (fun s call s' hs hsep hstep => ?_) hempty
    obtain rfl := Option.some.inj hstep
    exact ⟨hs.1.step rfl, (separate_step hs.1 hs.2 hsep).1⟩
  refine ⟨hinv.2.rowsHaveDocuments, fun call => ⟨fun hcall => ?_, fun hsep => ?_⟩⟩
  · exact separate_of_isolated hinv.1 hcall.1 hcall.2
  · obtain ⟨hlinked, hisolated⟩ := separate_step hinv.1 hinv.2 hsep
    exact ⟨hisolated, hlinked.rowsHaveDocuments⟩

/-! ### A file of two vector stores -/

/-- UUIDs that count. -/
def countingUuids : UuidSource where
  text n := "00000000-0000-4000-8000-00000000000" ++ toString n
  injective := fun n m h => by
    have hdigits := congrArg String.toList ((String.append_right_inj _).mp h)
    rw [Nat.toString_eq_repr, Nat.toString_eq_repr, Nat.toList_repr, Nat.toList_repr] at hdigits
    exact Decimal.toDigits_injective hdigits
  chars := fun n c hc => by
    rw [String.toList_append, List.mem_append] at hc
    rcases hc with hc | hc
    · exact List.all_eq_true.mp
        (by decide : "00000000-0000-4000-8000-00000000000".toList.all isUuidChar = true) c hc
    · rw [Nat.toString_eq_repr, Nat.toList_repr] at hc
      have hdigit := Nat.isDigit_of_mem_toDigits (by decide) (by decide) hc
      rw [isUuidChar, hdigit, Bool.true_or]
  nonempty := fun n h => by
    have hempty := congrArg String.toList h
    rw [String.toList_append] at hempty
    exact absurd (List.append_eq_nil_iff.mp hempty).1 (by decide)

/-- A retriever that does not cut texts, and finds every row. -/
def wholeTexts : RetrieverConfig where
  uuids := countingUuids
  splitText text := [text]
  splitChildText text := [text]
  searchDocuments _ rows := .ok rows
  search_subset := fun _ rows found h => by
    obtain rfl := Except.ok.inj h
    exact List.Subset.refl _

/-- One file is ingested into two vector stores. -/
def sharedFile : List RetrieverCall :=
  [.ingestFile "vs_1" "file_1" "/tmp/a.txt" ["some text"] none,
    .ingestFile "vs_2" "file_1" "/tmp/a.txt" ["some text"] none]

/-- The stores with one file in two vector stores. -/
def sharedFileState : RetrievalState :=
  (RetrieverCall.ingestFile "vs_2" "file_1" "/tmp/a.txt" ["some text"] none).exec wholeTexts
    ((RetrieverCall.ingestFile "vs_1" "file_1" "/tmp/a.txt" ["some text"] none).exec wholeTexts
      {}).2 |>.2

theorem runs_sharedFileState : Runs (retrieverStep wholeTexts) Separate {} sharedFileState := by
  have hrun : execute (retrieverStep wholeTexts) sharedFile {} = some sharedFileState := rfl
  refine runs_of_execute (fun s l hl => ?_) hrun
  rcases List.mem_pair.mp hl with rfl | rfl
  · trivial
  · trivial

/-- The theorem at a file that two vector stores share. -/
theorem shared_file_isolated_iff : sharedFileState.RowsHaveDocuments ∧
    ∀ call, Isolated wholeTexts call.vectorStoreId sharedFileState
        (call.exec wholeTexts sharedFileState).2 ∧
      (call.exec wholeTexts sharedFileState).2.RowsHaveDocuments ↔
        Separate sharedFileState call :=
  retriever_calls_isolated_iff wholeTexts runs_sharedFileState

/-- When the background task cleans up a failed file of one vector store, the other loses
its documents as well. -/
theorem clean_up_not_isolated : ¬ ∀ s, Reaches (retrieverStep wholeTexts) {} s →
    s.RowsHaveDocuments ∧
    ∀ call : RetrieverCall, Isolated wholeTexts call.vectorStoreId s
      (call.exec wholeTexts s).2 := by
  intro h
  have hcall := (h sharedFileState runs_sharedFileState.reaches).2 (.cleanUp "vs_1" ["file_1"])
  have hdocs := hcall.documents "vs_2" (by decide)
  revert hdocs
  decide

end Instinct
