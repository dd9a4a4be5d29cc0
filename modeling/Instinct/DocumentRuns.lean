/-
Instinct/DocumentRuns.lean

A document store over whole runs of requests.

What a `BaseDuckDBStore` answers to additions, deletions by ids or by a filter, look-ups by ids
and counts is what a finite map from ids to documents answers, request after request
(`handleAll_refines`).  A document that has been added is read back with its content until its id
is deleted, or a filter that it satisfies deletes it, and no id is given twice.  No addition
fails, and the only call that does is a deletion of no ids.

This holds of documents that pass the check and are kept as they are, of ids that are UUIDs (the
texts of the statements take them as they are), and of filters that the text says as they are.
-/
import Instinct.StoredDocuments

namespace Instinct.DocumentRuns

open DuckDbStore StoredDocuments SqlConditions SqlBuilder

/-! ### The store -/

/-- What a store is made of besides its table. -/
structure StoreParts where
  api : AppenderApi
  db : DuckDb
  bypassUnknownFields : Bool
  embedDocuments : List (List Char) → List (List ℚ)
  uuids : Uuids

/-- The ids of `GenerateUUIDString`, from one of the calls on. -/
def idsFrom (uuids : Uuids) (used : Nat) : Uuids where
  next n := uuids.next (used + n)
  isUuid n := uuids.isUuid (used + n)

/-- The table, and how many ids have been generated. -/
structure DocStore where
  table : Table
  used : Nat

/-- The cells between the text and the metadata of one document. -/
def vectorCellsOfOne (parts : StoreParts) (dimension : Nat) (doc : Document) :
    Option (List Cell) :=
  if 0 < dimension then (parts.embedDocuments [doc.text]).head?.map fun v => [.vector v]
  else some []

/-- `AddDocument`, which does not catch what the row throws; none if it throws, after a
rollback. -/
def addDocument (parts : StoreParts) (uuids : Uuids) (table : Table) (doc : Document) :
    Option (Table × Document) :=
  (vectorCellsOfOne parts table.dimension doc).bind fun vectorCells =>
    (appendRow parts.api table.schema parts.bypassUnknownFields
        { columns := columnTypes table.dimension table.schema }
        { newId := uuids.next 0, vectorCells, doc }).bind fun (a, ended) =>
      if ended then
        (parts.api.close a).bind fun written =>
          (written.mapM (storedRow table.dimension)).bind fun stored =>
            (insertRows table stored).map (·, { doc with id := uuids.next 0 })
      else none

/-- The rows that a `DELETE` leaves. -/
def deleteRows (table : Table) (gone : StoredRow → Bool) : Table :=
  { table with
    rows := table.rows.filter fun row => !gone row
    ids_nodup := table.ids_nodup.sublist (List.filter_sublist.map _)
    ids_uuid := fun row hrow => table.ids_uuid row (List.mem_of_mem_filter hrow)
    typed := fun row hrow => table.typed row (List.mem_of_mem_filter hrow) }

inductive Request
  | addDocuments (docs : List Document)
  | addDocument (doc : Document)
  | deleteDocuments (ids : List (List Char))
  /-- `DeleteDocuments` with a filter, the query of which may be unset. -/
  | deleteMatching (filter : Option SearchQuery)
  | multiGetDocuments (ids : List (List Char))
  | countDocuments

/-- The documents that a request adds. -/
def Request.docs : Request → List Document
  | .addDocuments docs => docs
  | .addDocument doc => [doc]
  | _ => []

inductive Response
  | failed
  | updated (result : UpdateResult)
  | added (doc : Document)
  | documents (docs : List Document)
  | count (n : Nat)

/-- The result of a `DELETE`. -/
def deletedResult (ids : List (List Char)) (table : Table) (gone : StoredRow → Bool) :
    UpdateResult where
  returnedIds := ids
  failedDocuments := []
  affectedRows := (table.rows.filter gone).length

/-- What a `DELETE` with such a condition, or without, comes to. -/
def DocStore.deleteWhere (parts : StoreParts) (store : DocStore) (ids : List (List Char))
    (condition : Option (List Char)) : Response × DocStore :=
  match condition.elim (some fun _ => true) (parts.db.selects store.table) with
  | some gone => (.updated (deletedResult ids store.table gone),
      { store with table := deleteRows store.table gone })
  | none => (.failed, store)

/-- One request. -/
def DocStore.handle (parts : StoreParts) (store : DocStore) : Request → Response × DocStore
  | .addDocuments docs =>
      match addDocuments parts.api parts.bypassUnknownFields parts.embedDocuments
        (idsFrom parts.uuids store.used) store.table docs with
      | some (table, result) => (.updated result, ⟨table, store.used + docs.length⟩)
      | none => (.failed, { store with used := store.used + docs.length })
  | .addDocument doc =>
      match addDocument parts (idsFrom parts.uuids store.used) store.table doc with
      | some (table, doc) => (.added doc, ⟨table, store.used + 1⟩)
      | none => (.failed, { store with used := store.used + 1 })
  | .deleteDocuments ids =>
      if ids = [] then (.failed, store)
      else store.deleteWhere parts ids (deleteCondition ids)
  | .deleteMatching filter => store.deleteWhere parts [] (filter.map buildSearchQuery)
  | .multiGetDocuments ids =>
      match DuckDbStore.multiGetDocuments parts.db store.table ids with
      | some docs => (.documents docs, store)
      | none => (.failed, store)
  | .countDocuments => (.count store.table.rows.length, store)

/-- Requests one after the other. -/
def DocStore.handleAll (parts : StoreParts) : DocStore → List Request → List Response × DocStore
  | store, [] => ([], store)
  | store, request :: requests =>
      let (response, next) := store.handle parts request
      let (responses, last) := DocStore.handleAll parts next requests
      (response :: responses, last)

/-! ### Documents by their ids -/

/-- A finite map from ids to documents. -/
abbrev Shelf := List (List Char × Document)

def Shelf.ids (shelf : Shelf) : List (List Char) := shelf.map Prod.fst

/-- The value of a column as SQL compares it, a boolean by 1 and 0. -/
def sqlValue : Value → SqlValue
  | .int value => .number value.toInt
  | .long value => .number value.toInt
  | .float value => .number value
  | .double value => .number value
  | .bool value => if value then .number 1 else .number 0
  | .string value => .text value
  | .bytes _ => .text []

/-- The columns of a document, by their names. -/
def columns (schema : List FieldSchema) (id : List Char) (doc : Document) : SqlConditions.Row :=
  fun name =>
    if name = "id".toList then .text id
    else if name = "text".toList then .text doc.text
    else if schema.any (·.name = name) then (fieldValue doc name).join.elim (.text []) sqlValue
    else .text []

/-- What a filter asks of an entry.  Without a query, nothing. -/
def asked (schema : List FieldSchema) (filter : Option SearchQuery)
    (entry : List Char × Document) : Bool :=
  filter.elim true fun query => query.meaning (columns schema entry.1 entry.2)

/-- What is answered from a shelf, and the shelf behind it. -/
inductive Answers (schema : List FieldSchema) : Shelf → Request → Response → Shelf → Prop
  | added {shelf docs ids} : ids.length = docs.length → (Shelf.ids shelf ++ ids).Nodup →
      Answers schema shelf (.addDocuments docs)
        (.updated { returnedIds := ids, failedDocuments := [], affectedRows := docs.length })
        (shelf ++ ids.zip docs)
  | addedOne {shelf doc id} : (Shelf.ids shelf ++ [id]).Nodup →
      Answers schema shelf (.addDocument doc) (.added { doc with id }) (shelf ++ [(id, doc)])
  | deleted {shelf ids} : ids ≠ [] → Answers schema shelf (.deleteDocuments ids)
      (.updated { returnedIds := ids, failedDocuments := [],
                  affectedRows := (shelf.filter fun e => e.1 ∈ ids).length })
      (shelf.filter fun e => e.1 ∉ ids)
  | deletedNothing {shelf} : Answers schema shelf (.deleteDocuments []) .failed shelf
  | deletedMatching {shelf filter} : Answers schema shelf (.deleteMatching filter)
      (.updated { returnedIds := [], failedDocuments := [],
                  affectedRows := (shelf.filter (asked schema filter)).length })
      (shelf.filter fun e => !asked schema filter e)
  | found {shelf ids entries docs} : entries.Perm (shelf.filter fun e => e.1 ∈ ids) →
      List.Forall₂ (fun e doc => doc.id = e.1 ∧ SameContent schema e.2 doc) entries docs →
      Answers schema shelf (.multiGetDocuments ids) (.documents docs) shelf
  | counted {shelf} : Answers schema shelf .countDocuments (.count shelf.length) shelf

/-- A run of requests on a shelf. -/
inductive Runs (schema : List FieldSchema) :
    Shelf → List Request → List Response → Shelf → Prop
  | nil {shelf} : Runs schema shelf [] [] shelf
  | cons {shelf next last request requests response responses} :
      Answers schema shelf request response next → Runs schema next requests responses last →
      Runs schema shelf (request :: requests) (response :: responses) last

/-! ### What is asked of the requests -/

section Suited

variable (parts : StoreParts) (schema : List FieldSchema)

/-- What may be added: documents that pass the check and are kept as they are. -/
def Accepted (doc : Document) : Prop :=
  checkMetadata schema parts.bypassUnknownFields doc = true ∧ Kept parts.api schema doc

/-- The database takes a text for the condition that it is parsed to. -/
def TakenAsParsed (text : List Char) : Prop :=
  ∀ table : Table, table.schema = schema →
    (∀ row ∈ table.rows, ∀ value ∈ row.metadata, value ≠ none) →
    ∀ condition, parse text = some condition →
      ∃ selected, parts.db.selects table text = some selected ∧ ∀ row ∈ table.rows,
        selected row = condition.eval (columns schema row.id (table.document row))

/-- A query that the text says as it is, and that the database takes as it is said. -/
structure Understood (query : SearchQuery) : Prop where
  filled : query.Everywhere SearchQuery.IsFilled
  readable : query.Everywhere SearchQuery.IsReadable
  exact : query.Everywhere SearchQuery.IsExact
  taken : TakenAsParsed parts schema (buildSearchQuery query)

/-- Documents that are accepted, ids that are UUIDs, and filters that are understood. -/
def Request.Suited : Request → Prop
  | .addDocuments docs => ∀ doc ∈ docs, Accepted parts schema doc
  | .addDocument doc => Accepted parts schema doc
  | .deleteDocuments ids => ∀ id ∈ ids, IsUuid id
  | .deleteMatching filter => ∀ query ∈ filter, Understood parts schema query
  | .multiGetDocuments ids => ∀ id ∈ ids, IsUuid id
  | .countDocuments => True

/-- The model gives a vector of the dimension for each text, where the store has vectors. -/
def Embeds (dimension : Nat) : Prop :=
  0 < dimension → ∀ texts, (parts.embedDocuments texts).length = texts.length
    ∧ ∀ v ∈ parts.embedDocuments texts, v.length = dimension

end Suited

/-! ### The table holds the documents -/

/-- A row is read back as the document of an entry. -/
structure Holds (schema : List FieldSchema) (row : StoredRow) (entry : List Char × Document) :
    Prop where
  id_eq : row.id = entry.1
  values : ∀ value ∈ row.metadata, value ≠ none
  same : SameContent schema entry.2
    { id := row.id, text := row.text, metadata := ownItems schema row.metadata }

/-- **The invariant**: the rows hold the entries, the ids of which have been generated. -/
structure Matches (parts : StoreParts) (schema : List FieldSchema) (dimension : Nat)
    (store : DocStore) (shelf : Shelf) : Prop where
  schema_eq : store.table.schema = schema
  dimension_eq : store.table.dimension = dimension
  rows : List.Forall₂ (Holds schema) store.table.rows shelf
  issued : ∀ id ∈ shelf.ids, ∃ n < store.used, id = parts.uuids.next n

section Matches

variable {parts : StoreParts} {schema : List FieldSchema} {dimension : Nat} {store : DocStore}
  {shelf : Shelf} {table : Table}

theorem ids_of_forall₂ {rows : List StoredRow} (h : List.Forall₂ (Holds schema) rows shelf) :
    rows.map (·.id) = shelf.ids := by
  induction h with
  | nil => rfl
  | cons hfirst _ ih => exact congr (congrArg List.cons hfirst.id_eq) ih

/-- Rows and entries with some property. -/
theorem forall₂_filter {rows : List StoredRow} (h : List.Forall₂ (Holds schema) rows shelf)
    {p : StoredRow → Bool} {q : List Char × Document → Bool}
    (hpq : ∀ row ∈ rows, ∀ e ∈ shelf, Holds schema row e → p row = q e) :
    List.Forall₂ (Holds schema) (rows.filter p) (shelf.filter q) := by
  induction h with
  | nil => exact .nil
  | @cons row e rows shelf hfirst _ ih =>
      have hrest := ih fun row hrow e he => hpq row (List.mem_cons_of_mem _ hrow) e
        (List.mem_cons_of_mem _ he)
      have hsame := hpq row List.mem_cons_self e List.mem_cons_self hfirst
      rw [List.filter_cons, List.filter_cons, hsame]
      split
      · exact .cons hfirst hrest
      · exact hrest

theorem Matches.values (h : Matches parts schema dimension store shelf) :
    ∀ row ∈ store.table.rows, ∀ value ∈ row.metadata, value ≠ none := by
  intro row hrow
  obtain ⟨n, hn, rfl⟩ := List.getElem_of_mem hrow
  exact (h.rows.get hn (h.rows.length_eq ▸ hn)).values

/-- Ids that have not been generated before are new. -/
theorem nodup_concat (h : Matches parts schema dimension store shelf) {count : Nat}
    (hdistinct : parts.uuids.DistinctUpTo (store.used + count)) :
    (shelf.ids ++ (List.range count).map (idsFrom parts.uuids store.used).next).Nodup := by
  have heq : ∀ m < store.used + count, ∀ n < store.used + count,
      parts.uuids.next m = parts.uuids.next n → m = n := fun m hm n hn =>
    List.inj_on_of_nodup_map hdistinct (List.mem_range.mpr hm) (List.mem_range.mpr hn)
  rw [List.nodup_append]
  refine ⟨?_, ?_, fun id hid id' hid' hsame => ?_⟩
  · rw [← ids_of_forall₂ h.rows]
    exact store.table.ids_nodup
  · apply List.Nodup.map_on _ List.nodup_range
    intro m hm n hn hnext
    have hlater := heq _ (Nat.add_lt_add_left (List.mem_range.mp hm) _) _
      (Nat.add_lt_add_left (List.mem_range.mp hn) _) hnext
    exact Nat.add_left_cancel hlater
  · obtain ⟨m, hm, rfl⟩ := h.issued id hid
    obtain ⟨n, hn, rfl⟩ := List.mem_map.mp hid'
    have hn := List.mem_range.mp hn
    have hlater := heq m (Nat.lt_add_right _ hm) _ (Nat.add_lt_add_left hn _) hsame
    omega

/-- Rows and entries are taken away side by side. -/
theorem matches_deleteRows (h : Matches parts schema dimension store shelf)
    {gone : StoredRow → Bool} {left : List Char × Document → Bool}
    (hsame : ∀ row ∈ store.table.rows, ∀ e ∈ shelf, Holds schema row e → left e = !gone row) :
    Matches parts schema dimension { store with table := deleteRows store.table gone }
      (shelf.filter left) where
  schema_eq := h.schema_eq
  dimension_eq := h.dimension_eq
  rows := forall₂_filter h.rows fun row hrow e he hholds => (hsame row hrow e he hholds).symm
  issued id hid := by
    obtain ⟨e, he, rfl⟩ := List.mem_map.mp hid
    exact h.issued _ (List.mem_map_of_mem (List.mem_of_mem_filter he))

/-- As many rows as entries go. -/
theorem deletedResult_eq (h : Matches parts schema dimension store shelf) (ids : List (List Char))
    {gone : StoredRow → Bool} {p : List Char × Document → Bool}
    (hsame : ∀ row ∈ store.table.rows, ∀ e ∈ shelf, Holds schema row e → gone row = p e) :
    deletedResult ids store.table gone
      = { returnedIds := ids, failedDocuments := [], affectedRows := (shelf.filter p).length } := by
  rw [deletedResult, (forall₂_filter h.rows hsame).length_eq]

end Matches

/-! ### Rows that are stored -/

section Stored

variable {api : AppenderApi} {schema : List FieldSchema} {dimension : Nat} {doc : Document}
  {row : NewRow} {rows : List NewRow} {a : Appender} {bypassUnknownFields : Bool} {table : Table}

/-- A row that can be stored: with a UUID, a vector of the dimension where there are vectors, and
a document that is kept. -/
structure Storable (api : AppenderApi) (schema : List FieldSchema) (dimension : Nat)
    (row : NewRow) : Prop where
  isUuid : IsUuid row.newId
  vector : IsVectorCells dimension (·.length = dimension) row.vectorCells
  kept : Kept api schema row.doc

/-- The cells and the stored row that a row comes to. -/
structure StoredAs (api : AppenderApi) (schema : List FieldSchema) (dimension : Nat)
    (row : NewRow) (entry : List Cell × StoredRow) : Prop
    extends Storable api schema dimension row where
  cast : castRow api (columnTypes dimension schema) (rowCells schema row) = some entry.1
  length_eq : entry.1.length = (columnTypes dimension schema).length
  stored : storedRow dimension entry.1 = some entry.2
  stores : Stores api schema row entry.2
  typed : List.Forall₂ (fun field value => ∀ v ∈ value, Value.type v = some field.type) schema
    entry.2.metadata

/-- The cells of the metadata are values of the types of their columns. -/
theorem exists_metadata (h : Kept api schema doc) :
    ∃ values : List Value,
      castRow api (schema.map fun field => .field field.type) (metadataCells schema doc)
        = some (values.map .value)
      ∧ List.Forall₂ (fun field value => Value.type value = some field.type) schema values := by
  obtain ⟨-, hfields⟩ := h
  induction schema with
  | nil => exact ⟨[], rfl, .nil⟩
  | cons field schema ih =>
      obtain ⟨hfirst, hrest⟩ := List.forall_mem_cons.mp hfields
      obtain ⟨values, hvalues, htyped⟩ := ih hrest
      obtain ⟨value, item, cell, -, hitem, hcell, hcast⟩ := hfirst
      refine ⟨value :: values, ?_, .cons (api.cast_typed _ _ _ hcast) htyped⟩
      rw [metadataCells, List.flatMap_cons, hitem, Option.elim_some, hcell, List.singleton_append,
        List.map_cons, List.map_cons, castRow_cons]
      exact ⟨_, _, hcast, hvalues, rfl⟩

/-- Cells of a vector of the dimension go in as they are. -/
theorem castRow_vectorCells {columns : List ColumnType} {cells rest stored : List Cell}
    (h : IsVectorCells dimension (·.length = dimension) cells)
    (hrest : castRow api columns rest = some stored) :
    castRow api ((if 0 < dimension then [.vector dimension] else []) ++ columns) (cells ++ rest)
      = some (cells ++ stored) := by
  unfold IsVectorCells at h
  split at h
  · rename_i hpos
    obtain ⟨v, hv, rfl⟩ := h
    rw [if_pos hpos]
    exact castRow_cons.mpr ⟨_, _, api.cast_vector _ v hv, hrest, rfl⟩
  · rename_i hzero
    rw [if_neg hzero, h]
    exact hrest

theorem exists_storedRow {cells : List Cell} {isVector : List ℚ → Prop} (id text : List Char)
    (h : IsVectorCells dimension isVector cells) (values : List Value) :
    ∃ vector, storedRow dimension
        (.value (.string id) :: .value (.string text) :: (cells ++ values.map .value))
      = some { id, text, vector, metadata := values.map some } := by
  have hcolumns : (values.map Cell.value).mapM columnValue = some (values.map some) := by
    rw [mapM_eq_some_iff, List.forall₂_map_left_iff, List.forall₂_map_right_iff, List.forall₂_same]
    exact fun value _ => rfl
  unfold IsVectorCells at h
  split at h
  · rename_i hpos
    obtain ⟨v, -, rfl⟩ := h
    refine ⟨v, ?_⟩
    simp only [storedRow, if_pos hpos, List.cons_append, List.nil_append, hcolumns, Option.map_some]
  · rename_i hzero
    refine ⟨[], ?_⟩
    simp only [storedRow, if_neg hzero, h, List.nil_append, hcolumns, Option.map_some]

/-- **A row that can be stored is stored.** -/
theorem exists_storedAs (h : Storable api schema dimension row) :
    ∃ entry, StoredAs api schema dimension row entry := by
  obtain ⟨values, hvalues, htyped⟩ := exists_metadata h.kept
  have hid : api.cast .uuid (.value (.string (cString row.newId)))
      = some (.value (.string row.newId)) := by
    rw [cString_of_isUuid h.isUuid]
    exact api.cast_uuid _ h.isUuid
  have hcast : castRow api (columnTypes dimension schema) (rowCells schema row)
      = some (.value (.string row.newId) :: .value (.string (cString row.doc.text))
        :: (row.vectorCells ++ values.map .value)) := by
    rw [rowCells, columnTypes]
    refine castRow_cons.mpr ⟨_, _, hid, castRow_cons.mpr ⟨_, _, api.cast_text _, ?_, rfl⟩, rfl⟩
    exact castRow_vectorCells h.vector hvalues
  have hlength := length_castRow hcast
  have hcolumns : (rowCells schema row).length = (columnTypes dimension schema).length := by
    have hfields := length_castRow hvalues
    rw [List.length_map, ← htyped.length_eq] at hfields
    have hvector := h.vector
    unfold IsVectorCells at hvector
    unfold rowCells columnTypes
    split at hvector
    · rename_i hpos
      obtain ⟨v, -, hcells⟩ := hvector
      simp [hpos, hcells, hfields]
    · rename_i hzero
      simp [hzero, hvector, hfields]
  obtain ⟨vector, hstored⟩ := exists_storedRow row.newId (cString row.doc.text) h.vector values
  refine ⟨(_, _), h, hcast, hlength.trans hcolumns, hstored, ?_, ?_⟩
  · exact stores_of_castRow h.isUuid h.vector hcast (hlength.trans hcolumns) hstored
  · rw [List.forall₂_map_right_iff]
    refine htyped.imp fun field value htype v hv => ?_
    rwa [← Option.some.inj hv]

/-- Rows that can be stored, one after the other. -/
theorem exists_allStored (h : ∀ row ∈ rows, Storable api schema dimension row) :
    ∃ entries, List.Forall₂ (StoredAs api schema dimension) rows entries := by
  induction rows with
  | nil => exact ⟨[], .nil⟩
  | cons row rows ih =>
      obtain ⟨hrow, hrows⟩ := List.forall_mem_cons.mp h
      obtain ⟨entry, hentry⟩ := exists_storedAs hrow
      obtain ⟨entries, hentries⟩ := ih hrows
      exact ⟨entry :: entries, .cons hentry hentries⟩

/-- A row of a document that passes the check is appended as it is cast. -/
theorem appendRow_eq {cells : List Cell} (hpending : a.pending = [])
    (hcheck : checkMetadata schema bypassUnknownFields row.doc = true)
    (hcast : castRow api a.columns (rowCells schema row) = some cells)
    (hlength : cells.length = a.columns.length) :
    appendRow api schema bypassUnknownFields a row
      = some ({ a with pending := [], rows := a.rows ++ [cells] }, true) := by
  have hall : appendAll api a (rowCells schema row) = some { a with pending := cells } := by
    rw [appendAll_eq, hpending, List.length_nil, List.drop_zero, hcast]
    rfl
  rw [rowCells, appendAll_append] at hall
  obtain ⟨begun, hbegun, hmetadata⟩ := Option.bind_eq_some_iff.mp hall
  rw [appendRow, hbegun, Option.bind_some, if_pos hcheck, hmetadata, Option.bind_some, endRow,
    if_pos hlength]
  rfl

/-- Rows of documents that pass the check are appended one behind the other. -/
theorem appendRows_eq {entries : List (List Cell × StoredRow)}
    (hcolumns : a.columns = columnTypes dimension schema) (hpending : a.pending = [])
    (hchecks : ∀ row ∈ rows, checkMetadata schema bypassUnknownFields row.doc = true)
    (h : List.Forall₂ (StoredAs api schema dimension) rows entries) :
    appendRows api schema bypassUnknownFields a rows
      = some ({ a with pending := [], rows := a.rows ++ entries.map (·.1) },
          { returnedIds := rows.map (·.newId), failedDocuments := [],
            affectedRows := rows.length }) := by
  induction h generalizing a with
  | nil =>
      rw [appendRows, List.map_nil, List.append_nil, ← hpending]
      rfl
  | @cons row entry rows entries hfirst _ ih =>
      obtain ⟨hcheck, hchecks⟩ := List.forall_mem_cons.mp hchecks
      have hrow := appendRow_eq hpending hcheck (hcolumns ▸ hfirst.cast)
        (hcolumns ▸ hfirst.length_eq)
      have hrest := @ih { a with pending := [], rows := a.rows ++ [entry.1] } hcolumns rfl hchecks
      rw [appendRows, hrow, Option.bind_some]
      dsimp only
      rw [hrest, Option.map_some, List.append_assoc, List.length_cons, Nat.add_comm rows.length]
      rfl

theorem mapM_storedRow {entries : List (List Cell × StoredRow)}
    (h : List.Forall₂ (StoredAs api schema dimension) rows entries) :
    (entries.map (·.1)).mapM (storedRow dimension) = some (entries.map (·.2)) := by
  rw [mapM_eq_some_iff, List.forall₂_map_left_iff, List.forall₂_map_right_iff, List.forall₂_same]
  induction h with
  | nil => exact List.forall_mem_nil _
  | cons hfirst _ ih => exact List.forall_mem_cons.mpr ⟨hfirst.stored, ih⟩

/-- What is stored keeps the constraints of the table on its own. -/
theorem constraints_of_storedAs {entries : List (List Cell × StoredRow)}
    (h : List.Forall₂ (StoredAs api schema dimension) rows entries) :
    ∀ st ∈ entries.map (·.2), IsUuid st.id ∧ List.Forall₂
      (fun field value => ∀ v ∈ value, Value.type v = some field.type) schema st.metadata := by
  induction h with
  | nil => exact List.forall_mem_nil _
  | cons hfirst _ ih =>
      refine List.forall_mem_cons.mpr ⟨⟨?_, hfirst.typed⟩, ih⟩
      rw [hfirst.stores.id_eq]
      exact hfirst.isUuid

/-- The rows go into the table, if their ids are new. -/
theorem exists_insertRows {stored : List StoredRow}
    (hids : ((table.rows ++ stored).map (·.id)).Nodup)
    (hrows : ∀ st ∈ stored, IsUuid st.id ∧ List.Forall₂
      (fun field value => ∀ v ∈ value, Value.type v = some field.type) table.schema st.metadata) :
    ∃ table', insertRows table stored = some table' ∧ table'.schema = table.schema
      ∧ table'.dimension = table.dimension ∧ table'.rows = table.rows ++ stored := by
  unfold insertRows
  rw [dif_pos hids, dif_pos hrows]
  exact ⟨_, rfl, rfl, rfl, rfl⟩

/-- Stored rows hold their documents. -/
theorem holds_of_storedAs {entries : List (List Cell × StoredRow)}
    (h : List.Forall₂ (StoredAs api table.schema dimension) rows entries)
    (hmem : ∀ st ∈ entries.map (·.2), st ∈ table.rows) :
    List.Forall₂ (Holds table.schema) (entries.map (·.2))
      (rows.map fun row => (row.newId, row.doc)) := by
  induction h with
  | nil => exact .nil
  | cons hfirst _ ih =>
      obtain ⟨hst, hrest⟩ := List.forall_mem_cons.mp hmem
      obtain ⟨hvalues, hsame⟩ := (reads_iff_kept hst hfirst.stores).mpr hfirst.kept
      exact .cons ⟨hfirst.stores.id_eq, hvalues, hsame⟩ (ih hrest)

end Stored

/-! ### Additions -/

section Additions

variable {parts : StoreParts} {schema : List FieldSchema} {dimension : Nat} {store : DocStore}
  {shelf : Shelf} {docs : List Document} {doc : Document} {rows : List NewRow}

/-- **New rows go behind the entries.** -/
theorem matches_insertRows (h : Matches parts schema dimension store shelf)
    (hrows : ∀ row ∈ rows, Storable parts.api schema dimension row)
    (hids : rows.map (·.newId)
      = (List.range rows.length).map (idsFrom parts.uuids store.used).next)
    (hdistinct : parts.uuids.DistinctUpTo (store.used + rows.length)) :
    ∃ entries table, List.Forall₂ (StoredAs parts.api schema dimension) rows entries
      ∧ insertRows store.table (entries.map (·.2)) = some table
      ∧ (shelf.ids ++ rows.map (·.newId)).Nodup
      ∧ Matches parts schema dimension ⟨table, store.used + rows.length⟩
        (shelf ++ rows.map fun row => (row.newId, row.doc)) := by
  obtain ⟨entries, hentries⟩ := exists_allStored hrows
  have hnodup : (shelf.ids ++ rows.map (·.newId)).Nodup := by
    rw [hids]
    exact nodup_concat h hdistinct
  have hnewIds : (entries.map (·.2)).map (·.id) = rows.map (·.newId) := by
    rw [List.map_map, ← List.forall₂_eq_eq_eq, List.forall₂_map_left_iff,
      List.forall₂_map_right_iff]
    exact hentries.flip.imp fun entry row hst => hst.stores.id_eq
  have hall : ((store.table.rows ++ entries.map (·.2)).map (·.id)).Nodup := by
    rw [List.map_append, ids_of_forall₂ h.rows, hnewIds]
    exact hnodup
  have hconstraints := constraints_of_storedAs hentries
  rw [← h.schema_eq] at hconstraints
  obtain ⟨table, hinsert, hschema, hdimension, htable⟩ := exists_insertRows hall hconstraints
  rw [h.schema_eq] at hschema
  rw [h.dimension_eq] at hdimension
  refine ⟨entries, table, hentries, hinsert, hnodup, hschema, hdimension, ?_, fun id hid => ?_⟩
  · show List.Forall₂ (Holds schema) table.rows _
    subst hschema
    rw [htable]
    apply List.rel_append h.rows
    apply holds_of_storedAs hentries
    intro st hst
    rw [htable]
    exact List.mem_append_right _ hst
  · rw [Shelf.ids, List.map_append, List.map_map] at hid
    rcases List.mem_append.mp hid with hid | hid
    · obtain ⟨n, hn, rfl⟩ := h.issued id hid
      exact ⟨n, Nat.lt_add_right _ hn, rfl⟩
    · have hid : id ∈ rows.map (·.newId) := hid
      rw [hids] at hid
      obtain ⟨n, hn, rfl⟩ := List.mem_map.mp hid
      exact ⟨store.used + n, Nat.add_lt_add_left (List.mem_range.mp hn) _, rfl⟩

/-- A vector for each document, so that there is a row for each. -/
theorem exists_newRows (hembeds : Embeds parts dimension) (uuids : Uuids)
    (haccepted : ∀ doc ∈ docs, Accepted parts schema doc) :
    ∃ rows, newRows dimension parts.embedDocuments uuids docs = some rows
      ∧ ∀ row ∈ rows, Storable parts.api schema dimension row := by
  have hlength : (vectorCellsOf dimension parts.embedDocuments docs).length = docs.length := by
    unfold vectorCellsOf
    split
    · rename_i hpos
      rw [List.length_map, (hembeds hpos _).1, List.length_map]
    · exact List.length_map _
  obtain ⟨rows, hrows⟩ : ∃ rows, newRows dimension parts.embedDocuments uuids docs = some rows :=
    ⟨_, if_pos hlength⟩
  obtain ⟨rfl, hvector⟩ := newRows_spec hrows
  refine ⟨rows, hrows, fun row hrow => ⟨isUuid_of_newRows hrows hrow, ?_, ?_⟩⟩
  · have hcells := vectorCells_of_mem (hvector row hrow)
    unfold IsVectorCells at hcells ⊢
    split at hcells
    · rename_i hpos
      obtain ⟨v, hv, hcells⟩ := hcells
      rw [if_pos hpos]
      exact ⟨v, (hembeds hpos _).2 v hv, hcells⟩
    · rename_i hzero
      rw [if_neg hzero]
      exact hcells
  · exact (haccepted _ (List.mem_map_of_mem hrow)).2

/-- **`AddDocuments` puts all documents behind the entries.** -/
theorem matches_addDocuments (h : Matches parts schema dimension store shelf)
    (hembeds : Embeds parts dimension)
    (haccepted : ∀ doc ∈ docs, Accepted parts schema doc)
    (hdistinct : parts.uuids.DistinctUpTo (store.used + docs.length)) :
    ∃ table ids, ids.length = docs.length ∧ (shelf.ids ++ ids).Nodup
      ∧ addDocuments parts.api parts.bypassUnknownFields parts.embedDocuments
        (idsFrom parts.uuids store.used) store.table docs
        = some (table, { returnedIds := ids, failedDocuments := [], affectedRows := docs.length })
      ∧ Matches parts schema dimension ⟨table, store.used + docs.length⟩
        (shelf ++ ids.zip docs) := by
  obtain ⟨rows, hnew, hstorable⟩ := exists_newRows hembeds (idsFrom parts.uuids store.used)
    haccepted
  have hids := newIds_of_newRows hnew
  obtain ⟨rfl, -⟩ := newRows_spec hnew
  rw [List.length_map] at hids hdistinct
  obtain ⟨entries, table, hentries, hinsert, hnodup, hmatches⟩ :=
    matches_insertRows h hstorable hids hdistinct
  refine ⟨table, rows.map (·.newId), ?_, hnodup, ?_, ?_⟩
  · rw [List.length_map, List.length_map]
  · have hchecks : ∀ row ∈ rows, checkMetadata schema parts.bypassUnknownFields row.doc = true :=
      fun row hrow => (haccepted _ (List.mem_map_of_mem hrow)).1
    rw [addDocuments, h.dimension_eq, h.schema_eq, hnew, Option.bind_some,
      appendRows_eq rfl rfl hchecks hentries, Option.bind_some]
    dsimp only
    rw [AppenderApi.close, if_pos rfl, Option.bind_some, List.nil_append, mapM_storedRow hentries,
      Option.bind_some, hinsert, Option.map_some, List.length_map]
  · rw [List.zip_map', List.length_map]
    exact hmatches

/-- **So does `AddDocument`** with its document. -/
theorem matches_addDocument (h : Matches parts schema dimension store shelf)
    (hembeds : Embeds parts dimension) (haccepted : Accepted parts schema doc)
    (hdistinct : parts.uuids.DistinctUpTo (store.used + 1)) :
    ∃ table id, (shelf.ids ++ [id]).Nodup
      ∧ addDocument parts (idsFrom parts.uuids store.used) store.table doc
        = some (table, { doc with id })
      ∧ Matches parts schema dimension ⟨table, store.used + 1⟩ (shelf ++ [(id, doc)]) := by
  obtain ⟨vectorCells, hcells, hvector⟩ : ∃ cells, vectorCellsOfOne parts dimension doc = some cells
      ∧ IsVectorCells dimension (·.length = dimension) cells := by
    unfold vectorCellsOfOne IsVectorCells
    split
    · rename_i hpos
      obtain ⟨hlength, hvectors⟩ := hembeds hpos [doc.text]
      obtain ⟨v, hv⟩ := List.length_eq_one_iff.mp hlength
      rw [hv] at hvectors ⊢
      exact ⟨_, rfl, v, hvectors v (List.mem_singleton_self v), rfl⟩
    · exact ⟨[], rfl, rfl⟩
  let row : NewRow := { newId := (idsFrom parts.uuids store.used).next 0, vectorCells, doc }
  have hstorable : ∀ r ∈ [row], Storable parts.api schema dimension r :=
    List.forall_mem_singleton.mpr
      ⟨(idsFrom parts.uuids store.used).isUuid 0, hvector, haccepted.2⟩
  obtain ⟨entries, table, hentries, hinsert, hnodup, hmatches⟩ :=
    matches_insertRows h hstorable rfl hdistinct
  refine ⟨table, row.newId, hnodup, ?_, hmatches⟩
  have hstored := mapM_storedRow hentries
  cases hentries with
  | cons hentry hnil =>
      cases hnil
      rw [addDocument, h.dimension_eq, h.schema_eq, hcells, Option.bind_some,
        appendRow_eq rfl haccepted.1 hentry.cast hentry.length_eq, Option.bind_some]
      dsimp only
      rw [if_pos rfl, AppenderApi.close, if_pos rfl, Option.bind_some, List.nil_append]
      exact (congrArg (Option.bind · _) hstored).trans (congrArg (Option.map _) hinsert)

end Additions

/-! ### Deletions and look-ups -/

section Requests

variable {parts : StoreParts} {schema : List FieldSchema} {dimension : Nat} {store : DocStore}
  {shelf : Shelf}

theorem columns_congr {doc found : Document} (h : SameContent schema doc found) (id : List Char) :
    columns schema id found = columns schema id doc := by
  funext name
  unfold columns
  rw [h.1]
  by_cases hname : schema.any (·.name = name) = true
  · obtain ⟨field, hfield, hsame⟩ := List.any_eq_true.mp hname
    obtain rfl := of_decide_eq_true hsame
    rw [h.2 field hfield]
  · rw [if_neg hname, if_neg hname]

/-- The text of a query that is understood is a condition that says what the query asks. -/
theorem exists_condition {query : SearchQuery} (h : Understood parts schema query) :
    ∃ condition, parse (buildSearchQuery query) = some condition
      ∧ ∀ row, condition.eval row = query.meaning row := by
  have hparse : ∀ row, (parse (buildSearchQuery query)).map (·.eval row)
      = some (query.meaning row) := by
    intro row
    rw [(readsAs_buildSearchQuery h.filled h.readable).parse, all_conjuncts h.exact]
  obtain ⟨condition, hcondition, -⟩ :=
    Option.map_eq_some_iff.mp (hparse (columns schema [] ⟨[], [], []⟩))
  refine ⟨condition, hcondition, fun row => ?_⟩
  have hrow := hparse row
  rw [hcondition, Option.map_some] at hrow
  exact Option.some.inj hrow

theorem used_deleteWhere (ids : List (List Char)) (condition : Option (List Char)) :
    (store.deleteWhere parts ids condition).2.used = store.used := by
  unfold DocStore.deleteWhere
  split <;> rfl

/-- A condition that is true for the rows of some entries takes these away. -/
theorem deleteWhere_refines (h : Matches parts schema dimension store shelf)
    (ids : List (List Char)) (condition : Option (List Char)) (p : List Char × Document → Bool)
    (hselects : ∃ selected, condition.elim (some fun _ => true) (parts.db.selects store.table)
        = some selected
      ∧ ∀ row ∈ store.table.rows, ∀ e ∈ shelf, Holds schema row e → selected row = p e) :
    (store.deleteWhere parts ids condition).1 = .updated
        { returnedIds := ids, failedDocuments := [], affectedRows := (shelf.filter p).length }
      ∧ Matches parts schema dimension (store.deleteWhere parts ids condition).2
        (shelf.filter fun e => !p e) := by
  obtain ⟨selected, hselected, hsame⟩ := hselects
  unfold DocStore.deleteWhere
  rw [hselected]
  refine ⟨congrArg Response.updated (deletedResult_eq h ids hsame), matches_deleteRows h ?_⟩
  intro row hrow e he hholds
  rw [hsame row hrow e he hholds]

/-- The text of a filter is true for the rows of the entries that it asks for. -/
theorem selects_asked (h : Matches parts schema dimension store shelf)
    {filter : Option SearchQuery} (hfilter : ∀ query ∈ filter, Understood parts schema query) :
    ∃ selected, (filter.map buildSearchQuery).elim (some fun _ => true)
        (parts.db.selects store.table) = some selected
      ∧ ∀ row ∈ store.table.rows, ∀ e ∈ shelf, Holds schema row e →
        selected row = asked schema filter e := by
  cases filter with
  | none => exact ⟨fun _ => true, rfl, fun _ _ _ _ _ => rfl⟩
  | some query =>
      have hquery := hfilter query rfl
      obtain ⟨condition, hcondition, hmeaning⟩ := exists_condition hquery
      obtain ⟨selected, hselected, heval⟩ :=
        hquery.taken store.table h.schema_eq h.values condition hcondition
      refine ⟨selected, hselected, fun row hrow e _ hholds => ?_⟩
      rw [heval row hrow, hmeaning, asked, Option.elim_some, ← hholds.id_eq,
        ← columns_congr hholds.same row.id, Table.document, h.schema_eq]

/-- What `MultiGetDocuments` gives are the documents of the ids. -/
theorem multiGetDocuments_found (h : Matches parts schema dimension store shelf)
    {ids : List (List Char)} (hids : ∀ id ∈ ids, IsUuid id) :
    ∃ entries docs, DuckDbStore.multiGetDocuments parts.db store.table ids = some docs ∧
      entries.Perm (shelf.filter fun e => e.1 ∈ ids) ∧
      List.Forall₂ (fun e doc => doc.id = e.1 ∧ SameContent schema e.2 doc) entries docs := by
  obtain ⟨rows, hrows, hget⟩ := exists_multiGetDocuments parts.db store.table hids
  have hfound := forall₂_filter h.rows fun row _ e _ hholds =>
    show decide (row.id ∈ ids) = decide (e.1 ∈ ids) by rw [hholds.id_eq]
  obtain ⟨entries, hentries, hperm⟩ := List.perm_comp_forall₂ hrows hfound
  refine ⟨entries, _, (hget _).mpr ⟨fun row hrow _ => h.values row hrow, rfl⟩, hperm, ?_⟩
  rw [List.forall₂_map_right_iff]
  refine hentries.flip.imp fun e row hholds => ⟨hholds.id_eq, ?_⟩
  have hsame := hholds.same
  rwa [← h.schema_eq] at hsame ⊢

/-- **One request** is answered as from a shelf. -/
theorem handle_refines (h : Matches parts schema dimension store shelf)
    (hembeds : Embeds parts dimension) (request : Request) (hsuited : request.Suited parts schema)
    (hdistinct : parts.uuids.DistinctUpTo (store.used + request.docs.length)) :
    ∃ next, Answers schema shelf request (store.handle parts request).1 next
      ∧ Matches parts schema dimension (store.handle parts request).2 next
      ∧ (store.handle parts request).2.used = store.used + request.docs.length := by
  cases request with
  | addDocuments docs =>
      obtain ⟨table, ids, hlength, hnodup, hadd, hmatches⟩ :=
        matches_addDocuments h hembeds hsuited hdistinct
      rw [DocStore.handle, hadd]
      exact ⟨_, .added hlength hnodup, hmatches, rfl⟩
  | addDocument doc =>
      obtain ⟨table, id, hnodup, hadd, hmatches⟩ :=
        matches_addDocument h hembeds hsuited hdistinct
      rw [DocStore.handle, hadd]
      exact ⟨_, .addedOne hnodup, hmatches, rfl⟩
  | deleteDocuments ids =>
      rw [DocStore.handle]
      split
      · next hids =>
          subst hids
          exact ⟨shelf, .deletedNothing, h, rfl⟩
      · next hids =>
          obtain ⟨selected, hselected, hsame⟩ :=
            parts.db.selects_ids store.table ids _ hsuited hids (.inr rfl)
          obtain ⟨hresponse, hmatches⟩ := deleteWhere_refines h ids (some (deleteCondition ids))
            (fun e => decide (e.1 ∈ ids))
            ⟨selected, hselected, fun row hrow e _ hholds => by rw [hsame row hrow, hholds.id_eq]⟩
          refine ⟨_, ?_, hmatches, ?_⟩
          · rw [hresponse]
            simpa only [decide_not] using Answers.deleted hids
          · exact used_deleteWhere ids _
  | deleteMatching filter =>
      rw [DocStore.handle]
      obtain ⟨hresponse, hmatches⟩ := deleteWhere_refines h [] _ _ (selects_asked h hsuited)
      refine ⟨_, ?_, hmatches, ?_⟩
      · rw [hresponse]
        exact .deletedMatching
      · exact used_deleteWhere [] _
  | multiGetDocuments ids =>
      obtain ⟨entries, docs, hdocs, hperm, hall⟩ := multiGetDocuments_found h hsuited
      rw [DocStore.handle, hdocs]
      exact ⟨shelf, .found hperm hall, h, rfl⟩
  | countDocuments =>
      rw [DocStore.handle, h.rows.length_eq]
      exact ⟨shelf, .counted, h, rfl⟩

end Requests

/-! ### Runs -/

section Runs

variable {parts : StoreParts} {schema : List FieldSchema} {dimension : Nat} {store : DocStore}
  {shelf : Shelf}

/-- The run lemma, by induction over the requests. -/
theorem runs_of_matches (h : Matches parts schema dimension store shelf)
    (hembeds : Embeds parts dimension) {requests : List Request}
    (hsuited : ∀ request ∈ requests, request.Suited parts schema)
    (hdistinct : parts.uuids.DistinctUpTo (store.used + (requests.flatMap Request.docs).length)) :
    ∃ last, Runs schema shelf requests (store.handleAll parts requests).1 last ∧
      Matches parts schema dimension (store.handleAll parts requests).2 last := by
  induction requests generalizing store shelf with
  | nil => exact ⟨shelf, .nil, h⟩
  | cons request requests ih =>
      obtain ⟨hfirst, hrest⟩ := List.forall_mem_cons.mp hsuited
      rw [List.flatMap_cons, List.length_append, ← Nat.add_assoc] at hdistinct
      obtain ⟨next, hanswers, hnext, hused⟩ := handle_refines h hembeds request hfirst
        (hdistinct.mono (Nat.le_add_right _ _))
      obtain ⟨last, hruns, hlast⟩ := ih hnext hrest (hused ▸ hdistinct)
      exact ⟨last, .cons hanswers hruns, hlast⟩

/-- **Main result.**  From an empty table on, all requests are answered as from a finite map that
is empty at first, and at the end the rows hold the entries of the map. -/
theorem handleAll_refines (parts : StoreParts) (table : Table) (hempty : table.rows = [])
    (requests : List Request) (hembeds : Embeds parts table.dimension)
    (hdistinct : parts.uuids.DistinctUpTo (requests.flatMap Request.docs).length)
    (hsuited : ∀ request ∈ requests, request.Suited parts table.schema) :
    ∃ last, Runs table.schema [] requests (DocStore.handleAll parts ⟨table, 0⟩ requests).1 last ∧
      List.Forall₂ (Holds table.schema)
        (DocStore.handleAll parts ⟨table, 0⟩ requests).2.table.rows last := by
  have hmatches : Matches parts table.schema table.dimension ⟨table, 0⟩ [] := by
    refine ⟨rfl, rfl, ?_, fun id hid => absurd hid List.not_mem_nil⟩
    show List.Forall₂ (Holds table.schema) table.rows []
    rw [hempty]
    exact .nil
  rw [← Nat.zero_add (requests.flatMap Request.docs).length] at hdistinct
  obtain ⟨last, hruns, hlast⟩ := runs_of_matches hmatches hembeds hsuited hdistinct
  exact ⟨last, hruns, hlast.rows⟩

end Runs

/-- Texts about ids are known by their literals, all others are parsed. -/
def parsedSelects (table : Table) (text : List Char) : Option (StoredRow → Bool) :=
  if "id ".toList.isPrefixOf text then literalIds text
  else (parse text).map fun condition row =>
    condition.eval (columns table.schema row.id (table.document row))

theorem exists_parsedSelects (table : Table) (ids : List (List Char))
    (condition : List Char) (hids : ∀ id ∈ ids, IsUuid id) (_ : ids ≠ [])
    (htext : condition = mgetCondition ids ∨ condition = deleteCondition ids) :
    ∃ selected, parsedSelects table condition = some selected
      ∧ ∀ row ∈ table.rows, selected row = decide (row.id ∈ ids) := by
  obtain ⟨selected, hselected, hsame⟩ := exists_literalIds hids htext
  refine ⟨selected, ?_, fun row _ => hsame row⟩
  have hprefix : "id ".toList.isPrefixOf condition = true := by
    rcases htext with rfl | rfl <;> rfl
  rw [parsedSelects, if_pos hprefix]
  exact hselected

def parsingDb : DuckDb := .selecting parsedSelects exists_parsedSelects

/-- A store of pages. -/
def pageParts : StoreParts where
  api := strictApi
  db := parsingDb
  bypassUnknownFields := true
  embedDocuments _ := []
  uuids := sixteenIds

theorem takenAsParsed_of_not_prefix {schema : List FieldSchema} {text : List Char}
    (h : ¬ "id ".toList.isPrefixOf text = true) : TakenAsParsed pageParts schema text := by
  intro table hschema _ condition hcondition
  refine ⟨fun row => condition.eval (columns schema row.id (table.document row)), ?_,
    fun _ _ => rfl⟩
  show parsedSelects table text = _
  rw [parsedSelects, if_neg h, hcondition, hschema]
  rfl

/-- The query for a page. -/
def pageQuery (value : Int32) : SearchQuery := .term "page".toList (.intValue value)

/-- Pages are added, and deleted by their number and by their id. -/
def pageRequests : List Request :=
  [.addDocument (pageDocument (some (.int 7))), .addDocuments [pageDocument (some (.int 8))],
    .deleteMatching (some (pageQuery 7)), .multiGetDocuments [uuidEnding '0', uuidEnding '1'],
    .deleteDocuments [uuidEnding '1'], .countDocuments]

theorem handleAll_refines_pageRequests :
    ∃ last, Runs pageSchema [] pageRequests (DocStore.handleAll pageParts
        ⟨pageTable [] (by decide) (by simp) (by simp), 0⟩ pageRequests).1 last ∧
      List.Forall₂ (Holds pageSchema) (DocStore.handleAll pageParts
        ⟨pageTable [] (by decide) (by simp) (by simp), 0⟩ pageRequests).2.table.rows last := by
  have hpage : ∀ value : Int32,
      Accepted pageParts pageSchema (pageDocument (some (.int value))) := by
    have htext : Char.ofNat 0 ∉ "A".toList := by decide
    refine fun value => ⟨rfl, kept_of_own htext fun field hfield => ?_⟩
    obtain rfl := List.mem_singleton.mp hfield
    exact ⟨.int value, rfl, rfl, rfl, fun cs h => nomatch h⟩
  have hquery : Understood pageParts pageSchema (pageQuery 7) := by
    refine ⟨by simp [pageQuery, SearchQuery.IsFilled], ?_,
      by simp [pageQuery, SearchQuery.IsExact, PrimitiveValue.IsExact], ?_⟩
    · simp [pageQuery, SearchQuery.IsReadable]
      decide +kernel
    · apply takenAsParsed_of_not_prefix
      decide +kernel
  have hids : ∀ id ∈ [uuidEnding '0', uuidEnding '1'], IsUuid id := by decide
  have hdistinct : ((List.range 2).map sixteenIds.next).Nodup := by decide
  refine handleAll_refines pageParts (pageTable [] (by decide) (by simp) (by simp)) rfl pageRequests
    (fun h => absurd h (by decide)) hdistinct ?_
  intro request hrequest
  simp only [pageRequests, List.mem_cons, List.not_mem_nil, or_false] at hrequest
  rcases hrequest with rfl | rfl | rfl | rfl | rfl | rfl
  · exact hpage 7
  · exact List.forall_mem_singleton.mpr (hpage 8)
  · exact fun query hfilter => Option.some.inj hfilter ▸ hquery
  · exact hids
  · exact fun id hid => hids id (List.mem_cons_of_mem _ hid)
  · trivial

end Instinct.DocumentRuns
