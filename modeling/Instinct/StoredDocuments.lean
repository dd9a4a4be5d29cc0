/-
Instinct/StoredDocuments.lean

`BaseDuckDBStore::AddDocuments`: documents go through an `Appender` into the table,
and come back by `MultiGetDocuments`.

A cell is appended for each field of the schema, that of the last metadata item of
its name, while `GetMetadataFieldValue` looks for the first one.  A document whose
metadata fail the check leaves its id and its text in the row that has been begun,
and its id among the returned ones.

What is read back is right if and only if every document passes the check, no text
holds a NUL, and in the column of each field the last item becomes the value that
the first one holds (`readsBack_iff`).
-/
import Instinct.DuckDbStore
import Mathlib.Data.List.Perm.Subperm
import Mathlib.Data.List.TakeWhile

namespace Instinct.StoredDocuments

open DuckDbStore

/-! ### The appender -/

/-- The types of the columns of `make_create_table_sql`. -/
inductive ColumnType
  | uuid
  | text
  | vector (dimension : Nat)
  | field (type : FieldType)
  deriving DecidableEq

def columnTypes (dimension : Nat) (schema : List FieldSchema) : List ColumnType :=
  .uuid :: .text :: ((if 0 < dimension then [.vector dimension] else [])
    ++ schema.map fun field => .field field.type)

/-- `Appender`: the cells of the row that has been begun, and the rows that ended. -/
structure Appender where
  columns : List ColumnType
  pending : List Cell := []
  rows : List (List Cell) := []

/-- What is left to DuckDB and its `Appender`. -/
structure AppenderApi where
  /-- What a cell becomes in a column; none if it throws. -/
  cast : ColumnType → Cell → Option Cell
  /-- What `Close` writes when a row has been begun and has not ended; none if it throws. -/
  closeUnended : List (List Cell) → Option (List (List Cell))
  cast_uuid : ∀ id, IsUuid id → cast .uuid (.value (.string id)) = some (.value (.string id))
  cast_text : ∀ text, cast .text (.value (.string text)) = some (.value (.string text))
  cast_vector : ∀ dimension v, v.length = dimension →
    cast (.vector dimension) (.vector v) = some (.vector v)
  cast_own : ∀ type value, Value.type value = some type →
    cast (.field type) (.value value) = some (.value value)
  cast_typed : ∀ type cell value, cast (.field type) cell = some (.value value) →
    Value.type value = some type
  cast_null : ∀ type, cast (.field type) .null = some .null
  closeUnended_sublist : ∀ rows kept, closeUnended rows = some kept → kept.Sublist rows

/-- `Appender::Append`. -/
def AppenderApi.append (api : AppenderApi) (a : Appender) (cell : Cell) : Option Appender :=
  (a.columns[a.pending.length]?).bind fun column =>
    (api.cast column cell).map fun stored => { a with pending := a.pending ++ [stored] }

/-- `Appender::EndRow`. -/
def endRow (a : Appender) : Option Appender :=
  if a.pending.length = a.columns.length then
    some { a with pending := [], rows := a.rows ++ [a.pending] }
  else none

/-- `Appender::Close`: the rows that are written. -/
def AppenderApi.close (api : AppenderApi) (a : Appender) : Option (List (List Cell)) :=
  if a.pending = [] then some a.rows else api.closeUnended a.rows

/-! ### The cells of a document -/

/-- The argument is taken by `c_str()`. -/
def cString (cs : List Char) : List Char := cs.takeWhile (· ≠ Char.ofNat 0)

/-- The check of `append_row_metadata_fields`, which drops every name that it has seen from the
known ones. -/
def checkNames (bypassUnknownFields : Bool) : List (List Char) → List MetadataItem → Bool
  | known, [] => known.isEmpty
  | known, item :: items =>
      (bypassUnknownFields || known.contains item.name)
        && checkNames bypassUnknownFields (known.filter (· ≠ item.name)) items

/-- A schema without fields lets all metadata pass. -/
def checkMetadata (schema : List FieldSchema) (bypassUnknownFields : Bool) (doc : Document) :
    Bool :=
  schema.isEmpty || checkNames bypassUnknownFields (schema.map (·.name)) doc.metadata

/-- `metadata_field_name_index_map`: the last item of a name. -/
def lastItem (doc : Document) (name : List Char) : Option MetadataItem :=
  doc.metadata.reverse.find? (·.name = name)

/-- What is appended for an item: nothing when it has no value, or bytes. -/
def itemCells (item : MetadataItem) : List Cell :=
  if item.isNull then [.null]
  else match item.value with
    | none => []
    | some (.bytes _) => []
    | some (.string cs) => [.value (.string (cString cs))]
    | some value => [.value value]

/-- The columns according to the order in the schema.  Every field has an item, after the
check. -/
def metadataCells (schema : List FieldSchema) (doc : Document) : List Cell :=
  schema.flatMap fun field => (lastItem doc field.name).elim [] itemCells

/-! ### Adding documents -/

/-- A document with the id that `GenerateUUIDString` gives for it, and the cells between its
text and its metadata. -/
structure NewRow where
  newId : List Char
  vectorCells : List Cell
  doc : Document

structure UpdateResult where
  returnedIds : List (List Char)
  failedDocuments : List Document
  affectedRows : Nat
  deriving DecidableEq

section Add

variable (api : AppenderApi) (schema : List FieldSchema) (bypassUnknownFields : Bool)

/-- Cells one after the other. -/
def appendAll : Appender → List Cell → Option Appender
  | a, [] => some a
  | a, cell :: cells => (api.append a cell).bind fun a' => appendAll a' cells

/-- `append_row`, with the appender after it and whether the row ended.  An `InstinctException`
of the check leaves the cells of the id, the text and the vector behind. -/
def appendRow (a : Appender) (row : NewRow) : Option (Appender × Bool) :=
  (appendAll api a (.value (.string (cString row.newId))
      :: .value (.string (cString row.doc.text)) :: row.vectorCells)).bind fun begun =>
    if checkMetadata schema bypassUnknownFields row.doc then
      ((appendAll api begun (metadataCells schema row.doc)).bind endRow).map (·, true)
    else some (begun, false)

/-- The loop of `AppendRows`.  A `duckdb::Exception` is not caught here. -/
def appendRows : Appender → List NewRow → Option (Appender × UpdateResult)
  | a, [] => some (a, { returnedIds := [], failedDocuments := [], affectedRows := 0 })
  | a, row :: rows =>
      (appendRow api schema bypassUnknownFields a row).bind fun (a', ended) =>
        (appendRows a' rows).map fun (a'', result) =>
          (a'', {
            returnedIds := row.newId :: result.returnedIds
            failedDocuments := (if ended then [] else [{ row.doc with id := row.newId }])
              ++ result.failedDocuments
            affectedRows := (if ended then 1 else 0) + result.affectedRows })

end Add

/-- The ids of `GenerateUUIDString`, call after call. -/
structure Uuids where
  next : Nat → List Char
  isUuid : ∀ n, IsUuid (next n)

/-- The first so many ids are distinct. -/
def Uuids.DistinctUpTo (uuids : Uuids) (count : Nat) : Prop :=
  ((List.range count).map uuids.next).Nodup

theorem Uuids.DistinctUpTo.mono {uuids : Uuids} {m n : Nat} (h : uuids.DistinctUpTo n)
    (hle : m ≤ n) : uuids.DistinctUpTo m :=
  h.sublist ((List.range_sublist.mpr hle).map _)

/-- The cells between text and metadata: none in a `DuckDBDocStore`, the vector in a
`DuckDBDocWithEmbeddingStore`. -/
def vectorCellsOf (dimension : Nat) (embedDocuments : List (List Char) → List (List ℚ))
    (docs : List Document) : List (List Cell) :=
  if 0 < dimension then (embedDocuments (docs.map (·.text))).map fun v => [.vector v]
  else docs.map fun _ => []

/-- The rows that `AppendRows` is about to append, with a vector for each document. -/
def newRows (dimension : Nat) (embedDocuments : List (List Char) → List (List ℚ)) (uuids : Uuids)
    (docs : List Document) : Option (List NewRow) :=
  if (vectorCellsOf dimension embedDocuments docs).length = docs.length then
    some ((docs.zip (vectorCellsOf dimension embedDocuments docs)).zipIdx.map
      fun ((doc, vectorCells), n) => { newId := uuids.next n, vectorCells, doc })
  else none

/-- The value in the column of a field. -/
def columnValue : Cell → Option (Option Value)
  | .null => some none
  | .value value => some (some value)
  | .vector _ => none

/-- A row as it stands in the table. -/
def storedRow (dimension : Nat) : List Cell → Option StoredRow
  | .value (.string id) :: .value (.string text) :: cells =>
      if 0 < dimension then
        match cells with
        | .vector vector :: cells =>
            (cells.mapM columnValue).map fun metadata => { id, text, vector, metadata }
        | _ => none
      else (cells.mapM columnValue).map fun metadata => { id, text, vector := [], metadata }
  | _ => none

/-- Rows go into a table if they keep its constraints. -/
def insertRows (table : Table) (rows : List StoredRow) : Option Table :=
  if hids : ((table.rows ++ rows).map (·.id)).Nodup then
    if hrows : ∀ row ∈ rows, IsUuid row.id ∧ List.Forall₂
        (fun field value => ∀ v ∈ value, Value.type v = some field.type) table.schema row.metadata
    then
      some { table with
        rows := table.rows ++ rows
        ids_nodup := hids
        ids_uuid := fun row hrow => (List.mem_append.mp hrow).elim (table.ids_uuid row)
          fun hnew => (hrows row hnew).1
        typed := fun row hrow => (List.mem_append.mp hrow).elim (table.typed row)
          fun hnew => (hrows row hnew).2 }
    else none
  else none

/-- `AddDocuments`; none if it throws, after a rollback. -/
def addDocuments (api : AppenderApi) (bypassUnknownFields : Bool)
    (embedDocuments : List (List Char) → List (List ℚ)) (uuids : Uuids) (table : Table)
    (docs : List Document) : Option (Table × UpdateResult) :=
  (newRows table.dimension embedDocuments uuids docs).bind fun rows =>
    (appendRows api table.schema bypassUnknownFields
        { columns := columnTypes table.dimension table.schema } rows).bind fun (a, result) =>
      (api.close a).bind fun written =>
        (written.mapM (storedRow table.dimension)).bind fun stored =>
          (insertRows table stored).map (·, result)

/-! ### What is asked of it -/

/-- A value that is null counts as none. -/
def content (item : MetadataItem) : Option Value :=
  if item.isNull then none else item.value

/-- The value that `GetMetadataFieldValue` comes to, which is the first of its name. -/
def fieldValue (doc : Document) (name : List Char) : Option (Option Value) :=
  (doc.metadata.find? (·.name = name)).map content

/-- The same text, and for every field of the schema the same value. -/
def SameContent (schema : List FieldSchema) (doc found : Document) : Prop :=
  found.text = doc.text ∧ ∀ field ∈ schema, fieldValue found field.name = fieldValue doc field.name

/-- **The returned ids are read back** as the documents that were added. -/
def ReadsBack (db : DuckDb) (table : Table) (docs : List Document) (result : UpdateResult) : Prop :=
  ∃ read, multiGetDocuments db table result.returnedIds = some read
    ∧ List.Forall₂ (fun id doc => ∃ found ∈ read, found.id = id
      ∧ SameContent table.schema doc found) result.returnedIds docs

/-- What a document is read back as: no NUL in its text, and in the column of each field the last
item becomes the value that the first one holds. -/
structure Kept (api : AppenderApi) (schema : List FieldSchema) (doc : Document) : Prop where
  text_eq : cString doc.text = doc.text
  fields : ∀ field ∈ schema, ∃ value item cell, fieldValue doc field.name = some (some value)
    ∧ lastItem doc field.name = some item ∧ itemCells item = [cell]
    ∧ api.cast (.field field.type) cell = some (.value value)

/-! ### One row -/

section Row

variable {api : AppenderApi} {a a' : Appender} {cells cells' stored : List Cell}
  {schema : List FieldSchema} {bypassUnknownFields : Bool} {doc : Document} {row : NewRow}

/-- What cells become in columns; none if they are too many, or one of them throws. -/
def castRow (api : AppenderApi) : List ColumnType → List Cell → Option (List Cell)
  | _, [] => some []
  | [], _ :: _ => none
  | column :: columns, cell :: cells =>
      (api.cast column cell).bind fun stored => (castRow api columns cells).map (stored :: ·)

theorem castRow_cons {columns : List ColumnType} {column : ColumnType} {cell : Cell} :
    castRow api (column :: columns) (cell :: cells) = some stored
      ↔ ∃ first rest, api.cast column cell = some first ∧ castRow api columns cells = some rest
        ∧ stored = first :: rest := by
  rw [castRow, Option.bind_eq_some_iff]
  refine exists_congr fun first => ?_
  rw [Option.map_eq_some_iff]
  constructor
  · rintro ⟨hfirst, rest, hrest, rfl⟩
    exact ⟨rest, hfirst, hrest, rfl⟩
  · rintro ⟨rest, hfirst, hrest, rfl⟩
    exact ⟨hfirst, rest, hrest, rfl⟩

theorem length_castRow {columns : List ColumnType} (h : castRow api columns cells = some stored) :
    stored.length = cells.length := by
  induction cells generalizing columns stored with
  | nil =>
      cases columns <;> cases h <;> rfl
  | cons cell cells ih =>
      cases columns with
      | nil => cases h
      | cons column columns =>
          obtain ⟨first, rest, -, hrest, rfl⟩ := castRow_cons.mp h
          exact congrArg (· + 1) (ih hrest)

theorem appendAll_eq (a : Appender) (cells : List Cell) :
    appendAll api a cells = (castRow api (a.columns.drop a.pending.length) cells).map fun stored =>
      { a with pending := a.pending ++ stored } := by
  induction cells generalizing a with
  | nil => simp [appendAll, castRow]
  | cons cell cells ih =>
      rw [appendAll, AppenderApi.append]
      rcases Nat.lt_or_ge a.pending.length a.columns.length with hlt | hge
      · rw [List.drop_eq_getElem_cons hlt, List.getElem?_eq_getElem hlt, Option.bind_some, castRow]
        cases api.cast a.columns[a.pending.length] cell with
        | none => rfl
        | some first =>
            rw [Option.map_some, Option.bind_some, ih, Option.bind_some, Option.map_map]
            simp [Function.comp_def, List.append_assoc]
      · rw [List.drop_eq_nil_of_le hge, List.getElem?_eq_none hge]
        rfl

theorem appendAll_append (a : Appender) (cells cells' : List Cell) :
    appendAll api a (cells ++ cells') = (appendAll api a cells).bind (appendAll api · cells') := by
  induction cells generalizing a with
  | nil => rfl
  | cons cell cells ih =>
      rw [List.cons_append, appendAll, appendAll, Option.bind_assoc]
      exact Option.bind_congr fun a' _ => ih a'

/-- All cells of a row. -/
def rowCells (schema : List FieldSchema) (row : NewRow) : List Cell :=
  (.value (.string (cString row.newId)) :: .value (.string (cString row.doc.text))
    :: row.vectorCells) ++ metadataCells schema row.doc

/-- A row ends if its document passes the check, and otherwise leaves the rows as they are. -/
theorem rows_appendRow {ended : Bool}
    (h : appendRow api schema bypassUnknownFields a row = some (a', ended)) :
    ended = checkMetadata schema bypassUnknownFields row.doc ∧ a'.columns = a.columns
      ∧ a'.rows.length = a.rows.length + (if ended then 1 else 0) := by
  rw [appendRow, appendAll_eq] at h
  obtain ⟨begun, hbegun, h⟩ := Option.bind_eq_some_iff.mp h
  obtain ⟨stored, -, rfl⟩ := Option.map_eq_some_iff.mp hbegun
  split at h
  · rename_i hcheck
    obtain ⟨b, hb, heq⟩ := Option.map_eq_some_iff.mp h
    cases heq
    rw [appendAll_eq] at hb
    obtain ⟨c, hc, hend⟩ := Option.bind_eq_some_iff.mp hb
    obtain ⟨stored', -, rfl⟩ := Option.map_eq_some_iff.mp hc
    unfold endRow at hend
    split at hend
    · cases hend
      exact ⟨hcheck.symm, rfl, List.length_append⟩
    · cases hend
  · rename_i hcheck
    cases h
    exact ⟨(Bool.eq_false_iff.mpr hcheck).symm, rfl, rfl⟩

/-- A row on its own. -/
theorem appendRow_of_check (hpending : a.pending = [])
    (hcheck : checkMetadata schema bypassUnknownFields row.doc = true) {ended : Bool}
    (h : appendRow api schema bypassUnknownFields a row = some (a', ended)) :
    ∃ stored, castRow api a.columns (rowCells schema row) = some stored
      ∧ stored.length = a.columns.length
      ∧ a' = { a with pending := [], rows := a.rows ++ [stored] } := by
  rw [appendRow] at h
  simp only [hcheck, if_true] at h
  obtain ⟨begun, hbegun, h⟩ := Option.bind_eq_some_iff.mp h
  obtain ⟨b, hb, heq⟩ := Option.map_eq_some_iff.mp h
  cases heq
  obtain ⟨c, hc, hend⟩ := Option.bind_eq_some_iff.mp hb
  have hall : appendAll api a (rowCells schema row) = some c := by
    rw [rowCells, appendAll_append, hbegun, Option.bind_some, hc]
  rw [appendAll_eq, hpending, List.length_nil, List.drop_zero] at hall
  obtain ⟨stored, hstored, rfl⟩ := Option.map_eq_some_iff.mp hall
  unfold endRow at hend
  split at hend
  · rename_i hlength
    cases hend
    exact ⟨stored, hstored, hlength, rfl⟩
  · cases hend

end Row

/-! ### All rows -/

section Rows

variable {api : AppenderApi} {a a' : Appender} {schema : List FieldSchema}
  {bypassUnknownFields : Bool} {rows : List NewRow} {result : UpdateResult}

theorem appendRows_cons {row : NewRow}
    (h : appendRows api schema bypassUnknownFields a (row :: rows) = some (a', result)) :
    ∃ b ended rest, appendRow api schema bypassUnknownFields a row = some (b, ended)
      ∧ appendRows api schema bypassUnknownFields b rows = some (a', rest)
      ∧ result.returnedIds = row.newId :: rest.returnedIds
      ∧ result.failedDocuments.length
        = (if ended then 0 else 1) + rest.failedDocuments.length := by
  rw [appendRows] at h
  obtain ⟨⟨b, ended⟩, hrow, h⟩ := Option.bind_eq_some_iff.mp h
  obtain ⟨⟨c, rest⟩, hrest, heq⟩ := Option.map_eq_some_iff.mp h
  cases heq
  refine ⟨b, ended, rest, hrow, hrest, rfl, ?_⟩
  cases ended
  · exact Nat.add_comm _ _
  · exact (Nat.zero_add _).symm

/-- Every row gives an id, and has either ended or failed. -/
theorem length_appendRows
    (h : appendRows api schema bypassUnknownFields a rows = some (a', result)) :
    result.returnedIds = rows.map (·.newId)
      ∧ a'.rows.length + result.failedDocuments.length = a.rows.length + rows.length
      ∧ (result.failedDocuments.length = 0
        → ∀ row ∈ rows, checkMetadata schema bypassUnknownFields row.doc = true) := by
  induction rows generalizing a result with
  | nil =>
      cases h
      exact ⟨rfl, rfl, fun _ _ hrow => absurd hrow List.not_mem_nil⟩
  | cons row rows ih =>
      obtain ⟨b, ended, rest, hrow, hrest, hids, hfailed⟩ := appendRows_cons h
      obtain ⟨hids', hlength, hchecks⟩ := ih hrest
      obtain ⟨hended, -, hended'⟩ := rows_appendRow hrow
      refine ⟨hids.trans (congrArg _ hids'), ?_, fun hzero => ?_⟩
      · rw [List.length_cons]
        cases ended
        · rw [if_neg Bool.false_ne_true] at hended' hfailed
          omega
        · rw [if_pos rfl] at hended' hfailed
          omega
      · cases ended
        · rw [if_neg Bool.false_ne_true] at hfailed
          omega
        · rw [if_pos rfl] at hfailed
          exact List.forall_mem_cons.mpr ⟨hended.symm, hchecks (by omega)⟩

/-- Where every document passes the check, every row is on its own. -/
theorem appendRows_of_checks
    (h : appendRows api schema bypassUnknownFields a rows = some (a', result))
    (hpending : a.pending = [])
    (hchecks : ∀ row ∈ rows, checkMetadata schema bypassUnknownFields row.doc = true) :
    a'.pending = [] ∧ ∃ written, a'.rows = a.rows ++ written
      ∧ List.Forall₂ (fun row cells => castRow api a.columns (rowCells schema row) = some cells
        ∧ cells.length = a.columns.length) rows written := by
  induction rows generalizing a result with
  | nil =>
      cases h
      exact ⟨hpending, [], (List.append_nil _).symm, .nil⟩
  | cons row rows ih =>
      obtain ⟨hcheck, hchecks⟩ := List.forall_mem_cons.mp hchecks
      obtain ⟨b, ended, rest, hrow, hrest, -, -⟩ := appendRows_cons h
      obtain ⟨cells, hcells, hlength, rfl⟩ := appendRow_of_check hpending hcheck hrow
      obtain ⟨hpending', written, hwritten, hall⟩ := ih hrest rfl hchecks
      exact ⟨hpending', cells :: written, by rw [hwritten, List.append_assoc, List.singleton_append],
        .cons ⟨hcells, hlength⟩ hall⟩

end Rows

/-! ### What a row stores -/

section Stored

variable {api : AppenderApi} {schema : List FieldSchema} {doc : Document} {row : NewRow}
  {cells : List Cell} {st : StoredRow} {dimension : Nat} {isVector : List ℚ → Prop}

/-- The column of a field holds what the last item of the field becomes. -/
def StoresField (api : AppenderApi) (doc : Document) (field : FieldSchema)
    (value : Option Value) : Prop :=
  ∃ item cell, lastItem doc field.name = some item ∧ itemCells item = [cell]
    ∧ api.cast (.field field.type) cell = some (Cell.ofMetadata value)

/-- A stored row as it comes from a document. -/
structure Stores (api : AppenderApi) (schema : List FieldSchema) (row : NewRow)
    (st : StoredRow) : Prop where
  id_eq : st.id = row.newId
  text_eq : st.text = cString row.doc.text
  fields : List.Forall₂ (StoresField api row.doc) schema st.metadata

/-- The cells of a vector, where the store has vectors, and no cells otherwise. -/
def IsVectorCells (dimension : Nat) (isVector : List ℚ → Prop) (cells : List Cell) : Prop :=
  if 0 < dimension then ∃ v, isVector v ∧ cells = [.vector v] else cells = []

theorem length_itemCells_le (item : MetadataItem) : (itemCells item).length ≤ 1 := by
  unfold itemCells
  split
  · exact Nat.le_refl 1
  · split <;> simp

theorem length_metadataCells_le (schema : List FieldSchema) (doc : Document) :
    (metadataCells schema doc).length ≤ schema.length := by
  unfold metadataCells
  induction schema with
  | nil => exact Nat.le_refl 0
  | cons field schema ih =>
      rw [List.flatMap_cons, List.length_append, List.length_cons]
      have hone : ((lastItem doc field.name).elim [] itemCells).length ≤ 1 := by
        cases lastItem doc field.name with
        | none => exact Nat.zero_le 1
        | some item => exact length_itemCells_le item
      omega

theorem ofMetadata_of_mapM {metadata : List (Option Value)}
    (h : cells.mapM columnValue = some metadata) : cells = metadata.map Cell.ofMetadata := by
  rw [mapM_eq_some_iff] at h
  induction h with
  | nil => rfl
  | @cons cell value _ _ hfirst _ ih =>
      rw [List.map_cons, ← ih]
      cases cell <;> cases hfirst <;> rfl

/-- As many cells as fields are one cell for each field. -/
theorem storesField_of_castRow {metadata : List (Option Value)}
    (h : castRow api (schema.map fun field => .field field.type) (metadataCells schema doc)
      = some (metadata.map Cell.ofMetadata))
    (hlength : metadata.length = schema.length) :
    List.Forall₂ (StoresField api doc) schema metadata := by
  induction schema generalizing metadata with
  | nil =>
      rw [List.length_eq_zero_iff.mp hlength]
      exact .nil
  | cons field schema ih =>
      obtain ⟨value, metadata, rfl⟩ := List.exists_cons_of_length_eq_add_one hlength
      have hcells := length_castRow h
      rw [List.length_map, hlength, metadataCells, List.flatMap_cons, List.length_append,
        List.length_cons] at hcells
      have hle := length_metadataCells_le schema doc
      unfold metadataCells at hle
      -- no field can make up for one that has no cell
      cases hitem : lastItem doc field.name with
      | none =>
          rw [hitem, Option.elim_none, List.length_nil] at hcells
          omega
      | some item =>
          have hone := length_itemCells_le item
          rw [hitem, Option.elim_some] at hcells
          obtain ⟨cell, hcell⟩ := List.length_eq_one_iff.mp (show (itemCells item).length = 1 by omega)
          rw [metadataCells, List.flatMap_cons, hitem, Option.elim_some, hcell,
            List.singleton_append, List.map_cons, List.map_cons] at h
          obtain ⟨first, rest, hfirst, hrest, heq⟩ := castRow_cons.mp h
          obtain ⟨rfl, rfl⟩ := List.cons.inj heq
          exact .cons ⟨item, cell, hitem, hcell, hfirst⟩ (ih hrest (Nat.succ.inj hlength))

theorem cString_eq_self {cs : List Char} (h : Char.ofNat 0 ∉ cs) : cString cs = cs :=
  List.takeWhile_eq_self_iff.mpr fun _ hc => decide_eq_true (ne_of_mem_of_not_mem hc h)

theorem cString_of_isUuid {id : List Char} (h : IsUuid id) : cString id = id :=
  cString_eq_self fun hnul => absurd (mem_of_isUuid h hnul) (by decide)

/-- **What a row on its own stores.** -/
theorem stores_of_castRow (hid : IsUuid row.newId)
    (hvector : IsVectorCells dimension isVector row.vectorCells)
    (h : castRow api (columnTypes dimension schema) (rowCells schema row) = some cells)
    (hlength : cells.length = (columnTypes dimension schema).length)
    (hst : storedRow dimension cells = some st) : Stores api schema row st := by
  unfold rowCells columnTypes at h
  rw [List.cons_append, List.cons_append] at h
  obtain ⟨id, behindId, hcastId, hbehindId, rfl⟩ := castRow_cons.mp h
  obtain ⟨text, behindText, hcastText, hcast, rfl⟩ := castRow_cons.mp hbehindId
  rw [cString_of_isUuid hid, api.cast_uuid _ hid] at hcastId
  rw [api.cast_text] at hcastText
  obtain rfl := Option.some.inj hcastId
  obtain rfl := Option.some.inj hcastText
  dsimp only [storedRow] at hst
  unfold columnTypes at hlength
  unfold IsVectorCells at hvector
  split at hvector
  · rename_i hpos
    obtain ⟨v, -, hv⟩ := hvector
    rw [if_pos hpos] at hcast hst hlength
    rw [hv, List.singleton_append, List.singleton_append] at hcast
    obtain ⟨vector, rest, -, hfields, rfl⟩ := castRow_cons.mp hcast
    cases vector with
    | null => cases hst
    | value _ => cases hst
    | vector vector =>
        obtain ⟨metadata, hmetadata, rfl⟩ := Option.map_eq_some_iff.mp hst
        obtain rfl := ofMetadata_of_mapM hmetadata
        exact ⟨rfl, rfl, storesField_of_castRow hfields (by simpa using hlength)⟩
  · rename_i hzero
    rw [if_neg hzero] at hcast hst hlength
    rw [hvector, List.nil_append, List.nil_append] at hcast
    obtain ⟨metadata, hmetadata, rfl⟩ := Option.map_eq_some_iff.mp hst
    obtain rfl := ofMetadata_of_mapM hmetadata
    exact ⟨rfl, rfl, storesField_of_castRow hcast (by simpa using hlength)⟩

end Stored

/-! ### What a row is read back as -/

section Read

variable {api : AppenderApi} {table : Table} {row : NewRow} {st : StoredRow}

theorem find_ownItems {schema : List FieldSchema} {values : List (Option Value)}
    (hnodup : (schema.map (·.name)).Nodup) (hlength : schema.length = values.length) :
    List.Forall₂ (fun field value => (ownItems schema values).find? (·.name = field.name)
      = some { name := field.name, value := value }) schema values := by
  induction schema generalizing values with
  | nil =>
      rw [List.length_eq_zero_iff.mp hlength.symm]
      exact .nil
  | cons field schema ih =>
      obtain ⟨value, values, rfl⟩ := List.exists_cons_of_length_eq_add_one hlength.symm
      obtain ⟨hnew, hnodup⟩ := List.nodup_cons.mp hnodup
      refine .cons (List.find?_cons_of_pos (decide_eq_true rfl)) ?_
      have hother : ∀ other ∈ schema, other.name ≠ field.name := fun other hother =>
        ne_of_mem_of_not_mem (List.mem_map_of_mem hother) hnew
      refine ((List.forall₂_and_left _ _).mpr ⟨hother, ih hnodup (Nat.succ.inj hlength)⟩).imp ?_
      rintro other v ⟨hne, hfind⟩
      exact (List.find?_cons_of_neg fun heq => hne (of_decide_eq_true heq).symm).trans hfind

theorem fieldValue_document (hst : st ∈ table.rows) :
    List.Forall₂ (fun field value => fieldValue (table.document st) field.name = some value)
      table.schema st.metadata := by
  have hnames := table.names_nodup
  unfold columnNames at hnames
  have hschema := (List.nodup_append.mp (List.nodup_cons.mp (List.nodup_cons.mp hnames).2).2).2.1
  exact (find_ownItems hschema (table.length_metadata hst)).imp fun field value h =>
    congrArg (Option.map content) h

/-- **A row is read as its document** if and only if the document is kept. -/
theorem reads_iff_kept (hst : st ∈ table.rows) (h : Stores api table.schema row st) :
    ((∀ value ∈ st.metadata, value ≠ none)
        ∧ SameContent table.schema row.doc (table.document st))
      ↔ Kept api table.schema row.doc := by
  have hread := fieldValue_document hst
  have hlength := table.length_metadata hst
  constructor
  · rintro ⟨hvalues, htext, hfields⟩
    refine ⟨h.text_eq.symm.trans htext, fun field hfield => ?_⟩
    obtain ⟨n, hn, rfl⟩ := List.getElem_of_mem hfield
    obtain ⟨item, cell, hitem, hcell, hcast⟩ := h.fields.get hn (hlength ▸ hn)
    obtain ⟨v, hv⟩ := Option.ne_none_iff_exists'.mp
      (hvalues _ (List.get_mem st.metadata ⟨n, hlength ▸ hn⟩))
    refine ⟨v, item, cell, ?_, hitem, hcell, ?_⟩
    · exact (hfields _ hfield).symm.trans ((hread.get hn (hlength ▸ hn)).trans (congrArg some hv))
    · exact hcast.trans (congrArg (fun value => some (Cell.ofMetadata value)) hv)
  · rintro ⟨htext, hkept⟩
    -- the column of each field holds the value of the first item
    have hcolumn : List.Forall₂ (fun field value => ∃ v, value = some v
        ∧ fieldValue row.doc field.name = some (some v)) table.schema st.metadata := by
      refine ((List.forall₂_and_left _ _).mpr ⟨hkept, h.fields⟩).imp ?_
      rintro field value ⟨⟨v, item, cell, hfirst, hitem, hcell, hcast⟩,
        item', cell', hitem', hcell', hcast'⟩
      obtain rfl := Option.some.inj (hitem.symm.trans hitem')
      obtain rfl := List.singleton_inj.mp (hcell.symm.trans hcell')
      have hvalue : Cell.ofMetadata value = .value v := Option.some.inj (hcast'.symm.trans hcast)
      cases value with
      | none => cases hvalue
      | some value => exact ⟨v, congrArg some (Cell.value.inj hvalue), hfirst⟩
    refine ⟨fun value hvalue => ?_, h.text_eq.trans htext, fun field hfield => ?_⟩
    · obtain ⟨n, hn, rfl⟩ := List.getElem_of_mem hvalue
      obtain ⟨v, hv, -⟩ := hcolumn.get (hlength ▸ hn) hn
      exact Option.ne_none_iff_exists'.mpr ⟨v, hv⟩
    · obtain ⟨n, hn, rfl⟩ := List.getElem_of_mem hfield
      obtain ⟨v, hv, hfirst⟩ := hcolumn.get hn (hlength ▸ hn)
      exact (hread.get hn (hlength ▸ hn)).trans ((congrArg some hv).trans hfirst.symm)

end Read

/-! ### Adding and reading back -/

section Adding

variable {api : AppenderApi} {db : DuckDb} {schema : List FieldSchema}
  {bypassUnknownFields : Bool} {embedDocuments : List (List Char) → List (List ℚ)} {uuids : Uuids}
  {dimension : Nat} {table table' : Table} {docs : List Document} {rows : List NewRow}
  {result : UpdateResult}

/-- The new ids are the next ones. -/
theorem newIds_of_newRows (h : newRows dimension embedDocuments uuids docs = some rows) :
    rows.map (·.newId) = (List.range docs.length).map uuids.next := by
  unfold newRows at h
  split at h
  · rename_i hlength
    obtain rfl := Option.some.inj h
    rw [List.map_map]
    have hid : (fun row : NewRow => row.newId) ∘ (fun (p : (Document × List Cell) × Nat) =>
        { newId := uuids.next p.2, vectorCells := p.1.2, doc := p.1.1 }) = uuids.next ∘ Prod.snd :=
      rfl
    refine (congrArg (fun f => List.map f _) hid).trans ?_
    rw [← List.map_map, List.zipIdx_map_snd, List.length_zip, hlength, Nat.min_self,
      List.range_eq_range']
  · cases h

/-- The rows are those of the documents, each with cells of a vector. -/
theorem newRows_spec (h : newRows dimension embedDocuments uuids docs = some rows) :
    rows.map (·.doc) = docs
      ∧ ∀ row ∈ rows, row.vectorCells ∈ vectorCellsOf dimension embedDocuments docs := by
  unfold newRows at h
  split at h
  · rename_i hlength
    obtain rfl := Option.some.inj h
    rw [List.map_map]
    refine ⟨?_, fun row hrow => ?_⟩
    · have hdoc : (fun row : NewRow => row.doc) ∘ (fun (p : (Document × List Cell) × Nat) =>
          { newId := uuids.next p.2, vectorCells := p.1.2, doc := p.1.1 }) = Prod.fst ∘ Prod.fst :=
        rfl
      exact (congrArg (List.map · _) hdoc).trans (by
        rw [← List.map_map, List.zipIdx_map_fst, List.map_fst_zip (Nat.le_of_eq hlength.symm)])
    · obtain ⟨⟨⟨doc, cells⟩, n⟩, hmem, rfl⟩ := List.mem_map.mp hrow
      exact (List.of_mem_zip (List.fst_mem_of_mem_zipIdx hmem)).2
  · cases h

/-- The vectors are those of the model. -/
theorem vectorCells_of_mem {cells : List Cell}
    (h : cells ∈ vectorCellsOf dimension embedDocuments docs) :
    IsVectorCells dimension (· ∈ embedDocuments (docs.map (·.text))) cells := by
  unfold vectorCellsOf at h
  unfold IsVectorCells
  split at h
  · rename_i hpos
    rw [if_pos hpos]
    obtain ⟨v, hv, rfl⟩ := List.mem_map.mp h
    exact ⟨v, hv, rfl⟩
  · rename_i hzero
    rw [if_neg hzero]
    exact (List.mem_map.mp h).choose_spec.2.symm

theorem exists_next_of_newRows (h : newRows dimension embedDocuments uuids docs = some rows)
    {row : NewRow} (hrow : row ∈ rows) : ∃ n < docs.length, row.newId = uuids.next n := by
  have hmem : row.newId ∈ rows.map (·.newId) := List.mem_map_of_mem hrow
  rw [newIds_of_newRows h] at hmem
  obtain ⟨n, hn, heq⟩ := List.mem_map.mp hmem
  exact ⟨n, List.mem_range.mp hn, heq.symm⟩

theorem isUuid_of_newRows (h : newRows dimension embedDocuments uuids docs = some rows)
    {row : NewRow} (hrow : row ∈ rows) : IsUuid row.newId := by
  obtain ⟨n, -, hn⟩ := exists_next_of_newRows h hrow
  rw [hn]
  exact uuids.isUuid n

/-- What has happened when `AddDocuments` returns. -/
theorem exists_rows_of_addDocuments
    (h : addDocuments api bypassUnknownFields embedDocuments uuids table docs
      = some (table', result)) :
    ∃ rows a written stored, newRows table.dimension embedDocuments uuids docs = some rows
      ∧ appendRows api table.schema bypassUnknownFields
        { columns := columnTypes table.dimension table.schema } rows = some (a, result)
      ∧ api.close a = some written ∧ List.Forall₂ (fun cells st =>
        storedRow table.dimension cells = some st) written stored
      ∧ table'.schema = table.schema ∧ table'.rows = table.rows ++ stored := by
  obtain ⟨rows, hrows, h⟩ := Option.bind_eq_some_iff.mp h
  obtain ⟨⟨a, result'⟩, happend, h⟩ := Option.bind_eq_some_iff.mp h
  obtain ⟨written, hwritten, h⟩ := Option.bind_eq_some_iff.mp h
  obtain ⟨stored, hstored, h⟩ := Option.bind_eq_some_iff.mp h
  obtain ⟨inserted, hinsert, heq⟩ := Option.map_eq_some_iff.mp h
  cases heq
  refine ⟨rows, a, written, stored, hrows, happend, hwritten, mapM_eq_some_iff.mp hstored, ?_⟩
  unfold insertRows at hinsert
  split at hinsert
  · split at hinsert
    · cases hinsert
      exact ⟨rfl, rfl⟩
    · cases hinsert
  · cases hinsert

/-- No row is written that has not ended. -/
theorem length_close_le {a : Appender} {written : List (List Cell)}
    (h : api.close a = some written) : written.length ≤ a.rows.length := by
  unfold AppenderApi.close at h
  split at h
  · exact Nat.le_of_eq (congrArg List.length (Option.some.inj h)).symm
  · exact (api.closeUnended_sublist _ _ h).length_le

/-- Where all ids are found, every document has passed the check. -/
theorem checks_of_found
    (hadd : addDocuments api bypassUnknownFields embedDocuments uuids table docs
      = some (table', result))
    (hdistinct : uuids.DistinctUpTo docs.length)
    (hfresh : ∀ st ∈ table.rows, ∀ n < docs.length, st.id ≠ uuids.next n)
    (hfound : ∀ id ∈ result.returnedIds, ∃ st ∈ table'.rows, st.id = id) :
    ∀ doc ∈ docs, checkMetadata table.schema bypassUnknownFields doc = true := by
  obtain ⟨rows, a, written, stored, hrows, happend, hwritten, hstored, -, hrows'⟩ :=
    exists_rows_of_addDocuments hadd
  obtain ⟨hdocs, -⟩ := newRows_spec hrows
  obtain ⟨hids, hlength, hchecks⟩ := length_appendRows happend
  have hnodup : (rows.map (·.newId)).Nodup := by
    rw [newIds_of_newRows hrows]
    exact hdistinct
  -- the ids are distinct, and all of them belong to rows that ended
  have hsubset : rows.map (·.newId) ⊆ stored.map (·.id) := by
    intro id hid
    obtain ⟨st, hst, rfl⟩ := hfound id (hids ▸ hid)
    rw [hrows'] at hst
    rcases List.mem_append.mp hst with hold | hnew
    · obtain ⟨row, hrow, hrowId⟩ := List.mem_map.mp hid
      obtain ⟨n, hn, heq⟩ := exists_next_of_newRows hrows hrow
      exact absurd (hrowId.symm.trans heq) (hfresh st hold n hn)
    · exact List.mem_map_of_mem hnew
  have hle := (List.subperm_of_subset hnodup hsubset).length_le
  have hclose := length_close_le hwritten
  rw [List.length_map, List.length_map, ← hstored.length_eq] at hle
  have hfailed : result.failedDocuments.length = 0 := by
    rw [List.length_nil] at hlength
    omega
  intro doc hdoc
  obtain ⟨row, hrow, rfl⟩ := List.mem_map.mp (hdocs ▸ hdoc)
  exact hchecks hfailed row hrow

theorem exists_of_forall₂ {α β γ : Type} {R : α → β → Prop} {S : β → γ → Prop} {as : List α}
    {bs : List β} {cs : List γ} (h : List.Forall₂ R as bs) (h' : List.Forall₂ S bs cs) {a : α}
    (ha : a ∈ as) : ∃ b c, c ∈ cs ∧ R a b ∧ S b c := by
  induction h generalizing cs with
  | nil => cases ha
  | cons hfirst _ ih =>
      cases h' with
      | cons hfirst' hrest' =>
          rcases List.mem_cons.mp ha with rfl | ha
          · exact ⟨_, _, List.mem_cons_self, hfirst, hfirst'⟩
          · obtain ⟨b, c, hc, hb⟩ := ih hrest' ha
            exact ⟨b, c, List.mem_cons_of_mem _ hc, hb⟩

/-- Where every document passes the check, each is stored under its id. -/
theorem exists_stored_of_checks
    (hadd : addDocuments api bypassUnknownFields embedDocuments uuids table docs
      = some (table', result))
    (hchecks : ∀ doc ∈ docs, checkMetadata table.schema bypassUnknownFields doc = true) :
    ∃ rows : List NewRow, docs = rows.map (·.doc)
      ∧ result.returnedIds = rows.map (·.newId) ∧ ∀ row ∈ rows,
      ∃ st ∈ table'.rows, st.id = row.newId ∧ Stores api table'.schema row st := by
  obtain ⟨rows, a, written, stored, hrows, happend, hwritten, hstored, hschema, hrows'⟩ :=
    exists_rows_of_addDocuments hadd
  obtain ⟨hdocs, hvector⟩ := newRows_spec hrows
  obtain ⟨hpending, ended, hended, hcast⟩ := appendRows_of_checks happend rfl fun row hrow =>
    hchecks row.doc (hdocs ▸ List.mem_map_of_mem hrow)
  rw [AppenderApi.close, if_pos hpending, hended] at hwritten
  obtain rfl : ended = written := Option.some.inj hwritten
  refine ⟨rows, hdocs.symm, (length_appendRows happend).1, fun row hrow => ?_⟩
  obtain ⟨cells, st, hmem, ⟨hcells, hlength⟩, hst⟩ := exists_of_forall₂ hcast hstored hrow
  have hstores := stores_of_castRow (isUuid_of_newRows hrows hrow)
    (vectorCells_of_mem (hvector row hrow)) hcells hlength hst
  exact ⟨st, hrows' ▸ List.mem_append_right _ hmem, hstores.id_eq, hschema ▸ hstores⟩

theorem isUuid_of_returned
    (hadd : addDocuments api bypassUnknownFields embedDocuments uuids table docs
      = some (table', result)) : ∀ id ∈ result.returnedIds, IsUuid id := by
  obtain ⟨rows, _, _, _, hrows, happend, -, -, -, -⟩ := exists_rows_of_addDocuments hadd
  intro id hid
  rw [(length_appendRows happend).1] at hid
  obtain ⟨row, hrow, rfl⟩ := List.mem_map.mp hid
  exact isUuid_of_newRows hrows hrow

/-- **Documents are read back as they were added** if and only if each of them passes the check
and is kept. -/
theorem readsBack_iff
    (hadd : addDocuments api bypassUnknownFields embedDocuments uuids table docs
      = some (table', result))
    (hdistinct : uuids.DistinctUpTo docs.length)
    (hfresh : ∀ st ∈ table.rows, ∀ n < docs.length, st.id ≠ uuids.next n) :
    ReadsBack db table' docs result ↔ ∀ doc ∈ docs,
      checkMetadata table.schema bypassUnknownFields doc = true ∧ Kept api table.schema doc := by
  have hschema : table'.schema = table.schema := by
    obtain ⟨_, _, _, _, -, -, -, -, h, -⟩ := exists_rows_of_addDocuments hadd
    exact h
  obtain ⟨read, hperm, hget⟩ := exists_multiGetDocuments db table'
    (isUuid_of_returned hadd)
  have hmem : ∀ st, st ∈ read ↔ st ∈ table'.rows ∧ st.id ∈ result.returnedIds := by
    intro st
    rw [hperm.mem_iff, List.mem_filter, decide_eq_true_iff]
  constructor
  · rintro ⟨docs', hread, hall⟩
    obtain ⟨hvalues, rfl⟩ := (hget docs').mp hread
    have hchecks := checks_of_found hadd hdistinct hfresh fun id hid => by
      obtain ⟨n, hn, rfl⟩ := List.getElem_of_mem hid
      obtain ⟨found, hfound, hfoundId, -⟩ := hall.get hn (hall.length_eq ▸ hn)
      obtain ⟨st, hst, rfl⟩ := List.mem_map.mp hfound
      exact ⟨st, ((hmem st).mp hst).1, hfoundId⟩
    refine fun doc hdoc => ⟨hchecks doc hdoc, ?_⟩
    obtain ⟨rows, rfl, hids, hstored⟩ := exists_stored_of_checks hadd hchecks
    rw [hids, List.forall₂_map_left_iff, List.forall₂_map_right_iff, List.forall₂_same] at hall
    obtain ⟨row, hrow, rfl⟩ := List.mem_map.mp hdoc
    obtain ⟨found, hfound, hfoundId, hsame⟩ := hall row hrow
    obtain ⟨other, hother, rfl⟩ := List.mem_map.mp hfound
    obtain ⟨hotherRow, hotherId⟩ := (hmem other).mp hother
    obtain ⟨st, hst, hid, hstores⟩ := hstored row hrow
    obtain rfl := List.inj_on_of_nodup_map table'.ids_nodup hotherRow hst (hfoundId.trans hid.symm)
    rw [← hschema]
    exact (reads_iff_kept hst hstores).mp ⟨hvalues other hst hotherId, hsame⟩
  · intro h
    obtain ⟨rows, rfl, hids, hstored⟩ := exists_stored_of_checks hadd fun doc hdoc => (h doc hdoc).1
    have hreads : ∀ row ∈ rows, ∃ st ∈ table'.rows, st.id = row.newId
        ∧ (∀ value ∈ st.metadata, value ≠ none)
        ∧ SameContent table'.schema row.doc (table'.document st) := by
      intro row hrow
      obtain ⟨st, hst, hid, hstores⟩ := hstored row hrow
      have hkept := (h row.doc (List.mem_map_of_mem hrow)).2
      rw [← hschema] at hkept
      exact ⟨st, hst, hid, (reads_iff_kept hst hstores).mpr hkept⟩
    refine ⟨_, (hget _).mpr ⟨fun st hst hid => ?_, rfl⟩, ?_⟩
    · obtain ⟨row, hrow, hrowId⟩ := List.mem_map.mp (hids ▸ hid)
      obtain ⟨st', hst', hid', hvalues, -⟩ := hreads row hrow
      obtain rfl := List.inj_on_of_nodup_map table'.ids_nodup hst hst'
        (hrowId.symm.trans hid'.symm)
      exact hvalues
    · rw [hids, List.forall₂_map_left_iff, List.forall₂_map_right_iff, List.forall₂_same]
      intro row hrow
      obtain ⟨st, hst, hid, -, hsame⟩ := hreads row hrow
      refine ⟨table'.document st, List.mem_map_of_mem ?_, hid, hsame⟩
      refine (hmem st).mpr ⟨hst, ?_⟩
      rw [hids, hid]
      exact List.mem_map_of_mem hrow

end Adding

/-- A document is kept where each field has one item, with a value of its type, and no NUL is in
a text. -/
theorem kept_of_own {api : AppenderApi} {schema : List FieldSchema} {doc : Document}
    (htext : Char.ofNat 0 ∉ doc.text)
    (hfields : ∀ field ∈ schema, ∃ value, fieldValue doc field.name = some (some value)
      ∧ lastItem doc field.name = some { name := field.name, value := some value }
      ∧ value.type = some field.type ∧ ∀ cs, value = .string cs → Char.ofNat 0 ∉ cs) :
    Kept api schema doc := by
  refine ⟨cString_eq_self htext, fun field hfield => ?_⟩
  obtain ⟨value, hfirst, hlast, htype, hnul⟩ := hfields field hfield
  refine ⟨value, _, .value value, hfirst, hlast, ?_, api.cast_own _ _ htype⟩
  cases value with
  | bytes _ => cases htype
  | string cs => exact congrArg (fun cs => [Cell.value (.string cs)]) (cString_eq_self (hnul cs rfl))
  | _ => rfl

/-- An appender that takes values of the type of their column only. -/
def strictApi : AppenderApi where
  cast
    | .uuid, .value (.string id) => some (.value (.string id))
    | .text, .value (.string text) => some (.value (.string text))
    | .field _, .null => some .null
    | .field type, .value value => if value.type = some type then some (.value value) else none
    | .vector dimension, .vector v => if v.length = dimension then some (.vector v) else none
    | _, _ => none
  closeUnended _ := some []
  cast_uuid _ _ := rfl
  cast_text _ := rfl
  cast_vector _ _ h := if_pos h
  cast_own _ _ h := if_pos h
  cast_typed type cell value h := by
    cases cell with
    | null => cases h
    | vector v => cases h
    | value v =>
        obtain ⟨htype, heq⟩ := Option.ite_none_right_eq_some.mp h
        cases heq
        exact htype
  cast_null _ := rfl
  closeUnended_sublist rows _ h := Option.some.inj h ▸ List.nil_sublist rows

/-- Sixteen ids, again and again. -/
def sixteenIds : Uuids where
  next n := uuidEnding (Nat.digitChar (n % 16))
  isUuid n := by
    have hall : ∀ m : Fin 16, IsUuid (uuidEnding (Nat.digitChar m)) := by decide
    exact hall ⟨n % 16, Nat.mod_lt n (by decide)⟩

/-- One number. -/
def pageSchema : List FieldSchema := [{ name := "page".toList, type := .int32 }]

/-- A table of pages, with some rows. -/
def pageTable (rows : List StoredRow) (hids : (rows.map (·.id)).Nodup)
    (huuid : ∀ row ∈ rows, IsUuid row.id)
    (htyped : ∀ row ∈ rows, List.Forall₂
      (fun field value => ∀ v ∈ value, Value.type v = some field.type) pageSchema row.metadata) :
    Table where
  dimension := 0
  schema := pageSchema
  rows := rows
  names_nodup := by decide
  ids_nodup := hids
  ids_uuid := huuid
  typed := htyped

/-- A document with a page number, or null. -/
def pageDocument (value : Option Value) : Document where
  id := []
  text := "A".toList
  metadata := [{ name := "page".toList, value := value, isNull := value.isNone }]

/-- The row of such a document. -/
def pageRow (value : Option Value) : StoredRow where
  id := uuidEnding '0'
  text := "A".toList
  vector := []
  metadata := [value]

theorem readsBack_pageDocument :
    ReadsBack plainDb
      (pageTable [pageRow (some (.int 7))] (by decide) (by decide)
        (by simp [pageSchema, pageRow, Value.type]))
      [pageDocument (some (.int 7))]
      { returnedIds := [uuidEnding '0'], failedDocuments := [], affectedRows := 1 } := by
  have hadd : addDocuments strictApi true (fun _ => []) sixteenIds
      (pageTable [] (by decide) (by simp) (by simp)) [pageDocument (some (.int 7))] = some
        (pageTable [pageRow (some (.int 7))] (by decide) (by decide)
          (by simp [pageSchema, pageRow, Value.type]),
          { returnedIds := [uuidEnding '0'], failedDocuments := [], affectedRows := 1 }) := rfl
  refine (readsBack_iff hadd (List.nodup_singleton _) fun st hst => nomatch hst).mpr ?_
  intro doc hdoc
  obtain rfl := List.mem_singleton.mp hdoc
  refine ⟨by decide, kept_of_own (by decide) fun field hfield => ?_⟩
  obtain rfl := List.mem_singleton.mp hfield
  exact ⟨.int 7, by decide, by decide, by decide, fun cs h => nomatch h⟩

/-- A null is stored, and cannot be read back. -/
theorem not_readsBack_null :
    ∃ table' result,
      addDocuments strictApi true (fun _ => []) sixteenIds
        (pageTable [] (by decide) (by simp) (by simp)) [pageDocument none] = some (table', result)
      ∧ ¬ ReadsBack plainDb table' [pageDocument none] result := by
  refine ⟨pageTable [pageRow none] (by decide) (by decide) (by simp [pageSchema, pageRow]), _, rfl,
    ?_⟩
  rintro ⟨read, hread, -⟩
  cases hread

end Instinct.StoredDocuments
