/-
Instinct/DuckDbStore.lean

`BaseDuckDBStore`: documents as the rows of a table, and how they are found again.

A result is read by column positions: the id and the text first, then the fields of
the schema.  `MultiGetDocuments` selects these columns by name, `FindDocuments`
selects `*`, which has the vector in between.

So `FindDocuments` gives what `MultiGetDocuments` does if and only if nothing comes
in between, or each column happens to show what the one before it holds
(`sameDocument_iff`).  The limit and the offset of the request go nowhere, so that
the page must be all that there is to find, unless a text that misses the query makes
up for it (`findsRight_servable`).

The ids of `make_mget_sql` and `make_delete_sql` go into a text as they are.  What such
a text selects is known for ids that are the UUIDs of the column only.
-/
import Instinct.SqlSelection
import Instinct.SqlSplices
import Mathlib.Data.List.Forall2
import Mathlib.Data.List.Nodup
import Mathlib.Data.Rat.Defs

namespace Instinct.DuckDbStore

open SqlSelection SqlConditions SqlBuilder SqlSplices

/-! ### The model -/

inductive FieldType
  | int32 | int64 | float | double | bool | varchar
  deriving Repr, DecidableEq

structure FieldSchema where
  name : List Char
  type : FieldType
  deriving DecidableEq

/-- The `value` of a `PrimitiveVariable`.  Floating point numbers are finite here. -/
inductive Value
  | int (value : Int32)
  | long (value : Int64)
  | float (value : ℚ)
  | double (value : ℚ)
  | bool (value : Bool)
  | string (value : List Char)
  | bytes (value : List UInt8)
  deriving DecidableEq

/-- The type of column that holds such values. -/
def Value.type : Value → Option FieldType
  | int _ => some .int32
  | long _ => some .int64
  | float _ => some .float
  | double _ => some .double
  | bool _ => some .bool
  | string _ => some .varchar
  | bytes _ => none

/-- `PrimitiveVariable`. -/
structure MetadataItem where
  name : List Char
  value : Option Value
  isNull : Bool := false
  deriving DecidableEq

structure Document where
  id : List Char
  text : List Char
  metadata : List MetadataItem
  deriving DecidableEq

/-- A row as it was appended; a metadata field without value is `NULL`. -/
structure StoredRow where
  id : List Char
  text : List Char
  vector : List ℚ
  metadata : List (Option Value)
  deriving DecidableEq

/-- A cell of a result. -/
inductive Cell
  | null
  | value (value : Value)
  | vector (components : List ℚ)
  deriving DecidableEq

def Cell.ofMetadata : Option Value → Cell
  | none => null
  | some v => value v

/-- The columns of `make_create_table_sql`. -/
def columnNames (dimension : Nat) (schema : List FieldSchema) : List (List Char) :=
  "id".toList :: "text".toList
    :: ((if 0 < dimension then ["vector".toList] else []) ++ schema.map (·.name))

/-- The places of the dashes in a UUID. -/
def uuidDashes : List Nat := [8, 13, 18, 23]

/-- A UUID as `GenerateUUIDString` writes it, and as the column of ids gives it back. -/
def IsUuid (id : List Char) : Prop :=
  id.length = 36 ∧ ∀ entry ∈ id.zipIdx,
    if entry.2 ∈ uuidDashes then entry.1 = '-' else entry.1 ∈ "0123456789abcdef".toList

instance : DecidablePred IsUuid := fun _ => inferInstanceAs (Decidable (_ ∧ _))

theorem mem_of_isUuid {id : List Char} {c : Char} (h : IsUuid id) (hc : c ∈ id) :
    c ∈ "-0123456789abcdef".toList := by
  obtain ⟨n, hn, rfl⟩ := List.getElem_of_mem hc
  have hentry := h.2 (id[n], n) (List.mem_zipIdx_iff_getElem?.mpr (List.getElem?_eq_getElem hn))
  have hmore : "-0123456789abcdef".toList = '-' :: "0123456789abcdef".toList := rfl
  rw [hmore, List.mem_cons]
  split at hentry
  · exact .inl hentry
  · exact .inr hentry

/-- The table of a store.  Two columns of one name cannot be created, the id is a UUID and the
primary key, and a column holds values of its type. -/
structure Table where
  dimension : Nat
  schema : List FieldSchema
  rows : List StoredRow
  names_nodup : (columnNames dimension schema).Nodup
  ids_nodup : (rows.map (·.id)).Nodup
  ids_uuid : ∀ row ∈ rows, IsUuid row.id
  typed : ∀ row ∈ rows, List.Forall₂
    (fun field value => ∀ v ∈ value, Value.type v = some field.type) schema row.metadata

/-- The cells of a row for `*`. -/
def Table.star (table : Table) (row : StoredRow) : List Cell :=
  .value (.string row.id) :: .value (.string row.text)
    :: ((if 0 < table.dimension then [.vector row.vector] else [])
      ++ row.metadata.map Cell.ofMetadata)

/-- The cells of a row for a list of columns. -/
def Table.select (table : Table) (names : List (List Char)) (row : StoredRow) : List Cell :=
  names.filterMap fun name =>
    ((columnNames table.dimension table.schema).zip (table.star row)).lookup name

inductive SortOrder
  | desc | asc
  deriving Repr, DecidableEq

/-- `FieldSort`. -/
structure FieldSort where
  fieldName : List Char
  order : SortOrder
  deriving DecidableEq

/-- The clauses that `SQLBuilder::ToSelectString` puts together behind the list of columns. -/
structure SelectStatement where
  condition : Option (List Char)
  orderBy : List FieldSort
  limit : Int
  offset : Int
  deriving DecidableEq

/-- `SQLBuilder::ToSelectString`, where `-1` is the default of `offset` and `limit`.  The text
of the query is there when the query is set, and `build_sorters` skips the sorters without a
field. -/
def toSelectString (condition : Option (List Char)) (sorters : List (Option FieldSort))
    (offset limit : Int) : SelectStatement where
  condition := condition
  orderBy := sorters.filterMap id
  limit := limit
  offset := offset

/-- Behind `WHERE` in `make_mget_sql`. -/
def mgetCondition (ids : List (List Char)) : List Char :=
  "id in (".toList ++ ids.flatMap (fun id => '\'' :: (id ++ ['\'', ','])) ++ [')']

/-- Behind `WHERE` in `make_delete_sql`. -/
def deleteCondition (ids : List (List Char)) : List Char :=
  "id IN (".toList ++ quotedIds ids ++ [')']

/-- What is left to DuckDB. -/
structure DuckDb where
  /-- The rows for which the text behind `WHERE` is true; none if it is no condition. -/
  selects : Table → List Char → Option (StoredRow → Bool)
  /-- The order of `ORDER BY`; none if there is no such column. -/
  precedes : Table → List FieldSort → Option (StoredRow → StoredRow → Prop)
  /-- `GetValue` of a type that the cell does not have; none if it throws. -/
  convert : FieldType → Cell → Option Value
  run : Table → SelectStatement → Option (List StoredRow)
  precedes_nil : ∀ table, (precedes table []).isSome
  /-- Texts with UUIDs as literals. -/
  selects_ids : ∀ table ids condition, (∀ id ∈ ids, IsUuid id) → ids ≠ [] →
    condition = mgetCondition ids ∨ condition = deleteCondition ids →
    ∃ selected, selects table condition = some selected
      ∧ ∀ row ∈ table.rows, selected row = decide (row.id ∈ ids)
  run_spec : ∀ table statement,
    match statement.condition.elim (some fun _ => true) (selects table),
      precedes table statement.orderBy with
    | some selected, some le => ∃ result, Selection table.rows selected le result
        ∧ run table statement = some (page statement.limit statement.offset result)
    | _, _ => run table statement = none

/-- `row.GetValue<T>`. -/
def DuckDb.getValue (db : DuckDb) (type : FieldType) : Cell → Option Value
  | .null => none
  | .value value => if value.type = some type then some value else db.convert type (.value value)
  | .vector components => db.convert type (.vector components)

/-- The fields of the schema, from the columns at hand on. -/
def readMetadata (db : DuckDb) : List FieldSchema → List Cell → Option (List MetadataItem)
  | [], _ => some []
  | _ :: _, [] => none
  | field :: schema, cell :: cells =>
      (db.getValue field.type cell).bind fun value =>
        (readMetadata db schema cells).map ({ name := field.name, value := some value } :: ·)

/-- One row of `observe_query_result`. -/
def readDocument (db : DuckDb) (schema : List FieldSchema) : List Cell → Option Document
  | .value (.string id) :: .value (.string text) :: cells =>
      (readMetadata db schema cells).map fun metadata => { id, text, metadata }
  | _ => none

/-- `observe_query_result`; none if it throws on the way. -/
def observeQueryResult (db : DuckDb) (schema : List FieldSchema) (result : List (List Cell)) :
    Option (List Document) :=
  result.mapM (readDocument db schema)

/-- `MultiGetDocuments`, with the columns of `make_mget_sql`. -/
def multiGetDocuments (db : DuckDb) (table : Table) (ids : List (List Char)) :
    Option (List Document) :=
  if ids = [] then some []
  else (db.run table
      { condition := mgetCondition ids, orderBy := [], limit := -1, offset := -1 }).bind
    fun rows => observeQueryResult db table.schema (rows.map
      (table.select ("id".toList :: "text".toList :: table.schema.map (·.name))))

/-- `FindRequest`, where a query may be unset, and a sorter too. -/
structure FindRequest (Query : Type) where
  limit : Int32
  offset : Int32
  query : Option Query
  sorters : List (Option FieldSort)

section Find

variable {Query : Type} (db : DuckDb) (table : Table) (buildSearchQuery : Query → List Char)
  (asks : Query → StoredRow → Bool) (request : FindRequest Query)

/-- `FindDocuments`. -/
def findDocuments : Option (List Document) :=
  (db.run table (toSelectString (request.query.map buildSearchQuery) request.sorters (-1) (-1))).bind
    fun rows => observeQueryResult db table.schema (rows.map table.star)

/-- The rows that the request asks for. -/
def FindRequest.matching (row : StoredRow) : Bool := request.query.elim true fun query =>
  asks query row

/-- **What is asked of `FindDocuments`**: the documents of the requested page, each as
`MultiGetDocuments` gives it. -/
def FindsRight : Prop :=
  ∃ docs, findDocuments db table buildSearchQuery request = some docs ∧ ∃ le requested,
    db.precedes table (request.sorters.filterMap id) = some le
      ∧ Selection table.rows (request.matching asks) le requested
      ∧ List.Forall₂ (fun row doc => multiGetDocuments db table [row.id] = some [doc])
        (page request.limit.toInt request.offset.toInt requested) docs

/-- Where a vector comes in between, each column shows what the one before it holds. -/
def ShowsColumnBefore (row : StoredRow) : Prop :=
  List.Forall₂ (fun field (cells : Cell × Option Value) =>
      db.getValue field.type cells.1 = cells.2)
    table.schema ((.vector row.vector :: row.metadata.map Cell.ofMetadata).zip row.metadata)

/-- The row is read as it is from both lists of columns. -/
def ReadsRight (row : StoredRow) : Prop :=
  (∀ value ∈ row.metadata, value ≠ none) ∧ (table.dimension = 0 ∨ ShowsColumnBefore db table row)

/-- The text of the query is true for the rows that the query asks for, and for no others. -/
def MeansQuery : Prop :=
  ∃ selected, (request.query.map buildSearchQuery).elim (some fun _ => true)
      (db.selects table) = some selected
    ∧ ∀ row ∈ table.rows, selected row = request.matching asks row

/-- Limit and offset cut off none of the rows that the query asks for. -/
def FindRequest.AsksForAll : Prop :=
  CutsNothing request.limit.toInt request.offset.toInt
    (table.rows.filter (request.matching asks)).length

/-- A request that `FindDocuments` can serve. -/
structure Servable : Prop where
  means : MeansQuery db table buildSearchQuery asks request
  all : request.AsksForAll table asks
  sorts : (db.precedes table (request.sorters.filterMap id)).isSome
  reads : ∀ row ∈ table.rows, request.matching asks row = true → ReadsRight db table row

end Find

/-! ### Columns by name -/

section Columns

variable {α β : Type}

/-- With distinct names, each name has the cell at its place. -/
theorem lookup_zip [BEq α] [LawfulBEq α] {names : List α} {cells : List β}
    (hnodup : names.Nodup) {entry : α × β}
    (h : entry ∈ names.zip cells) : (names.zip cells).lookup entry.1 = some entry.2 := by
  induction names generalizing cells with
  | nil => cases h
  | cons name names ih =>
      obtain ⟨hname, hnames⟩ := List.nodup_cons.mp hnodup
      cases cells with
      | nil => cases h
      | cons cell cells =>
          rw [List.zip_cons_cons, List.lookup_cons]
          rcases List.mem_cons.mp h with rfl | hrest
          · rw [beq_self_eq_true]
          · have hne : entry.1 ≠ name := by
              rintro rfl
              exact hname (List.of_mem_zip hrest).1
            rw [beq_eq_false_iff_ne.mpr hne]
            exact ih hnames hrest

theorem filterMap_lookup {f : α → Option β} {names : List α} {cells : List β}
    (hlength : names.length = cells.length)
    (h : ∀ entry ∈ names.zip cells, f entry.1 = some entry.2) : names.filterMap f = cells := by
  induction names generalizing cells with
  | nil => exact (List.length_eq_zero_iff.mp hlength.symm).symm
  | cons name names ih =>
      cases cells with
      | nil => cases hlength
      | cons cell cells =>
          rw [List.zip_cons_cons] at h
          obtain ⟨hfirst, hrest⟩ := List.forall_mem_cons.mp h
          rw [List.filterMap_cons_some hfirst, ih (Nat.succ.inj hlength) hrest]

theorem mapM_eq_some_iff {f : α → Option β} {as : List α} {bs : List β} :
    as.mapM f = some bs ↔ List.Forall₂ (fun a b => f a = some b) as bs := by
  induction as generalizing bs with
  | nil =>
      rw [List.mapM_nil, List.forall₂_nil_left_iff]
      exact ⟨fun h => (Option.some.inj h).symm, fun h => congrArg some h.symm⟩
  | cons a as ih =>
      rw [List.mapM_cons, List.forall₂_cons_left_iff]
      constructor
      · intro h
        obtain ⟨b, hb, hrest⟩ := Option.bind_eq_some_iff.mp h
        obtain ⟨bs', hbs', heq⟩ := Option.bind_eq_some_iff.mp hrest
        exact ⟨b, bs', hb, ih.mp hbs', (Option.some.inj heq).symm⟩
      · rintro ⟨b, bs', hb, hrest, rfl⟩
        rw [hb, ih.mpr hrest]
        rfl

end Columns

section Rows

variable {db : DuckDb} {table : Table} {row : StoredRow} {doc : Document}

theorem Table.length_metadata (hrow : row ∈ table.rows) :
    table.schema.length = row.metadata.length := (table.typed row hrow).length_eq

/-- The columns of `make_mget_sql`: the id, the text and the fields, without the vector. -/
theorem select_mget (hrow : row ∈ table.rows) :
    table.select ("id".toList :: "text".toList :: table.schema.map (·.name)) row
      = .value (.string row.id) :: .value (.string row.text)
        :: row.metadata.map Cell.ofMetadata := by
  have hlength := table.length_metadata hrow
  refine filterMap_lookup (by simp [hlength]) fun entry hentry => lookup_zip table.names_nodup ?_
  -- the columns before and behind the vector stand in the same order in the whole row
  rw [List.zip_cons_cons, List.zip_cons_cons] at hentry
  unfold columnNames Table.star
  rw [List.zip_cons_cons, List.zip_cons_cons]
  rcases List.mem_cons.mp hentry with rfl | hentry
  · exact List.mem_cons_self
  · refine List.mem_cons_of_mem _ ?_
    rcases List.mem_cons.mp hentry with rfl | hentry
    · exact List.mem_cons_self
    · refine List.mem_cons_of_mem _ ?_
      split
      · exact List.mem_cons_of_mem _ hentry
      · exact hentry

/-- The metadata items of a row, each under the name of its field. -/
def ownItems (schema : List FieldSchema) (values : List (Option Value)) : List MetadataItem :=
  List.zipWith (fun field value => { name := field.name, value := value }) schema values

/-- Reading columns gives the values, if each cell is read as its value. -/
theorem readMetadata_eq_iff {schema : List FieldSchema} {cells : List Cell}
    {values : List (Option Value)} (hlength : schema.length = values.length)
    (hcells : values.length ≤ cells.length) (hvalues : ∀ value ∈ values, value ≠ none) :
    readMetadata db schema cells = some (ownItems schema values)
      ↔ List.Forall₂ (fun field (cells : Cell × Option Value) =>
        db.getValue field.type cells.1 = cells.2) schema (cells.zip values) := by
  induction schema generalizing cells values with
  | nil =>
      obtain rfl := List.length_eq_zero_iff.mp hlength.symm
      rw [List.zip_nil_right]
      exact ⟨fun _ => .nil, fun _ => rfl⟩
  | cons field schema ih =>
      obtain ⟨value, values, rfl⟩ := List.exists_cons_of_length_eq_add_one hlength.symm
      obtain ⟨hvalue, hvalues⟩ := List.forall_mem_cons.mp hvalues
      cases cells with
      | nil => exact absurd hcells (Nat.not_succ_le_zero _)
      | cons cell cells =>
          have hrest := ih (Nat.succ.inj hlength) (Nat.le_of_succ_le_succ hcells) hvalues
          rw [List.zip_cons_cons, List.forall₂_cons, ← hrest, readMetadata]
          obtain ⟨v, rfl⟩ := Option.ne_none_iff_exists'.mp hvalue
          constructor
          · intro h
            obtain ⟨read, hread, hmap⟩ := Option.bind_eq_some_iff.mp h
            obtain ⟨items, hitems, heq⟩ := Option.map_eq_some_iff.mp hmap
            have hcons := List.cons.inj heq
            have hsame : some read = some v := congrArg MetadataItem.value hcons.1
            exact ⟨hread.trans hsame, hitems.trans (congrArg some hcons.2)⟩
          · rintro ⟨hread, hitems⟩
            rw [hread, hitems]
            rfl

theorem getValue_ofMetadata {type : FieldType} {value : Option Value} (hne : value ≠ none)
    (htype : ∀ v ∈ value, Value.type v = some type) :
    db.getValue type (Cell.ofMetadata value) = value := by
  obtain ⟨v, rfl⟩ := Option.ne_none_iff_exists'.mp hne
  exact if_pos (htype v rfl)

/-- Columns that hold the values of a row are read as they are. -/
theorem readMetadata_own (hrow : row ∈ table.rows) (hvalues : ∀ value ∈ row.metadata, value ≠ none) :
    readMetadata db table.schema (row.metadata.map Cell.ofMetadata)
      = some (ownItems table.schema row.metadata) := by
  rw [readMetadata_eq_iff (table.length_metadata hrow) (by rw [List.length_map]) hvalues]
  have htyped := table.typed row hrow
  generalize table.schema = schema, row.metadata = values at htyped hvalues
  induction htyped with
  | nil => exact .nil
  | cons hfirst _ ih =>
      obtain ⟨hvalue, hvalues⟩ := List.forall_mem_cons.mp hvalues
      exact .cons (getValue_ofMetadata hvalue hfirst) (ih hvalues)

/-- A `NULL` among the columns that are read throws. -/
theorem readMetadata_null {schema : List FieldSchema} {values : List (Option Value)}
    (hlength : schema.length = values.length) (hnull : none ∈ values) :
    readMetadata db schema (values.map Cell.ofMetadata) = none := by
  induction schema generalizing values with
  | nil =>
      rw [List.length_eq_zero_iff.mp hlength.symm] at hnull
      cases hnull
  | cons field schema ih =>
      obtain ⟨value, values, rfl⟩ := List.exists_cons_of_length_eq_add_one hlength.symm
      rw [List.map_cons, readMetadata]
      cases value with
      | none => rfl
      | some v =>
          have hrest : none ∈ values := (List.mem_cons.mp hnull).resolve_left nofun
          rw [ih (Nat.succ.inj hlength) hrest]
          exact Option.bind_fun_none _

/-- The document of a row as `MultiGetDocuments` reads it. -/
def Table.document (table : Table) (row : StoredRow) : Document where
  id := row.id
  text := row.text
  metadata := ownItems table.schema row.metadata

theorem readDocument_mget {read : Document} (hrow : row ∈ table.rows) :
    readDocument db table.schema (table.select
        ("id".toList :: "text".toList :: table.schema.map (·.name)) row) = some read
      ↔ (∀ value ∈ row.metadata, value ≠ none) ∧ read = table.document row := by
  rw [select_mget hrow, readDocument]
  constructor
  · intro h
    have hvalues : ∀ value ∈ row.metadata, value ≠ none := by
      rintro value hvalue rfl
      rw [readMetadata_null (table.length_metadata hrow) hvalue] at h
      cases h
    rw [readMetadata_own hrow hvalues] at h
    exact ⟨hvalues, (Option.some.inj h).symm⟩
  · rintro ⟨hvalues, rfl⟩
    rw [readMetadata_own hrow hvalues]
    rfl

/-- The rows of ids, in the order in which DuckDB gives them. -/
theorem exists_run_ids (db : DuckDb) (table : Table) {ids : List (List Char)}
    (hids : ∀ id ∈ ids, IsUuid id) (hne : ids ≠ []) :
    ∃ rows, db.run table
        { condition := mgetCondition ids, orderBy := [], limit := -1, offset := -1 } = some rows
      ∧ rows.Perm (table.rows.filter fun row => row.id ∈ ids) := by
  obtain ⟨selected, hselected, hsame⟩ := db.selects_ids table ids _ hids hne (.inl rfl)
  obtain ⟨le, hle⟩ := Option.isSome_iff_exists.mp (db.precedes_nil table)
  have hspec := db.run_spec table
    { condition := mgetCondition ids, orderBy := [], limit := -1, offset := -1 }
  simp only [Option.elim_some, hselected, hle] at hspec
  obtain ⟨result, hresult, hrun⟩ := hspec
  have hneg : (-1 : Int) ≤ 0 := by decide
  rw [page_of_nonpos hneg hneg] at hrun
  exact ⟨result, hrun, (hresult.congr hsame).perm⟩

/-- Every selected row must be without `NULL`. -/
theorem exists_multiGetDocuments (db : DuckDb) (table : Table) {ids : List (List Char)}
    (hids : ∀ id ∈ ids, IsUuid id) :
    ∃ rows : List StoredRow, rows.Perm (table.rows.filter fun row => row.id ∈ ids)
      ∧ ∀ docs, multiGetDocuments db table ids = some docs
        ↔ (∀ row ∈ table.rows, row.id ∈ ids → ∀ value ∈ row.metadata, value ≠ none)
          ∧ docs = rows.map table.document := by
  rcases eq_or_ne ids [] with rfl | hne
  · refine ⟨[], by simp, fun docs => ?_⟩
    show some [] = some docs ↔ _
    simp [eq_comm]
  · obtain ⟨rows, hrun, hperm⟩ := exists_run_ids db table hids hne
    have hmem : ∀ row, row ∈ rows ↔ row ∈ table.rows ∧ row.id ∈ ids := by
      intro row
      rw [hperm.mem_iff, List.mem_filter, decide_eq_true_iff]
    refine ⟨rows, hperm, fun docs => ?_⟩
    rw [multiGetDocuments, if_neg hne, hrun, Option.bind_some, observeQueryResult, mapM_eq_some_iff,
      List.forall₂_map_left_iff]
    constructor
    · intro h
      have heach : List.Forall₂ (fun row doc => (∀ value ∈ row.metadata, value ≠ none)
          ∧ doc = table.document row) rows docs := by
        refine ((List.forall₂_and_left _ _).mpr ⟨fun row hrow => ((hmem row).mp hrow).1, h⟩).imp ?_
        exact fun row doc h => (readDocument_mget h.1).mp h.2
      refine ⟨fun row hrow hid => ?_, ?_⟩
      · exact ((List.forall₂_and_left _ _).mp heach).1 row ((hmem row).mpr ⟨hrow, hid⟩)
      · rw [← List.forall₂_eq_eq_eq, List.forall₂_map_right_iff]
        exact (heach.imp fun row doc h => h.2).flip
    · rintro ⟨hvalues, rfl⟩
      rw [List.forall₂_map_right_iff, List.forall₂_same]
      intro row hrow
      obtain ⟨hrow, hid⟩ := (hmem row).mp hrow
      exact (readDocument_mget hrow).mpr ⟨hvalues row hrow hid, rfl⟩

theorem multiGetDocuments_row (hrow : row ∈ table.rows) :
    multiGetDocuments db table [row.id] = some [doc]
      ↔ (∀ value ∈ row.metadata, value ≠ none) ∧ doc = table.document row := by
  have hids : ∀ id ∈ [row.id], IsUuid id := List.forall_mem_singleton.mpr (table.ids_uuid row hrow)
  obtain ⟨rows, hperm, hget⟩ := exists_multiGetDocuments db table hids
  have hrows : rows = [row] := by
    refine List.perm_singleton.mp (hperm.trans ?_)
    have hnodup : table.rows.Nodup := List.Nodup.of_map _ table.ids_nodup
    refine (List.perm_ext_iff_of_nodup (hnodup.filter _) (List.nodup_singleton row)).mpr
      fun other => ?_
    rw [List.mem_filter, decide_eq_true_iff, List.mem_singleton, List.mem_singleton]
    constructor
    · rintro ⟨hother, hid⟩
      exact List.inj_on_of_nodup_map table.ids_nodup hother hrow hid
    · rintro rfl
      exact ⟨hrow, rfl⟩
  rw [hget, hrows, List.map_singleton, List.singleton_inj]
  refine and_congr_left fun _ => ⟨fun h => h row hrow (List.mem_singleton_self _), ?_⟩
  intro h other hother hid
  obtain rfl := List.inj_on_of_nodup_map table.ids_nodup hother hrow (List.mem_singleton.mp hid)
  exact h

theorem id_of_readDocument (h : readDocument db table.schema (table.star row) = some doc) :
    doc.id = row.id := by
  obtain ⟨_, _, heq⟩ := Option.map_eq_some_iff.mp h
  exact (congrArg Document.id heq).symm

/-- **The same document from both lists of columns.** -/
theorem sameDocument_iff (hrow : row ∈ table.rows) :
    (readDocument db table.schema (table.star row) = some doc
        ∧ multiGetDocuments db table [row.id] = some [doc])
      ↔ ReadsRight db table row ∧ doc = table.document row := by
  rw [multiGetDocuments_row hrow, ReadsRight]
  have hlength := table.length_metadata hrow
  rcases Nat.eq_zero_or_pos table.dimension with hzero | hpos
  · have hstar : table.star row = table.select
        ("id".toList :: "text".toList :: table.schema.map (·.name)) row := by
      rw [select_mget hrow, Table.star, if_neg (by omega), List.nil_append]
    rw [hstar, readDocument_mget hrow]
    tauto
  · have hstar : readDocument db table.schema (table.star row)
        = (readMetadata db table.schema (.vector row.vector :: row.metadata.map Cell.ofMetadata)).map
          fun metadata => { id := row.id, text := row.text, metadata } := by
      rw [Table.star, if_pos hpos]
      rfl
    rw [hstar, or_iff_right (by omega)]
    constructor
    · rintro ⟨hread, hvalues, rfl⟩
      obtain ⟨items, hitems, heq⟩ := Option.map_eq_some_iff.mp hread
      obtain rfl : items = ownItems table.schema row.metadata := congrArg Document.metadata heq
      exact ⟨⟨hvalues, (readMetadata_eq_iff hlength (by simp) hvalues).mp hitems⟩, rfl⟩
    · rintro ⟨⟨hvalues, hshown⟩, rfl⟩
      rw [(readMetadata_eq_iff hlength (by simp) hvalues).mpr hshown]
      exact ⟨rfl, hvalues, rfl⟩

end Rows

/-! ### Finding documents -/

section Finding

variable {Query : Type} {db : DuckDb} {table : Table} {buildSearchQuery : Query → List Char}
  {asks : Query → StoredRow → Bool} {request : FindRequest Query}

/-- Rows with the same ids are the same rows. -/
theorem eq_of_map_id {rows rows' : List StoredRow} (hrows : ∀ row ∈ rows, row ∈ table.rows)
    (hrows' : ∀ row ∈ rows', row ∈ table.rows) (h : rows.map (·.id) = rows'.map (·.id)) :
    rows = rows' := by
  induction rows generalizing rows' with
  | nil => exact (List.map_eq_nil_iff.mp h.symm).symm
  | cons row rows ih =>
      obtain ⟨row', rows', rfl⟩ : ∃ a as, rows' = a :: as :=
        List.exists_cons_of_ne_nil (by rintro rfl; cases h)
      obtain ⟨hid, hids⟩ := List.cons.inj h
      obtain ⟨hrow, hrows⟩ := List.forall_mem_cons.mp hrows
      obtain ⟨hrow', hrows'⟩ := List.forall_mem_cons.mp hrows'
      rw [List.inj_on_of_nodup_map table.ids_nodup hrow hrow' hid, ih hrows hrows' hids]

/-- What DuckDB gives for the statement of a request. -/
theorem exists_run {selected : StoredRow → Bool} {le : StoredRow → StoredRow → Prop}
    (hselected : (request.query.map buildSearchQuery).elim (some fun _ => true)
      (db.selects table) = some selected)
    (hle : db.precedes table (request.sorters.filterMap id) = some le) :
    ∃ rows, db.run table (toSelectString (request.query.map buildSearchQuery) request.sorters
      (-1) (-1)) = some rows ∧ Selection table.rows selected le rows := by
  have hspec := db.run_spec table
    { condition := request.query.map buildSearchQuery
      orderBy := request.sorters.filterMap id, limit := -1, offset := -1 }
  simp only [hselected, hle] at hspec
  obtain ⟨result, hresult, hrun⟩ := hspec
  have hneg : (-1 : Int) ≤ 0 := by decide
  rw [page_of_nonpos hneg hneg] at hrun
  exact ⟨result, hrun, hresult⟩

theorem selects_of_run {rows : List StoredRow}
    (hrun : db.run table (toSelectString (request.query.map buildSearchQuery) request.sorters
      (-1) (-1)) = some rows) :
    ∃ selected le, (request.query.map buildSearchQuery).elim (some fun _ => true)
        (db.selects table) = some selected
      ∧ db.precedes table (request.sorters.filterMap id) = some le
      ∧ Selection table.rows selected le rows := by
  have hspec := db.run_spec table
    (toSelectString (request.query.map buildSearchQuery) request.sorters (-1) (-1))
  rw [hrun] at hspec
  split at hspec
  · rename_i selected le hselected hle
    obtain ⟨rows', hrun', hrows'⟩ := exists_run hselected hle
    obtain rfl := Option.some.inj (hrun.symm.trans hrun')
    exact ⟨selected, le, hselected, hle, hrows'⟩
  · cases hspec

/-- A servable request is served. -/
theorem findsRight_of_servable (h : Servable db table buildSearchQuery asks request) :
    FindsRight db table buildSearchQuery asks request := by
  obtain ⟨selected, hselected, hsame⟩ := h.means
  obtain ⟨le, hle⟩ := Option.isSome_iff_exists.mp h.sorts
  obtain ⟨rows, hrun, hrows⟩ := exists_run hselected hle
  have hmatching : Selection table.rows (request.matching asks) le rows := hrows.congr hsame
  have hpage : page request.limit.toInt request.offset.toInt rows = rows := by
    rw [page_eq_self_iff, hmatching.perm.length_eq]
    exact h.all
  have hread : ∀ row ∈ rows, readDocument db table.schema (table.star row)
      = some (table.document row) ∧ multiGetDocuments db table [row.id]
        = some [table.document row] := by
    intro row hrow
    obtain ⟨hmem, hasked⟩ := hmatching.mem_iff.mp hrow
    exact (sameDocument_iff hmem).mpr ⟨h.reads row hmem hasked, rfl⟩
  refine ⟨rows.map table.document, ?_, le, rows, hle, hmatching, ?_⟩
  · rw [findDocuments, hrun, Option.bind_some, observeQueryResult, mapM_eq_some_iff,
      List.forall₂_map_left_iff, List.forall₂_map_right_iff, List.forall₂_same]
    exact fun row hrow => (hread row hrow).1
  · rw [hpage, List.forall₂_map_right_iff, List.forall₂_same]
    exact fun row hrow => (hread row hrow).2

/-- When the result is right, the rows that the text selects are the page, and each is read
right. -/
theorem selects_of_findsRight (h : FindsRight db table buildSearchQuery asks request) :
    ∃ selected le requested rows, (request.query.map buildSearchQuery).elim (some fun _ => true)
        (db.selects table) = some selected
      ∧ db.precedes table (request.sorters.filterMap id) = some le
      ∧ Selection table.rows (request.matching asks) le requested
      ∧ Selection table.rows selected le rows
      ∧ page request.limit.toInt request.offset.toInt requested = rows
      ∧ ∀ row ∈ rows, ReadsRight db table row := by
  obtain ⟨docs, hfind, le, requested, hle, hrequested, hdocs⟩ := h
  obtain ⟨rows, hrun, hobserve⟩ := Option.bind_eq_some_iff.mp hfind
  obtain ⟨selected, le', hselected, hle', hrows⟩ := selects_of_run hrun
  obtain rfl := Option.some.inj (hle.symm.trans hle')
  rw [observeQueryResult, mapM_eq_some_iff, List.forall₂_map_left_iff] at hobserve
  have hrowMem : ∀ row ∈ rows, row ∈ table.rows := fun row hrow => (hrows.mem_iff.mp hrow).1
  have hpageMem : ∀ row ∈ page request.limit.toInt request.offset.toInt requested,
      row ∈ table.rows := fun row hrow => (hrequested.mem_iff.mp (mem_of_mem_page hrow)).1
  -- both lists of rows go with the documents, whose ids are those of the rows
  have hids : rows.map (·.id) = (page request.limit.toInt request.offset.toInt requested).map
      (·.id) := by
    have hfound : rows.map (·.id) = docs.map (·.id) := by
      rw [← List.forall₂_eq_eq_eq, List.forall₂_map_left_iff, List.forall₂_map_right_iff]
      exact hobserve.imp fun row doc h => (id_of_readDocument h).symm
    rw [hfound, eq_comm, ← List.forall₂_eq_eq_eq, List.forall₂_map_left_iff,
      List.forall₂_map_right_iff]
    refine ((List.forall₂_and_left _ _).mpr ⟨hpageMem, hdocs⟩).imp fun row doc h => ?_
    exact congrArg Document.id ((multiGetDocuments_row h.1).mp h.2).2.symm
  have hsame := eq_of_map_id hrowMem hpageMem hids
  refine ⟨selected, le, requested, rows, hselected, hle, hrequested, hrows, hsame.symm, ?_⟩
  intro row hrow
  rw [← hsame] at hdocs
  obtain ⟨n, hn, rfl⟩ := List.getElem_of_mem hrow
  have hdoc : n < docs.length := hdocs.length_eq ▸ hn
  exact ((sameDocument_iff (hrowMem _ hrow)).mp ⟨hobserve.get hn hdoc, hdocs.get hn hdoc⟩).1

/-- One of the two defects of the page alone does not go unseen. -/
theorem servable_of_findsRight (h : FindsRight db table buildSearchQuery asks request)
    (hone : MeansQuery db table buildSearchQuery asks request ∨ request.AsksForAll table asks) :
    Servable db table buildSearchQuery asks request := by
  obtain ⟨selected, le, requested, rows, hselected, hle, hrequested, hrows, hpage, hreads⟩ :=
    selects_of_findsRight h
  have hlength : requested.length = (table.rows.filter (request.matching asks)).length :=
    hrequested.perm.length_eq
  have hself : page request.limit.toInt request.offset.toInt requested = requested := by
    rcases hone with ⟨selected', hselected', hsame⟩ | hall
    · obtain rfl := Option.some.inj (hselected.symm.trans hselected')
      -- as many rows are selected as the query asks for
      have hcount : rows.length = requested.length := by
        rw [hlength, (hrows.congr hsame).perm.length_eq]
      rw [← hpage] at hcount
      exact (page_sublist _ _ _).eq_of_length hcount
    · rw [page_eq_self_iff, hlength]
      exact hall
  obtain rfl : rows = requested := hpage.symm.trans hself
  refine ⟨⟨selected, hselected, fun row hrow => ?_⟩, ?_, ?_, fun row hrow hasked => ?_⟩
  · have hselects : row ∈ rows ↔ _ := hrows.mem_iff
    have hasks : row ∈ rows ↔ _ := hrequested.mem_iff
    rw [Bool.eq_iff_iff]
    exact ⟨fun hsel => (hasks.mp (hselects.mpr ⟨hrow, hsel⟩)).2,
      fun hasked => (hselects.mp (hasks.mpr ⟨hrow, hasked⟩)).2⟩
  · rw [FindRequest.AsksForAll, ← hlength, ← page_eq_self_iff]
    exact hself
  · rw [hle]
    rfl
  · exact hreads row (hrequested.mem_iff.mpr ⟨hrow, hasked⟩)

/-- **`FindDocuments` serves a request** if the text means the query, limit and offset cut nothing
off, the columns to sort by exist, and the rows are read right.  It serves no other, unless the
text misses the query and the page is not all there is, so that one may make up for the other. -/
theorem findsRight_servable :
    (Servable db table buildSearchQuery asks request →
        FindsRight db table buildSearchQuery asks request)
      ∧ (FindsRight db table buildSearchQuery asks request →
        Servable db table buildSearchQuery asks request
          ∨ ¬ MeansQuery db table buildSearchQuery asks request
            ∧ ¬ request.AsksForAll table asks) := by
  refine ⟨findsRight_of_servable, fun h => ?_⟩
  by_cases hone : MeansQuery db table buildSearchQuery asks request ∨ request.AsksForAll table asks
  · exact .inl (servable_of_findsRight h hone)
  · exact .inr (not_or.mp hone)

end Finding

/-! ### A database of literals -/

theorem no_quote_of_isUuid {id : List Char} (h : IsUuid id) : '\'' ∉ id := fun hquote =>
  absurd (mem_of_isUuid h hquote) (by decide)

/-- The literals of a text about ids. -/
theorem scan_ids {ids : List (List Char)} {condition : List Char} (hids : ∀ id ∈ ids, IsUuid id)
    (h : condition = mgetCondition ids ∨ condition = deleteCondition ids) :
    ∃ items, SqlLiterals.scan condition = some items
      ∧ ∀ value, .literal value ∈ items ↔ value ∈ ids := by
  rcases h with rfl | rfl
  · refine ⟨"id in (".toList.map .char ++ mgetItems ids ++ [.char ')'], ?_, fun value => ?_⟩
    · have hsep : SqlLiterals.Separated (mgetItems ids ++ [')'].map .char) :=
        separated_mgetItems ⟨by decide, trivial⟩
      have hfront : '\'' ∉ "id in (".toList := by decide
      have hscan := (scan_statement_iff hfront hsep).mpr
        fun value hvalue => no_quote_of_isUuid (hids value (mem_mgetItems.mp hvalue))
      rwa [renderRaw_mgetItems] at hscan
    · rw [← mem_mgetItems]
      simp
  · refine ⟨"id IN (".toList.map .char ++ deleteItems ids ++ [.char ')'], ?_, fun value => ?_⟩
    · have hsep : SqlLiterals.Separated (deleteItems ids ++ [')'].map .char) :=
        separated_deleteItems ⟨by decide, trivial⟩
      have hfront : '\'' ∉ "id IN (".toList := by decide
      have hscan := (scan_statement_iff hfront hsep).mpr
        fun value hvalue => no_quote_of_isUuid (hids value (mem_deleteItems.mp hvalue))
      rwa [renderRaw_deleteItems] at hscan
    · rw [← mem_deleteItems]
      simp

/-- The rows whose id is a literal of the text. -/
def literalIds (condition : List Char) : Option (StoredRow → Bool) :=
  (SqlLiterals.scan condition).map fun items row => items.contains (.literal row.id)

theorem exists_literalIds {ids : List (List Char)} {condition : List Char}
    (hids : ∀ id ∈ ids, IsUuid id)
    (h : condition = mgetCondition ids ∨ condition = deleteCondition ids) :
    ∃ selected, literalIds condition = some selected
      ∧ ∀ row, selected row = decide (row.id ∈ ids) := by
  obtain ⟨items, hscan, hitems⟩ := scan_ids hids h
  refine ⟨fun row => items.contains (.literal row.id), ?_, fun row => ?_⟩
  · rw [literalIds, hscan]
    rfl
  show items.contains (.literal row.id) = decide (row.id ∈ ids)
  rw [List.contains_eq_mem]
  exact decide_eq_decide.mpr (hitems row.id)

/-- A database without sorters, by what it selects. -/
def DuckDb.selecting (selects : Table → List Char → Option (StoredRow → Bool))
    (selects_ids : ∀ table ids condition, (∀ id ∈ ids, IsUuid id) → ids ≠ [] →
      condition = mgetCondition ids ∨ condition = deleteCondition ids →
      ∃ selected, selects table condition = some selected
        ∧ ∀ row ∈ table.rows, selected row = decide (row.id ∈ ids)) : DuckDb where
  selects := selects
  precedes _ sorters := if sorters = [] then some fun _ _ => True else none
  convert _ _ := none
  run table statement :=
    if statement.orderBy = [] then
      (statement.condition.elim (some fun _ => true) (selects table)).map fun selected =>
        page statement.limit statement.offset (table.rows.filter selected)
    else none
  precedes_nil _ := rfl
  selects_ids := selects_ids
  run_spec table statement := by
    by_cases horder : statement.orderBy = []
    · simp only [horder, if_true]
      generalize Option.elim statement.condition _ _ = result
      cases result with
      | none => rfl
      | some selected =>
          exact ⟨_, ⟨List.Perm.refl _, List.pairwise_of_forall fun _ _ => trivial⟩, rfl⟩
    · simp only [horder, if_false]
      split
      · rename_i hle
        cases hle
      · trivial

/-- A database that takes any text for a list of ids. -/
def plainDb : DuckDb :=
  .selecting (fun _ => literalIds) fun table ids condition hids _ htext => by
    obtain ⟨selected, hselected, hsame⟩ := exists_literalIds hids htext
    exact ⟨selected, hselected, fun row _ => hsame row⟩

/-- The UUIDs of the examples, by their last character. -/
def uuidEnding (c : Char) : List Char := "00000000-0000-4000-8000-00000000000".toList ++ [c]

/-- A table with a vector, a page number, and one row. -/
def vectorTable : Table where
  dimension := 1
  schema := [{ name := "page".toList, type := .int32 }]
  rows := [{ id := uuidEnding 'a', text := "A".toList, vector := [0], metadata := [some (.int 7)] }]
  names_nodup := by decide
  ids_nodup := by decide
  ids_uuid := by decide
  typed := by simp [Value.type]

/-- A table of two rows, without vector. -/
def textTable : Table where
  dimension := 0
  schema := []
  rows := [{ id := uuidEnding 'a', text := "A".toList, vector := [], metadata := [] },
    { id := uuidEnding 'b', text := "B".toList, vector := [], metadata := [] }]
  names_nodup := by decide
  ids_nodup := by decide
  ids_uuid := by decide
  typed := by simp

/-- A request for all rows. -/
def everything : FindRequest SearchQuery where
  limit := 0
  offset := 0
  query := none
  sorters := []

/-- The vector is read as the page number, and a limit of one gives two documents. -/
theorem not_findsRight_vectorTable :
    ¬ FindsRight plainDb vectorTable buildSearchQuery (fun _ _ => true) everything
      ∧ ¬ FindsRight plainDb textTable buildSearchQuery (fun _ _ => true)
        { everything with limit := 1 } := by
  constructor
  · rintro ⟨docs, hfind, -⟩
    have hthrows : findDocuments plainDb vectorTable buildSearchQuery everything = none := rfl
    rw [hthrows] at hfind
    cases hfind
  · rintro ⟨docs, hfind, le, requested, -, -, hdocs⟩
    have htwo : (findDocuments plainDb textTable buildSearchQuery
        { everything with limit := 1 }).map List.length = some 2 := rfl
    have hlength := hdocs.length_eq
    rw [hfind, Option.map_some, Option.some.injEq] at htwo
    rw [htwo, page, if_pos (by decide)] at hlength
    have hle := List.length_take_le 1 (requested.drop 0)
    exact absurd (hlength ▸ hle) (by decide)

/-- A request for the first of two rows, with a text that selects this one only. -/
def firstOfAll : FindRequest Unit where
  limit := 1
  offset := 0
  query := some ()
  sorters := []

/-- A text that misses the query may make up for a limit that goes nowhere. -/
example :
    FindsRight plainDb textTable (fun _ => deleteCondition [uuidEnding 'a']) (fun _ _ => true)
        firstOfAll
      ∧ ¬ firstOfAll.AsksForAll textTable (fun _ _ => true)
      ∧ ¬ MeansQuery plainDb textTable (fun _ => deleteCondition [uuidEnding 'a']) (fun _ _ => true)
        firstOfAll := by
  refine ⟨⟨(textTable.rows.take 1).map textTable.document, rfl, fun _ _ => True, textTable.rows,
    rfl, ⟨by rfl, List.pairwise_of_forall fun _ _ => trivial⟩, .cons rfl .nil⟩, ?_, ?_⟩
  · show ¬ CutsNothing 1 0 2
    decide
  · rintro ⟨selected, hselected, hsame⟩
    obtain rfl := Option.some.inj hselected
    have hsecond := hsame _ (List.mem_cons_of_mem _ List.mem_cons_self)
    exact absurd hsecond (by decide)

end Instinct.DuckDbStore
