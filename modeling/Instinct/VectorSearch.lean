/-
Instinct/VectorSearch.lean

`DuckDBVectorStore::SearchDocuments`: the rows of a table that are most similar to
the embedding of a query.

Without a filter, the embedding is bound to a prepared statement.  With one, it is
printed into the text of the statement with six decimals, and the limit must be less
than 1000, while `SearchDocuments` itself lets it go up to 10000.

Whatever the similarity is, as long as no two rows are equally similar to the
embedding or to what is printed of it, the result is right if and only if no row that
is asked for has a `NULL`, and, with a filter, the limit is less than 1000, the text of
the filter selects what the filter asks for, and the embedding comes back from its text
or there is nothing to rank (`searchesRight_iff`).  For a similarity at hand it is
enough that what is printed ranks the rows as the embedding does
(`searchesRight_of_ranksAlike`).
-/
import Instinct.DuckDbStore
import Mathlib.Data.Rat.Floor

namespace Instinct.VectorSearch

open SqlSelection DuckDbStore

/-! ### The model -/

/-- A table with vectors, no two of which are the same. -/
structure VectorTable extends Table where
  dimension_pos : 0 < dimension
  vectors_nodup : (rows.map (·.vector)).Nodup

/-- The decimal of six places that is nearest, as `std::to_string` writes it: in the middle between
two, the even one. -/
def roundSix (x : ℚ) : ℚ :=
  let n := ⌊x * 10 ^ 6⌋
  let rest := x * 10 ^ 6 - n
  (if rest < 1 / 2 ∨ rest = 1 / 2 ∧ n % 2 = 0 then n else n + 1 : ℤ) / 10 ^ 6

/-- What else is left to DuckDB. -/
structure VectorDb extends DuckDb where
  /-- `::FLOAT`. -/
  asFloat : ℚ → ℚ
  /-- `SELECT … WHERE condition ORDER BY similarity DESC LIMIT limit`. -/
  rank : Table → Option (List Char) → (StoredRow → ℚ) → Int → Option (List StoredRow)
  rank_spec : ∀ table (condition : Option (List Char)) similarity limit,
    match condition.elim (some fun _ => true) (selects table) with
    | some selected => ∃ result,
        Selection table.rows selected (fun a b => similarity b ≤ similarity a) result
          ∧ rank table condition similarity limit = some (page limit 0 result)
    | none => rank table condition similarity limit = none

/-- A component as `make_search_sql` prints it. -/
def VectorDb.printed (db : VectorDb) (component : ℚ) : ℚ := db.asFloat (roundSix component)

/-- `SearchRequest`: a filter may be there and have no query set. -/
structure SearchRequest (Query : Type) where
  topK : Int32
  metadataFilter : Option (Option Query)

/-- The limit of `SearchDocuments`. -/
def limitOf (topK : Int32) : Int := if 0 < topK.toInt then min topK.toInt 10000 else 10

section Search

variable {Query : Type} (db : VectorDb) (table : VectorTable) (buildSearchQuery : Query → List Char)
  (asks : Query → StoredRow → Bool) (similarity : List ℚ → List ℚ → ℚ) (queryEmbedding : List ℚ)
  (request : SearchRequest Query)

/-- The columns of `make_prepared_search_sql` and `make_search_sql`. -/
def resultCells (queryVector : List ℚ) (row : StoredRow) : List Cell :=
  table.select ("id".toList :: "text".toList :: table.schema.map (·.name)) row
    ++ [.value (.float (similarity row.vector queryVector))]

/-- The rows for a vector, with a condition or without. -/
def rankRows (condition : Option (List Char)) (queryVector : List ℚ) (limit : Int) :
    Option (List (List Cell)) :=
  (db.rank table.toTable condition (fun row => similarity row.vector queryVector) limit).map
    (List.map (resultCells table similarity queryVector))

/-- `make_search_sql`, with its two assertions, and its result. -/
def filteredRows (filter : Option Query) (limit : Int) : Option (List (List Cell)) :=
  if 0 < limit ∧ limit < 1000 then
    rankRows db table similarity (filter.map buildSearchQuery) (queryEmbedding.map db.printed) limit
  else none

/-- `SearchDocuments`. -/
def searchDocuments : Option (List DuckDbStore.Document) :=
  (match request.metadataFilter with
    | some filter =>
        filteredRows db table buildSearchQuery similarity queryEmbedding filter
          (limitOf request.topK)
    | none => rankRows db table similarity none queryEmbedding (limitOf request.topK)).bind
    (observeQueryResult db.toDuckDb table.schema)

/-- The rows that the filter asks for. -/
def SearchRequest.matching (row : StoredRow) : Bool :=
  (request.metadataFilter.bind id).elim true fun query => asks query row

/-- **What is asked of `SearchDocuments`**: the most similar of the rows that the filter asks for, in
descending order. -/
def SearchesRight : Prop :=
  ∃ ranked, Selection table.rows (request.matching asks)
      (fun a b => similarity b.vector queryEmbedding ≤ similarity a.vector queryEmbedding) ranked
    ∧ searchDocuments db table buildSearchQuery similarity queryEmbedding request
      = some ((page (limitOf request.topK) 0 ranked).map table.document)

/-- No two rows are as similar to the vector as each other. -/
def TellsApart (v : List ℚ) : Prop :=
  ∀ a ∈ table.rows, ∀ b ∈ table.rows, similarity a.vector v = similarity b.vector v → a = b

/-- The rows that are asked for stand in one order for the embedding and for a vector that is used
in its place. -/
def RanksAlike (used : List ℚ) : Prop :=
  ∀ a ∈ table.rows, ∀ b ∈ table.rows, request.matching asks a = true →
    request.matching asks b = true → similarity b.vector used ≤ similarity a.vector used →
    similarity b.vector queryEmbedding ≤ similarity a.vector queryEmbedding

/-- The text of the filter selects exactly the rows that the filter asks for. -/
def SelectsAsked : Prop :=
  ∃ selected, ((request.metadataFilter.bind id).map buildSearchQuery).elim (some fun _ => true)
      (db.selects table.toTable) = some selected
    ∧ ∀ row ∈ table.rows, selected row = request.matching asks row

end Search

/-! ### What a search gives -/

section Rows

variable {Query : Type} {db : VectorDb} {table : VectorTable}
  {buildSearchQuery : Query → List Char} {asks : Query → StoredRow → Bool}
  {similarity : List ℚ → List ℚ → ℚ} {queryVector queryEmbedding : List ℚ}
  {request : SearchRequest Query}

theorem limitOf_pos (topK : Int32) : 0 < limitOf topK := by
  unfold limitOf
  split <;> omega

/-- Columns behind those of the schema are not read. -/
theorem readMetadata_append {schema : List FieldSchema} {values : List (Option Value)}
    (hlength : schema.length = values.length) (cells : List Cell) :
    readMetadata db.toDuckDb schema (values.map Cell.ofMetadata ++ cells)
      = readMetadata db.toDuckDb schema (values.map Cell.ofMetadata) := by
  induction schema generalizing values with
  | nil => rfl
  | cons field schema ih =>
      obtain ⟨value, values, rfl⟩ := List.exists_cons_of_length_eq_add_one hlength.symm
      rw [List.map_cons, List.cons_append, readMetadata, readMetadata, ih (Nat.succ.inj hlength)]

theorem readDocument_resultCells {row : StoredRow} {doc : DuckDbStore.Document}
    (hrow : row ∈ table.rows) :
    readDocument db.toDuckDb table.schema (resultCells table similarity queryVector row) = some doc
      ↔ (∀ value ∈ row.metadata, value ≠ none) ∧ doc = table.document row := by
  rw [← readDocument_mget hrow, resultCells, select_mget hrow, List.cons_append, List.cons_append,
    readDocument, readMetadata_append (table.length_metadata hrow), ← readDocument]

theorem observe_resultCells {rows : List StoredRow} {docs : List DuckDbStore.Document}
    (hrows : ∀ row ∈ rows, row ∈ table.rows) :
    observeQueryResult db.toDuckDb table.schema
        (rows.map (resultCells table similarity queryVector)) = some docs
      ↔ (∀ row ∈ rows, ∀ value ∈ row.metadata, value ≠ none)
        ∧ docs = rows.map table.document := by
  rw [observeQueryResult, mapM_eq_some_iff, List.forall₂_map_left_iff]
  constructor
  · intro h
    have heach : List.Forall₂ (fun row doc => (∀ value ∈ row.metadata, value ≠ none)
        ∧ table.document row = doc) rows docs :=
      ((List.forall₂_and_left _ _).mpr ⟨hrows, h⟩).imp fun row doc h =>
        ((readDocument_resultCells h.1).mp h.2).imp_right Eq.symm
    refine ⟨((List.forall₂_and_left _ _).mp heach).1, ?_⟩
    rw [eq_comm, ← List.forall₂_eq_eq_eq, List.forall₂_map_left_iff]
    exact ((List.forall₂_and_left _ _).mp heach).2
  · rintro ⟨hvalues, rfl⟩
    rw [List.forall₂_map_right_iff, List.forall₂_same]
    exact fun row hrow => (readDocument_resultCells (hrows row hrow)).mpr ⟨hvalues row hrow, rfl⟩

/-- The vector that the rows are ranked by. -/
def usedVector (db : VectorDb) (queryEmbedding : List ℚ) (request : SearchRequest Query) : List ℚ :=
  if request.metadataFilter.isSome then queryEmbedding.map db.printed else queryEmbedding

/-- What a search comes to, unless an assertion fails. -/
theorem searchDocuments_eq (hlimit : request.metadataFilter = none ∨ limitOf request.topK < 1000) :
    searchDocuments db table buildSearchQuery similarity queryEmbedding request
      = (rankRows db table similarity ((request.metadataFilter.bind id).map buildSearchQuery)
          (usedVector db queryEmbedding request) (limitOf request.topK)).bind
        (observeQueryResult db.toDuckDb table.schema) := by
  unfold searchDocuments usedVector
  cases hfilter : request.metadataFilter with
  | none => rfl
  | some filter =>
      have hlt := hlimit.resolve_left (by rw [hfilter]; exact nofun)
      simp only [filteredRows, if_pos (And.intro (limitOf_pos request.topK) hlt)]
      rfl

/-- What has been ranked when a search is right. -/
theorem exists_of_searchesRight
    (h : SearchesRight db table buildSearchQuery asks similarity queryEmbedding request) :
    (request.metadataFilter = none ∨ limitOf request.topK < 1000) ∧ ∃ selected ranked result,
      ((request.metadataFilter.bind id).map buildSearchQuery).elim (some fun _ => true)
        (db.selects table.toTable) = some selected
      ∧ Selection table.rows (request.matching asks)
        (fun a b => similarity b.vector queryEmbedding ≤ similarity a.vector queryEmbedding) ranked
      ∧ Selection table.rows selected
        (fun a b => similarity b.vector (usedVector db queryEmbedding request)
          ≤ similarity a.vector (usedVector db queryEmbedding request)) result
      ∧ page (limitOf request.topK) 0 result = page (limitOf request.topK) 0 ranked
      ∧ ∀ row ∈ page (limitOf request.topK) 0 ranked, ∀ value ∈ row.metadata, value ≠ none := by
  obtain ⟨ranked, hranked, hsearch⟩ := h
  have hlimit : request.metadataFilter = none ∨ limitOf request.topK < 1000 := by
    by_contra hcon
    obtain ⟨hfilter, hge⟩ := not_or.mp hcon
    obtain ⟨filter, hfilter⟩ := Option.ne_none_iff_exists'.mp hfilter
    simp only [searchDocuments, hfilter, filteredRows, if_neg (fun h => hge (And.right h))] at hsearch
    cases hsearch
  rw [searchDocuments_eq hlimit] at hsearch
  obtain ⟨cells, hcells, hobserve⟩ := Option.bind_eq_some_iff.mp hsearch
  obtain ⟨rows, hrank, rfl⟩ := Option.map_eq_some_iff.mp hcells
  have hspec := db.rank_spec table.toTable ((request.metadataFilter.bind id).map buildSearchQuery)
    (fun row => similarity row.vector (usedVector db queryEmbedding request))
    (limitOf request.topK)
  rw [hrank] at hspec
  split at hspec
  · rename_i selected hselected
    obtain ⟨result, hresult, hpage⟩ := hspec
    obtain rfl := Option.some.inj hpage
    have hresultMem : ∀ row ∈ page (limitOf request.topK) 0 result, row ∈ table.rows :=
      fun row hrow => (hresult.mem_iff.mp (mem_of_mem_page hrow)).1
    obtain ⟨hvalues, hdocs⟩ := (observe_resultCells hresultMem).mp hobserve
    have hsame : page (limitOf request.topK) 0 result = page (limitOf request.topK) 0 ranked := by
      refine eq_of_map_id hresultMem
        (fun row hrow => (hranked.mem_iff.mp (mem_of_mem_page hrow)).1) ?_
      have hids := congrArg (List.map DuckDbStore.Document.id) hdocs
      rw [List.map_map, List.map_map] at hids
      exact hids.symm
    exact ⟨hlimit, selected, ranked, result, hselected, hranked, hresult, hsame, hsame ▸ hvalues⟩
  · cases hspec

/-- **For one similarity** it is enough that the vector that is used ranks the rows that are asked
for as the embedding does. -/
theorem searchesRight_of_ranksAlike
    (hlimit : request.metadataFilter = none ∨ limitOf request.topK < 1000)
    (hselects : SelectsAsked db table buildSearchQuery asks request)
    (hvalues : ∀ row ∈ table.rows, request.matching asks row = true →
      ∀ value ∈ row.metadata, value ≠ none)
    (hranks : RanksAlike table asks similarity queryEmbedding request
      (usedVector db queryEmbedding request)) :
    SearchesRight db table buildSearchQuery asks similarity queryEmbedding request := by
  obtain ⟨selected, hselected, hasked⟩ := hselects
  have hspec := db.rank_spec table.toTable ((request.metadataFilter.bind id).map buildSearchQuery)
    (fun row => similarity row.vector (usedVector db queryEmbedding request))
    (limitOf request.topK)
  simp only [hselected] at hspec
  obtain ⟨result, hresult, hrank⟩ := hspec
  have hperm : result.Perm (table.rows.filter (request.matching asks)) :=
    hresult.perm.trans (List.filter_congr hasked ▸ List.Perm.refl _)
  have hmem : ∀ row ∈ result, row ∈ table.rows ∧ request.matching asks row = true := fun row hrow =>
    List.mem_filter.mp (hperm.mem_iff.mp hrow)
  refine ⟨result, ⟨hperm, ?_⟩, ?_⟩
  · apply hresult.sorted.imp_of_mem
    intro a b ha hb hle
    exact hranks a (hmem a ha).1 b (hmem b hb).1 (hmem a ha).2 (hmem b hb).2 hle
  · rw [searchDocuments_eq hlimit, rankRows, hrank, Option.map_some, Option.bind_some]
    have hpage : ∀ row ∈ page (limitOf request.topK) 0 result, row ∈ result := fun row hrow =>
      mem_of_mem_page hrow
    refine (observe_resultCells fun row hrow => (hmem row (hpage row hrow)).1).mpr ⟨?_, rfl⟩
    intro row hrow
    exact hvalues row (hmem row (hpage row hrow)).1 (hmem row (hpage row hrow)).2

end Rows

/-! ### Similarities -/

section Similarities

variable {table : VectorTable} {choose : List ℚ → List ℚ}

/-- The similarity by which a chosen vector, for each query, is ahead of all others. -/
def preferring (table : VectorTable) (choose : List ℚ → List ℚ) (w v : List ℚ) : ℚ :=
  if w = choose v then table.rows.length else (table.rows.map (·.vector)).idxOf w

theorem preferring_lt {row : StoredRow} {v : List ℚ} (hrow : row ∈ table.rows)
    (hne : row.vector ≠ choose v) :
    preferring table choose row.vector v < (table.rows.length : ℚ) := by
  rw [preferring, if_neg hne, Nat.cast_lt, ← List.length_map (f := fun row => row.vector)]
  exact List.idxOf_lt_length_of_mem (List.mem_map_of_mem hrow)

theorem preferring_self {row : StoredRow} {v : List ℚ} (h : row.vector = choose v) :
    preferring table choose row.vector v = (table.rows.length : ℚ) := if_pos h

theorem tellsApart_preferring (table : VectorTable) (choose : List ℚ → List ℚ) (v : List ℚ) :
    TellsApart table (preferring table choose) v := by
  intro a ha b hb heq
  refine List.inj_on_of_nodup_map table.vectors_nodup ha hb ?_
  by_cases hchosen : a.vector = choose v
  · by_contra hne
    have hlt := preferring_lt hb (fun h => hne (hchosen.trans h.symm))
    rw [← heq, preferring_self hchosen] at hlt
    exact lt_irrefl _ hlt
  · by_cases hchosen' : b.vector = choose v
    · have hlt := preferring_lt ha hchosen
      rw [heq, preferring_self hchosen'] at hlt
      exact absurd hlt (lt_irrefl _)
    · rw [preferring, preferring, if_neg hchosen, if_neg hchosen', Nat.cast_inj] at heq
      exact (List.idxOf_inj (List.mem_map_of_mem ha)).mp heq

/-- The row with the chosen vector is the first one on every page. -/
theorem head?_page_preferring {selected : StoredRow → Bool} {result : List StoredRow}
    {row : StoredRow} {v : List ℚ} {limit : Int} (hlimit : 0 < limit)
    (h : Selection table.rows selected
      (fun a b => preferring table choose b.vector v ≤ preferring table choose a.vector v) result)
    (hrow : row ∈ table.rows) (hselected : selected row = true) (hchosen : row.vector = choose v) :
    (page limit 0 result).head? = some row := by
  have hmem : row ∈ result := h.mem_iff.mpr ⟨hrow, hselected⟩
  obtain ⟨first, rest, rfl⟩ := List.exists_cons_of_ne_nil (List.ne_nil_of_mem hmem)
  have hfirst : first = row := by
    rcases List.mem_cons.mp hmem with heq | hlater
    · exact heq.symm
    · have hle := (List.pairwise_cons.mp h.sorted).1 row hlater
      have hfirstRow := (h.mem_iff.mp List.mem_cons_self).1
      rw [preferring_self hchosen] at hle
      by_contra hne
      refine absurd hle (not_le.mpr (preferring_lt hfirstRow fun heq => hne ?_))
      exact List.inj_on_of_nodup_map table.vectors_nodup hfirstRow hrow (heq.trans hchosen.symm)
  rw [page, if_pos hlimit, hfirst, Int.toNat_zero, List.drop_zero, List.head?_take,
    if_neg (by omega)]
  rfl

end Similarities

/-! ### Searching -/

section Searching

variable {Query : Type} {db : VectorDb} {table : VectorTable}
  {buildSearchQuery : Query → List Char} {asks : Query → StoredRow → Bool}
  {queryEmbedding : List ℚ} {request : SearchRequest Query}

/-- What is on the pages that a preference gives. -/
theorem heads_of_searchesRight (choose : List ℚ → List ℚ)
    (h : SearchesRight db table buildSearchQuery asks (preferring table choose) queryEmbedding
      request) :
    (request.metadataFilter = none ∨ limitOf request.topK < 1000)
      ∧ ∃ selected, ∃ page' : List StoredRow,
      ((request.metadataFilter.bind id).map buildSearchQuery).elim (some fun _ => true)
        (db.selects table.toTable) = some selected
      ∧ (∀ row ∈ page', request.matching asks row = true ∧ selected row = true
        ∧ ∀ value ∈ row.metadata, value ≠ none)
      ∧ ∀ row ∈ table.rows,
        (request.matching asks row = true → row.vector = choose queryEmbedding →
          page'.head? = some row)
        ∧ (selected row = true → row.vector = choose (usedVector db queryEmbedding request) →
          page'.head? = some row) := by
  obtain ⟨hlimit, selected, ranked, result, hselected, hranked, hresult, hpage, hvalues⟩ :=
    exists_of_searchesRight h
  have hpos := limitOf_pos request.topK
  refine ⟨hlimit, selected, page (limitOf request.topK) 0 ranked, hselected, fun row hrow => ?_,
    fun row hrow => ⟨fun hasked hchosen => ?_, fun hsel hchosen => ?_⟩⟩
  · exact ⟨(hranked.mem_iff.mp (mem_of_mem_page hrow)).2,
      (hresult.mem_iff.mp (mem_of_mem_page (hpage ▸ hrow))).2, hvalues row hrow⟩
  · exact head?_page_preferring hpos hranked hrow hasked hchosen
  · rw [← hpage]
    exact head?_page_preferring hpos hresult hrow hsel hchosen

/-- **A search is right for every similarity** that tells the rows apart by the embedding and by
what is printed of it, if and only if no row that is asked for has a `NULL`, and, with a filter, the
limit is less than 1000, the text selects what the filter asks for, and the embedding survives its
text, or not more than one row is asked for. -/
theorem searchesRight_iff :
    (∀ similarity, TellsApart table similarity queryEmbedding →
        TellsApart table similarity (queryEmbedding.map db.printed) →
        SearchesRight db table buildSearchQuery asks similarity queryEmbedding request)
      ↔ (∀ row ∈ table.rows, request.matching asks row = true → ∀ value ∈ row.metadata, value ≠ none)
        ∧ (request.metadataFilter = none ∨ limitOf request.topK < 1000
          ∧ SelectsAsked db table buildSearchQuery asks request
          ∧ (queryEmbedding.map db.printed = queryEmbedding
            ∨ ∀ a ∈ table.rows, ∀ b ∈ table.rows, request.matching asks a = true →
              request.matching asks b = true → a = b)) := by
  constructor
  · intro h
    have hprefer := fun choose =>
      heads_of_searchesRight choose
        (h _ (tellsApart_preferring table choose _) (tellsApart_preferring table choose _))
    refine ⟨fun row hrow hasked => ?_, ?_⟩
    · obtain ⟨-, _, page', -, hpage, hheads⟩ := hprefer fun _ => row.vector
      exact (hpage row (List.mem_of_head? ((hheads row hrow).1 hasked rfl))).2.2
    by_cases hfilter : request.metadataFilter = none
    · exact .inl hfilter
    obtain ⟨hlimit, selected, _, hselected, -, -⟩ := hprefer id
    have hsame : ∀ row ∈ table.rows, selected row = request.matching asks row := by
      intro row hrow
      obtain ⟨-, selected', page', hselected', hpage, hheads⟩ := hprefer fun _ => row.vector
      obtain rfl := Option.some.inj (hselected.symm.trans hselected')
      rw [Bool.eq_iff_iff]
      exact ⟨fun hsel => (hpage row (List.mem_of_head? ((hheads row hrow).2 hsel rfl))).1,
        fun hasked => (hpage row (List.mem_of_head? ((hheads row hrow).1 hasked rfl))).2.1⟩
    refine .inr ⟨hlimit.resolve_left hfilter, ⟨selected, hselected, hsame⟩, ?_⟩
    rw [or_iff_not_imp_left]
    intro hne a ha b hb haskedA haskedB
    -- the embedding prefers one of two rows, and the printed one the other
    obtain ⟨-, selected', page', hselected', -, hheads⟩ :=
      hprefer fun v => if v = queryEmbedding then a.vector else b.vector
    obtain rfl := Option.some.inj (hselected.symm.trans hselected')
    have hused : usedVector db queryEmbedding request ≠ queryEmbedding := by
      rwa [usedVector, if_pos (Option.isSome_iff_ne_none.mpr hfilter)]
    have hheadA := (hheads a ha).1 haskedA (if_pos rfl).symm
    have hheadB := (hheads b hb).2 ((hsame b hb).trans haskedB) (if_neg hused).symm
    exact Option.some.inj (hheadA.symm.trans hheadB)
  · rintro ⟨hvalues, hfilter⟩ similarity - -
    rcases hfilter with hnone | ⟨hlimit, hselects, hvector⟩
    · refine searchesRight_of_ranksAlike (.inl hnone) ⟨fun _ => true, ?_, fun row _ => ?_⟩ hvalues
        ?_
      · rw [hnone]
        rfl
      · rw [SearchRequest.matching, hnone]
        rfl
      · intro a _ b _ _ _ hle
        rwa [usedVector, hnone] at hle
    · apply searchesRight_of_ranksAlike (.inr hlimit) hselects hvalues
      intro a ha b hb haskedA haskedB hle
      rcases hvector with hprinted | hone
      · rwa [usedVector, hprinted, ite_self] at hle
      · rw [hone a ha b hb haskedA haskedB]

end Searching

/-- A database that ranks the rows of a table. -/
def plainVectorDb : VectorDb where
  toDuckDb := plainDb
  asFloat := id
  rank table condition similarity limit :=
    (condition.elim (some fun _ => true) (plainDb.selects table)).map fun selected =>
      page limit 0 ((table.rows.filter selected).mergeSort fun a b => similarity b ≤ similarity a)
  rank_spec table condition similarity limit := by
    generalize Option.elim condition _ _ = result
    cases result with
    | none => rfl
    | some selected =>
        refine ⟨_, ⟨List.mergeSort_perm _ _, ?_⟩, rfl⟩
        have htrans : ∀ a b c : StoredRow, decide (similarity b ≤ similarity a) = true →
            decide (similarity c ≤ similarity b) = true →
            decide (similarity c ≤ similarity a) = true := fun a b c hab hbc =>
          decide_eq_true ((of_decide_eq_true hbc).trans (of_decide_eq_true hab))
        refine (List.pairwise_mergeSort htrans (fun a b => ?_) _).imp of_decide_eq_true
        simpa using le_total (similarity b) (similarity a)

/-- A table of one row. -/
def oneVector : VectorTable where
  dimension := 1
  schema := []
  rows := [{ id := uuidEnding 'a', text := "A".toList, vector := [1], metadata := [] }]
  names_nodup := by decide
  ids_nodup := by decide
  ids_uuid := by decide
  typed := by simp
  dimension_pos := by decide
  vectors_nodup := List.nodup_singleton _

/-- With a filter that asks for nothing, a limit of 1000 fails; without a filter it does not. -/
theorem not_searchesRight_thousand :
    (¬ ∀ similarity, TellsApart oneVector similarity [1] →
        TellsApart oneVector similarity ([1].map plainVectorDb.printed) →
        SearchesRight plainVectorDb oneVector (fun _ : Unit => []) (fun _ _ => true) similarity [1]
          { topK := 1000, metadataFilter := some none })
      ∧ searchDocuments plainVectorDb oneVector (fun _ : Unit => []) (fun _ _ => 0) [1]
          { topK := 1000, metadataFilter := none }
        = some [{ id := uuidEnding 'a', text := "A".toList, metadata := [] }] := by
  constructor
  · intro h
    have hone : ∀ v, TellsApart oneVector (fun _ _ => 0) v := by
      intro v a ha b hb _
      rw [List.mem_singleton.mp ha, List.mem_singleton.mp hb]
    obtain ⟨ranked, -, hsearch⟩ := h _ (hone _) (hone _)
    cases hsearch
  · have hrank : plainVectorDb.rank oneVector.toTable none (fun _ => 0) 1000 = some oneVector.rows := by
      show some (page 1000 0 ((oneVector.rows.filter fun _ => true).mergeSort _)) = _
      rw [List.filter_true, oneVector, List.mergeSort_singleton]
      rfl
    have hlimit : limitOf 1000 = 1000 := by decide
    rw [searchDocuments, rankRows, hlimit, hrank]
    rfl

end Instinct.VectorSearch
