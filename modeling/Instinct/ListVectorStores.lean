/-
Instinct/ListVectorStores.lean

The list endpoints of vector stores, of their files and of the files of a batch.

They ask for one row more than the page holds, like the other list endpoints,
but compare the result with the limit of the query and not with the limit of the
request.  So the row too many is never cut off and `has_more` is never set
(`overfullResponse_of_le`): the page holds one row more than asked for as soon as
there are that many.  The status filter of a request is not understood by the one
endpoint and not looked at by the other.

`vector_store_lists_iff` says for which stores and requests each endpoint still
lists what it should (`ListsRows`).
-/
import Instinct.VectorStores

namespace Instinct

open Effects Tables Paging

/-! ### The endpoints -/

/-- The response of the data mappers, for a query with the limit `limit`.  `n>limit` compares
without signs; a negative limit is refused by the query. -/
def overfullResponse {α : Type} (ident : α → String) (limit : Int32) (rows : List α) :
    ListResponse α :=
  if limit.toNatClampNeg < rows.length then
    { data := rows.dropLast
      firstId := (rows.head?.map ident).getD ""
      lastId := (rows[rows.length - 2]?.map ident).getD ""
      hasMore := true }
  else
    { data := rows
      firstId := (rows.head?.map ident).getD ""
      lastId := (rows.getLast?.map ident).getD ""
      hasMore := false }

/-- What `assert_query_ok` throws for the column `filter`. -/
def unknownFilter : Exn :=
  .client "Binder Error: Referenced column \"filter\" not found in FROM clause!"

/-- The condition `filter = …`, which names no column of the table. -/
def filterColumn (filter : VectorStoreFileStatus) : Except Exn Unit :=
  if filter = .unknownVectorStoreFileStatus then .ok () else .error unknownFilter

/-- The end that the three statements share: the rows between the cursors, and the response. -/
def listOverfull {α : Type} (ident : α → String) (stamp : α → Nat) (rows : List α)
    (req : ListRequest) : Except Exn (ListResponse α) := do
  let limit := lookAheadLimit req.limit
  let list ← selectMany ident stamp rows (notBlankCursor req.after) (notBlankCursor req.before)
    (listOrder req.order) limit
  pure (overfullResponse ident limit list)

/-- `VectorStoreDataMapper::ListVectorStores`. -/
def VectorStoreDataMapper.listVectorStores (req : ListVectorStoresRequest) :
    ServiceM (ListResponse VectorStoreObject) := fun s =>
  (listOverfull (·.id) (·.createdAt) s.vectorStores.rows req.toListRequest, s)

/-- `VectorStoreFileDataMapper::ListVectorStoreFiles(ListVectorStoreFilesRequest)`. -/
def VectorStoreFileDataMapper.listVectorStoreFiles (req : ListVectorStoreFilesRequest) :
    ServiceM (ListResponse VectorStoreFileObject) := fun s =>
  ((do
    filterColumn req.filter
    listOverfull (·.fileId) (·.createdAt)
      (s.vectorStoreFiles.rows.filter fun file => file.vectorStoreId = req.vectorStoreId)
      req.toListRequest), s)

/-- `VectorStoreFileDataMapper::ListVectorStoreFiles(ListFilesInVectorStoreBatchRequest)`.  The
template does not look at the filter. -/
def VectorStoreFileDataMapper.listFilesInVectorStoreBatch
    (req : ListFilesInVectorStoreBatchRequest) :
    ServiceM (ListResponse VectorStoreFileObject) := fun s =>
  (listOverfull (·.fileId) (·.createdAt)
    (s.vectorStoreFiles.rows.filter (isFileOfBatch req.vectorStoreId req.batchId))
    req.toListRequest, s)

/-- `VectorStoreServiceImpl::ListVectorStores`: every vector store with its file counts. -/
def listVectorStores (req : ListVectorStoresRequest) :
    ServiceM (ListResponse VectorStoreObject) := do
  let resp ← VectorStoreDataMapper.listVectorStores req
  let data ← resp.data.mapM fun vs => do
    let counts ← VectorStoreFileDataMapper.countVectorStoreFiles vs.id
    pure { vs with fileCounts := counts }
  pure { resp with data := data }

/-- `VectorStoreServiceImpl::ListVectorStoreFiles`. -/
def listVectorStoreFiles (req : ListVectorStoreFilesRequest) :
    ServiceM (ListResponse VectorStoreFileObject) :=
  VectorStoreFileDataMapper.listVectorStoreFiles req

/-- `VectorStoreServiceImpl::ListFilesInVectorStoreBatch`. -/
def listFilesInVectorStoreBatch (req : ListFilesInVectorStoreBatchRequest) :
    ServiceM (ListResponse VectorStoreFileObject) := do
  assertNotBlank req.vectorStoreId "should provide valid vector_store_id"
  assertNotBlank req.batchId "should provide valid batch_id"
  VectorStoreFileDataMapper.listFilesInVectorStoreBatch req

/-! ### What they should do -/

/-- A list request is answered as it should be, when `matching` are the rows it asks for: with
`limit` of them at most, with `has_more` where there are others, and with the id of the last
one. -/
structure ListsRows {α : Type} (ident : α → String) (limit : Nat) (matching : List α)
    (response : ListResponse α) : Prop where
  atMost : response.data.length ≤ limit
  hasMore : response.hasMore = true ↔ response.data.length < matching.length
  lastId : response.lastId = (response.data.getLast?.map ident).getD ""
  rows : ∀ row ∈ response.data, row ∈ matching

/-- The rows between the cursors of a request. -/
def betweenCursors {α : Type} (ident : α → String) (req : ListRequest) (rows : List α) :
    List α :=
  (rows.filter (isBefore ident (notBlankCursor req.before))).filter
    (isBeyond ident (notBlankCursor req.after))

/-- The status filter of a request, where one is given. -/
def passesFilter (filter : VectorStoreFileStatus) (file : VectorStoreFileObject) : Bool :=
  filter = .unknownVectorStoreFileStatus || file.status = filter

/-- A vector store with its file counts. -/
def Store.withFileCounts (s : Store) (vs : VectorStoreObject) : VectorStoreObject :=
  { vs with
    fileCounts := fileCounts (s.vectorStoreFiles.rows.filter fun file =>
      file.vectorStoreId = vs.id) }

/-- The rows that a `ListVectorStores` request asks for. -/
def Store.matchingVectorStores (s : Store) (req : ListVectorStoresRequest) :
    List VectorStoreObject :=
  (betweenCursors (·.id) req.toListRequest s.vectorStores.rows).map s.withFileCounts

/-- The files of a vector store between the cursors of a request. -/
def Store.filesBetween (s : Store) (req : ListVectorStoreFilesRequest) :
    List VectorStoreFileObject :=
  betweenCursors (·.fileId) req.toListRequest
    (s.vectorStoreFiles.rows.filter fun file => file.vectorStoreId = req.vectorStoreId)

/-- The files of a batch between the cursors of a request. -/
def Store.batchFilesBetween (s : Store) (req : ListFilesInVectorStoreBatchRequest) :
    List VectorStoreFileObject :=
  betweenCursors (·.fileId) req.toListRequest
    (s.vectorStoreFiles.rows.filter (isFileOfBatch req.vectorStoreId req.batchId))

/-! ### When they do -/

section ListsRows

variable {α : Type} {ident : α → String} {stamp : α → Nat} {s : Store}

/-- A query does not return more rows than its limit. -/
theorem overfullResponse_of_le {limit : Int32} {rows : List α}
    (h : rows.length ≤ limit.toNatClampNeg) :
    overfullResponse ident limit rows =
      { data := rows
        firstId := (rows.head?.map ident).getD ""
        lastId := (rows.getLast?.map ident).getD ""
        hasMore := false } :=
  if_neg (Nat.not_lt.mpr h)

/-- What an endpoint answers: the first rows between the cursors, one more than the page
should hold, and never that there are others. -/
structure Overfull {α : Type} (ident : α → String) (stamp : α → Nat) (descending : Bool)
    (n : Nat) (between : List α) (response : ListResponse α) : Prop where
  data : response.data = (arrange stamp descending between).take (n + 1)
  lastId : response.lastId = (response.data.getLast?.map ident).getD ""
  hasMore : response.hasMore = false

theorem listOverfull_cases (rows : List α) (req : ListRequest) :
    req.limit = Int32.maxValue ∧ listOverfull ident stamp rows req = .error negativeLimit ∨
    req.limit ≠ Int32.maxValue ∧ ∃ response, listOverfull ident stamp rows req = .ok response ∧
      Overfull ident stamp (req.order ≠ .asc) (pageLimit req.limit)
        (betweenCursors ident req rows) response := by
  by_cases h : req.limit = Int32.maxValue
  · refine .inl ⟨h, ?_⟩
    -- `limit + 1` overflows, and the statement refuses a negative limit
    rw [listOverfull, h, selectMany_maxValue]
    rfl
  · refine .inr ⟨h, overfullResponse ident (lookAheadLimit req.limit)
      ((arrange stamp (req.order ≠ .asc) (betweenCursors ident req rows)).take
        (pageLimit req.limit + 1)), ?_, ?_⟩
    · rw [listOverfull, selectMany_lookAhead ident stamp rows _ _ req.order h]
      rfl
    · -- the statement never returns more than `limit + 1` rows
      rw [overfullResponse_of_le]
      · exact ⟨rfl, rfl, rfl⟩
      · rw [(lookAheadLimit_eq h).2]
        exact List.length_take_le _ _

/-- Such an answer lists what it should exactly when one page is enough and the filter takes
nothing away. -/
theorem Overfull.listsRows_iff {response : ListResponse α} {n : Nat} {between : List α}
    {descending : Bool} (h : Overfull ident stamp descending n between response) (p : α → Bool) :
    ListsRows ident n (between.filter p) response ↔
      between.length ≤ n ∧ ∀ row ∈ between, p row = true := by
  have hlen : response.data.length = min (n + 1) between.length := by
    rw [h.data, List.length_take, length_arrange]
  have hall : between.length ≤ n → response.data = arrange stamp descending between := by
    intro hle
    rw [h.data, List.take_of_length_le (by rw [length_arrange]; omega)]
  constructor
  · intro hlists
    -- one row too many would be on the page
    have hle : between.length ≤ n := by
      have hatMost := hlists.atMost
      omega
    refine ⟨hle, fun row hrow => ?_⟩
    exact (List.mem_filter.mp (hlists.rows row (hall hle ▸ mem_arrange.mpr hrow))).2
  · rintro ⟨hle, hp⟩
    -- the filter changes nothing, and the page holds all
    have hfilter : between.filter p = between := List.filter_eq_self.mpr hp
    refine ⟨by omega, ?_, h.lastId, fun row hrow => ?_⟩
    · rw [h.hasMore, hfilter, hall hle, length_arrange]
      simp
    · rw [hfilter]
      exact mem_arrange.mp (hall hle ▸ hrow)

/-- A change of the listed rows that keeps their ids and times keeps what the answer is. -/
theorem Overfull.map {response : ListResponse α} {n : Nat} {between : List α}
    {descending : Bool} (h : Overfull ident stamp descending n between response) {f : α → α}
    (hident : ∀ a, ident (f a) = ident a) (hstamp : ∀ a, stamp (f a) = stamp a) :
    Overfull ident stamp descending n (between.map f)
      { response with data := response.data.map f } where
  data := by
    show response.data.map f = _
    rw [h.data, arrange_map hstamp, List.map_take]
  lastId := by
    have hcomp : ident ∘ f = ident := funext hident
    show response.lastId = ((response.data.map f).getLast?.map ident).getD ""
    rw [h.lastId, List.getLast?_map, Option.map_map, hcomp]
  hasMore := h.hasMore

/-- An endpoint that answers only what it lists. -/
theorem exists_listsRows_iff {R : Type} {list : R → ServiceM (ListResponse α)} {req : R}
    {response : ListResponse α} {P : ListResponse α → Prop}
    (h : list req s = (.ok response, s)) :
    (∃ r, list req s = (.ok r, s) ∧ P r) ↔ P response := by
  constructor
  · rintro ⟨r, hr, hp⟩
    rw [h] at hr
    obtain rfl := Except.ok.inj (Prod.mk.inj hr).1
    exact hp
  · exact fun hp => ⟨response, h, hp⟩

theorem not_exists_listsRows_of_error {R : Type} {list : R → ServiceM (ListResponse α)} {req : R}
    {e : Exn} {P : ListResponse α → Prop} (h : list req s = (.error e, s)) :
    ¬ ∃ r, list req s = (.ok r, s) ∧ P r := by
  rintro ⟨r, hr, -⟩
  rw [h] at hr
  simp at hr

theorem countVectorStoreFiles_eq {vectorStoreId : String} (h : vectorStoreId ≠ "") :
    VectorStoreFileDataMapper.countVectorStoreFiles vectorStoreId "" s
      = (.ok (fileCounts (s.vectorStoreFiles.rows.filter fun file =>
          file.vectorStoreId = vectorStoreId)), s) := by
  have hvar : templateVariable "vector_store_id" vectorStoreId = .ok () := if_neg h
  simp [VectorStoreFileDataMapper.countVectorStoreFiles, Action.bind_apply, hvar]

/-- Counting for every vector store of a page. -/
theorem mapM_withFileCounts (data : List VectorStoreObject) (h : ∀ vs ∈ data, vs.id ≠ "") :
    (data.mapM fun vs => do
      let counts ← VectorStoreFileDataMapper.countVectorStoreFiles vs.id
      pure { vs with fileCounts := counts } : ServiceM (List VectorStoreObject)) s
      = (.ok (data.map s.withFileCounts), s) := by
  have hone : ∀ vs : VectorStoreObject, vs.id ≠ "" → (do
      let counts ← VectorStoreFileDataMapper.countVectorStoreFiles vs.id
      pure { vs with fileCounts := counts } : ServiceM VectorStoreObject) s
        = (.ok (s.withFileCounts vs), s) := fun vs hid =>
    Action.bind_of_ok (countVectorStoreFiles_eq hid)
  -- induction over the loop, for any accumulator
  suffices hacc : ∀ acc : List VectorStoreObject, List.mapM.loop (fun vs => do
      let counts ← VectorStoreFileDataMapper.countVectorStoreFiles vs.id
      pure { vs with fileCounts := counts } : VectorStoreObject → ServiceM VectorStoreObject)
        data acc s = (.ok (acc.reverse ++ data.map s.withFileCounts), s) from
    hacc []
  intro acc
  induction data generalizing acc with
  | nil => simp [List.mapM.loop]
  | cons vs rest ih =>
      have hrest := ih (fun v hv => h v (List.mem_cons_of_mem vs hv)) (s.withFileCounts vs :: acc)
      rw [List.mapM.loop, Action.bind_of_ok (hone vs (h vs List.mem_cons_self)), hrest]
      simp

end ListsRows

section Endpoints

variable {s : Store}

theorem listVectorStores_iff (req : ListVectorStoresRequest) :
    (∃ response, listVectorStores req s = (.ok response, s) ∧
      ListsRows (·.id) (pageLimit req.limit) (s.matchingVectorStores req) response) ↔
    req.limit ≠ Int32.maxValue ∧ (s.matchingVectorStores req).length ≤ pageLimit req.limit := by
  rcases listOverfull_cases s.vectorStores.rows req.toListRequest with
    ⟨hmax, herror⟩ | ⟨hmax, resp, hresp, hover⟩
  · have hfail : listVectorStores req s = (.error negativeLimit, s) :=
      Action.bind_of_error (Prod.ext herror rfl)
    exact iff_of_false (not_exists_listsRows_of_error hfail) fun h => h.1 hmax
  · -- stored vector stores have ids, so each one can be counted
    have hids : ∀ vs ∈ resp.data, vs.id ≠ "" := by
      intro vs hvs heq
      rw [hover.data] at hvs
      have hmem := mem_arrange.mp (List.mem_of_mem_take hvs)
      have hvalid := s.vectorStores.valid vs (List.mem_of_mem_filter (List.mem_of_mem_filter hmem))
      rw [heq] at hvalid
      simp at hvalid
    have hlist : listVectorStores req s
        = (.ok { resp with data := resp.data.map s.withFileCounts }, s) := by
      have hfirst : VectorStoreDataMapper.listVectorStores req s = (.ok resp, s) :=
        Prod.ext hresp rfl
      rw [listVectorStores, Action.bind_of_ok hfirst,
        Action.bind_of_ok (mapM_withFileCounts resp.data hids)]
      rfl
    -- this endpoint has no filter
    have hmatching : (s.matchingVectorStores req).filter (fun _ => true)
        = s.matchingVectorStores req := List.filter_eq_self.mpr fun _ _ => rfl
    have hiff := (hover.map (f := s.withFileCounts) (fun _ => rfl) fun _ => rfl).listsRows_iff
      fun _ => true
    rw [exists_listsRows_iff hlist, ← hmatching]
    refine hiff.trans ?_
    rw [hmatching]
    exact ⟨fun h => ⟨hmax, h.1⟩, fun h => ⟨h.2, fun _ _ => rfl⟩⟩

theorem listVectorStoreFiles_iff (req : ListVectorStoreFilesRequest) :
    (∃ response, listVectorStoreFiles req s = (.ok response, s) ∧
      ListsRows (·.fileId) (pageLimit req.limit)
        ((s.filesBetween req).filter (passesFilter req.filter)) response) ↔
    req.limit ≠ Int32.maxValue ∧ req.filter = .unknownVectorStoreFileStatus ∧
      (s.filesBetween req).length ≤ pageLimit req.limit := by
  by_cases hfilter : req.filter = .unknownVectorStoreFileStatus
  · -- the condition is left out of the statement
    have hcolumn : filterColumn req.filter = .ok () := if_pos hfilter
    have hpasses : ∀ row ∈ s.filesBetween req, passesFilter req.filter row = true := by
      intro row _
      simp [passesFilter, hfilter]
    have hlist : ∀ r, listOverfull (·.fileId) (·.createdAt)
        (s.vectorStoreFiles.rows.filter fun file => file.vectorStoreId = req.vectorStoreId)
        req.toListRequest = r → listVectorStoreFiles req s = (r, s) := by
      rintro r rfl
      simp only [listVectorStoreFiles, VectorStoreFileDataMapper.listVectorStoreFiles, hcolumn]
      rfl
    rcases listOverfull_cases (s.vectorStoreFiles.rows.filter fun file =>
        file.vectorStoreId = req.vectorStoreId) req.toListRequest with
      ⟨hmax, herror⟩ | ⟨hmax, resp, hresp, hover⟩
    · exact iff_of_false (not_exists_listsRows_of_error (hlist _ herror)) fun h => h.1 hmax
    · rw [exists_listsRows_iff (hlist _ hresp)]
      refine (hover.listsRows_iff (passesFilter req.filter)).trans ?_
      exact ⟨fun h => ⟨hmax, hfilter, h.1⟩, fun h => ⟨h.2.2, hpasses⟩⟩
  · -- the condition names a column that the table does not have
    have hfail : listVectorStoreFiles req s = (.error unknownFilter, s) := by
      have hcolumn : filterColumn req.filter = .error unknownFilter := if_neg hfilter
      simp only [listVectorStoreFiles, VectorStoreFileDataMapper.listVectorStoreFiles, hcolumn]
      rfl
    exact iff_of_false (not_exists_listsRows_of_error hfail) fun h => hfilter h.2.1

theorem listFilesInVectorStoreBatch_iff (req : ListFilesInVectorStoreBatchRequest) :
    (∃ response, listFilesInVectorStoreBatch req s = (.ok response, s) ∧
      ListsRows (·.fileId) (pageLimit req.limit)
        ((s.batchFilesBetween req).filter (passesFilter req.filter)) response) ↔
    isBlankString req.vectorStoreId = false ∧ isBlankString req.batchId = false ∧
      req.limit ≠ Int32.maxValue ∧ (s.batchFilesBetween req).length ≤ pageLimit req.limit ∧
      ∀ file ∈ s.batchFilesBetween req, passesFilter req.filter file = true := by
  by_cases hids : isBlankString req.vectorStoreId = false ∧ isBlankString req.batchId = false
  · -- the service only checks the ids
    have hlist : listFilesInVectorStoreBatch req s
        = VectorStoreFileDataMapper.listFilesInVectorStoreBatch req s := by
      simp only [listFilesInVectorStoreBatch, Action.bind_apply, Action.liftM_apply,
        assertNotBlank_of hids.1, assertNotBlank_of hids.2]
    rcases listOverfull_cases (s.vectorStoreFiles.rows.filter
        (isFileOfBatch req.vectorStoreId req.batchId)) req.toListRequest with
      ⟨hmax, herror⟩ | ⟨hmax, resp, hresp, hover⟩
    · have hfail : listFilesInVectorStoreBatch req s = (.error negativeLimit, s) :=
        hlist.trans (Prod.ext herror rfl)
      exact iff_of_false (not_exists_listsRows_of_error hfail) fun h => h.2.2.1 hmax
    · have hok : listFilesInVectorStoreBatch req s = (.ok resp, s) :=
        hlist.trans (Prod.ext hresp rfl)
      rw [exists_listsRows_iff hok]
      refine (hover.listsRows_iff (passesFilter req.filter)).trans ?_
      exact ⟨fun h => ⟨hids.1, hids.2, hmax, h⟩, fun h => h.2.2.2⟩
  · refine iff_of_false ?_ fun h => hids ⟨h.1, h.2.1⟩
    -- an answer means that both ids passed their check
    rintro ⟨resp, hok, -⟩
    obtain ⟨⟨⟩, hvs, hok⟩ := Action.ok_of_bind_liftM hok
    obtain ⟨⟨⟩, hbatch, -⟩ := Action.ok_of_bind_liftM hok
    exact hids ⟨assertNotBlank_eq_ok.mp hvs, assertNotBlank_eq_ok.mp hbatch⟩

/-- **When the list endpoints of vector stores are right.**  Each of the three endpoints
answers with the rows it should list exactly when one page is enough for the rows between the
cursors, the limit can be increased, and a filter, if one is given, changes nothing: it must be
unset for the files of a vector store, and every file of the batch must pass it for the files
of a batch. -/
theorem vector_store_lists_iff (s : Store) :
    (∀ req, (∃ response, listVectorStores req s = (.ok response, s) ∧
      ListsRows (·.id) (pageLimit req.limit) (s.matchingVectorStores req) response) ↔
      req.limit ≠ Int32.maxValue ∧
        (s.matchingVectorStores req).length ≤ pageLimit req.limit) ∧
    (∀ req, (∃ response, listVectorStoreFiles req s = (.ok response, s) ∧
      ListsRows (·.fileId) (pageLimit req.limit)
        ((s.filesBetween req).filter (passesFilter req.filter)) response) ↔
      req.limit ≠ Int32.maxValue ∧ req.filter = .unknownVectorStoreFileStatus ∧
        (s.filesBetween req).length ≤ pageLimit req.limit) ∧
    ∀ req, (∃ response, listFilesInVectorStoreBatch req s = (.ok response, s) ∧
      ListsRows (·.fileId) (pageLimit req.limit)
        ((s.batchFilesBetween req).filter (passesFilter req.filter)) response) ↔
      isBlankString req.vectorStoreId = false ∧ isBlankString req.batchId = false ∧
        req.limit ≠ Int32.maxValue ∧ (s.batchFilesBetween req).length ≤ pageLimit req.limit ∧
        ∀ file ∈ s.batchFilesBetween req, passesFilter req.filter file = true :=
  ⟨listVectorStores_iff, listVectorStoreFiles_iff, listFilesInVectorStoreBatch_iff⟩

end Endpoints

/-- Two vector stores. -/
def twoVectorStores : Store where
  vectorStores :=
    { rows := [{ id := "vs_1", createdAt := 1 }, { id := "vs_2", createdAt := 2 }]
      nodup := by decide
      valid := by decide }

/-- They do not fit on a page of one. -/
theorem vector_stores_do_not_fit :
    ¬ ∀ s req, ∃ response, listVectorStores req s = (.ok response, s) ∧
      ListsRows (·.id) (pageLimit req.limit) (s.matchingVectorStores req) response := by
  intro h
  have hfits := ((listVectorStores_iff { limit := 1 }).mp (h twoVectorStores { limit := 1 })).2
  exact absurd hfits (by decide)

end Instinct
