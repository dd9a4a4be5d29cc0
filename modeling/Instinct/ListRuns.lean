/-
Instinct/ListRuns.lean

`RunServiceImpl::ListRuns`, whose page does not come about like those of the
other list endpoints.

The look-ahead limit is put into the template context before the request is
converted into the same context, so a limit of the request replaces it
(`contextLimit`).  The template names the cursors as columns instead of quoting
them, it needs an `order`, and the response reads the first and the last run of
the result without asking whether there is one.

`listRuns_lists_iff` says for which threads and requests the endpoint still does
what a list endpoint should (`ListsRuns`).
-/
import Instinct.Listing

namespace Instinct

open Effects Paging

structure ListRunsRequest extends ListRequest where
  threadId : String := ""
  deriving DecidableEq

/-! ### The endpoint -/

/-- `context["limit"]` once the request is converted into the context: a field that is set
replaces what was there. -/
def contextLimit (limit : Int32) : Int32 := if limit = 0 then lookAheadLimit limit else limit

/-- The variable `order` of the template: a request that leaves it open leaves it out. -/
def orderVariable (order : ListRequestOrder) : Except Exn Unit :=
  if order = .unknownListRequestOrder then .error (missingVariable "order") else .ok ()

/-- What `assert_query_ok` throws for a name that is no column. -/
def unknownReference (name : String) : Exn :=
  .client ("Binder Error: Referenced column \"" ++ name ++ "\" not found in FROM clause!")

/-- The comparison with a cursor.  The template does not quote it, so the statement refers
to a column of that name. -/
def bareCursor (name value : String) : Except Exn Unit :=
  if isNotBlankString value then .error (unknownReference name) else .ok ()

/-- The condition `thread_id = …` on runs. -/
def Store.threadRuns (s : Store) (threadId : String) : List RunObject :=
  s.runs.rows.filter fun run => run.threadId = threadId

/-- `EntitySQLUtils::SelectManyRuns`: the template is rendered, then the statement is
executed. -/
def selectManyRuns (req : ListRunsRequest) (limit : Int32) : ServiceM (List RunObject) := fun s =>
  ((do
    orderVariable req.order
    bareCursor "after" req.after
    bareCursor "before" req.before
    selectMany (·.id) (·.createdAt) (s.threadRuns req.threadId) none none req.order limit :
      Except Exn (List RunObject)), s)

/-- The response where no run is too many.  An empty result has no front. -/
def allRunsResponse : List RunObject → Except Exn (ListResponse RunObject)
  | [] => .error (.undefinedBehaviour "run_list.front()")
  | first :: rest =>
      .ok
        { data := first :: rest
          firstId := first.id
          lastId := ((first :: rest).getLast?.map (·.id)).getD ""
          hasMore := false }

/-- The response.  `n>=limit` compares without signs, so no result is as long as a negative
limit. -/
def listRunsResponse (limit : Int32) (runList : List RunObject) :
    Except Exn (ListResponse RunObject) :=
  if 0 ≤ limit ∧ limit.toNatClampNeg ≤ runList.length then .ok (listResponse (·.id) limit runList)
  else allRunsResponse runList

/-- `RunServiceImpl::ListRuns`. -/
def listRuns (req : ListRunsRequest) : ServiceM (ListResponse RunObject) := do
  assertNotBlank req.threadId "should provide thread_id"
  let runList ← selectManyRuns req (contextLimit req.limit)
  listRunsResponse (lookAheadLimit req.limit) runList

/-! ### What it should do -/

/-- The runs that a request asks for. -/
def Store.matchingRuns (s : Store) (req : ListRunsRequest) : List RunObject :=
  ((s.threadRuns req.threadId).filter (isBefore (·.id) (notBlankCursor req.before))).filter
    (isBeyond (·.id) (notBlankCursor req.after))

def ListRunsRequest.setAfter (req : ListRunsRequest) (after : String) : ListRunsRequest :=
  { req with after := after }

/-- The request is answered as a list request should be: with no more runs than asked for
and with `has_more` where runs are left out.  An ascending request without a cursor is
the start of a walk that sees every run once. -/
structure ListsRuns (s : Store) (req : ListRunsRequest) : Prop where
  answer : ∃ response, listRuns req s = (.ok response, s) ∧
    response.data.length ≤ pageLimit req.limit ∧
    (response.hasMore = true ↔ response.data.length < (s.matchingRuns req).length)
  walk : req.order = .asc → req.after = "" →
    PagesCompletely listRuns ListRunsRequest.setAfter s req
      (arrange (·.createdAt) false (s.matchingRuns req)) (pageLimit req.limit)

/-- What the endpoint needs: an order, no cursors, a limit that is not negative, and
between one run and a page of them.  Without a limit a descending request may leave runs
out. -/
structure ListsRunsWhen (s : Store) (req : ListRunsRequest) : Prop where
  thread : isBlankString req.threadId = false
  order : req.order ≠ .unknownListRequestOrder
  after : req.after = ""
  before : req.before = ""
  limit : 0 ≤ req.limit
  nonempty : 0 < (s.matchingRuns req).length
  fits : (s.matchingRuns req).length ≤ pageLimit req.limit ∨
    req.limit = 0 ∧ req.order = .desc

/-! ### When it does -/

section ListRuns

variable {s : Store} {req : ListRunsRequest}

/-- The rows that the statement selects. -/
def Store.selectedRuns (s : Store) (req : ListRunsRequest) : List RunObject :=
  (arrange (·.createdAt) (req.order ≠ .asc) (s.threadRuns req.threadId)).take
    (contextLimit req.limit).toNatClampNeg

theorem orderVariable_eq_ok {order : ListRequestOrder} :
    orderVariable order = .ok () ↔ order ≠ .unknownListRequestOrder := by
  unfold orderVariable
  split <;> simp_all

theorem bareCursor_eq_ok {name value : String} :
    bareCursor name value = .ok () ↔ isBlankString value = true := by
  unfold bareCursor
  rw [isNotBlankString]
  cases isBlankString value <;> simp

theorem selectMany_eq_ok {rows : List RunObject} {order : ListRequestOrder} {limit : Int32}
    {result : List RunObject} :
    selectMany (·.id) (·.createdAt) rows none none order limit = .ok result ↔
      ¬ limit < 0 ∧ result = (arrange (·.createdAt) (order ≠ .asc) rows).take
        limit.toNatClampNeg := by
  have hall : (rows.filter (isBefore (·.id) none)).filter (isBeyond (·.id) none) = rows := by
    rw [filter_isBefore_none]
    exact List.filter_eq_self.mpr fun _ _ => rfl
  unfold selectMany
  rw [hall]
  split
  · rename_i h
    exact iff_of_false nofun fun hc => hc.1 h
  · rename_i h
    rw [Except.ok.injEq]
    exact ⟨fun hr => ⟨h, hr.symm⟩, fun hc => hc.2.symm⟩

/-- When the endpoint answers, and what. -/
theorem listRuns_eq_ok {response : ListResponse RunObject} :
    listRuns req s = (.ok response, s) ↔
      isBlankString req.threadId = false ∧ req.order ≠ .unknownListRequestOrder ∧
      isBlankString req.after = true ∧ isBlankString req.before = true ∧
      ¬ contextLimit req.limit < 0 ∧
      listRunsResponse (lookAheadLimit req.limit) (s.selectedRuns req) = .ok response := by
  constructor
  · intro h
    -- every check in the order of the template
    obtain ⟨⟨⟩, s₁, hcheck, h⟩ := Action.ok_of_bind h
    obtain ⟨hthread, rfl⟩ := Prod.mk.inj hcheck
    obtain ⟨rows, s₂, hselect, hresponse⟩ := Action.ok_of_bind h
    simp only [selectManyRuns, Prod.mk.injEq] at hselect
    obtain ⟨hselect, rfl⟩ := hselect
    obtain ⟨⟨⟩, horder, hselect⟩ := checks_eq_ok.mp hselect
    obtain ⟨⟨⟩, hafter, hselect⟩ := checks_eq_ok.mp hselect
    obtain ⟨⟨⟩, hbefore, hselect⟩ := checks_eq_ok.mp hselect
    obtain ⟨hlimit, rfl⟩ := selectMany_eq_ok.mp hselect
    exact ⟨assertNotBlank_eq_ok.mp hthread, orderVariable_eq_ok.mp horder,
      bareCursor_eq_ok.mp hafter, bareCursor_eq_ok.mp hbefore, hlimit,
      (Prod.mk.inj hresponse).1⟩
  · rintro ⟨hthread, horder, hafter, hbefore, hlimit, hresponse⟩
    -- the checks pass one after the other
    have hselect : selectManyRuns req (contextLimit req.limit) s
        = (.ok (s.selectedRuns req), s) := by
      refine Prod.ext ?_ rfl
      refine checks_eq_ok.mpr ⟨(), orderVariable_eq_ok.mpr horder, ?_⟩
      refine checks_eq_ok.mpr ⟨(), bareCursor_eq_ok.mpr hafter, ?_⟩
      refine checks_eq_ok.mpr ⟨(), bareCursor_eq_ok.mpr hbefore, ?_⟩
      exact selectMany_eq_ok.mpr ⟨hlimit, rfl⟩
    rw [listRuns, Action.liftM_bind_of_ok (assertNotBlank_of hthread), Action.bind_of_ok hselect,
      Action.liftM_apply, hresponse]

/-- A limit that the request sets is the limit of the statement as well. -/
theorem contextLimit_of_pos (h : 0 ≤ req.limit) (hzero : req.limit ≠ 0) :
    (contextLimit req.limit).toNatClampNeg = pageLimit req.limit := by
  have hpos : ¬ req.limit ≤ 0 := fun hle => hzero (Int32.le_antisymm hle h)
  rw [contextLimit, if_neg hzero, pageLimit, if_neg hpos]

theorem matchingRuns_of_no_cursor (hafter : isBlankString req.after = true)
    (hbefore : isBlankString req.before = true) :
    s.matchingRuns req = s.threadRuns req.threadId := by
  have hnone : ∀ cursor, isBlankString cursor = true → notBlankCursor cursor = none :=
    fun cursor hblank => if_neg (by simp [isNotBlankString, hblank])
  unfold Store.matchingRuns
  rw [hnone _ hafter, hnone _ hbefore, filter_isBefore_none]
  exact List.filter_eq_self.mpr fun _ _ => rfl

/-- A result that is not empty, with a look-ahead of one run. -/
theorem listRunsResponse_lookAhead {limit : Int32} {n : Nat} (hnonneg : 0 ≤ limit)
    (h : limit.toNatClampNeg = n + 1) (hn : 0 < n) {rows : List RunObject} (hrows : rows ≠ []) :
    ∃ response, listRunsResponse limit rows = .ok response ∧
      Answers (·.id) response (lookAhead n rows) := by
  unfold listRunsResponse
  by_cases hlen : limit.toNatClampNeg ≤ rows.length
  · rw [if_pos ⟨hnonneg, hlen⟩]
    exact ⟨_, rfl, listResponse_answers _ h hn rows⟩
  · rw [if_neg fun hc => hlen hc.2, lookAhead, if_neg (h ▸ hlen)]
    cases rows with
    | nil => exact absurd rfl hrows
    | cons first rest => exact ⟨_, rfl, rfl, rfl, fun h => absurd h (by simp)⟩

/-- A result that is not empty and shorter than the look-ahead is answered as it is. -/
theorem listRunsResponse_short {limit : Int32} {rows : List RunObject} (hrows : rows ≠ [])
    (hshort : 0 ≤ limit → rows.length < limit.toNatClampNeg) :
    ∃ response, listRunsResponse limit rows = .ok response ∧ response.data = rows ∧
      response.hasMore = false := by
  unfold listRunsResponse
  rw [if_neg fun hc => absurd (hshort hc.1) (not_lt.mpr hc.2)]
  cases rows with
  | nil => exact absurd rfl hrows
  | cons first rest => exact ⟨_, rfl, rfl, rfl⟩

/-- What a request needs to be answered at all. -/
structure Answerable (s : Store) (req : ListRunsRequest) : Prop where
  thread : isBlankString req.threadId = false
  order : req.order ≠ .unknownListRequestOrder
  after : isBlankString req.after = true
  before : isBlankString req.before = true
  limit : 0 ≤ req.limit
  nonempty : 0 < (s.threadRuns req.threadId).length

theorem answerable_of_ok {response : ListResponse RunObject}
    (h : listRuns req s = (.ok response, s)) : Answerable s req := by
  obtain ⟨hthread, horder, hafter, hbefore, hlimit, hresponse⟩ := listRuns_eq_ok.mp h
  refine ⟨hthread, horder, hafter, hbefore, ?_, ?_⟩
  · -- a negative limit reaches the statement as it is
    by_contra hneg
    have hne : req.limit ≠ 0 := fun hzero => hneg (hzero ▸ Int32.le_refl 0)
    rw [contextLimit, if_neg hne] at hlimit
    exact hlimit (Int32.not_le.mp hneg)
  · -- an empty thread has no front
    rw [List.length_pos_iff]
    intro hempty
    have hselected : s.selectedRuns req = [] := by
      rw [Store.selectedRuns, hempty]
      exact List.take_nil
    have hlong : ¬ (0 ≤ lookAheadLimit req.limit ∧
        (lookAheadLimit req.limit).toNatClampNeg ≤ 0) := by
      rintro ⟨hnonneg, hle⟩
      by_cases hmax : req.limit = Int32.maxValue
      · rw [hmax] at hnonneg
        exact absurd hnonneg (by decide)
      · have hlook := (lookAheadLimit_eq hmax).2
        omega
    rw [hselected] at hresponse
    unfold listRunsResponse at hresponse
    rw [List.length_nil, if_neg hlong] at hresponse
    simp [allRunsResponse] at hresponse

/-- **The answer.**  It is the first page; only without a limit does it know whether
others follow. -/
theorem listRuns_answer (h : Answerable s req) :
    ∃ response, listRuns req s = (.ok response, s) ∧
      response.data = (arrange (·.createdAt) (req.order ≠ .asc)
        (s.threadRuns req.threadId)).take (pageLimit req.limit) ∧
      (response.hasMore = true ↔
        req.limit = 0 ∧ pageLimit req.limit < (s.threadRuns req.threadId).length) ∧
      (response.hasMore = true → isBlankString response.lastId = false) := by
  have hpos := pageLimit_pos req.limit
  have hnonempty := h.nonempty
  by_cases hzero : req.limit = 0
  · have hlook := lookAheadLimit_eq (hzero ▸ zero_ne_maxValue : req.limit ≠ Int32.maxValue)
    have hcontext : contextLimit req.limit = lookAheadLimit req.limit := if_pos hzero
    have hselected : s.selectedRuns req = (arrange (·.createdAt) (req.order ≠ .asc)
        (s.threadRuns req.threadId)).take (pageLimit req.limit + 1) := by
      rw [Store.selectedRuns, hcontext, hlook.2]
    have hne : s.selectedRuns req ≠ [] := by
      rw [hselected, ← List.length_pos_iff, List.length_take, length_arrange]
      omega
    obtain ⟨response, hresponse, hdata, hmore, hlast⟩ := listRunsResponse_lookAhead
      (Int32.not_lt.mp hlook.1) hlook.2 hpos hne
    rw [hselected, lookAhead_take] at hdata hmore hlast
    rw [length_arrange] at hmore
    refine ⟨response, listRuns_eq_ok.mpr ⟨h.thread, h.order, h.after, h.before,
      hcontext ▸ hlook.1, hresponse⟩, hdata, by simp [hmore, hzero], fun hm => ?_⟩
    -- the last run of the page is a row of the table
    have hpage : response.data ≠ [] := by
      rw [hdata, ← List.length_pos_iff, List.length_take, length_arrange]
      omega
    obtain ⟨run, hrun⟩ := Option.isSome_iff_exists.mp (List.getLast?_isSome.mpr hpage)
    have hmem : run ∈ s.threadRuns req.threadId :=
      mem_arrange.mp (List.mem_of_mem_take (hdata ▸ List.mem_of_getLast? hrun))
    rw [hlast hm, ← hdata, hrun]
    exact s.runs.valid run (List.mem_of_mem_filter hmem)
  · have hselected : s.selectedRuns req = (arrange (·.createdAt) (req.order ≠ .asc)
        (s.threadRuns req.threadId)).take (pageLimit req.limit) := by
      rw [Store.selectedRuns, contextLimit_of_pos h.limit hzero]
    have hne : s.selectedRuns req ≠ [] := by
      rw [hselected, ← List.length_pos_iff, List.length_take, length_arrange]
      omega
    have hshort : 0 ≤ lookAheadLimit req.limit →
        (s.selectedRuns req).length < (lookAheadLimit req.limit).toNatClampNeg := by
      intro hnonneg
      have hmax : req.limit ≠ Int32.maxValue := by
        intro hmax
        rw [hmax] at hnonneg
        exact absurd hnonneg (by decide)
      rw [(lookAheadLimit_eq hmax).2, hselected, List.length_take]
      omega
    obtain ⟨response, hresponse, hdata, hmore⟩ := listRunsResponse_short hne hshort
    have hlimit : ¬ contextLimit req.limit < 0 := by
      rw [contextLimit, if_neg hzero]
      exact Int32.not_lt.mpr h.limit
    exact ⟨response, listRuns_eq_ok.mpr ⟨h.thread, h.order, h.after, h.before, hlimit,
      hresponse⟩, hdata.trans hselected, by simp [hmore, hzero], by simp [hmore]⟩

theorem keeps_listRuns (req : ListRunsRequest) : Action.Keeps id (listRuns req) :=
  Action.keeps_bind (Action.keeps_liftM _) fun _ =>
    Action.keeps_bind (fun _ => rfl) fun _ => Action.keeps_liftM _

/-- Walking on from a page that says there is more fails. -/
theorem pageThrough_after_more {response : ListResponse RunObject}
    (hlast : isBlankString response.lastId = false) (fuel : Nat) :
    pageThrough listRuns ListRunsRequest.setAfter s fuel (req.setAfter response.lastId)
      = none := by
  cases fuel with
  | zero => rfl
  | succ fuel =>
      rw [pageThrough]
      rcases hcall : listRuns (req.setAfter response.lastId) s with ⟨e | next, s'⟩
      · rfl
      · have hkeeps : (listRuns (req.setAfter response.lastId) s).2 = s := keeps_listRuns _ s
        have hstate : s' = s := by
          rw [hcall] at hkeeps
          exact hkeeps
        subst hstate
        -- only a blank cursor is answered, and this one is an id
        have hblank : isBlankString response.lastId = true := (answerable_of_ok hcall).after
        rw [hblank] at hlast
        exact absurd hlast (by decide)

/-- An ascending walk sees every run once if and only if its first page holds them all. -/
theorem walk_iff (h : Answerable s req) (hasc : req.order = .asc) (hafter : req.after = "") :
    PagesCompletely listRuns ListRunsRequest.setAfter s req
        (arrange (·.createdAt) false (s.threadRuns req.threadId)) (pageLimit req.limit)
      ↔ (s.threadRuns req.threadId).length ≤ pageLimit req.limit := by
  obtain ⟨response, hresponse, hdata, hmore, hlast⟩ := listRuns_answer h
  have hstart : req.setAfter "" = req := by
    rw [ListRunsRequest.setAfter, ← hafter]
  have hdirection : decide (req.order ≠ .asc) = false := by simp [hasc]
  rw [hdirection] at hdata
  unfold PagesCompletely
  rw [hstart]
  constructor
  · rintro ⟨fuel, pages, hpages, hflatten, -⟩
    cases fuel with
    | zero => simp [pageThrough] at hpages
    | succ fuel =>
        rw [pageThrough, hresponse] at hpages
        by_cases hm : response.hasMore = true
        · -- the walk would go on with a cursor, and fail
          simp [hm, pageThrough_after_more (hlast hm)] at hpages
        · -- one page, and it is everything
          simp only [if_neg hm, Option.some.injEq] at hpages
          rw [← hpages, List.flatten_singleton, hdata] at hflatten
          have hlen := congrArg List.length hflatten
          rw [List.length_take, length_arrange] at hlen
          omega
  · intro hfits
    -- one page holds everything
    have hm : ¬ response.hasMore = true := fun hm => by
      have := (hmore.mp hm).2
      omega
    refine ⟨1, [response.data], ?_, ?_, ?_⟩
    · simp [pageThrough, hresponse, hm]
    · rw [List.flatten_singleton, hdata, List.take_of_length_le]
      rw [length_arrange]
      exact hfits
    · intro page hpage
      rw [List.mem_singleton.mp hpage, hdata, List.length_take]
      exact Nat.min_le_left _ _

end ListRuns

/-- A run id is not blank. -/
theorem blank_of_cursor {s : Store} {cursor : String}
    (h : cursor = "" ∨ ∃ run ∈ s.runs.rows, run.id = cursor) :
    isBlankString cursor = true ↔ cursor = "" := by
  constructor
  · intro hblank
    rcases h with rfl | ⟨run, hrun, rfl⟩
    · rfl
    · have hvalid : isBlankString run.id = false := s.runs.valid run hrun
      rw [hvalid] at hblank
      exact absurd hblank (by decide)
  · rintro rfl
    rfl

/-- **When `ListRuns` lists runs.**  For every store and every request whose cursors are
empty or ids of runs, the endpoint does what it should if and only if the request names a
thread and an order, gives no cursor and no negative limit, the thread has a run, and all
its runs fit on the page (a descending request without a limit may leave some out). -/
theorem listRuns_lists_iff (s : Store) (req : ListRunsRequest)
    (hafter : req.after = "" ∨ ∃ run ∈ s.runs.rows, run.id = req.after)
    (hbefore : req.before = "" ∨ ∃ run ∈ s.runs.rows, run.id = req.before) :
    ListsRuns s req ↔ ListsRunsWhen s req := by
  constructor
  · rintro ⟨⟨response, hresponse, hbound, hmore⟩, hwalk⟩
    have hanswerable := answerable_of_ok hresponse
    have hmatching := matchingRuns_of_no_cursor (s := s) hanswerable.after hanswerable.before
    obtain ⟨response', hresponse', hdata, hmore', -⟩ := listRuns_answer hanswerable
    obtain rfl : response' = response := by
      rw [hresponse] at hresponse'
      exact (Except.ok.inj (Prod.mk.inj hresponse').1).symm
    have hempty := (blank_of_cursor hafter).mp hanswerable.after
    refine ⟨hanswerable.thread, hanswerable.order, hempty,
      (blank_of_cursor hbefore).mp hanswerable.before, hanswerable.limit,
      hmatching ▸ hanswerable.nonempty, ?_⟩
    rw [hmatching] at hmore hwalk ⊢
    rw [hmore', hdata, List.length_take, length_arrange] at hmore
    -- one page holds all runs, or the flag has to be set
    by_cases hfits : (s.threadRuns req.threadId).length ≤ pageLimit req.limit
    · exact .inl hfits
    · have hzero : req.limit = 0 := (hmore.mpr (by omega)).1
      refine .inr ⟨hzero, ?_⟩
      -- a walk in ascending order would not be complete
      have hnot : req.order ≠ .asc := fun hasc =>
        hfits ((walk_iff hanswerable hasc hempty).mp (hwalk hasc hempty))
      have hset := hanswerable.order
      rcases horder : req.order with - | - | -
      · exact absurd horder hset
      · rfl
      · exact absurd horder hnot
  · rintro ⟨hthread, horder, hempty, hempty', hlimit, hnonempty, hfits⟩
    have hblank := (blank_of_cursor hafter).mpr hempty
    have hblank' := (blank_of_cursor hbefore).mpr hempty'
    have hmatching := matchingRuns_of_no_cursor (s := s) hblank hblank'
    rw [hmatching] at hnonempty hfits
    have hanswerable : Answerable s req := ⟨hthread, horder, hblank, hblank', hlimit, hnonempty⟩
    obtain ⟨response, hresponse, hdata, hmore, -⟩ := listRuns_answer hanswerable
    constructor
    · refine ⟨response, hresponse, ?_, ?_⟩
      · rw [hdata, List.length_take]
        exact Nat.min_le_left _ _
      · -- `has_more` is only right where the limit is unset
        rw [hmore, hdata, hmatching, List.length_take, length_arrange]
        constructor
        · omega
        · intro hlt
          rcases hfits with hfits | ⟨hzero, -⟩
          · omega
          · exact ⟨hzero, by omega⟩
    · intro hasc _
      rw [hmatching, walk_iff hanswerable hasc hempty]
      rcases hfits with hfits | ⟨-, hdesc⟩
      · exact hfits
      · rw [hasc] at hdesc
        exact absurd hdesc (by decide)

/-- A thread with one run. -/
def oneRun : Store where
  runs :=
    { rows := [{ id := "run_1", threadId := "thread_1", createdAt := 1 }]
      nodup := by decide
      valid := by decide }

theorem listRuns_lists_one_run :
    ListsRuns oneRun { threadId := "thread_1", order := .asc, limit := 1 } :=
  (listRuns_lists_iff oneRun _ (.inl rfl) (.inl rfl)).mpr
    ⟨by decide, by decide, rfl, rfl, by decide, by decide, .inl (by decide)⟩

/-- The run is not listed by a request that leaves the order open. -/
theorem listRuns_needs_order :
    ¬ ∀ s req, (req.after = "" ∨ ∃ run ∈ s.runs.rows, run.id = req.after) →
      (req.before = "" ∨ ∃ run ∈ s.runs.rows, run.id = req.before) →
      ListsRuns s req := by
  intro h
  obtain ⟨response, hresponse, -⟩ :=
    (h oneRun { threadId := "thread_1" } (.inl rfl) (.inl rfl)).answer
  have herror : (listRuns { threadId := "thread_1" } oneRun).1
      = .error (missingVariable "order") := rfl
  rw [hresponse] at herror
  exact absurd herror (by simp)

end Instinct
