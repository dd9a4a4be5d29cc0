/-
Instinct/Listing.lean

The list endpoints `ListMessages`, `ListRunSteps` and `ListAssistants`, and a
client that pages through one of them.

An endpoint asks the database for one row more than the page may hold.  The row
too many is dropped and only says that there is more.  So each answer is a page
of the paging library (`listMessages_page`, `listRunSteps_page`,
`listAssistants_page`), and the client follows its cursor
(`pageThrough_eq_follow`).

The main result is `list_endpoints_page_completely_iff`: the client sees every
row exactly once, in the requested order, if and only if the order is ascending
or one page holds all rows (and the limit is not the largest `int32`, to which
no look-ahead can be added).
-/
import Instinct.Store

namespace Instinct

open Effects Paging

/-! ### Limits and look-ahead -/

/-- `DEFAULT_LIST_LIMIT`. -/
def defaultListLimit : Int32 := 20

/-- The limit of the query: one more than requested.  The addition wraps. -/
def lookAheadLimit (limit : Int32) : Int32 :=
  if limit ≤ 0 then defaultListLimit + 1 else limit + 1

/-- How many rows the client asked for on a page. -/
def pageLimit (limit : Int32) : Nat :=
  if limit ≤ 0 then defaultListLimit.toNatClampNeg else limit.toNatClampNeg

/-- The order of the query: descending, unless the request says otherwise. -/
def listOrder (order : ListRequestOrder) : ListRequestOrder :=
  if order = .unknownListRequestOrder then .desc else order

theorem listOrder_ne_asc (order : ListRequestOrder) :
    decide (listOrder order ≠ .asc) = decide (order ≠ .asc) := by
  cases order <;> rfl

theorem pageLimit_pos (limit : Int32) : 0 < pageLimit limit := by
  unfold pageLimit
  split
  · decide
  · rename_i h
    rw [Int32.le_iff_toInt_le] at h
    have hzero : (0 : Int32).toInt = 0 := by decide
    show 0 < limit.toInt.toNat
    omega

/-- Below the largest `int32` the query asks for one row more than the page holds. -/
theorem lookAheadLimit_eq {limit : Int32} (h : limit ≠ Int32.maxValue) :
    ¬ lookAheadLimit limit < 0 ∧
      (lookAheadLimit limit).toNatClampNeg = pageLimit limit + 1 := by
  unfold lookAheadLimit pageLimit
  split
  · decide
  · rename_i hpos
    have hlt := limit.toInt_lt
    have hmax : limit.toInt ≠ Int32.maxValue.toInt := fun e => h (Int32.toInt_inj.mp e)
    have hval : Int32.maxValue.toInt = 2147483647 := by decide
    have hzero : (0 : Int32).toInt = 0 := by decide
    have hone : (1 : Int32).toInt = 1 := by decide
    rw [Int32.le_iff_toInt_le] at hpos
    -- one more does not overflow
    have hadd : (limit + 1).toInt = limit.toInt + 1 := by
      rw [Int32.toInt_add, hone, Int.bmod_eq_of_le] <;> omega
    constructor
    · rw [Int32.lt_iff_toInt_lt, hadd]
      omega
    · show (limit + 1).toInt.toNat = limit.toInt.toNat + 1
      rw [hadd]
      omega

/-- At the largest `int32` the addition wraps to a negative limit. -/
theorem lookAheadLimit_maxValue : lookAheadLimit Int32.maxValue < 0 := by decide

/-- The page that an endpoint makes of the rows the query returned. -/
def listResponse {α : Type} (ident : α → String) (limit : Int32) (rows : List α) :
    ListResponse α :=
  if limit.toNatClampNeg ≤ rows.length then
    { data := rows.dropLast
      firstId := (rows.head?.map ident).getD ""
      lastId := (rows[rows.length - 2]?.map ident).getD ""
      hasMore := true }
  else
    { data := rows
      firstId := (rows.head?.map ident).getD ""
      lastId := (rows.getLast?.map ident).getD ""
      hasMore := false }

/-! ### The endpoints -/

/-- What rendering a statement throws for a variable that the context lacks. -/
def missingVariable (name : String) : Exn := .runtime ("variable '" ++ name ++ "' not found")

/-- A variable of a statement: a request that leaves its field empty leaves it out. -/
def templateVariable (name value : String) : Except Exn Unit :=
  if value = "" then .error (missingVariable name) else .ok ()

/-- `MessageServiceImpl::ListMessages`. -/
def listMessages (req : ListMessagesRequest) : ServiceM (ListResponse MessageObject) := do
  let limit := lookAheadLimit req.limit
  templateVariable "thread_id" req.threadId
  let messagesList ← selectManyMessages req (listOrder req.order) limit
  pure (listResponse (·.id) limit messagesList)

/-- `RunServiceImpl::ListRunSteps`. -/
def listRunSteps (req : ListRunStepsRequest) : ServiceM (ListResponse RunStepObject) := do
  let limit := lookAheadLimit req.limit
  templateVariable "thread_id" req.threadId
  templateVariable "run_id" req.runId
  let runStepList ← selectManyRunSteps req (listOrder req.order) limit
  pure (listResponse (·.id) limit runStepList)

/-- `AssistantServiceImpl::ListAssistants`. -/
def listAssistants (req : ListAssistantsRequest) : ServiceM (ListResponse AssistantObject) := do
  let limit := lookAheadLimit req.limit
  let assistants ← getManyAssistant req (listOrder req.order) limit
  pure (listResponse (·.id) limit assistants)

/-- A client that pages through an endpoint: it passes the `last_id` of each answer
as `after` until `has_more` is false.  `none`: a request failed, or the fuel ran out. -/
def pageThrough {R α : Type} (list : R → ServiceM (ListResponse α))
    (setAfter : R → String → R) (s : Store) : Nat → R → Option (List (List α))
  | 0, _ => none
  | fuel + 1, req =>
      match (list req s).1 with
      | .error _ => none
      | .ok response =>
          if response.hasMore then
            (pageThrough list setAfter s fuel (setAfter req response.lastId)).map
              (response.data :: ·)
          else some [response.data]

/-! ### Answers are pages -/

/-- An answer agrees with a page: same rows, same `has_more`, and its `last_id` is
the id of its last row. -/
structure Answers {α : Type} (ident : α → String) (response : ListResponse α)
    (page : Page α) : Prop where
  data : response.data = page.data
  hasMore : response.hasMore = page.hasMore
  lastId : response.hasMore = true → response.lastId = (page.data.getLast?.map ident).getD ""

theorem listResponse_answers {α : Type} (ident : α → String) {limit : Int32} {n : Nat}
    (h : limit.toNatClampNeg = n + 1) (hn : 0 < n) (rows : List α) :
    Answers ident (listResponse ident limit rows) (lookAhead n rows) := by
  unfold listResponse lookAhead
  rw [h]
  split
  · rename_i hlen
    refine ⟨rfl, rfl, fun _ => ?_⟩
    have hlast : rows.dropLast.getLast? = rows[rows.length - 2]? := by
      rw [List.getLast?_eq_getElem?, List.length_dropLast, List.getElem?_dropLast,
        if_pos (by omega)]
      rfl
    rw [hlast]
  · exact ⟨rfl, rfl, fun hm => absurd hm (by simp)⟩

/-- The query of an endpoint, below the largest limit. -/
theorem selectMany_lookAhead {α : Type} (ident : α → String) (stamp : α → Nat) (rows : List α)
    (after before : Option String) (order : ListRequestOrder) {limit : Int32}
    (h : limit ≠ Int32.maxValue) :
    selectMany ident stamp rows after before (listOrder order) (lookAheadLimit limit)
      = .ok ((arrange stamp (order ≠ .asc)
          ((rows.filter (isBefore ident before)).filter (isBeyond ident after))).take
            (pageLimit limit + 1)) := by
  obtain ⟨hneg, hlen⟩ := lookAheadLimit_eq h
  rw [selectMany, if_neg hneg, hlen, listOrder_ne_asc]

/-- The rows that a `ListMessages` request asks for, the cursor `after` aside. -/
def Store.matchingMessages (s : Store) (req : ListMessagesRequest) : List MessageObject :=
  (s.messages.rows.filter (isMessageOf req.threadId req.runId)).filter
    (isBefore (·.id) (notEmptyCursor req.before))

/-- The rows that a `ListRunSteps` request asks for, the cursor `after` aside. -/
def Store.matchingRunSteps (s : Store) (req : ListRunStepsRequest) : List RunStepObject :=
  (s.runSteps.rows.filter (isStepOf req.threadId req.runId)).filter
    (isBefore (·.id) (notBlankCursor req.before))

/-- The rows that a `ListAssistants` request asks for, the cursor `after` aside. -/
def Store.matchingAssistants (s : Store) (req : ListAssistantsRequest) : List AssistantObject :=
  s.assistants.rows.filter (isBefore (·.id) (notBlankCursor req.before))

theorem listMessages_page (s : Store) (req : ListMessagesRequest) (hthread : req.threadId ≠ "")
    (hlimit : req.limit ≠ Int32.maxValue) :
    ∃ response, listMessages req s = (.ok response, s) ∧ Answers (·.id) response
      (pageAt (·.id) (·.createdAt) (req.order ≠ .asc) (pageLimit req.limit)
        (s.matchingMessages req) (notEmptyCursor req.after)) := by
  refine ⟨_, ?_, listResponse_answers _ (lookAheadLimit_eq hlimit).2 (pageLimit_pos _) _⟩
  have hvar : templateVariable "thread_id" req.threadId = .ok () := if_neg hthread
  have hrows := selectMany_lookAhead (fun m : MessageObject => m.id) (·.createdAt)
    (s.messages.rows.filter (isMessageOf req.threadId req.runId)) (notEmptyCursor req.after)
    (notEmptyCursor req.before) req.order hlimit
  simp only [listMessages, Action.bind_apply, Action.liftM_apply, hvar, selectManyMessages,
    hrows]
  rfl

theorem listRunSteps_page (s : Store) (req : ListRunStepsRequest) (hthread : req.threadId ≠ "")
    (hrun : req.runId ≠ "") (hlimit : req.limit ≠ Int32.maxValue) :
    ∃ response, listRunSteps req s = (.ok response, s) ∧ Answers (·.id) response
      (pageAt (·.id) (·.createdAt) (req.order ≠ .asc) (pageLimit req.limit)
        (s.matchingRunSteps req) (notBlankCursor req.after)) := by
  refine ⟨_, ?_, listResponse_answers _ (lookAheadLimit_eq hlimit).2 (pageLimit_pos _) _⟩
  have hvar : templateVariable "thread_id" req.threadId = .ok () := if_neg hthread
  have hvar' : templateVariable "run_id" req.runId = .ok () := if_neg hrun
  have hrows := selectMany_lookAhead (fun step : RunStepObject => step.id) (·.createdAt)
    (s.runSteps.rows.filter (isStepOf req.threadId req.runId)) (notBlankCursor req.after)
    (notBlankCursor req.before) req.order hlimit
  simp only [listRunSteps, Action.bind_apply, Action.liftM_apply, hvar, hvar',
    selectManyRunSteps, hrows]
  rfl

theorem listAssistants_page (s : Store) (req : ListAssistantsRequest)
    (hlimit : req.limit ≠ Int32.maxValue) :
    ∃ response, listAssistants req s = (.ok response, s) ∧ Answers (·.id) response
      (pageAt (·.id) (·.createdAt) (req.order ≠ .asc) (pageLimit req.limit)
        (s.matchingAssistants req) (notBlankCursor req.after)) := by
  refine ⟨_, ?_, listResponse_answers _ (lookAheadLimit_eq hlimit).2 (pageLimit_pos _) _⟩
  have hrows := selectMany_lookAhead (fun row : AssistantObject => row.id) (·.createdAt)
    s.assistants.rows (notBlankCursor req.after) (notBlankCursor req.before) req.order hlimit
  simp only [listAssistants, Action.bind_apply, getManyAssistant, hrows]
  rfl

/-- At the largest limit every endpoint fails. -/
theorem selectMany_maxValue {α : Type} (ident : α → String) (stamp : α → Nat) (rows : List α)
    (after before : Option String) (order : ListRequestOrder) :
    selectMany ident stamp rows after before order (lookAheadLimit Int32.maxValue)
      = .error negativeLimit :=
  if_pos lookAheadLimit_maxValue

/-! ### A client pages through -/

section Client

variable {R α : Type} {list : R → ServiceM (ListResponse α)} {setAfter : R → String → R}
variable {s : Store} {req : R} {ident : α → String} {stamp : α → Nat} {descending : Bool}
variable {n : Nat} {rows : List α}

/-- At every cursor, the endpoint answers the page of the paging library and leaves the
store as it is. -/
def AnswersPages (list : R → ServiceM (ListResponse α)) (setAfter : R → String → R)
    (s : Store) (req : R) (ident : α → String) (stamp : α → Nat) (descending : Bool) (n : Nat)
    (rows : List α) : Prop :=
  ∀ cursor : Option String, (∀ c, cursor = some c → isBlankString c = false) →
    ∃ response, list (setAfter req (cursor.getD "")) s = (.ok response, s) ∧
      Answers ident response (pageAt ident stamp descending n rows cursor)

/-- The client follows the cursor. -/
theorem pageThrough_eq_follow
    (hlist : AnswersPages list setAfter s req ident stamp descending n rows)
    (hset : ∀ r a b, setAfter (setAfter r a) b = setAfter r b)
    (hids : ∀ row ∈ rows, isBlankString (ident row) = false) (hn : 0 < n)
    (fuel : Nat) (cursor : Option String)
    (hcursor : ∀ c, cursor = some c → isBlankString c = false) :
    pageThrough list setAfter s fuel (setAfter req (cursor.getD ""))
      = follow ident (fun c => some (pageAt ident stamp descending n rows c)) fuel cursor := by
  induction fuel generalizing cursor with
  | zero => rfl
  | succ fuel ih =>
      obtain ⟨response, hresponse, hdata, hmore, hlast⟩ := hlist cursor hcursor
      simp only [pageThrough, follow, hresponse]
      rw [← hmore]
      by_cases hm : response.hasMore = true
      · -- the next cursor is the id of a row, hence not blank
        obtain ⟨row, hrow, -, hend⟩ := last_beyond ident stamp descending n rows hn (hmore ▸ hm)
        have hid : response.lastId = ident row := by
          rw [hlast hm, hend]
          rfl
        have hrest := ih (some (ident row)) (by rintro c ⟨⟩; exact hids row hrow)
        rw [Option.getD_some] at hrest
        rw [if_pos hm, if_pos hm, hset, hid, nextCursor_of_last ident hend, hdata, hrest]
      · -- the last page
        rw [if_neg hm, if_neg hm, hdata]

/-- The client sees `expected`, every row once and in this order, on pages of at most `n`. -/
def PagesCompletely (list : R → ServiceM (ListResponse α)) (setAfter : R → String → R)
    (s : Store) (req : R) (expected : List α) (n : Nat) : Prop :=
  ∃ fuel pages, pageThrough list setAfter s fuel (setAfter req "") = some pages ∧
    pages.flatten = expected ∧ ∀ page ∈ pages, page.length ≤ n

/-- A client whose first request fails sees nothing. -/
theorem not_pagesCompletely_of_error {e : Exn} {expected : List α}
    (h : (list (setAfter req "") s).1 = .error e) :
    ¬ PagesCompletely list setAfter s req expected n := by
  rintro ⟨fuel, pages, hpages, -⟩
  cases fuel with
  | zero => simp [pageThrough] at hpages
  | succ fuel => simp [pageThrough, h] at hpages

/-- An endpoint that answers pages is paged through completely exactly when the order
is ascending or one page holds all rows. -/
theorem pagesCompletely_iff
    (hlist : AnswersPages list setAfter s req ident stamp descending n rows)
    (hordered : Ordered ident stamp rows)
    (hset : ∀ r a b, setAfter (setAfter r a) b = setAfter r b)
    (hids : ∀ row ∈ rows, isBlankString (ident row) = false) (hn : 0 < n) :
    PagesCompletely list setAfter s req (arrange stamp descending rows) n
      ↔ descending = false ∨ rows.length ≤ n := by
  have heq := fun fuel => pageThrough_eq_follow hlist hset hids hn fuel none (by simp)
  simp only [Option.getD_none] at heq
  unfold PagesCompletely
  simp only [heq]
  cases descending with
  | false =>
      refine iff_of_true ?_ (.inl rfl)
      exact ⟨rows.length + 1, follow_ascending hordered hn (Nat.lt_succ_self _)⟩
  | true =>
      rw [follow_descending_iff hordered hn]
      simp

end Client

/-! ### The endpoints -/

/-- `list_messages_request.set_after(after)`. -/
def ListMessagesRequest.setAfter (req : ListMessagesRequest) (after : String) :
    ListMessagesRequest := { req with after := after }

/-- `list_run_steps_request.set_after(after)`. -/
def ListRunStepsRequest.setAfter (req : ListRunStepsRequest) (after : String) :
    ListRunStepsRequest := { req with after := after }

/-- `list_assistants_request.set_after(after)`. -/
def ListAssistantsRequest.setAfter (req : ListAssistantsRequest) (after : String) :
    ListAssistantsRequest := { req with after := after }

theorem notEmptyCursor_getD {cursor : Option String}
    (h : ∀ c, cursor = some c → isBlankString c = false) :
    notEmptyCursor (cursor.getD "") = cursor := by
  rcases cursor with - | c
  · rfl
  · have hc : c ≠ "" := by
      rintro rfl
      exact absurd (h "" rfl) (by decide)
    exact if_neg hc

theorem notBlankCursor_getD {cursor : Option String}
    (h : ∀ c, cursor = some c → isBlankString c = false) :
    notBlankCursor (cursor.getD "") = cursor := by
  rcases cursor with - | c
  · rfl
  · exact if_pos (isNotBlankString_eq_true.mpr (h c rfl))

theorem listMessages_answersPages (s : Store) (req : ListMessagesRequest)
    (hthread : req.threadId ≠ "") (hlimit : req.limit ≠ Int32.maxValue) :
    AnswersPages listMessages ListMessagesRequest.setAfter s req (·.id) (·.createdAt)
      (req.order ≠ .asc) (pageLimit req.limit) (s.matchingMessages req) := by
  intro cursor hcursor
  obtain ⟨response, hresponse, hpage⟩ :=
    listMessages_page s (req.setAfter (cursor.getD "")) hthread hlimit
  refine ⟨response, hresponse, ?_⟩
  rw [ListMessagesRequest.setAfter, notEmptyCursor_getD hcursor] at hpage
  exact hpage

theorem listRunSteps_answersPages (s : Store) (req : ListRunStepsRequest)
    (hthread : req.threadId ≠ "") (hrun : req.runId ≠ "")
    (hlimit : req.limit ≠ Int32.maxValue) :
    AnswersPages listRunSteps ListRunStepsRequest.setAfter s req (·.id) (·.createdAt)
      (req.order ≠ .asc) (pageLimit req.limit) (s.matchingRunSteps req) := by
  intro cursor hcursor
  obtain ⟨response, hresponse, hpage⟩ :=
    listRunSteps_page s (req.setAfter (cursor.getD "")) hthread hrun hlimit
  refine ⟨response, hresponse, ?_⟩
  rw [ListRunStepsRequest.setAfter, notBlankCursor_getD hcursor] at hpage
  exact hpage

theorem listAssistants_answersPages (s : Store) (req : ListAssistantsRequest)
    (hlimit : req.limit ≠ Int32.maxValue) :
    AnswersPages listAssistants ListAssistantsRequest.setAfter s req (·.id) (·.createdAt)
      (req.order ≠ .asc) (pageLimit req.limit) (s.matchingAssistants req) := by
  intro cursor hcursor
  obtain ⟨response, hresponse, hpage⟩ :=
    listAssistants_page s (req.setAfter (cursor.getD "")) hlimit
  refine ⟨response, hresponse, ?_⟩
  rw [ListAssistantsRequest.setAfter, notBlankCursor_getD hcursor] at hpage
  exact hpage

/-- A request that does not name its thread fails. -/
theorem listMessages_without_thread (s : Store) (req : ListMessagesRequest)
    (h : req.threadId = "") :
    (listMessages req s).1 = .error (missingVariable "thread_id") := by
  have hvar : templateVariable "thread_id" req.threadId = .error (missingVariable "thread_id") :=
    if_pos h
  simp only [listMessages, Action.bind_apply, Action.liftM_apply, hvar]

theorem listRunSteps_without_thread (s : Store) (req : ListRunStepsRequest)
    (h : req.threadId = "") :
    (listRunSteps req s).1 = .error (missingVariable "thread_id") := by
  have hvar : templateVariable "thread_id" req.threadId = .error (missingVariable "thread_id") :=
    if_pos h
  simp only [listRunSteps, Action.bind_apply, Action.liftM_apply, hvar]

theorem listRunSteps_without_run (s : Store) (req : ListRunStepsRequest)
    (hthread : req.threadId ≠ "") (h : req.runId = "") :
    (listRunSteps req s).1 = .error (missingVariable "run_id") := by
  have hvar : templateVariable "thread_id" req.threadId = .ok () := if_neg hthread
  have hvar' : templateVariable "run_id" req.runId = .error (missingVariable "run_id") := if_pos h
  simp only [listRunSteps, Action.bind_apply, Action.liftM_apply, hvar, hvar']

/-- A request with the largest limit fails. -/
theorem listMessages_maxValue (s : Store) (req : ListMessagesRequest)
    (hthread : req.threadId ≠ "") (h : req.limit = Int32.maxValue) :
    (listMessages req s).1 = .error negativeLimit := by
  have hvar : templateVariable "thread_id" req.threadId = .ok () := if_neg hthread
  simp only [listMessages, Action.bind_apply, Action.liftM_apply, hvar, h, selectManyMessages,
    selectMany_maxValue]

theorem listRunSteps_maxValue (s : Store) (req : ListRunStepsRequest)
    (hthread : req.threadId ≠ "") (hrun : req.runId ≠ "") (h : req.limit = Int32.maxValue) :
    (listRunSteps req s).1 = .error negativeLimit := by
  have hvar : templateVariable "thread_id" req.threadId = .ok () := if_neg hthread
  have hvar' : templateVariable "run_id" req.runId = .ok () := if_neg hrun
  simp only [listRunSteps, Action.bind_apply, Action.liftM_apply, hvar, hvar', h,
    selectManyRunSteps, selectMany_maxValue]

theorem listAssistants_maxValue (s : Store) (req : ListAssistantsRequest)
    (h : req.limit = Int32.maxValue) : (listAssistants req s).1 = .error negativeLimit := by
  simp only [listAssistants, Action.bind_apply, h, getManyAssistant, selectMany_maxValue]

theorem listMessages_pagesCompletely_iff (s : Store) (req : ListMessagesRequest)
    (h : Ordered (·.id) (·.createdAt) (s.matchingMessages req)) :
    PagesCompletely listMessages ListMessagesRequest.setAfter s req
        (arrange (·.createdAt) (req.order ≠ .asc) (s.matchingMessages req))
        (pageLimit req.limit)
      ↔ req.threadId ≠ "" ∧ req.limit ≠ Int32.maxValue ∧
        (req.order = .asc ∨ (s.matchingMessages req).length ≤ pageLimit req.limit) := by
  by_cases hthread : req.threadId = ""
  · exact iff_of_false (not_pagesCompletely_of_error
      (listMessages_without_thread s (req.setAfter "") hthread)) fun hc => hc.1 hthread
  by_cases hlimit : req.limit = Int32.maxValue
  · exact iff_of_false (not_pagesCompletely_of_error
      (listMessages_maxValue s (req.setAfter "") hthread hlimit)) fun hc => hc.2.1 hlimit
  rw [pagesCompletely_iff (listMessages_answersPages s req hthread hlimit) h (fun _ _ _ => rfl)
    (fun row hrow => s.messages.valid row
      (List.mem_of_mem_filter (List.mem_of_mem_filter hrow)))
    (pageLimit_pos _)]
  simp [hthread, hlimit]

theorem listRunSteps_pagesCompletely_iff (s : Store) (req : ListRunStepsRequest)
    (h : Ordered (·.id) (·.createdAt) (s.matchingRunSteps req)) :
    PagesCompletely listRunSteps ListRunStepsRequest.setAfter s req
        (arrange (·.createdAt) (req.order ≠ .asc) (s.matchingRunSteps req))
        (pageLimit req.limit)
      ↔ (req.threadId ≠ "" ∧ req.runId ≠ "") ∧ req.limit ≠ Int32.maxValue ∧
        (req.order = .asc ∨ (s.matchingRunSteps req).length ≤ pageLimit req.limit) := by
  by_cases hthread : req.threadId = ""
  · exact iff_of_false (not_pagesCompletely_of_error
      (listRunSteps_without_thread s (req.setAfter "") hthread)) fun hc => hc.1.1 hthread
  by_cases hrun : req.runId = ""
  · exact iff_of_false (not_pagesCompletely_of_error
      (listRunSteps_without_run s (req.setAfter "") hthread hrun)) fun hc => hc.1.2 hrun
  by_cases hlimit : req.limit = Int32.maxValue
  · exact iff_of_false (not_pagesCompletely_of_error
      (listRunSteps_maxValue s (req.setAfter "") hthread hrun hlimit)) fun hc => hc.2.1 hlimit
  -- the request is answered page by page
  rw [pagesCompletely_iff (listRunSteps_answersPages s req hthread hrun hlimit) h
    (fun _ _ _ => rfl)
    (fun row hrow => s.runSteps.valid row
      (List.mem_of_mem_filter (List.mem_of_mem_filter hrow)))
    (pageLimit_pos _)]
  simp [hthread, hrun, hlimit]

theorem listAssistants_pagesCompletely_iff (s : Store) (req : ListAssistantsRequest)
    (h : Ordered (·.id) (·.createdAt) (s.matchingAssistants req)) :
    PagesCompletely listAssistants ListAssistantsRequest.setAfter s req
        (arrange (·.createdAt) (req.order ≠ .asc) (s.matchingAssistants req))
        (pageLimit req.limit)
      ↔ req.limit ≠ Int32.maxValue ∧
        (req.order = .asc ∨ (s.matchingAssistants req).length ≤ pageLimit req.limit) := by
  by_cases hlimit : req.limit = Int32.maxValue
  · exact iff_of_false (not_pagesCompletely_of_error
      (listAssistants_maxValue s (req.setAfter "") hlimit)) fun hc => hc.1 hlimit
  rw [pagesCompletely_iff (listAssistants_answersPages s req hlimit) h (fun _ _ _ => rfl)
    (fun row hrow => s.assistants.valid row (List.mem_of_mem_filter hrow))
    (pageLimit_pos _)]
  simp [hlimit]

/-- **When the list endpoints can be paged through.**  On rows whose ids agree with
their creation times, a client that passes each `last_id` on as `after` sees every
row exactly once, in the requested order and within the limit, if and only if the
request names its thread and run, its limit leaves room for the look-ahead, and the
order is ascending or the first page holds all rows. -/
theorem list_endpoints_page_completely_iff (s : Store) :
    (∀ req : ListMessagesRequest,
      Ordered (·.id) (·.createdAt) (s.matchingMessages req) →
      (PagesCompletely listMessages ListMessagesRequest.setAfter s req
          (arrange (·.createdAt) (req.order ≠ .asc) (s.matchingMessages req))
          (pageLimit req.limit)
        ↔ req.threadId ≠ "" ∧ req.limit ≠ Int32.maxValue ∧
          (req.order = .asc ∨ (s.matchingMessages req).length ≤ pageLimit req.limit))) ∧
    (∀ req : ListRunStepsRequest,
      Ordered (·.id) (·.createdAt) (s.matchingRunSteps req) →
      (PagesCompletely listRunSteps ListRunStepsRequest.setAfter s req
          (arrange (·.createdAt) (req.order ≠ .asc) (s.matchingRunSteps req))
          (pageLimit req.limit)
        ↔ (req.threadId ≠ "" ∧ req.runId ≠ "") ∧ req.limit ≠ Int32.maxValue ∧
          (req.order = .asc ∨ (s.matchingRunSteps req).length ≤ pageLimit req.limit))) ∧
    (∀ req : ListAssistantsRequest,
      Ordered (·.id) (·.createdAt) (s.matchingAssistants req) →
      (PagesCompletely listAssistants ListAssistantsRequest.setAfter s req
          (arrange (·.createdAt) (req.order ≠ .asc) (s.matchingAssistants req))
          (pageLimit req.limit)
        ↔ req.limit ≠ Int32.maxValue ∧
          (req.order = .asc ∨ (s.matchingAssistants req).length ≤ pageLimit req.limit))) :=
  ⟨listMessages_pagesCompletely_iff s, listRunSteps_pagesCompletely_iff s,
    listAssistants_pagesCompletely_iff s⟩

/-- A thread of three messages. -/
def threeMessages : Store where
  messages :=
    { rows :=
        [{ id := "msg_1", createdAt := 1, threadId := "thread_1" },
          { id := "msg_2", createdAt := 2, threadId := "thread_1" },
          { id := "msg_3", createdAt := 3, threadId := "thread_1" }]
      nodup := by decide
      valid := by decide }

theorem ordered_threeMessages (req : ListMessagesRequest) :
    Ordered (·.id) (·.createdAt) (threeMessages.matchingMessages req) :=
  (Ordered.filter ⟨threeMessages.messages.nodup, by decide⟩ _).filter _

/-- Ascending, two to a page, the three messages are seen. -/
theorem list_endpoints_page_three_messages :
    PagesCompletely listMessages ListMessagesRequest.setAfter threeMessages
      { threadId := "thread_1", limit := 2, order := .asc }
      (threeMessages.messages.rows) 2 :=
  ((list_endpoints_page_completely_iff threeMessages).1
    { threadId := "thread_1", limit := 2, order := .asc } (ordered_threeMessages _)).mpr
    (by decide)

/-- Descending, one to a page, the client sees the newest message and then an empty page. -/
theorem list_endpoints_lose_messages :
    Ordered (fun m : MessageObject => m.id) (·.createdAt) threeMessages.messages.rows ∧
      (pageThrough listMessages ListMessagesRequest.setAfter threeMessages 2
        { threadId := "thread_1", limit := 1, order := .desc }).map (·.map (·.map (·.id)))
        = some [["msg_3"], []] ∧
      ¬ PagesCompletely listMessages ListMessagesRequest.setAfter threeMessages
        { threadId := "thread_1", limit := 1, order := .desc }
        (arrange (·.createdAt) true threeMessages.messages.rows) 1 := by
  refine ⟨⟨threeMessages.messages.nodup, by decide⟩, by decide, fun h => ?_⟩
  have hiff := listMessages_pagesCompletely_iff threeMessages
    { threadId := "thread_1", limit := 1, order := .desc } (ordered_threeMessages _)
  exact absurd (hiff.mp h) (by decide)

/-! ### The loops of the task handler -/

section Loops

variable {R α : Type} (list : R → ServiceM (ListResponse α)) (setAfter : R → String → R)
variable (ident : α → String)

/-- The request for the page after a response: its last row is the cursor. -/
def nextRequest (req : R) (response : ListResponse α) : R :=
  match response.data.getLast? with
  | some row => setAfter req (ident row)
  | none => req

/-- What a loop that has used up its fuel answers; `collectPages_eq` and `searchPages_eq`
show that the loops of the handler never do. -/
def outOfFuel : Exn := .undefinedBehaviour "the loop does not end"

/-- Collect the rows of all pages. -/
def collectPages : Nat → R → ServiceM (List α)
  | 0, _ => .throw outOfFuel
  | fuel + 1, req => do
      let response ← list req
      if response.hasMore then
        let rest ← collectPages fuel (nextRequest setAfter ident req response)
        pure (response.data ++ rest)
      else pure response.data

/-- Search the pages for the first row that satisfies `p`. -/
def searchPages (p : α → Bool) : Nat → R → ServiceM (Option α)
  | 0, _ => .throw outOfFuel
  | fuel + 1, req => do
      let response ← list req
      match response.data.find? p with
      | some row => pure (some row)
      | none =>
          if response.hasMore then
            searchPages p fuel (nextRequest setAfter ident req response)
          else pure none

end Loops

section Keeps

variable {R α : Type} {list : R → ServiceM (ListResponse α)} {setAfter : R → String → R}
variable {ident : α → String}

theorem keeps_listMessages (req : ListMessagesRequest) : Action.Keeps id (listMessages req) :=
  Action.keeps_bind (Action.keeps_liftM _) fun _ =>
    Action.keeps_bind (fun _ => rfl) fun _ => Action.keeps_pure _

theorem keeps_listRunSteps (req : ListRunStepsRequest) : Action.Keeps id (listRunSteps req) :=
  Action.keeps_bind (Action.keeps_liftM _) fun _ =>
    Action.keeps_bind (Action.keeps_liftM _) fun _ =>
      Action.keeps_bind (fun _ => rfl) fun _ => Action.keeps_pure _

theorem keeps_collectPages (h : ∀ req, Action.Keeps id (list req)) (fuel : Nat) (req : R) :
    Action.Keeps id (collectPages list setAfter ident fuel req) := by
  induction fuel generalizing req with
  | zero => exact fun _ => rfl
  | succ fuel ih =>
      refine Action.keeps_bind (h req) fun response => Action.keeps_ite ?_ (Action.keeps_pure _)
      exact Action.keeps_bind (ih _) fun _ => Action.keeps_pure _

theorem keeps_searchPages (h : ∀ req, Action.Keeps id (list req)) (p : α → Bool) (fuel : Nat)
    (req : R) : Action.Keeps id (searchPages list setAfter ident p fuel req) := by
  induction fuel generalizing req with
  | zero => exact fun _ => rfl
  | succ fuel ih =>
      refine Action.keeps_bind (h req) fun response => ?_
      split
      · exact Action.keeps_pure _
      · exact Action.keeps_ite (ih _) (Action.keeps_pure _)

end Keeps

/-- The request of `ListAllSteps_`: ascending, with the default limit. -/
def allStepsRequest (threadId runId : String) : ListRunStepsRequest :=
  { threadId := threadId, runId := runId, order := .asc }

/-- `RunObjectTaskHandler::ListAllSteps_`. -/
def listAllSteps (threadId runId : String) : ServiceM (List RunStepObject) := fun s =>
  collectPages listRunSteps ListRunStepsRequest.setAfter (·.id) (s.runSteps.rows.length + 1)
    (allStepsRequest threadId runId) s

/-- The request of `GetLatestUserMessageObject_`: descending, with the default limit. -/
def latestMessagesRequest (threadId : String) : ListMessagesRequest :=
  { threadId := threadId, order := .desc }

/-- `RunObjectTaskHandler::GetLatestUserMessageObject_`. -/
def getLatestUserMessageObject (threadId : String) : ServiceM (Option MessageObject) := fun s =>
  searchPages listMessages ListMessagesRequest.setAfter (·.id) (fun message => message.role = .user)
    (s.messages.rows.length + 1) (latestMessagesRequest threadId) s

section Loops

variable {R α : Type} {list : R → ServiceM (ListResponse α)} {setAfter : R → String → R}
variable {s : Store} {req : R} {ident : α → String} {stamp : α → Nat} {descending : Bool}
variable {n : Nat} {rows : List α}

/-- The request after a page carries the cursor of the paging library. -/
theorem nextRequest_eq (hset : ∀ r a b, setAfter (setAfter r a) b = setAfter r b)
    {response : ListResponse α} {page : Page α} (hdata : response.data = page.data)
    (cursor : Option String) :
    nextRequest setAfter ident (setAfter req (cursor.getD "")) response
      = setAfter req ((nextCursor ident page cursor).getD "") := by
  rw [nextRequest, nextCursor, hdata]
  rcases page.data.getLast? with - | row
  · rfl
  · exact hset _ _ _

/-- The next cursor is not blank either: it is the id of a row. -/
theorem nextCursor_not_blank (hids : ∀ row ∈ rows, isBlankString (ident row) = false)
    {cursor : Option String} (hcursor : ∀ c, cursor = some c → isBlankString c = false)
    (c : String) (hc : nextCursor ident (pageAt ident stamp descending n rows cursor) cursor
      = some c) : isBlankString c = false := by
  rw [nextCursor] at hc
  rcases e : (pageAt ident stamp descending n rows cursor).data.getLast? with - | row
  · rw [e] at hc
    exact hcursor c hc
  · rw [e] at hc
    obtain rfl := Option.some.inj hc
    exact hids row (mem_pageAt ident (List.mem_of_getLast? e)).1

/-- Collecting is following the cursor. -/
theorem collectPages_eq
    (hlist : AnswersPages list setAfter s req ident stamp descending n rows)
    (hset : ∀ r a b, setAfter (setAfter r a) b = setAfter r b)
    (hids : ∀ row ∈ rows, isBlankString (ident row) = false)
    {fuel : Nat} {cursor : Option String} {pages : List (List α)}
    (hcursor : ∀ c, cursor = some c → isBlankString c = false)
    (h : follow ident (fun c => some (pageAt ident stamp descending n rows c)) fuel cursor
      = some pages) :
    collectPages list setAfter ident fuel (setAfter req (cursor.getD "")) s
      = (.ok pages.flatten, s) := by
  induction fuel generalizing cursor pages with
  | zero => simp [follow] at h
  | succ fuel ih =>
      obtain ⟨response, hresponse, hdata, hmore, -⟩ := hlist cursor hcursor
      simp only [follow, ← hmore] at h
      simp only [collectPages, Action.bind_of_ok hresponse]
      by_cases hm : response.hasMore = true
      · rw [if_pos hm] at h ⊢
        -- the page, then the rest of the walk
        obtain ⟨rest, hrest, rfl⟩ := Option.map_eq_some_iff.mp h
        have hnext := ih (nextCursor_not_blank hids hcursor) hrest
        rw [nextRequest_eq hset hdata, Action.bind_of_ok hnext, hdata]
        rfl
      · rw [if_neg hm] at h ⊢
        obtain rfl := Option.some.inj h
        rw [List.flatten_singleton, hdata]
        rfl

/-- Searching is searching through the pages. -/
theorem searchPages_eq (p : α → Bool)
    (hlist : AnswersPages list setAfter s req ident stamp descending n rows)
    (hset : ∀ r a b, setAfter (setAfter r a) b = setAfter r b)
    (hids : ∀ row ∈ rows, isBlankString (ident row) = false)
    {fuel : Nat} {cursor : Option String} {found : Option α}
    (hcursor : ∀ c, cursor = some c → isBlankString c = false)
    (h : findThrough ident p (fun c => some (pageAt ident stamp descending n rows c)) fuel cursor
      = some found) :
    searchPages list setAfter ident p fuel (setAfter req (cursor.getD "")) s
      = (.ok found, s) := by
  induction fuel generalizing cursor with
  | zero => simp [findThrough] at h
  | succ fuel ih =>
      obtain ⟨response, hresponse, hdata, hmore, -⟩ := hlist cursor hcursor
      simp only [findThrough, ← hmore, ← hdata] at h
      simp only [searchPages, Action.bind_of_ok hresponse]
      rcases e : response.data.find? p with - | row
      · simp only [e] at h ⊢
        by_cases hm : response.hasMore = true
        · rw [if_pos hm] at h ⊢
          -- not on this page, but there are more
          rw [nextRequest_eq hset hdata]
          exact ih (nextCursor_not_blank hids hcursor) h
        · rw [if_neg hm] at h ⊢
          -- the walk ends with this page
          rw [← Option.some.inj h]
          rfl
      · simp only [e] at h ⊢
        rw [← Option.some.inj h]
        rfl

end Loops

/-- The steps of a run. -/
def Store.stepsOf (s : Store) (threadId runId : String) : List RunStepObject :=
  s.runSteps.rows.filter (isStepOf threadId runId)

/-- The messages of a thread. -/
def Store.messagesOf (s : Store) (threadId : String) : List MessageObject :=
  s.messages.rows.filter (isMessageOf threadId "")

theorem filter_isBefore_none {α : Type} (ident : α → String) (rows : List α) :
    rows.filter (isBefore ident none) = rows :=
  List.filter_eq_self.mpr fun _ _ => rfl

theorem zero_ne_maxValue : (0 : Int32) ≠ Int32.maxValue := by decide

/-- The requests of `ListAllSteps_` get ascending pages of twenty steps of the run. -/
theorem allSteps_answersPages (s : Store) {threadId runId : String} (hthread : threadId ≠ "")
    (hrun : runId ≠ "") :
    AnswersPages listRunSteps ListRunStepsRequest.setAfter s (allStepsRequest threadId runId)
      (·.id) (·.createdAt) false 20 (s.stepsOf threadId runId) := by
  have hrows : s.matchingRunSteps (allStepsRequest threadId runId) = s.stepsOf threadId runId :=
    filter_isBefore_none _ _
  rw [← hrows]
  exact listRunSteps_answersPages s (allStepsRequest threadId runId) hthread hrun
    zero_ne_maxValue

/-- The first page of a run's steps, newest first. -/
theorem listRunSteps_newest (s : Store) {threadId runId : String} (hthread : threadId ≠ "")
    (hrun : runId ≠ "") {limit : Int32} (hlimit : limit ≠ Int32.maxValue) :
    ∃ response, listRunSteps
        { threadId := threadId, runId := runId, order := .desc, limit := limit } s
        = (.ok response, s) ∧
      response.data = (arrange (·.createdAt) true (s.stepsOf threadId runId)).take
        (pageLimit limit) := by
  obtain ⟨response, hresponse, hdata, -, -⟩ := listRunSteps_page s
    { threadId := threadId, runId := runId, order := .desc, limit := limit } hthread hrun hlimit
  refine ⟨response, hresponse, ?_⟩
  rw [hdata, pageAt_eq]
  have hrows : ((s.matchingRunSteps
      { threadId := threadId, runId := runId, order := .desc, limit := limit }).filter
        (isBeyond (·.id) none)) = s.stepsOf threadId runId :=
    (List.filter_eq_self.mpr fun _ _ => rfl).trans (filter_isBefore_none _ _)
  exact congrArg (fun rows => (arrange (·.createdAt) true rows).take (pageLimit limit)) hrows

/-- The requests of `GetLatestUserMessageObject_` get descending pages of twenty messages
of the thread. -/
theorem latestMessages_answersPages (s : Store) {threadId : String} (hthread : threadId ≠ "") :
    AnswersPages listMessages ListMessagesRequest.setAfter s (latestMessagesRequest threadId)
      (·.id) (·.createdAt) true 20 (s.messagesOf threadId) := by
  have hrows : s.matchingMessages (latestMessagesRequest threadId) = s.messagesOf threadId :=
    filter_isBefore_none _ _
  rw [← hrows]
  exact listMessages_answersPages s (latestMessagesRequest threadId) hthread zero_ne_maxValue

/-- The loop of `ListAllSteps_` follows the cursor to its end. -/
theorem listAllSteps_of_follow (s : Store) {threadId runId : String} (hthread : threadId ≠ "")
    (hrun : runId ≠ "") {pages : List (List RunStepObject)}
    (h : follow (·.id) (fun c => some (pageAt (·.id) (·.createdAt) false 20
      (s.stepsOf threadId runId) c)) (s.runSteps.rows.length + 1) none = some pages) :
    listAllSteps threadId runId s = (.ok pages.flatten, s) :=
  collectPages_eq (allSteps_answersPages s hthread hrun) (fun _ _ _ => rfl)
    (fun row hrow => s.runSteps.valid row (List.mem_of_mem_filter hrow)) (by simp) h

/-- `ListAllSteps_` always ends, reads nothing but steps, and returns steps of the run. -/
theorem listAllSteps_ok (s : Store) {threadId runId : String} (hthread : threadId ≠ "")
    (hrun : runId ≠ "") : ∃ steps, (∀ step ∈ steps, step ∈ s.stepsOf threadId runId) ∧
      ∀ s' : Store, s'.runSteps = s.runSteps →
        listAllSteps threadId runId s' = (.ok steps, s') := by
  obtain ⟨pages, hpages⟩ := follow_isSome (fun step : RunStepObject => step.id) (·.createdAt)
    false 20 (s.stepsOf threadId runId) (by decide) (s.runSteps.rows.length + 1) none
    (Nat.lt_succ_of_le ((List.length_filter_le _ _).trans (List.length_filter_le _ _)))
  refine ⟨pages.flatten, fun step hstep => ?_, fun s' hsteps => ?_⟩
  · exact (beyond_of_mem_follow _ _ _ _ _ (by decide) hpages hstep).1
  · refine listAllSteps_of_follow s' hthread hrun ?_
    rw [Store.stepsOf, hsteps]
    exact hpages

/-- **`ListAllSteps_` returns every step of the run, in the order of creation.** -/
theorem listAllSteps_eq (s : Store) {threadId runId : String} (hthread : threadId ≠ "")
    (hrun : runId ≠ "") (h : Ordered (·.id) (·.createdAt) (s.stepsOf threadId runId)) :
    listAllSteps threadId runId s
      = (.ok (arrange (·.createdAt) false (s.stepsOf threadId runId)), s) := by
  have hfuel : (s.stepsOf threadId runId).length < s.runSteps.rows.length + 1 :=
    Nat.lt_succ_of_le (List.length_filter_le _ _)
  obtain ⟨pages, hpages, hflat, -⟩ := follow_ascending h (n := 20) (by decide) hfuel
  rw [← hflat]
  exact listAllSteps_of_follow s hthread hrun hpages

/-- The loop of `GetLatestUserMessageObject_` searches the pages to their end. -/
theorem getLatestUserMessageObject_of_findThrough (s : Store) {threadId : String}
    (hthread : threadId ≠ "") {found : Option MessageObject}
    (h : findThrough (·.id) (fun message => message.role = .user)
      (fun c => some (pageAt (·.id) (·.createdAt) true 20 (s.messagesOf threadId) c))
      (s.messages.rows.length + 1) none = some found) :
    getLatestUserMessageObject threadId s = (.ok found, s) :=
  searchPages_eq _ (latestMessages_answersPages s hthread) (fun _ _ _ => rfl)
    (fun row hrow => s.messages.valid row (List.mem_of_mem_filter hrow)) (by simp) h

/-- **`GetLatestUserMessageObject_` sees the twenty newest messages only.** -/
theorem getLatestUserMessageObject_eq (s : Store) {threadId : String} (hthread : threadId ≠ "")
    (h : Ordered (·.id) (·.createdAt) (s.messagesOf threadId)) :
    getLatestUserMessageObject threadId s
      = (.ok (((arrange (·.createdAt) true (s.messagesOf threadId)).take 20).find?
          fun message => message.role = .user), s) :=
  getLatestUserMessageObject_of_findThrough s hthread
    (findThrough_descending h (by decide) _ (Nat.lt_succ_of_le (List.length_filter_le _ _)))

/-- `GetLatestUserMessageObject_` always ends, and reads nothing but messages. -/
theorem getLatestUserMessageObject_ok (s : Store) {threadId : String} (hthread : threadId ≠ "") :
    ∃ found, ∀ s' : Store, s'.messages = s.messages →
      getLatestUserMessageObject threadId s' = (.ok found, s') := by
  obtain ⟨pages, hpages⟩ := follow_isSome (fun message : MessageObject => message.id)
    (·.createdAt) true 20 (s.messagesOf threadId) (by decide) (s.messages.rows.length + 1) none
    (Nat.lt_succ_of_le ((List.length_filter_le _ _).trans (List.length_filter_le _ _)))
  refine ⟨pages.flatten.find? fun message => message.role = .user, fun s' hmessages =>
    getLatestUserMessageObject_of_findThrough s' hthread ?_⟩
  rw [Store.messagesOf, hmessages]
  exact findThrough_of_follow _ _ hpages

end Instinct
