/-
Instinct/Paging.lean

Cursor paging over a list of rows, as a small library of its own.

A row has an identifier `ident`, in a linear order, and a time stamp `stamp`.
A server answers a request with the rows whose identifier lies beyond the
cursor, arranged by their stamps, cut to a page with a look-ahead of one row
(`pageAt`).  A client follows the cursor from page to page until a page says
that there is no more (`follow`), or until it finds what it is looking for
(`findThrough`).

The cursor test does not look at the direction of the order.  So

* ascending, the pages are exactly the arranged rows (`follow_ascending`);
* descending, the pages are the arranged rows only when one page holds them all
  (`follow_descending_iff`): the row that comes last in the order is on no page;
* in every case the client stops (`follow_isSome`), since the cursor only grows.
-/
import Mathlib.Data.List.Sort
import Mathlib.Order.Defs.LinearOrder

namespace Paging

variable {α ι : Type}

/-! ### Arranging rows by their stamps -/

/-- `a` may stand before `b` in the requested order. -/
def Precedes (stamp : α → Nat) (descending : Bool) (a b : α) : Prop :=
  if descending then stamp b ≤ stamp a else stamp a ≤ stamp b

instance (stamp : α → Nat) (descending : Bool) : DecidableRel (Precedes stamp descending) :=
  fun a b => inferInstanceAs
    (Decidable (if descending then stamp b ≤ stamp a else stamp a ≤ stamp b))

instance (stamp : α → Nat) (descending : Bool) : Std.Total (Precedes stamp descending) where
  total a b := by
    cases descending
    · exact Nat.le_total (stamp a) (stamp b)
    · exact Nat.le_total (stamp b) (stamp a)

instance (stamp : α → Nat) (descending : Bool) : IsTrans α (Precedes stamp descending) where
  trans a b c hab hbc := by
    cases descending
    · exact Nat.le_trans hab hbc
    · exact Nat.le_trans hbc hab

/-- The rows in the requested order of their stamps. -/
def arrange (stamp : α → Nat) (descending : Bool) (rows : List α) : List α :=
  rows.insertionSort (Precedes stamp descending)

@[simp] theorem length_arrange (stamp : α → Nat) (descending : Bool) (rows : List α) :
    (arrange stamp descending rows).length = rows.length :=
  List.length_insertionSort _ _

@[simp] theorem mem_arrange {stamp : α → Nat} {descending : Bool} {rows : List α} {a : α} :
    a ∈ arrange stamp descending rows ↔ a ∈ rows :=
  List.mem_insertionSort _

theorem arrange_perm (stamp : α → Nat) (descending : Bool) (rows : List α) :
    (arrange stamp descending rows).Perm rows :=
  List.perm_insertionSort _ _

/-- A change of the rows that keeps the stamps can be made before or after. -/
theorem arrange_map {stamp : α → Nat} {f : α → α} (h : ∀ a, stamp (f a) = stamp a)
    (descending : Bool) (rows : List α) :
    arrange stamp descending (rows.map f) = (arrange stamp descending rows).map f := by
  refine (List.map_insertionSort _ _ _ _ fun a _ b _ => ?_).symm
  simp only [Precedes, h]

/-- Rows with one stamp stay in the order in which they are stored. -/
theorem arrange_of_same_stamp {stamp : α → Nat} {rows : List α} {n : Nat}
    (h : ∀ a ∈ rows, stamp a = n) (descending : Bool) : arrange stamp descending rows = rows := by
  refine List.Pairwise.insertionSort_eq (List.pairwise_of_forall_mem_list fun a ha b hb => ?_)
  rw [Precedes, h a ha, h b hb]
  split <;> exact Nat.le_refl n

theorem arrange_pairwise (stamp : α → Nat) (descending : Bool) (rows : List α) :
    (arrange stamp descending rows).Pairwise (Precedes stamp descending) :=
  List.pairwise_insertionSort _ _

/-! ### Pages with a look-ahead of one row -/

/-- One page of an answer. -/
structure Page (α : Type) where
  data : List α
  hasMore : Bool
  deriving Repr, DecidableEq

/-- Cut a page of at most `n` rows out of a selection that was limited to `n + 1`:
the row too many is dropped and says that there is more. -/
def lookAhead (n : Nat) (selection : List α) : Page α :=
  if n + 1 ≤ selection.length then ⟨selection.dropLast, true⟩ else ⟨selection, false⟩

/-- A look-ahead page is the first `n` rows and knows whether others follow. -/
theorem lookAhead_take (n : Nat) (l : List α) :
    lookAhead n (l.take (n + 1)) = ⟨l.take n, decide (n < l.length)⟩ := by
  by_cases h : n < l.length
  · have hlen : n + 1 ≤ (l.take (n + 1)).length := by
      rw [List.length_take]
      omega
    -- the row too many tells that there are more, and is dropped
    have hdrop : (l.take (n + 1)).dropLast = l.take n := by
      rw [List.dropLast_eq_take, List.length_take, List.take_take]
      congr 1
      omega
    rw [lookAhead, if_pos hlen, hdrop, decide_eq_true h]
  · have hlen : ¬ n + 1 ≤ (l.take (n + 1)).length := by
      rw [List.length_take]
      omega
    have hall : l.take (n + 1) = l.take n := by
      rw [List.take_of_length_le (by omega), List.take_of_length_le (by omega)]
    rw [lookAhead, if_neg hlen, hall, decide_eq_false h]

section Cursor

variable (ident : α → ι)

/-! ### Clients that follow the cursor -/

/-- The cursor after a page: the last row of its data. -/
def nextCursor (page : Page α) (cursor : Option ι) : Option ι :=
  match page.data.getLast? with
  | some a => some (ident a)
  | none => cursor

theorem nextCursor_of_last {page : Page α} {a : α} (h : page.data.getLast? = some a)
    (cursor : Option ι) : nextCursor ident page cursor = some (ident a) := by
  rw [nextCursor, h]

/-- Fetch page after page until one says that there is no more.  `none`: a request
failed, or the fuel ran out. -/
def follow (fetch : Option ι → Option (Page α)) : Nat → Option ι → Option (List (List α))
  | 0, _ => none
  | fuel + 1, cursor =>
      match fetch cursor with
      | none => none
      | some page =>
          if page.hasMore then
            (follow fetch fuel (nextCursor ident page cursor)).map (page.data :: ·)
          else some [page.data]

/-- Fetch page after page until one holds a row that satisfies `p`. -/
def findThrough (p : α → Bool) (fetch : Option ι → Option (Page α)) :
    Nat → Option ι → Option (Option α)
  | 0, _ => none
  | fuel + 1, cursor =>
      match fetch cursor with
      | none => none
      | some page =>
          match page.data.find? p with
          | some a => some (some a)
          | none =>
              if page.hasMore then findThrough p fetch fuel (nextCursor ident page cursor)
              else some none

/-- The search finds what it would find on all the pages. -/
theorem findThrough_of_follow (p : α → Bool) {fetch : Option ι → Option (Page α)} {fuel : Nat}
    {cursor : Option ι} {pages : List (List α)} (h : follow ident fetch fuel cursor = some pages) :
    findThrough ident p fetch fuel cursor = some (pages.flatten.find? p) := by
  induction fuel generalizing cursor pages with
  | zero => simp [follow] at h
  | succ fuel ih =>
      rcases hf : fetch cursor with - | page
      · simp [follow, hf] at h
      · simp only [follow, hf] at h
        simp only [findThrough, hf]
        by_cases hm : page.hasMore = true
        · simp only [if_pos hm, Option.map_eq_some_iff] at h ⊢
          -- found on this page, or on one of the rest
          obtain ⟨rest, hrest, rfl⟩ := h
          rw [List.flatten_cons, List.find?_append, ih hrest]
          rcases page.data.find? p with - | a <;> rfl
        · simp only [if_neg hm, Option.some.injEq] at h ⊢
          subst h
          rw [List.flatten_singleton]
          rcases page.data.find? p with - | a <;> rfl

/-! ### Rows beyond a cursor -/

variable [LinearOrder ι]

/-- The row lies beyond the cursor.  No cursor lets every row pass. -/
def isBeyond (cursor : Option ι) (a : α) : Bool :=
  cursor.all fun c => decide (c < ident a)

@[simp] theorem isBeyond_none (a : α) : isBeyond ident none a = true := rfl

@[simp] theorem isBeyond_some {c : ι} {a : α} : isBeyond ident (some c) a = true ↔ c < ident a := by
  simp [isBeyond]

/-- The page of at most `n` rows that a server answers at a cursor. -/
def pageAt (stamp : α → Nat) (descending : Bool) (n : Nat) (rows : List α)
    (cursor : Option ι) : Page α :=
  lookAhead n
    ((arrange stamp descending (rows.filter (isBeyond ident cursor))).take (n + 1))

theorem pageAt_eq (stamp : α → Nat) (descending : Bool) (n : Nat) (rows : List α)
    (cursor : Option ι) : pageAt ident stamp descending n rows cursor =
      ⟨(arrange stamp descending (rows.filter (isBeyond ident cursor))).take n,
        decide (n < (rows.filter (isBeyond ident cursor)).length)⟩ := by
  rw [pageAt, lookAhead_take, length_arrange]

theorem mem_pageAt {stamp : α → Nat} {descending : Bool} {n : Nat} {rows : List α}
    {cursor : Option ι} {a : α} (h : a ∈ (pageAt ident stamp descending n rows cursor).data) :
    a ∈ rows ∧ isBeyond ident cursor a = true := by
  rw [pageAt_eq] at h
  exact List.mem_filter.mp (mem_arrange.mp (List.mem_of_mem_take h))

/-! ### The client stops -/

section Total

variable (stamp : α → Nat) (descending : Bool) (n : Nat) (rows : List α)

/-- While there is more, the page ends with a row beyond the cursor. -/
theorem last_beyond {cursor : Option ι} (hn : 0 < n)
    (h : (pageAt ident stamp descending n rows cursor).hasMore = true) :
    ∃ a ∈ rows, isBeyond ident cursor a = true ∧
      (pageAt ident stamp descending n rows cursor).data.getLast? = some a := by
  have hlen : n < (rows.filter (isBeyond ident cursor)).length := by
    rw [pageAt_eq] at h
    exact of_decide_eq_true h
  have hne : (pageAt ident stamp descending n rows cursor).data ≠ [] := by
    rw [pageAt_eq, ← List.length_pos_iff_ne_nil]
    simp only [List.length_take, length_arrange]
    omega
  obtain ⟨a, ha⟩ := Option.isSome_iff_exists.mp (List.getLast?_isSome.mpr hne)
  have hmem := mem_pageAt ident (List.mem_of_getLast? ha)
  exact ⟨a, hmem.1, hmem.2, ha⟩

/-- The cursor only grows, so fewer and fewer rows lie beyond it. -/
theorem length_beyond_lt {cursor : Option ι} {a : α} (ha : a ∈ rows)
    (hb : isBeyond ident cursor a = true) :
    (rows.filter (isBeyond ident (some (ident a)))).length
      < (rows.filter (isBeyond ident cursor)).length := by
  -- what lies beyond the row lies beyond the cursor, the row itself does not
  have hsub : rows.filter (isBeyond ident (some (ident a)))
      = (rows.filter (isBeyond ident cursor)).filter (isBeyond ident (some (ident a))) := by
    rw [List.filter_filter]
    refine List.filter_congr fun b _ => ?_
    rcases cursor with - | c
    · simp
    · have hca : c < ident a := by simpa using hb
      by_cases hab : ident a < ident b
      · simp [isBeyond, hab, lt_trans hca hab]
      · simp [isBeyond, hab]
  rw [hsub, List.length_filter_lt_length_iff_exists]
  exact ⟨a, List.mem_filter.mpr ⟨ha, hb⟩, by simp⟩

/-- **The client stops.**  Whatever the rows and the direction of the order, fuel for
one page more than there are rows beyond the cursor is enough. -/
theorem follow_isSome (hn : 0 < n) (fuel : Nat) (cursor : Option ι)
    (hfuel : (rows.filter (isBeyond ident cursor)).length < fuel) :
    ∃ pages, follow ident (fun c => some (pageAt ident stamp descending n rows c)) fuel cursor
      = some pages := by
  induction fuel generalizing cursor with
  | zero => omega
  | succ fuel ih =>
      simp only [follow]
      by_cases hm : (pageAt ident stamp descending n rows cursor).hasMore = true
      · obtain ⟨a, ha, hb, hlast⟩ := last_beyond ident stamp descending n rows hn hm
        have hlt := length_beyond_lt ident rows ha hb
        obtain ⟨pages, hp⟩ := ih (some (ident a)) (by omega)
        exact ⟨_, by rw [if_pos hm, nextCursor_of_last ident hlast, hp]; rfl⟩
      · exact ⟨_, if_neg hm⟩

/-- Every row on a page that the client sees lies beyond the cursor it started from. -/
theorem beyond_of_mem_follow (hn : 0 < n) {fuel : Nat} {cursor : Option ι}
    {pages : List (List α)}
    (h : follow ident (fun c => some (pageAt ident stamp descending n rows c)) fuel cursor
      = some pages) {a : α} (ha : a ∈ pages.flatten) :
    a ∈ rows ∧ isBeyond ident cursor a = true := by
  induction fuel generalizing cursor pages with
  | zero => simp [follow] at h
  | succ fuel ih =>
      simp only [follow] at h
      by_cases hm : (pageAt ident stamp descending n rows cursor).hasMore = true
      · rw [if_pos hm] at h
        obtain ⟨b, hb, hbeyond, hlast⟩ := last_beyond ident stamp descending n rows hn hm
        rw [nextCursor_of_last ident hlast] at h
        obtain ⟨rest, hrest, rfl⟩ := Option.map_eq_some_iff.mp h
        rcases List.mem_append.mp (List.flatten_cons ▸ ha) with hfirst | hlater
        · exact mem_pageAt ident hfirst
        · -- the later cursor is beyond this one
          obtain ⟨hmem, hba⟩ := ih hrest hlater
          refine ⟨hmem, ?_⟩
          rcases cursor with - | c
          · rfl
          · simp only [isBeyond_some] at hbeyond hba ⊢
            exact lt_trans hbeyond hba
      · rw [if_neg hm] at h
        obtain rfl := Option.some.inj h
        exact mem_pageAt ident (by simpa using ha)

end Total

/-! ### Rows whose identifiers agree with their stamps -/

/-- The identifiers are distinct and stand in the order of the stamps. -/
structure Ordered (stamp : α → Nat) (rows : List α) : Prop where
  nodup : (rows.map ident).Nodup
  agree : ∀ a ∈ rows, ∀ b ∈ rows, ident a < ident b ↔ stamp a < stamp b

namespace Ordered

variable {ident} {stamp : α → Nat} {rows : List α}

theorem filter (h : Ordered ident stamp rows) (p : α → Bool) :
    Ordered ident stamp (rows.filter p) where
  nodup := (List.filter_sublist.map ident).nodup h.nodup
  agree a ha b hb := h.agree a (List.mem_of_mem_filter ha) b (List.mem_of_mem_filter hb)

theorem eq_of_stamp_eq (h : Ordered ident stamp rows) {a b : α} (ha : a ∈ rows) (hb : b ∈ rows)
    (e : stamp a = stamp b) : a = b := by
  refine List.inj_on_of_nodup_map h.nodup ha hb (le_antisymm ?_ ?_)
  · exact not_lt.mp fun hlt => absurd ((h.agree b hb a ha).mp hlt) (by omega)
  · exact not_lt.mp fun hlt => absurd ((h.agree a ha b hb).mp hlt) (by omega)

theorem eq_of_precedes (h : Ordered ident stamp rows) {descending : Bool} {a b : α}
    (ha : a ∈ rows) (hb : b ∈ rows) (hab : Precedes stamp descending a b)
    (hba : Precedes stamp descending b a) : a = b := by
  refine h.eq_of_stamp_eq ha hb ?_
  cases descending
  · exact Nat.le_antisymm hab hba
  · exact Nat.le_antisymm hba hab

/-- Arranging and filtering commute: there is only one arrangement. -/
theorem arrange_filter (h : Ordered ident stamp rows) (descending : Bool) (p : α → Bool) :
    arrange stamp descending (rows.filter p) = (arrange stamp descending rows).filter p := by
  refine List.Perm.eq_of_pairwise (fun a b ha hb => ?_) (arrange_pairwise _ _ _)
    ((arrange_pairwise _ _ _).sublist List.filter_sublist) ?_
  · exact h.eq_of_precedes (List.mem_of_mem_filter (mem_arrange.mp ha))
      (mem_arrange.mp (List.mem_of_mem_filter hb))
  · exact (arrange_perm _ _ _).trans ((arrange_perm _ _ _).filter p).symm

/-- A change of the rows that keeps identifiers and stamps keeps the order. -/
theorem map (h : Ordered ident stamp rows) {f : α → α} (hident : ∀ a, ident (f a) = ident a)
    (hstamp : ∀ a, stamp (f a) = stamp a) : Ordered ident stamp (rows.map f) where
  nodup := by
    have hids : (rows.map f).map ident = rows.map ident := by
      rw [List.map_map]
      exact List.map_congr_left fun a _ => hident a
    exact hids ▸ h.nodup
  agree a ha b hb := by
    obtain ⟨a, hmem, rfl⟩ := List.mem_map.mp ha
    obtain ⟨b, hmem', rfl⟩ := List.mem_map.mp hb
    rw [hident, hident, hstamp, hstamp]
    exact h.agree a hmem b hmem'

/-- Descending is ascending read backwards. -/
theorem arrange_descending (h : Ordered ident stamp rows) :
    arrange stamp true rows = (arrange stamp false rows).reverse := by
  refine List.Perm.eq_of_pairwise (fun a b ha hb => ?_) (arrange_pairwise _ _ _) ?_ ?_
  · exact h.eq_of_precedes (mem_arrange.mp ha) (mem_arrange.mp (List.mem_reverse.mp hb))
  · exact List.pairwise_reverse.mpr (arrange_pairwise stamp false rows)
  · exact (arrange_perm _ _ _).trans
      ((arrange_perm _ _ _).symm.trans (List.reverse_perm _).symm)

theorem nodup_arrange (h : Ordered ident stamp rows) (descending : Bool) :
    (arrange stamp descending rows).Nodup :=
  (arrange_perm _ _ _).nodup_iff.mpr (h.nodup.of_map _)

/-- Ascending, the identifiers grow strictly. -/
theorem pairwise_ascending (h : Ordered ident stamp rows) :
    (arrange stamp false rows).Pairwise fun a b => ident a < ident b := by
  have hboth := (arrange_pairwise stamp false rows).and (h.nodup_arrange false)
  refine hboth.imp_of_mem fun {a b} ha hb hab => ?_
  have hle : stamp a ≤ stamp b := hab.1
  refine (h.agree a (mem_arrange.mp ha) b (mem_arrange.mp hb)).mpr (lt_of_le_of_ne hle ?_)
  exact fun e => hab.2 (h.eq_of_stamp_eq (mem_arrange.mp ha) (mem_arrange.mp hb) e)

/-- Descending, the identifiers fall strictly. -/
theorem pairwise_descending (h : Ordered ident stamp rows) :
    (arrange stamp true rows).Pairwise fun a b => ident b < ident a := by
  rw [h.arrange_descending]
  exact List.pairwise_reverse.mpr h.pairwise_ascending

end Ordered

/-! ### Ascending -/

section Follow

variable {ident} {stamp : α → Nat} {rows : List α} {n : Nat}

/-- Beyond the last row of a part of the ascending rows lie the rows after that part. -/
theorem filter_beyond_ascending (h : Ordered ident stamp rows) {before after : List α}
    (hsplit : arrange stamp false rows = before ++ after) :
    arrange stamp false
        (rows.filter (isBeyond ident (before.getLast?.map ident))) = after := by
  have hsorted := h.pairwise_ascending
  rw [h.arrange_filter, hsplit]
  rw [hsplit, List.pairwise_append] at hsorted
  obtain ⟨hbefore, -, hcross⟩ := hsorted
  rcases List.eq_nil_or_concat before with rfl | ⟨init, last, rfl⟩
  · simp
  · simp only [List.concat_eq_append] at hbefore hcross ⊢
    rw [List.pairwise_append] at hbefore
    -- nothing before the cursor is beyond it
    have hdrop : (init ++ [last]).filter (isBeyond ident (some (ident last))) = [] := by
      rw [List.filter_eq_nil_iff]
      intro a ha
      rcases List.mem_append.mp ha with hinit | hlast
      · have := hbefore.2.2 a hinit last (by simp)
        simpa using le_of_lt this
      · simp [List.mem_singleton.mp hlast]
    -- everything after it is
    have hkeep : after.filter (isBeyond ident (some (ident last))) = after := by
      rw [List.filter_eq_self]
      intro a ha
      simpa using hcross last (by simp) a ha
    simp only [List.getLast?_append, List.getLast?_singleton, Option.some_or, Option.map_some]
    rw [List.filter_append, hdrop, hkeep, List.nil_append]

/-- The client that has seen `before` goes on to see `after`, page by page. -/
theorem follow_from_ascending (h : Ordered ident stamp rows) (hn : 0 < n) (fuel : Nat)
    (before after : List α) (hsplit : arrange stamp false rows = before ++ after)
    (hfuel : after.length < fuel) :
    ∃ pages, follow ident (fun c => some (pageAt ident stamp false n rows c)) fuel
        (before.getLast?.map ident) = some pages ∧
      pages.flatten = after ∧ ∀ page ∈ pages, page.length ≤ n := by
  induction fuel generalizing before after with
  | zero => omega
  | succ fuel ih =>
      have hrest := filter_beyond_ascending h hsplit
      -- the page starts where the walk stands
      have hpage : pageAt ident stamp false n rows (before.getLast?.map ident)
          = ⟨after.take n, decide (n < after.length)⟩ := by
        rw [pageAt_eq, hrest, ← length_arrange stamp false, hrest]
      simp only [follow, hpage]
      by_cases hm : n < after.length
      · have hne : after.take n ≠ [] := by
          rw [← List.length_pos_iff_ne_nil, List.length_take]
          omega
        -- the next cursor is the last row of this page
        have hnext : nextCursor ident ⟨after.take n, decide (n < after.length)⟩
            (before.getLast?.map ident) = ((before ++ after.take n).getLast?.map ident) := by
          obtain ⟨a, ha⟩ := Option.isSome_iff_exists.mp (List.getLast?_isSome.mpr hne)
          simp [nextCursor, ha, List.getLast?_append]
        obtain ⟨pages, hp, hflat, hlen⟩ := ih (before ++ after.take n) (after.drop n)
          (by rw [hsplit, List.append_assoc, List.take_append_drop])
          (by rw [List.length_drop]; omega)
        refine ⟨after.take n :: pages, ?_, ?_, ?_⟩
        · rw [if_pos (by simpa using hm), hnext, hp]
          rfl
        · rw [List.flatten_cons, hflat, List.take_append_drop]
        · rintro page (- | ⟨_, hmem⟩)
          · exact List.length_take_le _ _
          · exact hlen page hmem
      · -- the last page holds the rest
        refine ⟨[after.take n], ?_, ?_, ?_⟩
        · rw [if_neg (by simpa using hm)]
        · simp [List.take_of_length_le (Nat.le_of_not_lt hm)]
        · simp

/-- **Ascending paging is right.**  The client sees every row exactly once, in order,
at most `n` rows a page. -/
theorem follow_ascending (h : Ordered ident stamp rows) (hn : 0 < n) {fuel : Nat}
    (hfuel : rows.length < fuel) :
    ∃ pages, follow ident (fun c => some (pageAt ident stamp false n rows c)) fuel none
        = some pages ∧
      pages.flatten = arrange stamp false rows ∧ ∀ page ∈ pages, page.length ≤ n :=
  follow_from_ascending h hn fuel [] _ rfl (by simpa using hfuel)

/-! ### Descending -/

/-- The row that comes last in a descending order of more than `n` rows is on no page. -/
theorem last_not_mem_follow_descending (h : Ordered ident stamp rows) (hn : 0 < n)
    (hrows : n < rows.length) {fuel : Nat} {pages : List (List α)}
    (hp : follow ident (fun c => some (pageAt ident stamp true n rows c)) fuel none
      = some pages) :
    ∃ a ∈ rows, a ∉ pages.flatten := by
  have hlen : n < (arrange stamp true rows).length := by simpa using hrows
  have hdrop : (arrange stamp true rows).drop n ≠ [] := by
    rw [← List.length_pos_iff_ne_nil, List.length_drop]
    omega
  -- the arranged rows are the first page `front` and, behind it, `back`
  obtain ⟨front, hfront⟩ : ∃ front, front = (arrange stamp true rows).take n := ⟨_, rfl⟩
  obtain ⟨back, hback⟩ : ∃ back, back = (arrange stamp true rows).drop n := ⟨_, rfl⟩
  have hsplit : arrange stamp true rows = front ++ back := by
    rw [hfront, hback, List.take_append_drop]
  rw [← hback] at hdrop
  obtain ⟨a, ha⟩ := List.exists_mem_of_ne_nil back hdrop
  have hcross := h.pairwise_descending
  have hnodup := h.nodup_arrange true
  rw [hsplit, List.pairwise_append] at hcross
  rw [hsplit, List.nodup_append] at hnodup
  refine ⟨a, mem_arrange.mp (by rw [hsplit]; exact List.mem_append_right _ ha), fun hmem => ?_⟩
  rcases fuel with - | fuel
  · simp [follow] at hp
  · have hpage : pageAt ident stamp true n rows none = ⟨front, true⟩ := by
      have hall : rows.filter (isBeyond ident none) = rows :=
        List.filter_eq_self.mpr fun _ _ => rfl
      rw [pageAt_eq, hall, ← hfront, decide_eq_true hrows]
    have hne : front ≠ [] := by
      rw [hfront, ← List.length_pos_iff_ne_nil, List.length_take]
      omega
    obtain ⟨b, hb⟩ := Option.isSome_iff_exists.mp (List.getLast?_isSome.mpr hne)
    simp only [follow, hpage, if_true, nextCursor, hb] at hp
    obtain ⟨rest, hrest, rfl⟩ := Option.map_eq_some_iff.mp hp
    rcases List.mem_append.mp (List.flatten_cons ▸ hmem) with hfirst | hlater
    · exact hnodup.2.2 a hfirst a ha rfl
    · -- later pages hold rows beyond `b` only, and `a` comes before it
      have hab := (beyond_of_mem_follow ident stamp true n rows hn hrest hlater).2
      have hba := hcross.2.2 b (List.mem_of_getLast? hb) a ha
      rw [isBeyond_some] at hab
      exact absurd (lt_trans hab hba) (lt_irrefl _)

/-- **Descending paging is right exactly when one page is enough.** -/
theorem follow_descending_iff (h : Ordered ident stamp rows) (hn : 0 < n) :
    (∃ fuel pages, follow ident (fun c => some (pageAt ident stamp true n rows c)) fuel none
        = some pages ∧
      pages.flatten = arrange stamp true rows ∧ ∀ page ∈ pages, page.length ≤ n)
      ↔ rows.length ≤ n := by
  constructor
  · rintro ⟨fuel, pages, hp, hflat, -⟩
    by_contra hlt
    -- with a second page, the walk turns back and loses a row
    obtain ⟨a, ha, hnot⟩ := last_not_mem_follow_descending h hn (Nat.lt_of_not_le hlt) hp
    exact hnot (by rw [hflat]; exact mem_arrange.mpr ha)
  · intro hle
    -- one page without a cursor holds all rows
    have hpage : pageAt ident stamp true n rows none = ⟨arrange stamp true rows, false⟩ := by
      have hall : rows.filter (isBeyond ident none) = rows :=
        List.filter_eq_self.mpr fun _ _ => rfl
      rw [pageAt_eq, hall, List.take_of_length_le (by simpa using hle)]
      simp [hle]
    refine ⟨1, [arrange stamp true rows], ?_, by simp, by simpa using hle⟩
    simp [follow, hpage]

/-- **A descending search sees the first page only.**  A row is found exactly when it is
among the `n` rows that come first. -/
theorem findThrough_descending (h : Ordered ident stamp rows) (hn : 0 < n) (p : α → Bool)
    {fuel : Nat} (hfuel : rows.length < fuel) :
    findThrough ident p (fun c => some (pageAt ident stamp true n rows c)) fuel none
      = some (((arrange stamp true rows).take n).find? p) := by
  have hall : rows.filter (isBeyond ident none) = rows :=
    List.filter_eq_self.mpr fun _ _ => rfl
  obtain ⟨pages, hp⟩ := follow_isSome ident stamp true n rows hn fuel none (by rwa [hall])
  rw [findThrough_of_follow ident p hp]
  obtain ⟨front, hfront⟩ : ∃ front, front = (arrange stamp true rows).take n := ⟨_, rfl⟩
  obtain ⟨back, hback⟩ : ∃ back, back = (arrange stamp true rows).drop n := ⟨_, rfl⟩
  have hsplit : arrange stamp true rows = front ++ back := by
    rw [hfront, hback, List.take_append_drop]
  rcases fuel with - | fuel
  · simp [follow] at hp
  · have hpage : pageAt ident stamp true n rows none = ⟨front, decide (n < rows.length)⟩ := by
      rw [pageAt_eq, hall, ← hfront]
    simp only [follow, hpage] at hp
    rw [← hfront]
    by_cases hm : n < rows.length
    · have hne : front ≠ [] := by
        rw [hfront, ← List.length_pos_iff_ne_nil, List.length_take, length_arrange]
        omega
      obtain ⟨b, hb⟩ := Option.isSome_iff_exists.mp (List.getLast?_isSome.mpr hne)
      simp only [decide_eq_true hm, if_true, nextCursor, hb] at hp
      obtain ⟨rest, hrest, rfl⟩ := Option.map_eq_some_iff.mp hp
      have hcross := h.pairwise_descending
      rw [hsplit, List.pairwise_append] at hcross
      -- what lies beyond `b` stands before it, so the later pages only repeat the first
      have hrepeat : ∀ a ∈ rest.flatten, a ∈ front := by
        intro a ha
        obtain ⟨hmem, hbeyond⟩ := beyond_of_mem_follow ident stamp true n rows hn hrest ha
        rw [isBeyond_some] at hbeyond
        have hin : a ∈ front ++ back := by rwa [← hsplit, mem_arrange]
        rcases List.mem_append.mp hin with hf | hbk
        · exact hf
        · exact absurd (lt_trans hbeyond (hcross.2.2 b (List.mem_of_getLast? hb) a hbk))
            (lt_irrefl _)
      rw [List.flatten_cons, List.find?_append]
      rcases e : front.find? p with - | a
      · have hnone : rest.flatten.find? p = none := by
          rw [List.find?_eq_none] at e ⊢
          exact fun a ha => e a (hrepeat a ha)
        rw [hnone]
        rfl
      · rfl
    · simp only [decide_eq_false hm, Bool.false_eq_true, if_false, Option.some.injEq] at hp
      rw [← hp, List.flatten_singleton]

end Follow

end Cursor

end Paging
