/-
Instinct/PackingWindows.lean

Where the windows of a packing lie, and which are too heavy.

The part of a closed window that is handed over is the longest end of it that the
overlap allows and that leaves room for the next element (`handOver_append`).  No
longer run before the element would do, as what lies before an open window is too
heavy together with it (`Sealed`).  So the runs that are handed over can be told
from the sequence alone.

The next element is put behind a gap, for which no room was left.  The windows that
exceed the size are those, and they consist of a run that was handed over and the
next element (`exceeding_window_iff`).

The windows are slices of the sequence whose ends increase, whose starts do not
decrease, and which share no more than the overlap (`pack_eq_slices`).
-/
import Instinct.Packing
import Mathlib.Data.List.Chain

namespace Packing

variable {α : Type} {limits : Limits} {weight : α → Nat} {window run opened as : List α} {a : α}

/-! ### What is handed over -/

/-- The overlap allows a run, and it leaves room for the next element. -/
def Keeps (limits : Limits) (weight : α → Nat) (next : Nat) (run : List α) : Prop :=
  load limits.gap weight run ≤ limits.overlap ∧
    (load limits.gap weight run + next ≤ limits.size ∨ load limits.gap weight run = 0)

/-- Such a run does not go on to the left. -/
def HandsOver (limits : Limits) (weight : α → Nat) (next : Nat) (front run : List α) : Prop :=
  Keeps limits weight next run ∧
    ∀ b ∈ front.getLast?, ¬ Keeps limits weight next (b :: run)

theorem load_le_of_suffix {gap : Nat} (h : run <:+ window) :
    load gap weight run ≤ load gap weight window := by
  induction window with
  | nil => rw [List.suffix_nil.mp h]
  | cons a window ih =>
      rcases List.suffix_cons_iff.mp h with rfl | h
      · exact Nat.le_refl _
      · rw [load]
        exact (ih h).trans (Nat.le_add_left _ _)

theorem Keeps.of_suffix {next : Nat} (h : Keeps limits weight next window) (hrun : run <:+ window) :
    Keeps limits weight next run := by
  have hle : load limits.gap weight run ≤ load limits.gap weight window :=
    load_le_of_suffix hrun
  obtain ⟨hoverlap, hroom⟩ := h
  exact ⟨by omega, by omega⟩

theorem handOver_of_keeps {next : Nat} (h : Keeps limits weight next window) :
    handOver limits weight next window = window := by
  cases window with
  | nil => rfl
  | cons a window =>
      obtain ⟨hoverlap, hroom⟩ := h
      rw [handOver, if_neg (by omega)]

theorem handOver_cons_of_not_keeps {next : Nat} (h : ¬ Keeps limits weight next (a :: window)) :
    handOver limits weight next (a :: window) = handOver limits weight next window := by
  have hdrop : limits.overlap < load limits.gap weight (a :: window)
      ∨ limits.size < load limits.gap weight (a :: window) + next
        ∧ 0 < load limits.gap weight (a :: window) := by
    by_contra hnot
    exact h ⟨by omega, by omega⟩
  rw [handOver, if_pos hdrop]

/-- A closed window hands over the longest end that is kept. -/
theorem handOver_append {next : Nat} {front : List α} (h : HandsOver limits weight next front run) :
    handOver limits weight next (front ++ run) = run := by
  obtain ⟨hkeeps, hlongest⟩ := h
  induction front with
  | nil => exact handOver_of_keeps hkeeps
  | cons b front ih =>
      have hnot : ¬ Keeps limits weight next (b :: (front ++ run)) := by
        intro hmore
        rcases List.eq_nil_or_concat front with rfl | ⟨front, c, rfl⟩
        · exact hlongest b rfl hmore
        · refine hlongest c ?_ (hmore.of_suffix ?_)
          · rw [List.concat_eq_append, ← List.cons_append, List.getLast?_concat]
            rfl
          · rw [List.concat_eq_append, List.append_assoc]
            exact ⟨b :: front, rfl⟩
      rw [List.cons_append, handOver_cons_of_not_keeps hnot]
      refine ih fun c hc => hlongest c ?_
      cases front with
      | nil => cases hc
      | cons d front => rwa [List.getLast?_cons_cons]

variable (limits weight) in
/-- What is handed over, and what is not. -/
theorem exists_handsOver (next : Nat) (window : List α) :
    ∃ front, window = front ++ handOver limits weight next window ∧
      HandsOver limits weight next front (handOver limits weight next window) := by
  induction window with
  | nil => exact ⟨[], rfl, ⟨Nat.zero_le _, .inr rfl⟩, nofun⟩
  | cons a window ih =>
      by_cases hkeeps : Keeps limits weight next (a :: window)
      · rw [handOver_of_keeps hkeeps]
        exact ⟨[], rfl, hkeeps, nofun⟩
      · rw [handOver_cons_of_not_keeps hkeeps]
        obtain ⟨front, hwindow, hkept, hlongest⟩ := ih
        refine ⟨a :: front, by rw [List.cons_append, ← hwindow], hkept, fun b hb => ?_⟩
        cases front with
        | nil =>
            obtain rfl : a = b := Option.some.inj hb
            rw [List.nil_append] at hwindow
            rwa [← hwindow]
        | cons c front => exact hlongest b (by rwa [List.getLast?_cons_cons] at hb)

/-! ### Windows that exceed the size -/

/-- What lies before an open window is too heavy together with it. -/
def Sealed (limits : Limits) (weight : α → Nat) (before opened : List α) : Prop :=
  ∀ b ∈ before.getLast?, limits.overlap < load limits.gap weight (b :: opened)
    ∨ limits.size < load limits.gap weight (b :: opened)

theorem load_le_concat (window : List α) (a : α) :
    load limits.gap weight window ≤ load limits.gap weight (window ++ [a]) := by
  rw [load_concat]
  omega

theorem Sealed.concat {before : List α} (h : Sealed limits weight before opened) (a : α) :
    Sealed limits weight before (opened ++ [a]) := by
  intro b hb
  have hle : load limits.gap weight (b :: opened) ≤ load limits.gap weight (b :: (opened ++ [a])) :=
    load_le_concat (b :: opened) a
  rcases h b hb with h | h
  · exact .inl (h.trans_le hle)
  · exact .inr (h.trans_le hle)

/-- What is handed over is sealed with the next element. -/
theorem Sealed.handOver {before front : List α} (h : Sealed limits weight before (front ++ run))
    (hover : HandsOver limits weight (weight a) front run) :
    Sealed limits weight (before ++ front) (run ++ [a]) := by
  rcases List.eq_nil_or_concat front with rfl | ⟨front, c, rfl⟩
  · rw [List.append_nil]
    exact h.concat a
  · intro b hb
    rw [List.concat_eq_append, ← List.append_assoc, List.getLast?_concat] at hb
    obtain rfl : c = b := Option.some.inj hb
    have hnot := hover.2 c (by rw [List.concat_eq_append, List.getLast?_concat]; rfl)
    have hload := load_concat limits.gap weight (c :: run) a
    rw [List.cons_append, if_neg (List.cons_ne_nil c run)] at hload
    rw [hload]
    by_contra hlight
    exact hnot ⟨by omega, by omega⟩

/-- A run that is kept does not begin before the open window. -/
theorem Sealed.suffix_of_keeps {before front : List α} {next : Nat}
    (h : Sealed limits weight before opened) (hrun : before ++ opened = front ++ run)
    (hkeeps : Keeps limits weight next run) : run <:+ opened := by
  rcases List.suffix_or_suffix_of_suffix ⟨front, hrun.symm⟩ ⟨before, rfl⟩ with hsuffix | ⟨x, rfl⟩
  · exact hsuffix
  · rcases List.eq_nil_or_concat x with rfl | ⟨x, b, rfl⟩
    · exact List.suffix_refl _
    · -- the run would have the element before the open window
      have hbefore : before = front ++ x.concat b := by
        rw [← List.append_assoc] at hrun
        exact List.append_cancel_right hrun
      have hb : b ∈ before.getLast? := by
        rw [hbefore, List.concat_eq_append, ← List.append_assoc, List.getLast?_concat]
        rfl
      have hle : load limits.gap weight (b :: opened)
          ≤ load limits.gap weight (x.concat b ++ opened) :=
        load_le_of_suffix ⟨x, by simp⟩
      obtain ⟨hoverlap, hroom⟩ := hkeeps
      rcases h b hb with h | h
      · omega
      · omega

/-- A window that exceeds the size is closed at once. -/
theorem mem_packFrom_of_exceeding (hne : opened ≠ [])
    (h : limits.size < load limits.gap weight opened) (as : List α) :
    opened ∈ packFrom limits weight opened as := by
  cases as with
  | nil => exact List.mem_singleton_self _
  | cons a as =>
      have hexceeds : Exceeds limits weight opened a := by
        rw [Exceeds]
        omega
      rw [packFrom, if_pos ⟨hne, hexceeds⟩]
      exact List.mem_cons_self

/-- A window that is not closed for the next element has room for it. -/
theorem load_concat_le (ha : weight a ≤ limits.size)
    (h : ¬ (opened ≠ [] ∧ Exceeds limits weight opened a)) :
    load limits.gap weight (opened ++ [a]) ≤ limits.size := by
  rw [load_concat]
  by_cases hnil : opened = []
  · subst hnil
    simpa [load] using ha
  · have hroom : ¬ Exceeds limits weight opened a := fun hexceeds => h ⟨hnil, hexceeds⟩
    rw [Exceeds] at hroom
    omega

/-- The run of a window goes on no further to the left in the sequence. -/
theorem Sealed.handsOver {before front : List α} (h : Sealed limits weight before (front ++ run))
    (hover : HandsOver limits weight (weight a) front run) :
    HandsOver limits weight (weight a) (before ++ front) run := by
  rcases List.eq_nil_or_concat front with rfl | ⟨front, c, rfl⟩
  · rw [List.append_nil]
    refine ⟨hover.1, fun b hb hkeeps => ?_⟩
    obtain ⟨hoverlap, hroom⟩ := hkeeps
    rcases h b hb with h | h
    · exact Nat.lt_irrefl _ (h.trans_le hoverlap)
    · rw [List.nil_append] at h
      omega
  · refine ⟨hover.1, fun b hb => hover.2 b ?_⟩
    rw [List.concat_eq_append, ← List.append_assoc, List.getLast?_concat] at hb
    rw [List.concat_eq_append, List.getLast?_concat]
    exact hb

/-- A window that exceeds the size is a run of the sequence, handed over, and the element behind. -/
structure Overfills (limits : Limits) (weight : α → Nat) (all window : List α) : Prop where
  exceeds : limits.size < load limits.gap weight window
  exists_run : ∃ front run a back, all = front ++ run ++ a :: back ∧ run ≠ [] ∧
    HandsOver limits weight (weight a) front run ∧ window = run ++ [a]

theorem overfills_of_mem_packFrom {before : List α} (hsealed : Sealed limits weight before opened)
    (has : ∀ a ∈ as, weight a ≤ limits.size) (h : window ∈ packFrom limits weight opened as)
    (hexceeds : limits.size < load limits.gap weight window) :
    window = opened ∨ Overfills limits weight (before ++ opened ++ as) window := by
  induction as generalizing before opened with
  | nil => exact .inl (List.mem_singleton.mp h)
  | cons a as ih =>
      obtain ⟨ha, hlater⟩ := List.forall_mem_cons.mp has
      rw [packFrom] at h
      split at h
      · rcases List.mem_cons.mp h with rfl | hmem
        · exact .inl rfl
        · obtain ⟨front, hopened, hover⟩ :=
            exists_handsOver limits weight (weight a) opened
          generalize handOver limits weight (weight a) opened = run at hmem hopened hover
          subst hopened
          have hall : before ++ front ++ (run ++ [a]) ++ as
              = before ++ (front ++ run) ++ a :: as := by simp
          rcases ih (hsealed.handOver hover) hlater hmem with rfl | hwindow
          · refine .inr ⟨hexceeds, before ++ front, run, a, as, by simp, ?_,
              hsealed.handsOver hover, rfl⟩
            rintro rfl
            rw [List.nil_append, load, if_pos rfl, load] at hexceeds
            omega
          · exact .inr (hall ▸ hwindow)
      · rename_i hopen
        rcases ih (hsealed.concat a) hlater h with rfl | hwindow
        · exact absurd hexceeds (Nat.not_lt.mpr (load_concat_le ha hopen))
        · rw [← List.append_assoc, List.append_assoc _ [a]] at hwindow
          exact .inr hwindow

/-- Every such run is handed over when its turn comes. -/
theorem mem_packFrom_of_handsOver {before front middle back : List α}
    (hsealed : Sealed limits weight before opened)
    (hall : before ++ opened ++ middle = front ++ run) (hrun : run ≠ [])
    (hover : HandsOver limits weight (weight a) front run)
    (hexceeds : limits.size < load limits.gap weight (run ++ [a])) :
    run ++ [a] ∈ packFrom limits weight opened (middle ++ a :: back) := by
  induction middle generalizing before opened with
  | nil =>
      rw [List.append_nil] at hall
      obtain ⟨x, rfl⟩ := hsealed.suffix_of_keeps hall hover.1
      have hfront : before ++ x = front := by
        rw [← List.append_assoc] at hall
        exact List.append_cancel_right hall
      have hlonger : HandsOver limits weight (weight a) x run := by
        refine ⟨hover.1, fun b hb => hover.2 b ?_⟩
        rw [← hfront, List.getLast?_append]
        rw [Option.mem_def] at hb
        rw [hb]
        rfl
      have hclosed : Exceeds limits weight (x ++ run) a := by
        have hle : load limits.gap weight run ≤ load limits.gap weight (x ++ run) :=
          load_le_of_suffix (List.suffix_append x run)
        rw [load_concat, if_neg hrun] at hexceeds
        rw [Exceeds, if_neg (by simp [hrun])]
        omega
      rw [List.nil_append, packFrom, if_pos ⟨by simp [hrun], hclosed⟩, handOver_append hlonger]
      exact List.mem_cons_of_mem _ (mem_packFrom_of_exceeding (by simp) hexceeds back)
  | cons c middle ih =>
      rw [List.cons_append, packFrom]
      split
      · obtain ⟨x, hopened, hkept⟩ :=
          exists_handsOver limits weight (weight c) opened
        generalize handOver limits weight (weight c) opened = kept at hopened hkept ⊢
        subst hopened
        refine List.mem_cons_of_mem _ (ih (hsealed.handOver hkept) ?_)
        rw [← hall]
        simp
      · exact ih (hsealed.concat c) (by rw [← hall]; simp)

/-- **The windows that exceed the size** are the runs that are handed over and the element behind,
where there is no room for the gap. -/
theorem exceeding_window_iff (has : ∀ a ∈ as, weight a ≤ limits.size) :
    window ∈ pack limits weight as ∧ limits.size < load limits.gap weight window ↔
      Overfills limits weight as window := by
  have hsealed : Sealed limits weight [] ([] : List α) := nofun
  constructor
  · rintro ⟨hmem, hexceeds⟩
    rcases overfills_of_mem_packFrom hsealed has hmem hexceeds with rfl | h
    · exact absurd hexceeds (Nat.not_lt_zero _)
    · exact h
  · rintro ⟨hexceeds, front, run, a, back, rfl, hrun, hover, rfl⟩
    exact ⟨mem_packFrom_of_handsOver hsealed rfl hrun hover hexceeds, hexceeds⟩

/-! ### Slices -/

/-- The part of a sequence between two places. -/
def slice (as : List α) (bounds : Nat × Nat) : List α := (as.take bounds.2).drop bounds.1

/-- A window goes on behind another one, and the overlap allows what they share. -/
structure Follows (limits : Limits) (weight : α → Nat) (as : List α) (p q : Nat × Nat) : Prop where
  starts : p.1 ≤ q.1
  ends : p.2 < q.2
  meets : q.1 ≤ p.2
  shared : load limits.gap weight (slice as (q.1, p.2)) ≤ limits.overlap

/-- The windows from a place on, up to the end of the sequence. -/
structure Covers (limits : Limits) (weight : α → Nat) (as : List α) (start : Nat)
    (bounds : List (Nat × Nat)) : Prop where
  head : ∃ stop, bounds.head? = some (start, stop)
  last : ∃ start, bounds.getLast? = some (start, as.length)
  some : ∀ p ∈ bounds, p.1 < p.2 ∧ p.2 ≤ as.length
  chain : bounds.IsChain (Follows limits weight as)

theorem slice_concat {start stop : Nat} (hle : start ≤ stop) (hstop : stop < as.length) :
    slice as (start, stop) ++ [as[stop]] = slice as (start, stop + 1) := by
  rw [slice, slice, List.take_succ_eq_append_getElem hstop, List.drop_append_of_le_length]
  rw [List.length_take]
  omega

theorem slice_of_append {start stop : Nat} {front : List α}
    (h : slice as (start, stop) = front ++ run) : run = slice as (start + front.length, stop) := by
  rw [slice] at h ⊢
  rw [← List.drop_drop, h, List.drop_left]

theorem slice_ne_nil {p : Nat × Nat} (h : p.1 < p.2 ∧ p.2 ≤ as.length) : slice as p ≠ [] := by
  rw [← List.length_pos_iff, slice, List.length_drop, List.length_take]
  omega

theorem mem_of_mem_slice {p : Nat × Nat} (h : a ∈ slice as p) : a ∈ as :=
  List.mem_of_mem_take (List.mem_of_mem_drop h)

variable (limits weight) in
/-- What a slice hands over is a slice with the same end. -/
theorem exists_handOver_slice (next : Nat) {start stop : Nat} (hle : start ≤ stop)
    (hstop : stop ≤ as.length) : ∃ place, start ≤ place ∧ place ≤ stop ∧
    handOver limits weight next (slice as (start, stop)) = slice as (place, stop) ∧
      load limits.gap weight (slice as (place, stop)) ≤ limits.overlap := by
  obtain ⟨front, hslice, hover⟩ :=
    exists_handsOver limits weight next (slice as (start, stop))
  have hkept := slice_of_append hslice
  refine ⟨start + front.length, Nat.le_add_right _ _, ?_, hkept, hkept ▸ hover.1.1⟩
  have hlength := congrArg List.length hslice
  rw [slice, List.length_drop, List.length_take, List.length_append] at hlength
  omega

variable (limits weight) in
/-- The windows that are packed from a slice on. -/
theorem packFrom_eq_slices {start stop : Nat} (hlt : start < stop) (hstop : stop ≤ as.length) :
    ∃ bounds, packFrom limits weight (slice as (start, stop)) (as.drop stop)
        = bounds.map (slice as) ∧ Covers limits weight as start bounds ∧
      ∀ p ∈ bounds.head?, stop ≤ p.2 := by
  induction hn : as.length - stop generalizing start stop with
  | zero =>
      obtain rfl : stop = as.length := by omega
      refine ⟨[(start, as.length)], ?_, ⟨⟨_, rfl⟩, ⟨_, rfl⟩, ?_, List.isChain_singleton _⟩, ?_⟩
      · rw [List.drop_length]
        rfl
      · simpa using hlt
      · simp
  | succ n ih =>
      have hin : stop < as.length := by omega
      rw [List.drop_eq_getElem_cons hin, packFrom]
      split
      · obtain ⟨place, hfrom, hle, hkept, hshared⟩ := exists_handOver_slice limits weight
          (weight as[stop]) hlt.le hstop
        obtain ⟨bounds, hpack, hcovers, hhead⟩ := ih (Nat.lt_succ_of_le hle) hin (by omega)
        rw [hkept, slice_concat hle hin, hpack]
        obtain ⟨last, hfirst⟩ := hcovers.head
        obtain ⟨rest, rfl⟩ : ∃ rest, bounds = (place, last) :: rest := by
          cases bounds with
          | nil => cases hfirst
          | cons p rest => exact ⟨rest, by rw [Option.some.inj hfirst]⟩
        refine ⟨(start, stop) :: (place, last) :: rest, rfl, ⟨⟨_, rfl⟩, ?_, ?_, ?_⟩, ?_⟩
        · rw [List.getLast?_cons_cons]
          exact hcovers.last
        · exact List.forall_mem_cons.mpr ⟨⟨hlt, hstop⟩, hcovers.some⟩
        · exact List.isChain_cons_cons.mpr ⟨⟨hfrom, hhead _ rfl, hle, hshared⟩, hcovers.chain⟩
        · simp
      · obtain ⟨bounds, hpack, hcovers, hhead⟩ := ih (hlt.trans (Nat.lt_succ_self _)) hin (by omega)
        rw [slice_concat hlt.le hin, hpack]
        exact ⟨bounds, rfl, hcovers, fun p hp => (Nat.le_succ _).trans (hhead p hp)⟩

variable (limits weight) in
/-- **The windows** are slices that cover the sequence, and share no more than the overlap. -/
theorem pack_eq_slices (has : as ≠ []) : ∃ bounds,
    pack limits weight as = bounds.map (slice as) ∧ Covers limits weight as 0 bounds := by
  obtain ⟨a, as, rfl⟩ := List.exists_cons_of_ne_nil has
  have hpack : pack limits weight (a :: as)
      = packFrom limits weight (slice (a :: as) (0, 1)) ((a :: as).drop 1) := by
    rw [pack, packFrom, if_neg fun h => h.1 rfl]
    rfl
  obtain ⟨bounds, hslices, hcovers, -⟩ := @packFrom_eq_slices _ limits weight (a :: as) 0 1
    Nat.zero_lt_one (Nat.succ_le_succ (Nat.zero_le _))
  exact ⟨bounds, hpack.trans hslices, hcovers⟩

end Packing
