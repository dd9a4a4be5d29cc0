/-
Instinct/PairMerging.lean

Byte pair merging, as a small library of its own.

`mergePair` replaces the occurrences of a pair of neighbours, from left to right and
without overlap.  It keeps what a list spells if the new element spells the pair
(`flatMap_mergePair`).

`Step` merges the neighbours whose concatenation has the least rank, the leftmost of
these, and only below a bound.  It is deterministic, and local: each segment of a state
that is reached from the letters of a word is itself reached from its own letters
(`reaches_segment`).  A token is therefore always made of the same two parts
(`parts_of_step`), and all occurrences of the best pair are merged one after the other
(`reaches_mergePair`).
-/
import Mathlib.Data.List.Basic
import Mathlib.Logic.Relation

namespace PairMerging

open Relation

variable {α β : Type}

/-! ### Neighbours -/

/-- The pairs of neighbours. -/
def neighbours : List α → List (α × α)
  | x :: y :: rest => (x, y) :: neighbours (y :: rest)
  | _ => []

theorem neighbours_append_cons (front : List α) (x : α) (back : List α) :
    neighbours (front ++ x :: back) = neighbours (front ++ [x]) ++ neighbours (x :: back) := by
  induction front with
  | nil => rfl
  | cons z front ih =>
      cases front with
      | nil => rfl
      | cons z' front => exact congrArg ((z, z') :: ·) ih

theorem neighbours_map (f : α → β) (l : List α) :
    neighbours (l.map f) = (neighbours l).map fun p => (f p.1, f p.2) := by
  induction l with
  | nil => rfl
  | cons x l ih =>
      cases l with
      | nil => rfl
      | cons y l => exact congrArg ((f x, f y) :: ·) ih

/-- Neighbours have a place in the list. -/
theorem mem_neighbours_iff {x y : α} {l : List α} :
    (x, y) ∈ neighbours l ↔ ∃ front back, l = front ++ x :: y :: back := by
  constructor
  · intro h
    induction l with
    | nil => cases h
    | cons z l ih =>
        cases l with
        | nil => cases h
        | cons z' l =>
            rw [neighbours, List.mem_cons] at h
            rcases h with h | h
            · obtain ⟨rfl, rfl⟩ := Prod.mk.inj h
              exact ⟨[], l, rfl⟩
            · obtain ⟨front, back, hl⟩ := ih h
              exact ⟨z :: front, back, congrArg (z :: ·) hl⟩
  · rintro ⟨front, back, rfl⟩
    rw [neighbours_append_cons, neighbours]
    exact List.mem_append_right _ List.mem_cons_self

/-- A place among the pairs is one in the list. -/
theorem neighbours_eq_append_cons {x y : α} {before after : List (α × α)} {l : List α}
    (h : neighbours l = before ++ (x, y) :: after) :
    ∃ front back, l = front ++ x :: y :: back ∧ before = neighbours (front ++ [x]) ∧
      after = neighbours (y :: back) ∧ before.length = front.length := by
  induction before generalizing l with
  | nil =>
      rcases l with - | ⟨z, - | ⟨z', l⟩⟩
      · cases h
      · cases h
      · obtain ⟨hfirst, rfl⟩ := List.cons.inj h
        obtain ⟨rfl, rfl⟩ := Prod.mk.inj hfirst
        exact ⟨[], l, rfl, rfl, rfl, rfl⟩
  | cons p before ih =>
      rcases l with - | ⟨z, - | ⟨z', l⟩⟩
      · cases h
      · cases h
      · obtain ⟨rfl, hrest⟩ := List.cons.inj h
        obtain ⟨front, back, hl, rfl, hafter, hlength⟩ := ih hrest
        refine ⟨z :: front, back, congrArg (z :: ·) hl, ?_, hafter, congrArg (· + 1) hlength⟩
        cases front with
        | nil =>
            obtain ⟨rfl, -⟩ := List.cons.inj hl
            rfl
        | cons z'' front =>
            obtain ⟨rfl, -⟩ := List.cons.inj hl
            rfl

theorem mem_of_mem_neighbours {p : α × α} {l : List α} (h : p ∈ neighbours l) :
    p.1 ∈ l ∧ p.2 ∈ l := by
  obtain ⟨front, back, rfl⟩ := mem_neighbours_iff.mp h
  exact ⟨by simp, by simp⟩

/-- Neighbours in a segment are neighbours. -/
theorem mem_neighbours_segment {p : α × α} {left segment right : List α}
    (h : p ∈ neighbours segment) : p ∈ neighbours (left ++ segment ++ right) := by
  obtain ⟨front, back, rfl⟩ := mem_neighbours_iff.mp h
  exact mem_neighbours_iff.mpr ⟨left ++ front, back ++ right, by simp⟩

/-! ### Merging a pair everywhere -/

section Merge

variable [DecidableEq α] {a b c : α}

/-- Replace the occurrences of a pair, from left to right and without overlap. -/
def mergePair (a b c : α) : List α → List α
  | x :: y :: rest =>
      if x = a ∧ y = b then c :: mergePair a b c rest else x :: mergePair a b c (y :: rest)
  | l => l

/-- Nothing is merged in a list of one element at most. -/
theorem mergePair_of_short {l : List α} (h : ∀ x y rest, l = x :: y :: rest → False) :
    mergePair a b c l = l := by
  rcases l with - | ⟨x, - | ⟨y, rest⟩⟩
  · rfl
  · rfl
  · exact absurd rfl (h x y rest)

/-- The list spells what it did. -/
theorem flatMap_mergePair {spell : α → List β} (h : spell c = spell a ++ spell b) (l : List α) :
    (mergePair a b c l).flatMap spell = l.flatMap spell := by
  induction l using mergePair.induct a b with
  | case1 x y rest hpair ih =>
      obtain ⟨rfl, rfl⟩ := hpair
      rw [mergePair, if_pos ⟨rfl, rfl⟩, List.flatMap_cons, ih, h]
      simp only [List.flatMap_cons, List.append_assoc]
  | case2 x y rest hpair ih =>
      rw [mergePair, if_neg hpair, List.flatMap_cons, ih]
      rfl
  | case3 l hl => rw [mergePair_of_short hl]

theorem length_mergePair_le (l : List α) : (mergePair a b c l).length ≤ l.length := by
  induction l using mergePair.induct a b with
  | case1 x y rest hpair ih =>
      rw [mergePair, if_pos hpair, List.length_cons, List.length_cons, List.length_cons]
      omega
  | case2 x y rest hpair ih =>
      rw [mergePair, if_neg hpair]
      exact Nat.succ_le_succ ih
  | case3 l hl => exact Nat.le_of_eq (congrArg List.length (mergePair_of_short hl))

/-- Where the pair occurs, the list gets shorter. -/
theorem length_mergePair_lt {l : List α} (h : (a, b) ∈ neighbours l) :
    (mergePair a b c l).length < l.length := by
  induction l using mergePair.induct a b with
  | case1 x y rest hpair ih =>
      have hle := length_mergePair_le (a := a) (b := b) (c := c) rest
      rw [mergePair, if_pos hpair, List.length_cons, List.length_cons, List.length_cons]
      omega
  | case2 x y rest hpair ih =>
      rw [neighbours, List.mem_cons] at h
      rcases h with h | h
      · obtain ⟨rfl, rfl⟩ := Prod.mk.inj h
        exact absurd ⟨rfl, rfl⟩ hpair
      · have hlt := ih h
        rw [mergePair, if_neg hpair]
        exact Nat.succ_lt_succ hlt
  | case3 l hl =>
      obtain ⟨front, back, rfl⟩ := mem_neighbours_iff.mp h
      cases front with
      | nil => exact absurd rfl (hl a b back)
      | cons z front => cases front <;> exact absurd rfl (hl _ _ _)

/-- What is left was there before, or is new. -/
theorem mem_mergePair {x : α} {l : List α} (h : x ∈ mergePair a b c l) : x ∈ l ∨ x = c := by
  induction l using mergePair.induct a b with
  | case1 y z rest hpair ih =>
      rw [mergePair, if_pos hpair, List.mem_cons] at h
      rcases h with rfl | h
      · exact .inr rfl
      · exact (ih h).imp_left fun hrest => List.mem_cons_of_mem y (List.mem_cons_of_mem z hrest)
  | case2 y z rest hpair ih =>
      rw [mergePair, if_neg hpair, List.mem_cons] at h
      rcases h with rfl | h
      · exact .inl List.mem_cons_self
      · exact (ih h).imp_left (List.mem_cons_of_mem y)
  | case3 l hl => exact .inl (mergePair_of_short hl ▸ h)

/-- Renaming commutes with merging, if nothing else takes a name of the pair. -/
theorem map_mergePair [DecidableEq β] {f : α → β} {l : List α}
    (ha : ∀ x ∈ l, f x = f a → x = a) (hb : ∀ x ∈ l, f x = f b → x = b) :
    (mergePair a b c l).map f = mergePair (f a) (f b) (f c) (l.map f) := by
  induction l using mergePair.induct a b with
  | case1 x y rest hpair ih =>
      obtain ⟨rfl, rfl⟩ := hpair
      have hsub : ∀ z ∈ rest, z ∈ x :: y :: rest := fun z hz =>
        List.mem_cons_of_mem x (List.mem_cons_of_mem y hz)
      rw [mergePair, if_pos ⟨rfl, rfl⟩, List.map_cons, List.map_cons, List.map_cons, mergePair,
        if_pos ⟨rfl, rfl⟩, ih (fun z hz => ha z (hsub z hz)) fun z hz => hb z (hsub z hz)]
  | case2 x y rest hpair ih =>
      have hsub : ∀ z ∈ y :: rest, z ∈ x :: y :: rest := fun z hz => List.mem_cons_of_mem x hz
      have hother : ¬ (f x = f a ∧ f y = f b) := fun h =>
        hpair ⟨ha x List.mem_cons_self h.1, hb y (hsub y List.mem_cons_self) h.2⟩
      rw [mergePair, if_neg hpair, List.map_cons, List.map_cons, List.map_cons, mergePair,
        if_neg hother, ih (fun z hz => ha z (hsub z hz)) fun z hz => hb z (hsub z hz)]
      rfl
  | case3 l hl =>
      cases l with
      | nil => rfl
      | cons x l =>
          cases l with
          | nil => rfl
          | cons y l => exact absurd rfl (hl x y l)

end Merge

/-! ### Merging the best pair -/

section Best

/-- All neighbours have a rank above `r`, or none. -/
def Above (rank : List α → Option Nat) (r : Nat) (parts : List (List α)) : Prop :=
  ∀ p ∈ neighbours parts, ∀ s ∈ rank (p.1 ++ p.2), r < s

/-- All neighbours have a rank of at least `r`, or none. -/
def AtLeast (rank : List α → Option Nat) (r : Nat) (parts : List (List α)) : Prop :=
  ∀ p ∈ neighbours parts, ∀ s ∈ rank (p.1 ++ p.2), r ≤ s

/-- Of all neighbours `x` and `y` are the leftmost with the least rank. -/
structure Best (rank : List α → Option Nat) (r : Nat) (front : List (List α)) (x y : List α)
    (back : List (List α)) : Prop where
  rank_eq : rank (x ++ y) = some r
  above : Above rank r (front ++ [x])
  atLeast : AtLeast rank r (y :: back)

/-- The best neighbours are merged, if their rank is below the bound. -/
def Step (rank : List α → Option Nat) (bound : Nat) (parts parts' : List (List α)) : Prop :=
  ∃ front x y back r, Best rank r front x y back ∧ r < bound ∧
    parts = front ++ x :: y :: back ∧ parts' = front ++ (x ++ y) :: back

/-- The letters of a word. -/
def singletons (word : List α) : List (List α) := word.map fun a => [a]

variable {rank : List α → Option Nat} {bound r r' : Nat} {front front' back back' : List (List α)}
  {x x' y y' word : List α} {parts parts' : List (List α)}

/-- Nothing has a lower rank than the best. -/
theorem Best.le (h : Best rank r front x y back) {p : List α × List α} {s : Nat}
    (hp : p ∈ neighbours (front ++ x :: y :: back)) (hs : rank (p.1 ++ p.2) = some s) : r ≤ s := by
  rw [neighbours_append_cons, neighbours, List.mem_append, List.mem_cons] at hp
  rcases hp with hp | rfl | hp
  · exact Nat.le_of_lt (h.above p hp s hs)
  · exact Nat.le_of_eq (Option.some.inj (h.rank_eq.symm.trans hs))
  · exact h.atLeast p hp s hs

/-- There is one best place at most. -/
theorem Best.unique (h : Best rank r front x y back) (h' : Best rank r' front' x' y' back')
    (heq : front ++ x :: y :: back = front' ++ x' :: y' :: back') :
    front = front' ∧ x = x' ∧ y = y' ∧ back = back' := by
  -- a second place behind the first has a higher rank from here and no higher from there
  have hbehind : ∀ {front x y back r front' x' y' back' r'}, Best rank r front x y back →
      Best rank r' front' x' y' back' → ∀ z middle, front' = front ++ z :: middle →
      x :: y :: back ≠ (z :: middle) ++ x' :: y' :: back' := by
    intro front x y back r front' x' y' back' r' h h' z middle hfront hback
    obtain ⟨rfl, htail⟩ := List.cons.inj hback
    have hfirst : (x, y) ∈ neighbours (front' ++ [x']) := by
      rw [hfront]
      cases middle with
      | nil =>
          obtain ⟨rfl, -⟩ := List.cons.inj htail
          exact mem_neighbours_iff.mpr ⟨front, [], by simp⟩
      | cons z' middle =>
          obtain ⟨rfl, -⟩ := List.cons.inj htail
          exact mem_neighbours_iff.mpr ⟨front, middle ++ [x'], by simp⟩
    have hsecond : (x', y') ∈ neighbours (y :: back) :=
      mem_neighbours_iff.mpr ⟨middle, back', htail⟩
    have hlt := h'.above _ hfirst r h.rank_eq
    have hle := h.atLeast _ hsecond r' h'.rank_eq
    omega
  rcases List.append_eq_append_iff.mp heq with ⟨middle, hfront, hback⟩ | ⟨middle, hfront, hback⟩
  · cases middle with
    | nil =>
        rw [List.nil_append, List.cons.injEq, List.cons.injEq] at hback
        exact ⟨by rw [hfront, List.append_nil], hback⟩
    | cons z middle => exact absurd hback (hbehind h h' z middle hfront)
  · cases middle with
    | nil =>
        rw [List.nil_append, List.cons.injEq, List.cons.injEq] at hback
        exact ⟨by rw [hfront, List.append_nil], hback.1.symm, hback.2.1.symm, hback.2.2.symm⟩
    | cons z middle => exact absurd hback (hbehind h' h z middle hfront)

/-- The best place of a list, with one more part in front that makes no better pair. -/
theorem Best.cons (h : Best rank r front x y back) {z z' : List α}
    (heq : z' :: parts = front ++ x :: y :: back) (hz : ∀ s ∈ rank (z ++ z'), r < s) :
    Best rank r (z :: front) x y back where
  rank_eq := h.rank_eq
  above := by
    obtain ⟨more, hmore⟩ : ∃ more, front ++ [x] = z' :: more := by
      cases front with
      | nil =>
          obtain ⟨rfl, -⟩ := List.cons.inj heq
          exact ⟨[], rfl⟩
      | cons z'' front =>
          obtain ⟨rfl, -⟩ := List.cons.inj heq
          exact ⟨front ++ [x], rfl⟩
    have habove := h.above
    rw [hmore] at habove
    rw [List.cons_append, hmore]
    exact List.forall_mem_cons.mpr ⟨hz, habove⟩
  atLeast := h.atLeast

/-- Neighbours with a rank have a best among them, by induction from the right. -/
theorem exists_best {p : List α × List α} {s : Nat} (hp : p ∈ neighbours parts)
    (hs : rank (p.1 ++ p.2) = some s) :
    ∃ front x y back r, Best rank r front x y back ∧ r ≤ s ∧ parts = front ++ x :: y :: back := by
  suffices h : (∀ q ∈ neighbours parts, rank (q.1 ++ q.2) = none) ∨
      ∃ front x y back r, Best rank r front x y back ∧ parts = front ++ x :: y :: back by
    rcases h with hnone | ⟨front, x, y, back, r, hbest, rfl⟩
    · rw [hnone p hp] at hs
      cases hs
    · exact ⟨front, x, y, back, r, hbest, hbest.le hp hs, rfl⟩
  clear hp hs
  induction parts with
  | nil => exact .inl fun q hq => absurd hq List.not_mem_nil
  | cons z parts ih =>
      cases parts with
      | nil => exact .inl fun q hq => absurd hq List.not_mem_nil
      | cons z' parts =>
          have hfirst : ∀ q, rank (z ++ z') = some q → AtLeast rank q (z' :: parts) →
              Best rank q [] z z' parts :=
            fun q hq hleast => ⟨hq, fun p hp => absurd hp List.not_mem_nil, hleast⟩
          rcases ih with hnone | ⟨front, x, y, back, r, hbest, heq⟩
          · cases hz : rank (z ++ z') with
            | none => exact .inl (List.forall_mem_cons.mpr ⟨hz, hnone⟩)
            | some q =>
                refine .inr ⟨[], z, z', parts, q, hfirst q hz fun p hp s hs => ?_, rfl⟩
                rw [hnone p hp] at hs
                cases hs
          · by_cases hbetter : ∃ q, rank (z ++ z') = some q ∧ q ≤ r
            · obtain ⟨q, hz, hle⟩ := hbetter
              refine .inr ⟨[], z, z', parts, q, hfirst q hz fun p hp s hs => ?_, rfl⟩
              rw [heq] at hp
              exact Nat.le_trans hle (hbest.le hp hs)
            · refine .inr ⟨z :: front, x, y, back, r, hbest.cons heq fun s hs => ?_,
                congrArg (z :: ·) heq⟩
              exact Nat.lt_of_not_le fun hle => hbetter ⟨s, hs, hle⟩

/-! ### Runs -/

theorem Step.deterministic {parts₁ parts₂ : List (List α)} (h₁ : Step rank bound parts parts₁)
    (h₂ : Step rank bound parts parts₂) : parts₁ = parts₂ := by
  obtain ⟨front, x, y, back, r, hbest, -, heq, rfl⟩ := h₁
  obtain ⟨front', x', y', back', r', hbest', -, heq', rfl⟩ := h₂
  obtain ⟨rfl, rfl, rfl, rfl⟩ := hbest.unique hbest' (heq.symm.trans heq')
  rfl

/-- A step of a smaller bound is one of a larger. -/
theorem Step.mono {bound' : Nat} (hle : bound ≤ bound') (h : Step rank bound parts parts') :
    Step rank bound' parts parts' := by
  obtain ⟨front, x, y, back, r, hbest, hr, heq, heq'⟩ := h
  exact ⟨front, x, y, back, r, hbest, Nat.lt_of_lt_of_le hr hle, heq, heq'⟩

theorem Step.length (h : Step rank bound parts parts') : parts.length = parts'.length + 1 := by
  obtain ⟨front, x, y, back, r, -, -, rfl, rfl⟩ := h
  simp only [List.length_append, List.length_cons]
  omega

theorem length_le_of_reaches (h : ReflTransGen (Step rank bound) parts parts') :
    parts'.length ≤ parts.length := by
  induction h with
  | refl => exact Nat.le_refl _
  | tail _ hstep ih =>
      have hlength := hstep.length
      omega

/-- Two states of one run that have the same length are the same. -/
theorem reaches_unique {parts₁ parts₂ : List (List α)}
    (h₁ : ReflTransGen (Step rank bound) parts parts₁)
    (h₂ : ReflTransGen (Step rank bound) parts parts₂) (hlength : parts₁.length = parts₂.length) :
    parts₁ = parts₂ := by
  have hsame : ∀ {parts₁ parts₂ : List (List α)},
      ReflTransGen (Step rank bound) parts₁ parts₂ → parts₁.length = parts₂.length →
      parts₁ = parts₂ := by
    intro parts₁ parts₂ h hlength
    rcases h.cases_head with heq | ⟨next, hstep, hrest⟩
    · exact heq
    · have hle := length_le_of_reaches hrest
      have hstep' := hstep.length
      omega
  have hunique : Relator.RightUnique (Step rank bound) := fun _ _ _ h h' => h.deterministic h'
  rcases ReflTransGen.total_of_right_unique hunique h₁ h₂ with h | h
  · exact hsame h hlength
  · exact (hsame h hlength.symm).symm

/-- A run ends in one way at most. -/
theorem final_unique {parts₁ parts₂ : List (List α)}
    (h₁ : ReflTransGen (Step rank bound) parts parts₁)
    (h₂ : ReflTransGen (Step rank bound) parts parts₂)
    (hfinal₁ : ∀ next, ¬ Step rank bound parts₁ next)
    (hfinal₂ : ∀ next, ¬ Step rank bound parts₂ next) : parts₁ = parts₂ := by
  have hunique : Relator.RightUnique (Step rank bound) := fun _ _ _ h h' => h.deterministic h'
  rcases ReflTransGen.total_of_right_unique hunique h₁ h₂ with h | h
  · rcases h.cases_head with heq | ⟨next, hstep, -⟩
    · exact heq
    · exact absurd hstep (hfinal₁ next)
  · rcases h.cases_head with heq | ⟨next, hstep, -⟩
    · exact heq.symm
    · exact absurd hstep (hfinal₂ next)

/-- A run changes no letter. -/
theorem flatten_of_reaches (h : ReflTransGen (Step rank bound) (singletons word) parts) :
    parts.flatten = word := by
  induction h with
  | refl =>
      rw [singletons, ← List.flatMap_def]
      exact List.flatMap_singleton' word
  | tail _ hstep ih =>
      obtain ⟨front, x, y, back, r, -, -, rfl, rfl⟩ := hstep
      rw [← ih]
      simp

/-- The parts of a run are not empty. -/
theorem ne_nil_of_reaches (h : ReflTransGen (Step rank bound) (singletons word) parts) :
    ∀ x ∈ parts, x ≠ [] := by
  induction h with
  | refl =>
      intro x hx
      obtain ⟨a, -, rfl⟩ := List.mem_map.mp hx
      exact List.cons_ne_nil a []
  | tail _ hstep ih =>
      obtain ⟨front, x, y, back, r, -, -, rfl, rfl⟩ := hstep
      intro z hz
      rcases List.mem_append.mp hz with hz | hz
      · exact ih z (List.mem_append_left _ hz)
      · rcases List.mem_cons.mp hz with rfl | hz
        · exact fun hnil => ih x (by simp) (List.append_eq_nil_iff.mp hnil).1
        · exact ih z (by simp [hz])

/-- A part is a letter, or has a rank below the bound. -/
theorem rank_of_reaches (h : ReflTransGen (Step rank bound) (singletons word) parts) :
    ∀ x ∈ parts, (∃ a, x = [a]) ∨ ∃ s, rank x = some s ∧ s < bound := by
  induction h with
  | refl =>
      intro x hx
      obtain ⟨a, -, rfl⟩ := List.mem_map.mp hx
      exact .inl ⟨a, rfl⟩
  | tail _ hstep ih =>
      obtain ⟨front, x, y, back, r, hbest, hr, rfl, rfl⟩ := hstep
      intro z hz
      rcases List.mem_append.mp hz with hz | hz
      · exact ih z (List.mem_append_left _ hz)
      · rcases List.mem_cons.mp hz with rfl | hz
        · exact .inr ⟨r, hbest.rank_eq, hr⟩
        · exact ih z (by simp [hz])

/-! ### Locality -/

/-- The best place is the best of each segment around it. -/
theorem Best.segment {left right : List (List α)}
    (h : Best rank r (left ++ front) x y (back ++ right)) : Best rank r front x y back where
  rank_eq := h.rank_eq
  above := fun p hp => h.above p (by
    have hsegment := @mem_neighbours_segment _ _ left _ [] hp
    rwa [List.append_nil, ← List.append_assoc] at hsegment)
  atLeast := fun p hp => h.atLeast p (by
    have hsegment := @mem_neighbours_segment _ _ [] _ right hp
    rwa [List.nil_append, List.cons_append] at hsegment)

/-- A segment around, before or behind an element. -/
theorem segment_cases {z : α} {front back left segment right : List α}
    (h : front ++ z :: back = left ++ segment ++ right) :
    (∃ middle, front = left ++ segment ++ middle ∧ right = middle ++ z :: back) ∨
    (∃ middle, left = front ++ z :: middle ∧ back = middle ++ segment ++ right) ∨
    (∃ m m', segment = m ++ z :: m' ∧ front = left ++ m ∧ back = m' ++ right) ∨
    segment = [] := by
  rw [List.append_assoc] at h
  rcases List.append_eq_append_iff.mp h with ⟨m, hleft, hback⟩ | ⟨m, hfront, hsegment⟩
  · cases m with
    | nil =>
        cases segment with
        | nil => exact .inr (.inr (.inr rfl))
        | cons z' segment =>
            obtain ⟨rfl, rfl⟩ := List.cons.inj hback
            exact .inr (.inr (.inl ⟨[], segment, rfl, by rw [hleft, List.append_nil,
              List.append_nil], rfl⟩))
    | cons z' m =>
        obtain ⟨rfl, rfl⟩ := List.cons.inj hback
        exact .inr (.inl ⟨m, hleft, (List.append_assoc _ _ _).symm⟩)
  · rcases List.append_eq_append_iff.mp hsegment with ⟨m', hm, hright⟩ | ⟨m', hm, hback⟩
    · exact .inl ⟨m', by rw [hfront, hm, List.append_assoc], hright⟩
    · cases m' with
      | nil =>
          rw [List.append_nil] at hm
          exact .inl ⟨[], by rw [hfront, hm, List.append_nil], hback.symm⟩
      | cons z' m' =>
          obtain ⟨rfl, rfl⟩ := List.cons.inj hback
          exact .inr (.inr (.inl ⟨m, m', hm, hfront, rfl⟩))

theorem singletons_flatten_of_singletons {segment : List (List α)}
    (h : ∀ x ∈ segment, ∃ a, x = [a]) : singletons segment.flatten = segment := by
  induction segment with
  | nil => rfl
  | cons x segment ih =>
      obtain ⟨⟨a, rfl⟩, hsegment⟩ := List.forall_mem_cons.mp h
      exact congrArg ([a] :: ·) (ih hsegment)

/-- **A segment of a state comes from its own letters**: what happens outside of it does not
matter, by induction over the run. -/
theorem reaches_segment (h : ReflTransGen (Step rank bound) (singletons word) parts)
    {left segment right : List (List α)} (hparts : parts = left ++ segment ++ right) :
    ReflTransGen (Step rank bound) (singletons segment.flatten) segment := by
  induction h generalizing left segment right with
  | refl =>
      have hsingletons : singletons segment.flatten = segment := by
        refine singletons_flatten_of_singletons fun x hx => ?_
        have hmem : x ∈ singletons word := by
          rw [hparts]
          exact List.mem_append_left _ (List.mem_append_right _ hx)
        obtain ⟨a, -, rfl⟩ := List.mem_map.mp hmem
        exact ⟨a, rfl⟩
      rw [hsingletons]
  | tail hrun hstep ih =>
      obtain ⟨front, x, y, back, r, hbest, hr, rfl, rfl⟩ := hstep
      rcases segment_cases hparts with ⟨m, rfl, -⟩ | ⟨m, -, rfl⟩ | ⟨m, m', rfl, rfl, rfl⟩ | rfl
      · exact ih (show _ = left ++ segment ++ (m ++ x :: y :: back) by simp)
      · exact ih (show _ = (front ++ x :: y :: m) ++ segment ++ right by simp)
      · -- the step takes place in the segment
        have hbefore := ih (show _ = left ++ (m ++ x :: y :: m') ++ right by simp)
        have hflatten : (m ++ (x ++ y) :: m').flatten = (m ++ x :: y :: m').flatten := by simp
        rw [hflatten]
        exact hbefore.tail ⟨m, x, y, m', r, hbest.segment, hr, rfl, rfl⟩
      · exact .refl

/-! ### Tokens and their parts -/

/-- The two parts of a token: what merging below its rank leaves of its letters. -/
def Parts (rank : List α → Option Nat) (token a b : List α) : Prop :=
  ∃ r, rank token = some r ∧ ReflTransGen (Step rank r) (singletons token) [a, b]

/-- **The neighbours that are merged are the parts of what they become.** -/
theorem parts_of_best (h : ReflTransGen (Step rank bound) (singletons word)
      (front ++ x :: y :: back)) (hbest : Best rank r front x y back) (hr : r < bound)
    {a b : List α} (hparts : Parts rank (x ++ y) a b) : x = a ∧ y = b := by
  obtain ⟨s, hs, hrun⟩ := hparts
  obtain rfl := Option.some.inj (hbest.rank_eq.symm.trans hs)
  have hsegment := reaches_segment h (show _ = front ++ [x, y] ++ back by simp)
  rw [show [x, y].flatten = x ++ y by simp] at hsegment
  have hbelow := ReflTransGen.mono (fun _ _ hstep => Step.mono (Nat.le_of_lt hr) hstep) _ _ hrun
  have hsame := reaches_unique hsegment hbelow rfl
  rw [List.cons.injEq, List.cons.injEq] at hsame
  exact ⟨hsame.1, hsame.2.1⟩

/-- A part of a token that is not a letter has a lower rank than the token. -/
theorem Parts.rank_lt {token a b : List α} (h : Parts rank token a b)
    (hr : rank token = some r) : ∀ x ∈ [a, b], (∃ c, x = [c]) ∨ ∃ s, rank x = some s ∧ s < r := by
  obtain ⟨s, hs, hrun⟩ := h
  obtain rfl := Option.some.inj (hr.symm.trans hs)
  exact rank_of_reaches hrun

/-- A token has one pair of parts at most. -/
theorem Parts.unique {token a b a' b' : List α} (h : Parts rank token a b)
    (h' : Parts rank token a' b') : a = a' ∧ b = b' := by
  obtain ⟨r, hr, hrun⟩ := h
  obtain ⟨r', hr', hrun'⟩ := h'
  obtain rfl := Option.some.inj (hr.symm.trans hr')
  have hsame := reaches_unique hrun hrun' rfl
  rw [List.cons.injEq, List.cons.injEq] at hsame
  exact ⟨hsame.1, hsame.2.1⟩

theorem Parts.append {token a b : List α} (h : Parts rank token a b) : a ++ b = token := by
  obtain ⟨r, -, hrun⟩ := h
  have hflatten := flatten_of_reaches hrun
  rwa [List.flatten_cons, List.flatten_cons, List.flatten_nil, List.append_nil] at hflatten

theorem Parts.ne_nil {token a b : List α} (h : Parts rank token a b) : a ≠ [] ∧ b ≠ [] := by
  obtain ⟨r, -, hrun⟩ := h
  have hne := ne_nil_of_reaches hrun
  exact ⟨hne a (by simp), hne b (by simp)⟩

/-- No two words have the same rank. -/
def Injective (rank : List α → Option Nat) : Prop :=
  ∀ x y r, rank x = some r → rank y = some r → x = y

/-- Every pair that has a rank below the bound makes up a token with parts. -/
def Recovered (rank : List α → Option Nat) (bound : Nat) : Prop :=
  ∀ x y r, x ≠ [] → y ≠ [] → rank (x ++ y) = some r → r < bound →
    ∃ a b, Parts rank (x ++ y) a b

/-! ### All occurrences of the best pair -/

theorem mem_neighbours_concat {z : α} {l : List α} {p : α × α} (h : p ∈ neighbours (l ++ [z])) :
    p ∈ neighbours l ∨ p.2 = z := by
  rcases List.eq_nil_or_concat l with rfl | ⟨front, y, rfl⟩
  · cases h
  · rw [List.concat_eq_append, List.append_assoc, List.singleton_append, neighbours_append_cons,
      List.mem_append] at h
    rcases h with h | h
    · rw [List.concat_eq_append]
      exact .inl h
    · exact .inr (congrArg Prod.snd (List.mem_singleton.mp h))

theorem mem_neighbours_cons {z : α} {l : List α} {p : α × α} (h : p ∈ neighbours (z :: l)) :
    p.1 = z ∨ p ∈ neighbours l := by
  cases l with
  | nil => cases h
  | cons z' l =>
      rw [neighbours, List.mem_cons] at h
      exact h.imp_left fun h => congrArg Prod.fst h

/-- After a merge no pair has a lower rank: the merged part would be part of a token of
that rank. -/
theorem atLeast_after (hrecovered : Recovered rank bound)
    (h : ReflTransGen (Step rank bound) (singletons word) (front ++ (x ++ y) :: back))
    (hr : rank (x ++ y) = some r) (hbound : r < bound) (hne : x ≠ [] ∧ y ≠ [])
    (hfront : AtLeast rank r front) (hback : AtLeast rank r back) :
    AtLeast rank r (front ++ (x ++ y) :: back) := by
  intro p hp s hs
  by_contra hlt
  obtain ⟨front', x', y', back', s', hbest, hle, heq⟩ := exists_best hp hs
  have hne' := ne_nil_of_reaches h
  have hmem : (x', y') ∈ neighbours (front ++ (x ++ y) :: back) :=
    mem_neighbours_iff.mpr ⟨front', back', heq⟩
  rw [heq] at h hne'
  obtain ⟨a, b, hparts⟩ := hrecovered x' y' s' (hne' x' (by simp)) (hne' y' (by simp))
    hbest.rank_eq (by omega)
  obtain ⟨rfl, rfl⟩ := parts_of_best h hbest (by omega) hparts
  have hpart : x ++ y ∉ [x', y'] := by
    intro hpart
    rcases hparts.rank_lt hbest.rank_eq _ hpart with ⟨c, hc⟩ | ⟨q, hq, hlower⟩
    · have hlength := congrArg List.length hc
      have hx := List.length_pos_iff.mpr hne.1
      have hy := List.length_pos_iff.mpr hne.2
      rw [List.length_append, List.length_singleton] at hlength
      omega
    · obtain rfl := Option.some.inj (hr.symm.trans hq)
      omega
  rw [neighbours_append_cons, List.mem_append] at hmem
  rcases hmem with hmem | hmem
  · rcases mem_neighbours_concat hmem with hmem | hy
    · have := hfront _ hmem s' hbest.rank_eq
      omega
    · exact hpart (by rw [← show y' = x ++ y from hy]; simp)
  · rcases mem_neighbours_cons hmem with hx | hmem
    · exact hpart (by rw [← show x' = x ++ y from hx]; simp)
    · have := hback _ hmem s' hbest.rank_eq
      omega

theorem AtLeast.segment {left segment right : List (List α)}
    (h : AtLeast rank r (left ++ segment ++ right)) : AtLeast rank r segment :=
  fun p hp => h p (mem_neighbours_segment hp)

theorem AtLeast.behind (h : AtLeast rank r (front ++ x :: y :: back)) :
    AtLeast rank r (y :: back) := fun p hp => h p (by
  rw [neighbours_append_cons, neighbours]
  exact List.mem_append_right _ (List.mem_cons_of_mem _ hp))

/-- A pair that takes in more than a token has not the rank of the token. -/
theorem above_of_atLeast (hinjective : Injective rank) {token : List α} (hr : rank token = some r)
    (hleast : AtLeast rank r parts) {p : List α × List α} (hp : p ∈ neighbours parts)
    (hlonger : token.length < (p.1 ++ p.2).length) : ∀ s ∈ rank (p.1 ++ p.2), r < s := by
  intro s hs
  refine Nat.lt_of_le_of_ne (hleast p hp s hs) ?_
  rintro rfl
  rw [hinjective _ _ r hs hr] at hlonger
  exact Nat.lt_irrefl _ hlonger

section MergeAll

/-- Behind a merged token the next one has no better pair than before: pairs with the token take in
more than it. -/
theorem above_merged (hinjective : Injective rank) {z : List α} (hr : rank (x ++ y) = some r)
    (hleast : AtLeast rank r (front ++ (x ++ y) :: z :: back))
    (hne : ∀ part ∈ front ++ (x ++ y) :: z :: back, part ≠ [])
    (habove : Above rank r (front ++ [x])) : Above rank r (front ++ [x ++ y] ++ [z]) := by
  have hlonger : ∀ p ∈ neighbours (front ++ (x ++ y) :: z :: back),
      (x ++ y).length < (p.1 ++ p.2).length → ∀ s ∈ rank (p.1 ++ p.2), r < s :=
    fun p hp => above_of_atLeast hinjective hr hleast hp
  intro p hp
  rw [List.append_assoc, List.singleton_append, neighbours_append_cons, List.mem_append] at hp
  rcases hp with hp | hp
  · rcases mem_neighbours_concat hp with hold | hmerged
    · refine habove p ?_
      have hsegment := @mem_neighbours_segment _ p [] front [x] hold
      rwa [List.nil_append] at hsegment
    · have hmem : p ∈ neighbours (front ++ (x ++ y) :: z :: back) := by
        rw [neighbours_append_cons]
        exact List.mem_append_left _ hp
      refine hlonger p hmem ?_
      have hpos := List.length_pos_iff.mpr (hne p.1 (mem_of_mem_neighbours hmem).1)
      simp only [hmerged, List.length_append]
      omega
  · obtain rfl := List.mem_singleton.mp hp
    have hmem : (x ++ y, z) ∈ neighbours (front ++ (x ++ y) :: z :: back) :=
      mem_neighbours_iff.mpr ⟨front, back, rfl⟩
    refine hlonger _ hmem ?_
    have hpos := List.length_pos_iff.mpr (hne z (mem_of_mem_neighbours hmem).2)
    simp only [List.length_append]
    omega

variable [DecidableEq α] {a b : List α}

/-- The occurrences of the best pair are merged one after the other, by induction along the
list: what is behind the place of the last merge has no better pair, and what is in front of
it none as good. -/
theorem reaches_mergePair_behind (hinjective : Injective rank) (hrecovered : Recovered rank bound)
    (hr : rank (a ++ b) = some r) (hbound : r < bound) (hparts : Parts rank (a ++ b) a b)
    (done rest : List (List α))
    (h : ReflTransGen (Step rank bound) (singletons word) (done ++ rest))
    (hleast : AtLeast rank r (done ++ rest))
    (habove : ∀ x ∈ rest.head?, Above rank r (done ++ [x])) :
    ReflTransGen (Step rank bound) (singletons word) (done ++ mergePair a b (a ++ b) rest) := by
  induction rest using mergePair.induct a b generalizing done with
  | case1 x y rest hpair ih =>
      obtain ⟨rfl, rfl⟩ := hpair
      have hbest : Best rank r done x y rest := ⟨hr, habove x rfl, hleast.behind⟩
      have hnext := h.tail ⟨done, x, y, rest, r, hbest, hbound, rfl, rfl⟩
      have hleast' := atLeast_after hrecovered hnext hr hbound hparts.ne_nil
        (AtLeast.segment (show AtLeast rank r ([] ++ done ++ x :: y :: rest) from hleast))
        (AtLeast.segment (show AtLeast rank r (done ++ [x, y] ++ rest ++ []) by simpa using hleast))
      rw [mergePair, if_pos ⟨rfl, rfl⟩, ← List.singleton_append, ← List.append_assoc]
      refine ih (done ++ [x ++ y]) (by simpa using hnext) (by simpa using hleast') ?_
      intro z hz
      obtain ⟨rest, rfl⟩ : ∃ rest', rest = z :: rest' := by
        cases rest with
        | nil => cases hz
        | cons z' rest => exact ⟨rest, congrArg (· :: rest) (Option.some.inj hz)⟩
      exact above_merged hinjective hr hleast' (ne_nil_of_reaches hnext) (habove x rfl)
  | case2 x y rest hpair ih =>
      rw [mergePair, if_neg hpair, ← List.singleton_append, ← List.append_assoc]
      refine ih (done ++ [x]) (by simpa using h) (by simpa using hleast) ?_
      intro z hz
      obtain rfl : y = z := Option.some.inj hz
      intro p hp
      rw [List.append_assoc, List.singleton_append, neighbours_append_cons, List.mem_append] at hp
      rcases hp with hp | hp
      · exact habove x rfl p hp
      · obtain rfl := List.mem_singleton.mp hp
        intro s hs
        refine Nat.lt_of_le_of_ne (hleast _ (mem_neighbours_iff.mpr ⟨done, rest, rfl⟩) s hs) ?_
        rintro rfl
        -- these neighbours would be the best, and the parts of the same token
        have hbest : Best rank r done x y rest := ⟨hs, habove x rfl, hleast.behind⟩
        rw [hinjective _ _ r hr hs] at hparts
        exact hpair (parts_of_best h hbest hbound hparts)
  | case3 rest hrest =>
      rw [mergePair_of_short hrest]
      exact h

/-- **All occurrences of the best pair are merged.** -/
theorem reaches_mergePair (hinjective : Injective rank) (hrecovered : Recovered rank bound)
    (h : ReflTransGen (Step rank bound) (singletons word) parts)
    (heq : parts = front ++ x :: y :: back) (hbest : Best rank r front x y back)
    (hbound : r < bound) :
    Parts rank (x ++ y) x y ∧
      ReflTransGen (Step rank bound) (singletons word) (mergePair x y (x ++ y) parts) := by
  have hne := ne_nil_of_reaches h
  have hparts : Parts rank (x ++ y) x y := by
    obtain ⟨a, b, hparts⟩ := hrecovered x y r (hne x (by simp [heq])) (hne y (by simp [heq]))
      hbest.rank_eq hbound
    rw [heq] at h
    obtain ⟨rfl, rfl⟩ := parts_of_best h hbest hbound hparts
    exact hparts
  refine ⟨hparts, reaches_mergePair_behind hinjective hrecovered hbest.rank_eq hbound hparts []
    parts h (fun p hp s hs => ?_) fun z _ p hp => absurd hp List.not_mem_nil⟩
  rw [heq] at hp
  exact hbest.le hp hs

end MergeAll

end Best

end PairMerging
