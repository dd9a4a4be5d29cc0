/-
Instinct/LongestPaths.lean

Longest paths along positions, as a small library of its own.

The edges are labelled and lead from a position to a later one.  A table has for each
position the best way to get there: the position before, the label of the edge between and
the total weight.  If every entry is the best of those that go on from the table
(`Settles`), the route that is traced back through it is a longest path
(`isLongest_of_settles`).
-/
import Mathlib.Algebra.Order.Monoid.Unbundled.Basic
import Mathlib.Algebra.BigOperators.Group.List.Basic

namespace LongestPaths

variable {ι K : Type}

/-! ### Paths -/

/-- The labels of a path from the first position to some other. -/
inductive Path (edge : Nat → Nat → ι → Prop) : Nat → List ι → Prop
  | nil : Path edge 0 []
  | snoc {i p : Nat} {ls : List ι} {l : ι} :
      Path edge i ls → edge i p l → Path edge p (ls ++ [l])

/-- A path behind the first position has a last edge. -/
theorem Path.exists_snoc {edge : Nat → Nat → ι → Prop} {p : Nat} {ls : List ι}
    (h : Path edge p ls) (hp : 0 < p) :
    ∃ i front l, Path edge i front ∧ edge i p l ∧ ls = front ++ [l] := by
  cases h with
  | nil => exact absurd hp (Nat.lt_irrefl 0)
  | snoc hfront hedge => exact ⟨_, _, _, hfront, hedge, rfl⟩

/-- The total weight of some labels. -/
def total [AddMonoid K] (weight : ι → K) (ls : List ι) : K := (ls.map weight).sum

theorem total_concat [AddMonoid K] (weight : ι → K) (ls : List ι) (l : ι) :
    total weight (ls ++ [l]) = total weight ls + weight l := by
  rw [total, total, List.map_append, List.sum_append, List.map_singleton, List.sum_singleton]

/-- A path to a position than which none is longer. -/
structure IsLongest [AddMonoid K] [Preorder K] (edge : Nat → Nat → ι → Prop) (weight : ι → K)
    (p : Nat) (ls : List ι) : Prop where
  path : Path edge p ls
  longest : ∀ other, Path edge p other → total weight other ≤ total weight ls

/-! ### Tables -/

structure Entry (ι K : Type) where
  prev : Nat
  score : K
  label : ι

/-- The route that is traced back from a position, the last label first, with fuel for each step. -/
def route (table : Nat → Entry ι K) : Nat → Nat → Option (List ι)
  | 0, _ => none
  | fuel + 1, p =>
      if p = 0 then some []
      else (route table fuel (table p).prev).map ((table p).label :: ·)

/-- The route through a table of edges is a path. -/
theorem exists_route {edge : Nat → Nat → ι → Prop} {table : Nat → Entry ι K} {n p : Nat}
    (hforward : ∀ i p l, edge i p l → i < p)
    (h : ∀ p, 0 < p → p ≤ n → edge (table p).prev p (table p).label) (hp : p ≤ n) {fuel : Nat}
    (hfuel : p < fuel) : ∃ ls, route table fuel p = some ls ∧ Path edge p ls.reverse := by
  induction p using Nat.strongRecOn generalizing fuel with
  | ind p ih =>
      obtain ⟨fuel, rfl⟩ := Nat.exists_eq_add_one_of_ne_zero (Nat.ne_zero_of_lt hfuel)
      rw [route]
      by_cases hfirst : p = 0
      · subst hfirst
        exact ⟨[], if_pos rfl, .nil⟩
      · rw [if_neg hfirst]
        have hedge := h p (Nat.pos_of_ne_zero hfirst) hp
        have hprev := hforward _ _ _ hedge
        obtain ⟨ls, hroute, hpath⟩ :=
          ih (table p).prev hprev (by omega) (show (table p).prev < fuel by omega)
        refine ⟨(table p).label :: ls, by rw [hroute]; rfl, ?_⟩
        rw [List.reverse_cons]
        exact hpath.snoc hedge

/-- The entry of a position is the best one that goes on from the table. -/
structure Settles [AddMonoid K] [Preorder K] (edge : Nat → Nat → ι → Prop) (weight : ι → K)
    (table : Nat → Entry ι K) (p : Nat) : Prop where
  reached : edge (table p).prev p (table p).label
  score : (table p).score = (table (table p).prev).score + weight (table p).label
  best : ∀ i l, edge i p l → (table i).score + weight l ≤ (table p).score

section Settles

variable [AddMonoid K] [Preorder K] {edge : Nat → Nat → ι → Prop} {weight : ι → K}
  {table table' : Nat → Entry ι K} {n p : Nat}

/-- Only the entries up to a position matter for it. -/
theorem Settles.congr (hforward : ∀ i p l, edge i p l → i < p) (h : Settles edge weight table p)
    (heq : ∀ i, i ≤ p → table' i = table i) : Settles edge weight table' p := by
  have hp := heq p (Nat.le_refl p)
  have hprev := heq (table p).prev (Nat.le_of_lt (hforward _ _ _ h.reached))
  constructor
  · rw [hp]
    exact h.reached
  · rw [hp, hprev]
    exact h.score
  · intro i l hedge
    rw [hp, heq i (Nat.le_of_lt (hforward i p l hedge))]
    exact h.best i l hedge

/-- **The route through a table is a longest path**, and the table has its weight. -/
theorem isLongest_of_settles [AddRightMono K] (hforward : ∀ i p l, edge i p l → i < p)
    (hzero : (table 0).score = 0) (h : ∀ p, 0 < p → p ≤ n → Settles edge weight table p)
    (hp : p ≤ n) {fuel : Nat} (hfuel : p < fuel) :
    ∃ ls, route table fuel p = some ls ∧ IsLongest edge weight p ls.reverse ∧
      total weight ls.reverse = (table p).score := by
  induction p using Nat.strongRecOn generalizing fuel with
  | ind p ih =>
      obtain ⟨fuel, rfl⟩ := Nat.exists_eq_add_one_of_ne_zero (Nat.ne_zero_of_lt hfuel)
      rw [route]
      by_cases hfirst : p = 0
      · subst hfirst
        rw [if_pos rfl]
        refine ⟨[], rfl, ⟨.nil, fun other hother => ?_⟩, hzero.symm⟩
        cases hother with
        | nil => exact le_refl _
        | snoc _ hedge => exact absurd (hforward _ _ _ hedge) (Nat.not_lt_zero _)
      · rw [if_neg hfirst]
        have hsettled := h p (Nat.pos_of_ne_zero hfirst) hp
        have hprev := hforward _ _ _ hsettled.reached
        obtain ⟨ls, hroute, hlongest, htotal⟩ :=
          ih (table p).prev hprev (by omega) (show (table p).prev < fuel by omega)
        have hscore : total weight ((table p).label :: ls).reverse = (table p).score := by
          rw [List.reverse_cons, total_concat, htotal, hsettled.score]
        refine ⟨(table p).label :: ls, by rw [hroute]; rfl, ⟨?_, fun other hother => ?_⟩, hscore⟩
        · rw [List.reverse_cons]
          exact hlongest.path.snoc hsettled.reached
        · -- the path goes on from one that is no longer than the route to its end
          obtain ⟨i, front, l, hpath, hedge, rfl⟩ := hother.exists_snoc (Nat.pos_of_ne_zero hfirst)
          have hlt := hforward i p l hedge
          obtain ⟨ls', -, hlongest', htotal'⟩ := ih i hlt (by omega) (Nat.lt_succ_self i)
          have hle := hlongest'.longest front hpath
          rw [htotal'] at hle
          rw [hscore, total_concat]
          exact le_trans (add_le_add_left hle _) (hsettled.best i l hedge)

end Settles

end LongestPaths
