/-
Instinct/SqlSelection.lean

What a `SELECT` gives, as a small library of its own: the rows of a table that a
condition selects, in an order, and of these a page.

Rows that the order does not tell apart may come in any order, so that a selection
is a relation (`Selection`).  When a page is all there is, is a matter of the number of
rows (`page_eq_self_iff`).
-/
import Mathlib.Data.List.Basic

namespace SqlSelection

variable {ρ : Type}

/-- `LIMIT` and `OFFSET`.  A number that is not positive is no clause. -/
def page (limit offset : Int) (rows : List ρ) : List ρ :=
  if 0 < limit then (rows.drop offset.toNat).take limit.toNat else rows.drop offset.toNat

/-- The rows that are selected, sorted. -/
structure Selection (rows : List ρ) (selected : ρ → Bool) (precedes : ρ → ρ → Prop)
    (result : List ρ) : Prop where
  perm : result.Perm (rows.filter selected)
  sorted : result.Pairwise precedes

variable {limit offset : Int} {rows result : List ρ} {selected : ρ → Bool}
  {precedes : ρ → ρ → Prop}

theorem page_of_nonpos (hlimit : limit ≤ 0) (hoffset : offset ≤ 0) (rows : List ρ) :
    page limit offset rows = rows := by
  rw [page, if_neg (by omega), Int.toNat_of_nonpos hoffset, List.drop_zero]

theorem mem_of_mem_page {row : ρ} (h : row ∈ page limit offset rows) : row ∈ rows := by
  unfold page at h
  split at h
  · exact List.mem_of_mem_drop (List.mem_of_mem_take h)
  · exact List.mem_of_mem_drop h

theorem page_sublist (limit offset : Int) (rows : List ρ) :
    (page limit offset rows).Sublist rows := by
  unfold page
  split
  · exact (List.take_sublist _ _).trans (List.drop_sublist _ _)
  · exact List.drop_sublist _ _

/-- The page of so many rows has all of them. -/
def CutsNothing (limit offset : Int) (n : Nat) : Prop :=
  n = 0 ∨ offset ≤ 0 ∧ (limit ≤ 0 ∨ n ≤ limit)

instance (limit offset : Int) (n : Nat) : Decidable (CutsNothing limit offset n) :=
  inferInstanceAs (Decidable (_ ∨ _))

/-- **A page is all there is** if and only if it cuts nothing off. -/
theorem page_eq_self_iff :
    page limit offset rows = rows ↔ CutsNothing limit offset rows.length := by
  have hlength : page limit offset rows = rows
      ↔ (page limit offset rows).length = rows.length :=
    ⟨congrArg List.length, (page_sublist limit offset rows).eq_of_length⟩
  rw [hlength, CutsNothing]
  unfold page
  split
  · rw [List.length_take, List.length_drop]
    omega
  · rw [List.length_drop]
    omega

/-- Which rows are selected matters for the rows at hand only. -/
theorem Selection.congr {selected' : ρ → Bool} (h : Selection rows selected precedes result)
    (hsame : ∀ row ∈ rows, selected row = selected' row) :
    Selection rows selected' precedes result where
  perm := h.perm.trans (List.filter_congr hsame ▸ List.Perm.refl _)
  sorted := h.sorted

theorem Selection.mem_iff (h : Selection rows selected precedes result) {row : ρ} :
    row ∈ result ↔ row ∈ rows ∧ selected row = true := by
  rw [h.perm.mem_iff, List.mem_filter]

end SqlSelection
