/-
Instinct/SortedMaps.lean

Maps by a list of entries in the order of their keys, as a small library of its own.

Entries with distinct keys make the same map in whatever order they are set
(`foldl_set_of_perm`).
-/
import Mathlib.Data.List.Sort
import Mathlib.Order.Defs.LinearOrder

namespace SortedMaps

variable {κ ν : Type} [LinearOrder κ]

/-- Each key is below those behind it. -/
def Sorted (m : List (κ × ν)) : Prop := m.Pairwise fun e e' => e.1 < e'.1

/-- Write under a key, where it is or where it belongs. -/
def set (k : κ) (v : ν) : List (κ × ν) → List (κ × ν)
  | [] => [(k, v)]
  | e :: m =>
      if k < e.1 then (k, v) :: e :: m
      else if k = e.1 then (k, v) :: m
      else e :: set k v m

variable {k : κ} {v : ν} {m : List (κ × ν)}

theorem mem_set {e : κ × ν} (h : e ∈ set k v m) : e = (k, v) ∨ e ∈ m := by
  induction m with
  | nil => exact .inl (List.mem_singleton.mp h)
  | cons e' m ih =>
      rw [set] at h
      split at h
      · exact List.mem_cons.mp h
      · split at h
        · exact (List.mem_cons.mp h).imp_right (List.mem_cons_of_mem _)
        · rcases List.mem_cons.mp h with rfl | h
          · exact .inr List.mem_cons_self
          · exact (ih h).imp_right (List.mem_cons_of_mem _)

theorem sorted_set (h : Sorted m) : Sorted (set k v m) := by
  induction m with
  | nil => exact List.pairwise_singleton _ _
  | cons e m ih =>
      obtain ⟨hfirst, hrest⟩ := List.pairwise_cons.mp h
      rw [set]
      split
      · next hlt =>
          refine List.pairwise_cons.mpr ⟨fun e' he' => ?_, h⟩
          rcases List.mem_cons.mp he' with rfl | he'
          · exact hlt
          · exact hlt.trans (hfirst e' he')
      · next hle =>
          split
          · next heq =>
              rw [← heq] at hfirst
              exact List.pairwise_cons.mpr ⟨hfirst, hrest⟩
          · next hne =>
              refine List.pairwise_cons.mpr ⟨fun e' he' => ?_, ih hrest⟩
              rcases mem_set he' with rfl | he'
              · exact lt_of_le_of_ne (not_lt.mp hle) (Ne.symm hne)
              · exact hfirst e' he'

/-- A new key is added to the others. -/
theorem perm_set (h : k ∉ m.map Prod.fst) : (set k v m).Perm ((k, v) :: m) := by
  induction m with
  | nil => exact .refl _
  | cons e m ih =>
      obtain ⟨hne, hrest⟩ := not_or.mp (mt List.mem_cons.mpr h)
      rw [set, if_neg hne]
      split
      · exact .refl _
      · exact ((ih hrest).cons e).trans (.swap _ _ _)

theorem nodup_keys (h : Sorted m) : (m.map Prod.fst).Nodup :=
  List.pairwise_map.mpr (h.imp fun hlt => hlt.ne)

/-- New entries are added one after the other. -/
theorem foldl_set {l acc : List (κ × ν)} (hnodup : ((acc ++ l).map Prod.fst).Nodup)
    (hacc : Sorted acc) :
    Sorted (l.foldl (fun m e => set e.1 e.2 m) acc) ∧
      (l.foldl (fun m e => set e.1 e.2 m) acc).Perm (acc ++ l) := by
  induction l generalizing acc with
  | nil =>
      rw [List.append_nil]
      exact ⟨hacc, .refl _⟩
  | cons e l ih =>
      have hmove : (acc ++ e :: l).Perm (e :: acc ++ l) := List.perm_middle
      have hkeys := (hmove.map Prod.fst).nodup_iff.mp hnodup
      have hnew : e.1 ∉ acc.map Prod.fst := fun hmem => by
        obtain ⟨e', he', hkey⟩ := List.mem_map.mp hmem
        exact (List.nodup_cons.mp hkeys).1
          (List.mem_map.mpr ⟨e', List.mem_append_left _ he', hkey⟩)
      have hset : (set e.1 e.2 acc ++ l).Perm (e :: acc ++ l) := (perm_set hnew).append_right l
      obtain ⟨hsorted, hresult⟩ :=
        @ih (set e.1 e.2 acc) ((hset.map Prod.fst).nodup_iff.mpr hkeys) (sorted_set hacc)
      exact ⟨hsorted, hresult.trans (hset.trans hmove.symm)⟩

/-- **The order makes no difference.**  Entries that are set one after the other are in order
then. -/
theorem foldl_set_of_perm {l : List (κ × ν)} (hperm : l.Perm m) (hm : Sorted m) :
    l.foldl (fun m e => set e.1 e.2 m) [] = m := by
  obtain ⟨hsorted, hresult⟩ := @foldl_set _ _ _ l []
    ((hperm.map Prod.fst).nodup_iff.mpr (nodup_keys hm)) List.Pairwise.nil
  refine List.Perm.eq_of_pairwise (fun e e' _ _ hlt hgt => ?_) hsorted hm (hresult.trans hperm)
  exact absurd hgt hlt.not_gt

end SortedMaps
