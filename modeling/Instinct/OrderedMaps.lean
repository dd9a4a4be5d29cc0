/-
Instinct/OrderedMaps.lean

Maps by a list of entries with distinct keys, as a small library of its own.

The order of the entries is that of the first insertions.  `set` writes under a key,
where it is or at the end, and `insert` writes only if the key is new.
-/
import Mathlib.Data.List.Basic
import Mathlib.Data.List.Nodup
import Mathlib.Tactic.Tauto

namespace OrderedMaps

variable {κ ν : Type}

/-- Entries with distinct keys. -/
structure OrderedMap (κ ν : Type) where
  entries : List (κ × ν)
  nodup : (entries.map Prod.fst).Nodup

namespace OrderedMap

/-- The map without entries. -/
def empty : OrderedMap κ ν where
  entries := []
  nodup := List.nodup_nil

section Find

variable [DecidableEq κ]

/-- What stands under a key. -/
def find? (m : OrderedMap κ ν) (k : κ) : Option ν :=
  (m.entries.find? fun e => e.1 = k).map Prod.snd

theorem find?_eq_some_iff {m : OrderedMap κ ν} {k : κ} {v : ν} :
    m.find? k = some v ↔ (k, v) ∈ m.entries := by
  constructor
  · intro h
    obtain ⟨e, he, rfl⟩ := Option.map_eq_some_iff.mp h
    have hfound := List.find?_some he
    have hkey : e.1 = k := of_decide_eq_true hfound
    rw [← hkey]
    exact List.mem_of_find?_eq_some he
  · intro h
    obtain ⟨e, he⟩ : ∃ e, m.entries.find? (fun e => e.1 = k) = some e :=
      Option.isSome_iff_exists.mp (List.find?_isSome.mpr ⟨(k, v), h, decide_eq_true rfl⟩)
    have hfound := List.find?_some he
    have hkey : e.1 = k := of_decide_eq_true hfound
    have hsame := List.inj_on_of_nodup_map m.nodup (List.mem_of_find?_eq_some he) h hkey
    rw [find?, he, hsame]
    rfl

theorem find?_eq_none_iff {m : OrderedMap κ ν} {k : κ} :
    m.find? k = none ↔ k ∉ m.entries.map Prod.fst := by
  rw [find?, Option.map_eq_none_iff, List.find?_eq_none, List.mem_map]
  constructor
  · rintro h ⟨e, he, rfl⟩
    exact h e he (decide_eq_true rfl)
  · intro h e he hkey
    exact h ⟨e, he, of_decide_eq_true hkey⟩

@[simp] theorem find?_empty (k : κ) : (empty : OrderedMap κ ν).find? k = none := rfl

/-- `map[k] = v`. -/
def set (m : OrderedMap κ ν) (k : κ) (v : ν) : OrderedMap κ ν where
  entries :=
    if k ∈ m.entries.map Prod.fst then m.entries.map fun e => if e.1 = k then (k, v) else e
    else m.entries ++ [(k, v)]
  nodup := by
    split
    · have hkeys : (m.entries.map fun e => if e.1 = k then (k, v) else e).map Prod.fst
          = m.entries.map Prod.fst := by
        rw [List.map_map]
        refine List.map_congr_left fun e _ => ?_
        show (if e.1 = k then (k, v) else e).1 = e.1
        split
        · next h => exact h.symm
        · rfl
      rw [hkeys]
      exact m.nodup
    · next h =>
        rw [List.map_append, List.map_singleton, List.nodup_append]
        refine ⟨m.nodup, List.nodup_singleton k, fun a ha b hb => ?_⟩
        rw [List.mem_singleton.mp hb]
        rintro rfl
        exact h ha

/-- `map.insert({k, v})`. -/
def insert (m : OrderedMap κ ν) (k : κ) (v : ν) : OrderedMap κ ν :=
  if k ∈ m.entries.map Prod.fst then m else m.set k v

theorem mem_entries_set {m : OrderedMap κ ν} {k : κ} {v : ν} {e : κ × ν} :
    e ∈ (m.set k v).entries ↔ e = (k, v) ∨ (e ∈ m.entries ∧ e.1 ≠ k) := by
  have hentries : (m.set k v).entries = if k ∈ m.entries.map Prod.fst then
      m.entries.map fun e => if e.1 = k then (k, v) else e
    else m.entries ++ [(k, v)] := rfl
  rw [hentries]
  by_cases hk : k ∈ m.entries.map Prod.fst
  · obtain ⟨e₀, he₀, hkey⟩ := List.mem_map.mp hk
    rw [if_pos hk, List.mem_map]
    constructor
    · rintro ⟨e', he', rfl⟩
      split
      · exact .inl rfl
      · next h => exact .inr ⟨he', h⟩
    · rintro (rfl | ⟨he, hne⟩)
      · exact ⟨e₀, he₀, if_pos hkey⟩
      · exact ⟨e, he, if_neg hne⟩
  · rw [if_neg hk, List.mem_append, List.mem_singleton]
    constructor
    · rintro (he | rfl)
      · exact .inr ⟨he, fun hkey => hk (hkey ▸ List.mem_map_of_mem he)⟩
      · exact .inl rfl
    · rintro (rfl | ⟨he, -⟩)
      · exact .inr rfl
      · exact .inl he

@[simp] theorem find?_set_self (m : OrderedMap κ ν) (k : κ) (v : ν) :
    (m.set k v).find? k = some v :=
  find?_eq_some_iff.mpr (mem_entries_set.mpr (.inl rfl))

@[simp] theorem find?_set_of_ne (m : OrderedMap κ ν) {k k' : κ} (v : ν) (h : k' ≠ k) :
    (m.set k v).find? k' = m.find? k' := by
  refine Option.ext fun v' => ?_
  rw [find?_eq_some_iff, find?_eq_some_iff, mem_entries_set]
  constructor
  · rintro (heq | ⟨he, -⟩)
    · exact absurd (congrArg Prod.fst heq) h
    · exact he
  · exact fun he => .inr ⟨he, h⟩

theorem entries_insert_of_fresh {m : OrderedMap κ ν} {k : κ} {v : ν}
    (h : k ∉ m.entries.map Prod.fst) : (m.insert k v).entries = m.entries ++ [(k, v)] := by
  rw [insert, if_neg h, set]
  exact if_neg h

theorem mem_keys_set {m : OrderedMap κ ν} {k k' : κ} {v : ν} :
    k' ∈ (m.set k v).entries.map Prod.fst ↔ k' = k ∨ k' ∈ m.entries.map Prod.fst := by
  constructor
  · intro h
    obtain ⟨e, he, rfl⟩ := List.mem_map.mp h
    rcases mem_entries_set.mp he with rfl | ⟨he, -⟩
    · exact .inl rfl
    · exact .inr (List.mem_map_of_mem he)
  · intro h
    by_cases hk : k' = k
    · exact List.mem_map.mpr ⟨(k, v), mem_entries_set.mpr (.inl rfl), hk.symm⟩
    · obtain ⟨e, he, rfl⟩ := List.mem_map.mp (h.resolve_left hk)
      exact List.mem_map_of_mem (mem_entries_set.mpr (.inr ⟨he, hk⟩))

theorem mem_keys_insert {m : OrderedMap κ ν} {k k' : κ} {v : ν} :
    k' ∈ (m.insert k v).entries.map Prod.fst ↔ k' = k ∨ k' ∈ m.entries.map Prod.fst := by
  rw [insert]
  split
  · next hk => exact ⟨.inr, fun h => h.elim (fun heq => heq ▸ hk) id⟩
  · exact mem_keys_set

theorem find?_insert_of_ne (m : OrderedMap κ ν) {k k' : κ} (v : ν) (h : k' ≠ k) :
    (m.insert k v).find? k' = m.find? k' := by
  rw [insert]
  split
  · rfl
  · exact find?_set_of_ne m v h

/-- Entries with distinct keys that are set one after the other. -/
theorem find?_foldl_set {l : List (κ × ν)} (hl : (l.map Prod.fst).Nodup) {m : OrderedMap κ ν}
    {k : κ} {v : ν} :
    (l.foldl (fun m e => m.set e.1 e.2) m).find? k = some v ↔
      (k, v) ∈ l ∨ k ∉ l.map Prod.fst ∧ m.find? k = some v := by
  induction l generalizing m with
  | nil => simp
  | cons e l ih =>
      obtain ⟨hnew, hl⟩ := List.nodup_cons.mp hl
      rw [List.foldl_cons, ih hl, List.mem_cons, List.map_cons, List.mem_cons]
      by_cases hk : k = e.1
      · subst hk
        rw [find?_set_self]
        have hnot : (e.1, v) ∉ l := fun h =>
          hnew (List.mem_map.mpr ⟨(e.1, v), h, rfl⟩)
        constructor
        · rintro (h | ⟨-, h⟩)
          · exact absurd h hnot
          · exact .inl (.inl (by rw [← Option.some.inj h]))
        · rintro ((h | h) | ⟨h, -⟩)
          · exact .inr ⟨hnew, congrArg (fun p => some p.2) h.symm⟩
          · exact absurd h hnot
          · exact absurd (.inl rfl) h
      · have hne : (k, v) ≠ e := fun h => hk (congrArg Prod.fst h)
        rw [find?_set_of_ne m e.2 hk, not_or]
        tauto

/-- Entries with new and distinct keys come behind the others. -/
theorem entries_foldl_set {l : List (κ × ν)} {m : OrderedMap κ ν}
    (h : ((m.entries ++ l).map Prod.fst).Nodup) :
    (l.foldl (fun m e => m.set e.1 e.2) m).entries = m.entries ++ l := by
  induction l generalizing m with
  | nil => exact (List.append_nil _).symm
  | cons e l ih =>
      have hfresh : e.1 ∉ m.entries.map Prod.fst := by
        rw [List.map_append, List.map_cons, List.nodup_append] at h
        exact fun hmem => h.2.2 e.1 hmem e.1 List.mem_cons_self rfl
      have hset : (m.set e.1 e.2).entries = m.entries ++ [e] := if_neg hfresh
      rw [List.foldl_cons, ih (by rwa [hset, List.append_assoc]), hset, List.append_assoc]
      rfl

theorem find?_insert (m : OrderedMap κ ν) (k k' : κ) (v : ν) :
    (m.insert k v).find? k' = (m.find? k').or (if k = k' then some v else none) := by
  by_cases hk : k = k'
  · subst hk
    rw [insert, if_pos rfl]
    split
    · next hmem =>
        obtain ⟨e, he, rfl⟩ := List.mem_map.mp hmem
        rw [find?_eq_some_iff.mpr (show (e.1, e.2) ∈ m.entries from he)]
        rfl
    · next hnot =>
        have hnone : m.find? k = none := find?_eq_none_iff.mpr hnot
        rw [find?_set_self, hnone]
        rfl
  · rw [find?_insert_of_ne m v (Ne.symm hk), if_neg hk, Option.or_none]

/-- Entries that are inserted one after the other: the first with a key stays. -/
theorem find?_foldl_insert (l : List (κ × ν)) (m : OrderedMap κ ν) (k : κ) :
    (l.foldl (fun m e => m.insert e.1 e.2) m).find? k
      = (m.find? k).or ((l.find? fun e => e.1 = k).map Prod.snd) := by
  induction l generalizing m with
  | nil => rw [List.foldl_nil, List.find?_nil, Option.map_none, Option.or_none]
  | cons e l ih =>
      rw [List.foldl_cons, ih, find?_insert, List.find?_cons, Option.or_assoc]
      by_cases hk : e.1 = k
      · simp [hk]
      · simp [hk]

end Find

end OrderedMap

end OrderedMaps
