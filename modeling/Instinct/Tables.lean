/-
Instinct/Tables.lean

Tables of rows with a primary key, as a small library of its own.

A `Table key Valid` carries the proofs that no two of its rows share a key and
that every row is valid, so that no operation has to check either again.  The
operations are those of a data manipulation language: `insert` refuses a key
that is taken, `update` rewrites the rows that satisfy a condition and keeps
their keys, `delete` takes rows away, `find?` selects one row.
-/
import Mathlib.Data.List.Nodup
import Mathlib.Data.List.Perm.Subperm

namespace Tables

variable {α κ : Type}

/-- Rows with distinct keys, all of them valid. -/
@[ext]
structure Table (key : α → κ) (Valid : α → Prop) where
  rows : List α
  nodup : (rows.map key).Nodup
  valid : ∀ r ∈ rows, Valid r

namespace Table

variable {key : α → κ} {Valid : α → Prop}

/-- The table without rows. -/
def empty : Table key Valid where
  rows := []
  nodup := List.nodup_nil
  valid := by simp

@[simp] theorem rows_empty : (empty : Table key Valid).rows = [] := rfl

/-- The first row that satisfies `p`. -/
def find? (t : Table key Valid) (p : α → Bool) : Option α := t.rows.find? p

/-- How many rows satisfy `p`. -/
def count (t : Table key Valid) (p : α → Bool) : Nat := (t.rows.filter p).length

section Insert

variable [DecidableEq κ]

/-- Add a row at the end, unless its key is taken. -/
def insert (t : Table key Valid) (r : α) (hr : Valid r) : Option (Table key Valid) :=
  if h : key r ∈ t.rows.map key then none
  else some
    { rows := t.rows ++ [r]
      nodup := by
        rw [List.map_append, List.nodup_append]
        refine ⟨t.nodup, List.nodup_singleton _, fun a ha b hb => ?_⟩
        rintro rfl
        exact h (by simpa [List.mem_singleton.mp hb] using ha)
      valid := fun a ha => by
        rcases List.mem_append.mp ha with hold | hnew
        · exact t.valid a hold
        · exact List.mem_singleton.mp hnew ▸ hr }

theorem rows_insert {t t' : Table key Valid} {r : α} {hr : Valid r}
    (h : t.insert r hr = some t') : t'.rows = t.rows ++ [r] := by
  unfold insert at h
  split at h
  · simp at h
  · rw [← Option.some.inj h]

theorem insert_isSome {t : Table key Valid} {r : α} {hr : Valid r}
    (h : key r ∉ t.rows.map key) : ∃ t', t.insert r hr = some t' :=
  ⟨_, dif_neg h⟩

theorem taken_of_insert {t : Table key Valid} {r : α} {hr : Valid r} (h : t.insert r hr = none) :
    key r ∈ t.rows.map key := by
  by_contra hfresh
  obtain ⟨t', ht⟩ : ∃ t', t.insert r hr = some t' := insert_isSome hfresh
  rw [h] at ht
  cases ht

theorem fresh_of_insert {t t' : Table key Valid} {r : α} {hr : Valid r}
    (h : t.insert r hr = some t') : key r ∉ t.rows.map key := by
  unfold insert at h
  split at h
  · simp at h
  · assumption

end Insert

/-- Rewrite the rows that satisfy `p`. -/
def update (t : Table key Valid) (p : α → Bool) (f : α → α) (hkey : ∀ r, key (f r) = key r)
    (hvalid : ∀ r, Valid r → Valid (f r)) : Table key Valid where
  rows := t.rows.map fun r => if p r then f r else r
  nodup := by
    have h : (t.rows.map fun r => if p r then f r else r).map key = t.rows.map key := by
      rw [List.map_map]
      refine List.map_congr_left fun r _ => ?_
      show key (if p r then f r else r) = key r
      split
      · exact hkey r
      · rfl
    exact h ▸ t.nodup
  valid := fun a ha => by
    obtain ⟨r, hr, rfl⟩ := List.mem_map.mp ha
    split
    · exact hvalid r (t.valid r hr)
    · exact t.valid r hr

section Update

variable (t : Table key Valid) (p : α → Bool) (f : α → α) (hkey : ∀ r, key (f r) = key r)
  (hvalid : ∀ r, Valid r → Valid (f r))

@[simp] theorem rows_update :
    (t.update p f hkey hvalid).rows = t.rows.map fun r => if p r then f r else r := rfl

/-- Selecting by a condition that the update leaves as it is. -/
theorem find?_update {q : α → Bool} (hq : ∀ r, q (f r) = q r) :
    (t.update p f hkey hvalid).find? q = (t.find? q).map fun r => if p r then f r else r := by
  have hfun : (q ∘ fun r => if p r then f r else r) = q := by
    funext r
    show q (if p r then f r else r) = q r
    split
    · exact hq r
    · rfl
  rw [find?, find?, rows_update, List.find?_map, hfun]

/-- The row that is met is rewritten. -/
theorem find?_update_self (hq : ∀ r, p (f r) = p r) :
    (t.update p f hkey hvalid).find? p = (t.find? p).map f := by
  rw [find?_update t p f hkey hvalid hq]
  cases hfind : t.find? p with
  | none => rfl
  | some r => exact congrArg some (if_pos (List.find?_some hfind))

/-- Other rows are found as before. -/
theorem find?_update_other {q : α → Bool} (hq : ∀ r, q (f r) = q r)
    (hother : ∀ r, q r = true → p r = false) :
    (t.update p f hkey hvalid).find? q = t.find? q := by
  rw [find?_update t p f hkey hvalid hq]
  cases hfind : t.find? q with
  | none => rfl
  | some r =>
      have hp := hother r (List.find?_some hfind)
      rw [Option.map_some, if_neg (by rw [hp]; exact Bool.false_ne_true)]

/-- Other rows are selected as before. -/
theorem filter_update_other {q : α → Bool} (hq : ∀ r, q (f r) = q r)
    (hother : ∀ r, q r = true → p r = false) :
    (t.update p f hkey hvalid).rows.filter q = t.rows.filter q := by
  have hfun : (q ∘ fun r => if p r then f r else r) = q := by
    funext r
    show q (if p r then f r else r) = q r
    split
    · exact hq r
    · rfl
  have hid : ∀ r ∈ t.rows.filter q, (if p r then f r else r) = r := fun r hr =>
    if_neg (by rw [hother r (List.mem_filter.mp hr).2]; exact Bool.false_ne_true)
  rw [rows_update, List.filter_map, hfun, List.map_congr_left hid, List.map_id']

/-- An update that meets no row changes nothing. -/
theorem update_of_none (h : t.find? p = none) : t.update p f hkey hvalid = t := by
  have hid : ∀ r ∈ t.rows, (if p r then f r else r) = r := fun r hr =>
    if_neg (List.find?_eq_none.mp h r hr)
  ext1
  rw [rows_update, List.map_congr_left hid, List.map_id']

end Update

/-- Delete the rows that satisfy `p`. -/
def delete (t : Table key Valid) (p : α → Bool) : Table key Valid where
  rows := t.rows.filter fun r => !p r
  nodup := (List.filter_sublist.map key).nodup t.nodup
  valid := fun r hr => t.valid r (List.mem_of_mem_filter hr)

@[simp] theorem rows_delete (t : Table key Valid) (p : α → Bool) :
    (t.delete p).rows = t.rows.filter fun r => !p r := rfl

/-- Rows that are not deleted are selected as before. -/
theorem filter_delete_other (t : Table key Valid) {p q : α → Bool}
    (hother : ∀ r, q r = true → p r = false) :
    (t.delete p).rows.filter q = t.rows.filter q := by
  rw [rows_delete, List.filter_filter]
  refine List.filter_congr fun r _ => ?_
  cases hq : q r with
  | false => rfl
  | true => rw [hother r hq]; rfl

/-- The row of a key is selected by any condition that it satisfies and that fixes the key. -/
theorem find?_eq_some_of_mem {t : Table key Valid} {p : α → Bool} {a : α} (ha : a ∈ t.rows)
    (hp : p a = true) (hfix : ∀ r, p r = true → key r = key a) : t.find? p = some a := by
  obtain ⟨b, hb⟩ := Option.isSome_iff_exists.mp (List.find?_isSome.mpr ⟨a, ha, hp⟩)
  have hba : b = a := List.inj_on_of_nodup_map t.nodup (List.mem_of_find?_eq_some hb) ha
    (hfix b (List.find?_some hb))
  rw [find?, hb, hba]

section Count

variable {t : Table key Valid} {p : α → Bool}

theorem count_of_find?_none (h : t.find? p = none) : t.count p = 0 := by
  rw [count, List.filter_eq_nil_iff.mpr (List.find?_eq_none.mp h)]
  rfl

/-- A condition that fixes the key is met by one row at most. -/
theorem count_of_find?_some {a : α} (h : t.find? p = some a)
    (hfix : ∀ r, p r = true → key r = key a) : t.count p = 1 := by
  have hmem : a ∈ t.rows.filter p :=
    List.mem_filter.mpr ⟨List.mem_of_find?_eq_some h, List.find?_some h⟩
  have hsub : t.rows.filter p ⊆ [a] := by
    intro b hb
    obtain ⟨hb, hpb⟩ := List.mem_filter.mp hb
    exact List.mem_singleton.mpr
      (List.inj_on_of_nodup_map t.nodup hb (List.mem_of_mem_filter hmem) (hfix b hpb))
  have hnodup : (t.rows.filter p).Nodup := (List.Nodup.of_map key t.nodup).filter p
  exact Nat.le_antisymm (hnodup.subperm hsub).length_le (List.length_pos_of_mem hmem)

end Count

end Table

end Tables
