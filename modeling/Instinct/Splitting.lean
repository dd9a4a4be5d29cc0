/-
Instinct/Splitting.lean

A text split at the occurrences of a separator, as a small library of its own.

`cut` finds the first occurrence, and `fields` are the texts between the
occurrences, which do not overlap and are found from left to right.  Put together
again with the separator between them the fields are the text
(`flatten_withSeparators`).

A search often splits into a bounded number of places and leaves the rest of the
text in the last one; `splitInto` is such a split, which may keep the separators
as parts of their own, and `splitRounds` splits the rest again until it is used up.
All fields come out (`splitRounds_keep`, `splitRounds_drop`), except that an empty
one behind the last separator is lost where the rounds are through before it.
-/
import Mathlib.Data.List.Basic
import Mathlib.Data.List.Infix

namespace Splitting

variable {α : Type} [DecidableEq α]

/-! ### The first occurrence -/

/-- The text before and the text behind the first occurrence of the separator. -/
def cut (sep : List α) : List α → Option (List α × List α)
  | [] => none
  | a :: as =>
      if sep.isPrefixOf (a :: as) then some ([], (a :: as).drop sep.length)
      else (cut sep as).map fun halves => (a :: halves.1, halves.2)

section Cut

variable {sep text before after : List α}

theorem append_of_cut (h : cut sep text = some (before, after)) :
    text = before ++ (sep ++ after) := by
  induction text generalizing before with
  | nil => cases h
  | cons a as ih =>
      rw [cut] at h
      split at h
      · rename_i hstart
        obtain ⟨rfl, rfl⟩ := Prod.mk.inj (Option.some.inj h)
        obtain ⟨back, hback⟩ := List.isPrefixOf_iff_prefix.mp hstart
        rw [← hback, List.drop_left, List.nil_append]
      · obtain ⟨⟨front, back⟩, hcut, heq⟩ := Option.map_eq_some_iff.mp h
        obtain ⟨rfl, rfl⟩ := Prod.mk.inj heq
        rw [ih hcut]
        rfl

theorem length_after_lt (hsep : sep ≠ []) (h : cut sep text = some (before, after)) :
    after.length < text.length := by
  have hpos := List.length_pos_iff.mpr hsep
  rw [append_of_cut h, List.length_append, List.length_append]
  omega

/-- More text behind does not change where the first occurrence is. -/
theorem cut_append (h : cut sep text = some (before, after)) (more : List α) :
    cut sep (text ++ more) = some (before, after ++ more) := by
  induction text generalizing before with
  | nil => cases h
  | cons a as ih =>
      rw [cut] at h
      rw [List.cons_append, cut]
      split at h
      · rename_i hfits
        have hfront := List.isPrefixOf_iff_prefix.mp hfits
        obtain ⟨rfl, rfl⟩ := Prod.mk.inj (Option.some.inj h)
        have hmore : sep.isPrefixOf (a :: (as ++ more)) = true :=
          List.isPrefixOf_iff_prefix.mpr (hfront.trans (List.prefix_append (a :: as) more))
        rw [if_pos hmore, ← List.cons_append, List.drop_append_of_le_length hfront.length_le]
      · rename_i hstart
        obtain ⟨⟨front, back⟩, hcut, heq⟩ := Option.map_eq_some_iff.mp h
        obtain ⟨rfl, rfl⟩ := Prod.mk.inj heq
        have hlong : sep.length ≤ (a :: as).length := by
          rw [append_of_cut hcut, List.length_cons, List.length_append, List.length_append]
          omega
        have hmore : ¬ sep.isPrefixOf (a :: (as ++ more)) = true := by
          intro hfound
          apply hstart
          rw [List.isPrefixOf_iff_prefix] at hfound ⊢
          exact List.prefix_of_prefix_length_le hfound
            (List.prefix_append (a :: as) more) hlong
        rw [if_neg hmore, ih hcut]
        rfl

/-- The first letter of its kind. -/
theorem cut_singleton {c : α} {front : List α} (hc : c ∉ front) (back : List α) :
    cut [c] (front ++ c :: back) = some (front, back) := by
  induction front with
  | nil => rw [List.nil_append, cut, if_pos (by simp [List.isPrefixOf])]; rfl
  | cons a as ih =>
      obtain ⟨hne, hrest⟩ := not_or.mp (mt List.mem_cons.mpr hc)
      rw [List.cons_append, cut, if_neg (by simpa [List.isPrefixOf] using hne), ih hrest]
      rfl

/-- The text begins with the separator. -/
theorem cut_self_append (hsep : sep ≠ []) (rest : List α) :
    cut sep (sep ++ rest) = some ([], rest) := by
  obtain ⟨a, as, rfl⟩ := List.exists_cons_of_ne_nil hsep
  have hstart : (a :: as).isPrefixOf (a :: (as ++ rest)) = true :=
    List.isPrefixOf_iff_prefix.mpr (List.prefix_append (a :: as) rest)
  rw [List.cons_append, cut, if_pos hstart, ← List.cons_append, List.drop_left]

theorem cut_eq_none_iff (hsep : sep ≠ []) : cut sep text = none ↔ ¬ sep <:+: text := by
  induction text with
  | nil => exact ⟨fun _ h => hsep (List.infix_nil.mp h), fun _ => rfl⟩
  | cons a as ih =>
      rw [cut, List.infix_cons_iff, ← List.isPrefixOf_iff_prefix]
      split
      · rename_i hstart
        exact ⟨nofun, fun h => absurd (.inl hstart) h⟩
      · rename_i hstart
        rw [Option.map_eq_none_iff, ih]
        exact ⟨fun h => not_or.mpr ⟨hstart, h⟩, fun h => (not_or.mp h).2⟩

/-- No separator is in front of the first one. -/
theorem not_infix_before (hsep : sep ≠ []) (h : cut sep text = some (before, after)) :
    ¬ sep <:+: before := by
  rw [← cut_eq_none_iff hsep]
  rcases hcut : cut sep before with - | ⟨front, back⟩
  · rfl
  · exfalso
    have hmore := cut_append hcut (sep ++ after)
    rw [← append_of_cut h, h] at hmore
    have hlength := congrArg List.length (append_of_cut hcut)
    have hpos := List.length_pos_iff.mpr hsep
    obtain ⟨rfl, -⟩ := Prod.mk.inj (Option.some.inj hmore)
    rw [List.length_append, List.length_append] at hlength
    omega

/-- Behind a letter that the separator does not hold, the search goes on as from the start. -/
theorem cut_append_cons {c : α} (hc : c ∉ sep) {front : List α} (h : cut sep front = none)
    (hsep : sep ≠ []) (rest : List α) :
    cut sep (front ++ c :: rest)
      = (cut sep rest).map fun halves => (front ++ c :: halves.1, halves.2) := by
  induction front with
  | nil =>
      have hstart : ¬ sep.isPrefixOf (c :: rest) = true := by
        intro hfits
        obtain ⟨a, as, rfl⟩ := List.exists_cons_of_ne_nil hsep
        obtain ⟨rfl, -⟩ := List.cons_prefix_cons.mp (List.isPrefixOf_iff_prefix.mp hfits)
        exact hc List.mem_cons_self
      rw [List.nil_append, cut, if_neg hstart]
      rfl
  | cons a as ih =>
      have hnone := (cut_eq_none_iff hsep).mp h
      rw [List.infix_cons_iff, not_or] at hnone
      have hstart : ¬ sep.isPrefixOf (a :: (as ++ c :: rest)) = true := by
        intro hfits
        have hprefix := List.isPrefixOf_iff_prefix.mp hfits
        rw [← List.cons_append] at hprefix
        rcases List.prefix_or_prefix_of_prefix hprefix (List.prefix_append (a :: as) _)
          with hshort | ⟨back, rfl⟩
        · exact hnone.1 hshort
        · rw [List.prefix_append_right_inj] at hprefix
          rcases List.prefix_cons_iff.mp hprefix with rfl | ⟨t, rfl, -⟩
          · exact hnone.1 (by rw [List.append_nil])
          · exact hc (List.mem_append_right _ List.mem_cons_self)
      rw [List.cons_append, cut, if_neg hstart, ih ((cut_eq_none_iff hsep).mpr hnone.2),
        Option.map_map]
      rfl

end Cut

/-! ### Fields -/

/-- The fields of the text; there are `fuel` of them at most. -/
def fieldsUpTo (sep : List α) : Nat → List α → List (List α)
  | 0, text => [text]
  | fuel + 1, text =>
      match cut sep text with
      | none => [text]
      | some (before, after) => before :: fieldsUpTo sep fuel after

/-- The texts between the occurrences of the separator. -/
def fields (sep text : List α) : List (List α) := fieldsUpTo sep text.length text

section Fields

variable {sep text before after : List α}

/-- With enough fuel, its amount does not matter. -/
theorem fieldsUpTo_eq (hsep : sep ≠ []) {fuel : Nat} (hfuel : text.length ≤ fuel) :
    fieldsUpTo sep fuel text = fields sep text := by
  induction hn : text.length using Nat.strongRecOn generalizing text fuel with
  | ind n ih =>
      cases fuel with
      | zero =>
          obtain rfl := List.length_eq_zero_iff.mp (Nat.le_zero.mp hfuel)
          rfl
      | succ fuel =>
          rw [fields]
          rcases hcut : cut sep text with - | ⟨before, after⟩
          · cases hlength : text.length with
            | zero => simp only [fieldsUpTo, hcut]
            | succ m => simp only [fieldsUpTo, hcut]
          · have hlt := length_after_lt hsep hcut
            obtain ⟨m, hm⟩ := Nat.exists_eq_add_of_lt hlt
            rw [hm, fieldsUpTo, hcut, fieldsUpTo, hcut]
            simp only
            rw [ih _ (hn ▸ hlt) (by omega) rfl, ih _ (hn ▸ hlt) (by omega) rfl]

theorem fields_of_none (h : cut sep text = none) : fields sep text = [text] := by
  rw [fields]
  cases text.length with
  | zero => rfl
  | succ n => rw [fieldsUpTo, h]

theorem fields_of_some (hsep : sep ≠ []) (h : cut sep text = some (before, after)) :
    fields sep text = before :: fields sep after := by
  have hlt := length_after_lt hsep h
  obtain ⟨m, hm⟩ := Nat.exists_eq_add_of_lt hlt
  rw [fields, hm, fieldsUpTo, h]
  exact congrArg (before :: ·) (fieldsUpTo_eq hsep (by omega))

theorem fields_nil (sep : List α) : fields sep [] = [[]] := rfl

/-- The fields by what `cut` finds. -/
theorem fields_induction (hsep : sep ≠ []) {P : List α → List (List α) → Prop}
    (hnone : ∀ text, cut sep text = none → P text [text])
    (hsome : ∀ text before after, cut sep text = some (before, after) →
      P after (fields sep after) → P text (before :: fields sep after)) (text : List α) :
    P text (fields sep text) := by
  induction hn : text.length using Nat.strongRecOn generalizing text with
  | ind n ih =>
      rcases hcut : cut sep text with - | ⟨before, after⟩
      · rw [fields_of_none hcut]
        exact hnone text hcut
      · rw [fields_of_some hsep hcut]
        exact hsome text before after hcut (ih _ (hn ▸ length_after_lt hsep hcut) after rfl)

theorem fields_ne_nil (sep text : List α) : fields sep text ≠ [] := by
  rw [fields]
  cases text.length with
  | zero => nofun
  | succ n =>
      rw [fieldsUpTo]
      split
      · nofun
      · nofun

/-- The fields with a separator before each but the first. -/
def withSeparators (sep : List α) : List (List α) → List (List α)
  | [] => []
  | field :: rest => field :: rest.map (sep ++ ·)

/-- **The fields make up the text.** -/
theorem flatten_withSeparators (hsep : sep ≠ []) (text : List α) :
    (withSeparators sep (fields sep text)).flatten = text := by
  refine fields_induction (P := fun text fields => (withSeparators sep fields).flatten = text)
    hsep (fun text _ => List.append_nil text) (fun text before after hcut ih => ?_) text
  obtain ⟨field, rest, hfields⟩ := List.exists_cons_of_ne_nil (fields_ne_nil sep after)
  rw [hfields, withSeparators, List.flatten_cons] at ih
  rw [append_of_cut hcut, hfields, withSeparators, List.map_cons, List.flatten_cons,
    List.flatten_cons, List.append_assoc, ih]

omit [DecidableEq α] in
theorem getLastD_append {front back : List (List α)} (hback : back ≠ []) :
    (front ++ back).getLastD [] = back.getLastD [] := by
  rw [List.getLastD_eq_getLast?, List.getLast?_append_of_ne_nil front hback,
    ← List.getLastD_eq_getLast?]

/-- The last field is one without a separator. -/
theorem cut_getLastD_fields (hsep : sep ≠ []) (text : List α) :
    cut sep ((fields sep text).getLastD []) = none := by
  refine fields_induction (P := fun _ fields => cut sep (fields.getLastD []) = none) hsep
    (fun text h => h) (fun text before after hcut ih => ?_) text
  obtain ⟨field, rest, hfields⟩ := List.exists_cons_of_ne_nil (fields_ne_nil sep after)
  rw [hfields] at ih ⊢
  exact ih

/-- **More text behind only changes the last field**: it is split with that text behind it. -/
theorem fields_append (hsep : sep ≠ []) (text more : List α) :
    fields sep (text ++ more)
      = (fields sep text).dropLast ++ fields sep ((fields sep text).getLastD [] ++ more) := by
  refine fields_induction (P := fun text split => fields sep (text ++ more)
      = split.dropLast ++ fields sep (split.getLastD [] ++ more)) hsep
    (fun text _ => rfl) (fun text before after hcut ih => ?_) text
  obtain ⟨field, rest, hfields⟩ := List.exists_cons_of_ne_nil (fields_ne_nil sep after)
  rw [fields_of_some hsep (cut_append hcut more), ih, hfields]
  rfl

/-- The text ends with a separator that was cut off. -/
def EndsCut (sep text : List α) : Prop :=
  1 < (fields sep text).length ∧ (fields sep text).getLast? = some []

instance : Decidable (EndsCut sep text) := inferInstanceAs (Decidable (_ ∧ _))

end Fields

/-! ### Splits into a bounded number of parts -/

/-- The fields with the separators between them. -/
def interleave (sep : List α) : List (List α) → List (List α)
  | [] => []
  | [field] => [field]
  | field :: rest => field :: sep :: interleave sep rest

/-- Split into parts for which there are some slots.  The last slot takes whatever is left;
with `keep` a separator takes a slot, if it is not the last one. -/
def splitInto (keep : Bool) (sep : List α) : Nat → List α → List (List α)
  | 0, _ => []
  | 1, text => [text]
  | 2, text =>
      match cut sep text with
      | none => [text]
      | some (before, after) => [before, after]
  | slots + 3, text =>
      match cut sep text with
      | none => [text]
      | some (before, after) =>
          if keep then
            before :: sep :: (if after = [] then [[]] else splitInto keep sep (slots + 1) after)
          else before :: (if after = [] then [[]] else splitInto keep sep (slots + 2) after)

/-- Split again and again what the last slot took, as long as all slots are filled. -/
def splitRounds (keep : Bool) (sep : List α) (slots : Nat) : Nat → List α → List (List α)
  | 0, _ => []
  | fuel + 1, text =>
      let parts := if text = [] then [] else splitInto keep sep slots text
      if parts.length = slots then
        parts.dropLast ++ splitRounds keep sep slots fuel (parts.getLastD [])
      else parts

section Splits

variable {sep text before after : List α}

/-- The text behind some occurrences of the separator. -/
def restAfter (sep : List α) : Nat → List α → List α
  | 0, text => text
  | n + 1, text =>
      match cut sep text with
      | none => []
      | some (_, after) => restAfter sep n after

theorem fields_restAfter (hsep : sep ≠ []) {n : Nat} (h : n < (fields sep text).length) :
    fields sep (restAfter sep n text) = (fields sep text).drop n := by
  induction n generalizing text with
  | zero => rfl
  | succ n ih =>
      rw [restAfter]
      rcases hcut : cut sep text with - | ⟨before, after⟩
      · rw [fields_of_none hcut] at h
        simp at h
      · rw [fields_of_some hsep hcut] at h ⊢
        rw [List.drop_succ_cons, ih (Nat.lt_of_succ_lt_succ h)]

theorem length_restAfter_lt (hsep : sep ≠ []) {n : Nat} (h : n + 1 < (fields sep text).length) :
    (restAfter sep (n + 1) text).length < text.length := by
  have hle : ∀ n text, (restAfter sep n text).length ≤ text.length := by
    intro n
    induction n with
    | zero => exact fun text => Nat.le_refl _
    | succ n ih =>
        intro text
        rw [restAfter]
        rcases hcut : cut sep text with - | ⟨before, after⟩
        · exact Nat.zero_le _
        · exact (ih after).trans (length_after_lt hsep hcut).le
  rw [restAfter]
  rcases hcut : cut sep text with - | ⟨before, after⟩
  · rw [fields_of_none hcut] at h
    simp at h
  · exact (hle n after).trans_lt (length_after_lt hsep hcut)

/-- Each field with the separator behind it. -/
def spread (sep : List α) (fields : List (List α)) : List (List α) :=
  fields.flatMap fun field => [field, sep]

omit [DecidableEq α] in
theorem length_spread (sep : List α) (fields : List (List α)) :
    (spread sep fields).length = 2 * fields.length := by
  induction fields with
  | nil => rfl
  | cons field fields ih =>
      rw [spread, List.flatMap_cons, List.length_append, ← spread, ih]
      simp only [List.length_cons, List.length_nil]
      omega

omit [DecidableEq α] in
theorem interleave_append {front back : List (List α)} (hback : back ≠ []) :
    interleave sep (front ++ back) = spread sep front ++ interleave sep back := by
  induction front with
  | nil => rfl
  | cons field front ih =>
      obtain ⟨next, rest, hrest⟩ : ∃ next rest, front ++ back = next :: rest :=
        List.exists_cons_of_ne_nil (by simp [hback])
      rw [List.cons_append, hrest, interleave, ← hrest, ih]
      · rfl
      · nofun

omit [DecidableEq α] in
theorem length_interleave {fields : List (List α)} (h : fields ≠ []) :
    (interleave sep fields).length + 1 = 2 * fields.length := by
  obtain ⟨front, last, rfl⟩ := List.eq_nil_or_concat fields |>.resolve_left h
  rw [List.concat_eq_append, interleave_append (by nofun), List.length_append, length_spread,
    List.length_append]
  simp only [interleave, List.length_cons, List.length_nil]
  omega

omit [DecidableEq α] in
/-- Behind the first field they come in pairs. -/
theorem interleave_cons (sep field : List α) (rest : List (List α)) :
    interleave sep (field :: rest) = field :: rest.flatMap fun next => [sep, next] := by
  induction rest generalizing field with
  | nil => rfl
  | cons next rest ih =>
      rw [interleave, ih]
      · rfl
      · nofun

omit [DecidableEq α] in
theorem spread_cons (sep field : List α) (rest : List (List α)) :
    spread sep (field :: rest) = field :: ((rest.flatMap fun next => [sep, next]) ++ [sep]) := by
  induction rest generalizing field with
  | nil => rfl
  | cons next rest ih =>
      rw [spread, List.flatMap_cons, ← spread, ih]
      rfl

theorem splitInto_nil (keep : Bool) (slots : Nat) :
    splitInto keep sep (slots + 1) [] = [[]] := by
  rcases slots with - | - | slots
  · rfl
  · rfl
  · rfl

/-- Behind the last separator there is an empty field. -/
theorem ite_splitInto (keep : Bool) (slots : Nat) (text : List α) :
    (if text = [] then [[]] else splitInto keep sep (slots + 1) text)
      = splitInto keep sep (slots + 1) text := by
  split
  · rename_i hnil
    rw [hnil, splitInto_nil]
  · rfl

/-- A split that keeps the separators: all fields, or the first ones and the rest. -/
theorem splitInto_keep (hsep : sep ≠ []) (m : Nat) (text : List α) :
    splitInto true sep (2 * m + 1) text
      = if (fields sep text).length ≤ m then interleave sep (fields sep text)
        else spread sep ((fields sep text).take m) ++ [restAfter sep m text] := by
  induction m generalizing text with
  | zero =>
      have hpos := List.length_pos_iff.mpr (fields_ne_nil sep text)
      rw [if_neg (by omega)]
      rfl
  | succ m ih =>
      show splitInto true sep (2 * m + 3) text = _
      rw [splitInto]
      rcases hcut : cut sep text with - | ⟨before, after⟩
      · rw [fields_of_none hcut, if_pos (by simp)]
        rfl
      · simp only [if_true]
        rw [ite_splitInto, ih, fields_of_some hsep hcut, restAfter, hcut]
        by_cases hle : (fields sep after).length ≤ m
        · rw [if_pos hle, if_pos (by simpa using hle)]
          obtain ⟨next, rest, hrest⟩ := List.exists_cons_of_ne_nil (fields_ne_nil sep after)
          rw [hrest]
          rfl
        · rw [if_neg hle, if_neg (by simpa using hle)]
          rfl

/-- A split that drops them. -/
theorem splitInto_drop (hsep : sep ≠ []) (m : Nat) (text : List α) :
    splitInto false sep (m + 1) text
      = if (fields sep text).length ≤ m then fields sep text
        else (fields sep text).take m ++ [restAfter sep m text] := by
  induction m generalizing text with
  | zero =>
      have hpos := List.length_pos_iff.mpr (fields_ne_nil sep text)
      rw [if_neg (by omega)]
      rfl
  | succ m ih =>
      rcases hcut : cut sep text with - | ⟨before, after⟩
      · rw [fields_of_none hcut, if_pos (by simp)]
        cases m with
        | zero => rw [splitInto, hcut]
        | succ m => rw [splitInto, hcut]
      · have hsplit : splitInto false sep (m + 1 + 1) text
            = before :: splitInto false sep (m + 1) after := by
          cases m with
          | zero => rw [splitInto, splitInto, hcut]
          | succ m =>
              rw [splitInto, hcut]
              simp only [Bool.false_eq_true, if_false]
              rw [ite_splitInto]
        rw [hsplit, ih, fields_of_some hsep hcut, restAfter, hcut]
        by_cases hle : (fields sep after).length ≤ m
        · rw [if_pos hle, if_pos (by simpa using hle)]
        · rw [if_neg hle, if_neg (by simpa using hle)]
          rfl

/-- The rounds lose the field behind the last separator if it is empty and the rounds are
through with the text there. -/
def Loses (sep : List α) (m : Nat) (text : List α) : Prop :=
  EndsCut sep text ∧ m ∣ (fields sep text).length - 1

instance (sep : List α) (m : Nat) (text : List α) : Decidable (Loses sep m text) :=
  inferInstanceAs (Decidable (_ ∧ _))

theorem loses_restAfter (hsep : sep ≠ []) {m : Nat} (hrest : restAfter sep m text ≠ [])
    (h : m < (fields sep text).length) :
    Loses sep m (restAfter sep m text) ↔ Loses sep m text := by
  have hfields := fields_restAfter hsep h
  have hlast : ((fields sep text).drop m).getLast? = (fields sep text).getLast? := by
    rw [List.getLast?_drop, if_neg (by omega)]
  have hdvd : m ∣ (fields sep text).length - m - 1 ↔ m ∣ (fields sep text).length - 1 := by
    rw [Nat.sub_right_comm, Nat.dvd_sub_iff_left (by omega) (Nat.dvd_refl m)]
  rw [Loses, Loses, EndsCut, EndsCut, hfields, hlast, List.length_drop, hdvd]
  refine ⟨fun ⟨⟨hlength, hempty⟩, hdvd⟩ => ⟨⟨by omega, hempty⟩, hdvd⟩,
    fun ⟨⟨hlength, hempty⟩, hdvd⟩ => ⟨⟨?_, hempty⟩, hdvd⟩⟩
  by_contra hone
  -- the only field left is the rest, which is not empty
  obtain ⟨field, hfield⟩ := List.length_eq_one_iff.mp
    (show (fields sep (restAfter sep m text)).length = 1 by rw [hfields, List.length_drop]; omega)
  have hwhole := flatten_withSeparators hsep (restAfter sep m text)
  rw [← hlast, ← hfields, hfield] at hempty
  rw [hfield] at hwhole
  obtain rfl : field = [] := Option.some.inj hempty
  exact hrest hwhole.symm

theorem splitRounds_nil (keep : Bool) (slots fuel : Nat) :
    splitRounds keep sep slots fuel [] = [] := by
  induction fuel with
  | zero => rfl
  | succ fuel ih =>
      simp only [splitRounds, if_true]
      split
      · exact ih
      · rfl

/-- What the rounds give when one split gives the first `m` fields and the rest: `whole` is
how all fields come out, and `front` how those come out that have a separator behind them. -/
theorem splitRounds_of_split {keep : Bool} {slots m : Nat}
    (whole front : List (List α) → List (List α)) (hm : 0 < m) (hsep : sep ≠ [])
    (hsplit : ∀ text, splitInto keep sep slots text
      = if (fields sep text).length ≤ m then whole (fields sep text)
        else front ((fields sep text).take m) ++ [restAfter sep m text])
    (hfew : ∀ fields, fields.length ≤ m → (whole fields).length ≠ slots)
    (hfull : ∀ fields, fields.length = m → (front fields).length + 1 = slots)
    (hfront : ∀ fields fields', front (fields ++ fields') = front fields ++ front fields')
    (hwhole : ∀ fields fields', fields' ≠ [] →
      whole (fields ++ fields') = front fields ++ whole fields')
    {fuel : Nat} (hfuel : text.length < fuel) (htext : text ≠ []) :
    splitRounds keep sep slots fuel text
      = if Loses sep m text then front (fields sep text).dropLast else whole (fields sep text) := by
  induction fuel generalizing text with
  | zero => omega
  | succ fuel ih =>
      simp only [splitRounds, if_neg htext, hsplit]
      by_cases hle : (fields sep text).length ≤ m
      · have hkept : ¬ Loses sep m text := by
          rintro ⟨⟨hmany, -⟩, hdvd⟩
          have := Nat.le_of_dvd (by omega) hdvd
          omega
        rw [if_pos hle, if_neg (hfew _ hle), if_neg hkept]
      · have hlt : m < (fields sep text).length := by omega
        have hlength : (front ((fields sep text).take m) ++ [restAfter sep m text]).length
            = slots := by
          rw [List.length_append]
          exact hfull _ (by rw [List.length_take]; omega)
        have hrest := fields_restAfter hsep hlt
        rw [if_neg hle, if_pos hlength, List.dropLast_concat, List.getLastD_concat]
        by_cases hnil : restAfter sep m text = []
        · -- the last round is on the empty text: its field is gone
          rw [hnil, fields_nil] at hrest
          have hfields : fields sep text = (fields sep text).take m ++ [[]] := by
            rw [hrest, List.take_append_drop]
          have hlost : Loses sep m text := by
            have hcount := congrArg List.length hfields
            rw [List.length_append, List.length_take, List.length_singleton] at hcount
            refine ⟨⟨by omega, ?_⟩, ?_⟩
            · rw [hfields, List.getLast?_concat]
            · exact ⟨1, by omega⟩
          rw [hnil, splitRounds_nil, List.append_nil, if_pos hlost]
          conv_rhs => rw [hfields, List.dropLast_concat]
        · have hback : (fields sep text).drop m ≠ [] := by
            rw [← hrest]
            exact fields_ne_nil sep _
          obtain ⟨k, rfl⟩ := Nat.exists_eq_succ_of_ne_zero hm.ne'
          rw [ih ((length_restAfter_lt hsep hlt).trans_le (by omega)) hnil, hrest]
          conv_rhs => rw [← List.take_append_drop (k + 1) (fields sep text)]
          rw [List.dropLast_append_of_ne_nil hback, hfront, hwhole _ _ hback]
          simp only [loses_restAfter hsep hnil hlt]
          split
          · rfl
          · rfl

/-- **Rounds that keep the separators** give the fields with the separators between them,
less an empty field that is lost. -/
theorem splitRounds_keep (hsep : sep ≠ []) {m fuel : Nat} (hm : 0 < m)
    (hfuel : text.length < fuel) (htext : text ≠ []) :
    splitRounds true sep (2 * m + 1) fuel text
      = if Loses sep m text then spread sep (fields sep text).dropLast
        else interleave sep (fields sep text) := by
  refine splitRounds_of_split (interleave sep) (spread sep) hm hsep (splitInto_keep hsep m)
    (fun fields hle => ?_) (fun fields hlength => ?_) (fun _ _ => List.flatMap_append)
    (fun _ _ hback => interleave_append hback) hfuel htext
  · rcases fields with - | ⟨field, rest⟩
    · exact nofun
    · have hodd : (interleave sep (field :: rest)).length + 1 = 2 * (field :: rest).length :=
        length_interleave (List.cons_ne_nil field rest)
      omega
  · rw [length_spread, hlength]

/-- **Rounds that drop the separators** give the fields, less an empty one that is lost. -/
theorem splitRounds_drop (hsep : sep ≠ []) {m fuel : Nat} (hm : 0 < m)
    (hfuel : text.length < fuel) (htext : text ≠ []) :
    splitRounds false sep (m + 1) fuel text
      = if Loses sep m text then (fields sep text).dropLast else fields sep text :=
  splitRounds_of_split id id hm hsep (splitInto_drop hsep m)
    (fun _ hle => (Nat.lt_succ_of_le hle).ne) (fun _ hlength => congrArg Nat.succ hlength)
    (fun _ _ => rfl) (fun _ _ _ => rfl) hfuel htext

end Splits

end Splitting
