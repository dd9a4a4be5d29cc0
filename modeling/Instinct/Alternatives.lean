/-
Instinct/Alternatives.lean

A text split at the occurrences of some words, as a small library of its own.

The words are tried in their order at each place (`matchAt`), the leftmost place at which
one fits is found (`search`), and where an empty word was found the search goes on one
letter later (`next`).  The words take places of their own among the parts.  A split into
a bounded number of places leaves the rest in the last one, and `splitRounds` splits that
again until it is used up: put together, the parts are the text
(`flatten_splitRounds`).
-/
import Mathlib.Data.List.Basic
import Mathlib.Data.List.Infix

namespace Alternatives

variable {α : Type} [DecidableEq α]

/-! ### The first occurrence -/

/-- A word that was found, what is in front of it and what is behind. -/
structure Found (α : Type) where
  before : List α
  word : List α
  after : List α

/-- The first of the words that the text starts with. -/
def matchAt (words : List (List α)) (text : List α) : Option (List α) :=
  words.find? fun word => word.isPrefixOf text

/-- The leftmost place at which a word fits. -/
def search (words : List (List α)) : List α → Option (Found α)
  | [] => (matchAt words []).map fun word => ⟨[], word, []⟩
  | a :: as =>
      match matchAt words (a :: as) with
      | some word => some ⟨[], word, (a :: as).drop word.length⟩
      | none => (search words as).map fun m => { m with before := a :: m.before }

/-- The next place.  Behind an empty word the search skips a letter. -/
def next (words : List (List α)) (afterEmpty : Bool) (text : List α) : Option (Found α) :=
  if afterEmpty then
    match text with
    | [] => none
    | a :: as => (search words as).map fun m => { m with before := a :: m.before }
  else search words text

section Search

variable {words : List (List α)} {text : List α} {m : Found α}

theorem matchAt_eq_none_iff :
    matchAt words text = none ↔ ∀ word ∈ words, ¬ word <+: text := by
  simp [matchAt, List.find?_eq_none]

theorem append_of_matchAt {word : List α} (h : matchAt words text = some word) :
    word ∈ words ∧ word ++ text.drop word.length = text := by
  rw [matchAt] at h
  have hstart := List.find?_some h
  refine ⟨List.mem_of_find?_eq_some h, ?_⟩
  obtain ⟨back, hback⟩ := List.isPrefixOf_iff_prefix.mp hstart
  rw [← hback, List.drop_left]

/-- What is found is in the text. -/
theorem append_of_search (h : search words text = some m) :
    m.word ∈ words ∧ m.before ++ (m.word ++ m.after) = text := by
  induction text generalizing m with
  | nil =>
      rw [search] at h
      obtain ⟨word, hword, rfl⟩ := Option.map_eq_some_iff.mp h
      have hmatch := append_of_matchAt hword
      rw [List.drop_nil] at hmatch
      exact hmatch
  | cons a as ih =>
      rw [search] at h
      split at h
      · next word hword =>
          obtain rfl := Option.some.inj h
          exact append_of_matchAt hword
      · obtain ⟨m', hm', rfl⟩ := Option.map_eq_some_iff.mp h
        obtain ⟨hword, happend⟩ := ih hm'
        exact ⟨hword, congrArg (a :: ·) happend⟩

/-- Where nothing is found, no word occurs. -/
theorem search_eq_none_iff : search words text = none ↔ ∀ word ∈ words, ¬ word <:+: text := by
  induction text with
  | nil =>
      rw [search, Option.map_eq_none_iff, matchAt_eq_none_iff]
      simp only [List.prefix_nil, List.infix_nil]
  | cons a as ih =>
      have hstart : (∀ word ∈ words, ¬ word <:+: a :: as) ↔
          (∀ word ∈ words, ¬ word <+: a :: as) ∧ ∀ word ∈ words, ¬ word <:+: as := by
        simp only [List.infix_cons_iff, not_or]
        exact forall₂_and
      rw [hstart, ← matchAt_eq_none_iff, ← ih, search]
      cases matchAt words (a :: as) with
      | none => simp
      | some word => simp

theorem append_of_next {afterEmpty : Bool} (h : next words afterEmpty text = some m) :
    m.word ∈ words ∧ m.before ++ (m.word ++ m.after) = text := by
  cases afterEmpty with
  | false => exact append_of_search h
  | true =>
      cases text with
      | nil => cases h
      | cons a as =>
          obtain ⟨m', hm', rfl⟩ := Option.map_eq_some_iff.mp h
          obtain ⟨hword, happend⟩ := append_of_search hm'
          exact ⟨hword, congrArg (a :: ·) happend⟩

/-- Each search uses up a letter, or finds an empty word so that the next one does. -/
theorem length_after_next {afterEmpty : Bool} (h : next words afterEmpty text = some m) :
    2 * m.after.length + (!m.word.isEmpty).toNat + 1
      ≤ 2 * text.length + (!afterEmpty).toNat := by
  have happend := congrArg List.length (append_of_next h).2
  rw [List.length_append, List.length_append] at happend
  have hword : m.word.length = 0 ↔ m.word.isEmpty = true := by simp
  cases afterEmpty with
  | false =>
      cases hempty : m.word.isEmpty with
      | true =>
          simp only [Bool.not_true, Bool.not_false, Bool.toNat_true, Bool.toNat_false]
          omega
      | false =>
          rw [hempty] at hword
          simp only [Bool.not_false, Bool.toNat_true]
          have hpos : m.word.length ≠ 0 := fun h0 => Bool.false_ne_true (hword.mp h0)
          omega
  | true =>
      have hbefore : 0 < m.before.length := by
        cases text with
        | nil => cases h
        | cons a as =>
            obtain ⟨m', -, rfl⟩ := Option.map_eq_some_iff.mp h
            exact Nat.succ_pos _
      cases m.word.isEmpty <;>
        simp only [Bool.not_true, Bool.not_false, Bool.toNat_true, Bool.toNat_false] <;> omega

end Search

/-! ### Splits -/

/-- Split into parts for which there are some slots.  The last slot takes whatever is left; a
word takes a slot, if it is not the last one. -/
def splitInto (words : List (List α)) : Nat → Bool → List α → List (List α)
  | 0, _, _ => []
  | 1, _, text => [text]
  | 2, afterEmpty, text =>
      match next words afterEmpty text with
      | none => [text]
      | some m => [m.before, m.after]
  | slots + 3, afterEmpty, text =>
      match next words afterEmpty text with
      | none => [text]
      | some m =>
          m.before :: m.word ::
            (if m.after = [] then [[]] else splitInto words (slots + 1) m.word.isEmpty m.after)

/-- Split again and again what the last slot took, as long as all slots are filled. -/
def splitRounds (words : List (List α)) (slots : Nat) : Nat → List α → List (List α)
  | 0, _ => []
  | fuel + 1, text =>
      let parts := if text = [] then [] else splitInto words slots false text
      if parts.length = slots then
        parts.dropLast ++ splitRounds words slots fuel (parts.getLastD [])
      else parts

section Splits

variable (words : List (List α))

theorem flatten_splitInto (n : Nat) (afterEmpty : Bool) (text : List α) :
    (splitInto words (2 * n + 1) afterEmpty text).flatten = text := by
  induction n generalizing afterEmpty text with
  | zero => exact List.append_nil text
  | succ n ih =>
      show (splitInto words (2 * n + 3) afterEmpty text).flatten = text
      rw [splitInto]
      cases hnext : next words afterEmpty text with
      | none => exact List.append_nil text
      | some m =>
          have hrest : (if m.after = [] then [[]]
              else splitInto words (2 * n + 1) m.word.isEmpty m.after).flatten = m.after := by
            split
            · next hnil => rw [hnil]; rfl
            · exact ih m.word.isEmpty m.after
          simp only [List.flatten_cons]
          rw [hrest]
          exact (append_of_next hnext).2

/-- Where all slots are filled, the last one holds less than the text. -/
theorem length_last_splitInto (n : Nat) (afterEmpty : Bool) (text : List α)
    (hfull : (splitInto words (2 * n + 1) afterEmpty text).length = 2 * n + 1) :
    2 * ((splitInto words (2 * n + 1) afterEmpty text).getLastD []).length + n
      ≤ 2 * text.length + (!afterEmpty).toNat := by
  induction n generalizing afterEmpty text with
  | zero => exact Nat.le_add_right _ _
  | succ n ih =>
      have hslots : 2 * (n + 1) + 1 = 2 * n + 3 := by omega
      rw [hslots] at hfull ⊢
      rw [splitInto] at hfull ⊢
      cases hnext : next words afterEmpty text with
      | none =>
          rw [hnext] at hfull
          simp at hfull
      | some m =>
          rw [hnext] at hfull
          have hlength := length_after_next hnext
          by_cases hafter : m.after = []
          · simp only [if_pos hafter, List.length_cons, List.length_nil] at hfull
            simp only [if_pos hafter, List.getLastD_cons, List.getLastD_nil, List.length_nil]
            omega
          · simp only [if_neg hafter, List.length_cons] at hfull
            have hrest := ih m.word.isEmpty m.after (by omega)
            simp only [if_neg hafter]
            obtain ⟨part, parts, hparts⟩ : ∃ part parts,
                splitInto words (2 * n + 1) m.word.isEmpty m.after = part :: parts :=
              List.exists_cons_of_ne_nil fun hnil => by
                rw [hnil] at hfull
                simp at hfull
            rw [hparts] at hrest ⊢
            simp only [List.getLastD_cons] at hrest ⊢
            omega

/-- **The parts make up the text**, with at least two words to a round. -/
theorem flatten_splitRounds {n fuel : Nat} (hn : 2 ≤ n) {text : List α}
    (hfuel : text.length < fuel) :
    (splitRounds words (2 * n + 1) fuel text).flatten = text := by
  induction fuel generalizing text with
  | zero => exact absurd hfuel (Nat.not_lt_zero _)
  | succ fuel ih =>
      rw [splitRounds]
      by_cases htext : text = []
      · subst htext
        simp
      · simp only [if_neg htext]
        have hflatten := flatten_splitInto words n false text
        split
        · next hfull =>
            have hlast := length_last_splitInto words n false text hfull
            rw [Bool.not_false, Bool.toNat_true] at hlast
            have hne : splitInto words (2 * n + 1) false text ≠ [] := by
              intro hnil
              rw [hnil] at hfull
              simp at hfull
            rw [List.flatten_append, ih (by omega)]
            conv_rhs => rw [← hflatten, ← List.dropLast_concat_getLast hne, List.flatten_append]
            rw [List.getLastD_eq_getLast?, List.getLast?_eq_some_getLast hne]
            simp
        · exact hflatten

/-- The word that is found first is among the parts. -/
theorem mem_splitRounds {n fuel : Nat} (hn : 2 ≤ n) {text : List α} {m : Found α}
    (htext : text ≠ []) (h : search words text = some m) :
    m.word ∈ splitRounds words (2 * n + 1) (fuel + 1) text := by
  obtain ⟨k, rfl⟩ := Nat.exists_eq_add_of_le' hn
  obtain ⟨rest, hparts⟩ : ∃ rest,
      splitInto words (2 * (k + 2) + 1) false text = m.before :: m.word :: rest := by
    show ∃ rest, splitInto words (2 * (k + 1) + 3) false text = _
    rw [splitInto, show next words false text = some m from h]
    exact ⟨_, rfl⟩
  simp only [splitRounds, if_neg htext, hparts]
  split
  · next hfull =>
      cases rest with
      | nil =>
          simp only [List.length_cons, List.length_nil] at hfull
          omega
      | cons part rest => simp
  · simp

/-- A text without a word is a part of its own. -/
theorem splitRounds_of_none {n fuel : Nat} (hn : 2 ≤ n) {text : List α} (htext : text ≠ [])
    (h : search words text = none) : splitRounds words (2 * n + 1) (fuel + 1) text = [text] := by
  obtain ⟨k, rfl⟩ := Nat.exists_eq_add_of_le' hn
  have hparts : splitInto words (2 * (k + 2) + 1) false text = [text] := by
    show splitInto words (2 * (k + 1) + 3) false text = _
    rw [splitInto, show next words false text = none from h]
  have hslots : ¬ [text].length = 2 * (k + 2) + 1 := by
    rw [List.length_singleton]
    omega
  simp only [splitRounds, if_neg htext, hparts, if_neg hslots]

end Splits

end Alternatives
