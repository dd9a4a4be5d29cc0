/-
Instinct/StringUtils.lean

`StringUtils`: what the parsers of mappings and requests are made of.

`ReSplit` leaves out an empty part behind the last separator, and keeps all others
(`reSplit_intercalate`).  `std::stoi` reads a number from the start of a text and passes
over what is behind it.
-/
import Instinct.Core
import Mathlib.Algebra.Group.Int.Defs
import Mathlib.Data.List.DropRight
import Mathlib.Data.List.Induction

namespace Instinct.StringUtils

/-! ### Blanks -/

/-- `Trim`. -/
def trim (s : List Char) : List Char := (s.dropWhile isSpace).rdropWhile isSpace

/-- `IsBlankString`. -/
def isBlank (s : List Char) : Bool := trim s = []

/-- `ToLower`. -/
def toLower (s : List Char) : List Char := s.map Char.toLower

section Trim

variable {c : Char} {s : List Char}

theorem trim_cons_space (hc : isSpace c = true) (s : List Char) : trim (c :: s) = trim s := by
  rw [trim, List.dropWhile_cons_of_pos hc, ← trim]

theorem trim_concat_space (hc : isSpace c = true) (s : List Char) : trim (s ++ [c]) = trim s := by
  rw [trim, trim, List.dropWhile_append]
  by_cases hs : (s.dropWhile isSpace).isEmpty = true
  · have hblank : [c].dropWhile isSpace = [] := List.dropWhile_cons_of_pos hc
    rw [if_pos hs, hblank, List.isEmpty_iff.mp hs]
  · rw [if_neg hs, List.rdropWhile_concat_pos _ _ _ hc]

theorem trim_prefix_dropWhile (s : List Char) : trim s <+: s.dropWhile isSpace :=
  List.rdropWhile_prefix _ _

theorem length_trim_le (s : List Char) : (trim s).length ≤ s.length :=
  (trim_prefix_dropWhile s).length_le.trans (List.dropWhile_suffix _).length_le

theorem trim_isInfix (s : List Char) : trim s <:+: s :=
  (trim_prefix_dropWhile s).isInfix.trans (List.dropWhile_suffix _).isInfix

/-- A trimmed text has no blanks to be trimmed. -/
theorem trim_trim (s : List Char) : trim (trim s) = trim s := by
  have hdrop : (trim s).dropWhile isSpace = trim s := by
    rcases htrim : trim s with - | ⟨c, cs⟩
    · rfl
    · have hprefix := trim_prefix_dropWhile s
      rw [htrim] at hprefix
      obtain ⟨rest, hrest⟩ := hprefix
      refine List.dropWhile_cons_of_neg fun hc => ?_
      have hhead := List.head?_dropWhile_not isSpace s
      rw [← hrest] at hhead
      exact Bool.eq_false_iff.mp hhead hc
  rw [trim, hdrop, trim, List.rdropWhile_idempotent]

theorem all_isSpace_iff : s.all isSpace = true ↔ trim s = [] := by
  rw [trim, List.rdropWhile_eq_nil_iff, List.all_eq_true]
  refine ⟨fun h x hx => h x ((List.dropWhile_suffix isSpace).subset hx), fun h => ?_⟩
  cases hdrop : s.dropWhile isSpace with
  | nil => exact List.dropWhile_eq_nil_iff.mp hdrop
  | cons c cs =>
      have hhead := List.head?_dropWhile_not isSpace s
      rw [hdrop] at h hhead
      exact absurd (h c List.mem_cons_self) (Bool.eq_false_iff.mp hhead)

/-- A text is not blank if something is left of it. -/
theorem isNotBlankString_ofList_iff : isNotBlankString (String.ofList s) = true ↔ trim s ≠ [] := by
  rw [isNotBlankString, Bool.not_eq_true', isBlankString, String.toList_ofList,
    Bool.eq_false_iff, Ne, all_isSpace_iff]

end Trim

/-! ### Splits -/

/-- `ReSplit` at a separator of one letter.  What is behind the last one counts if it is not
empty. -/
def reSplit {α : Type} [DecidableEq α] (sep : α) (s : List α) : List (List α) :=
  let parts := s.splitOn sep
  if 2 ≤ parts.length ∧ parts.getLast? = some [] then parts.dropLast else parts

section ReSplit

variable {α : Type} [DecidableEq α] {sep : α} {s : List α} {parts : List (List α)}

/-- **The parts come back** from their join, if the last of them is not empty. -/
theorem reSplit_intercalate (hparts : ∀ part ∈ parts, sep ∉ part)
    (hlast : ∃ part, parts.getLast? = some part ∧ part ≠ []) :
    reSplit sep ([sep].intercalate parts) = parts := by
  obtain ⟨part, hpart, hne⟩ := hlast
  have hnil : parts ≠ [] := fun h => by
    rw [h] at hpart
    cases hpart
  rw [reSplit, List.splitOn_intercalate sep hparts hnil]
  refine if_neg fun h => hne ?_
  rw [hpart] at h
  exact Option.some.inj h.2

/-- The parts are those of the text, but for an empty one behind them. -/
theorem splitOn_eq_reSplit (sep : α) (s : List α) :
    s.splitOn sep = reSplit sep s ∨ s.splitOn sep = reSplit sep s ++ [[]] := by
  rw [reSplit]
  split
  · next h =>
      obtain ⟨-, hlast⟩ := h
      exact .inr (List.dropLast_append_getLast? [] hlast).symm
  · exact .inl rfl

theorem mem_splitOn_of_mem_reSplit {part : List α} (h : part ∈ reSplit sep s) :
    part ∈ s.splitOn sep := by
  rcases splitOn_eq_reSplit sep s with hsplit | hsplit
  · rwa [hsplit]
  · rw [hsplit]
    exact List.mem_append_left _ h

theorem notMem_of_mem_splitOn {part : List α} (h : part ∈ s.splitOn sep) : sep ∉ part := by
  induction s generalizing part with
  | nil =>
      rw [List.splitOn_nil, List.mem_singleton] at h
      rw [h]
      exact List.not_mem_nil
  | cons c s ih =>
      obtain ⟨first, rest, hsplit⟩ := List.exists_cons_of_ne_nil (List.splitOn_ne_nil sep s)
      rw [hsplit] at ih
      rw [List.splitOn_cons_eq_if_modifyHead, hsplit] at h
      by_cases hc : (c == sep) = true
      · rw [if_pos hc] at h
        rcases List.mem_cons.mp h with rfl | h
        · exact List.not_mem_nil
        · exact ih h
      · rw [if_neg hc, List.modifyHead_cons] at h
        rcases List.mem_cons.mp h with rfl | h
        · intro hmem
          rcases List.mem_cons.mp hmem with rfl | hmem
          · exact hc (beq_self_eq_true _)
          · exact ih List.mem_cons_self hmem
        · exact ih (List.mem_cons_of_mem _ h)

/-- Each part lies within the text. -/
theorem isInfix_of_mem_splitOn {part : List α} (h : part ∈ s.splitOn sep) : part <:+: s := by
  have hjoin : ∀ {parts : List (List α)}, part ∈ parts → part <:+: [sep].intercalate parts := by
    intro parts hmem
    induction parts with
    | nil => cases hmem
    | cons first rest ih =>
        rcases rest with - | ⟨second, rest⟩
        · simp only [List.mem_singleton.mp hmem, List.intercalate_singleton, List.infix_rfl]
        · rw [List.intercalate_cons_cons]
          rcases List.mem_cons.mp hmem with rfl | hmem
          · rw [List.append_assoc]
            exact List.infix_append_left
          · exact List.infix_append_of_infix_right (ih hmem)
  have hwithin := hjoin h
  rwa [List.intercalate_splitOn] at hwithin

end ReSplit

/-! ### Numbers -/

/-- `std::stoi`. -/
def stoi (s : List Char) : Except Exn Int :=
  let (sign, rest) : Int × List Char :=
    match s.dropWhile isSpace with
    | '-' :: rest => (-1, rest)
    | '+' :: rest => (1, rest)
    | rest => (1, rest)
  let digits := rest.takeWhile Char.isDigit
  let value := sign * Nat.ofDigitChars 10 digits 0
  if digits = [] then .error (.other "stoi: no conversion")
  else if -2 ^ 31 ≤ value ∧ value < 2 ^ 31 then .ok value
  else .error (.other "stoi: out of range")

/-- The value of a text of digits, if it is an `int`. -/
theorem stoi_digits {digits : List Char} (hne : digits ≠ []) (h : ∀ c ∈ digits, c.isDigit = true) :
    stoi digits = if Nat.ofDigitChars 10 digits 0 < 2 ^ 31 then
        .ok (Nat.ofDigitChars 10 digits 0 : Int)
      else .error (.other "stoi: out of range") := by
  have hdrop : digits.dropWhile isSpace = digits := by
    rcases digits with - | ⟨c, digits⟩
    · rfl
    · refine List.dropWhile_cons_of_neg ?_
      have hc := h c List.mem_cons_self
      rintro hspace
      simp only [isSpace, Bool.or_eq_true, decide_eq_true_eq] at hspace
      rcases hspace with ((((rfl | rfl) | rfl) | rfl) | rfl) | rfl <;> exact absurd hc (by decide)
  have hplain : (match digits with
      | '-' :: rest => ((-1 : Int), rest)
      | '+' :: rest => (1, rest)
      | rest => (1, rest)) = (1, digits) := by
    split
    · exact absurd (h '-' List.mem_cons_self) (by decide)
    · exact absurd (h '+' List.mem_cons_self) (by decide)
    · rfl
  rw [stoi, hdrop, hplain]
  simp only [List.takeWhile_eq_self_iff.mpr h, if_neg hne, Int.one_mul]
  refine if_congr ?_ rfl rfl
  omega

end Instinct.StringUtils
