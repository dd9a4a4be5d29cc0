/-
Instinct/TextSplitters.lean

`split_text_with_seperator` and what is around it: the separator is escaped for
a regular expression, the text is split at it in rounds of nineteen slots, and
where the separators are kept each is put before the field behind it.

A `UnicodeString` is its sequence of code points.  The escaped separator is read
back by the compiler of the expression as what it was (`literalOf_escape`), so
the rounds are those of `Splitting`.

Pieces with their separators make up the text again, if no round loses the empty
field at the end of it: then the pair-wise merge reads behind the end of the
splits (`splitTextWithSeperator_keep_iff`).
-/
import Instinct.Core
import Instinct.Splitting

namespace Instinct

open Splitting

/-- `icu::UnicodeString`, by its code points. -/
abbrev UnicodeString := List Char

/-! ### Regular expressions that are literals -/

/-- `[\\\.\^\$\-\+\(\)\[\]\{\}\|\?\*]` -/
def isSpecial (c : Char) : Bool :=
  ['\\', '.', '^', '$', '-', '+', '(', ')', '[', ']', '{', '}', '|', '?', '*'].contains c

/-- `escape_for_regular_expression`: a backslash before each special character. -/
def escapeForRegularExpression (s : UnicodeString) : UnicodeString :=
  s.flatMap fun c => if isSpecial c then ['\\', c] else [c]

/-- The literal that an expression stands for, if it consists of plain and escaped characters. -/
def literalOf : UnicodeString → Option UnicodeString
  | [] => some []
  | '\\' :: c :: rest => if isSpecial c then (literalOf rest).map (c :: ·) else none
  | c :: rest => if isSpecial c then none else (literalOf rest).map (c :: ·)

/-- A compiled expression: a literal, or one group around a literal. -/
structure RegexPattern where
  literal : UnicodeString
  group : Bool
  deriving Repr, DecidableEq

/-- The expressions that are literals, or one group around a literal.  The text splitters
build no others. -/
def compileLiteral : UnicodeString → Option RegexPattern
  | [] => some ⟨[], false⟩
  | c :: rest =>
      if c = '(' ∧ rest.getLast? = some ')' then (literalOf rest.dropLast).map (⟨·, true⟩)
      else (literalOf (c :: rest)).map (⟨·, false⟩)

theorem literalOf_escape (s : UnicodeString) :
    literalOf (escapeForRegularExpression s) = some s := by
  induction s with
  | nil => rfl
  | cons c s ih =>
      rw [escapeForRegularExpression, List.flatMap_cons, ← escapeForRegularExpression]
      split
      · rename_i hspecial
        rw [List.cons_append, List.cons_append, List.nil_append, literalOf, if_pos hspecial, ih]
        rfl
      · rename_i hplain
        rw [List.cons_append, List.nil_append, literalOf, if_neg hplain, ih]
        · rfl
        · rintro d rest rfl -
          exact hplain rfl

/-! ### The split -/

/-- `U32StringUtils::SplitWithRegex` with its nineteen slots: rounds of `RegexMatcher::split`. -/
def splitWithRegex (text seperator : UnicodeString) : Except Exn (List UnicodeString) :=
  match compileLiteral seperator with
  | none =>
      .error (.instinct ("Failed to compile regex with seperator string: "
        ++ String.ofList seperator))
  | some regex => .ok (splitRounds regex.group regex.literal 19 (text.length + 1) text)

/-- The pair-wise merge behind `splits[0]`: each separator with the field behind it. -/
def mergePairs : List UnicodeString → Except Exn (List UnicodeString)
  | [] => .ok []
  | [_] => .error (.undefinedBehaviour "splits[i+1]")
  | separator :: field :: splits =>
      (mergePairs splits).map fun merged => (separator ++ field) :: merged

/-- The merge of the splits, which begins with `splits[0]`. -/
def mergeSeparators : List UnicodeString → Except Exn (List UnicodeString)
  | [] => .error (.undefinedBehaviour "splits[0]")
  | field :: splits =>
      (mergePairs splits).map fun merged =>
        field :: (merged ++ if splits.length % 2 = 1 then splits.getLast?.toList else [])

/-- `split_text_with_seperator`.  `graphemes` is the character instance of the locale's
`BreakIterator`, and `seperator` is an expression. -/
def splitTextWithSeperator (graphemes : UnicodeString → List UnicodeString)
    (text seperator : UnicodeString) (keepSeperator : Bool) : Except Exn (List UnicodeString) :=
  let result : Except Exn (List UnicodeString) :=
    if seperator = [] then .ok (graphemes text)
    else if keepSeperator then
      match splitWithRegex text ('(' :: (seperator ++ [')'])) with
      | .error e => .error e
      | .ok splits => mergeSeparators splits
    else splitWithRegex text seperator
  result.map fun parts => parts.filter (· ≠ [])

section SplitText

variable {graphemes : UnicodeString → List UnicodeString} {text sep : UnicodeString}

theorem escape_ne_nil (hsep : sep ≠ []) : escapeForRegularExpression sep ≠ [] := by
  intro hnil
  have hread := literalOf_escape sep
  rw [hnil] at hread
  exact hsep (Option.some.inj hread).symm

theorem compileLiteral_group (sep : UnicodeString) :
    compileLiteral ('(' :: (escapeForRegularExpression sep ++ [')'])) = some ⟨sep, true⟩ := by
  rw [compileLiteral, if_pos ⟨rfl, by simp⟩, List.dropLast_concat, literalOf_escape]
  rfl

/-- An escaped separator is never taken for a group. -/
theorem compileLiteral_escape (sep : UnicodeString) :
    compileLiteral (escapeForRegularExpression sep) = some ⟨sep, false⟩ := by
  have hread := literalOf_escape sep
  rcases hescaped : escapeForRegularExpression sep with - | ⟨c, rest⟩
  · rw [hescaped] at hread
    obtain rfl := Option.some.inj hread
    rfl
  · rw [compileLiteral, if_neg, ← hescaped, hread]
    · rfl
    · rintro ⟨rfl, -⟩
      rw [hescaped] at hread
      cases hread

theorem mergePairs_pairs (fields : List UnicodeString) :
    mergePairs (fields.flatMap fun field => [sep, field]) = .ok (fields.map (sep ++ ·)) := by
  induction fields with
  | nil => rfl
  | cons field fields ih =>
      rw [List.flatMap_cons, List.cons_append, List.cons_append, List.nil_append, mergePairs, ih]
      rfl

/-- A separator without a field behind it: the merge reads too far. -/
theorem mergePairs_separator (fields : List UnicodeString) :
    mergePairs ((fields.flatMap fun field => [sep, field]) ++ [sep])
      = .error (.undefinedBehaviour "splits[i+1]") := by
  induction fields with
  | nil => rfl
  | cons field fields ih =>
      rw [List.flatMap_cons, List.append_assoc, List.cons_append, List.cons_append,
        List.nil_append, mergePairs, ih]
      rfl

theorem length_pairs (fields : List UnicodeString) :
    (fields.flatMap fun field => [sep, field]).length = 2 * fields.length := by
  induction fields with
  | nil => rfl
  | cons field fields ih =>
      rw [List.flatMap_cons, List.length_append, ih, List.length_cons]
      simp only [List.length_cons, List.length_nil]
      omega

theorem mergeSeparators_interleave {fields : List UnicodeString} (hfields : fields ≠ []) :
    mergeSeparators (interleave sep fields) = .ok (withSeparators sep fields) := by
  obtain ⟨field, rest, rfl⟩ := List.exists_cons_of_ne_nil hfields
  rw [interleave_cons, mergeSeparators, mergePairs_pairs, length_pairs, if_neg (by omega)]
  exact congrArg (fun merged => Except.ok (field :: merged)) (List.append_nil _)

theorem mergeSeparators_spread (sep : UnicodeString) (fields : List UnicodeString) :
    ∃ place, mergeSeparators (spread sep fields) = .error (.undefinedBehaviour place) := by
  cases fields with
  | nil => exact ⟨_, rfl⟩
  | cons field rest =>
      refine ⟨"splits[i+1]", ?_⟩
      rw [spread_cons, mergeSeparators, mergePairs_separator]
      rfl

/-- What nineteen slots take: nine fields with their separators, and the rest. -/
theorem splitWithRegex_group (hsep : sep ≠ []) (htext : text ≠ []) :
    splitWithRegex text ('(' :: (escapeForRegularExpression sep ++ [')']))
      = .ok (if Loses sep 9 text then spread sep (fields sep text).dropLast
          else interleave sep (fields sep text)) := by
  rw [splitWithRegex, compileLiteral_group]
  exact congrArg Except.ok
    (splitRounds_keep hsep (m := 9) (by omega) (Nat.lt_succ_self _) htext)

/-- The separators are kept: each stands before the field behind it. -/
theorem splitTextWithSeperator_keep (graphemes : UnicodeString → List UnicodeString)
    (hsep : sep ≠ []) (htext : text ≠ []) (hkept : ¬ Loses sep 9 text) :
    splitTextWithSeperator graphemes text (escapeForRegularExpression sep) true
      = .ok ((withSeparators sep (fields sep text)).filter (· ≠ [])) := by
  rw [splitTextWithSeperator, if_neg (escape_ne_nil hsep), if_pos rfl,
    splitWithRegex_group hsep htext, if_neg hkept]
  simp only [mergeSeparators_interleave (fields_ne_nil sep text)]
  rfl

theorem splitTextWithSeperator_broken (graphemes : UnicodeString → List UnicodeString)
    (hsep : sep ≠ []) (h : text = [] ∨ Loses sep 9 text) :
    ∃ place, splitTextWithSeperator graphemes text (escapeForRegularExpression sep) true
      = .error (.undefinedBehaviour place) := by
  rw [splitTextWithSeperator, if_neg (escape_ne_nil hsep), if_pos rfl]
  by_cases htext : text = []
  · refine ⟨"splits[0]", ?_⟩
    rw [splitWithRegex, compileLiteral_group, htext]
    rfl
  · obtain ⟨place, hplace⟩ := mergeSeparators_spread sep (fields sep text).dropLast
    refine ⟨place, ?_⟩
    rw [splitWithRegex_group hsep htext, if_pos (h.resolve_left htext)]
    simp only [hplace]
    rfl

/-- The separators are dropped, and with them the empty fields. -/
theorem splitTextWithSeperator_drop (graphemes : UnicodeString → List UnicodeString)
    (hsep : sep ≠ []) :
    splitTextWithSeperator graphemes text (escapeForRegularExpression sep) false
      = .ok ((fields sep text).filter (· ≠ [])) := by
  rw [splitTextWithSeperator, if_neg (escape_ne_nil hsep), if_neg Bool.false_ne_true,
    splitWithRegex, compileLiteral_escape]
  by_cases htext : text = []
  · rw [htext]
    rfl
  · refine congrArg Except.ok ?_
    rw [splitRounds_drop hsep (m := 18) (by omega) (Nat.lt_succ_self _) htext]
    split
    · rename_i hlost
      -- the field that is lost is empty
      obtain ⟨front, hfront⟩ := List.getLast?_eq_some_iff.mp hlost.1.2
      rw [hfront, List.dropLast_concat, List.filter_append]
      simp
    · rfl

theorem splitTextWithSeperator_graphemes (keep : Bool) :
    splitTextWithSeperator graphemes text [] keep = .ok ((graphemes text).filter (· ≠ [])) := rfl

/-- The pieces are not empty. -/
theorem ne_nil_of_splitTextWithSeperator {seperator : UnicodeString} {keep : Bool}
    {pieces : List UnicodeString}
    (h : splitTextWithSeperator graphemes text seperator keep = .ok pieces) :
    ∀ piece ∈ pieces, piece ≠ [] := by
  intro piece hpiece
  simp only [splitTextWithSeperator, Except.map] at h
  split at h
  · cases h
  · obtain rfl := Except.ok.inj h
    simpa using (List.mem_filter.mp hpiece).2

/-! ### Pieces that make up the text -/

/-- The split reads existing splits only, and its pieces, none of them empty, make up the text. -/
def Restores (graphemes : UnicodeString → List UnicodeString) (text sep : UnicodeString) : Prop :=
  ∃ pieces, splitTextWithSeperator graphemes text (escapeForRegularExpression sep) true = .ok pieces
    ∧ (∀ piece ∈ pieces, piece ≠ []) ∧ pieces.flatten = text

theorem not_restores (hsep : sep ≠ []) (h : text = [] ∨ Loses sep 9 text) :
    ¬ Restores graphemes text sep := by
  rintro ⟨pieces, hsplit, -⟩
  obtain ⟨place, hplace⟩ := splitTextWithSeperator_broken graphemes hsep h
  rw [hplace] at hsplit
  cases hsplit

/-- **The pieces make up the text** if and only if there is a text, and no separator at its end
fills the slots of a round. -/
theorem restores_iff_kept (graphemes : UnicodeString → List UnicodeString)
    (text : UnicodeString) {sep : UnicodeString} (hsep : sep ≠ []) :
    Restores graphemes text sep ↔ text ≠ [] ∧ ¬ Loses sep 9 text := by
  constructor
  · intro hrestores
    by_contra hbroken
    rw [not_and_or, not_not, not_not] at hbroken
    exact not_restores hsep hbroken hrestores
  · rintro ⟨htext, hkept⟩
    have hsplit := splitTextWithSeperator_keep graphemes hsep htext hkept
    refine ⟨_, hsplit, ne_nil_of_splitTextWithSeperator hsplit, ?_⟩
    rw [List.flatten_filter_ne_nil]
    exact flatten_withSeparators hsep text

end SplitText

/-- Graphemes of a text without combining characters: its code points. -/
def codePoints (text : UnicodeString) : List UnicodeString := text.map fun c => [c]

theorem restores_word : Restores codePoints "a,b,c".toList [','] :=
  (restores_iff_kept codePoints "a,b,c".toList (by decide)).mpr (by decide)

/-- Neither the empty text comes back, nor one that ends with its ninth comma. -/
theorem nine_commas_broken :
    ¬ Restores codePoints [] [',']
      ∧ ¬ Restores codePoints "a,b,c,d,e,f,g,h,i,".toList [','] :=
  ⟨not_restores (by decide) (.inl rfl), not_restores (by decide) (.inr (by decide))⟩

end Instinct
