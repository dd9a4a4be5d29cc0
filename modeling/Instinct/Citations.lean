/-
Instinct/Citations.lean

The citations of a rewritten answer: `parse_citation_annotating_context` prints the
search entries with their numbers, `parse_answer_with_citations` reads the numbers
from the annotations `(source.k)` of the answer, and `CreateMessageStep_` looks the
entries up again.

The entries are printed from number 1 on and looked up from 0 on, so that a citation
comes to the entry behind the one that it names.  The last number is taken for an
invalid one, and an annotation without a number, or with one that is no `int`, makes
the parser throw.  So the citations are right if and only if this makes no difference
(`citesRight_iff`).
-/
import Instinct.Patterns
import Mathlib.Data.List.Infix
import Mathlib.Data.List.Forall2
import Mathlib.Data.List.Nodup
import Mathlib.Algebra.Group.Nat.Defs

namespace Instinct.Citations

open Patterns

/-! ### The model -/

/-- What is read of a `SearchToolResponseEntry`. -/
structure Entry where
  content : List Char
  startIndex : Int32
  endIndex : Int32
  fileSource : List Char
  deriving DecidableEq

/-- `AnswerWithCitations::Citation`. -/
structure Citation where
  quotedIndex : Nat
  annotation : List Char
  deriving DecidableEq

/-- What is written of a `MessageContentTextAnnotation`. -/
structure TextAnnotation where
  text : List Char
  startIndex : Int32
  endIndex : Int32
  fileId : List Char
  quote : List Char
  deriving DecidableEq

/-- The entries with the numbers that they are printed under. -/
def numbered (entries : List Entry) : List (Nat × Entry) :=
  entries.zipIdx.map fun (entry, i) => (i + 1, entry)

/-- The context string of `parse_citation_annotating_context`. -/
def contextString (entries : List Entry) : List Char :=
  (numbered entries).flatMap fun (number, entry) =>
    Nat.toDigits 10 number ++ ". ".toList ++ entry.content

/-- `(source.` -/
def opening : List Char := ['(', 's', 'o', 'u', 'r', 'c', 'e', '.']

/-- `ANNOTATION_REGEX`: a group that takes no part in the match is an empty one. -/
def annotationRegex : List (Piece Char) :=
  literally opening ++ (.many Char.isDigit :: literally [')'])

/-- The text of an annotation. -/
def annotated (digits : List Char) : List Char := opening ++ (digits ++ [')'])

/-- The groups of the matches in a text, in their order. -/
def annotations (text : List Char) : List (List Char) :=
  (matches? annotationRegex text).map fun runs => runs.getD 8 []

/-- `std::stoi` of digits; none if it throws. -/
def stoi (digits : List Char) : Option Nat :=
  if digits ≠ [] ∧ Nat.ofDigitChars 10 digits 0 < 2 ^ 31 then some (Nat.ofDigitChars 10 digits 0)
  else none

/-- `quoted_indexes.emplace`, where the key of a pair is its index. -/
def emplace (quoted : List Citation) (citation : Citation) : List Citation :=
  if ∃ other ∈ quoted, other.quotedIndex = citation.quotedIndex then quoted
  else quoted ++ [citation]

/-- The loop over the matches, with the number of entries. -/
def quotedIndexes (n : Nat) : List Citation → List (List Char) → Option (List Citation)
  | quoted, [] => some quoted
  | quoted, digits :: rest => (stoi digits).bind fun index =>
      quotedIndexes n (if index < n then emplace quoted ⟨index, annotated digits⟩ else quoted) rest

/-- `parse_answer_with_citations`; none if it throws.  The set may be in another order. -/
def parseAnswerWithCitations (entries : List Entry) (finalAnswer : List Char) :
    Option (List Citation) :=
  quotedIndexes entries.length [] (annotations finalAnswer)

/-- The annotations that `CreateMessageStep_` stores. -/
def storedAnnotations (entries : List Entry) (citations : List Citation) : List TextAnnotation :=
  citations.filterMap fun citation => (entries[citation.quotedIndex]?).map fun entry =>
    { text := citation.annotation, startIndex := entry.startIndex, endIndex := entry.endIndex
      fileId := entry.fileSource, quote := entry.content }

/-- The annotation of a number: `(source.k)`. -/
def annotationOf (k : Nat) : List Char := annotated (Nat.toDigits 10 k)

/-- **What is asked of the citations**: each number of an entry whose annotation the text holds, once,
and stored with what was printed under it. -/
def CitesRight (entries : List Entry) (finalAnswer : List Char) : Prop :=
  ∃ citations, parseAnswerWithCitations entries finalAnswer = some citations
    ∧ ∃ numbers : List Nat, numbers.Nodup
      ∧ (∀ k, k ∈ numbers ↔ 1 ≤ k ∧ k ≤ entries.length ∧ annotationOf k <:+: finalAnswer)
      ∧ List.Forall₂ (fun k citation => citation.annotation = annotationOf k
        ∧ ∃ entry, (numbered entries).lookup k = some entry
          ∧ storedAnnotations entries [citation] = [{
            text := annotationOf k, startIndex := entry.startIndex, endIndex := entry.endIndex
            fileId := entry.fileSource, quote := entry.content }]) numbers citations

/-- The number of an annotation. -/
def numberOf (digits : List Char) : Nat := Nat.ofDigitChars 10 digits 0

/-- Where the numbers make no difference: each is an `int`, the last entry is not cited, and of each
entry before it that is cited, the one behind it is the same, and the first annotation is written
without zeros in front. -/
structure Citable (entries : List Entry) (finalAnswer : List Char) : Prop where
  int : ∀ digits ∈ annotations finalAnswer, digits ≠ [] ∧ numberOf digits < 2 ^ 31
  last : entries ≠ [] → ¬ annotationOf entries.length <:+: finalAnswer
  others : ∀ k < entries.length,
    ∀ first, (annotations finalAnswer).find? (numberOf · = k) = some first →
      1 ≤ k ∧ first = Nat.toDigits 10 k ∧ entries[k]? = entries[k - 1]?

/-! ### The annotations of a text -/

section Annotations

variable {digits text cs : List Char} {runs : List (List Char)}

def AllDigits (digits : List Char) : Prop := ∀ c ∈ digits, c.isDigit = true

/-- The runs of an annotation. -/
def annotationRuns (digits : List Char) : List (List Char) :=
  opening.map ([·]) ++ [digits, [')']]

theorem matchAt_annotated (hdigits : AllDigits digits) (rest : List Char) :
    matchAt annotationRegex (annotated digits ++ rest) = some (annotationRuns digits) := by
  have hclosing : matchAt (literally [')']) ([')'] ++ rest) = some [[')']] := by
    rw [← List.append_nil (literally [')']), matchAt_literally]
    rfl
  have hrun : matchAt (.many Char.isDigit :: literally [')']) (digits ++ ([')'] ++ rest))
      = some (digits :: [[')']]) :=
    matchAt_run rfl (Nat.zero_le _) hdigits (by simp) hclosing
  rw [annotationRegex, annotated, List.append_assoc, List.append_assoc, matchAt_literally, hrun]
  rfl

theorem exists_of_matchAt (h : matchAt annotationRegex cs = some runs) :
    ∃ digits rest, AllDigits digits ∧ cs = annotated digits ++ rest
      ∧ runs = annotationRuns digits := by
  obtain ⟨rest, later, rfl, hlater, rfl⟩ := exists_of_matchAt_literally h
  obtain ⟨k, -, hk, hfound⟩ := exists_of_largest? hlater
  obtain ⟨closing, hclosing, rfl⟩ := Option.map_eq_some_iff.mp hfound
  rw [← List.append_nil (literally [')'])] at hclosing
  obtain ⟨rest', nothing, hrest', hnothing, rfl⟩ := exists_of_matchAt_literally hclosing
  obtain rfl := Option.some.inj hnothing
  refine ⟨rest.take k, rest', fun c hc => accepts_of_mem_take hk hc, ?_, rfl⟩
  rw [annotated, List.append_assoc, List.append_assoc, ← hrest', List.take_append_drop]

theorem flatten_annotationRuns (digits : List Char) :
    (annotationRuns digits).flatten = annotated digits := by
  simp [annotationRuns, annotated, opening]

theorem length_annotated_pos (digits : List Char) : 0 < (annotated digits).length := by
  simp [annotated, opening]

/-- An annotation opens once. -/
theorem opening_not_mem_tail (hdigits : AllDigits digits) : '(' ∉ (annotated digits).tail := by
  have hnot : '(' ∉ digits := fun h => absurd (hdigits _ h) (by decide)
  simpa [annotated, opening] using hnot

/-- Every annotation in a text is found by the walk. -/
theorem runs_mem_of_infix (hdigits : AllDigits digits) (before after : List Char) :
    annotationRuns digits ∈ matches? annotationRegex (before ++ (annotated digits ++ after)) := by
  induction hn : before.length using Nat.strong_induction_on generalizing before with
  | _ n ih =>
      subst hn
      cases hmatch : matchAt annotationRegex (before ++ (annotated digits ++ after)) with
      | none =>
          cases before with
          | nil =>
              rw [List.nil_append, matchAt_annotated hdigits] at hmatch
              cases hmatch
          | cons c before =>
              rw [List.cons_append] at hmatch ⊢
              rw [matches?_of_none hmatch]
              exact ih _ (Nat.lt_succ_self _) before rfl
      | some runs =>
          obtain ⟨first, rest, hfirst, hsplit, rfl⟩ := exists_of_matchAt hmatch
          rw [matches?_of_some hmatch (by rw [flatten_annotationRuns]; exact length_annotated_pos _),
            flatten_annotationRuns]
          cases before with
          | nil =>
              rw [List.nil_append, matchAt_annotated hdigits] at hmatch
              rw [Option.some.inj hmatch]
              exact List.mem_cons_self
          | cons c before =>
              refine List.mem_cons_of_mem _ ?_
              -- the match ends before the annotation begins
              obtain ⟨gap, hgap, hrest⟩ : ∃ gap, c :: before = annotated first ++ gap
                  ∧ rest = gap ++ (annotated digits ++ after) := by
                rcases List.append_eq_append_iff.mp hsplit with ⟨surplus, hover, hbehind⟩ | h
                · cases surplus with
                  | nil => exact ⟨[], by rw [hover, List.append_nil, List.append_nil], hbehind.symm⟩
                  | cons d surplus =>
                      have hopen : d = '(' := (List.cons.inj hbehind).1.symm
                      have hinside : '(' ∈ (annotated first).tail := by
                        rw [hover, hopen]
                        simp
                      exact absurd hinside (opening_not_mem_tail hfirst)
                · exact h
              rw [hsplit, List.drop_left, hrest]
              refine ih gap.length ?_ gap rfl
              have hlength := congrArg List.length hgap
              have hpos := length_annotated_pos first
              rw [List.length_append] at hlength
              omega

/-- **The annotations that are found are those in the text.** -/
theorem mem_annotations :
    digits ∈ annotations text ↔ AllDigits digits ∧ annotated digits <:+: text := by
  constructor
  · intro h
    obtain ⟨runs, hruns, rfl⟩ := List.mem_map.mp h
    obtain ⟨rest, hrest, hmatch⟩ := exists_matchAt_of_mem hruns
    obtain ⟨digits, behind, hdigits, rfl, rfl⟩ := exists_of_matchAt hmatch
    exact ⟨hdigits, (List.prefix_append _ _).isInfix.trans hrest.isInfix⟩
  · rintro ⟨hdigits, before, after, rfl⟩
    rw [List.append_assoc]
    exact List.mem_map.mpr ⟨annotationRuns digits, runs_mem_of_infix hdigits before after, rfl⟩

end Annotations

/-! ### The set of citations -/

section Quoted

variable {n index : Nat} {quoted result : List Citation} {found : List (List Char)}
  {digits : List Char} {citation : Citation}

theorem stoi_eq_some_iff :
    stoi digits = some index ↔ (digits ≠ [] ∧ numberOf digits < 2 ^ 31) ∧ numberOf digits = index := by
  unfold stoi numberOf
  split
  · rename_i h
    rw [Option.some.injEq, and_iff_right h]
  · rename_i h
    exact iff_of_false nofun fun hand => h hand.1

/-- Numbers that are all `int`s make nothing throw. -/
theorem exists_quotedIndexes (h : ∀ digits ∈ found, digits ≠ [] ∧ numberOf digits < 2 ^ 31) :
    ∃ result, quotedIndexes n quoted found = some result := by
  induction found generalizing quoted with
  | nil => exact ⟨quoted, rfl⟩
  | cons digits found ih =>
      obtain ⟨hfirst, hrest⟩ := List.forall_mem_cons.mp h
      rw [quotedIndexes, stoi_eq_some_iff.mpr ⟨hfirst, rfl⟩, Option.bind_some]
      exact ih hrest

theorem ints_of_quotedIndexes (h : quotedIndexes n quoted found = some result) :
    ∀ digits ∈ found, digits ≠ [] ∧ numberOf digits < 2 ^ 31 := by
  induction found generalizing quoted with
  | nil => exact fun _ hdigits => absurd hdigits List.not_mem_nil
  | cons digits found ih =>
      obtain ⟨index, hindex, hrest⟩ := Option.bind_eq_some_iff.mp h
      exact List.forall_mem_cons.mpr ⟨(stoi_eq_some_iff.mp hindex).1, ih hrest⟩

theorem mem_emplace {other : Citation} : other ∈ emplace quoted citation ↔ other ∈ quoted
    ∨ other = citation ∧ citation.quotedIndex ∉ quoted.map (·.quotedIndex) := by
  unfold emplace
  split
  · rename_i h
    obtain ⟨same, hsame, hindex⟩ := h
    refine ⟨.inl, fun hor => hor.resolve_right fun hnew => hnew.2 ?_⟩
    exact hindex ▸ List.mem_map_of_mem hsame
  · rename_i h
    have hnew : citation.quotedIndex ∉ quoted.map (·.quotedIndex) := fun hmem => by
      obtain ⟨same, hsame, hindex⟩ := List.mem_map.mp hmem
      exact h ⟨same, hsame, hindex⟩
    rw [List.mem_append, List.mem_singleton, and_iff_left hnew]

theorem mem_indices_emplace : index ∈ (emplace quoted citation).map (·.quotedIndex)
    ↔ index ∈ quoted.map (·.quotedIndex) ∨ index = citation.quotedIndex := by
  unfold emplace
  split
  · rename_i h
    obtain ⟨same, hsame, hindex⟩ := h
    refine ⟨.inl, fun hor => hor.elim id fun heq => ?_⟩
    exact heq.trans hindex.symm ▸ List.mem_map_of_mem hsame
  · rw [List.map_append, List.mem_append, List.map_singleton, List.mem_singleton]

theorem nodup_emplace (h : (quoted.map (·.quotedIndex)).Nodup) :
    ((emplace quoted citation).map (·.quotedIndex)).Nodup := by
  unfold emplace
  split
  · exact h
  · rename_i hnew
    rw [List.map_append, List.map_singleton]
    refine List.nodup_append.mpr ⟨h, List.nodup_singleton _, fun index hindex other hother => ?_⟩
    obtain ⟨same, hsame, rfl⟩ := List.mem_map.mp hindex
    rw [List.mem_singleton.mp hother]
    exact fun heq => hnew ⟨same, hsame, heq⟩

theorem nodup_quotedIndexes (h : quotedIndexes n quoted found = some result)
    (hquoted : (quoted.map (·.quotedIndex)).Nodup) : (result.map (·.quotedIndex)).Nodup := by
  induction found generalizing quoted with
  | nil => exact Option.some.inj h ▸ hquoted
  | cons digits found ih =>
      obtain ⟨index, -, hrest⟩ := Option.bind_eq_some_iff.mp h
      refine ih hrest ?_
      split
      · exact nodup_emplace hquoted
      · exact hquoted

/-- A citation is in the set if it was there before, or its annotation is the first one of its
index. -/
theorem mem_quotedIndexes (h : quotedIndexes n quoted found = some result) :
    citation ∈ result ↔ citation ∈ quoted
      ∨ citation.quotedIndex ∉ quoted.map (·.quotedIndex) ∧ citation.quotedIndex < n
        ∧ ∃ first, found.find? (numberOf · = citation.quotedIndex) = some first
          ∧ citation.annotation = annotated first := by
  induction found generalizing quoted with
  | nil =>
      obtain rfl := Option.some.inj h
      simp
  | cons digits found ih =>
      obtain ⟨index, hindex, hrest⟩ := Option.bind_eq_some_iff.mp h
      obtain ⟨-, rfl⟩ := stoi_eq_some_iff.mp hindex
      obtain ⟨index, text⟩ := citation
      rw [ih hrest]
      by_cases hsame : numberOf digits = index
      · -- its own index: later annotations count no more
        subst hsame
        by_cases hlt : numberOf digits < n
        · rw [if_pos hlt, mem_emplace, mem_indices_emplace, List.find?_cons_of_pos (by simp)]
          simp only [Citation.mk.injEq, Option.some.injEq, exists_eq_left']
          grind
        · rw [if_neg hlt]
          simp only [hlt, false_and, and_false]
      · rw [List.find?_cons_of_neg (by simpa using hsame)]
        by_cases hlt : numberOf digits < n
        · rw [if_pos hlt, mem_emplace, mem_indices_emplace]
          simp only [Citation.mk.injEq]
          grind
        · rw [if_neg hlt]

end Quoted

/-! ### The entries of citations -/

section Entries

variable {entries : List Entry} {finalAnswer : List Char} {k : Nat}

/-- The entry that is printed under a number. -/
theorem lookup_numbered (entries : List Entry) (k : Nat) :
    (numbered entries).lookup (k + 1) = entries[k]? := by
  have hfrom : ∀ start, ((entries.zipIdx start).map fun (entry, i) => (i + 1, entry)).lookup
      (start + k + 1) = entries[k]? := by
    induction entries generalizing k with
    | nil => exact fun _ => rfl
    | cons entry entries ih =>
        intro start
        rw [List.zipIdx_cons, List.map_cons, List.lookup_cons]
        cases k with
        | zero => simp
        | succ k =>
            have hother : (start + (k + 1) + 1 == start + 1) = false := beq_false_of_ne (by omega)
            have hnext := ih k (start + 1)
            rw [Nat.add_right_comm start 1 k] at hnext
            simp only [hother]
            exact hnext
  have hzero := hfrom 0
  rwa [Nat.zero_add] at hzero

theorem annotated_injective : Function.Injective annotated := fun _ _ h =>
  List.append_cancel_right (List.append_cancel_left h)

theorem numberOf_toDigits (k : Nat) : numberOf (Nat.toDigits 10 k) = k :=
  Nat.ofDigitChars_ten_toDigits

theorem toDigits_mem_annotations :
    Nat.toDigits 10 k ∈ annotations finalAnswer ↔ annotationOf k <:+: finalAnswer := by
  rw [mem_annotations, annotationOf]
  exact and_iff_right fun c hc => Nat.isDigit_of_mem_toDigits (by decide) (by decide) hc

theorem storedAnnotations_singleton {citation : Citation} {entry : Entry} {text : List Char}
    (htext : citation.annotation = text) :
    storedAnnotations entries [citation] = [{
        text := text, startIndex := entry.startIndex, endIndex := entry.endIndex
        fileId := entry.fileSource, quote := entry.content }]
      ↔ entries[citation.quotedIndex]? = some entry := by
  rw [storedAnnotations, List.filterMap_cons, List.filterMap_nil, htext]
  cases entries[citation.quotedIndex]? with
  | none => exact iff_of_false nofun nofun
  | some other =>
      obtain ⟨content, startIndex, endIndex, fileSource⟩ := entry
      obtain ⟨content', startIndex', endIndex', fileSource'⟩ := other
      simp only [Option.map_some, List.cons.injEq, and_true, TextAnnotation.mk.injEq, true_and,
        Option.some.injEq, Entry.mk.injEq]
      tauto

theorem find?_of_mem {digits : List Char} (h : digits ∈ annotations finalAnswer) :
    ∃ first, (annotations finalAnswer).find? (numberOf · = numberOf digits) = some first :=
  Option.isSome_iff_exists.mp (List.find?_isSome.mpr ⟨digits, h, decide_eq_true rfl⟩)

/-- The citations that come out. -/
theorem mem_parseAnswerWithCitations {citations : List Citation}
    (h : parseAnswerWithCitations entries finalAnswer = some citations) {citation : Citation} :
    citation ∈ citations ↔ citation.quotedIndex < entries.length ∧ ∃ first,
      (annotations finalAnswer).find? (numberOf · = citation.quotedIndex) = some first
        ∧ citation.annotation = annotated first := by
  rw [mem_quotedIndexes h]
  simp

end Entries

/-! ### Right citations -/

section Right

variable {entries : List Entry} {finalAnswer : List Char}

theorem citable_of_citesRight (h : CitesRight entries finalAnswer) : Citable entries finalAnswer := by
  obtain ⟨citations, hparse, numbers, -, hnumbers, hall⟩ := h
  -- every citation stands for one of the numbers, and every number for a citation
  have hcited : ∀ citation ∈ citations, ∃ k ∈ numbers, citation.annotation = annotationOf k
      ∧ entries[citation.quotedIndex]? = entries[k - 1]? := by
    intro citation hcitation
    obtain ⟨n, hn, rfl⟩ := List.getElem_of_mem hcitation
    have hn' : n < numbers.length := hall.length_eq ▸ hn
    obtain ⟨htext, entry, hentry, hstored⟩ := hall.get hn' hn
    refine ⟨numbers[n], List.getElem_mem hn', htext, ?_⟩
    obtain ⟨k, hk⟩ := Nat.exists_eq_add_of_le' ((hnumbers _).mp (List.getElem_mem hn')).1
    rw [hk, Nat.add_sub_cancel, ← lookup_numbered entries k, ← hk]
    exact ((storedAnnotations_singleton htext).mp hstored).trans hentry.symm
  refine ⟨ints_of_quotedIndexes hparse, fun hne hlast => ?_, fun k hk first hfirst => ?_⟩
  · have hmem := (hnumbers _).mpr ⟨List.length_pos_iff.mpr hne, Nat.le_refl _, hlast⟩
    obtain ⟨n, hn, hget⟩ := List.getElem_of_mem hmem
    have hn' : n < citations.length := hall.length_eq ▸ hn
    obtain ⟨htext, -⟩ := hall.get hn hn'
    obtain ⟨hlt, first, hfirst, hannotated⟩ :=
      (mem_parseAnswerWithCitations hparse).mp (List.getElem_mem hn')
    have hsame : first = Nat.toDigits 10 entries.length :=
      annotated_injective (hannotated.symm.trans (htext.trans (congrArg annotationOf hget)))
    have hindex : numberOf first = citations[n].quotedIndex := by
      simpa using List.find?_some hfirst
    rw [hsame, numberOf_toDigits] at hindex
    omega
  · obtain ⟨number, hnumber, htext, hentry⟩ := hcited ⟨k, annotated first⟩
      ((mem_parseAnswerWithCitations hparse).mpr ⟨hk, first, hfirst, rfl⟩)
    have hsame : first = Nat.toDigits 10 number := annotated_injective htext
    have hindex : numberOf first = k := by simpa using List.find?_some hfirst
    rw [hsame, numberOf_toDigits] at hindex
    subst hindex
    exact ⟨((hnumbers _).mp hnumber).1, hsame, hentry⟩

theorem citesRight_of_citable (h : Citable entries finalAnswer) : CitesRight entries finalAnswer := by
  have hparses : ∃ citations, parseAnswerWithCitations entries finalAnswer = some citations :=
    exists_quotedIndexes h.int
  obtain ⟨citations, hparse⟩ := hparses
  have hmem : ∀ citation ∈ citations, citation.quotedIndex < entries.length
      ∧ 1 ≤ citation.quotedIndex ∧ annotationOf citation.quotedIndex <:+: finalAnswer
      ∧ citation.annotation = annotationOf citation.quotedIndex
      ∧ entries[citation.quotedIndex]? = entries[citation.quotedIndex - 1]? := by
    intro citation hcitation
    obtain ⟨hlt, first, hfirst, htext⟩ := (mem_parseAnswerWithCitations hparse).mp hcitation
    obtain ⟨hone, rfl, hentry⟩ := h.others _ hlt first hfirst
    exact ⟨hlt, hone, toDigits_mem_annotations.mp (List.mem_of_find?_eq_some hfirst), htext, hentry⟩
  refine ⟨citations, hparse, citations.map (·.quotedIndex),
    nodup_quotedIndexes hparse List.nodup_nil, fun k => ⟨fun hk => ?_, ?_⟩, ?_⟩
  · obtain ⟨citation, hcitation, rfl⟩ := List.mem_map.mp hk
    obtain ⟨hlt, hone, hinfix, -, -⟩ := hmem citation hcitation
    exact ⟨hone, hlt.le, hinfix⟩
  · rintro ⟨hone, hle, hinfix⟩
    have hlt : k < entries.length := by
      refine lt_of_le_of_ne hle fun heq => h.last ?_ (heq ▸ hinfix)
      exact List.length_pos_iff.mp (by omega)
    obtain ⟨first, hfirst⟩ := find?_of_mem (toDigits_mem_annotations.mpr hinfix)
    rw [numberOf_toDigits] at hfirst
    exact List.mem_map.mpr ⟨⟨k, annotated first⟩,
      (mem_parseAnswerWithCitations hparse).mpr ⟨hlt, first, hfirst, rfl⟩, rfl⟩
  · rw [List.forall₂_map_left_iff, List.forall₂_same]
    intro citation hcitation
    obtain ⟨hlt, hone, -, htext, hentry⟩ := hmem citation hcitation
    have hfound := List.getElem?_eq_getElem hlt
    refine ⟨htext, entries[citation.quotedIndex], ?_, (storedAnnotations_singleton htext).mpr hfound⟩
    obtain ⟨k, hk⟩ := Nat.exists_eq_add_of_le' hone
    rw [← hfound, hentry, hk, lookup_numbered, Nat.add_sub_cancel]

/-- **The citations are right** if and only if the numbers make no difference. -/
theorem citesRight_iff (entries : List Entry) (finalAnswer : List Char) :
    CitesRight entries finalAnswer ↔ Citable entries finalAnswer :=
  ⟨citable_of_citesRight, citesRight_of_citable⟩

end Right

/-- An entry with a content. -/
def entryOf (content : String) : Entry where
  content := content.toList
  startIndex := 0
  endIndex := 0
  fileSource := "file".toList

/-- An annotation without a number throws, the number of the only entry is dropped, and the first of
two entries is taken for the second. -/
theorem not_citesRight :
    parseAnswerWithCitations [entryOf "A"] "x(source.)".toList = none
      ∧ parseAnswerWithCitations [entryOf "A"] "x(source.1)".toList = some []
      ∧ storedAnnotations [entryOf "A", entryOf "B"] [⟨1, "(source.1)".toList⟩]
        = [⟨"(source.1)".toList, 0, 0, "file".toList, "B".toList⟩]
      ∧ parseAnswerWithCitations [entryOf "A", entryOf "B"] "x(source.1)".toList
        = some [⟨1, "(source.1)".toList⟩]
      ∧ ¬ CitesRight [entryOf "A"] "x(source.)".toList := by
  have hthrows : parseAnswerWithCitations [entryOf "A"] "x(source.)".toList = none := by decide
  refine ⟨hthrows, by decide, by decide, by decide, ?_⟩
  rintro ⟨citations, hparse, -⟩
  rw [hthrows] at hparse
  cases hparse

end Instinct.Citations
