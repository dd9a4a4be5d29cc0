/-
Instinct/TextMerging.lean

`BaseTextSplitter::MergeSplits_`: the pieces of a text are put together again to
chunks, and the splitter that does nothing else, `CharacterTextSplitter`.

The loop keeps the pieces of the open chunk and their length with the separators
between them.  So it packs them as `Packing` does, and each chunk is the join of
one window (`mergeSplits_eq`).
-/
import Instinct.Packing
import Instinct.TextSplitters
import Mathlib.Data.List.DropRight

namespace Instinct

open Packing

/-! ### The model -/

/-- `BaseTextSplitter`.  The sizes are the unsigned numbers as which they are compared, and
`graphemes` is the `BreakIterator` of the default locale. -/
structure BaseTextSplitter where
  chunkSize : Nat
  chunkOverlap : Nat
  keepSeparator : Bool
  stripWhitespace : Bool
  lengthCalculator : UnicodeString → Nat
  graphemes : UnicodeString → List UnicodeString

/-- `u_isWhitespace`: the separators of Unicode without the no-break spaces, and some control
characters. -/
def isUnicodeSpace (c : Char) : Bool :=
  (0x09 ≤ c.toNat && c.toNat ≤ 0x0d) || (0x1c ≤ c.toNat && c.toNat ≤ 0x20) || c.toNat = 0x1680
    || (0x2000 ≤ c.toNat && c.toNat ≤ 0x200a && c.toNat ≠ 0x2007) || c.toNat = 0x2028
    || c.toNat = 0x2029 || c.toNat = 0x205f || c.toNat = 0x3000

/-- `UnicodeString::trim`. -/
def trim (text : UnicodeString) : UnicodeString :=
  (text.rdropWhile isUnicodeSpace).dropWhile isUnicodeSpace

theorem trim_isInfix (text : UnicodeString) : trim text <:+: text :=
  (List.dropWhile_suffix _).isInfix.trans (List.rdropWhile_prefix _ text).isInfix

namespace BaseTextSplitter

variable (splitter : BaseTextSplitter)

/-- `JoinDocs_`. -/
def joinDocs (docs : List UnicodeString) (separator : UnicodeString) : UnicodeString :=
  let text := separator.intercalate docs
  if splitter.stripWhitespace then trim text else text

/-- The variables of the loop in `MergeSplits_`. -/
structure Merging where
  currentDoc : List UnicodeString := []
  total : Nat := 0
  docs : List UnicodeString

/-- The inner loop, which takes pieces from the front of the open chunk.  Without pieces the
total is zero and the loop ends. -/
def shrink (sLen dLen : Nat) : List UnicodeString → Nat → List UnicodeString × Nat
  | [], total => ([], total)
  | front :: currentDoc, total =>
      if splitter.chunkOverlap < total ∨ splitter.chunkSize < total + dLen ∧ 0 < total then
        shrink sLen dLen currentDoc
          (total - (splitter.lengthCalculator front + if currentDoc = [] then 0 else sLen))
      else (front :: currentDoc, total)

/-- One turn of the loop in `MergeSplits_`. -/
def mergeStep (separator : UnicodeString) (m : Merging) (s : UnicodeString) : Merging :=
  let sLen := splitter.lengthCalculator separator
  let dLen := splitter.lengthCalculator s
  let m :=
    if splitter.chunkSize < m.total + dLen + (if m.currentDoc = [] then 0 else sLen)
        ∧ m.currentDoc ≠ [] then
      let doc := splitter.joinDocs m.currentDoc separator
      let rest := splitter.shrink sLen dLen m.currentDoc m.total
      { currentDoc := rest.1, total := rest.2
        docs := if doc ≠ [] then m.docs ++ [doc] else m.docs }
    else m
  { m with
    currentDoc := m.currentDoc ++ [s]
    total := m.total + dLen + if m.currentDoc = [] then 0 else sLen }

/-- `MergeSplits_`, with the `docs` it appends to. -/
def mergeSplits (splits : List UnicodeString) (separator : UnicodeString)
    (docs : List UnicodeString) : List UnicodeString :=
  let m := splits.foldl (splitter.mergeStep separator) { docs := docs }
  let rest := splitter.joinDocs m.currentDoc separator
  if rest ≠ [] then m.docs ++ [rest] else m.docs

end BaseTextSplitter

/-- `CharacterTextSplitter::SplitText`. -/
def characterSplitText (splitter : BaseTextSplitter) (separator text : UnicodeString) :
    Except Exn (List UnicodeString) :=
  let sep := escapeForRegularExpression separator
  match splitTextWithSeperator splitter.graphemes text sep splitter.keepSeparator with
  | .error e => .error e
  | .ok splits => .ok (splitter.mergeSplits splits sep [])

/-! ### The chunks are windows -/

namespace BaseTextSplitter

variable {splitter : BaseTextSplitter} {separator : UnicodeString}

/-- What a chunk may hold, when its pieces are joined by a separator. -/
def limits (splitter : BaseTextSplitter) (separator : UnicodeString) : Limits where
  gap := splitter.lengthCalculator separator
  size := splitter.chunkSize
  overlap := splitter.chunkOverlap

/-- The length that the loop keeps. -/
def chunkLength (splitter : BaseTextSplitter) (separator : UnicodeString) :
    List UnicodeString → Nat :=
  load (splitter.lengthCalculator separator) splitter.lengthCalculator

theorem shrink_eq (dLen : Nat) (currentDoc : List UnicodeString) :
    splitter.shrink (splitter.lengthCalculator separator) dLen currentDoc
        (splitter.chunkLength separator currentDoc)
      = (handOver (splitter.limits separator) splitter.lengthCalculator dLen currentDoc,
          splitter.chunkLength separator
            (handOver (splitter.limits separator) splitter.lengthCalculator dLen currentDoc)) := by
  induction currentDoc with
  | nil => rfl
  | cons front currentDoc ih =>
      have hless : splitter.chunkLength separator (front :: currentDoc)
            - (splitter.lengthCalculator front
              + if currentDoc = [] then 0 else splitter.lengthCalculator separator)
          = splitter.chunkLength separator currentDoc := by
        rw [chunkLength, load, Nat.add_sub_cancel_left]
      have hhand : handOver (splitter.limits separator) splitter.lengthCalculator dLen
            (front :: currentDoc)
          = if splitter.chunkOverlap < splitter.chunkLength separator (front :: currentDoc)
              ∨ splitter.chunkSize < splitter.chunkLength separator (front :: currentDoc) + dLen
                ∧ 0 < splitter.chunkLength separator (front :: currentDoc)
            then handOver (splitter.limits separator) splitter.lengthCalculator dLen currentDoc
            else front :: currentDoc := rfl
      rw [shrink, hhand, hless, ih]
      split
      · rfl
      · rfl

theorem chunkLength_concat (currentDoc : List UnicodeString) (s : UnicodeString) :
    splitter.chunkLength separator (currentDoc ++ [s])
      = splitter.chunkLength separator currentDoc + splitter.lengthCalculator s
        + if currentDoc = [] then 0 else splitter.lengthCalculator separator :=
  load_concat _ _ currentDoc s

/-- The join of a window, if there is any text in it. -/
def chunksOf (splitter : BaseTextSplitter) (separator : UnicodeString)
    (windows : List (List UnicodeString)) : List UnicodeString :=
  (windows.map (splitter.joinDocs · separator)).filter (· ≠ [])

theorem mergeStep_eq {m : Merging} (hm : m.total = splitter.chunkLength separator m.currentDoc)
    (s : UnicodeString) :
    splitter.mergeStep separator m s
      = if m.currentDoc ≠ []
            ∧ Exceeds (splitter.limits separator) splitter.lengthCalculator m.currentDoc s then
          let currentDoc := handOver (splitter.limits separator) splitter.lengthCalculator
            (splitter.lengthCalculator s) m.currentDoc ++ [s]
          { currentDoc, total := splitter.chunkLength separator currentDoc
            docs := m.docs ++ splitter.chunksOf separator [m.currentDoc] }
        else
          { m with
            currentDoc := m.currentDoc ++ [s]
            total := splitter.chunkLength separator (m.currentDoc ++ [s]) } := by
  have hcloses : splitter.chunkSize < m.total + splitter.lengthCalculator s
        + (if m.currentDoc = [] then 0 else splitter.lengthCalculator separator)
      ↔ Exceeds (splitter.limits separator) splitter.lengthCalculator m.currentDoc s := by
    rw [hm]
    exact Iff.rfl
  rw [mergeStep]
  simp only [hcloses]
  by_cases hclosed : m.currentDoc ≠ []
      ∧ Exceeds (splitter.limits separator) splitter.lengthCalculator m.currentDoc s
  · rw [if_pos hclosed, if_pos hclosed.symm, hm, shrink_eq]
    simp only [chunkLength_concat]
    by_cases hdoc : splitter.joinDocs m.currentDoc separator = []
    · simp [chunksOf, hdoc]
    · simp [chunksOf, hdoc]
  · rw [if_neg hclosed, if_neg (mt And.symm hclosed), hm, chunkLength_concat]

theorem foldl_mergeStep (splitter : BaseTextSplitter) (separator : UnicodeString)
    (splits : List UnicodeString) {m : Merging}
    (hm : m.total = splitter.chunkLength separator m.currentDoc) :
    (splits.foldl (splitter.mergeStep separator) m).docs
        ++ splitter.chunksOf separator [(splits.foldl (splitter.mergeStep separator) m).currentDoc]
      = m.docs ++ splitter.chunksOf separator
          (packFrom (splitter.limits separator) splitter.lengthCalculator m.currentDoc splits) := by
  induction splits generalizing m with
  | nil => rfl
  | cons s splits ih =>
      rw [List.foldl_cons, mergeStep_eq hm, packFrom]
      split
      · rw [ih rfl, List.append_assoc, chunksOf, chunksOf, chunksOf, ← List.filter_append,
          ← List.map_append]
        rfl
      · exact ih rfl

/-- **Each chunk is the join of a window.**  Joins without text are left out. -/
theorem mergeSplits_eq (splits docs : List UnicodeString) :
    splitter.mergeSplits splits separator docs
      = docs ++ splitter.chunksOf separator
          (pack (splitter.limits separator) splitter.lengthCalculator splits) := by
  have hfold := foldl_mergeStep splitter separator splits (m := { docs := docs }) rfl
  rw [pack, ← hfold, mergeSplits]
  by_cases hrest : splitter.joinDocs (splits.foldl (splitter.mergeStep separator)
      { docs := docs }).currentDoc separator = []
  · simp [chunksOf, hrest]
  · simp [chunksOf, hrest]

/-- All chunks that the pieces are merged to have a property. -/
def MergesTo (splitter : BaseTextSplitter) (ok : UnicodeString → Prop) (separator : UnicodeString)
    (splits : List UnicodeString) : Prop :=
  ∀ doc ∈ splitter.chunksOf separator
    (pack (splitter.limits separator) splitter.lengthCalculator splits), ok doc

/-- A join that is not empty is a chunk. -/
theorem mem_chunksOf_iff {windows : List (List UnicodeString)} {doc : UnicodeString} :
    doc ∈ splitter.chunksOf separator windows ↔
      doc ≠ [] ∧ ∃ window ∈ windows, splitter.joinDocs window separator = doc := by
  rw [chunksOf, List.mem_filter, List.mem_map, and_comm, decide_eq_true_iff]

theorem joinDocs_isInfix (splitter : BaseTextSplitter) (docs : List UnicodeString)
    (separator : UnicodeString) :
    splitter.joinDocs docs separator <:+: separator.intercalate docs := by
  simp only [joinDocs]
  split
  · exact trim_isInfix _
  · exact List.infix_refl _

theorem length_flatten_eq_load (docs : List UnicodeString) :
    docs.flatten.length = load 0 List.length docs := by
  induction docs with
  | nil => rfl
  | cons doc docs ih =>
      rw [List.flatten_cons, List.length_append, load, ih, ite_self]
      omega

theorem intercalate_nil_eq_flatten (docs : List UnicodeString) :
    List.intercalate [] docs = docs.flatten := by
  induction docs with
  | nil => rfl
  | cons doc docs ih =>
      cases docs with
      | nil => rw [List.intercalate_singleton, List.flatten_singleton]
      | cons next docs =>
          rw [List.intercalate_cons_cons, ih, List.append_nil]
          rfl

/-- Pieces that are joined without separators make chunks that keep to the size. -/
theorem length_le_of_mem_mergeSplits (hlength : splitter.lengthCalculator = List.length)
    {splits : List UnicodeString} (hsplits : ∀ s ∈ splits, s.length ≤ splitter.chunkSize) :
    splitter.MergesTo (·.length ≤ splitter.chunkSize) [] splits := by
  intro doc hdoc
  obtain ⟨-, window, hwindow, rfl⟩ := mem_chunksOf_iff.mp hdoc
  have hgap : (splitter.limits []).gap = 0 := congrFun hlength []
  rw [hlength] at hwindow
  calc (splitter.joinDocs window []).length
      ≤ (List.intercalate [] window).length := (joinDocs_isInfix splitter window []).length_le
    _ = load 0 List.length window := by rw [intercalate_nil_eq_flatten, length_flatten_eq_load]
    _ ≤ splitter.chunkSize := load_le_of_mem_packFrom hgap (Nat.zero_le _) hsplits hwindow

end BaseTextSplitter

end Instinct
