/-
Instinct/ChunkSizes.lean

When `MergeSplits_` keeps to the size of a chunk.

The inner loop makes room for the next piece, and adds the length of the separator only
to an open chunk without pieces.  A chunk that goes on with pieces of the one before has a
separator in front of the next piece, for which no room was made.  So the chunks keep
to the size if and only if, wherever pieces are handed over, the join of them with
the next piece does (`mergeSplits_length_le_iff`).
-/
import Instinct.PackingWindows
import Instinct.TextMerging

namespace Instinct.BaseTextSplitter

open Packing

/-- The length of two texts, one after the other, is the sum of their lengths. -/
def Additive (length : UnicodeString → Nat) : Prop :=
  ∀ text more, length (text ++ more) = length text + length more

variable {splitter : BaseTextSplitter} {separator : UnicodeString}

section Lengths

variable {length : UnicodeString → Nat}

theorem Additive.nil (h : Additive length) : length [] = 0 := by
  have hnil := h [] []
  rw [List.append_nil] at hnil
  omega

theorem Additive.le_of_isInfix (h : Additive length) {part text : UnicodeString}
    (hpart : part <:+: text) : length part ≤ length text := by
  obtain ⟨front, back, rfl⟩ := hpart
  rw [h, h]
  omega

/-- The join of a window is as long as the window is heavy. -/
theorem Additive.intercalate (h : Additive length) (separator : UnicodeString)
    (docs : List UnicodeString) :
    length (separator.intercalate docs) = load (length separator) length docs := by
  induction docs with
  | nil => exact h.nil
  | cons doc docs ih =>
      cases docs with
      | nil =>
          rw [List.intercalate_singleton, load, if_pos rfl, load]
          rfl
      | cons next docs =>
          have hload : load (length separator) length (doc :: next :: docs)
              = length doc + length separator + load (length separator) length (next :: docs) := by
            rw [load, if_neg (List.cons_ne_nil next docs)]
          rw [List.intercalate_cons_cons, h, h, ih, hload]

end Lengths

theorem length_joinDocs_le (hadd : Additive splitter.lengthCalculator)
    (docs : List UnicodeString) :
    splitter.lengthCalculator (splitter.joinDocs docs separator)
      ≤ splitter.chunkLength separator docs :=
  (hadd.le_of_isInfix (joinDocs_isInfix splitter docs separator)).trans_eq
    (hadd.intercalate separator docs)

/-- **The chunks keep to the size** if and only if those do that begin with pieces of the chunk
before: the longest run of pieces before a piece that the overlap allows and that leaves room for
the piece, and the piece. -/
theorem mergeSplits_length_le_iff (hadd : Additive splitter.lengthCalculator)
    {splits : List UnicodeString}
    (hsplits : ∀ s ∈ splits, splitter.lengthCalculator s ≤ splitter.chunkSize) :
    (∀ doc ∈ splitter.mergeSplits splits separator [],
        splitter.lengthCalculator doc ≤ splitter.chunkSize) ↔
      ∀ front run s back, splits = front ++ run ++ s :: back → run ≠ [] →
        HandsOver (splitter.limits separator) splitter.lengthCalculator
          (splitter.lengthCalculator s) front run →
        splitter.lengthCalculator (splitter.joinDocs (run ++ [s]) separator)
          ≤ splitter.chunkSize := by
  rw [mergeSplits_eq, List.nil_append]
  constructor
  · rintro h front run s back rfl hrun hover
    by_contra hlong
    have hexceeds : splitter.chunkSize < splitter.chunkLength separator (run ++ [s]) :=
      (Nat.not_le.mp hlong).trans_le (length_joinDocs_le hadd (run ++ [s]))
    have hwindow := ((exceeding_window_iff hsplits).mpr
      ⟨hexceeds, front, run, s, back, rfl, hrun, hover, rfl⟩).1
    refine hlong (h _ (mem_chunksOf_iff.mpr ⟨?_, run ++ [s], hwindow, rfl⟩))
    intro hempty
    rw [hempty, hadd.nil] at hlong
    exact hlong (Nat.zero_le _)
  · intro h doc hdoc
    obtain ⟨-, window, hwindow, rfl⟩ := mem_chunksOf_iff.mp hdoc
    by_cases hexceeds : splitter.chunkSize < splitter.chunkLength separator window
    · have hover : Overfills (splitter.limits separator) splitter.lengthCalculator splits window :=
        (exceeding_window_iff hsplits).mp ⟨hwindow, hexceeds⟩
      obtain ⟨-, front, run, s, back, hall, hrun, hover, rfl⟩ := hover
      exact h front run s back hall hrun hover
    · exact (length_joinDocs_le hadd window).trans (Nat.not_lt.mp hexceeds)

/-- A splitter for chunks of some size with an overlap of one character. -/
def overlapByOne (chunkSize : Nat) : BaseTextSplitter where
  chunkSize := chunkSize
  chunkOverlap := 1
  keepSeparator := false
  stripWhitespace := false
  lengthCalculator := List.length
  graphemes := fun text => text.map ([·])

/-- Six characters are enough for a piece that is handed over, the separator and the next piece. -/
theorem mergeSplits_length_le_six :
    (∀ doc ∈ (overlapByOne 6).mergeSplits ["a".toList, "bcd".toList] ", ".toList [],
      doc.length ≤ 6) ∧
    ((overlapByOne 6).joinDocs ["a".toList, "bcd".toList] ", ".toList).length ≤ 6 := by
  have hdocs : ∀ doc ∈ (overlapByOne 6).mergeSplits ["a".toList, "bcd".toList] ", ".toList [],
      doc.length ≤ 6 := by decide
  have hiff := @mergeSplits_length_le_iff (overlapByOne 6) ", ".toList
    (fun _ _ => List.length_append) ["a".toList, "bcd".toList] (by decide)
  exact ⟨hdocs, hiff.mp hdocs [] ["a".toList] "bcd".toList [] rfl (by decide)
    ⟨⟨by decide, by decide⟩, nofun⟩⟩

/-- The first piece is handed over, and then comes a separator. -/
theorem mergeSplits_exceeds :
    ¬ ∀ (splitter : BaseTextSplitter) (separator : UnicodeString) (splits : List UnicodeString),
      Additive splitter.lengthCalculator → splitter.chunkOverlap < splitter.chunkSize →
      (∀ s ∈ splits, splitter.lengthCalculator s ≤ splitter.chunkSize) →
      ∀ doc ∈ splitter.mergeSplits splits separator [],
        splitter.lengthCalculator doc ≤ splitter.chunkSize := by
  intro h
  have hle := h (overlapByOne 4) ", ".toList ["a".toList, "bcd".toList]
    (fun _ _ => List.length_append) (by decide) (by decide) "a, bcd".toList (by decide)
  exact absurd hle (by decide)

end Instinct.BaseTextSplitter
