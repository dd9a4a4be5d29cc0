/-
Instinct/ChunkWindows.lean

The loops of `MergeSplits_` step by step, and the chunks as windows of the pieces.

`MergePoint` is a place in the two loops with the values of the variables there, and
`mergeNext` takes one step.  At every point that is reached the total is the length of the
join of the open chunk, and a piece is only taken off a chunk that has one
(`safe_iterate`).  The steps end with the chunks of `mergeSplits` (`exists_iterate_finish`).

The chunks are joins of windows that cover the pieces and share no more than the
overlap (`mergeSplits_windows`).
-/
import Instinct.ChunkSizes
import Mathlib.Logic.Function.Iterate

namespace Instinct.BaseTextSplitter

open Packing

/-! ### The loops -/

/-- A place in the loops: in the inner one, where `shrinking`, for the first of the pieces that
are left, or else at the head of the outer one. -/
structure MergePoint where
  currentDoc : List UnicodeString := []
  total : Nat := 0
  docs : List UnicodeString := []
  rest : List UnicodeString
  shrinking : Bool := false

section Steps

variable (splitter : BaseTextSplitter) (separator : UnicodeString)

/-- The condition of the inner loop, for the next piece. -/
def Shrinks (p : MergePoint) (s : UnicodeString) : Prop :=
  splitter.chunkOverlap < p.total ∨
    splitter.chunkSize < p.total + splitter.lengthCalculator s
      + (if p.currentDoc = [] then splitter.lengthCalculator separator else 0) ∧ 0 < p.total

instance (p : MergePoint) (s : UnicodeString) : Decidable (splitter.Shrinks separator p s) :=
  inferInstanceAs (Decidable (_ ∨ _))

/-- The open chunk is full, for the next piece. -/
def Closes (p : MergePoint) (s : UnicodeString) : Prop :=
  splitter.chunkSize < p.total + splitter.lengthCalculator s
      + (if p.currentDoc = [] then 0 else splitter.lengthCalculator separator)
    ∧ p.currentDoc ≠ []

instance (p : MergePoint) (s : UnicodeString) : Decidable (splitter.Closes separator p s) :=
  inferInstanceAs (Decidable (_ ∧ _))

/-- What is subtracted from the total when the first piece is taken off the open chunk. -/
def popLength : List UnicodeString → Nat
  | [] => 0
  | front :: currentDoc =>
      splitter.lengthCalculator front
        + if currentDoc = [] then 0 else splitter.lengthCalculator separator

/-- The end of a turn of the outer loop. -/
def pushPiece (p : MergePoint) (s : UnicodeString) (rest : List UnicodeString) : MergePoint :=
  { p with
    currentDoc := p.currentDoc ++ [s]
    total := p.total + splitter.lengthCalculator s
      + if p.currentDoc = [] then 0 else splitter.lengthCalculator separator
    rest := rest
    shrinking := false }

/-- One step of the loops in `MergeSplits_`. -/
def mergeNext (p : MergePoint) : MergePoint :=
  match p.rest with
  | [] => p
  | s :: rest =>
      if p.shrinking then
        if splitter.Shrinks separator p s then
          { p with
            currentDoc := p.currentDoc.tail
            total := p.total - splitter.popLength separator p.currentDoc }
        else splitter.pushPiece separator p s rest
      else if splitter.Closes separator p s then
        let doc := splitter.joinDocs p.currentDoc separator
        { p with docs := if doc ≠ [] then p.docs ++ [doc] else p.docs, shrinking := true }
      else splitter.pushPiece separator p s rest

/-- What comes behind the loops. -/
def MergePoint.finish (p : MergePoint) : List UnicodeString :=
  let rest := splitter.joinDocs p.currentDoc separator
  if rest ≠ [] then p.docs ++ [rest] else p.docs

/-- The next step takes a piece off the open chunk. -/
def Pops (p : MergePoint) : Prop :=
  p.shrinking = true ∧ ∃ s ∈ p.rest.head?, splitter.Shrinks separator p s

/-- The total is the length of the joined window, and where a piece is taken off there is one,
and no more is subtracted than there is. -/
structure Safe (p : MergePoint) : Prop where
  total : p.total = splitter.lengthCalculator (separator.intercalate p.currentDoc)
  pops : splitter.Pops separator p →
    p.currentDoc ≠ [] ∧ splitter.popLength separator p.currentDoc ≤ p.total

end Steps

section Invariant

variable {splitter : BaseTextSplitter} {separator : UnicodeString} {p : MergePoint}

/-- The total is all that has to be kept. -/
theorem safe_iff (hadd : Additive splitter.lengthCalculator) :
    splitter.Safe separator p ↔ p.total = splitter.chunkLength separator p.currentDoc := by
  rw [chunkLength, ← hadd.intercalate]
  refine ⟨fun h => h.total, fun htotal => ⟨htotal, ?_⟩⟩
  rintro ⟨-, s, -, hshrinks⟩
  have hpos : 0 < p.total := by
    rcases hshrinks with hover | ⟨-, hpos⟩
    · exact (Nat.zero_le _).trans_lt hover
    · exact hpos
  rw [hadd.intercalate] at htotal
  cases hdoc : p.currentDoc with
  | nil =>
      rw [htotal, hdoc, load] at hpos
      exact absurd hpos (Nat.lt_irrefl 0)
  | cons front currentDoc =>
      rw [htotal, hdoc, load]
      exact ⟨List.cons_ne_nil _ _, Nat.le_add_right _ _⟩

theorem chunkLength_tail (currentDoc : List UnicodeString) :
    splitter.chunkLength separator currentDoc - splitter.popLength separator currentDoc
      = splitter.chunkLength separator currentDoc.tail := by
  cases currentDoc with
  | nil => rfl
  | cons front currentDoc =>
      rw [chunkLength, load, popLength, Nat.add_sub_cancel_left]
      rfl

theorem pushPiece_total (htotal : p.total = splitter.chunkLength separator p.currentDoc)
    (s : UnicodeString) (rest : List UnicodeString) :
    (splitter.pushPiece separator p s rest).total
      = splitter.chunkLength separator (splitter.pushPiece separator p s rest).currentDoc := by
  rw [pushPiece, chunkLength_concat, htotal]

theorem Safe.next (hadd : Additive splitter.lengthCalculator) (h : splitter.Safe separator p) :
    splitter.Safe separator (splitter.mergeNext separator p) := by
  rw [safe_iff hadd] at h ⊢
  unfold mergeNext
  split
  · exact h
  · split
    · split
      · show p.total - _ = _
        rw [h, chunkLength_tail]
      · exact pushPiece_total h _ _
    · split
      · exact h
      · exact pushPiece_total h _ _

/-- **No step goes wrong.** -/
theorem safe_iterate (hadd : Additive splitter.lengthCalculator) (splits : List UnicodeString)
    (n : Nat) :
    splitter.Safe separator ((splitter.mergeNext separator)^[n] { rest := splits }) := by
  induction n with
  | zero => exact (safe_iff hadd).mpr rfl
  | succ n ih =>
      rw [Function.iterate_succ_apply']
      exact ih.next hadd

end Invariant

/-! ### The end of the loops -/

section Run

variable {splitter : BaseTextSplitter} {separator : UnicodeString}

/-- The inner loop goes on as long as the open chunk may not be handed over. -/
theorem shrinks_iff {p : MergePoint}
    (htotal : p.total = splitter.chunkLength separator p.currentDoc) (s : UnicodeString) :
    splitter.Shrinks separator p s ↔
      ¬ Keeps (splitter.limits separator) splitter.lengthCalculator (splitter.lengthCalculator s)
        p.currentDoc := by
  have hload : load (splitter.limits separator).gap splitter.lengthCalculator p.currentDoc
      = p.total := htotal.symm
  rw [Shrinks, Keeps, hload]
  show splitter.chunkOverlap < p.total ∨ splitter.chunkSize < _ ∧ 0 < p.total ↔
    ¬ (p.total ≤ splitter.chunkOverlap ∧ (_ ≤ splitter.chunkSize ∨ p.total = 0))
  by_cases hdoc : p.currentDoc = []
  · have hzero : p.total = 0 := by
      rw [htotal, hdoc]
      rfl
    omega
  · rw [if_neg hdoc]
    omega

section Point

variable {p : MergePoint} {s : UnicodeString} {rest : List UnicodeString}

theorem mergeNext_inner (hrest : p.rest = s :: rest) (hin : p.shrinking = true) :
    splitter.mergeNext separator p
      = if splitter.Shrinks separator p s then
          { p with
            currentDoc := p.currentDoc.tail
            total := p.total - splitter.popLength separator p.currentDoc }
        else splitter.pushPiece separator p s rest := by
  rw [mergeNext, hrest]
  exact if_pos hin

theorem mergeNext_outer (hrest : p.rest = s :: rest) (hout : p.shrinking = false) :
    splitter.mergeNext separator p
      = if splitter.Closes separator p s then
          { p with
            docs := p.docs ++ splitter.chunksOf separator [p.currentDoc]
            shrinking := true }
        else splitter.pushPiece separator p s rest := by
  have hdocs : (if splitter.joinDocs p.currentDoc separator ≠ [] then
        p.docs ++ [splitter.joinDocs p.currentDoc separator] else p.docs)
      = p.docs ++ splitter.chunksOf separator [p.currentDoc] := by
    by_cases hdoc : splitter.joinDocs p.currentDoc separator = []
    · simp [chunksOf, hdoc]
    · simp [chunksOf, hdoc]
  rw [← hdocs, mergeNext, hrest]
  exact if_neg (by simp [hout])

end Point

/-- The point at which the inner loop begins, or goes on. -/
def shrinkingPoint (splitter : BaseTextSplitter) (separator : UnicodeString)
    (currentDoc docs rest : List UnicodeString) : MergePoint where
  currentDoc := currentDoc
  total := splitter.chunkLength separator currentDoc
  docs := docs
  rest := rest
  shrinking := true

/-- The inner loop leaves what is handed over, and the next piece is put behind it. -/
theorem exists_iterate_shrink (s : UnicodeString) (rest docs currentDoc : List UnicodeString) :
    ∃ n, (splitter.mergeNext separator)^[n]
        (splitter.shrinkingPoint separator currentDoc docs (s :: rest))
      = splitter.pushPiece separator (splitter.shrinkingPoint separator
          (handOver (splitter.limits separator) splitter.lengthCalculator
            (splitter.lengthCalculator s) currentDoc) docs (s :: rest)) s rest := by
  induction currentDoc with
  | nil =>
      have hstops : ¬ splitter.Shrinks separator
          (splitter.shrinkingPoint separator [] docs (s :: rest)) s :=
        fun hshrinks => (shrinks_iff rfl s).mp hshrinks ⟨Nat.zero_le _, .inr rfl⟩
      refine ⟨1, ?_⟩
      rw [Function.iterate_one, mergeNext_inner rfl rfl, if_neg hstops]
      rfl
  | cons front currentDoc ih =>
      by_cases hkeeps : Keeps (splitter.limits separator) splitter.lengthCalculator
        (splitter.lengthCalculator s) (front :: currentDoc)
      · refine ⟨1, ?_⟩
        rw [handOver_of_keeps hkeeps, Function.iterate_one, mergeNext_inner rfl rfl,
          if_neg fun hshrinks => (shrinks_iff rfl s).mp hshrinks hkeeps]
      · obtain ⟨n, hn⟩ := ih
        refine ⟨n + 1, ?_⟩
        have hpop : splitter.mergeNext separator
              (splitter.shrinkingPoint separator (front :: currentDoc) docs (s :: rest))
            = splitter.shrinkingPoint separator currentDoc docs (s :: rest) := by
          rw [mergeNext_inner rfl rfl, if_pos ((shrinks_iff rfl s).mpr hkeeps)]
          simp only [shrinkingPoint, chunkLength_tail]
          rfl
        rw [handOver_cons_of_not_keeps hkeeps, Function.iterate_succ_apply, hpop, hn]

/-- A turn of the outer loop. -/
theorem exists_iterate_mergeStep {m : Merging}
    (hm : m.total = splitter.chunkLength separator m.currentDoc) (s : UnicodeString)
    (rest : List UnicodeString) :
    ∃ n, (splitter.mergeNext separator)^[n]
        { currentDoc := m.currentDoc, total := m.total, docs := m.docs, rest := s :: rest }
      = { currentDoc := (splitter.mergeStep separator m s).currentDoc
          total := (splitter.mergeStep separator m s).total
          docs := (splitter.mergeStep separator m s).docs, rest := rest } := by
  rw [mergeStep_eq hm]
  have hcloses : splitter.Closes separator
      { currentDoc := m.currentDoc, total := m.total, docs := m.docs, rest := s :: rest } s ↔
      m.currentDoc ≠ []
        ∧ Exceeds (splitter.limits separator) splitter.lengthCalculator m.currentDoc s := by
    rw [Closes, hm, and_comm]
    rfl
  by_cases hclosed : m.currentDoc ≠ []
      ∧ Exceeds (splitter.limits separator) splitter.lengthCalculator m.currentDoc s
  · obtain ⟨n, hn⟩ := @exists_iterate_shrink splitter separator s rest
      (m.docs ++ splitter.chunksOf separator [m.currentDoc]) m.currentDoc
    refine ⟨n + 1, ?_⟩
    have hclose : splitter.mergeNext separator
          { currentDoc := m.currentDoc, total := m.total, docs := m.docs, rest := s :: rest }
        = splitter.shrinkingPoint separator m.currentDoc
            (m.docs ++ splitter.chunksOf separator [m.currentDoc]) (s :: rest) := by
      rw [mergeNext_outer rfl rfl, if_pos (hcloses.mpr hclosed), shrinkingPoint, hm]
    rw [if_pos hclosed, Function.iterate_succ_apply, hclose, hn, pushPiece, shrinkingPoint]
    simp only [chunkLength_concat]
  · refine ⟨1, ?_⟩
    rw [if_neg hclosed, Function.iterate_one, mergeNext_outer rfl rfl,
      if_neg (mt hcloses.mp hclosed), pushPiece]
    simp only [hm, chunkLength_concat]

/-- The loops come to an end. -/
theorem exists_iterate_foldl {m : Merging}
    (hm : m.total = splitter.chunkLength separator m.currentDoc) (splits : List UnicodeString) :
    ∃ n, (splitter.mergeNext separator)^[n]
        { currentDoc := m.currentDoc, total := m.total, docs := m.docs, rest := splits }
      = { currentDoc := (splits.foldl (splitter.mergeStep separator) m).currentDoc
          total := (splits.foldl (splitter.mergeStep separator) m).total
          docs := (splits.foldl (splitter.mergeStep separator) m).docs, rest := [] } := by
  induction splits generalizing m with
  | nil => exact ⟨0, rfl⟩
  | cons s splits ih =>
      obtain ⟨turn, hturn⟩ := exists_iterate_mergeStep hm s splits
      have hnext : (splitter.mergeStep separator m s).total
          = splitter.chunkLength separator (splitter.mergeStep separator m s).currentDoc := by
        rw [mergeStep_eq hm]
        split
        · rfl
        · rfl
      obtain ⟨n, hn⟩ := ih hnext
      refine ⟨n + turn, ?_⟩
      rw [Function.iterate_add_apply, hturn, hn]
      rfl

/-- **The steps are those of `MergeSplits_`.** -/
theorem exists_iterate_finish (splitter : BaseTextSplitter) (separator : UnicodeString)
    (splits : List UnicodeString) : ∃ n,
    ((splitter.mergeNext separator)^[n] { rest := splits }).rest = [] ∧
      ((splitter.mergeNext separator)^[n] { rest := splits }).finish splitter separator
        = splitter.mergeSplits splits separator [] := by
  obtain ⟨n, hn⟩ := @exists_iterate_foldl splitter separator { docs := [] } rfl splits
  refine ⟨n, ?_⟩
  have hend : (splitter.mergeNext separator)^[n] { rest := splits } = _ := hn
  rw [hend]
  exact ⟨rfl, rfl⟩

end Run

/-! ### Windows -/

section Windows

variable (splitter : BaseTextSplitter) (separator : UnicodeString)

/-- The windows between some bounds cover the pieces in their order, and the join of what two of
them share is no longer than the overlap. -/
structure IsWindowing (splits : List UnicodeString) (bounds : List (Nat × Nat)) : Prop where
  head : splits ≠ [] → ∃ stop, bounds.head? = some (0, stop)
  last : splits ≠ [] → ∃ start, bounds.getLast? = some (start, splits.length)
  some : ∀ p ∈ bounds, p.1 < p.2 ∧ p.2 ≤ splits.length
  chain : bounds.IsChain fun p q => p.1 ≤ q.1 ∧ p.2 < q.2 ∧ q.1 ≤ p.2 ∧
    splitter.lengthCalculator (separator.intercalate (slice splits (q.1, p.2)))
      ≤ splitter.chunkOverlap

theorem intercalate_ne_nil {docs : List UnicodeString} (hdocs : docs ≠ [])
    (hsome : ∀ doc ∈ docs, doc ≠ []) : separator.intercalate docs ≠ [] := by
  obtain ⟨doc, docs, rfl⟩ := List.exists_cons_of_ne_nil hdocs
  have hdoc := hsome doc List.mem_cons_self
  cases docs with
  | nil => rwa [List.intercalate_singleton]
  | cons next docs =>
      rw [List.intercalate_cons_cons]
      simp [hdoc]

/-- **`MergeSplits_` of pieces with text.**  At every point of the loops the total is the length of
the join of the open chunk, and a piece is only taken off one that has it.  The chunks are the
joins of windows that cover the pieces. -/
theorem mergeSplits_windows (hstrip : splitter.stripWhitespace = false)
    (hadd : Additive splitter.lengthCalculator) (splits : List UnicodeString)
    (hsplits : ∀ s ∈ splits, s ≠ []) :
    (∀ n, splitter.Safe separator ((splitter.mergeNext separator)^[n] { rest := splits })) ∧
    (∃ n, ((splitter.mergeNext separator)^[n] { rest := splits }).rest = [] ∧
      ((splitter.mergeNext separator)^[n] { rest := splits }).finish splitter separator
        = splitter.mergeSplits splits separator []) ∧
    ∃ bounds, splitter.IsWindowing separator splits bounds ∧
      splitter.mergeSplits splits separator []
        = bounds.map fun p => separator.intercalate (slice splits p) := by
  refine ⟨safe_iterate hadd splits, exists_iterate_finish splitter separator splits, ?_⟩
  by_cases hsome : splits = []
  · subst hsome
    exact ⟨[], ⟨fun h => absurd rfl h, fun h => absurd rfl h, nofun, .nil⟩,
      (mergeSplits_eq [] []).trans (by simp [chunksOf, pack, packFrom, joinDocs, hstrip])⟩
  · obtain ⟨bounds, hpack, hcovers⟩ := pack_eq_slices (splitter.limits separator)
      splitter.lengthCalculator hsome
    refine ⟨bounds, ⟨fun _ => hcovers.head, fun _ => hcovers.last, hcovers.some,
      hcovers.chain.imp fun p q h => ⟨h.starts, h.ends, h.meets, ?_⟩⟩, ?_⟩
    · rw [hadd.intercalate]
      exact h.shared
    · have hjoin : ∀ docs, splitter.joinDocs docs separator = separator.intercalate docs := by
        intro docs
        rw [joinDocs, hstrip]
        rfl
      simp only [mergeSplits_eq, hpack, List.nil_append, chunksOf, List.map_map, hjoin]
      refine List.filter_eq_self.mpr fun doc hdoc => decide_eq_true ?_
      obtain ⟨p, hp, rfl⟩ := List.mem_map.mp hdoc
      exact intercalate_ne_nil separator (slice_ne_nil (hcovers.some p hp))
        fun s hs => hsplits s (mem_of_mem_slice hs)

/-- Three pieces, of which the second is in both chunks. -/
theorem mergeSplits_windows_shared : ∃ bounds,
    { overlapByOne 4 with chunkOverlap := 2 }.IsWindowing [] ["ab".toList, "cd".toList, "ef".toList]
        bounds ∧
      { overlapByOne 4 with chunkOverlap := 2 }.mergeSplits
          ["ab".toList, "cd".toList, "ef".toList] [] []
        = bounds.map fun p =>
            List.intercalate [] (slice ["ab".toList, "cd".toList, "ef".toList] p) :=
  (mergeSplits_windows { overlapByOne 4 with chunkOverlap := 2 } [] rfl
    (fun _ _ => List.length_append) ["ab".toList, "cd".toList, "ef".toList] (by decide)).2.2

example : { overlapByOne 4 with chunkOverlap := 2 }.mergeSplits
    ["ab".toList, "cd".toList, "ef".toList] [] [] = ["abcd".toList, "cdef".toList] := by decide

end Windows

end Instinct.BaseTextSplitter
