/-
Instinct/MultiPathRetriever.lean

`MultiPathRetriever::Retrieve`: the documents of several retrievers, ranked by a
score.

The scores are sorted with the ids, and each id goes to the last document that has
it.  The iterator sends the documents of the first ids on, and returns without
`on_completed`, so that it never completes (`not_retrievesRight`).  Where no id
occurs twice, nothing else is missing (`retrievesRight_completed`).

The iterator captures variables of `Retrieve` by reference, which are dead when it runs.
They are taken as they were, and what the undefined behaviour makes of them is left out.
-/
import Instinct.DuckDbStore
import Mathlib.Data.List.Dedup
import Mathlib.Algebra.Order.Ring.Rat

namespace Instinct.MultiPathRetriever

open DuckDbStore

/-! ### The model -/

/-- What an observer sees. -/
inductive Signal
  | next (doc : Document)
  | completed
  deriving DecidableEq

/-- `doc_id_with_score`, before it is sorted. -/
def docIdWithScore (score : List Char → ℚ) (docs : List Document) : List (List Char × ℚ) :=
  docs.map fun doc => (doc.id, score doc.text)

/-- `docs.at(doc_id_idx.at(doc_id))`: the last document of an id. -/
def documentAt (docs : List Document) (id : List Char) : Option Document :=
  docs.reverse.find? (·.id = id)

/-- The iterator of `Retrieve`, with what it sends to its observer.  A single retriever is asked
itself.  `std::ranges::sort` puts equal scores in any order. -/
def Retrieves (score : List Char → ℚ) (topK : Int32) : List (List Document) → List Signal → Prop
  | [child], signals => signals = child.map .next ++ [.completed]
  | children, signals => ∃ sorted : List (List Char × ℚ),
      sorted.Perm (docIdWithScore score children.flatten)
        ∧ sorted.Pairwise (fun a b => b.2 ≤ a.2)
        ∧ List.Forall₂ (fun entry signal => ∃ doc,
            documentAt children.flatten entry.1 = some doc ∧ signal = .next doc)
          (sorted.take topK.toInt.toNat) signals

/-- **What is asked of the iterator**: the best documents, one for each id, in the order of their
scores, and that it completes. -/
def RetrievesRight (score : List Char → ℚ) (topK : Int32) (docs : List Document)
    (signals : List Signal) : Prop :=
  ∃ emitted : List Document, signals = emitted.map .next ++ [.completed]
    ∧ emitted.length = min topK.toInt.toNat (docs.map (·.id)).dedup.length
    ∧ (emitted.map (·.id)).Nodup
    ∧ (∀ doc ∈ emitted, doc ∈ docs)
    ∧ emitted.Pairwise (fun a b => score b.text ≤ score a.text)
    ∧ ∀ doc ∈ docs, doc.id ∉ emitted.map (·.id) →
        ∀ other ∈ emitted, score doc.text ≤ score other.text

/-! ### What is sent -/

section Sent

variable {score : List Char → ℚ} {topK : Int32} {docs : List Document}
  {children : List (List Document)}
  {signals : List Signal}

theorem documentAt_of_mem {id : List Char} (h : id ∈ docs.map (·.id)) :
    ∃ doc, documentAt docs id = some doc := by
  obtain ⟨doc, hdoc, rfl⟩ := List.mem_map.mp h
  refine Option.isSome_iff_exists.mp (List.find?_isSome.mpr ⟨doc, List.mem_reverse.mpr hdoc, ?_⟩)
  exact decide_eq_true rfl

/-- The iterator can always be run. -/
theorem exists_retrieves (score : List Char → ℚ) (topK : Int32) (first second : List Document)
    (rest : List (List Document)) :
    ∃ signals, Retrieves score topK (first :: second :: rest) signals := by
  let docs := (first :: second :: rest).flatten
  let sorted := (docIdWithScore score docs).mergeSort fun a b => b.2 ≤ a.2
  have hperm : sorted.Perm (docIdWithScore score docs) := List.mergeSort_perm _ _
  have hsorted : sorted.Pairwise fun a b => b.2 ≤ a.2 := by
    have htrans : ∀ a b c : List Char × ℚ, decide (b.2 ≤ a.2) = true → decide (c.2 ≤ b.2) = true →
        decide (c.2 ≤ a.2) = true := fun a b c hab hbc =>
      decide_eq_true ((of_decide_eq_true hbc).trans (of_decide_eq_true hab))
    refine (List.pairwise_mergeSort htrans (fun a b => ?_) _).imp of_decide_eq_true
    simpa using le_total b.2 a.2
  have hfound : ∀ entry ∈ sorted.take topK.toInt.toNat, ∃ doc,
      documentAt docs entry.1 = some doc := by
    intro entry hentry
    obtain ⟨doc, hdoc, rfl⟩ := List.mem_map.mp (hperm.mem_iff.mp (List.mem_of_mem_take hentry))
    exact documentAt_of_mem (List.mem_map_of_mem hdoc)
  refine ⟨(sorted.take topK.toInt.toNat).map fun entry =>
    .next ((documentAt docs entry.1).getD ⟨[], [], []⟩), sorted, hperm, hsorted, ?_⟩
  rw [List.forall₂_map_right_iff, List.forall₂_same]
  intro entry hentry
  obtain ⟨doc, hdoc⟩ := hfound entry hentry
  exact ⟨doc, hdoc, by rw [hdoc, Option.getD_some]⟩

/-- No signal of several retrievers is a completion. -/
theorem ne_completed {first second : List Document} {rest : List (List Document)} {signal : Signal}
    (h : Retrieves score topK (first :: second :: rest) signals) (hsignal : signal ∈ signals) :
    signal ≠ .completed := by
  obtain ⟨sorted, -, -, hsent⟩ := h
  obtain ⟨n, hn, rfl⟩ := List.getElem_of_mem hsignal
  obtain ⟨doc, -, hdoc⟩ := hsent.get (hsent.length_eq ▸ hn) hn
  exact fun h => nomatch hdoc.symm.trans h

/-- Where no id occurs twice, an id goes to its own document. -/
theorem documentAt_of_nodup {doc : Document} (hnodup : (docs.map (·.id)).Nodup) (hdoc : doc ∈ docs) :
    documentAt docs doc.id = some doc := by
  obtain ⟨found, hfound⟩ := documentAt_of_mem (List.mem_map_of_mem hdoc)
  have hmem : found ∈ docs := List.mem_reverse.mp (List.mem_of_find?_eq_some hfound)
  have hid : found.id = doc.id := by
    unfold documentAt at hfound
    simpa using List.find?_some hfound
  rw [hfound, List.inj_on_of_nodup_map hnodup hmem hdoc hid]

/-- What has been sent, as documents. -/
theorem exists_emitted {entries : List (List Char × ℚ)}
    (h : List.Forall₂ (fun entry signal => ∃ doc ∈ docs, (doc.id, score doc.text) = entry
      ∧ signal = .next doc) entries signals) :
    ∃ emitted : List Document, signals = emitted.map .next ∧ (∀ doc ∈ emitted, doc ∈ docs)
      ∧ docIdWithScore score emitted = entries := by
  induction h with
  | nil => exact ⟨[], rfl, fun _ hdoc => absurd hdoc List.not_mem_nil, rfl⟩
  | cons hfirst _ ih =>
      obtain ⟨doc, hdoc, rfl, rfl⟩ := hfirst
      obtain ⟨emitted, rfl, hmem, rfl⟩ := ih
      exact ⟨doc :: emitted, rfl, List.forall_mem_cons.mpr ⟨hdoc, hmem⟩, rfl⟩

/-- **Several retrievers never complete.** -/
theorem not_retrievesRight (score : List Char → ℚ) (topK : Int32) (first second : List Document)
    (rest : List (List Document)) :
    (∃ signals, Retrieves score topK (first :: second :: rest) signals)
      ∧ ∀ signals, Retrieves score topK (first :: second :: rest) signals →
        ¬ RetrievesRight score topK (first :: second :: rest).flatten signals := by
  refine ⟨exists_retrieves score topK first second rest, fun signals hsent hright => ?_⟩
  obtain ⟨emitted, rfl, -⟩ := hright
  exact ne_completed hsent (List.mem_append_right _ (List.mem_singleton_self _)) rfl

/-- **Only the completion is missing** where no id occurs twice. -/
theorem retrievesRight_completed {first second : List Document} {rest : List (List Document)}
    (hnodup : ((first :: second :: rest).flatten.map (·.id)).Nodup)
    (h : Retrieves score topK (first :: second :: rest) signals) :
    RetrievesRight score topK (first :: second :: rest).flatten (signals ++ [.completed]) := by
  obtain ⟨sorted, hperm, hsorted, hsent⟩ := h
  generalize (first :: second :: rest).flatten = docs at hnodup hperm hsent
  have hentries : ∀ entry ∈ sorted, ∃ doc ∈ docs, (doc.id, score doc.text) = entry :=
    fun entry hentry => List.mem_map.mp (hperm.mem_iff.mp hentry)
  obtain ⟨emitted, rfl, hmem, hemitted⟩ : ∃ emitted : List Document, signals = emitted.map .next
      ∧ (∀ doc ∈ emitted, doc ∈ docs)
      ∧ docIdWithScore score emitted = sorted.take topK.toInt.toNat := by
    refine exists_emitted (((List.forall₂_and_left _ _).mpr
      ⟨fun entry hentry => hentries entry (List.mem_of_mem_take hentry), hsent⟩).imp ?_)
    rintro entry signal ⟨⟨doc, hdoc, rfl⟩, found, hfound, rfl⟩
    rw [documentAt_of_nodup hnodup hdoc] at hfound
    obtain rfl := Option.some.inj hfound
    exact ⟨doc, hdoc, rfl, rfl⟩
  have hids : emitted.map (·.id) = (sorted.take topK.toInt.toNat).map Prod.fst := by
    rw [← hemitted, docIdWithScore, List.map_map]
    rfl
  have hsortedIds : (sorted.map Prod.fst).Perm (docs.map (·.id)) := by
    have hmap := hperm.map Prod.fst
    rw [docIdWithScore, List.map_map] at hmap
    exact hmap
  refine ⟨emitted, rfl, ?_, ?_, hmem, ?_, fun doc hdoc hleft other hother => ?_⟩
  · have hlength := congrArg List.length hemitted
    rw [docIdWithScore, List.length_map, List.length_take, hperm.length_eq, docIdWithScore,
      List.length_map] at hlength
    rw [hlength, hnodup.dedup, List.length_map]
  · rw [hids]
    exact (hsortedIds.nodup_iff.mpr hnodup).sublist ((List.take_sublist _ _).map _)
  · have hpairs := hsorted.sublist (List.take_sublist topK.toInt.toNat sorted)
    rw [← hemitted, docIdWithScore, List.pairwise_map] at hpairs
    exact hpairs
  · -- an entry that is not among the first ones comes behind them
    have hall : (doc.id, score doc.text) ∈ sorted := hperm.mem_iff.mpr (List.mem_map_of_mem hdoc)
    have hfirst : (other.id, score other.text) ∈ sorted.take topK.toInt.toNat :=
      hemitted ▸ List.mem_map_of_mem hother
    rw [← List.take_append_drop topK.toInt.toNat sorted, List.mem_append] at hall
    have hlater := hall.resolve_left fun htake =>
      hleft (hids ▸ List.mem_map_of_mem (f := Prod.fst) htake)
    rw [← List.take_append_drop topK.toInt.toNat sorted, List.pairwise_append] at hsorted
    exact hsorted.2.2 _ hfirst _ hlater

end Sent

/-- Two retrievers with a document each. -/
theorem not_retrievesRight_two :
    ¬ ∀ signals, Retrieves (fun _ => 0) 1 [[⟨"a".toList, [], []⟩], [⟨"b".toList, [], []⟩]] signals →
      RetrievesRight (fun _ => 0) 1 [⟨"a".toList, [], []⟩, ⟨"b".toList, [], []⟩] signals := by
  intro h
  have hsent : Retrieves (fun _ => 0) 1 [[⟨"a".toList, [], []⟩], [⟨"b".toList, [], []⟩]]
      [.next ⟨"a".toList, [], []⟩] :=
    ⟨[("a".toList, 0), ("b".toList, 0)], .refl _, by simp, .cons ⟨_, rfl, rfl⟩ .nil⟩
  obtain ⟨emitted, hemitted, -⟩ := h _ hsent
  have hlast := congrArg List.getLast? hemitted
  rw [List.getLast?_append] at hlast
  cases hlast

end Instinct.MultiPathRetriever
