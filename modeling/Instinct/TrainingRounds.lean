/-
Instinct/TrainingRounds.lean

What `RegexTokenizer::Train` reads.

The bound of the loop of `compute_pairs_state` is one less than an unsigned size, which is
past the end of a chunk without ids, and the pair of an empty table is read from behind its
end.  So a training reads what is there if and only if each of its rounds still finds a pair
(`train_defined_iff`), and no text has pairs for ever (`merges_le_of_defined`).  The rounds
are counted, so the training ends in any case.
-/
import Instinct.TokenizerSpec
import Mathlib.Algebra.GroupWithZero.Nat
import Mathlib.Algebra.Order.BigOperators.Group.List
import Mathlib.Algebra.Order.Group.Nat
import Mathlib.Logic.Relation

namespace Instinct.Tokenizers

open OrderedMaps PairMerging Relation

/-- Nothing is read that is not there. -/
def Defined {α : Type} (r : Except Exn α) : Prop := ∀ place, r ≠ .error (.undefinedBehaviour place)

/-! ### One round -/

/-- The pair that a round merges. -/
def roundPair (ids : List (List Nat)) : Except Exn BPEPair := do
  let stats ← ids.foldlM (fun stats chunkIds => computePairsState chunkIds stats) .empty
  getMaxPair stats

theorem trainRounds_succ (rounds idx : Nat) (ids : List (List Nat)) (merges : BPERanks)
    (vocab : Vocab) :
    trainRounds (rounds + 1) idx ids merges vocab = (do
      let pair ← roundPair ids
      trainRounds rounds (idx + 1) (ids.map (mergePair pair.1 pair.2 idx)) (merges.set pair idx)
        (addMerge vocab pair idx)) := by
  rw [trainRounds, roundPair, bind_assoc]

/-- There is a pair to merge, and each chunk has ids. -/
structure HasPair (ids : List (List Nat)) : Prop where
  ne_nil : ∀ chunk ∈ ids, chunk ≠ []
  pair : ∃ chunk ∈ ids, 2 ≤ chunk.length

theorem exists_mem_neighbours_iff {chunk : List Nat} :
    (∃ pair, pair ∈ neighbours chunk) ↔ 2 ≤ chunk.length := by
  rcases chunk with - | ⟨a, - | ⟨b, rest⟩⟩
  · simp [neighbours]
  · simp [neighbours]
  · exact iff_of_true ⟨(a, b), List.mem_cons_self⟩ (by simp only [List.length_cons]; omega)

theorem mem_keys_foldl_countPairs {chunks : List (List Nat)} {stats : BPERanks} {pair : BPEPair} :
    pair ∈ (chunks.foldl (fun stats chunk => countPairs chunk stats) stats).entries.map Prod.fst ↔
      (∃ chunk ∈ chunks, pair ∈ neighbours chunk) ∨ pair ∈ stats.entries.map Prod.fst := by
  induction chunks generalizing stats with
  | nil => simp only [List.foldl_nil, List.not_mem_nil, false_and, exists_false, false_or]
  | cons chunk chunks ih =>
      rw [List.foldl_cons, ih, mem_keys_countPairs, List.exists_mem_cons_iff, or_left_comm,
        or_assoc]

/-- The statistics are read if every chunk has ids. -/
theorem foldlM_computePairsState_cases (chunks : List (List Nat)) (stats : BPERanks) :
    ((∀ chunk ∈ chunks, chunk ≠ []) ∧
        chunks.foldlM (fun stats chunk => computePairsState chunk stats) stats
          = .ok (chunks.foldl (fun stats chunk => countPairs chunk stats) stats)) ∨
      ((¬ ∀ chunk ∈ chunks, chunk ≠ []) ∧
        chunks.foldlM (fun stats chunk => computePairsState chunk stats) stats
          = .error (.undefinedBehaviour "ids[i]")) := by
  induction chunks generalizing stats with
  | nil => exact .inl ⟨fun chunk h => absurd h List.not_mem_nil, rfl⟩
  | cons chunk chunks ih =>
      rw [List.forall_mem_cons, List.foldlM_cons, List.foldl_cons, computePairsState]
      by_cases hnil : chunk = []
      · rw [if_pos hnil]
        exact .inr ⟨fun h => h.1 hnil, rfl⟩
      · rw [if_neg hnil]
        rcases ih (countPairs chunk stats) with ⟨hall, h⟩ | ⟨hall, h⟩
        · exact .inl ⟨⟨hnil, hall⟩, h⟩
        · exact .inr ⟨fun h' => hall h'.2, h⟩

theorem getMaxPair_cases (stats : BPERanks) :
    ((∃ pair, pair ∈ stats.entries.map Prod.fst) ∧ ∃ pair, getMaxPair stats = .ok pair) ∨
      ((¬ ∃ pair, pair ∈ stats.entries.map Prod.fst) ∧
        getMaxPair stats = .error (.undefinedBehaviour "stats.end()->first")) := by
  have hsome : ∀ (l : List (BPEPair × Nat)) (best : BPEPair × Nat),
      ∃ e, l.foldl largerCount (some best) = some e := by
    intro l
    induction l with
    | nil => exact fun best => ⟨best, rfl⟩
    | cons e l ih =>
        intro best
        rw [List.foldl_cons, largerCount]
        split
        · exact ih e
        · exact ih best
  rw [getMaxPair]
  rcases stats.entries with - | ⟨e, l⟩
  · refine .inr ⟨?_, rfl⟩
    rintro ⟨pair, hpair⟩
    cases hpair
  · obtain ⟨e', he'⟩ := hsome l e
    rw [List.foldl_cons, largerCount, he']
    exact .inl ⟨⟨e.1, List.mem_cons_self⟩, e'.1, rfl⟩

/-- A round finds a pair, or it reads what is not there. -/
theorem roundPair_cases (ids : List (List Nat)) :
    (HasPair ids ∧ ∃ pair, roundPair ids = .ok pair) ∨
      (¬ HasPair ids ∧ ∃ place, roundPair ids = .error (.undefinedBehaviour place)) := by
  rw [roundPair]
  rcases foldlM_computePairsState_cases ids .empty with ⟨hall, hstats⟩ | ⟨hall, hstats⟩
  · rw [hstats]
    have hpair : (∃ pair, pair ∈ (ids.foldl (fun stats chunk => countPairs chunk stats)
          OrderedMap.empty).entries.map Prod.fst) ↔ ∃ chunk ∈ ids, 2 ≤ chunk.length := by
      simp only [mem_keys_foldl_countPairs, ← exists_mem_neighbours_iff]
      constructor
      · rintro ⟨pair, ⟨chunk, hchunk, h⟩ | h⟩
        · exact ⟨chunk, hchunk, pair, h⟩
        · cases h
      · rintro ⟨chunk, hchunk, pair, h⟩
        exact ⟨pair, .inl ⟨chunk, hchunk, h⟩⟩
    rcases getMaxPair_cases (ids.foldl (fun stats chunk => countPairs chunk stats) .empty) with
      ⟨hkeys, h⟩ | ⟨hkeys, h⟩
    · exact .inl ⟨⟨hall, hpair.mp hkeys⟩, h⟩
    · exact .inr ⟨fun h' => hkeys (hpair.mpr h'.pair), _, h⟩
  · rw [hstats]
    exact .inr ⟨fun h => hall h.ne_nil, _, rfl⟩

/-- The pair that is merged occurs in a chunk. -/
theorem mem_neighbours_of_roundPair {ids : List (List Nat)} {pair : BPEPair}
    (h : roundPair ids = .ok pair) : ∃ chunk ∈ ids, pair ∈ neighbours chunk := by
  rw [roundPair] at h
  obtain ⟨stats, hstats, hmax⟩ := checks_eq_ok.mp h
  rcases foldlM_computePairsState hstats (getMaxPair_mem hmax) with hmem | hmem
  · exact hmem
  · cases hmem

/-! ### All rounds -/

/-- One round, from the next id and the chunks before it to those after it. -/
def Round (s s' : Nat × List (List Nat)) : Prop :=
  ∃ pair, roundPair s.2 = .ok pair ∧ s' = (s.1 + 1, s.2.map (mergePair pair.1 pair.2 s.1))

theorem Round.next_le {s s' : Nat × List (List Nat)} (h : ReflTransGen Round s s') :
    s.1 ≤ s'.1 := by
  induction h with
  | refl => exact Nat.le_refl _
  | tail _ hround ih =>
      obtain ⟨pair, -, rfl⟩ := hround
      exact Nat.le_succ_of_le ih

/-- The rounds are as they should be if each of them has a pair, by induction over their number. -/
theorem trainRounds_defined_iff {rounds idx : Nat} {ids : List (List Nat)} {merges : BPERanks}
    {vocab : Vocab} :
    Defined (trainRounds rounds idx ids merges vocab) ↔
      ∀ idx' ids', ReflTransGen Round (idx, ids) (idx', ids') → idx' < idx + rounds →
        HasPair ids' := by
  induction rounds generalizing idx ids merges vocab with
  | zero =>
      refine iff_of_true (fun place h => by cases h) fun idx' ids' hrounds hlt => ?_
      exact absurd hlt (Nat.not_lt.mpr (Round.next_le hrounds))
  | succ rounds ih =>
      rw [trainRounds_succ]
      rcases roundPair_cases ids with ⟨hpair, pair, hround⟩ | ⟨hpair, place, hround⟩
      · rw [hround]
        refine Iff.trans ih ⟨fun h idx' ids' hrounds hlt => ?_, fun h idx' ids' hrounds hlt => ?_⟩
        · rcases hrounds.cases_head with heq | ⟨next, ⟨pair', hround', rfl⟩, hrest⟩
          · obtain ⟨rfl, rfl⟩ := Prod.mk.inj heq
            exact hpair
          · obtain rfl := Except.ok.inj (hround.symm.trans hround')
            exact h idx' ids' hrest (by omega)
        · exact h idx' ids' (hrounds.head ⟨pair, hround, rfl⟩) (by omega)
      · rw [hround]
        refine iff_of_false (fun h => h place rfl) fun h => hpair ?_
        exact h idx ids .refl (by omega)

/-- The chunks that a text is trained on. -/
def RegexTokenizer.chunkIds (t : RegexTokenizer) (text : UnicodeString) : List (List Nat) :=
  (t.findAll text).map fun chunk => (toUTF8 chunk).map UInt8.toNat

theorem train_defined_iff_rounds {t : RegexTokenizer} {text : UnicodeString} {merges : Nat} :
    Defined (t.train text (256 + merges)) ↔
      Defined (trainRounds merges 256 (t.chunkIds text) .empty byteVocab) := by
  have hmerges : ((256 + merges : Int) - 256).toNat = merges := by omega
  rw [RegexTokenizer.train, if_neg (by omega), hmerges]
  show Defined (trainRounds merges 256 (t.chunkIds text) .empty byteVocab >>= _) ↔ _
  cases trainRounds merges 256 (t.chunkIds text) .empty byteVocab with
  | error e =>
      refine forall_congr' fun place => not_congr ?_
      simp only [bind, Except.bind, Except.error.injEq]
  | ok trained => exact iff_of_true (fun place h => by cases h) fun place h => by cases h

/-- **A training reads only what is there** if and only if each of its rounds has chunks with ids
only, and two ids in one of them. -/
theorem train_defined_iff (t : RegexTokenizer) (text : UnicodeString) (merges : Nat) :
    Defined (t.train text (256 + merges)) ↔
      ∀ idx ids, ReflTransGen Round (256, t.chunkIds text) (idx, ids) → idx < 256 + merges →
        HasPair ids :=
  train_defined_iff_rounds.trans trainRounds_defined_iff

/-- One character has no pair. -/
theorem train_letter_not_defined :
    ¬ Defined (RegexTokenizer.train { findAll := wholeText } ['a'] 257) := by
  intro h
  exact h "stats.end()->first" rfl

/-! ### How many rounds there are -/

/-- How many ids of the chunks are not the first. -/
def mergesLeft (ids : List (List Nat)) : Nat := (ids.map fun chunk => chunk.length - 1).sum

/-- A round leaves fewer of them. -/
theorem Round.mergesLeft_lt {s s' : Nat × List (List Nat)} (h : Round s s') :
    mergesLeft s'.2 < mergesLeft s.2 := by
  obtain ⟨pair, hround, rfl⟩ := h
  obtain ⟨chunk, hchunk, hpair⟩ := mem_neighbours_of_roundPair hround
  have hle : ∀ chunk : List Nat,
      (mergePair pair.1 pair.2 s.1 chunk).length - 1 ≤ chunk.length - 1 :=
    fun chunk => Nat.sub_le_sub_right (length_mergePair_le chunk) 1
  have hlt : (mergePair pair.1 pair.2 s.1 chunk).length - 1 < chunk.length - 1 := by
    have hlength := length_mergePair_lt (c := s.1) hpair
    have htwo := exists_mem_neighbours_iff.mp ⟨pair, hpair⟩
    have hpos : 0 < (mergePair pair.1 pair.2 s.1 chunk).length := by
      rcases chunk with - | ⟨a, - | ⟨b, rest⟩⟩
      · cases hpair
      · cases hpair
      · rw [mergePair]
        split <;> exact Nat.succ_pos _
    omega
  rw [mergesLeft, mergesLeft, List.map_map]
  exact List.sum_lt_sum _ _ (fun chunk _ => hle chunk) ⟨chunk, hchunk, hlt⟩

/-- **No text has pairs for ever**: there are at most as many rounds as bytes behind the first of
their chunks. -/
theorem merges_le_of_defined {t : RegexTokenizer} {text : UnicodeString} {merges : Nat}
    (h : Defined (t.train text (256 + merges))) : merges ≤ mergesLeft (t.chunkIds text) := by
  rw [train_defined_iff_rounds] at h
  generalize (256 : Nat) = idx at h
  generalize t.chunkIds text = ids at h ⊢
  generalize byteVocab = vocab at h
  generalize OrderedMap.empty = merged at h
  induction merges generalizing idx ids vocab merged with
  | zero => exact Nat.zero_le _
  | succ merges ih =>
      rw [trainRounds_succ] at h
      rcases roundPair_cases ids with ⟨-, pair, hround⟩ | ⟨-, place, hround⟩
      · rw [hround] at h
        have hlt := Round.mergesLeft_lt (s := (idx, ids)) ⟨pair, hround, rfl⟩
        exact Nat.lt_of_le_of_lt (ih _ _ _ _ h) hlt
      · rw [hround] at h
        exact absurd rfl (h place)

end Instinct.Tokenizers
