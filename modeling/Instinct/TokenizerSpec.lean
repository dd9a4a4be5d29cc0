/-
Instinct/TokenizerSpec.lean

What the parts of `RegexTokenizer` do.

`minMerge` gives the least merge among the pairs of neighbours, so that a round of
`EncodeChunk_` merges one pair everywhere, and the rounds end when there is none
(`mergeIds_done`).  What the ids spell does not change (`encodeOrdinary_spells`), by any
spelling for which every merged token is spelled by its pair (`Spells`).
-/
import Instinct.Tokenizer

namespace Instinct.Tokenizers

open OrderedMaps PairMerging

/-! ### Statistics of pairs -/

theorem mem_keys_countPairs {ids : List Nat} {stats : BPERanks} {pair : BPEPair} :
    pair ∈ (countPairs ids stats).entries.map Prod.fst ↔
      pair ∈ neighbours ids ∨ pair ∈ stats.entries.map Prod.fst := by
  rw [countPairs]
  induction neighbours ids generalizing stats with
  | nil => simp
  | cons p l ih =>
      have hkeys : pair ∈ (countPair stats p).entries.map Prod.fst
          ↔ pair = p ∨ pair ∈ stats.entries.map Prod.fst := by
        rw [countPair]
        split
        · exact OrderedMap.mem_keys_set
        · exact OrderedMap.mem_keys_insert
      rw [List.foldl_cons, ih, hkeys, List.mem_cons]
      tauto

/-- The statistics of one chunk are about its pairs of neighbours. -/
theorem mem_keys_stats {ids : List Nat} {pair : BPEPair} :
    pair ∈ (countPairs ids .empty).entries.map Prod.fst ↔ pair ∈ neighbours ids := by
  rw [mem_keys_countPairs]
  exact or_iff_left List.not_mem_nil

theorem foldlM_computePairsState {chunks : List (List Nat)} {stats stats' : BPERanks}
    (h : chunks.foldlM (fun stats ids => computePairsState ids stats) stats = .ok stats')
    {pair : BPEPair} (hpair : pair ∈ stats'.entries.map Prod.fst) :
    (∃ ids ∈ chunks, pair ∈ neighbours ids) ∨ pair ∈ stats.entries.map Prod.fst := by
  induction chunks generalizing stats with
  | nil =>
      obtain rfl := Except.ok.inj h
      exact .inr hpair
  | cons ids chunks ih =>
      rw [List.foldlM_cons] at h
      obtain ⟨next, hnext, h⟩ := checks_eq_ok.mp h
      rw [computePairsState] at hnext
      split at hnext
      · cases hnext
      · obtain rfl := Except.ok.inj hnext
        rcases ih h with ⟨ids', hids', hpair⟩ | hpair
        · exact .inl ⟨ids', List.mem_cons_of_mem ids hids', hpair⟩
        · rcases mem_keys_countPairs.mp hpair with hpair | hpair
          · exact .inl ⟨ids, List.mem_cons_self, hpair⟩
          · exact .inr hpair

theorem getMaxPair_mem {stats : BPERanks} {pair : BPEPair} (h : getMaxPair stats = .ok pair) :
    pair ∈ stats.entries.map Prod.fst := by
  have hmem : ∀ l : List (BPEPair × Nat), ∀ e ∈ l.foldl largerCount none, e ∈ l := by
    intro l
    induction l using List.reverseRecOn with
    | nil => exact fun e he => by cases he
    | append_singleton l e' ih =>
        intro e he
        rw [List.foldl_append, List.foldl_cons, List.foldl_nil] at he
        cases hl : l.foldl largerCount none with
        | none =>
            rw [hl] at he
            obtain rfl := Option.some.inj he
            exact List.mem_append_right l List.mem_cons_self
        | some b =>
            rw [hl, largerCount] at he
            split at he
            · obtain rfl := Option.some.inj he
              exact List.mem_append_right l List.mem_cons_self
            · obtain rfl := Option.some.inj he
              exact List.mem_append_left _ (ih b hl)
  rw [getMaxPair] at h
  split at h
  · next e he =>
      obtain rfl := Except.ok.inj h
      exact List.mem_map_of_mem (hmem _ e he)
  · cases h

/-! ### The least merge -/

section Lesser

variable {ε : Type} {key : ε → Option Nat}

/-- What is kept of a list: the first element with the least key, if one is below the bound. -/
def IsFirstLeast (key : ε → Option Nat) (l : List ε) : Option (ε × Nat) → Prop
  | none => ∀ e ∈ l, ∀ k ∈ key e, INT32_MAX ≤ k
  | some (e, k) => k < INT32_MAX ∧ key e = some k ∧ ∃ before after, l = before ++ e :: after ∧
      (∀ e' ∈ before, ∀ k' ∈ key e', k < k') ∧ ∀ e' ∈ after, ∀ k' ∈ key e', k ≤ k'

/-- No element has a lesser key. -/
theorem IsFirstLeast.le {l : List ε} {best : Option (ε × Nat)} (h : IsFirstLeast key l best)
    {e : ε} (he : e ∈ l) {k : Nat} (hk : key e = some k) :
    (best.map Prod.snd).getD INT32_MAX ≤ k := by
  cases best with
  | none => exact h e he k hk
  | some best =>
      obtain ⟨-, hbest, before, after, rfl, hbefore, hafter⟩ := h
      rw [List.mem_append, List.mem_cons] at he
      rcases he with he | rfl | he
      · exact Nat.le_of_lt (hbefore e he k hk)
      · exact Nat.le_of_eq (Option.some.inj (hbest.symm.trans hk))
      · exact hafter e he k hk

/-- One more element that is no better. -/
theorem IsFirstLeast.keep {l : List ε} {best : Option (ε × Nat)} (h : IsFirstLeast key l best)
    {e : ε} (he : ∀ k ∈ key e, (best.map Prod.snd).getD INT32_MAX ≤ k) :
    IsFirstLeast key (l ++ [e]) best := by
  cases best with
  | none => exact List.forall_mem_append.mpr ⟨h, List.forall_mem_singleton.mpr he⟩
  | some best =>
      obtain ⟨hlt, hbest, before, after, rfl, hbefore, hafter⟩ := h
      refine ⟨hlt, hbest, before, after ++ [e], by simp, hbefore, ?_⟩
      exact List.forall_mem_append.mpr ⟨hafter, List.forall_mem_singleton.mpr he⟩

/-- By induction along the list, each element of which may be better than all before. -/
theorem isFirstLeast_foldl_lesser (key : ε → Option Nat) (l : List ε) :
    IsFirstLeast key l (l.foldl (lesser key) none) := by
  induction l using List.reverseRecOn with
  | nil => exact fun e he => absurd he List.not_mem_nil
  | append_singleton l e ih =>
      rw [List.foldl_append, List.foldl_cons, List.foldl_nil, lesser]
      cases hkey : key e with
      | none => exact ih.keep fun k hk => by rw [hkey] at hk; cases hk
      | some k =>
          dsimp only
          split
          · next hlt =>
              refine ⟨?_, hkey, l, [], rfl, fun e' he' k' hk' => Nat.lt_of_lt_of_le hlt
                (ih.le he' hk'), fun e' he' => absurd he' List.not_mem_nil⟩
              cases hbest : l.foldl (lesser key) none with
              | none =>
                  rw [hbest] at hlt
                  exact hlt
              | some best =>
                  rw [hbest] at ih hlt
                  exact Nat.lt_trans hlt ih.1
          · next hge =>
              refine ih.keep fun k' hk' => ?_
              rw [hkey] at hk'
              exact Option.some.inj hk' ▸ Nat.le_of_not_lt hge

end Lesser

/-- The least merge of the neighbours in a list of ids. -/
theorem minMerge_spec (merges : BPERanks) (ids : List Nat) :
    match minMerge merges (countPairs ids .empty) with
    | none => ∀ pair ∈ neighbours ids, ∀ idx ∈ merges.find? pair, INT32_MAX ≤ idx
    | some (pair, idx) => pair ∈ neighbours ids ∧ merges.find? pair = some idx ∧
        idx < INT32_MAX ∧ ∀ pair' ∈ neighbours ids, ∀ idx' ∈ merges.find? pair', idx ≤ idx' := by
  have hspec := isFirstLeast_foldl_lesser merges.find?
    ((countPairs ids .empty).entries.map Prod.fst)
  rw [← minMerge] at hspec
  split
  · next hnone =>
      rw [hnone] at hspec
      exact fun pair hpair => hspec pair (mem_keys_stats.mpr hpair)
  · next pair idx hsome =>
      rw [hsome] at hspec
      have hleast := fun pair' hpair' idx' hidx' =>
        hspec.le (e := pair') (mem_keys_stats.mpr hpair') (k := idx') hidx'
      obtain ⟨hlt, hfind, before, after, heq, -, -⟩ := hspec
      exact ⟨mem_keys_stats.mp (by rw [heq]; simp), hfind, hlt, hleast⟩

/-! ### The rounds of a chunk -/

section Rounds

variable {merges : BPERanks}

/-- A property of lists of ids that a round keeps holds of the result, which no round changes,
by induction over the rounds: each makes the list shorter. -/
theorem mergeIds_elim {P : List Nat → Prop} {ids : List Nat}
    (hround : ∀ ids pair idx, P ids → pair ∈ neighbours ids → merges.find? pair = some idx →
      idx < INT32_MAX → (∀ pair' ∈ neighbours ids, ∀ idx' ∈ merges.find? pair', idx ≤ idx') →
      P (mergePair pair.1 pair.2 idx ids))
    (h : P ids) {fuel : Nat} (hfuel : ids.length ≤ fuel) :
    ∃ ids', mergeIds merges fuel ids = .ok ids' ∧ P ids' ∧
      ∀ pair ∈ neighbours ids', ∀ idx ∈ merges.find? pair, INT32_MAX ≤ idx := by
  have hshort : ∀ ids : List Nat, ids.length < 2 →
      ∀ pair ∈ neighbours ids, ∀ idx ∈ merges.find? pair, INT32_MAX ≤ idx := by
    intro ids hlength pair hpair
    obtain ⟨front, back, rfl⟩ := mem_neighbours_iff.mp hpair
    rw [List.length_append, List.length_cons, List.length_cons] at hlength
    omega
  induction fuel generalizing ids with
  | zero => exact ⟨ids, rfl, h, hshort ids (by omega)⟩
  | succ fuel ih =>
      rw [mergeIds]
      split
      · next hlength => exact ⟨ids, rfl, h, hshort ids hlength⟩
      · next hlength =>
          have hne : ids ≠ [] := by
            rintro rfl
            exact hlength (by decide)
          have hspec := minMerge_spec merges ids
          rw [computePairsState, if_neg hne]
          show ∃ ids', (match minMerge merges (countPairs ids .empty) with
            | none => Except.ok ids
            | some (pair, idx) => mergeIds merges fuel (mergePair pair.1 pair.2 idx ids))
              = Except.ok ids' ∧ P ids' ∧ _
          split
          · next hnone =>
              rw [hnone] at hspec
              exact ⟨ids, rfl, h, hspec⟩
          · next pair idx hsome =>
              rw [hsome] at hspec
              obtain ⟨hpair, hfind, hlt, hleast⟩ := hspec
              have hshorter := length_mergePair_lt (c := idx) hpair
              exact ih (hround ids pair idx h hpair hfind hlt hleast) (by omega)

end Rounds

/-! ### What ids spell -/

/-- A spelling of the ids by which each merged token is spelled by its pair.  The known ids are
those that encoding gives. -/
structure Spells (t : RegexTokenizer) (shuffle : UInt8 → UInt8) (spell : Nat → Bytes)
    (known : Nat → Prop) : Prop where
  handle : ∀ bytes, t.handleChunkBytes bytes = bytes.map shuffle
  merges : ∀ pair id, t.merges.find? pair = some id → spell id = spell pair.1 ++ spell pair.2
  known_merges : ∀ pair id, t.merges.find? pair = some id → known id
  known_bytes : ∀ b : UInt8, known b.toNat

section Spelling

variable {t : RegexTokenizer} {shuffle : UInt8 → UInt8} {spell : Nat → Bytes} {known : Nat → Prop}

theorem encodeChunk_spells (h : Spells t shuffle spell known) (bytes : Bytes) :
    ∃ ids, t.encodeChunk bytes = .ok ids ∧
      ids.flatMap spell = bytes.flatMap (fun b => spell (shuffle b).toNat) ∧
      ∀ id ∈ ids, known id := by
  have hspell : ((t.handleChunkBytes bytes).map UInt8.toNat).flatMap spell
      = bytes.flatMap fun b => spell (shuffle b).toNat := by
    rw [h.handle, List.map_map, List.flatMap_map]
    rfl
  have hknown : ∀ id ∈ (t.handleChunkBytes bytes).map UInt8.toNat, known id := fun id hid => by
    obtain ⟨b, -, rfl⟩ := List.mem_map.mp hid
    exact h.known_bytes b
  obtain ⟨ids, hids, hP, -⟩ := mergeIds_elim
    (P := fun ids => ids.flatMap spell = bytes.flatMap (fun b => spell (shuffle b).toNat) ∧
      ∀ id ∈ ids, known id)
    (fun ids pair idx hP _ hfind _ _ => by
      refine ⟨(flatMap_mergePair (h.merges pair idx hfind) ids).trans hP.1, fun id hid => ?_⟩
      rcases mem_mergePair hid with hid | rfl
      · exact hP.2 id hid
      · exact h.known_merges pair id hfind)
    ⟨hspell, hknown⟩ (Nat.le_refl _)
  exact ⟨ids, hids, hP⟩

/-- Results that are spelled as their parts ask for, put together. -/
theorem flatMap_flatten_of_forall₂ {α : Type} {spelling : α → Bytes} {l : List α}
    {parts : List (List Nat)} (h : List.Forall₂
      (fun a ids => ids.flatMap spell = spelling a ∧ ∀ id ∈ ids, known id) l parts) :
    parts.flatten.flatMap spell = l.flatMap spelling ∧ ∀ id ∈ parts.flatten, known id := by
  induction h with
  | nil => exact ⟨rfl, fun id hid => absurd hid List.not_mem_nil⟩
  | cons hids _ ih =>
      rw [List.flatten_cons, List.flatMap_append, List.flatMap_cons, hids.1, ih.1]
      exact ⟨rfl, List.forall_mem_append.mpr ⟨hids.2, ih.2⟩⟩

/-- **Encoding an ordinary text changes no byte**, if the pattern leaves nothing out. -/
theorem encodeOrdinary_spells (h : Spells t shuffle spell known)
    (htiles : ∀ text, (t.findAll text).flatten = text) (text : UnicodeString) :
    ∃ ids, t.encodeOrdinary text = .ok ids ∧
      ids.flatMap spell = (toUTF8 text).flatMap (fun b => spell (shuffle b).toNat) ∧
      ∀ id ∈ ids, known id := by
  obtain ⟨parts, hparts, hall⟩ := mapM_ok (l := t.findAll text)
    (R := fun (chunk : UnicodeString) (ids : List Nat) =>
      ids.flatMap spell = (toUTF8 chunk).flatMap (fun b => spell (shuffle b).toNat) ∧
      ∀ id ∈ ids, known id)
    fun chunk _ => encodeChunk_spells h (toUTF8 chunk)
  obtain ⟨hspell, hknown⟩ := flatMap_flatten_of_forall₂ hall
  refine ⟨parts.flatten, by rw [RegexTokenizer.encodeOrdinary, hparts]; rfl, ?_, hknown⟩
  rw [hspell, ← htiles text, toUTF8_flatten, htiles, List.flatMap_assoc]

end Spelling

/-- The matches of an expression that takes in everything. -/
def wholeText (text : UnicodeString) : List UnicodeString := if text = [] then [] else [text]

theorem flatten_wholeText (text : UnicodeString) : (wholeText text).flatten = text := by
  rw [wholeText]
  split
  · next h => rw [h]; rfl
  · exact List.append_nil text

end Instinct.Tokenizers
