/-
Instinct/TiktokenMerges.lean

Merging pairs of ids does what merging by rank does.

`_bpe` runs the steps of `PairMerging.Step` to their end (`bpe_spec`), so that a recovered
pair is the ranks of the parts of its token (`recovered_spec`).  The ids of a chunk are
the ranks of the parts of a state of that run: a round of `EncodeChunk_` merges the parts
of the token with the least rank, everywhere (`ranked_mergePair`), and at the end there
is no step left (`encodeChunk_agrees_iff`).
-/
import Instinct.Tiktoken
import Instinct.TokenizerSpec

namespace Instinct.Tokenizers

open OrderedMaps PairMerging Relation

variable {ranks : BPETokenRanks}

/-! ### The least rank -/

/-- The least rank is that of the best neighbours. -/
theorem minRank_spec (ranks : BPETokenRanks) (parts : List Bytes) :
    match minRank ranks parts with
    | none => ∀ p ∈ neighbours parts, ∀ s ∈ ranks.find? (p.1 ++ p.2), INT32_MAX ≤ s
    | some ((_, i), r) => r < INT32_MAX ∧ ∃ front x y back, Best ranks.find? r front x y back ∧
        parts = front ++ x :: y :: back ∧ front.length = i := by
  have hspec := isFirstLeast_foldl_lesser (fun e : (Bytes × Bytes) × Nat =>
    ranks.find? (e.1.1 ++ e.1.2)) (neighbours parts).zipIdx
  rw [← minRank] at hspec
  have hall : ∀ {P : Bytes × Bytes → Prop} {l : List ((Bytes × Bytes) × Nat)},
      (∀ e ∈ l, P e.1) → ∀ p ∈ l.map Prod.fst, P p := fun h p hp => by
    obtain ⟨e, he, rfl⟩ := List.mem_map.mp hp
    exact h e he
  split
  · next hnone =>
      rw [hnone] at hspec
      have hnone := hall (P := fun p => ∀ s ∈ ranks.find? (p.1 ++ p.2), INT32_MAX ≤ s) hspec
      rwa [List.zipIdx_map_fst] at hnone
  · next pair i r hsome =>
      rw [hsome] at hspec
      obtain ⟨hlt, hr, before, after, heq, hbefore, hafter⟩ := hspec
      have hplace : before.length = i := by
        have hget := congrArg (fun l => l[before.length]?) heq
        simp only [List.getElem?_zipIdx, List.getElem?_append_right (Nat.le_refl _), Nat.sub_self,
          List.getElem?_cons_zero, Option.map_eq_some_iff, Prod.mk.injEq, Nat.zero_add] at hget
        obtain ⟨-, -, -, hplace⟩ := hget
        exact hplace
      have hpairs := congrArg (List.map Prod.fst) heq
      rw [List.zipIdx_map_fst, List.map_append, List.map_cons] at hpairs
      obtain ⟨front, back, hparts, hfront, hback, hlength⟩ := neighbours_eq_append_cons hpairs
      refine ⟨hlt, front, pair.1, pair.2, back, ⟨hr, ?_, ?_⟩, hparts, ?_⟩
      · rw [Above, ← hfront]
        exact hall hbefore
      · rw [AtLeast, ← hback]
        exact hall hafter
      · rw [← hplace, ← hlength, List.length_map]

/-! ### The run of `_bpe` -/

theorem mergeAt_eq {front back : List Bytes} {x y : Bytes} {i : Nat} (h : front.length = i) :
    mergeAt i (front ++ x :: y :: back) = front ++ (x ++ y) :: back := by
  subst h
  rw [mergeAt]
  simp

/-- Where no neighbours have a rank below the bound there is no step. -/
theorem not_step_of_forall {bound : Nat} {parts : List Bytes}
    (h : ∀ p ∈ neighbours parts, ∀ s ∈ ranks.find? (p.1 ++ p.2), bound ≤ s) (next : List Bytes) :
    ¬ Step ranks.find? bound parts next := by
  rintro ⟨front, x, y, back, r, hbest, hr, rfl, -⟩
  have hle := h (x, y) (mem_neighbours_iff.mpr ⟨front, back, rfl⟩) r hbest.rank_eq
  exact absurd hr (Nat.not_lt_of_le hle)

/-- The loop runs to the end, by induction over its rounds: each makes one part of two. -/
theorem bpeLoop_spec {maxRank fuel : Nat} {parts : List Bytes} (hfuel : parts.length ≤ fuel) :
    ReflTransGen (Step ranks.find? (min INT32_MAX maxRank)) parts
        (bpeLoop ranks maxRank fuel parts) ∧
      ∀ next, ¬ Step ranks.find? (min INT32_MAX maxRank)
        (bpeLoop ranks maxRank fuel parts) next := by
  induction fuel generalizing parts with
  | zero =>
      obtain rfl := List.length_eq_zero_iff.mp (Nat.le_zero.mp hfuel)
      exact ⟨.refl, not_step_of_forall fun p hp => absurd hp List.not_mem_nil⟩
  | succ fuel ih =>
      have hspec := minRank_spec ranks parts
      rw [bpeLoop]
      split
      · next hnone =>
          rw [hnone] at hspec
          exact ⟨.refl, not_step_of_forall fun p hp s hs =>
            Nat.le_trans (Nat.min_le_left _ _) (hspec p hp s hs)⟩
      · next i r hsome =>
          rw [hsome] at hspec
          obtain ⟨hlt, front, x, y, back, hbest, rfl, hi⟩ := hspec
          split
          · next hmax =>
              exact ⟨.refl, not_step_of_forall fun p hp s hs =>
                Nat.le_trans (Nat.min_le_right _ _) (Nat.le_trans hmax (hbest.le hp hs))⟩
          · next hmax =>
              have hstep : Step ranks.find? (min INT32_MAX maxRank) (front ++ x :: y :: back)
                  (front ++ (x ++ y) :: back) :=
                ⟨front, x, y, back, r, hbest, Nat.lt_min.mpr ⟨hlt, Nat.lt_of_not_le hmax⟩, rfl, rfl⟩
              have hlength := hstep.length
              have hless : (front ++ (x ++ y) :: back).length ≤ fuel := by omega
              rw [mergeAt_eq hi]
              obtain ⟨hrun, hfinal⟩ := ih hless
              exact ⟨.head hstep hrun, hfinal⟩

/-- **`_bpe` merges the best neighbours as long as there are any.** -/
theorem bpe_spec {token : Bytes} {maxRank : Nat} {parts : List Bytes}
    (h : bpe ranks token maxRank = .ok parts) :
    ReflTransGen (Step ranks.find? (min INT32_MAX maxRank)) (singletons token) parts ∧
      ∀ next, ¬ Step ranks.find? (min INT32_MAX maxRank) parts next := by
  rw [bpe] at h
  split at h
  · cases h
  · obtain rfl := Except.ok.inj h
    exact bpeLoop_spec (Nat.le_of_eq (List.length_map _))

/-! ### Recovered pairs -/

/-- The ranks of the two parts of a token. -/
def IsPair (ranks : BPETokenRanks) (token : Bytes) (pair : BPEPair) : Prop :=
  ∃ first second, Parts ranks.find? token first second ∧
    ranks.find? first = some pair.1 ∧ ranks.find? second = some pair.2

/-- A pair belongs to one token. -/
theorem IsPair.token_unique {token token' : Bytes} {pair : BPEPair}
    (hinjective : Injective ranks.find?) (h : IsPair ranks token pair)
    (h' : IsPair ranks token' pair) : token = token' := by
  obtain ⟨first, second, hparts, hfirst, hsecond⟩ := h
  obtain ⟨first', second', hparts', hfirst', hsecond'⟩ := h'
  rw [← hparts.append, ← hparts'.append, hinjective _ _ _ hfirst hfirst',
    hinjective _ _ _ hsecond hsecond']

theorem rankAt_eq_ok {token : Bytes} {rank : Nat} (h : rankAt ranks token = .ok rank) :
    ranks.find? token = some rank := by
  rw [rankAt] at h
  split at h
  · next hfind =>
      obtain rfl := Except.ok.inj h
      exact hfind
  · cases h

theorem recoverPair_spec {token : Bytes} {rank : Nat} {pair : BPEPair}
    (hrank : ranks.find? token = some rank) (h : recoverPair ranks token rank = .ok pair) :
    IsPair ranks token pair := by
  rw [recoverPair] at h
  obtain ⟨parts, hparts, h⟩ := checks_eq_ok.mp h
  split at h
  · next first second =>
      obtain ⟨id0, hid0, h⟩ := checks_eq_ok.mp h
      obtain ⟨id1, hid1, h⟩ := checks_eq_ok.mp h
      obtain rfl := Except.ok.inj h
      have hrun := ReflTransGen.mono
        (fun _ _ hstep => Step.mono (Nat.min_le_right INT32_MAX rank) hstep) _ _ (bpe_spec hparts).1
      exact ⟨first, second, ⟨rank, hrank, hrun⟩, rankAt_eq_ok hid0, rankAt_eq_ok hid1⟩
  · cases h

/-- The merges of some tokens: each longer one has its pair, in the same order. -/
def Recovers (ranks : BPETokenRanks) (entries : List (Bytes × Nat)) (merges : BPERanks) : Prop :=
  List.Forall₂ (fun e m => IsPair ranks e.1 m.1 ∧ m.2 = e.2)
    (entries.filter fun e => e.1.length ≠ 1) merges.entries

/-- One more token: its pair is new. -/
theorem Recovers.next (hinjective : Injective ranks.find?) {entries : List (Bytes × Nat)}
    {merges merges' : BPERanks} {e : Bytes × Nat} (h : Recovers ranks entries merges)
    (he : e.1 ∉ entries.map Prod.fst) (hrank : ranks.find? e.1 = some e.2)
    (hrecover : recoverEntry ranks merges e = .ok merges') :
    Recovers ranks (entries ++ [e]) merges' := by
  rw [Recovers, List.filter_append]
  rw [recoverEntry] at hrecover
  split at hrecover
  · next hlength =>
      obtain rfl := Except.ok.inj hrecover
      rw [List.filter_cons_of_neg (by simpa using hlength), List.filter_nil, List.append_nil]
      exact h
  · next hlength =>
      obtain ⟨pair, hpair, hrecover⟩ := checks_eq_ok.mp hrecover
      obtain rfl := Except.ok.inj hrecover
      have hpair := recoverPair_spec hrank hpair
      have hnew : pair ∉ merges.entries.map Prod.fst := by
        intro hmem
        obtain ⟨m, hm, rfl⟩ := List.mem_map.mp hmem
        obtain ⟨e', he', hpair', -⟩ := exists_of_forall₂ h _ hm
        rw [hpair.token_unique hinjective hpair'] at he
        exact he (List.mem_map_of_mem (List.mem_of_mem_filter he'))
      rw [OrderedMap.entries_insert_of_fresh hnew,
        List.filter_cons_of_pos (by simpa using hlength), List.filter_nil]
      exact List.rel_append h (.cons ⟨hpair, rfl⟩ .nil)

/-- **Each token of more than one byte has its pair among the merges**, by induction along the
table. -/
theorem recovered_spec (hinjective : Injective ranks.find?) {merges : BPERanks}
    (h : recoverBytePairBpeRanks ranks = .ok merges) : Recovers ranks ranks.entries merges := by
  have hall : ∀ (rest done : List (Bytes × Nat)) (sofar : BPERanks),
      ranks.entries = done ++ rest → Recovers ranks done sofar →
      rest.foldlM (recoverEntry ranks) sofar = .ok merges →
      Recovers ranks ranks.entries merges := by
    intro rest
    induction rest with
    | nil =>
        intro done sofar hentries hsofar h
        obtain rfl := Except.ok.inj h
        rwa [hentries, List.append_nil]
    | cons e rest ih =>
        intro done sofar hentries hsofar h
        rw [List.foldlM_cons] at h
        obtain ⟨next, hnext, h⟩ := checks_eq_ok.mp h
        have hrank : ranks.find? e.1 = some e.2 :=
          OrderedMap.find?_eq_some_iff.mpr (by rw [hentries]; simp)
        have hnew : e.1 ∉ done.map Prod.fst := by
          have hnodup := ranks.nodup
          rw [hentries, List.map_append, List.map_cons, List.nodup_append] at hnodup
          exact fun hmem => hnodup.2.2 _ hmem _ List.mem_cons_self rfl
        exact ih (done ++ [e]) next (by rw [hentries, List.append_assoc, List.singleton_append])
          (hsofar.next hinjective hnew hrank hnext) h
  exact hall ranks.entries [] .empty rfl .nil h

section Recovered

variable {merges : BPERanks}

/-- The merges are the pairs of the longer tokens. -/
theorem find?_recovered (hinjective : Injective ranks.find?)
    (h : recoverBytePairBpeRanks ranks = .ok merges) {pair : BPEPair} {idx : Nat} :
    merges.find? pair = some idx ↔
      ∃ token, ranks.find? token = some idx ∧ token.length ≠ 1 ∧ IsPair ranks token pair := by
  have hspec := recovered_spec hinjective h
  rw [OrderedMap.find?_eq_some_iff]
  constructor
  · intro hmem
    obtain ⟨e, he, hpair, rfl⟩ := exists_of_forall₂ hspec _ hmem
    obtain ⟨he, hlength⟩ := List.mem_filter.mp he
    exact ⟨e.1, OrderedMap.find?_eq_some_iff.mpr he, of_decide_eq_true hlength, hpair⟩
  · rintro ⟨token, hrank, hlength, hpair⟩
    have hentry : (token, idx) ∈ ranks.entries.filter fun e => e.1.length ≠ 1 :=
      List.mem_filter.mpr ⟨OrderedMap.find?_eq_some_iff.mp hrank, decide_eq_true hlength⟩
    obtain ⟨⟨pair', idx'⟩, hm, hpair', rfl⟩ := exists_of_forall₂ hspec.flip _ hentry
    obtain ⟨first, second, hparts, hfirst, hsecond⟩ := hpair
    obtain ⟨first', second', hparts', hfirst', hsecond'⟩ := hpair'
    obtain ⟨rfl, rfl⟩ := hparts.unique hparts'
    rw [Prod.ext (Option.some.inj (hfirst.symm.trans hfirst'))
      (Option.some.inj (hsecond.symm.trans hsecond'))]
    exact hm

/-- Every pair of neighbours that has a rank is a token with parts. -/
theorem recovered_of_recover (hinjective : Injective ranks.find?)
    (h : recoverBytePairBpeRanks ranks = .ok merges) (bound : Nat) :
    Recovered ranks.find? bound := by
  intro x y r hx hy hrank _
  have hlength : (x ++ y).length ≠ 1 := by
    have hxpos := List.length_pos_iff.mpr hx
    have hypos := List.length_pos_iff.mpr hy
    rw [List.length_append]
    omega
  have hentry : (x ++ y, r) ∈ ranks.entries.filter fun e => e.1.length ≠ 1 :=
    List.mem_filter.mpr ⟨OrderedMap.find?_eq_some_iff.mp hrank, decide_eq_true hlength⟩
  obtain ⟨m, -, ⟨first, second, hparts, -, -⟩, -⟩ :=
    exists_of_forall₂ (recovered_spec hinjective h).flip _ hentry
  exact ⟨first, second, hparts⟩

end Recovered

/-! ### The ids of a chunk -/

section Chunks

variable {merges : BPERanks} {bytes : Bytes}

/-- The ids are the ranks of the parts of a state of the run. -/
def Ranked (ranks : BPETokenRanks) (bytes : Bytes) (ids : List Nat) : Prop :=
  ∃ parts, ReflTransGen (Step ranks.find? INT32_MAX) (singletons bytes) parts ∧
    parts.map ranks.find? = ids.map some

/-- Neighbours among the ids are the ranks of neighbours among the parts. -/
theorem mem_neighbours_ids {parts : List Bytes} {ids : List Nat}
    (hranks : parts.map ranks.find? = ids.map some) {pair : BPEPair} (h : pair ∈ neighbours ids) :
    ∃ p ∈ neighbours parts, ranks.find? p.1 = some pair.1 ∧ ranks.find? p.2 = some pair.2 := by
  have hpairs := congrArg neighbours hranks
  rw [neighbours_map, neighbours_map] at hpairs
  have hmem : (some pair.1, some pair.2) ∈ (neighbours ids).map fun p => (some p.1, some p.2) :=
    List.mem_map.mpr ⟨pair, h, rfl⟩
  rw [← hpairs] at hmem
  obtain ⟨p, hp, heq⟩ := List.mem_map.mp hmem
  exact ⟨p, hp, congrArg Prod.fst heq, congrArg Prod.snd heq⟩

/-- The best neighbours have a merge, and their ranks are neighbours among the ids. -/
theorem exists_merge_of_best (hinjective : Injective ranks.find?)
    (h : recoverBytePairBpeRanks ranks = .ok merges) {front back : List Bytes} {x y : Bytes}
    {r : Nat} {ids : List Nat} (hrank : ranks.find? (x ++ y) = some r)
    (hparts : Parts ranks.find? (x ++ y) x y)
    (hranks : (front ++ x :: y :: back).map ranks.find? = ids.map some) :
    ∃ pair ∈ neighbours ids, merges.find? pair = some r := by
  have hpairs := congrArg neighbours hranks
  rw [neighbours_map, neighbours_map] at hpairs
  have hmem : (ranks.find? x, ranks.find? y) ∈ (neighbours (front ++ x :: y :: back)).map
      fun p => (ranks.find? p.1, ranks.find? p.2) :=
    List.mem_map.mpr ⟨(x, y), mem_neighbours_iff.mpr ⟨front, back, rfl⟩, rfl⟩
  rw [hpairs] at hmem
  obtain ⟨pair, hpair, heq⟩ := List.mem_map.mp hmem
  obtain ⟨hx, hy⟩ := Prod.mk.inj heq
  have hlength : (x ++ y).length ≠ 1 := by
    have hxpos := List.length_pos_iff.mpr hparts.ne_nil.1
    have hypos := List.length_pos_iff.mpr hparts.ne_nil.2
    rw [List.length_append]
    omega
  exact ⟨pair, hpair, (find?_recovered hinjective h).mpr
    ⟨x ++ y, hrank, hlength, x, y, hparts, hx.symm, hy.symm⟩⟩

/-- **One round merges the best neighbours**, wherever they are. -/
theorem ranked_mergePair (hinjective : Injective ranks.find?)
    (h : recoverBytePairBpeRanks ranks = .ok merges) {ids : List Nat} {pair : BPEPair} {idx : Nat}
    (hids : Ranked ranks bytes ids) (hpair : pair ∈ neighbours ids)
    (hfind : merges.find? pair = some idx) (hlt : idx < INT32_MAX)
    (hleast : ∀ pair' ∈ neighbours ids, ∀ idx' ∈ merges.find? pair', idx ≤ idx') :
    Ranked ranks bytes (mergePair pair.1 pair.2 idx ids) := by
  obtain ⟨parts, hrun, hranks⟩ := hids
  obtain ⟨⟨x, y⟩, hp, hx, hy⟩ := mem_neighbours_ids hranks hpair
  obtain ⟨token, hrank, -, first, second, hparts, hfirst, hsecond⟩ :=
    (find?_recovered hinjective h).mp hfind
  obtain rfl : first = x := hinjective _ _ _ hfirst hx
  obtain rfl : second = y := hinjective _ _ _ hsecond hy
  obtain rfl := hparts.append
  -- the best neighbours have the rank of this pair, so that they are the same
  obtain ⟨front, x, y, back, r, hbest, hle, heq⟩ := exists_best hp hrank
  obtain ⟨hparts', hnext⟩ := reaches_mergePair hinjective
    (recovered_of_recover hinjective h INT32_MAX) hrun heq hbest (Nat.lt_of_le_of_lt hle hlt)
  obtain ⟨pair', hpair', hfind'⟩ := exists_merge_of_best hinjective h hbest.rank_eq hparts'
    (heq ▸ hranks)
  obtain rfl := Nat.le_antisymm hle (hleast pair' hpair' r hfind')
  rw [hinjective _ _ _ hbest.rank_eq hrank] at hparts' hnext
  obtain ⟨rfl, rfl⟩ := hparts.unique hparts'
  refine ⟨_, hnext, ?_⟩
  rw [map_mergePair (fun z _ hz => hinjective _ _ _ (hz.trans hx) hx)
      (fun z _ hz => hinjective _ _ _ (hz.trans hy) hy), hranks, hx, hy, hrank,
    map_mergePair (fun z _ hz => Option.some.inj hz) fun z _ hz => Option.some.inj hz]

/-- Where no pair of ids has a merge, the run is at its end. -/
theorem not_step_of_ranked (hinjective : Injective ranks.find?)
    (h : recoverBytePairBpeRanks ranks = .ok merges) {parts : List Bytes} {ids : List Nat}
    (hrun : ReflTransGen (Step ranks.find? INT32_MAX) (singletons bytes) parts)
    (hranks : parts.map ranks.find? = ids.map some)
    (hdone : ∀ pair ∈ neighbours ids, ∀ idx ∈ merges.find? pair, INT32_MAX ≤ idx)
    (next : List Bytes) : ¬ Step ranks.find? INT32_MAX parts next := by
  rintro ⟨front, x, y, back, r, hbest, hr, rfl, -⟩
  obtain ⟨hparts, -⟩ := reaches_mergePair hinjective
    (recovered_of_recover hinjective h INT32_MAX) hrun rfl hbest hr
  obtain ⟨pair, hpair, hfind⟩ := exists_merge_of_best hinjective h hbest.rank_eq hparts hranks
  exact absurd hr (Nat.not_lt_of_le (hdone pair hpair r hfind))

/-- **The rounds of a chunk end with the ranks of what `_bpe` gives.** -/
theorem mergeIds_bpe (hinjective : Injective ranks.find?)
    (h : recoverBytePairBpeRanks ranks = .ok merges) {ids : List Nat}
    (hids : (singletons bytes).map ranks.find? = ids.map some) {parts : List Bytes}
    (hbpe : bpe ranks bytes INT32_MAX = .ok parts) :
    ∃ ids', mergeIds merges ids.length ids = .ok ids' ∧ parts.map ranks.find? = ids'.map some := by
  obtain ⟨ids', hmerge, ⟨parts', hrun', hranks'⟩, hdone⟩ := mergeIds_elim
    (fun ids pair idx => ranked_mergePair hinjective h) ⟨singletons bytes, .refl, hids⟩
    (Nat.le_refl _)
  obtain ⟨hrun, hfinal⟩ := bpe_spec hbpe
  rw [Nat.min_self] at hrun hfinal
  have hsame := final_unique hrun hrun' hfinal
    (not_step_of_ranked hinjective h hrun' hranks' hdone)
  exact ⟨ids', hmerge, hsame ▸ hranks'⟩

end Chunks

/-! ### The tokenizer of a table -/

section Config

variable {order : ByteOrder} {config : TiktokenConfig}

/-- The rank of a single byte. -/
def byteRank (ranks : BPETokenRanks) (b : UInt8) : Nat := (ranks.find? [b]).getD 0

/-- What a byte is shuffled into. -/
def lowByte (ranks : BPETokenRanks) (b : UInt8) : UInt8 := UInt8.ofNat (byteRank ranks b)

/-- What a table is made into. -/
def TiktokenConfig.tokenizer (config : TiktokenConfig) (order : ByteOrder) (merges : BPERanks) :
    TiktokenTokenizer :=
  .new order merges (rebuildVocab merges) config.findAll config.specialTokens
    (lowByte config.mergeableRanks)

/-- A table of all bytes is accepted if its pairs are recovered. -/
theorem fromTiktokenConfig_of {merges : BPERanks}
    (hmerges : recoverBytePairBpeRanks config.mergeableRanks = .ok merges)
    (hbytes : ∀ b, config.mergeableRanks.find? [b] = some (byteRank config.mergeableRanks b)) :
    fromTiktokenConfig order config = .ok (config.tokenizer order merges) := by
  have hids : ((List.range 256).mapM fun i => rankAt config.mergeableRanks [UInt8.ofNat i])
      = .ok ((List.range 256).map fun i => byteRank config.mergeableRanks (UInt8.ofNat i)) :=
    mapM_eq_ok fun i _ => by rw [rankAt, hbytes]
  have hshuffle : (fun b : UInt8 => UInt8.ofNat (((List.range 256).map fun i =>
        byteRank config.mergeableRanks (UInt8.ofNat i)).getD b.toNat 0))
      = lowByte config.mergeableRanks := by
    funext b
    rw [lowByte, List.getD_eq_getElem?_getD, List.getElem?_map, List.getElem?_range b.toNat_lt,
      Option.map_some, Option.getD_some, UInt8.ofNat_toNat]
  rw [fromTiktokenConfig, hmerges, hids, TiktokenConfig.tokenizer, ← hshuffle]
  rfl

/-- What an accepted table holds. -/
theorem of_fromTiktokenConfig {t : TiktokenTokenizer}
    (h : fromTiktokenConfig order config = .ok t) :
    ∃ merges, recoverBytePairBpeRanks config.mergeableRanks = .ok merges ∧
      (∀ b, config.mergeableRanks.find? [b] = some (byteRank config.mergeableRanks b)) ∧
      t = config.tokenizer order merges := by
  have haccepted := h
  rw [fromTiktokenConfig] at h
  obtain ⟨merges, hmerges, h⟩ := checks_eq_ok.mp h
  obtain ⟨ids, hids, -⟩ := checks_eq_ok.mp h
  have hbytes : ∀ b, config.mergeableRanks.find? [b]
      = some (byteRank config.mergeableRanks b) := by
    intro b
    obtain ⟨rank, -, hrank⟩ := exists_of_mapM hids b.toNat (List.mem_range.mpr b.toNat_lt)
    have hfind := rankAt_eq_ok hrank
    rw [UInt8.ofNat_toNat] at hfind
    rw [byteRank, hfind, Option.getD_some]
  rw [fromTiktokenConfig_of hmerges hbytes] at haccepted
  exact ⟨merges, hmerges, hbytes, (Except.ok.inj haccepted).symm⟩

/-- Distinct ranks. -/
theorem injective_of_nodup (h : (ranks.entries.map Prod.snd).Nodup) : Injective ranks.find? := by
  intro x y r hx hy
  exact congrArg Prod.fst (List.inj_on_of_nodup_map h (OrderedMap.find?_eq_some_iff.mp hx)
    (OrderedMap.find?_eq_some_iff.mp hy) rfl)

/-- The ids of a chunk are the ranks of the parts that `_bpe` gives. -/
def Agrees (t : TiktokenTokenizer) (ranks : BPETokenRanks) (bytes : Bytes) : Prop :=
  ∃ parts ids, bpe ranks bytes INT32_MAX = .ok parts ∧ t.encodeChunk bytes = .ok ids ∧
    parts.map ranks.find? = ids.map some

/-- Of no bytes `_bpe` gives no parts. -/
theorem not_agrees_nil (t : TiktokenTokenizer) : ¬ Agrees t ranks [] := by
  rintro ⟨parts, ids, hbpe, -⟩
  cases hbpe

/-- **Merging pairs of ids agrees with merging by rank**, if there are bytes to merge. -/
theorem encodeChunk_agrees_iff (order : ByteOrder) (config : TiktokenConfig)
    (hdistinct : (config.mergeableRanks.entries.map Prod.snd).Nodup)
    (hbytes : ∀ b : UInt8, ∃ rank < 256, config.mergeableRanks.find? [b] = some rank)
    (merges : BPERanks) (hmerges : recoverBytePairBpeRanks config.mergeableRanks = .ok merges) :
    ∃ t, fromTiktokenConfig order config = .ok t ∧
      ∀ bytes, Agrees t config.mergeableRanks bytes ↔ bytes ≠ [] := by
  have hinjective := injective_of_nodup hdistinct
  have hrank : ∀ b, config.mergeableRanks.find? [b]
      = some (lowByte config.mergeableRanks b).toNat := by
    intro b
    obtain ⟨rank, hlt, hrank⟩ := hbytes b
    rw [lowByte, byteRank, hrank, Option.getD_some, UInt8.toNat_ofNat_of_lt' hlt]
  refine ⟨_, fromTiktokenConfig_of hmerges fun b => ?_, fun bytes => ⟨?_, fun hne => ?_⟩⟩
  · obtain ⟨rank, -, hrank⟩ := hbytes b
    rw [byteRank, hrank, Option.getD_some]
  · rintro hagrees rfl
    exact not_agrees_nil _ hagrees
  · have hids : (singletons bytes).map config.mergeableRanks.find?
        = ((bytes.map (lowByte config.mergeableRanks)).map UInt8.toNat).map some := by
      rw [singletons, List.map_map, List.map_map, List.map_map]
      exact List.map_congr_left fun b _ => hrank b
    have hbpe : bpe config.mergeableRanks bytes INT32_MAX
        = .ok (bpeLoop config.mergeableRanks INT32_MAX bytes.length (singletons bytes)) :=
      if_neg hne
    obtain ⟨ids, hmerge, hranks⟩ := mergeIds_bpe hinjective hmerges hids hbpe
    exact ⟨_, ids, hbpe, hmerge, hranks⟩

/-- The order of the bytes themselves. -/
def ascendingBytes : ByteOrder where
  bytes := (List.range 256).map UInt8.ofNat
  complete b := List.mem_map.mpr ⟨b.toNat, List.mem_range.mpr b.toNat_lt, UInt8.ofNat_toNat⟩

/-- The single bytes from the last to the first, and two longer tokens. -/
def reversedRanks : BPETokenRanks where
  entries := (List.range 256).map (fun i => ([UInt8.ofNat (255 - i)], i))
    ++ [(toUTF8 "ab".toList, 256), (toUTF8 "abab".toList, 257)]
  nodup := by
    rw [List.map_append, List.map_map]
    refine List.nodup_append.mpr ⟨List.Nodup.map_on (fun i hi j hj heq => ?_) List.nodup_range,
      by decide, fun x hx y hy => ?_⟩
    · rw [List.mem_range] at hi hj
      have hsame := congrArg UInt8.toNat (List.cons.inj heq).1
      rw [UInt8.toNat_ofNat_of_lt' (Nat.sub_lt_of_lt (by decide)),
        UInt8.toNat_ofNat_of_lt' (Nat.sub_lt_of_lt (by decide))] at hsame
      omega
    · obtain ⟨i, -, rfl⟩ := List.mem_map.mp hx
      rintro rfl
      have hlength : ∀ token ∈ [toUTF8 "ab".toList, toUTF8 "abab".toList], token.length ≠ 1 := by
        decide
      exact hlength _ hy rfl

/-- A configuration with this table and one special token. -/
def reversedConfig : TiktokenConfig where
  findAll := wholeText
  mergeableRanks := reversedRanks
  specialTokens := { entries := [("<|end|>".toList, 300)], nodup := by decide }

theorem find?_reversedRanks (b : UInt8) :
    255 - b.toNat < 256 ∧ reversedRanks.find? [b] = some (255 - b.toNat) := by
  have hlt := b.toNat_lt
  have hback : UInt8.ofNat (255 - (255 - b.toNat)) = b := by
    rw [show 255 - (255 - b.toNat) = b.toNat by omega, UInt8.ofNat_toNat]
  exact ⟨by omega, OrderedMap.find?_eq_some_iff.mpr (List.mem_append_left _
    (List.mem_map.mpr ⟨255 - b.toNat, List.mem_range.mpr (by omega), by rw [hback]⟩))⟩

theorem map_snd_reversedRanks : reversedRanks.entries.map Prod.snd = List.range 258 := by
  decide +kernel

theorem recover_reversedRanks : ∃ merges, recoverBytePairBpeRanks reversedRanks = .ok merges := by
  have hsome : (recoverBytePairBpeRanks reversedRanks).toOption.isSome := by decide +kernel
  cases h : recoverBytePairBpeRanks reversedRanks with
  | ok merges => exact ⟨merges, rfl⟩
  | error e =>
      rw [h] at hsome
      cases hsome

theorem byteRank_reversedRanks (b : UInt8) : byteRank reversedRanks b = 255 - b.toNat := by
  rw [byteRank, (find?_reversedRanks b).2, Option.getD_some]

theorem fromTiktokenConfig_reversed :
    ∃ t, fromTiktokenConfig ascendingBytes reversedConfig = .ok t := by
  obtain ⟨merges, hmerges⟩ := recover_reversedRanks
  have hbytes : ∀ b, reversedRanks.find? [b] = some (byteRank reversedRanks b) := fun b => by
    rw [byteRank_reversedRanks, (find?_reversedRanks b).2]
  exact ⟨_, @fromTiktokenConfig_of ascendingBytes reversedConfig _ hmerges hbytes⟩

theorem encodeChunk_agrees_reversed :
    ∃ t, fromTiktokenConfig ascendingBytes reversedConfig = .ok t ∧
      Agrees t reversedRanks (toUTF8 "cababb".toList) := by
  obtain ⟨merges, hmerges⟩ := recover_reversedRanks
  obtain ⟨t, ht, hagrees⟩ := encodeChunk_agrees_iff ascendingBytes reversedConfig
    (map_snd_reversedRanks ▸ List.nodup_range)
    (fun b => ⟨255 - b.toNat, find?_reversedRanks b⟩) merges hmerges
  exact ⟨t, ht, (hagrees _).mpr (by decide)⟩

/-- A chunk without bytes has no ids, and no parts are defined. -/
theorem empty_chunk_disagrees :
    (reversedRanks.entries.map Prod.snd).Nodup ∧
      (∀ b : UInt8, ∃ rank < 256, reversedRanks.find? [b] = some rank) ∧
      ∃ t, fromTiktokenConfig ascendingBytes reversedConfig = .ok t ∧
        t.encodeChunk [] = .ok [] ∧ ¬ Agrees t reversedRanks [] := by
  obtain ⟨t, ht⟩ := fromTiktokenConfig_reversed
  have hnil : t.encodeChunk [] = .ok [] := by
    obtain ⟨merges, -, -, rfl⟩ := of_fromTiktokenConfig ht
    rfl
  exact ⟨map_snd_reversedRanks ▸ List.nodup_range,
    fun b => ⟨255 - b.toNat, find?_reversedRanks b⟩, t, ht, hnil, not_agrees_nil t⟩

end Config

end Instinct.Tokenizers
