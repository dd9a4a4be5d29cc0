/-
Instinct/TiktokenRoundTrip.lean

When texts come back from a tokenizer that is made of a table.

The vocabulary is rebuilt from lower to higher ranks (`Rebuilt`), so that in the end each
token is spelled by the ranks of its bytes, as far as these are bytes again
(`bytesOf_rank`).  An ordinary text is decoded to what its bytes come back as
(`decode_ordinary`): themselves, if the single bytes have the first ranks
(`survives_of_lt`).  The ids of special tokens are not in the vocabulary, which is all
that `Decode` looks into (`decode_encode_iff`).
-/
import Instinct.TiktokenMerges
import Instinct.TokenizerRoundTrip
import Mathlib.Data.Fintype.EquivFin

namespace Instinct.Tokenizers

open OrderedMaps PairMerging

variable {ranks : BPETokenRanks}

/-! ### The vocabulary -/

/-- What a byte is in the vocabulary: its rank, if that is a byte. -/
def written (ranks : BPETokenRanks) (b : UInt8) : Bytes :=
  if byteRank ranks b < 256 then [lowByte ranks b] else []

/-- What holds while the vocabulary is rebuilt: single bytes and the tokens that are done are
spelled, other bytes stand for themselves, and all ids are bytes or ranks. -/
structure Rebuilt (ranks : BPETokenRanks) (done : List (Bytes × Nat)) (vocab : Vocab) : Prop where
  bytes : ∀ b, bytesOf vocab (byteRank ranks b) = written ranks b
  tokens : ∀ e ∈ done, bytesOf vocab e.2 = e.1.flatMap (written ranks)
  free : ∀ v < 256, v ∉ done.map Prod.snd → bytesOf vocab v = [UInt8.ofNat v]
  present : ∀ id, id < 256 ∨ id ∈ done.map Prod.snd → (vocab.find? id).isSome
  keys : ∀ id, (vocab.find? id).isSome → id < 256 ∨ id ∈ ranks.entries.map Prod.snd

theorem rebuilt_byteVocab (ranks : BPETokenRanks) : Rebuilt ranks [] byteVocab where
  bytes b := by
    rw [bytesOf, find?_byteVocab, written]
    split <;> rfl
  tokens e he := absurd he List.not_mem_nil
  free v hv _ := by
    rw [bytesOf, find?_byteVocab, if_pos hv]
    rfl
  present id hid := by
    rw [find?_byteVocab, if_pos (hid.resolve_right List.not_mem_nil)]
    rfl
  keys id hid := by
    rw [find?_byteVocab] at hid
    split at hid
    · next hlt => exact .inl hlt
    · cases hid

theorem mem_ranks_of_find? {token : Bytes} {r : Nat} (h : ranks.find? token = some r) :
    r ∈ ranks.entries.map Prod.snd :=
  List.mem_map_of_mem (OrderedMap.find?_eq_some_iff.mp h)

/-- A byte, or a token that is done. -/
theorem Rebuilt.bytesOf_rank {done : List (Bytes × Nat)} {vocab : Vocab}
    (h : Rebuilt ranks done vocab) (hbytes : ∀ b, ranks.find? [b] = some (byteRank ranks b))
    {token : Bytes} {r : Nat} (hr : ranks.find? token = some r)
    (hdone : token.length ≠ 1 → (token, r) ∈ done) :
    bytesOf vocab r = token.flatMap (written ranks) := by
  by_cases hlength : token.length = 1
  · obtain ⟨b, rfl⟩ := List.length_eq_one_iff.mp hlength
    obtain rfl := Option.some.inj ((hbytes b).symm.trans hr)
    rw [h.bytes, List.flatMap_singleton]
  · exact h.tokens _ (hdone hlength)

/-- One more token, the parts of which are bytes or done. -/
theorem Rebuilt.next {done : List (Bytes × Nat)} {vocab : Vocab} (h : Rebuilt ranks done vocab)
    (hbytes : ∀ b, ranks.find? [b] = some (byteRank ranks b)) (hinjective : Injective ranks.find?)
    {token : Bytes} {r : Nat} {pair : BPEPair} (hr : ranks.find? token = some r)
    (hlength : token.length ≠ 1) (hpair : IsPair ranks token pair) (hnew : r ∉ done.map Prod.snd)
    (hdone : ∀ token' s, ranks.find? token' = some s → token'.length ≠ 1 → s < r →
      (token', s) ∈ done) :
    Rebuilt ranks (done ++ [(token, r)]) (addMerge vocab pair r) := by
  obtain ⟨first, second, hparts, hfirst, hsecond⟩ := hpair
  have hbyte : ∀ b, byteRank ranks b ≠ r := fun b heq =>
    hlength (hinjective _ _ r hr (heq ▸ hbytes b) ▸ rfl)
  have hspelled : ∀ part ∈ [first, second], ∀ s, ranks.find? part = some s →
      bytesOf vocab s = part.flatMap (written ranks) := by
    intro part hpart s hs
    refine h.bytesOf_rank hbytes hs fun hone => ?_
    rcases hparts.rank_lt hr part hpart with ⟨b, rfl⟩ | ⟨s', hs', hlt⟩
    · exact absurd rfl hone
    · obtain rfl := Option.some.inj (hs'.symm.trans hs)
      exact hdone part s' hs' hone hlt
  exact
    { bytes := fun b => by rw [bytesOf_addMerge_of_ne (hbyte b), h.bytes]
      tokens := by
        intro e he
        rcases List.mem_append.mp he with he | he
        · have hne : e.2 ≠ r := fun heq => hnew (heq ▸ List.mem_map_of_mem he)
          rw [bytesOf_addMerge_of_ne hne, h.tokens e he]
        · obtain rfl := List.mem_singleton.mp he
          rw [bytesOf_addMerge_self, hspelled first (by simp) _ hfirst,
            hspelled second (by simp) _ hsecond, ← List.flatMap_append, hparts.append]
      free := by
        intro v hv hnot
        rw [List.map_append, List.mem_append, not_or] at hnot
        have hne : v ≠ r := fun heq => hnot.2 (List.mem_singleton.mpr heq)
        rw [bytesOf_addMerge_of_ne hne, h.free v hv hnot.1]
      present := by
        intro id hid
        rw [List.map_append, List.mem_append, List.map_singleton, List.mem_singleton,
          ← or_assoc] at hid
        rw [isSome_find?_addMerge]
        rcases hid with hid | hid
        · exact .inr (.inr (.inr (h.present id hid)))
        · exact .inl hid
      keys := by
        intro id hid
        rcases isSome_find?_addMerge.mp hid with rfl | rfl | rfl | hid
        · exact .inr (mem_ranks_of_find? hr)
        · exact .inr (mem_ranks_of_find? hfirst)
        · exact .inr (mem_ranks_of_find? hsecond)
        · exact h.keys id hid }

/-- The tokens of more than one byte. -/
def longTokens (ranks : BPETokenRanks) : List (Bytes × Nat) :=
  ranks.entries.filter fun e => e.1.length ≠ 1

theorem mem_longTokens {token : Bytes} {r : Nat} :
    (token, r) ∈ longTokens ranks ↔ ranks.find? token = some r ∧ token.length ≠ 1 := by
  rw [longTokens, List.mem_filter, OrderedMap.find?_eq_some_iff, decide_eq_true_iff]

section Ascending

variable {merges : BPERanks}

theorem injective_of_ascending (h : (ranks.entries.map Prod.snd).Pairwise (· < ·)) :
    Injective ranks.find? :=
  injective_of_nodup (h.imp Nat.ne_of_lt)

/-- **The vocabulary is rebuilt**, by induction along the table: what a token is made of has a
lower rank and is done. -/
theorem rebuilt_rebuildVocab (hascending : (ranks.entries.map Prod.snd).Pairwise (· < ·))
    (hbytes : ∀ b, ranks.find? [b] = some (byteRank ranks b))
    (hmerges : recoverBytePairBpeRanks ranks = .ok merges) :
    Rebuilt ranks (longTokens ranks) (rebuildVocab merges) := by
  have hinjective := injective_of_ascending hascending
  have hordered : (longTokens ranks).Pairwise fun e e' => e.2 < e'.2 :=
    (List.pairwise_map.mp hascending).filter _
  have hall : ∀ (rest : List (Bytes × Nat)) (pairs : List (BPEPair × Nat)),
      List.Forall₂ (fun e m => IsPair ranks e.1 m.1 ∧ m.2 = e.2) rest pairs →
      ∀ (done : List (Bytes × Nat)) (vocab : Vocab), longTokens ranks = done ++ rest →
      Rebuilt ranks done vocab →
      Rebuilt ranks (longTokens ranks)
        (pairs.foldl (fun vocab e => addMerge vocab e.1 e.2) vocab) := by
    intro rest pairs h
    induction h with
    | nil =>
        intro done vocab hdone hvocab
        rw [hdone, List.append_nil]
        exact hvocab
    | @cons e m rest pairs hpair _ ih =>
        intro done vocab hdone hvocab
        obtain ⟨token, r⟩ := e
        obtain ⟨pair, id⟩ := m
        obtain ⟨hpair, rfl⟩ : IsPair ranks token pair ∧ id = r := hpair
        obtain ⟨hr, hlength⟩ := mem_longTokens.mp
          (show (token, id) ∈ longTokens ranks by rw [hdone]; simp)
        rw [hdone, List.pairwise_append, List.pairwise_cons] at hordered
        obtain ⟨-, ⟨hbehind, -⟩, hbefore⟩ := hordered
        refine ih (done ++ [(token, id)]) (addMerge vocab pair id) (by rw [hdone]; simp)
          (hvocab.next hbytes hinjective hr hlength hpair (fun hmem => ?_)
            fun token' s hs hs' hlt => ?_)
        · obtain ⟨e, he, heq⟩ := List.mem_map.mp hmem
          have hlt := hbefore e he _ List.mem_cons_self
          rw [heq] at hlt
          exact Nat.lt_irrefl _ hlt
        · have hmem := mem_longTokens.mpr ⟨hs, hs'⟩
          rw [hdone, List.mem_append, List.mem_cons] at hmem
          rcases hmem with hmem | heq | hmem
          · exact hmem
          · obtain ⟨-, rfl⟩ := Prod.mk.inj heq
            exact absurd hlt (Nat.lt_irrefl _)
          · exact absurd (hbehind _ hmem) (Nat.lt_asymm hlt)
  exact hall (longTokens ranks) merges.entries (recovered_spec hinjective hmerges) [] byteVocab rfl
    (rebuilt_byteVocab ranks)

end Ascending

/-! ### Bytes that come back -/

/-- The byte that an image is shuffled back into: the last that has it. -/
def restore (order : ByteOrder) (ranks : BPETokenRanks) (v : UInt8) : UInt8 :=
  (order.bytes.reverse.find? fun b => lowByte ranks b = v).getD v

/-- What a byte is decoded to, if nothing is merged.  Its image can be the rank of a longer
token. -/
def comeBack (order : ByteOrder) (ranks : BPETokenRanks) (b : UInt8) : Bytes :=
  (match (longTokens ranks).find? (fun e : Bytes × Nat => e.2 = (lowByte ranks b).toNat) with
    | some e => e.1.flatMap (written ranks)
    | none => [lowByte ranks b]).map (restore order ranks)

/-- The bytes of a text come back as those of the text. -/
def Survives (order : ByteOrder) (ranks : BPETokenRanks) (text : UnicodeString) : Prop :=
  fromUTF8 ((toUTF8 text).flatMap (comeBack order ranks)) = text

section Restore

variable {order : ByteOrder}

theorem find?_foldl_set_last (f : UInt8 → UInt8) (l : List UInt8) (v : UInt8) :
    (l.foldl (fun reversed b => reversed.set (f b) b) (.empty : ReversedByteShuffle)).find? v
      = l.reverse.find? fun b => f b = v := by
  induction l using List.reverseRecOn with
  | nil => rfl
  | append_singleton l b ih =>
      rw [List.foldl_append, List.foldl_cons, List.foldl_nil, List.reverse_append,
        List.reverse_singleton, List.singleton_append, List.find?_cons]
      by_cases hb : f b = v
      · subst hb
        rw [OrderedMap.find?_set_self, decide_eq_true rfl]
      · rw [OrderedMap.find?_set_of_ne _ _ (Ne.symm hb), ih, decide_eq_false hb]

/-- Images are shuffled back, into a byte that has the image. -/
theorem find?_reverseShuffle (order : ByteOrder) (ranks : BPETokenRanks) (b : UInt8) :
    (reverseShuffle order (lowByte ranks)).find? (lowByte ranks b)
        = some (restore order ranks (lowByte ranks b)) ∧
      lowByte ranks (restore order ranks (lowByte ranks b)) = lowByte ranks b := by
  obtain ⟨c, hc⟩ : ∃ c, order.bytes.reverse.find? (fun c => lowByte ranks c = lowByte ranks b)
      = some c := Option.isSome_iff_exists.mp (List.find?_isSome.mpr
    ⟨b, List.mem_reverse.mpr (order.complete b), decide_eq_true rfl⟩)
  have hfound := List.find?_some hc
  rw [reverseShuffle, find?_foldl_set_last, restore, hc, Option.getD_some]
  exact ⟨rfl, of_decide_eq_true hfound⟩

/-- Where the single bytes have the first ranks, they are shuffled one to one. -/
theorem lowByte_injective (hinjective : Injective ranks.find?)
    (hbytes : ∀ b, ranks.find? [b] = some (byteRank ranks b)) (hlt : ∀ b, byteRank ranks b < 256) :
    Function.Injective (lowByte ranks) := by
  intro b c heq
  have hranks := congrArg UInt8.toNat heq
  rw [lowByte, lowByte, UInt8.toNat_ofNat_of_lt' (hlt b),
    UInt8.toNat_ofNat_of_lt' (hlt c)] at hranks
  exact (List.cons.inj (hinjective _ _ _ (hbytes b) (hranks ▸ hbytes c))).1

/-- There are no other images then. -/
theorem lowByte_surjective (hinjective : Injective ranks.find?)
    (hbytes : ∀ b, ranks.find? [b] = some (byteRank ranks b)) (hlt : ∀ b, byteRank ranks b < 256) :
    Function.Surjective (lowByte ranks) := by
  have hfinite : Finite UInt8 := Finite.of_injective UInt8.toFin fun _ _ h => UInt8.toFin_inj.mp h
  exact Finite.injective_iff_surjective.mp (lowByte_injective hinjective hbytes hlt)

/-- **All texts survive** where the single bytes have the first ranks. -/
theorem survives_of_lt (hinjective : Injective ranks.find?)
    (hbytes : ∀ b, ranks.find? [b] = some (byteRank ranks b)) (hlt : ∀ b, byteRank ranks b < 256)
    (order : ByteOrder) (text : UnicodeString) : Survives order ranks text := by
  have htoNat : ∀ b, (lowByte ranks b).toNat = byteRank ranks b := fun b =>
    UInt8.toNat_ofNat_of_lt' (hlt b)
  have hcome : ∀ b, comeBack order ranks b = [b] := by
    intro b
    have hnone : (longTokens ranks).find? (fun e => e.2 = (lowByte ranks b).toNat) = none := by
      refine List.find?_eq_none.mpr fun e he heq => ?_
      obtain ⟨hr, hlength⟩ := mem_longTokens.mp he
      rw [decide_eq_true_iff.mp heq, htoNat] at hr
      exact hlength (hinjective _ _ _ hr (hbytes b) ▸ rfl)
    rw [comeBack, hnone]
    show [restore order ranks (lowByte ranks b)] = [b]
    rw [lowByte_injective hinjective hbytes hlt (find?_reverseShuffle order ranks b).2]
  rw [Survives, show (toUTF8 text).flatMap (comeBack order ranks) = toUTF8 text by
    rw [show comeBack order ranks = fun b => [b] from funext hcome]
    exact List.flatMap_singleton' _]
  exact fromUTF8_toUTF8 text

end Restore

/-! ### Ordinary texts -/

section Tokenizer

variable {order : ByteOrder} {config : TiktokenConfig} {merges : BPERanks}

/-- A configuration with a rank for each byte, distinct ranks, and what it is made into. -/
structure Built (config : TiktokenConfig) (merges : BPERanks) : Prop where
  injective : Injective config.mergeableRanks.find?
  bytes : ∀ b, config.mergeableRanks.find? [b] = some (byteRank config.mergeableRanks b)
  recovered : recoverBytePairBpeRanks config.mergeableRanks = .ok merges
  rebuilt : Rebuilt config.mergeableRanks (longTokens config.mergeableRanks) (rebuildVocab merges)

/-- An ascending table that is accepted. -/
theorem built_of_fromTiktokenConfig
    (hascending : (config.mergeableRanks.entries.map Prod.snd).Pairwise (· < ·))
    {t : TiktokenTokenizer} (ht : fromTiktokenConfig order config = .ok t) :
    ∃ merges, Built config merges ∧ t = config.tokenizer order merges := by
  obtain ⟨merges, hmerges, hbytes, rfl⟩ := of_fromTiktokenConfig ht
  exact ⟨merges, ⟨injective_of_ascending hascending, hbytes, hmerges,
    rebuilt_rebuildVocab hascending hbytes hmerges⟩, rfl⟩

/-- Merged tokens are spelled by their pairs. -/
theorem spells_tokenizer (h : Built config merges) :
    Spells (config.tokenizer order merges).toRegexTokenizer (lowByte config.mergeableRanks)
      (bytesOf (rebuildVocab merges)) fun id => ((rebuildVocab merges).find? id).isSome where
  handle bytes := rfl
  merges pair id hfind := by
    obtain ⟨token, hr, hlength, first, second, hparts, hfirst, hsecond⟩ :=
      (find?_recovered h.injective h.recovered).mp hfind
    have hspelled : ∀ {part s}, config.mergeableRanks.find? part = some s →
        bytesOf (rebuildVocab merges) s = part.flatMap (written config.mergeableRanks) :=
      fun hs => h.rebuilt.bytesOf_rank h.bytes hs fun hone => mem_longTokens.mpr ⟨hs, hone⟩
    rw [hspelled hr, hspelled hfirst, hspelled hsecond, ← List.flatMap_append, hparts.append]
  known_merges pair id hfind := by
    obtain ⟨token, hr, hlength, -⟩ := (find?_recovered h.injective h.recovered).mp hfind
    exact h.rebuilt.present id (.inr (List.mem_map_of_mem (mem_longTokens.mpr ⟨hr, hlength⟩)))
  known_bytes b := h.rebuilt.present _ (.inl b.toNat_lt)

/-- An image in the vocabulary is made of images, and these are shuffled back. -/
theorem restore_bytesOf {vocab : Vocab} (h : Rebuilt ranks (longTokens ranks) vocab)
    (order : ByteOrder) (b : UInt8) :
    (bytesOf vocab (lowByte ranks b).toNat).map (restore order ranks) = comeBack order ranks b ∧
      ∀ v ∈ bytesOf vocab (lowByte ranks b).toNat, ∃ c, v = lowByte ranks c := by
  rw [comeBack]
  cases hfind : (longTokens ranks).find? fun e => e.2 = (lowByte ranks b).toNat with
  | some e =>
      have hfound := List.find?_some hfind
      have hr : e.2 = (lowByte ranks b).toNat := of_decide_eq_true hfound
      have htoken := h.tokens e (List.mem_of_find?_eq_some hfind)
      rw [hr] at htoken
      rw [htoken]
      refine ⟨rfl, fun v hv => ?_⟩
      obtain ⟨c, -, hv⟩ := List.mem_flatMap.mp hv
      rw [written] at hv
      split at hv
      · exact ⟨c, List.mem_singleton.mp hv⟩
      · cases hv
  | none =>
      have hnot : (lowByte ranks b).toNat ∉ (longTokens ranks).map Prod.snd := by
        intro hmem
        obtain ⟨e, he, heq⟩ := List.mem_map.mp hmem
        exact List.find?_eq_none.mp hfind e he (decide_eq_true heq)
      rw [h.free _ (lowByte ranks b).toNat_lt hnot, UInt8.ofNat_toNat]
      exact ⟨rfl, fun v hv => ⟨b, List.mem_singleton.mp hv⟩⟩

/-- Known ids are decoded to the bytes that they spell, shuffled back. -/
theorem decode_of_known {ids : List Nat}
    (hknown : ∀ id ∈ ids, ((rebuildVocab merges).find? id).isSome)
    (himage : ∀ v ∈ ids.flatMap (bytesOf (rebuildVocab merges)),
      ∃ c, v = lowByte config.mergeableRanks c) :
    (config.tokenizer order merges).decode ids
      = .ok (fromUTF8 ((ids.flatMap (bytesOf (rebuildVocab merges))).map
          (restore order config.mergeableRanks))) := by
  have hbytes : ∀ id ∈ ids, (config.tokenizer order merges).decodeId id
      = .ok (bytesOf (rebuildVocab merges) id) := by
    intro id hid
    obtain ⟨bytes, hfind⟩ := Option.isSome_iff_exists.mp (hknown id hid)
    have hvocab : (config.tokenizer order merges).vocab.find? id = some bytes := hfind
    rw [TiktokenTokenizer.decodeId, hvocab, bytesOf, hfind]
    rfl
  have hrestore : ∀ v ∈ (ids.map (bytesOf (rebuildVocab merges))).flatten,
      (config.tokenizer order merges).restoreByte v
        = .ok (restore order config.mergeableRanks v) := by
    intro v hv
    rw [← List.flatMap_def] at hv
    obtain ⟨c, rfl⟩ := himage v hv
    have hfind : (config.tokenizer order merges).reversedByteShuffle.find? _ = _ :=
      (find?_reverseShuffle order config.mergeableRanks c).1
    rw [TiktokenTokenizer.restoreByte, hfind]
  rw [TiktokenTokenizer.decode, mapM_eq_ok hbytes]
  show ((ids.map (bytesOf (rebuildVocab merges))).flatten.mapM
    (config.tokenizer order merges).restoreByte >>= fun result => pure (fromUTF8 result)) = _
  rw [mapM_eq_ok hrestore, List.flatMap_def]
  rfl

/-- **An ordinary text is decoded to what its bytes come back as.** -/
theorem decode_ordinary (htiles : ∀ text, (config.findAll text).flatten = text)
    (h : Built config merges)
    (order : ByteOrder) (text : UnicodeString) :
    ∃ ids, (config.tokenizer order merges).encodeOrdinary text = .ok ids ∧
      (config.tokenizer order merges).decode ids
        = .ok (fromUTF8 ((toUTF8 text).flatMap (comeBack order config.mergeableRanks))) := by
  obtain ⟨ids, hids, hspell, hknown⟩ := encodeOrdinary_spells
    (@spells_tokenizer order _ _ h) htiles text
  refine ⟨ids, hids, ?_⟩
  rw [decode_of_known hknown, hspell, List.map_flatMap]
  · exact congrArg (Except.ok ∘ fromUTF8)
      (List.flatMap_congr fun b _ => (restore_bytesOf h.rebuilt order b).1)
  · intro v hv
    rw [hspell] at hv
    obtain ⟨b, -, hv⟩ := List.mem_flatMap.mp hv
    exact (restore_bytesOf h.rebuilt order b).2 v hv

end Tokenizer

/-! ### Special tokens -/

section Specials

variable {order : ByteOrder} {config : TiktokenConfig} {merges : BPERanks}

/-- No special token of the configuration occurs in the text. -/
def Ordinary (config : TiktokenConfig) (text : UnicodeString) : Prop :=
  ∀ e ∈ config.specialTokens.entries, ¬ e.1 <:+: text

instance (config : TiktokenConfig) (text : UnicodeString) : Decidable (Ordinary config text) :=
  inferInstanceAs (Decidable (∀ e ∈ config.specialTokens.entries, ¬ e.1 <:+: text))

theorem mem_words_iff {token : UnicodeString} :
    token ∈ (config.tokenizer order merges).specialTokens.entries.map Prod.fst ↔
      ∃ id, (token, id) ∈ config.specialTokens.entries := by
  rw [List.mem_map]
  constructor
  · rintro ⟨⟨token, id⟩, he, rfl⟩
    exact ⟨id, (find?_registerSpecials rfl).mp (OrderedMap.find?_eq_some_iff.mpr he)⟩
  · rintro ⟨id, he⟩
    exact ⟨(token, id), OrderedMap.find?_eq_some_iff.mp ((find?_registerSpecials rfl).mpr he), rfl⟩

/-- Without special tokens a text is encoded as an ordinary one, unless it is empty. -/
theorem encode_of_ordinary {text : UnicodeString} (hordinary : Ordinary config text)
    (hne : text ≠ []) :
    (config.tokenizer order merges).encode text .all
      = (config.tokenizer order merges).encodeOrdinary text := by
  by_cases hnone : (config.tokenizer order merges).specialTokens.entries = []
  · exact encode_all_of_no_specials hnone text
  · have hwords : ∀ word ∈ (config.tokenizer order merges).specialTokens.entries.map Prod.fst,
        ¬ word <:+: text := by
      intro word hword
      obtain ⟨id, he⟩ := mem_words_iff.mp hword
      exact hordinary _ he
    have hchunks : (config.tokenizer order merges).chunks text = [text] :=
      Alternatives.splitRounds_of_none _ (n := 9) (by decide) hne
        (Alternatives.search_eq_none_iff.mpr hwords)
    have hpart : (config.tokenizer order merges).encodePart text
        = (config.tokenizer order merges).encodeOrdinary text := by
      rw [RegexTokenizer.encodePart]
      cases hfind : (config.tokenizer order merges).specialTokens.find? text with
      | none => rfl
      | some id =>
          exact absurd (List.infix_refl text) (hordinary _ ((find?_registerSpecials rfl).mp hfind))
    rw [encode_all hnone, hchunks, List.mapM_cons, hpart]
    cases (config.tokenizer order merges).encodeOrdinary text with
    | error e => rfl
    | ok ids => exact congrArg Except.ok (List.append_nil ids)

/-- Where there are special tokens an empty text has no parts. -/
theorem encode_nil (hsome : (config.tokenizer order merges).specialTokens.entries ≠ []) :
    (config.tokenizer order merges).encode [] .all = .ok [] := by
  have hchunks : (config.tokenizer order merges).chunks [] = [] := by
    rw [RegexTokenizer.chunks, Alternatives.splitRounds]
    simp
  rw [encode_all hsome, hchunks]
  rfl

/-- The id of a special token that occurs is among the ids. -/
theorem mem_of_encode {text : UnicodeString} (hspecial : ¬ Ordinary config text) (hne : text ≠ [])
    {ids : List Nat} (h : (config.tokenizer order merges).encode text .all = .ok ids) :
    ∃ e ∈ config.specialTokens.entries, e.2 ∈ ids := by
  have hsearch : Alternatives.search
      ((config.tokenizer order merges).specialTokens.entries.map Prod.fst) text ≠ none := by
    intro hnone
    refine hspecial fun e he => ?_
    exact Alternatives.search_eq_none_iff.mp hnone e.1 (mem_words_iff.mpr ⟨e.2, he⟩)
  obtain ⟨m, hm⟩ := Option.ne_none_iff_exists'.mp hsearch
  obtain ⟨id, he⟩ := mem_words_iff.mp (Alternatives.append_of_search hm).1
  have hmem : m.word ∈ (config.tokenizer order merges).chunks text :=
    Alternatives.mem_splitRounds _ (n := 9) (by decide) hne hm
  have hnone : (config.tokenizer order merges).specialTokens.entries ≠ [] := by
    intro hnil
    have hword := (Alternatives.append_of_search hm).1
    rw [hnil] at hword
    cases hword
  rw [encode_all hnone] at h
  obtain ⟨parts, hparts, h⟩ := checks_eq_ok.mp h
  obtain rfl := Except.ok.inj h
  obtain ⟨part, hpart, heq⟩ := exists_of_mapM hparts _ hmem
  have hfind : (config.tokenizer order merges).specialTokens.find? m.word = some id :=
    (find?_registerSpecials rfl).mpr he
  rw [RegexTokenizer.encodePart, hfind] at heq
  obtain rfl := Except.ok.inj heq
  exact ⟨_, he, List.mem_flatten.mpr ⟨_, hpart, List.mem_singleton_self id⟩⟩

/-- There are 256 single bytes, so that one has at least the rank 255. -/
theorem exists_byteRank (hinjective : Injective ranks.find?)
    (hbytes : ∀ b, ranks.find? [b] = some (byteRank ranks b)) : ∃ b, 255 ≤ byteRank ranks b := by
  by_contra hnone
  have hlt : ∀ b, byteRank ranks b < 255 := fun b => Nat.lt_of_not_le fun hle => hnone ⟨b, hle⟩
  obtain ⟨b, hb⟩ := lowByte_surjective hinjective hbytes (fun b => Nat.lt_succ_of_lt (hlt b)) 255
  have hrank := congrArg UInt8.toNat hb
  rw [lowByte, UInt8.toNat_ofNat_of_lt' (Nat.lt_succ_of_lt (hlt b))] at hrank
  exact Nat.ne_of_lt (hlt b) hrank

/-- **The id of a special token is not in the vocabulary.** -/
theorem find?_special (h : Built config merges)
    {id : Nat} (habove : ∀ r ∈ config.mergeableRanks.entries.map Prod.snd, r < id) :
    (rebuildVocab merges).find? id = none := by
  obtain ⟨b, hb⟩ := exists_byteRank h.injective h.bytes
  have hlt := habove _ (mem_ranks_of_find? (h.bytes b))
  rw [← Option.not_isSome_iff_eq_none]
  intro hsome
  rcases h.rebuilt.keys id hsome with hbyte | hrank
  · omega
  · exact Nat.lt_irrefl id (habove id hrank)

/-- A text without special tokens, or an empty one, is decoded to what its bytes come back as. -/
theorem decode_encode_of_ordinary (htiles : ∀ text, (config.findAll text).flatten = text)
    (h : Built config merges)
    {text : UnicodeString} (hordinary : Ordinary config text ∨ text = []) :
    ((config.tokenizer order merges).encode text .all >>= (config.tokenizer order merges).decode)
      = .ok (fromUTF8 ((toUTF8 text).flatMap (comeBack order config.mergeableRanks))) := by
  obtain ⟨ids, hids, hdecode⟩ := decode_ordinary htiles h order text
  by_cases hne : text = []
  · subst hne
    by_cases hnone : (config.tokenizer order merges).specialTokens.entries = []
    · rw [encode_all_of_no_specials hnone, hids]
      exact hdecode
    · rw [encode_nil hnone]
      rfl
  · rw [encode_of_ordinary (hordinary.resolve_right hne) hne, hids]
    exact hdecode

/-- A text with a special token is not decoded to anything. -/
theorem decode_encode_of_special (h : Built config merges)
    (habove : ∀ e ∈ config.specialTokens.entries,
      ∀ r ∈ config.mergeableRanks.entries.map Prod.snd, r < e.2)
    {text : UnicodeString} (hspecial : ¬ Ordinary config text) (hne : text ≠ [])
    (text' : UnicodeString) :
    ((config.tokenizer order merges).encode text .all >>= (config.tokenizer order merges).decode)
      ≠ .ok text' := by
  intro hok
  obtain ⟨ids, hids, hdecode⟩ := checks_eq_ok.mp hok
  obtain ⟨e, he, hid⟩ := mem_of_encode hspecial hne hids
  obtain ⟨parts, hparts, -⟩ := checks_eq_ok.mp hdecode
  obtain ⟨bytes, -, hbytes⟩ := exists_of_mapM hparts _ hid
  have hnone : (config.tokenizer order merges).vocab.find? e.2 = none :=
    find?_special h (habove e he)
  rw [TiktokenTokenizer.decodeId, hnone] at hbytes
  cases hbytes

/-- **When texts come back**: if no special token occurs in the text, or it is empty, and its
bytes survive the shuffle, as they always do if the single bytes have the first ranks. -/
theorem decode_encode_iff (order : ByteOrder) (config : TiktokenConfig)
    (htiles : ∀ text, (config.findAll text).flatten = text)
    (hascending : (config.mergeableRanks.entries.map Prod.snd).Pairwise (· < ·))
    (habove : ∀ e ∈ config.specialTokens.entries,
      ∀ r ∈ config.mergeableRanks.entries.map Prod.snd, r < e.2)
    (t : TiktokenTokenizer) (ht : fromTiktokenConfig order config = .ok t) (text : UnicodeString) :
    ((t.encode text .all >>= t.decode) = .ok text ↔
        (Ordinary config text ∨ text = []) ∧ Survives order config.mergeableRanks text) ∧
      ((∀ b, byteRank config.mergeableRanks b < 256) →
        Survives order config.mergeableRanks text) := by
  obtain ⟨merges, h, rfl⟩ := built_of_fromTiktokenConfig hascending ht
  refine ⟨?_, fun hlt => survives_of_lt h.injective h.bytes hlt order text⟩
  by_cases hordinary : Ordinary config text ∨ text = []
  · rw [decode_encode_of_ordinary htiles h hordinary, and_iff_right hordinary]
    exact ⟨Except.ok.inj, congrArg Except.ok⟩
  · obtain ⟨hspecial, hne⟩ := not_or.mp hordinary
    exact iff_of_false (decode_encode_of_special h habove hspecial hne text)
      fun hright => hordinary hright.1

/-- The ranks of the table are below the special token. -/
theorem below_special : ∀ e ∈ reversedConfig.specialTokens.entries,
    ∀ r ∈ reversedConfig.mergeableRanks.entries.map Prod.snd, r < e.2 := by
  refine List.forall_mem_singleton.mpr fun r hr => ?_
  have hrank : r ∈ reversedRanks.entries.map Prod.snd := hr
  rw [map_snd_reversedRanks, List.mem_range] at hrank
  exact Nat.lt_trans hrank (by decide)

theorem ascending_reversedRanks :
    (reversedConfig.mergeableRanks.entries.map Prod.snd).Pairwise (· < ·) := by
  show (reversedRanks.entries.map Prod.snd).Pairwise (· < ·)
  rw [map_snd_reversedRanks]
  exact List.pairwise_lt_range

theorem decode_encode_reversed : ∃ t, fromTiktokenConfig ascendingBytes reversedConfig = .ok t ∧
    (t.encode "cababb<|end|".toList .all >>= t.decode) = .ok "cababb<|end|".toList := by
  obtain ⟨t, ht⟩ := fromTiktokenConfig_reversed
  obtain ⟨hiff, hsurvives⟩ := decode_encode_iff ascendingBytes reversedConfig flatten_wholeText
    ascending_reversedRanks below_special t ht "cababb<|end|".toList
  refine ⟨t, ht, hiff.mpr ⟨.inl (by decide), hsurvives fun b => ?_⟩⟩
  exact (byteRank_reversedRanks b).trans_lt (find?_reversedRanks b).1

/-- The special token is encoded as its id and not decoded. -/
theorem special_token_not_decoded :
    (∀ text, (reversedConfig.findAll text).flatten = text) ∧
      (reversedConfig.mergeableRanks.entries.map Prod.snd).Pairwise (· < ·) ∧
      (∀ b : UInt8, ∃ rank, reversedConfig.mergeableRanks.find? [b] = some rank) ∧
      (∀ e ∈ reversedConfig.specialTokens.entries,
        ∀ r ∈ reversedConfig.mergeableRanks.entries.map Prod.snd, r < e.2) ∧
      ∃ t, fromTiktokenConfig ascendingBytes reversedConfig = .ok t ∧
        ∀ text, (t.encode "a<|end|>".toList .all >>= t.decode) ≠ .ok text := by
  obtain ⟨t, ht⟩ := fromTiktokenConfig_reversed
  refine ⟨flatten_wholeText, ascending_reversedRanks, fun b => ⟨_, (find?_reversedRanks b).2⟩,
    below_special, t, ht, ?_⟩
  obtain ⟨merges, h, rfl⟩ := built_of_fromTiktokenConfig ascending_reversedRanks ht
  exact decode_encode_of_special h below_special (by decide) (by decide)

end Specials

end Instinct.Tokenizers
