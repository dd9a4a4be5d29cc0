/-
Instinct/TokenizerRoundTrip.lean

Texts come back from a trained tokenizer.

Each round of `Train` gives a new id the bytes of a pair of older ids (`Trained`), so that
the vocabulary spells every merged token by its pair.  The ids of the special tokens are
not among those of the vocabulary and are spelled by their texts.  A text is the sequence
of its parts, which are spelled one by one (`decode_encode_trained`).
-/
import Instinct.TokenizerSpec

namespace Instinct.Tokenizers

open OrderedMaps PairMerging

/-! ### Training -/

/-- What holds before each round of training: `idx` is the next id, all others have bytes, and
the bytes of a merged token are those of its pair. -/
structure Trained (idx : Nat) (ids : List (List Nat)) (merges : BPERanks) (vocab : Vocab) :
    Prop where
  le_idx : 256 ≤ idx
  ids_lt : ∀ chunk ∈ ids, ∀ id ∈ chunk, id < idx
  present : ∀ id, (vocab.find? id).isSome ↔ id < idx
  bytes : ∀ b : UInt8, bytesOf vocab b.toNat = [b]
  merges_lt : ∀ pair id, merges.find? pair = some id → pair.1 < idx ∧ pair.2 < idx ∧ id < idx
  merges : ∀ pair id, merges.find? pair = some id →
    bytesOf vocab id = bytesOf vocab pair.1 ++ bytesOf vocab pair.2

section AddMerge

variable {vocab : Vocab} {pair : BPEPair} {id k : Nat}

theorem bytesOf_insert_nil : bytesOf (vocab.insert id []) k = bytesOf vocab k := by
  by_cases hk : k = id
  · subst hk
    rw [bytesOf, bytesOf, OrderedMap.insert]
    split
    · rfl
    · next hnew =>
        rw [OrderedMap.find?_set_self, OrderedMap.find?_eq_none_iff.mpr hnew]
        rfl
  · rw [bytesOf, bytesOf, OrderedMap.find?_insert_of_ne vocab [] hk]

/-- The new id has the bytes of the pair. -/
theorem bytesOf_addMerge_self :
    bytesOf (addMerge vocab pair id) id = bytesOf vocab pair.1 ++ bytesOf vocab pair.2 := by
  rw [addMerge, bytesOf, OrderedMap.find?_set_self]
  rfl

theorem bytesOf_addMerge_of_ne (h : k ≠ id) :
    bytesOf (addMerge vocab pair id) k = bytesOf vocab k := by
  rw [addMerge, bytesOf, OrderedMap.find?_set_of_ne _ _ h, ← bytesOf, bytesOf_insert_nil,
    bytesOf_insert_nil]

theorem isSome_find?_addMerge :
    ((addMerge vocab pair id).find? k).isSome ↔
      k = id ∨ k = pair.1 ∨ k = pair.2 ∨ (vocab.find? k).isSome := by
  have hkey : ∀ (m : Vocab) k, (m.find? k).isSome ↔ k ∈ m.entries.map Prod.fst := fun m k => by
    rw [Option.isSome_iff_ne_none, ne_eq, OrderedMap.find?_eq_none_iff, not_not]
  rw [hkey, hkey, addMerge, OrderedMap.mem_keys_set, OrderedMap.mem_keys_insert,
    OrderedMap.mem_keys_insert]
  tauto

end AddMerge

theorem foldl_set_bytes (ids : List Nat) (vocab : Vocab) :
    ids.foldl (fun vocab i => vocab.set i [UInt8.ofNat i]) vocab
      = (ids.map fun i => (i, [UInt8.ofNat i])).foldl (fun m e => m.set e.1 e.2) vocab := by
  rw [List.foldl_map]

/-- The vocabulary before training: the single bytes. -/
theorem find?_byteVocab (id : Nat) :
    byteVocab.find? id = if id < 256 then some [UInt8.ofNat id] else none := by
  have hfold : byteVocab = _ := foldl_set_bytes (List.range 256) .empty
  have hkeys : ∀ ids : List Nat, (ids.map fun i => (i, [UInt8.ofNat i])).map Prod.fst = ids := by
    intro ids
    rw [List.map_map]
    exact List.map_id' _
  refine Option.ext fun bytes => ?_
  rw [hfold, OrderedMap.find?_foldl_set ((hkeys _).symm ▸ List.nodup_range),
    OrderedMap.find?_empty]
  simp only [List.mem_map, List.mem_range, reduceCtorEq, and_false, or_false]
  constructor
  · rintro ⟨i, hi, heq⟩
    obtain ⟨rfl, rfl⟩ := Prod.mk.inj heq
    exact if_pos hi
  · intro h
    split at h
    · next hid => exact ⟨id, hid, by rw [Option.some.inj h]⟩
    · cases h

theorem trained_byteVocab {ids : List (List Nat)} (h : ∀ chunk ∈ ids, ∀ id ∈ chunk, id < 256) :
    Trained 256 ids .empty byteVocab where
  le_idx := Nat.le_refl _
  ids_lt := h
  present id := by
    rw [find?_byteVocab]
    split <;> simp_all
  bytes b := by
    rw [bytesOf, find?_byteVocab, if_pos b.toNat_lt, UInt8.ofNat_toNat]
    rfl
  merges_lt pair id hfind := by cases hfind
  merges pair id hfind := by cases hfind

section Rounds

variable {idx : Nat} {ids : List (List Nat)} {merges : BPERanks} {vocab : Vocab}

theorem bytesOf_addMerge_of_lt {pair : BPEPair} {id : Nat} (h : id < idx) :
    bytesOf (addMerge vocab pair idx) id = bytesOf vocab id :=
  bytesOf_addMerge_of_ne (Nat.ne_of_lt h)

/-- One round. -/
theorem Trained.next (h : Trained idx ids merges vocab) {pair : BPEPair}
    (hpair : pair.1 < idx ∧ pair.2 < idx) :
    Trained (idx + 1) (ids.map (mergePair pair.1 pair.2 idx)) (merges.set pair idx)
      (addMerge vocab pair idx) where
  le_idx := Nat.le_succ_of_le h.le_idx
  ids_lt chunk hchunk id hid := by
    obtain ⟨old, hold, rfl⟩ := List.mem_map.mp hchunk
    rcases mem_mergePair hid with hid | rfl
    · exact Nat.lt_succ_of_lt (h.ids_lt old hold id hid)
    · exact Nat.lt_succ_self _
  present id := by
    rw [isSome_find?_addMerge, h.present]
    omega
  bytes b := by
    rw [bytesOf_addMerge_of_lt (Nat.lt_of_lt_of_le b.toNat_lt h.le_idx), h.bytes]
  merges_lt pair' id hfind := by
    by_cases hsame : pair' = pair
    · subst hsame
      rw [OrderedMap.find?_set_self] at hfind
      obtain rfl := Option.some.inj hfind
      omega
    · rw [OrderedMap.find?_set_of_ne _ _ hsame] at hfind
      have hlt := h.merges_lt pair' id hfind
      omega
  merges pair' id hfind := by
    by_cases hsame : pair' = pair
    · subst hsame
      rw [OrderedMap.find?_set_self] at hfind
      obtain rfl := Option.some.inj hfind
      rw [bytesOf_addMerge_self, bytesOf_addMerge_of_lt hpair.1, bytesOf_addMerge_of_lt hpair.2]
    · rw [OrderedMap.find?_set_of_ne _ _ hsame] at hfind
      obtain ⟨hfirst, hsecond, hid⟩ := h.merges_lt pair' id hfind
      rw [bytesOf_addMerge_of_lt hid, bytesOf_addMerge_of_lt hfirst,
        bytesOf_addMerge_of_lt hsecond, h.merges pair' id hfind]

/-- All rounds, by induction over their number. -/
theorem trained_of_trainRounds {rounds : Nat} {merges' : BPERanks} {vocab' : Vocab}
    (h : Trained idx ids merges vocab)
    (hrounds : trainRounds rounds idx ids merges vocab = .ok (merges', vocab')) :
    ∃ ids', Trained (idx + rounds) ids' merges' vocab' := by
  induction rounds generalizing idx ids merges vocab with
  | zero =>
      obtain ⟨rfl, rfl⟩ := Prod.mk.inj (Except.ok.inj hrounds)
      exact ⟨ids, h⟩
  | succ rounds ih =>
      rw [trainRounds] at hrounds
      obtain ⟨stats, hstats, hrounds⟩ := checks_eq_ok.mp hrounds
      obtain ⟨pair, hpair, hrounds⟩ := checks_eq_ok.mp hrounds
      have hlt : pair.1 < idx ∧ pair.2 < idx := by
        rcases foldlM_computePairsState hstats (getMaxPair_mem hpair) with
          ⟨chunk, hchunk, hmem⟩ | hmem
        · obtain ⟨hfirst, hsecond⟩ := mem_of_mem_neighbours hmem
          exact ⟨h.ids_lt chunk hchunk _ hfirst, h.ids_lt chunk hchunk _ hsecond⟩
        · cases hmem
      obtain ⟨ids', htrained⟩ := ih (h.next hlt) hrounds
      rw [Nat.add_right_comm] at htrained
      exact ⟨ids', htrained⟩

end Rounds

/-- What training leaves: the ids below `vocab_size` have bytes, and nothing else has changed. -/
theorem trained_of_train {t t' : RegexTokenizer} {text : UnicodeString} {vocabSize : Int}
    (h : t.train text vocabSize = .ok t') :
    (∃ ids, Trained vocabSize.toNat ids t'.merges t'.vocab) ∧
      t' = { t with merges := t'.merges, vocab := t'.vocab } := by
  rw [RegexTokenizer.train] at h
  by_cases hsize : vocabSize < 256
  · rw [if_pos hsize] at h
    cases h
  · rw [if_neg hsize] at h
    obtain ⟨⟨merges, vocab⟩, hrounds, h⟩ := checks_eq_ok.mp h
    obtain rfl := Except.ok.inj h
    refine ⟨?_, rfl⟩
    have hstart : Trained 256 ((t.findAll text).map fun chunk => (toUTF8 chunk).map UInt8.toNat)
        .empty byteVocab := by
      refine trained_byteVocab fun chunk hchunk id hid => ?_
      obtain ⟨part, -, rfl⟩ := List.mem_map.mp hchunk
      obtain ⟨b, -, rfl⟩ := List.mem_map.mp hid
      exact b.toNat_lt
    have htrained := trained_of_trainRounds hstart hrounds
    rwa [show 256 + (vocabSize - 256).toNat = vocabSize.toNat by omega] at htrained

/-! ### Encoding with all special tokens -/

section Specials

variable {t : RegexTokenizer} {shuffle : UInt8 → UInt8} {spell : Nat → Bytes} {known : Nat → Prop}

/-- What `Encode` cuts the text into. -/
def RegexTokenizer.chunks (t : RegexTokenizer) (text : UnicodeString) : List UnicodeString :=
  Alternatives.splitRounds (t.specialTokens.entries.map Prod.fst) 19 (text.length + 1) text

/-- The ids of one of these. -/
def RegexTokenizer.encodePart (t : RegexTokenizer) (chunk : UnicodeString) :
    Except Exn (List Nat) :=
  match t.specialTokens.find? chunk with
  | some id => pure [id]
  | none => t.encodeOrdinary chunk

/-- With special tokens a text is encoded part by part. -/
theorem encode_all (h : t.specialTokens.entries ≠ []) (text : UnicodeString) :
    t.encode text .all = (t.chunks text).mapM t.encodePart >>= fun parts => pure parts.flatten := by
  have hkeys : t.specialTokens.entries.map Prod.fst ≠ [] := fun hnil =>
    h (List.map_eq_nil_iff.mp hnil)
  have hnot : ¬ t.specialTokens.entries.isEmpty = true := by
    rwa [List.isEmpty_iff]
  rw [RegexTokenizer.encode, RegexTokenizer.encodeSpecials, if_neg hnot, splitWithAlternatives,
    compileAlternatives_specialsPattern hkeys]
  rfl

theorem encode_all_of_no_specials (h : t.specialTokens.entries = []) (text : UnicodeString) :
    t.encode text .all = t.encodeOrdinary text := by
  rw [RegexTokenizer.encode, RegexTokenizer.encodeSpecials, if_pos (by rw [h]; rfl)]

/-- The chunks make up the text. -/
theorem flatten_chunks (t : RegexTokenizer) (text : UnicodeString) :
    (t.chunks text).flatten = text :=
  Alternatives.flatten_splitRounds _ (n := 9) (by decide) (Nat.lt_succ_self _)

/-- **Encoding with special tokens changes no byte**, if these are spelled by their texts. -/
theorem encode_all_spells (h : Spells t id spell known)
    (htiles : ∀ text, (t.findAll text).flatten = text)
    (hbytes : ∀ b : UInt8, spell b.toNat = [b])
    (hspecials : ∀ token id, t.specialTokens.find? token = some id →
      spell id = toUTF8 token ∧ known id) (text : UnicodeString) :
    ∃ ids, t.encode text .all = .ok ids ∧ ids.flatMap spell = toUTF8 text ∧
      ∀ id ∈ ids, known id := by
  have hordinary : ∀ text, ∃ ids, t.encodeOrdinary text = .ok ids ∧
      ids.flatMap spell = toUTF8 text ∧ ∀ id ∈ ids, known id := fun text => by
    obtain ⟨ids, hids, hspell, hknown⟩ := encodeOrdinary_spells h htiles text
    refine ⟨ids, hids, hspell.trans ?_, hknown⟩
    simp only [id, hbytes]
    exact List.flatMap_singleton' _
  by_cases hnone : t.specialTokens.entries = []
  · rw [encode_all_of_no_specials hnone]
    exact hordinary text
  · have hpart : ∀ chunk ∈ t.chunks text, ∃ ids, t.encodePart chunk = .ok ids ∧
        (ids.flatMap spell = toUTF8 chunk ∧ ∀ id ∈ ids, known id) := by
      intro chunk _
      rw [RegexTokenizer.encodePart]
      cases hfind : t.specialTokens.find? chunk with
      | none => exact hordinary chunk
      | some id =>
          obtain ⟨hspell, hknown⟩ := hspecials chunk id hfind
          exact ⟨[id], rfl, by rw [List.flatMap_singleton, hspell],
            List.forall_mem_singleton.mpr hknown⟩
    obtain ⟨parts, hparts, hall⟩ := mapM_ok hpart
    obtain ⟨hspell, hknown⟩ := flatMap_flatten_of_forall₂ hall
    rw [encode_all hnone, hparts]
    refine ⟨parts.flatten, rfl, ?_, hknown⟩
    rw [hspell, ← toUTF8_flatten, flatten_chunks]

end Specials

/-! ### Decoding -/

/-- The bytes that an id is decoded to, if it is. -/
def RegexTokenizer.spell (t : RegexTokenizer) (id : Nat) : Bytes :=
  match t.decodeId id with
  | .ok bytes => bytes
  | .error _ => []

/-- Ids that are known are decoded to what they spell. -/
theorem decode_of_spells {t : RegexTokenizer} {ids : List Nat} {text : UnicodeString}
    (hids : ∀ id ∈ ids, t.decodeId id = .ok (t.spell id))
    (hspell : ids.flatMap t.spell = toUTF8 text) : t.decode ids = .ok text := by
  rw [RegexTokenizer.decode, mapM_eq_ok hids]
  show Except.ok (fromUTF8 (ids.map t.spell).flatten) = _
  rw [← List.flatMap_def, hspell, fromUTF8_toUTF8]

theorem spell_of_vocab {t : RegexTokenizer} {id : Nat} (h : (t.vocab.find? id).isSome) :
    t.spell id = bytesOf t.vocab id ∧ t.decodeId id = .ok (t.spell id) := by
  obtain ⟨bytes, hbytes⟩ := Option.isSome_iff_exists.mp h
  have hdecode : t.decodeId id = .ok bytes := by rw [RegexTokenizer.decodeId, hbytes]
  have hspell : t.spell id = bytes := by rw [RegexTokenizer.spell, hdecode]
  rw [hspell, bytesOf, hbytes]
  exact ⟨rfl, hdecode⟩

/-- The special tokens of a tokenizer that had none. -/
theorem find?_registerSpecials {t : RegexTokenizer} (h : t.specialTokens = .empty)
    {specialTokens : StringIDDict} {token : UnicodeString} {id : Nat} :
    (t.registerSpecials specialTokens).specialTokens.find? token = some id ↔
      (token, id) ∈ specialTokens.entries := by
  refine (OrderedMap.find?_foldl_set specialTokens.nodup).trans (or_iff_left ?_)
  rintro ⟨-, hfind⟩
  rw [h, OrderedMap.find?_empty] at hfind
  cases hfind

/-- What a new tokenizer has registered. -/
theorem find?_new {findAll : UnicodeString → List UnicodeString} {specialTokens : StringIDDict}
    (hids : (specialTokens.entries.map Prod.snd).Nodup) {token : UnicodeString} {id : Nat}
    (h : (RegexTokenizer.new findAll specialTokens).specialTokens.find? token = some id) :
    (token, id) ∈ specialTokens.entries ∧
      (RegexTokenizer.new findAll specialTokens).reversedSpecialTokens.find? id = some token := by
  have hmem := (find?_registerSpecials rfl).mp h
  have hreversed : (RegexTokenizer.new findAll specialTokens).reversedSpecialTokens
      = (specialTokens.entries.map Prod.swap).foldl (fun m e => m.set e.1 e.2) .empty := by
    rw [List.foldl_map]
    rfl
  have hkeys : ((specialTokens.entries.map Prod.swap).map Prod.fst).Nodup := by
    rw [List.map_map]
    exact hids
  refine ⟨hmem, ?_⟩
  rw [hreversed]
  exact (OrderedMap.find?_foldl_set hkeys).mpr (.inl (List.mem_map.mpr ⟨(token, id), hmem, rfl⟩))

/-- **Texts come back from a trained tokenizer.** -/
theorem decode_encode_trained (findAll : UnicodeString → List UnicodeString)
    (htiles : ∀ text, (findAll text).flatten = text) (specialTokens : StringIDDict)
    (hids : (specialTokens.entries.map Prod.snd).Nodup) (trainingText : UnicodeString)
    (vocabSize : Int) (habove : ∀ e ∈ specialTokens.entries, vocabSize ≤ e.2)
    (t : RegexTokenizer)
    (htrain : (RegexTokenizer.new findAll specialTokens).train trainingText vocabSize = .ok t)
    (text : UnicodeString) : (t.encode text .all >>= t.decode) = .ok text := by
  obtain ⟨⟨_, htrained⟩, hsame⟩ := trained_of_train htrain
  have hvocab : ∀ id, id < vocabSize.toNat →
      t.spell id = bytesOf t.vocab id ∧ t.decodeId id = .ok (t.spell id) :=
    fun id hid => spell_of_vocab ((htrained.present id).mpr hid)
  have hbyte : ∀ b : UInt8, b.toNat < vocabSize.toNat :=
    fun b => Nat.lt_of_lt_of_le b.toNat_lt htrained.le_idx
  have hspells : Spells t id t.spell fun id => t.decodeId id = .ok (t.spell id) :=
    { handle := fun bytes => by
        rw [hsame, List.map_id]
        rfl
      merges := fun pair id hfind => by
        obtain ⟨hfirst, hsecond, hid⟩ := htrained.merges_lt pair id hfind
        rw [(hvocab id hid).1, (hvocab _ hfirst).1, (hvocab _ hsecond).1,
          htrained.merges pair id hfind]
      known_merges := fun pair id hfind => (hvocab id (htrained.merges_lt pair id hfind).2.2).2
      known_bytes := fun b => (hvocab _ (hbyte b)).2 }
  have hspecials : ∀ token id, t.specialTokens.find? token = some id →
      t.spell id = toUTF8 token ∧ t.decodeId id = .ok (t.spell id) := by
    intro token id hfind
    rw [hsame] at hfind
    obtain ⟨hmem, hreversed⟩ := find?_new hids hfind
    have hnone : t.vocab.find? id = none := by
      rw [← Option.not_isSome_iff_eq_none, htrained.present]
      have hle := habove (token, id) hmem
      simp only at hle
      omega
    have hdecode : t.decodeId id = .ok (toUTF8 token) := by
      rw [RegexTokenizer.decodeId, hnone, hsame]
      simp only [hreversed]
    have hspell : t.spell id = toUTF8 token := by rw [RegexTokenizer.spell, hdecode]
    rw [hspell]
    exact ⟨rfl, hdecode⟩
  have htiles' : ∀ text, (t.findAll text).flatten = text := by
    rw [hsame]
    exact htiles
  obtain ⟨ids, hencode, hspell, hknown⟩ := encode_all_spells hspells htiles'
    (fun b => by rw [(hvocab _ (hbyte b)).1, htrained.bytes]) hspecials text
  rw [hencode]
  exact decode_of_spells hknown hspell

/-- Two special tokens of which one starts with the other. -/
def nestedSpecials : StringIDDict where
  entries := [("<|end|>".toList, 300), ("<|end|>x".toList, 301)]
  nodup := by decide

/-- A text with both of them, and with a pair that was merged in training. -/
theorem decode_encode_trained_nested : ∃ t,
    (RegexTokenizer.new wholeText nestedSpecials).train "baa".toList 257 = .ok t ∧
    (t.encode "caab<|end|>x<|end|>aa".toList .all >>= t.decode)
      = .ok "caab<|end|>x<|end|>aa".toList :=
  ⟨_, rfl, decode_encode_trained wholeText flatten_wholeText nestedSpecials (by decide)
    "baa".toList 257 (by decide) _ rfl _⟩

end Instinct.Tokenizers
