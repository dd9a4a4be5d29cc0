/-
Instinct/UnigramTokenizer.lean

`unigram_tokenizer`: the best segmentation of a text into tokens.

The scores are taken as rational numbers.  For each position the best way to get there is
kept, and the ways by tokens are compared against the lowest number of the type at first.
Where the best of them is not above that, the position is reached by an unknown symbol as if
no token ended there (`lowest_score_not_longest`).  Otherwise the ids are those of a
segmentation with the largest score (`tokenize_isLongest`).
-/
import Instinct.LongestPaths
import Instinct.OrderedMaps
import Mathlib.Algebra.Order.Field.Rat
import Mathlib.Algebra.Order.BigOperators.Group.List
import Mathlib.Data.List.Induction
import Mathlib.Tactic.Linarith

namespace Instinct.UnigramTokenizers

open LongestPaths OrderedMaps

abbrev Bytes := List UInt8

/-! ### The vocabulary -/

/-- `_vocab::token_score`. -/
structure TokenScore where
  tok : Bytes
  score : ℚ

/-- `_vocab`, with the tokens by their ids. -/
structure Vocab where
  idToToken : List TokenScore
  distinct : (idToToken.map TokenScore.tok).Nodup

/-- `token_to_id`, as `load_vocab_list` fills it. -/
def Vocab.tokenToId (v : Vocab) : OrderedMap Bytes Nat :=
  (v.idToToken.map TokenScore.tok).zipIdx.foldl (fun m e => m.set e.1 e.2) .empty

def Vocab.scoreOf (v : Vocab) (id : Nat) : ℚ := (v.idToToken[id]?.map TokenScore.score).getD 0

theorem Vocab.find?_tokenToId (v : Vocab) {word : Bytes} {id : Nat} :
    v.tokenToId.find? word = some id ↔ v.idToToken[id]?.map TokenScore.tok = some word := by
  have hkeys : ((v.idToToken.map TokenScore.tok).zipIdx.map Prod.fst).Nodup := by
    rw [List.zipIdx_map_fst]
    exact v.distinct
  rw [Vocab.tokenToId, OrderedMap.find?_foldl_set hkeys, OrderedMap.find?_empty,
    List.mem_zipIdx_iff_getElem?, List.getElem?_map]
  exact or_iff_left fun h => by cases h.2

/-! ### Symbols -/

/-- `utf8_len`. -/
def utf8Len (src : UInt8) : Nat :=
  [1, 1, 1, 1, 1, 1, 1, 1, 1, 1, 1, 1, 2, 2, 3, 4].getD (src >>> 4).toNat 0

/-- The symbols of a text, with fuel for each of them. -/
def symbolsFrom : Nat → Bytes → List Bytes
  | fuel + 1, b :: rest =>
      let charLen := min (b :: rest).length (utf8Len b)
      (b :: rest).take charLen :: symbolsFrom fuel ((b :: rest).drop charLen)
  | _, _ => []

/-- The symbols that a text is cut into. -/
def symbolsOf (text : Bytes) : List Bytes := symbolsFrom text.length text

theorem utf8Len_pos (src : UInt8) : 0 < utf8Len src := by
  have hpos : ∀ n < 16, 0 < [1, 1, 1, 1, 1, 1, 1, 1, 1, 1, 1, 1, 2, 2, 3, 4].getD n 0 := by decide
  have hbits : (src >>> 4).toNat < 16 := by
    have hsrc := src.toNat_lt
    rw [UInt8.toNat_shiftRight, Nat.shiftRight_eq_div_pow]
    show src.toNat / 2 ^ 4 < 16
    omega
  exact hpos _ hbits

/-- The symbols make up the text, and none is empty. -/
theorem symbolsFrom_spec {fuel : Nat} {text : Bytes} (h : text.length ≤ fuel) :
    (symbolsFrom fuel text).flatten = text ∧ ∀ symbol ∈ symbolsFrom fuel text, symbol ≠ [] := by
  induction fuel generalizing text with
  | zero =>
      rw [List.length_eq_zero_iff.mp (Nat.le_zero.mp h), symbolsFrom]
      · exact ⟨rfl, fun symbol hsymbol => absurd hsymbol List.not_mem_nil⟩
      · rintro fuel b rest ⟨⟩
  | succ fuel ih =>
      rcases text with - | ⟨b, rest⟩
      · exact ⟨rfl, fun symbol hsymbol => absurd hsymbol List.not_mem_nil⟩
      · have hpos : 0 < min (b :: rest).length (utf8Len b) :=
          Nat.lt_min.mpr ⟨Nat.succ_pos _, utf8Len_pos b⟩
        have hlength : ((b :: rest).drop (min (b :: rest).length (utf8Len b))).length ≤ fuel := by
          rw [List.length_drop]
          omega
        obtain ⟨hflatten, hne⟩ := ih hlength
        rw [symbolsFrom]
        refine ⟨?_, List.forall_mem_cons.mpr ⟨?_, hne⟩⟩
        · rw [List.flatten_cons, hflatten, List.take_append_drop]
        · obtain ⟨n, hn⟩ := Nat.exists_eq_add_one_of_ne_zero (Nat.ne_zero_of_lt hpos)
          rw [hn]
          exact List.cons_ne_nil _ _

theorem flatten_symbolsOf (text : Bytes) : (symbolsOf text).flatten = text :=
  (symbolsFrom_spec (Nat.le_refl _)).1

/-- A symbol is cut into itself alone, by induction on the text that it is of. -/
theorem symbolsOf_of_mem {fuel : Nat} {symbol text : Bytes} (h : symbol ∈ symbolsFrom fuel text) :
    symbolsOf symbol = [symbol] := by
  induction fuel generalizing text with
  | zero =>
      rw [symbolsFrom] at h
      · exact absurd h List.not_mem_nil
      · rintro fuel b rest ⟨⟩
  | succ fuel ih =>
      rcases text with - | ⟨b, rest⟩
      · exact absurd h List.not_mem_nil
      · rw [symbolsFrom] at h
        rcases List.mem_cons.mp h with rfl | hmem
        · obtain ⟨n, hn⟩ := Nat.exists_eq_add_one_of_ne_zero (Nat.ne_of_gt (utf8Len_pos b))
          have htake : (b :: rest).take (min (b :: rest).length (utf8Len b))
              = b :: rest.take n := by
            rw [Nat.min_comm, ← List.take_eq_take_min, hn, List.take_succ_cons]
          have hall : min (b :: rest.take n).length (utf8Len b) = (b :: rest.take n).length := by
            rw [hn, List.length_cons, List.length_take]
            omega
          rw [htake, symbolsOf, List.length_cons, symbolsFrom]
          simp only [hall, List.take_length, List.drop_length]
          rw [symbolsFrom]
          · rintro fuel b rest - ⟨⟩
        · exact ih hmem

/-- The text of the symbols between two positions. -/
def piece (symbols : List Bytes) (i pos : Nat) : Bytes := ((symbols.take pos).drop i).flatten

/-! ### The tokenizer -/

/-- `std::numeric_limits<float>::lowest()`. -/
def floatLowest : ℚ := -((2 ^ 24 - 1) * 2 ^ 104)

/-- `unigram_tokenizer`. -/
structure UnigramTokenizer where
  vocab : Vocab
  tokMaxLen : Int
  unkId : Nat
  unkId_lt : unkId < vocab.idToToken.length

abbrev Best := Entry Nat ℚ

/-- What is traced for a position. -/
def best (trace : List Best) (i : Nat) : Best := trace.getD i ⟨0, 0, 0⟩

section Tokenize

variable (t : UnigramTokenizer) (symbols : List Bytes) (trace : List Best)

/-- The largest sum so far. -/
def maxProp (found : Option Best) : ℚ := (found.map Entry.score).getD floatLowest

/-- One round of the loop of `find_best`. -/
def UnigramTokenizer.consider (pos : Nat) (found : Option Best) (i : Nat) : Option Best :=
  match t.vocab.tokenToId.find? (piece symbols i pos) with
  | none => found
  | some id =>
      let prop := (best trace i).score + t.vocab.scoreOf id
      if maxProp found < prop then some ⟨i, prop, id⟩ else found

/-- `find_best`. -/
def UnigramTokenizer.findBest (pos : Nat) : Best :=
  let start := (pos - t.tokMaxLen).toNat
  match (List.range' start (pos - start)).foldl (t.consider symbols trace pos) none with
  | some b => b
  | none => ⟨pos - 1, (best trace (pos - 1)).score + t.vocab.scoreOf t.unkId, t.unkId⟩

/-- The positions that are traced, up to one of them. -/
def UnigramTokenizer.traceTo : Nat → List Best
  | 0 => [⟨0, 0, 0⟩]
  | pos + 1 =>
      let trace := UnigramTokenizer.traceTo pos
      trace ++ [t.findBest symbols trace (pos + 1)]

/-- `tokenize`.  The result is missing if the way back does not end. -/
def UnigramTokenizer.tokenize (text : Bytes) : Option (List Nat) :=
  let symbols := symbolsOf text
  let trace := t.traceTo symbols symbols.length
  (route (best trace) trace.length (trace.length - 1)).map List.reverse

end Tokenize

/-! ### Segmentations -/

section Segmentations

variable (t : UnigramTokenizer) (symbols : List Bytes)

/-- A token of the vocabulary that is not too long stands between two positions. -/
structure UnigramTokenizer.TokenEnds (i pos id : Nat) : Prop where
  lt : i < pos
  le : pos ≤ symbols.length
  short : pos - i ≤ t.tokMaxLen
  token : t.vocab.idToToken[id]?.map TokenScore.tok = some (piece symbols i pos)

/-- A piece between two positions: a token, or one unknown symbol where no token ends. -/
def UnigramTokenizer.Piece (i pos id : Nat) : Prop :=
  t.TokenEnds symbols i pos id ∨
    (i + 1 = pos ∧ pos ≤ symbols.length ∧ id = t.unkId ∧ ∀ i' id', ¬ t.TokenEnds symbols i' pos id')

variable {t symbols}

theorem UnigramTokenizer.Piece.lt {i pos id : Nat} (h : t.Piece symbols i pos id) : i < pos := by
  rcases h with h | ⟨rfl, -⟩
  · exact h.lt
  · exact Nat.lt_succ_self i

/-- Every position is reached by pieces. -/
theorem exists_path (pos : Nat) (hpos : pos ≤ symbols.length) :
    ∃ ids, Path (t.Piece symbols) pos ids ∧ ids.length ≤ pos := by
  induction pos using Nat.strongRecOn with
  | ind pos ih =>
      rcases pos with - | pos
      · exact ⟨[], .nil, Nat.le_refl _⟩
      · obtain ⟨i, id, hpiece⟩ : ∃ i id, t.Piece symbols i (pos + 1) id := by
          by_cases htoken : ∃ i id, t.TokenEnds symbols i (pos + 1) id
          · obtain ⟨i, id, h⟩ := htoken
            exact ⟨i, id, .inl h⟩
          · exact ⟨pos, t.unkId, .inr ⟨rfl, hpos, rfl, fun i id h => htoken ⟨i, id, h⟩⟩⟩
        have hlt := hpiece.lt
        obtain ⟨ids, hpath, hlength⟩ := ih i hlt (by omega)
        refine ⟨ids ++ [id], hpath.snoc hpiece, ?_⟩
        rw [List.length_append, List.length_singleton]
        omega

end Segmentations

/-! ### The best way to a position -/

section FindBest

variable {t : UnigramTokenizer} {symbols : List Bytes} {trace : List Best} {pos : Nat}

/-- A round leaves nothing smaller than what was found before, nor than what its position gives. -/
theorem maxProp_consider (found : Option Best) (i : Nat) :
    maxProp found ≤ maxProp (t.consider symbols trace pos found i) ∧
      ∀ id, t.vocab.tokenToId.find? (piece symbols i pos) = some id →
        (best trace i).score + t.vocab.scoreOf id
          ≤ maxProp (t.consider symbols trace pos found i) := by
  rw [UnigramTokenizer.consider]
  cases hfind : t.vocab.tokenToId.find? (piece symbols i pos) with
  | none => exact ⟨le_refl _, fun id hid => by cases hid⟩
  | some id =>
      by_cases hlt : maxProp found < (best trace i).score + t.vocab.scoreOf id
      · simp only [if_pos hlt]
        refine ⟨hlt.le, fun id' hid => ?_⟩
        rw [← Option.some.inj hid]
        exact le_refl _
      · simp only [if_neg hlt]
        refine ⟨le_refl _, fun id' hid => ?_⟩
        rw [← Option.some.inj hid]
        exact not_lt.mp hlt

/-- What is found in a round was found before, or its position gives it. -/
theorem of_consider_eq_some {found : Option Best} {i : Nat} {b : Best}
    (h : t.consider symbols trace pos found i = some b) :
    found = some b ∨
      (b.prev = i ∧ t.vocab.tokenToId.find? (piece symbols b.prev pos) = some b.label ∧
        b.score = (best trace b.prev).score + t.vocab.scoreOf b.label) := by
  rw [UnigramTokenizer.consider] at h
  cases hfind : t.vocab.tokenToId.find? (piece symbols i pos) with
  | none =>
      rw [hfind] at h
      exact .inl h
  | some id =>
      simp only [hfind] at h
      split at h
      · obtain rfl := Option.some.inj h
        exact .inr ⟨rfl, hfind, rfl⟩
      · exact .inl h

/-- What has been found among some positions: nothing smaller than what any of them gives, and
what one of them gives if it is above the lowest number. -/
theorem consider_spec (is : List Nat) :
    (∀ i ∈ is, ∀ id, t.vocab.tokenToId.find? (piece symbols i pos) = some id →
      (best trace i).score + t.vocab.scoreOf id
        ≤ maxProp (is.foldl (t.consider symbols trace pos) none)) ∧
    ∀ b, is.foldl (t.consider symbols trace pos) none = some b →
      b.prev ∈ is ∧ t.vocab.tokenToId.find? (piece symbols b.prev pos) = some b.label ∧
        b.score = (best trace b.prev).score + t.vocab.scoreOf b.label := by
  induction is using List.reverseRecOn with
  | nil => exact ⟨fun i hi => absurd hi List.not_mem_nil, fun b hb => by cases hb⟩
  | append_singleton is i ih =>
      rw [List.foldl_append, List.foldl_cons, List.foldl_nil]
      generalize is.foldl (t.consider symbols trace pos) none = found at ih ⊢
      obtain ⟨hmax, hfound⟩ := ih
      obtain ⟨hbefore, hhere⟩ := @maxProp_consider t symbols trace pos found i
      refine ⟨fun j hj id hid => ?_, fun b hb => ?_⟩
      · rcases List.mem_append.mp hj with hj | hj
        · exact (hmax j hj id hid).trans hbefore
        · rw [List.mem_singleton.mp hj] at hid ⊢
          exact hhere id hid
      · rcases of_consider_eq_some hb with hb | ⟨hprev, hlabel, hscore⟩
        · exact ⟨List.mem_append_left _ (hfound b hb).1, (hfound b hb).2⟩
        · exact ⟨List.mem_append_right _ (List.mem_singleton.mpr hprev), hlabel, hscore⟩

/-- The positions that are looked at are those from which a token is not too long. -/
theorem mem_starts {i : Nat} (hle : pos ≤ symbols.length) :
    (i ∈ List.range' (pos - t.tokMaxLen).toNat (pos - (pos - t.tokMaxLen).toNat) ∧
      ∃ id, t.vocab.tokenToId.find? (piece symbols i pos) = some id) ↔
    ∃ id, t.TokenEnds symbols i pos id := by
  rw [List.mem_range'_1]
  constructor
  · rintro ⟨hrange, id, hid⟩
    exact ⟨id, by omega, hle, by omega, (t.vocab.find?_tokenToId).mp hid⟩
  · rintro ⟨id, hlt, -, hshort, htoken⟩
    exact ⟨by omega, id, (t.vocab.find?_tokenToId).mpr htoken⟩

theorem best_append_of_lt {i : Nat} (h : i < trace.length) (b : Best) :
    best (trace ++ [b]) i = best trace i := by
  rw [best, best, List.getD_eq_getElem?_getD, List.getD_eq_getElem?_getD,
    List.getElem?_append_left h]

theorem best_append_length (b : Best) : best (trace ++ [b]) trace.length = b := by
  rw [best, List.getD_eq_getElem?_getD, List.getElem?_concat_length, Option.getD_some]

/-- Where a token ends, some segmentation has a score above the lowest number. -/
def ScoredAbove (t : UnigramTokenizer) (symbols : List Bytes) : Prop :=
  ∀ i pos id, t.TokenEnds symbols i pos id →
    ∃ ids, Path (t.Piece symbols) pos ids ∧ floatLowest < total t.vocab.scoreOf ids

/-- Where no token ends, a position is reached by an unknown symbol. -/
theorem findBest_of_no_token (hle : pos ≤ symbols.length)
    (h : ∀ i id, ¬ t.TokenEnds symbols i pos id) :
    t.findBest symbols trace pos
      = ⟨pos - 1, (best trace (pos - 1)).score + t.vocab.scoreOf t.unkId, t.unkId⟩ := by
  rw [UnigramTokenizer.findBest]
  split
  · next b hb =>
      obtain ⟨hmem, hfind, -⟩ := (consider_spec _).2 b hb
      obtain ⟨id, hid⟩ := (mem_starts hle).mp ⟨hmem, b.label, hfind⟩
      exact absurd hid (h _ _)
  · rfl

/-- Where a sum is above the lowest number, the best token is taken. -/
theorem findBest_of_token {i id : Nat} (h : t.TokenEnds symbols i pos id)
    (hlowest : floatLowest < (best trace i).score + t.vocab.scoreOf id) :
    t.TokenEnds symbols (t.findBest symbols trace pos).prev pos
        (t.findBest symbols trace pos).label ∧
      (t.findBest symbols trace pos).score
        = (best trace (t.findBest symbols trace pos).prev).score
          + t.vocab.scoreOf (t.findBest symbols trace pos).label ∧
      ∀ i id, t.TokenEnds symbols i pos id →
        (best trace i).score + t.vocab.scoreOf id ≤ (t.findBest symbols trace pos).score := by
  have hspec := @consider_spec t symbols trace pos
    (List.range' (pos - t.tokMaxLen).toNat (pos - (pos - t.tokMaxLen).toNat))
  have hstart : ∀ i id, t.TokenEnds symbols i pos id →
      i ∈ List.range' (pos - t.tokMaxLen).toNat (pos - (pos - t.tokMaxLen).toNat) :=
    fun i id hends => ((mem_starts hends.le).mpr ⟨id, hends⟩).1
  rw [UnigramTokenizer.findBest]
  generalize (List.range' _ _).foldl (t.consider symbols trace pos) none = found at hspec ⊢
  obtain ⟨hmax, hfound⟩ := hspec
  have hcand : ∀ i id, t.TokenEnds symbols i pos id →
      (best trace i).score + t.vocab.scoreOf id ≤ maxProp found := fun i id hends =>
    hmax i (hstart i id hends) id ((t.vocab.find?_tokenToId).mpr hends.token)
  cases found with
  | none => exact absurd (lt_of_lt_of_le hlowest (hcand i id h)) (lt_irrefl _)
  | some b =>
      obtain ⟨hmem, hfind, hscore⟩ := hfound b rfl
      refine ⟨?_, hscore, hcand⟩
      obtain ⟨id', hends⟩ := (mem_starts h.le).mp ⟨hmem, b.label, hfind⟩
      exact ⟨hends.lt, hends.le, hends.short, (t.vocab.find?_tokenToId).mp hfind⟩

/-- What is found for a position is a piece with the largest sum, given that the positions before
are settled. -/
theorem findBest_isBest (habove : ScoredAbove t symbols) (hle : trace.length ≤ symbols.length)
    (hpos : 0 < trace.length) (hzero : (best trace 0).score = 0)
    (h : ∀ p, 0 < p → p < trace.length →
      Settles (t.Piece symbols) t.vocab.scoreOf (best trace) p) :
    t.Piece symbols (t.findBest symbols trace trace.length).prev trace.length
        (t.findBest symbols trace trace.length).label ∧
      (t.findBest symbols trace trace.length).score
        = (best trace (t.findBest symbols trace trace.length).prev).score
          + t.vocab.scoreOf (t.findBest symbols trace trace.length).label ∧
      ∀ i id, t.Piece symbols i trace.length id → (best trace i).score + t.vocab.scoreOf id
        ≤ (t.findBest symbols trace trace.length).score := by
  by_cases htoken : ∃ i id, t.TokenEnds symbols i trace.length id
  · obtain ⟨i, id, hends⟩ := htoken
    have honly : ∀ {i id}, t.Piece symbols i trace.length id →
        t.TokenEnds symbols i trace.length id := fun hpiece =>
      hpiece.resolve_right fun hunknown => hunknown.2.2.2 _ _ hends
    obtain ⟨ids, hpath, hlowest⟩ := habove i trace.length id hends
    -- what is traced for the start of the last token is at least the score of what is in front
    obtain ⟨j, front, last, hfront, hedge, rfl⟩ := hpath.exists_snoc hpos
    have hlt : j < trace.length := hedge.lt
    obtain ⟨ls, -, hlongest, htotal⟩ := isLongest_of_settles (n := trace.length - 1)
      (fun i p l hpiece => hpiece.lt) hzero (fun p hp hle => h p hp (by omega))
      (show j ≤ trace.length - 1 by omega) (Nat.lt_succ_self j)
    have hle := hlongest.longest front hfront
    rw [htotal] at hle
    rw [total_concat] at hlowest
    obtain ⟨hends', hscore, hmax⟩ := findBest_of_token (honly hedge)
      (lt_of_lt_of_le hlowest (add_le_add_left hle (t.vocab.scoreOf last)))
    exact ⟨.inl hends', hscore, fun i id hpiece => hmax i id (honly hpiece)⟩
  · have hnone : ∀ i id, ¬ t.TokenEnds symbols i trace.length id :=
      fun i id hends => htoken ⟨i, id, hends⟩
    rw [findBest_of_no_token hle hnone]
    refine ⟨.inr ⟨Nat.sub_add_cancel hpos, hle, rfl, hnone⟩, rfl, ?_⟩
    rintro i id (hends | ⟨hi, -, rfl, -⟩)
    · exact absurd hends (hnone i id)
    · rw [show trace.length - 1 = i by omega]

/-- So it settles the position. -/
theorem settles_findBest (habove : ScoredAbove t symbols) (hle : trace.length ≤ symbols.length)
    (hpos : 0 < trace.length) (hzero : (best trace 0).score = 0)
    (h : ∀ p, 0 < p → p < trace.length →
      Settles (t.Piece symbols) t.vocab.scoreOf (best trace) p) :
    Settles (t.Piece symbols) t.vocab.scoreOf
      (best (trace ++ [t.findBest symbols trace trace.length])) trace.length := by
  have hbefore : ∀ {i id}, t.Piece symbols i trace.length id →
      best (trace ++ [t.findBest symbols trace trace.length]) i = best trace i :=
    fun hpiece => best_append_of_lt hpiece.lt _
  obtain ⟨hpiece, hscore, hmax⟩ := findBest_isBest habove hle hpos hzero h
  constructor
  · rwa [best_append_length]
  · rwa [best_append_length, hbefore hpiece]
  · intro i id hedge
    rw [best_append_length, hbefore hedge]
    exact hmax i id hedge

end FindBest

/-! ### The whole text -/

section Text

variable {t : UnigramTokenizer} {symbols : List Bytes}

/-- All positions are settled, by induction along them. -/
theorem traceTo_spec (habove : ScoredAbove t symbols) {n : Nat} (hn : n ≤ symbols.length) :
    (t.traceTo symbols n).length = n + 1 ∧ (best (t.traceTo symbols n) 0).score = 0 ∧
      ∀ p, 0 < p → p ≤ n →
        Settles (t.Piece symbols) t.vocab.scoreOf (best (t.traceTo symbols n)) p := by
  induction n with
  | zero => exact ⟨rfl, rfl, fun p hpos hp => absurd hp (Nat.not_le.mpr hpos)⟩
  | succ n ih =>
      obtain ⟨hlength, hzero, hsettled⟩ := ih (Nat.le_of_succ_le hn)
      have hnew := settles_findBest habove (by omega) (by omega) hzero
        fun p hpos hp => hsettled p hpos (by omega)
      rw [hlength] at hnew
      rw [UnigramTokenizer.traceTo]
      refine ⟨?_, ?_, fun p hpos hp => ?_⟩
      · rw [List.length_append, hlength, List.length_singleton]
      · rw [best_append_of_lt (by omega), hzero]
      · by_cases hlast : p = n + 1
        · rw [hlast]
          exact hnew
        · exact (hsettled p hpos (by omega)).congr (fun i p l hpiece => hpiece.lt)
            fun i hi => best_append_of_lt (by omega) _

end Text

/-- **The ids are those of a segmentation with the largest score**, if some segmentation up to each
position where a token ends has one above the lowest number. -/
theorem tokenize_isLongest (t : UnigramTokenizer) (text : Bytes)
    (h : ScoredAbove t (symbolsOf text)) :
    ∃ ids, t.tokenize text = some ids ∧
      IsLongest (t.Piece (symbolsOf text)) t.vocab.scoreOf (symbolsOf text).length ids := by
  obtain ⟨hlength, hzero, hsettled⟩ := traceTo_spec h (Nat.le_refl _)
  obtain ⟨ls, hroute, hlongest, -⟩ := isLongest_of_settles (fun i p l hpiece => hpiece.lt) hzero
    hsettled (Nat.le_refl _) (Nat.lt_succ_self _)
  refine ⟨ls.reverse, ?_, hlongest⟩
  rw [UnigramTokenizer.tokenize]
  simp only [hlength, Nat.add_sub_cancel, hroute, Option.map_some]

/-- Scores that are not too small for the number of symbols are above the lowest number. -/
theorem scoredAbove_of_bounded {t : UnigramTokenizer} {symbols : List Bytes} {bound : ℚ}
    (hbound : 0 ≤ bound) (hscores : ∀ token ∈ t.vocab.idToToken, -bound ≤ token.score)
    (hsize : symbols.length * bound < -floatLowest) : ScoredAbove t symbols := by
  intro i pos id hends
  obtain ⟨ids, hpath, hlength⟩ := exists_path (t := t) pos hends.le
  have hweights : ∀ score ∈ ids.map t.vocab.scoreOf, -bound ≤ score := by
    intro score hscore
    obtain ⟨id, -, rfl⟩ := List.mem_map.mp hscore
    rw [Vocab.scoreOf]
    cases hid : t.vocab.idToToken[id]? with
    | none => exact neg_nonpos.mpr hbound
    | some token => exact hscores token (List.mem_of_getElem? hid)
  have hsum := List.card_nsmul_le_sum _ _ hweights
  have hcount : (ids.length : ℚ) ≤ symbols.length :=
    Nat.cast_le.mpr (Nat.le_trans hlength hends.le)
  refine ⟨ids, hpath, ?_⟩
  rw [List.length_map, nsmul_eq_mul] at hsum
  have hmul := mul_le_mul_of_nonneg_right hcount hbound
  rw [total]
  linarith

/-- A tokenizer for one letter, which has the lowest score. -/
def letterTokenizer : UnigramTokenizer where
  vocab := { idToToken := [⟨[97], floatLowest⟩, ⟨[63], 0⟩], distinct := by decide }
  tokMaxLen := 1
  unkId := 1
  unkId_lt := by decide

/-- A letter with the lowest score becomes unknown. -/
theorem lowest_score_not_longest :
    ¬ ∃ ids, letterTokenizer.tokenize [97] = some ids ∧
      IsLongest (letterTokenizer.Piece (symbolsOf [97])) letterTokenizer.vocab.scoreOf
        (symbolsOf [97]).length ids := by
  rintro ⟨ids, hids, hlongest⟩
  have hunknown : letterTokenizer.tokenize [97] = some [1] := by decide +kernel
  obtain rfl := Option.some.inj (hunknown.symm.trans hids)
  obtain ⟨i, front, l, -, hpiece, heq⟩ := hlongest.path.exists_snoc (by decide)
  obtain ⟨-, hl⟩ := List.append_inj' (show [] ++ [1] = front ++ [l] from heq) rfl
  obtain rfl := (List.cons.inj hl).1
  have hends : letterTokenizer.TokenEnds (symbolsOf [97]) 0 (symbolsOf [97]).length 0 :=
    ⟨by decide, by decide, by decide, by decide⟩
  rcases hpiece with h | ⟨-, -, -, hnone⟩
  · have hlt := h.lt
    have hzero : i = 0 := Nat.lt_one_iff.mp hlt
    rw [hzero] at h
    exact absurd h.token (by decide)
  · exact hnone 0 0 hends

/-- Two letters and both together. -/
def pairTokenizer : UnigramTokenizer where
  vocab :=
    { idToToken := [⟨[97], -2⟩, ⟨[98], -3⟩, ⟨[97, 98], -4⟩, ⟨[63], -9⟩]
      distinct := by decide }
  tokMaxLen := 2
  unkId := 3
  unkId_lt := by decide

theorem tokenize_pair : ∃ ids, pairTokenizer.tokenize [97, 98] = some ids ∧
    IsLongest (pairTokenizer.Piece (symbolsOf [97, 98])) pairTokenizer.vocab.scoreOf
      (symbolsOf [97, 98]).length ids := by
  refine tokenize_isLongest pairTokenizer [97, 98] (@scoredAbove_of_bounded _ _ 9 ?_ ?_ ?_)
  · norm_num
  · intro token htoken
    simp only [pairTokenizer, List.mem_cons, List.not_mem_nil, or_false] at htoken
    rcases htoken with rfl | rfl | rfl | rfl <;> norm_num
  · have hlength : (symbolsOf [97, 98]).length = 2 := by decide
    rw [hlength, floatLowest]
    norm_num

/-! ### The processor -/

/-- `UnigramProcessor`. -/
structure UnigramProcessor where
  vocab : Vocab
  unkTokId : Nat
  unkTokId_lt : unkTokId < vocab.idToToken.length

/-- The longest token, as `Load` finds it. -/
def UnigramProcessor.tokMaxLen (p : UnigramProcessor) : Nat :=
  p.vocab.idToToken.foldl
    (fun len token => if len < token.tok.length then token.tok.length else len) 0

def UnigramProcessor.tokenizer (p : UnigramProcessor) : UnigramTokenizer where
  vocab := p.vocab
  tokMaxLen := p.tokMaxLen
  unkId := p.unkTokId
  unkId_lt := p.unkTokId_lt

/-- `DoEncode`. -/
def UnigramProcessor.doEncode (p : UnigramProcessor) (input : Bytes) : Option (List Nat) :=
  p.tokenizer.tokenize input

theorem length_le_tokMaxLen (p : UnigramProcessor) {token : TokenScore}
    (h : token ∈ p.vocab.idToToken) : token.tok.length ≤ p.tokMaxLen := by
  rw [UnigramProcessor.tokMaxLen]
  generalize p.vocab.idToToken = tokens at h ⊢
  induction tokens using List.reverseRecOn with
  | nil => exact absurd h List.not_mem_nil
  | append_singleton tokens last ih =>
      rw [List.foldl_append, List.foldl_cons, List.foldl_nil]
      rcases List.mem_append.mp h with h | h
      · have hle := ih h
        split <;> omega
      · rw [List.mem_singleton.mp h]
        split <;> omega

theorem length_le_flatten {symbols : List Bytes} (h : ∀ symbol ∈ symbols, symbol ≠ []) :
    symbols.length ≤ symbols.flatten.length := by
  induction symbols with
  | nil => exact Nat.le_refl _
  | cons symbol symbols ih =>
      obtain ⟨hsymbol, hsymbols⟩ := List.forall_mem_cons.mp h
      have hpos := List.length_pos_iff.mpr hsymbol
      have hle := ih hsymbols
      rw [List.flatten_cons, List.length_append, List.length_cons]
      omega

/-- For a text that is encoded no token is too long. -/
theorem tokenEnds_iff (p : UnigramProcessor) (input : Bytes) {i pos id : Nat} :
    p.tokenizer.TokenEnds (symbolsOf input) i pos id ↔
      i < pos ∧ pos ≤ (symbolsOf input).length ∧
        p.vocab.idToToken[id]?.map TokenScore.tok = some (piece (symbolsOf input) i pos) := by
  refine ⟨fun h => ⟨h.lt, h.le, h.token⟩, fun ⟨hlt, hle, htoken⟩ => ⟨hlt, hle, ?_, htoken⟩⟩
  obtain ⟨token, hid, htok⟩ := Option.map_eq_some_iff.mp htoken
  have hmax := length_le_tokMaxLen p (List.mem_of_getElem? hid)
  have hsymbols := @length_le_flatten (((symbolsOf input).take pos).drop i)
    fun symbol hsymbol => (symbolsFrom_spec (Nat.le_refl _)).2 symbol
      (List.mem_of_mem_take (List.mem_of_mem_drop hsymbol))
  rw [List.length_drop, List.length_take, Nat.min_eq_left hle] at hsymbols
  rw [htok, piece] at hmax
  show (pos : Int) - i ≤ p.tokMaxLen
  omega

end Instinct.UnigramTokenizers
