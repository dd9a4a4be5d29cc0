/-
Instinct/Tokenizer.lean

`RegexTokenizer`: training, encoding and decoding.

Texts are sequences of code points and bytes are those of UTF-8.  The tokenizer's own
pattern is kept as what `find_all_with_regex` finds with it; the pattern of the special
tokens is compiled (`compileAlternatives`), which gives back the tokens that were escaped
into it.  Token ids are natural numbers; the maps keep the order of their insertions.
-/
import Instinct.Alternatives
import Instinct.OrderedMaps
import Instinct.PairMerging
import Instinct.TextSplitters

namespace Instinct.Tokenizers

open OrderedMaps PairMerging

/-! ### UTF-8 -/

abbrev Bytes := List UInt8

/-- `toUTF8String`. -/
def toUTF8 (text : UnicodeString) : Bytes := text.flatMap String.utf8EncodeChar

/-- How many bytes of an ill-formed sequence are replaced together: the longest part that could
be the start of a character. -/
def illFormedLength (b : UInt8) (rest : Bytes) : Nat :=
  let continues (low high : UInt8) (bytes : Bytes) : Bool :=
    match bytes with
    | c :: _ => low ≤ c && c ≤ high
    | [] => false
  if b = 0xE0 then if continues 0xA0 0xBF rest then 2 else 1
  else if b = 0xED then if continues 0x80 0x9F rest then 2 else 1
  else if 0xE1 ≤ b ∧ b ≤ 0xEF then if continues 0x80 0xBF rest then 2 else 1
  else if (b = 0xF0 ∧ continues 0x90 0xBF rest) ∨ (0xF1 ≤ b ∧ b ≤ 0xF3 ∧ continues 0x80 0xBF rest) ∨
      (b = 0xF4 ∧ continues 0x80 0x8F rest) then
    if continues 0x80 0xBF rest.tail then 3 else 2
  else 1

/-- Decode bytes, with fuel for each character. -/
def decodeUTF8 : Nat → Bytes → UnicodeString
  | fuel + 1, b :: rest =>
      match (b :: rest).toByteArray.utf8DecodeChar? 0 with
      | some c => c :: decodeUTF8 fuel ((b :: rest).drop c.utf8Size)
      | none => '\uFFFD' :: decodeUTF8 fuel ((b :: rest).drop (illFormedLength b rest))
  | _, _ => []

/-- `UnicodeString::fromUTF8`: what is ill-formed is replaced. -/
def fromUTF8 (bytes : Bytes) : UnicodeString := decodeUTF8 bytes.length bytes

theorem decodeUTF8_toUTF8 {fuel : Nat} {text : UnicodeString} (h : text.length ≤ fuel) :
    decodeUTF8 fuel (toUTF8 text) = text := by
  induction text generalizing fuel with
  | nil => cases fuel <;> rfl
  | cons c text ih =>
      obtain ⟨fuel, rfl⟩ := Nat.exists_eq_add_of_le' (show 1 ≤ fuel from by
        rw [List.length_cons] at h
        omega)
      have hbytes : toUTF8 (c :: text) = String.utf8EncodeChar c ++ toUTF8 text := rfl
      obtain ⟨b, rest, hcons⟩ := List.exists_cons_of_ne_nil (String.utf8EncodeChar_ne_nil (c := c))
      have hdecode : (toUTF8 (c :: text)).toByteArray.utf8DecodeChar? 0 = some c := by
        rw [hbytes, List.toByteArray_append]
        exact ByteArray.utf8DecodeChar?_utf8EncodeChar_append
      have hdrop : (toUTF8 (c :: text)).drop c.utf8Size = toUTF8 text := by
        rw [hbytes, ← String.length_utf8EncodeChar, List.drop_left]
      rw [hcons, List.cons_append] at hbytes
      rw [hbytes] at hdecode hdrop ⊢
      rw [decodeUTF8, hdecode]
      simp only [hdrop]
      rw [ih (Nat.le_of_succ_le_succ h)]

theorem length_le_toUTF8 (text : UnicodeString) : text.length ≤ (toUTF8 text).length := by
  induction text with
  | nil => exact Nat.zero_le _
  | cons c text ih =>
      have hpos := List.length_pos_iff.mpr (String.utf8EncodeChar_ne_nil (c := c))
      rw [toUTF8, List.flatMap_cons, List.length_append, ← toUTF8, List.length_cons]
      omega

/-- A text is decoded as what it was. -/
theorem fromUTF8_toUTF8 (text : UnicodeString) : fromUTF8 (toUTF8 text) = text :=
  decodeUTF8_toUTF8 (length_le_toUTF8 text)

theorem toUTF8_append (text more : UnicodeString) :
    toUTF8 (text ++ more) = toUTF8 text ++ toUTF8 more := List.flatMap_append

theorem toUTF8_flatten (texts : List UnicodeString) :
    toUTF8 texts.flatten = texts.flatMap toUTF8 := by
  induction texts with
  | nil => rfl
  | cons text texts ih => rw [List.flatten_cons, toUTF8_append, ih, List.flatMap_cons]

/-! ### The pattern of the special tokens -/

/-- `join_with_seperator`. -/
def joinWithSeperator (sep : UnicodeString) : List UnicodeString → UnicodeString
  | [] => []
  | [part] => part
  | part :: parts => part ++ sep ++ joinWithSeperator sep parts

/-- The pattern that `Encode` builds: one group of escaped alternatives. -/
def specialsPattern (tokens : List UnicodeString) : UnicodeString :=
  ['('] ++ joinWithSeperator ['|'] (tokens.map escapeForRegularExpression) ++ [')']

/-- Put a character in front of the first alternative. -/
def putFirst (c : Char) : List UnicodeString → List UnicodeString
  | [] => [[c]]
  | alternative :: alternatives => (c :: alternative) :: alternatives

/-- The alternatives of a group of plain and escaped characters, up to its end. -/
def compileGroup : UnicodeString → Option (List UnicodeString)
  | [] => none
  | c :: rest =>
      if c = ')' then if rest = [] then some [[]] else none
      else if c = '|' then (compileGroup rest).map ([] :: ·)
      else if c = '\\' then
        match rest with
        | [] => none
        | d :: rest => if isSpecial d then (compileGroup rest).map (putFirst d) else none
      else if isSpecial c then none
      else (compileGroup rest).map (putFirst c)

/-- A compiled pattern, if it is one group of literals.  The tokenizer builds no others. -/
def compileAlternatives : UnicodeString → Option (List UnicodeString)
  | '(' :: rest => compileGroup rest
  | _ => none

section Patterns

theorem foldr_putFirst (token alternative : UnicodeString) (alternatives : List UnicodeString) :
    token.foldr putFirst (alternative :: alternatives)
      = (token ++ alternative) :: alternatives := by
  induction token with
  | nil => rfl
  | cons c token ih => rw [List.foldr_cons, ih, putFirst, List.cons_append]

theorem compileGroup_plain {c : Char} (h : isSpecial c = false) (rest : UnicodeString) :
    compileGroup (c :: rest) = (compileGroup rest).map (putFirst c) := by
  have hplain : ∀ d, isSpecial d = true → c ≠ d := by
    rintro d hd rfl
    rw [h] at hd
    cases hd
  rw [compileGroup.eq_def]
  simp only [hplain ')' rfl, hplain '|' rfl, hplain '\\' rfl, if_false, h, Bool.false_eq_true]

theorem compileGroup_bar (rest : UnicodeString) :
    compileGroup ('|' :: rest) = (compileGroup rest).map ([] :: ·) := by
  rw [compileGroup.eq_def]
  rfl

/-- The alternatives behind an escaped one go on with what is behind it. -/
theorem compileGroup_escape (token rest : UnicodeString) :
    compileGroup (escapeForRegularExpression token ++ rest)
      = (compileGroup rest).map fun alternatives => token.foldr putFirst alternatives := by
  induction token with
  | nil => exact Option.map_id'.symm
  | cons c token ih =>
      have hescape : escapeForRegularExpression (c :: token)
          = (if isSpecial c then ['\\', c] else [c]) ++ escapeForRegularExpression token := rfl
      rw [hescape]
      cases hspecial : isSpecial c with
      | true =>
          simp only [if_true, List.cons_append, List.nil_append, compileGroup,
            show ¬ '\\' = ')' by decide, show ¬ '\\' = '|' by decide, if_false, hspecial, ih,
            Option.map_map]
          rfl
      | false =>
          simp only [Bool.false_eq_true, if_false, List.cons_append, List.nil_append,
            compileGroup_plain hspecial, ih, Option.map_map]
          rfl

/-- **The compiled pattern has the tokens for its alternatives.** -/
theorem compileAlternatives_specialsPattern {tokens : List UnicodeString} (h : tokens ≠ []) :
    compileAlternatives (specialsPattern tokens) = some tokens := by
  show compileGroup (joinWithSeperator ['|'] (tokens.map escapeForRegularExpression) ++ [')'])
    = some tokens
  induction tokens with
  | nil => exact absurd rfl h
  | cons token tokens ih =>
      cases tokens with
      | nil =>
          show compileGroup (escapeForRegularExpression token ++ [')']) = _
          rw [compileGroup_escape]
          show some (token.foldr putFirst [[]]) = _
          rw [foldr_putFirst, List.append_nil]
      | cons token' tokens =>
          have hjoin : joinWithSeperator ['|']
                ((token :: token' :: tokens).map escapeForRegularExpression) ++ [')']
              = escapeForRegularExpression token ++ ('|' :: (joinWithSeperator ['|']
                ((token' :: tokens).map escapeForRegularExpression) ++ [')'])) := by
            simp only [List.map_cons, joinWithSeperator, List.append_assoc, List.cons_append,
              List.nil_append]
          rw [hjoin, compileGroup_escape, compileGroup_bar, ih (List.cons_ne_nil _ _)]
          show some (token.foldr putFirst ([] :: token' :: tokens)) = _
          rw [foldr_putFirst, List.append_nil]

end Patterns

/-! ### Pairs -/

abbrev BPEPair := Nat × Nat

/-- The number of occurrences of a pair, or the token that it is merged into. -/
abbrev BPERanks := OrderedMap BPEPair Nat

abbrev Vocab := OrderedMap Nat Bytes

abbrev StringIDDict := OrderedMap UnicodeString Nat

abbrev ReversedStringIDDict := OrderedMap Nat UnicodeString

def INT32_MAX : Nat := 2147483647

/-- One more occurrence of a pair. -/
def countPair (stats : BPERanks) (pair : BPEPair) : BPERanks :=
  match stats.find? pair with
  | some n => stats.set pair (n + 1)
  | none => stats.insert pair 1

/-- The loop of `compute_pairs_state`. -/
def countPairs (ids : List Nat) (stats : BPERanks) : BPERanks :=
  (neighbours ids).foldl countPair stats

/-- `compute_pairs_state`.  The bound of the loop is one less than an unsigned size. -/
def computePairsState (ids : List Nat) (stats : BPERanks) : Except Exn BPERanks :=
  if ids = [] then .error (.undefinedBehaviour "ids[i]") else .ok (countPairs ids stats)

/-- An entry replaces what was found if its number is larger. -/
def largerCount (best : Option (BPEPair × Nat)) (e : BPEPair × Nat) : Option (BPEPair × Nat) :=
  match best with
  | none => some e
  | some b => if b.2 < e.2 then some e else some b

/-- `get_max_pair`: the first of the pairs with the largest number. -/
def getMaxPair (stats : BPERanks) : Except Exn BPEPair :=
  match stats.entries.foldl largerCount none with
  | some e => .ok e.1
  | none => .error (.undefinedBehaviour "stats.end()->first")

/-- The bytes of an id in the vocabulary, `operator[]` without its insertion. -/
def bytesOf (vocab : Vocab) (id : Nat) : Bytes := (vocab.find? id).getD []

/-- `vocab[id] = vocab[pair.first] + vocab[pair.second]`.  An id that is read and is not there
is inserted without bytes. -/
def addMerge (vocab : Vocab) (pair : BPEPair) (id : Nat) : Vocab :=
  ((vocab.insert pair.1 []).insert pair.2 []).set id (bytesOf vocab pair.1 ++ bytesOf vocab pair.2)

/-- The vocabulary of the single bytes. -/
def byteVocab : Vocab :=
  (List.range 256).foldl (fun vocab i => vocab.set i [UInt8.ofNat i]) .empty

/-! ### The tokenizer -/

/-- `RegexTokenizer`.  `findAll` is `find_all_with_regex` with the pattern of the tokenizer, and
`handleChunkBytes` the virtual `HandleChunkBytes_`. -/
structure RegexTokenizer where
  merges : BPERanks := .empty
  vocab : Vocab := .empty
  findAll : UnicodeString → List UnicodeString
  specialTokens : StringIDDict := .empty
  reversedSpecialTokens : ReversedStringIDDict := .empty
  handleChunkBytes : Bytes → Bytes := id

/-- `RegisterSpecials`. -/
def RegexTokenizer.registerSpecials (t : RegexTokenizer) (specialTokens : StringIDDict) :
    RegexTokenizer :=
  { t with
    specialTokens := specialTokens.entries.foldl (fun m e => m.set e.1 e.2) t.specialTokens
    reversedSpecialTokens :=
      specialTokens.entries.foldl (fun m e => m.set e.2 e.1) t.reversedSpecialTokens }

/-- The constructor with a pattern and special tokens. -/
def RegexTokenizer.new (findAll : UnicodeString → List UnicodeString)
    (specialTokens : StringIDDict) : RegexTokenizer :=
  ({ findAll := findAll } : RegexTokenizer).registerSpecials specialTokens

section Train

/-- One round of `Train` for each id that is added. -/
def trainRounds : Nat → Nat → List (List Nat) → BPERanks → Vocab → Except Exn (BPERanks × Vocab)
  | 0, _, _, merges, vocab => .ok (merges, vocab)
  | rounds + 1, idx, ids, merges, vocab => do
      let stats ← ids.foldlM (fun stats chunkIds => computePairsState chunkIds stats) .empty
      let pair ← getMaxPair stats
      trainRounds rounds (idx + 1) (ids.map (mergePair pair.1 pair.2 idx)) (merges.set pair idx)
        (addMerge vocab pair idx)

/-- `Train`. -/
def RegexTokenizer.train (t : RegexTokenizer) (text : UnicodeString) (vocabSize : Int) :
    Except Exn RegexTokenizer := do
  if vocabSize < 256 then throw (.instinct "vocab_size should be greter than 256")
  let ids := (t.findAll text).map fun chunk => (toUTF8 chunk).map UInt8.toNat
  let (merges, vocab) ← trainRounds (vocabSize - 256).toNat 256 ids .empty byteVocab
  pure { t with merges := merges, vocab := vocab }

end Train

section Encode

/-- An element replaces what was found if its key is less. -/
def lesser {ε : Type} (key : ε → Option Nat) (best : Option (ε × Nat)) (e : ε) : Option (ε × Nat) :=
  match key e with
  | some k => if k < (best.map Prod.snd).getD INT32_MAX then some (e, k) else best
  | none => best

/-- The pair of the statistics with the least merge, if one has any. -/
def minMerge (merges stats : BPERanks) : Option (BPEPair × Nat) :=
  (stats.entries.map Prod.fst).foldl (lesser merges.find?) none

/-- The loop of `EncodeChunk_`, with fuel for each merge. -/
def mergeIds (merges : BPERanks) : Nat → List Nat → Except Exn (List Nat)
  | 0, ids => .ok ids
  | fuel + 1, ids =>
      if ids.length < 2 then .ok ids
      else do
        let stats ← computePairsState ids .empty
        match minMerge merges stats with
        | none => pure ids
        | some (pair, idx) => mergeIds merges fuel (mergePair pair.1 pair.2 idx ids)

/-- `EncodeChunk_`. -/
def RegexTokenizer.encodeChunk (t : RegexTokenizer) (bytes : Bytes) : Except Exn (List Nat) :=
  let ids := (t.handleChunkBytes bytes).map UInt8.toNat
  mergeIds t.merges ids.length ids

/-- `EncodeOrdinary_`. -/
def RegexTokenizer.encodeOrdinary (t : RegexTokenizer) (text : UnicodeString) :
    Except Exn (List Nat) := do
  let parts ← (t.findAll text).mapM fun chunk => t.encodeChunk (toUTF8 chunk)
  pure parts.flatten

/-- `SplitWithRegex`, of which nineteen slots take the parts. -/
def splitWithAlternatives (text seperator : UnicodeString) : Except Exn (List UnicodeString) :=
  match compileAlternatives seperator with
  | none =>
      .error (.instinct ("Failed to compile regex with seperator string: "
        ++ String.ofList seperator))
  | some words => .ok (Alternatives.splitRounds words 19 (text.length + 1) text)

inductive AllowSpecialType
  | unspecified
  | all
  | none
  | some
  | noneRaise

/-- The rest of `Encode`, given the special tokens that are looked for. -/
def RegexTokenizer.encodeSpecials (t : RegexTokenizer) (text : UnicodeString)
    (specials : StringIDDict) : Except Exn (List Nat) :=
  if specials.entries.isEmpty then t.encodeOrdinary text
  else do
    let chunks ← splitWithAlternatives text (specialsPattern (specials.entries.map Prod.fst))
    let parts ← chunks.mapM fun chunk =>
      match specials.find? chunk with
      | .some id => pure [id]
      | .none => t.encodeOrdinary chunk
    pure parts.flatten

/-- `text.indexOf(token) > -1`: an empty token is not found. -/
def occursIn (token text : UnicodeString) : Bool := token ≠ [] ∧ token <:+: text

/-- `Encode`. -/
def RegexTokenizer.encode (t : RegexTokenizer) (text : UnicodeString)
    (allowSpecial : AllowSpecialType := .noneRaise) : Except Exn (List Nat) :=
  match allowSpecial with
  | .all => t.encodeSpecials text t.specialTokens
  | .none => t.encodeSpecials text .empty
  | .noneRaise =>
      if t.specialTokens.entries.any fun e => occursIn e.1 text then
        .error (.instinct "special token not allowed in text")
      else t.encodeSpecials text .empty
  -- the case of some tokens runs into the one for none given
  | .some => .error (.instinct "allowd_special unspecified")
  | .unspecified => .error (.instinct "allowd_special unspecified")

end Encode

section Decode

/-- The bytes of one id. -/
def RegexTokenizer.decodeId (t : RegexTokenizer) (id : Nat) : Except Exn Bytes :=
  match t.vocab.find? id with
  | some bytes => .ok bytes
  | none =>
      match t.reversedSpecialTokens.find? id with
      | some token => .ok (toUTF8 token)
      | none => .error (.instinct ("Invalid token value found: " ++ toString id))

/-- `Decode`. -/
def RegexTokenizer.decode (t : RegexTokenizer) (ids : List Nat) : Except Exn UnicodeString := do
  let parts ← ids.mapM t.decodeId
  pure (fromUTF8 parts.flatten)

end Decode

end Instinct.Tokenizers
