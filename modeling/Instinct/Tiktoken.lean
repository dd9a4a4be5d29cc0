/-
Instinct/Tiktoken.lean

`TiktokenTokenizer`: a tokenizer made of a table of ranked tokens.

`_bpe` merges one place at a time, the leftmost with the least rank.  The table is turned
into merges of pairs (`recoverBytePairBpeRanks`): a token is the pair that merging below
its rank leaves of it.  The vocabulary and the merges are those of a `RegexTokenizer`, in
front of which the bytes are shuffled into their ranks.  A shuffle is filled for all bytes
before it is used and is a function; the map back is filled in the order in which an
unordered map gives the bytes, of which only that it gives all of them is known.
-/
import Instinct.Tokenizer

namespace Instinct.Tokenizers

open OrderedMaps PairMerging

abbrev BPETokenRanks := OrderedMap Bytes Nat

/-! ### Merging by rank -/

/-- The neighbours, with their place, whose concatenation has the least rank, and that rank. -/
def minRank (ranks : BPETokenRanks) (parts : List Bytes) : Option (((Bytes × Bytes) × Nat) × Nat) :=
  (neighbours parts).zipIdx.foldl (lesser fun e => ranks.find? (e.1.1 ++ e.1.2)) none

/-- The `new_parts` of one round. -/
def mergeAt (i : Nat) (parts : List Bytes) : List Bytes :=
  parts.take i ++ (parts.getD i [] ++ parts.getD (i + 1) []) :: parts.drop (i + 2)

/-- The loop of `_bpe`, with fuel for each merge. -/
def bpeLoop (ranks : BPETokenRanks) (maxRank : Nat) : Nat → List Bytes → List Bytes
  | 0, parts => parts
  | fuel + 1, parts =>
      match minRank ranks parts with
      | none => parts
      | some ((_, i), rank) =>
          if maxRank ≤ rank then parts else bpeLoop ranks maxRank fuel (mergeAt i parts)

/-- `_bpe`.  The bound of the inner loop is one less than an unsigned size. -/
def bpe (ranks : BPETokenRanks) (token : Bytes) (maxRank : Nat) : Except Exn (List Bytes) :=
  if token = [] then .error (.undefinedBehaviour "parts[i]")
  else .ok (bpeLoop ranks maxRank token.length (singletons token))

/-! ### Recovering merges -/

/-- `bpe_token_ranks.at(token)`. -/
def rankAt (ranks : BPETokenRanks) (token : Bytes) : Except Exn Nat :=
  match ranks.find? token with
  | some rank => .ok rank
  | none => .error (.other "ordered_map::at")

/-- The ranks of the two parts of a token. -/
def recoverPair (ranks : BPETokenRanks) (token : Bytes) (rank : Nat) : Except Exn BPEPair := do
  match ← bpe ranks token rank with
  | [first, second] =>
      let id0 ← rankAt ranks first
      let id1 ← rankAt ranks second
      pure (id0, id1)
  | _ =>
      throw (.instinct ("failed to recover bit-level token for token string: "
        ++ String.ofList (fromUTF8 token)))

/-- One token of the table. -/
def recoverEntry (ranks : BPETokenRanks) (merges : BPERanks) (e : Bytes × Nat) :
    Except Exn BPERanks :=
  if e.1.length = 1 then .ok merges
  else do
    let pair ← recoverPair ranks e.1 e.2
    pure (merges.insert pair e.2)

/-- `recover_byte_pair_bpe_ranks`. -/
def recoverBytePairBpeRanks (ranks : BPETokenRanks) : Except Exn BPERanks :=
  ranks.entries.foldlM (recoverEntry ranks) .empty

/-! ### The tokenizer -/

/-- `TiktokenConfig`, with what the pattern finds in place of the pattern. -/
structure TiktokenConfig where
  findAll : UnicodeString → List UnicodeString
  mergeableRanks : BPETokenRanks
  specialTokens : StringIDDict

abbrev ByteShuffle := UInt8 → UInt8

abbrev ReversedByteShuffle := OrderedMap UInt8 UInt8

/-- The order in which a filled `std::unordered_map` gives the bytes. -/
structure ByteOrder where
  bytes : List UInt8
  complete : ∀ b, b ∈ bytes

/-- `TiktokenTokenizer`. -/
structure TiktokenTokenizer extends RegexTokenizer where
  byteShuffle : ByteShuffle
  reversedByteShuffle : ReversedByteShuffle

/-- The loop of the constructor: of bytes with one image the last is kept. -/
def reverseShuffle (order : ByteOrder) (byteShuffle : ByteShuffle) : ReversedByteShuffle :=
  order.bytes.foldl (fun reversed b => reversed.set (byteShuffle b) b) .empty

/-- The constructor.  `HandleChunkBytes_` is overridden. -/
def TiktokenTokenizer.new (order : ByteOrder) (bpeRanks : BPERanks) (vocab : Vocab)
    (findAll : UnicodeString → List UnicodeString) (specialTokens : StringIDDict)
    (byteShuffle : ByteShuffle) : TiktokenTokenizer where
  toRegexTokenizer := RegexTokenizer.registerSpecials
    { merges := bpeRanks, vocab := vocab, findAll := findAll,
      handleChunkBytes := fun bytes => bytes.map byteShuffle } specialTokens
  byteShuffle := byteShuffle
  reversedByteShuffle := reverseShuffle order byteShuffle

/-- `vocab[id] = vocab[pair.first] + vocab[pair.second]` for one merge after the other. -/
def rebuildVocab (bpeRanks : BPERanks) : Vocab :=
  bpeRanks.entries.foldl (fun vocab e => addMerge vocab e.1 e.2) byteVocab

/-- `FromTiktokenConfig`.  A rank is cast to a byte. -/
def fromTiktokenConfig (order : ByteOrder) (config : TiktokenConfig) :
    Except Exn TiktokenTokenizer := do
  let bpeRanks ← recoverBytePairBpeRanks config.mergeableRanks
  let ids ← (List.range 256).mapM fun i => rankAt config.mergeableRanks [UInt8.ofNat i]
  pure (.new order bpeRanks (rebuildVocab bpeRanks) config.findAll config.specialTokens
    fun b => UInt8.ofNat (ids.getD b.toNat 0))

/-- The bytes of one id. -/
def TiktokenTokenizer.decodeId (t : TiktokenTokenizer) (id : Nat) : Except Exn Bytes :=
  match t.vocab.find? id with
  | some bytes => .ok bytes
  | none => .error (.other "ordered_map::at")

/-- A byte that is shuffled back. -/
def TiktokenTokenizer.restoreByte (t : TiktokenTokenizer) (b : UInt8) : Except Exn UInt8 :=
  match t.reversedByteShuffle.find? b with
  | some byte => .ok byte
  | none => .error (.other "_Map_base::at")

/-- `Decode`. -/
def TiktokenTokenizer.decode (t : TiktokenTokenizer) (ids : List Nat) :
    Except Exn UnicodeString := do
  let textBytes ← ids.mapM t.decodeId
  let result ← textBytes.flatten.mapM t.restoreByte
  pure (fromUTF8 result)

end Instinct.Tokenizers
