/-
Instinct/VocabFiles.lean

`Reader` and `load_vocab_list`: the vocabulary of a model file.

An entry is the size of its word, the word and its score; a negative size ends the list.  The
reader does not look at where the file ends, and a list that is longer than the vocabulary it
is announced with ends the process (`load_printVocab`).  Nothing but such lists is accepted
(`load_eq_ok_iff`).

Counts and ids are an `int` in the source; lists of 2^31 entries are outside the model.
-/
import Instinct.Layouts
import Instinct.UnigramTokenizer

namespace Instinct.Transformers

open Effects Layouts OrderedMaps

/-! ### Reading -/

/-- What a load does not go on from: a failed `GGML_ASSERT`, which ends the process, a size that no
container has, and what has no defined meaning, as a read behind the end of the file. -/
inductive Fault
  | abort (assertion : String)
  | lengthError (what : String)
  | undefinedBehaviour (place : String)
  deriving Repr, DecidableEq

/-- `read_raw` and `read_string` of a reader, whose buffer goes on to the end of the file. -/
def readRaw (size : Nat) : Decoder Fault Bytes := .take (.undefinedBehaviour "buffer + offset") size

/-- A load that stops. -/
def fail {α : Type} (fault : Fault) : Decoder Fault α := fun _ => Action.throw fault

/-- `read_i32`. -/
def readI32 : Decoder Fault Int32 := do
  let bytes ← readRaw 4
  pure (intOf bytes)

/-! ### The vocabulary -/

/-- `token_type`, of the tokens that are used. -/
def UNDEFINED : UInt8 := 0

def NORMAL : UInt8 := 1

/-- `_vocab::token_score`, with the bits of the score. -/
structure TokenScore where
  tok : Bytes := []
  score : UInt32 := 0
  type : UInt8 := UNDEFINED
  deriving Repr, DecidableEq

/-- `_vocab`, without what only other tokenizers use. -/
structure Vocab where
  tokenToId : OrderedMap Bytes Nat
  idToToken : List TokenScore

/-- The end of a round of `load_vocab_list`. -/
def Vocab.enter (vocab : Vocab) (id : Nat) (token : TokenScore) : Vocab :=
  ⟨vocab.tokenToId.set token.tok id, vocab.idToToken.set id token⟩

/-- The loop of `load_vocab_list`, with fuel for each size that is read. -/
def loadVocabList (hasScore hasType : Bool) (startPieceId : Nat) :
    Nat → Vocab → Nat → Decoder Fault (Vocab × Nat)
  | 0, _, _ => fail (.undefinedBehaviour "load_vocab_list")
  | fuel + 1, vocab, count => do
      let len ← readI32
      if len.toInt < 0 then pure (vocab, count)
      else do
        let id := startPieceId + count
        if id < vocab.idToToken.length then do
          let word ← readRaw len.toInt.toNat
          let score ← (if hasScore then readRaw 4 else pure (numberBytes 4 0))
          let type ← (if hasType then readRaw 1 else pure [NORMAL])
          let token : TokenScore :=
            ⟨word, UInt32.ofNat (numberOf score), type.headD UNDEFINED⟩
          loadVocabList hasScore hasType startPieceId fuel (vocab.enter id token) (count + 1)
        else fail (.abort "(size_t) (id) < vocab.id_to_token.size()")

/-- `resize` of a vector. -/
def resize {α : Type} (n : Nat) (value : α) (l : List α) : List α :=
  l.take n ++ List.replicate (n - l.length) value

/-- `UnigramProcessor`, with what `Load` changes. -/
structure VocabState where
  vocab : Vocab
  pieceSize : Nat
  tokMaxLen : Nat

/-- The loop over the tokens in `Load`. -/
def longest (len : Nat) (tokens : List TokenScore) : Nat :=
  tokens.foldl (fun len token => if len < token.tok.length then token.tok.length else len) len

/-- `UnigramProcessor::Load`, with `get_total_size`. -/
def VocabState.load (p : VocabState) (buffer : Bytes) (nVocab : Int32) :
    Except Fault (Nat × VocabState) :=
  let size := nVocab.toInt + 100
  if size < 0 then .error (.lengthError "vector::_M_default_append")
  else
    match loadVocabList true false 0 (buffer.length + 1)
      ⟨.empty, resize size.toNat {} p.vocab.idToToken⟩ 0 buffer 0 with
    | (.error fault, _) => .error fault
    | (.ok (vocab, count), offset) =>
        let tokens := resize count {} vocab.idToToken
        .ok (offset, ⟨⟨vocab.tokenToId, tokens⟩, count, longest p.tokMaxLen tokens⟩)

/-! ### Printed vocabularies -/

/-- A word, with the bits of its score. -/
structure WordEntry where
  word : Bytes
  short : word.length < 2 ^ 31
  score : UInt32

def WordEntry.token (e : WordEntry) : TokenScore := ⟨e.word, e.score, NORMAL⟩

def WordEntry.print (e : WordEntry) : Bytes :=
  intBytes (Int32.ofNat e.word.length) ++ (e.word ++ numberBytes 4 e.score.toNat)

/-- The entries, and the size that ends them. -/
def printVocab (entries : List WordEntry) (stop : { z : Int32 // z.toInt < 0 }) : Bytes :=
  entries.flatMap WordEntry.print ++ intBytes stop.val

/-- The tokens by their ids. -/
def idsOf (entries : List WordEntry) : OrderedMap Bytes Nat :=
  entries.zipIdx.foldl (fun m e => m.set e.1.word e.2) .empty

/-- The rounds of the loop. -/
def enterAll (entries : List WordEntry) (count : Nat) (vocab : Vocab) : Vocab :=
  (entries.zipIdx count).foldl (fun vocab e => vocab.enter e.2 e.1.token) vocab

section Load

variable {entries : List WordEntry} {stop : { z : Int32 // z.toInt < 0 }} {vocab : Vocab}
  {data : Bytes} {offset count fuel : Nat}

theorem reads_readRaw {piece : Bytes} {size : Nat} (hsize : piece.length = size) :
    Reads (readRaw size) offset piece piece := reads_take _ hsize

theorem reads_readI32 (z : Int32) : Reads readI32 offset (intBytes z) z := reads_int _ z

theorem toInt_ofNat_length (e : WordEntry) :
    (Int32.ofNat e.word.length).toInt = e.word.length := Int32.toInt_ofNat_of_lt e.short

/-- A round reads one entry. -/
theorem loadVocabList_round (e : WordEntry) (hcount : count < vocab.idToToken.length)
    (hstands : Stands data offset e.print) :
    loadVocabList true false 0 (fuel + 1) vocab count data offset
      = loadVocabList true false 0 fuel (vocab.enter count e.token) (count + 1) data
          (offset + e.print.length) := by
  have hscore : UInt32.ofNat (numberOf (numberBytes 4 e.score.toNat)) = e.score := by
    have hlt : e.score.toNat < 256 ^ 4 := e.score.toNat_lt
    rw [numberOf_numberBytes, Nat.mod_eq_of_lt hlt, UInt32.ofNat_toNat]
  obtain ⟨hlen, hrest⟩ := stands_append.mp hstands
  obtain ⟨hword, hbits⟩ := stands_append.mp hrest
  rw [loadVocabList]
  refine (Action.bind_of_ok (reads_readI32 _ data hlen)).trans ?_
  simp only [toInt_ofNat_length, if_neg (Int.not_lt.mpr (Int.natCast_nonneg _)), Int.toNat_natCast,
    Nat.zero_add, if_pos hcount, if_true, Bool.false_eq_true, if_false]
  refine (Action.bind_of_ok (reads_readRaw rfl data hword)).trans ?_
  refine (Action.bind_of_ok (reads_readRaw (length_numberBytes 4 _) data hbits)).trans ?_
  rw [WordEntry.print, List.length_append, List.length_append]
  simp only [hscore, Nat.add_assoc]
  rfl

theorem printVocab_cons (e : WordEntry) (entries : List WordEntry) :
    printVocab (e :: entries) stop = e.print ++ printVocab entries stop := by
  rw [printVocab, List.flatMap_cons, List.append_assoc, printVocab]

theorem length_idToToken_enter (id : Nat) (token : TokenScore) :
    (vocab.enter id token).idToToken.length = vocab.idToToken.length := List.length_set

/-- The loop reads all entries, by induction over them. -/
theorem reads_loadVocabList (hcount : count + entries.length ≤ vocab.idToToken.length)
    (hfuel : entries.length < fuel) :
    Reads (loadVocabList true false 0 fuel vocab count) offset (printVocab entries stop)
      (enterAll entries count vocab, count + entries.length) := by
  intro data hstands
  induction entries generalizing vocab count fuel offset with
  | nil =>
      obtain ⟨fuel, rfl⟩ := Nat.exists_eq_add_one_of_ne_zero (Nat.ne_zero_of_lt hfuel)
      rw [loadVocabList]
      refine (Action.bind_of_ok (reads_readI32 stop.val data hstands)).trans ?_
      simp only [if_pos stop.property]
      rfl
  | cons e entries ih =>
      obtain ⟨fuel, rfl⟩ := Nat.exists_eq_add_one_of_ne_zero (Nat.ne_zero_of_lt hfuel)
      rw [List.length_cons] at hcount hfuel
      rw [printVocab_cons] at hstands ⊢
      obtain ⟨hfirst, hrest⟩ := stands_append.mp hstands
      have hroom : count + 1 + entries.length ≤ (vocab.enter count e.token).idToToken.length := by
        rw [length_idToToken_enter]
        omega
      rw [loadVocabList_round e (by omega) hfirst, ih hroom (by omega) hrest, List.length_cons,
        List.length_append, Nat.add_assoc count, Nat.add_comm 1, Nat.add_assoc]
      rfl

/-- A list that is too long ends the process, by induction over its entries. -/
theorem loadVocabList_of_lt (hle : count ≤ vocab.idToToken.length)
    (hcount : vocab.idToToken.length < count + entries.length) (hfuel : entries.length < fuel)
    (hstands : Stands data offset (printVocab entries stop)) :
    ∃ last, loadVocabList true false 0 fuel vocab count data offset
      = (.error (.abort "(size_t) (id) < vocab.id_to_token.size()"), last) := by
  induction entries generalizing vocab count fuel offset with
  | nil => exact absurd hcount (Nat.not_lt.mpr hle)
  | cons e entries ih =>
      obtain ⟨fuel, rfl⟩ := Nat.exists_eq_add_one_of_ne_zero (Nat.ne_zero_of_lt hfuel)
      rw [List.length_cons] at hcount hfuel
      rw [printVocab_cons] at hstands
      obtain ⟨hfirst, hrest⟩ := stands_append.mp hstands
      by_cases hroom : count < vocab.idToToken.length
      · rw [loadVocabList_round e hroom hfirst]
        have hlength := @length_idToToken_enter vocab count e.token
        exact ih (by omega) (by omega) (by omega) hrest
      · obtain ⟨hlen, -⟩ := stands_append.mp hfirst
        refine ⟨offset + (intBytes (Int32.ofNat e.word.length)).length, ?_⟩
        rw [loadVocabList]
        refine (Action.bind_of_ok (reads_readI32 _ data hlen)).trans ?_
        simp only [toInt_ofNat_length, if_neg (Int.not_lt.mpr (Int.natCast_nonneg _)), Nat.zero_add,
          if_neg hroom]
        rfl

theorem tokenToId_enterAll : (enterAll entries count vocab).tokenToId
    = (entries.zipIdx count).foldl (fun m e => m.set e.1.word e.2) vocab.tokenToId := by
  induction entries generalizing vocab count with
  | nil => rfl
  | cons e entries ih => exact ih

/-- The entries stand where their ids are. -/
theorem idToToken_enterAll (hcount : count + entries.length ≤ vocab.idToToken.length) :
    (enterAll entries count vocab).idToToken = vocab.idToToken.take count
      ++ (entries.map WordEntry.token ++ vocab.idToToken.drop (count + entries.length)) := by
  induction entries generalizing vocab count with
  | nil => simp [enterAll]
  | cons e entries ih =>
      rw [List.length_cons] at hcount
      have hlength : (vocab.enter count e.token).idToToken.length = vocab.idToToken.length :=
        List.length_set
      have hround : enterAll (e :: entries) count vocab
          = enterAll entries (count + 1) (vocab.enter count e.token) := rfl
      have htake : (vocab.idToToken.set count e.token).take (count + 1)
          = vocab.idToToken.take count ++ [e.token] := by
        rw [List.take_add_one, List.take_set_of_le (Nat.le_refl _),
          List.getElem?_set_self (by omega)]
        rfl
      rw [hround, ih (by omega), Vocab.enter, htake, List.drop_set_of_lt (by omega),
        List.length_cons, List.map_cons, Nat.add_assoc, Nat.add_comm 1]
      simp

end Load

/-! ### The main result -/

section Main

variable (p : VocabState) (entries : List WordEntry) (stop : { z : Int32 // z.toInt < 0 })

/-- What a vocabulary is loaded as. -/
def VocabState.loaded : VocabState where
  vocab := ⟨idsOf entries, entries.map WordEntry.token⟩
  pieceSize := entries.length
  tokMaxLen := longest p.tokMaxLen (entries.map WordEntry.token)

theorem length_printVocab_ge : entries.length ≤ (printVocab entries stop).length := by
  rw [printVocab, List.length_append]
  induction entries with
  | nil => exact Nat.zero_le _
  | cons e entries ih =>
      rw [List.flatMap_cons, List.length_append, List.length_cons, WordEntry.print,
        List.length_append, length_intBytes]
      omega

theorem length_resize {n : Nat} {tokens : List TokenScore} :
    (resize n {} tokens).length = n := by
  rw [resize, List.length_append, List.length_take, List.length_replicate]
  omega

/-- The fuel of a load is enough for what is printed. -/
theorem length_lt_fuel (rest : Bytes) :
    entries.length < (printVocab entries stop ++ rest).length + 1 := by
  have hle := length_printVocab_ge entries stop
  rw [List.length_append]
  omega

theorem stands_printVocab (rest : Bytes) :
    Stands (printVocab entries stop ++ rest) 0 (printVocab entries stop) := ⟨[], rest, rfl, rfl⟩

/-- The tokens that were there before are cut off. -/
theorem resize_enterAll {vocab : Vocab} (h : entries.length ≤ vocab.idToToken.length) :
    resize entries.length {} (enterAll entries 0 vocab).idToToken
      = entries.map WordEntry.token := by
  rw [idToToken_enterAll (by omega), resize, List.take_zero, List.nil_append, Nat.zero_add,
    List.take_append_of_le_length (by rw [List.length_map]),
    List.take_of_length_le (by rw [List.length_map]), List.length_append, List.length_map,
    Nat.sub_eq_zero_of_le (Nat.le_add_right _ _), List.replicate_zero, List.append_nil]

/-- A list that there is room for is loaded. -/
theorem load_of_room (rest : Bytes) {nVocab : Int32}
    (hroom : (entries.length : Int) ≤ nVocab.toInt + 100) :
    p.load (printVocab entries stop ++ rest) nVocab
      = .ok ((printVocab entries stop).length, p.loaded entries) := by
  have hlength := @length_resize (nVocab.toInt + 100).toNat p.vocab.idToToken
  have hcount : 0 + entries.length
      ≤ (resize (nVocab.toInt + 100).toNat {} p.vocab.idToToken).length := by omega
  have htokens := @resize_enterAll entries
    ⟨.empty, resize (nVocab.toInt + 100).toNat {} p.vocab.idToToken⟩
    (show _ ≤ (resize (nVocab.toInt + 100).toNat {} p.vocab.idToToken).length by omega)
  have hloop := @reads_loadVocabList entries stop
    ⟨.empty, resize (nVocab.toInt + 100).toNat {} p.vocab.idToToken⟩ 0 0 _ hcount
    (length_lt_fuel entries stop rest) _ (stands_printVocab entries stop rest)
  rw [VocabState.load]
  simp only [if_neg (show ¬ nVocab.toInt + 100 < 0 by omega), hloop, Nat.zero_add, htokens,
    tokenToId_enterAll, VocabState.loaded, idsOf]

/-- A longer one ends the process. -/
theorem load_of_crowded (rest : Bytes) {nVocab : Int32} (hsize : 0 ≤ nVocab.toInt + 100)
    (hcrowded : nVocab.toInt + 100 < entries.length) :
    p.load (printVocab entries stop ++ rest) nVocab
      = .error (.abort "(size_t) (id) < vocab.id_to_token.size()") := by
  have hlength := @length_resize (nVocab.toInt + 100).toNat p.vocab.idToToken
  obtain ⟨last, habort⟩ := @loadVocabList_of_lt entries stop
    ⟨.empty, resize (nVocab.toInt + 100).toNat {} p.vocab.idToToken⟩ _ 0 0 _ (Nat.zero_le _)
    (show (resize (nVocab.toInt + 100).toNat {} p.vocab.idToToken).length < _ by omega)
    (length_lt_fuel entries stop rest) (stands_printVocab entries stop rest)
  rw [VocabState.load]
  simp only [if_neg (Int.not_lt.mpr hsize), habort]

theorem load_of_no_room (rest : Bytes) {nVocab : Int32}
    (hroom : ¬ (entries.length : Int) ≤ nVocab.toInt + 100) :
    ∃ fault, p.load (printVocab entries stop ++ rest) nVocab = .error fault := by
  by_cases hsize : nVocab.toInt + 100 < 0
  · exact ⟨_, by rw [VocabState.load, if_pos hsize]⟩
  · exact ⟨_, load_of_crowded p entries stop rest (Int.not_lt.mp hsize) (Int.not_le.mp hroom)⟩

/-- **Main result.**  A printed vocabulary is loaded as it is, whatever was loaded before and
whatever is behind it in the file, if it has at most a hundred entries more than it is announced
with.  Of a word that is listed twice the last id is kept. -/
theorem load_printVocab (rest : Bytes) (nVocab : Int32) :
    p.load (printVocab entries stop ++ rest) nVocab =
      if nVocab.toInt + 100 < 0 then .error (.lengthError "vector::_M_default_append")
      else if (entries.length : Int) ≤ nVocab.toInt + 100 then
        .ok ((printVocab entries stop).length, p.loaded entries)
      else .error (.abort "(size_t) (id) < vocab.id_to_token.size()") := by
  split
  · next hsize => rw [VocabState.load, if_pos hsize]
  · next hsize =>
      split
      · next hroom => exact load_of_room p entries stop rest hroom
      · next hcrowded =>
          exact load_of_crowded p entries stop rest (Int.not_lt.mp hsize) (Int.not_le.mp hcrowded)

end Main

/-! ### What is accepted -/

section Accepted

variable {vocab : Vocab} {data : Bytes} {offset count fuel last : Nat}

/-- An integer that has been read stands there. -/
theorem of_readI32_eq_ok {z : Int32} (h : readI32 data offset = (.ok z, last)) :
    Stands data offset (intBytes z) ∧ last = offset + (intBytes z).length := by
  obtain ⟨bytes, middle, htake, hpure⟩ := Action.ok_of_bind h
  obtain ⟨hstands, hlength, rfl⟩ := of_take_eq_ok htake
  obtain ⟨hz, rfl⟩ := Prod.mk.inj hpure
  obtain rfl := Except.ok.inj hz
  rw [intBytes_intOf hlength, hlength]
  exact ⟨hstands, rfl⟩

/-- What a round reads off the data is an entry. -/
theorem exists_entry {len : Int32} {word score : Bytes} (hlen : ¬ len.toInt < 0)
    (hword : word.length = len.toInt.toNat) (hscore : score.length = 4) :
    ∃ e : WordEntry, e.print = intBytes len ++ (word ++ score) ∧
      e.token = ⟨word, UInt32.ofNat (numberOf score), NORMAL⟩ := by
  have hshort : word.length < 2 ^ 31 := by
    have hlt := len.toInt_lt
    omega
  have hlength : Int32.ofNat word.length = len := by
    refine Int32.toInt_inj.mp ?_
    rw [Int32.toInt_ofNat_of_lt hshort, hword, Int.toNat_of_nonneg (Int.not_lt.mp hlen)]
  have hbits : (UInt32.ofNat (numberOf score)).toNat = numberOf score := by
    have hlt := numberOf_lt score
    rw [hscore] at hlt
    exact UInt32.toNat_ofNat_of_lt' hlt
  refine ⟨⟨word, hshort, UInt32.ofNat (numberOf score)⟩, ?_, rfl⟩
  rw [WordEntry.print, hlength, hbits, ← hscore, numberBytes_numberOf]

/-- The loop goes over entries up to a negative size, by induction over its rounds. -/
theorem printed_of_loadVocabList {result : Vocab × Nat}
    (h : loadVocabList true false 0 fuel vocab count data offset = (.ok result, last))
    (hcount : count ≤ vocab.idToToken.length) :
    ∃ entries stop, Stands data offset (printVocab entries stop) ∧
      last = offset + (printVocab entries stop).length ∧
      count + entries.length ≤ vocab.idToToken.length ∧
      result = (enterAll entries count vocab, count + entries.length) := by
  induction fuel generalizing vocab count offset with
  | zero => cases (Prod.mk.inj h).1
  | succ fuel ih =>
      rw [loadVocabList] at h
      obtain ⟨len, afterLen, hread, h⟩ := Action.ok_of_bind h
      obtain ⟨hlen, rfl⟩ := of_readI32_eq_ok hread
      by_cases hsign : len.toInt < 0
      · simp only [if_pos hsign] at h
        obtain ⟨hresult, rfl⟩ := Prod.mk.inj h
        obtain rfl := Except.ok.inj hresult
        exact ⟨[], ⟨len, hsign⟩, hlen, rfl, hcount, rfl⟩
      · simp only [if_neg hsign, Nat.zero_add, if_true, Bool.false_eq_true, if_false] at h
        split at h
        · next hroom =>
            obtain ⟨word, afterWord, hread, h⟩ := Action.ok_of_bind h
            obtain ⟨hword, hsize, rfl⟩ := of_take_eq_ok hread
            obtain ⟨score, afterScore, hread, h⟩ := Action.ok_of_bind h
            obtain ⟨hscore, hfour, rfl⟩ := of_take_eq_ok hread
            obtain ⟨e, hprint, htoken⟩ := exists_entry hsign hsize hfour
            have hstands : Stands data offset e.print := by
              rw [hprint]
              exact stands_append.mpr ⟨hlen, stands_append.mpr ⟨hword, by rwa [hsize]⟩⟩
            have hafter : offset + (intBytes len).length + len.toInt.toNat + 4
                = offset + e.print.length := by
              rw [hprint, List.length_append, List.length_append, hsize, hfour]
              omega
            rw [hafter] at h
            have hrest : loadVocabList true false 0 fuel (vocab.enter count e.token) (count + 1)
                data (offset + e.print.length) = (.ok result, last) := by
              rw [htoken]
              exact h
            have hlength := @length_idToToken_enter vocab count e.token
            obtain ⟨entries, stop, hentries, rfl, hle, rfl⟩ := ih hrest (by omega)
            refine ⟨e :: entries, stop, ?_, ?_, ?_, ?_⟩
            · rw [printVocab_cons]
              exact stands_append.mpr ⟨hstands, hentries⟩
            · rw [printVocab_cons, List.length_append]
              omega
            · rw [List.length_cons]
              omega
            · rw [List.length_cons]
              exact Prod.ext rfl (by omega)
        · cases (Prod.mk.inj h).1

/-- So what is loaded has been printed. -/
theorem loaded_of_load {p p' : VocabState} {buffer : Bytes} {nVocab : Int32} {size : Nat}
    (h : p.load buffer nVocab = .ok (size, p')) :
    ∃ entries stop rest, buffer = printVocab entries stop ++ rest ∧
      (entries.length : Int) ≤ nVocab.toInt + 100 ∧
      size = (printVocab entries stop).length ∧ p' = p.loaded entries := by
  have hload := h
  rw [VocabState.load] at h
  split at h
  · cases h
  · split at h
    · cases h
    · next vocab count offset hloop =>
        have hlength := @length_resize (nVocab.toInt + 100).toNat p.vocab.idToToken
        obtain ⟨entries, stop, ⟨front, rest, hbuffer, hfront⟩, -, hroom, -⟩ :=
          printed_of_loadVocabList hloop (Nat.zero_le _)
        rw [List.length_eq_zero_iff.mp hfront, List.nil_append] at hbuffer
        have hle : (entries.length : Int) ≤ nVocab.toInt + 100 := by
          rw [show ((⟨.empty, resize (nVocab.toInt + 100).toNat {} p.vocab.idToToken⟩ :
            Vocab).idToToken.length) = (nVocab.toInt + 100).toNat from hlength] at hroom
          omega
        rw [hbuffer, load_of_room p entries stop rest hle] at hload
        obtain ⟨rfl, rfl⟩ := Prod.mk.inj (Except.ok.inj hload)
        exact ⟨entries, stop, rest, hbuffer, hle, rfl, rfl⟩

/-- **What is accepted is a printed vocabulary**: a load succeeds if and only if the buffer starts
with one that there is room for, and the rest of the buffer is not looked at. -/
theorem load_eq_ok_iff (p : VocabState) (buffer : Bytes) (nVocab : Int32) (size : Nat)
    (p' : VocabState) :
    p.load buffer nVocab = .ok (size, p') ↔
      ∃ entries stop rest, buffer = printVocab entries stop ++ rest ∧
        (entries.length : Int) ≤ nVocab.toInt + 100 ∧
        size = (printVocab entries stop).length ∧ p' = p.loaded entries := by
  refine ⟨loaded_of_load, ?_⟩
  rintro ⟨entries, stop, rest, rfl, hroom, rfl, rfl⟩
  exact load_of_room p entries stop rest hroom

end Accepted

end Instinct.Transformers
