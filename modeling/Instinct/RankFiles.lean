/-
Instinct/RankFiles.lean

`GPT2BPEFileReader`: a table of ranked tokens read from a file of merges.

The files write each byte as a visible character (`decodeDataGym_encodeDataGym`).  Behind the
single bytes the tokens of the merges are ranked in the order of their lines.  The reader keeps
what it has read in front of its checks, and gives it out when it is asked again; a tokenizer
that can be made with it decodes what it encodes (`fetched_ranks_round_trip`).

A rank is a natural number here and an `int32_t` in the source; files with 2^31 merges are
outside the model.
-/
import Instinct.Effects
import Instinct.Splitting
import Instinct.StringUtils
import Instinct.TiktokenRoundTrip

namespace Instinct.Tokenizers

open Effects OrderedMaps Splitting

/-! ### Characters for bytes -/

/-- `insert_fn`. -/
def insertFn (a b : Nat) : List UInt8 := (List.range' a (b + 1 - a)).map UInt8.ofNat

/-- `rank_to_byte`, as the three ranges leave it. -/
def visibleBytes : List UInt8 := insertFn 33 126 ++ insertFn 161 172 ++ insertFn 174 255

/-- The variables that the loop over all bytes goes on. -/
structure DataGym where
  rankToByte : List UInt8
  byteOf : OrderedMap Char UInt8
  n : Nat

/-- The tables before the loop. -/
def DataGym.visible : DataGym where
  rankToByte := visibleBytes
  byteOf := visibleBytes.foldl (fun m b => m.set (Char.ofNat b.toNat) b) .empty
  n := 0

/-- A round of the loop. -/
def DataGym.addByte (gym : DataGym) (b : UInt8) : DataGym :=
  if b ∈ gym.rankToByte then gym
  else ⟨gym.rankToByte ++ [b], gym.byteOf.set (Char.ofNat (256 + gym.n)) b, gym.n + 1⟩

/-- All bytes, in ascending order. -/
def allBytes : List UInt8 := (List.range 256).map UInt8.ofNat

/-- `rank_to_byte` and `data_gym_byte_to_byte`. -/
def dataGym : DataGym := allBytes.foldl DataGym.addByte .visible

/-- `decode_data_gym`. -/
def decodeDataGym (str : UnicodeString) : Except Exn Bytes :=
  str.mapM fun c =>
    match dataGym.byteOf.find? c with
    | some b => .ok b
    | none => .error (.instinct ("char not found " ++ toString c.toNat))

/-! ### Files -/

/-- `std::getline`, until nothing is left. -/
def getLines (content : Bytes) : List Bytes :=
  if content = [] then [] else StringUtils.reSplit '\n'.toUInt8 content

/-- What the pattern `\s` finds: the characters with the property White_Space. -/
def isRegexSpace (c : Char) : Bool :=
  (0x09 ≤ c.toNat && c.toNat ≤ 0x0d) || c.toNat = 0x20 || c.toNat = 0x85 || c.toNat = 0xa0
    || c.toNat = 0x1680 || (0x2000 ≤ c.toNat && c.toNat ≤ 0x200a) || c.toNat = 0x2028
    || c.toNat = 0x2029 || c.toNat = 0x202f || c.toNat = 0x205f || c.toNat = 0x3000

/-- `SplitWithRegex` at `\s`, where each white space is as good as another. -/
def splitAtSpaces (line : UnicodeString) : List UnicodeString :=
  splitRounds false [' '] 19 (line.length + 1)
    (line.map fun c => if isRegexSpace c then ' ' else c)

/-- `bpe_merges`: a line that does not have two parts is left out. -/
def bpeMerges (lines : List UnicodeString) : List (UnicodeString × UnicodeString) :=
  (lines.drop 1).filterMap fun line =>
    match splitAtSpaces line with
    | [first, second] => some (first, second)
    | _ => none

/-! ### The reader -/

/-- The members of the encoder file, with their values. -/
abbrev EncoderJson := OrderedMap UnicodeString Int

/-- The single bytes get the first ranks. -/
def rankBytes (ranks : BPETokenRanks) : BPETokenRanks :=
  dataGym.rankToByte.zipIdx.foldl (fun m e => m.set [e.1] e.2) ranks

/-- A merge gets the next rank. -/
def rankMerge (n : Nat) (merge : UnicodeString × UnicodeString) :
    Action Exn BPETokenRanks Nat := do
  let first ← Action.ofExcept (decodeDataGym merge.1)
  let second ← Action.ofExcept (decodeDataGym merge.2)
  Action.modify fun ranks => ranks.set (first ++ second) n
  pure (n + 1)

/-- The loop over the merges. -/
def rankMerges : List (UnicodeString × UnicodeString) → Nat → Action Exn BPETokenRanks Unit
  | [], _ => pure ()
  | merge :: merges, n => do
      let next ← rankMerge n merge
      rankMerges merges next

/-- `encoder_json_loaded`, by its keys. -/
def loadEncoder : List UnicodeString → List Bytes → Except Exn (List Bytes)
  | [], loaded => .ok loaded
  | key :: keys, loaded => do
      let token ← decodeDataGym key
      if token ∈ loaded then
        .error (.instinct ("internal data error due to duplicated token: "
          ++ String.ofList (fromUTF8 token)))
      else loadEncoder keys (loaded ++ [token])

/-- The special tokens, which are not ranked. -/
def endOfText : Bytes := toUTF8 "<|endoftext|>".toList

def startOfText : Bytes := toUTF8 "<|startoftext|>".toList

/-- The checks against the encoder file. -/
def checkEncoder (encoder : EncoderJson) (ranks : BPETokenRanks) : Except Exn Unit := do
  let loaded ← loadEncoder (encoder.entries.map Prod.fst) []
  let kept := loaded.filter fun token => token ≠ endOfText ∧ token ≠ startOfText
  kept.forM fun token => assertFound (ranks.find? token).isSome
    "invalid vocab bpe or encoder json file, as key found in encoder json but not in vocab bpe: "
    token
  (ranks.entries.map Prod.fst).forM fun token => assertFound (decide (token ∈ kept))
    "invalid vocab bpe or encoder json file, as key found in vocab bpe but not in encoder json: "
    token
where
  assertFound (found : Bool) (message : String) (token : Bytes) : Except Exn Unit :=
    if found then .ok () else .error (.instinct (message ++ String.ofList (fromUTF8 token)))

/-- `GPT2BPEFileReader::DoFetch_`, into a table. -/
def gpt2DoFetch (vocabBpe : Bytes) (encoder : EncoderJson) : Action Exn BPETokenRanks Unit := do
  let merges := bpeMerges ((getLines vocabBpe).map fromUTF8)
  Action.modify rankBytes
  let n ← Action.gets fun ranks => ranks.entries.length
  rankMerges merges n
  let ranks ← Action.gets id
  Action.ofExcept (checkEncoder encoder ranks)

/-- `Fetch` of the readers: the table is kept before it is filled. -/
def fetch (doFetch : Action Exn BPETokenRanks Unit) :
    Action Exn (Option BPETokenRanks) BPETokenRanks := fun cache =>
  match cache with
  | some ranks => (.ok ranks, some ranks)
  | none =>
      match doFetch .empty with
      | (.ok (), ranks) => (.ok ranks, some ranks)
      | (.error e, ranks) => (.error e, some ranks)

/-! ### Each byte has its character -/

section Gym

/-- The bytes that are not visible. -/
@[irreducible] def hiddenBytes : List UInt8 := allBytes.filter fun b => b ∉ visibleBytes

/-- The characters, with their bytes. -/
def gymEntries : List (Char × UInt8) :=
  visibleBytes.map (fun b => (Char.ofNat b.toNat, b)) ++
    hiddenBytes.zipIdx.map fun e => (Char.ofNat (256 + e.2), e.1)

/-- The loop appends the bytes that are new, by induction over the bytes. -/
theorem foldl_addByte {bs new : List UInt8} (hbs : bs.Nodup) (gym : DataGym)
    (hnew : bs.filter (fun b => b ∉ gym.rankToByte) = new) :
    bs.foldl DataGym.addByte gym
      = ⟨gym.rankToByte ++ new,
          ((new.zipIdx gym.n).map fun e => (Char.ofNat (256 + e.2), e.1)).foldl
            (fun m e => m.set e.1 e.2) gym.byteOf,
          gym.n + new.length⟩ := by
  induction bs generalizing gym new with
  | nil =>
      subst hnew
      simp
  | cons b bs ih =>
      obtain ⟨hfresh, hbs⟩ := List.nodup_cons.mp hbs
      rw [List.foldl_cons, DataGym.addByte]
      by_cases hb : b ∈ gym.rankToByte
      · rw [if_pos hb]
        exact ih hbs gym (by rwa [List.filter_cons_of_neg (by simpa using hb)] at hnew)
      · have hfilter : bs.filter (fun c => c ∉ gym.rankToByte ++ [b])
            = bs.filter fun c => c ∉ gym.rankToByte := by
          refine List.filter_congr fun c hc => ?_
          have hne : c ≠ b := fun h => hfresh (h ▸ hc)
          simp [hne]
        rw [List.filter_cons_of_pos (by simpa using hb)] at hnew
        subst hnew
        rw [if_neg hb, ih hbs _ hfilter]
        simp [List.zipIdx_cons, Nat.add_assoc, Nat.add_comm 1]

theorem nodup_allBytes : allBytes.Nodup := by
  refine (List.nodup_range).map_on fun n hn m hm h => ?_
  have hlt := List.mem_range.mp hn
  have hlt' := List.mem_range.mp hm
  have hnat := congrArg UInt8.toNat h
  rwa [UInt8.toNat_ofNat_of_lt' hlt, UInt8.toNat_ofNat_of_lt' hlt'] at hnat

theorem mem_allBytes (b : UInt8) : b ∈ allBytes :=
  List.mem_map.mpr ⟨b.toNat, List.mem_range.mpr b.toNat_lt, UInt8.ofNat_toNat⟩

theorem filter_allBytes :
    allBytes.filter (fun b => b ∉ DataGym.visible.rankToByte) = hiddenBytes := by
  unfold hiddenBytes
  rfl

theorem mem_hiddenBytes {b : UInt8} : b ∈ hiddenBytes ↔ b ∉ visibleBytes := by
  unfold hiddenBytes
  rw [List.mem_filter, decide_eq_true_iff]
  exact and_iff_right (mem_allBytes b)

theorem nodup_hiddenBytes : hiddenBytes.Nodup := by
  unfold hiddenBytes
  exact nodup_allBytes.filter _

theorem rankToByte_eq : dataGym.rankToByte = visibleBytes ++ hiddenBytes := by
  rw [dataGym, foldl_addByte nodup_allBytes .visible filter_allBytes]
  simp only [DataGym.visible]

theorem byteOf_eq : dataGym.byteOf = gymEntries.foldl (fun m e => m.set e.1 e.2) .empty := by
  rw [dataGym, foldl_addByte nodup_allBytes .visible filter_allBytes, gymEntries,
    List.foldl_append]
  simp only [DataGym.visible, List.foldl_map]

theorem map_toNat_insertFn {a b : Nat} (h : b < 256) :
    (insertFn a b).map UInt8.toNat = List.range' a (b + 1 - a) := by
  rw [insertFn, List.map_map]
  refine (List.map_congr_left fun n hn => ?_).trans (List.map_id _)
  obtain ⟨hle, hlt⟩ := List.mem_range'_1.mp hn
  exact UInt8.toNat_ofNat_of_lt' (by show n < 256; omega)

/-- The visible bytes, by their numbers. -/
theorem map_toNat_visibleBytes : visibleBytes.map UInt8.toNat
    = List.range' 33 94 ++ List.range' 161 12 ++ List.range' 174 82 := by
  rw [visibleBytes, List.map_append, List.map_append, map_toNat_insertFn (by decide),
    map_toNat_insertFn (by decide), map_toNat_insertFn (by decide)]

theorem toNat_of_mem_visibleBytes {b : UInt8} (h : b ∈ visibleBytes) :
    33 ≤ b.toNat ∧ b.toNat ≤ 126 ∨ 161 ≤ b.toNat ∧ b.toNat ≤ 172 ∨ 174 ≤ b.toNat := by
  have hmem := List.mem_map_of_mem (f := UInt8.toNat) h
  rw [map_toNat_visibleBytes, List.mem_append, List.mem_append, List.mem_range'_1,
    List.mem_range'_1, List.mem_range'_1] at hmem
  omega

theorem length_hiddenBytes_le : hiddenBytes.length ≤ 256 := by
  unfold hiddenBytes
  refine (List.length_filter_le _ _).trans (Nat.le_of_eq ?_)
  rw [allBytes, List.length_map, List.length_range]

theorem toNat_ofNat_of_lt {n : Nat} (h : n < 0xd800) : (Char.ofNat n).toNat = n := by
  rw [Char.ofNat, dif_pos (.inl h)]
  rfl

/-- The characters, by their numbers. -/
theorem map_toNat_gymEntries : gymEntries.map (fun e => e.1.toNat)
    = visibleBytes.map UInt8.toNat ++ (List.range hiddenBytes.length).map (256 + ·) := by
  rw [gymEntries, List.map_append, List.map_map, List.map_map]
  refine congrArg₂ (· ++ ·) (List.map_congr_left fun b _ => ?_) ?_
  · have hlt := b.toNat_lt
    exact toNat_ofNat_of_lt (by omega)
  · rw [List.range_eq_range', ← List.zipIdx_map_snd 0 hiddenBytes, List.map_map]
    refine List.map_congr_left fun e he => ?_
    have hlt := (List.mem_zipIdx he).2.1
    have hle := length_hiddenBytes_le
    exact toNat_ofNat_of_lt (by omega)

/-- The characters ascend. -/
theorem gymEntries_ascending : (gymEntries.map fun e => e.1.toNat).Pairwise (· < ·) := by
  rw [map_toNat_gymEntries, map_toNat_visibleBytes]
  have hranges : (List.range' 33 94 ++ List.range' 161 12 ++ List.range' 174 82).Pairwise
      (· < ·) := by
    rw [List.pairwise_append, List.pairwise_append]
    refine ⟨⟨List.pairwise_lt_range', List.pairwise_lt_range', fun n hn m hm => ?_⟩,
      List.pairwise_lt_range', fun n hn m hm => ?_⟩
    · rw [List.mem_range'_1] at hn hm
      omega
    · rw [List.mem_append, List.mem_range'_1, List.mem_range'_1] at hn
      rw [List.mem_range'_1] at hm
      omega
  rw [List.pairwise_append]
  refine ⟨hranges, List.pairwise_map.mpr (List.pairwise_lt_range.imp fun h => by omega),
    fun n hn m hm => ?_⟩
  obtain ⟨i, -, rfl⟩ := List.mem_map.mp hm
  simp only [List.mem_append, List.mem_range'_1] at hn
  omega

/-- No character is a white space. -/
theorem gymEntries_plain {e : Char × UInt8} (he : e ∈ gymEntries) :
    isRegexSpace e.1 = false ∧ e.1 ≠ '\n' := by
  have hmem := List.mem_map_of_mem (f := fun e : Char × UInt8 => e.1.toNat) he
  rw [map_toNat_gymEntries, List.mem_append] at hmem
  have hbounds : 33 ≤ e.1.toNat ∧ e.1.toNat ≤ 126 ∨ 161 ≤ e.1.toNat ∧ e.1.toNat < 512 := by
    rcases hmem with hvisible | hhidden
    · obtain ⟨b, hb, heq⟩ := List.mem_map.mp hvisible
      have hlt := b.toNat_lt
      have hrange := toNat_of_mem_visibleBytes hb
      omega
    · obtain ⟨i, hi, heq⟩ := List.mem_map.mp hhidden
      have hlt := List.mem_range.mp hi
      have hle := length_hiddenBytes_le
      omega
  constructor
  · simp only [isRegexSpace, Bool.or_eq_false_iff, Bool.and_eq_false_iff, decide_eq_false_iff_not]
    omega
  · intro heq
    rw [heq] at hbounds
    revert hbounds
    decide

/-- The character of a byte. -/
def gymChar (b : UInt8) : Char :=
  if b ∈ visibleBytes then Char.ofNat b.toNat else Char.ofNat (256 + hiddenBytes.idxOf b)

theorem gymChar_mem (b : UInt8) : (gymChar b, b) ∈ gymEntries := by
  rw [gymEntries, List.mem_append, gymChar]
  by_cases hb : b ∈ visibleBytes
  · rw [if_pos hb]
    exact .inl (List.mem_map_of_mem hb)
  · have hmem : b ∈ hiddenBytes := mem_hiddenBytes.mpr hb
    rw [if_neg hb]
    refine .inr (List.mem_map.mpr ⟨(b, hiddenBytes.idxOf b), ?_, rfl⟩)
    rw [List.mem_zipIdx_iff_getElem?]
    exact List.getElem?_idxOf hmem

theorem nodup_gymChars : (gymEntries.map Prod.fst).Nodup := by
  have hnodup := gymEntries_ascending.imp fun {n m} (h : n < m) => h.ne
  rw [List.pairwise_map] at hnodup
  exact List.pairwise_map.mpr (hnodup.imp fun hne heq => hne (congrArg Char.toNat heq))

/-- Each byte has one character. -/
theorem nodup_rankToByte : (visibleBytes ++ hiddenBytes).Nodup := by
  have hvisible : visibleBytes.Nodup := by
    refine List.Nodup.of_map UInt8.toNat ?_
    have hnodup := gymEntries_ascending.imp fun {n m} (h : n < m) => h.ne
    rw [map_toNat_gymEntries] at hnodup
    exact (List.pairwise_append.mp hnodup).1
  refine List.nodup_append.mpr ⟨hvisible, nodup_hiddenBytes, fun b hb c hc heq => ?_⟩
  exact mem_hiddenBytes.mp hc (heq ▸ hb)

theorem map_snd_gymEntries : gymEntries.map Prod.snd = visibleBytes ++ hiddenBytes := by
  rw [gymEntries, List.map_append, List.map_map, List.map_map]
  refine congrArg₂ (· ++ ·) (List.map_id _) ?_
  exact List.zipIdx_map_fst 0 hiddenBytes

/-- A character has a byte if and only if it is the character of the byte. -/
theorem find?_byteOf {c : Char} {b : UInt8} :
    dataGym.byteOf.find? c = some b ↔ c = gymChar b := by
  rw [byteOf_eq, OrderedMap.find?_foldl_set nodup_gymChars, OrderedMap.find?_empty]
  constructor
  · rintro (h | ⟨-, h⟩)
    · have hnodup : (gymEntries.map Prod.snd).Nodup := map_snd_gymEntries ▸ nodup_rankToByte
      exact congrArg Prod.fst (List.inj_on_of_nodup_map hnodup h (gymChar_mem b) rfl)
    · cases h
  · rintro rfl
    exact .inl (gymChar_mem b)

/-- The bytes in characters. -/
def encodeDataGym (bytes : Bytes) : UnicodeString := bytes.map gymChar

/-- **A text is decoded to bytes if and only if it is the bytes in characters.** -/
theorem decodeDataGym_eq_ok_iff {str : UnicodeString} {bytes : Bytes} :
    decodeDataGym str = .ok bytes ↔ str = encodeDataGym bytes := by
  rw [decodeDataGym, mapM_eq_ok_iff, encodeDataGym]
  have hone : ∀ c b, (match dataGym.byteOf.find? c with
      | some b => (Except.ok b : Except Exn UInt8)
      | none => .error (.instinct ("char not found " ++ toString c.toNat))) = .ok b ↔
      c = gymChar b := by
    intro c b
    rw [← find?_byteOf]
    cases dataGym.byteOf.find? c with
    | none => exact ⟨nofun, nofun⟩
    | some b' => rw [Except.ok.injEq, Option.some.injEq]
  simp only [hone]
  constructor
  · intro h
    induction h with
    | nil => rfl
    | cons hc _ ih => rw [List.map_cons, ← hc, ← ih]
  · rintro rfl
    exact List.forall₂_map_left_iff.mpr (List.forall₂_same.mpr fun b _ => rfl)

theorem encodeDataGym_injective : Function.Injective encodeDataGym := by
  intro bytes more h
  have hbytes := decodeDataGym_eq_ok_iff.mpr (rfl : encodeDataGym bytes = _)
  rw [h, decodeDataGym_eq_ok_iff.mpr rfl] at hbytes
  exact (Except.ok.inj hbytes).symm

end Gym

/-! ### Printed lines -/

section Lines

theorem newline_notMem_utf8EncodeChar {c : Char} (h : c ≠ '\n') :
    '\n'.toUInt8 ∉ String.utf8EncodeChar c := by
  intro hmem
  obtain ⟨i, hi, hbyte⟩ := List.mem_iff_getElem.mp hmem
  -- a newline starts a character, so it is the first byte
  have hfirst : i = 0 := by
    rw [← @UInt8.isUTF8FirstByte_getElem_utf8EncodeChar c i hi, hbyte]
    decide
  subst hfirst
  obtain ⟨b, rest, hcons⟩ := List.exists_cons_of_ne_nil (String.utf8EncodeChar_ne_nil (c := c))
  have hb : b = '\n'.toUInt8 := by
    rw [← hbyte]
    simp only [hcons, List.getElem_cons_zero]
  have hbytes : (String.utf8EncodeChar c).toByteArray ++ [].toByteArray
      = (String.utf8EncodeChar '\n').toByteArray ++ rest.toByteArray := by
    rw [← List.toByteArray_append, ← List.toByteArray_append, hcons, hb, List.append_nil]
    rfl
  have hdecode := ByteArray.utf8DecodeChar?_utf8EncodeChar_append (b := [].toByteArray) (c := c)
  rw [hbytes, ByteArray.utf8DecodeChar?_utf8EncodeChar_append] at hdecode
  exact h (Option.some.inj hdecode).symm

theorem newline_notMem_toUTF8 {text : UnicodeString} (h : '\n' ∉ text) :
    '\n'.toUInt8 ∉ toUTF8 text := by
  intro hmem
  obtain ⟨c, hc, hbyte⟩ := List.mem_flatMap.mp hmem
  exact newline_notMem_utf8EncodeChar (fun heq => h (heq ▸ hc)) hbyte

/-- The lines of a file, each with its end. -/
def printLines (lines : List UnicodeString) : Bytes :=
  lines.flatMap fun line => toUTF8 (line ++ ['\n'])

theorem splitOn_printLines {lines : List UnicodeString} (h : ∀ line ∈ lines, '\n' ∉ line) :
    (printLines lines).splitOn '\n'.toUInt8 = lines.map toUTF8 ++ [[]] := by
  induction lines with
  | nil => rfl
  | cons line lines ih =>
      have hline := newline_notMem_toUTF8 (h line List.mem_cons_self)
      have hbytes : printLines (line :: lines)
          = toUTF8 line ++ '\n'.toUInt8 :: printLines lines := by
        rw [printLines, List.flatMap_cons, toUTF8_append, List.append_assoc]
        rfl
      rw [hbytes, List.splitOn_append_cons_self_of_not_mem hline,
        ih fun other hother => h other (List.mem_cons_of_mem _ hother)]
      rfl

/-- **The lines are read as they were printed.** -/
theorem getLines_printLines {lines : List UnicodeString} (h : ∀ line ∈ lines, '\n' ∉ line) :
    (getLines (printLines lines)).map fromUTF8 = lines := by
  rcases lines with - | ⟨line, lines⟩
  · rfl
  · have hne : printLines (line :: lines) ≠ [] := by
      rw [printLines, List.flatMap_cons, toUTF8_append]
      simp [toUTF8, String.utf8EncodeChar_ne_nil]
    rw [getLines, if_neg hne, StringUtils.reSplit, splitOn_printLines h]
    have hends : 2 ≤ ((line :: lines).map toUTF8 ++ [[]]).length ∧
        ((line :: lines).map toUTF8 ++ [[]]).getLast? = some [] := by
      refine ⟨?_, List.getLast?_concat⟩
      rw [List.length_append, List.length_map]
      exact Nat.succ_le_succ (Nat.succ_le_succ (Nat.zero_le _))
    simp only [if_pos hends, List.dropLast_concat, List.map_map]
    exact (List.map_congr_left fun line _ => fromUTF8_toUTF8 line).trans (List.map_id _)

/-- Two parts with a blank between them. -/
theorem splitAtSpaces_pair {first second : UnicodeString}
    (hfirst : ∀ c ∈ first, isRegexSpace c = false)
    (hsecond : ∀ c ∈ second, isRegexSpace c = false) :
    splitAtSpaces (first ++ ' ' :: second) = [first, second] := by
  have hplain : ∀ {part : UnicodeString}, (∀ c ∈ part, isRegexSpace c = false) →
      (part.map fun c => if isRegexSpace c then ' ' else c) = part ∧ ' ' ∉ part := by
    intro part h
    refine ⟨(List.map_congr_left fun c hc => ?_).trans (List.map_id _), fun hmem => ?_⟩
    · rw [h c hc, if_neg Bool.false_ne_true]
      rfl
    · exact absurd (h ' ' hmem) (by decide)
  obtain ⟨hfirstMap, hfirstNot⟩ := hplain hfirst
  obtain ⟨hsecondMap, hsecondNot⟩ := hplain hsecond
  have hmap : ((first ++ ' ' :: second).map fun c => if isRegexSpace c then ' ' else c)
      = first ++ ' ' :: second := by
    rw [List.map_append, List.map_cons, hfirstMap, hsecondMap]
    rfl
  have hnone : cut [' '] second = none := by
    rw [cut_eq_none_iff (by decide)]
    exact fun h => hsecondNot (h.subset List.mem_cons_self)
  have hfields : fields [' '] (first ++ ' ' :: second) = [first, second] := by
    rw [fields_of_some (by decide) (cut_singleton hfirstNot second), fields_of_none hnone]
  have hloses : ¬ Loses [' '] 18 (first ++ ' ' :: second) := by
    rintro ⟨-, hdvd⟩
    rw [hfields] at hdvd
    have hone : 18 ∣ 1 := hdvd
    exact absurd hone (by decide)
  rw [splitAtSpaces, hmap]
  refine (splitRounds_drop (m := 18) (by decide) (by decide) (Nat.lt_succ_self _)
    (by simp)).trans ?_
  rw [if_neg hloses, hfields]

end Lines

/-! ### The table of a file -/

/-- A part of a merge. -/
abbrev Part := { bytes : Bytes // bytes ≠ [] }

/-- The token that a merge makes. -/
def mergedToken (merge : Part × Part) : Bytes := merge.1.val ++ merge.2.val

/-- A merge, as it is written. -/
def mergeTexts (merge : Part × Part) : UnicodeString × UnicodeString :=
  (encodeDataGym merge.1.val, encodeDataGym merge.2.val)

/-- A file of merges, behind a line that is passed over. -/
def printMerges (header : { line : UnicodeString // '\n' ∉ line }) (merges : List (Part × Part)) :
    Bytes :=
  printLines (header.val ::
    merges.map fun merge => (mergeTexts merge).1 ++ ' ' :: (mergeTexts merge).2)

/-- The bytes, and behind them the tokens in the order of their merges. -/
def tableOf (merges : List (Part × Part)) : BPETokenRanks :=
  (merges.zipIdx 256).foldl (fun ranks e => ranks.set (mergedToken e.1) e.2) (rankBytes .empty)

section Table

variable {merges : List (Part × Part)}

theorem encodeDataGym_plain {bytes : Bytes} {c : Char} (h : c ∈ encodeDataGym bytes) :
    isRegexSpace c = false ∧ c ≠ '\n' := by
  obtain ⟨b, -, rfl⟩ := List.mem_map.mp h
  exact @gymEntries_plain (gymChar b, b) (gymChar_mem b)

/-- The merges are read as they were printed. -/
theorem bpeMerges_printMerges (header : { line : UnicodeString // '\n' ∉ line })
    (merges : List (Part × Part)) :
    bpeMerges ((getLines (printMerges header merges)).map fromUTF8) = merges.map mergeTexts := by
  rw [printMerges, getLines_printLines, bpeMerges, List.drop_one, List.tail_cons,
    List.filterMap_map]
  · refine List.filterMap_eq_map_iff_forall_eq_some.mpr fun merge _ => ?_
    have hsplit : splitAtSpaces ((mergeTexts merge).1 ++ ' ' :: (mergeTexts merge).2)
        = [(mergeTexts merge).1, (mergeTexts merge).2] :=
      splitAtSpaces_pair (fun c hc => (encodeDataGym_plain hc).1)
        fun c hc => (encodeDataGym_plain hc).1
    simp only [Function.comp_apply, hsplit]
  · refine List.forall_mem_cons.mpr ⟨header.property, fun line hline => ?_⟩
    obtain ⟨merge, -, rfl⟩ := List.mem_map.mp hline
    intro hmem
    rcases List.mem_append.mp hmem with h | h
    · exact (encodeDataGym_plain h).2 rfl
    · rcases List.mem_cons.mp h with h | h
      · cases h
      · exact (encodeDataGym_plain h).2 rfl

/-- The loop over some merges, and over what follows them. -/
theorem rankMerges_append (merges : List (Part × Part))
    (rest : List (UnicodeString × UnicodeString)) (n : Nat) (ranks : BPETokenRanks) :
    rankMerges (merges.map mergeTexts ++ rest) n ranks
      = rankMerges rest (n + merges.length)
          ((merges.zipIdx n).foldl (fun ranks e => ranks.set (mergedToken e.1) e.2) ranks) := by
  induction merges generalizing n ranks with
  | nil => rfl
  | cons merge merges ih =>
      have hmerge : rankMerge n (mergeTexts merge) ranks
          = (.ok (n + 1), ranks.set (mergedToken merge) n) := by
        rw [rankMerge, mergeTexts, decodeDataGym_eq_ok_iff.mpr rfl, decodeDataGym_eq_ok_iff.mpr rfl]
        rfl
      rw [List.map_cons, List.cons_append, rankMerges, Action.bind_of_ok hmerge, ih,
        List.zipIdx_cons, List.foldl_cons, List.length_cons, Nat.add_assoc, Nat.add_comm 1]

theorem rankMerges_mergeTexts (merges : List (Part × Part)) (n : Nat) (ranks : BPETokenRanks) :
    rankMerges (merges.map mergeTexts) n ranks
      = (.ok (), (merges.zipIdx n).foldl (fun ranks e => ranks.set (mergedToken e.1) e.2)
          ranks) := by
  have happend := rankMerges_append merges [] n ranks
  rw [List.append_nil] at happend
  exact happend

/-- A merge that cannot be decoded is not ranked. -/
theorem rankMerge_of_unreadable {merge : UnicodeString × UnicodeString}
    (h : ∀ first second, merge ≠ (encodeDataGym first, encodeDataGym second)) (n : Nat)
    (ranks : BPETokenRanks) : ∃ e, rankMerge n merge ranks = (.error e, ranks) := by
  rw [rankMerge]
  cases hfirst : decodeDataGym merge.1 with
  | error e => exact ⟨e, rfl⟩
  | ok first =>
      cases hsecond : decodeDataGym merge.2 with
      | error e => exact ⟨e, rfl⟩
      | ok second =>
          exact absurd (Prod.ext (decodeDataGym_eq_ok_iff.mp hfirst)
            (decodeDataGym_eq_ok_iff.mp hsecond)) (h first second)

theorem entries_rankBytes : (rankBytes .empty).entries
    = (visibleBytes ++ hiddenBytes).zipIdx.map fun e => ([e.1], e.2) := by
  have hfold : rankBytes .empty
      = ((visibleBytes ++ hiddenBytes).zipIdx.map fun e => (([e.1], e.2) : Bytes × Nat)).foldl
          (fun m e => m.set e.1 e.2) .empty := by
    rw [rankBytes, rankToByte_eq, List.foldl_map]
  rw [hfold, OrderedMap.entries_foldl_set]
  · rfl
  · show ((((visibleBytes ++ hiddenBytes).zipIdx.map fun e => (([e.1], e.2) : Bytes × Nat))).map
      Prod.fst).Nodup
    rw [List.map_map, show (Prod.fst ∘ fun e : UInt8 × Nat => (([e.1], e.2) : Bytes × Nat))
      = (fun b => [b]) ∘ Prod.fst from rfl, ← List.map_map, List.zipIdx_map_fst]
    exact nodup_rankToByte.map fun b c h => (List.cons.inj h).1

theorem mem_rankToByte (b : UInt8) : b ∈ visibleBytes ++ hiddenBytes := by
  by_cases hb : b ∈ visibleBytes
  · exact List.mem_append_left _ hb
  · exact List.mem_append_right _ (mem_hiddenBytes.mpr hb)

theorem length_rankToByte : (visibleBytes ++ hiddenBytes).length = 256 := by
  have hperm : (visibleBytes ++ hiddenBytes).Perm allBytes :=
    (List.perm_ext_iff_of_nodup nodup_rankToByte nodup_allBytes).mpr
      fun b => ⟨fun _ => mem_allBytes b, fun _ => mem_rankToByte b⟩
  rw [hperm.length_eq, allBytes, List.length_map, List.length_range]

theorem find?_rankBytes {token : Bytes} {rank : Nat} :
    (rankBytes .empty).find? token = some rank ↔
      ∃ b, token = [b] ∧ rank = (visibleBytes ++ hiddenBytes).idxOf b := by
  rw [OrderedMap.find?_eq_some_iff, entries_rankBytes, List.mem_map]
  constructor
  · rintro ⟨⟨b, i⟩, he, heq⟩
    obtain ⟨rfl, rfl⟩ := Prod.mk.inj heq
    obtain ⟨hi, hget⟩ := List.getElem?_eq_some_iff.mp (List.mem_zipIdx_iff_getElem?.mp he)
    exact ⟨b, rfl, by rw [← nodup_rankToByte.idxOf_getElem i hi, hget]⟩
  · rintro ⟨b, rfl, rfl⟩
    exact ⟨(b, _), List.mem_zipIdx_iff_getElem?.mpr (List.getElem?_idxOf (mem_rankToByte b)), rfl⟩

theorem tableOf_nil : tableOf [] = rankBytes .empty := by
  rw [tableOf, List.zipIdx_nil, List.foldl_nil]

/-- One more merge. -/
theorem tableOf_concat (merges : List (Part × Part)) (merge : Part × Part) :
    tableOf (merges ++ [merge])
      = (tableOf merges).set (mergedToken merge) (256 + merges.length) := by
  rw [tableOf, List.zipIdx_append, List.foldl_append, ← tableOf]
  rfl

theorem mergedToken_ne_singleton (merge : Part × Part) (b : UInt8) : mergedToken merge ≠ [b] := by
  intro h
  have hlength := congrArg List.length h
  have hfirst := List.length_pos_iff.mpr merge.1.property
  have hsecond := List.length_pos_iff.mpr merge.2.property
  rw [mergedToken, List.length_append, List.length_singleton] at hlength
  omega

/-- The single bytes have the first ranks, by induction over the merges. -/
theorem find?_tableOf_singleton (merges : List (Part × Part)) (b : UInt8) :
    (tableOf merges).find? [b] = some ((visibleBytes ++ hiddenBytes).idxOf b) := by
  induction merges using List.reverseRecOn with
  | nil =>
      rw [tableOf_nil]
      exact find?_rankBytes.mpr ⟨b, rfl, rfl⟩
  | append_singleton merges merge ih =>
      rw [tableOf_concat,
        OrderedMap.find?_set_of_ne _ _ (mergedToken_ne_singleton merge b).symm, ih]

/-- The last merge that makes a token ranks it, by induction over the merges. -/
theorem find?_tableOf {token : Bytes} (htoken : ∀ b, token ≠ [b]) {rank : Nat} :
    (tableOf merges).find? token = some rank ↔
      ∃ i, rank = 256 + i ∧ merges[i]?.map mergedToken = some token ∧
        ∀ j, i < j → merges[j]?.map mergedToken ≠ some token := by
  induction merges using List.reverseRecOn with
  | nil =>
      rw [tableOf_nil]
      refine ⟨fun h => ?_, by rintro ⟨i, -, h, -⟩; cases h⟩
      obtain ⟨b, hb, -⟩ := find?_rankBytes.mp h
      exact absurd hb (htoken b)
  | append_singleton merges merge ih =>
      have hlast : (merges ++ [merge])[merges.length]?.map mergedToken
          = some (mergedToken merge) := by
        rw [List.getElem?_concat_length]
        rfl
      rw [tableOf_concat]
      by_cases heq : token = mergedToken merge
      · subst heq
        rw [OrderedMap.find?_set_self, Option.some.injEq]
        constructor
        · rintro rfl
          refine ⟨merges.length, rfl, hlast, fun j hj h => ?_⟩
          rw [List.getElem?_eq_none (by rw [List.length_append, List.length_singleton]; omega)] at h
          cases h
        · rintro ⟨i, rfl, hi, hlater⟩
          have hlt : i < merges.length + 1 := by
            by_contra hge
            rw [List.getElem?_eq_none (by rw [List.length_append, List.length_singleton]; omega)]
              at hi
            cases hi
          have hnot : ¬ i < merges.length := fun hlt => hlater _ hlt hlast
          omega
      · rw [OrderedMap.find?_set_of_ne _ _ heq, ih]
        refine exists_congr fun i => and_congr_right fun _ => ?_
        -- another token is not that of the new merge
        have hindex : ∀ j : Nat, (merges ++ [merge])[j]?.map mergedToken = some token ↔
            merges[j]?.map mergedToken = some token := by
          intro j
          rcases Nat.lt_trichotomy j merges.length with hj | rfl | hj
          · rw [List.getElem?_append_left hj]
          · rw [hlast, List.getElem?_eq_none (Nat.le_refl _)]
            exact ⟨fun h => absurd (Option.some.inj h).symm heq, nofun⟩
          · rw [List.getElem?_eq_none (Nat.le_of_lt hj), List.getElem?_eq_none
              (by rw [List.length_append, List.length_singleton]; omega)]
        simp only [hindex, ne_eq]

end Table

/-! ### The checks -/

/-- The encoder file names the tokens of the table, and special tokens apart from these. -/
def EncoderFits (encoder : EncoderJson) (ranks : BPETokenRanks) : Prop :=
  ∃ tokens : List Bytes, encoder.entries.map Prod.fst = tokens.map encodeDataGym ∧
    ∀ token, (ranks.find? token).isSome ↔
      token ∈ tokens ∧ token ≠ endOfText ∧ token ≠ startOfText

section Checks

/-- **No token is found twice**: distinct keys are distinct tokens, by induction over the keys. -/
theorem loadEncoder_eq_ok_iff {keys : List UnicodeString} (hkeys : keys.Nodup)
    {loaded result : List Bytes} (hloaded : ∀ token ∈ loaded, encodeDataGym token ∉ keys) :
    loadEncoder keys loaded = .ok result ↔
      ∃ tokens, keys = tokens.map encodeDataGym ∧ result = loaded ++ tokens := by
  induction keys generalizing loaded with
  | nil =>
      rw [loadEncoder, Except.ok.injEq]
      constructor
      · rintro rfl
        exact ⟨[], rfl, (List.append_nil _).symm⟩
      · rintro ⟨tokens, htokens, rfl⟩
        rw [List.map_eq_nil_iff.mp htokens.symm, List.append_nil]
  | cons key keys ih =>
      obtain ⟨hnew, hrestKeys⟩ := List.nodup_cons.mp hkeys
      rw [loadEncoder, checks_eq_ok]
      constructor
      · rintro ⟨token, hdecode, hrest⟩
        obtain rfl := decodeDataGym_eq_ok_iff.mp hdecode
        have hfresh : token ∉ loaded := fun h => hloaded token h List.mem_cons_self
        rw [if_neg hfresh, ih hrestKeys] at hrest
        · obtain ⟨tokens, rfl, rfl⟩ := hrest
          exact ⟨token :: tokens, rfl, by rw [List.append_assoc]; rfl⟩
        · intro other hother
          rcases List.mem_append.mp hother with hother | hother
          · exact fun h => hloaded other hother (List.mem_cons_of_mem _ h)
          · exact List.mem_singleton.mp hother ▸ hnew
      · rintro ⟨tokens, htokens, rfl⟩
        obtain ⟨token, tokens, rfl⟩ := List.exists_cons_of_ne_nil
          (fun h : tokens = [] => by rw [h] at htokens; cases htokens)
        obtain ⟨rfl, rfl⟩ := List.cons.inj htokens
        refine ⟨token, decodeDataGym_eq_ok_iff.mpr rfl, ?_⟩
        have hfresh : token ∉ loaded := fun h => hloaded token h List.mem_cons_self
        rw [if_neg hfresh, ih hrestKeys]
        · exact ⟨tokens, rfl, by rw [List.append_assoc]; rfl⟩
        · intro other hother
          rcases List.mem_append.mp hother with hother | hother
          · exact fun h => hloaded other hother (List.mem_cons_of_mem _ h)
          · exact List.mem_singleton.mp hother ▸ hnew

theorem assertFound_eq_ok_iff {found : Bool} {message : String} {token : Bytes} :
    checkEncoder.assertFound found message token = .ok () ↔ found = true := by
  cases found with
  | false => exact ⟨nofun, nofun⟩
  | true => exact ⟨fun _ => rfl, fun _ => rfl⟩

/-- **The checks pass** if and only if the encoder file fits. -/
theorem checkEncoder_eq_ok_iff {encoder : EncoderJson} {ranks : BPETokenRanks} :
    checkEncoder encoder ranks = .ok () ↔ EncoderFits encoder ranks := by
  have hfind : ∀ token, (ranks.find? token).isSome ↔ token ∈ ranks.entries.map Prod.fst := by
    intro token
    rw [← not_iff_not, ← OrderedMap.find?_eq_none_iff, Option.not_isSome_iff_eq_none]
  rw [checkEncoder, checks_eq_ok]
  constructor
  · rintro ⟨loaded, hload, hrest⟩
    obtain ⟨tokens, htokens, hloaded⟩ := (loadEncoder_eq_ok_iff encoder.nodup
      (fun _ h => absurd h List.not_mem_nil)).mp hload
    rw [List.nil_append] at hloaded
    subst hloaded
    obtain ⟨⟨⟩, hkept, hranks⟩ := checks_eq_ok.mp hrest
    rw [forM_eq_ok] at hkept hranks
    refine ⟨loaded, htokens, fun token => ⟨fun htoken => ?_, fun htoken => ?_⟩⟩
    · have hmem := assertFound_eq_ok_iff.mp (hranks token ((hfind token).mp htoken))
      simpa using hmem
    · refine assertFound_eq_ok_iff.mp (hkept token ?_)
      simpa using htoken
  · rintro ⟨tokens, htokens, hfits⟩
    refine ⟨tokens, (loadEncoder_eq_ok_iff encoder.nodup
      (fun _ h => absurd h List.not_mem_nil)).mpr ⟨tokens, htokens, rfl⟩, ?_⟩
    refine checks_eq_ok.mpr ⟨(), forM_eq_ok.mpr fun token htoken => ?_,
      forM_eq_ok.mpr fun token htoken => ?_⟩
    · refine assertFound_eq_ok_iff.mpr ((hfits token).mpr ?_)
      simpa using htoken
    · have hmem := (hfits token).mp ((hfind token).mpr htoken)
      exact assertFound_eq_ok_iff.mpr (by simpa using hmem)

end Checks

/-! ### What a file is read as -/

section Reader

variable {header : { line : UnicodeString // '\n' ∉ line }} {merges : List (Part × Part)}

/-- The checks are made on the table of the merges, if all of them are read. -/
theorem gpt2DoFetch_eq (vocabBpe : Bytes) (encoder : EncoderJson) :
    gpt2DoFetch vocabBpe encoder .empty
      = (rankMerges (bpeMerges ((getLines vocabBpe).map fromUTF8)) 256 >>= fun _ =>
          Action.gets id >>= fun ranks => Action.ofExcept (checkEncoder encoder ranks))
        (rankBytes .empty) := by
  have hlength : (rankBytes .empty).entries.length = 256 := by
    rw [entries_rankBytes, List.length_map, List.length_zipIdx, length_rankToByte]
  refine (Action.bind_of_ok (Action.modify_apply rankBytes .empty)).trans ?_
  refine (Action.bind_of_ok (Action.gets_apply _ (rankBytes .empty))).trans ?_
  rw [hlength]

/-- Of a printed file the reader makes the table of the merges. -/
theorem gpt2DoFetch_printMerges (encoder : EncoderJson) :
    gpt2DoFetch (printMerges header merges) encoder .empty
      = (checkEncoder encoder (tableOf merges), tableOf merges) := by
  rw [gpt2DoFetch_eq, bpeMerges_printMerges]
  exact Action.bind_of_ok (rankMerges_mergeTexts merges 256 (rankBytes .empty))

/-- The merges of a file that are ranked: all of its lines with two parts, or those in front of one
that cannot be decoded.  No part of them is empty. -/
structure RanksMerges (vocabBpe : Bytes) (merges : List (Part × Part)) : Prop where
  front : merges.map mergeTexts <+: bpeMerges ((getLines vocabBpe).map fromUTF8)
  stop : ∀ merge, (bpeMerges ((getLines vocabBpe).map fromUTF8))[merges.length]? = some merge →
    ∀ first second, merge ≠ (encodeDataGym first, encodeDataGym second)

theorem ranksMerges_printMerges : RanksMerges (printMerges header merges) merges where
  front := by
    rw [bpeMerges_printMerges]
  stop := by
    intro merge hmerge
    rw [bpeMerges_printMerges, List.getElem?_eq_none (by rw [List.length_map])] at hmerge
    cases hmerge

/-- Of any file the reader makes the table of the merges that it ranks, also if it throws. -/
theorem gpt2DoFetch_ranked {vocabBpe : Bytes} (h : RanksMerges vocabBpe merges)
    (encoder : EncoderJson) : (gpt2DoFetch vocabBpe encoder .empty).2 = tableOf merges := by
  obtain ⟨rest, hrest⟩ := h.front
  rw [gpt2DoFetch_eq, ← hrest]
  have hloop := rankMerges_append merges rest 256 (rankBytes .empty)
  cases rest with
  | nil =>
      rw [Action.bind_of_ok hloop]
      rfl
  | cons merge rest =>
      have hstop := h.stop merge (by rw [← hrest, List.getElem?_append_right (by simp)]; simp)
      obtain ⟨e, herror⟩ := rankMerge_of_unreadable hstop (256 + merges.length) (tableOf merges)
      have herror : rankMerges (merge :: rest) (256 + merges.length) (tableOf merges)
          = (.error e, tableOf merges) := Action.bind_of_error herror
      rw [Action.bind_of_error (hloop.trans herror)]

/-- **A printed file.**  The reader makes the table with the bytes in front and the tokens in the
order of their merges, whatever the encoder file is; it throws if and only if this does not fit.
Each byte has its rank, and a longer token that of the last merge that makes it. -/
theorem printed_merges_are_read (header : { line : UnicodeString // '\n' ∉ line })
    (merges : List (Part × Part)) (encoder : EncoderJson) :
    (gpt2DoFetch (printMerges header merges) encoder .empty).2 = tableOf merges ∧
    ((gpt2DoFetch (printMerges header merges) encoder .empty).1 = .ok () ↔
      EncoderFits encoder (tableOf merges)) ∧
    (∀ b, (tableOf merges).find? [b] = some ((visibleBytes ++ hiddenBytes).idxOf b)) ∧
    ∀ token rank, (∀ b, token ≠ [b]) →
      ((tableOf merges).find? token = some rank ↔
        ∃ i, rank = 256 + i ∧ merges[i]?.map mergedToken = some token ∧
          ∀ j, i < j → merges[j]?.map mergedToken ≠ some token) := by
  rw [gpt2DoFetch_printMerges]
  exact ⟨rfl, checkEncoder_eq_ok_iff, find?_tableOf_singleton merges,
    fun token rank htoken => find?_tableOf htoken⟩

/-- The answers to one fetch after the other, each with what is in the files by then. -/
def answers : List (Bytes × EncoderJson) → Option BPETokenRanks → List (Except Exn BPETokenRanks)
  | [], _ => []
  | files :: later, cache =>
      (fetch (gpt2DoFetch files.1 files.2) cache).1
        :: answers later (fetch (gpt2DoFetch files.1 files.2) cache).2

/-- What is kept is given out, by induction over the fetches. -/
theorem answers_some (files : List (Bytes × EncoderJson)) (ranks : BPETokenRanks) :
    answers files (some ranks) = files.map fun _ => .ok ranks := by
  induction files with
  | nil => rfl
  | cons first later ih =>
      show .ok ranks :: answers later (some ranks) = _
      rw [ih, List.map_cons]

/-- Only the first fetch reads files, and it keeps a table even if it throws. -/
theorem answers_none (files : Bytes × EncoderJson) (later : List (Bytes × EncoderJson)) :
    answers (files :: later) none
      = ((gpt2DoFetch files.1 files.2 .empty).1.map fun _ =>
          (gpt2DoFetch files.1 files.2 .empty).2)
        :: later.map fun _ => .ok (gpt2DoFetch files.1 files.2 .empty).2 := by
  have hfetch : fetch (gpt2DoFetch files.1 files.2) none
      = ((gpt2DoFetch files.1 files.2 .empty).1.map fun _ =>
          (gpt2DoFetch files.1 files.2 .empty).2,
        some (gpt2DoFetch files.1 files.2 .empty).2) := by
    rw [fetch]
    rcases gpt2DoFetch files.1 files.2 .empty with ⟨⟨e⟩ | ⟨⟨⟩⟩, ranks⟩ <;> rfl
  rw [answers, hfetch, answers_some]

/-- The tokens of merges with distinct tokens come behind the bytes. -/
theorem entries_tableOf (h : (merges.map mergedToken).Nodup) :
    (tableOf merges).entries = ((visibleBytes ++ hiddenBytes).zipIdx.map fun e => ([e.1], e.2))
      ++ (merges.zipIdx 256).map fun e => (mergedToken e.1, e.2) := by
  have hfold : tableOf merges
      = ((merges.zipIdx 256).map fun e => (mergedToken e.1, e.2)).foldl
          (fun ranks e => ranks.set e.1 e.2) (rankBytes .empty) := by
    rw [tableOf, List.foldl_map]
  have htokens : ((merges.zipIdx 256).map fun e => (mergedToken e.1, e.2)).map Prod.fst
      = merges.map mergedToken := by
    have hmerges : (merges.zipIdx 256).map Prod.fst = merges := List.zipIdx_map_fst 256 merges
    rw [List.map_map]
    exact (List.map_map (g := mergedToken)).symm.trans (congrArg (List.map mergedToken) hmerges)
  rw [hfold, OrderedMap.entries_foldl_set, entries_rankBytes]
  rw [List.map_append, htokens]
  refine List.nodup_append.mpr ⟨(rankBytes .empty).nodup, h, fun token ht other ho heq => ?_⟩
  obtain ⟨e, he, rfl⟩ := List.mem_map.mp ht
  obtain ⟨merge, -, rfl⟩ := List.mem_map.mp ho
  rw [entries_rankBytes] at he
  obtain ⟨b, -, rfl⟩ := List.mem_map.mp he
  exact mergedToken_ne_singleton merge _ heq.symm

/-- Merges of distinct tokens are ranked in ascending order. -/
theorem tableOf_ascending (h : (merges.map mergedToken).Nodup) :
    ((tableOf merges).entries.map Prod.snd).Pairwise (· < ·) := by
  rw [entries_tableOf h, List.map_append, List.map_map, List.map_map,
    show Prod.snd ∘ (fun e : UInt8 × Nat => (([e.1], e.2) : Bytes × Nat)) = Prod.snd from rfl,
    show Prod.snd ∘ (fun e : (Part × Part) × Nat => (mergedToken e.1, e.2)) = Prod.snd from rfl,
    List.zipIdx_map_snd, List.zipIdx_map_snd, length_rankToByte]
  refine List.pairwise_append.mpr ⟨List.pairwise_lt_range', List.pairwise_lt_range',
    fun n hn m hm => ?_⟩
  rw [List.mem_range'_1] at hn hm
  omega

/-- The ranks of the bytes are below those of the tokens. -/
theorem byteRank_tableOf_lt (merges : List (Part × Part)) (b : UInt8) :
    byteRank (tableOf merges) b < 256 := by
  rw [byteRank, find?_tableOf_singleton, Option.getD_some, ← length_rankToByte]
  exact List.idxOf_lt_length_of_mem (mem_rankToByte b)

/-- **Main result.**  Whichever table a reader gives out, at its first fetch or later, when the
files can have changed, and whether its checks have passed or not: if the merges that it has
ranked make distinct tokens and a tokenizer can be made with it, this decodes what it encodes, for
every text. -/
theorem fetched_ranks_round_trip (order : ByteOrder)
    (findAll : UnicodeString → List UnicodeString) (htiles : ∀ text, (findAll text).flatten = text)
    (specialTokens : StringIDDict) (vocabBpe : Bytes) (merges : List (Part × Part))
    (hranked : RanksMerges vocabBpe merges) (hdistinct : (merges.map mergedToken).Nodup)
    (encoder : EncoderJson) (later : List (Bytes × EncoderJson)) (ranks : BPETokenRanks)
    (hranks : .ok ranks ∈ answers ((vocabBpe, encoder) :: later) none)
    (t : TiktokenTokenizer) (ht : fromTiktokenConfig order ⟨findAll, ranks, specialTokens⟩ = .ok t)
    (text : UnicodeString) :
    ∃ ids, t.encodeOrdinary text = .ok ids ∧ t.decode ids = .ok text := by
  have htable : ranks = tableOf merges := by
    rw [answers_none, gpt2DoFetch_ranked hranked] at hranks
    rcases List.mem_cons.mp hranks with hfirst | hlater
    · cases hfetch : (gpt2DoFetch vocabBpe encoder .empty).1 with
      | ok _ =>
          rw [hfetch] at hfirst
          exact Except.ok.inj hfirst
      | error e =>
          rw [hfetch] at hfirst
          cases hfirst
    · obtain ⟨_, -, heq⟩ := List.mem_map.mp hlater
      exact (Except.ok.inj heq).symm
  subst htable
  obtain ⟨pairs, hbuilt, rfl⟩ := built_of_fromTiktokenConfig (tableOf_ascending hdistinct) ht
  obtain ⟨ids, hids, hdecode⟩ := @decode_ordinary ⟨findAll, tableOf merges, specialTokens⟩
    pairs htiles hbuilt order text
  refine ⟨ids, hids, ?_⟩
  rw [hdecode]
  exact congrArg Except.ok (survives_of_lt hbuilt.injective hbuilt.bytes
    (byteRank_tableOf_lt merges) order text)

/-- Tokens of one byte are passed over. -/
theorem foldlM_recoverEntry_of_singles {ranks : BPETokenRanks} {entries : List (Bytes × Nat)}
    (h : ∀ e ∈ entries, e.1.length = 1) (pairs : BPERanks) :
    entries.foldlM (recoverEntry ranks) pairs = .ok pairs := by
  induction entries with
  | nil => rfl
  | cons e entries ih =>
      rw [List.foldlM_cons, recoverEntry, if_pos (h e List.mem_cons_self)]
      exact ih fun other hother => h other (List.mem_cons_of_mem _ hother)

/-- A longer token behind them. -/
theorem foldlM_recoverEntry_concat {ranks : BPETokenRanks} {entries : List (Bytes × Nat)}
    (h : ∀ e ∈ entries, e.1.length = 1) {e : Bytes × Nat} {pairs more : BPERanks}
    (hmore : recoverEntry ranks pairs e = .ok more) :
    (entries ++ [e]).foldlM (recoverEntry ranks) pairs = .ok more := by
  rw [List.foldlM_append, foldlM_recoverEntry_of_singles h]
  show (recoverEntry ranks pairs e >>= pure) = .ok more
  rw [hmore]
  rfl

/-- A token of two bytes is recovered from these. -/
theorem recoverEntry_pair {ranks : BPETokenRanks} {a b : UInt8} {rank i j : Nat}
    (h : ranks.find? [a, b] = some rank) (hlt : rank < INT32_MAX) (ha : ranks.find? [a] = some i)
    (hb : ranks.find? [b] = some j) (pairs : BPERanks) :
    recoverEntry ranks pairs ([a, b], rank) = .ok (pairs.insert (i, j) rank) := by
  have hmin : minRank ranks [[a], [b]] = some ((([a], [b]), 0), rank) := by
    show lesser (fun e => ranks.find? (e.1.1 ++ e.1.2)) none (([a], [b]), 0) = _
    simp [lesser, h, hlt]
  have hbpe : bpe ranks [a, b] rank = .ok [[a], [b]] := by
    rw [bpe, if_neg (List.cons_ne_nil a [b])]
    show Except.ok (bpeLoop ranks rank 2 [[a], [b]]) = _
    rw [bpeLoop, hmin]
    simp
  have hrank : ∀ {token r}, ranks.find? token = some r → rankAt ranks token = .ok r := by
    intro token r hfind
    rw [rankAt, hfind]
  have hpair : recoverPair ranks [a, b] rank = .ok (i, j) := by
    rw [recoverPair, hbpe]
    show (rankAt ranks [a] >>= fun id0 => rankAt ranks [b] >>= fun id1 => pure (id0, id1)) = _
    rw [hrank ha, hrank hb]
    rfl
  rw [recoverEntry, if_neg (by simp), hpair]
  rfl

/-- A merge of two bytes. -/
def twoBytes (a b : UInt8) : Part × Part :=
  (⟨[a], List.cons_ne_nil a []⟩, ⟨[b], List.cons_ne_nil b []⟩)

theorem recover_twoBytes (a b : UInt8) :
    ∃ pairs, recoverBytePairBpeRanks (tableOf [twoBytes a b]) = .ok pairs := by
  have hrank : (tableOf [twoBytes a b]).find? [a, b] = some 256 := by
    refine (find?_tableOf fun c h => by cases h).mpr ⟨0, rfl, rfl, fun j hj h => ?_⟩
    rw [List.getElem?_eq_none (by rw [List.length_singleton]; omega)] at h
    cases h
  have hdistinct : ([twoBytes a b].map mergedToken).Nodup := List.nodup_singleton _
  have hlast := recoverEntry_pair hrank (by decide) (find?_tableOf_singleton _ a)
    (find?_tableOf_singleton _ b) .empty
  refine ⟨OrderedMap.insert .empty ((visibleBytes ++ hiddenBytes).idxOf a,
    (visibleBytes ++ hiddenBytes).idxOf b) 256, ?_⟩
  rw [recoverBytePairBpeRanks, entries_tableOf hdistinct]
  refine foldlM_recoverEntry_concat (fun e he => ?_) hlast
  obtain ⟨b, -, rfl⟩ := List.mem_map.mp he
  rfl

/-- A file with one merge, which the second fetch gives out though no encoder file fits. -/
theorem fetched_ranks_round_trip_unchecked :
    ∃ t, fromTiktokenConfig ascendingBytes ⟨wholeText, tableOf [twoBytes 104 101], .empty⟩ = .ok t ∧
      ∃ ids, t.encodeOrdinary "hehe!".toList = .ok ids ∧ t.decode ids = .ok "hehe!".toList := by
  obtain ⟨pairs, hpairs⟩ := recover_twoBytes 104 101
  have hbytes : ∀ b, (tableOf [twoBytes 104 101]).find? [b]
      = some (byteRank (tableOf [twoBytes 104 101]) b) := by
    intro b
    rw [byteRank, find?_tableOf_singleton, Option.getD_some]
  have ht := @fromTiktokenConfig_of ascendingBytes
    ⟨wholeText, tableOf [twoBytes 104 101], .empty⟩ pairs hpairs hbytes
  refine ⟨_, ht, fetched_ranks_round_trip ascendingBytes wholeText flatten_wholeText .empty
    (printMerges ⟨"#version".toList, by decide⟩ [twoBytes 104 101]) [twoBytes 104 101]
    ranksMerges_printMerges (List.nodup_singleton _) .empty [([], .empty)] _ ?_ _ ht _⟩
  rw [answers_none, gpt2DoFetch_printMerges]
  exact List.mem_cons_of_mem _ List.mem_cons_self

end Reader

end Instinct.Tokenizers
