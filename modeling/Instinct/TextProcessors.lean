/-
Instinct/TextProcessors.lean

`Processor` and `bge::Tokenizer`: texts to ids and back.

A text is brought into a normal form (`preprocess_normalizes`), cut at added tokens and segmented
in between (`encode_pieces`).  With a vocabulary that covers it, it is encoded to words
(`loaded_reads`), up to the positions of the model; what is ranked has no bound
(`encodeQa_unbounded`).
-/
import Instinct.PrintedModels
import Instinct.Splitting
import Mathlib.Data.List.Chain

namespace Instinct.Transformers

open Effects Layouts LongestPaths OrderedMaps Splitting

open UnigramTokenizers (UnigramTokenizer UnigramProcessor symbolsOf piece)

/-! ### Preprocessors -/

/-- `regex_replace` with a blank, of each run of so many letters of a class. -/
def replaceRuns (letter : UInt8 → Bool) (least : Nat) : Bytes → Bytes → Bytes
  | run, [] => flush run
  | run, b :: text =>
      if letter b then replaceRuns letter least (run ++ [b]) text
      else flush run ++ b :: replaceRuns letter least [] text
where
  flush (run : Bytes) : Bytes := if run ≠ [] ∧ least ≤ run.length then [0x20] else run

def isNewline (b : UInt8) : Bool := b = 0x0d || b = 0x0a

def isBlank (b : UInt8) : Bool := b = 0x20

/-- `TextPrepNewlineToSpaces`. -/
def newlineToSpaces (s : Bytes) : Bytes := replaceRuns isNewline 1 [] s

/-- `TextPrepDeleteMultiSpaces`. -/
def deleteMultiSpaces (s : Bytes) : Bytes := replaceRuns isBlank 2 [] s

/-- `TextPrepAddLeadingSpace`. -/
def addLeadingSpace : Bytes → Bytes
  | [] => [0x20]
  | b :: s => if b = 0x20 then b :: s else 0x20 :: b :: s

/-- The preprocessors of a `bge::Tokenizer`, in their order. -/
def bgePreprocessors : List (Bytes → Bytes) :=
  [newlineToSpaces, deleteMultiSpaces, addLeadingSpace]

/-- A text goes through all preprocessors. -/
def preprocess (pp : List (Bytes → Bytes)) (input : Bytes) : Bytes :=
  pp.foldl (fun s transform => transform s) input

/-- Not two blanks side by side. -/
def Single (a b : UInt8) : Prop := ¬ (a = 0x20 ∧ b = 0x20)

/-- A text with a blank in front, only single blanks and no ends of lines. -/
structure Normal (s : Bytes) : Prop where
  leading : s.head? = some 0x20
  single : s.IsChain Single
  lines : ∀ b ∈ s, isNewline b = false

section Preprocess

variable {s : Bytes}

/-- Letters of other classes stay. -/
theorem replaceRuns_of_none {letter : UInt8 → Bool} (least : Nat)
    (h : ∀ b ∈ s, letter b = false) : replaceRuns letter least [] s = s := by
  induction s with
  | nil => rfl
  | cons b s ih =>
      obtain ⟨hb, hs⟩ := List.forall_mem_cons.mp h
      rw [replaceRuns, hb, if_neg Bool.false_ne_true, ih hs]
      rfl

/-- No end of a line is left, whatever run is open. -/
theorem newlines_replaceRuns (run : Bytes) (hrun : ∀ b ∈ run, isNewline b = true) :
    ∀ b ∈ replaceRuns isNewline 1 run s, isNewline b = false := by
  have hflush : ∀ {run : Bytes}, ∀ b ∈ replaceRuns.flush 1 run, isNewline b = false := by
    intro run b hb
    rw [replaceRuns.flush] at hb
    split at hb
    · rw [List.mem_singleton.mp hb]
      rfl
    · next hnot =>
        have hnil : run = [] := by
          by_contra hne
          exact hnot ⟨hne, List.length_pos_iff.mpr hne⟩
        rw [hnil] at hb
        cases hb
  induction s generalizing run with
  | nil => exact hflush
  | cons b s ih =>
      rw [replaceRuns]
      split
      · next hb =>
          refine ih _ fun c hc => ?_
          rcases List.mem_append.mp hc with hc | hc
          · exact hrun c hc
          · rwa [List.mem_singleton.mp hc]
      · next hb =>
          intro c hc
          rcases List.mem_append.mp hc with hc | hc
          · exact hflush c hc
          · rcases List.mem_cons.mp hc with rfl | hc
            · exact Bool.eq_false_iff.mpr hb
            · exact ih [] (fun _ h => absurd h List.not_mem_nil) c hc

theorem single_of_ne {a b : UInt8} (h : isBlank a = false) : Single a b := by
  rintro ⟨rfl, -⟩
  cases h

/-- An open run of blanks becomes one. -/
theorem flush_blanks {run : Bytes} (hrun : ∀ b ∈ run, b = 0x20) :
    replaceRuns.flush 2 run = if run = [] then [] else [0x20] := by
  rw [replaceRuns.flush]
  rcases run with - | ⟨b, - | ⟨c, run⟩⟩
  · rfl
  · rw [hrun b List.mem_cons_self]
    rfl
  · simp

/-- No two blanks stand side by side, whatever run is open. -/
theorem single_replaceRuns (run : Bytes) (hrun : ∀ b ∈ run, b = 0x20) :
    (replaceRuns isBlank 2 run s).IsChain Single := by
  induction s generalizing run with
  | nil =>
      rw [replaceRuns, flush_blanks hrun]
      split
      · exact .nil
      · exact .singleton _
  | cons b s ih =>
      rw [replaceRuns]
      split
      · next hb =>
          refine ih _ fun c hc => ?_
          rcases List.mem_append.mp hc with hc | hc
          · exact hrun c hc
          · rw [List.mem_singleton.mp hc]
            exact of_decide_eq_true hb
      · next hb =>
          have hplain : isBlank b = false := Bool.eq_false_iff.mpr hb
          have hrest : (b :: replaceRuns isBlank 2 [] s).IsChain Single :=
            List.isChain_cons.mpr ⟨fun c _ => single_of_ne hplain,
              ih [] fun _ h => absurd h List.not_mem_nil⟩
          rw [flush_blanks hrun]
          split
          · exact hrest
          · refine List.isChain_cons.mpr ⟨fun c hc => ?_, hrest⟩
            obtain rfl := Option.some.inj hc
            rintro ⟨-, rfl⟩
            cases hplain

/-- A text with single blanks stays. -/
theorem replaceRuns_of_single {run : Bytes} (hrun : run = [] ∨ run = [0x20])
    (h : (run ++ s).IsChain Single) : replaceRuns isBlank 2 run s = run ++ s := by
  induction s generalizing run with
  | nil =>
      rw [replaceRuns, List.append_nil]
      rcases hrun with rfl | rfl <;> rfl
  | cons b s ih =>
      rw [replaceRuns]
      split
      · next hb =>
          have hblank : b = 0x20 := of_decide_eq_true hb
          rcases hrun with rfl | rfl
          · subst hblank
            exact ih (.inr rfl) h
          · exact absurd ⟨rfl, hblank⟩ (List.isChain_cons_cons.mp h).1
      · have hs : ([] ++ s).IsChain Single := by
          exact List.IsChain.suffix h ((List.suffix_cons b s).trans (List.suffix_append run _))
        rw [ih (.inl rfl) hs]
        rcases hrun with rfl | rfl <;> rfl

/-- A class of letters that no run is made of stays. -/
theorem filter_replaceRuns {letter keep : UInt8 → Bool} {least : Nat}
    (hletter : ∀ b, letter b = true → keep b = false) (hblank : keep 0x20 = false) (run : Bytes)
    (hrun : ∀ b ∈ run, letter b = true) :
    (replaceRuns letter least run s).filter keep = s.filter keep := by
  have hflush : ∀ {run : Bytes}, (∀ b ∈ run, letter b = true) →
      (replaceRuns.flush least run).filter keep = [] := by
    intro run hrun
    rw [replaceRuns.flush]
    split
    · rw [List.filter_cons_of_neg (by rw [hblank]; exact Bool.false_ne_true), List.filter_nil]
    · exact List.filter_eq_nil_iff.mpr fun b hb => by
        rw [hletter b (hrun b hb)]
        exact Bool.false_ne_true
  induction s generalizing run with
  | nil => exact hflush hrun
  | cons b s ih =>
      rw [replaceRuns]
      split
      · next hb =>
          rw [ih, List.filter_cons_of_neg (by rw [hletter b hb]; exact Bool.false_ne_true)]
          intro c hc
          rcases List.mem_append.mp hc with hc | hc
          · exact hrun c hc
          · rwa [List.mem_singleton.mp hc]
      · rw [List.filter_append, hflush hrun, List.nil_append, List.filter_cons, List.filter_cons,
          ih [] fun _ h => absurd h List.not_mem_nil]

/-- What is in a text apart from blanks and ends of lines. -/
def isText (b : UInt8) : Bool := !isBlank b && !isNewline b

/-- The other letters of a text stay. -/
theorem filter_preprocess (s : Bytes) :
    (preprocess bgePreprocessors s).filter isText = s.filter isText := by
  have hnil : ∀ {p : UInt8 → Prop}, ∀ b ∈ ([] : Bytes), p b := fun _ h => absurd h List.not_mem_nil
  have hleading : ∀ text : Bytes, (addLeadingSpace text).filter isText = text.filter isText := by
    intro text
    rcases text with - | ⟨b, text⟩
    · rfl
    · rw [addLeadingSpace]
      split <;> rfl
  show (addLeadingSpace (deleteMultiSpaces (newlineToSpaces s))).filter isText = _
  rw [hleading, deleteMultiSpaces, filter_replaceRuns _ rfl [] hnil, newlineToSpaces,
    filter_replaceRuns _ rfl [] hnil]
  · intro b hb
    rw [isText, hb, Bool.not_true, Bool.and_false]
  · intro b hb
    rw [isText, hb, Bool.not_true, Bool.false_and]

/-- **The normal form of a text.**  What comes out of the preprocessors has a blank in front, only
single blanks, no ends of lines, and the other letters of the text; and a text that is so stays. -/
theorem preprocess_normalizes (s : Bytes) :
    Normal (preprocess bgePreprocessors s) ∧
      (preprocess bgePreprocessors s).filter isText = s.filter isText ∧
      (preprocess bgePreprocessors s = s ↔ Normal s) := by
  have hprep : preprocess bgePreprocessors s
      = addLeadingSpace (deleteMultiSpaces (newlineToSpaces s)) := rfl
  have hnil : ∀ {p : UInt8 → Prop}, ∀ b ∈ ([] : Bytes), p b := fun _ h => absurd h List.not_mem_nil
  have hnormal : Normal (preprocess bgePreprocessors s) := by
    have hsingle : (deleteMultiSpaces (newlineToSpaces s)).IsChain Single :=
      single_replaceRuns [] hnil
    have hlines : ∀ b ∈ deleteMultiSpaces (newlineToSpaces s), isNewline b = false := by
      have hkept : (deleteMultiSpaces (newlineToSpaces s)).filter isNewline
          = (newlineToSpaces s).filter isNewline :=
        filter_replaceRuns (fun b hb => by rw [of_decide_eq_true hb]; rfl) rfl [] hnil
      have hnone : (newlineToSpaces s).filter isNewline = [] :=
        List.filter_eq_nil_iff.mpr fun b hb =>
          Bool.eq_false_iff.mp (newlines_replaceRuns [] hnil b hb)
      rw [hnone] at hkept
      exact fun b hb => Bool.eq_false_iff.mpr (List.filter_eq_nil_iff.mp hkept b hb)
    rw [hprep]
    generalize deleteMultiSpaces (newlineToSpaces s) = text at hsingle hlines ⊢
    rcases text with - | ⟨b, text⟩
    · exact ⟨rfl, .singleton _, List.forall_mem_singleton.mpr rfl⟩
    · rw [addLeadingSpace]
      split
      · next hb => exact ⟨congrArg some hb, hsingle, hlines⟩
      · next hb =>
          exact ⟨rfl, List.isChain_cons_cons.mpr ⟨fun h => hb h.2, hsingle⟩,
            List.forall_mem_cons.mpr ⟨rfl, hlines⟩⟩
  refine ⟨hnormal, filter_preprocess s, fun h => h ▸ hnormal, fun h => ?_⟩
  have hnewlines : newlineToSpaces s = s := replaceRuns_of_none 1 h.lines
  have hspaces : deleteMultiSpaces s = s := replaceRuns_of_single (.inl rfl) h.single
  rw [hprep, hnewlines, hspaces]
  rcases s with - | ⟨b, s⟩
  · cases h.leading
  · exact if_pos (Option.some.inj h.leading)

end Preprocess

/-! ### Pieces of a text -/

section Pieces

variable {p : UnigramProcessor} {text : Bytes}

/-- A piece is a token with its id. -/
def IsToken (p : UnigramProcessor) (part : Bytes × Nat) : Prop :=
  p.vocab.idToToken[part.2]?.map UnigramTokenizers.TokenScore.tok = some part.1

/-- Where a piece ends, there is a token or one unknown symbol, whatever the scores are. -/
def Ends (p : UnigramProcessor) (text : Bytes) (i pos id : Nat) : Prop :=
  p.tokenizer.TokenEnds (symbolsOf text) i pos id ∨
    (i + 1 = pos ∧ pos ≤ (symbolsOf text).length ∧ id = p.unkTokId)

theorem Ends.lt {i pos id : Nat} (h : Ends p text i pos id) :
    i < pos ∧ pos ≤ (symbolsOf text).length := by
  rcases h with h | ⟨rfl, hle, -⟩
  · exact ⟨h.lt, h.le⟩
  · exact ⟨Nat.lt_succ_self i, hle⟩

theorem findBest_ends {trace : List UnigramTokenizers.Best} {pos : Nat} (hpos : 0 < pos)
    (hle : pos ≤ (symbolsOf text).length) :
    Ends p text (p.tokenizer.findBest (symbolsOf text) trace pos).prev pos
      (p.tokenizer.findBest (symbolsOf text) trace pos).label := by
  rw [UnigramTokenizer.findBest]
  split
  · next b hb =>
      obtain ⟨hmem, hfind, -⟩ := (UnigramTokenizers.consider_spec _).2 b hb
      obtain ⟨id, hends⟩ := (UnigramTokenizers.mem_starts hle).mp ⟨hmem, b.label, hfind⟩
      exact .inl ⟨hends.lt, hends.le, hends.short, (p.vocab.find?_tokenToId).mp hfind⟩
  · exact .inr ⟨Nat.sub_add_cancel hpos, hle, rfl⟩

/-- All positions are traced, by induction along them. -/
theorem traceTo_ends {n : Nat} (hn : n ≤ (symbolsOf text).length) :
    (p.tokenizer.traceTo (symbolsOf text) n).length = n + 1 ∧
      ∀ pos, 0 < pos → pos ≤ n →
        Ends p text (UnigramTokenizers.best (p.tokenizer.traceTo (symbolsOf text) n) pos).prev pos
          (UnigramTokenizers.best (p.tokenizer.traceTo (symbolsOf text) n) pos).label := by
  induction n with
  | zero => exact ⟨rfl, fun pos hpos hle => absurd hpos (Nat.not_lt.mpr hle)⟩
  | succ n ih =>
      obtain ⟨hlength, hends⟩ := ih (Nat.le_of_succ_le hn)
      rw [UnigramTokenizer.traceTo]
      refine ⟨by rw [List.length_append, hlength, List.length_singleton], fun pos hpos hle => ?_⟩
      by_cases hlast : pos = n + 1
      · subst hlast
        rw [← hlength, UnigramTokenizers.best_append_length, hlength]
        exact findBest_ends hpos hn
      · rw [UnigramTokenizers.best_append_of_lt (by omega)]
        exact hends pos hpos (by omega)

/-- The pieces of a path make up the text in front of its end, by induction along it. -/
theorem pieces_of_path {edge : Nat → Nat → Nat → Prop} {pos : Nat} {ids : List Nat}
    (hlt : ∀ i pos id, edge i pos id → i < pos) (h : Path edge pos ids) :
    ∃ parts : List (Bytes × Nat), parts.map Prod.snd = ids ∧
      (parts.map Prod.fst).flatten = ((symbolsOf text).take pos).flatten ∧
      ∀ part ∈ parts, ∃ i pos, edge i pos part.2 ∧ part.1 = piece (symbolsOf text) i pos := by
  induction h with
  | nil => exact ⟨[], rfl, by rw [List.take_zero]; rfl, fun _ h => absurd h List.not_mem_nil⟩
  | @snoc i pos ids id _ hedge ih =>
      obtain ⟨parts, hids, hflatten, hparts⟩ := ih
      refine ⟨parts ++ [(piece (symbolsOf text) i pos, id)], ?_, ?_, fun part hpart => ?_⟩
      · rw [List.map_append, hids]
        rfl
      · have hle : i ≤ pos := Nat.le_of_lt (hlt _ _ _ hedge)
        rw [List.map_append, List.flatten_append, hflatten, List.map_singleton,
          List.flatten_singleton, piece, ← List.flatten_append]
        refine congrArg List.flatten ?_
        conv_rhs => rw [← List.take_append_drop i ((symbolsOf text).take pos), List.take_take,
          Nat.min_eq_left hle]
      · rcases List.mem_append.mp hpart with hpart | hpart
        · exact hparts part hpart
        · rw [List.mem_singleton.mp hpart]
          exact ⟨i, pos, hedge, rfl⟩

/-- A piece of one symbol. -/
theorem piece_succ {i : Nat} (hlt : i < (symbolsOf text).length) :
    piece (symbolsOf text) i (i + 1) = (symbolsOf text)[i] := by
  rw [piece, List.drop_take, Nat.add_sub_cancel_left, List.take_one, List.head?_drop,
    List.getElem?_eq_getElem hlt]
  exact List.append_nil _

/-- **A text is encoded to the ids of its pieces**: tokens, and symbols that are unknown. -/
theorem doEncode_pieces (p : UnigramProcessor) (text : Bytes) :
    ∃ parts : List (Bytes × Nat), p.doEncode text = some (parts.map Prod.snd) ∧
      (parts.map Prod.fst).flatten = text ∧
      ∀ part ∈ parts, IsToken p part ∨ (part.1 ∈ symbolsOf text ∧ part.2 = p.unkTokId) := by
  obtain ⟨hlength, hends⟩ := @traceTo_ends p text _ (Nat.le_refl _)
  obtain ⟨ls, hroute, hpath⟩ := @exists_route _ _ (Ends p text) _ _ _ (fun i pos id h => h.lt.1)
    hends (Nat.le_refl _) _ (Nat.lt_succ_self _)
  obtain ⟨parts, hids, hflatten, hparts⟩ :=
    @pieces_of_path text (Ends p text) _ _ (fun i pos id h => h.lt.1) hpath
  rw [List.take_length, UnigramTokenizers.flatten_symbolsOf] at hflatten
  refine ⟨parts, ?_, hflatten, fun part hpart => ?_⟩
  · rw [UnigramProcessor.doEncode, UnigramTokenizer.tokenize]
    simp only [hlength, Nat.add_sub_cancel, hroute, Option.map_some, hids]
  · obtain ⟨i, pos, hedge, hpiece⟩ := hparts part hpart
    rcases hedge with hedge | ⟨rfl, hle, hunk⟩
    · refine .inl ?_
      rw [IsToken, hpiece]
      exact hedge.token
    · rw [hpiece, piece_succ hle]
      exact .inr ⟨List.getElem_mem hle, hunk⟩

/-- Every symbol of the text is a token. -/
def Covered (p : UnigramProcessor) (text : Bytes) : Prop :=
  ∀ symbol ∈ symbolsOf text, ∃ id, IsToken p (symbol, id)

/-- **No symbol is unknown** if all of them are tokens, and no sum of scores is too low. -/
theorem doEncode_tokens (hcovered : Covered p text)
    (habove : UnigramTokenizers.ScoredAbove p.tokenizer (symbolsOf text)) :
    ∃ parts : List (Bytes × Nat), p.doEncode text = some (parts.map Prod.snd) ∧
      (parts.map Prod.fst).flatten = text ∧ ∀ part ∈ parts, IsToken p part := by
  obtain ⟨hlength, hzero, hsettled⟩ := UnigramTokenizers.traceTo_spec habove (Nat.le_refl _)
  obtain ⟨ls, hroute, hlongest, -⟩ := isLongest_of_settles (fun i pos id h => h.lt) hzero
    hsettled (Nat.le_refl _) (Nat.lt_succ_self _)
  obtain ⟨parts, hids, hflatten, hparts⟩ :=
    @pieces_of_path text _ _ _ (fun i pos id h => h.lt) hlongest.path
  rw [List.take_length, UnigramTokenizers.flatten_symbolsOf] at hflatten
  refine ⟨parts, ?_, hflatten, fun part hpart => ?_⟩
  · rw [UnigramProcessor.doEncode, UnigramTokenizer.tokenize]
    simp only [hlength, Nat.add_sub_cancel, hroute, Option.map_some, hids]
  · obtain ⟨i, pos, hedge, hpiece⟩ := hparts part hpart
    rcases hedge with hedge | ⟨rfl, hle, -, hnone⟩
    · rw [IsToken, hpiece]
      exact hedge.token
    · -- the symbol is a token, which ends there
      obtain ⟨id, hid⟩ := hcovered _ (List.getElem_mem hle)
      refine absurd ((UnigramTokenizers.tokenEnds_iff p text).mpr
        ⟨Nat.lt_succ_self i, hle, ?_⟩) (hnone i id)
      rw [piece_succ hle]
      exact hid

end Pieces

/-! ### Processors -/

/-- `Processor`, over its tokenizer. -/
structure Processor where
  unigram : UnigramProcessor
  pp : List (Bytes → Bytes) := []
  tokenUnkId : Bytes := ascii "<?>"
  tokenOverride : OrderedMap Int Bytes := .empty
  addedTokens : List (Bytes × Int) := []

/-- `DoEncode`. -/
def Processor.doEncode (p : Processor) (input : Bytes) : Option (List Int) :=
  (p.unigram.doEncode input).map fun ids => ids.map Int.ofNat

/-- `IdToPiece`. -/
def Processor.idToPiece (p : Processor) (id : Int) : Bytes :=
  match p.tokenOverride.find? id with
  | some tok => tok
  | none =>
      if id < 0 then p.tokenUnkId
      else (p.unigram.vocab.idToToken[id.toNat]?.map UnigramTokenizers.TokenScore.tok).getD
        p.tokenUnkId

/-- `find`, with the text in front of the token and behind it.  An empty token is found at once. -/
def findToken (tok s : Bytes) : Option (Bytes × Bytes) :=
  if tok = [] then some ([], s) else cut tok s

/-- A round of the loop over the added tokens. -/
def nearer (s : Bytes) (found : Option (Bytes × Int × Bytes)) (tok : Bytes × Int) :
    Option (Bytes × Int × Bytes) :=
  match findToken tok.1 s with
  | none => found
  | some (part, rest) =>
      match found with
      | none => some (part, tok.2, rest)
      | some best =>
          if part.length < best.1.length then some (part, tok.2, rest) else some best

/-- The loop of `Encode`, with fuel for each added token.  The result is missing if it does not
end. -/
def Processor.encodeFrom (p : Processor) : Nat → Bytes → Option (List Int)
  | 0, _ => none
  | fuel + 1, s =>
      match p.addedTokens.foldl (nearer s) none with
      | none => p.doEncode s
      | some (part, id, rest) => do
          let ids ← p.doEncode part
          let more ← p.encodeFrom fuel rest
          some (ids ++ id :: more)

/-- `Encode`. -/
def Processor.encode (p : Processor) (input : Bytes) : Option (List Int) :=
  p.encodeFrom ((preprocess p.pp input).length + 1) (preprocess p.pp input)

/-- `Decode`. -/
def Processor.decode (p : Processor) (ids : List Int) : Bytes := ids.flatMap p.idToPiece

section Encode

variable {p : Processor} {s : Bytes}

/-- A piece with its id: a token, one symbol that is unknown or an added token. -/
def Processor.IsPart (p : Processor) (part : Bytes × Int) : Prop :=
  (∃ id : Nat, part.2 = id ∧ IsToken p.unigram (part.1, id)) ∨
    (symbolsOf part.1 = [part.1] ∧ part.2 = p.unigram.unkTokId) ∨ part ∈ p.addedTokens

theorem doEncode_parts (p : Processor) (s : Bytes) :
    ∃ parts : List (Bytes × Int), p.doEncode s = some (parts.map Prod.snd) ∧
      (parts.map Prod.fst).flatten = s ∧ ∀ part ∈ parts, p.IsPart part := by
  obtain ⟨parts, hids, hflatten, hparts⟩ := doEncode_pieces p.unigram s
  refine ⟨parts.map fun part => (part.1, Int.ofNat part.2), ?_, ?_, fun part hpart => ?_⟩
  · rw [Processor.doEncode, hids, Option.map_some, List.map_map, List.map_map]
    rfl
  · rw [List.map_map]
    exact hflatten
  · obtain ⟨part, hmem, rfl⟩ := List.mem_map.mp hpart
    rcases hparts part hmem with htoken | ⟨hsymbol, hunk⟩
    · exact .inl ⟨part.2, rfl, htoken⟩
    · exact .inr (.inl ⟨UnigramTokenizers.symbolsOf_of_mem hsymbol, congrArg Int.ofNat hunk⟩)

/-- What the loop over the added tokens finds is an added token, with the text around it. -/
theorem of_nearer {tokens : List (Bytes × Int)} {part rest : Bytes} {id : Int}
    (h : tokens.foldl (nearer s) none = some (part, id, rest)) :
    ∃ tok, (tok, id) ∈ tokens ∧ s = part ++ (tok ++ rest) := by
  induction tokens using List.reverseRecOn generalizing part id rest with
  | nil => cases h
  | append_singleton tokens tok ih =>
      rw [List.foldl_append, List.foldl_cons, List.foldl_nil] at h
      have hold : tokens.foldl (nearer s) none = some (part, id, rest) →
          ∃ found, (found, id) ∈ tokens ++ [tok] ∧ s = part ++ (found ++ rest) := fun h => by
        obtain ⟨found, hmem, hs⟩ := ih h
        exact ⟨found, List.mem_append_left _ hmem, hs⟩
      have hnew : ∀ {part rest}, findToken tok.1 s = some (part, rest) →
          ∃ found, (found, tok.2) ∈ tokens ++ [tok] ∧ s = part ++ (found ++ rest) := by
        intro part rest hfind
        refine ⟨tok.1, List.mem_append_right _ (List.mem_singleton.mpr rfl), ?_⟩
        rw [findToken] at hfind
        split at hfind
        · next hnil =>
            obtain ⟨rfl, rfl⟩ := Prod.mk.inj (Option.some.inj hfind)
            rw [hnil]
            rfl
        · exact append_of_cut hfind
      generalize tokens.foldl (nearer s) none = found at h hold
      rw [nearer] at h
      split at h
      · exact hold h
      · next hfind =>
          have htok : ∀ {part' rest'}, some (part', tok.2, rest') = some (part, id, rest) →
              findToken tok.1 s = some (part', rest') →
              ∃ found, (found, id) ∈ tokens ++ [tok] ∧ s = part ++ (found ++ rest) := by
            rintro part' rest' heq hfind
            obtain ⟨rfl, hrest⟩ := Prod.mk.inj (Option.some.inj heq)
            obtain ⟨rfl, rfl⟩ := Prod.mk.inj hrest
            exact hnew hfind
          split at h
          · exact htok h hfind
          · split at h
            · exact htok h hfind
            · exact hold h

/-- The loop is through each added token, and is over behind the last one. -/
theorem encodeFrom_parts (hne : ∀ tok ∈ p.addedTokens, tok.1 ≠ []) {fuel : Nat}
    (hfuel : s.length < fuel) :
    ∃ parts : List (Bytes × Int), p.encodeFrom fuel s = some (parts.map Prod.snd) ∧
      (parts.map Prod.fst).flatten = s ∧ ∀ part ∈ parts, p.IsPart part := by
  induction fuel generalizing s with
  | zero => exact absurd hfuel (Nat.not_lt_zero _)
  | succ fuel ih =>
      rw [Processor.encodeFrom]
      split
      · exact doEncode_parts p s
      · next part id rest hfound =>
          obtain ⟨tok, hmem, rfl⟩ := of_nearer hfound
          have hpos : 0 < tok.length := List.length_pos_iff.mpr (hne _ hmem)
          rw [List.length_append, List.length_append] at hfuel
          obtain ⟨first, hfirst, hpart, hfirstParts⟩ := doEncode_parts p part
          obtain ⟨more, hmore, hrest, hmoreParts⟩ := @ih rest (by omega)
          refine ⟨first ++ (tok, id) :: more, ?_, ?_, fun other hother => ?_⟩
          · rw [hfirst, hmore, List.map_append, List.map_cons]
            rfl
          · rw [List.map_append, List.map_cons, List.flatten_append, List.flatten_cons, hpart,
              hrest]
          · rcases List.mem_append.mp hother with hother | hother
            · exact hfirstParts other hother
            · rcases List.mem_cons.mp hother with rfl | hother
              · exact .inr (.inr hmem)
              · exact hmoreParts other hother

/-- An empty added token is found in every text. -/
theorem isSome_foldl_nearer {tokens : List (Bytes × Int)} {id : Int} (h : ([], id) ∈ tokens) :
    (tokens.foldl (nearer s) none).isSome := by
  induction tokens using List.reverseRecOn with
  | nil => exact absurd h List.not_mem_nil
  | append_singleton tokens tok ih =>
      rw [List.foldl_append, List.foldl_cons, List.foldl_nil]
      generalize tokens.foldl (nearer s) none = found at ih ⊢
      rw [nearer]
      split
      · next hnone =>
          rcases List.mem_append.mp h with hmem | hmem
          · exact ih hmem
          · rw [← List.mem_singleton.mp hmem] at hnone
            cases hnone
      · split
        · rfl
        · split <;> rfl

/-- So the loop does not end. -/
theorem encodeFrom_of_empty {id : Int} (h : ([], id) ∈ p.addedTokens) (fuel : Nat) :
    p.encodeFrom fuel s = none := by
  induction fuel generalizing s with
  | zero => rfl
  | succ fuel ih =>
      rw [Processor.encodeFrom]
      split
      · next hnone =>
          have hsome := @isSome_foldl_nearer s p.addedTokens id h
          rw [hnone] at hsome
          cases hsome
      · rw [ih]
        cases p.doEncode _ <;> rfl

/-- **A text is encoded if and only if no added token is empty**; otherwise the loop does not end
for any text.  The ids are those of pieces that make up the text, as the preprocessors leave it. -/
theorem encode_pieces (p : Processor) (input : Bytes) :
    ((p.encode input).isSome ↔ ∀ tok ∈ p.addedTokens, tok.1 ≠ []) ∧
      ∀ ids, p.encode input = some ids → ∃ parts : List (Bytes × Int),
        parts.map Prod.snd = ids ∧ (parts.map Prod.fst).flatten = preprocess p.pp input ∧
        ∀ part ∈ parts, p.IsPart part := by
  by_cases hne : ∀ tok ∈ p.addedTokens, tok.1 ≠ []
  · obtain ⟨parts, hids, hflatten, hparts⟩ :=
      @encodeFrom_parts p (preprocess p.pp input) hne _ (Nat.lt_succ_self _)
    have hencode : p.encode input = some (parts.map Prod.snd) := hids
    rw [hencode]
    refine ⟨iff_of_true rfl hne, fun ids h => ⟨parts, Option.some.inj h, hflatten, hparts⟩⟩
  · obtain ⟨⟨tok, id⟩, hmem, rfl⟩ : ∃ tok ∈ p.addedTokens, tok.1 = [] := by
      simpa using hne
    have hencode : p.encode input = none := encodeFrom_of_empty hmem _
    rw [hencode]
    exact ⟨iff_of_false (fun h => by cases h) hne, fun ids h => by cases h⟩

end Encode

/-! ### The tokenizer of the model -/

/-- `bge::Tokenizer`, over the vocabulary that it has loaded. -/
structure BgeTokenizer where
  config : Config
  unigram : UnigramProcessor

/-- `tp`, with the preprocessors that `load` registers. -/
def BgeTokenizer.tp (t : BgeTokenizer) : Processor where
  unigram := t.unigram
  pp := bgePreprocessors

/-- `encode`, without ids in front.  Two positions are kept for an offset, and two ids are added. -/
def BgeTokenizer.encode (t : BgeTokenizer) (text : Bytes) : Option (List Int) := do
  let maxLength := t.config.maxLength.toInt - 2 - 1 - 1
  let ids ← t.tp.encode text
  let ids := if 0 < maxLength ∧ maxLength < ids.length then ids.take maxLength.toNat else ids
  some (t.config.bosTokenId.toInt :: (ids ++ [t.config.eosTokenId.toInt]))

/-- `encode_qa` of all tokenizers, which `bge::Tokenizer` does not override. -/
def BgeTokenizer.encodeQa (t : BgeTokenizer) (q a : Bytes) : Option (List Int) := do
  let ids ← t.tp.encode q
  let more ← t.tp.encode a
  some (ids ++ more)

/-- `decode`, with no special ids. -/
def BgeTokenizer.decode (t : BgeTokenizer) (ids : List Int) : Bytes := t.tp.decode ids

/-- How many ids of a text are kept. -/
def BgeTokenizer.kept (t : BgeTokenizer) (n : Nat) : Nat :=
  if 4 < t.config.maxLength.toInt then min n (t.config.maxLength.toInt - 4).toNat else n

section Bge

variable {t : BgeTokenizer} {text : Bytes}

theorem encode_tp (t : BgeTokenizer) (text : Bytes) : t.tp.encode text
    = (t.unigram.doEncode (preprocess bgePreprocessors text)).map fun ids => ids.map Int.ofNat :=
  rfl

theorem idToPiece_of_token {part : Bytes × Nat} (h : IsToken t.unigram part) :
    t.tp.idToPiece part.2 = part.1 := by
  have hnone : t.tp.tokenOverride.find? (part.2 : Int) = none := rfl
  have htoken : t.tp.unigram.vocab.idToToken[part.2]?.map UnigramTokenizers.TokenScore.tok
      = some part.1 := h
  rw [Processor.idToPiece, hnone]
  simp only [if_neg (Int.not_lt.mpr (Int.natCast_nonneg part.2)), Int.toNat_natCast, htoken,
    Option.getD_some]

/-- Tokens are decoded to their texts. -/
theorem decode_tokens {parts : List (Bytes × Nat)} (h : ∀ part ∈ parts, IsToken t.unigram part) :
    t.decode ((parts.map Prod.snd).map Int.ofNat) = (parts.map Prod.fst).flatten := by
  rw [BgeTokenizer.decode, Processor.decode, List.map_map, List.flatMap_map, ← List.flatMap_def]
  exact List.flatMap_congr fun part hpart => idToPiece_of_token (h part hpart)

/-- What is kept of the ids is as much as of the pieces. -/
theorem encode_of_tp {ids : List Int} (h : t.tp.encode text = some ids) :
    t.encode text = some (t.config.bosTokenId.toInt
      :: (ids.take (t.kept ids.length) ++ [t.config.eosTokenId.toInt])) := by
  have hkept : (if 0 < t.config.maxLength.toInt - 2 - 1 - 1
      ∧ t.config.maxLength.toInt - 2 - 1 - 1 < ids.length
      then ids.take (t.config.maxLength.toInt - 2 - 1 - 1).toNat else ids)
      = ids.take (t.kept ids.length) := by
    have hfour : t.config.maxLength.toInt - 2 - 1 - 1 = t.config.maxLength.toInt - 4 := by omega
    rw [hfour, BgeTokenizer.kept]
    by_cases hlong : 4 < t.config.maxLength.toInt
    · rw [if_pos hlong]
      split
      · rw [Nat.min_eq_right (by omega)]
      · rw [Nat.min_eq_left (by omega), List.take_length]
    · rw [if_neg hlong, if_neg (by omega), List.take_length]
  rw [BgeTokenizer.encode, h]
  show some (_ :: ((if 0 < t.config.maxLength.toInt - 2 - 1 - 1
      ∧ t.config.maxLength.toInt - 2 - 1 - 1 < ids.length
      then ids.take (t.config.maxLength.toInt - 2 - 1 - 1).toNat else ids) ++ _)) = _
  rw [hkept]

theorem decode_append (ids more : List Int) :
    t.decode (ids ++ more) = t.decode ids ++ t.decode more := List.flatMap_append

/-- **Texts of known symbols** are encoded to the first of their tokens, between the ids of the
start and the end; there is no bound on these if the positions do not suffice for one token. -/
theorem encode_covered (hcovered : Covered t.unigram (preprocess bgePreprocessors text))
    (habove : UnigramTokenizers.ScoredAbove t.unigram.tokenizer
      (symbolsOf (preprocess bgePreprocessors text))) :
    ∃ (ids : List Int) (tokens : List Bytes), t.encode text = some ids ∧
      tokens.flatten = preprocess bgePreprocessors text ∧
      ids.length = t.kept tokens.length + 2 ∧
      t.decode ids = t.tp.idToPiece t.config.bosTokenId.toInt
        ++ ((tokens.take (t.kept tokens.length)).flatten
        ++ t.tp.idToPiece t.config.eosTokenId.toInt) := by
  obtain ⟨parts, hids, hflatten, hparts⟩ := doEncode_tokens hcovered habove
  have htp : t.tp.encode text = some ((parts.map Prod.snd).map Int.ofNat) := by
    rw [encode_tp, hids, Option.map_some]
  have hlength : ((parts.map Prod.snd).map Int.ofNat).length = parts.length := by
    rw [List.length_map, List.length_map]
  have hkept : t.kept parts.length ≤ parts.length := by
    rw [BgeTokenizer.kept]
    split <;> omega
  refine ⟨_, parts.map Prod.fst, encode_of_tp htp, hflatten, ?_, ?_⟩
  · rw [hlength, List.length_cons, List.length_append, List.length_take, hlength,
      Nat.min_eq_left hkept, List.length_map]
    rfl
  · have htake : ((parts.map Prod.snd).map Int.ofNat).take (t.kept parts.length)
        = ((parts.take (t.kept parts.length)).map Prod.snd).map Int.ofNat := by
      rw [List.map_take, List.map_take]
    have hsome : ∀ part ∈ parts.take (t.kept parts.length), IsToken t.unigram part :=
      fun part hpart => hparts part (List.mem_of_mem_take hpart)
    rw [hlength, List.length_map, htake, ← List.singleton_append, decode_append, decode_append,
      decode_tokens hsome, List.map_take]
    simp only [BgeTokenizer.decode, Processor.decode, List.flatMap_singleton]

theorem utf8Len_le (src : UInt8) : UnigramTokenizers.utf8Len src ≤ 4 := by
  have hall : ∀ len ∈ [1, 1, 1, 1, 1, 1, 1, 1, 1, 1, 1, 1, 2, 2, 3, 4], len ≤ 4 := by decide
  rw [UnigramTokenizers.utf8Len, List.getD_eq_getElem?_getD]
  cases hlen : [1, 1, 1, 1, 1, 1, 1, 1, 1, 1, 1, 1, 2, 2, 3, 4][(src >>> 4).toNat]? with
  | none => exact Nat.zero_le 4
  | some len => exact hall len (List.mem_of_getElem? hlen)

/-- A symbol has at most four bytes. -/
theorem length_le_of_mem_symbolsFrom {fuel : Nat} {text symbol : Bytes}
    (h : symbol ∈ UnigramTokenizers.symbolsFrom fuel text) : symbol.length ≤ 4 := by
  induction fuel generalizing text with
  | zero => cases h
  | succ fuel ih =>
      rcases text with - | ⟨b, rest⟩
      · cases h
      · rcases List.mem_cons.mp h with rfl | h
        · have hle := utf8Len_le b
          rw [List.length_take]
          omega
        · exact ih h

/-- The longest piece. -/
def longestPiece (p : UnigramProcessor) : Nat := max p.tokMaxLen 4

/-- A long text has many pieces. -/
theorem length_le_doEncode (p : UnigramProcessor) (text : Bytes) :
    ∃ ids, p.doEncode text = some ids ∧ text.length ≤ ids.length * longestPiece p := by
  obtain ⟨parts, hids, hflatten, hparts⟩ := doEncode_pieces p text
  have hshort : ∀ part ∈ parts, part.1.length ≤ longestPiece p := by
    intro part hpart
    rcases hparts part hpart with htoken | ⟨hsymbol, -⟩
    · obtain ⟨token, hid, htok⟩ := Option.map_eq_some_iff.mp htoken
      have hle := UnigramTokenizers.length_le_tokMaxLen p (List.mem_of_getElem? hid)
      rw [htok] at hle
      exact hle.trans (Nat.le_max_left _ _)
    · exact (length_le_of_mem_symbolsFrom hsymbol).trans (Nat.le_max_right _ _)
  have hsum : ∀ {parts : List (Bytes × Nat)}, (∀ part ∈ parts, part.1.length ≤ longestPiece p) →
      ((parts.map Prod.fst).flatten).length ≤ parts.length * longestPiece p := by
    intro parts h
    induction parts with
    | nil => exact Nat.zero_le _
    | cons part parts ih =>
        obtain ⟨hpart, hrest⟩ := List.forall_mem_cons.mp h
        have hle := ih hrest
        rw [List.map_cons, List.flatten_cons, List.length_append, List.length_cons,
          Nat.succ_mul]
        omega
  refine ⟨_, hids, ?_⟩
  rw [List.length_map, ← hflatten]
  exact hsum hshort

/-- **What is ranked has no bound**: a question and an answer are encoded one behind the other,
without the ids of the start and the end, and however many positions the model has, some question
has more ids with every answer. -/
theorem encodeQa_unbounded (t : BgeTokenizer) (n : Nat) :
    ∃ q, ∀ a, ∃ ids more, t.tp.encode q = some ids ∧ t.tp.encode a = some more ∧
      t.encodeQa q a = some (ids ++ more) ∧ n < (ids ++ more).length := by
  have hencode : ∀ text, ∃ ids, t.tp.encode text = some ids ∧
      (preprocess bgePreprocessors text).length ≤ ids.length * longestPiece t.unigram := by
    intro text
    obtain ⟨ids, hids, hle⟩ := length_le_doEncode t.unigram (preprocess bgePreprocessors text)
    refine ⟨ids.map Int.ofNat, by rw [encode_tp, hids, Option.map_some], ?_⟩
    rwa [List.length_map]
  refine ⟨List.replicate (n * longestPiece t.unigram + 1) 97, fun a => ?_⟩
  obtain ⟨ids, hids, hle⟩ := hencode (List.replicate (n * longestPiece t.unigram + 1) 97)
  obtain ⟨more, hmore, -⟩ := hencode a
  refine ⟨ids, more, hids, hmore, by rw [BgeTokenizer.encodeQa, hids, hmore]; rfl, ?_⟩
  have hletters : (preprocess bgePreprocessors
      (List.replicate (n * longestPiece t.unigram + 1) 97)).filter isText
      = List.replicate (n * longestPiece t.unigram + 1) 97 := by
    rw [filter_preprocess, List.filter_replicate_of_pos rfl]
  have hlong := List.length_filter_le isText
    (preprocess bgePreprocessors (List.replicate (n * longestPiece t.unigram + 1) 97))
  rw [hletters, List.length_replicate] at hlong
  have hlt : n * longestPiece t.unigram < ids.length * longestPiece t.unigram := by omega
  have hmany := Nat.lt_of_mul_lt_mul_right hlt
  rw [List.length_append]
  omega

end Bge

/-! ### Loaded vocabularies -/

/-- The exponent in the bits of a score. -/
def exponentOf (bits : UInt32) : Nat := bits.toNat / 2 ^ 23 % 2 ^ 8

/-- The number that the bits of a finite score stand for. -/
def floatValue (bits : UInt32) : ℚ :=
  let mantissa : ℚ := (bits.toNat % 2 ^ 23 : Nat)
  let magnitude := if exponentOf bits = 0 then mantissa / 2 ^ 149
    else (2 ^ 23 + mantissa) * 2 ^ exponentOf bits / 2 ^ 150
  if bits.toNat < 2 ^ 31 then magnitude else -magnitude

/-- A token with its score. -/
def TokenScore.scored (token : TokenScore) : UnigramTokenizers.TokenScore :=
  ⟨token.tok, floatValue token.score⟩

/-- What a vocabulary has to be like for the tokenizer: no word is listed twice, all scores are
finite, and there is a token for the unknown symbols, whose id is behind the one of the end. -/
structure Suited (config : Config) (v : VocabState) : Prop where
  distinct : (v.vocab.idToToken.map TokenScore.tok).Nodup
  finite : ∀ token ∈ v.vocab.idToToken, exponentOf token.score ≠ 255
  unknown : 0 ≤ config.eosTokenId.toInt + 1
  listed : (config.eosTokenId.toInt + 1).toNat < v.vocab.idToToken.length

/-- A `bge::Tokenizer` that has loaded a vocabulary. -/
def BgeTokenizer.ofLoaded (config : Config) (v : VocabState) (h : Suited config v) :
    BgeTokenizer where
  config := config
  unigram := {
    vocab := {
      idToToken := v.vocab.idToToken.map TokenScore.scored
      distinct := by
        rw [List.map_map]
        exact h.distinct }
    unkTokId := (config.eosTokenId.toInt + 1).toNat
    unkTokId_lt := by
      rw [List.length_map]
      exact h.listed }

section Loaded

variable {config : Config} {v : VocabState} {buffer text : Bytes} {size : Nat} {bound : ℚ}

/-- The map and the longest token of the tokenizer are those that have been loaded. -/
theorem ofLoaded_eq (h : Suited config v)
    (hload : VocabState.new.load buffer config.vocabSize = .ok (size, v)) :
    (BgeTokenizer.ofLoaded config v h).unigram.vocab.tokenToId = v.vocab.tokenToId ∧
      (BgeTokenizer.ofLoaded config v h).unigram.tokMaxLen = v.tokMaxLen := by
  obtain ⟨entries, -, -, -, -, -, rfl⟩ := loaded_of_load hload
  have htokens : (VocabState.new.loaded entries).vocab.idToToken
      = entries.map WordEntry.token := rfl
  constructor
  · show (((entries.map WordEntry.token).map TokenScore.scored).map
      UnigramTokenizers.TokenScore.tok).zipIdx.foldl (fun m e => m.set e.1 e.2) .empty
      = idsOf entries
    rw [List.map_map, List.map_map, List.zipIdx_map, List.foldl_map]
    rfl
  · show ((entries.map WordEntry.token).map TokenScore.scored).foldl _ 0
      = longest 0 (entries.map WordEntry.token)
    rw [List.foldl_map]
    rfl

/-- **A text that the words of a loaded vocabulary cover** is encoded to words: they make up the
text as the preprocessors leave it, the first of them are kept between the ids of the start and
the end, and these ids are decoded to them.  The scores must be so that no sum of them leaves the
numbers of the type. -/
theorem loaded_reads (h : Suited config v)
    (hload : VocabState.new.load buffer config.vocabSize = .ok (size, v))
    (hcovered : ∀ symbol ∈ symbolsOf (preprocess bgePreprocessors text),
      ∃ id, v.vocab.tokenToId.find? symbol = some id)
    (hbound : 0 ≤ bound) (hscores : ∀ token ∈ v.vocab.idToToken, -bound ≤ floatValue token.score)
    (hsum : (symbolsOf (preprocess bgePreprocessors text)).length * bound
      < -UnigramTokenizers.floatLowest) :
    ∃ (ids : List Int) (tokens : List Bytes),
      (BgeTokenizer.ofLoaded config v h).encode text = some ids ∧
      tokens.flatten = preprocess bgePreprocessors text ∧
      ids.length = (BgeTokenizer.ofLoaded config v h).kept tokens.length + 2 ∧
      (BgeTokenizer.ofLoaded config v h).decode ids
        = (BgeTokenizer.ofLoaded config v h).tp.idToPiece config.bosTokenId.toInt
          ++ ((tokens.take ((BgeTokenizer.ofLoaded config v h).kept tokens.length)).flatten
          ++ (BgeTokenizer.ofLoaded config v h).tp.idToPiece config.eosTokenId.toInt) := by
  obtain ⟨hids, -⟩ := ofLoaded_eq h hload
  refine encode_covered (fun symbol hsymbol => ?_) ?_
  · obtain ⟨id, hid⟩ := hcovered symbol hsymbol
    rw [← hids] at hid
    exact ⟨id, (UnigramTokenizers.Vocab.find?_tokenToId _).mp hid⟩
  · refine UnigramTokenizers.scoredAbove_of_bounded hbound (fun token htoken => ?_) hsum
    obtain ⟨token, hmem, rfl⟩ := List.mem_map.mp htoken
    exact hscores token hmem

end Loaded

/-- A vocabulary of a blank and a letter. -/
def letterWords : List WordEntry :=
  [⟨ascii "<s>", by decide, 0⟩, ⟨ascii "</s>", by decide, 0⟩, ⟨ascii "<unk>", by decide, 0⟩,
    ⟨ascii " ", by decide, 0⟩, ⟨ascii "a", by decide, 0⟩]

def letterConfig : Config := ⟨0, 5, 16, 2, 1, 16, 8, 0, 1, 0, 1⟩

theorem suited_letterWords : Suited letterConfig (VocabState.new.loaded letterWords) where
  distinct := by decide
  finite := by decide
  unknown := by decide
  listed := by decide

theorem loaded_reads_letterWords :
    ∃ (ids : List Int) (tokens : List Bytes),
      (BgeTokenizer.ofLoaded letterConfig (VocabState.new.loaded letterWords)
        suited_letterWords).encode (ascii "a\na") = some ids ∧
      tokens.flatten = preprocess bgePreprocessors (ascii "a\na") ∧
      ids.length = (BgeTokenizer.ofLoaded letterConfig (VocabState.new.loaded letterWords)
        suited_letterWords).kept tokens.length + 2 ∧
      (BgeTokenizer.ofLoaded letterConfig (VocabState.new.loaded letterWords)
        suited_letterWords).decode ids
        = (BgeTokenizer.ofLoaded letterConfig (VocabState.new.loaded letterWords)
            suited_letterWords).tp.idToPiece letterConfig.bosTokenId.toInt
          ++ ((tokens.take ((BgeTokenizer.ofLoaded letterConfig (VocabState.new.loaded letterWords)
            suited_letterWords).kept tokens.length)).flatten
          ++ (BgeTokenizer.ofLoaded letterConfig (VocabState.new.loaded letterWords)
            suited_letterWords).tp.idToPiece letterConfig.eosTokenId.toInt) := by
  have hload := load_of_room VocabState.new letterWords ⟨-1, by decide⟩ []
    (show (letterWords.length : Int) ≤ letterConfig.vocabSize.toInt + 100 by decide)
  have hzero : ∀ token ∈ (VocabState.new.loaded letterWords).vocab.idToToken, token.score = 0 := by
    decide
  refine @loaded_reads letterConfig _ _ (ascii "a\na") _ 0 suited_letterWords hload ?_ le_rfl ?_ ?_
  · have hall : ∀ symbol ∈ symbolsOf (preprocess bgePreprocessors (ascii "a\na")),
        ((idsOf letterWords).find? symbol).isSome := by decide
    exact fun symbol hsymbol => Option.isSome_iff_exists.mp (hall symbol hsymbol)
  · intro token htoken
    rw [hzero token htoken, floatValue, exponentOf]
    norm_num
  · rw [mul_zero, UnigramTokenizers.floatLowest]
    norm_num

end Instinct.Transformers
