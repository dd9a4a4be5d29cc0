/-
Instinct/PageText.lean

`PDFIUMPage::ExtractPageText`: the text of a page, read from PDFium into a buffer again and
again.

What PDFium writes ends with a NUL, which is counted.  The loop puts it into the text and
goes on behind it, so that it passes over one unit for each buffer that is full (`readText`).
It ends for every text, and its result is the text if and only if that consists of blocks
as long as the buffer that end with a NUL of their own (`extracts_text_iff`).
-/
import Mathlib.Data.List.Basic

namespace Instinct.PageText

/-! ### The loop -/

/-- A text page of PDFium, with what `FPDFText_CountChars` and `FPDFText_GetText` answer: the number
of UTF-16 units, and what is written from an index on into a buffer of some size.  These are the
units up to the end of the text or of the buffer, and a NUL behind them. -/
structure TextPage where
  text : List UInt16
  countChars : Nat
  getText : Nat → Nat → List UInt16
  countChars_eq : countChars = text.length
  getText_eq : ∀ start count, start ≤ text.length → 0 < count →
    getText start count = (text.drop start).take (count - 1) ++ [0]

def bufSize : Nat := 1024

/-- The loop of `ExtractPageText`, with fuel for each round. -/
def TextPage.extractFrom (page : TextPage) : Nat → Nat → List UInt16 → Option (List UInt16)
  | 0, _, _ => none
  | fuel + 1, startIndex, result =>
      let buf := page.getText startIndex bufSize
      if page.countChars ≤ startIndex + buf.length then some (result ++ buf)
      else page.extractFrom fuel (startIndex + buf.length) (result ++ buf)

/-- `ExtractPageText`. -/
def TextPage.extractPageText (page : TextPage) (fuel : Nat) : Option (List UInt16) :=
  page.extractFrom fuel 0 []

/-- The loop ends with a result, whatever fuel there is beyond some amount. -/
def TextPage.Extracts (page : TextPage) (result : List UInt16) : Prop :=
  ∃ enough, ∀ fuel, enough ≤ fuel → page.extractPageText fuel = some result

/-- A page with a text. -/
def TextPage.ofText (text : List UInt16) : TextPage where
  text := text
  countChars := text.length
  getText startIndex count := (text.drop startIndex).take (count - 1) ++ [0]
  countChars_eq := rfl
  getText_eq _ _ _ _ := rfl

/-! ### What is read -/

/-- The text, with a NUL for the last unit of each full buffer and behind the last units. -/
def readText (text : List UInt16) : List UInt16 :=
  text.take (bufSize - 1) ++ 0 :: if text.length ≤ bufSize then [] else readText (text.drop bufSize)
  termination_by text.length
  decreasing_by
    rw [List.length_drop]
    have hpos : 0 < bufSize := by decide
    omega

/-- What is left of the text is read, by induction on the fuel: each round takes one unit at
least. -/
theorem extractFrom_eq {page : TextPage} {fuel startIndex : Nat} {result : List UInt16}
    (hstart : startIndex ≤ page.text.length) (hfuel : page.text.length - startIndex < fuel) :
    page.extractFrom fuel startIndex result
      = some (result ++ readText (page.text.drop startIndex)) := by
  induction fuel generalizing startIndex result with
  | zero => exact absurd hfuel (Nat.not_lt_zero _)
  | succ fuel ih =>
      have hbuf := page.getText_eq startIndex bufSize hstart (by decide)
      rw [TextPage.extractFrom, hbuf, page.countChars_eq]
      have hlength : ((page.text.drop startIndex).take (bufSize - 1) ++ [(0 : UInt16)]).length
          = min 1023 (page.text.length - startIndex) + 1 := by
        rw [List.length_append, List.length_take, List.length_drop]
        rfl
      rw [hlength, readText, List.length_drop, List.drop_drop]
      by_cases hlast : page.text.length - startIndex ≤ bufSize
      · have hend : page.text.length ≤
            startIndex + (min 1023 (page.text.length - startIndex) + 1) := by
          rw [bufSize] at hlast
          omega
        rw [if_pos hend, if_pos hlast]
      · -- a full buffer
        rw [bufSize] at hlast
        have hfull : min 1023 (page.text.length - startIndex) + 1 = 1024 := by omega
        rw [hfull, if_neg (by omega), if_neg (by rwa [bufSize]), ih (by omega) (by omega)]
        simp only [bufSize, List.append_assoc, List.cons_append, List.nil_append]

/-- **The loop ends**, with the text as it is read. -/
theorem extracts_readText (page : TextPage) : page.Extracts (readText page.text) :=
  ⟨page.text.length + 1, fun _ hfuel => extractFrom_eq (Nat.zero_le _) (by omega)⟩

theorem extracts_iff {page : TextPage} {result : List UInt16} :
    page.Extracts result ↔ readText page.text = result := by
  constructor
  · rintro ⟨enough, h⟩
    obtain ⟨enough', hread⟩ := extracts_readText page
    have hboth := (hread _ (Nat.le_max_right enough enough')).symm.trans
      (h _ (Nat.le_max_left enough enough'))
    exact Option.some.inj hboth
  · rintro rfl
    exact extracts_readText page

/-! ### Texts that are read as they are -/

/-- One or more blocks that fill the buffer, the last unit of each being NUL. -/
def NulBlocks (text : List UInt16) : Prop :=
  ∃ blocks : List (List UInt16), blocks ≠ [] ∧ (∀ block ∈ blocks, block.length = bufSize - 1) ∧
    text = (blocks.map (· ++ [0])).flatten

/-- A block that fills the buffer is read as it is. -/
theorem readText_block {block : List UInt16} (hblock : block.length = bufSize - 1)
    (rest : List UInt16) :
    readText (block ++ 0 :: rest) = block ++ 0 :: if rest = [] then [] else readText rest := by
  have hlength : (block ++ 0 :: rest).length = bufSize + rest.length := by
    rw [List.length_append, List.length_cons, hblock, bufSize]
    omega
  have hdrop : (block ++ 0 :: rest).drop bufSize = rest := by
    have happend : block ++ 0 :: rest = (block ++ [0]) ++ rest := by
      rw [List.append_assoc, List.singleton_append]
    rw [happend]
    refine List.drop_left' ?_
    rw [List.length_append, hblock]
    rfl
  rw [readText, List.take_left' hblock, hdrop, hlength]
  congr 2
  refine if_congr ?_ rfl rfl
  rw [← List.length_eq_zero_iff]
  omega

/-- A text that is read as it is begins with such a block, and so does what is behind it. -/
theorem block_of_readText_eq_self {text : List UInt16} (h : readText text = text) :
    ∃ block rest, block.length = bufSize - 1 ∧ text = block ++ 0 :: rest ∧
      (rest ≠ [] → readText rest = rest) := by
  have hlong : bufSize - 1 ≤ text.length := by
    by_contra hshort
    have hlength := congrArg List.length h
    rw [readText, if_pos (by omega), List.length_append, List.length_take] at hlength
    rw [bufSize] at hshort hlength
    change min 1023 text.length + 1 = text.length at hlength
    omega
  have hblock : (text.take (bufSize - 1)).length = bufSize - 1 :=
    List.length_take_of_le hlong
  obtain ⟨rest, hrest⟩ : ∃ rest, text = text.take (bufSize - 1) ++ 0 :: rest := by
    rw [readText] at h
    exact ⟨_, h.symm⟩
  refine ⟨_, rest, hblock, hrest, fun hne => ?_⟩
  rw [hrest, readText_block hblock, if_neg hne] at h
  exact (List.cons.inj (List.append_cancel_left h)).2

/-- The blocks are found from the start of the text, by induction on its length. -/
theorem nulBlocks_of_readText_eq_self (n : Nat) {text : List UInt16} (hn : text.length < n)
    (h : readText text = text) : NulBlocks text := by
  induction n generalizing text with
  | zero => exact absurd hn (Nat.not_lt_zero _)
  | succ n ih =>
      obtain ⟨block, rest, hblock, rfl, hrest⟩ := block_of_readText_eq_self h
      by_cases hnil : rest = []
      · refine ⟨[block], List.cons_ne_nil _ _, fun b hb => ?_, ?_⟩
        · rwa [List.mem_singleton.mp hb]
        · rw [hnil, List.map_singleton, List.flatten_singleton]
      · rw [List.length_append, List.length_cons] at hn
        obtain ⟨blocks, -, hblocks, heq⟩ := ih (by omega) (hrest hnil)
        refine ⟨block :: blocks, List.cons_ne_nil _ _, ?_, ?_⟩
        · exact List.forall_mem_cons.mpr ⟨hblock, hblocks⟩
        · rw [List.map_cons, List.flatten_cons, ← heq, List.append_assoc, List.singleton_append]

theorem readText_blocks {blocks : List (List UInt16)} (hne : blocks ≠ [])
    (hblocks : ∀ block ∈ blocks, block.length = bufSize - 1) :
    readText (blocks.map (· ++ [0])).flatten = (blocks.map (· ++ [0])).flatten := by
  induction blocks with
  | nil => exact absurd rfl hne
  | cons block blocks ih =>
      obtain ⟨hblock, hrest⟩ := List.forall_mem_cons.mp hblocks
      rw [List.map_cons, List.flatten_cons, List.append_assoc, List.singleton_append,
        readText_block hblock]
      rcases blocks with - | ⟨next, blocks⟩
      · rfl
      · rw [ih (List.cons_ne_nil _ _) hrest, if_neg]
        rw [List.map_cons, List.flatten_cons, List.append_assoc]
        exact List.append_ne_nil_of_right_ne_nil _ (List.cons_ne_nil _ _)

theorem readText_eq_self_iff (text : List UInt16) : readText text = text ↔ NulBlocks text := by
  constructor
  · exact nulBlocks_of_readText_eq_self _ (Nat.lt_succ_self _)
  · rintro ⟨blocks, hne, hblocks, rfl⟩
    exact readText_blocks hne hblocks

/-- **The text is extracted** if and only if it consists of such blocks. -/
theorem extracts_text_iff (page : TextPage) : page.Extracts page.text ↔ NulBlocks page.text :=
  extracts_iff.trans (readText_eq_self_iff page.text)

/-- A NUL is added to a text of one unit. -/
theorem letter_not_extracted : ¬ (TextPage.ofText [65]).Extracts [65] := by
  rintro ⟨enough, h⟩
  cases h (enough + 1) (Nat.le_succ enough)

end Instinct.PageText
