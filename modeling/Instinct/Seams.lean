/-
Instinct/Seams.lean

Where the chunks of a splitter come from.

A `Part` is a piece of a text together with the gap before it: what stands in the
text between it and the piece before.  A chunk that is joined from a window of
parts is cut out of the text when the joint is what stands in the gaps
(`joinDocs_isCut`).

With kept separators nothing stands between the pieces.  The recursive splitter
joins them with nothing, but `CharacterTextSplitter` puts the separator between
them once more.  Without kept separators both join with the escaped separator,
and more than one separator may stand in a gap.  A piece that is too long is not
even trimmed.  Where nothing of this happens all chunks are cut out of the text
(`cutsOut_of_seamless`).
-/
import Instinct.RecursiveSplitting

namespace Instinct

open Packing Splitting

/-! ### Parts -/

/-- A piece, and what stands before it behind the piece before. -/
structure Part where
  gap : UnicodeString
  text : UnicodeString
  deriving Repr, DecidableEq

/-- The stretch of the text over which some parts extend, with the gaps before them. -/
def stretch (parts : List Part) : UnicodeString := parts.flatMap fun part => part.gap ++ part.text

theorem stretch_cons (part : Part) (parts : List Part) :
    stretch (part :: parts) = part.gap ++ part.text ++ stretch parts :=
  List.flatMap_cons

theorem stretch_isInfix {window parts : List Part} (h : window <:+: parts) :
    stretch window <:+: stretch parts := by
  obtain ⟨front, back, rfl⟩ := h
  refine ⟨stretch front, stretch back, ?_⟩
  simp only [stretch, List.flatMap_append]

/-- The pieces stand in the text with nothing between them. -/
def adjacent (pieces : List UnicodeString) : List Part := pieces.map fun piece => ⟨[], piece⟩

theorem map_text_adjacent (pieces : List UnicodeString) :
    (adjacent pieces).map Part.text = pieces := by
  rw [adjacent, List.map_map]
  exact List.map_id pieces

theorem stretch_adjacent (pieces : List UnicodeString) :
    stretch (adjacent pieces) = pieces.flatten := by
  induction pieces with
  | nil => rfl
  | cons piece pieces ih =>
      rw [adjacent, List.map_cons, ← adjacent, stretch_cons, ih]
      rfl

/-- The fields that are not empty.  The separators around the empty ones are in the gaps. -/
def spaced (sep gap : UnicodeString) : List UnicodeString → List Part
  | [] => []
  | field :: fields =>
      if field = [] then spaced sep (gap ++ sep) fields
      else ⟨gap, field⟩ :: spaced sep sep fields

theorem map_text_spaced (sep gap : UnicodeString) (fields : List UnicodeString) :
    (spaced sep gap fields).map Part.text = fields.filter (· ≠ []) := by
  induction fields generalizing gap with
  | nil => rfl
  | cons field fields ih =>
      rw [spaced]
      split
      · rename_i hempty
        rw [ih, List.filter_cons_of_neg (by simp [hempty])]
      · rename_i hfield
        rw [List.map_cons, ih, List.filter_cons_of_pos (by simpa using hfield)]

theorem stretch_spaced (sep gap : UnicodeString) (fields : List UnicodeString) :
    stretch (spaced sep gap fields) <+: gap ++ (withSeparators sep fields).flatten := by
  induction fields generalizing gap with
  | nil => exact List.nil_prefix
  | cons field fields ih =>
      have hrest : ∀ gap, stretch (spaced sep (gap ++ sep) fields)
          <+: gap ++ (fields.map (sep ++ ·)).flatten := by
        intro gap
        cases fields with
        | nil => exact List.nil_prefix
        | cons next fields =>
            have hnext := ih (gap ++ sep)
            rw [withSeparators, List.flatten_cons] at hnext
            rwa [List.map_cons, List.flatten_cons, List.append_assoc, ← List.append_assoc]
      rw [spaced, withSeparators, List.flatten_cons]
      split
      · rename_i hempty
        rw [hempty]
        exact hrest gap
      · rw [stretch_cons, ← List.append_assoc]
        apply (List.prefix_append_right_inj _).mpr
        exact hrest []

/-! ### Windows -/

/-- The joint is what stands between the parts. -/
def IsSeamless (joint : UnicodeString) (window : List Part) : Prop :=
  ∀ part ∈ window.tail, part.gap = joint

instance (joint : UnicodeString) (window : List Part) : Decidable (IsSeamless joint window) :=
  inferInstanceAs (Decidable (∀ part ∈ window.tail, part.gap = joint))

theorem intercalate_seamless {joint : UnicodeString} (first : Part) {parts : List Part}
    (h : ∀ part ∈ parts, part.gap = joint) :
    joint.intercalate ((first :: parts).map Part.text) = first.text ++ stretch parts := by
  induction parts generalizing first with
  | nil =>
      rw [List.map_singleton, List.intercalate_singleton]
      exact (List.append_nil _).symm
  | cons part parts ih =>
      obtain ⟨hpart, hparts⟩ := List.forall_mem_cons.mp h
      have hrest := ih part hparts
      rw [List.map_cons] at hrest ⊢
      rw [List.map_cons, List.intercalate_cons_cons, hrest, stretch_cons, hpart]
      simp only [List.append_assoc]

namespace BaseTextSplitter

/-- The chunk is cut out of the text, and trimmed where the splitter strips. -/
def IsCut (splitter : BaseTextSplitter) (text chunk : UnicodeString) : Prop :=
  ∃ part, part <:+: text ∧ chunk = if splitter.stripWhitespace then trim part else part

variable {splitter : BaseTextSplitter} {text sep joint : UnicodeString}

/-- A chunk with the right joint is the stretch of the text that its window covers. -/
theorem joinDocs_isCut {window parts : List Part} (hinside : window <:+: parts)
    (htext : stretch parts <:+: text) (hseamless : IsSeamless joint window) :
    splitter.IsCut text (splitter.joinDocs (window.map Part.text) joint) := by
  cases window with
  | nil =>
      refine ⟨[], List.nil_infix, ?_⟩
      rfl
  | cons first window =>
      have hcovered : first.text ++ stretch window <:+: stretch (first :: window) := by
        rw [stretch_cons, List.append_assoc]
        exact (List.suffix_append first.gap _).isInfix
      have hjoined : joint.intercalate ((first :: window).map Part.text)
          = first.text ++ stretch window := intercalate_seamless first hseamless
      refine ⟨_, hcovered.trans ((stretch_isInfix hinside).trans htext), ?_⟩
      rw [joinDocs, hjoined]

/-- Parts whose windows are seamless are merged to chunks that are cut out of the text. -/
theorem mergesTo_isCut {parts : List Part} (htext : stretch parts <:+: text)
    (hseamless : ∀ window ∈ pack (splitter.limits joint) (splitter.lengthCalculator ∘ Part.text)
      parts, IsSeamless joint window) :
    splitter.MergesTo (splitter.IsCut text) joint (parts.map Part.text) := by
  intro doc hdoc
  obtain ⟨-, pieces, hpieces, rfl⟩ := mem_chunksOf_iff.mp hdoc
  rw [pack_map] at hpieces
  obtain ⟨window, hwindow, rfl⟩ := List.mem_map.mp hpieces
  exact joinDocs_isCut (infix_of_mem_pack hwindow) htext (hseamless window hwindow)

/-! ### The parts of a text -/

/-- The pieces of a text at a separator with their gaps. -/
def partsAt (splitter : BaseTextSplitter) (text sep : UnicodeString) : List Part :=
  if sep = [] ∨ splitter.keepSeparator = true then adjacent (splitter.piecesAt text sep)
  else spaced sep [] (fields sep text)

theorem map_text_partsAt :
    (splitter.partsAt text sep).map Part.text = splitter.piecesAt text sep := by
  rw [partsAt]
  split
  · exact map_text_adjacent _
  · rename_i hdropped
    rw [not_or] at hdropped
    rw [map_text_spaced, piecesAt, if_neg hdropped.1, if_neg hdropped.2]

/-- The locale's iterator cuts every text into its graphemes. -/
def CutsGraphemes (splitter : BaseTextSplitter) : Prop :=
  ∀ text, (splitter.graphemes text).flatten = text

theorem stretch_partsAt (hgraphemes : splitter.CutsGraphemes) (text sep : UnicodeString) :
    stretch (splitter.partsAt text sep) <:+: text := by
  rw [partsAt]
  by_cases hsep : sep = []
  · rw [if_pos (.inl hsep), stretch_adjacent, piecesAt, if_pos hsep, List.flatten_filter_ne_nil,
      hgraphemes]
  · cases hkeep : splitter.keepSeparator with
    | true =>
        rw [if_pos (.inr rfl), stretch_adjacent, piecesAt, if_neg hsep, if_pos hkeep,
          List.flatten_filter_ne_nil, flatten_withSeparators hsep]
    | false =>
        have hspaced := stretch_spaced sep [] (fields sep text)
        rw [flatten_withSeparators hsep, List.nil_append] at hspaced
        rw [if_neg (by simp [hsep])]
        exact hspaced.isInfix

/-- The pieces stand in the text. -/
theorem piecesAt_isInfix (hgraphemes : splitter.CutsGraphemes) {s : UnicodeString}
    (h : s ∈ splitter.piecesAt text sep) : s <:+: text := by
  rw [← map_text_partsAt] at h
  obtain ⟨part, hpart, rfl⟩ := List.mem_map.mp h
  obtain ⟨front, back, hparts⟩ := List.append_of_mem hpart
  have hwindow : [part] <:+: splitter.partsAt text sep := by
    rw [hparts]
    exact ⟨front, back, by simp⟩
  have hcovered : part.text <:+: stretch [part] := by
    rw [stretch_cons]
    exact ⟨part.gap, [], by simp [stretch]⟩
  exact hcovered.trans ((stretch_isInfix hwindow).trans (stretch_partsAt hgraphemes text sep))

/-! ### Cuts without a wrong seam -/

/-- The small pieces that come together after a cut have the right joint between them. -/
def JoinsSeamlessly (splitter : BaseTextSplitter) (text sep : UnicodeString) : Prop :=
  ∀ run ∈ runsFrom (fun part => splitter.IsSmall part.text) [] (splitter.partsAt text sep),
    ∀ window ∈ pack (splitter.limits (splitter.mergingSeparator sep))
      (splitter.lengthCalculator ∘ Part.text) run,
      IsSeamless (splitter.mergingSeparator sep) window

/-- The cut is safe, and no chunk has a wrong seam. -/
def CutsSeamlessly (splitter : BaseTextSplitter) (text sep : UnicodeString) : Prop :=
  splitter.SplitsSafely text sep ∧ splitter.JoinsSeamlessly text sep

/-- There is nothing to strip. -/
def IsStripped (splitter : BaseTextSplitter) (s : UnicodeString) : Prop :=
  splitter.stripWhitespace = true → trim s = s

/-- Where the separators are kept, the recursive splitter has no wrong seams. -/
theorem joinsSeamlessly_of_keep (hkeep : splitter.keepSeparator = true) (text sep : UnicodeString) :
    splitter.JoinsSeamlessly text sep := by
  intro run hrun window hwindow part hpart
  have hinside := (infix_of_mem_pack hwindow).trans (infix_of_mem_runsFrom hrun)
  have hmem := hinside.subset (List.mem_of_mem_tail hpart)
  rw [List.nil_append, partsAt, if_pos (.inr hkeep)] at hmem
  obtain ⟨piece, -, rfl⟩ := List.mem_map.mp hmem
  exact (if_pos hkeep).symm

/-- A cut without a wrong seam in a part of the text merges to chunks that are cut out. -/
theorem mergesTo_of_joinsSeamlessly (hgraphemes : splitter.CutsGraphemes) {whole : UnicodeString}
    (hinside : text <:+: whole) (hjoins : splitter.JoinsSeamlessly text sep) :
    ∀ good ∈ runsFrom splitter.IsSmall [] (splitter.piecesAt text sep),
      splitter.MergesTo (splitter.IsCut whole) (splitter.mergingSeparator sep) good := by
  intro good hgood
  have hruns := runsFrom_map splitter.IsSmall Part.text [] (splitter.partsAt text sep)
  rw [map_text_partsAt, List.map_nil] at hruns
  rw [hruns] at hgood
  obtain ⟨run, hrun, rfl⟩ := List.mem_map.mp hgood
  have hstretch := stretch_isInfix (infix_of_mem_runsFrom hrun)
  rw [List.nil_append] at hstretch
  exact mergesTo_isCut (hstretch.trans ((stretch_partsAt hgraphemes text sep).trans hinside))
    (hjoins run hrun)

/-- A cut without a wrong seam in a text that stands in the whole one. -/
def CutsWithin (splitter : BaseTextSplitter) (whole text sep : UnicodeString) : Prop :=
  text <:+: whole ∧ splitter.CutsSeamlessly text sep

theorem cutsWell_within (hgraphemes : splitter.CutsGraphemes) (whole : UnicodeString) :
    splitter.CutsWell (splitter.CutsWithin whole) (splitter.IsCut whole) := by
  intro text sep hcut
  exact ⟨hcut.2.1, mergesTo_of_joinsSeamlessly hgraphemes hcut.1 hcut.2.2⟩

theorem isCut_of_isStripped {s : UnicodeString} (hs : s <:+: text)
    (hstripped : splitter.IsStripped s) : splitter.IsCut text s := by
  refine ⟨s, hs, ?_⟩
  split
  · rename_i hstrip
    exact (hstripped hstrip).symm
  · rfl

theorem isInfix_of_isCut {chunk : UnicodeString} (h : splitter.IsCut text chunk) :
    chunk <:+: text := by
  obtain ⟨part, hpart, rfl⟩ := h
  split
  · exact (trim_isInfix part).trans hpart
  · exact hpart

end BaseTextSplitter

/-! ### Both splitters -/

/-- `TextSplitter`, by its implementations. -/
inductive TextSplitter
  | character (base : BaseTextSplitter) (separator : UnicodeString)
  | recursive (base : BaseTextSplitter) (separators : List UnicodeString)

namespace TextSplitter

/-- The base class of the splitter. -/
def base : TextSplitter → BaseTextSplitter
  | character base _ => base
  | recursive base _ => base

/-- `SplitText`; the fuel is for the recursive one. -/
def splitText : TextSplitter → Nat → UnicodeString → Option (Except Exn (List UnicodeString))
  | character base separator, _, text => some (characterSplitText base separator text)
  | recursive base separators, fuel, text => base.splitText separators fuel text

/-- A recursive splitter has the empty separator in its list. -/
def HasEmptySeparator : TextSplitter → Prop
  | character _ _ => True
  | recursive _ separators => [] ∈ separators

/-- The splitter returns, and each chunk is cut out of the text. -/
def CutsOut (splitter : TextSplitter) (text : UnicodeString) : Prop :=
  ∃ fuel chunks, splitter.splitText fuel text = some (.ok chunks)
    ∧ ∀ chunk ∈ chunks, splitter.base.IsCut text chunk

/-- All cuts on the way are safe, in no chunk a piece is joined to another with something else
than what stands between them, and pieces that are too long have nothing to strip. -/
def Seamless : TextSplitter → UnicodeString → Prop
  | character base separator, text =>
      (separator ≠ [] → base.keepSeparator = true → text ≠ [] ∧ ¬ Loses separator 9 text)
        ∧ ∀ window ∈ pack (base.limits (escapeForRegularExpression separator))
            (base.lengthCalculator ∘ Part.text) (base.partsAt text separator),
          IsSeamless (escapeForRegularExpression separator) window
  | recursive base separators, text =>
      base.FitsText base.CutsSeamlessly base.IsStripped separators text

theorem cutsOut_character {base : BaseTextSplitter} (hgraphemes : base.CutsGraphemes)
    {separator text : UnicodeString} (h : (character base separator).Seamless text) :
    (character base separator).CutsOut text := by
  obtain ⟨hsafe, hseams⟩ := h
  have hsplit : splitTextWithSeperator base.graphemes text (escapeForRegularExpression separator)
      base.keepSeparator = .ok (base.piecesAt text separator) := by
    apply BaseTextSplitter.split_of_safe
    · exact fun hseparator hkeep => (hsafe hseparator hkeep).1
    · by_cases hseparator : separator = []
      · exact .inl hseparator
      · cases hkeep : base.keepSeparator with
        | false => exact .inr (.inl hkeep)
        | true => exact .inr (.inr (hsafe hseparator hkeep).2)
  refine ⟨0, base.mergeSplits (base.piecesAt text separator)
    (escapeForRegularExpression separator) [], ?_, ?_⟩
  · show some (characterSplitText base separator text) = _
    rw [characterSplitText]
    simp only [hsplit]
  · intro chunk hchunk
    have hmerged := BaseTextSplitter.mergesTo_isCut
      (BaseTextSplitter.stretch_partsAt hgraphemes text separator) hseams
    rw [BaseTextSplitter.mergeSplits_eq, List.nil_append,
      ← BaseTextSplitter.map_text_partsAt] at hchunk
    exact hmerged chunk hchunk

theorem cutsOut_recursive {base : BaseTextSplitter} (hgraphemes : base.CutsGraphemes)
    {separators : List UnicodeString} (hempty : [] ∈ separators) {text : UnicodeString}
    (h : (recursive base separators).Seamless text) :
    (recursive base separators).CutsOut text := by
  obtain ⟨sep, hfind⟩ : ∃ sep, separators.find? (BaseTextSplitter.canSplit text) = some sep := by
    apply Option.isSome_iff_exists.mp
    apply List.find?_isSome.mpr
    exact ⟨[], hempty, rfl⟩
  have hfits : base.FitsText base.CutsSeamlessly base.IsStripped separators text := h
  rw [BaseTextSplitter.FitsText, hfind] at hfits
  obtain ⟨hcut, hwaiting⟩ := hfits
  have hwhole : text <:+: text := List.infix_refl text
  have hall : base.CutFits (base.CutsWithin text) (base.IsCut text) separators text [] := by
    refine ⟨sep, hfind, ⟨hwhole, hcut⟩, ?_⟩
    rw [List.append_nil]
    exact BaseTextSplitter.fits_of_inside
      (fun s sep hs piece hpiece => (BaseTextSplitter.piecesAt_isInfix hgraphemes hpiece).trans hs)
      (fun _ _ hs hcut => ⟨hs, hcut⟩) (fun _ => BaseTextSplitter.isCut_of_isStripped)
      (fun piece => BaseTextSplitter.piecesAt_isInfix hgraphemes) hwaiting
  obtain ⟨separators', chunks, hrun, -, -, hok⟩ := BaseTextSplitter.finishes_splitText_
    (BaseTextSplitter.cutsWell_within hgraphemes text) (Nat.le_refl _) hall (List.forall_mem_nil _)
  exact BaseTextSplitter.returns_iff.mpr ⟨_, separators', chunks, hrun, hok⟩

/-- **Chunks without a wrong seam are cut out of the text.** -/
theorem cutsOut_of_seamless {splitter : TextSplitter} (hgraphemes : splitter.base.CutsGraphemes)
    (hempty : splitter.HasEmptySeparator) {text : UnicodeString} (h : splitter.Seamless text) :
    splitter.CutsOut text := by
  cases splitter with
  | character base separator => exact cutsOut_character hgraphemes h
  | recursive base separators => exact cutsOut_recursive hgraphemes hempty h

/-- Texts of one letter each, joined where the chunk has room. -/
def letters (keepSeparator : Bool) : BaseTextSplitter where
  chunkSize := 4
  chunkOverlap := 0
  keepSeparator := keepSeparator
  stripWhitespace := true
  lengthCalculator := List.length
  graphemes := codePoints

theorem cutsGraphemes_letters (keepSeparator : Bool) : (letters keepSeparator).CutsGraphemes := by
  intro text
  show (text.map fun c => [c]).flatten = text
  induction text with
  | nil => rfl
  | cons c text ih =>
      rw [List.map_cons, List.flatten_cons, ih]
      rfl

theorem cutsOut_letters : (character (letters false) [',']).CutsOut "a,b,c".toList :=
  @cutsOut_of_seamless (character (letters false) [',']) (cutsGraphemes_letters false) trivial _
    ⟨fun _ hkeep => absurd hkeep (by decide), by decide⟩

-- a chunk with a wrong seam may stand elsewhere in the text, so no condition on the seams alone
-- is also necessary
example : ¬ (character (letters false) ['.']).Seamless "a.b.a\\.bbbb".toList
    ∧ (character (letters false) ['.']).CutsOut "a.b.a\\.bbbb".toList := by
  refine ⟨fun h => absurd h.2 (by decide), 0, _, rfl, fun chunk hchunk => ⟨chunk, ?_⟩⟩
  revert chunk
  decide

/-- A chunk that does not stand in the text was not cut out of it. -/
theorem not_cutsOut {splitter : TextSplitter} {text : UnicodeString} {chunks : List UnicodeString}
    (chunk : UnicodeString)
    (hrun : ∀ fuel, splitter.splitText (fuel + 1) text = some (.ok chunks))
    (hzero : splitter.splitText 0 text = none ∨ splitter.splitText 0 text = some (.ok chunks))
    (hmem : chunk ∈ chunks) (hchunk : ¬ chunk <:+: text) : ¬ splitter.CutsOut text := by
  rintro ⟨fuel, chunks', hrun', hcut⟩
  have hsame : chunks' = chunks := by
    cases fuel with
    | zero =>
        rcases hzero with hzero | hzero
        · rw [hzero] at hrun'
          cases hrun'
        · exact (Except.ok.inj (Option.some.inj (hzero.symm.trans hrun'))).symm
    | succ fuel => exact (Except.ok.inj (Option.some.inj ((hrun fuel).symm.trans hrun'))).symm
  exact hchunk (BaseTextSplitter.isInfix_of_isCut (hcut chunk (hsame ▸ hmem)))

/-- The kept separator is put between the pieces again; of two separators one is left; an escaped
separator is not in the text. -/
theorem letters_not_cutsOut :
    ¬ (character (letters true) [',']).CutsOut "a,b".toList
      ∧ ¬ (character (letters false) [',']).CutsOut "a,,b".toList
      ∧ ¬ (character (letters false) ['.']).CutsOut "a.b".toList
      ∧ ¬ (recursive (letters false) [['.'], []]).CutsOut "a.b".toList := by
  refine ⟨?_, ?_, ?_, ?_⟩
  · exact not_cutsOut "a,,b".toList (fun _ => rfl) (.inr rfl) (by decide) (by decide)
  · exact not_cutsOut "a,b".toList (fun _ => rfl) (.inr rfl) (by decide) (by decide)
  · exact not_cutsOut "a\\.b".toList (fun _ => rfl) (.inr rfl) (by decide) (by decide)
  · exact not_cutsOut "a\\.b".toList (fun _ => rfl) (.inl rfl) (by decide) (by decide)

end TextSplitter

end Instinct
