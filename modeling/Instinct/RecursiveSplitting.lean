/-
Instinct/RecursiveSplitting.lean

`RecursiveCharacterTextSplitter`: a text is split at the first of the separators
that it contains, and what is still too long is split again with the separators
that are left.

The list of separators is shared by all calls.  What one piece has used up, or
cleared, is gone for the pieces behind it.  `Fits` follows the list through the
pieces that wait, in the order of the code: the first one that is too long takes
its separator from the list and its pieces take its place (`fits_cut`).  When no
separator is left, a piece that is too long becomes a chunk as it is.

A run of the code returns chunks that are all as they should be if and only if
the text fits (`returns_iff_fits`).  Two readings follow: when the splitter comes
back at all (`splitText_returns_iff`), and when no chunk is longer than it may
be (`splitText_bounded_iff`).
-/
import Instinct.TextMerging

namespace Instinct

open Packing Splitting

/-! ### The model -/

/-- The separators that are left and the chunks so far, or what was thrown. -/
abbrev SplitResult := Except Exn (List UnicodeString × List UnicodeString)

namespace BaseTextSplitter

/-- `text.indexOf(sep) != -1`, or the empty separator. -/
def canSplit (text sep : UnicodeString) : Bool := sep = [] || (cut sep text).isSome

/-- The separators without the one that is used.  The empty one clears the list. -/
def remaining (sep : UnicodeString) (separators : List UnicodeString) : List UnicodeString :=
  if sep = [] then [] else separators.erase sep

/-- The expression to split by, and the separators that are left.  Where none of them occurs,
the last one is taken and stays in the list. -/
def chooseSeparator (text : UnicodeString) (separators : List UnicodeString) :
    UnicodeString × List UnicodeString :=
  match separators.find? (canSplit text) with
  | some sep => (escapeForRegularExpression sep, remaining sep separators)
  | none => (escapeForRegularExpression (separators.getLastD []), separators)

variable (splitter : BaseTextSplitter)

/-- What the pieces at a separator are joined with. -/
def mergingSeparator (sep : UnicodeString) : UnicodeString :=
  if splitter.keepSeparator then [] else escapeForRegularExpression sep

/-- The pieces collected in `good_splits` are merged, if there are any. -/
def mergeGood (goodSplits : List UnicodeString) (mergingSeparator : UnicodeString)
    (finalChunks : List UnicodeString) : List UnicodeString :=
  if goodSplits ≠ [] then splitter.mergeSplits goodSplits mergingSeparator finalChunks
  else finalChunks

/-- The loop over the splits in `SplitText_`, with its recursive call as a parameter. -/
def splitPieces
    (recurse : UnicodeString → List UnicodeString → List UnicodeString → Option SplitResult)
    (mergingSeparator : UnicodeString) :
    List UnicodeString → List UnicodeString → List UnicodeString → List UnicodeString →
      Option SplitResult
  | [], goodSplits, separators, finalChunks =>
      some (.ok (separators, splitter.mergeGood goodSplits mergingSeparator finalChunks))
  | s :: splits, goodSplits, separators, finalChunks =>
      if splitter.lengthCalculator s < splitter.chunkSize then
        splitPieces recurse mergingSeparator splits (goodSplits ++ [s]) separators finalChunks
      else
        let finalChunks := splitter.mergeGood goodSplits mergingSeparator finalChunks
        if separators = [] then
          splitPieces recurse mergingSeparator splits [] separators (finalChunks ++ [s])
        else
          match recurse s separators finalChunks with
          | some (.ok (separators, finalChunks)) =>
              splitPieces recurse mergingSeparator splits [] separators finalChunks
          | other => other

/-- `SplitText_`; `none` when the fuel for its recursion is used up. -/
def splitText_ : Nat → UnicodeString → List UnicodeString → List UnicodeString →
    Option SplitResult
  | 0, _, _, _ => none
  | fuel + 1, text, separators, finalChunks =>
      if separators = [] then some (.error (.undefinedBehaviour "separators.back()"))
      else
        let choice := chooseSeparator text separators
        match splitTextWithSeperator splitter.graphemes text choice.1 splitter.keepSeparator with
        | .error e => some (.error e)
        | .ok splits =>
            splitPieces splitter (splitText_ fuel)
              (if splitter.keepSeparator then [] else choice.1) splits [] choice.2 finalChunks

/-- `RecursiveCharacterTextSplitter::SplitText`. -/
def splitText (separators : List UnicodeString) (fuel : Nat) (text : UnicodeString) :
    Option (Except Exn (List UnicodeString)) :=
  (splitter.splitText_ fuel text separators []).map fun result => result.map Prod.snd

/-! ### What the pieces that wait must be like -/

/-- The piece is merged with others. -/
abbrev IsSmall (s : UnicodeString) : Prop := splitter.lengthCalculator s < splitter.chunkSize

/-- The pieces of a text at a separator. -/
def piecesAt (text sep : UnicodeString) : List UnicodeString :=
  (if sep = [] then splitter.graphemes text
    else if splitter.keepSeparator then withSeparators sep (fields sep text)
    else fields sep text).filter (· ≠ [])

/-- The split of the text at the separator reads existing splits only. -/
def SplitsSafely (text sep : UnicodeString) : Prop :=
  sep = [] ∨ splitter.keepSeparator = false ∨ ¬ Loses sep 9 text

instance (text sep : UnicodeString) : Decidable (splitter.SplitsSafely text sep) :=
  inferInstanceAs (Decidable (_ ∨ _ ∨ _))

variable (cuts : UnicodeString → UnicodeString → Prop) (ok : UnicodeString → Prop)

/-- The first waiting piece that is too long is cut at a separator, its pieces wait in its
place, and so on.  Without separators all pieces that are too long must be as they should.
`cuts` is what the cuts must be like. -/
def FitsUpTo : Nat → List UnicodeString → List UnicodeString → Prop
  | 0, _, waiting => ∀ s ∈ waiting, ¬ splitter.IsSmall s → ok s
  | n + 1, separators, waiting =>
      if separators = [] then ∀ s ∈ waiting, ¬ splitter.IsSmall s → ok s
      else
        match waiting.dropWhile fun s => splitter.IsSmall s with
        | [] => True
        | s :: rest =>
            match separators.find? (canSplit s) with
            | none => False
            | some sep =>
                cuts s sep
                  ∧ FitsUpTo n (remaining sep separators) (splitter.piecesAt s sep ++ rest)

/-- What happens to the waiting pieces, with the separators that are left. -/
def Fits (separators waiting : List UnicodeString) : Prop :=
  splitter.FitsUpTo cuts ok separators.length separators waiting

/-- The text is cut whatever its length is. -/
def FitsText (separators : List UnicodeString) (text : UnicodeString) : Prop :=
  match separators.find? (canSplit text) with
  | some sep =>
      cuts text sep
        ∧ splitter.Fits cuts ok (remaining sep separators) (splitter.piecesAt text sep)
  | none => if text = [] then splitter.keepSeparator = false else splitter.IsSmall text

section Fits

variable {splitter cuts ok} {separators waiting rest : List UnicodeString} {s sep : UnicodeString}

theorem length_remaining_lt (hsep : sep ∈ separators) :
    (remaining sep separators).length < separators.length := by
  have hpos := List.length_pos_of_mem hsep
  rw [remaining]
  split
  · exact hpos
  · rw [List.length_erase_of_mem hsep]
    omega

theorem fitsUpTo_nil (n : Nat) :
    splitter.FitsUpTo cuts ok n [] waiting ↔ ∀ s ∈ waiting, ¬ splitter.IsSmall s → ok s := by
  cases n with
  | zero => exact Iff.rfl
  | succ n => rw [FitsUpTo, if_pos rfl]

/-- With a level for each separator, further ones do not matter. -/
theorem fitsUpTo_iff {m n : Nat} (hm : separators.length ≤ m) (hn : separators.length ≤ n) :
    splitter.FitsUpTo cuts ok m separators waiting
      ↔ splitter.FitsUpTo cuts ok n separators waiting := by
  induction m generalizing separators waiting n with
  | zero =>
      obtain rfl := List.length_eq_zero_iff.mp (Nat.le_zero.mp hm)
      rw [fitsUpTo_nil, fitsUpTo_nil]
  | succ m ih =>
      by_cases hnil : separators = []
      · rw [hnil, fitsUpTo_nil, fitsUpTo_nil]
      · have hpos := List.length_pos_iff.mpr hnil
        obtain ⟨n, rfl⟩ := Nat.exists_eq_succ_of_ne_zero (hpos.trans_le hn).ne'
        rw [FitsUpTo, if_neg hnil, FitsUpTo, if_neg hnil]
        split
        · exact Iff.rfl
        · split
          · exact Iff.rfl
          · rename_i hfind
            have hlt := length_remaining_lt (List.mem_of_find?_eq_some hfind)
            exact and_congr_right fun _ => ih (by omega) (by omega)

theorem fits_nil : splitter.Fits cuts ok [] waiting ↔ ∀ s ∈ waiting, ¬ splitter.IsSmall s → ok s :=
  fitsUpTo_nil 0

/-- Nothing waits. -/
theorem fits_done : splitter.Fits cuts ok separators [] := by
  rcases separators with - | ⟨sep, separators⟩
  · exact fits_nil.mpr (List.forall_mem_nil _)
  · rw [Fits, List.length_cons, FitsUpTo, if_neg (List.cons_ne_nil sep separators),
      List.dropWhile_nil]
    trivial

/-- A small piece is no obstacle. -/
theorem fits_small (h : splitter.IsSmall s) :
    splitter.Fits cuts ok separators (s :: rest) ↔ splitter.Fits cuts ok separators rest := by
  rcases separators with - | ⟨sep, separators⟩
  · rw [fits_nil, fits_nil, List.forall_mem_cons]
    exact and_iff_right fun hlarge => absurd h hlarge
  · have hne := List.cons_ne_nil sep separators
    rw [Fits, Fits, List.length_cons, FitsUpTo, if_neg hne, FitsUpTo, if_neg hne,
      List.dropWhile_cons_of_pos (by simpa)]

/-- Without separators a piece becomes a chunk as it is. -/
theorem fits_whole (h : ¬ splitter.IsSmall s) :
    splitter.Fits cuts ok [] (s :: rest) ↔ ok s ∧ splitter.Fits cuts ok [] rest := by
  rw [fits_nil, fits_nil, List.forall_mem_cons]
  exact and_congr_left fun _ => forall_prop_of_true h

/-- **A piece that is too long** is cut at the first separator that it contains. -/
theorem fits_cut (hseparators : separators ≠ []) (h : ¬ splitter.IsSmall s) :
    splitter.Fits cuts ok separators (s :: rest) ↔
      ∃ sep, separators.find? (canSplit s) = some sep ∧ cuts s sep
        ∧ splitter.Fits cuts ok (remaining sep separators) (splitter.piecesAt s sep ++ rest) := by
  obtain ⟨n, hn⟩ := Nat.exists_eq_succ_of_ne_zero (List.length_pos_iff.mpr hseparators).ne'
  rw [Fits, hn, FitsUpTo, if_neg hseparators, List.dropWhile_cons_of_neg (by simpa using h)]
  simp only
  rcases hfind : separators.find? (canSplit s) with - | sep
  · simp
  · have hlt := length_remaining_lt (List.mem_of_find?_eq_some hfind)
    have hlevel : splitter.FitsUpTo cuts ok n (remaining sep separators)
          (splitter.piecesAt s sep ++ rest)
        ↔ splitter.Fits cuts ok (remaining sep separators) (splitter.piecesAt s sep ++ rest) :=
      fitsUpTo_iff (by omega) (Nat.le_refl _)
    simp only [Option.some.injEq, exists_eq_left', hlevel]

/-- What is asked of the cuts and of the pieces may be read off the texts they are in. -/
theorem fits_of_inside {inside : UnicodeString → Prop}
    {cuts' : UnicodeString → UnicodeString → Prop} {ok' : UnicodeString → Prop}
    (hpieces : ∀ text sep, inside text → ∀ s ∈ splitter.piecesAt text sep, inside s)
    (hcuts : ∀ text sep, inside text → cuts text sep → cuts' text sep)
    (hok : ∀ s, inside s → ok s → ok' s) (hwaiting : ∀ s ∈ waiting, inside s)
    (h : splitter.Fits cuts ok separators waiting) : splitter.Fits cuts' ok' separators waiting := by
  induction hn : separators.length using Nat.strongRecOn generalizing separators waiting with
  | ind n ih =>
      induction waiting with
      | nil => exact fits_done
      | cons s rest ihRest =>
          obtain ⟨hs, hrest⟩ := List.forall_mem_cons.mp hwaiting
          by_cases hsmall : splitter.IsSmall s
          · exact (fits_small hsmall).mpr (ihRest hrest ((fits_small hsmall).mp h))
          · by_cases hnil : separators = []
            · subst hnil
              obtain ⟨hwhole, hlater⟩ := (fits_whole hsmall).mp h
              exact (fits_whole hsmall).mpr ⟨hok s hs hwhole, ihRest hrest hlater⟩
            · obtain ⟨sep, hfind, hcut, hlater⟩ := (fits_cut hnil hsmall).mp h
              have hlt := length_remaining_lt (List.mem_of_find?_eq_some hfind)
              have hall := List.forall_mem_append.mpr ⟨hpieces s sep hs, hrest⟩
              exact (fits_cut hnil hsmall).mpr
                ⟨sep, hfind, hcuts s sep hs hcut, ih _ (hn ▸ hlt) hall hlater rfl⟩

end Fits

/-! ### What a call does -/

section Call

variable {splitter cuts ok}
  {separators rest good pieces chunks separators' chunks' : List UnicodeString}
  {text sep : UnicodeString} {fuel : Nat}

theorem chooseSeparator_of_some (hfind : separators.find? (canSplit text) = some sep) :
    chooseSeparator text separators
      = (escapeForRegularExpression sep, remaining sep separators) := by
  rw [chooseSeparator, hfind]

theorem ne_nil_of_canSplit (hcan : canSplit text sep = true) (hsep : sep ≠ []) : text ≠ [] := by
  rintro rfl
  simp [canSplit, hsep, cut] at hcan

/-- A text is split into its pieces at the separator. -/
theorem split_of_safe (htext : sep ≠ [] → splitter.keepSeparator = true → text ≠ [])
    (hsafe : splitter.SplitsSafely text sep) :
    splitTextWithSeperator splitter.graphemes text (escapeForRegularExpression sep)
      splitter.keepSeparator = .ok (splitter.piecesAt text sep) := by
  rw [piecesAt]
  by_cases hsep : sep = []
  · rw [hsep, if_pos rfl]
    exact splitTextWithSeperator_graphemes _
  · rw [if_neg hsep]
    cases hkeep : splitter.keepSeparator with
    | false => exact splitTextWithSeperator_drop splitter.graphemes hsep
    | true =>
        have hkept : ¬ Loses sep 9 text := by
          simpa [SplitsSafely, hsep, hkeep] using hsafe
        exact splitTextWithSeperator_keep splitter.graphemes hsep (htext hsep hkeep) hkept

theorem split_of_unsafe (hsafe : ¬ splitter.SplitsSafely text sep) :
    ∃ place, splitTextWithSeperator splitter.graphemes text (escapeForRegularExpression sep)
      splitter.keepSeparator = .error (.undefinedBehaviour place) := by
  rw [SplitsSafely, not_or, not_or, not_not, Bool.not_eq_false] at hsafe
  obtain ⟨hsep, hkeep, hloses⟩ := hsafe
  rw [hkeep]
  exact splitTextWithSeperator_broken splitter.graphemes hsep (.inr hloses)

/-- Where no separator occurs, the last one is tried in vain. -/
theorem split_of_none (splitter : BaseTextSplitter)
    (hfind : separators.find? (canSplit text) = none) (hne : separators ≠ []) :
    (chooseSeparator text separators).2 = separators
      ∧ splitTextWithSeperator splitter.graphemes text (chooseSeparator text separators).1
          splitter.keepSeparator
        = if text ≠ [] then .ok [text]
          else if splitter.keepSeparator then .error (.undefinedBehaviour "splits[0]")
          else .ok [] := by
  have hlast : separators.getLastD [] = separators.getLast hne := by
    rw [List.getLastD_eq_getLast?, List.getLast?_eq_some_getLast hne]
    rfl
  have hcannot := List.find?_eq_none.mp hfind _ (List.getLast_mem hne)
  rw [chooseSeparator, hfind]
  simp only [hlast]
  refine ⟨trivial, ?_⟩
  generalize separators.getLast hne = last at hcannot
  obtain ⟨hsep, hcut⟩ : last ≠ [] ∧ cut last text = none := by
    simpa [canSplit] using hcannot
  have hfields := fields_of_none hcut
  have hkept : ¬ Loses last 9 text := by
    rintro ⟨⟨hmany, -⟩, -⟩
    rw [hfields] at hmany
    exact absurd hmany (by simp)
  by_cases htext : text = []
  · subst htext
    cases splitter.keepSeparator with
    | false => rw [splitTextWithSeperator_drop splitter.graphemes hsep]; rfl
    | true =>
        rw [splitTextWithSeperator, if_neg (escape_ne_nil hsep), if_pos rfl, splitWithRegex,
          compileLiteral_group]
        rfl
  · rw [if_pos htext]
    cases splitter.keepSeparator with
    | false =>
        rw [splitTextWithSeperator_drop splitter.graphemes hsep, hfields]
        simp [htext]
    | true =>
        rw [splitTextWithSeperator_keep splitter.graphemes hsep htext hkept, hfields]
        simp [withSeparators, htext]

/-- The merge only appends. -/
theorem exists_mergeGood (splitter : BaseTextSplitter) (good : List UnicodeString)
    (separator : UnicodeString) (chunks : List UnicodeString) :
    ∃ docs, splitter.mergeGood good separator chunks = chunks ++ docs
      ∧ ∀ doc ∈ docs, doc ∈ splitter.chunksOf separator
          (pack (splitter.limits separator) splitter.lengthCalculator good) := by
  rw [mergeGood]
  split
  · exact ⟨_, mergeSplits_eq good chunks, fun doc hdoc => hdoc⟩
  · exact ⟨[], (List.append_nil _).symm, nofun⟩

end Call

/-! ### Runs -/

/-- Small pieces that are merged make chunks that are as they should be. -/
def MergesWell (splitter : BaseTextSplitter) (ok : UnicodeString → Prop) : Prop :=
  ∀ separator good, (splitter.keepSeparator = true → separator = []) →
    (∀ s ∈ good, splitter.IsSmall s) → splitter.MergesTo ok separator good

/-- The cuts are safe, and the small pieces that come together after one are merged to chunks
that are as they should be. -/
def CutsWell (splitter : BaseTextSplitter) (cuts : UnicodeString → UnicodeString → Prop)
    (ok : UnicodeString → Prop) : Prop :=
  ∀ text sep, cuts text sep → splitter.SplitsSafely text sep
    ∧ ∀ good ∈ runsFrom splitter.IsSmall [] (splitter.piecesAt text sep),
      splitter.MergesTo ok (splitter.mergingSeparator sep) good

/-- The text can be cut, and then its pieces and those behind them fit. -/
def CutFits (splitter : BaseTextSplitter) (cuts : UnicodeString → UnicodeString → Prop)
    (ok : UnicodeString → Prop) (separators : List UnicodeString) (text : UnicodeString)
    (rest : List UnicodeString) : Prop :=
  ∃ sep, separators.find? (canSplit text) = some sep ∧ cuts text sep
    ∧ splitter.Fits cuts ok (remaining sep separators) (splitter.piecesAt text sep ++ rest)

/-- A call comes back with good chunks, and what still waits fits the separators it leaves. -/
def Finishes (splitter : BaseTextSplitter) (cuts : UnicodeString → UnicodeString → Prop)
    (ok : UnicodeString → Prop) (result : Option SplitResult)
    (separators rest : List UnicodeString) : Prop :=
  ∃ separators' chunks', result = some (.ok (separators', chunks'))
    ∧ separators'.length ≤ separators.length ∧ splitter.Fits cuts ok separators' rest
    ∧ ∀ chunk ∈ chunks', ok chunk

/-- A run of the splitter on the text returns, with chunks that are as they should be. -/
def Returns (splitter : BaseTextSplitter) (ok : UnicodeString → Prop)
    (separators : List UnicodeString) (text : UnicodeString) : Prop :=
  ∃ fuel chunks, splitter.splitText separators fuel text = some (.ok chunks)
    ∧ ∀ chunk ∈ chunks, ok chunk

section Runs

variable {splitter cuts ok}
  {separators rest good pieces chunks separators' chunks' : List UnicodeString}
  {text sep mergingSeparator : UnicodeString} {fuel : Nat}

theorem cutsWell_of_mergesWell (h : splitter.MergesWell ok) :
    splitter.CutsWell splitter.SplitsSafely ok :=
  fun _ _ hsafe => ⟨hsafe, fun good hgood => h _ good (fun hkeep => if_pos hkeep)
    (forall_of_mem_runsFrom (List.forall_mem_nil _) hgood)⟩

theorem ok_mergeGood (hmerges : splitter.MergesTo ok mergingSeparator good)
    (hchunks : ∀ chunk ∈ chunks, ok chunk) :
    ∀ chunk ∈ splitter.mergeGood good mergingSeparator chunks, ok chunk := by
  obtain ⟨docs, hdocs, hmem⟩ := exists_mergeGood splitter good mergingSeparator chunks
  rw [hdocs]
  exact List.forall_mem_append.mpr ⟨hchunks, fun doc hdoc => hmerges doc (hmem doc hdoc)⟩

/-- The loop over the pieces, when the recursive calls finish on what fits. -/
theorem finishes_splitPieces
    (hmerges : ∀ run ∈ runsFrom splitter.IsSmall good pieces,
      splitter.MergesTo ok mergingSeparator run)
    (hcall : ∀ text separators rest chunks, separators.length ≤ fuel →
      splitter.CutFits cuts ok separators text rest → (∀ chunk ∈ chunks, ok chunk) →
      splitter.Finishes cuts ok (splitter.splitText_ fuel text separators chunks) separators rest)
    (hfuel : separators.length ≤ fuel) (hfits : splitter.Fits cuts ok separators (pieces ++ rest))
    (hchunks : ∀ chunk ∈ chunks, ok chunk) :
    splitter.Finishes cuts ok (splitter.splitPieces (splitter.splitText_ fuel) mergingSeparator
      pieces good separators chunks) separators rest := by
  induction pieces generalizing good separators chunks with
  | nil =>
      have hgood := hmerges good (List.mem_singleton.mpr rfl)
      exact ⟨_, _, rfl, Nat.le_refl _, hfits, ok_mergeGood hgood hchunks⟩
  | cons s pieces ih =>
      rw [splitPieces]
      rw [runsFrom] at hmerges
      by_cases hsmall : splitter.IsSmall s
      · rw [if_pos hsmall] at hmerges ⊢
        exact ih hmerges hfuel ((fits_small hsmall).mp hfits) hchunks
      · rw [if_neg hsmall] at hmerges ⊢
        obtain ⟨hgood, hmerges⟩ := List.forall_mem_cons.mp hmerges
        have hmerged := ok_mergeGood hgood hchunks
        by_cases hnil : separators = []
        · subst hnil
          obtain ⟨hok, hrest⟩ := (fits_whole hsmall).mp hfits
          simp only [if_true]
          exact ih hmerges hfuel hrest
            (List.forall_mem_append.mpr ⟨hmerged, List.forall_mem_singleton.mpr hok⟩)
        · obtain ⟨separators', chunks', hresult, hlength, hrest, hchunks'⟩ :=
            hcall s separators (pieces ++ rest) _ hfuel ((fits_cut hnil hsmall).mp hfits) hmerged
          simp only [if_neg hnil, hresult]
          obtain ⟨last, all, hall, hless, hlast⟩ :=
            ih hmerges (hlength.trans hfuel) hrest hchunks'
          exact ⟨last, all, hall, hless.trans hlength, hlast⟩

/-- **A call finishes on what fits.**  Each level of the recursion has one separator less. -/
theorem finishes_splitText_ (hcuts : splitter.CutsWell cuts ok)
    (hfuel : separators.length ≤ fuel) (hfits : splitter.CutFits cuts ok separators text rest)
    (hchunks : ∀ chunk ∈ chunks, ok chunk) :
    splitter.Finishes cuts ok (splitter.splitText_ fuel text separators chunks)
      separators rest := by
  induction fuel generalizing text separators rest chunks with
  | zero =>
      obtain ⟨sep, hfind, -⟩ := hfits
      obtain rfl := List.length_eq_zero_iff.mp (Nat.le_zero.mp hfuel)
      cases hfind
  | succ fuel ih =>
      obtain ⟨sep, hfind, hcut, hwait⟩ := hfits
      obtain ⟨hsafe, hmerges⟩ := hcuts text sep hcut
      have hne : separators ≠ [] := List.ne_nil_of_mem (List.mem_of_find?_eq_some hfind)
      have hlt := length_remaining_lt (List.mem_of_find?_eq_some hfind)
      have hcan := List.find?_some hfind
      have hsplit := split_of_safe (fun hsep _ => ne_nil_of_canSplit hcan hsep) hsafe
      simp only [splitText_, if_neg hne, chooseSeparator_of_some hfind, hsplit]
      obtain ⟨last, all, hall, hless, hlast⟩ := finishes_splitPieces hmerges
        (fun text separators rest chunks => ih) (by omega) hwait hchunks
      exact ⟨last, all, hall, hless.trans hlt.le, hlast⟩

/-- The loop only adds chunks, if the recursive calls do. -/
theorem subset_of_splitPieces
    (hcall : ∀ text separators chunks separators' chunks',
      splitter.splitText_ fuel text separators chunks = some (.ok (separators', chunks')) →
        chunks ⊆ chunks')
    (h : splitter.splitPieces (splitter.splitText_ fuel) mergingSeparator pieces good separators
      chunks = some (.ok (separators', chunks'))) : chunks ⊆ chunks' := by
  have hmerge : ∀ good chunks, chunks ⊆ splitter.mergeGood good mergingSeparator chunks := by
    intro good chunks
    obtain ⟨docs, hdocs, -⟩ := exists_mergeGood splitter good mergingSeparator chunks
    rw [hdocs]
    exact List.subset_append_left _ _
  induction pieces generalizing good separators chunks with
  | nil =>
      obtain ⟨-, rfl⟩ := Prod.mk.inj (Except.ok.inj (Option.some.inj h))
      exact hmerge good chunks
  | cons s pieces ih =>
      rw [splitPieces] at h
      split at h
      · exact ih h
      · simp only at h
        split at h
        · exact List.Subset.trans (hmerge good chunks)
            (List.Subset.trans (List.subset_append_left _ _) (ih h))
        · split at h
          · rename_i hresult
            exact List.Subset.trans (hmerge good chunks)
              (List.Subset.trans (hcall _ _ _ _ _ hresult) (ih h))
          · rename_i hother
            exact absurd h (hother _ _)

theorem subset_of_splitText_
    (h : splitter.splitText_ fuel text separators chunks = some (.ok (separators', chunks'))) :
    chunks ⊆ chunks' := by
  induction fuel generalizing text separators chunks separators' chunks' with
  | zero => cases h
  | succ fuel ih =>
      rw [splitText_] at h
      split at h
      · cases h
      · simp only at h
        split at h
        · cases h
        · exact subset_of_splitPieces (fun _ _ _ _ _ => ih) h

/-- What a loop that came back with good chunks went through. -/
theorem fits_of_splitPieces
    (hcall : ∀ text separators rest chunks separators' chunks',
      splitter.splitText_ fuel text separators chunks = some (.ok (separators', chunks')) →
        text ≠ [] → ¬ splitter.IsSmall text → splitter.Fits cuts ok separators' rest →
        (∀ chunk ∈ chunks', ok chunk) → splitter.CutFits cuts ok separators text rest)
    (h : splitter.splitPieces (splitter.splitText_ fuel) mergingSeparator pieces good separators
      chunks = some (.ok (separators', chunks')))
    (hpieces : ∀ s ∈ pieces, s ≠ []) (hfits : splitter.Fits cuts ok separators' rest)
    (hok : ∀ chunk ∈ chunks', ok chunk) : splitter.Fits cuts ok separators (pieces ++ rest) := by
  induction pieces generalizing good separators chunks with
  | nil =>
      obtain ⟨rfl, -⟩ := Prod.mk.inj (Except.ok.inj (Option.some.inj h))
      exact hfits
  | cons s pieces ih =>
      obtain ⟨hs, hpieces⟩ := List.forall_mem_cons.mp hpieces
      have hsubset : ∀ text separators chunks separators' chunks',
          splitter.splitText_ fuel text separators chunks = some (.ok (separators', chunks')) →
            chunks ⊆ chunks' := fun _ _ _ _ _ => subset_of_splitText_
      rw [List.cons_append]
      rw [splitPieces] at h
      by_cases hsmall : splitter.IsSmall s
      · rw [if_pos hsmall] at h
        exact (fits_small hsmall).mpr (ih h hpieces)
      · rw [if_neg hsmall] at h
        by_cases hnil : separators = []
        · subst hnil
          simp only [if_true] at h
          have hmem := subset_of_splitPieces hsubset h
            (List.mem_append_right _ (List.mem_singleton.mpr rfl))
          exact (fits_whole hsmall).mpr ⟨hok s hmem, ih h hpieces⟩
        · simp only [if_neg hnil] at h
          split at h
          · rename_i hresult
            have hlater := ih h hpieces
            have hchunks := fun chunk hchunk =>
              hok chunk (subset_of_splitPieces hsubset h hchunk)
            exact (fits_cut hnil hsmall).mpr
              (hcall _ _ _ _ _ _ hresult hs hsmall hlater hchunks)
          · rename_i hother
            exact absurd h (hother _ _)

/-- **What a call that came back went through.**  A text that is too long and contains none of
the separators is tried again and again. -/
theorem cutFits_of_splitText_ (hcuts : ∀ text sep, splitter.SplitsSafely text sep → cuts text sep)
    (h : splitter.splitText_ fuel text separators chunks = some (.ok (separators', chunks')))
    (htext : separators.find? (canSplit text) ≠ none ∨ text ≠ [] ∧ ¬ splitter.IsSmall text)
    (hfits : splitter.Fits cuts ok separators' rest) (hok : ∀ chunk ∈ chunks', ok chunk) :
    splitter.CutFits cuts ok separators text rest := by
  induction fuel generalizing text separators rest chunks separators' chunks' with
  | zero => cases h
  | succ fuel ih =>
      have hcall : ∀ text separators rest chunks separators' chunks',
          splitter.splitText_ fuel text separators chunks = some (.ok (separators', chunks')) →
            text ≠ [] → ¬ splitter.IsSmall text → splitter.Fits cuts ok separators' rest →
            (∀ chunk ∈ chunks', ok chunk) → splitter.CutFits cuts ok separators text rest :=
        fun _ _ _ _ _ _ h hne hlarge => ih h (.inr ⟨hne, hlarge⟩)
      by_cases hnil : separators = []
      · rw [splitText_, if_pos hnil] at h
        cases h
      · simp only [splitText_, if_neg hnil] at h
        rcases hfind : separators.find? (canSplit text) with - | sep
        · obtain ⟨hne, hlarge⟩ := htext.resolve_left (not_not.mpr hfind)
          obtain ⟨hkept, hsplit⟩ := split_of_none splitter hfind hnil
          rw [hsplit, hkept, if_pos hne] at h
          -- the only piece is the text itself, and it waits for the same separators
          have hagain := fits_of_splitPieces hcall h (List.forall_mem_singleton.mpr hne) hfits hok
          exact (fits_cut hnil hlarge).mp hagain
        · rw [chooseSeparator_of_some hfind] at h
          by_cases hsafe : splitter.SplitsSafely text sep
          · have hcan := List.find?_some hfind
            have hsplit := split_of_safe (fun hsep _ => ne_nil_of_canSplit hcan hsep) hsafe
            rw [hsplit] at h
            have hpieces := ne_nil_of_splitTextWithSeperator hsplit
            exact ⟨sep, hfind, hcuts text sep hsafe, fits_of_splitPieces hcall h hpieces hfits hok⟩
          · obtain ⟨place, hplace⟩ := split_of_unsafe hsafe
            rw [hplace] at h
            cases h

theorem returns_iff :
    splitter.Returns ok separators text ↔ ∃ fuel separators' chunks',
      splitter.splitText_ fuel text separators [] = some (.ok (separators', chunks'))
        ∧ ∀ chunk ∈ chunks', ok chunk := by
  refine exists_congr fun fuel => ?_
  rw [splitText]
  rcases splitter.splitText_ fuel text separators [] with - | (e | ⟨separators', chunks'⟩)
  · simp
  · simp [Except.map]
  · simp [Except.map]

/-- A text without any of the separators must be merged at once. -/
theorem returns_iff_of_none (hmerges : splitter.MergesWell ok) (hne : separators ≠ [])
    (hfind : separators.find? (canSplit text) = none) :
    splitter.Returns ok separators text
      ↔ if text = [] then splitter.keepSeparator = false else splitter.IsSmall text := by
  obtain ⟨hkept, hsplit⟩ := split_of_none splitter hfind hne
  rw [returns_iff]
  by_cases htext : text = []
  · rw [if_pos htext]
    rw [if_neg (not_not.mpr htext)] at hsplit
    constructor
    · rintro ⟨fuel, separators', chunks', hrun, -⟩
      cases fuel with
      | zero => cases hrun
      | succ fuel =>
          simp only [splitText_, if_neg hne, hsplit] at hrun
          by_contra hkeep
          rw [if_pos (by simpa using hkeep)] at hrun
          cases hrun
    · intro hkeep
      rw [if_neg (by simp [hkeep])] at hsplit
      refine ⟨1, separators, [], ?_, List.forall_mem_nil _⟩
      simp only [splitText_, if_neg hne, hsplit, hkept]
      rfl
  · rw [if_neg htext]
    rw [if_pos htext] at hsplit
    constructor
    · rintro ⟨fuel, separators', chunks', hrun, hok⟩
      by_contra hlarge
      obtain ⟨sep, hsep, -⟩ := cutFits_of_splitText_ (fun _ _ hsafe => hsafe) hrun
        (.inr ⟨htext, hlarge⟩) fits_done hok
      rw [hfind] at hsep
      cases hsep
    · intro hsmall
      have hlast : ∀ chunk ∈ splitter.mergeGood [text]
          (if splitter.keepSeparator then [] else (chooseSeparator text separators).1) [],
          ok chunk :=
        ok_mergeGood (hmerges _ _ (fun hkeep => if_pos hkeep)
          (List.forall_mem_singleton.mpr hsmall)) (List.forall_mem_nil ok)
      refine ⟨1, separators, _, ?_, hlast⟩
      simp only [splitText_, if_neg hne, hsplit, hkept, splitPieces, if_pos hsmall]
      rfl

/-- **The splitter comes back with good chunks** if and only if the text fits. -/
theorem returns_iff_fits (hmerges : splitter.MergesWell ok) (hne : separators ≠ []) :
    splitter.Returns ok separators text
      ↔ splitter.FitsText splitter.SplitsSafely ok separators text := by
  rw [FitsText]
  rcases hfind : separators.find? (canSplit text) with - | sep
  · exact returns_iff_of_none hmerges hne hfind
  · rw [returns_iff]
    constructor
    · rintro ⟨fuel, separators', chunks', hrun, hok⟩
      obtain ⟨sep', hsep', hsafe, hfits⟩ :=
        cutFits_of_splitText_ (fun _ _ hsafe => hsafe) hrun (.inl (by simp [hfind])) fits_done hok
      obtain rfl := Option.some.inj (hfind.symm.trans hsep')
      rw [List.append_nil] at hfits
      exact ⟨hsafe, hfits⟩
    · rintro ⟨hsafe, hfits⟩
      have hcut : splitter.CutFits splitter.SplitsSafely ok separators text [] :=
        ⟨sep, hfind, hsafe, by rwa [List.append_nil]⟩
      obtain ⟨separators', chunks', hrun, -, -, hok⟩ :=
        finishes_splitText_ (cutsWell_of_mergesWell hmerges) (Nat.le_refl _) hcut
          (List.forall_mem_nil ok)
      exact ⟨_, separators', chunks', hrun, hok⟩

end Runs

/-! ### Splitters that come back -/

/-- The run ends, and with chunks. -/
def ComesBack (splitter : BaseTextSplitter) (separators : List UnicodeString)
    (text : UnicodeString) : Prop :=
  ∃ fuel chunks, splitter.splitText separators fuel text = some (.ok chunks)

theorem comesBack_iff_returns {splitter : BaseTextSplitter} {separators : List UnicodeString}
    {text : UnicodeString} :
    splitter.ComesBack separators text ↔ splitter.Returns (fun _ => True) separators text := by
  refine exists_congr fun fuel => exists_congr fun chunks => ?_
  exact (and_iff_left fun _ _ => trivial).symm

/-- **The splitter comes back** if and only if each piece that is too long, at the time when it
is cut, contains one of the separators that are left, and is not cut right at the end of a
round. -/
theorem comesBack_iff_fits (splitter : BaseTextSplitter) {separators : List UnicodeString}
    (hne : separators ≠ []) (text : UnicodeString) :
    splitter.ComesBack separators text
      ↔ splitter.FitsText splitter.SplitsSafely (fun _ => True) separators text :=
  comesBack_iff_returns.trans (returns_iff_fits (fun _ _ _ _ _ _ => trivial) hne)

/-- Chunks of three characters at most. -/
def threes : BaseTextSplitter where
  chunkSize := 3
  chunkOverlap := 0
  keepSeparator := true
  stripWhitespace := true
  lengthCalculator := List.length
  graphemes := codePoints

theorem threes_comesBack : threes.ComesBack [[' ']] "ab c def".toList :=
  (comesBack_iff_fits threes (by decide) "ab c def".toList).mpr
    ⟨by decide, fits_nil.mpr fun _ _ _ => trivial⟩

/-- A word of six characters is tried again and again. -/
theorem threes_loops : ¬ threes.ComesBack [[' ']] "abcdef".toList := by
  rw [comesBack_iff_returns, returns_iff_of_none (fun _ _ _ _ _ _ => trivial) (by decide) rfl]
  decide

/-! ### Chunks that are not too long -/

/-- The chunk keeps to the size, or it is a grapheme of the text. -/
def IsBounded (splitter : BaseTextSplitter) (text chunk : UnicodeString) : Prop :=
  chunk.length ≤ splitter.chunkSize ∨ chunk ∈ splitter.graphemes text

instance (splitter : BaseTextSplitter) (text chunk : UnicodeString) :
    Decidable (splitter.IsBounded text chunk) :=
  inferInstanceAs (Decidable (_ ∨ _))

theorem mergesWell_isBounded {splitter : BaseTextSplitter} (hkeep : splitter.keepSeparator = true)
    (hlength : splitter.lengthCalculator = List.length) (text : UnicodeString) :
    splitter.MergesWell (splitter.IsBounded text) := by
  intro separator good hseparator hgood doc hdoc
  rw [hseparator hkeep] at hdoc
  refine .inl (length_le_of_mem_mergeSplits hlength (fun s hs => ?_) doc hdoc)
  have hsmall := hgood s hs
  rw [IsSmall, hlength] at hsmall
  exact hsmall.le

/-- **No chunk is too long** if and only if each piece that is still too long when the separators
are used up, or the graphemes have cleared them, is of the very size or a grapheme of the text,
and no text is cut right at the end of a round. -/
theorem bounded_iff_fits {splitter : BaseTextSplitter} (hkeep : splitter.keepSeparator = true)
    (hlength : splitter.lengthCalculator = List.length) {separators : List UnicodeString}
    (hempty : [] ∈ separators) (text : UnicodeString) :
    splitter.Returns (splitter.IsBounded text) separators text
      ↔ splitter.FitsText splitter.SplitsSafely (splitter.IsBounded text) separators text :=
  returns_iff_fits (mergesWell_isBounded hkeep hlength text) (List.ne_nil_of_mem hempty)

theorem threes_bounded :
    threes.Returns (threes.IsBounded "ab c defg".toList) [[' '], []] "ab c defg".toList :=
  (bounded_iff_fits rfl rfl (by decide) "ab c defg".toList).mpr
    ⟨by decide, .inl rfl, fits_nil.mpr (by decide)⟩

/-- The first word clears the separators, and the second one becomes a chunk of five. -/
theorem threes_exceeded :
    ¬ threes.Returns (threes.IsBounded "abcd efgh".toList) [[' '], []] "abcd efgh".toList := by
  rw [returns_iff_fits (mergesWell_isBounded rfl rfl _) (by decide)]
  rintro ⟨-, hfits⟩
  obtain ⟨sep, hfind, -, hrest⟩ := (fits_cut (by decide) (by decide)).mp hfits
  obtain rfl : [] = sep := Option.some.inj hfind
  have hlong := fits_nil.mp hrest " efgh".toList (by decide) (by decide)
  exact absurd hlong (by decide)

end BaseTextSplitter

end Instinct
