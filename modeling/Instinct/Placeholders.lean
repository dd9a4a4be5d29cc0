/-
Instinct/Placeholders.lean

Texts with placeholders, as a small library of its own.

A scanner finds a placeholder at the beginning of a text.  `tokens` reads a text from the
left, and `substitute` puts a value in the place of each placeholder, of all at once.
Placeholders that are replaced one after the other, each at the first place where its
text occurs, are replaced there if none occurs in what has been put in front of
it (`Undisturbed`).  That is so whatever the values are if there is one placeholder at most
(`undisturbed_of_single`).

Two scanners that differ in how many letters of some kind they take with a placeholder
read a text the same if a letter in the place of all placeholders gives the same text
(`Differ.tokens_eq`).
-/
import Mathlib.Data.List.Basic
import Mathlib.Data.List.Infix

namespace Placeholders

variable {α κ : Type}

/-- A letter, or a placeholder with its key. -/
inductive Token (α κ : Type)
  | letter (a : α)
  | placeholder (text : List α) (key : κ)

/-- The text of a token. -/
def Token.text : Token α κ → List α
  | .letter a => [a]
  | .placeholder text _ => text

/-- What stands for a token, once its placeholder is replaced. -/
def Token.value (value : κ → List α) : Token α κ → List α
  | .letter a => [a]
  | .placeholder _ key => value key

/-- The text and the key of a placeholder. -/
def Token.placeholder? : Token α κ → Option (List α × κ)
  | .letter _ => none
  | .placeholder text key => some (text, key)

/-- The tokens of a text, from a place `skip` letters ahead. -/
def tokensFrom (scan : List α → Option (List α × κ)) : Nat → List α → List (Token α κ)
  | _, [] => []
  | skip + 1, _ :: cs => tokensFrom scan skip cs
  | 0, c :: cs =>
      match scan (c :: cs) with
      | some found => .placeholder found.1 found.2 :: tokensFrom scan (found.1.length - 1) cs
      | none => .letter c :: tokensFrom scan 0 cs

/-- The tokens of a text. -/
def tokens (scan : List α → Option (List α × κ)) (cs : List α) : List (Token α κ) :=
  tokensFrom scan 0 cs

/-- Put values in the place of all placeholders. -/
def substitute (value : κ → List α) (ts : List (Token α κ)) : List α :=
  ts.flatMap (·.value value)

/-- The placeholders, in their order. -/
def placeholders (ts : List (Token α κ)) : List (List α × κ) := ts.filterMap (·.placeholder?)

/-- A placeholder is the beginning of the text, and has the sign at its own beginning only. -/
def Marks (sign : α) (scan : List α → Option (List α × κ)) : Prop :=
  ∀ cs found, scan cs = some found →
    ∃ body rest, found.1 = sign :: body ∧ cs = sign :: body ++ rest ∧ sign ∉ body

/-- None of the placeholders occurs in what stands in front of it, once those before it
are replaced. -/
def Undisturbed (value : κ → List α) : List α → List (Token α κ) → Prop
  | _, [] => True
  | front, .letter a :: ts => Undisturbed value (front ++ [a]) ts
  | front, .placeholder text key :: ts =>
      ¬ text <:+: front ∧ Undisturbed value (front ++ value key) ts

/-- What begins like a placeholder is one, perhaps of another text. -/
def Local (scan : List α → Option (List α × κ)) : Prop :=
  ∀ cs found w, scan cs = some found → found.1 <+: w → scan w ≠ none

/-- At no place of the front a placeholder begins. -/
def Passed (scan : List α → Option (List α × κ)) (front cs : List α) : Prop :=
  ∀ w ≠ [], w <:+ front → scan (w ++ cs) = none

theorem placeholders_letters (front : List α) (ts : List (Token α κ)) :
    placeholders (front.map .letter ++ ts) = placeholders ts := by
  induction front with
  | nil => rfl
  | cons c front ih => exact ih

theorem substitute_letters {value : κ → List α} (front : List α) (ts : List (Token α κ)) :
    substitute value (front.map .letter ++ ts) = front ++ substitute value ts := by
  induction front with
  | nil => rfl
  | cons c front ih => exact congrArg (c :: ·) ih

section Scan

variable {sign : α} {scan : List α → Option (List α × κ)} {cs text rest : List α} {key : κ}

@[simp] theorem tokens_nil : tokens scan ([] : List α) = [] := rfl

theorem tokensFrom_skip (skip : Nat) : tokensFrom scan skip cs = tokens scan (cs.drop skip) := by
  induction cs generalizing skip with
  | nil => simp [tokens, tokensFrom]
  | cons c cs ih =>
      cases skip with
      | zero => rfl
      | succ skip => exact ih skip

theorem tokens_letter {c : α} (h : scan (c :: cs) = none) :
    tokens scan (c :: cs) = .letter c :: tokens scan cs := by
  rw [tokens, tokensFrom, h]
  rfl

theorem tokens_placeholder (hmarks : Marks sign scan) (h : scan (text ++ rest) = some (text, key)) :
    tokens scan (text ++ rest) = .placeholder text key :: tokens scan rest := by
  obtain ⟨body, _, hbody, -, -⟩ := hmarks _ _ h
  obtain rfl : text = sign :: body := hbody
  rw [List.cons_append] at h ⊢
  rw [tokens, tokensFrom, h]
  show Token.placeholder _ key :: tokensFrom scan body.length _ = _
  rw [tokensFrom_skip, List.drop_left]

theorem Marks.begins (hmarks : Marks sign scan) {found : List α × κ} (h : scan cs = some found) :
    found.1 <+: cs := by
  obtain ⟨body, rest, hbody, hcs, -⟩ := hmarks _ _ h
  exact ⟨rest, by rw [hbody, hcs]⟩

theorem Marks.ne_nil (hmarks : Marks sign scan) {found : List α × κ} (h : scan cs = some found) :
    found.1 ≠ [] := by
  obtain ⟨body, -, hbody, -, -⟩ := hmarks _ _ h
  rw [hbody]
  exact List.cons_ne_nil _ _

theorem Marks.tokens_of_some (hmarks : Marks sign scan) {found : List α × κ}
    (h : scan cs = some found) : ∃ back, cs = found.1 ++ back ∧
      tokens scan cs = .placeholder found.1 found.2 :: tokens scan back := by
  obtain ⟨back, rfl⟩ := hmarks.begins h
  exact ⟨back, rfl, tokens_placeholder hmarks h⟩

theorem Marks.none_of_ne (hmarks : Marks sign scan) {c : α} (hc : sign ≠ c) :
    scan (c :: cs) = none := by
  rw [Option.eq_none_iff_forall_not_mem]
  intro found hfound
  obtain ⟨body, rest, -, hcs, -⟩ := hmarks _ _ hfound
  exact hc (List.cons.inj hcs).1.symm

theorem Marks.none_of_nil (hmarks : Marks sign scan) : scan [] = none := by
  rw [Option.eq_none_iff_forall_not_mem]
  intro found hfound
  exact hmarks.ne_nil hfound (List.prefix_nil.mp (hmarks.begins hfound))

/-- Read a text from the left: a letter at which no placeholder begins, or a placeholder. -/
theorem scan_induction (hmarks : Marks sign scan) {motive : List α → Prop} (nil : motive [])
    (letter : ∀ c cs, scan (c :: cs) = none → motive cs → motive (c :: cs))
    (placeholder : ∀ text key rest, scan (text ++ rest) = some (text, key) → motive rest →
      motive (text ++ rest)) (cs : List α) : motive cs := by
  induction hn : cs.length using Nat.strongRecOn generalizing cs with
  | ind n ih =>
      cases cs with
      | nil => exact nil
      | cons c cs =>
          rcases hscan : scan (c :: cs) with - | ⟨text, key⟩
          · exact letter c cs hscan (ih cs.length (by rw [← hn]; exact Nat.lt_succ_self _) cs rfl)
          · obtain ⟨body, rest, hbody, hcs, -⟩ := hmarks _ _ hscan
            obtain rfl : text = sign :: body := hbody
            rw [hcs] at hscan hn ⊢
            refine placeholder _ key rest hscan (ih rest.length ?_ rest rfl)
            rw [← hn, List.length_append, List.length_cons]
            omega

/-- Each placeholder is one that the scanner sees. -/
theorem exists_of_mem_placeholders (hmarks : Marks sign scan) {found : List α × κ}
    (h : found ∈ placeholders (tokens scan cs)) : ∃ back, scan back = some found := by
  induction cs using scan_induction hmarks with
  | nil => cases h
  | letter c cs hscan ih =>
      rw [tokens_letter hscan] at h
      exact ih h
  | placeholder text key rest hscan ih =>
      rw [tokens_placeholder hmarks hscan] at h
      rcases List.mem_cons.mp h with rfl | h
      · exact ⟨_, hscan⟩
      · exact ih h

theorem flatMap_text_tokens (hmarks : Marks sign scan) (cs : List α) :
    (tokens scan cs).flatMap (·.text) = cs := by
  induction cs using scan_induction hmarks with
  | nil => rfl
  | letter c cs hscan ih =>
      rw [tokens_letter hscan, List.flatMap_cons, ih]
      rfl
  | placeholder text key rest hscan ih =>
      rw [tokens_placeholder hmarks hscan, List.flatMap_cons, ih]
      rfl

/-- Letters without the sign are passed. -/
theorem tokens_append (hmarks : Marks sign scan) {front : List α} (h : sign ∉ front) :
    tokens scan (front ++ cs) = front.map .letter ++ tokens scan cs := by
  induction front with
  | nil => rfl
  | cons c front ih =>
      obtain ⟨hc, hfront⟩ := not_or.mp (List.mem_cons.not.mp h)
      rw [List.cons_append, tokens_letter (hmarks.none_of_ne hc), ih hfront]
      rfl

/-! ### Passed texts -/

theorem passed_nil : Passed scan [] cs :=
  fun _ hne hsuffix => absurd (List.suffix_nil.mp hsuffix) hne

theorem Passed.cons {c : α} {front : List α} (h : Passed scan front cs)
    (hscan : scan (c :: (front ++ cs)) = none) : Passed scan (c :: front) cs := by
  intro w hne hsuffix
  rcases List.suffix_cons_iff.mp hsuffix with rfl | hsuffix
  · exact hscan
  · exact h w hne hsuffix

theorem Passed.concat {c : α} {front : List α} (h : Passed scan front (c :: cs))
    (hscan : scan (c :: cs) = none) : Passed scan (front ++ [c]) cs := by
  intro w hne hsuffix
  rcases List.suffix_concat_iff.mp hsuffix with rfl | ⟨w, rfl, hin⟩
  · exact absurd rfl hne
  · rw [List.append_assoc]
    by_cases hw : w = []
    · rw [hw]
      exact hscan
    · exact h w hw hin

/-- The text up to the first placeholder. -/
theorem exists_front (hmarks : Marks sign scan) {found : List α × κ} {more : List (List α × κ)}
    (h : placeholders (tokens scan cs) = found :: more) :
    ∃ front back, cs = front ++ found.1 ++ back ∧ Passed scan front (found.1 ++ back) ∧
      scan (found.1 ++ back) = some found ∧ tokens scan cs
        = front.map .letter ++ .placeholder found.1 found.2 :: tokens scan back := by
  induction cs using scan_induction hmarks with
  | nil => cases h
  | letter c cs hscan ih =>
      rw [tokens_letter hscan] at h ⊢
      obtain ⟨front, back, rfl, hpassed, hfound, htokens⟩ := ih h
      rw [List.append_assoc] at hscan
      exact ⟨c :: front, back, rfl, hpassed.cons hscan, hfound, by rw [htokens]; rfl⟩
  | placeholder text key rest hscan ih =>
      rw [tokens_placeholder hmarks hscan] at h ⊢
      obtain ⟨rfl, -⟩ := List.cons.inj h
      exact ⟨[], rest, rfl, passed_nil, hscan, rfl⟩

/-- A text without some letter ends in front of it. -/
theorem prefix_of_not_mem {x : α} {p w back : List α} (h : p <+: w ++ x :: back) (hx : x ∉ p) :
    p <+: w := by
  induction p generalizing w with
  | nil => exact List.nil_prefix
  | cons a p ih =>
      obtain ⟨hax, hp⟩ := not_or.mp (List.mem_cons.not.mp hx)
      cases w with
      | nil => exact absurd (List.cons_prefix_cons.mp h).1.symm hax
      | cons b w =>
          obtain ⟨rfl, htail⟩ := List.cons_prefix_cons.mp h
          exact List.cons_prefix_cons.mpr ⟨rfl, ih htail hp⟩

/-! ### One placeholder after the other -/

/-- What is passed holds no placeholder. -/
theorem Passed.not_infix (hmarks : Marks sign scan) (hlocal : Local scan) {front back : List α}
    {found : List α × κ} (h : Passed scan front cs) (hfound : scan back = some found) :
    ¬ found.1 <:+: front := by
  rintro ⟨before, behind, rfl⟩
  obtain ⟨body, -, hbody, -, -⟩ := hmarks _ _ hfound
  refine hlocal _ _ _ hfound ?_ (h (found.1 ++ behind) (by simp [hbody]) ⟨before, by simp⟩)
  rw [List.append_assoc]
  exact List.prefix_append _ _

/-- Nothing to replace. -/
theorem undisturbed_of_letters {value : κ → List α} {ts : List (Token α κ)}
    (h : placeholders ts = []) (front : List α) : Undisturbed value front ts := by
  induction ts generalizing front with
  | nil => trivial
  | cons t ts ih =>
      cases t with
      | letter a => exact ih h _
      | placeholder text key => cases h

/-- A placeholder that is alone is not disturbed, whatever is put in its place. -/
theorem undisturbed_of_single (hmarks : Marks sign scan) (hlocal : Local scan)
    {value : κ → List α} (h : (placeholders (tokens scan cs)).length ≤ 1) {front : List α}
    (hpassed : Passed scan front cs) : Undisturbed value front (tokens scan cs) := by
  induction cs using scan_induction hmarks generalizing front with
  | nil => trivial
  | letter c cs hscan ih =>
      rw [tokens_letter hscan] at h ⊢
      exact ih h (hpassed.concat hscan)
  | placeholder text key rest hscan ih =>
      rw [tokens_placeholder hmarks hscan] at h ⊢
      refine ⟨hpassed.not_infix hmarks hlocal hscan, undisturbed_of_letters ?_ _⟩
      exact List.length_eq_zero_iff.mp (Nat.le_zero.mp (Nat.le_of_succ_le_succ h))

/-- A letter that is in no placeholder can be put in the place of all. -/
theorem undisturbed_const (hmarks : Marks sign scan) (hlocal : Local scan) {x : α}
    (hx : ∀ {cs found}, scan cs = some found → x ∉ found.1) {front : List α}
    (hpassed : Passed scan front cs) :
    Undisturbed (fun _ => [x]) front (tokens scan cs) := by
  induction cs using scan_induction hmarks generalizing front with
  | nil => trivial
  | letter c cs hscan ih =>
      rw [tokens_letter hscan]
      exact ih (hpassed.concat hscan)
  | placeholder text key rest hscan ih =>
      rw [tokens_placeholder hmarks hscan]
      refine ⟨hpassed.not_infix hmarks hlocal hscan, ih ?_⟩
      intro w hne hsuffix
      rcases List.suffix_concat_iff.mp hsuffix with rfl | ⟨w, rfl, hin⟩
      · exact absurd rfl hne
      rw [Option.eq_none_iff_forall_not_mem, List.append_assoc]
      intro found hfound
      -- a placeholder that begins in front of the letter ends there
      have hbegins := prefix_of_not_mem (hmarks.begins hfound) (hx hfound)
      refine hlocal _ _ _ hfound (hbegins.trans (List.prefix_append _ _)) (hpassed w ?_ hin)
      rintro rfl
      exact hmarks.ne_nil hfound (List.prefix_nil.mp hbegins)

end Scan

/-! ### Two scanners -/

/-- A text is not itself with some letters in front, up to where others begin. -/
theorem append_ne {D : α → Prop} {w : List α} (hne : w ≠ []) (hw : ∀ a ∈ w, D a)
    (p : List α) {e e' : List α} (he : ∀ a ∈ e.head?, ¬ D a) : p ++ e ≠ w ++ (p ++ e') := by
  induction p generalizing w with
  | nil =>
      intro h
      obtain ⟨b, w, rfl⟩ := List.exists_cons_of_ne_nil hne
      rw [List.nil_append] at h
      exact he b (by rw [h]; rfl) (hw b List.mem_cons_self)
  | cons a p ih =>
      intro h
      obtain ⟨b, w, rfl⟩ := List.exists_cons_of_ne_nil hne
      obtain ⟨rfl, htail⟩ := List.cons.inj h
      refine ih (w := w ++ [a]) (by simp) ?_ ?_
      rotate_left
      · rw [List.append_assoc]
        exact htail
      intro b hb
      rcases List.mem_append.mp hb with hb | hb
      · exact hw b (List.mem_cons_of_mem _ hb)
      · exact hw b (List.mem_singleton.mp hb ▸ List.mem_cons_self)

section Two

variable {sign : α} {coarse fine : List α → Option (List α × κ)} {D : α → Prop}

/-- A text without the sign does not tell two scanners apart. -/
theorem eq_of_suffix_append (hcoarse : Marks sign coarse) (hfine : Marks sign fine)
    {front back : List α} (hfront : sign ∉ front)
    (hback : ∀ rest, rest <:+ back → coarse rest = fine rest) :
    ∀ rest, rest <:+ front ++ back → coarse rest = fine rest := by
  induction front with
  | nil => exact hback
  | cons c front ih =>
      obtain ⟨hc, hfront⟩ := not_or.mp (List.mem_cons.not.mp hfront)
      intro rest hsuffix
      rcases List.suffix_cons_iff.mp hsuffix with rfl | hsuffix
      · rw [hcoarse.none_of_ne hc, hfine.none_of_ne hc]
      · exact ih hfront rest hsuffix

/-- Two scanners read a text the same if they see the same at every place of it. -/
theorem tokens_eq_iff (hcoarse : Marks sign coarse) (hfine : Marks sign fine) {cs : List α} :
    tokens coarse cs = tokens fine cs ↔ ∀ rest, rest <:+ cs → coarse rest = fine rest := by
  induction cs using scan_induction hcoarse with
  | nil =>
      refine iff_of_true rfl fun rest hsuffix => ?_
      rw [List.suffix_nil.mp hsuffix, hcoarse.none_of_nil, hfine.none_of_nil]
  | letter c cs hscan ih =>
      constructor
      · intro heq rest hsuffix
        rw [tokens_letter hscan] at heq
        rcases hother : fine (c :: cs) with - | found
        · rw [tokens_letter hother] at heq
          rcases List.suffix_cons_iff.mp hsuffix with rfl | hsuffix
          · rw [hscan, hother]
          · exact ih.mp (List.cons.inj heq).2 rest hsuffix
        · obtain ⟨back, -, htokens⟩ := hfine.tokens_of_some hother
          rw [htokens] at heq
          cases (List.cons.inj heq).1
      · intro hsame
        have hother := (hsame _ (List.suffix_refl _)).symm.trans hscan
        rw [tokens_letter hscan, tokens_letter hother,
          ih.mpr fun rest hsuffix => hsame rest (hsuffix.trans (List.suffix_cons c cs))]
  | placeholder text key rest hscan ih =>
      constructor
      · intro heq
        rw [tokens_placeholder hcoarse hscan] at heq
        obtain ⟨body, _, hbody, -, hsign⟩ := hcoarse _ _ hscan
        obtain rfl : text = sign :: body := hbody
        rcases hother : fine (sign :: body ++ rest) with - | ⟨text', key'⟩
        · rw [List.cons_append] at hother heq
          rw [tokens_letter hother] at heq
          cases (List.cons.inj heq).1
        · obtain ⟨back, hback, htokens⟩ := hfine.tokens_of_some hother
          rw [htokens] at heq
          obtain ⟨hfirst, htails⟩ := List.cons.inj heq
          obtain ⟨rfl, rfl⟩ := Token.placeholder.inj hfirst
          obtain rfl : rest = back := List.append_cancel_left hback
          intro r hsuffix
          rcases List.suffix_cons_iff.mp hsuffix with rfl | hsuffix
          · exact hscan.trans hother.symm
          · exact eq_of_suffix_append hcoarse hfine hsign (ih.mp htails) r hsuffix
      · intro hsame
        have hother := (hsame _ (List.suffix_refl _)).symm.trans hscan
        rw [tokens_placeholder hcoarse hscan, tokens_placeholder hfine hother,
          ih.mpr fun r hsuffix => hsame r (hsuffix.trans (List.suffix_append text rest))]

/-- Two scanners that differ in how many letters of some kind they take with a
placeholder.  The fine one may read a placeholder as letters. -/
structure Differ (sign : α) (D : α → Prop) (coarse fine : List α → Option (List α × κ)) :
    Prop where
  coarse_marks : Marks sign coarse
  fine_marks : Marks sign fine
  none_of_none : ∀ {cs}, coarse cs = none → fine cs = none
  cases : ∀ {cs found found'}, coarse cs = some found → fine cs = some found' →
    found = found' ∨ ∃ w ≠ [], (∀ a ∈ w, D a) ∧
      (found'.1 = found.1 ++ w ∨ found.1 = found'.1 ++ w)
  not_sign : ¬ D sign

/-- Both results have the same letters up to where one of the scanners sees a placeholder. -/
theorem Differ.substitute_cases (h : Differ sign D coarse fine) {x : α} (hx : ¬ D x)
    (cs : List α) : ∃ p e e',
      substitute (fun _ => [x]) (tokens coarse cs) = p ++ e ∧
      substitute (fun _ => [x]) (tokens fine cs) = p ++ e' ∧
      (∀ a ∈ e.head?, ¬ D a) ∧ ∀ a ∈ e'.head?, ¬ D a := by
  induction cs using scan_induction h.coarse_marks with
  | nil => exact ⟨[], [], [], rfl, rfl, by simp, by simp⟩
  | letter c cs hscan ih =>
      obtain ⟨p, e, e', hcoarse, hfine, he, he'⟩ := ih
      rw [tokens_letter hscan, tokens_letter (h.none_of_none hscan)]
      exact ⟨c :: p, e, e', congrArg (c :: ·) hcoarse, congrArg (c :: ·) hfine, he, he'⟩
  | placeholder text key rest hscan ih =>
      refine ⟨[], _, _, rfl, rfl, ?_, ?_⟩
      · rw [tokens_placeholder h.coarse_marks hscan]
        rintro a ⟨⟩
        exact hx
      · obtain ⟨body, _, hbody, -, -⟩ := h.coarse_marks _ _ hscan
        obtain rfl : text = sign :: body := hbody
        rcases hfine : fine (sign :: body ++ rest) with - | ⟨text', key'⟩
        · rw [List.cons_append] at hfine ⊢
          rw [tokens_letter hfine]
          rintro a ⟨⟩
          exact h.not_sign
        · obtain ⟨back, -, htokens⟩ := h.fine_marks.tokens_of_some hfine
          rw [htokens]
          rintro a ⟨⟩
          exact hx

/-- If a letter in the place of all placeholders gives the same text, the two scanners
read the same. -/
theorem Differ.tokens_eq (h : Differ sign D coarse fine) {x : α} (hx : ¬ D x) (hsign : x ≠ sign)
    {cs : List α} (heq : substitute (fun _ => [x]) (tokens coarse cs)
      = substitute (fun _ => [x]) (tokens fine cs)) : tokens coarse cs = tokens fine cs := by
  induction cs using scan_induction h.coarse_marks with
  | nil => rfl
  | letter c cs hscan ih =>
      rw [tokens_letter hscan, tokens_letter (h.none_of_none hscan)] at heq ⊢
      rw [ih (List.cons.inj heq).2]
  | placeholder text key rest hscan ih =>
      rcases hfine : fine (text ++ rest) with - | ⟨text', key'⟩
      · -- a letter stays where the other puts the value
        obtain ⟨body, _, hbody, -, -⟩ := h.coarse_marks _ _ hscan
        obtain rfl : text = sign :: body := hbody
        rw [tokens_placeholder h.coarse_marks hscan] at heq
        rw [List.cons_append] at hfine heq
        rw [tokens_letter hfine] at heq
        exact absurd (List.cons.inj heq).1 hsign
      · obtain ⟨back, hback, htokens⟩ := h.fine_marks.tokens_of_some hfine
        rw [tokens_placeholder h.coarse_marks hscan] at heq ⊢
        rw [htokens] at heq ⊢
        have htails := (List.cons.inj heq).2
        rcases h.cases hscan hfine with hsame | ⟨w, hne, hw, htext⟩
        · obtain ⟨rfl, rfl⟩ := Prod.mk.inj hsame
          obtain rfl : rest = back := List.append_cancel_left hback
          rw [ih htails]
        -- the letters that one of them takes are left by the other
        have hpassed : sign ∉ w := fun hmem => h.not_sign (hw _ hmem)
        rcases htext with htext | htext
        · obtain rfl : rest = w ++ back := by
            rw [show text' = text ++ w from htext, List.append_assoc] at hback
            exact List.append_cancel_left hback
          obtain ⟨p, e, e', hcoarse, hfine, -, he'⟩ := h.substitute_cases hx back
          have hw' : substitute (fun _ => [x]) (tokens coarse (w ++ back))
              = substitute (fun _ => [x]) (tokens fine back) := htails
          rw [tokens_append h.coarse_marks hpassed, substitute_letters, hcoarse, hfine] at hw'
          exact absurd hw'.symm (append_ne hne hw p he')
        · obtain rfl : back = w ++ rest := by
            rw [show text = text' ++ w from htext, List.append_assoc] at hback
            exact (List.append_cancel_left hback).symm
          obtain ⟨p, e, e', hcoarse, hfine, he, -⟩ := h.substitute_cases hx rest
          have hw' : substitute (fun _ => [x]) (tokens coarse rest)
              = substitute (fun _ => [x]) (tokens fine (w ++ rest)) := htails
          rw [tokens_append h.fine_marks hpassed, substitute_letters, hcoarse, hfine] at hw'
          exact absurd hw' (append_ne hne hw p he)

end Two

end Placeholders
