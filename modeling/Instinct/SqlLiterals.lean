/-
Instinct/SqlLiterals.lean

Quoted literals of SQL, as a small library of its own: a literal runs to the first
single quote that is not doubled.

The scanner sees one character after the other, so that it can be stopped and go on
anywhere (`run_append`).  What it has read can be written again in one way only
(`render_of_scan`), so that a literal that is spliced in without doubling its quotes
is read as itself if and only if it has none (`scan_renderRaw_iff`).
-/
import Instinct.SqlConditions
import Mathlib.Algebra.GroupWithZero.Nat

namespace SqlLiterals

open SqlConditions

/-- What the scanner sees: characters outside of literals, and the values of literals. -/
inductive Item
  | char (c : Char)
  | literal (value : List Char)
  deriving Repr, DecidableEq

inductive Mode
  | code
  | inside (value : List Char)
  /-- After a quote, which either closes the literal or is the first of two. -/
  | quoted (value : List Char)
  deriving Repr, DecidableEq

def step : Mode → Char → List Item × Mode
  | .code, c => if c = '\'' then ([], .inside []) else ([.char c], .code)
  | .inside value, c => if c = '\'' then ([], .quoted value) else ([], .inside (value ++ [c]))
  | .quoted value, c =>
      if c = '\'' then ([], .inside (value ++ [c])) else ([.literal value, .char c], .code)

/-- The items up to a place, and the mode there. -/
def run : Mode → List Char → List Item × Mode
  | mode, [] => ([], mode)
  | mode, c :: cs =>
      let next := run (step mode c).2 cs
      ((step mode c).1 ++ next.1, next.2)

/-- At the end, a literal must be closed. -/
def finish : Mode → Option (List Item)
  | .code => some []
  | .inside _ => none
  | .quoted value => some [.literal value]

def scanFrom (mode : Mode) (cs : List Char) : Option (List Item) :=
  (finish (run mode cs).2).map ((run mode cs).1 ++ ·)

/-- **The standard rule.** -/
def scan (cs : List Char) : Option (List Item) := scanFrom .code cs

/-- An item as it is written, with the quotes of a literal doubled. -/
def Item.text : Item → List Char
  | char c => [c]
  | literal value => '\'' :: (doubleQuotes value ++ ['\''])

/-- An item, with a literal as it is between two quotes. -/
def Item.rawText : Item → List Char
  | char c => [c]
  | literal value => '\'' :: (value ++ ['\''])

def render (items : List Item) : List Char := items.flatMap Item.text

def renderRaw (items : List Item) : List Char := items.flatMap Item.rawText

/-- Characters are no quotes, and no literal follows another one directly. -/
def Separated : List Item → Prop
  | [] => True
  | .char c :: items => c ≠ '\'' ∧ Separated items
  | .literal _ :: items => (∀ value ∈ items.head?, ∃ c, value = .char c) ∧ Separated items

section Scanning

variable {mode : Mode} {cs cs' value : List Char} {items items' : List Item}

theorem run_append (mode : Mode) (cs cs' : List Char) :
    run mode (cs ++ cs')
      = ((run mode cs).1 ++ (run (run mode cs).2 cs').1, (run (run mode cs).2 cs').2) := by
  induction cs generalizing mode with
  | nil => rfl
  | cons c cs ih =>
      rw [List.cons_append, run, ih, run]
      simp only [List.append_assoc]

theorem scanFrom_append (h : run mode cs = (items, .code)) :
    scanFrom mode (cs ++ cs') = (scan cs').map (items ++ ·) := by
  rw [scanFrom, run_append, h, scan, scanFrom, Option.map_map]
  refine Option.map_congr fun rest _ => ?_
  exact List.append_assoc _ _ _

theorem scanFrom_cons (mode : Mode) (c : Char) (cs : List Char) :
    scanFrom mode (c :: cs) = (scanFrom (step mode c).2 cs).map ((step mode c).1 ++ ·) := by
  rw [scanFrom, run, scanFrom, Option.map_map]
  refine Option.map_congr fun rest _ => ?_
  exact List.append_assoc _ _ _

theorem scanFrom_of_step {mode' : Mode} {c : Char} (h : step mode c = ([], mode'))
    (cs : List Char) : scanFrom mode (c :: cs) = scanFrom mode' cs := by
  rw [scanFrom_cons, h]
  exact Option.map_id'

theorem doubleQuotes_cons (c : Char) (cs : List Char) :
    doubleQuotes (c :: cs) = (if c = '\'' then ['\'', '\''] else [c]) ++ doubleQuotes cs :=
  List.flatMap_cons

/-- Two quotes are one character of the value. -/
theorem scanFrom_doubleQuotes (read value cs : List Char) :
    scanFrom (.inside read) (doubleQuotes value ++ cs) = scanFrom (.inside (read ++ value)) cs := by
  induction value generalizing read with
  | nil => rw [List.append_nil]; rfl
  | cons c value ih =>
      have hmove : read ++ c :: value = read ++ [c] ++ value := by
        rw [List.append_assoc, List.singleton_append]
      rw [doubleQuotes_cons, hmove, ← ih]
      by_cases hc : c = '\''
      · subst hc
        rw [if_pos rfl]
        exact (scanFrom_of_step rfl _).trans (scanFrom_of_step rfl _)
      · rw [if_neg hc]
        exact scanFrom_of_step (by rw [step, if_neg hc]) _

/-- The literal ends where no further quote follows. -/
theorem scanFrom_quoted (h : cs.head? ≠ some '\'') :
    scanFrom (.quoted value) cs = (scan cs).map (.literal value :: ·) := by
  cases cs with
  | nil => rfl
  | cons c cs =>
      have hc : c ≠ '\'' := fun heq => h (congrArg some heq)
      rw [scan, scanFrom_cons, scanFrom_cons, step, if_neg hc, step, if_neg hc, Option.map_map]
      rfl

/-- **A literal with its quotes doubled** is read as its value. -/
theorem scan_literal (value : List Char) (h : cs.head? ≠ some '\'') :
    scan ((Item.literal value).text ++ cs) = (scan cs).map (.literal value :: ·) := by
  have hopen : scan ((Item.literal value).text ++ cs)
      = scanFrom (.inside []) (doubleQuotes value ++ ('\'' :: cs)) := by
    rw [Item.text, List.cons_append, List.append_assoc]
    exact scanFrom_of_step rfl _
  have hclose : scanFrom (.inside value) ('\'' :: cs) = scanFrom (.quoted value) cs :=
    scanFrom_of_step rfl cs
  rw [hopen, scanFrom_doubleQuotes, List.nil_append, hclose, scanFrom_quoted h]

/-- A piece of text that is one literal, whatever code stands around it. -/
def ReadsAsLiteral (piece value : List Char) : Prop :=
  ∀ before after items, run .code before = (items, .code) → after.head? ≠ some '\'' →
    scan (before ++ (piece ++ after)) = (scan after).map fun rest => items ++ .literal value :: rest

theorem readsAsLiteral_text (value : List Char) :
    ReadsAsLiteral ('\'' :: (doubleQuotes value ++ ['\''])) value := by
  intro before after items hbefore hafter
  have hliteral := scan_literal value hafter
  rw [Item.text] at hliteral
  rw [scan, scanFrom_append hbefore, hliteral, Option.map_map]
  rfl

theorem head?_render (hsep : Separated items) (hhead : ∀ value ∈ items.head?, ∃ c, value = .char c) :
    (render items).head? ≠ some '\'' := by
  cases items with
  | nil => exact nofun
  | cons item items =>
      obtain ⟨c, rfl⟩ := hhead item rfl
      exact fun h => hsep.1 (Option.some.inj h)

/-- What is written is read again. -/
theorem scan_render (h : Separated items) : scan (render items) = some items := by
  induction items with
  | nil => rfl
  | cons item items ih =>
      rw [render, List.flatMap_cons, ← render]
      cases item with
      | char c =>
          rw [Item.text, List.singleton_append, scan, scanFrom_cons, step, if_neg h.1, ← scan,
            ih h.2]
          rfl
      | literal value => rw [scan_literal value (head?_render h.2 h.1), ih h.2, Option.map_some]

/-- What has been read of a literal, as it is written. -/
def Mode.text : Mode → List Char
  | code => []
  | inside value => '\'' :: doubleQuotes value
  | quoted value => '\'' :: (doubleQuotes value ++ ['\''])

theorem render_append (items items' : List Item) :
    render (items ++ items') = render items ++ render items' := List.flatMap_append

theorem text_step (mode : Mode) (c : Char) :
    mode.text ++ [c] = render (step mode c).1 ++ (step mode c).2.text := by
  cases mode <;> by_cases hc : c = '\'' <;>
    simp [step, hc, Mode.text, render, Item.text, doubleQuotes]

/-- **What has been read can be written in one way only.** -/
theorem render_of_scanFrom (h : scanFrom mode cs = some items) : render items = mode.text ++ cs := by
  induction cs generalizing mode items with
  | nil =>
      cases mode with
      | inside _ => cases h
      | code => cases h; rfl
      | quoted _ =>
          obtain rfl := Option.some.inj h
          simp [run, render, Item.text, Mode.text]
  | cons c cs ih =>
      rw [scanFrom_cons] at h
      obtain ⟨rest, hrest, rfl⟩ := Option.map_eq_some_iff.mp h
      rw [render_append, ih hrest, ← List.append_assoc, ← text_step, List.append_assoc,
        List.singleton_append]

theorem render_of_scan (h : scan cs = some items) : render items = cs := render_of_scanFrom h

/-- The quotes in the values of literals. -/
def quotes (items : List Item) : Nat :=
  (items.map fun
    | .char _ => 0
    | .literal value => value.count '\'').sum

theorem length_doubleQuotes (value : List Char) :
    (doubleQuotes value).length = value.length + value.count '\'' := by
  induction value with
  | nil => rfl
  | cons c value ih =>
      rw [doubleQuotes_cons, List.length_append, ih, List.length_cons, List.count_cons]
      by_cases hc : c = '\'' <;> simp [hc] <;> omega

theorem length_render (items : List Item) :
    (render items).length = (renderRaw items).length + quotes items := by
  unfold quotes
  induction items with
  | nil => rfl
  | cons item items ih =>
      rw [render, List.flatMap_cons, ← render, renderRaw, List.flatMap_cons, ← renderRaw,
        List.length_append, List.length_append, ih, List.map_cons, List.sum_cons]
      cases item with
      | char c => simp only [Item.text, Item.rawText]; omega
      | literal value =>
          simp only [Item.text, Item.rawText, List.length_cons, List.length_append,
            length_doubleQuotes, List.length_nil]
          omega

theorem renderRaw_eq (h : ∀ value, .literal value ∈ items → '\'' ∉ value) :
    renderRaw items = render items := by
  refine List.flatMap_congr fun item hitem => ?_
  cases item with
  | char c => rfl
  | literal value =>
      have hself : doubleQuotes value = value := by
        refine (List.flatMap_congr fun c hc => if_neg ?_).trans (List.flatMap_singleton' value)
        exact ne_of_mem_of_not_mem hc (h value hitem)
      rw [Item.text, Item.rawText, hself]

theorem renderRaw_append (items items' : List Item) :
    renderRaw (items ++ items') = renderRaw items ++ renderRaw items' := List.flatMap_append

theorem renderRaw_chars (cs : List Char) : renderRaw (cs.map .char) = cs := by
  rw [renderRaw, List.flatMap_map]
  exact List.flatMap_singleton' cs

theorem separated_chars_append (hcs : '\'' ∉ cs) (h : Separated items) :
    Separated (cs.map .char ++ items) := by
  induction cs with
  | nil => exact h
  | cons c cs ih =>
      obtain ⟨hc, hcs⟩ := not_or.mp (List.mem_cons.not.mp hcs)
      exact ⟨fun heq => hc heq.symm, ih hcs⟩

/-- **Literals that are spliced in as they are** are read as themselves if and only if they hold
no quote. -/
theorem scan_renderRaw_iff (hsep : Separated items) :
    scan (renderRaw items) = some items ↔ ∀ value, .literal value ∈ items → '\'' ∉ value := by
  constructor
  · intro h value hvalue
    have hlength := congrArg List.length (render_of_scan h)
    rw [length_render] at hlength
    have hnone : quotes items = 0 := by omega
    have hzero : value.count '\'' = 0 :=
      List.sum_eq_zero_iff_forall_eq_nat.mp hnone _ (List.mem_map_of_mem hvalue)
    exact List.count_eq_zero.mp hzero
  · intro h
    rw [renderRaw_eq h, scan_render hsep]

end Scanning

end SqlLiterals
