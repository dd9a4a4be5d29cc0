/-
Instinct/Patterns.lean

Regular expressions that are a sequence of character classes, each with a
greedy repetition, as a small library of its own.

A `Piece` stands for a run of characters of one class.  `matchAt` is what a
backtracking engine finds at the beginning of a text: a piece takes as many
characters as it can, and gives some back only where the rest of the pattern
would not match otherwise.  `matches?` walks through a text the way a regex
iterator does, going on behind each match, and `replace` puts another text in
the place of each match of the walk.

The rules say which run a piece takes (`matchAt_cons`, `matchAt_one`), that a
match is the beginning of the text (`flatten_of_matchAt`), how the walk goes on
(`matches?_of_some`, `matches?_of_none`), and that removing the matches changes
every text that has one (`replace_nil_eq_self_iff`).
-/
import Mathlib.Data.List.TakeWhile

namespace Patterns

variable {α β : Type}

/-! ### The longest run for which something is found -/

/-- What `f` gives at the largest number from `least` to the given one at which it
gives something. -/
def largest? (f : Nat → Option β) (least : Nat) : Nat → Option β
  | 0 => if least = 0 then f 0 else none
  | n + 1 =>
      if n + 1 < least then none
      else
        match f (n + 1) with
        | some b => some b
        | none => largest? f least n

/-- The largest number counts: above it nothing is found. -/
theorem largest?_eq_some {f : Nat → Option β} {least n k : Nat} {b : β} (hleast : least ≤ k)
    (hk : k ≤ n) (hfound : f k = some b) (habove : ∀ m, k < m → m ≤ n → f m = none) :
    largest? f least n = some b := by
  induction n with
  | zero =>
      obtain rfl : k = 0 := Nat.le_zero.mp hk
      rw [largest?, if_pos (Nat.le_zero.mp hleast), hfound]
  | succ n ih =>
      rw [largest?, if_neg (by omega)]
      rcases Nat.lt_or_eq_of_le hk with hlt | rfl
      · rw [habove (n + 1) hlt (Nat.le_refl _)]
        exact ih (Nat.lt_succ_iff.mp hlt) fun m hm hn => habove m hm (by omega)
      · rw [hfound]

/-- What is found is found at some number in the range. -/
theorem exists_of_largest? {f : Nat → Option β} {least n : Nat} {b : β}
    (h : largest? f least n = some b) : ∃ k, least ≤ k ∧ k ≤ n ∧ f k = some b := by
  induction n with
  | zero =>
      rw [largest?] at h
      split at h
      · exact ⟨0, by omega, Nat.le_refl _, h⟩
      · cases h
  | succ n ih =>
      rw [largest?] at h
      split at h
      · cases h
      · rename_i hleast
        rcases hf : f (n + 1) with - | b'
        · rw [hf] at h
          obtain ⟨k, hlow, hhigh, hfound⟩ := ih h
          exact ⟨k, hlow, by omega, hfound⟩
        · rw [hf] at h
          exact ⟨n + 1, by omega, Nat.le_refl _, hf.trans h⟩

/-- Nothing is found where there is nothing at any number of the range. -/
theorem largest?_eq_none {f : Nat → Option β} {least n : Nat}
    (h : ∀ k, least ≤ k → k ≤ n → f k = none) : largest? f least n = none := by
  rcases hl : largest? f least n with - | b
  · rfl
  · obtain ⟨k, hlow, hhigh, hfound⟩ := exists_of_largest? hl
    rw [h k hlow hhigh] at hfound
    cases hfound

/-! ### Patterns -/

/-- A run of `least` to `most` characters of a class; `none` is no upper bound. -/
structure Piece (α : Type) where
  accepts : α → Bool
  least : Nat := 1
  most : Option Nat := some 1

namespace Piece

/-- One character of a class. -/
def one (accepts : α → Bool) : Piece α where
  accepts := accepts

/-- `*` -/
def many (accepts : α → Bool) : Piece α where
  accepts := accepts
  least := 0
  most := none

/-- `+` -/
def some (accepts : α → Bool) : Piece α where
  accepts := accepts
  most := none

@[simp] theorem accepts_one (accepts : α → Bool) : (one accepts).accepts = accepts := rfl

@[simp] theorem accepts_many (accepts : α → Bool) : (many accepts).accepts = accepts := rfl

@[simp] theorem accepts_some (accepts : α → Bool) : (some accepts).accepts = accepts := rfl

/-- How many characters the piece could take at the beginning of a text. -/
def reach (p : Piece α) (cs : List α) : Nat :=
  match p.most with
  | .none => (cs.takeWhile p.accepts).length
  | .some most => min most (cs.takeWhile p.accepts).length

end Piece

/-- The match of a pattern at the beginning of a text: the runs that its pieces take. -/
def matchAt : List (Piece α) → List α → Option (List (List α))
  | [], _ => some []
  | p :: ps, cs =>
      largest? (fun n => (matchAt ps (cs.drop n)).map (cs.take n :: ·)) p.least (p.reach cs)

/-- The matches in a text, each from behind the one before, from a place `skip`
characters ahead.  For patterns that match no empty text. -/
def matchesFrom (ps : List (Piece α)) : Nat → List α → List (List (List α))
  | _, [] => []
  | skip + 1, _ :: cs => matchesFrom ps skip cs
  | 0, c :: cs =>
      match matchAt ps (c :: cs) with
      | some runs => runs :: matchesFrom ps (runs.flatten.length - 1) cs
      | none => matchesFrom ps 0 cs

/-- The matches in a text. -/
def matches? (ps : List (Piece α)) (cs : List α) : List (List (List α)) := matchesFrom ps 0 cs

variable {p : Piece α} {ps : List (Piece α)} {cs : List α}

/-- A piece takes the longest run for which the rest of the pattern matches. -/
theorem matchAt_cons {k : Nat} {runs : List (List α)} (hleast : p.least ≤ k)
    (hk : k ≤ p.reach cs) (hrest : matchAt ps (cs.drop k) = some runs)
    (habove : ∀ m, k < m → m ≤ p.reach cs → matchAt ps (cs.drop m) = none) :
    matchAt (p :: ps) cs = some (cs.take k :: runs) := by
  refine largest?_eq_some hleast hk ?_ fun m hm hreach => ?_
  · rw [hrest]
    rfl
  · rw [habove m hm hreach]
    rfl

/-- A piece reaches to the end of a run of its class, if it may take that many. -/
theorem reach_append {run rest : List α} (hmost : p.most = none)
    (hrun : ∀ a ∈ run, p.accepts a = true) (hrest : ∀ a ∈ rest.head?, p.accepts a = false) :
    p.reach (run ++ rest) = run.length := by
  have hnil : rest.takeWhile p.accepts = [] := by
    cases rest with
    | nil => rfl
    | cons a rest => simp [hrest a rfl]
  unfold Piece.reach
  rw [hmost]
  show ((run ++ rest).takeWhile p.accepts).length = run.length
  rw [List.takeWhile_append_of_pos hrun, hnil, List.append_nil]

/-- A piece without an upper bound takes a whole run, if the rest matches behind it. -/
theorem matchAt_run {run rest : List α} {runs : List (List α)} (hmost : p.most = none)
    (hleast : p.least ≤ run.length) (hrun : ∀ a ∈ run, p.accepts a = true)
    (hrest : ∀ a ∈ rest.head?, p.accepts a = false) (hmatch : matchAt ps rest = some runs) :
    matchAt (p :: ps) (run ++ rest) = some (run :: runs) := by
  have hreach := reach_append hmost hrun hrest
  have h : matchAt (p :: ps) (run ++ rest) = some ((run ++ rest).take run.length :: runs) :=
    matchAt_cons hleast (by omega) (by rw [List.drop_left]; exact hmatch)
      fun m hm hle => absurd hle (by omega)
  rwa [List.take_left] at h

/-- Nothing is matched where the rest matches behind no run of the piece. -/
theorem matchAt_cons_none
    (h : ∀ m, p.least ≤ m → m ≤ p.reach cs → matchAt ps (cs.drop m) = none) :
    matchAt (p :: ps) cs = none := by
  refine largest?_eq_none fun m hlow hhigh => ?_
  rw [h m hlow hhigh]
  rfl

theorem matchAt_one_cons {accepts : α → Bool} {c : α} (h : accepts c = true) :
    matchAt (.one accepts :: ps) (c :: cs) = (matchAt ps cs).map ([c] :: ·) := by
  have hreach : (Piece.one accepts).reach (c :: cs) = 1 := by
    simp [Piece.reach, Piece.one, h]
  show largest? _ 1 _ = _
  rw [hreach, largest?, if_neg (by omega)]
  simp only [Nat.zero_add, List.take_succ_cons, List.take_zero, List.drop_succ_cons,
    List.drop_zero]
  rcases matchAt ps cs with - | runs <;> rfl

theorem matchAt_one_of_not {accepts : α → Bool} (h : ∀ c ∈ cs.head?, accepts c = false) :
    matchAt (.one accepts :: ps) cs = none := by
  have hreach : (Piece.one accepts).reach cs = 0 := by
    cases cs with
    | nil => rfl
    | cons c cs => simp [Piece.reach, Piece.one, h c rfl]
  show largest? _ 1 _ = _
  rw [hreach]
  rfl

/-- A piece that needs a character matches no text that begins otherwise. -/
theorem matchAt_of_head (hleast : p.least ≠ 0) (h : ∀ c ∈ cs.head?, p.accepts c = false) :
    matchAt (p :: ps) cs = none := by
  have hreach : p.reach cs = 0 := by
    have hrun : cs.takeWhile p.accepts = [] := by
      cases cs with
      | nil => rfl
      | cons c cs => simp [h c rfl]
    unfold Piece.reach
    rw [hrun]
    split <;> simp
  show largest? _ p.least _ = _
  rw [hreach, largest?, if_neg hleast]

/-- A piece with `+` that the pattern ends with takes the whole run at the beginning. -/
theorem matchAt_some_cons {accepts : α → Bool} {c : α} (h : accepts c = true) (cs : List α) :
    matchAt [.some accepts] (c :: cs) = some [(c :: cs).takeWhile accepts] := by
  have hrest : ∀ a ∈ ((c :: cs).dropWhile accepts).head?, accepts a = false := by
    intro a ha
    have hnot := List.head?_dropWhile_not accepts (c :: cs)
    rw [Option.mem_def.mp ha] at hnot
    exact hnot
  have hleast : (Piece.some accepts).least ≤ ((c :: cs).takeWhile accepts).length := by
    rw [List.takeWhile_cons_of_pos h]
    exact Nat.succ_pos _
  have hmatch : matchAt [.some accepts] ((c :: cs).takeWhile accepts ++ (c :: cs).dropWhile accepts)
      = some [(c :: cs).takeWhile accepts] :=
    matchAt_run rfl hleast (fun a ha => List.mem_takeWhile_imp ha) hrest rfl
  rwa [List.takeWhile_append_dropWhile] at hmatch

/-- What a piece takes is of its class. -/
theorem accepts_of_mem_take {k : Nat} (hk : k ≤ p.reach cs) {a : α} (ha : a ∈ cs.take k) :
    p.accepts a = true := by
  have hle : k ≤ (cs.takeWhile p.accepts).length := by
    unfold Piece.reach at hk
    split at hk <;> omega
  rw [← List.takeWhile_append_dropWhile (p := p.accepts) (l := cs),
    List.take_append_of_le_length hle] at ha
  exact List.mem_takeWhile_imp (List.mem_of_mem_take ha)

/-- The first piece takes a run of its class, and the others match behind it. -/
theorem exists_of_matchAt_cons {runs : List (List α)} (h : matchAt (p :: ps) cs = some runs) :
    ∃ run rest runs', cs = run ++ rest ∧ p.least ≤ run.length ∧ (∀ a ∈ run, p.accepts a = true) ∧
      matchAt ps rest = some runs' ∧ runs = run :: runs' := by
  obtain ⟨k, hleast, hk, hmatch⟩ := exists_of_largest? h
  obtain ⟨runs', hrest, rfl⟩ := Option.map_eq_some_iff.mp hmatch
  have hlength : k ≤ cs.length := by
    have hrun := (List.takeWhile_prefix (l := cs) p.accepts).length_le
    unfold Piece.reach at hk
    split at hk
    · omega
    · omega
  refine ⟨cs.take k, cs.drop k, runs', (List.take_append_drop k cs).symm, ?_, ?_, hrest, rfl⟩
  · rwa [List.length_take, Nat.min_eq_left hlength]
  · exact fun a ha => accepts_of_mem_take hk ha

/-- A match is the beginning of the text. -/
theorem flatten_of_matchAt {runs : List (List α)} (h : matchAt ps cs = some runs) :
    runs.flatten <+: cs := by
  induction ps generalizing cs runs with
  | nil =>
      obtain rfl := Option.some.inj h
      exact List.nil_prefix
  | cons p ps ih =>
      obtain ⟨k, -, -, hk⟩ := exists_of_largest? h
      obtain ⟨rest, hrest, rfl⟩ := Option.map_eq_some_iff.mp hk
      obtain ⟨back, hback⟩ := ih hrest
      refine ⟨back, ?_⟩
      rw [List.flatten_cons, List.append_assoc, hback, List.take_append_drop]

/-! ### Walking through a text -/

theorem matchesFrom_skip (skip : Nat) : matchesFrom ps skip cs = matches? ps (cs.drop skip) := by
  induction cs generalizing skip with
  | nil => simp [matches?, matchesFrom]
  | cons c cs ih =>
      cases skip with
      | zero => rfl
      | succ skip => exact ih skip

/-- Where the pattern matches, the walk goes on behind the match. -/
theorem matches?_of_some {runs : List (List α)} (h : matchAt ps cs = some runs)
    (hpos : 0 < runs.flatten.length) :
    matches? ps cs = runs :: matches? ps (cs.drop runs.flatten.length) := by
  cases cs with
  | nil =>
      have hnil : runs.flatten = [] := List.prefix_nil.mp (flatten_of_matchAt h)
      rw [hnil] at hpos
      cases hpos
  | cons c cs =>
      rw [matches?, matchesFrom, h]
      show runs :: matchesFrom ps (runs.flatten.length - 1) cs = _
      obtain ⟨n, hn⟩ := Nat.exists_eq_add_of_lt hpos
      rw [matchesFrom_skip, hn]
      simp

theorem matches?_of_none {c : α} (h : matchAt ps (c :: cs) = none) :
    matches? ps (c :: cs) = matches? ps cs := by
  rw [matches?, matchesFrom, h]
  rfl

/-- A match of the walk is the match at some place. -/
theorem exists_matchAt_of_mem {runs : List (List α)} (h : runs ∈ matches? ps cs) :
    ∃ rest, rest <:+ cs ∧ matchAt ps rest = some runs := by
  have hfrom : ∀ skip, runs ∈ matchesFrom ps skip cs →
      ∃ rest, rest <:+ cs ∧ matchAt ps rest = some runs := by
    clear h
    induction cs with
    | nil =>
        intro skip h
        cases skip <;> cases h
    | cons c cs ih =>
        intro skip h
        have hlater : ∀ skip, runs ∈ matchesFrom ps skip cs →
            ∃ rest, rest <:+ c :: cs ∧ matchAt ps rest = some runs := fun skip h => by
          obtain ⟨rest, hrest, hmatch⟩ := ih skip h
          exact ⟨rest, hrest.trans (List.suffix_cons c cs), hmatch⟩
        cases skip with
        | succ skip => exact hlater skip h
        | zero =>
            rw [matchesFrom] at h
            split at h
            · rename_i first hfirst
              rcases List.mem_cons.mp h with rfl | h
              · exact ⟨c :: cs, List.suffix_rfl, hfirst⟩
              · exact hlater _ h
            · exact hlater 0 h
  exact hfrom 0 h

/-- A match of the walk is a part of the text. -/
theorem flatten_of_mem_matches? {runs : List (List α)} (h : runs ∈ matches? ps cs) :
    runs.flatten <:+: cs := by
  obtain ⟨rest, hrest, hmatch⟩ := exists_matchAt_of_mem h
  exact (flatten_of_matchAt hmatch).isInfix.trans hrest.isInfix

/-- The walk finds something, where the pattern matches at some place. -/
theorem matches?_ne_nil {front : List α} {runs : List (List α)} (hne : cs ≠ [])
    (h : matchAt ps cs = some runs) : matches? ps (front ++ cs) ≠ [] := by
  induction front with
  | nil =>
      obtain ⟨c, cs, rfl⟩ := List.exists_cons_of_ne_nil hne
      rw [List.nil_append, matches?, matchesFrom, h]
      exact List.cons_ne_nil _ _
  | cons c front ih =>
      rw [List.cons_append]
      rcases hfirst : matchAt ps (c :: (front ++ cs)) with - | first
      · rw [matches?_of_none hfirst]
        exact ih
      · rw [matches?, matchesFrom, hfirst]
        exact List.cons_ne_nil _ _

@[simp] theorem matches?_nil : matches? ps ([] : List α) = [] := rfl

/-! ### Replacing the matches -/

/-- A text with each match of the walk replaced, from a place `skip` characters ahead. -/
def replaceFrom (ps : List (Piece α)) (replacement : List α) : Nat → List α → List α
  | _, [] => []
  | skip + 1, _ :: cs => replaceFrom ps replacement skip cs
  | 0, c :: cs =>
      match matchAt ps (c :: cs) with
      | some runs => replacement ++ replaceFrom ps replacement (runs.flatten.length - 1) cs
      | none => c :: replaceFrom ps replacement 0 cs

/-- A text with each match replaced. -/
def replace (ps : List (Piece α)) (replacement cs : List α) : List α :=
  replaceFrom ps replacement 0 cs

/-- The pattern matches no empty text. -/
def Consumes (ps : List (Piece α)) : Prop :=
  ∀ cs runs, matchAt ps cs = some runs → runs.flatten ≠ []

section Replace

variable {replacement : List α} {runs : List (List α)}

theorem replaceFrom_skip (skip : Nat) :
    replaceFrom ps replacement skip cs = replace ps replacement (cs.drop skip) := by
  induction cs generalizing skip with
  | nil => simp [replace, replaceFrom]
  | cons c cs ih =>
      cases skip with
      | zero => rfl
      | succ skip => exact ih skip

/-- A match is replaced, and the text behind it is replaced by itself. -/
theorem replace_of_some (h : matchAt ps cs = some runs) (hpos : 0 < runs.flatten.length) :
    replace ps replacement cs
      = replacement ++ replace ps replacement (cs.drop runs.flatten.length) := by
  cases cs with
  | nil =>
      have hnil : runs.flatten = [] := List.prefix_nil.mp (flatten_of_matchAt h)
      rw [hnil] at hpos
      cases hpos
  | cons c cs =>
      rw [replace, replaceFrom, h]
      show replacement ++ replaceFrom ps replacement (runs.flatten.length - 1) cs = _
      obtain ⟨n, hn⟩ := Nat.exists_eq_add_of_lt hpos
      rw [replaceFrom_skip, hn]
      simp

theorem replace_of_none {c : α} (h : matchAt ps (c :: cs) = none) :
    replace ps replacement (c :: cs) = c :: replace ps replacement cs := by
  rw [replace, replaceFrom, h]
  rfl

/-- A text without a match stays as it is. -/
theorem replace_eq_self (h : ∀ rest, rest <:+ cs → matchAt ps rest = none) :
    replace ps replacement cs = cs := by
  induction cs with
  | nil => rfl
  | cons c cs ih =>
      rw [replace_of_none (h _ List.suffix_rfl),
        ih fun rest hrest => h rest (hrest.trans (List.suffix_cons c cs))]

/-- What the walk removes is the length of its matches. -/
theorem length_replace_nil (hps : Consumes ps) (cs : List α) :
    (replace ps [] cs).length + (matches? ps cs).flatten.flatten.length = cs.length := by
  induction hn : cs.length using Nat.strong_induction_on generalizing cs with
  | _ n ih =>
      cases cs with
      | nil => exact hn
      | cons c cs =>
          rcases hmatch : matchAt ps (c :: cs) with - | runs
          · have hrest := ih cs.length (by rw [← hn]; exact Nat.lt_succ_self _) cs rfl
            rw [replace_of_none hmatch, matches?_of_none hmatch, ← hn, List.length_cons,
              List.length_cons, ← hrest]
            omega
          · have hpos : 0 < runs.flatten.length := List.length_pos_iff.mpr (hps _ _ hmatch)
            have hle := (flatten_of_matchAt hmatch).length_le
            have hdrop := List.length_drop (i := runs.flatten.length) (l := c :: cs)
            have hrest := ih ((c :: cs).drop runs.flatten.length).length (by omega) _ rfl
            rw [replace_of_some hmatch hpos, matches?_of_some hmatch hpos, List.nil_append,
              List.flatten_cons, List.flatten_append, List.length_append]
            omega

/-- **Removing the matches changes every text that has one.** -/
theorem replace_nil_eq_self_iff (hps : Consumes ps) :
    replace ps [] cs = cs ↔ ∀ rest, rest <:+ cs → matchAt ps rest = none := by
  refine ⟨fun h rest hrest => ?_, replace_eq_self⟩
  by_contra hmatch
  obtain ⟨runs, hmatch⟩ := Option.ne_none_iff_exists'.mp hmatch
  have hne : rest ≠ [] := by
    rintro rfl
    exact hps _ _ hmatch (List.prefix_nil.mp (flatten_of_matchAt hmatch))
  obtain ⟨front, rfl⟩ := hrest
  have hwalk : matches? ps (front ++ rest) ≠ [] := matches?_ne_nil hne hmatch
  obtain ⟨first, later, hwalk⟩ := List.exists_cons_of_ne_nil hwalk
  have hlength := length_replace_nil hps (front ++ rest)
  rw [h, hwalk, List.flatten_cons, List.flatten_append] at hlength
  simp only [List.length_append] at hlength
  obtain ⟨place, -, hfirst⟩ := exists_matchAt_of_mem (hwalk ▸ List.mem_cons_self : first ∈ _)
  have hpos := List.length_pos_iff.mpr (hps _ _ hfirst)
  omega

end Replace

/-! ### Literal characters -/

section Literal

variable [DecidableEq α] {literal : List α} {runs : List (List α)}

/-- The characters of a text, one after the other. -/
def literally (literal : List α) : List (Piece α) := literal.map fun c => .one (· = c)

theorem matchAt_char_cons (c : α) (cs : List α) :
    matchAt (.one (fun d => decide (d = c)) :: ps) (c :: cs)
      = (matchAt ps cs).map ([c] :: ·) := matchAt_one_cons (decide_eq_true rfl)

theorem matchAt_literally (literal cs : List α) :
    matchAt (literally literal ++ ps) (literal ++ cs)
      = (matchAt ps cs).map (literal.map ([·]) ++ ·) := by
  induction literal with
  | nil => exact Option.map_id'.symm
  | cons c literal ih =>
      rw [literally, List.map_cons, List.cons_append, List.cons_append, matchAt_char_cons,
        ← literally, ih, Option.map_map]
      rfl

theorem exists_of_matchAt_literally (h : matchAt (literally literal ++ ps) cs = some runs) :
    ∃ rest runs', cs = literal ++ rest ∧ matchAt ps rest = some runs'
      ∧ runs = literal.map ([·]) ++ runs' := by
  induction literal generalizing cs runs with
  | nil => exact ⟨cs, runs, rfl, h, rfl⟩
  | cons c literal ih =>
      rw [literally, List.map_cons, List.cons_append, ← literally] at h
      by_cases hhead : cs.head? = some c
      · obtain ⟨rest, rfl⟩ := List.head?_eq_some_iff.mp hhead
        rw [matchAt_char_cons] at h
        obtain ⟨later, hlater, rfl⟩ := Option.map_eq_some_iff.mp h
        obtain ⟨rest', runs', rfl, hruns', rfl⟩ := ih hlater
        exact ⟨rest', runs', rfl, hruns', rfl⟩
      · have hnone : ∀ d ∈ cs.head?, decide (d = c) = false := fun d hd =>
          decide_eq_false fun heq => hhead (heq ▸ hd)
        rw [matchAt_one_of_not hnone] at h
        cases h

theorem consumes_literally (hne : literal ≠ []) : Consumes (literally literal ++ ps) := by
  intro cs runs h hnil
  obtain ⟨rest, runs', -, -, rfl⟩ := exists_of_matchAt_literally h
  obtain ⟨c, literal, rfl⟩ := List.exists_cons_of_ne_nil hne
  rw [List.map_cons, List.cons_append, List.flatten_cons, List.singleton_append] at hnil
  cases hnil

end Literal

end Patterns
