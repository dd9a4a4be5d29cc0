/-
Instinct/Cells.lean

Memory whose cells are shared by pointers and never freed, as a small library of its own.

A function that is given a pointer may write to the cell there and add cells.  Seen from the
value in that cell it is a `View`: it takes the value and says what is there afterwards, and
whether the pointer that it returns is the one that it was given, one to a new cell, or null.

`Refines x f` says that the pointer function `x` behaves as the view `f` and leaves every other
cell as it is.  It is kept by one call (`refines_call`), by one function after another
(`refines_andThen`), by a choice (`refines_choose`) and by calls on clones of a cell
(`agrees_callClones`).
-/
import Instinct.Effects
import Mathlib.Algebra.Order.Group.Nat
import Mathlib.Data.List.Perm.Basic

namespace Cells

open Effects

variable {ε α ω κ : Type}

/-! ### Memory -/

/-- Cells, in the order in which they were added, beside the rest of the state. -/
structure Memory (α ω : Type) where
  cells : List α
  world : ω

/-- A pointer to a cell, or null. -/
abbrev Pointer := Option Nat

/-- What a pointer points to. -/
def Memory.value (m : Memory α ω) (p : Pointer) : Option α := p.bind (m.cells[·]?)

/-- Add a cell. -/
def alloc (a : α) : Action ε (Memory α ω) Pointer := fun m =>
  (.ok (some m.cells.length), ⟨m.cells ++ [a], m.world⟩)

/-- What is in a cell; null has none. -/
def read (undefined : ε) (p : Pointer) : Action ε (Memory α ω) α := fun m =>
  match m.value p with
  | some a => (.ok a, m)
  | none => (.error undefined, m)

/-- Write to a cell. -/
def write (undefined : ε) (p : Pointer) (a : α) : Action ε (Memory α ω) Unit := fun m =>
  match p, m.value p with
  | some i, some _ => (.ok (), ⟨m.cells.set i a, m.world⟩)
  | _, _ => (.error undefined, m)

/-- What a call returns: the pointer that it was given, one to a new cell, or null. -/
inductive Returned (α : Type)
  | same
  | fresh (a : α)
  | null

/-- The value behind what is returned, given the one behind what was passed. -/
def Returned.value (own : Option α) : Returned α → Option α
  | .same => own
  | .fresh a => some a
  | .null => none

/-- What is returned where the pointer itself is one to a new cell, or null. -/
def Returned.ofValue : Option α → Returned α
  | some a => .fresh a
  | none => .null

/-- A function of a pointer. -/
abbrev PointerFunction (ε α ω : Type) := Pointer → Action ε (Memory α ω) Pointer

/-- A function that knows only what is in the cell that it is called with. -/
abbrev CellFunction (ε α ω : Type) := Action ε (α × ω) (Returned α)

/-- Call a function with the cell behind a pointer. -/
def call (undefined : ε) (fn : CellFunction ε α ω) : PointerFunction ε α ω := fun p m =>
  match p, m.value p with
  | some i, some a =>
      match fn (a, m.world) with
      | (.ok .same, a', w) => (.ok (some i), ⟨m.cells.set i a', w⟩)
      | (.ok (.fresh b), a', w) => (.ok (some m.cells.length), ⟨m.cells.set i a' ++ [b], w⟩)
      | (.ok .null, a', w) => (.ok none, ⟨m.cells.set i a', w⟩)
      | (.error e, a', w) => (.error e, ⟨m.cells.set i a', w⟩)
  | _, _ => (.error undefined, m)

/-- One of two functions, by what a first one has returned. -/
def choose (undefined : ε) (x : PointerFunction ε α ω) (test : α → Except ε Bool)
    (y z : PointerFunction ε α ω) : PointerFunction ε α ω := fun p => do
  let q ← x p
  let a ← read undefined q
  let b ← Action.ofExcept (test a)
  if b then y p else z p

/-- Call a function with a new cell. -/
def callNew (x : PointerFunction ε α ω) (a : α) : Action ε (Memory α ω) Pointer := do
  let q ← alloc a
  x q

/-- Call each function with a clone of one cell of its own. -/
def callClones (undefined : ε) (p : Pointer) :
    List (κ × PointerFunction ε α ω) → Action ε (Memory α ω) (List (κ × Pointer))
  | [] => pure []
  | (k, x) :: xs => do
      let a ← read undefined p
      let q ← callNew x a
      let rest ← callClones undefined p xs
      pure ((k, q) :: rest)

/-- The values under the keys, unless one of them is none. -/
def present (vs : List (κ × Option α)) : Option (List (κ × α)) :=
  vs.mapM fun v => v.2.map (v.1, ·)

/-- What is in the cells behind pointers. -/
def readAll (undefined : ε) (qs : List (κ × Pointer)) :
    Action ε (Memory α ω) (List (κ × α)) := fun m =>
  match present (qs.map fun q => (q.1, m.value q.2)) with
  | some vs => (.ok vs, m)
  | none => (.error undefined, m)

/-- Call functions on clones of a cell, and write there what is made of what they return. -/
def gather (undefined : ε) (xs : List (κ × PointerFunction ε α ω))
    (combine : List (κ × α) → α) : PointerFunction ε α ω := fun p => do
  let qs ← callClones undefined p xs
  let vs ← readAll undefined qs
  write undefined p (combine vs)
  pure p

/-! ### Views -/

/-- A function of a pointer, seen from the value behind it. -/
abbrev View (ε α ω : Type) := Action ε (Option α × ω) (Returned α)

/-- The view of a function that knows only what is in its cell. -/
def View.ofCell (undefined : ε) (fn : CellFunction ε α ω) : View ε α ω := fun (own, w) =>
  match own with
  | some a => ((fn (a, w)).1, some (fn (a, w)).2.1, (fn (a, w)).2.2)
  | none => (.error undefined, none, w)

/-- One function after the other.  A second one that returns its own pointer returns that of the
new cell, where the first has made one. -/
def View.andThen (f g : View ε α ω) : View ε α ω := fun s =>
  match f s with
  | (.error e, s') => (.error e, s')
  | (.ok .same, s') => g s'
  | (.ok (.fresh a), own, w) =>
      ((g (some a, w)).1.map fun r => .ofValue (r.value (g (some a, w)).2.1), own,
        (g (some a, w)).2.2)
  | (.ok .null, own, w) =>
      ((g (none, w)).1.map fun r => .ofValue (r.value (g (none, w)).2.1), own, (g (none, w)).2.2)

/-- One of two functions, by what a first one has returned. -/
def View.choose (undefined : ε) (f : View ε α ω) (test : α → Except ε Bool)
    (g h : View ε α ω) : View ε α ω := fun s =>
  match f s with
  | (.error e, s') => (.error e, s')
  | (.ok r, own, w) =>
      match (r.value own).elim (.error undefined) test with
      | .error e => (.error e, own, w)
      | .ok true => g (own, w)
      | .ok false => h (own, w)

/-- The value behind what a function returns.  What it leaves in its own cell is forgotten. -/
def View.result (f : View ε α ω) (own : Option α) : Action ε ω (Option α) := fun w =>
  ((f (own, w)).1.map (Returned.value (f (own, w)).2.1), (f (own, w)).2.2)

/-- The values behind what functions return that are called on clones. -/
def viewClones (undefined : ε) (own : Option α) :
    List (κ × View ε α ω) → Action ε ω (List (κ × Option α))
  | [] => pure []
  | (k, f) :: fs => do
      let a ← Action.ofExcept (own.elim (.error undefined) .ok)
      let v ← f.result (some a)
      let rest ← viewClones undefined own fs
      pure ((k, v) :: rest)

/-- What is left in a cell by functions that were called on clones of it. -/
def View.gather (undefined : ε) (fs : List (κ × View ε α ω)) (combine : List (κ × α) → α) :
    View ε α ω := fun (own, w) =>
  match viewClones undefined own fs w with
  | (.error e, w') => (.error e, own, w')
  | (.ok vs, w') =>
      match own, present vs with
      | some _, some l => (.ok .same, some (combine l), w')
      | _, _ => (.error undefined, own, w')

/-! ### Refinement -/

/-- The pointer is null or points to a cell. -/
def Memory.Valid (m : Memory α ω) (p : Pointer) : Prop := ∀ i, p = some i → i < m.cells.length

/-- Cells were added, and no old one but that of a pointer was written. -/
structure Memory.Keeps (own : Pointer) (m m' : Memory α ω) : Prop where
  grows : m.cells.length ≤ m'.cells.length
  others : ∀ i < m.cells.length, some i ≠ own → m'.cells[i]? = m.cells[i]?

/-- The pointer is null or one to a cell that was added, and the value is the one behind it. -/
inductive Memory.Added (m m' : Memory α ω) : Pointer → Option α → Prop
  | null : Added m m' none none
  | cell {i : Nat} {a : α} : m.cells.length ≤ i → m'.cells[i]? = some a →
      Added m m' (some i) (some a)

/-- The pointer is what a call with `p` is said to return. -/
def Memory.Denotes (p : Pointer) (m m' : Memory α ω) (q : Pointer) : Returned α → Prop
  | .same => q = p
  | .fresh a => m.Added m' q (some a)
  | .null => q = none

/-- Two results are both thrown, and the same, or both returned, and related. -/
inductive Results {β γ : Type} (R : β → γ → Prop) : Except ε β → Except ε γ → Prop
  | error (e : ε) : Results R (.error e) (.error e)
  | ok {b : β} {c : γ} : R b c → Results R (.ok b) (.ok c)

/-- Wherever its pointer points to, the function leaves there what the view says, changes the
rest of the state and returns or throws as it does, and writes to no other old cell. -/
def Refines (x : PointerFunction ε α ω) (f : View ε α ω) : Prop :=
  ∀ p m, m.Valid p → ∃ seen,
    f (m.value p, m.world) = (seen, (x p m).2.value p, (x p m).2.world) ∧
      m.Keeps p (x p m).2 ∧ Results (Memory.Denotes p m (x p m).2) (x p m).1 seen

theorem Results.imp {β γ : Type} {R R' : β → γ → Prop} {x : Except ε β} {y : Except ε γ}
    (h : Results R x y) (himp : ∀ b c, R b c → R' b c) : Results R' x y := by
  cases h with
  | error e => exact .error e
  | ok h => exact .ok (himp _ _ h)

section Keeps

variable {m m' m'' : Memory α ω} {p q own : Pointer} {v : Option α} {r : Returned α}

@[simp] theorem value_null (m : Memory α ω) : m.value none = none := rfl

@[simp] theorem value_cell (m : Memory α ω) (i : Nat) : m.value (some i) = m.cells[i]? := rfl

theorem valid_null : m.Valid none := fun _ hi => absurd hi (Option.some_ne_none _).symm

theorem exists_value {i : Nat} (h : m.Valid (some i)) : ∃ a, m.cells[i]? = some a :=
  ⟨_, List.getElem?_eq_getElem (h i rfl)⟩

namespace Memory

theorem Keeps.refl (own : Pointer) (m : Memory α ω) : m.Keeps own m := ⟨le_rfl, fun _ _ _ => rfl⟩

/-- What is written later to an added cell counts as added. -/
theorem Keeps.trans_of (h : m.Keeps own m') (h' : m'.Keeps q m'')
    (hq : ∀ i, q = some i → q = own ∨ m.cells.length ≤ i) : m.Keeps own m'' := by
  refine ⟨h.grows.trans h'.grows, fun i hi hne => ?_⟩
  rw [h'.others i (hi.trans_le h.grows) ?_, h.others i hi hne]
  intro hiq
  rcases hq i hiq.symm with hown | hadded
  · exact hne (hiq.trans hown)
  · exact absurd hi (Nat.not_lt.mpr hadded)

theorem Keeps.trans (h : m.Keeps own m') (h' : m'.Keeps own m'') : m.Keeps own m'' :=
  h.trans_of h' fun _ _ => .inl rfl

theorem Keeps.valid (h : m.Keeps own m') (hp : m.Valid p) : m'.Valid p :=
  fun i hi => (hp i hi).trans_le h.grows

/-- A cell that was not written holds what it held. -/
theorem Keeps.value_eq (h : m.Keeps own m') (hp : m.Valid p)
    (hne : ∀ i, p = some i → some i ≠ own) : m'.value p = m.value p := by
  cases p with
  | none => rfl
  | some i => exact h.others i (hp i rfl) (hne i rfl)

/-- The cells are the old ones, one of them written, and others behind them. -/
theorem Keeps.cells_eq {i : Nat} {a : α} (h : m.Keeps (some i) m') (ha : m'.cells[i]? = some a)
    (hi : i < m.cells.length) :
    m'.cells = m.cells.set i a ++ m'.cells.drop m.cells.length := by
  have htake : m'.cells.take m.cells.length = m.cells.set i a := by
    refine List.ext_getElem? fun j => ?_
    rw [List.getElem?_take]
    by_cases hj : j < m.cells.length
    · rw [if_pos hj]
      by_cases hij : i = j
      · rw [← hij, ha, List.getElem?_set_self hi]
      · rw [List.getElem?_set_ne hij]
        exact h.others j hj fun hji => hij (Option.some.inj hji).symm
    · rw [if_neg hj, List.getElem?_eq_none]
      rw [List.length_set]
      exact Nat.not_lt.mp hj
  rw [← htake, List.take_append_drop]

/-- The cells are the old ones, and others behind them. -/
theorem Keeps.cells_eq_append (h : m.Keeps none m') :
    m'.cells = m.cells ++ m'.cells.drop m.cells.length := by
  have htake : m'.cells.take m.cells.length = m.cells := by
    refine List.ext_getElem? fun j => ?_
    rw [List.getElem?_take]
    by_cases hj : j < m.cells.length
    · rw [if_pos hj]
      exact h.others j hj (Option.some_ne_none j)
    · rw [if_neg hj, List.getElem?_eq_none (Nat.not_lt.mp hj)]
  rw [← List.take_append_drop m.cells.length m'.cells, htake,
    List.drop_append_of_le_length le_rfl, List.drop_length, List.nil_append]

theorem Added.valid (h : m.Added m' q v) : m'.Valid q := by
  intro i hi
  cases h with
  | null => cases hi
  | cell _ hvalue =>
      cases hi
      exact (List.getElem?_eq_some_iff.mp hvalue).1

theorem Added.value_eq (h : m.Added m' q v) : m'.value q = v := by
  cases h with
  | null => rfl
  | cell _ hvalue => exact hvalue

theorem Added.le (h : m.Added m' q v) : ∀ i, q = some i → m.cells.length ≤ i := by
  intro i hi
  cases h with
  | null => cases hi
  | cell hle _ =>
      cases hi
      exact hle

theorem Added.of_value (hq : m'.Valid q) (hle : ∀ i, q = some i → m.cells.length ≤ i) :
    m.Added m' q (m'.value q) := by
  cases q with
  | none => exact .null
  | some i =>
      obtain ⟨a, ha⟩ := exists_value hq
      rw [value_cell, ha]
      exact .cell (hle i rfl) ha

/-- An added cell is left alone by what writes to another one. -/
theorem Added.keeps (h : m.Added m' q v) (h' : m'.Keeps own m'')
    (hne : ∀ i, q = some i → some i ≠ own) : m.Added m'' q v := by
  have hvalue := h'.value_eq h.valid hne
  rw [h.value_eq] at hvalue
  rw [← hvalue]
  exact .of_value (h'.valid h.valid) h.le

theorem Added.mono (h : m'.Added m'' q v) (hgrows : m.cells.length ≤ m'.cells.length) :
    m.Added m'' q v := by
  cases h with
  | null => exact .null
  | cell hle hvalue => exact .cell (hgrows.trans hle) hvalue

theorem Denotes.mono (h : m'.Denotes p m'' q r) (hgrows : m.cells.length ≤ m'.cells.length) :
    m.Denotes p m'' q r := by
  cases r with
  | same => exact h
  | fresh a => exact Added.mono h hgrows
  | null => exact h

/-- What a call with an added cell returns is an added cell. -/
theorem Denotes.added (h : m'.Denotes p m'' q r) (hgrows : m.cells.length ≤ m'.cells.length)
    (hp : m''.Valid p) (hle : ∀ i, p = some i → m.cells.length ≤ i) :
    m.Added m'' q (r.value (m''.value p)) := by
  cases r with
  | same =>
      cases h
      exact .of_value hp hle
  | fresh a => exact Added.mono h hgrows
  | null =>
      cases h
      exact .null

theorem Added.denotes (h : m.Added m' q v) : m.Denotes p m' q (.ofValue v) := by
  cases h with
  | null => rfl
  | cell hle hvalue => exact .cell hle hvalue

end Memory

end Keeps

/-! ### What keeps refinement -/

section Refines

variable {undefined : ε} {x y z : PointerFunction ε α ω} {f g h : View ε α ω}
variable {m : Memory α ω} {p : Pointer}

/-- The value behind what a call returns. -/
theorem value_of_denotes {m' : Memory α ω} {q : Pointer} {r : Returned α}
    (h : m.Denotes p m' q r) : m'.value q = r.value (m'.value p) := by
  cases r with
  | same => exact congrArg _ h
  | fresh a => exact Memory.Added.value_eq h
  | null => exact congrArg _ h

theorem read_of_value {q : Pointer} {v : Option α} (h : m.value q = v) :
    read undefined q m = (v.elim (.error undefined) .ok, m) := by
  rw [read, h]
  cases v <;> rfl

theorem refines_pure :
    Refines (fun p => pure p : PointerFunction ε α ω) (fun s => (.ok .same, s)) :=
  fun p m _ => ⟨_, rfl, .refl p m, .ok rfl⟩

/-- What a second function returns that was called with an added cell. -/
theorem results_added {m' m'' : Memory α ω} {q : Pointer} {out : Except ε Pointer}
    {seen : Except ε (Returned α)} (h : Results (m'.Denotes q m'') out seen)
    (hgrows : m.cells.length ≤ m'.cells.length) (hq : m''.Valid q)
    (hle : ∀ i, q = some i → m.cells.length ≤ i) :
    Results (m.Denotes p m'') out (seen.map fun r => .ofValue (r.value (m''.value q))) := by
  cases h with
  | error e => exact .error e
  | ok hq' => exact .ok (hq'.added hgrows hq hle).denotes

theorem refines_andThen (hx : Refines x f) (hy : Refines y g) :
    Refines (fun p => x p >>= y) (f.andThen g) := by
  intro p m hp
  obtain ⟨seen, hf, hkeeps, hresult⟩ := hx p m hp
  rcases ex : x p m with ⟨out, m'⟩
  rw [ex] at hf hkeeps hresult
  show ∃ seen, f.andThen g (m.value p, m.world)
      = (seen, ((x p >>= y) m).2.value p, ((x p >>= y) m).2.world) ∧
    m.Keeps p ((x p >>= y) m).2 ∧
      Results (m.Denotes p ((x p >>= y) m).2) ((x p >>= y) m).1 seen
  cases hresult with
  | error e =>
      rw [Action.bind_of_error ex, View.andThen, hf]
      exact ⟨_, rfl, hkeeps, .error e⟩
  | @ok q r hq =>
      have hp' : m'.Valid p := hkeeps.valid hp
      rw [Action.bind_of_ok ex, View.andThen, hf]
      cases r with
      | same =>
          cases hq
          obtain ⟨seen', hg, hkeeps', hresult'⟩ := hy p m' hp'
          exact ⟨seen', hg, hkeeps.trans hkeeps', hresult'.imp fun _ _ h => h.mono hkeeps.grows⟩
      | fresh a =>
          obtain ⟨seen', hg, hkeeps', hresult'⟩ := hy q m' hq.valid
          rw [hq.value_eq] at hg
          have hne : ∀ i, p = some i → some i ≠ q := fun i hi hiq =>
            absurd (hp i hi) (Nat.not_lt.mpr (hq.le i hiq.symm))
          refine ⟨_, ?_, hkeeps.trans_of hkeeps' fun i hi => .inr (hq.le i hi),
            results_added hresult' hkeeps.grows (hkeeps'.valid hq.valid) hq.le⟩
          simp only [hg]
          rw [hkeeps'.value_eq hp' hne]
      | null =>
          cases hq
          obtain ⟨seen', hg, hkeeps', hresult'⟩ := hy none m' valid_null
          rw [value_null] at hg
          refine ⟨_, ?_, hkeeps.trans_of hkeeps' fun i hi => absurd hi.symm (Option.some_ne_none i),
            results_added hresult' hkeeps.grows valid_null fun i hi =>
              absurd hi.symm (Option.some_ne_none i)⟩
          simp only [hg]
          rw [hkeeps'.value_eq hp' fun i hi => Option.some_ne_none i]

theorem refines_choose {test : α → Except ε Bool} (hx : Refines x f) (hy : Refines y g)
    (hz : Refines z h) : Refines (choose undefined x test y z) (f.choose undefined test g h) := by
  intro p m hp
  obtain ⟨seen, hf, hkeeps, hresult⟩ := hx p m hp
  rcases ex : x p m with ⟨out, m'⟩
  rw [ex] at hf hkeeps hresult
  cases hresult with
  | error e =>
      rw [choose, Action.bind_of_error ex, View.choose, hf]
      exact ⟨_, rfl, hkeeps, .error e⟩
  | @ok q r hq =>
      have hp' : m'.Valid p := hkeeps.valid hp
      have hvalue := value_of_denotes hq
      rw [choose, Action.bind_of_ok ex, View.choose, hf]
      simp only [← hvalue]
      cases ev : m'.value q with
      | none =>
          have hread : read undefined q m' = (.error undefined, m') := by rw [read, ev]
          rw [Action.bind_of_error hread]
          exact ⟨.error undefined, rfl, hkeeps, .error undefined⟩
      | some a =>
          have hread : read undefined q m' = (.ok a, m') := by rw [read, ev]
          rw [Action.bind_of_ok hread]
          rcases et : test a with e | b
          · rw [Action.bind_of_error (Action.ofExcept_apply _ m'), Option.elim_some, et]
            exact ⟨.error e, rfl, hkeeps, .error e⟩
          · rw [Action.bind_of_ok (Action.ofExcept_apply _ m'), Option.elim_some, et]
            cases b with
            | true =>
                obtain ⟨seen', hg, hkeeps', hresult'⟩ := hy p m' hp'
                exact ⟨seen', hg, hkeeps.trans hkeeps',
                  hresult'.imp fun _ _ h => h.mono hkeeps.grows⟩
            | false =>
                obtain ⟨seen', hg, hkeeps', hresult'⟩ := hz p m' hp'
                exact ⟨seen', hg, hkeeps.trans hkeeps',
                  hresult'.imp fun _ _ h => h.mono hkeeps.grows⟩

/-- The cell of the pointer was written and others were added. -/
theorem keeps_set {i : Nat} (m : Memory α ω) (a : α) (added : List α) (w : ω) :
    m.Keeps (some i) ⟨m.cells.set i a ++ added, w⟩ := by
  refine ⟨?_, fun j hj hne => ?_⟩
  · rw [List.length_append, List.length_set]
    exact Nat.le_add_right _ _
  · have hij : i ≠ j := fun h => hne (congrArg some h.symm)
    rw [List.getElem?_append_left (by rwa [List.length_set]), List.getElem?_set_ne hij]

theorem value_set {i : Nat} (hi : i < m.cells.length) (a : α) (added : List α) (w : ω) :
    (⟨m.cells.set i a ++ added, w⟩ : Memory α ω).value (some i) = some a := by
  rw [value_cell, List.getElem?_append_left (by rwa [List.length_set]),
    List.getElem?_set_self hi]

/-- **A call refines the view of its function.** -/
theorem refines_call (undefined : ε) (fn : CellFunction ε α ω) :
    Refines (call undefined fn) (.ofCell undefined fn) := by
  intro p m hp
  cases p with
  | none => exact ⟨.error undefined, rfl, .refl none m, .error undefined⟩
  | some i =>
      obtain ⟨a, ha⟩ := exists_value hp
      have hvalue : m.value (some i) = some a := ha
      simp only [call, hvalue, View.ofCell]
      rcases fn (a, m.world) with ⟨r, a', w⟩
      have hkeeps := @keeps_set _ _ i m a' [] w
      have hown := value_set (hp i rfl) a' [] w
      rw [List.append_nil] at hkeeps hown
      rcases r with e | r
      · exact ⟨.error e, by rw [hown], hkeeps, .error e⟩
      · cases r with
        | same => exact ⟨.ok .same, by rw [hown], hkeeps, .ok rfl⟩
        | null => exact ⟨.ok .null, by rw [hown], hkeeps, .ok rfl⟩
        | fresh b =>
            refine ⟨.ok (.fresh b), ?_, keeps_set m a' [b] w, .ok (.cell le_rfl ?_)⟩
            · rw [value_set (hp i rfl) a' [b] w]
            · rw [List.getElem?_append_right (by rw [List.length_set]), List.length_set,
                Nat.sub_self]
              rfl

/-- What is collected of calls on clones: the keys are those of the functions, and the pointers
are null or to added cells. -/
def Memory.AddedAll (m m' : Memory α ω) (qs : List (κ × Pointer)) (vs : List (κ × Option α)) :
    Prop :=
  List.Forall₂ (fun q v => q.1 = v.1 ∧ m.Added m' q.2 v.2) qs vs

/-- One call on a clone leaves all old cells alone. -/
theorem refines_callNew (hx : Refines x f) (m : Memory α ω) (a : α) :
    ∃ seen, f.result (some a) m.world = (seen, (callNew x a m).2.world) ∧
      m.Keeps none (callNew x a m).2 ∧
        Results (m.Added (callNew x a m).2) (callNew x a m).1 seen := by
  let m' : Memory α ω := ⟨m.cells ++ [a], m.world⟩
  have hgrows : m.cells.length ≤ m'.cells.length := by
    show _ ≤ (m.cells ++ [a]).length
    rw [List.length_append]
    exact Nat.le_add_right _ _
  have hvalue : m'.value (some m.cells.length) = some a := List.getElem?_concat_length
  have hvalid : m'.Valid (some m.cells.length) := fun i hi => by
    rw [← Option.some.inj hi]
    exact (List.getElem?_eq_some_iff.mp hvalue).1
  have hle : ∀ i, some m.cells.length = some i → m.cells.length ≤ i := fun i hi =>
    (Option.some.inj hi).le
  have hadd : m.Keeps none m' := ⟨hgrows, fun i hi _ => List.getElem?_append_left hi⟩
  obtain ⟨seen, hf, hkeeps, hresult⟩ := hx (some m.cells.length) m' hvalid
  rw [hvalue] at hf
  have hcall : callNew x a m = x (some m.cells.length) m' := rfl
  rw [hcall]
  rcases ex : x (some m.cells.length) m' with ⟨out, m''⟩
  rw [ex] at hf hkeeps hresult
  refine ⟨seen.map (Returned.value (m''.value (some m.cells.length))), ?_,
    hadd.trans_of hkeeps fun i hi => .inr (hle i hi), ?_⟩
  · show ((f (some a, m'.world)).1.map _, _) = _
    rw [hf]
  · cases hresult with
    | error e => exact .error e
    | ok hq => exact .ok (hq.added hgrows (hkeeps.valid hvalid) hle)

/-- **Calls on clones.**  Nothing that was there is written, and the values that are collected
are those that the views say. -/
theorem agrees_callClones {xs : List (κ × PointerFunction ε α ω)} {fs : List (κ × View ε α ω)}
    (h : List.Forall₂ (fun x f => x.1 = f.1 ∧ Refines x.2 f.2) xs fs) {m : Memory α ω}
    {p : Pointer} (hp : m.Valid p) :
    ∃ seen, viewClones undefined (m.value p) fs m.world
        = (seen, (callClones undefined p xs m).2.world) ∧
      m.Keeps none (callClones undefined p xs m).2 ∧
        Results (m.AddedAll (callClones undefined p xs m).2) (callClones undefined p xs m).1
          seen := by
  induction h generalizing m with
  | nil => exact ⟨.ok [], rfl, .refl none m, .ok .nil⟩
  | @cons x f xs fs hxf hrest ih =>
      obtain ⟨k, x⟩ := x
      obtain ⟨k', f⟩ := f
      obtain ⟨rfl, hx⟩ : k = k' ∧ Refines x f := hxf
      rw [viewClones, callClones]
      cases ev : m.value p with
      | none =>
          have hread : read undefined p m = (.error undefined, m) := by rw [read, ev]
          rw [Action.bind_of_error hread]
          exact ⟨.error undefined, rfl, .refl none m, .error undefined⟩
      | some a =>
          have hread : read undefined p m = (.ok a, m) := by rw [read, ev]
          obtain ⟨seen, hf, hkeeps, hresult⟩ := refines_callNew hx m a
          rw [Action.bind_of_ok hread, Option.elim_some,
            Action.bind_of_ok (Action.ofExcept_apply (.ok a) m.world)]
          rcases ex : callNew x a m with ⟨out, m'⟩
          rw [ex] at hf hkeeps hresult
          cases hresult with
          | error e =>
              rw [Action.bind_of_error ex, Action.bind_of_error hf]
              exact ⟨.error e, rfl, hkeeps, .error e⟩
          | @ok q v hq =>
              have hp' : m'.Valid p := hkeeps.valid hp
              obtain ⟨seen', hfs, hkeeps', hresult'⟩ := ih hp'
              rw [hkeeps.value_eq hp fun i hi => Option.some_ne_none i, ev] at hfs
              rw [Action.bind_of_ok ex, Action.bind_of_ok hf]
              rcases exs : callClones undefined p xs m' with ⟨out', m''⟩
              rw [exs] at hfs hkeeps' hresult'
              cases hresult' with
              | error e =>
                  rw [Action.bind_of_error exs, Action.bind_of_error hfs]
                  exact ⟨.error e, rfl, hkeeps.trans hkeeps', .error e⟩
              | @ok qs vs hqs =>
                  rw [Action.bind_of_ok exs, Action.bind_of_ok hfs]
                  refine ⟨.ok ((k, v) :: vs), rfl, hkeeps.trans hkeeps', .ok (.cons ⟨rfl, ?_⟩ ?_)⟩
                  · exact hq.keeps hkeeps' fun i hi => Option.some_ne_none i
                  · exact hqs.imp fun _ _ h => ⟨h.1, h.2.mono hkeeps.grows⟩

theorem values_of_addedAll {m m' : Memory α ω} {qs : List (κ × Pointer)}
    {vs : List (κ × Option α)} (h : m.AddedAll m' qs vs) :
    (qs.map fun q => (q.1, m'.value q.2)) = vs := by
  induction h with
  | nil => rfl
  | @cons q v qs vs hq _ ih => rw [List.map_cons, ih, hq.1, hq.2.value_eq]

/-- **What is gathered from clones** is left in the cell of which they were made. -/
theorem refines_gather {xs : List (κ × PointerFunction ε α ω)} {fs : List (κ × View ε α ω)}
    (h : List.Forall₂ (fun x f => x.1 = f.1 ∧ Refines x.2 f.2) xs fs)
    (combine : List (κ × α) → α) :
    Refines (gather undefined xs combine) (.gather undefined fs combine) := by
  intro p m hp
  obtain ⟨seen, hfs, hkeeps, hresult⟩ := @agrees_callClones _ _ _ _ undefined _ _ h m p hp
  rcases ex : callClones undefined p xs m with ⟨out, m'⟩
  rw [ex] at hfs hkeeps hresult
  have hsame : m'.value p = m.value p := hkeeps.value_eq hp fun i _ => Option.some_ne_none i
  have hown : m.Keeps p m' :=
    ⟨hkeeps.grows, fun i hi _ => hkeeps.others i hi (Option.some_ne_none i)⟩
  cases hresult with
  | error e =>
      rw [gather, Action.bind_of_error ex, View.gather, hfs]
      exact ⟨.error e, by rw [hsame], hown, .error e⟩
  | @ok qs vs hqs =>
      have hvalues := values_of_addedAll hqs
      simp only at hvalues
      rw [gather, Action.bind_of_ok ex, View.gather, hfs]
      simp only [← hsame]
      cases ev : present vs with
      | none =>
          have hread : readAll undefined qs m' = (.error undefined, m') := by
            rw [readAll, hvalues, ev]
          rw [Action.bind_of_error hread]
          exact ⟨.error undefined, by cases m'.value p <;> rfl, hown, .error undefined⟩
      | some l =>
          have hread : readAll undefined qs m' = (.ok l, m') := by
            rw [readAll, hvalues, ev]
          rw [Action.bind_of_ok hread]
          cases p with
          | none => exact ⟨.error undefined, rfl, hown, .error undefined⟩
          | some i =>
              have hi := hown.valid hp
              obtain ⟨a, ha⟩ := exists_value hi
              have hwrite : write undefined (some i) (combine l) m'
                  = (.ok (), ⟨m'.cells.set i (combine l), m'.world⟩) := by
                simp only [write, value_cell, ha]
              have hset := @keeps_set _ _ i m' (combine l) [] m'.world
              have hvalue := value_set (hi i rfl) (combine l) [] m'.world
              rw [List.append_nil] at hset hvalue
              rw [Action.bind_of_ok hwrite, value_cell, ha]
              exact ⟨.ok .same, by rw [Action.pure_apply, hvalue], hown.trans hset, .ok rfl⟩

end Refines

/-! ### Results -/

section Result

variable {undefined : ε} {a : α}

@[simp] theorem Returned.value_ofValue (own v : Option α) : (ofValue v).value own = v := by
  cases v <;> rfl

theorem map_ofValue (x : Except ε (Returned α)) (own own' : Option α) :
    (x.map fun r => Returned.ofValue (r.value own')).map (Returned.value own)
      = x.map (Returned.value own') := by
  cases x with
  | error e => rfl
  | ok r => exact congrArg Except.ok (Returned.value_ofValue own (r.value own'))

/-- Results of one function after the other are those of one action after the other. -/
theorem result_andThen (f g : View ε α ω) (own : Option α) :
    (f.andThen g).result own = f.result own >>= g.result := by
  funext w
  rcases ef : f (own, w) with ⟨e | r, own', w'⟩
  · have hresult : f.result own w = (.error e, w') := by rw [View.result, ef]; rfl
    rw [Action.bind_of_error hresult, View.result, View.andThen, ef]
    rfl
  · have hresult : f.result own w = (.ok (r.value own'), w') := by rw [View.result, ef]; rfl
    rw [Action.bind_of_ok hresult, View.result, View.andThen, ef]
    cases r with
    | same => rfl
    | fresh a => exact Prod.ext (map_ofValue _ _ _) rfl
    | null => exact Prod.ext (map_ofValue _ _ _) rfl

theorem result_ofCell (undefined : ε) (fn : CellFunction ε α ω) (a : α) (w : ω) :
    (View.ofCell undefined fn).result (some a) w
      = ((fn (a, w)).1.map (Returned.value (some (fn (a, w)).2.1)), (fn (a, w)).2.2) := rfl

theorem result_gather (fs : List (κ × View ε α ω)) (combine : List (κ × α) → α) (a : α) :
    (View.gather undefined fs combine).result (some a)
      = viewClones undefined (some a) fs >>= fun vs => Action.ofExcept
          ((present vs).elim (.error undefined) fun l => .ok (some (combine l))) := by
  funext w
  rcases efs : viewClones undefined (some a) fs w with ⟨e | vs, w'⟩
  · rw [Action.bind_of_error efs, View.result, View.gather, efs]
    rfl
  · rw [Action.bind_of_ok efs, View.result]
    simp only [View.gather, efs]
    cases present vs <;> rfl

theorem present_eq_some_iff {vs : List (κ × Option α)} {l : List (κ × α)} :
    present vs = some l ↔ List.Forall₂ (fun v e => v = (e.1, some e.2)) vs l := by
  induction vs generalizing l with
  | nil =>
      rw [List.forall₂_nil_left_iff]
      exact ⟨fun h => (Option.some.inj h).symm, fun h => congrArg some h.symm⟩
  | cons v vs ih =>
      obtain ⟨k, own⟩ := v
      rw [List.forall₂_cons_left_iff]
      constructor
      · intro h
        obtain ⟨e, he, h⟩ := Option.bind_eq_some_iff.mp ((List.mapM_cons ..).symm.trans h)
        obtain ⟨rest, hrest, h⟩ := Option.bind_eq_some_iff.mp h
        obtain ⟨a, rfl, rfl⟩ := Option.map_eq_some_iff.mp he
        exact ⟨(k, a), rest, rfl, ih.mp hrest, (Option.some.inj h).symm⟩
      · rintro ⟨⟨k', a⟩, rest, hv, hrest, rfl⟩
        cases hv
        have hrest' := ih.mpr hrest
        rw [present] at hrest' ⊢
        rw [List.mapM_cons, hrest']
        rfl

/-- Functions that return the same whatever the state is, and leave it. -/
theorem viewClones_constant {fs : List (κ × View ε α ω)} {value : κ → α}
    (h : ∀ e ∈ fs, ∀ w, e.2.result (some a) w = (.ok (some (value e.1)), w)) :
    viewClones undefined (some a) fs = pure (fs.map fun e => (e.1, some (value e.1))) := by
  induction fs with
  | nil => rfl
  | cons f fs ih =>
      obtain ⟨hf, hfs⟩ := List.forall_mem_cons.mp h
      funext w
      rw [viewClones, Option.elim_some, Action.bind_of_ok (Action.ofExcept_apply (.ok a) w),
        Action.bind_of_ok (hf w), ih hfs]
      rfl

theorem viewClones_cons (f : κ × View ε α ω) (fs : List (κ × View ε α ω)) :
    viewClones undefined (some a) (f :: fs) = f.2.result (some a) >>= fun v =>
      viewClones undefined (some a) fs >>= fun rest => pure ((f.1, v) :: rest) := rfl

/-- What every function keeps is kept by the calls on clones. -/
theorem keeps_viewClones {β : Type} {kept : ω → β} {fs : List (κ × View ε α ω)}
    (h : ∀ e ∈ fs, Action.Keeps kept (e.2.result (some a))) :
    Action.Keeps kept (viewClones undefined (some a) fs) := by
  induction fs with
  | nil => exact Action.keeps_pure []
  | cons f fs ih =>
      obtain ⟨hf, hfs⟩ := List.forall_mem_cons.mp h
      rw [viewClones_cons]
      exact Action.keeps_bind hf fun _ => Action.keeps_bind (ih hfs) fun _ => Action.keeps_pure _

/-- Each value that is collected was returned. -/
theorem returned_of_viewClones {fs : List (κ × View ε α ω)} {vs : List (κ × Option α)} {w w' : ω}
    (h : viewClones undefined (some a) fs w = (.ok vs, w')) :
    List.Forall₂ (fun e v => ∃ w w', e.2.result (some a) w = (.ok v.2, w')) fs vs := by
  induction fs generalizing vs w with
  | nil =>
      cases h
      exact .nil
  | cons f fs ih =>
      rw [viewClones_cons] at h
      obtain ⟨v, w₁, hf, h⟩ := Action.ok_of_bind h
      obtain ⟨rest, w₂, hfs, h⟩ := Action.ok_of_bind h
      cases h
      exact .cons ⟨w, w₁, hf⟩ (ih hfs)

/-- A mapping does not return if one function in it never returns a value. -/
theorem exists_error_of_gather {β : Type} {kept : ω → β} {fs : List (κ × View ε α ω)}
    (hkeeps : ∀ e ∈ fs, Action.Keeps kept (e.2.result (some a)))
    (combine : List (κ × α) → α) {e : κ × View ε α ω} (he : e ∈ fs)
    (h : ∀ w w' b, e.2.result (some a) w ≠ (.ok (some b), w')) (w : ω) :
    ∃ thrown w', (View.gather undefined fs combine).result (some a) w = (.error thrown, w') ∧
      kept w' = kept w := by
  have hkept := @keeps_viewClones _ _ _ _ undefined a _ kept fs hkeeps w
  rw [result_gather]
  rcases efs : viewClones undefined (some a) fs w with ⟨thrown | vs, w'⟩
  · rw [efs] at hkept
    exact ⟨thrown, w', Action.bind_of_error efs, hkept⟩
  · rw [efs] at hkept
    rw [Action.bind_of_ok efs]
    cases ep : present vs with
    | none => exact ⟨undefined, w', rfl, hkept⟩
    | some l =>
        obtain ⟨i, hi, rfl⟩ := List.mem_iff_getElem.mp he
        have hreturned := returned_of_viewClones efs
        have hpresent := present_eq_some_iff.mp ep
        have hi' : i < vs.length := hreturned.length_eq ▸ hi
        obtain ⟨w₁, w₂, hv⟩ := hreturned.get hi hi'
        have hsome := hpresent.get hi' (hpresent.length_eq ▸ hi')
        rw [hsome] at hv
        exact absurd hv (h w₁ w₂ _)

theorem viewClones_append (fs gs : List (κ × View ε α ω)) :
    viewClones undefined (some a) (fs ++ gs) = viewClones undefined (some a) fs >>= fun vs =>
      viewClones undefined (some a) gs >>= fun vs' => pure (vs ++ vs') := by
  induction fs with
  | nil => exact (Action.bind_pure _).symm
  | cons f fs ih =>
      rw [List.cons_append, viewClones, viewClones, ih]
      simp only [Action.bind_assoc]
      rfl

theorem present_map_some (l : List (κ × α)) :
    present (l.map fun e => (e.1, some e.2)) = some l :=
  present_eq_some_iff.mpr (List.forall₂_map_left_iff.mpr (List.forall₂_same.mpr fun _ _ => rfl))

theorem present_eq_none {vs : List (κ × Option α)} {k : κ} (h : (k, none) ∈ vs) :
    present vs = none := by
  cases ep : present vs with
  | none => rfl
  | some l =>
      obtain ⟨i, hi, hget⟩ := List.mem_iff_getElem.mp h
      have hforall := present_eq_some_iff.mp ep
      have hv := hforall.get hi (hforall.length_eq ▸ hi)
      rw [List.get_eq_getElem, hget] at hv
      exact absurd (congrArg Prod.snd hv) (Option.some_ne_none _).symm

/-- **Gathering where one function counts**, and the others return the same whatever the state
is. -/
theorem result_gather_one {fs others : List (κ × View ε α ω)} {k : κ} {f : View ε α ω}
    (hperm : fs.Perm ((k, f) :: others)) {value : κ → α}
    (h : ∀ e ∈ others, ∀ w, e.2.result (some a) w = (.ok (some (value e.1)), w))
    {combine : List (κ × α) → α} {combined : α → α}
    (hcombine : ∀ b l, l.Perm ((k, b) :: others.map fun e => (e.1, value e.1)) →
      combine l = combined b) :
    (View.gather undefined fs combine).result (some a)
      = f.result (some a) >>= fun v => Action.ofExcept
          (v.elim (.error undefined) fun b => .ok (some (combined b))) := by
  obtain ⟨before, after, rfl⟩ := List.append_of_mem (hperm.mem_iff.mpr List.mem_cons_self)
  have hothers : (before ++ after).Perm others :=
    (List.perm_middle.symm.trans hperm).cons_inv
  have hconstant : ∀ e ∈ before ++ after, ∀ w,
      e.2.result (some a) w = (.ok (some (value e.1)), w) :=
    fun e he => h e (hothers.mem_iff.mp he)
  let fixed (fs : List (κ × View ε α ω)) : List (κ × α) := fs.map fun e => (e.1, value e.1)
  have hfixed (fs : List (κ × View ε α ω)) :
      (fs.map fun e => (e.1, some (value e.1))) = (fixed fs).map fun e => (e.1, some e.2) := by
    rw [List.map_map]
    rfl
  have hbefore := @viewClones_constant _ _ _ _ undefined a before value fun e he =>
    hconstant e (List.mem_append_left _ he)
  have hafter := @viewClones_constant _ _ _ _ undefined a after value fun e he =>
    hconstant e (List.mem_append_right _ he)
  rw [result_gather, viewClones_append, hbefore, viewClones, hafter]
  funext w
  rw [Action.bind_assoc, Action.bind_of_ok (Action.pure_apply _ w), Option.elim_some,
    Action.bind_assoc, Action.bind_assoc,
    Action.bind_of_ok (Action.ofExcept_apply (.ok a) w)]
  rcases ef : f.result (some a) w with ⟨e | v, w'⟩
  · rw [Action.bind_of_error ef, Action.bind_assoc, Action.bind_of_error ef]
  · rw [Action.bind_of_ok ef, Action.bind_assoc, Action.bind_of_ok ef]
    rw [Action.bind_assoc, Action.bind_of_ok (Action.pure_apply _ w'),
      Action.bind_of_ok (Action.pure_apply _ w'), Action.bind_of_ok (Action.pure_apply _ w')]
    cases v with
    | none =>
        rw [present_eq_none (List.mem_append_right _ List.mem_cons_self)]
        rfl
    | some b =>
        have hcollected : (before.map fun e => (e.1, some (value e.1))) ++
              (k, some b) :: after.map (fun e => (e.1, some (value e.1)))
            = (fixed before ++ (k, b) :: fixed after).map fun e => (e.1, some e.2) := by
          rw [List.map_append, List.map_cons, ← hfixed, ← hfixed]
        have hperm' : (fixed before ++ (k, b) :: fixed after).Perm ((k, b) :: fixed others) := by
          refine List.perm_middle.trans (.cons _ ?_)
          rw [← List.map_append]
          exact hothers.map _
        rw [hcollected, present_map_some, Option.elim_some, hcombine b _ hperm']
        rfl

end Result

/-! ### Functions that only read -/

/-- The first view leaves the rest of the state as it is, and where it returns, the second one
does the same. -/
def View.Settles (f f' : View ε α ω) : Prop :=
  ∀ own w, (f (own, w)).2.2 = w ∧ ∀ r, (f (own, w)).1 = .ok r → f' (own, w) = f (own, w)

section Settles

variable {undefined : ε} {f f' g g' h h' : View ε α ω}

namespace View

/-- A view that returned left the state behind as it was. -/
theorem Settles.eq {own own' : Option α} {w w' : ω} {r : Returned α} (hf : f.Settles f')
    (h : f (own, w) = (.ok r, own', w')) : w' = w ∧ f' (own, w) = (.ok r, own', w) := by
  obtain ⟨hw, hsame⟩ := hf own w
  rw [h] at hw hsame
  cases hw
  exact ⟨rfl, hsame r rfl⟩

/-- Two views do the same where something was made of what the first one returned. -/
theorem Settles.eq_of_map {β : Type} {own : Option α} {w : ω} {F : Returned α → β} {b : β}
    (hf : f.Settles f') (h : (f (own, w)).1.map F = .ok b) : f' (own, w) = f (own, w) := by
  rcases ef : (f (own, w)).1 with e | r
  · rw [ef] at h
    cases h
  · exact (hf own w).2 r ef

theorem settles_andThen (hf : f.Settles f') (hg : g.Settles g') :
    (f.andThen g).Settles (f'.andThen g') := by
  intro own w
  rcases ef : f (own, w) with ⟨e | r, own', w'⟩
  · have hw : w' = w := by rw [← (hf own w).1, ef]
    rw [andThen, ef]
    exact ⟨hw, fun r hr => by cases hr⟩
  · obtain ⟨rfl, ef'⟩ := hf.eq ef
    rw [andThen, andThen, ef, ef']
    cases r with
    | same => exact hg own' w'
    | fresh a => exact ⟨(hg (some a) w').1, fun r hr => by simp only [hg.eq_of_map hr]⟩
    | null => exact ⟨(hg none w').1, fun r hr => by simp only [hg.eq_of_map hr]⟩

theorem settles_choose {test : α → Except ε Bool} (hf : f.Settles f') (hg : g.Settles g')
    (hh : h.Settles h') :
    (f.choose undefined test g h).Settles (f'.choose undefined test g' h') := by
  intro own w
  rcases ef : f (own, w) with ⟨e | r, own', w'⟩
  · have hw : w' = w := by rw [← (hf own w).1, ef]
    rw [choose, ef]
    exact ⟨hw, fun r hr => by cases hr⟩
  · obtain ⟨rfl, ef'⟩ := hf.eq ef
    rw [choose, choose, ef, ef']
    simp only
    generalize (r.value own').elim (.error undefined) test = tested
    rcases tested with e | b
    · exact ⟨rfl, fun _ _ => rfl⟩
    · cases b with
      | true => exact hg own' w'
      | false => exact hh own' w'

theorem Settles.result {a : α} {w : ω} (hf : f.Settles f') :
    (f.result (some a) w).2 = w ∧
      ∀ v, (f.result (some a) w).1 = .ok v → f'.result (some a) w = (.ok v, w) := by
  refine ⟨(hf (some a) w).1, fun v hv => ?_⟩
  have hsame : f' (some a, w) = f (some a, w) := hf.eq_of_map hv
  rw [View.result, hsame]
  exact Prod.ext hv (hf (some a) w).1

/-- The values of clones, one by one. -/
theorem forall₂_of_viewClones {γ : Type} {F F' : γ → View ε α ω} {l : List (κ × γ)} {a : α} {w : ω}
    (h : ∀ e ∈ l, (F e.2).Settles (F' e.2)) :
    (viewClones undefined (some a) (l.map fun e => (e.1, F e.2)) w).2 = w ∧
      ∀ vs, (viewClones undefined (some a) (l.map fun e => (e.1, F e.2)) w).1 = .ok vs →
        List.Forall₂ (fun e v => e.1 = v.1 ∧ (F' e.2).result (some a) w = (.ok v.2, w)) l vs := by
  induction l with
  | nil => exact ⟨rfl, fun vs hvs => by cases hvs; exact .nil⟩
  | cons e l ih =>
      obtain ⟨he, hl⟩ := List.forall_mem_cons.mp h
      obtain ⟨ihw, ihvs⟩ := ih hl
      obtain ⟨hw, hv⟩ := @Settles.result _ _ _ _ _ a w he
      rw [List.map_cons, viewClones, Option.elim_some,
        Action.bind_of_ok (Action.ofExcept_apply (.ok a) w)]
      rcases ef : (F e.2).result (some a) w with ⟨e' | v, w'⟩
      · rw [ef] at hw
        rw [Action.bind_of_error ef]
        exact ⟨hw, fun vs hvs => by cases hvs⟩
      · rw [ef] at hw hv
        obtain rfl : w = w' := hw.symm
        rw [Action.bind_of_ok ef]
        rcases efs : viewClones undefined (some a) (l.map fun e => (e.1, F e.2)) w
          with ⟨e' | vs, w''⟩
        · rw [efs] at ihw
          rw [Action.bind_of_error efs]
          exact ⟨ihw, fun vs hvs => by cases hvs⟩
        · rw [efs] at ihw ihvs
          rw [Action.bind_of_ok efs]
          refine ⟨ihw, fun vs' hvs' => ?_⟩
          cases hvs'
          exact .cons ⟨rfl, hv v rfl⟩ (ihvs vs rfl)

theorem viewClones_of_forall₂ {γ : Type} {F : γ → View ε α ω} {l : List (κ × γ)} {a : α} {w : ω}
    {vs : List (κ × Option α)}
    (h : List.Forall₂ (fun e v => e.1 = v.1 ∧ (F e.2).result (some a) w = (.ok v.2, w)) l vs) :
    viewClones undefined (some a) (l.map fun e => (e.1, F e.2)) w = (.ok vs, w) := by
  induction h with
  | nil => rfl
  | @cons e v l vs hev _ ih =>
      rw [List.map_cons, viewClones, Option.elim_some,
        Action.bind_of_ok (Action.ofExcept_apply (.ok a) w), Action.bind_of_ok hev.2,
        Action.bind_of_ok ih, hev.1]
      rfl

theorem gather_null (fs : List (κ × View ε α ω)) (combine : List (κ × α) → α) (w : ω) :
    View.gather undefined fs combine (none, w) = (.error undefined, none, w) := by
  rw [gather]
  cases fs with
  | nil => rfl
  | cons f fs => rfl

theorem gather_of_ok {fs : List (κ × View ε α ω)} {combine : List (κ × α) → α} {a : α} {w : ω}
    {vs : List (κ × Option α)} {l : List (κ × α)}
    (h : viewClones undefined (some a) fs w = (.ok vs, w)) (hl : present vs = some l) :
    View.gather undefined fs combine (some a, w) = (.ok .same, some (combine l), w) := by
  simp only [gather, h, hl]

/-- **Gathering in another order**, where what is made of the values does not depend on it. -/
theorem settles_gather {γ : Type} {F F' : γ → View ε α ω} {l l' : List (κ × γ)}
    (hperm : l.Perm l') (h : ∀ e ∈ l, (F e.2).Settles (F' e.2))
    {combine combine' : List (κ × α) → α}
    (hcombine : ∀ vs vs', vs.map Prod.fst = l.map Prod.fst → vs.Perm vs' →
      combine' vs' = combine vs) :
    (View.gather undefined (l.map fun e => (e.1, F e.2)) combine).Settles
      (View.gather undefined (l'.map fun e => (e.1, F' e.2)) combine') := by
  intro own w
  cases own with
  | none =>
      rw [gather_null, gather_null]
      exact ⟨rfl, fun _ _ => rfl⟩
  | some a =>
      obtain ⟨hw, hvs⟩ := @forall₂_of_viewClones _ _ _ _ undefined _ F F' l a w h
      rcases efs : viewClones undefined (some a) (l.map fun e => (e.1, F e.2)) w
        with ⟨e | vs, w'⟩
      · rw [efs] at hw
        simp only [gather, efs]
        exact ⟨hw, fun r hr => by cases hr⟩
      · rw [efs] at hw hvs
        obtain rfl : w = w' := hw.symm
        cases ep : present vs with
        | none =>
            simp only [gather, efs, ep]
            exact ⟨trivial, fun r hr => by cases hr⟩
        | some ps =>
            have hforall := hvs vs rfl
            have hps := present_eq_some_iff.mp ep
            have hkeys : ps.map Prod.fst = l.map Prod.fst := by
              have hvs : vs.map Prod.fst = ps.map Prod.fst := by
                rw [← List.forall₂_eq_eq_eq, List.forall₂_map_left_iff, List.forall₂_map_right_iff]
                exact hps.imp fun v e hv => congrArg Prod.fst hv
              rw [← hvs, ← List.forall₂_eq_eq_eq, List.forall₂_map_left_iff,
                List.forall₂_map_right_iff]
              exact hforall.flip.imp fun v e hv => hv.1.symm
            -- the same values, in the other order
            obtain ⟨vs', hvs', hpermvs⟩ := List.perm_comp_forall₂ hperm.symm hforall
            obtain ⟨ps', hps', hpermps⟩ := List.perm_comp_forall₂ hpermvs hps
            rw [gather_of_ok efs ep, gather_of_ok (viewClones_of_forall₂ hvs')
              (present_eq_some_iff.mpr hps'), hcombine ps ps' hkeys hpermps.symm]
            exact ⟨rfl, fun _ _ => rfl⟩

end View

end Settles

end Cells
