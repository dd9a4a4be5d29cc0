/-
Instinct/Effects.lean

Effects of code that calls services, as a small library of its own.

* `Action ε σ α` is one atomic piece of work on a state `σ`: it may read and
  change the state and it may throw.  What it changed before a throw stays
  changed: there is no transaction.

* `Program ε Res α` is code that makes service calls one at a time.  It is a
  tree: a `call` names the operation and says how to go on with its result,
  the thrown ones included.  The tree does not say what a call does, so the
  same program can be run on a state (`run`), followed call by call between the
  steps of other parties, or judged by the calls it can still make (`Calls`,
  `Final`).

`wp` is the weakest precondition of a program against a relation that says what
each operation may answer; its rules (`wp_bind`, `wp_perform_bind`, `wp_mono`)
follow the constructors.
-/
import Mathlib.Logic.Basic

namespace Effects

variable {ε σ α β : Type}

/-! ### Atomic actions -/

/-- One atomic piece of work on a state `σ`, which may throw an `ε`. -/
def Action (ε σ α : Type) : Type := σ → Except ε α × σ

namespace Action

instance : Monad (Action ε σ) where
  pure a := fun s => (.ok a, s)
  bind x f := fun s =>
    match x s with
    | (.ok a, s') => f a s'
    | (.error e, s') => (.error e, s')

/-- Throw, leaving the state as it is. -/
def throw (e : ε) : Action ε σ α := fun s => (.error e, s)

/-- Read something off the state. -/
def gets (f : σ → α) : Action ε σ α := fun s => (.ok (f s), s)

/-- Replace the state. -/
def modify (f : σ → σ) : Action ε σ Unit := fun s => (.ok (), f s)

/-- Give a result that was computed without touching the state. -/
def ofExcept (r : Except ε α) : Action ε σ α := fun s => (r, s)

instance : MonadLift (Except ε) (Action ε σ) where
  monadLift := ofExcept

@[simp] theorem liftM_apply (r : Except ε α) (s : σ) :
    (liftM r : Action ε σ α) s = (r, s) := rfl

@[simp] theorem pure_apply (a : α) (s : σ) : (pure a : Action ε σ α) s = (.ok a, s) := rfl

@[simp] theorem throw_apply (e : ε) (s : σ) : (throw e : Action ε σ α) s = (.error e, s) := rfl

@[simp] theorem gets_apply (f : σ → α) (s : σ) : (gets f : Action ε σ α) s = (.ok (f s), s) := rfl

@[simp] theorem modify_apply (f : σ → σ) (s : σ) :
    (modify f : Action ε σ Unit) s = (.ok (), f s) := rfl

@[simp] theorem ofExcept_apply (r : Except ε α) (s : σ) :
    (ofExcept r : Action ε σ α) s = (r, s) := rfl

theorem bind_apply (x : Action ε σ α) (f : α → Action ε σ β) (s : σ) :
    (x >>= f) s = match x s with
      | (.ok a, s') => f a s'
      | (.error e, s') => (.error e, s') := rfl

/-- Going on after a piece that returned. -/
theorem bind_of_ok {x : Action ε σ α} {f : α → Action ε σ β} {s s' : σ} {a : α}
    (h : x s = (.ok a, s')) : (x >>= f) s = f a s' := by
  rw [bind_apply, h]

/-- A throw ends the whole action. -/
theorem bind_of_error {x : Action ε σ α} {f : α → Action ε σ β} {s s' : σ} {e : ε}
    (h : x s = (.error e, s')) : (x >>= f) s = (.error e, s') := by
  rw [bind_apply, h]

theorem bind_pure (x : Action ε σ α) : (x >>= pure) = x := by
  funext s
  rcases e : x s with ⟨a | a, s'⟩
  · rw [bind_of_error e]
  · rw [bind_of_ok e, pure_apply]

@[simp] theorem pure_bind (a : α) (f : α → Action ε σ β) : (pure a >>= f) = f a := rfl

@[simp] theorem ofExcept_ok_bind (a : α) (f : α → Action ε σ β) :
    (ofExcept (.ok a) >>= f) = f a := rfl

theorem bind_assoc {γ : Type} (x : Action ε σ α) (f : α → Action ε σ β) (g : β → Action ε σ γ) :
    (x >>= f) >>= g = x >>= fun a => f a >>= g := by
  funext s
  rcases e : x s with ⟨a | a, s'⟩
  · rw [bind_of_error e, bind_of_error (bind_of_error e)]
  · rw [bind_of_ok e, bind_apply (x >>= f), bind_of_ok e]
    rfl

/-- A check that passes leaves the state as it is. -/
theorem liftM_bind_of_ok {r : Except ε α} {f : α → Action ε σ β} {s : σ} {a : α}
    (h : r = .ok a) : ((liftM r : Action ε σ α) >>= f) s = f a s := by
  rw [bind_apply, liftM_apply, h]

theorem liftM_bind_of_error {r : Except ε α} {f : α → Action ε σ β} {s : σ} {e : ε}
    (h : r = .error e) : ((liftM r : Action ε σ α) >>= f) s = (.error e, s) := by
  rw [bind_apply, liftM_apply, h]

/-- An action that returned is made of parts that returned. -/
theorem ok_of_bind {x : Action ε σ α} {f : α → Action ε σ β} {s s'' : σ} {b : β}
    (h : (x >>= f) s = (.ok b, s'')) :
    ∃ a s', x s = (.ok a, s') ∧ f a s' = (.ok b, s'') := by
  rw [bind_apply] at h
  rcases e : x s with ⟨r, s'⟩
  rw [e] at h
  cases r with
  | ok a => exact ⟨a, s', rfl, h⟩
  | error e' => simp at h

/-- The same where the first part does not touch the state. -/
theorem ok_of_bind_liftM {r : Except ε α} {f : α → Action ε σ β} {s s'' : σ} {b : β}
    (h : ((liftM r : Action ε σ α) >>= f) s = (.ok b, s'')) :
    ∃ a, r = .ok a ∧ f a s = (.ok b, s'') := by
  obtain ⟨a, s', hr, h⟩ := ok_of_bind h
  obtain ⟨rfl, rfl⟩ := Prod.mk.inj hr
  exact ⟨a, rfl, h⟩

/-- To show something of a sequence, show it of a throw of the first part and of what
follows its return. -/
theorem bind_elim {P : Except ε β × σ → Prop} {x : Action ε σ α} {f : α → Action ε σ β} {s : σ}
    (herror : ∀ e s', x s = (.error e, s') → P (.error e, s'))
    (hok : ∀ a s', x s = (.ok a, s') → P (f a s')) : P ((x >>= f) s) := by
  rcases e : x s with ⟨a | a, s'⟩
  · rw [bind_of_error e]
    exact herror a s' e
  · rw [bind_of_ok e]
    exact hok a s' e

/-- The same for a first part that does not touch the state. -/
theorem bind_elim_liftM {P : Except ε β × σ → Prop} {r : Except ε α} {f : α → Action ε σ β}
    {s : σ} (herror : ∀ e, r = .error e → P (.error e, s)) (hok : ∀ a, r = .ok a → P (f a s)) :
    P (((liftM r : Action ε σ α) >>= f) s) := by
  cases r with
  | ok a => exact hok a rfl
  | error e => exact herror e rfl

/-- The action leaves what `f` reads off the state as it is, also when it throws. -/
def Keeps (f : σ → β) (x : Action ε σ α) : Prop := ∀ s, f (x s).2 = f s

section Keeps

variable {γ : Type} {f : σ → γ}

theorem keeps_pure (a : α) : Keeps f (pure a : Action ε σ α) := fun _ => rfl

theorem keeps_liftM (r : Except ε α) : Keeps f (liftM r : Action ε σ α) := fun _ => rfl

theorem keeps_gets (g : σ → α) : Keeps f (gets g : Action ε σ α) := fun _ => rfl

/-- An action that changes nothing keeps everything. -/
theorem keeps_of_id {x : Action ε σ α} (h : Keeps id x) : Keeps f x := fun s => congrArg f (h s)

theorem keeps_bind {x : Action ε σ α} {g : α → Action ε σ β} (hx : Keeps f x)
    (hg : ∀ a, Keeps f (g a)) : Keeps f (x >>= g) := by
  intro s
  rcases e : x s with ⟨a | a, s'⟩
  · rw [bind_of_error e, ← hx s, e]
  · rw [bind_of_ok e, hg a s', ← hx s, e]

/-- To show something of a sequence whose first part keeps `f`. -/
theorem bind_elim_keeps {P : Except ε β × σ → Prop} {x : Action ε σ α} {g : α → Action ε σ β}
    {s : σ} (hx : Keeps f x) (herror : ∀ e s', f s' = f s → P (.error e, s'))
    (hok : ∀ a s', f s' = f s → P (g a s')) : P ((x >>= g) s) := by
  refine bind_elim (fun e s' h => herror e s' ?_) fun a s' h => hok a s' ?_
  · rw [← hx s, h]
  · rw [← hx s, h]

theorem keeps_ite {c : Prop} [Decidable c] {x y : Action ε σ α} (hx : Keeps f x)
    (hy : Keeps f y) : Keeps f (if c then x else y) := by
  split
  · exact hx
  · exact hy

end Keeps

/-- The action takes every state to one that `R` relates it to, also when it throws. -/
def Moves (R : σ → σ → Prop) (x : Action ε σ α) : Prop := ∀ s, R s (x s).2

section Moves

variable {R : σ → σ → Prop}

/-- An action that changes nothing moves along every reflexive relation. -/
theorem moves_of_keeps (hrefl : ∀ s, R s s) {x : Action ε σ α} (h : Keeps id x) : Moves R x := by
  intro s
  have hs : (x s).2 = s := h s
  rw [hs]
  exact hrefl s

theorem moves_bind (htrans : ∀ s s' s'', R s s' → R s' s'' → R s s'') {x : Action ε σ α}
    {f : α → Action ε σ β} (hx : Moves R x) (hf : ∀ a, Moves R (f a)) : Moves R (x >>= f) := by
  intro s
  have hfirst := hx s
  rcases e : x s with ⟨a | a, s'⟩
  · rw [bind_of_error e]
    rwa [e] at hfirst
  · rw [bind_of_ok e]
    rw [e] at hfirst
    exact htrans s s' _ hfirst (hf a s')

/-- **Loop rule.**  What every round keeps, the loop keeps. -/
theorem moves_forM (hrefl : ∀ s, R s s) (htrans : ∀ s s' s'', R s s' → R s' s'' → R s s'')
    {xs : List α} {f : α → Action ε σ PUnit} (h : ∀ a ∈ xs, Moves R (f a)) :
    Moves R (xs.forM f) := by
  induction xs with
  | nil => exact fun s => hrefl s
  | cons a as ih =>
      show Moves R (f a >>= fun _ => as.forM f)
      have hrest : Moves R (as.forM f) := ih fun b hb => h b (List.mem_cons_of_mem a hb)
      exact moves_bind htrans (h a List.mem_cons_self) fun _ => hrest

end Moves

end Action

/-! ### Programs -/

/-- Code that makes service calls one at a time.  `Res op` is the type of what
the operation `op` answers; a call may also throw, and the program sees that. -/
inductive Program (ε : Type) {Op : Type} (Res : Op → Type) (α : Type) : Type
  | ret (a : α)
  | raise (e : ε)
  | call (op : Op) (k : Except ε (Res op) → Program ε Res α)

namespace Program

variable {Op : Type} {Res : Op → Type}

/-- Sequencing. -/
def bind : Program ε Res α → (α → Program ε Res β) → Program ε Res β
  | ret a, f => f a
  | raise e, _ => raise e
  | call op k, f => call op fun r => (k r).bind f

instance : Monad (Program ε Res) where
  pure := ret
  bind := bind

/-- A result as a program that makes no call. -/
def ofExcept : Except ε α → Program ε Res α
  | .ok a => ret a
  | .error e => raise e

instance : MonadLift (Except ε) (Program ε Res) where
  monadLift := ofExcept

/-- Make one call and pass its result on. -/
def perform (op : Op) : Program ε Res (Res op) := call op ofExcept

/-- Run the handler `h` on what the program throws. -/
def tryCatch : Program ε Res α → (ε → Program ε Res α) → Program ε Res α
  | ret a, _ => ret a
  | raise e, h => h e
  | call op k, h => call op fun r => (k r).tryCatch h

@[simp] theorem pure_eq (a : α) : (pure a : Program ε Res α) = ret a := rfl

@[simp] theorem liftM_ok (a : α) :
    (liftM (Except.ok a : Except ε α) : Program ε Res α) = ret a := rfl

@[simp] theorem liftM_error (e : ε) :
    (liftM (Except.error e : Except ε α) : Program ε Res α) = raise e := rfl

@[simp] theorem bind_eq (p : Program ε Res α) (f : α → Program ε Res β) :
    (p >>= f) = p.bind f := rfl

@[simp] theorem ret_bind (a : α) (f : α → Program ε Res β) : (ret a).bind f = f a := rfl

@[simp] theorem raise_bind (e : ε) (f : α → Program ε Res β) :
    (raise e : Program ε Res α).bind f = raise e := rfl

@[simp] theorem call_bind (op : Op) (k : Except ε (Res op) → Program ε Res α)
    (f : α → Program ε Res β) :
    (call op k).bind f = call op fun r => (k r).bind f := rfl

theorem bind_assoc {γ : Type} (p : Program ε Res α) (f : α → Program ε Res β)
    (g : β → Program ε Res γ) : (p.bind f).bind g = p.bind fun a => (f a).bind g := by
  induction p with
  | ret a => rfl
  | raise e => rfl
  | call op k ih =>
      simp only [call_bind, call.injEq, heq_eq_eq, true_and]
      funext r
      exact ih r

/-! ### Running a program on a state -/

/-- Run a program to its end, each call being the action `exec` gives it. -/
def run (exec : (op : Op) → Action ε σ (Res op)) : Program ε Res α → Action ε σ α
  | ret a => fun s => (.ok a, s)
  | raise e => fun s => (.error e, s)
  | call op k => fun s => (k (exec op s).1).run exec (exec op s).2

/-- The calls a run makes, in order. -/
def trace (exec : (op : Op) → Action ε σ (Res op)) : Program ε Res α → σ → List Op
  | ret _, _ => []
  | raise _, _ => []
  | call op k, s => op :: (k (exec op s).1).trace exec (exec op s).2

section Run

variable (exec : (op : Op) → Action ε σ (Res op))

@[simp] theorem run_ret (a : α) (s : σ) : (ret a : Program ε Res α).run exec s = (.ok a, s) := rfl

@[simp] theorem run_raise (e : ε) (s : σ) :
    (raise e : Program ε Res α).run exec s = (.error e, s) := rfl

@[simp] theorem trace_ret (a : α) (s : σ) : (ret a : Program ε Res α).trace exec s = [] := rfl

@[simp] theorem trace_raise (e : ε) (s : σ) :
    (raise e : Program ε Res α).trace exec s = [] := rfl

@[simp] theorem run_perform (op : Op) (s : σ) :
    (perform op : Program ε Res (Res op)).run exec s = exec op s := by
  rcases h : exec op s with ⟨r, s'⟩
  cases r <;> simp [perform, run, ofExcept, h]

/-- The run of a sequence. -/
theorem run_bind (p : Program ε Res α) (f : α → Program ε Res β) (s : σ) :
    (p.bind f).run exec s = match p.run exec s with
      | (.ok a, s') => (f a).run exec s'
      | (.error e, s') => (.error e, s') := by
  induction p generalizing s with
  | ret a => rfl
  | raise e => rfl
  | call op k ih => exact ih _ _

/-- The run of a sequence that starts with a call. -/
theorem run_perform_bind (op : Op) (f : Res op → Program ε Res β) (s : σ) :
    ((perform op).bind f).run exec s = match exec op s with
      | (.ok a, s') => (f a).run exec s'
      | (.error e, s') => (.error e, s') := by
  rw [run_bind, run_perform]
  rcases exec op s with ⟨r, s'⟩
  cases r <;> rfl

theorem run_bind_of_ok {p : Program ε Res α} {f : α → Program ε Res β} {s s' : σ} {a : α}
    (h : p.run exec s = (.ok a, s')) : (p.bind f).run exec s = (f a).run exec s' := by
  rw [run_bind, h]

theorem run_bind_of_error {p : Program ε Res α} {f : α → Program ε Res β} {s s' : σ} {e : ε}
    (h : p.run exec s = (.error e, s')) : (p.bind f).run exec s = (.error e, s') := by
  rw [run_bind, h]

/-- The trace of a sequence. -/
theorem trace_bind (p : Program ε Res α) (f : α → Program ε Res β) (s : σ) :
    (p.bind f).trace exec s = p.trace exec s ++ match p.run exec s with
      | (.ok a, s') => (f a).trace exec s'
      | (.error _, _) => [] := by
  induction p generalizing s with
  | ret a => rfl
  | raise e => rfl
  | call op k ih => exact congrArg (op :: ·) (ih _ _)

theorem trace_bind_of_ok {p : Program ε Res α} {f : α → Program ε Res β} {s s' : σ} {a : α}
    (h : p.run exec s = (.ok a, s')) :
    (p.bind f).trace exec s = p.trace exec s ++ (f a).trace exec s' := by
  rw [trace_bind, h]

theorem trace_bind_of_error {p : Program ε Res α} {f : α → Program ε Res β} {s s' : σ} {e : ε}
    (h : p.run exec s = (.error e, s')) : (p.bind f).trace exec s = p.trace exec s := by
  rw [trace_bind, h, List.append_nil]

@[simp] theorem trace_perform (op : Op) (s : σ) :
    (perform op : Program ε Res (Res op)).trace exec s = [op] := by
  rcases h : exec op s with ⟨r, s'⟩
  cases r <;> simp [perform, trace, ofExcept, h]

theorem trace_perform_bind (op : Op) (f : Res op → Program ε Res β) (s : σ) :
    ((perform op).bind f).trace exec s = op :: match exec op s with
      | (.ok a, s') => (f a).trace exec s'
      | (.error _, _) => [] := by
  rw [trace_bind, run_perform, trace_perform, List.singleton_append]
  rcases exec op s with ⟨r, s'⟩
  cases r <;> rfl

/-- A run that returned is made of parts that returned. -/
theorem ok_of_run_bind {p : Program ε Res α} {f : α → Program ε Res β} {s s'' : σ} {b : β}
    (h : (p.bind f).run exec s = (.ok b, s'')) :
    ∃ a s', p.run exec s = (.ok a, s') ∧ (f a).run exec s' = (.ok b, s'') := by
  rw [run_bind] at h
  rcases e : p.run exec s with ⟨r, s'⟩
  rw [e] at h
  cases r with
  | ok a => exact ⟨a, s', rfl, h⟩
  | error e' => simp at h

end Run

/-! ### The calls a program can make -/

/-- Every call the program can make, whatever its calls answer, satisfies `P`. -/
def Calls (P : Op → Prop) : Program ε Res α → Prop
  | ret _ => True
  | raise _ => True
  | call op k => P op ∧ ∀ r, (k r).Calls P

/-- No call follows a returned call in `S`: after it the program is at its end. -/
def Final (S : Op → Prop) : Program ε Res α → Prop
  | ret _ => True
  | raise _ => True
  | call op k => (S op → ∀ a, ∃ b, k (.ok a) = ret b) ∧ ∀ r, (k r).Final S

/-- Every value the program can return satisfies `Q`. -/
def Returns (Q : α → Prop) : Program ε Res α → Prop
  | ret a => Q a
  | raise _ => True
  | call _ k => ∀ r, (k r).Returns Q

section Calls

variable {P S : Op → Prop}

@[simp] theorem calls_ret (a : α) : (ret a : Program ε Res α).Calls P := trivial

@[simp] theorem calls_raise (e : ε) : (raise e : Program ε Res α).Calls P := trivial

@[simp] theorem calls_call (op : Op) (k : Except ε (Res op) → Program ε Res α) :
    (call op k).Calls P ↔ P op ∧ ∀ r, (k r).Calls P := Iff.rfl

@[simp] theorem calls_perform (op : Op) :
    (perform op : Program ε Res (Res op)).Calls P ↔ P op :=
  ⟨fun h => h.1, fun h => ⟨h, fun r => by cases r <;> trivial⟩⟩

theorem calls_bind {p : Program ε Res α} {f : α → Program ε Res β}
    (hp : p.Calls P) (hf : ∀ a, (f a).Calls P) : (p.bind f).Calls P := by
  induction p with
  | ret a => exact hf a
  | raise e => trivial
  | call op k ih => exact ⟨hp.1, fun r => ih r (hp.2 r)⟩

@[simp] theorem calls_perform_bind (op : Op) (f : Res op → Program ε Res β) :
    ((perform op).bind f).Calls P ↔ P op ∧ ∀ a, (f a).Calls P := by
  constructor
  · intro h
    exact ⟨h.1, fun a => h.2 (.ok a)⟩
  · intro h
    exact calls_bind ((calls_perform op).mpr h.1) h.2

theorem calls_tryCatch {p : Program ε Res α} {h : ε → Program ε Res α}
    (hp : p.Calls P) (hh : ∀ e, (h e).Calls P) : (p.tryCatch h).Calls P := by
  induction p with
  | ret a => trivial
  | raise e => exact hh e
  | call op k ih => exact ⟨hp.1, fun r => ih r (hp.2 r)⟩

theorem calls_mono {Q : Op → Prop} {p : Program ε Res α} (hp : p.Calls P)
    (h : ∀ op, P op → Q op) : p.Calls Q := by
  induction p with
  | ret a => trivial
  | raise e => trivial
  | call op k ih => exact ⟨h op hp.1, fun r => ih r (hp.2 r)⟩

theorem calls_true (p : Program ε Res α) : p.Calls fun _ => True := by
  induction p with
  | ret a => trivial
  | raise e => trivial
  | call op k ih => exact ⟨trivial, ih⟩

theorem calls_ofExcept (r : Except ε α) : (liftM r : Program ε Res α).Calls P := by
  cases r <;> trivial

/-- **Loop rule.** -/
theorem calls_forM {xs : List α} {f : α → Program ε Res PUnit} (h : ∀ a ∈ xs, (f a).Calls P) :
    (xs.forM f).Calls P := by
  induction xs with
  | nil => trivial
  | cons a as ih =>
      show ((f a).bind fun _ => as.forM f).Calls P
      exact calls_bind (h a List.mem_cons_self) fun _ =>
        ih fun b hb => h b (List.mem_cons_of_mem a hb)

/-- The calls of a run are calls that the program can make. -/
theorem calls_trace {p : Program ε Res α} (hp : p.Calls P)
    (exec : (op : Op) → Action ε σ (Res op)) (s : σ) : ∀ op ∈ p.trace exec s, P op := by
  induction p generalizing s with
  | ret a => simp
  | raise e => simp
  | call op k ih =>
      intro op' h
      rcases List.mem_cons.mp h with rfl | h
      · exact hp.1
      · exact ih _ (hp.2 _) _ op' h

/-- A program whose calls all keep `f` keeps `f`. -/
theorem keeps_run {β : Type} {f : σ → β} {p : Program ε Res α} (hp : p.Calls P)
    {exec : (op : Op) → Action ε σ (Res op)} (h : ∀ op, P op → Action.Keeps f (exec op)) :
    Action.Keeps f (p.run exec) := by
  induction p with
  | ret a => exact fun _ => rfl
  | raise e => exact fun _ => rfl
  | call op k ih => exact fun s => (ih _ (hp.2 _) _).trans (h op hp.1 s)

@[simp] theorem final_ret (a : α) : (ret a : Program ε Res α).Final S := trivial

@[simp] theorem final_raise (e : ε) : (raise e : Program ε Res α).Final S := trivial

/-- A program that makes no call in `S` ends with any call in `S`, vacuously. -/
theorem final_of_calls {p : Program ε Res α} (h : p.Calls fun op => ¬ S op) : p.Final S := by
  induction p with
  | ret a => trivial
  | raise e => trivial
  | call op k ih => exact ⟨fun hs => absurd hs h.1, fun r => ih r (h.2 r)⟩

theorem final_mono {S' : Op → Prop} {p : Program ε Res α} (hp : p.Final S)
    (h : ∀ op, S' op → S op) : p.Final S' := by
  induction p with
  | ret a => trivial
  | raise e => trivial
  | call op k ih => exact ⟨fun hs => hp.1 (h op hs), fun r => ih r (hp.2 r)⟩

/-- Only the last part of a sequence may make a call in `S`. -/
theorem final_bind {p : Program ε Res α} {f : α → Program ε Res β}
    (hp : p.Calls fun op => ¬ S op) (hf : ∀ a, (f a).Final S) : (p.bind f).Final S := by
  induction p with
  | ret a => exact hf a
  | raise e => trivial
  | call op k ih => exact ⟨fun hs => absurd hs hp.1, fun r => ih r (hp.2 r)⟩

@[simp] theorem final_perform_bind (op : Op) (f : Res op → Program ε Res β) :
    ((perform op).bind f).Final S ↔
      (S op → ∀ a, ∃ b, f a = ret b) ∧ ∀ a, (f a).Final S := by
  constructor
  · intro h
    exact ⟨fun hs a => h.1 hs a, fun a => h.2 (.ok a)⟩
  · intro h
    refine ⟨fun hs a => h.1 hs a, fun r => ?_⟩
    cases r with
    | ok a => exact h.2 a
    | error e => trivial

/-- Appending a computation without calls keeps a final program final. -/
theorem final_map {p : Program ε Res α} (g : α → β) (hp : p.Final S) :
    (p.bind fun a => ret (g a)).Final S := by
  induction p with
  | ret a => trivial
  | raise e => trivial
  | call op k ih =>
      refine ⟨fun hs a => ?_, fun r => ih r (hp.2 r)⟩
      obtain ⟨b, hb⟩ := hp.1 hs a
      refine ⟨g b, ?_⟩
      show (k (.ok a)).bind (fun a => ret (g a)) = ret (g b)
      rw [hb]
      rfl

theorem returns_mono {Q Q' : α → Prop} {p : Program ε Res α} (hp : p.Returns Q)
    (h : ∀ a, Q a → Q' a) : p.Returns Q' := by
  induction p with
  | ret a => exact h a hp
  | raise e => trivial
  | call op k ih => exact fun r => ih r (hp r)

theorem returns_true (p : Program ε Res α) : p.Returns fun _ => True := by
  induction p with
  | ret a => trivial
  | raise e => trivial
  | call op k ih => exact fun r => ih r

theorem returns_bind {Q : β → Prop} {p : Program ε Res α} {f : α → Program ε Res β}
    (hf : ∀ a, (f a).Returns Q) : (p.bind f).Returns Q := by
  induction p with
  | ret a => exact hf a
  | raise e => trivial
  | call op k ih => exact fun r => ih r

theorem returns_bind_of {R : α → Prop} {Q : β → Prop} {p : Program ε Res α}
    {f : α → Program ε Res β} (hp : p.Returns R) (hf : ∀ a, R a → (f a).Returns Q) :
    (p.bind f).Returns Q := by
  induction p with
  | ret a => exact hf a hp
  | raise e => trivial
  | call op k ih => exact fun r => ih r (hp r)

@[simp] theorem returns_perform_bind {Q : β → Prop} (op : Op) (f : Res op → Program ε Res β) :
    ((perform op).bind f).Returns Q ↔ ∀ a, (f a).Returns Q := by
  constructor
  · exact fun h a => h (.ok a)
  · exact fun h => returns_bind h

/-- A returned value of a run is one the program can return. -/
theorem returns_run {Q : α → Prop} {p : Program ε Res α} (hp : p.Returns Q)
    {exec : (op : Op) → Action ε σ (Res op)} {s s' : σ} {a : α}
    (h : p.run exec s = (.ok a, s')) : Q a := by
  induction p generalizing s with
  | ret b =>
      simp only [run_ret, Prod.mk.injEq, Except.ok.injEq] at h
      exact h.1 ▸ hp
  | raise e => simp at h
  | call op k ih => exact ih _ (hp _) h

end Calls

/-! ### Weakest preconditions -/

/-- `wp R p Q s`: however the calls answer within `R`, the program `p` started in
`s` ends, if it ends, with a result and a state that satisfy `Q`. -/
def wp (R : (op : Op) → σ → Except ε (Res op) → σ → Prop) :
    Program ε Res α → (Except ε α → σ → Prop) → σ → Prop
  | ret a, Q, s => Q (.ok a) s
  | raise e, Q, s => Q (.error e) s
  | call op k, Q, s => ∀ r s', R op s r s' → (k r).wp R Q s'

section Wp

variable {R : (op : Op) → σ → Except ε (Res op) → σ → Prop}

@[simp] theorem wp_ret (a : α) (Q : Except ε α → σ → Prop) (s : σ) :
    (ret a : Program ε Res α).wp R Q s ↔ Q (.ok a) s := Iff.rfl

@[simp] theorem wp_raise (e : ε) (Q : Except ε α → σ → Prop) (s : σ) :
    (raise e : Program ε Res α).wp R Q s ↔ Q (.error e) s := Iff.rfl

@[simp] theorem wp_call (op : Op) (k : Except ε (Res op) → Program ε Res α)
    (Q : Except ε α → σ → Prop) (s : σ) :
    (call op k).wp R Q s ↔ ∀ r s', R op s r s' → (k r).wp R Q s' := Iff.rfl

theorem wp_mono {p : Program ε Res α} {Q Q' : Except ε α → σ → Prop} {s : σ}
    (h : p.wp R Q s) (hQ : ∀ r s', Q r s' → Q' r s') : p.wp R Q' s := by
  induction p generalizing s with
  | ret a => exact hQ _ _ h
  | raise e => exact hQ _ _ h
  | call op k ih => exact fun r s' hr => ih r (h r s' hr)

theorem wp_bind {p : Program ε Res α} {f : α → Program ε Res β} {Q : Except ε β → σ → Prop}
    {s : σ} : (p.bind f).wp R Q s ↔
      p.wp R (fun r s' => match r with
        | .ok a => (f a).wp R Q s'
        | .error e => Q (.error e) s') s := by
  induction p generalizing s with
  | ret a => rfl
  | raise e => rfl
  | call op k ih =>
      exact forall_congr' fun r => forall_congr' fun s' => imp_congr_right fun _ => ih r

theorem wp_perform_bind {op : Op} {f : Res op → Program ε Res β}
    {Q : Except ε β → σ → Prop} {s : σ} : ((perform op).bind f).wp R Q s ↔
      ∀ r s', R op s r s' → match r with
        | .ok a => (f a).wp R Q s'
        | .error e => Q (.error e) s' := by
  rw [wp_bind]
  refine forall_congr' fun r => forall_congr' fun s' => imp_congr_right fun _ => ?_
  cases r <;> rfl

theorem wp_and {p : Program ε Res α} {Q Q' : Except ε α → σ → Prop} {s : σ}
    (h : p.wp R Q s) (h' : p.wp R Q' s) : p.wp R (fun r s' => Q r s' ∧ Q' r s') s := by
  induction p generalizing s with
  | ret a => exact ⟨h, h'⟩
  | raise e => exact ⟨h, h'⟩
  | call op k ih => exact fun r s' hr => ih r (h r s' hr) (h' r s' hr)

/-- Whenever the program returns, the value and the state satisfy `Q`. -/
def Ensures (R : (op : Op) → σ → Except ε (Res op) → σ → Prop) (p : Program ε Res α)
    (Q : α → σ → Prop) (s : σ) : Prop :=
  p.wp R (fun r s' => ∀ a, r = .ok a → Q a s') s

theorem ensures_ret {a : α} {Q : α → σ → Prop} {s : σ} (h : Q a s) :
    (ret a : Program ε Res α).Ensures R Q s := fun _ hb => Except.ok.inj hb ▸ h

theorem ensures_true (p : Program ε Res α) (s : σ) : p.Ensures R (fun _ _ => True) s := by
  induction p generalizing s with
  | ret a => exact fun _ _ => trivial
  | raise e => exact fun _ _ => trivial
  | call op k ih => exact fun r s' _ => ih r s'

theorem ensures_bind {P : α → σ → Prop} {Q : β → σ → Prop} {p : Program ε Res α}
    {f : α → Program ε Res β} {s : σ} (hp : p.Ensures R P s)
    (hf : ∀ a s', P a s' → (f a).Ensures R Q s') : (p.bind f).Ensures R Q s := by
  refine wp_bind.mpr (wp_mono hp fun r s' h => ?_)
  cases r with
  | ok a => exact hf a s' (h a rfl)
  | error e =>
      intro b hb
      simp at hb

theorem ensures_perform_bind {op : Op} {Q : β → σ → Prop} {f : Res op → Program ε Res β} {s : σ}
    (h : ∀ a s', R op s (.ok a) s' → (f a).Ensures R Q s') :
    ((perform op).bind f).Ensures R Q s := by
  refine wp_perform_bind.mpr fun r s' hr => ?_
  cases r with
  | ok a => exact h a s' hr
  | error e =>
      intro b hb
      simp at hb

/-- Where every call of a program has one answer, `wp` speaks about one run. -/
theorem wp_iff_run {P : Op → Prop} {exec : (op : Op) → Action ε σ (Res op)}
    {p : Program ε Res α} {Q : Except ε α → σ → Prop} {s : σ} (hp : p.Calls P)
    (hR : ∀ op s r s', P op → (R op s r s' ↔ exec op s = (r, s'))) :
    p.wp R Q s ↔ Q (p.run exec s).1 (p.run exec s).2 := by
  induction p generalizing s with
  | ret a => rfl
  | raise e => rfl
  | call op k ih =>
      refine Iff.trans ?_ (ih (exec op s).1 (hp.2 _))
      constructor
      · exact fun h => h _ _ ((hR op s _ _ hp.1).mpr rfl)
      · intro h r s' hr
        obtain ⟨rfl, rfl⟩ := Prod.mk.inj ((hR op s r s' hp.1).mp hr)
        exact h

/-- What every call keeps, the program keeps. -/
theorem wp_invariant {P : Op → Prop} {Inv : σ → Prop} {p : Program ε Res α} {s : σ}
    (hp : p.Calls P) (hR : ∀ op s r s', P op → R op s r s' → Inv s → Inv s') (h : Inv s) :
    p.wp R (fun _ s' => Inv s') s := by
  induction p generalizing s with
  | ret a => exact h
  | raise e => exact h
  | call op k ih => exact fun r s' hr => ih r (hp.2 r) (hR op s r s' hp.1 hr h)

/-- What is known of the returned values can be used in the postcondition. -/
theorem wp_returns {Q : Except ε α → σ → Prop} {P : α → Prop} {p : Program ε Res α} {s : σ}
    (h : p.wp R Q s) (hp : p.Returns P) :
    p.wp R (fun r s' => Q r s' ∧ ∀ a, r = .ok a → P a) s := by
  induction p generalizing s with
  | ret a => exact ⟨h, fun b hb => Except.ok.inj hb ▸ hp⟩
  | raise e => exact ⟨h, nofun⟩
  | call op k ih => exact fun r s' hr => ih r (h r s' hr) (hp r)

/-- A run is one of the behaviours `wp` speaks about. -/
theorem wp_run {exec : (op : Op) → Action ε σ (Res op)} {p : Program ε Res α}
    {Q : Except ε α → σ → Prop} {s : σ}
    (hR : ∀ op s, R op s (exec op s).1 (exec op s).2) (h : p.wp R Q s) :
    Q (p.run exec s).1 (p.run exec s).2 := by
  induction p generalizing s with
  | ret a => exact h
  | raise e => exact h
  | call op k ih => exact ih _ (h _ _ (hR op s))

end Wp

end Program

end Effects
