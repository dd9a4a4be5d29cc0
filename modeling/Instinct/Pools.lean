/-
Instinct/Pools.lean

Threads that run programs over one store, as a small library of its own.

A pool is a store and the programs that its threads still have to run.  In one
step a thread makes its next call, which is atomic, and goes on with the answer
(`Pool.advance`); threads are added at the end (`Pool.spawn`).

What is true of every thread in every reachable state is shown by two rules: it
is true of a thread that is added (`Pool.All.spawn`), and a call keeps it true of
the thread that makes it and of the others (`Pool.All.advance`).

Two properties of programs go with this.  `Program.Follows` says which call may
stand right after an answered one, so that a check and the act that depends on it
can be told from an act without a check.  `Program.CallsIf` says which calls a
program makes as long as its calls are answered in a certain way.
-/
import Instinct.Effects

namespace Effects

variable {ε σ : Type} {Op : Type} {Res : Op → Type} {α β : Type}

namespace Program

/-- The call that the program makes next. -/
def next? : Program ε Res α → Option Op
  | call op _ => some op
  | _ => none

theorem of_next? {P : Op → Prop} {p : Program ε Res α} (hp : p.Calls P) {op : Op}
    (h : p.next? = some op) : P op := by
  cases p with
  | call op' k => exact Option.some.inj h ▸ hp.1
  | _ => simp [next?] at h

theorem next?_bind {p : Program ε Res α} {f : α → Program ε Res β} {op : Op}
    (h : (p.bind f).next? = some op) : p.next? = some op ∨ ∃ a, (f a).next? = some op := by
  cases p with
  | ret a => exact .inr ⟨a, h⟩
  | raise e => simp [bind, next?] at h
  | call op' k => exact .inl h

/-- After a call `op` that was answered with `r`, the next call is one that `R op r` allows. -/
def Follows (R : (op : Op) → Except ε (Res op) → Op → Prop) : Program ε Res α → Prop
  | ret _ => True
  | raise _ => True
  | call op k => ∀ r, (∀ op', (k r).next? = some op' → R op r op') ∧ (k r).Follows R

/-- As long as its calls are answered within `A`, every call of the program satisfies `P`. -/
def CallsIf (A : (op : Op) → Except ε (Res op) → Prop) (P : Op → Prop) :
    Program ε Res α → Prop
  | ret _ => True
  | raise _ => True
  | call op k => P op ∧ ∀ r, A op r → (k r).CallsIf A P

section Follows

variable {R : (op : Op) → Except ε (Res op) → Op → Prop} {Free : Op → Prop}

@[simp] theorem follows_ret (a : α) : (ret a : Program ε Res α).Follows R := trivial

@[simp] theorem follows_raise (e : ε) : (raise e : Program ε Res α).Follows R := trivial

/-- Calls that may stand anywhere need no more. -/
theorem follows_of_calls (hfree : ∀ op r op', Free op' → R op r op') {p : Program ε Res α}
    (hp : p.Calls Free) : p.Follows R := by
  induction p with
  | ret a => trivial
  | raise e => trivial
  | call op k ih =>
      exact fun r => ⟨fun op' hop' => hfree op r op' (of_next? (hp.2 r) hop'), ih r (hp.2 r)⟩

/-- A sequence whose first part makes calls that may stand anywhere, and whose second part
starts with such a call. -/
theorem follows_bind (hfree : ∀ op r op', Free op' → R op r op') {p : Program ε Res α}
    {f : α → Program ε Res β} (hp : p.Calls Free) (hf : ∀ a, (f a).Follows R)
    (hnext : ∀ a op, (f a).next? = some op → Free op) : (p.bind f).Follows R := by
  induction p with
  | ret a => exact hf a
  | raise e => trivial
  | call op k ih =>
      refine fun r => ⟨fun op' hop' => hfree op r op' ?_, ih r (hp.2 r)⟩
      rcases next?_bind hop' with hfirst | ⟨a, hsecond⟩
      · exact of_next? (hp.2 r) hfirst
      · exact hnext a op' hsecond

/-- A sequence that starts with a call. -/
theorem follows_perform_bind {op : Op} {f : Res op → Program ε Res β}
    (hnext : ∀ a op', (f a).next? = some op' → R op (.ok a) op') (hf : ∀ a, (f a).Follows R) :
    ((perform op).bind f).Follows R := by
  intro r
  cases r with
  | ok a => exact ⟨hnext a, hf a⟩
  | error e => exact ⟨fun _ h => absurd h (Option.some_ne_none _).symm, trivial⟩

end Follows

section CallsIf

variable {A : (op : Op) → Except ε (Res op) → Prop} {P : Op → Prop}

@[simp] theorem callsIf_ret (a : α) : (ret a : Program ε Res α).CallsIf A P := trivial

@[simp] theorem callsIf_raise (e : ε) : (raise e : Program ε Res α).CallsIf A P := trivial

theorem callsIf_of_calls {p : Program ε Res α} (hp : p.Calls P) : p.CallsIf A P := by
  induction p with
  | ret a => trivial
  | raise e => trivial
  | call op k ih => exact ⟨hp.1, fun r _ => ih r (hp.2 r)⟩

theorem callsIf_mono {Q : Op → Prop} {p : Program ε Res α} (hp : p.CallsIf A P)
    (h : ∀ op, P op → Q op) : p.CallsIf A Q := by
  induction p with
  | ret a => trivial
  | raise e => trivial
  | call op k ih => exact ⟨h op hp.1, fun r hr => ih r (hp.2 r hr)⟩

theorem callsIf_bind {p : Program ε Res α} {f : α → Program ε Res β} (hp : p.CallsIf A P)
    (hf : ∀ a, (f a).CallsIf A P) : (p.bind f).CallsIf A P := by
  induction p with
  | ret a => exact hf a
  | raise e => trivial
  | call op k ih => exact ⟨hp.1, fun r hr => ih r (hp.2 r hr)⟩

/-- A sequence that starts with a call: what follows may use how the call was answered. -/
theorem callsIf_perform_bind {op : Op} {f : Res op → Program ε Res β} (hop : P op)
    (hf : ∀ a, A op (.ok a) → (f a).CallsIf A P) : ((perform op).bind f).CallsIf A P := by
  refine ⟨hop, fun r hr => ?_⟩
  cases r with
  | ok a => exact hf a hr
  | error e => trivial

theorem callsIf_tryCatch {p : Program ε Res α} {h : ε → Program ε Res α} (hp : p.CallsIf A P)
    (hh : ∀ e, (h e).CallsIf A P) : (p.tryCatch h).CallsIf A P := by
  induction p with
  | ret a => trivial
  | raise e => exact hh e
  | call op k ih => exact ⟨hp.1, fun r hr => ih r (hp.2 r hr)⟩

end CallsIf

end Program

/-! ### Pools -/

/-- A store, and what the threads still have to run. -/
structure Pool (ε σ : Type) {Op : Type} (Res : Op → Type) where
  store : σ
  threads : List (Program ε Res Unit) := []

namespace Pool

/-- A thread is added. -/
def spawn (pool : Pool ε σ Res) (p : Program ε Res Unit) : Pool ε σ Res :=
  { pool with threads := pool.threads ++ [p] }

/-- A thread makes its next call. -/
def advance (exec : (op : Op) → Action ε σ (Res op)) (pool : Pool ε σ Res) (i : Nat) :
    Option (Pool ε σ Res) :=
  match pool.threads[i]? with
  | some (.call op k) => some
      { store := (exec op pool.store).2
        threads := pool.threads.set i (k (exec op pool.store).1) }
  | _ => none

/-- Every thread satisfies `P` in the store of the pool. -/
def All (P : σ → Program ε Res Unit → Prop) (pool : Pool ε σ Res) : Prop :=
  ∀ p ∈ pool.threads, P pool.store p

variable {exec : (op : Op) → Action ε σ (Res op)} {pool pool' : Pool ε σ Res} {i : Nat}
variable {P : σ → Program ε Res Unit → Prop}

theorem advance_cases (h : pool.advance exec i = some pool') :
    ∃ op k, .call op k ∈ pool.threads ∧ pool' =
      { store := (exec op pool.store).2
        threads := pool.threads.set i (k (exec op pool.store).1) } := by
  unfold advance at h
  split at h
  · rename_i op k hi
    exact ⟨op, k, List.mem_of_getElem? hi, (Option.some.inj h).symm⟩
  · simp at h

theorem All.spawn (h : pool.All P) {p : Program ε Res Unit} (hp : P pool.store p) :
    (pool.spawn p).All P := by
  intro q hq
  rcases List.mem_append.mp hq with hq | hq
  · exact h q hq
  · exact List.mem_singleton.mp hq ▸ hp

/-- A change of the store that keeps `P` of every thread. -/
theorem All.of_store (h : pool.All P) {s : σ} (hs : ∀ p, P pool.store p → P s p) :
    ({ pool with store := s } : Pool ε σ Res).All P := fun p hp => hs p (h p hp)

/-- **Step rule.**  A call keeps `P` of the thread that makes it and of the others. -/
theorem All.advance (h : pool.All P) (hstep : pool.advance exec i = some pool')
    (hself : ∀ op k, P pool.store (.call op k) →
      P (exec op pool.store).2 (k (exec op pool.store).1))
    (hothers : ∀ op k p, P pool.store (.call op k) → P pool.store p →
      P (exec op pool.store).2 p) : pool'.All P := by
  obtain ⟨op, k, hmem, rfl⟩ := advance_cases hstep
  intro p hp
  rcases List.mem_or_eq_of_mem_set hp with hp | rfl
  · exact hothers op k p (h _ hmem) (h p hp)
  · exact hself op k (h _ hmem)

end Pool

end Effects
