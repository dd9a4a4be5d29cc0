/-
Instinct/Transitions.lean

Runs of a system with labelled steps, as a small library of its own.

`step s l` is the state after the step `l`, or `none` where `l` is not enabled.
`Runs step Ok s s'` says that `s'` is reached from `s` by steps that satisfy
`Ok`; with `fun _ _ => True` these are all steps.

What each step keeps, a run keeps (`Runs.invariant`).  A list of labels that can
be executed is a run (`runs_of_execute`), so that a run can be computed.
-/
import Mathlib.Logic.Relation

namespace Transitions

variable {σ ℓ : Type} (step : σ → ℓ → Option σ)

/-- Reached by steps that satisfy `Ok`. -/
def Runs (Ok : σ → ℓ → Prop) : σ → σ → Prop :=
  Relation.ReflTransGen fun s s' => ∃ l, Ok s l ∧ step s l = some s'

/-- Reached by any steps. -/
abbrev Reaches : σ → σ → Prop := Runs step fun _ _ => True

/-- The state after some labels, one after the other. -/
def execute : List ℓ → σ → Option σ
  | [], s => some s
  | l :: ls, s => (step s l).bind (execute ls)

variable {step} {Ok : σ → ℓ → Prop} {s s' : σ}

/-- **Invariant rule.**  What holds at first and is kept by every step holds in every
state that is reached. -/
theorem Runs.invariant {I : σ → Prop} (h : Runs step Ok s s')
    (hstep : ∀ s l s', I s → Ok s l → step s l = some s' → I s') (hs : I s) : I s' := by
  induction h with
  | refl => exact hs
  | tail _ hlast ih =>
      obtain ⟨l, hok, hl⟩ := hlast
      exact hstep _ l _ ih hok hl

theorem Runs.reaches (h : Runs step Ok s s') : Reaches step s s' :=
  Relation.ReflTransGen.mono (fun _ _ ⟨l, _, hl⟩ => ⟨l, trivial, hl⟩) _ _ h

/-- Labels that can be executed are a run. -/
theorem runs_of_execute {ls : List ℓ} (hok : ∀ s, ∀ l ∈ ls, Ok s l)
    (h : execute step ls s = some s') : Runs step Ok s s' := by
  induction ls generalizing s with
  | nil =>
      obtain rfl := Option.some.inj h
      exact .refl
  | cons l ls ih =>
      obtain ⟨next, hnext, hrest⟩ := Option.bind_eq_some_iff.mp h
      refine .head ⟨l, hok s l List.mem_cons_self, hnext⟩ (ih (fun s l hl => ?_) hrest)
      exact hok s l (List.mem_cons_of_mem _ hl)

/-- Labels that can be executed, each of them where `Ok` holds, are a run. -/
theorem runs_of_execute_where [∀ s l, Decidable (Ok s l)] {ls : List ℓ}
    (h : execute (fun s l => if Ok s l then step s l else none) ls s = some s') :
    Runs step Ok s s' := by
  induction ls generalizing s with
  | nil =>
      obtain rfl := Option.some.inj h
      exact .refl
  | cons l ls ih =>
      obtain ⟨next, hnext, hrest⟩ := Option.bind_eq_some_iff.mp h
      have hnext : (if Ok s l then step s l else none) = some next := hnext
      -- a step outside the condition would have ended the execution
      by_cases hok : Ok s l
      · rw [if_pos hok] at hnext
        exact .head ⟨l, hok, hnext⟩ (ih hrest)
      · rw [if_neg hok] at hnext
        cases hnext

/-! ### Steps that are always enabled -/

section Always

variable (next : σ → ℓ → σ) (Ok : σ → ℓ → Prop)

/-- The states along some labels, the first one included. -/
def visited : σ → List ℓ → List σ
  | s, [] => [s]
  | s, l :: ls => s :: visited (next s l) ls

/-- Every step along the labels satisfies `Ok`. -/
def Meets : σ → List ℓ → Prop
  | _, [] => True
  | s, l :: ls => Ok s l ∧ Meets (next s l) ls

variable {next Ok}

/-- Where `I` is kept by the labels that are used, conditions that agree under `I` are met
together. -/
theorem meets_congr {I : σ → Prop} {P : ℓ → Prop} {Ok' : σ → ℓ → Prop}
    (hkeep : ∀ s l, I s → P l → I (next s l)) (h : ∀ s l, I s → P l → (Ok s l ↔ Ok' s l))
    {s : σ} (hs : I s) {ls : List ℓ} (hls : ∀ l ∈ ls, P l) :
    Meets next Ok s ls ↔ Meets next Ok' s ls := by
  induction ls generalizing s with
  | nil => exact Iff.rfl
  | cons l ls ih =>
    have hl := hls l List.mem_cons_self
    rw [Meets, Meets, h s l hs hl,
      ih (hkeep s l hs hl) fun l' hl' => hls l' (List.mem_cons_of_mem l hl')]

/-- **Exact invariant rule.**  Where a step keeps `I` if and only if it satisfies `Ok`,
`I` holds all along if and only if it holds at first and all steps satisfy `Ok`. -/
theorem forall_visited_iff {I : σ → Prop} (hI : ∀ s l, I s → (I (next s l) ↔ Ok s l))
    (s : σ) (ls : List ℓ) :
    (∀ t ∈ visited next s ls, I t) ↔ I s ∧ Meets next Ok s ls := by
  induction ls generalizing s with
  | nil => simp [visited, Meets]
  | cons l ls ih =>
    rw [visited, List.forall_mem_cons, ih, Meets]
    exact and_congr_right fun hs => and_congr_left fun _ => hI s l hs

end Always

end Transitions
