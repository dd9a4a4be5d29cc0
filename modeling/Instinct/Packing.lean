/-
Instinct/Packing.lean

A greedy packing of a sequence into windows, as a small library of its own.

Elements have a weight, and between two neighbours in a window there is a gap of
a fixed weight.  A window takes the next element as long as the size is not
exceeded.  Then it is closed, and the next window begins with a part of its end:
as much as the overlap allows and as leaves room for the next element.

The windows are parts of the sequence that are not interrupted
(`infix_of_mem_pack`), and without gaps each keeps to the size
(`load_le_of_mem_pack`).  The packing looks at the weights only (`pack_map`).
-/
import Mathlib.Data.List.Basic
import Mathlib.Data.List.Infix

namespace Packing

variable {α β : Type}

/-- What a window may hold. -/
structure Limits where
  gap : Nat
  size : Nat
  overlap : Nat
  deriving Repr, DecidableEq

variable (limits : Limits) (weight : α → Nat)

/-- The weight of a window, with its gaps. -/
def load (gap : Nat) (weight : α → Nat) : List α → Nat
  | [] => 0
  | a :: window => weight a + (if window = [] then 0 else gap) + load gap weight window

/-- Whether the next element exceeds the size. -/
def Exceeds (window : List α) (a : α) : Prop :=
  limits.size
    < load limits.gap weight window + weight a + (if window = [] then 0 else limits.gap)

/-- What a closed window hands over to the one that begins with an element of weight `next`. -/
def handOver (next : Nat) : List α → List α
  | [] => []
  | a :: window =>
      if limits.overlap < load limits.gap weight (a :: window)
          ∨ limits.size < load limits.gap weight (a :: window) + next
            ∧ 0 < load limits.gap weight (a :: window)
      then handOver next window
      else a :: window

instance (window : List α) (a : α) : Decidable (Exceeds limits weight window a) :=
  inferInstanceAs (Decidable (_ < _))

/-- The windows from the open one on. -/
def packFrom (window : List α) : List α → List (List α)
  | [] => [window]
  | a :: as =>
      if window ≠ [] ∧ Exceeds limits weight window a then
        window :: packFrom (handOver limits weight (weight a) window ++ [a]) as
      else packFrom (window ++ [a]) as

/-- The windows of a sequence. -/
def pack (as : List α) : List (List α) := packFrom limits weight [] as

variable {limits weight} {window opened as : List α} {a : α}

theorem handOver_suffix (next : Nat) : handOver limits weight next window <:+ window := by
  induction window with
  | nil => exact List.suffix_refl []
  | cons a window ih =>
      rw [handOver]
      split
      · exact ih.trans (List.suffix_cons a window)
      · exact List.suffix_refl _

/-- There is room for the next element, or the window starts anew. -/
theorem handOver_fits (next : Nat) :
    load limits.gap weight (handOver limits weight next window) + next ≤ limits.size
      ∨ load limits.gap weight (handOver limits weight next window) = 0 := by
  induction window with
  | nil => exact .inr rfl
  | cons a window ih =>
      rw [handOver]
      split
      · exact ih
      · rename_i hkept
        omega

theorem load_concat (gap : Nat) (weight : α → Nat) (window : List α) (a : α) :
    load gap weight (window ++ [a])
      = load gap weight window + weight a + if window = [] then 0 else gap := by
  induction window with
  | nil => simp [load]
  | cons b window ih =>
      rw [List.cons_append, load, load, ih, if_neg (by simp), if_neg (List.cons_ne_nil b window)]
      split
      · omega
      · omega

theorem load_concat_of_gap {weight : α → Nat} (window : List α) (a : α) :
    load 0 weight (window ++ [a]) = load 0 weight window + weight a := by
  rw [load_concat, ite_self, Nat.add_zero]

/-- The windows are not interrupted. -/
theorem infix_of_mem_packFrom (h : window ∈ packFrom limits weight opened as) :
    window <:+: opened ++ as := by
  induction as generalizing opened with
  | nil =>
      rw [List.append_nil, List.mem_singleton.mp h]
  | cons a as ih =>
      rw [packFrom] at h
      split at h
      · rcases List.mem_cons.mp h with rfl | hlater
        · exact (List.prefix_append window _).isInfix
        · have hsuffix : handOver limits weight (weight a) opened ++ [a] ++ as
              <:+ opened ++ (a :: as) := by
            rw [List.append_assoc]
            exact List.suffix_append_self_iff.mpr (handOver_suffix _)
          exact (ih hlater).trans hsuffix.isInfix
      · have hall := ih h
        rwa [List.append_assoc] at hall

theorem infix_of_mem_pack (h : window ∈ pack limits weight as) : window <:+: as :=
  infix_of_mem_packFrom h

/-- Without gaps a window keeps to the size, if its elements do. -/
theorem load_le_of_mem_packFrom (hgap : limits.gap = 0)
    (hopened : load 0 weight opened ≤ limits.size) (has : ∀ a ∈ as, weight a ≤ limits.size)
    (h : window ∈ packFrom limits weight opened as) :
    load 0 weight window ≤ limits.size := by
  induction as generalizing opened with
  | nil => rwa [List.mem_singleton.mp h]
  | cons a as ih =>
      have hlater := fun b hb => has b (List.mem_cons_of_mem a hb)
      rw [packFrom] at h
      split at h
      · rcases List.mem_cons.mp h with rfl | hmem
        · exact hopened
        · refine ih ?_ hlater hmem
          have hfits : load limits.gap weight (handOver limits weight (weight a) opened)
                + weight a ≤ limits.size
              ∨ load limits.gap weight (handOver limits weight (weight a) opened) = 0 :=
            handOver_fits (weight a)
          rw [hgap] at hfits
          rw [load_concat_of_gap]
          have := has a List.mem_cons_self
          omega
      · rename_i hopen
        refine ih ?_ hlater h
        rw [load_concat_of_gap]
        by_cases hnil : opened = []
        · subst hnil
          have := has a List.mem_cons_self
          simpa [load] using this
        · have hroom := fun hexceeds => hopen ⟨hnil, hexceeds⟩
          rw [Exceeds, hgap, if_neg hnil] at hroom
          exact Nat.not_lt.mp hroom

/-! ### Runs -/

/-- The runs of elements with a property, from the open one on. -/
def runsFrom (p : α → Prop) [DecidablePred p] (opened : List α) : List α → List (List α)
  | [] => [opened]
  | a :: as => if p a then runsFrom p (opened ++ [a]) as else opened :: runsFrom p [] as

section RunsFrom

variable {p : α → Prop} [DecidablePred p] {run : List α}

theorem forall_of_mem_runsFrom (hopened : ∀ a ∈ opened, p a) (h : run ∈ runsFrom p opened as) :
    ∀ a ∈ run, p a := by
  induction as generalizing opened with
  | nil => rwa [List.mem_singleton.mp h]
  | cons a as ih =>
      rw [runsFrom] at h
      split at h
      · rename_i ha
        exact ih (List.forall_mem_append.mpr ⟨hopened, List.forall_mem_singleton.mpr ha⟩) h
      · rcases List.mem_cons.mp h with rfl | hlater
        · exact hopened
        · exact ih (List.forall_mem_nil p) hlater

theorem infix_of_mem_runsFrom (h : run ∈ runsFrom p opened as) : run <:+: opened ++ as := by
  induction as generalizing opened with
  | nil => rw [List.append_nil, List.mem_singleton.mp h]
  | cons a as ih =>
      rw [runsFrom] at h
      split at h
      · have hall := ih h
        rwa [List.append_assoc] at hall
      · rcases List.mem_cons.mp h with rfl | hlater
        · exact (List.prefix_append run _).isInfix
        · exact (ih hlater).trans ((List.suffix_cons a as).trans (List.suffix_append _ _)).isInfix

end RunsFrom

theorem runsFrom_map (p : α → Prop) [DecidablePred p] (f : β → α) (opened as : List β) :
    runsFrom p (opened.map f) (as.map f)
      = (runsFrom (fun b => p (f b)) opened as).map (List.map f) := by
  induction as generalizing opened with
  | nil => rfl
  | cons b as ih =>
      rw [List.map_cons, runsFrom, runsFrom]
      split
      · rw [← ih, List.map_append]
        rfl
      · rw [List.map_cons, ← ih]
        rfl

/-! ### Maps -/

theorem load_map (gap : Nat) (weight : α → Nat) (f : β → α) (window : List β) :
    load gap weight (window.map f) = load gap (weight ∘ f) window := by
  induction window with
  | nil => rfl
  | cons b window ih =>
      rw [List.map_cons, load, load, ih]
      simp only [List.map_eq_nil_iff, Function.comp_apply]

theorem handOver_map (f : β → α) (next : Nat) (window : List β) :
    handOver limits weight next (window.map f)
      = (handOver limits (weight ∘ f) next window).map f := by
  induction window with
  | nil => rfl
  | cons b window ih =>
      have hload := load_map limits.gap weight f (b :: window)
      rw [List.map_cons] at hload
      rw [List.map_cons, handOver, handOver, hload, ih]
      split
      · rfl
      · rfl

/-- The packing looks at the weights only. -/
theorem packFrom_map (f : β → α) (opened as : List β) :
    packFrom limits weight (opened.map f) (as.map f)
      = (packFrom limits (weight ∘ f) opened as).map (List.map f) := by
  induction as generalizing opened with
  | nil => rfl
  | cons b as ih =>
      have hmore : handOver limits weight (weight (f b)) (opened.map f) ++ [f b]
          = (handOver limits (weight ∘ f) ((weight ∘ f) b) opened ++ [b]).map f := by
        rw [handOver_map, List.map_append]
        rfl
      have hcloses : opened.map f ≠ [] ∧ Exceeds limits weight (opened.map f) (f b)
          ↔ opened ≠ [] ∧ Exceeds limits (weight ∘ f) opened b := by
        rw [Exceeds, Exceeds, load_map]
        simp only [Ne, List.map_eq_nil_iff, Function.comp_apply]
      rw [List.map_cons, packFrom, packFrom, hmore, ih]
      by_cases hclosed : opened ≠ [] ∧ Exceeds limits (weight ∘ f) opened b
      · rw [if_pos hclosed, if_pos (hcloses.mpr hclosed), List.map_cons]
      · rw [if_neg hclosed, if_neg (mt hcloses.mp hclosed), ← ih, List.map_append]
        rfl

theorem pack_map (f : β → α) (as : List β) :
    pack limits weight (as.map f) = (pack limits (weight ∘ f) as).map (List.map f) :=
  packFrom_map f [] as

end Packing
