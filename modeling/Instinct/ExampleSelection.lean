/-
Instinct/ExampleSelection.lean

`LengthBasedExampleSelector`: the first examples of a prompt, as many as a length allows.

What is left of the length is an unsigned number, and whether it is below zero once the
length of an example is taken off is asked of the difference.  It never is: behind an
example that is too long nearly the whole range of the type is left.  So the examples that
are selected are the longest prefix that fits if and only if no example runs across the
limit, and none of length zero stands where it is reached
(`selectExamples_isLongestFit_iff`).
-/
import Mathlib.Algebra.GroupWithZero.Nat
import Mathlib.Data.List.Basic

namespace Instinct.ExampleSelection

/-! ### The selector -/

/-- `LengthBasedExampleSelector`.  The template formats an example, and each example has its
length beside it. -/
structure LengthBasedExampleSelector (PromptExample : Type) where
  format : PromptExample → String
  lengthFunction : String → UInt64 := fun s => s.utf8ByteSize.toUInt64
  maxLength : UInt64
  examples : List PromptExample := []
  lengths : List UInt64 := []
  lengths_eq : lengths = examples.map (lengthFunction <| format ·) := by rfl

variable {PromptExample : Type}

/-- `AddExample`. -/
def LengthBasedExampleSelector.addExample (s : LengthBasedExampleSelector PromptExample)
    (ex : PromptExample) : LengthBasedExampleSelector PromptExample :=
  { s with
    examples := s.examples ++ [ex]
    lengths := s.lengths ++ [s.lengthFunction (s.format ex)]
    lengths_eq := by rw [s.lengths_eq, List.map_append, List.map_singleton] }

/-- The loop of `SelectExamples`. -/
def selectFrom (remaining : UInt64) : List (PromptExample × UInt64) → List PromptExample
  | [] => []
  | (ex, length) :: rest =>
      if 0 < remaining then
        if remaining - length < 0 then []
        else ex :: selectFrom (remaining - length) rest
      else []

/-- `SelectExamples`. -/
def LengthBasedExampleSelector.selectExamples (s : LengthBasedExampleSelector PromptExample) :
    List PromptExample :=
  selectFrom s.maxLength (s.examples.zip s.lengths)

/-! ### The longest prefix that fits -/

/-- The longest of the prefixes whose weights together keep to a budget. -/
structure IsLongestFit {α : Type} (weight : α → Nat) (budget : Nat) (as selected : List α) :
    Prop where
  isPrefix : selected <+: as
  fits : (selected.map weight).sum ≤ budget
  longest : ∀ other, other <+: as → (other.map weight).sum ≤ budget → other <+: selected

/-- No element runs across the limit of a budget, and none without weight stands where the limit is
reached. -/
def MeetsLimit {α : Type} (weight : α → Nat) (budget : Nat) (as : List α) : Prop :=
  ∀ front a back, as = front ++ a :: back →
    ((front.map weight).sum < budget → (front.map weight).sum + weight a ≤ budget) ∧
      ((front.map weight).sum = budget → 0 < weight a)

section Fit

variable {α : Type} {weight : α → Nat} {budget : Nat} {a : α} {as selected : List α}

theorem isLongestFit_nil : IsLongestFit weight budget [] [] where
  isPrefix := List.prefix_rfl
  fits := Nat.zero_le budget
  longest _ h _ := h

theorem meetsLimit_nil : MeetsLimit weight budget [] := by
  intro front a back h
  cases front <;> cases h

/-- An element that fits is taken, and the others have what it leaves. -/
theorem isLongestFit_cons (h : weight a ≤ budget) :
    IsLongestFit weight budget (a :: as) (a :: selected) ↔
      IsLongestFit weight (budget - weight a) as selected := by
  have hsum : ∀ l : List α,
      ((a :: l).map weight).sum ≤ budget ↔ (l.map weight).sum ≤ budget - weight a := by
    intro l
    rw [List.map_cons, List.sum_cons]
    omega
  constructor
  · rintro ⟨hstart, hfits, hlongest⟩
    refine ⟨(List.cons_prefix_cons.mp hstart).2, (hsum selected).mp hfits, fun l hl hle => ?_⟩
    have hcons := hlongest (a :: l) (List.cons_prefix_cons.mpr ⟨rfl, hl⟩) ((hsum l).mpr hle)
    exact (List.cons_prefix_cons.mp hcons).2
  · rintro ⟨hstart, hfits, hlongest⟩
    refine ⟨List.cons_prefix_cons.mpr ⟨rfl, hstart⟩, (hsum selected).mpr hfits, ?_⟩
    rintro (- | ⟨b, l⟩) hl hle
    · exact List.nil_prefix
    · obtain ⟨rfl, htail⟩ := List.cons_prefix_cons.mp hl
      exact List.cons_prefix_cons.mpr ⟨rfl, hlongest l htail ((hsum l).mp hle)⟩

/-- Nothing is the longest choice if and only if the first element does not fit. -/
theorem isLongestFit_nil_iff : IsLongestFit weight budget (a :: as) [] ↔ budget < weight a := by
  constructor
  · intro h
    by_contra hle
    have hone : ([a].map weight).sum ≤ budget := by
      rw [List.map_singleton, List.sum_singleton]
      exact Nat.not_lt.mp hle
    cases List.prefix_nil.mp (h.longest [a] (List.prefix_append [a] as) hone)
  · intro h
    refine ⟨List.nil_prefix, Nat.zero_le budget, ?_⟩
    rintro (- | ⟨b, l⟩) hl hle
    · exact List.prefix_rfl
    · obtain ⟨rfl, -⟩ := List.cons_prefix_cons.mp hl
      rw [List.map_cons, List.sum_cons] at hle
      omega

theorem meetsLimit_cons : MeetsLimit weight budget (a :: as) ↔
    (0 < budget → weight a ≤ budget) ∧ (budget = 0 → 0 < weight a) ∧
      (weight a ≤ budget → MeetsLimit weight (budget - weight a) as) := by
  constructor
  · intro h
    obtain ⟨hfits, hsome⟩ := h [] a as rfl
    rw [List.map_nil, List.sum_nil] at hfits hsome
    refine ⟨fun hpos => by simpa using hfits hpos, fun hzero => hsome hzero.symm, ?_⟩
    rintro hle front b back rfl
    obtain ⟨hfits, hsome⟩ := h (a :: front) b back rfl
    rw [List.map_cons, List.sum_cons] at hfits hsome
    exact ⟨fun hlt => by have := hfits (by omega); omega, fun heq => hsome (by omega)⟩
  · rintro ⟨hfits, hsome, hrest⟩ front b back heq
    rcases front with - | ⟨c, front⟩
    · obtain ⟨rfl, rfl⟩ := List.cons.inj heq
      rw [List.map_nil, List.sum_nil, Nat.zero_add]
      exact ⟨hfits, fun hzero => hsome hzero.symm⟩
    · obtain ⟨rfl, rfl⟩ := List.cons.inj heq
      rw [List.map_cons, List.sum_cons]
      by_cases hle : weight a ≤ budget
      · obtain ⟨hfits', hsome'⟩ := hrest hle front b back rfl
        exact ⟨fun hlt => by have := hfits' (by omega); omega, fun heq => hsome' (by omega)⟩
      · -- the first element is not even taken
        have hzero : budget = 0 := by
          by_contra hne
          exact hle (hfits (Nat.pos_of_ne_zero hne))
        exact ⟨fun hlt => by omega, fun heq => by omega⟩

end Fit

/-! ### What is selected -/

theorem not_lt_zero (n : UInt64) : ¬ n < 0 := by
  rw [UInt64.lt_iff_toNat_lt]
  exact Nat.not_lt_zero _

/-- The examples that are selected, by induction along them: what remains is what the examples
before have left. -/
theorem selectFrom_isLongestFit_iff (length : PromptExample → UInt64)
    (examples : List PromptExample) (remaining : UInt64) :
    IsLongestFit (length · |>.toNat) remaining.toNat examples
        (selectFrom remaining (examples.zip (examples.map length))) ↔
      MeetsLimit (length · |>.toNat) remaining.toNat examples := by
  induction examples generalizing remaining with
  | nil => exact iff_of_true isLongestFit_nil meetsLimit_nil
  | cons ex examples ih =>
      rw [List.map_cons, List.zip_cons_cons, selectFrom, if_neg (not_lt_zero _), meetsLimit_cons]
      by_cases hpos : 0 < remaining
      · rw [if_pos hpos]
        have hpos' : 0 < remaining.toNat := UInt64.lt_iff_toNat_lt.mp hpos
        by_cases hle : (length ex).toNat ≤ remaining.toNat
        · refine (@isLongestFit_cons _ (length · |>.toNat) _ ex examples _ hle).trans ?_
          have hleft : (remaining - length ex).toNat = remaining.toNat - (length ex).toNat :=
            UInt64.toNat_sub_of_le _ _ (UInt64.le_iff_toNat_le.mpr hle)
          rw [← hleft, ih]
          exact ⟨fun h => ⟨fun _ => hle, fun hzero => by omega, fun _ => h⟩, fun h => h.2.2 hle⟩
        · -- the example is taken although it is too long
          refine iff_of_false (fun h => hle ?_) fun h => hle (h.1 hpos')
          have hfits := h.fits
          rw [List.map_cons, List.sum_cons] at hfits
          omega
      · rw [if_neg hpos, isLongestFit_nil_iff]
        have hzero : remaining.toNat = 0 := by
          rw [UInt64.lt_iff_toNat_lt] at hpos
          exact Nat.eq_zero_of_not_pos hpos
        rw [hzero]
        exact ⟨fun h => ⟨fun hpos => absurd hpos (Nat.lt_irrefl 0), fun _ => h, by omega⟩,
          fun h => h.2.1 rfl⟩

/-- The length of an example, once it is formatted. -/
def LengthBasedExampleSelector.lengthOf (s : LengthBasedExampleSelector PromptExample)
    (ex : PromptExample) : UInt64 :=
  s.lengthFunction (s.format ex)

/-- Examples that are added, one after the other. -/
def LengthBasedExampleSelector.addExamples (s : LengthBasedExampleSelector PromptExample)
    (examples : List PromptExample) : LengthBasedExampleSelector PromptExample :=
  examples.foldl LengthBasedExampleSelector.addExample s

theorem addExamples_spec (s : LengthBasedExampleSelector PromptExample)
    (examples : List PromptExample) :
    (s.addExamples examples).examples = s.examples ++ examples ∧
      (s.addExamples examples).lengthOf = s.lengthOf ∧
      (s.addExamples examples).maxLength = s.maxLength := by
  induction examples generalizing s with
  | nil => exact ⟨(List.append_nil _).symm, rfl, rfl⟩
  | cons ex examples ih =>
      obtain ⟨hexamples, hlength, hmax⟩ := ih (s.addExample ex)
      refine ⟨hexamples.trans ?_, hlength, hmax⟩
      rw [LengthBasedExampleSelector.addExample, List.append_assoc, List.singleton_append]

/-- **The selected examples are the longest prefix that fits** if and only if no example runs across
the limit, and none of length zero stands where it is reached. -/
theorem selectExamples_isLongestFit_iff (format : PromptExample → String)
    (lengthFunction : String → UInt64) (maxLength : UInt64) (examples : List PromptExample) :
    IsLongestFit (fun ex => (lengthFunction (format ex)).toNat) maxLength.toNat examples
        (({ format, lengthFunction, maxLength } :
          LengthBasedExampleSelector PromptExample).addExamples examples).selectExamples ↔
      MeetsLimit (fun ex => (lengthFunction (format ex)).toNat) maxLength.toNat examples := by
  have hadded := addExamples_spec ({ format, lengthFunction, maxLength } :
    LengthBasedExampleSelector PromptExample) examples
  generalize LengthBasedExampleSelector.addExamples _ examples = s at hadded ⊢
  obtain ⟨hexamples, hlength, hmax⟩ := hadded
  have hlengths : s.lengths = examples.map fun ex => lengthFunction (format ex) := by
    rw [s.lengths_eq, hexamples]
    exact congrArg (List.map · examples) hlength
  rw [LengthBasedExampleSelector.selectExamples, hmax, hlengths, hexamples]
  exact selectFrom_isLongestFit_iff (fun ex => lengthFunction (format ex)) examples maxLength

/-- An example that is too long is selected, and the ones behind it. -/
theorem selectExamples_exceeds :
    ¬ IsLongestFit (·.utf8ByteSize.toUInt64.toNat) (8 : UInt64).toNat ["Hello", "Good night", "Bye"]
      (({ format := id, maxLength := 8 } :
        LengthBasedExampleSelector String).addExamples
          ["Hello", "Good night", "Bye"]).selectExamples := by
  intro h
  exact absurd h.fits (by decide)

end Instinct.ExampleSelection
