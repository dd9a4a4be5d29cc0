/-
Instinct/Core.lean

The parts of `instinct-core` that the rest of the development rests on: what
the code throws, blank strings, and assertions.

An exception is a value of `Exn`.  Its constructors are the classes that the
handlers of the code tell apart, with the text that the handlers read.  The
last one, `undefinedBehaviour`, is not thrown by the code: it marks a place at
which the C++ program has no defined meaning (a dereferenced end iterator or
null pointer), and nothing in the model catches it.
-/
import Instinct.Effects
import Mathlib.Algebra.GroupWithZero.Nat
import Mathlib.Data.List.Forall2

namespace Instinct

open Effects

/-! ### What the code throws -/

/-- Exceptions, by the class that `catch` clauses tell apart. -/
inductive Exn
  | client (message : String)
  | instinct (message : String)
  | runtime (what : String)
  | other (what : String)
  | undefinedBehaviour (place : String)
  deriving Repr, DecidableEq

/-! ### Blank strings -/

/-- `std::isspace` of the C locale. -/
def isSpace (c : Char) : Bool :=
  c = ' ' || c = '\t' || c = '\n' || c = '\x0b' || c = '\x0c' || c = '\r'

/-- `StringUtils::IsBlankString`: nothing is left of the string once it is trimmed. -/
def isBlankString (s : String) : Bool := s.toList.all isSpace

/-- `StringUtils::IsNotBlankString`. -/
def isNotBlankString (s : String) : Bool := !isBlankString s

@[simp] theorem isBlankString_empty : isBlankString "" = true := rfl

@[simp] theorem isNotBlankString_eq_false {s : String} :
    isNotBlankString s = false ↔ isBlankString s = true := by
  simp [isNotBlankString]

theorem isNotBlankString_eq_true {s : String} :
    isNotBlankString s = true ↔ isBlankString s = false := by
  simp [isNotBlankString]

theorem isBlankString_append (s t : String) :
    isBlankString (s ++ t) = (isBlankString s && isBlankString t) := by
  simp [isBlankString, String.toList_append]

/-! ### Assertions -/

/-- `assert_true`. -/
def assertTrue (v : Prop) [Decidable v] (message : String := "assertion failed") :
    Except Exn Unit :=
  if v then .ok () else .error (.client message)

/-- `assert_not_blank`. -/
def assertNotBlank (v : String) (message : String := "given string cannot be blank") :
    Except Exn Unit :=
  if isBlankString v then .error (.client message) else .ok ()

/-- `assert_non_empty_range`. -/
def assertNonEmptyRange {α : Type} (r : List α)
    (message : String := "range object should not be empty") : Except Exn Unit :=
  if r.isEmpty then .error (.client message) else .ok ()

theorem assertTrue_eq_ok {v : Prop} [Decidable v] {message : String} :
    assertTrue v message = .ok () ↔ v := by
  unfold assertTrue
  split <;> simp_all

theorem assertTrue_of {v : Prop} [Decidable v] {message : String} (h : v) :
    assertTrue v message = .ok () := assertTrue_eq_ok.mpr h

theorem assertNotBlank_eq_ok {v message : String} :
    assertNotBlank v message = .ok () ↔ isBlankString v = false := by
  unfold assertNotBlank
  split <;> simp_all

theorem assertNotBlank_of {v message : String} (h : isBlankString v = false) :
    assertNotBlank v message = .ok () := assertNotBlank_eq_ok.mpr h

/-- A sequence of checks passes when all of them do. -/
theorem checks_eq_ok {α β : Type} {x : Except Exn α} {f : α → Except Exn β} {b : β} :
    (x >>= f) = .ok b ↔ ∃ a, x = .ok a ∧ f a = .ok b := by
  cases x with
  | ok a => exact ⟨fun h => ⟨a, rfl, h⟩, fun ⟨a', ha, h⟩ => Except.ok.inj ha ▸ h⟩
  | error e => exact ⟨nofun, nofun⟩

/-- It fails where the first of them fails that does. -/
theorem checks_eq_error {α β : Type} {x : Except Exn α} {f : α → Except Exn β} {e : Exn} :
    (x >>= f) = .error e ↔ x = .error e ∨ ∃ a, x = .ok a ∧ f a = .error e := by
  cases x with
  | ok a =>
      refine ⟨fun h => .inr ⟨a, rfl, h⟩, ?_⟩
      rintro (h | ⟨a', ha, h⟩)
      · cases h
      · exact Except.ok.inj ha ▸ h
  | error e' =>
      refine ⟨fun h => .inl (congrArg Except.error (Except.error.inj h)), ?_⟩
      rintro (h | ⟨a', ha, -⟩)
      · exact congrArg Except.error (Except.error.inj h)
      · cases ha

/-- What is made of a result. -/
theorem map_eq_ok {α β : Type} {x : Except Exn α} {f : α → β} {b : β} :
    x.map f = .ok b ↔ ∃ a, x = .ok a ∧ f a = b := by
  cases x with
  | ok a => exact ⟨fun h => ⟨a, rfl, Except.ok.inj h⟩, fun ⟨a', ha, h⟩ =>
      congrArg Except.ok (Except.ok.inj ha ▸ h)⟩
  | error e => exact ⟨nofun, nofun⟩

/-- A check of all elements of a list. -/
theorem forM_eq_ok {α : Type} {l : List α} {f : α → Except Exn Unit} :
    l.forM f = .ok () ↔ ∀ a ∈ l, f a = .ok () := by
  induction l with
  | nil => exact ⟨fun _ a ha => absurd ha List.not_mem_nil, fun _ => rfl⟩
  | cons a l ih =>
      rw [List.forall_mem_cons, ← ih]
      exact checks_eq_ok.trans ⟨fun ⟨_, ha, hl⟩ => ⟨ha, hl⟩, fun h => ⟨(), h⟩⟩

/-- Each element of the second list belongs to one of the first. -/
theorem exists_of_forall₂ {α β : Type} {R : α → β → Prop} {l : List α} {l' : List β}
    (h : List.Forall₂ R l l') : ∀ b ∈ l', ∃ a ∈ l, R a b := by
  induction h with
  | nil => exact fun b hb => absurd hb List.not_mem_nil
  | cons hR _ ih =>
      refine List.forall_mem_cons.mpr ⟨⟨_, List.mem_cons_self, hR⟩, fun b hb => ?_⟩
      obtain ⟨a, ha, hR⟩ := ih b hb
      exact ⟨a, List.mem_cons_of_mem _ ha, hR⟩

/-- A list of results that is returned has them element by element. -/
theorem mapM_eq_ok_iff {α β : Type} {f : α → Except Exn β} {l : List α} {l' : List β} :
    l.mapM f = .ok l' ↔ List.Forall₂ (fun a b => f a = .ok b) l l' := by
  have hpure : ∀ {bs bs' : List β}, (pure bs : Except Exn (List β)) = .ok bs' ↔ bs' = bs :=
    ⟨fun h => (Except.ok.inj h).symm, fun h => congrArg Except.ok h.symm⟩
  induction l generalizing l' with
  | nil => rw [List.mapM_nil, List.forall₂_nil_left_iff, hpure]
  | cons a l ih =>
      rw [List.mapM_cons, checks_eq_ok, List.forall₂_cons_left_iff]
      refine exists_congr fun b => ?_
      rw [checks_eq_ok, ← exists_and_left]
      exact exists_congr fun bs => and_congr_right fun _ => and_congr ih hpure

theorem exists_of_mapM {α β : Type} {f : α → Except Exn β} {l : List α} {l' : List β}
    (h : l.mapM f = .ok l') : ∀ a ∈ l, ∃ b ∈ l', f a = .ok b :=
  exists_of_forall₂ (mapM_eq_ok_iff.mp h).flip

theorem mapM_eq_ok {α β : Type} {f : α → Except Exn β} {g : α → β} {l : List α}
    (h : ∀ a ∈ l, f a = .ok (g a)) : l.mapM f = .ok (l.map g) :=
  mapM_eq_ok_iff.mpr (List.forall₂_map_right_iff.mpr (List.forall₂_same.mpr h))

/-- A list of elements each of which has a result. -/
theorem mapM_ok {α β : Type} {f : α → Except Exn β} {R : α → β → Prop} {l : List α}
    (h : ∀ a ∈ l, ∃ b, f a = .ok b ∧ R a b) :
    ∃ bs, l.mapM f = .ok bs ∧ List.Forall₂ R l bs := by
  induction l with
  | nil => exact ⟨[], rfl, .nil⟩
  | cons a l ih =>
      obtain ⟨⟨b, hb, hR⟩, hl⟩ := List.forall_mem_cons.mp h
      obtain ⟨bs, hbs, hall⟩ := ih hl
      exact ⟨b :: bs, by rw [List.mapM_cons, hb, hbs]; rfl, .cons hR hall⟩

/-- Reading a list back item by item. -/
theorem mapM_map_eq_some_iff {α β γ : Type} {f : α → β} {g : β → Option γ} {h : α → γ}
    {l : List α} :
    (l.map f).mapM g = some (l.map h) ↔ ∀ a ∈ l, g (f a) = some (h a) := by
  induction l with
  | nil => exact iff_of_true rfl fun a ha => absurd ha List.not_mem_nil
  | cons a l ih =>
      rw [List.forall_mem_cons, ← ih, List.map_cons, List.mapM_cons, List.map_cons]
      cases g (f a) with
      | none => simp
      | some c => cases (l.map f).mapM g <;> simp [and_comm]

/-! ### Counts in 32 bits -/

/-- A number that is no larger is told as this one if it is this one and fits. -/
theorem toInt_ofNat_eq_iff {n m : Nat} (h : n ≤ m) :
    (Int32.ofNat n).toInt = (m : Int) ↔ n = m ∧ m < 2 ^ 31 := by
  constructor
  · intro heq
    have hm : m < 2 ^ 31 := by
      have hlt := (Int32.ofNat n).toInt_lt
      omega
    rw [Int32.toInt_ofNat_of_lt (Nat.lt_of_le_of_lt h hm)] at heq
    exact ⟨Int.ofNat.inj heq, hm⟩
  · rintro ⟨rfl, hn⟩
    exact Int32.toInt_ofNat_of_lt hn

/-! ### Object ids -/

/-- `details::generate_next_object_id`, given the number the generator hands out. -/
def generateNextObjectId (kind : String) (number : Nat) : String :=
  kind ++ "_" ++ toString number

/-- A generated id is never blank. -/
theorem generateNextObjectId_not_blank (kind : String) (number : Nat) :
    isBlankString (generateNextObjectId kind number) = false := by
  have h : isBlankString "_" = false := by decide
  rw [generateNextObjectId, isBlankString_append, isBlankString_append, h]
  simp

end Instinct
