/-
Instinct/Decimal.lean

Numbers in decimal notation, compared as texts, as a small library of its own.

Two numbers with equally many digits compare as texts the way they compare as
numbers (`toDigits_lt_iff_of_width`).  In general the shorter one is compared
with the leading digits of the longer one, so that `n < m` gives the same order
of the texts exactly when `n`, filled up with zeros, is not above `m`
(`toDigits_lt_iff`).
-/
import Mathlib.Data.List.Lex
import Mathlib.Data.Nat.Init
import Mathlib.Data.String.Basic
import Mathlib.Order.Defs.LinearOrder

namespace Decimal

/-! ### Lists compared position by position -/

/-- Texts whose first parts are equally long are compared by their first parts, and
only where these agree by the rest. -/
theorem append_lt_append_iff {α : Type} [LinearOrder α] {l l' r r' : List α}
    (h : l.length = l'.length) : l ++ r < l' ++ r' ↔ l < l' ∨ l = l' ∧ r < r' := by
  induction l generalizing l' with
  | nil =>
      obtain rfl := List.length_eq_zero_iff.mp h.symm
      simp
  | cons a l ih =>
      cases l' with
      | nil => simp at h
      | cons b l' =>
          have hlen : l.length = l'.length := by simpa using h
          simp only [List.cons_append, List.cons_lt_cons_iff, ih hlen, List.cons.injEq]
          tauto

/-! ### How many digits -/

/-- The number of decimal digits. -/
def width (n : Nat) : Nat := (Nat.toDigits 10 n).length

theorem width_pos (n : Nat) : 0 < width n := Nat.length_toDigits_pos

theorem width_le_iff {n k : Nat} (hk : 0 < k) : width n ≤ k ↔ n < 10 ^ k :=
  Nat.length_toDigits_le_iff (by decide) hk

theorem lt_pow_width (n : Nat) : n < 10 ^ width n :=
  (width_le_iff (width_pos n)).mp (Nat.le_refl _)

/-- A number reaches a power of ten when it has a digit more than the exponent. -/
theorem pow_le_iff {n k : Nat} (hk : 0 < k) : 10 ^ k ≤ n ↔ k < width n := by
  rw [← not_lt, ← width_le_iff hk, not_le]

theorem width_mono {n m : Nat} (h : n ≤ m) : width n ≤ width m :=
  (width_le_iff (width_pos m)).mpr (h.trans_lt (lt_pow_width m))

/-- Two numbers have equally many digits when no power of ten lies above the first and
not above the second. -/
theorem width_eq_of_no_pow {n m : Nat} (h : n ≤ m) (hpow : ∀ k, 0 < k → n < 10 ^ k → m < 10 ^ k) :
    width n = width m :=
  Nat.le_antisymm (width_mono h)
    ((width_le_iff (width_pos n)).mpr (hpow _ (width_pos n) (lt_pow_width n)))

/-! ### Leading digits -/

theorem toDigits_injective {n m : Nat} (h : Nat.toDigits 10 n = Nat.toDigits 10 m) : n = m := by
  have hn := Nat.ofDigitChars_ten_toDigits (n := n)
  rw [h, Nat.ofDigitChars_ten_toDigits] at hn
  exact hn.symm

/-- The leading digits of a number are those of its quotient. -/
theorem toDigits_eq_append {m k : Nat} (h : 10 ^ k ≤ m) :
    ∃ rest, rest.length = k ∧ Nat.toDigits 10 m = Nat.toDigits 10 (m / 10 ^ k) ++ rest := by
  induction k with
  | zero => exact ⟨[], rfl, by simp⟩
  | succ k ih =>
      have hk : 10 ^ k ≤ m := (Nat.pow_le_pow_right (by decide) (Nat.le_succ k)).trans h
      obtain ⟨rest, hlen, hrest⟩ := ih hk
      have hten : 10 ≤ m / 10 ^ k := by
        rw [Nat.le_div_iff_mul_le (Nat.pow_pos (by decide)), Nat.mul_comm, ← Nat.pow_succ]
        exact h
      refine ⟨Nat.digitChar (m / 10 ^ k % 10) :: rest, by simp [hlen], ?_⟩
      rw [hrest, Nat.toDigits_of_base_le (by decide) hten, Nat.div_div_eq_div_mul, ← Nat.pow_succ,
        List.append_assoc, List.singleton_append]

/-! ### The order of the texts -/

theorem digitChar_lt_iff {n m : Nat} (hn : n < 10) (hm : m < 10) :
    Nat.digitChar n < Nat.digitChar m ↔ n < m := by
  rw [Char.lt_def, UInt32.lt_iff_toNat_lt]
  show (Nat.digitChar n).toNat < (Nat.digitChar m).toNat ↔ n < m
  rw [Nat.toNat_digitChar_of_lt_ten hn, Nat.toNat_digitChar_of_lt_ten hm]
  omega

/-- **Equally many digits.**  The texts compare as the numbers do. -/
theorem toDigits_lt_iff_of_width {n m : Nat} (h : width n = width m) :
    Nat.toDigits 10 n < Nat.toDigits 10 m ↔ n < m := by
  induction n using Nat.strongRecOn generalizing m with
  | ind n ih =>
      by_cases hn : n < 10
      · -- one digit each
        have hm : m < 10 := by
          have hwidth : width m ≤ 1 := h ▸ (width_le_iff Nat.one_pos).mpr (by simpa using hn)
          simpa using (width_le_iff Nat.one_pos).mp hwidth
        rw [Nat.toDigits_of_lt_base hn, Nat.toDigits_of_lt_base hm, List.cons_lt_cons_iff,
          digitChar_lt_iff hn hm]
        simp
      · -- the leading digits first, then the last one
        have hm : 10 ≤ m := by
          have hwidth : 1 < width m := h ▸ (pow_le_iff Nat.one_pos).mp (by simpa using hn)
          simpa using (pow_le_iff Nat.one_pos).mpr hwidth
        have hsplit := Nat.toDigits_of_base_le (b := 10) (by decide) (not_lt.mp hn)
        have hsplit' := Nat.toDigits_of_base_le (b := 10) (by decide) hm
        have hquot : width (n / 10) = width (m / 10) := by
          have e : width n = width (n / 10) + 1 := by simp [width, hsplit]
          have e' : width m = width (m / 10) + 1 := by simp [width, hsplit']
          omega
        rw [hsplit, hsplit', append_lt_append_iff hquot,
          ih (n / 10) (Nat.div_lt_self (by omega) (by decide)) hquot, List.cons_lt_cons_iff,
          digitChar_lt_iff (Nat.mod_lt _ (by decide)) (Nat.mod_lt _ (by decide))]
        constructor
        · rintro (hlt | ⟨heq, hlt | ⟨-, hnil⟩⟩)
          · omega
          · have := toDigits_injective heq
            omega
          · simp at hnil
        · intro hlt
          rcases Nat.lt_or_ge (n / 10) (m / 10) with hq | hq
          · exact .inl hq
          · have heq : n / 10 = m / 10 := by omega
            exact .inr ⟨by rw [heq], .inl (by omega)⟩

/-- **Numbers of any length.**  The smaller number is the smaller text when, filled up
with zeros to the length of the other, it is still not above it. -/
theorem toDigits_lt_iff {n m : Nat} (h : n < m) :
    Nat.toDigits 10 n < Nat.toDigits 10 m ↔ n * 10 ^ (width m - width n) ≤ m := by
  have hle : width n ≤ width m := width_mono (Nat.le_of_lt h)
  rcases hk : width m - width n with - | k
  · -- equally many digits
    have heq : width n = width m := by omega
    rw [toDigits_lt_iff_of_width heq]
    omega
  · -- the shorter text meets the leading digits of the longer one
    have hpow : 10 ^ (k + 1) ≤ m := (pow_le_iff (Nat.succ_pos k)).mpr (by
      have := width_pos n
      omega)
    obtain ⟨rest, hlen, hrest⟩ := toDigits_eq_append hpow
    have hlead : width n = width (m / 10 ^ (k + 1)) := by
      have e : width m = width (m / 10 ^ (k + 1)) + (k + 1) := by
        simp [width, hrest, hlen]
      omega
    have hne : [] < rest := by
      cases rest with
      | nil => simp at hlen
      | cons a rest => exact List.nil_lt_cons a rest
    rw [hrest, ← List.append_nil (Nat.toDigits 10 n), append_lt_append_iff hlead,
      toDigits_lt_iff_of_width hlead, ← Nat.le_div_iff_mul_le (Nat.pow_pos (by decide)),
      Nat.le_iff_lt_or_eq]
    refine or_congr Iff.rfl ⟨fun ⟨heq, _⟩ => toDigits_injective heq, fun heq => ⟨?_, hne⟩⟩
    rw [← heq]

/-- Behind a common text in front, the order is that of the digits. -/
theorem append_toString_lt_iff (s : String) {n m : Nat} (h : n < m) :
    s ++ toString n < s ++ toString m ↔ n * 10 ^ (width m - width n) ≤ m := by
  rw [String.lt_iff_toList_lt, String.toList_append, String.toList_append,
    append_lt_append_iff rfl, Nat.toString_eq_repr, Nat.toString_eq_repr, Nat.toList_repr,
    Nat.toList_repr, toDigits_lt_iff h]
  simp

end Decimal
