/-
Instinct/Layouts.lean

Layouts of binary data, as a small library of its own.

A piece stands in the data at an offset (`Stands`), and a decoder reads a value off it
(`Reads`): what one decoder reads and what the next one reads stand side by side
(`Reads.bind`).  Numbers are laid out with their lowest byte first.
-/
import Instinct.Effects
import Mathlib.Algebra.Order.Ring.Nat
import Mathlib.Data.List.Basic

namespace Layouts

open Effects

abbrev Bytes := List UInt8

/-! ### Pieces -/

/-- A piece stands in the data at an offset. -/
def Stands (data : Bytes) (offset : Nat) (piece : Bytes) : Prop :=
  ∃ front back, data = front ++ piece ++ back ∧ front.length = offset

/-- The bytes from an offset on, if there are that many. -/
def slice (data : Bytes) (offset size : Nat) : Option Bytes :=
  if offset + size ≤ data.length then some ((data.drop offset).take size) else none

section Stands

variable {data piece : Bytes} {offset size : Nat}

theorem stands_self (data : Bytes) : Stands data 0 data := ⟨[], [], by simp, rfl⟩

/-- Two pieces side by side. -/
theorem stands_append {first second : Bytes} :
    Stands data offset (first ++ second) ↔
      Stands data offset first ∧ Stands data (offset + first.length) second := by
  constructor
  · rintro ⟨front, back, rfl, rfl⟩
    refine ⟨⟨front, second ++ back, by simp, rfl⟩, ⟨front ++ first, back, by simp, ?_⟩⟩
    rw [List.length_append]
  · rintro ⟨⟨front, back, hfirst, hlength⟩, front', back', hsecond, hlength'⟩
    have hfront : front' = front ++ first ∧ second ++ back' = back := by
      refine List.append_inj ?_ (by rw [hlength', List.length_append, hlength])
      rw [← List.append_assoc, ← hsecond, hfirst]
    obtain ⟨rfl, rfl⟩ := hfront
    exact ⟨front, back', by rw [hfirst]; simp, hlength⟩

theorem Stands.length_le (h : Stands data offset piece) :
    offset + piece.length ≤ data.length := by
  obtain ⟨front, back, rfl, rfl⟩ := h
  rw [List.length_append, List.length_append]
  exact Nat.le_add_right _ _

theorem slice_eq_some_iff :
    slice data offset size = some piece ↔ Stands data offset piece ∧ piece.length = size := by
  rw [slice]
  constructor
  · intro h
    split at h
    · next hle =>
        obtain rfl := Option.some.inj h
        refine ⟨⟨data.take offset, (data.drop offset).drop size, ?_, ?_⟩, ?_⟩
        · rw [List.append_assoc, List.take_append_drop, List.take_append_drop]
        · rw [List.length_take]
          omega
        · rw [List.length_take, List.length_drop]
          omega
    · cases h
  · rintro ⟨hstands, rfl⟩
    rw [if_pos hstands.length_le]
    obtain ⟨front, back, rfl, rfl⟩ := hstands
    rw [List.append_assoc, List.drop_left, List.take_left]

end Stands

/-! ### Decoders -/

/-- A decoder goes through data, from a place in it to another one. -/
abbrev Decoder (ε α : Type) : Type := ReaderT Bytes (Action ε Nat) α

/-- Take the next bytes. -/
def Decoder.take {ε : Type} (fault : ε) (size : Nat) : Decoder ε Bytes := fun data offset =>
  match slice data offset size with
  | some bytes => (.ok bytes, offset + size)
  | none => (.error fault, offset)

/-- Off the piece at an offset a decoder reads a value, and goes behind the piece. -/
def Reads {ε α : Type} (x : Decoder ε α) (offset : Nat) (piece : Bytes) (a : α) : Prop :=
  ∀ data, Stands data offset piece → x data offset = (.ok a, offset + piece.length)

section Reads

variable {ε α β : Type} {offset : Nat} {piece : Bytes}

theorem reads_take (fault : ε) {size : Nat} (h : piece.length = size) :
    Reads (Decoder.take fault size) offset piece piece := by
  intro data hstands
  rw [Decoder.take, slice_eq_some_iff.mpr ⟨hstands, h⟩, h]

/-- What is taken stands there. -/
theorem of_take_eq_ok {fault : ε} {data bytes : Bytes} {size last : Nat}
    (h : Decoder.take fault size data offset = (.ok bytes, last)) :
    Stands data offset bytes ∧ bytes.length = size ∧ last = offset + size := by
  rw [Decoder.take] at h
  split at h
  · next piece hpiece =>
      obtain ⟨hbytes, hlast⟩ := Prod.mk.inj h
      obtain rfl := Except.ok.inj hbytes
      obtain ⟨hstands, hsize⟩ := slice_eq_some_iff.mp hpiece
      exact ⟨hstands, hsize, hlast.symm⟩
  · cases (Prod.mk.inj h).1

theorem reads_pure (a : α) : Reads (pure a : Decoder ε α) offset [] a := fun _ _ => rfl

/-- **What is read one after the other stands side by side.** -/
theorem Reads.bind {x : Decoder ε α} {f : α → Decoder ε β} {first second : Bytes} {a : α}
    {b : β} (hx : Reads x offset first a) (hf : Reads (f a) (offset + first.length) second b) :
    Reads (x >>= f) offset (first ++ second) b := by
  intro data hstands
  obtain ⟨hfirst, hsecond⟩ := stands_append.mp hstands
  have hbind : (x >>= f) data offset = f a data (offset + first.length) :=
    Action.bind_of_ok (hx data hfirst)
  rw [hbind, hf data hsecond, List.length_append, Nat.add_assoc]

/-- A value that is computed from what is read. -/
theorem Reads.map {x : Decoder ε α} {a : α} (hx : Reads x offset piece a) (f : α → β) :
    Reads (do let a ← x; pure (f a)) offset piece (f a) := by
  have hpure : Reads (pure (f a) : Decoder ε β) (offset + piece.length) [] (f a) :=
    reads_pure (f a)
  have hbind := hx.bind (f := fun a => pure (f a)) hpure
  rwa [List.append_nil] at hbind

/-- A decoder that passes over the piece at an offset if it is as it should be, and otherwise
throws. -/
def Verifies (x : Decoder ε Unit) (offset : Nat) (piece : Bytes) (valid : Prop) : Prop :=
  ∀ data, Stands data offset piece →
    (valid → x data offset = (.ok (), offset + piece.length)) ∧
    (¬ valid → ∃ e last, x data offset = (.error e, last))

/-- A check of what has been read. -/
theorem Reads.verifies {x : Decoder ε α} {f : α → Decoder ε Unit} {first second : Bytes} {a : α}
    {valid : Prop} (hx : Reads x offset first a)
    (hf : Verifies (f a) (offset + first.length) second valid) :
    Verifies (x >>= f) offset (first ++ second) valid := by
  intro data hstands
  obtain ⟨hfirst, hsecond⟩ := stands_append.mp hstands
  have hbind : (x >>= f) data offset = f a data (offset + first.length) :=
    Action.bind_of_ok (hx data hfirst)
  rw [hbind, List.length_append, ← Nat.add_assoc]
  exact hf data hsecond

/-- One check after the other. -/
theorem Verifies.andThen {x y : Decoder ε Unit} {first second : Bytes} {valid valid' : Prop}
    (hx : Verifies x offset first valid)
    (hy : valid → Verifies y (offset + first.length) second valid') :
    Verifies (do x; y) offset (first ++ second) (valid ∧ valid') := by
  intro data hstands
  obtain ⟨hfirst, hsecond⟩ := stands_append.mp hstands
  obtain ⟨hpass, hstop⟩ := hx data hfirst
  by_cases hvalid : valid
  · have hbind : (do x; y : Decoder ε Unit) data offset = y data (offset + first.length) :=
      Action.bind_of_ok (hpass hvalid)
    rw [hbind, List.length_append, ← Nat.add_assoc, and_iff_right hvalid]
    exact hy hvalid data hsecond
  · obtain ⟨e, last, herror⟩ := hstop hvalid
    exact ⟨fun h => absurd h.1 hvalid, fun _ => ⟨e, last, Action.bind_of_error herror⟩⟩

/-- What a decoder that returns leaves behind is at least so long. -/
def MovesOn (size : Nat) (x : Decoder ε α) : Prop :=
  ∀ data offset a last, x data offset = (.ok a, last) → offset + size ≤ last

theorem movesOn_pure (a : α) : MovesOn 0 (pure a : Decoder ε α) := by
  intro data offset a' last h
  exact Nat.le_of_eq (Prod.mk.inj h).2

theorem movesOn_take (fault : ε) (size : Nat) : MovesOn size (Decoder.take fault size) := by
  intro data offset bytes last h
  rw [Decoder.take] at h
  split at h
  · exact Nat.le_of_eq (Prod.mk.inj h).2
  · cases (Prod.mk.inj h).1

theorem MovesOn.bind {x : Decoder ε α} {f : α → Decoder ε β} {m n : Nat} (hx : MovesOn m x)
    (hf : ∀ a, MovesOn n (f a)) : MovesOn (m + n) (x >>= f) := by
  intro data offset b last h
  have hbind : ((x data >>= fun a => f a data) : Action ε Nat β) offset = (.ok b, last) := h
  obtain ⟨a, middle, hfirst, hsecond⟩ := Action.ok_of_bind hbind
  have hle := hx data offset a middle hfirst
  have hle' := hf a data middle b last hsecond
  omega

/-- As many values as a number says. -/
def Decoder.replicate (x : Decoder ε α) : Nat → Decoder ε (List α)
  | 0 => pure []
  | n + 1 => do
      let a ← x
      let rest ← Decoder.replicate x n
      pure (a :: rest)

/-- A run of values is read if each of them is, by induction over the values. -/
theorem Reads.replicate {x : Decoder ε α} {print : α → Bytes}
    (h : ∀ a offset, Reads x offset (print a) a) (l : List α) (offset : Nat) :
    Reads (x.replicate l.length) offset (l.flatMap print) l := by
  induction l generalizing offset with
  | nil => exact reads_pure []
  | cons a l ih => exact (h a offset).bind ((ih _).map (a :: ·))

end Reads

/-! ### Numbers -/

/-- The lowest bytes of a number, the lowest first. -/
def numberBytes : Nat → Nat → Bytes
  | 0, _ => []
  | size + 1, n => UInt8.ofNat n :: numberBytes size (n / 256)

/-- The number that bytes stand for. -/
def numberOf (bytes : Bytes) : Nat := bytes.foldr (fun b n => b.toNat + 256 * n) 0

@[simp] theorem length_numberBytes (size n : Nat) : (numberBytes size n).length = size := by
  induction size generalizing n with
  | zero => rfl
  | succ size ih => rw [numberBytes, List.length_cons, ih]

theorem numberOf_numberBytes (size n : Nat) : numberOf (numberBytes size n) = n % 256 ^ size := by
  induction size generalizing n with
  | zero => exact (Nat.mod_one n).symm
  | succ size ih =>
      show (UInt8.ofNat n).toNat + 256 * numberOf (numberBytes size (n / 256)) = _
      have hbyte : (UInt8.ofNat n).toNat = n % 256 := UInt8.toNat_ofNat'
      rw [ih, hbyte, Nat.pow_succ', Nat.mod_mul]

theorem numberOf_lt (bytes : Bytes) : numberOf bytes < 256 ^ bytes.length := by
  induction bytes with
  | nil => exact Nat.one_pos
  | cons b bytes ih =>
      have hb : b.toNat < 256 := b.toNat_lt
      show b.toNat + 256 * numberOf bytes < 256 ^ (bytes.length + 1)
      rw [Nat.pow_succ']
      omega

/-- Bytes are the bytes of the number that they stand for. -/
theorem numberBytes_numberOf (bytes : Bytes) :
    numberBytes bytes.length (numberOf bytes) = bytes := by
  induction bytes with
  | nil => rfl
  | cons b bytes ih =>
      have hb : b.toNat < 256 := b.toNat_lt
      have hbyte : UInt8.ofNat (b.toNat + 256 * numberOf bytes) = b := by
        refine UInt8.toNat_inj.mp ?_
        rw [UInt8.toNat_ofNat']
        omega
      have hrest : (b.toNat + 256 * numberOf bytes) / 256 = numberOf bytes := by omega
      show UInt8.ofNat (b.toNat + 256 * numberOf bytes)
        :: numberBytes bytes.length ((b.toNat + 256 * numberOf bytes) / 256) = b :: bytes
      rw [hbyte, hrest, ih]

/-- A 32-bit integer. -/
def intBytes (z : Int32) : Bytes := numberBytes 4 z.toUInt32.toNat

def intOf (bytes : Bytes) : Int32 := (UInt32.ofNat (numberOf bytes)).toInt32

@[simp] theorem length_intBytes (z : Int32) : (intBytes z).length = 4 := length_numberBytes 4 _

/-- **Integers are read as they were written.** -/
@[simp] theorem intOf_intBytes (z : Int32) : intOf (intBytes z) = z := by
  have hlt : z.toUInt32.toNat < 256 ^ 4 := z.toUInt32.toNat_lt
  rw [intOf, intBytes, numberOf_numberBytes, Nat.mod_eq_of_lt hlt, UInt32.ofNat_toNat,
    Int32.toInt32_toUInt32]

/-- Four bytes are those of an integer. -/
theorem intBytes_intOf {bytes : Bytes} (h : bytes.length = 4) : intBytes (intOf bytes) = bytes := by
  have hlt := numberOf_lt bytes
  rw [h] at hlt
  have hnumber : (UInt32.ofNat (numberOf bytes)).toNat = numberOf bytes :=
    UInt32.toNat_ofNat_of_lt' hlt
  rw [intBytes, intOf, UInt32.toUInt32_toInt32, hnumber, ← h, numberBytes_numberOf]

/-- An integer off its bytes. -/
theorem reads_int {ε : Type} {offset : Nat} (fault : ε) (z : Int32) :
    Reads (do let bytes ← Decoder.take fault 4; pure (intOf bytes)) offset (intBytes z) z := by
  have hread := (@reads_take ε offset _ fault 4 (length_intBytes z)).map intOf
  rwa [intOf_intBytes] at hread

end Layouts
