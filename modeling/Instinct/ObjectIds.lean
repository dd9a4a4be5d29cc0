/-
Instinct/ObjectIds.lean

`SnowflakeIDGenerator` and the object ids that are made of its numbers.

A generator reads a millisecond clock.  Here the readings are a list, in the
order in which the code takes them; `waitNextMillis` takes as many as it needs.
`nextIDs` are the numbers of successive calls, for as many calls as the readings
serve.

`stamps` says the same reading by reading: a reading gives one number, unless it
repeats a millisecond whose 4096 numbers are used up.  From `nextIDs_eq_stamps`
follow the two facts about the ids: they are distinct (`objectIds_nodup`), and
as texts they increase exactly as long as no number falls behind in its leading
digits (`objectIds_increase_iff`).
-/
import Instinct.Core
import Instinct.Decimal
import Mathlib.Data.List.Nodup
import Mathlib.Data.Nat.Bitwise
import Mathlib.Tactic.IntervalCases
import Mathlib.Tactic.Linarith

namespace Instinct

open Decimal

/-! ### The generator -/

/-- The epoch of `details::generate_next_object_id`. -/
def twepoch : Int64 := 1534832906275

/-- `(1 << SEQUENCE_BITS) - 1`. -/
def sequenceMask : Int64 := 4095

structure SnowflakeIDGenerator where
  lastTimestamp : Int64 := -1
  workerId : Int64 := 0
  datacenterId : Int64 := 0
  sequence : Int64 := 0
  deriving DecidableEq

/-- `wait_next_millis`: the first reading above `last`, and the readings after it.
`none`: the readings end while it waits. -/
def waitNextMillis (last : Int64) : List Int64 → Option (Int64 × List Int64)
  | [] => none
  | timestamp :: readings =>
      if timestamp ≤ last then waitNextMillis last readings else some (timestamp, readings)

/-- The end of `NextID`: take over the time stamp and pack the fields. -/
def SnowflakeIDGenerator.issue (g : SnowflakeIDGenerator) (timestamp sequence : Int64) :
    Int64 × SnowflakeIDGenerator :=
  (((timestamp - twepoch) <<< 22) ||| (g.datacenterId <<< 17) ||| (g.workerId <<< 12) ||| sequence,
    { g with lastTimestamp := timestamp, sequence := sequence })

/-- `NextID`: the number, the generator after the call, and the readings that are left.
`none`: the call is still waiting when the readings end. -/
def SnowflakeIDGenerator.nextID (g : SnowflakeIDGenerator) :
    List Int64 → Option (Int64 × SnowflakeIDGenerator × List Int64)
  | [] => none
  | timestamp :: readings =>
      if g.lastTimestamp = timestamp then
        let sequence := (g.sequence + 1) &&& sequenceMask
        if sequence = 0 then
          (waitNextMillis g.lastTimestamp readings).map fun next =>
            let (id, g') := g.issue next.1 sequence
            (id, g', next.2)
        else
          let (id, g') := g.issue timestamp sequence
          some (id, g', readings)
      else
        let (id, g') := g.issue timestamp 0
        some (id, g', readings)

/-- The numbers of some calls, one after the other, as long as the readings last. -/
def nextIDs : Nat → SnowflakeIDGenerator → List Int64 → List Int64
  | 0, _, _ => []
  | calls + 1, g, readings =>
      match g.nextID readings with
      | none => []
      | some (id, g', rest) => id :: nextIDs calls g' rest

/-- The ids that `generate_next_object_id` returns, one call after the other.  A call takes
a reading at least, so there are at most as many calls as readings. -/
def objectIds (kind : String) (readings : List Int64) : List String :=
  (nextIDs readings.length {} readings).map fun id =>
    generateNextObjectId kind id.toNatClampNeg

/-! ### The packed number -/

/-- The milliseconds since the epoch. -/
def elapsed (timestamp : Int64) : Nat := (timestamp - twepoch).toNatClampNeg

/-- The number of the `i`-th id of a millisecond, from 0 on. -/
def stampNumber (stamp : Int64 × Nat) : Nat := elapsed stamp.1 * 2 ^ 22 + stamp.2

/-- The readings lie after the epoch, their ids fit into 63 bits. -/
def InRange (timestamp : Int64) : Prop :=
  twepoch.toInt < timestamp.toInt ∧ timestamp.toInt - twepoch.toInt < 2 ^ 41

instance (timestamp : Int64) : Decidable (InRange timestamp) :=
  inferInstanceAs (Decidable (_ ∧ _))

-- the readings of the list are checked, not all 64-bit numbers
instance (readings : List Int64) : Decidable (∀ t ∈ readings, InRange t) :=
  List.decidableBAll (fun t => InRange t) readings

theorem toInt_sub_twepoch {timestamp : Int64} (h : InRange timestamp) :
    (timestamp - twepoch).toInt = timestamp.toInt - twepoch.toInt := by
  obtain ⟨hlow, hhigh⟩ := h
  rw [Int64.toInt_sub]
  refine Int.bmod_eq_of_le ?_ ?_ <;> omega

theorem elapsed_eq {timestamp : Int64} (h : InRange timestamp) :
    elapsed timestamp = (timestamp.toInt - twepoch.toInt).toNat := by
  show (timestamp - twepoch).toInt.toNat = _
  rw [toInt_sub_twepoch h]

theorem elapsed_pos {timestamp : Int64} (h : InRange timestamp) : 0 < elapsed timestamp := by
  rw [elapsed_eq h]
  have := h.1
  omega

theorem elapsed_lt_iff {t t' : Int64} (h : InRange t) (h' : InRange t') :
    elapsed t < elapsed t' ↔ t < t' := by
  rw [elapsed_eq h, elapsed_eq h', Int64.lt_iff_toInt_lt]
  have := h.1
  have := h'.1
  omega

theorem toNat_of_nonneg {x : Int64} (h : 0 ≤ x.toInt) : x.toBitVec.toNat = x.toInt.toNat := by
  have hx : x.toInt = x.toBitVec.toInt := rfl
  rw [hx, BitVec.toInt_eq_toNat_cond] at h ⊢
  have := x.toBitVec.isLt
  split at h
  · rename_i hlow
    rw [if_pos hlow]
    omega
  · omega

/-- The counter of the sequence wraps at 4096. -/
theorem succ_and_sequenceMask (sequence : Nat) :
    (Int64.ofNat sequence + 1) &&& sequenceMask = Int64.ofNat ((sequence + 1) % 4096) := by
  apply Int64.toBitVec_inj.mp
  apply BitVec.eq_of_toNat_eq
  have hmask : sequenceMask.toBitVec.toNat = 2 ^ 12 - 1 := by decide
  simp only [Int64.toBitVec_and, BitVec.toNat_and, hmask, Nat.and_two_pow_sub_one_eq_mod,
    Int64.toBitVec_add]
  simp
  omega

theorem ofNat_eq_zero_iff {sequence : Nat} (h : sequence < 4096) :
    Int64.ofNat sequence = 0 ↔ sequence = 0 := by
  constructor
  · intro hzero
    have hbits := congrArg (fun x : Int64 => x.toBitVec.toNat) hzero
    simp at hbits
    omega
  · rintro rfl
    rfl

/-- The fields do not overlap, so that packing them adds them up. -/
theorem packed_eq {x : Int64} {sequence : Nat} (hsequence : sequence < 4096) (hlow : 0 ≤ x.toInt)
    (hhigh : x.toInt < 2 ^ 41) :
    ((x <<< 22) ||| ((0 : Int64) <<< 17) ||| ((0 : Int64) <<< 12)
      ||| Int64.ofNat sequence).toNatClampNeg = x.toInt.toNat * 2 ^ 22 + sequence := by
  have hbits : ((x <<< 22) ||| ((0 : Int64) <<< 17) ||| ((0 : Int64) <<< 12)
      ||| Int64.ofNat sequence).toBitVec.toNat = x.toInt.toNat * 2 ^ 22 + sequence := by
    have hshift : (22 : Int64).toBitVec.smod 64 = 22#64 := by decide
    have hdatacenter : (0 : Int64).toBitVec <<< (17 : Int64).toBitVec.smod 64 = 0#64 := by decide
    have hworker : (0 : Int64).toBitVec <<< (12 : Int64).toBitVec.smod 64 = 0#64 := by decide
    have hcounter : (Int64.ofNat sequence).toBitVec.toNat = sequence := by
      simp
      omega
    have htime : (x.toBitVec <<< 22#64).toNat = x.toInt.toNat <<< 22 := by
      rw [BitVec.shiftLeft_eq', BitVec.toNat_shiftLeft, toNat_of_nonneg hlow, Nat.shiftLeft_eq,
        Nat.shiftLeft_eq]
      show x.toInt.toNat * 2 ^ 22 % 2 ^ 64 = x.toInt.toNat * 2 ^ 22
      omega
    simp only [Int64.toBitVec_or, Int64.toBitVec_shiftLeft, BitVec.toNat_or, hshift]
    rw [hdatacenter, hworker, hcounter, htime]
    simp only [BitVec.toNat_ofNat, Nat.zero_mod, Nat.or_zero]
    rw [← Nat.shiftLeft_add_eq_or_of_lt (by omega), Nat.shiftLeft_eq]
  show (BitVec.toInt _).toNat = _
  rw [BitVec.toInt_eq_toNat_cond, if_pos (by rw [hbits]; omega), hbits]
  rfl

/-! ### Reading by reading -/

/-- What each reading gives, after a number with time stamp `last` and counter `sequence`.
A reading that repeats a millisecond whose numbers are used up gives none. -/
def stamps (last : Int64) (sequence : Nat) : List Int64 → List (Int64 × Nat)
  | [] => []
  | timestamp :: readings =>
      if timestamp = last then
        if sequence + 1 < 4096 then
          (timestamp, sequence + 1) :: stamps last (sequence + 1) readings
        else stamps last sequence readings
      else (timestamp, 0) :: stamps timestamp 0 readings

/-- The generator after a number with time stamp `last` and counter `sequence`. -/
def generatorAt (last : Int64) (sequence : Nat) : SnowflakeIDGenerator :=
  { lastTimestamp := last, sequence := Int64.ofNat sequence }

theorem issue_number {last timestamp : Int64} {sequence sequence' : Nat} (h : sequence' < 4096)
    (hrange : InRange timestamp) :
    ((generatorAt last sequence).issue timestamp (Int64.ofNat sequence')).1.toNatClampNeg
      = stampNumber (timestamp, sequence') := by
  have hsub := toInt_sub_twepoch hrange
  obtain ⟨hlow, hhigh⟩ := hrange
  exact packed_eq h (by omega) (by omega)

section Readings

variable {last : Int64} {sequence : Nat} {readings : List Int64}

/-- The wait skips the readings that give no number. -/
theorem stamps_of_wait (hlast : ∀ t ∈ readings, last ≤ t) (hfull : 4096 ≤ sequence + 1) :
    match waitNextMillis last readings with
    | none => stamps last sequence readings = []
    | some (t, rest) => t ≠ last ∧ stamps last sequence readings = (t, 0) :: stamps t 0 rest ∧
        (t :: rest).Sublist readings := by
  induction readings with
  | nil => rfl
  | cons t readings ih =>
      have ht : last ≤ t := hlast t List.mem_cons_self
      by_cases hle : t ≤ last
      · have heq : t = last := Int64.le_antisymm hle ht
        have hrest := ih fun t ht => hlast t (List.mem_cons_of_mem _ ht)
        simp only [waitNextMillis, stamps, if_pos hle, if_pos heq, if_neg (not_lt.mpr hfull)]
        rcases hwait : waitNextMillis last readings with - | ⟨t', rest⟩
        · rw [hwait] at hrest
          exact hrest
        · rw [hwait] at hrest
          exact ⟨hrest.1, hrest.2.1, hrest.2.2.cons t⟩
      · have hne : t ≠ last := fun h => hle (h ▸ Int64.le_refl t)
        simp only [waitNextMillis, stamps, if_neg hle, if_neg hne]
        exact ⟨hne, trivial, List.Sublist.refl _⟩

/-- A call in the millisecond of the last one. -/
theorem nextID_same : (generatorAt last sequence).nextID (last :: readings) =
    if (Int64.ofNat sequence + 1) &&& sequenceMask = 0 then
      (waitNextMillis last readings).map fun next =>
        (((generatorAt last sequence).issue next.1
          ((Int64.ofNat sequence + 1) &&& sequenceMask)).1,
          ((generatorAt last sequence).issue next.1
          ((Int64.ofNat sequence + 1) &&& sequenceMask)).2, next.2)
    else some (((generatorAt last sequence).issue last
      ((Int64.ofNat sequence + 1) &&& sequenceMask)).1,
      ((generatorAt last sequence).issue last
      ((Int64.ofNat sequence + 1) &&& sequenceMask)).2, readings) := if_pos rfl

/-- One call: it gives the number of the first stamp, and what is left gives the others. -/
theorem nextID_eq (hsequence : sequence < 4096) (hlast : ∀ t ∈ readings, last ≤ t)
    (hrange : ∀ t ∈ readings, InRange t) :
    match (generatorAt last sequence).nextID readings with
    | none => stamps last sequence readings = []
    | some (id, g, rest) => ∃ t i, id.toNatClampNeg = stampNumber (t, i) ∧ i < 4096 ∧
        g = generatorAt t i ∧ stamps last sequence readings = (t, i) :: stamps t i rest ∧
        (t :: rest).Sublist readings := by
  cases readings with
  | nil => rfl
  | cons t readings =>
      have ht := hrange t List.mem_cons_self
      by_cases heq : last = t
      · subst heq
        have hnext := succ_and_sequenceMask sequence
        by_cases hfull : sequence + 1 < 4096
        · -- the next number of the same millisecond
          have hne : ¬ Int64.ofNat ((sequence + 1) % 4096) = 0 := by
            rw [ofNat_eq_zero_iff (Nat.mod_lt _ (by decide)), Nat.mod_eq_of_lt hfull]
            exact Nat.succ_ne_zero sequence
          have hcall : (generatorAt last sequence).nextID (last :: readings)
              = some (((generatorAt last sequence).issue last (Int64.ofNat (sequence + 1))).1,
                  generatorAt last (sequence + 1), readings) := by
            rw [nextID_same, hnext, if_neg hne, Nat.mod_eq_of_lt hfull]
            rfl
          rw [hcall]
          refine ⟨last, sequence + 1, issue_number hfull ht, hfull, rfl, ?_, List.Sublist.refl _⟩
          simp only [stamps, if_pos, if_pos hfull]
        · -- the counter wraps, the call waits for the next millisecond
          have hzero : (sequence + 1) % 4096 = 0 := by omega
          have hrest := @stamps_of_wait last sequence readings
            (fun t ht => hlast t (List.mem_cons_of_mem _ ht)) (not_lt.mp hfull)
          have hsame : stamps last sequence (last :: readings) = stamps last sequence readings := by
            simp only [stamps, if_pos, if_neg hfull]
          have hcall : (generatorAt last sequence).nextID (last :: readings)
              = (waitNextMillis last readings).map fun next =>
                (((generatorAt last sequence).issue next.1 (Int64.ofNat 0)).1,
                  generatorAt next.1 0, next.2) := by
            rw [nextID_same, hnext, hzero]
            rfl
          rw [hsame, hcall]
          rcases hwait : waitNextMillis last readings with - | ⟨t', rest⟩
          · rw [hwait] at hrest
            exact hrest
          · rw [hwait] at hrest
            obtain ⟨-, hstamps, hsub⟩ := hrest
            have hmem : t' ∈ readings := hsub.subset List.mem_cons_self
            exact ⟨t', 0, issue_number (by decide) (hrange t' (List.mem_cons_of_mem _ hmem)),
              by decide, rfl, hstamps, hsub.cons last⟩
      · -- a later millisecond starts with the number 0
        have hcall : (generatorAt last sequence).nextID (t :: readings)
            = some (((generatorAt last sequence).issue t (Int64.ofNat 0)).1,
                generatorAt t 0, readings) := if_neg heq
        rw [hcall]
        refine ⟨t, 0, issue_number (by decide) ht, by decide, rfl, ?_, List.Sublist.refl _⟩
        simp only [stamps, if_neg (Ne.symm heq)]

/-- **The calls, reading by reading.**  Enough calls give the numbers of all stamps. -/
theorem nextIDs_eq_stamps {calls : Nat} (hcalls : readings.length ≤ calls)
    (hsequence : sequence < 4096) (hlast : ∀ t ∈ readings, last ≤ t)
    (hsorted : readings.Pairwise (· ≤ ·)) (hrange : ∀ t ∈ readings, InRange t) :
    (nextIDs calls (generatorAt last sequence) readings).map Int64.toNatClampNeg
      = (stamps last sequence readings).map stampNumber := by
  induction calls generalizing last sequence readings with
  | zero =>
      obtain rfl : readings = [] := List.eq_nil_of_length_eq_zero (by omega)
      rfl
  | succ calls ih =>
      -- one call consumes some readings and issues one stamp
      have hnext := nextID_eq hsequence hlast hrange
      rw [nextIDs]
      rcases hcall : (generatorAt last sequence).nextID readings with - | ⟨id, g, rest⟩
      · rw [hcall] at hnext
        rw [hnext]
        rfl
      · rw [hcall] at hnext
        obtain ⟨t, i, hid, hi, rfl, hstamps, hsub⟩ := hnext
        have hsorted' := List.pairwise_cons.mp (hsorted.sublist hsub)
        have hlen := hsub.length_le
        rw [hstamps, List.map_cons, List.map_cons, hid,
          ih (by simp at hlen; omega) hi hsorted'.1 hsorted'.2
            fun t ht => hrange t (hsub.subset (List.mem_cons_of_mem _ ht))]

/-! ### Which numbers there are, and in what order -/

/-- A stamp is a reading with a counter below the times the reading occurs. -/
theorem mem_stamps (hsequence : sequence < 4096) (hlast : ∀ t ∈ readings, last ≤ t)
    (hsorted : readings.Pairwise (· ≤ ·)) {t : Int64} {i : Nat} :
    (t, i) ∈ stamps last sequence readings ↔
      if t = last then sequence < i ∧ i < min (sequence + 1 + readings.count last) 4096
      else i < min (readings.count t) 4096 := by
  induction readings generalizing last sequence with
  | nil =>
      simp only [stamps, List.not_mem_nil, List.count_nil, false_iff]
      split <;> omega
  | cons r readings ih =>
      obtain ⟨hr, hsorted'⟩ := List.pairwise_cons.mp hsorted
      by_cases heq : r = last
      · subst heq
        have hcount : (r :: readings).count t
            = readings.count t + if r = t then 1 else 0 := by
          rw [List.count_cons]
          simp
        by_cases hfull : sequence + 1 < 4096
        · simp only [stamps, if_pos, if_pos hfull, List.mem_cons, Prod.mk.injEq,
            ih hfull hr hsorted', List.count_cons_self]
          by_cases ht : t = r
          · simp only [ht, if_pos, true_and]
            omega
          · simp only [if_neg ht, hcount, if_neg (Ne.symm ht)]
            simp [ht]
        · simp only [stamps, if_pos, if_neg hfull, ih hsequence hr hsorted', List.count_cons_self]
          by_cases ht : t = r
          · simp only [if_pos ht]
            omega
          · simp only [if_neg ht, hcount, if_neg (Ne.symm ht)]
            simp
      · -- a later millisecond: no reading repeats `last`
        have hlt : last < r :=
          Int64.lt_of_le_of_ne (hlast r List.mem_cons_self) fun h => heq h.symm
        have hnone : (r :: readings).count last = 0 := by
          refine List.count_eq_zero.mpr fun hmem => ?_
          rcases List.mem_cons.mp hmem with hmem | hmem
          · exact heq hmem.symm
          · exact absurd (hr last hmem) (Int64.not_le.mpr hlt)
        simp only [stamps, if_neg heq, List.mem_cons, Prod.mk.injEq,
          ih (by decide : 0 < 4096) hr hsorted', hnone]
        by_cases ht : t = r
        · subst ht
          rw [if_pos rfl, if_neg heq, List.count_cons_self]
          simp only [true_and]
          omega
        · have hcount : (r :: readings).count t = readings.count t := by
            rw [List.count_cons]
            simp [Ne.symm ht]
          simp only [if_neg ht, hcount]
          by_cases hlast : t = last
          · subst hlast
            have := hcount ▸ hnone
            simp only [if_pos, this, ht, false_and, false_or]
            omega
          · simp [if_neg hlast, ht]

theorem stampNumber_zero (t : Int64) : stampNumber (t, 0) = elapsed t * 2 ^ 22 := Nat.add_zero _

theorem stampNumber_lt {t t' : Int64} {i j : Nat} (h : InRange t) (h' : InRange t') (hlt : t < t')
    (hi : i < 4096) : stampNumber (t, i) < stampNumber (t', j) := by
  have hdistance := (elapsed_lt_iff h h').mpr hlt
  show elapsed t * 2 ^ 22 + i < elapsed t' * 2 ^ 22 + j
  omega

/-- A stamp comes after the one before its readings. -/
theorem stampNumber_lt_of_mem (hsequence : sequence < 4096) (hlast : ∀ t ∈ readings, last ≤ t)
    (hsorted : readings.Pairwise (· ≤ ·)) (hbefore : InRange last)
    (hrange : ∀ t ∈ readings, InRange t) {stamp : Int64 × Nat}
    (h : stamp ∈ stamps last sequence readings) :
    stampNumber (last, sequence) < stampNumber stamp := by
  obtain ⟨t, i⟩ := stamp
  have hmem := (mem_stamps hsequence hlast hsorted).mp h
  by_cases ht : t = last
  · rw [if_pos ht] at hmem
    show elapsed last * 2 ^ 22 + sequence < elapsed t * 2 ^ 22 + i
    rw [ht]
    omega
  · rw [if_neg ht] at hmem
    have hin : t ∈ readings := List.count_pos_iff.mp (by omega)
    have hlt : last < t := Int64.lt_of_le_of_ne (hlast t hin) fun h => ht h.symm
    exact stampNumber_lt hbefore (hrange t hin) hlt hsequence

/-- The numbers increase. -/
theorem stamps_increase (hsequence : sequence < 4096) (hlast : ∀ t ∈ readings, last ≤ t)
    (hsorted : readings.Pairwise (· ≤ ·)) (hrange : ∀ t ∈ readings, InRange t) :
    ((stamps last sequence readings).map stampNumber).Pairwise (· < ·) := by
  induction readings generalizing last sequence with
  | nil => exact List.Pairwise.nil
  | cons r readings ih =>
      obtain ⟨hr, hsorted'⟩ := List.pairwise_cons.mp hsorted
      have hrange' := fun t ht => hrange t (List.mem_cons_of_mem r ht)
      -- a stamp of `r` comes before all that follow
      have hhead : ∀ i < 4096, ((r, i) :: stamps r i readings).map stampNumber
          |>.Pairwise (· < ·) := by
        intro i hi
        rw [List.map_cons, List.pairwise_cons]
        refine ⟨fun n hn => ?_, ih hi hr hsorted' hrange'⟩
        obtain ⟨stamp, hstamp, rfl⟩ := List.mem_map.mp hn
        exact stampNumber_lt_of_mem hi hr hsorted' (hrange r List.mem_cons_self) hrange' hstamp
      rw [stamps]
      by_cases heq : r = last
      · subst heq
        by_cases hfull : sequence + 1 < 4096
        · rw [if_pos rfl, if_pos hfull]
          exact hhead _ hfull
        · rw [if_pos rfl, if_neg hfull]
          exact ih hsequence hr hsorted' hrange'
      · rw [if_neg heq]
        exact hhead 0 (by decide)

end Readings

/-! ### The ids as texts -/

/-- The remainder of a power of ten decides on which side of it the numbers of a
millisecond lie. -/
theorem add_lt_of_mod {d i p : Nat} (hi : i < 4096) (hlt : d * 2 ^ 22 < p)
    (hmod : p % 2 ^ 22 = 0 ∨ 4096 ≤ p % 2 ^ 22) : d * 2 ^ 22 + i < p := by
  have hp := Nat.div_add_mod p (2 ^ 22)
  rcases hmod with hzero | hlarge
  · -- a multiple of `2 ^ 22` leaves room for all numbers of the millisecond
    have hquot : d + 1 ≤ p / 2 ^ 22 := by
      rw [Nat.succ_le_iff, Nat.lt_div_iff_mul_lt_of_dvd (by decide) (Nat.dvd_of_mod_eq_zero hzero)]
      exact hlt
    have hmul := Nat.mul_le_mul_left (2 ^ 22) hquot
    linarith
  · -- the remainder leaves room for them
    have hquot : d ≤ p / 2 ^ 22 := by
      rw [Nat.le_div_iff_mul_le (by decide)]
      exact Nat.le_of_lt hlt
    have hmul := Nat.mul_le_mul_left (2 ^ 22) hquot
    linarith

/-- No power of ten falls between the numbers of one millisecond. -/
theorem no_pow_between {d i k : Nat} (hd : 0 < d) (hi : i < 4096) (hlt : d * 2 ^ 22 < 10 ^ k) :
    d * 2 ^ 22 + i < 10 ^ k := by
  -- the first stamps have more than six digits
  have hseven : 7 ≤ k := by
    by_contra hsmall
    have hpow : 10 ^ k ≤ 10 ^ 6 := Nat.pow_le_pow_right (by decide) (by omega)
    have hfirst := Nat.mul_le_mul_right (2 ^ 22) hd
    linarith
  refine add_lt_of_mod hi hlt ?_
  by_cases hlarge : 12 ≤ k
  · -- 4096 divides the power, and so the remainder
    have hdvd : 2 ^ 12 ∣ 10 ^ k :=
      Dvd.dvd.trans (Dvd.intro 244140625 rfl) (Nat.pow_dvd_pow 10 hlarge)
    have hrest : 2 ^ 12 ∣ 10 ^ k % 2 ^ 22 :=
      (Nat.dvd_mod_iff (Nat.pow_dvd_pow 2 (by decide))).mpr hdvd
    rcases Nat.eq_zero_or_pos (10 ^ k % 2 ^ 22) with hzero | hpos
    · exact .inl hzero
    · exact .inr (Nat.le_of_dvd hpos hrest)
  · -- the remaining powers are checked one by one
    have hsmall : k < 12 := not_le.mp hlarge
    right
    interval_cases k <;> decide

theorem width_stampNumber {t : Int64} (h : InRange t) {i : Nat} (hi : i < 4096) :
    width (elapsed t * 2 ^ 22) = width (stampNumber (t, i)) :=
  width_eq_of_no_pow (Nat.le_add_right _ i) fun _ _ hlt => no_pow_between (elapsed_pos h) hi hlt

/-- Whenever a reading comes after another, the last number of the earlier one, filled up
with zeros to the digits of the later one, is not above the first number of the later one.
This is so in particular if all numbers have equally many digits. -/
def LeadingDigitsKeepUp (readings : List Int64) : Prop :=
  ∀ t ∈ readings, ∀ t' ∈ readings, t < t' →
    (elapsed t * 2 ^ 22 + (min (readings.count t) 4096 - 1))
      * 10 ^ (width (elapsed t' * 2 ^ 22) - width (elapsed t * 2 ^ 22)) ≤ elapsed t' * 2 ^ 22

instance (readings : List Int64) : Decidable (LeadingDigitsKeepUp readings) :=
  @List.decidableBAll _ _ (fun _ => @List.decidableBAll _ _ (fun _ => inferInstance) readings)
    readings

section ObjectIds

variable (kind : String) {readings : List Int64}

/-- The stamps of a fresh generator. -/
def firstStamps (readings : List Int64) : List (Int64 × Nat) := stamps (-1) 0 readings

theorem neg_one_lt {t : Int64} (h : InRange t) : (-1 : Int64) < t := by
  have hepoch : (-1 : Int64).toInt < twepoch.toInt := by decide
  exact Int64.lt_iff_toInt_lt.mpr (hepoch.trans h.1)

theorem mem_firstStamps (hsorted : readings.Pairwise (· ≤ ·)) (hrange : ∀ t ∈ readings, InRange t)
    {t : Int64} {i : Nat} : (t, i) ∈ firstStamps readings ↔ i < min (readings.count t) 4096 := by
  have hlast : ∀ t ∈ readings, -1 ≤ t := fun t ht => Int64.le_of_lt (neg_one_lt (hrange t ht))
  rw [firstStamps, mem_stamps (by decide) hlast hsorted]
  split
  · rename_i ht
    subst ht
    have hnone : readings.count (-1) = 0 := List.count_eq_zero.mpr fun hmem =>
      absurd (neg_one_lt (hrange _ hmem)) (by decide)
    omega
  · rfl

/-- The ids are the texts of the stamps. -/
theorem objectIds_eq (hsorted : readings.Pairwise (· ≤ ·)) (hrange : ∀ t ∈ readings, InRange t) :
    objectIds kind readings
      = ((firstStamps readings).map stampNumber).map (generateNextObjectId kind) := by
  have hstamps := nextIDs_eq_stamps (Nat.le_refl readings.length) (by decide : 0 < 4096)
    (fun t ht => Int64.le_of_lt (neg_one_lt (hrange t ht))) hsorted hrange
  rw [firstStamps, ← hstamps, List.map_map]
  rfl

theorem firstStamps_increase (hsorted : readings.Pairwise (· ≤ ·))
    (hrange : ∀ t ∈ readings, InRange t) :
    ((firstStamps readings).map stampNumber).Pairwise (· < ·) :=
  stamps_increase (by decide) (fun t ht => Int64.le_of_lt (neg_one_lt (hrange t ht))) hsorted hrange

theorem generateNextObjectId_injective : Function.Injective (generateNextObjectId kind) := by
  intro n m h
  have hdigits := (String.append_right_inj (kind ++ "_")).mp h
  rw [← String.toList_inj, Nat.toString_eq_repr, Nat.toString_eq_repr, Nat.toList_repr,
    Nat.toList_repr] at hdigits
  exact toDigits_injective hdigits

/-- The ids are distinct. -/
theorem objectIds_nodup (hsorted : readings.Pairwise (· ≤ ·))
    (hrange : ∀ t ∈ readings, InRange t) : (objectIds kind readings).Nodup := by
  rw [objectIds_eq kind hsorted hrange]
  refine List.Nodup.map (generateNextObjectId_injective kind) ?_
  exact (firstStamps_increase hsorted hrange).imp Nat.ne_of_lt

theorem lt_or_eq_or_gt (t t' : Int64) : t < t' ∨ t = t' ∨ t' < t := by
  by_cases heq : t = t'
  · exact .inr (.inl heq)
  · exact (Int64.lt_or_lt_of_ne heq).imp_right .inr

/-- What holds of every two entries of an increasing list holds of the smaller and the
larger one. -/
theorem pairwise_iff_of_increasing {R : Nat → Nat → Prop} {l : List Nat}
    (h : l.Pairwise (· < ·)) : l.Pairwise R ↔ ∀ n ∈ l, ∀ m ∈ l, n < m → R n m := by
  constructor
  · intro hR n hn m hm hlt
    have hboth := h.and hR
    refine (List.Pairwise.forall_of_forall_of_flip
      (R := fun n m => n < m → R n m) (fun n _ hlt => absurd hlt (Nat.lt_irrefl n)) ?_ ?_) hn hm hlt
    · exact hboth.imp fun hnm _ => hnm.2
    · exact hboth.imp fun hnm hlt => absurd hnm.1 (Nat.lt_asymm hlt)
  · intro hall
    exact h.imp_of_mem fun hn hm hlt => hall _ hn _ hm hlt

theorem idText_lt_iff {n m : Nat} (h : n < m) :
    generateNextObjectId kind n < generateNextObjectId kind m
      ↔ n * 10 ^ (width m - width n) ≤ m := append_toString_lt_iff (kind ++ "_") h

/-- **Ids in the order of their texts.**  For clock readings that never go back, lie after
the epoch and fit, the ids are distinct and increase as texts if and only if no number falls
behind in its leading digits. -/
theorem objectIds_increase_iff (hsorted : readings.Pairwise (· ≤ ·))
    (hrange : ∀ t ∈ readings, InRange t) :
    ((objectIds kind readings).Nodup ∧ (objectIds kind readings).Pairwise (· < ·))
      ↔ LeadingDigitsKeepUp readings := by
  have hincrease := firstStamps_increase hsorted hrange
  rw [and_iff_right (objectIds_nodup kind hsorted hrange), objectIds_eq kind hsorted hrange,
    List.pairwise_map, pairwise_iff_of_increasing hincrease]
  constructor
  · intro htexts t ht t' ht' hlt
    have hcount := List.count_pos_iff.mpr ht
    have hcount' := List.count_pos_iff.mpr ht'
    -- the last number of `t` against the first one of `t'`
    have hlast : (t, min (readings.count t) 4096 - 1) ∈ firstStamps readings :=
      (mem_firstStamps hsorted hrange).mpr (by omega)
    have hfirst : (t', 0) ∈ firstStamps readings :=
      (mem_firstStamps hsorted hrange).mpr (by omega)
    have hnumbers := stampNumber_lt (j := 0) (hrange t ht) (hrange t' ht') hlt
      (show min (readings.count t) 4096 - 1 < 4096 by omega)
    have htext := htexts _ (List.mem_map_of_mem hlast) _ (List.mem_map_of_mem hfirst) hnumbers
    rw [idText_lt_iff kind hnumbers, stampNumber_zero,
      ← width_stampNumber (hrange t ht) (i := min (readings.count t) 4096 - 1) (by omega)] at htext
    exact htext
  · rintro hkeep n hn m hm hlt
    obtain ⟨⟨t, i⟩, hstamp, rfl⟩ := List.mem_map.mp hn
    obtain ⟨⟨t', j⟩, hstamp', rfl⟩ := List.mem_map.mp hm
    have hi := (mem_firstStamps hsorted hrange).mp hstamp
    have hj := (mem_firstStamps hsorted hrange).mp hstamp'
    have ht : t ∈ readings := List.count_pos_iff.mp (by omega)
    have ht' : t' ∈ readings := List.count_pos_iff.mp (by omega)
    rw [idText_lt_iff kind hlt, ← width_stampNumber (hrange t ht) (by omega),
      ← width_stampNumber (hrange t' ht') (by omega)]
    rcases lt_or_eq_or_gt t t' with hbefore | rfl | hafter
    · -- a later millisecond: its first number is the tightest
      refine le_trans (Nat.mul_le_mul_right _ ?_) ((hkeep t ht t' ht' hbefore).trans ?_)
      · show elapsed t * 2 ^ 22 + i ≤ _
        omega
      · exact Nat.le_add_right _ j
    · rw [Nat.sub_self, Nat.pow_zero, Nat.mul_one]
      exact Nat.le_of_lt hlt
    · have hback := stampNumber_lt (j := i) (hrange t' ht') (hrange t ht) hafter
        (show j < 4096 by omega)
      omega

end ObjectIds

/-- Two calls in one millisecond and one in a later millisecond: the ids increase. -/
theorem objectIds_increase_three :
    (objectIds "run" [1717000000000, 1717000000000, 1717000000001]).Nodup ∧
      (objectIds "run" [1717000000000, 1717000000000, 1717000000001]).Pairwise (· < ·) :=
  (objectIds_increase_iff "run" (by decide) (by decide)).mpr (by decide)

/-- In March 2026 the numbers get their nineteenth digit, and ids fall behind. -/
theorem objectIds_fall_behind :
    ¬ ∀ kind readings, readings.Pairwise (· ≤ ·) → (∀ t ∈ readings, InRange t) →
      (objectIds kind readings).Nodup ∧ (objectIds kind readings).Pairwise (· < ·) := by
  intro h
  have hids := (h "run" [1773251485376, 1773251485377] (by decide) (by decide)).2
  revert hids
  decide

end Instinct
