import AsioChat.Lib.LittleEndian
import Mathlib.Logic.Function.Iterate

/-!
# Reflected Cyclic Redundancy Checks

The bitwise definition of a reflected CRC of any width over a byte stream: the
register is shifted right one bit at a time, the polynomial (in reflected bit order)
is added whenever a one falls out, and a byte enters through the low end of the
register. Initial and final values are left to the user, so that a register can be
fed in pieces (`fold_append`).

A shift is linear, and it loses nothing if the polynomial has a constant term, which is the
top bit of the reflected order. So the register after some bytes determines the register
before them; and as many bytes as the register is wide are determined by the registers
before and after them.

## Main results

* `shift_xor`, `shift_injective`: a shift is linear and injective.
* `fold_injective`: what is folded in does not merge two registers.
* `fold_eq_iterate_shift`: bytes that fit into the register may be added to it all at once.
* `eq_of_fold_eq`: a register detects every change of as many consecutive bytes as it is
  wide.
-/

namespace Crc

variable {w : ℕ}

/-- One bit out of the register: shift right, and add the polynomial if a one fell
out. -/
def shift (poly r : BitVec w) : BitVec w :=
  if r.getLsbD 0 then (r >>> 1) ^^^ poly else r >>> 1

/-- One byte into the register, low bit first. -/
def byte (poly r : BitVec w) (b : UInt8) : BitVec w :=
  (shift poly)^[8] (r ^^^ b.toBitVec.setWidth w)

/-- A byte list into the register, in order. -/
def fold (poly r : BitVec w) (bs : List UInt8) : BitVec w :=
  bs.foldl (byte poly) r

/-- Bytes may be fed in pieces: the register carries over. -/
theorem fold_append (poly r : BitVec w) (as bs : List UInt8) :
    fold poly r (as ++ bs) = fold poly (fold poly r as) bs :=
  List.foldl_append

/-! ### A shift is linear and injective -/

/-- A shift is linear. -/
theorem shift_xor (poly x y : BitVec w) :
    shift poly (x ^^^ y) = shift poly x ^^^ shift poly y := by
  have hcancel : x >>> 1 ^^^ y >>> 1 = (x >>> 1 ^^^ poly) ^^^ (y >>> 1 ^^^ poly) := by
    rw [BitVec.xor_comm (y >>> 1) poly, BitVec.xor_assoc, ← BitVec.xor_assoc poly poly,
      BitVec.xor_self, BitVec.zero_xor]
  simp only [shift, BitVec.getLsbD_xor, BitVec.ushiftRight_xor_distrib]
  cases x.getLsbD 0 <;> cases y.getLsbD 0
  · rfl
  · exact BitVec.xor_assoc _ _ _
  · show x >>> 1 ^^^ y >>> 1 ^^^ poly = x >>> 1 ^^^ poly ^^^ y >>> 1
    rw [BitVec.xor_assoc, BitVec.xor_assoc, BitVec.xor_comm poly]
  · exact hcancel

/-- Shifts are linear. -/
theorem iterate_shift_xor (poly : BitVec w) (n : ℕ) (x y : BitVec w) :
    (shift poly)^[n] (x ^^^ y) = (shift poly)^[n] x ^^^ (shift poly)^[n] y := by
  induction n generalizing x y with
  | zero => rfl
  | succ n ih => simp only [Function.iterate_succ_apply, shift_xor, ih]

/-- Only zero is shifted to zero, if the polynomial has a constant term. -/
theorem eq_zero_of_shift_eq_zero {poly x : BitVec w} (hpoly : poly.msb = true)
    (h : shift poly x = 0#w) : x = 0#w := by
  rw [shift] at h
  split at h
  · -- the top bit of the sum is that of the polynomial
    have htop := congrArg BitVec.msb h
    rw [BitVec.msb_xor, BitVec.msb_ushiftRight, hpoly] at htop
    simp at htop
  · rename_i hlow
    refine BitVec.eq_of_getLsbD_eq fun i _ => ?_
    rw [BitVec.getLsbD_zero]
    cases i with
    | zero => exact Bool.eq_false_iff.mpr hlow
    | succ i =>
        have hbit := congrArg (fun r => r.getLsbD i) h
        simpa only [BitVec.getLsbD_ushiftRight, BitVec.getLsbD_zero, Nat.add_comm 1 i] using hbit

/-- **A shift merges no two registers**, if the polynomial has a constant term. -/
theorem shift_injective {poly : BitVec w} (hpoly : poly.msb = true) :
    Function.Injective (shift poly) := by
  intro x y h
  have hzero : shift poly (x ^^^ y) = 0#w := by rw [shift_xor, h, BitVec.xor_self]
  exact BitVec.xor_eq_zero_iff.mp (eq_zero_of_shift_eq_zero hpoly hzero)

/-- **Folding bytes in merges no two registers.** -/
theorem fold_injective {poly : BitVec w} (hpoly : poly.msb = true) (bs : List UInt8) :
    Function.Injective (fold poly · bs) := by
  induction bs with
  | nil => exact Function.injective_id
  | cons b bs ih =>
      intro r r' h
      have hbyte : byte poly r b = byte poly r' b := ih h
      exact (BitVec.xor_left_inj _).mp ((shift_injective hpoly).iterate 8 hbyte)

/-! ### Bytes that fit into the register -/

/-- Shifts of a register whose low bits are zero only move the others down. -/
theorem iterate_shift_ofNat (poly : BitVec w) {n m : ℕ} (h : m * 2 ^ n < 2 ^ w) :
    (shift poly)^[n] (BitVec.ofNat w (m * 2 ^ n)) = BitVec.ofNat w m := by
  induction n with
  | zero => rw [Function.iterate_zero, id_eq, Nat.pow_zero, Nat.mul_one]
  | succ n ih =>
      have hpow : m * 2 ^ (n + 1) = m * 2 ^ n * 2 := by rw [Nat.pow_succ, Nat.mul_assoc]
      rw [hpow] at h ⊢
      have hlow : (BitVec.ofNat w (m * 2 ^ n * 2)).getLsbD 0 = false := by
        simp [BitVec.getLsbD_ofNat]
      have hdown : BitVec.ofNat w (m * 2 ^ n * 2) >>> 1 = BitVec.ofNat w (m * 2 ^ n) := by
        apply BitVec.eq_of_toNat_eq
        rw [BitVec.toNat_ushiftRight, BitVec.toNat_ofNat, BitVec.toNat_ofNat, Nat.mod_eq_of_lt h,
          Nat.mod_eq_of_lt (by omega), Nat.shiftRight_eq_div_pow]
        omega
      rw [Function.iterate_succ_apply, shift, hlow, hdown]
      exact ih (by omega)

/-- The first byte and the others, side by side in the register. -/
theorem ofNat_value_cons (b : UInt8) (bs : List UInt8) :
    BitVec.ofNat w (LittleEndian.value (b :: bs)) =
      b.toBitVec.setWidth w ^^^ BitVec.ofNat w (LittleEndian.value bs * 2 ^ 8) := by
  have hb : b.toNat < 2 ^ 8 := b.toNat_lt
  apply BitVec.eq_of_getLsbD_eq
  intro i hi
  have hsum : LittleEndian.value (b :: bs) = 2 ^ 8 * LittleEndian.value bs + b.toNat := by
    rw [LittleEndian.value_cons]
    omega
  rw [BitVec.getLsbD_xor, BitVec.getLsbD_ofNat, BitVec.getLsbD_ofNat, BitVec.getLsbD_setWidth,
    decide_eq_true hi, hsum, Nat.testBit_two_pow_mul_add _ hb, Nat.testBit_mul_two_pow]
  simp only [Bool.true_and]
  by_cases hlow : i < 8
  · rw [if_pos hlow, decide_eq_false (by omega : ¬ 8 ≤ i), Bool.false_and, Bool.xor_false]
    rfl
  · rw [if_neg hlow, decide_eq_true (by omega : 8 ≤ i), BitVec.getLsbD_of_ge _ _ (by omega),
      Bool.true_and, Bool.false_xor]

/-- **Bytes that fit into the register may be added to it all at once**, and shifted out
together. -/
theorem fold_eq_iterate_shift (poly r : BitVec w) {bs : List UInt8} (h : 8 * bs.length ≤ w) :
    fold poly r bs =
      (shift poly)^[8 * bs.length] (r ^^^ BitVec.ofNat w (LittleEndian.value bs)) := by
  induction bs generalizing r with
  | nil => simp [fold]
  | cons b bs ih =>
      rw [List.length_cons] at h
      have hvalue : LittleEndian.value bs * 2 ^ 8 < 2 ^ w := by
        have hlt := LittleEndian.value_lt bs
        rw [show (256 : ℕ) = 2 ^ 8 from rfl, ← Nat.pow_mul] at hlt
        calc LittleEndian.value bs * 2 ^ 8
            < 2 ^ (8 * bs.length) * 2 ^ 8 := Nat.mul_lt_mul_of_pos_right hlt (Nat.two_pow_pos 8)
          _ = 2 ^ (8 * (bs.length + 1)) := by rw [← Nat.pow_add]; rfl
          _ ≤ 2 ^ w := Nat.pow_le_pow_right (by decide) h
      have hfirst : byte poly r b ^^^ BitVec.ofNat w (LittleEndian.value bs) =
          (shift poly)^[8] (r ^^^ BitVec.ofNat w (LittleEndian.value (b :: bs))) := by
        rw [byte, ← iterate_shift_ofNat poly hvalue, ← iterate_shift_xor, ofNat_value_cons,
          BitVec.xor_assoc]
      calc fold poly r (b :: bs)
          = (shift poly)^[8 * bs.length]
              (byte poly r b ^^^ BitVec.ofNat w (LittleEndian.value bs)) :=
            ih (byte poly r b) (by omega)
        _ = (shift poly)^[8 * (b :: bs).length]
              (r ^^^ BitVec.ofNat w (LittleEndian.value (b :: bs))) := by
            rw [hfirst, ← Function.iterate_add_apply, List.length_cons, Nat.mul_succ]

/-- **A register detects every change of as many consecutive bytes as it is wide**, in any
surroundings. -/
theorem eq_of_fold_eq {poly r : BitVec w} (hpoly : poly.msb = true) {as bs bs' cs : List UInt8}
    (hlen : bs.length = bs'.length) (hfit : 8 * bs.length ≤ w)
    (h : fold poly r (as ++ bs ++ cs) = fold poly r (as ++ bs' ++ cs)) : bs = bs' := by
  simp only [fold_append] at h
  have hmid : fold poly (fold poly r as) bs = fold poly (fold poly r as) bs' :=
    fold_injective hpoly cs h
  have hfit' : 8 * bs'.length ≤ w := by rwa [← hlen]
  rw [fold_eq_iterate_shift poly (fold poly r as) hfit,
    fold_eq_iterate_shift poly (fold poly r as) hfit', ← hlen] at hmid
  have hvalue := (BitVec.xor_right_inj _).mp ((shift_injective hpoly).iterate _ hmid)
  have hlt : ∀ l : List UInt8, 8 * l.length ≤ w → LittleEndian.value l < 2 ^ w := by
    intro l hl
    refine Nat.lt_of_lt_of_le (LittleEndian.value_lt l) ?_
    rw [show (256 : ℕ) = 2 ^ 8 from rfl, ← Nat.pow_mul]
    exact Nat.pow_le_pow_right (by decide) hl
  have hnat := congrArg BitVec.toNat hvalue
  rw [BitVec.toNat_ofNat, BitVec.toNat_ofNat, Nat.mod_eq_of_lt (hlt bs hfit),
    Nat.mod_eq_of_lt (hlt bs' hfit')] at hnat
  rw [← LittleEndian.bytes_value bs, ← LittleEndian.bytes_value bs', hnat, hlen]

end Crc
