import AsioChat.Lib.Crc
import Mathlib.Data.List.Iterate

/-!
# What a Cyclic Redundancy Check Detects

Bytes enter the register bit by bit, and a bit is added before a shift, so what is in the register
at the end is linear in all bits. Two byte lists of one length leave the same register if and only
if their difference, bit by bit, leaves nothing in a register that was empty (`fold_eq_iff`): what
a check detects depends on the damage alone, not on what is damaged.

A checksum that is sent behind its bytes is folded in with them. The register is then the same
for all lists with a right checksum (`fold_append_eq_iff`), so damage may also be in the
checksum, or partly in it.

## Main results

* `Burst.feed_ne_zero`: damage within as many consecutive bits as the register is wide is
  detected.
* `feed_ne_zero_of_count_le`: if no `k` shifts of a single bit add up to this bit, damage of at most
  `k + 1` bits is detected.
-/

namespace Crc

variable {w : ℕ}

/-! ### Bits -/

/-- The `n` low bits of a number, the lowest first. -/
def bits : ℕ → ℕ → List Bool
  | 0, _ => []
  | n + 1, v => v.testBit 0 :: bits n (v / 2)

/-- The bits of some bytes, in the order in which they enter the register. -/
def bitsOf (bs : List UInt8) : List Bool := bs.flatMap fun b => bits 8 b.toNat

/-- The number that some bits spell, the lowest first. -/
def valueOf : List Bool → ℕ
  | [] => 0
  | b :: bs => b.toNat + 2 * valueOf bs

/-- The number of bits. -/
@[simp] theorem length_bits (n v : ℕ) : (bits n v).length = n := by
  induction n generalizing v with
  | zero => rfl
  | succ n ih => rw [bits, List.length_cons, ih]

/-- So many bits make a number below that power of two. -/
theorem valueOf_lt (bs : List Bool) : valueOf bs < 2 ^ bs.length := by
  induction bs with
  | nil => exact Nat.one_pos
  | cons b bs ih =>
      have hb := b.toNat_lt
      rw [valueOf, List.length_cons, Nat.pow_succ]
      omega

/-- The bits of a number make the number. -/
theorem valueOf_bits {n v : ℕ} (h : v < 2 ^ n) : valueOf (bits n v) = v := by
  induction n generalizing v with
  | zero => exact (Nat.lt_one_iff.mp h).symm
  | succ n ih =>
      rw [Nat.pow_succ] at h
      have hlow : (v.testBit 0).toNat = v % 2 := by
        rw [Nat.testBit_zero]
        rcases Nat.mod_two_eq_zero_or_one v with hmod | hmod <;> simp [hmod]
      rw [bits, valueOf, ih (by omega), hlow]
      omega

/-- One bit into the register. -/
def bit (poly r : BitVec w) (b : Bool) : BitVec w :=
  shift poly (r ^^^ if b then 1#w else 0#w)

/-- Some bits into the register, in order. -/
def feed (poly r : BitVec w) (bs : List Bool) : BitVec w :=
  bs.foldl (bit poly) r

/-- Some bits are fed, and then some more. -/
theorem feed_append (poly r : BitVec w) (as bs : List Bool) :
    feed poly r (as ++ bs) = feed poly (feed poly r as) bs :=
  List.foldl_append

/-- Zeros only shift the register. -/
theorem feed_replicate_false (poly r : BitVec w) (n : ℕ) :
    feed poly r (List.replicate n false) = (shift poly)^[n] r := by
  induction n generalizing r with
  | zero => rfl
  | succ n ih =>
      have hzero : bit poly r false = shift poly r := congrArg (shift poly) BitVec.xor_zero
      rw [List.replicate_succ, feed, List.foldl_cons, ← feed, ih, hzero,
        Function.iterate_succ_apply]

/-- The first bit and the others, side by side in the register. -/
theorem ofNat_valueOf_cons (b : Bool) (bs : List Bool) :
    BitVec.ofNat w (valueOf (b :: bs)) =
      (if b then 1#w else 0#w) ^^^ BitVec.ofNat w (valueOf bs * 2 ^ 1) := by
  apply BitVec.eq_of_getLsbD_eq
  intro i hi
  have hb : b.toNat < 2 ^ 1 := b.toNat_lt
  have hsum : valueOf (b :: bs) = 2 ^ 1 * valueOf bs + b.toNat := by
    rw [valueOf]
    omega
  rw [BitVec.getLsbD_xor, BitVec.getLsbD_ofNat, BitVec.getLsbD_ofNat, decide_eq_true hi, hsum,
    Nat.testBit_two_pow_mul_add _ hb, Nat.testBit_mul_two_pow]
  cases i with
  | zero => cases b <;> simp [hi]
  | succ i => cases b <;> simp [hi]

/-- **Bits that fit into the register may be added to it all at once**, and shifted out
together. -/
theorem feed_eq_iterate_shift (poly r : BitVec w) {bs : List Bool} (h : bs.length ≤ w) :
    feed poly r bs = (shift poly)^[bs.length] (r ^^^ BitVec.ofNat w (valueOf bs)) := by
  induction bs generalizing r with
  | nil => exact (BitVec.xor_zero).symm
  | cons b bs ih =>
      rw [List.length_cons] at h
      have hfits : valueOf bs * 2 ^ 1 < 2 ^ w := by
        calc valueOf bs * 2 ^ 1
            < 2 ^ bs.length * 2 ^ 1 := Nat.mul_lt_mul_of_pos_right (valueOf_lt bs) (by decide)
          _ = 2 ^ (bs.length + 1) := (Nat.pow_add ..).symm
          _ ≤ 2 ^ w := Nat.pow_le_pow_right (by decide) h
      have hfirst : bit poly r b ^^^ BitVec.ofNat w (valueOf bs) =
          shift poly (r ^^^ BitVec.ofNat w (valueOf (b :: bs))) := by
        have hrest : shift poly (BitVec.ofNat w (valueOf bs * 2 ^ 1)) =
            BitVec.ofNat w (valueOf bs) :=
          iterate_shift_ofNat poly hfits
        rw [bit, ← hrest, ← shift_xor, ofNat_valueOf_cons, BitVec.xor_assoc]
      rw [feed, List.foldl_cons, ← feed, ih (bit poly r b) (by omega), hfirst, List.length_cons,
        Function.iterate_succ_apply]

/-- A byte enters bit by bit. -/
theorem byte_eq_feed (hw : 8 ≤ w) (poly r : BitVec w) (b : UInt8) :
    byte poly r b = feed poly r (bits 8 b.toNat) := by
  have hb : b.toBitVec.setWidth w = BitVec.ofNat w b.toNat := by
    apply BitVec.eq_of_toNat_eq
    rw [BitVec.toNat_setWidth, BitVec.toNat_ofNat, UInt8.toNat_toBitVec]
  rw [feed_eq_iterate_shift poly r ((length_bits 8 _).trans_le hw), length_bits,
    valueOf_bits b.toNat_lt, byte, hb]

/-- Bytes enter bit by bit. -/
theorem fold_eq_feed (hw : 8 ≤ w) (poly r : BitVec w) (bs : List UInt8) :
    fold poly r bs = feed poly r (bitsOf bs) := by
  induction bs generalizing r with
  | nil => rfl
  | cons b bs ih =>
      have hbits : bitsOf (b :: bs) = bits 8 b.toNat ++ bitsOf bs := List.flatMap_cons
      rw [fold, List.foldl_cons, ← fold, ih, byte_eq_feed hw, hbits, feed_append]

/-! ### Damage -/

/-- Feeding a bit is additive. -/
theorem bit_xor (poly r r' : BitVec w) (b b' : Bool) :
    bit poly (r ^^^ r') (b ^^ b') = bit poly r b ^^^ bit poly r' b' := by
  have hmask : (if b ^^ b' then 1#w else 0#w) =
      (if b then 1#w else 0#w) ^^^ if b' then 1#w else 0#w := by
    cases b <;> cases b' <;> simp
  rw [bit, bit, bit, ← shift_xor, hmask]
  congr 1
  ac_rfl

/-- **What bits leave in the register is linear.** -/
theorem feed_zipWith_xor (poly r r' : BitVec w) {as bs : List Bool} (h : as.length = bs.length) :
    feed poly (r ^^^ r') (List.zipWith (· ^^ ·) as bs) = feed poly r as ^^^ feed poly r' bs := by
  induction as generalizing r r' bs with
  | nil =>
      obtain rfl := List.length_eq_zero_iff.mp h.symm
      rfl
  | cons a as ih =>
      cases bs with
      | nil => cases h
      | cons b bs =>
          rw [List.zipWith_cons_cons, feed, List.foldl_cons, bit_xor]
          exact ih _ _ (Nat.succ.inj h)

/-- Where two lists of bytes differ, bit by bit. -/
def damage (bs bs' : List UInt8) : List Bool :=
  List.zipWith (· ^^ ·) (bitsOf bs) (bitsOf bs')

/-- Eight bits for a byte. -/
@[simp] theorem length_bitsOf (bs : List UInt8) : (bitsOf bs).length = 8 * bs.length := by
  induction bs with
  | nil => rfl
  | cons b bs ih =>
      rw [bitsOf, List.flatMap_cons, List.length_append, ← bitsOf, ih, length_bits,
        List.length_cons, Nat.mul_succ, Nat.add_comm]

/-- The damage is as long as what is damaged. -/
theorem length_damage {bs bs' : List UInt8} (h : bs.length = bs'.length) :
    (damage bs bs').length = 8 * bs.length := by
  rw [damage, List.length_zipWith, length_bitsOf, length_bitsOf, h, Nat.min_self]

/-- As many bytes with the same bits are equal. -/
theorem eq_of_bitsOf_eq {bs bs' : List UInt8} (hlen : bs.length = bs'.length)
    (h : bitsOf bs = bitsOf bs') : bs = bs' := by
  induction bs generalizing bs' with
  | nil => exact (List.length_eq_zero_iff.mp hlen.symm).symm
  | cons b bs ih =>
      cases bs' with
      | nil => cases hlen
      | cons b' bs' =>
          rw [bitsOf, bitsOf, List.flatMap_cons, List.flatMap_cons] at h
          obtain ⟨hfirst, hrest⟩ := List.append_inj h (by rw [length_bits, length_bits])
          have hbyte : b.toNat = b'.toNat := by
            rw [← valueOf_bits (n := 8) b.toNat_lt, hfirst, valueOf_bits b'.toNat_lt]
          rw [UInt8.toNat_inj.mp hbyte, ih (Nat.succ.inj hlen) hrest]

/-- Lists of one length that differ nowhere are equal. -/
theorem eq_of_true_notMem_zipWith {as bs : List Bool} (hlen : as.length = bs.length)
    (h : true ∉ List.zipWith (· ^^ ·) as bs) : as = bs := by
  induction as generalizing bs with
  | nil => exact (List.length_eq_zero_iff.mp hlen.symm).symm
  | cons a as ih =>
      cases bs with
      | nil => cases hlen
      | cons b bs =>
          rw [List.zipWith_cons_cons, List.mem_cons, not_or] at h
          have hfirst : a = b := by
            have hxor := h.1
            revert hxor
            cases a <;> cases b <;> decide
          rw [hfirst, ih (Nat.succ.inj hlen) h.2]

/-- Bytes that differ are damaged somewhere. -/
theorem true_mem_damage {bs bs' : List UInt8} (hlen : bs.length = bs'.length) (h : bs ≠ bs') :
    true ∈ damage bs bs' := by
  by_contra hmem
  exact h (eq_of_bitsOf_eq hlen (eq_of_true_notMem_zipWith (by simp [hlen]) hmem))

/-- **What is left of two lists depends on their difference alone**: it is the same if and only if
the difference leaves nothing. -/
theorem fold_eq_iff (hw : 8 ≤ w) {poly r : BitVec w} {bs bs' : List UInt8}
    (h : bs.length = bs'.length) :
    fold poly r bs' = fold poly r bs ↔ feed poly 0#w (damage bs bs') = 0#w := by
  have hlen : (bitsOf bs).length = (bitsOf bs').length := by rw [length_bitsOf, length_bitsOf, h]
  have hlinear := feed_zipWith_xor poly r r hlen
  rw [BitVec.xor_self, ← fold_eq_feed hw, ← fold_eq_feed hw] at hlinear
  rw [damage, hlinear, BitVec.xor_eq_zero_iff, eq_comm]

/-- **A checksum behind its bytes** is the right one if and only if what it leaves together with
them is what the final value leaves alone. -/
theorem fold_append_eq_iff {poly r final : BitVec w} (hpoly : poly.msb = true)
    {as cs : List UInt8} (hfit : 8 * cs.length ≤ w) :
    fold poly r (as ++ cs) = (shift poly)^[8 * cs.length] final ↔
      fold poly r as ^^^ BitVec.ofNat w (LittleEndian.value cs) = final := by
  rw [fold_append, fold_eq_iterate_shift poly _ hfit]
  exact ((shift_injective hpoly).iterate _).eq_iff

/-! ### Bursts -/

/-- Damage within `n` consecutive bits. -/
def Burst (n : ℕ) (e : List Bool) : Prop :=
  ∃ a m b, e = List.replicate a false ++ m ++ List.replicate b false ∧ m.length ≤ n

/-- Bits that spell zero are zeros. -/
theorem true_notMem_of_valueOf {bs : List Bool} (h : valueOf bs = 0) : true ∉ bs := by
  induction bs with
  | nil => exact List.not_mem_nil
  | cons b bs ih =>
      rw [valueOf] at h
      have hfirst : b = false := by
        cases b
        · rfl
        · simp at h
      have hrest := ih (by omega)
      rw [hfirst, List.mem_cons, not_or]
      exact ⟨Bool.false_ne_true.symm, hrest⟩

/-- Zero stays zero. -/
theorem iterate_shift_zero (poly : BitVec w) (n : ℕ) : (shift poly)^[n] 0#w = 0#w := by
  have hzero : shift poly 0#w = 0#w := by simp [shift]
  exact Function.iterate_fixed hzero n

/-- Only zero is shifted to zero. -/
theorem eq_zero_of_iterate_shift_eq_zero {poly x : BitVec w} (hpoly : poly.msb = true) {n : ℕ}
    (h : (shift poly)^[n] x = 0#w) : x = 0#w :=
  (shift_injective hpoly).iterate n (h.trans (iterate_shift_zero poly n).symm)

/-- **Damage within as many consecutive bits as the register is wide is detected.** -/
theorem Burst.feed_ne_zero {poly : BitVec w} (hpoly : poly.msb = true) {e : List Bool}
    (h : Burst w e) (htrue : true ∈ e) : feed poly 0#w e ≠ 0#w := by
  intro hzero
  obtain ⟨a, m, b, rfl, hm⟩ := h
  rw [feed_append, feed_append, feed_replicate_false, feed_replicate_false,
    iterate_shift_zero, feed_eq_iterate_shift poly _ hm, BitVec.zero_xor] at hzero
  -- nothing is left of the damaged bits before they are shifted
  have hnone := eq_zero_of_iterate_shift_eq_zero hpoly
    (eq_zero_of_iterate_shift_eq_zero hpoly hzero)
  have hvalue := congrArg BitVec.toNat hnone
  have hlt : valueOf m < 2 ^ w :=
    Nat.lt_of_lt_of_le (valueOf_lt m) (Nat.pow_le_pow_right (by decide) hm)
  rw [BitVec.toNat_ofNat, Nat.mod_eq_of_lt hlt, BitVec.toNat_ofNat, Nat.zero_mod] at hvalue
  have hm := true_notMem_of_valueOf hvalue
  simp [List.mem_replicate, hm] at htrue

/-! ### Few bits -/

/-- What was in the register and what is fed in leave their shares. -/
theorem feed_eq_xor (poly r : BitVec w) (e : List Bool) :
    feed poly r e = (shift poly)^[e.length] r ^^^ feed poly 0#w e := by
  induction e generalizing r with
  | nil => exact (BitVec.xor_zero).symm
  | cons b e ih =>
      have hbit : bit poly r b = shift poly r ^^^ bit poly 0#w b := by
        rw [bit, bit, ← shift_xor, BitVec.zero_xor]
      calc feed poly r (b :: e)
          = (shift poly)^[e.length] (bit poly r b) ^^^ feed poly 0#w e := ih _
        _ = (shift poly)^[e.length] (shift poly r) ^^^
              ((shift poly)^[e.length] (bit poly 0#w b) ^^^ feed poly 0#w e) := by
            rw [hbit, iterate_shift_xor, BitVec.xor_assoc]
        _ = (shift poly)^[(b :: e).length] r ^^^ feed poly 0#w (b :: e) := by
            rw [← ih, List.length_cons, Function.iterate_succ_apply, feed, feed, List.foldl_cons]

/-- What single bits leave, the first of `n` before the others. -/
def powers (poly : BitVec w) : ℕ → List (BitVec w)
  | 0 => []
  | n + 1 => (shift poly)^[n + 1] 1#w :: powers poly n

/-- What is left of some bits is the sum of what each of them leaves. -/
theorem exists_sublist_powers (poly : BitVec w) (e : List Bool) :
    ∃ s, List.Sublist s (powers poly e.length) ∧ s.length = e.count true ∧
      feed poly 0#w e = s.foldr (· ^^^ ·) 0#w := by
  induction e with
  | nil => exact ⟨[], .slnil, rfl, rfl⟩
  | cons b e ih =>
      obtain ⟨s, hsub, hlen, hsum⟩ := ih
      cases b with
      | false =>
          have hzero : bit poly 0#w false = 0#w := by
            simpa [bit] using iterate_shift_zero poly 1
          refine ⟨s, hsub.cons _, by simpa using hlen, ?_⟩
          rw [feed, List.foldl_cons, ← feed, hzero, hsum]
      | true =>
          have hone : bit poly 0#w true = shift poly 1#w := congrArg (shift poly) BitVec.zero_xor
          refine ⟨(shift poly)^[e.length + 1] 1#w :: s, hsub.cons_cons _, by simpa using hlen, ?_⟩
          rw [feed, List.foldl_cons, ← feed, hone, feed_eq_xor, hsum, List.foldr_cons,
            Function.iterate_succ_apply]

/-- The last of the damaged bits, and what is behind it. -/
theorem exists_last_true {e : List Bool} (h : true ∈ e) :
    ∃ e' n, e = e' ++ true :: List.replicate n false := by
  induction e with
  | nil => cases h
  | cons b e ih =>
      by_cases hmem : true ∈ e
      · obtain ⟨e', n, rfl⟩ := ih hmem
        exact ⟨b :: e', n, rfl⟩
      · have hb : b = true := by simpa [hmem, eq_comm] using h
        have hzeros : e = List.replicate e.length false :=
          List.eq_replicate_of_mem fun c hc => Bool.eq_false_iff.mpr fun hc' => hmem (hc' ▸ hc)
        exact ⟨[], e.length, by rw [hb, List.nil_append, ← hzeros]⟩

/-- Fewer powers are some of more. -/
theorem powers_sublist (poly : BitVec w) {m n : ℕ} (h : m ≤ n) :
    List.Sublist (powers poly m) (powers poly n) := by
  induction h with
  | refl => exact List.Sublist.refl _
  | step _ ih => exact ih.cons _

/-- **Damage of few bits is detected**, if so few of the powers do not add up to one: the last of
the damaged bits enters where the others have left something else. -/
theorem feed_ne_zero_of_count_le {poly : BitVec w} (hpoly : poly.msb = true) {k n : ℕ}
    (hsum : ∀ s, List.Sublist s (powers poly n) → s.length ≤ k → s.foldr (· ^^^ ·) 0#w ≠ 1#w)
    {e : List Bool} (hlen : e.length ≤ n + 1) (htrue : true ∈ e) (hcount : e.count true ≤ k + 1) :
    feed poly 0#w e ≠ 0#w := by
  intro hzero
  obtain ⟨e', b, rfl⟩ := exists_last_true htrue
  obtain ⟨s, hsub, hslen, hfeed⟩ := exists_sublist_powers poly e'
  have hshift : (shift poly)^[b + 1] (feed poly 0#w e' ^^^ 1#w) = 0#w := by
    rwa [feed_append, feed, List.foldl_cons, ← feed, feed_replicate_false] at hzero
  have hone := BitVec.xor_eq_zero_iff.mp (eq_zero_of_iterate_shift_eq_zero hpoly hshift)
  simp only [List.length_append, List.length_cons, List.count_append, List.count_cons_self] at *
  refine hsum s (hsub.trans (powers_sublist poly (by omega))) (by omega) ?_
  rw [← hfeed, hone]

/-! ### Computing the powers -/

/-- A shift, computed on numbers. -/
def shiftNat (poly r : ℕ) : ℕ := if r.testBit 0 then r / 2 ^^^ poly else r / 2

/-- The first `n` powers, computed on numbers. -/
def powersNat (poly n : ℕ) : List ℕ := List.iterate (shiftNat poly) (shiftNat poly 1) n

/-- A shift, as numbers. -/
theorem toNat_shift (poly r : BitVec w) : (shift poly r).toNat = shiftNat poly.toNat r.toNat := by
  rw [shift, shiftNat, BitVec.testBit_toNat]
  split
  · rw [BitVec.toNat_xor, BitVec.toNat_ushiftRight, Nat.shiftRight_eq_div_pow, Nat.pow_one]
  · rw [BitVec.toNat_ushiftRight, Nat.shiftRight_eq_div_pow, Nat.pow_one]

/-- Some shifts, as numbers. -/
theorem toNat_iterate_shift (poly r : BitVec w) (n : ℕ) :
    ((shift poly)^[n] r).toNat = (shiftNat poly.toNat)^[n] r.toNat := by
  induction n generalizing r with
  | zero => rfl
  | succ n ih => rw [Function.iterate_succ_apply, Function.iterate_succ_apply, ih, toNat_shift]

/-- The powers, as numbers. -/
theorem toNat_mem_powersNat (hw : 0 < w) {poly x : BitVec w} {n : ℕ} (h : x ∈ powers poly n) :
    x.toNat ∈ powersNat poly.toNat n := by
  have hone : (1#w).toNat = 1 := by
    rw [BitVec.toNat_ofNat, Nat.mod_eq_of_lt (Nat.one_lt_two_pow hw.ne')]
  rw [powersNat, List.mem_iterate]
  induction n with
  | zero => cases h
  | succ n ih =>
      rcases List.mem_cons.mp h with rfl | hmem
      · exact ⟨n, Nat.lt_succ_self n, by
          rw [toNat_iterate_shift, hone, Function.iterate_succ_apply]⟩
      · obtain ⟨m, hm, heq⟩ := ih hmem
        exact ⟨m, Nat.lt_succ_of_lt hm, heq⟩

/-- One or two of the powers do not add up to one, if the numbers say so. -/
theorem foldr_ne_one (hw : 0 < w) {poly : BitVec w} {n : ℕ}
    (h : ∀ x ∈ powersNat poly.toNat n, x ≠ 1 ∧ x ^^^ 1 ∉ powersNat poly.toNat n)
    (s : List (BitVec w)) (hsub : List.Sublist s (powers poly n)) (hlen : s.length ≤ 2) :
    s.foldr (· ^^^ ·) 0#w ≠ 1#w := by
  have hone : (1#w).toNat = 1 := by
    rw [BitVec.toNat_ofNat, Nat.mod_eq_of_lt (Nat.one_lt_two_pow hw.ne')]
  have hmem : ∀ x ∈ s, x.toNat ∈ powersNat poly.toNat n := fun x hx =>
    toNat_mem_powersNat hw (hsub.subset hx)
  intro hsum
  have hnat := congrArg BitVec.toNat hsum
  rw [hone] at hnat
  match s, hlen with
  | [], _ => simp at hnat
  | [x], _ =>
      rw [List.foldr_cons, List.foldr_nil, BitVec.xor_zero] at hnat
      exact (h _ (hmem x List.mem_cons_self)).1 hnat
  | [x, y], _ =>
      rw [List.foldr_cons, List.foldr_cons, List.foldr_nil, BitVec.xor_zero,
        BitVec.toNat_xor] at hnat
      have hy : x.toNat ^^^ 1 = y.toNat := by
        rw [← hnat, ← Nat.xor_assoc, Nat.xor_self, Nat.zero_xor]
      refine (h _ (hmem x List.mem_cons_self)).2 (hy ▸ hmem y ?_)
      exact List.mem_cons_of_mem _ List.mem_cons_self

end Crc
