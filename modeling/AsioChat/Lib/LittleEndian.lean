import Mathlib.Algebra.Group.Nat.Defs

/-!
# Little-Endian Numbers in Byte Lists

The value of a byte list read least significant byte first, and the `k` low bytes of a
number written that way. `value_bytes` and `bytes_value` are the two round trips: a
written number reads back modulo `256 ^ k`, and a read list writes back unchanged.
-/

namespace LittleEndian

/-- The number a byte list spells, least significant byte first. -/
def value : List UInt8 → ℕ
  | [] => 0
  | b :: bs => b.toNat + 256 * value bs

/-- The `k` low bytes of a number, least significant byte first. -/
def bytes : ℕ → ℕ → List UInt8
  | 0, _ => []
  | k + 1, n => UInt8.ofNat n :: bytes k (n / 256)

/-- The value of no bytes. -/
@[simp] theorem value_nil : value [] = 0 := rfl

/-- The first byte counts least. -/
@[simp] theorem value_cons (b : UInt8) (bs : List UInt8) :
    value (b :: bs) = b.toNat + 256 * value bs := rfl

/-- No bytes. -/
@[simp] theorem bytes_zero (n : ℕ) : bytes 0 n = [] := rfl

/-- The lowest byte is the first. -/
theorem bytes_succ (k n : ℕ) : bytes (k + 1) n = UInt8.ofNat n :: bytes k (n / 256) := rfl

/-- Writing `k` bytes writes `k` bytes. -/
@[simp] theorem length_bytes (k n : ℕ) : (bytes k n).length = k := by
  induction k generalizing n with
  | zero => rfl
  | succ k ih => simp [bytes_succ, ih]

/-- The value of a list is bounded by its length. -/
theorem value_lt (bs : List UInt8) : value bs < 256 ^ bs.length := by
  induction bs with
  | nil => simp
  | cons b bs ih =>
      have hb := b.toNat_lt
      rw [value_cons, List.length_cons, Nat.pow_succ]
      omega

/-- **Round trip of a number**: `k` written bytes read back as the number modulo
`256 ^ k`. -/
theorem value_bytes (k n : ℕ) : value (bytes k n) = n % 256 ^ k := by
  induction k generalizing n with
  | zero => simp [Nat.mod_one]
  | succ k ih =>
      have hlow : (UInt8.ofNat n).toNat = n % 256 := UInt8.toNat_ofNat'
      rw [bytes_succ, value_cons, ih, hlow, Nat.pow_succ', Nat.mod_mul]

/-- A number that fits in `k` bytes reads back unchanged. -/
theorem value_bytes_of_lt {k n : ℕ} (h : n < 256 ^ k) : value (bytes k n) = n := by
  rw [value_bytes, Nat.mod_eq_of_lt h]

/-- **Round trip of a list**: the bytes of a list's value are the list. -/
theorem bytes_value (bs : List UInt8) : bytes bs.length (value bs) = bs := by
  induction bs with
  | nil => rfl
  | cons b bs ih =>
      have hb := b.toNat_lt
      have hlow : UInt8.ofNat (b.toNat + 256 * value bs) = b := by
        apply UInt8.toNat_inj.mp
        rw [UInt8.toNat_ofNat']
        omega
      have hhigh : (b.toNat + 256 * value bs) / 256 = value bs := by omega
      rw [List.length_cons, value_cons, bytes_succ, hlow, hhigh, ih]

/-- The same for a list whose length is known. -/
theorem bytes_value_of_length {k : ℕ} {bs : List UInt8} (h : bs.length = k) :
    bytes k (value bs) = bs := by
  subst h
  exact bytes_value bs

/-- A list of `k` bytes has a value that fits in `k` bytes. -/
theorem value_lt_of_length {k : ℕ} {bs : List UInt8} (h : bs.length = k) :
    value bs < 256 ^ k := by
  subst h
  exact value_lt bs

end LittleEndian
