import FlatAsm.LittleEndian
import FlatAsm.SymInt
import Mathlib.Algebra.Order.Ring.Int

/-!
# The bytes of a field

A field of `size` bytes holds a number modulo `2 ^ (8 * size)`.  Writing a
word keeps exactly that residue, and reading gives it back.
-/

namespace FlatAsm.LittleEndian

/-- The lowest `size` bytes of a number, the lowest byte first. -/
def digits (size number : Nat) : List UInt8 :=
  (List.range size).map fun index => (number / 0x100 ^ index).toUInt8

theorem digits_succ (size number : Nat) :
    digits (size + 1) number =
      number.toUInt8 :: digits size (number / 0x100) := by
  simp only [digits, List.range_succ_eq_map, List.map_cons, List.map_map,
    Nat.pow_zero, Nat.div_one]
  congr 1
  apply List.map_congr_left
  intro index _
  simp only [Function.comp_apply, Nat.succ_eq_add_one, Nat.pow_succ']
  rw [Nat.div_div_eq_div_mul]

theorem toUInt8_mod (number : Nat) :
    (number % 0x100).toUInt8 = number.toUInt8 := by
  apply UInt8.toNat_inj.1
  simp

theorem two_pow_byte_succ (size : Nat) :
    2 ^ (8 * (size + 1)) = 0x100 * 2 ^ (8 * size) := by
  rw [Nat.mul_add, Nat.pow_add, Nat.mul_comm]

/-- Only the residue modulo the size of the field matters. -/
theorem digits_mod (size number : Nat) :
    digits size (number % 2 ^ (8 * size)) = digits size number := by
  induction size generalizing number with
  | zero => rfl
  | succ size inductionHypothesis =>
      have lowest :
          number % 2 ^ (8 * (size + 1)) % 0x100 = number % 0x100 := by
        rw [two_pow_byte_succ, Nat.mod_mul_right_mod]
      have others :
          number % 2 ^ (8 * (size + 1)) / 0x100 =
            number / 0x100 % 2 ^ (8 * size) := by
        rw [two_pow_byte_succ, Nat.mod_mul_right_div_self]
      rw [digits_succ, digits_succ, others, inductionHypothesis,
        ← toUInt8_mod, lowest, toUInt8_mod]

theorem toNat_shiftRight_byte (word : UInt64) :
    (word >>> 8).toNat = word.toNat / 0x100 := by
  simp [UInt64.toNat_shiftRight, Nat.shiftRight_eq_div_pow]

/-- Writing a word writes the digits of its number. -/
theorem write_eq_digits (size : Nat) (word : UInt64) :
    write size word = digits size word.toNat := by
  induction size generalizing word with
  | zero => rfl
  | succ size inductionHypothesis =>
      have lowest : word.toUInt8 = word.toNat.toUInt8 := by
        apply UInt8.toNat_inj.1
        simp
      rw [write, digits_succ, inductionHypothesis,
        toNat_shiftRight_byte, lowest]

/-- Reading a byte more shifts what was read by a byte. -/
theorem toNat_read_cons
    {byte : UInt8} {rest : List UInt8}
    (room : (read rest).toNat < 2 ^ 56) :
    (read (byte :: rest)).toNat =
      byte.toNat + 0x100 * (read rest).toNat := by
  have shifted : (read rest <<< 8).toNat = (read rest).toNat <<< 8 := by
    rw [UInt64.toNat_shiftLeft]
    apply Nat.mod_eq_of_lt
    rw [Nat.shiftLeft_eq]
    change (read rest).toNat * 0x100 < 2 ^ 64
    omega
  have small : byte.toNat < 2 ^ 8 := byte.toNat_lt
  rw [read, UInt64.toNat_or, shifted, UInt8.toNat_toUInt64,
    ← Nat.shiftLeft_add_eq_or_of_lt small, Nat.shiftLeft_eq]
  omega

/-- Reading what was written gives the word, as far as the field goes. -/
theorem toNat_read_write (size : Nat) (word : UInt64) :
    (read (write size word)).toNat = word.toNat % 2 ^ (8 * size) := by
  induction size generalizing word with
  | zero =>
      rw [Nat.mul_zero, Nat.pow_zero, Nat.mod_one]
      rfl
  | succ size inductionHypothesis =>
      have tail := inductionHypothesis (word >>> 8)
      rw [toNat_shiftRight_byte] at tail
      have room : (read (write size (word >>> 8))).toNat < 2 ^ 56 := by
        have bound : word.toNat < 2 ^ 64 := word.toNat_lt
        have shrinks := Nat.mod_le (word.toNat / 0x100) (2 ^ (8 * size))
        omega
      rw [write, toNat_read_cons room, tail, two_pow_byte_succ, Nat.mod_mul]
      simp

theorem write_congr {size : Nat} {left right : UInt64}
    (same : left.toNat % 2 ^ (8 * size) = right.toNat % 2 ^ (8 * size)) :
    write size left = write size right := by
  rw [write_eq_digits, write_eq_digits, ← digits_mod size left.toNat, same,
    digits_mod]

theorem toNat_toUInt64_ofInt (number : Int) :
    (Int64.ofInt number).toUInt64.toNat = (number % 2 ^ 64).toNat := by
  change (Int64.ofInt number).toBitVec.toNat = _
  rw [Int64.toBitVec_ofInt, BitVec.toNat_ofInt]
  rfl

/-- A short field holds an integer modulo its size. -/
theorem write_ofInt {size : Nat} (short : size ≤ 8) (number : Int) :
    write size (Int64.ofInt number).toUInt64 =
      digits size (number % 2 ^ (8 * size)).toNat := by
  have divides : ((2 ^ (8 * size) : Nat) : Int) ∣ ((2 ^ 64 : Nat) : Int) :=
    Int.natCast_dvd_natCast.2 (Nat.pow_dvd_pow 2 (by omega))
  have modulus : (2 : Int) ^ (8 * size) = ((2 ^ (8 * size) : Nat) : Int) := by
    simp
  have nonzero : ((2 ^ (8 * size) : Nat) : Int) ≠ 0 :=
    Int.natCast_ne_zero.2 (Nat.ne_of_gt (Nat.two_pow_pos _))
  have residue :
      (number % 2 ^ 64).toNat % 2 ^ (8 * size) =
        (number % 2 ^ (8 * size)).toNat := by
    apply Int.natCast_inj.1
    rw [Int.natCast_emod,
      Int.toNat_of_nonneg (Int.emod_nonneg _ (by decide)), modulus,
      Int.toNat_of_nonneg (Int.emod_nonneg _ nonzero)]
    exact Int.emod_emod_of_dvd number divides
  rw [write_eq_digits, toNat_toUInt64_ofInt, ← digits_mod, residue]

/-- A word is congruent to its unsigned number. -/
theorem toInt_emod {size : Nat} (short : size ≤ 8) (number : Int64) :
    number.toInt % 2 ^ (8 * size) =
      ((number.toUInt64.toNat % 2 ^ (8 * size) : Nat) : Int) := by
  have divides : ((2 ^ (8 * size) : Nat) : Int) ∣ ((2 ^ 64 : Nat) : Int) :=
    Int.natCast_dvd_natCast.2 (Nat.pow_dvd_pow 2 (by omega))
  have whole := toNat_toUInt64_ofInt number.toInt
  rw [Int64.ofInt_toInt] at whole
  have unsigned : (number.toUInt64.toNat : Int) =
      number.toInt % ((2 ^ 64 : Nat) : Int) := by
    rw [whole]
    exact Int.toNat_of_nonneg (Int.emod_nonneg _ (by decide))
  rw [Int.natCast_emod, unsigned, Int.emod_emod_of_dvd _ divides]
  simp

end FlatAsm.LittleEndian
