import FlatAsm.Proofs.FieldBytes

/-!
# Masks of fields

The mask of a width covers as many bytes as the width has, as long as its
bits can be counted by a signed number of 64 bits.  From 2⁶⁰ bytes on the
number wraps around, and the mask is that of a shorter width, or there is
none.

No mask covers more bytes than its field has.  So whatever a mask cuts off is
cut off again when a field is read, added to and written back, and the field
is that of the sum.
-/

namespace FlatAsm

namespace LittleEndian

/-- The word whose lowest bytes, `size` of them, are full of ones. -/
def ones (size : Nat) : UInt64 :=
  (2 ^ (8 * min size 8) - 1).toUInt64

theorem toNat_ones (size : Nat) :
    (ones size).toNat = 2 ^ (8 * min size 8) - 1 := by
  have bound : 2 ^ (8 * min size 8) ≤ 2 ^ 64 :=
    Nat.pow_le_pow_right (by decide) (by omega)
  have positive := Nat.two_pow_pos (8 * min size 8)
  apply UInt64.toNat_ofNat_of_lt
  change _ < 2 ^ 64
  omega

/-- The lowest bytes of a word are a residue of its number. -/
theorem toNat_and_ones (size : Nat) (word : UInt64) :
    (word &&& ones size).toNat = word.toNat % 2 ^ (8 * size) := by
  rw [UInt64.toNat_and, toNat_ones, Nat.and_two_pow_sub_one_eq_mod]
  rcases Nat.le_total size 8 with short | long
  · rw [Nat.min_eq_left short]
  · have bound : word.toNat < 2 ^ 64 := word.toNat_lt
    have wide : 2 ^ 64 ≤ 2 ^ (8 * size) :=
      Nat.pow_le_pow_right (by decide) (by omega)
    rw [Nat.min_eq_right long, Nat.mod_eq_of_lt bound,
      Nat.mod_eq_of_lt (Nat.lt_of_lt_of_le bound wide)]

theorem read_write (size : Nat) (word : UInt64) :
    read (write size word) = word &&& ones size := by
  apply UInt64.toNat_inj.1
  rw [toNat_read_write, toNat_and_ones]

theorem write_and_ones (size : Nat) (word : UInt64) :
    write size (word &&& ones size) = write size word := by
  apply write_congr
  rw [toNat_and_ones, Nat.mod_mod]

/-- What a mask cuts off before an addition, it cuts off after it. -/
theorem and_ones_add (size : Nat) (word added : UInt64) :
    ((word &&& ones size) + added) &&& ones size =
      (word + added) &&& ones size := by
  apply UInt64.toNat_inj.1
  rw [toNat_and_ones, toNat_and_ones, UInt64.toNat_add, UInt64.toNat_add,
    toNat_and_ones]
  by_cases fits : 8 * size ≤ 64
  · have divides : 2 ^ (8 * size) ∣ 2 ^ 64 := Nat.pow_dvd_pow 2 fits
    rw [Nat.mod_mod_of_dvd _ divides, Nat.mod_mod_of_dvd _ divides,
      Nat.mod_add_mod]
  · have bound : word.toNat < 2 ^ (8 * size) :=
      Nat.lt_of_lt_of_le word.toNat_lt
        (Nat.pow_le_pow_right (by decide) (by omega))
    rw [Nat.mod_eq_of_lt bound]

/-- A field that is longer than a mask keeps what the mask left. -/
theorem read_write_and_ones {kept size : Nat} (within : kept ≤ size)
    (word : UInt64) :
    read (write size (word &&& ones kept)) = word &&& ones kept := by
  have narrower : 2 ^ (8 * kept) ≤ 2 ^ (8 * size) :=
    Nat.pow_le_pow_right (by decide) (by omega)
  apply UInt64.toNat_inj.1
  rw [toNat_read_write, toNat_and_ones]
  exact Nat.mod_eq_of_lt
    (Nat.lt_of_lt_of_le (Nat.mod_lt _ (Nat.two_pow_pos _)) narrower)

end LittleEndian

namespace Width

open LittleEndian (ones)

/-- The number of bits wraps around with every 2⁶¹ bytes. -/
theorem bits_eq (width : Width) :
    width.bits = 8 * width.bytes.bmod (2 ^ 61) := by
  simp only [bits, Int.bmod_def]
  omega

/-- The mask of every width, supported or not. -/
theorem mask?_eq (width : Width) :
    width.mask? =
      if width.bytes.bmod (2 ^ 61) < 0 then none
      else some (ones (width.bytes.bmod (2 ^ 61)).toNat) := by
  -- both sides look at the bytes only as far as the bits are counted
  have bits := width.bits_eq
  generalize width.bytes.bmod (2 ^ 61) = bytes at bits ⊢
  rw [mask?, bits, ones]
  rcases Int.lt_or_le bytes 0 with negative | nonnegative
  · rw [if_pos negative, if_pos (by omega)]
  · rw [if_neg (show ¬8 * bytes < 0 by omega), if_neg nonnegative.not_gt]
    split
    · have count : (8 * bytes).toNat = 8 * bytes.toNat := by omega
      rw [count, Nat.min_eq_left (by omega)]
      rfl
    · rw [Nat.min_eq_right (by omega)]
      rfl

theorem mask?_of_lt {width : Width} (nonnegative : 0 ≤ width.bytes)
    (bounded : width.bytes < 2 ^ 60) :
    width.mask? = some (ones width.size) := by
  have counted : width.bytes.bmod (2 ^ 61) = width.bytes :=
    Int.bmod_eq_of_le (by omega) (by omega)
  rw [mask?_eq, counted, if_neg nonnegative.not_gt, size]

/-- Masking has no effect of its own if the mask covers the width. -/
theorem field_ones (width : Width) (word : UInt64) :
    width.field (ones width.size) word =
      LittleEndian.write width.size word :=
  LittleEndian.write_and_ones width.size word

@[simp]
theorem length_field (width : Width) (mask word : UInt64) :
    (width.field mask word).length = width.size :=
  LittleEndian.length_write _ _

/-- A mask is made of ones, and not of more than the field has room for. -/
theorem exists_ones_of_mask? {width : Width} {mask : UInt64}
    (masked : width.mask? = some mask) :
    ∃ kept, mask = ones kept ∧ (width.size = 0 ∨ kept ≤ width.size) := by
  rw [mask?_eq] at masked
  split at masked
  · cases masked
  · next counted =>
    refine ⟨_, (Option.some.inj masked).symm, ?_⟩
    rw [Int.bmod_def] at counted ⊢
    rw [size]
    omega

/-- Adding to a field is adding to its word, whatever is cut off. -/
theorem field_read_add {width : Width} {mask : UInt64}
    (masked : width.mask? = some mask) (word added : UInt64) :
    width.field mask
        (LittleEndian.read (width.field mask word) + added) =
      width.field mask (word + added) := by
  obtain ⟨kept, rfl, none | within⟩ := exists_ones_of_mask? masked
  · rw [field, field, field, none]
    rfl
  · rw [field, field, field, LittleEndian.read_write_and_ones within,
      LittleEndian.and_ones_add]

/-- The bytes of a field that holds a word, if the width has a mask. -/
def holding (width : Width) (word : UInt64) : List UInt8 :=
  width.field (width.mask?.getD 0) word

@[simp]
theorem length_holding (width : Width) (word : UInt64) :
    (width.holding word).length = width.size :=
  length_field width _ word

theorem fieldOf_eq_ok_iff {width : Width} {word : UInt64}
    {bytes : List UInt8} :
    width.fieldOf word = .ok bytes ↔
      width.mask?.isSome = true ∧ bytes = width.holding word := by
  rw [fieldOf, holding]
  cases width.mask? <;> simp [eq_comm]

theorem fieldOf_of_mask? {width : Width}
    (masked : width.mask?.isSome = true) (word : UInt64) :
    width.fieldOf word = .ok (width.holding word) :=
  fieldOf_eq_ok_iff.2 ⟨masked, rfl⟩

theorem holding_read_add {width : Width}
    (masked : width.mask?.isSome = true) (word added : UInt64) :
    width.holding (LittleEndian.read (width.holding word) + added) =
      width.holding (word + added) := by
  obtain ⟨mask, found⟩ := Option.isSome_iff_exists.1 masked
  rw [holding, holding, holding, found]
  exact field_read_add found word added

/-- A field of which the bits can be counted holds the bytes of a word. -/
theorem holding_of_lt {width : Width} (nonnegative : 0 ≤ width.bytes)
    (bounded : width.bytes < 2 ^ 60) (word : UInt64) :
    width.holding word = LittleEndian.write width.size word := by
  rw [holding, mask?_of_lt nonnegative bounded]
  exact field_ones width word

/-- The machine's widths lie far below those whose bits wrap around. -/
theorem bounds_of_isSupported {width : Width}
    (supported : width.isSupported = true) :
    0 ≤ width.bytes ∧ width.bytes < 2 ^ 60 := by
  rcases Bool.or_eq_true_iff.1 supported with byte | word
  · rw [of_decide_eq_true byte]
    decide
  · rw [of_decide_eq_true word]
    decide

theorem isSome_mask?_of_isSupported {width : Width}
    (supported : width.isSupported = true) :
    width.mask?.isSome = true := by
  obtain ⟨nonnegative, bounded⟩ := bounds_of_isSupported supported
  rw [mask?_of_lt nonnegative bounded]
  rfl

theorem holding_of_isSupported {width : Width}
    (supported : width.isSupported = true) (word : UInt64) :
    width.holding word = LittleEndian.write width.size word := by
  obtain ⟨nonnegative, bounded⟩ := bounds_of_isSupported supported
  exact holding_of_lt nonnegative bounded word

end Width

end FlatAsm
