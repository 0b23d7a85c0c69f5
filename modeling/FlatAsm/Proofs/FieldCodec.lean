import FlatAsm.Image
import FlatAsm.Proofs.FieldMasks

/-!
# Fields as a code for words

A field keeps of a word what the mask of its width covers.  Writing and
reading are inverse to each other as far as the mask goes, and adding to a
field is adding to the word that it came from.

The mask depends on the number of bits, which is a signed number of 64 bits.
From 2⁶⁰ bytes on this number wraps around, and the mask is that of another
width, or there is none.  The laws of fields hold for all smaller widths, and
memory has no room for a field of any other.
-/

namespace FlatAsm

namespace LittleEndian

/-- What is read fits into as many bytes as were read. -/
theorem toNat_read_lt {bytes : List UInt8} (short : bytes.length ≤ 8) :
    (read bytes).toNat < 2 ^ (8 * bytes.length) := by
  induction bytes with
  | nil => decide
  | cons byte rest inductionHypothesis =>
      rw [List.length_cons] at short ⊢
      have tail := inductionHypothesis (by omega)
      have room : 2 ^ (8 * rest.length) ≤ 2 ^ 56 :=
        Nat.pow_le_pow_right (by decide) (by omega)
      have small : byte.toNat < 0x100 := byte.toNat_lt
      rw [toNat_read_cons (Nat.lt_of_lt_of_le tail room),
        two_pow_byte_succ]
      omega

/-- Writing gives back all bytes that a word has room for. -/
theorem write_read {bytes : List UInt8} (short : bytes.length ≤ 8) :
    write bytes.length (read bytes) = bytes := by
  induction bytes with
  | nil => rfl
  | cons byte rest inductionHypothesis =>
      rw [List.length_cons] at short
      have room : (read rest).toNat < 2 ^ 56 := calc
        (read rest).toNat < 2 ^ (8 * rest.length) := toNat_read_lt (by omega)
        _ ≤ 2 ^ 56 := Nat.pow_le_pow_right (by decide) (by omega)
      have whole : (read (byte :: rest)).toNat =
          byte.toNat + 0x100 * (read rest).toNat := toNat_read_cons room
      have small : byte.toNat < 0x100 := byte.toNat_lt
      have lowest : (read (byte :: rest)).toUInt8 = byte := by
        apply UInt8.toNat_inj.1
        rw [UInt64.toNat_toUInt8, whole]
        omega
      have others : read (byte :: rest) >>> 8 = read rest := by
        apply UInt64.toNat_inj.1
        rw [toNat_shiftRight_byte, whole]
        omega
      rw [List.length_cons, write, lowest, others,
        inductionHypothesis (by omega)]

/-- A word has eight bytes, and zeros follow. -/
theorem drop_write (size : Nat) (word : UInt64) :
    (write size word).drop 8 = List.replicate (size - 8) 0 := by
  apply List.eq_replicate_iff.2
  refine ⟨by simp, ?_⟩
  intro byte member
  rw [write_eq_digits, digits, ← List.map_drop, List.range_eq_range',
    List.drop_range'] at member
  obtain ⟨index, place, rfl⟩ := List.mem_map.1 member
  obtain ⟨_, _, rfl⟩ := List.mem_range'.1 place
  -- a digit past the eighth is a quotient by more than any word
  have bound : word.toNat < 0x100 ^ 8 := word.toNat_lt
  rw [Nat.div_eq_of_lt (Nat.lt_of_lt_of_le bound
    (Nat.pow_le_pow_right (by decide) (by omega)))]
  rfl

end LittleEndian

namespace Width

/-- Words and fields of a width correspond to each other under a mask. -/
structure IsCodec (width : Width) (mask : UInt64) : Prop where
  /-- The mask covers as many bytes as the width has, up to a whole word. -/
  covers : mask.toNat =
    if width.bytes < 8 then 2 ^ (8 * width.size) - 1 else 2 ^ 64 - 1
  /-- An integer goes as the field of its base behind the bytes before. -/
  appends : ∀ (image : Image) (value : SymInt) (line : Int),
    ∃ after, image.writeInteger value width line = .ok after ∧
      after.data.toList =
        image.data.toList ++ width.field mask value.base.toUInt64
  length : ∀ word, ((width.field mask word).length : Int) = width.bytes
  masked : ∀ word,
    LittleEndian.read (width.field mask word) = word &&& mask
  /-- Bytes past the eighth are zero. -/
  filled : ∀ word,
    (width.field mask word).drop 8 = List.replicate (width.size - 8) 0
  /-- Any bytes that fit into a word are the field of the word they spell. -/
  restores : ∀ bytes : List UInt8, (bytes.length : Int) = width.bytes →
    bytes.length ≤ 8 → width.field mask (LittleEndian.read bytes) = bytes
  /-- Adding to a field is adding to the word, whatever is cut off. -/
  adds : ∀ word added,
    width.field mask
        (LittleEndian.read (width.field mask word) + added) =
      width.field mask (word + added)

/-- The laws of fields, for every width whose bits can be counted. -/
theorem isCodec_of_bytes_lt {width : Width}
    (nonnegative : 0 ≤ width.bytes) (bounded : width.bytes < 2 ^ 60) :
    ∃ mask, width.mask? = some mask ∧ width.IsCodec mask := by
  have size : (width.size : Int) = width.bytes :=
    Int.toNat_of_nonneg nonnegative
  refine ⟨_, mask?_of_lt nonnegative bounded, ?_⟩
  constructor
  case covers =>
    rw [LittleEndian.toNat_ones]
    split
    · rw [Nat.min_eq_left (by omega)]
    · rw [Nat.min_eq_right (by omega)]
  case appends =>
    intro image value line
    rw [Image.writeInteger, fieldOf, mask?_of_lt nonnegative bounded]
    exact ⟨_, rfl, Array.toList_appendList⟩
  case length =>
    intro word
    rw [field_ones, LittleEndian.length_write, size]
  case masked =>
    intro word
    rw [field_ones, LittleEndian.read_write]
  case filled =>
    intro word
    rw [field_ones, LittleEndian.drop_write]
  case restores =>
    intro bytes sameLength short
    have same : width.size = bytes.length := by omega
    rw [field_ones, same, LittleEndian.write_read short]
  case adds =>
    intro word added
    exact field_read_add (mask?_of_lt nonnegative bounded) word added

/-- A field can be longer than the words that it holds. -/
theorem nineBytes_isCodec :
    ∃ mask, (⟨9⟩ : Width).mask? = some mask ∧ (⟨9⟩ : Width).IsCodec mask :=
  isCodec_of_bytes_lt (by decide) (by decide)

/-- A width of 2⁶⁴ bits, which are counted as none. -/
def wrapping : Width :=
  ⟨2 ^ 61⟩

/-- Where the bits wrap around, the mask need not cover the field. -/
theorem wrapping_notCodec :
    0 ≤ wrapping.bytes ∧ wrapping.mask? = some 0 ∧
      ¬∃ mask, wrapping.mask? = some mask ∧ wrapping.IsCodec mask := by
  have bare : wrapping.mask? = some 0 := by decide
  refine ⟨by decide, bare, ?_⟩
  rintro ⟨mask, found, codec⟩
  obtain rfl : 0 = mask := Option.some.inj (bare.symm.trans found)
  have covers := codec.covers
  rw [if_neg (by decide)] at covers
  exact absurd covers (by decide)

end Width

end FlatAsm
