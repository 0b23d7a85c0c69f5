/-!
# Byte text

Source files, labels and messages are byte strings.  Nothing promises that
they are valid UTF-8, and labels are ordered by their bytes, so the library
works on lists of bytes throughout.
-/

namespace FlatAsm

/-- A byte string. -/
abbrev Text := List UInt8

namespace Text

/-- The bytes of a string all of whose characters are ASCII. -/
def ascii (string : String) : Text :=
  string.toList.map fun character => character.toNat.toUInt8

/-- The order of two texts by their bytes. -/
def order : Text → Text → Ordering
  | [], [] => .eq
  | [], _ :: _ => .lt
  | _ :: _, [] => .gt
  | first :: rest, other :: others =>
      if first < other then .lt
      else if first = other then order rest others
      else .gt

theorem order_eq_lt_iff (left right : Text) :
    order left right = .lt ↔ left < right := by
  fun_induction order left right with
  | case1 => simp
  | case2 => simp
  | case3 => simp
  | case4 first rest other others before =>
      simp [List.cons_lt_cons_iff, before]
  | case5 rest other others notBefore inductionHypothesis =>
      simp [inductionHypothesis]
  | case6 first rest other others notBefore different =>
      simp [List.cons_lt_cons_iff, notBefore, different]

theorem order_eq_eq_iff (left right : Text) :
    order left right = .eq ↔ left = right := by
  fun_induction order left right with
  | case1 => simp
  | case2 => simp
  | case3 => simp
  | case4 first rest other others before =>
      simp [UInt8.ne_of_lt before]
  | case5 rest other others notBefore inductionHypothesis =>
      simp [inductionHypothesis]
  | case6 first rest other others notBefore different =>
      simp [different]

/-- The texts one after the other, with a separator between neighbours. -/
def join (separator : Text) (parts : List Text) : Text :=
  separator.intercalate parts

/-- The byte of a hexadecimal digit, in lower case. -/
def hexDigit (value : Nat) : UInt8 :=
  if value < 10 then 0x30 + value.toUInt8 else 0x57 + value.toUInt8

/-- The two hexadecimal digits of a byte. -/
def hexByte (byte : UInt8) : Text :=
  [hexDigit (byte.toNat / 16), hexDigit (byte.toNat % 16)]

/-- The lowest `count` hexadecimal digits of a number, highest first. -/
def hexDigits : Nat → Nat → Text
  | 0, _ => []
  | count + 1, value =>
      hexDigits count (value / 16) ++ [hexDigit (value % 16)]

/-- Fill up with spaces on the left. -/
def padLeft (size : Nat) (text : Text) : Text :=
  List.replicate (size - text.length) 0x20 ++ text

/-- Fill up with spaces on the right. -/
def padRight (size : Nat) (text : Text) : Text :=
  text ++ List.replicate (size - text.length) 0x20

/-- Split at the first byte `mark`, which belongs to neither part. -/
def cut (mark : UInt8) (text : Text) : Option (Text × Text) :=
  match text.span (· != mark) with
  | (_, []) => none
  | (before, _ :: after) => some (before, after)

end Text

end FlatAsm
