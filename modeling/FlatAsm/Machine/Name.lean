import FlatAsm.Text.Decimal

/-!
# Names of numbered things

Opcodes, registers, widths and the like are numbers with names.  A number
without a name is shown together with the kind of thing it is.
-/

namespace FlatAsm

/--
The name of a numbered thing, or its kind and number if it has none.

The names are those of the numbers 0, 1, 2 and so on.
-/
def numberedName (kind : Text) (names : List Text) (number : Int) : Text :=
  let unnamed := kind ++ [0x28] ++ Text.ofInt number ++ [0x29]
  if number < 0 then unnamed else names.getD number.toNat unnamed

end FlatAsm
