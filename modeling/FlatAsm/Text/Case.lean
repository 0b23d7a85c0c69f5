import FlatAsm.Text

/-!
# Lower case

Keywords are recognised in any mixture of cases, by comparing their lower
case.
-/

namespace FlatAsm.Text

/--
Turn a text into lower case, onto the bytes before it, which are held in
reverse.

Of the characters beyond ASCII only two become ASCII letters: the dotted
capital I and the Kelvin sign.  All others stay what they are, since no name
of the machine has such a character.
-/
def lowerCaseOnto (reversed : Text) : Text → Text
  | [] => reversed.reverse
  | 0xc4 :: 0xb0 :: rest => lowerCaseOnto (0x69 :: reversed) rest
  | 0xe2 :: 0x84 :: 0xaa :: rest => lowerCaseOnto (0x6b :: reversed) rest
  | byte :: rest =>
      lowerCaseOnto
        ((if 0x41 ≤ byte ∧ byte ≤ 0x5a then byte + 0x20 else byte) ::
          reversed)
        rest

/-- The text in lower case, as far as names of the machine are concerned. -/
def lowerCase (text : Text) : Text :=
  lowerCaseOnto [] text

end FlatAsm.Text
