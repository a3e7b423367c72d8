import PathReplay.Text.Hex
import PathReplay.Text.Unprintable

/-!
# Quoted text

`quoted` writes a text between double quotes. A quote and a backslash get a backslash in front, the
usual blanks their letter, and an unprintable character its code point.
-/

namespace PathReplay.Text

/-- One character inside quotes. -/
def quotedChar (c : Char) : List Char :=
  match c with
  | '"' => ['\\', '"']
  | '\\' => ['\\', '\\']
  | '\t' => ['\\', 't']
  | '\r' => ['\\', 'r']
  | '\n' => ['\\', 'n']
  | '\x00' => ['\\', '0']
  | _ => if isUnprintable c then ['\\', 'u', '\x7b'] ++ Hex.digits c.toNat ++ ['\x7d'] else [c]

def quoted (s : String) : String :=
  String.ofList ('"' :: s.toList.flatMap quotedChar ++ ['"'])

end PathReplay.Text
