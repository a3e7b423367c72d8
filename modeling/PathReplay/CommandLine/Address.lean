import PathReplay.Word
import PathReplay.Text.Blank
import PathReplay.Text.Digits

/-!
# Addresses on the command line

An address is written in hexadecimal, bare, after `0x` or `0X`, or in front of `h` or `H`, with blanks around
it. `addressDigits` takes the mark away, and `parseAddress?` reads the digits.
-/

namespace PathReplay.CommandLine

/-- What follows a leading text. -/
def after? : List Char → List Char → Option (List Char)
  | [], cs => some cs
  | l :: ls, c :: cs => if l = c then after? ls cs else none
  | _ :: _, [] => none

theorem after?_eq_some_iff {l cs ds : List Char} : after? l cs = some ds ↔ cs = l ++ ds := by
  induction l generalizing cs with
  | nil => simp [after?]
  | cons x xs ih =>
    cases cs with
    | nil => simp [after?]
    | cons c cs =>
      by_cases h : x = c
      · simp [after?, h, ih]
      · simp [after?, h, Ne.symm h]

/-- What stands in front of a last character. -/
def before? (last : Char) (cs : List Char) : Option (List Char) :=
  if cs.getLast? = some last then some cs.dropLast else none

/-- The digits of an address, without the mark of their base. -/
def addressDigits (cs : List Char) : List Char :=
  ((after? ['0', 'x'] cs).or <| (after? ['0', 'X'] cs).or <|
    (before? 'h' cs).or <| before? 'H' cs).getD cs

/-- An address as it is given on the command line. -/
def parseAddress? (spec : String) : Option Address :=
  Digits.word? 16 (addressDigits (Text.trimmed spec.toList))

end PathReplay.CommandLine
