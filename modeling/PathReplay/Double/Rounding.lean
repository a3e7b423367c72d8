import PathReplay.Word
import PathReplay.Double.Basic

/-!
# Rounding a double to an integer

`roundEven?` is the nearest integer to a finite number, an exact half going to the even neighbour,
computed exactly on the number's fields. `toWord` stores it in a given width: what does not fit becomes
the most negative value of that width.
-/

namespace PathReplay.Double

/-- The significand as an integer, hidden bit included. -/
def significand (x : Double) : Nat :=
  if x.exponent = 0 then x.fraction else 0x10000000000000 + x.fraction

/-- A finite number is `± significand * 2 ^ scale`. -/
def scale (x : Double) : Int := max 1 (x.exponent : Int) - 1075

/-- The quotient by `2 ^ k`, rounded to nearest with an exact half to the even neighbour. -/
def shiftRightEven (m k : Nat) : Nat :=
  let unit := 1 <<< k
  let q := m / unit
  let r := m % unit
  if 2 * r < unit then q else if unit < 2 * r then q + 1 else q + q % 2

/-- The nearest integer of a finite number. -/
def roundEven? (x : Double) : Option Int :=
  if x.isFinite then
    let magnitude := if 0 ≤ x.scale then x.significand <<< x.scale.toNat
      else shiftRightEven x.significand (-x.scale).toNat
    some (if x.negative then -magnitude else magnitude)
  else none

/-- The most negative value of a width. -/
def indefiniteWord (width : Nat) : UInt64 := UInt64.ofNat (1 <<< (8 * Word.signWidth width - 1))

/-- The nearest integer as a `width`-byte word, or the width's most negative value if it does not fit. -/
def toWord (x : Double) (width : Nat) : UInt64 :=
  match x.roundEven? with
  | some i =>
    let word := Word.ofInt i
    if -0x8000000000000000 ≤ i ∧ i < 0x8000000000000000 ∧ Word.signExtend word width = word then word &&& Word.mask width
    else indefiniteWord width
  | none => indefiniteWord width

end PathReplay.Double
