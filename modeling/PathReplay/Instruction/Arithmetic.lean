import PathReplay.Word
import PathReplay.Register.Layout

/-!
# Integer arithmetic with flags

Each operation takes operand values with a width in bytes and gives the value to store and the flags that it
sets: `sum` and `difference` (with a carry or borrow in) and `logical`. Of a product, `halves` gives the values to store
and `productFlags` the flags; `divide?` and `divideSigned?` give a quotient with its remainder and set no flags. Flags
that an operation does not list stay as they are.
-/

namespace PathReplay.Arithmetic

/-- A value to store and the flags that go with it. -/
structure Result where
  value : UInt64
  flags : List (Flag × Bool)
deriving DecidableEq

def resultFlags (value : UInt64) (width : Nat) : List (Flag × Bool) :=
  let v := value &&& Word.mask width
  [(.zero, v == 0), (.sign, Word.signBit v width), (.parity, Word.evenParity v)]

/-- Whether a sum, or a difference, of two values carries out of its low four bits. -/
def carriesOutOfNibble (a b result : UInt64) : Bool := ((a ^^^ b ^^^ result) &&& 0x10) != 0

/-- `a + b + carry`. -/
def sum (width : Nat) (a b : UInt64) (carry : Bool) : Result :=
  let m := Word.mask width
  let a := a &&& m
  let b := b &&& m
  let exact := a.toNat + b.toNat + carry.toNat
  let value := UInt64.ofNat exact &&& m
  { value
    flags :=
      (.carry, m.toNat < exact) ::
      (.overflow, Word.signBit a width == Word.signBit b width &&
        Word.signBit value width != Word.signBit a width) ::
      (.adjust, carriesOutOfNibble a b value) :: resultFlags value width }

/-- `a - b - borrow`. -/
def difference (width : Nat) (a b : UInt64) (borrow : Bool) : Result :=
  let m := Word.mask width
  let a := a &&& m
  let b := b &&& m
  let value := (a - b - borrow.toUInt64) &&& m
  { value
    flags :=
      (.carry, a.toNat < b.toNat + borrow.toNat) ::
      (.overflow, Word.signBit a width != Word.signBit b width &&
        Word.signBit value width != Word.signBit a width) ::
      (.adjust, carriesOutOfNibble a b value) :: resultFlags value width }

/-- The result of a bitwise operation: carry, overflow and adjust are clear. -/
def logical (width : Nat) (value : UInt64) : Result :=
  { value
    flags := (.carry, false) :: (.overflow, false) :: (.adjust, false) :: resultFlags value width }

/-- A result whose carry flag stays as it was. -/
def Result.keepingCarry (r : Result) : Result :=
  { r with flags := r.flags.filter fun f => f.1 != .carry }

/-! ## Products and quotients -/

/-- How far apart the two halves of a double-width value are, in bits. -/
def halfShift (width : Nat) : Nat := width * 8 % 128

theorem halfShift_of_lt {width : Nat} (h : width < 16) : halfShift width = 8 * width := by
  unfold halfShift; omega

def halves (width : Nat) (n : Nat) : UInt64 × UInt64 :=
  (UInt64.ofNat n &&& Word.mask width,
    UInt64.ofNat (n >>> halfShift width) &&& Word.mask width)

/-- The flags of a product: both set if it does not fit the width. -/
def productFlags (overflows : Bool) : List (Flag × Bool) := [(.carry, overflows), (.overflow, overflows)]

def doubleCount : Nat := 1 <<< 128

def toDouble (i : Int) : Nat := (i % (doubleCount : Int)).toNat

def overflowsSigned (width : Nat) (product : Int) : Bool :=
  Word.toInt (Word.ofInt product) width != product

def overflowsUnsigned (width : Nat) (product : Nat) : Bool := product >>> halfShift width != 0

def joinHalves (width : Nat) (high low : UInt64) : Nat :=
  ((high.toNat <<< halfShift width) % doubleCount) ||| low.toNat

/-- The quotient and the remainder of a double-width value, if the quotient fits the width. -/
def divide? (width : Nat) (dividend divisor : Nat) : Option (Nat × Nat) :=
  if divisor = 0 then none
  else if (Word.mask width).toNat < dividend / divisor then none
  else some (dividend / divisor, dividend % divisor)

/-- How many bits of a double-width value are significant in a signed division. -/
def dividendBits (width : Nat) : Nat :=
  let bits := width * 16 % UInt32.size
  if 0 < bits ∧ bits < 128 then bits else 128

/-- The quotient, toward zero, and the remainder of a double-width value in two's complement, if the
quotient fits the width. -/
def divideSigned? (width : Nat) (dividend : Nat) (divisor : Int) : Option (Int × Int) :=
  let d := Int.bmod dividend (1 <<< dividendBits width)
  if divisor = 0 then none
  else if overflowsSigned width (d.tdiv divisor) then none
  else some (d.tdiv divisor, d.tmod divisor)

end PathReplay.Arithmetic
