/-!
# Double precision numbers as bit patterns

A `Double` is the 64-bit pattern of an IEEE 754 binary64 number, so that the payload of a NaN is part
of it. The pattern's fields are `negative`, `exponent` (biased, 11 bits) and `fraction` (52 bits), and
the classes of numbers are stated on them. `add`, `sub`, `mul` and `div` round to nearest; a NaN operand
passes through, the left one first, with its quiet bit set, and an operation that has no result gives
`indefinite`. `less` compares, with the two zeros equal.
-/

namespace PathReplay

/-- The bit pattern of a double precision number. -/
structure Double where
  bits : UInt64
deriving DecidableEq, Inhabited

namespace Double

def negative (x : Double) : Bool := x.bits.toNat.testBit 63

def exponent (x : Double) : Nat := x.bits.toNat / 0x10000000000000 % 0x800

/-- The 52 bits after the binary point. -/
def fraction (x : Double) : Nat := x.bits.toNat % 0x10000000000000

theorem exponent_lt (x : Double) : x.exponent < 0x800 := Nat.mod_lt _ (by decide)

theorem fraction_lt (x : Double) : x.fraction < 0x10000000000000 := Nat.mod_lt _ (by decide)

/-- Not a number: the largest exponent with a nonzero fraction. -/
def isNaN (x : Double) : Bool := x.exponent == 2047 && x.fraction != 0

def isFinite (x : Double) : Bool := x.exponent != 2047

def isZero (x : Double) : Bool := x.exponent == 0 && x.fraction == 0

def zero : Double := ⟨0⟩
def one : Double := ⟨0x3FF0000000000000⟩
def infinity : Double := ⟨0x7FF0000000000000⟩

/-- The quiet NaN that stands for a missing value. -/
def nan : Double := ⟨0x7FF8000000000000⟩

/-- The quiet NaN of an operation that has no result. -/
def indefinite : Double := ⟨0xFFF8000000000000⟩

def neg (x : Double) : Double := ⟨x.bits ^^^ 0x8000000000000000⟩

def abs (x : Double) : Double := ⟨x.bits &&& 0x7FFFFFFFFFFFFFFF⟩

/-- A NaN with its quiet bit set. -/
def quieted (x : Double) : Double := ⟨x.bits ||| 0x0008000000000000⟩

/-- A rounded operation on two numbers, with the rule for NaNs. -/
def lift (op : Float → Float → Float) (x y : Double) : Double :=
  if x.isNaN then x.quieted
  else if y.isNaN then y.quieted
  else
    let r : Double := ⟨(op (Float.ofBits x.bits) (Float.ofBits y.bits)).toBits⟩
    if r.isNaN then indefinite else r

def add : Double → Double → Double := lift (· + ·)
def sub : Double → Double → Double := lift (· - ·)
def mul : Double → Double → Double := lift (· * ·)
def div : Double → Double → Double := lift (· / ·)

/-- The magnitude's pattern with the number's sign: numbers other than NaNs are ordered like these. -/
def rank (x : Double) : Int :=
  let m : Int := x.bits.toNat % 0x8000000000000000
  if x.negative then -m else m

/-- Strictly below, for two numbers that are not NaNs. -/
def less (x y : Double) : Bool := x.rank < y.rank

def ofInt64 (i : Int64) : Double := ⟨i.toFloat.toBits⟩

/-- A single precision pattern as a double. -/
def ofSingle (bits : UInt32) : Double :=
  let wide := bits.toUInt64
  let payload : UInt64 := wide &&& 0x007FFFFF
  if (wide &&& 0x7F800000) = 0x7F800000 ∧ payload ≠ 0 then
    let sign : UInt64 := (wide &&& 0x80000000) <<< 32
    ⟨sign ||| 0x7FF8000000000000 ||| (payload <<< (29 : UInt64))⟩
  else ⟨(Float32.ofBits bits).toFloat.toBits⟩

/-- The single precision pattern nearest to a double. -/
def toSingle (x : Double) : UInt32 :=
  if x.isNaN then
    let sign : UInt64 := (x.bits >>> 32) &&& 0x80000000
    let payload : UInt64 := (x.bits >>> 29) &&& 0x003FFFFF
    (sign ||| 0x7FC00000 ||| payload).toUInt32
  else (Float.ofBits x.bits).toFloat32.toBits

end Double
end PathReplay
