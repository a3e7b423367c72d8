import PathReplay.Word
import PathReplay.Double.Basic

/-!
# Extended precision

The ten-byte extended format: a sign, a 15-bit exponent and a 64-bit mantissa whose top bit is explicit,
stored with the mantissa first. `Extended.ofDouble` loses nothing; `Extended.toDouble` rounds.
-/

namespace PathReplay

/-- An extended precision number: `± mantissa * 2 ^ (exponent - 16383 - 63)`. -/
structure Extended where
  negative : Bool
  exponent : Nat
  mantissa : UInt64
deriving DecidableEq

namespace Extended

/-- How far the top bit of a nonzero 52-bit fraction is below bit 52. -/
def leadingShift (fraction : Nat) : Nat := 52 - Nat.log2 fraction

/-- The fields of a double. A subnormal number gets its top bit back. -/
def ofDouble (x : Double) : Extended :=
  let top : UInt64 := 0x8000000000000000
  let shifted := UInt64.ofNat (x.fraction <<< 11)
  if x.isZero then ⟨x.negative, 0, 0⟩
  else if x.exponent = 2047 then ⟨x.negative, 0x7FFF, top ||| shifted⟩
  else if x.exponent = 0 then
    let shift := leadingShift x.fraction
    ⟨x.negative, 15361 - shift, UInt64.ofNat (x.fraction <<< (shift + 11))⟩
  else ⟨x.negative, x.exponent + 15360, top ||| shifted⟩

/-- The nearest double. The largest exponent marks an infinity if no mantissa bit but the top one is set. -/
def toDouble (x : Extended) : Double :=
  let magnitude : Double :=
    if x.exponent = 0 ∧ x.mantissa = 0 then .zero
    else if x.exponent = 0x7FFF then if x.mantissa <<< 1 = 0 then .infinity else .nan
    else ⟨(x.mantissa.toFloat.scaleB ((x.exponent : Int) - 16446)).toBits⟩
  if x.negative then magnitude.neg else magnitude

def signExponent (x : Extended) : Nat := x.exponent % 0x8000 + if x.negative then 0x8000 else 0

def toBytes (x : Extended) : Bytes :=
  Word.toBytes x.mantissa 8 ++ Word.toBytes (UInt64.ofNat x.signExponent) 2

/-- The number in the first ten bytes; missing ones count as zero. -/
def ofBytes (data : Bytes) : Extended :=
  let top := (Word.ofBytes ((data.drop 8).take 2)).toNat
  { negative := top.testBit 15
    exponent := top % 0x8000
    mantissa := Word.ofBytes (data.take 8) }

end Extended
end PathReplay
