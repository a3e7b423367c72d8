import PathReplay.Instruction.Operation

/-!
# Checked arithmetic

The instructions that shift, rotate, multiply and divide once more, out of operations on machine integers that are
partial: a shift by as many bits as the integer has, or by more, has no result, and neither has a quotient or a
remainder by zero. `Machine.executeChecked` executes an instruction so; it ends in `none` where the instruction comes to
an operation without a result.
-/

namespace PathReplay

namespace Arithmetic.Checked

/-! ## Operations on machine integers -/

def shl (a : UInt64) (n : Nat) : Option UInt64 := if n < 64 then some (a <<< UInt64.ofNat n) else none

def shr (a : UInt64) (n : Nat) : Option UInt64 := if n < 64 then some (a >>> UInt64.ofNat n) else none

def sar (i : Int) (n : Nat) : Option Int := if n < 64 then some (i >>> n) else none

def shlDouble (x n : Nat) : Option Nat := if n < 128 then some ((x <<< n) % doubleCount) else none

def shrDouble (x n : Nat) : Option Nat := if n < 128 then some (x >>> n) else none

def sarDouble (i : Int) (n : Nat) : Option Int := if n < 128 then some (i >>> n) else none

def quotient (x d : Nat) : Option Nat := if d = 0 then none else some (x / d)

def remainder (x d : Nat) : Option Nat := if d = 0 then none else some (x % d)

/-! ## Words of a given width -/

/-- An operand's width in bits, as a 64-bit number. -/
def wordBits (width : Nat) : Nat := width * 8 % UInt64.size

def mask (width : Nat) : Option UInt64 :=
  if 8 ≤ width then some 0xFFFFFFFFFFFFFFFF else (shl 1 (8 * width)).map (· - 1)

def signBit (value : UInt64) (width : Nat) : Option Bool :=
  (shr value (8 * Word.signWidth width - 1)).map lowBit

def signExtend (value : UInt64) (width : Nat) : Option UInt64 := do
  let m ← mask width
  let negative ← signBit (value &&& m) width
  return if negative then (value &&& m) ||| ~~~m else value &&& m

def toInt (value : UInt64) (width : Nat) : Option Int := do
  return (← signExtend value width).toInt64.toInt

def resultFlags (value : UInt64) (width : Nat) : Option (List (Flag × Bool)) := do
  let v := value &&& (← mask width)
  return [(.zero, v == 0), (.sign, ← signBit v width), (.parity, Word.evenParity v)]

/-! ## Shifts and rotates -/

/-- What is left of a value after a shift to the left. -/
def shiftedLeft (width : Nat) (a : UInt64) (count : Nat) : Option UInt64 :=
  if widthBits width ≤ count then some 0 else do return (← shl a count) &&& (← mask width)

/-- The bit that a shift to the left moves out last. -/
def lastOut (width : Nat) (a : UInt64) (count : Nat) : Option Bool :=
  if count ≤ widthBits width then (shr a (widthBits width - count)).map lowBit else some false

def shiftLeft (width : Nat) (a : UInt64) (count : Nat) : Option Result := do
  let value ← shiftedLeft width a count
  let carry ← lastOut width a count
  let negative ← signBit value width
  return { value, flags := (.carry, carry) :: (.overflow, negative != carry) :: (← resultFlags value width) }

/-- What is shifted out as a whole is zero here, and so is the bit that goes last. -/
def shiftRight (width : Nat) (a : UInt64) (count : Nat) : Option Result := do
  let value := (shr a count).getD 0
  let carry := lowBit ((shr a (count - 1)).getD 0)
  return { value, flags := (.carry, carry) :: (.overflow, ← signBit a width) :: (← resultFlags value width) }

def shiftRightSigned (width : Nat) (a : UInt64) (count : Nat) : Option Result := do
  let i ← toInt a width
  let value := Word.ofInt (← sar i (min count 63)) &&& (← mask width)
  let carry := (← sar i (min (count - 1) 63)) % 2 == 1
  return { value, flags := (.carry, carry) :: (.overflow, false) :: (← resultFlags value width) }

def rotateLeft (width : Nat) (a : UInt64) (count : Nat) : Option (Option Result) := do
  let bits := widthBits width
  let count ← remainder count bits
  if count = 0 then pure none
  else
    let value := ((← shl a count) ||| (← shr a (bits - count))) &&& (← mask width)
    let carry := lowBit value
    let negative ← signBit value width
    return some { value, flags := [(.carry, carry), (.overflow, negative != carry)] }

def rotateRight (width : Nat) (a : UInt64) (count : Nat) : Option (Option Result) := do
  let bits := widthBits width
  let count ← remainder count bits
  if count = 0 then pure none
  else
    let value := ((← shr a count) ||| (← shl a (bits - count))) &&& (← mask width)
    let carry ← signBit value width
    let second ← signBit (← shl value 1) width
    return some { value, flags := [(.carry, carry), (.overflow, carry != second)] }

/-! ## Products and quotients -/

def halves (width n : Nat) : Option (UInt64 × UInt64) := do
  let m ← mask width
  let high ← shrDouble n (wordBits width)
  return (UInt64.ofNat n &&& m, UInt64.ofNat high &&& m)

def overflowsUnsigned (width product : Nat) : Option Bool := do
  return (← shrDouble product (wordBits width)) != 0

def overflowsSigned (width : Nat) (product : Int) : Option Bool := do
  return (← toInt (Word.ofInt product) width) != product

def joinHalves (width : Nat) (high low : UInt64) : Option Nat := do
  return (← shlDouble high.toNat (wordBits width)) ||| low.toNat

/-- The significant bits of a double-width value, moved to its top and back. -/
def significant (width dividend : Nat) : Option Int :=
  let bits := width * 16 % UInt32.size
  if bits < 128 then do
    let moved ← shlDouble dividend (128 - bits)
    sarDouble (Int.bmod moved doubleCount) (128 - bits)
  else some (Int.bmod dividend doubleCount)

def divide (width dividend divisor : Nat) : Option (Option (Nat × Nat)) := do
  let q ← quotient dividend divisor
  let m ← mask width
  if m.toNat < q then pure none
  else return some (q, ← remainder dividend divisor)

/-- Division in two's complement asks by itself whether there is a quotient. -/
def divideSigned (width dividend : Nat) (divisor : Int) : Option (Option (Int × Int)) := do
  let d ← significant width dividend
  if divisor = 0 then pure none
  else
    let overflows ← overflowsSigned width (d.tdiv divisor)
    return if overflows then none else some (d.tdiv divisor, d.tmod divisor)

end Arithmetic.Checked

namespace Exec.Checked

open Arithmetic

/-! ## Instructions -/

def step {α : Type} (x : Option α) : OptionT Exec α := OptionT.mk (pure x)

def shift (i : Instruction) (op : Nat → UInt64 → Nat → Option Result) : OptionT Exec Unit := do
  let (dst, a, count) ← shiftOperands i
  if count = 0 then pure ()
  else
    let r ← step (op dst.width a count)
    finish dst r

def rotate (i : Instruction) (op : Nat → UInt64 → Nat → Option (Option Result)) : OptionT Exec Unit := do
  let (dst, a, count) ← shiftOperands i
  match ← step (op dst.width a count) with
  | some r => finish dst r
  | none => pure ()

def storeProduct (product width : Nat) : OptionT Exec Unit := do
  if width = 1 then setRegister "ax" (UInt64.ofNat product &&& 0xFFFF)
  else
    let (low, high) ← step (Arithmetic.Checked.halves width product)
    setRegister (accumulators width).1 low
    setRegister (accumulators width).2 high

def multiply (i : Instruction) : OptionT Exec Unit := do
  let src ← operand i 0
  let a ← register (accumulators src.width).1
  let b ← value src
  let m ← step (Arithmetic.Checked.mask src.width)
  let product := a.toNat * (b &&& m).toNat
  let overflows ← step (Arithmetic.Checked.overflowsUnsigned src.width product)
  setFlags (productFlags overflows)
  storeProduct product src.width

def multiplyAccumulator (i : Instruction) : OptionT Exec Unit := do
  let src ← operand i 0
  let a ← register (accumulators src.width).1
  let b ← value src
  let x ← step (Arithmetic.Checked.toInt a src.width)
  let y ← step (Arithmetic.Checked.toInt b src.width)
  let overflows ← step (Arithmetic.Checked.overflowsSigned src.width (x * y))
  setFlags (productFlags overflows)
  storeProduct (toDouble (x * y)) src.width

def multiplySigned (i : Instruction) : OptionT Exec Unit := do
  if i.operands.length = 1 then multiplyAccumulator i
  else
    let dst ← operand i 0
    let x ← operand i (if i.operands.length = 2 then 0 else 1)
    let y ← operand i (if i.operands.length = 2 then 1 else 2)
    let a ← step (Arithmetic.Checked.toInt (← value x) x.width)
    let b ← step (Arithmetic.Checked.toInt (← value y) y.width)
    let m ← step (Arithmetic.Checked.mask dst.width)
    let overflows ← step (Arithmetic.Checked.overflowsSigned dst.width (a * b))
    setFlags (productFlags overflows)
    store dst (Word.ofInt (a * b) &&& m)

def dividend (width : Nat) : OptionT Exec Nat := do
  if width = 1 then return (← register "ax").toNat
  else
    let high ← register (accumulators width).2
    let low ← register (accumulators width).1
    step (Arithmetic.Checked.joinHalves width high low)

def storeDivision (width : Nat) (quotient remainder : UInt64) : OptionT Exec Unit := do
  let m ← step (Arithmetic.Checked.mask width)
  setRegister (accumulators width).1 (quotient &&& m)
  setRegister (accumulators width).2 (remainder &&& m)

def divide (i : Instruction) : OptionT Exec Unit := do
  let src ← operand i 0
  let b ← value src
  let divisor := b &&& (← step (Arithmetic.Checked.mask src.width))
  if divisor = 0 then pure ()
  else
    match ← step (Arithmetic.Checked.divide src.width (← dividend src.width) divisor.toNat) with
    | some (q, r) => storeDivision src.width (UInt64.ofNat q) (UInt64.ofNat r)
    | none => pure ()

def divideSigned (i : Instruction) : OptionT Exec Unit := do
  let src ← operand i 0
  let b ← value src
  let divisor ← step (Arithmetic.Checked.toInt b src.width)
  if divisor = 0 then pure ()
  else
    match ← step (Arithmetic.Checked.divideSigned src.width (← dividend src.width) divisor) with
    | some (q, r) => storeDivision src.width (Word.ofInt q) (Word.ofInt r)
    | none => pure ()

end Exec.Checked

def Operation.runChecked (op : Operation) (i : Instruction) : OptionT Exec Unit :=
  match op with
  | shiftLeft => Exec.Checked.shift i Arithmetic.Checked.shiftLeft
  | shiftRight => Exec.Checked.shift i Arithmetic.Checked.shiftRight
  | shiftRightSigned => Exec.Checked.shift i Arithmetic.Checked.shiftRightSigned
  | rotateLeft => Exec.Checked.rotate i Arithmetic.Checked.rotateLeft
  | rotateRight => Exec.Checked.rotate i Arithmetic.Checked.rotateRight
  | multiply => Exec.Checked.multiply i
  | multiplySigned => Exec.Checked.multiplySigned i
  | divide => Exec.Checked.divide i
  | divideSigned => Exec.Checked.divideSigned i
  | op => OptionT.lift (op.run i)

/-- Executes the instruction at an address with checked arithmetic. -/
def Machine.executeChecked (a : Address) : OptionT Exec Unit := OptionT.mk fun m =>
  match m.listing.decode? a with
  | none => .error (.invalidInstruction a) m
  | some i =>
    match Operation.ofMnemonic? i.mnemonic with
    | some op => (op.runChecked i).run (m.prepare a i)
    | none => .ok (some ()) (m.prepare a i)

end PathReplay
