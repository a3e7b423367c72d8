import PathReplay.Instruction.Exec
import PathReplay.Instruction.Shift

/-!
# Integer instructions

Arithmetic, logic, shifts, multiplication and division on operands. The source of a two-operand instruction
has its sign extended to the width of the destination.
-/

namespace PathReplay.Exec

open Arithmetic

/-- Sets the flags of a result and stores its value. -/
def finish (dst : Operand) (r : Result) : Exec Unit := do
  setFlags r.flags
  store dst r.value

/-- The destination, its value, and the value of the source at the destination's width. -/
def binary (i : Instruction) : Exec (Operand × UInt64 × UInt64) := do
  let dst ← operand i 0
  let src ← operand i 1
  let b ← signedValue src
  return (dst, ← value dst, b &&& Word.mask dst.width)

/-- Adds, with the carry flag if asked for. -/
def add (i : Instruction) (withCarry : Bool) : Exec Unit := do
  let (dst, a, b) ← binary i
  let carry ← flag .carry
  finish dst (sum dst.width a b (withCarry && carry))

/-- Subtracts, with the carry flag as a borrow if asked for. -/
def subtract (i : Instruction) (withBorrow : Bool) : Exec Unit := do
  let (dst, a, b) ← binary i
  let carry ← flag .carry
  finish dst (difference dst.width a b (withBorrow && carry))

/-- Sets the flags of a subtraction. -/
def compare (i : Instruction) : Exec Unit := do
  let (dst, a, b) ← binary i
  setFlags (difference dst.width a b false).flags

/-- Adds one; the carry flag stays. -/
def increment (i : Instruction) : Exec Unit := do
  let dst ← operand i 0
  finish dst (sum dst.width (← value dst) 1 false).keepingCarry

/-- Subtracts one; the carry flag stays. -/
def decrement (i : Instruction) : Exec Unit := do
  let dst ← operand i 0
  finish dst (difference dst.width (← value dst) 1 false).keepingCarry

def negate (i : Instruction) : Exec Unit := do
  let dst ← operand i 0
  finish dst (difference dst.width 0 (← value dst) false)

def bitwise (i : Instruction) (op : UInt64 → UInt64 → UInt64) : Exec Unit := do
  let (dst, a, b) ← binary i
  finish dst (logical dst.width (op a b))

/-- Sets the flags of a bitwise conjunction. -/
def test (i : Instruction) : Exec Unit := do
  let (dst, a, b) ← binary i
  setFlags (logical dst.width (a &&& b)).flags

def complement (i : Instruction) : Exec Unit := do
  let dst ← operand i 0
  store dst (~~~(← value dst) &&& Word.mask dst.width)

/-- The destination of a shift, its value and the count, which is one if there is no second operand. -/
def shiftOperands (i : Instruction) : Exec (Operand × UInt64 × Nat) := do
  let dst ← operand i 0
  let count ← view fun m => ((i.operands[1]?).map m.operandValue).getD 1
  let a ← value dst
  return (dst, a &&& Word.mask dst.width, maskedCount dst.width count)

/-- A shift. A count of zero has no effect. -/
def shift (i : Instruction) (op : Nat → UInt64 → Nat → Result) : Exec Unit := do
  let (dst, a, count) ← shiftOperands i
  if count = 0 then pure () else finish dst (op dst.width a count)

/-- A rotate. Where the destination has no bits the program ends at the remainder of the count: `Instruction.Aborts`. -/
def rotate (i : Instruction) (op : Nat → UInt64 → Nat → Option Result) : Exec Unit := do
  let (dst, a, count) ← shiftOperands i
  match op dst.width a count with
  | some r => finish dst r
  | none => pure ()

def storeProduct (product width : Nat) : Exec Unit := do
  if width = 1 then setRegister "ax" (UInt64.ofNat product &&& 0xFFFF)
  else
    let (low, high) := halves width product
    setRegister (accumulators width).1 low
    setRegister (accumulators width).2 high

/-- The unsigned product of the accumulator and an operand. -/
def multiply (i : Instruction) : Exec Unit := do
  let src ← operand i 0
  let a ← register (accumulators src.width).1
  let b ← value src
  let product := a.toNat * (b &&& Word.mask src.width).toNat
  setFlags (productFlags (overflowsUnsigned src.width product))
  storeProduct product src.width

/-- The signed product of the accumulator and an operand. -/
def multiplyAccumulator (i : Instruction) : Exec Unit := do
  let src ← operand i 0
  let a ← register (accumulators src.width).1
  let b ← view fun m => m.integerValue src
  let product := Word.toInt a src.width * b
  setFlags (productFlags (overflowsSigned src.width product))
  storeProduct (toDouble product) src.width

/-- The signed product of the accumulator and one operand, of two operands, or of the last two of three, in
the latter cases cut to the width of the destination. -/
def multiplySigned (i : Instruction) : Exec Unit := do
  if i.operands.length = 1 then multiplyAccumulator i
  else
    let dst ← operand i 0
    let x ← operand i (if i.operands.length = 2 then 0 else 1)
    let y ← operand i (if i.operands.length = 2 then 1 else 2)
    let product ← view fun m => m.integerValue x * m.integerValue y
    setFlags (productFlags (overflowsSigned dst.width product))
    store dst (Word.ofInt product &&& Word.mask dst.width)

def dividend (width : Nat) : Exec Nat := do
  if width = 1 then return (← register "ax").toNat
  else
    let high ← register (accumulators width).2
    let low ← register (accumulators width).1
    return joinHalves width high low

/-- Stores a quotient and a remainder in the accumulator and its partner. -/
def storeDivision (width : Nat) (quotient remainder : UInt64) : Exec Unit := do
  setRegister (accumulators width).1 (quotient &&& Word.mask width)
  setRegister (accumulators width).2 (remainder &&& Word.mask width)

/-- The unsigned quotient and remainder of the accumulators and an operand. Without effect if the operand is
zero or the quotient does not fit. -/
def divide (i : Instruction) : Exec Unit := do
  let src ← operand i 0
  let divisor := (← value src) &&& Word.mask src.width
  if divisor = 0 then pure ()
  else
    match divide? src.width (← dividend src.width) divisor.toNat with
    | some (q, r) => storeDivision src.width (UInt64.ofNat q) (UInt64.ofNat r)
    | none => pure ()

/-- The signed quotient, toward zero, and remainder of the accumulators and an operand. Without effect if the
operand is zero or the quotient does not fit. -/
def divideSigned (i : Instruction) : Exec Unit := do
  let src ← operand i 0
  let divisor ← view fun m => m.integerValue src
  if divisor = 0 then pure ()
  else
    match divideSigned? src.width (← dividend src.width) divisor with
    | some (q, r) => storeDivision src.width (Word.ofInt q) (Word.ofInt r)
    | none => pure ()

end PathReplay.Exec
