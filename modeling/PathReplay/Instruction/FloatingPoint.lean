import PathReplay.Double.Rounding
import PathReplay.Double.Extended
import PathReplay.Instruction.Exec

/-!
# Floating point instructions

Loads, stores, arithmetic and comparisons on the floating point register stack. A memory operand holds a
single precision number if it has four bytes, an extended one if it has ten, and a double otherwise. An empty
stack register counts as a NaN.
-/

namespace PathReplay

namespace Machine

def withFloat (m : Machine) (s : FloatStack) : Machine :=
  m.withRegisters { m.registers with float := s }

def stackPosition? (o : Operand) : Option Nat :=
  match o.kind with
  | .register name => FloatStack.position? name
  | _ => none

def stackValue (m : Machine) (n : Nat) : Double := (m.registers.float.slot n).getD .nan

def readFloat (m : Machine) (a : Address) (size : Nat) : Double :=
  if size = 4 then .ofSingle (m.readWord a 4).toUInt32
  else if size = 10 then (Extended.ofBytes (m.memory.read a 10)).toDouble
  else ⟨m.readWord a 8⟩

/-- The machine with a number written to memory in a given size. -/
def writeFloat (m : Machine) (a : Address) (size : Nat) (x : Double) : Machine :=
  if size = 4 then m.writeWord a x.toSingle.toUInt64 4
  else if size = 10 then m.write a (Extended.ofDouble x).toBytes
  else m.writeWord a x.bits 8

def floatValue (m : Machine) (o : Operand) : Double :=
  match stackPosition? o with
  | some n => m.stackValue n
  | none =>
    match m.operandAddress? o with
    | some a => m.readFloat a o.width
    | none => ⟨m.operandValue o⟩

/-- The machine with a number stored in an operand. Only stack registers and memory can hold one. -/
def setFloat (m : Machine) (o : Operand) (x : Double) : Machine :=
  match stackPosition? o with
  | some n => m.withFloat (m.registers.float.setSlot n x)
  | none =>
    match m.operandAddress? o with
    | some a => m.writeFloat a o.width x
    | none => m

end Machine

namespace Exec

def stackValue (n : Nat) : Exec Double := view fun m => m.stackValue n

def floatValue (o : Operand) : Exec Double := view fun m => m.floatValue o

def setStackValue (n : Nat) (x : Double) : Exec Unit :=
  update fun m => m.withFloat (m.registers.float.setSlot n x)

def pushFloat (x : Double) : Exec Unit := update fun m => m.withFloat (m.registers.float.push x)

def popFloatIf (pops : Bool) : Exec Unit :=
  if pops then update fun m => m.withFloat m.registers.float.pop.2 else pure ()

def loadFloat (i : Instruction) : Exec Unit := do
  pushFloat (← floatValue (← operand i 0))

def loadInteger (i : Instruction) : Exec Unit := do
  let src ← operand i 0
  let v ← signedValue src
  pushFloat (.ofInt64 v.toInt64)

def storeFloat (i : Instruction) (pops : Bool) : Exec Unit := do
  let x ← stackValue 0
  let dst ← operand i 0
  update fun m => m.setFloat dst x
  popFloatIf pops

def storeInteger (i : Instruction) (pops : Bool) : Exec Unit := do
  let dst ← operand i 0
  let x ← stackValue 0
  store dst (x.toWord dst.width)
  popFloatIf pops

/-- Arithmetic. Without operands it combines the two top positions and pops; with one it combines the top
with it; with two it combines the first with the second. -/
def combine (i : Instruction) (op : Double → Double → Double) (pops : Bool) : Exec Unit := do
  match i.operands with
  | [] => setStackValue 1 (op (← stackValue 1) (← stackValue 0))
  | [o] => setStackValue 0 (op (← stackValue 0) (← floatValue o))
  | a :: b :: _ =>
    let x := op (← floatValue a) (← floatValue b)
    update fun m => m.setFloat a x
  popFloatIf (pops || i.operands.isEmpty)

/-- Replaces the top of the stack by a function of it. -/
def mapTop (f : Double → Double) : Exec Unit := do
  setStackValue 0 (f (← stackValue 0))

/-- Exchanges the top of the stack with the position that the last stack operand names, or with the one
below it. -/
def exchangeFloat (i : Instruction) : Exec Unit := do
  let other := (i.operands.reverse.findSome? Machine.stackPosition?).getD 1
  let a ← stackValue 0
  let b ← stackValue other
  setStackValue 0 b
  setStackValue other a

/-- The condition bits `c3`, `c2` and `c0` of a comparison. -/
def comparisonBits (a b : Double) : Bool × Bool × Bool :=
  if a.isNaN || b.isNaN then (true, true, true)
  else if b.less a then (false, false, false)
  else if a.less b then (false, false, true)
  else (true, false, false)

/-- Compares the top of the stack with the last operand, or with the position below it. -/
def compareFloat (i : Instruction) (pops : Bool) : Exec Unit := do
  let a ← stackValue 0
  let b ← match i.operands.getLast? with
    | some o => floatValue o
    | none => stackValue 1
  let (c3, c2, c0) := comparisonBits a b
  let bit := fun (b : Bool) => if b then (1 : BitVec 128) else 0
  update fun m => m.withFloat <|
    m.registers.float.withCondition (bit c3) (bit c2) (bit c0)
  popFloatIf pops

end Exec
end PathReplay
