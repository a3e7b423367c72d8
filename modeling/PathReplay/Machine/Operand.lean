import PathReplay.Machine.Basic

/-!
# Operands against a machine

The address and the value that an operand has in a machine. A register that the architecture does not know
counts as zero when it is read; writing to one is an error.
-/

namespace PathReplay.Machine

/-- The contents of a register, or zero if there is none of that name. -/
def registerOrZero (m : Machine) (name : String) : UInt64 :=
  match m.registers.get name with
  | .ok v => v
  | .error _ => 0

/-- The contents of a register that may be absent. -/
def optionalRegister (m : Machine) (name : Option String) : UInt64 :=
  match name with
  | some name => m.registerOrZero name
  | none => 0

/-- The address of a memory reference, cut to the pointer width. -/
def referenceAddress (m : Machine) (r : MemoryReference) : Address :=
  m.arch.wrap (r.displacement.toUInt64 + m.optionalRegister r.base +
    m.optionalRegister r.index * r.scale.toUInt64)

def operandAddress? (m : Machine) (o : Operand) : Option Address :=
  match o.kind with
  | .memory r => some (m.referenceAddress r)
  | _ => none

/-- The value of a register operand. A floating point register gives its pattern, an empty one zero. -/
def registerValue (m : Machine) (name : String) : UInt64 :=
  match m.registers.get name with
  | .ok v => v
  | .error (.floatRegister _) =>
    match m.registers.getFloat name with
    | .ok (some x) => x.bits
    | _ => 0
  | .error _ => 0

def operandValue (m : Machine) (o : Operand) : UInt64 :=
  match o.kind with
  | .register name => m.registerValue name
  | .immediate value => value &&& Word.mask o.width
  | .near target => target
  | .memory r => m.readWord (m.referenceAddress r) o.width

/-- The value of an operand, its sign at the operand's width extended. -/
def signedValue (m : Machine) (o : Operand) : UInt64 := Word.signExtend (m.operandValue o) o.width

/-- The value of an operand in two's complement at its width. -/
def integerValue (m : Machine) (o : Operand) : Int := Word.toInt (m.operandValue o) o.width

def setRegister (m : Machine) (name : String) (value : UInt64) : Except Error Machine :=
  (m.registers.set name value).map m.withRegisters

/-- The machine with an operand written. Immediate values and code addresses cannot be, and stay. -/
def setOperand (m : Machine) (o : Operand) (value : UInt64) : Except Error Machine :=
  match o.kind with
  | .register name => m.setRegister name value
  | .memory r => .ok (m.writeWord (m.referenceAddress r) value o.width)
  | _ => .ok m

def operands (m : Machine) : List Operand := (m.instruction?.map Instruction.operands).getD []

/-- Whether an operand names the entry of a function, directly or through the memory it refers to. -/
def isFunctionPointer (m : Machine) (o : Operand) : Bool :=
  ((m.operandAddress? o).any m.listing.isFunctionStart) || m.listing.isFunctionStart (m.operandValue o)

end PathReplay.Machine
