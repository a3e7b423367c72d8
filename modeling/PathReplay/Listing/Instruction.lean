import PathReplay.Word
import PathReplay.Text.Blank

/-!
# Decoded instructions

Instructions as a disassembler lists them: an address, a mnemonic, a length and operands. An operand is
rendered as a text and says how its value is located: a register, an immediate value, a memory reference
`base + index * scale + displacement`, or a code address.
-/

namespace PathReplay

/-- A memory reference `segment:[base + index * scale + displacement]`. -/
structure MemoryReference where
  segment : Option String
  base : Option String
  index : Option String
  scale : UInt8
  displacement : Int64
deriving DecidableEq

inductive OperandKind where
  | register (name : String)
  /-- A value already sign-extended to 64 bits. -/
  | immediate (value : UInt64)
  | memory (reference : MemoryReference)
  /-- A code address, of a branch or a call. -/
  | near (target : Address)
deriving DecidableEq

structure Operand where
  /-- The operand as the listing shows it. -/
  text : String
  /-- The width in bytes. -/
  size : UInt64
  kind : OperandKind
deriving DecidableEq

namespace Operand

/-- The width in bytes. -/
def width (o : Operand) : Nat := o.size.toNat

def isMemory (o : Operand) : Bool :=
  match o.kind with
  | .memory _ => true
  | _ => false

def isRegister (o : Operand) : Bool :=
  match o.kind with
  | .register _ => true
  | _ => false

/-- A register, named by its text in lower case. -/
def ofRegister (text : String) (size : UInt64) : Operand := ⟨text, size, .register (Text.lowercase text)⟩

def ofImmediate (text : String) (size value : UInt64) : Operand := ⟨text, size, .immediate value⟩

def ofNear (text : String) (size : UInt64) (target : Address) : Operand := ⟨text, size, .near target⟩

/-- A reference `[base + displacement]`. -/
def ofMemory (text : String) (size : UInt64) (base : Option String) (displacement : Int64) : Operand :=
  ⟨text, size, .memory ⟨none, base, none, 1, displacement⟩⟩

/-- A reference `[base + index * scale + displacement]`. -/
def ofIndexed (text : String) (size : UInt64) (base : Option String) (index : String) (scale : UInt8)
    (displacement : Int64) : Operand :=
  ⟨text, size, .memory ⟨none, base, some index, scale, displacement⟩⟩

end Operand

structure Instruction where
  address : Address
  /-- The mnemonic in lower case, without a repeat. -/
  mnemonic : String
  /-- The encoded length in bytes. -/
  length : UInt64
  /-- The repeat in front of the mnemonic (`rep`, `repe`, `repne`), if there is one. -/
  repetition : Option String
  operands : List Operand
deriving DecidableEq

namespace Instruction

/-- An instruction without a repeat, its mnemonic brought to lower case. -/
def of (address : Address) (mnemonic : String) (length : UInt64) (operands : List Operand) : Instruction :=
  ⟨address, Text.lowercase mnemonic, length, none, operands⟩

def repeated (i : Instruction) (repetition : String) : Instruction :=
  { i with repetition := some (Text.lowercase repetition) }

/-- The address of the instruction after this one in memory. -/
def next (i : Instruction) : Address := i.address + i.length

def isCall (i : Instruction) : Bool := i.mnemonic == "call"

end Instruction
end PathReplay
