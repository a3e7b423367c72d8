import PathReplay.Config
import PathReplay.Listing.Basic
import PathReplay.Machine.Variables
import PathReplay.Register.File

/-!
# Machines

A `Machine` is one concrete state at one point along one path: registers, memory, the variables seen, and
the calls that were stepped over. Reads are functions of the machine; writes give the machine after them.
-/

namespace PathReplay

structure Call where
  site : Address
  target : Address
  name : Option String
  /-- The arguments, if the target's signature is known. -/
  args : List UInt64
deriving DecidableEq

/-- The function entered last: its entry, and the stack pointer on entry. -/
structure Frame where
  entry : Address
  sp : Address
deriving DecidableEq

structure Machine where
  listing : Listing
  config : Config
  registers : Registers
  memory : Memory
  /-- The variables that are known. -/
  known : Variables
  /-- The calls stepped over, by call site. -/
  calls : Std.ExtTreeMap Address Call compare
  frame : Option Frame

namespace Machine

/-! ## Fresh machines -/

/-- The registers of a fresh machine: the stack and the frame pointer at the configured place. -/
def freshRegisters (arch : Arch) (stackPointer : Address) : Registers :=
  let r := (Registers.initial arch).withSp stackPointer
  match r.set arch.framePointer stackPointer with
  | .ok r => r
  | .error _ => r

/-- A machine with a program loaded that has executed nothing. -/
def fresh (listing : Listing) (config : Config) : Machine where
  listing := listing
  config := config
  registers := freshRegisters listing.arch config.stackPointer
  memory :=
    { Memory.load listing.segments config.heapBase config.heapSlack with
      maxTransfer := config.maxBufferSize }
  known := ∅
  calls := ∅
  frame := none

def ofArchName (name : String) : Except Error Machine :=
  (Arch.resolve name).map fun arch => fresh (.empty arch) {}

/-! ## Registers and the stack -/

def arch (m : Machine) : Arch := m.registers.arch

def pointerSize (m : Machine) : Nat := m.arch.pointerSize

def ip (m : Machine) : Address := m.registers.ip

def sp (m : Machine) : Address := m.registers.sp

def withRegisters (m : Machine) (r : Registers) : Machine := { m with registers := r }

def withIp (m : Machine) (a : Address) : Machine := m.withRegisters (m.registers.withIp a)

def withSp (m : Machine) (a : Address) : Machine := m.withRegisters (m.registers.withSp a)

/-- The machine with memory written. Every variable in the way remembers what it held. -/
def write (m : Machine) (a : Address) (data : Bytes) : Machine :=
  let known := m.known.recordWrite m.memory a data.length
  { m with known, memory := m.memory.write a data }

/-- The machine with the low `width` bytes of a word written to memory, eight at most. -/
def writeWord (m : Machine) (a : Address) (value : UInt64) (width : Nat) : Machine :=
  m.write a (Word.toBytes value (min width 8))

def readWord (m : Machine) (a : Address) (width : Nat) : UInt64 := m.memory.readWord a width

def push (m : Machine) (value : UInt64) : Machine :=
  let sp := m.arch.wrap (m.sp - UInt64.ofNat m.pointerSize)
  (m.withSp sp).writeWord sp value m.pointerSize

def pop (m : Machine) : UInt64 × Machine :=
  let sp := m.sp
  (m.readWord sp m.pointerSize, m.withSp (m.arch.wrap (sp + UInt64.ofNat m.pointerSize)))

/-! ## Instructions and functions -/

def instruction? (m : Machine) : Option Instruction := m.listing.decode? m.ip

/-- The machine once control is at an address: if a function starts there, it is now the current one. -/
def enter (m : Machine) (a : Address) : Machine :=
  if m.listing.isFunctionStart a then { m with frame := some ⟨a, m.sp⟩ } else m

end Machine
end PathReplay
