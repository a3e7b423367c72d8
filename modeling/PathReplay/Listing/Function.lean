import PathReplay.Word

/-!
# Functions of a listing

What a listing says of a function: its extent, the named slots of its stack frame, its basic blocks and the
prototype it was declared with.
-/

namespace PathReplay

/-- A named slot of a stack frame. The offset counts from the stack pointer at function entry: the return
address is at zero, the first stack argument above it and the locals below. -/
structure FrameMember where
  name : String
  offset : Int64
  size : UInt64
deriving DecidableEq

/-- Whether a slot covers an offset. The end of the slot wraps. -/
def FrameMember.covers (m : FrameMember) (offset : Int64) : Bool :=
  m.offset ≤ offset && offset < m.offset + m.size.toInt64

/-- A basic block as the listing gives it. The order of the edges is significant. -/
structure BlockRecord where
  start : Address
  /-- The address just past the block. -/
  stop : Address
  /-- The addresses of the block's instructions, in order. -/
  heads : List Address
  succs : List Address
  preds : List Address
deriving DecidableEq

namespace BlockRecord

def contains (b : BlockRecord) (a : Address) : Bool := b.start ≤ a && a < b.stop

/-- Control leaves the function from here. -/
def isTerminal (b : BlockRecord) : Bool := b.succs.isEmpty

end BlockRecord

inductive Convention where
  | cdecl
  | stdcall
  | fastcall
  | thiscall
  /-- The 64-bit convention with four argument registers and shadow space. -/
  | win64
  /-- The 64-bit convention with six argument registers. -/
  | sysv
deriving DecidableEq, Repr

namespace Convention

def all : List Convention := [.cdecl, .stdcall, .fastcall, .thiscall, .win64, .sysv]

def label : Convention → String
  | cdecl => "cdecl"
  | stdcall => "stdcall"
  | fastcall => "fastcall"
  | thiscall => "thiscall"
  | win64 => "win64"
  | sysv => "sysv"

def ofLabel? (s : String) : Option Convention := all.find? fun c => c.label == s

theorem ofLabel?_label (c : Convention) : ofLabel? c.label = some c := by cases c <;> decide

def keyword : Convention → String
  | cdecl => "__cdecl"
  | stdcall => "__stdcall"
  | fastcall => "__fastcall"
  | thiscall => "__thiscall"
  | win64 => "__fastcall"
  | sysv => "__cdecl"

def argumentRegisters : Convention → List String
  | cdecl | stdcall => []
  | fastcall => ["ecx", "edx"]
  | thiscall => ["ecx"]
  | win64 => ["rcx", "rdx", "r8", "r9"]
  | sysv => ["rdi", "rsi", "rdx", "rcx", "r8", "r9"]

def calleeCleans : Convention → Bool
  | stdcall | fastcall | thiscall => true
  | _ => false

/-- The bytes of stack that a function with `count` arguments releases when it returns. -/
def calleeCleanup (c : Convention) (count pointerSize : Nat) : UInt64 :=
  if c.calleeCleans then UInt64.ofNat ((count - c.argumentRegisters.length) * pointerSize) else 0

/-- The bytes that a caller reserves below the first stack argument. -/
def shadowSpace : Convention → UInt64
  | win64 => 0x20
  | _ => 0

end Convention

structure Declaration where
  typeName : String
  name : String
deriving DecidableEq

structure Prototype where
  name : String
  returnType : String
  convention : Option Convention
  args : List Declaration
deriving DecidableEq

structure FunctionRecord where
  entry : Address
  /-- The address just past the function's code. -/
  stop : Address
  frame : List FrameMember
  blocks : List BlockRecord
  prototype : Option Prototype
deriving DecidableEq

namespace FunctionRecord

def contains (f : FunctionRecord) (a : Address) : Bool := f.entry ≤ a && a < f.stop

def frameMember? (f : FunctionRecord) (offset : Int64) : Option FrameMember :=
  f.frame.find? fun m => m.covers offset

end FunctionRecord
end PathReplay
