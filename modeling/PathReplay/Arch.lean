import PathReplay.Word
import PathReplay.Error
import PathReplay.Text.Blank

/-!
# Architectures

The two flavours of the x86 family. They share one instruction model and differ in pointer width, in
their registers and in their calling conventions. `Arch.ofName?` knows the names in use for each.
-/

namespace PathReplay

inductive Arch where
  | x86
  | x86_64
deriving DecidableEq, Repr, Inhabited

namespace Arch

/-- The names of the architectures, in lower case. -/
def names : List (String × Arch) :=
  [("x86", .x86), ("i386", .x86), ("ia32", .x86), ("metapc", .x86),
   ("x86_64", .x86_64), ("x64", .x86_64), ("amd64", .x86_64), ("metapc64", .x86_64)]

/-- The architecture of a name, in any case. -/
def ofName? (name : String) : Option Arch := names.lookup (Text.lowercase name)

/-- The architecture of a name, or an error that gives the name. -/
def resolve (name : String) : Except Error Arch :=
  match ofName? name with
  | some arch => .ok arch
  | none => .error (.unsupportedArchitecture name)

def label : Arch → String
  | .x86 => "X86"
  | .x86_64 => "X86_64"

/-- The width of a pointer, and of a stack slot, in bytes. -/
def pointerSize : Arch → Nat
  | .x86 => 4
  | .x86_64 => 8

def pointerMask (arch : Arch) : UInt64 := Word.mask arch.pointerSize

/-- An address cut to the pointer width. -/
def wrap (arch : Arch) (address : Address) : Address := address &&& arch.pointerMask

theorem wrap_x86_64 (address : Address) : wrap .x86_64 address = address := by
  show address &&& (-1) = address
  exact UInt64.and_neg_one

def stackPointer : Arch → String
  | .x86 => "esp"
  | .x86_64 => "rsp"

def framePointer : Arch → String
  | .x86 => "ebp"
  | .x86_64 => "rbp"

def instructionPointer : Arch → String
  | .x86 => "eip"
  | .x86_64 => "rip"

def resultRegister : Arch → String
  | .x86 => "eax"
  | .x86_64 => "rax"

/-- The 32-bit names of the general registers that have a 64-bit name of their own. -/
def nativeNames : List (String × String) :=
  [("eax", "rax"), ("ebx", "rbx"), ("ecx", "rcx"), ("edx", "rdx"), ("esi", "rsi"), ("edi", "rdi"),
   ("ebp", "rbp"), ("esp", "rsp")]

/-- The full-width name of a general register, from its 32-bit name. -/
def nativeName (arch : Arch) (name : String) : String :=
  match arch with
  | .x86 => name
  | .x86_64 => (nativeNames.lookup name).getD name

end Arch
end PathReplay
