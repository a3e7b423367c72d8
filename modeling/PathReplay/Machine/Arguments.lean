import PathReplay.Machine.Operand
import PathReplay.Listing.Declaration

/-!
# Arguments and signatures

Where a function finds its arguments, and which ones it has. A function's convention is the declared one
brought to what the architecture can use; its arguments lie in the convention's registers and then on the
stack, above the return address if control is at the function's entry.
-/

namespace PathReplay

structure Argument where
  typeName : String
  name : String
  value : UInt64
deriving DecidableEq

/-- A function's declaration and where it starts. -/
structure Signature where
  entry : Address
  name : String
  returnType : String
  convention : Convention
  args : List Declaration
deriving DecidableEq

namespace Signature

def declaration (s : Signature) : String :=
  s.returnType ++ separatorAfter s.returnType ++ s.convention.keyword ++ " " ++ s.name ++ "(" ++
    ", ".intercalate (s.args.map Declaration.inline) ++ ");"

/-- The signature with an argument read from a text, if it can be read. -/
def pushArgument? (s : Signature) (text : String) : Option Signature :=
  (Declaration.parse? text (s.args.length + 1)).map fun d => { s with args := s.args ++ [d] }

end Signature

def Arch.defaultConvention : Arch → Convention
  | .x86 => .cdecl
  | .x86_64 => .win64

/-- A declared convention, brought to one that the architecture can use. -/
def Arch.effectiveConvention : Arch → Option Convention → Convention
  | arch, none => arch.defaultConvention
  | .x86_64, some .sysv => .sysv
  | .x86_64, some _ => .win64
  | .x86, some .win64 => .cdecl
  | .x86, some .sysv => .cdecl
  | .x86, some c => c

namespace Machine

def effectiveConvention (m : Machine) (declared : Option Convention) : Convention :=
  m.arch.effectiveConvention declared

/-- The function that a query is about: at a given address; or called by the instruction at the instruction
pointer; or else the one there. -/
def resolveFunction (m : Machine) (a : Option Address) : Address :=
  let a := match a with
    | some a => a
    | none =>
      match m.instruction? with
      | some i =>
        match i.isCall, i.operands with
        | true, o :: _ => m.operandValue o
        | _, _ => m.ip
      | none => m.ip
  match m.listing.functionAt? a with
  | some f => f.entry
  | none => a

/-- Where the first stack argument is for a function with an entry. -/
def stackArguments (m : Machine) (entry : Address) (c : Convention) : Address :=
  (if m.ip = entry then m.sp + UInt64.ofNat m.pointerSize else m.sp) + c.shadowSpace

def argument (m : Machine) (entry : Address) (c : Convention) (i : Nat) : UInt64 :=
  match c.argumentRegisters[i]? with
  | some name => m.registerOrZero name
  | none =>
    let slot := UInt64.ofNat ((i - c.argumentRegisters.length) * m.pointerSize)
    m.readWord (m.stackArguments entry c + slot) m.pointerSize

def readArguments (m : Machine) (entry : Address) (c : Convention) (count : Nat) : List UInt64 :=
  (List.range count).map (m.argument entry c)

theorem length_readArguments (m : Machine) (entry : Address) (c : Convention) (count : Nat) :
    (m.readArguments entry c count).length = count := by simp [readArguments]

/-- The arguments of a function: as many as asked for, or else as many as it declares. -/
def functionArguments (m : Machine) (a : Option Address) (count : Option Nat) :
    Except Error (List UInt64) :=
  let entry := m.resolveFunction a
  let prototype := m.listing.prototype? entry
  let convention := m.effectiveConvention (prototype.bind (·.convention))
  match count, prototype with
  | some n, _ => .ok (m.readArguments entry convention n)
  | none, some p => .ok (m.readArguments entry convention p.args.length)
  | none, none => .error (.unresolvedSignature entry)

/-- A signature of `count` integers for a function that declares none. -/
def assumedSignature (m : Machine) (entry : Address) (count : Nat) : Signature :=
  ⟨entry, "no_name", "int", m.arch.defaultConvention,
    (List.range count).map fun i => ⟨"int", Declaration.positional (i + 1)⟩⟩

/-- The signature of a function: the declared one, or else one of `assumed` integers. -/
def functionSignature (m : Machine) (a : Option Address) (assumed : Option Nat) :
    Except Error Signature :=
  let entry := m.resolveFunction a
  match m.listing.prototype? entry, assumed with
  | some p, _ => .ok ⟨entry, p.name, p.returnType, m.effectiveConvention p.convention, p.args⟩
  | none, some n => .ok (m.assumedSignature entry n)
  | none, none => .error (.unresolvedSignature entry)

def argumentsOf (m : Machine) (s : Signature) : List Argument :=
  (s.args.zip (m.readArguments s.entry s.convention s.args.length)).map fun (d, value) =>
    ⟨d.typeName, d.name, value⟩

end Machine
end PathReplay
