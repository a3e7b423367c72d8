import PathReplay.Arch
import PathReplay.Register.Field

/-!
# Register layouts

Which names an architecture's registers have and which window of which store each of them is. A general
register owns a store; its full-width name covers it and its narrower names are windows of it. The flag
bits are windows of the store of the flags register.
-/

namespace PathReplay

structure Layout (n : Nat) where
  fields : List (String × Field n)

namespace Layout

variable {n : Nat}

def field? (l : Layout n) (name : String) : Option (Field n) := l.fields.lookup name

def names (l : Layout n) : List String := l.fields.map (·.1)

def windows (store : Fin n) (ws : List (String × Nat × Nat)) : List (String × Field n) :=
  ws.map fun (name, offset, bits) => (name, ⟨store, offset, bits, false⟩)

/-- The single-bit fields of the flags register, and the two-bit privilege level. -/
def flagBits : List (String × Nat × Nat) :=
  [("cf", 0, 1), ("pf", 2, 1), ("af", 4, 1), ("zf", 6, 1), ("sf", 7, 1), ("tf", 8, 1), ("if", 9, 1),
   ("df", 10, 1), ("of", 11, 1), ("iopl", 12, 2), ("nt", 14, 1), ("rf", 16, 1), ("vm", 17, 1),
   ("ac", 18, 1), ("vif", 19, 1), ("vip", 20, 1), ("id", 21, 1)]

def segmentNames : List String := ["cs", "ds", "es", "fs", "gs", "ss"]

def vectorNames : List String :=
  ["xmm0", "xmm1", "xmm2", "xmm3", "xmm4", "xmm5", "xmm6", "xmm7", "xmm8", "xmm9", "xmm10", "xmm11",
   "xmm12", "xmm13", "xmm14", "xmm15"]

/-- One store a name, from store `first` on, every window starting at bit 0. -/
def row (first bits : Nat) (names : List String) : List (String × Field (n + 1)) :=
  names.mapIdx fun i name => (name, ⟨Fin.ofNat (n + 1) (first + i), 0, bits, false⟩)

/-- A 64-bit register, its zero-extending 32-bit name and its narrower names. -/
def wide (store : Fin n) (full name32 : String) (narrow : List (String × Nat × Nat)) :
    List (String × Field n) :=
  (full, ⟨store, 0, 64, false⟩) :: (name32, ⟨store, 0, 32, true⟩) :: windows store narrow

def x86 : Layout 24 where
  fields :=
    windows 0 [("eax", 0, 32), ("ax", 0, 16), ("al", 0, 8), ("ah", 8, 8)] ++
    windows 1 [("ebx", 0, 32), ("bx", 0, 16), ("bl", 0, 8), ("bh", 8, 8)] ++
    windows 2 [("ecx", 0, 32), ("cx", 0, 16), ("cl", 0, 8), ("ch", 8, 8)] ++
    windows 3 [("edx", 0, 32), ("dx", 0, 16), ("dl", 0, 8), ("dh", 8, 8)] ++
    windows 4 [("esi", 0, 32), ("si", 0, 16)] ++
    windows 5 [("edi", 0, 32), ("di", 0, 16)] ++
    windows 6 [("ebp", 0, 32), ("bp", 0, 16)] ++
    windows 7 [("esp", 0, 32), ("sp", 0, 16)] ++
    windows 8 [("eip", 0, 32), ("ip", 0, 16)] ++
    windows 9 (("eflags", 0, 32) :: ("flags", 0, 16) :: flagBits) ++
    row 10 16 segmentNames ++
    row 16 128 (vectorNames.take 8)

def x86_64 : Layout 40 where
  fields :=
    wide 0 "rax" "eax" [("ax", 0, 16), ("al", 0, 8), ("ah", 8, 8)] ++
    wide 1 "rbx" "ebx" [("bx", 0, 16), ("bl", 0, 8), ("bh", 8, 8)] ++
    wide 2 "rcx" "ecx" [("cx", 0, 16), ("cl", 0, 8), ("ch", 8, 8)] ++
    wide 3 "rdx" "edx" [("dx", 0, 16), ("dl", 0, 8), ("dh", 8, 8)] ++
    wide 4 "rsi" "esi" [("si", 0, 16), ("sil", 0, 8)] ++
    wide 5 "rdi" "edi" [("di", 0, 16), ("dil", 0, 8)] ++
    wide 6 "rbp" "ebp" [("bp", 0, 16), ("bpl", 0, 8)] ++
    wide 7 "rsp" "esp" [("sp", 0, 16), ("spl", 0, 8)] ++
    wide 8 "r8" "r8d" [("r8w", 0, 16), ("r8b", 0, 8)] ++
    wide 9 "r9" "r9d" [("r9w", 0, 16), ("r9b", 0, 8)] ++
    wide 10 "r10" "r10d" [("r10w", 0, 16), ("r10b", 0, 8)] ++
    wide 11 "r11" "r11d" [("r11w", 0, 16), ("r11b", 0, 8)] ++
    wide 12 "r12" "r12d" [("r12w", 0, 16), ("r12b", 0, 8)] ++
    wide 13 "r13" "r13d" [("r13w", 0, 16), ("r13b", 0, 8)] ++
    wide 14 "r14" "r14d" [("r14w", 0, 16), ("r14b", 0, 8)] ++
    wide 15 "r15" "r15d" [("r15w", 0, 16), ("r15b", 0, 8)] ++
    wide 16 "rip" "eip" [("ip", 0, 16)] ++
    windows 17 (("rflags", 0, 64) :: ("eflags", 0, 32) :: ("flags", 0, 16) :: flagBits) ++
    row 18 16 segmentNames ++
    row 24 128 vectorNames

end Layout

/-- How many stores the registers of an architecture need. -/
def Arch.stores : Arch → Nat
  | .x86 => 24
  | .x86_64 => 40

def Arch.layout : (arch : Arch) → Layout arch.stores
  | .x86 => .x86
  | .x86_64 => .x86_64

namespace Layout

/-- Every window lies inside its store. -/
theorem field_fits : ∀ arch : Arch, ∀ e ∈ arch.layout.fields,
    0 < e.2.bits ∧ e.2.offset + e.2.bits ≤ 128
  | .x86 => by decide +kernel
  | .x86_64 => by decide +kernel

end Layout

def Arch.stackField : (arch : Arch) → Field arch.stores
  | .x86 => ⟨(7 : Fin 24), 0, 32, false⟩
  | .x86_64 => ⟨(7 : Fin 40), 0, 64, false⟩

def Arch.instructionField : (arch : Arch) → Field arch.stores
  | .x86 => ⟨(8 : Fin 24), 0, 32, false⟩
  | .x86_64 => ⟨(16 : Fin 40), 0, 64, false⟩

theorem Arch.field?_stackPointer : ∀ arch : Arch,
    arch.layout.field? arch.stackPointer = some arch.stackField
  | .x86 => by decide +kernel
  | .x86_64 => by decide +kernel

theorem Arch.field?_instructionPointer : ∀ arch : Arch,
    arch.layout.field? arch.instructionPointer = some arch.instructionField
  | .x86 => by decide +kernel
  | .x86_64 => by decide +kernel

inductive Flag where
  | carry
  | parity
  | adjust
  | zero
  | sign
  | direction
  | overflow
deriving DecidableEq, Repr

namespace Flag

def label : Flag → String
  | carry => "cf"
  | parity => "pf"
  | adjust => "af"
  | zero => "zf"
  | sign => "sf"
  | direction => "df"
  | overflow => "of"

def position : Flag → Nat
  | carry => 0
  | parity => 2
  | adjust => 4
  | zero => 6
  | sign => 7
  | direction => 10
  | overflow => 11

def field (f : Flag) : (arch : Arch) → Field arch.stores
  | .x86 => ⟨(9 : Fin 24), f.position, 1, false⟩
  | .x86_64 => ⟨(17 : Fin 40), f.position, 1, false⟩

theorem field?_label : ∀ (f : Flag) (arch : Arch),
    arch.layout.field? f.label = some (f.field arch) := by
  intro f arch
  cases f <;> cases arch <;> decide +kernel

end Flag
end PathReplay
