import PathReplay.LibC.Name
import PathReplay.Machine.Strings

/-!
# Emulated functions of the C library

A call to one of these functions runs on the machine's memory instead of entering or skipping the real
implementation. Strings are narrow or wide by the name the function was called by. Arguments that are not
there count as zero.
-/

namespace PathReplay

namespace Machine

/-- The machine with a heap allocation, and its address. -/
def alloc (m : Machine) (size : UInt64) : Address × Machine :=
  let (a, memory) := m.memory.alloc size
  (a, { m with memory })

/-- The machine with a string and one zero unit written. -/
def writeString (m : Machine) (a : Address) (data : Bytes) (unit : Nat) : Machine :=
  m.write a (data ++ List.replicate unit 0)

/-- At most `count` units of the string at an address. -/
def readUnits (m : Machine) (a : Address) (unit : Nat) (count : UInt64) : Bytes :=
  (m.readString a unit).take (count.toNat * unit)

end Machine

namespace LibC

/-- The bytes in one character of the strings that a function works on: two for the functions whose names
mark them as wide. -/
def unitOf (name : String) : Nat :=
  let cs := (Text.lowercase name).toList
  if cs.take 3 = ['w', 'c', 's'] ∨ (cs.take 4 = ['l', 's', 't', 'r'] ∧ cs.getLast? = some 'w') then 2
  else 1

inductive Routine where
  | strcat
  | strncat
  | strcpy
  | strncpy
  | strdup
  | strndup
  | strlen
  | memcpy
  | memset
  | malloc
  | calloc
  | realloc
  | free
deriving DecidableEq, Repr

/-- Adds up to the terminator of `dst`, or where the search for it ends. -/
def stringEnd (m : Machine) (dst : Address) (unit : Nat) : Address :=
  dst + UInt64.ofNat (m.readString dst unit).length

def duplicate (m : Machine) (data : Bytes) (unit : Nat) : UInt64 × Machine :=
  let (copy, m) := m.alloc (UInt64.ofNat (data.length + unit))
  (copy, m.writeString copy data unit)

/-- Exactly `n` bytes: cut, or padded with zeros. -/
def padded (data : Bytes) (n : Nat) : Bytes := data.take n ++ List.replicate (n - data.length) 0

theorem length_padded (data : Bytes) (n : Nat) : (padded data n).length = n := by
  simp only [padded, List.length_append, List.length_take, List.length_replicate]; omega

/-- The result of a function with strings of `unit` bytes a character, and the machine after it. -/
def Routine.run (r : Routine) (unit : Nat) (args : List UInt64) (m : Machine) : UInt64 × Machine :=
  let a := args.getD 0 0
  let b := args.getD 1 0
  let c := args.getD 2 0
  match r with
  | strcat => (a, m.writeString (stringEnd m a unit) (m.readString b unit) unit)
  | strncat => (a, m.writeString (stringEnd m a unit) (m.readUnits b unit c) unit)
  | strcpy => (a, m.writeString a (m.readString b unit) unit)
  | strncpy =>
    let length := m.memory.bounded (Word.saturatingMul c (UInt64.ofNat unit))
    (a, m.write a (padded (m.readUnits b unit c) length))
  | strdup => duplicate m (m.readString a unit) unit
  | strndup => duplicate m (m.readUnits a unit b) unit
  | strlen => (UInt64.ofNat ((m.readString a unit).length / unit), m)
  | memcpy => (a, m.write a (m.memory.read b (m.memory.bounded c)))
  | memset => (a, m.write a (List.replicate (m.memory.bounded c) b.toUInt8))
  | malloc => m.alloc a
  | calloc => m.alloc (Word.saturatingMul a b)
  | realloc =>
    let (p, memory) := m.memory.realloc a b
    (p, { m with memory })
  | free => (0, { m with memory := m.memory.free a })

/-- The result of a function called by a name, and the machine after it. -/
def Routine.call (r : Routine) (name : String) (args : List UInt64) (m : Machine) : UInt64 × Machine :=
  r.run (unitOf name) args m

def Routine.arity : Routine → Nat
  | strdup | strlen | malloc | free => 1
  | strcat | strcpy | strndup | calloc | realloc => 2
  | strncat | strncpy | memcpy | memset => 3

/-- A function under one of its names, and the convention of that name. -/
structure Entry where
  routine : Routine
  convention : Convention
deriving DecidableEq

/-- The bare names of the emulated functions. -/
def catalogue : List (String × Entry) :=
  [("strcat", ⟨.strcat, .cdecl⟩), ("wcscat", ⟨.strcat, .cdecl⟩),
   ("strncat", ⟨.strncat, .cdecl⟩), ("wcsncat", ⟨.strncat, .cdecl⟩),
   ("strcpy", ⟨.strcpy, .cdecl⟩), ("wcscpy", ⟨.strcpy, .cdecl⟩),
   ("strncpy", ⟨.strncpy, .cdecl⟩), ("wcsncpy", ⟨.strncpy, .cdecl⟩),
   ("strdup", ⟨.strdup, .cdecl⟩), ("wcsdup", ⟨.strdup, .cdecl⟩),
   ("strndup", ⟨.strndup, .cdecl⟩),
   ("strlen", ⟨.strlen, .cdecl⟩), ("wcslen", ⟨.strlen, .cdecl⟩),
   ("lstrcata", ⟨.strcat, .stdcall⟩), ("lstrcatw", ⟨.strcat, .stdcall⟩),
   ("lstrcpya", ⟨.strcpy, .stdcall⟩), ("lstrcpyw", ⟨.strcpy, .stdcall⟩),
   ("lstrlena", ⟨.strlen, .stdcall⟩), ("lstrlenw", ⟨.strlen, .stdcall⟩),
   ("memcpy", ⟨.memcpy, .cdecl⟩), ("memmove", ⟨.memcpy, .cdecl⟩),
   ("memset", ⟨.memset, .cdecl⟩), ("malloc", ⟨.malloc, .cdecl⟩), ("calloc", ⟨.calloc, .cdecl⟩),
   ("realloc", ⟨.realloc, .cdecl⟩), ("free", ⟨.free, .cdecl⟩)]

/-- The emulated function of a name, decorated or not, in any case. -/
def find? (name : String) : Option Entry := catalogue.lookup (bareName name)

end LibC
end PathReplay
