import PathReplay.Memory.Basic

/-!
# Variables and their histories

A variable is a named range of memory: a stack argument, a local or a global that an executed instruction
refers to. Before a write changes any of its bytes, the contents it held are added to its history.
-/

namespace PathReplay

structure Variable where
  name : String
  address : Address
  size : UInt64
  /-- What the variable held before each write to it, oldest first. -/
  history : Array Bytes

namespace Variable

def data (v : Variable) (m : Memory) : Bytes := m.read v.address v.size.toNat

/-- The address just past the variable, at most the largest address. -/
def stop (v : Variable) : Address := Word.saturatingAdd v.address v.size

/-- Whether a write of `length` bytes at an address reaches into the variable. -/
def overlaps (v : Variable) (a : Address) (length : Nat) : Bool :=
  a < v.stop && v.address < Word.saturatingAdd a (UInt64.ofNat length)

def remember (v : Variable) (m : Memory) : Variable := { v with history := v.history.push (v.data m) }

end Variable

abbrev Variables := Std.ExtTreeMap Address Variable compare

namespace Variables

/-- The variables, lowest address first. -/
def all (vs : Variables) : List Variable := vs.values

def names (vs : Variables) : List String := vs.all.map (·.name)

def named? (vs : Variables) (name : String) : Option Variable := vs.all.find? (·.name == name)

/-- Registers a variable of at least one byte, unless one is known at its address. -/
def register (vs : Variables) (a : Address) (name : String) (size : UInt64) : Variables :=
  if vs.contains a then vs else vs.insert a ⟨name, a, max size 1, #[]⟩

/-- The variables ahead of a write of `length` bytes at an address. -/
def recordWrite (vs : Variables) (m : Memory) (a : Address) (length : Nat) : Variables :=
  vs.map fun _ v => if v.overlaps a length then v.remember m else v

end Variables
end PathReplay
