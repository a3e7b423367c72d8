import Std.Data.ExtTreeMap
import PathReplay.Arch
import PathReplay.Memory.Segment
import PathReplay.Listing.Instruction
import PathReplay.Listing.Function

/-!
# Listings

A listing is what a disassembler knows of a program: the loaded segments, the instructions by address, the
functions, and names of locations. The queries here are all that the emulator asks of it; the builders make
a listing by hand.
-/

namespace PathReplay

structure SymbolRecord where
  name : String
  size : Option UInt64
deriving DecidableEq

structure Listing where
  arch : Arch
  segments : List Segment
  instructions : Std.ExtTreeMap Address Instruction compare
  functions : List FunctionRecord
  symbols : Std.ExtTreeMap Address SymbolRecord compare

namespace Listing

def empty (arch : Arch) : Listing := ⟨arch, [], ∅, [], ∅⟩

/-! ## Queries -/

/-- The instruction that starts at an address. -/
def decode? (l : Listing) (a : Address) : Option Instruction := l.instructions[a]?

def functionAt? (l : Listing) (a : Address) : Option FunctionRecord := l.functions.find? (·.contains a)

def functionOf? (l : Listing) (entry : Address) : Option FunctionRecord :=
  l.functions.find? (·.entry == entry)

def blocksOf (l : Listing) (entry : Address) : List BlockRecord :=
  match l.functionOf? entry with
  | some f => f.blocks
  | none => []

def prototype? (l : Listing) (entry : Address) : Option Prototype :=
  (l.functionOf? entry).bind (·.prototype)

def nameAt? (l : Listing) (a : Address) : Option String := l.symbols[a]?.map (·.name)

def symbolSize? (l : Listing) (a : Address) : Option UInt64 := l.symbols[a]?.bind (·.size)

def callsDirectly (entry : Address) (i : Instruction) : Bool :=
  i.isCall && match i.operands.head?.map Operand.kind with
    | some (.near target) => target == entry
    | some (.immediate target) => target == entry
    | _ => false

/-- The call sites of a function, by the address each instruction gives itself, in listing order. -/
def callsTo (l : Listing) (entry : Address) : List Address :=
  (l.instructions.values.filter (callsDirectly entry)).map (·.address)

def isFunctionStart (l : Listing) (a : Address) : Bool :=
  match l.functionAt? a with
  | some f => f.entry == a
  | none => false

/-! ## Building by hand -/

def withArch (l : Listing) (arch : Arch) : Listing := { l with arch }

def addSegment (l : Listing) (s : Segment) : Listing := { l with segments := l.segments ++ [s] }

def addInstruction (l : Listing) (i : Instruction) : Listing :=
  { l with instructions := l.instructions.insert i.address i }

/-- Lays instructions out back to back, and gives the address after the last. -/
def addCode (l : Listing) (start : Address) : List Instruction → Address × Listing
  | [] => (start, l)
  | i :: rest =>
    let i := { i with address := start }
    (l.addInstruction i).addCode i.next rest

def addFunction (l : Listing) (entry stop : Address) : Listing :=
  { l with functions := l.functions ++ [⟨entry, stop, [], [], none⟩] }

/-- Changes the first element for which `p` holds. -/
def updateFirst {α : Type} (p : α → Bool) (f : α → α) : List α → List α
  | [] => []
  | x :: rest => if p x then f x :: rest else x :: updateFirst p f rest

def updateFunction (l : Listing) (entry : Address) (f : FunctionRecord → FunctionRecord) : Listing :=
  { l with functions := updateFirst (·.entry == entry) f l.functions }

def addFrameMember (l : Listing) (entry : Address) (m : FrameMember) : Listing :=
  l.updateFunction entry fun f => { f with frame := f.frame ++ [m] }

def headsBetween (l : Listing) (start stop : Address) : List Address :=
  l.instructions.keys.filter fun a => start ≤ a && a < stop

/-- Adds a block to a function; its instructions are those already listed in its range. -/
def addBlock (l : Listing) (entry start stop : Address) (succs preds : List Address) : Listing :=
  l.updateFunction entry fun f =>
    { f with blocks := f.blocks ++ [⟨start, stop, l.headsBetween start stop, succs, preds⟩] }

def setPrototype (l : Listing) (entry : Address) (p : Option Prototype) : Listing :=
  l.updateFunction entry fun f => { f with prototype := p }

def addSymbol (l : Listing) (a : Address) (s : SymbolRecord) : Listing :=
  { l with symbols := l.symbols.insert a s }

end Listing
end PathReplay
