import PathReplay.Register.FloatStack

/-!
# The register file

`Registers` holds every register of one processor: the stores of its architecture and the floating point
unit. Names are looked up in lower case; a name the architecture does not know is tried against the
floating point unit. A name that is a window of the same store as another sees what the other writes.
-/

namespace PathReplay

structure Registers where
  arch : Arch
  stores : Stores arch.stores
  float : FloatStack

namespace Registers

/-- Every integer register zero, the floating point unit reset. -/
def initial (arch : Arch) : Registers := ⟨arch, Vector.replicate _ 0, .initial⟩

def ofArchName (name : String) : Except Error Registers := (Arch.resolve name).map initial

/-- The window of an integer register. -/
def field? (r : Registers) (name : String) : Option (Field r.arch.stores) := r.arch.layout.field? name

def readField (r : Registers) (f : Field r.arch.stores) : BitVec 128 := f.read r.stores

def writeField (r : Registers) (f : Field r.arch.stores) (value : BitVec 128) : Registers :=
  { r with stores := f.write r.stores value }

/-- Whether a name, in any case, is a register of any kind. -/
def contains (r : Registers) (name : String) : Bool :=
  let name := Text.lowercase name
  (r.field? name).isSome || (FloatStack.position? name).isSome ||
    (Layout.floatWords.field? name).isSome

/-- The width in bytes of an integer register or a stack position. -/
def width? (r : Registers) (name : String) : Option Nat :=
  let name := Text.lowercase name
  match r.field? name with
  | some f => some f.width
  | none => (FloatStack.position? name).map fun _ => 8

/-- The contents of an integer register, up to 128 bits. -/
def getWide (r : Registers) (name : String) : Except Error (BitVec 128) :=
  let name := Text.lowercase name
  match r.field? name with
  | some f => .ok (r.readField f)
  | none =>
    if (FloatStack.position? name).isSome then .error (.floatRegister name)
    else (r.float.word? name).map fun v => v.toBitVec.setWidth 128

def get (r : Registers) (name : String) : Except Error UInt64 :=
  (r.getWide name).map fun v => UInt64.ofNat v.toNat

def setWide (r : Registers) (name : String) (value : BitVec 128) : Except Error Registers :=
  let name := Text.lowercase name
  match r.field? name with
  | some f => .ok (r.writeField f value)
  | none =>
    if (FloatStack.position? name).isSome then .error (.floatRegister name)
    else (r.float.setWord name (UInt64.ofNat value.toNat)).map fun s => { r with float := s }

def set (r : Registers) (name : String) (value : UInt64) : Except Error Registers :=
  r.setWide name (value.toBitVec.setWidth 128)

def getFloat (r : Registers) (name : String) : Except Error (Option Double) :=
  r.float.named (Text.lowercase name)

def setFloat (r : Registers) (name : String) (x : Double) : Except Error Registers :=
  (r.float.setNamed (Text.lowercase name) x).map fun s => { r with float := s }

/-- Every register name: those of the architecture, then those that only the floating point unit has. -/
def names (r : Registers) : List String :=
  r.arch.layout.names ++ FloatStack.names.filter fun name => (r.field? name).isNone

def wordAt (r : Registers) (f : Field r.arch.stores) : UInt64 := UInt64.ofNat (r.readField f).toNat

def ip (r : Registers) : Address := r.wordAt r.arch.instructionField

def withIp (r : Registers) (address : Address) : Registers :=
  r.writeField r.arch.instructionField (address.toBitVec.setWidth 128)

def sp (r : Registers) : Address := r.wordAt r.arch.stackField

def withSp (r : Registers) (address : Address) : Registers :=
  r.writeField r.arch.stackField (address.toBitVec.setWidth 128)

/-- Whether the register of a name, given in lower case, is not zero. A name without one is unset. -/
def isSet (r : Registers) (name : String) : Bool :=
  match r.field? name with
  | some f => r.readField f != 0
  | none => false

/-- The registers with a bit of a name, given in lower case, written. A name without one changes nothing. -/
def withBit (r : Registers) (name : String) (value : Bool) : Registers :=
  match r.field? name with
  | some f => r.writeField f (if value then 1 else 0)
  | none => r

def flag (r : Registers) (f : Flag) : Bool := r.readField (f.field r.arch) != 0

def withFlag (r : Registers) (f : Flag) (value : Bool) : Registers :=
  r.writeField (f.field r.arch) (if value then 1 else 0)

end Registers
end PathReplay
