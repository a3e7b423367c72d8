import PathReplay.Machine.Basic

/-!
# Typed reads of memory

Strings end at the first unit whose bytes are all zero: one byte for narrow strings, two for wide ones. How
far a string is searched is a setting. `Machine.readData` reads a string or an integer of a given type.
-/

namespace PathReplay

/-- The units of a run of bytes, up to the first whose bytes are all zero, `count` at most. -/
def takeUnits (unit : Nat) : Nat → Bytes → Bytes
  | 0, _ => []
  | count + 1, bytes =>
    let u := bytes.take unit
    if u.all (· == 0) then [] else u ++ takeUnits unit count (bytes.drop unit)

inductive DataType where
  | string
  | wideString
  | byte
  | word
  | dword
  | qword
deriving DecidableEq, Repr

namespace DataType

/-- The width of a value, or of one unit of a string. -/
def width : DataType → Nat
  | string | byte => 1
  | wideString | word => 2
  | dword => 4
  | qword => 8

def isString : DataType → Bool
  | string | wideString => true
  | _ => false

end DataType

inductive Data where
  | bytes (data : Bytes)
  | integer (value : UInt64)
deriving DecidableEq

namespace Machine

/-- How many bytes a string of a unit may have: the configured length, in whole units. -/
def stringLimit (m : Machine) (unit : Nat) : Nat :=
  let n := m.config.maxStringLength.toNat
  n - n % unit

def readString (m : Machine) (a : Address) (unit : Nat) : Bytes :=
  let unit := max unit 1
  let limit := m.stringLimit unit
  takeUnits unit (limit / unit) (m.memory.read a limit)

/-- A typed read. A string with a size is read whole, terminator or not. -/
def readData (m : Machine) (a : Address) (size : Option UInt64) (type : DataType) : Data :=
  if type.isString then
    match size with
    | some n => .bytes (m.memory.read a n.toNat)
    | none => .bytes (m.readString a type.width)
  else .integer (m.readWord a type.width)

end Machine
end PathReplay
