import PathReplay.Json.Decoder
import PathReplay.Memory.Basic

/-!
# Settings of an emulation

`Config` shapes the initial state of every machine. In a document each setting may be left out.
-/

namespace PathReplay

structure Config where
  heapBase : Address := Memory.defaultHeapBase
  heapSlack : UInt64 := Memory.defaultHeapSlack
  /-- The stack pointer of a fresh machine. -/
  stackPointer : Address := 0x0117F800
  /-- How far a string is searched for its terminator. -/
  maxStringLength : UInt64 := 0x1000
  /-- The most bytes that an emulated library function copies or fills at once. -/
  maxBufferSize : UInt64 := Memory.defaultMaxTransfer
  /-- How many levels of callers are followed unless told otherwise. -/
  defaultDepth : UInt64 := 1
deriving DecidableEq, Inhabited

namespace Config

open Decoder

def toJson (c : Config) : Json :=
  .record [("heap_base", .word c.heapBase), ("heap_slack", .word c.heapSlack),
    ("stack_pointer", .word c.stackPointer), ("max_string_length", .word c.maxStringLength),
    ("max_buffer_size", .word c.maxBufferSize), ("default_depth", .word c.defaultDepth)]

def ofJson? : Decoder Config := fun j => do
  let d : Config := {}
  match (← j.fields? ["heap_base", "heap_slack", "stack_pointer", "max_string_length",
      "max_buffer_size", "default_depth"]).values with
  | [heapBase, heapSlack, stackPointer, maxStringLength, maxBufferSize, defaultDepth] =>
    return ⟨← withDefault word d.heapBase heapBase, ← withDefault word d.heapSlack heapSlack,
      ← withDefault word d.stackPointer stackPointer,
      ← withDefault word d.maxStringLength maxStringLength,
      ← withDefault word d.maxBufferSize maxBufferSize,
      ← withDefault word d.defaultDepth defaultDepth⟩
  | _ => none

end Config
end PathReplay
