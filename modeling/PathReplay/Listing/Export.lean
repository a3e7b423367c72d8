import PathReplay.Json.Reader
import PathReplay.Json.Decoder
import PathReplay.Listing.Basic

/-!
# Listings as JSON documents

The export format of a listing, with an encoder and a decoder for each of its types. The encoder writes
every field; the decoder lets those with a default be left out. A function record is one flat object.
-/

namespace PathReplay

open Decoder

namespace Arch

def toJson (a : Arch) : Json := .text a.label

def ofJson? : Decoder Arch := fun j => (text j).bind ofName?

theorem ofJson?_toJson (a : Arch) : ofJson? a.toJson = some a := by
  cases a <;> decide +kernel

end Arch

namespace Segment

def toJson (s : Segment) : Json :=
  .record [("name", .text s.name), ("start", .word s.start), ("size", .word s.size),
    ("data", .optional (fun d => .array (d.toList.map fun b => .integer b.toNat)) s.data)]

def ofJson? : Decoder Segment := fun j => do
  match (← j.fields? ["name", "start", "size", "data"]).values with
  | [name, start, size, data] =>
    return ⟨← required text name, ← required word start, ← required word size,
      ← withDefault (optional fun j => (list byte j).map List.toArray) none data⟩
  | _ => none

end Segment

namespace MemoryReference

def toJson (m : MemoryReference) : Json :=
  .record [("segment", .optional .text m.segment), ("base", .optional .text m.base),
    ("index", .optional .text m.index), ("scale", .integer m.scale.toNat),
    ("displacement", .integer m.displacement.toInt)]

def ofJson? : Decoder MemoryReference := fun j => do
  match (← j.fields? ["segment", "base", "index", "scale", "displacement"]).values with
  | [segment, base, index, scale, displacement] =>
    return ⟨← withDefault (optional text) none segment, ← withDefault (optional text) none base,
      ← withDefault (optional text) none index, ← withDefault byte 1 scale,
      ← withDefault signed 0 displacement⟩
  | _ => none

end MemoryReference

namespace OperandKind

def toJson : OperandKind → Json
  | register name => .record [("register", .text name)]
  | immediate value => .record [("immediate", .word value)]
  | memory m => .record [("memory", m.toJson)]
  | near target => .record [("near", .word target)]

/-- The kind is the only member's name. -/
def ofJson? : Decoder OperandKind
  | .object [(⟨some "register", _⟩, j)] => (text j).map register
  | .object [(⟨some "immediate", _⟩, j)] => (word j).map immediate
  | .object [(⟨some "memory", _⟩, j)] => (MemoryReference.ofJson? j).map memory
  | .object [(⟨some "near", _⟩, j)] => (word j).map near
  | _ => none

end OperandKind

namespace Operand

def toJson (o : Operand) : Json :=
  .record [("text", .text o.text), ("size", .word o.size), ("kind", o.kind.toJson)]

def ofJson? : Decoder Operand := fun j => do
  match (← j.fields? ["text", "size", "kind"]).values with
  | [t, size, kind] =>
    return ⟨← required Decoder.text t, ← required word size, ← required OperandKind.ofJson? kind⟩
  | _ => none

end Operand

namespace Instruction

def toJson (i : Instruction) : Json :=
  .record [("address", .word i.address), ("mnemonic", .text i.mnemonic), ("length", .word i.length),
    ("prefix", .optional .text i.repetition), ("operands", .list Operand.toJson i.operands)]

def ofJson? : Decoder Instruction := fun j => do
  match (← j.fields? ["address", "mnemonic", "length", "prefix", "operands"]).values with
  | [address, mnemonic, length, repetition, operands] =>
    return ⟨← required word address, ← required text mnemonic, ← required word length,
      ← withDefault (optional text) none repetition, ← withDefault (list Operand.ofJson?) [] operands⟩
  | _ => none

end Instruction

namespace FrameMember

def toJson (m : FrameMember) : Json :=
  .record [("name", .text m.name), ("offset", .integer m.offset.toInt), ("size", .word m.size)]

def ofJson? : Decoder FrameMember := fun j => do
  match (← j.fields? ["name", "offset", "size"]).values with
  | [name, offset, size] =>
    return ⟨← required text name, ← required signed offset, ← required word size⟩
  | _ => none

end FrameMember

namespace BlockRecord

def toJson (b : BlockRecord) : Json :=
  .record [("start", .word b.start), ("end", .word b.stop), ("heads", .list .word b.heads),
    ("succs", .list .word b.succs), ("preds", .list .word b.preds)]

def ofJson? : Decoder BlockRecord := fun j => do
  match (← j.fields? ["start", "end", "heads", "succs", "preds"]).values with
  | [start, stop, heads, succs, preds] =>
    return ⟨← required word start, ← required word stop, ← required (list word) heads,
      ← withDefault (list word) [] succs, ← withDefault (list word) [] preds⟩
  | _ => none

end BlockRecord

namespace Convention

def toJson (c : Convention) : Json := .text c.label

/-- A convention's name, alone or as the only member of an object with the value `null`. -/
def ofJson? : Decoder Convention
  | .string (some s) => ofLabel? s
  | .object [(⟨some s, _⟩, .null)] => ofLabel? s
  | _ => none

end Convention

namespace Declaration

def toJson (d : Declaration) : Json := .record [("type", .text d.typeName), ("name", .text d.name)]

def ofJson? : Decoder Declaration := fun j => do
  match (← j.fields? ["type", "name"]).values with
  | [typeName, name] => return ⟨← required text typeName, ← required text name⟩
  | _ => none

end Declaration

namespace Prototype

def toJson (p : Prototype) : Json :=
  .record [("name", .text p.name), ("return_type", .text p.returnType),
    ("convention", .optional Convention.toJson p.convention), ("args", .list Declaration.toJson p.args)]

def ofJson? : Decoder Prototype := fun j => do
  match (← j.fields? ["name", "return_type", "convention", "args"]).values with
  | [name, returnType, convention, args] =>
    return ⟨← required text name, ← required text returnType,
      ← withDefault (optional Convention.ofJson?) none convention,
      ← withDefault (list Declaration.ofJson?) [] args⟩
  | _ => none

end Prototype

namespace FunctionRecord

/-- The extent and the frame, without blocks and prototype. -/
def extentToJson (f : FunctionRecord) : Json :=
  .record [("entry", .word f.entry), ("end", .word f.stop), ("frame", .list FrameMember.toJson f.frame)]

def toJson (f : FunctionRecord) : Json :=
  .record [("entry", .word f.entry), ("end", .word f.stop), ("frame", .list FrameMember.toJson f.frame),
    ("blocks", .list BlockRecord.toJson f.blocks),
    ("prototype", .optional Prototype.toJson f.prototype)]

/-- How deep a member of a function record may be nested, which is kept whole until its record is read. -/
def maxMemberDepth : Nat := 124

/-- Whether a member of the record other than blocks and prototype can be kept. -/
def isKeepable (m : MemberName × Json) : Bool :=
  m.1.text == some "blocks" || m.1.text == some "prototype" ||
    (m.2.isRepresentable && m.2.depth ≤ maxMemberDepth)

/-- One flat object. -/
def ofJson? : Decoder FunctionRecord
  | .object members => do
    if !members.all isKeepable then none
    match (← (Json.object members).fields? ["entry", "end", "frame", "blocks", "prototype"]).values with
    | [entry, stop, frame, blocks, prototype] =>
      return ⟨← required word entry, ← required word stop,
        ← withDefault (list FrameMember.ofJson?) [] frame,
        ← withDefault (list BlockRecord.ofJson?) [] blocks,
        ← withDefault (optional Prototype.ofJson?) none prototype⟩
    | _ => none
  | _ => none

end FunctionRecord

namespace SymbolRecord

def toJson (s : SymbolRecord) : Json := .record [("name", .text s.name), ("size", .optional .word s.size)]

def ofJson? : Decoder SymbolRecord := fun j => do
  match (← j.fields? ["name", "size"]).values with
  | [name, size] => return ⟨← required text name, ← withDefault (optional word) none size⟩
  | _ => none

end SymbolRecord

namespace Listing

/-- A map by address as an object under decimal names. -/
def mapToJson {α : Type} (encode : α → Json) (m : Std.ExtTreeMap Address α compare) : Json :=
  .record (m.toList.map fun (a, x) => (toString a.toNat, encode x))

def toJson (l : Listing) : Json :=
  .record [("arch", l.arch.toJson), ("segments", .list Segment.toJson l.segments),
    ("instructions", mapToJson Instruction.toJson l.instructions),
    ("functions", .list FunctionRecord.toJson l.functions),
    ("names", mapToJson SymbolRecord.toJson l.symbols)]

def ofJson? : Decoder Listing := fun j => do
  match (← j.fields? ["arch", "segments", "instructions", "functions", "names"]).values with
  | [arch, segments, instructions, functions, symbols] =>
    return ⟨← withDefault Arch.ofJson? .x86 arch, ← withDefault (list Segment.ofJson?) [] segments,
      ← withDefault (addressMap Instruction.ofJson?) ∅ instructions,
      ← withDefault (list FunctionRecord.ofJson?) [] functions,
      ← withDefault (addressMap SymbolRecord.ofJson?) ∅ symbols⟩
  | _ => none

/-- The listing in an export's text, of which a reader makes a document. -/
def parseWith? (read : String → Option Json) (text : String) : Option Listing := (read text).bind ofJson?

def parse? (text : String) : Option Listing := parseWith? Json.parse? text

end Listing
end PathReplay
