import PathReplay.Memory.Basic
import PathReplay.Memory.Span
import PathReplay.Text.Hex

/-!
# Mapped ranges and search

`Memory.backedSpans` are the pages that hold bytes: those that were written and those of the loaded
segments. `Memory.mappedSpans` adds the pages of the heap. `Memory.find?` is the lowest address in the
backed pages at which a run of bytes occurs.
-/

namespace PathReplay.Memory

def segmentSpan (s : Segment) : Span := (pageBase s.start, pageCeil s.stop)

/-- The written pages and the pages of the segments that are not empty, in order. -/
def backedSpans (m : Memory) : List Span :=
  Span.merged <|
    (m.pages.keys.map fun base => (base, Word.saturatingAdd base (UInt64.ofNat pageSize))) ++
      ((m.segments.filter fun s => s.size > 0).map segmentSpan)

/-- The backed pages and those from the heap base to the end of the last live allocation, in order. -/
def mappedSpans (m : Memory) : List Span :=
  match m.heap.stop? with
  | some stop => Span.merged (m.backedSpans ++ [(pageBase m.heap.base, pageCeil stop)])
  | none => Span.merged m.backedSpans

/-- Whether the bytes at an address are those of `needle`. -/
def matchesAt (m : Memory) (a : Address) : Bytes → Bool
  | [] => true
  | b :: rest => m.byte a == b && m.matchesAt (a + 1) rest

/-- The first of `count` addresses from `a` on at which `needle` occurs. -/
def firstMatch? (m : Memory) (needle : Bytes) (a : Address) : Nat → Option Address
  | 0 => none
  | count + 1 => if m.matchesAt a needle then some a else m.firstMatch? needle (a + 1) count

def firstInSpan? (m : Memory) (needle : Bytes) (span : Span) : Option Address :=
  let room := span.2.toNat - span.1.toNat
  if span.1 < span.2 ∧ needle.length ≤ room then
    m.firstMatch? needle span.1 (room - needle.length + 1)
  else none

/-- A span cut to the window from `start` to `stop`. -/
def clipped (start stop : Address) (span : Span) : Span := (max span.1 start, min span.2 stop)

/-- The lowest address in the backed pages at which `needle` occurs, wholly between `start` and `stop`. -/
def find? (m : Memory) (needle : Bytes) (start : Option Address) (stop : Option Address) :
    Option Address :=
  let start := start.getD 0
  let stop := stop.getD 0xFFFFFFFFFFFFFFFF
  if needle = [] ∨ stop ≤ start then none
  else m.backedSpans.findSome? fun span => m.firstInSpan? needle (clipped start stop span)

theorem find?_nil (m : Memory) (start stop : Option Address) : m.find? [] start stop = none := by
  simp [find?]

/-- The lowest occurrence in the first segment of a name. -/
def findInSegment? (m : Memory) (needle : Bytes) (name : String) : Option Address :=
  (m.segments.find? fun s => s.name == name).bind fun s =>
    m.find? needle (some s.start) (some s.stop)

/-- The lowest occurrence between the heap base and the end of the last live allocation. -/
def findInHeap? (m : Memory) (needle : Bytes) : Option Address :=
  m.heap.stop?.bind fun stop => m.find? needle (some m.heap.base) (some stop)

def table (m : Memory) : String :=
  let row := fun (lo, hi) =>
    Hex.address lo ++ "               " ++ Hex.address lo ++ " - " ++ Hex.address hi ++ "  " ++
      toString (hi - lo).toNat ++ "\n"
  "Base Address             Address Range            Size\n" ++ String.join (m.mappedSpans.map row)

end PathReplay.Memory
