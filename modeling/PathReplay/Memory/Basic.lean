import PathReplay.Memory.Segment
import PathReplay.Memory.Heap

/-!
# Paged memory

Memory is materialised a page at a time, when something writes into the page. Until then a page that
overlaps a loaded segment reads as the segment's contents, and any other page as zero. `Memory.byte` is the
view: the contents address by address. `Memory.read` and `Memory.write` work page by page and wrap at the
top of the address space.
-/

namespace PathReplay

/-- The granularity at which memory is materialised. -/
def pageSize : Nat := 0x1000

abbrev Page := Vector UInt8 pageSize

/-- The first address of the page of an address. -/
def pageBase (a : Address) : Address := a &&& 0xFFFFFFFFFFFFF000

def pageOffset (a : Address) : Nat := a.toNat % pageSize

theorem pageOffset_lt (a : Address) : pageOffset a < pageSize := Nat.mod_lt _ (by decide)

/-- How many bytes of its page lie at or above an address. -/
def pageRoom (a : Address) : Nat := pageSize - pageOffset a

theorem pageRoom_pos (a : Address) : 0 < pageRoom a := Nat.sub_pos_of_lt (pageOffset_lt a)

/-- The first page base at or above an address, as long as there is one. -/
def pageCeil (a : Address) : Address := pageBase (Word.saturatingAdd a 0xFFF)

/-- The page with bytes written from a position on. -/
def Page.put (p : Page) (offset : Nat) : Bytes → Page
  | [] => p
  | b :: rest => Page.put (p.setIfInBounds offset b) (offset + 1) rest

structure Memory where
  /-- The materialised pages, by base. -/
  pages : Std.ExtTreeMap Address Page compare
  segments : List Segment
  heap : Heap
  /-- The most bytes that one bulk copy or fill moves. -/
  maxTransfer : UInt64

namespace Memory

def defaultHeapBase : Address := 0x02000000
def defaultHeapSlack : UInt64 := 0x100
def defaultMaxTransfer : UInt64 := 0x100000

/-- The end of the segment that reaches highest. -/
def highestStop (segments : List Segment) : Address := ((segments.map Segment.stop).max?).getD 0

/-- Where the heap starts: at the base asked for, or above the segments if one reaches past it. -/
def heapBaseFor (segments : List Segment) (base : Address) : Address :=
  let highest := highestStop segments
  if highest > base then pageCeil highest else base

def load (segments : List Segment) (heapBase : Address) (heapSlack : UInt64) : Memory where
  pages := ∅
  segments := segments
  heap := .empty (heapBaseFor segments heapBase) heapSlack
  maxTransfer := defaultMaxTransfer

def ofSegments (segments : List Segment) : Memory := load segments defaultHeapBase defaultHeapSlack

/-! ## The contents address by address -/

/-- The byte that the program was loaded with: of the last segment that has one there, else zero. -/
def loadedByte (segments : List Segment) (a : Address) : UInt8 :=
  segments.foldl (fun b s => (s.byte? a).getD b) 0

def byte (m : Memory) (a : Address) : UInt8 :=
  match m.pages[pageBase a]? with
  | some p => p.getD (pageOffset a) 0
  | none => loadedByte m.segments a

/-! ## Reading -/

/-- The loaded contents of a buffer's worth of memory. -/
def loadedChunk (segments : List Segment) (a : Address) (size : Nat) : Array UInt8 :=
  segments.foldl (fun buffer s => s.overlay a buffer) (Array.replicate size 0)

def readChunk (m : Memory) (a : Address) (size : Nat) : Array UInt8 :=
  match m.pages[pageBase a]? with
  | some p => p.toArray.extract (pageOffset a) (pageOffset a + size)
  | none => loadedChunk m.segments a size

/-- How much of `size` bytes from an address on lies in the address's page. -/
def chunkSize (a : Address) (size : Nat) : Nat := min (pageRoom a) size

theorem chunkSize_pos {a : Address} {size : Nat} (h : 0 < size) : 0 < chunkSize a size :=
  Nat.lt_min.2 ⟨pageRoom_pos a, h⟩

theorem chunkSize_le (a : Address) (size : Nat) : chunkSize a size ≤ size := Nat.min_le_right ..

/-- The `size` bytes from an address on. Unmapped memory reads as zero. -/
def read (m : Memory) (a : Address) (size : Nat) : Bytes :=
  if _h : size = 0 then []
  else
    let n := chunkSize a size
    (m.readChunk a n).toList ++ m.read (a + UInt64.ofNat n) (size - n)
termination_by size
decreasing_by
  have hs := Nat.pos_of_ne_zero _h
  have := chunkSize_pos (a := a) hs
  omega

@[simp] theorem read_zero (m : Memory) (a : Address) : m.read a 0 = [] := by unfold read; simp

/-- The unsigned integer in the `width` bytes at an address, eight at most. -/
def readWord (m : Memory) (a : Address) (width : Nat) : UInt64 := Word.ofBytes (m.read a (min width 8))

/-! ## Writing -/

def loadedPage (segments : List Segment) (base : Address) : Page :=
  let contents := loadedChunk segments base pageSize
  Vector.ofFn fun i => contents.getD i 0

def writeChunk (m : Memory) (a : Address) (data : Bytes) : Memory :=
  let segments := m.segments
  { m with
    pages := m.pages.alter (pageBase a) fun
      | some p => some (p.put (pageOffset a) data)
      | none => some ((loadedPage segments (pageBase a)).put (pageOffset a) data) }

def write (m : Memory) (a : Address) (data : Bytes) : Memory :=
  if _h : data = [] then m
  else
    let n := pageRoom a
    (m.writeChunk a (data.take n)).write (a + UInt64.ofNat n) (data.drop n)
termination_by data.length
decreasing_by
  have hd := List.length_pos_iff.2 _h
  have := pageRoom_pos a
  simp only [List.length_drop]; omega

@[simp] theorem write_nil (m : Memory) (a : Address) : m.write a [] = m := by unfold write; simp

/-- Memory after a write of the low `width` bytes of a word, eight at most. -/
def writeWord (m : Memory) (a : Address) (value : UInt64) (width : Nat) : Memory :=
  m.write a (Word.toBytes value (min width 8))

/-! ## The heap -/

/-- A size cut to the most bytes that a bulk operation moves. -/
def bounded (m : Memory) (size : UInt64) : Nat := (min size m.maxTransfer).toNat

def alloc (m : Memory) (size : UInt64) : Address × Memory :=
  let (a, heap) := m.heap.alloc size
  (a, { m with heap })

/-- A heap allocation given another size. Its contents move with it. -/
def realloc (m : Memory) (a : Address) (size : UInt64) : Address × Memory :=
  let ((p, moved), heap) := m.heap.realloc a size
  let m := { m with heap }
  match moved with
  | some old => (p, m.write p (m.read a (m.bounded (min old size))))
  | none => (p, m)

/-- Memory without the heap allocation at an address. Its contents stay readable. -/
def free (m : Memory) (a : Address) : Memory := { m with heap := m.heap.free a }

end Memory
end PathReplay
