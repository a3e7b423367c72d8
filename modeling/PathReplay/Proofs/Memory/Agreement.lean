import PathReplay.Proofs.Memory.Contents

/-!
# Memories that read alike

* `Memory.Agrees` : two memories that differ in the materialised pages at most, and read alike everywhere;
* `agrees_iff_byte` : it is enough to read single bytes;
* `agrees_writeChunk_nil` : a page may be materialised at any time;
* `Agrees.write`, `Agrees.alloc`, `Agrees.realloc`, `Agrees.free` : what is done to both keeps them alike.
-/

namespace PathReplay.Memory

variable {m m' : Memory}

/-- Two memories differ in the materialised pages at most, and every read of one gives what it gives of the other. -/
structure Agrees (m m' : Memory) : Prop where
  eq : m' = { m with pages := m'.pages }
  read : ∀ a n, m'.read a n = m.read a n

/-- A byte is read alone. -/
theorem read_one (m : Memory) (a : Address) : m.read a 1 = [m.byte a] := by
  rw [read_eq_map, List.range_one, List.map_singleton, show a + UInt64.ofNat 0 = a from UInt64.add_zero a]

theorem agrees_iff_byte : m.Agrees m' ↔ m' = { m with pages := m'.pages } ∧ ∀ x, m'.byte x = m.byte x := by
  refine ⟨fun h => ⟨h.eq, fun x => ?_⟩, fun ⟨heq, hbyte⟩ => ⟨heq, fun a n => read_congr fun i _ => hbyte _⟩⟩
  have hread := h.read x 1
  rw [read_one, read_one] at hread
  exact (List.cons.inj hread).1

theorem Agrees.byte (h : m.Agrees m') (x : Address) : m'.byte x = m.byte x := (agrees_iff_byte.1 h).2 x

/-- Materialising a page changes nothing that is read. -/
theorem agrees_writeChunk_nil (m : Memory) (a : Address) : m.Agrees (m.writeChunk a []) :=
  agrees_iff_byte.2 ⟨rfl, fun x => m.byte_writeChunk (Nat.zero_le _) x⟩

namespace Agrees

variable (h : m.Agrees m')
include h

theorem heap : m'.heap = m.heap := by rw [h.eq]

theorem bounded (size : UInt64) : m'.bounded size = m.bounded size := by rw [h.eq]; rfl

theorem readWord (a : Address) (width : Nat) : m'.readWord a width = m.readWord a width := by
  rw [Memory.readWord, h.read, Memory.readWord]

/-! ## Writing -/

theorem writeChunk (a : Address) {data : Bytes} (hdata : data.length ≤ pageRoom a) :
    (m.writeChunk a data).Agrees (m'.writeChunk a data) := by
  refine agrees_iff_byte.2 ⟨?_, fun x => ?_⟩
  · rw [h.eq]
    rfl
  · rw [m'.byte_writeChunk hdata, m.byte_writeChunk hdata, h.byte]

end Agrees

/-- Written alike, they read alike, although a page may be materialised in one and not in the other. -/
theorem Agrees.write (h : m.Agrees m') (a : Address) (data : Bytes) : (m.write a data).Agrees (m'.write a data) := by
  fun_induction m.write a data generalizing m' with
  | case1 => rwa [write_nil]
  | case2 m a data hne n =>
    rename_i ih
    have hwrite : m'.write a data = (m'.writeChunk a (data.take n)).write (a + UInt64.ofNat n) (data.drop n) := by
      rw [Memory.write, dif_neg hne]
    rw [hwrite]
    exact ih (h.writeChunk a (List.length_take_le _ _))

namespace Agrees

variable (h : m.Agrees m')
include h

/-! ## The heap -/

theorem withHeap (heap : Heap) : Agrees { m with heap } { m' with heap } :=
  agrees_iff_byte.2 ⟨by rw [h.eq], h.byte⟩

theorem alloc (size : UInt64) : (m'.alloc size).1 = (m.alloc size).1 ∧ (m.alloc size).2.Agrees (m'.alloc size).2 := by
  rw [Memory.alloc, h.heap]
  exact ⟨rfl, h.withHeap _⟩

theorem free (a : Address) : (m.free a).Agrees (m'.free a) := by
  rw [Memory.free, Memory.free, h.heap]
  exact h.withHeap _

theorem realloc (a : Address) (size : UInt64) :
    (m'.realloc a size).1 = (m.realloc a size).1 ∧ (m.realloc a size).2.Agrees (m'.realloc a size).2 := by
  rw [Memory.realloc, Memory.realloc, h.heap]
  obtain ⟨⟨p, moved⟩, heap⟩ := m.heap.realloc a size
  have hheap := h.withHeap heap
  cases moved with
  | none => exact ⟨rfl, hheap⟩
  | some old =>
    refine ⟨rfl, ?_⟩
    dsimp only
    rw [hheap.read, hheap.bounded]
    exact hheap.write p _

end Agrees
end PathReplay.Memory
