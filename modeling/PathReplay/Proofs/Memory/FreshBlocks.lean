import PathReplay.LibC.Basic
import PathReplay.Proofs.Memory.HeapGrowth

/-!
# Fresh blocks of the heap

* `stop_le_heapBaseFor` : the heap starts at or above the end of every segment;
* `Op.request?`, `heap_step`, `heap_run` : what an operation on memory asks of the heap;
* `Heap.Admits`, `Op.Contained`, `Contained` : writes that lie below the heap or in a live block;
* `ZeroAbove` : memory is zero from the next free place on; `ZeroAbove.step`, `ZeroAbove.run` : it is after every
  operation, and so after every run, of contained writes;
* `ZeroAbove.read_alloc`, `fresh_block_reads_zero` : a new block reads as zero.
-/

namespace PathReplay

/-- Below the last page, an address is at most the first page base at or above it. -/
theorem le_pageCeil {a : Address} (h : a.toNat ≤ 2 ^ 64 - pageSize) : a ≤ pageCeil a := by
  have hadd := Word.toNat_saturatingAdd a 0xFFF
  have hsize : UInt64.size = 2 ^ 64 := rfl
  have hmask : (0xFFF : UInt64).toNat = 0xFFF := rfl
  rw [UInt64.le_iff_toNat_le, pageCeil, toNat_pageBase, pageOffset]
  simp only [pageSize] at h ⊢
  omega

/-- The range of `n` bytes lies below the heap or in a block that is live. -/
def Heap.Admits (h : Heap) (a : Address) (n : Nat) : Prop :=
  a.toNat + n ≤ h.base.toNat ∨
    ∃ (b : Address) (s : UInt64), h.live[b]? = some s ∧ b.toNat ≤ a.toNat ∧ a.toNat + n ≤ b.toNat + s.toNat

/-- Such a range ends at or below the next free place. -/
theorem Heap.Separated.admits_le_next {h : Heap} (hi : h.Separated) (hnext : h.next ≠ lastAddress) {a : Address}
    {n : Nat} (hadmits : h.Admits a n) : a.toNat + n ≤ h.next.toNat := by
  rcases hadmits with hbelow | ⟨b, s, hlive, -, hin⟩
  · exact hbelow.trans (UInt64.le_iff_toNat_le.1 hi.base_le_next)
  · exact hin.trans (Heap.add_le_of_extentStop_le (hi.stop_le_next b s hlive) hnext)

namespace Memory

variable {m : Memory} {segments : List Segment} {op : Op}

/-! ## The base of the heap -/

theorem stop_le_highestStop {s : Segment} (hs : s ∈ segments) : s.stop ≤ highestStop segments := by
  have hmem : s.stop ∈ segments.map Segment.stop := List.mem_map_of_mem hs
  rw [highestStop]
  cases hmax : (segments.map Segment.stop).max? with
  | none =>
    rw [List.max?_eq_none_iff.1 hmax] at hmem
    cases hmem
  | some top => exact (List.max?_eq_some_iff.1 hmax).2 _ hmem

theorem toNat_highestStop_le {bound : Nat} (h : ∀ s ∈ segments, s.stop.toNat ≤ bound) :
    (highestStop segments).toNat ≤ bound := by
  rw [highestStop]
  cases hmax : (segments.map Segment.stop).max? with
  | none => exact Nat.zero_le _
  | some top =>
    obtain ⟨s, hs, rfl⟩ := List.mem_map.1 (List.max?_eq_some_iff.1 hmax).1
    exact h s hs

/-- The heap starts at or above the end of every segment, if none reaches into the last page. -/
theorem stop_le_heapBaseFor (h : ∀ s ∈ segments, s.stop.toNat ≤ 2 ^ 64 - pageSize) (base : Address) {s : Segment}
    (hs : s ∈ segments) : s.stop ≤ heapBaseFor segments base := by
  have hle := stop_le_highestStop hs
  simp only [heapBaseFor]
  split
  · exact UInt64.le_trans hle (le_pageCeil (toNat_highestStop_le h))
  · rename_i hnot
    exact UInt64.le_trans hle (UInt64.not_lt.1 hnot)

/-- No segment has anything loaded from its end on. -/
theorem loadedByte_of_stop_le {x : Address} (h : ∀ s ∈ segments, s.stop ≤ x) : loadedByte segments x = 0 := by
  have hnone : ∀ s ∈ segments.reverse, s.byte? x = none := by
    intro s hs
    refine if_neg fun ⟨_, hlt⟩ => ?_
    have hle := h s (List.mem_reverse.1 hs)
    rw [UInt64.le_iff_toNat_le] at hle
    rw [UInt64.lt_iff_toNat_lt, Segment.contentsStop, Word.toNat_min] at hlt
    omega
  rw [loadedByte, foldl_getD, List.findSome?_eq_none_iff.2 hnone, Option.getD_none]

/-! ## The heap along a run -/

/-- What an operation on memory asks of the heap. -/
def Op.request? : Op → Option Heap.Op
  | .alloc size => some (.alloc size)
  | .realloc a size => some (.realloc a size)
  | .free a => some (.free a)
  | _ => none

theorem heap_step (m : Memory) (op : Op) : (m.step op).heap = m.heap.run op.request?.toList := by
  cases op with
  | write a data => exact m.heap_write a data
  | writeWord a value width => exact m.heap_write a _
  | realloc a size => exact m.heap_realloc a size
  | alloc size => rfl
  | free a => rfl

theorem heap_run (m : Memory) (ops : List Op) :
    (m.run ops).heap = m.heap.run (ops.flatMap fun op => op.request?.toList) := by
  induction ops generalizing m with
  | nil => rfl
  | cons op ops ih =>
    rw [List.flatMap_cons, Heap.run_append, ← heap_step]
    exact ih (m.step op)

theorem Reached.run (hm : Reached m) (ops : List Op) : Reached (m.run ops) := by
  induction ops generalizing m with
  | nil => exact hm
  | cons op ops ih => exact ih (hm.step op)

theorem next_ne_of_step (h : (m.step op).heap.next ≠ lastAddress) : m.heap.next ≠ lastAddress := by
  intro hlast
  have hle : m.heap.next ≤ (m.step op).heap.next := m.heap_step op ▸ m.heap.next_le_run _
  exact h (UInt64.le_antisymm (Heap.le_lastAddress _) (hlast ▸ hle))

theorem next_ne_of_run {ops : List Op} (h : (m.run ops).heap.next ≠ lastAddress) : m.heap.next ≠ lastAddress := by
  induction ops generalizing m with
  | nil => exact h
  | cons op ops ih => exact next_ne_of_step (ih h)

/-! ## Contained writes -/

/-- Where an operation writes, and how many bytes. The copy of a block that moves is not the caller's. -/
def Op.extent : Op → Address × Nat
  | .write a data => (a, data.length)
  | .writeWord a _ width => (a, min width 8)
  | _ => (0, 0)

/-- The operation writes nothing, or in a range that the heap admits. -/
def Op.Contained (op : Op) (h : Heap) : Prop := op.extent.2 = 0 ∨ h.Admits op.extent.1 op.extent.2

/-- Every operation of a run is contained at its moment. -/
def Contained (m : Memory) : List Op → Prop
  | [] => True
  | op :: ops => op.Contained m.heap ∧ (m.step op).Contained ops

/-- Memory is zero from the next free place on. -/
def ZeroAbove (m : Memory) : Prop := ∀ x, m.heap.next ≤ x → m.byte x = 0

theorem zeroAbove_load (h : ∀ s ∈ segments, s.stop.toNat ≤ 2 ^ 64 - pageSize) (base : Address) (slack : UInt64) :
    ZeroAbove (load segments base slack) := by
  intro x hx
  rw [byte_load]
  exact loadedByte_of_stop_le fun s hs => UInt64.le_trans (stop_le_heapBaseFor h base hs) hx

theorem ZeroAbove.write (hz : ZeroAbove m) {a : Address} {data : Bytes}
    (hfit : data.length = 0 ∨ a.toNat + data.length ≤ m.heap.next.toNat) : ZeroAbove (m.write a data) := by
  intro x hx
  rw [heap_write] at hx
  have hzero := hz x hx
  rcases hfit with hnil | hfit
  · rw [List.length_eq_zero_iff.1 hnil, write_nil, hzero]
  · have hlt := m.heap.next.toNat_lt
    have hfar : data.length ≤ (x - a).toNat := by
      rw [UInt64.le_iff_toNat_le] at hx
      rw [UInt64.toNat_sub_of_le _ _ (UInt64.le_iff_toNat_le.2 (by omega))]
      omega
    rw [m.byte_write_of_le hfar, hzero]

/-- A block that moves is copied below the place that is free after it. -/
theorem ZeroAbove.realloc (hz : ZeroAbove m) (hm : Reached m) {a : Address} {size : UInt64}
    (hnext : (m.realloc a size).2.heap.next ≠ lastAddress) : ZeroAbove (m.realloc a size).2 := by
  intro x hx
  have hle : m.heap.next ≤ (m.realloc a size).2.heap.next := m.heap_step (.realloc a size) ▸ m.heap.next_le_run _
  have hzero := hz x (UInt64.le_trans hle hx)
  have hsep : (m.realloc a size).2.heap.Separated := (hm.step (.realloc a size)).heap_separated
  cases hmoved : (m.heap.realloc a size).1.2 with
  | none => rw [byte_realloc_of_stayed hmoved, hzero]
  | some old =>
    have hnext' : (m.heap.realloc a size).2.next ≠ lastAddress := m.heap_realloc a size ▸ hnext
    obtain ⟨hold, hplace, -, hroom⟩ := hm.heap_below.realloc_moved hnext' hmoved
    have hlive := ((m.heap.getElem?_realloc_self a size).resolve_left fun h => by simp [hold] at h).2
    rw [← heap_realloc, ← fst_realloc] at hlive
    rw [← fst_realloc] at hplace
    have hend := Heap.add_le_of_extentStop_le (hsep.stop_le_next _ _ hlive) hnext
    rw [UInt64.le_iff_toNat_le] at hx
    rw [byte_realloc_of_moved hmoved (hplace ▸ hroom) (by omega), hzero]

theorem ZeroAbove.step (hz : ZeroAbove m) (hm : Reached m) (hop : op.Contained m.heap)
    (hnext : (m.step op).heap.next ≠ lastAddress) : ZeroAbove (m.step op) := by
  have hfit : op.extent.2 = 0 ∨ op.extent.1.toNat + op.extent.2 ≤ m.heap.next.toNat :=
    hop.imp_right fun h => hm.heap_separated.admits_le_next (next_ne_of_step hnext) h
  cases op with
  | write a data => exact hz.write hfit
  | writeWord a value width => exact hz.write (by rwa [Word.length_toBytes])
  | alloc size => exact fun x hx => hz x (UInt64.le_trans (m.heap.next_le_alloc size) hx)
  | realloc a size => exact hz.realloc hm hnext
  | free a => exact hz

theorem ZeroAbove.run (hz : ZeroAbove m) (hm : Reached m) {ops : List Op} (hops : Contained m ops)
    (hnext : (m.run ops).heap.next ≠ lastAddress) : ZeroAbove (m.run ops) := by
  induction ops generalizing m with
  | nil => exact hz
  | cons op ops ih => exact ih (hz.step hm hops.1 (next_ne_of_run hnext)) (hm.step op) hops.2 hnext

/-- A new block lies between the next free place and the one after it. -/
theorem ZeroAbove.read_alloc (hz : ZeroAbove m) (hm : Reached m) {n : UInt64} (hn : n ≠ 0)
    (hnext : (m.alloc n).2.heap.next ≠ lastAddress) :
    (m.alloc n).2.read (m.alloc n).1 n.toNat = List.replicate n.toNat 0 := by
  have hplace : (m.alloc n).1 = m.heap.next := m.heap.fst_alloc n
  have hsep : (m.alloc n).2.heap.Separated := (hm.step (.alloc n)).heap_separated
  have hend := Heap.add_le_of_extentStop_le (hsep.stop_le_next _ _ (m.heap.live_alloc hn)) hnext
  have hlt := (m.alloc n).2.heap.next.toNat_lt
  rw [read_eq_map, hplace, List.map_eq_replicate_iff.2, List.length_range]
  intro i hi
  have hi := List.mem_range.1 hi
  refine hz _ (UInt64.le_iff_toNat_le.2 ?_)
  rw [toNat_add_of_lt (by omega)]
  exact Nat.le_add_right _ _

/-- A fresh block reads as zero. In memory loaded with segments that do not reach into the last page, the heap starts
at or above the end of every segment; and after every run in which each write lies below the heap or in a block that
is live at its moment, as long as the next free place is below the last address, all bytes of a new block are zero,
although blocks before it were given other sizes, moved and released. So `malloc` and `calloc` give zeros. -/
theorem fresh_block_reads_zero (segments : List Segment) (base : Address) (slack maxTransfer : UInt64) (ops : List Op)
    (hsegments : ∀ s ∈ segments, s.stop.toNat ≤ 2 ^ 64 - pageSize)
    (hops : Contained { load segments base slack with maxTransfer } ops) :
    let m := run { load segments base slack with maxTransfer } ops
    (∀ s ∈ segments, s.stop ≤ m.heap.base) ∧
    ∀ n, n ≠ 0 → (m.alloc n).2.heap.next ≠ lastAddress →
      (m.alloc n).2.read (m.alloc n).1 n.toNat = List.replicate n.toNat 0 ∧
      ∀ (machine : Machine) (unit : Nat) (args : List UInt64), machine.memory = m →
        (args.getD 0 0 = n →
          let (p, machine') := LibC.Routine.malloc.run unit args machine
          machine'.memory.read p n.toNat = List.replicate n.toNat 0) ∧
        (Word.saturatingMul (args.getD 0 0) (args.getD 1 0) = n →
          let (p, machine') := LibC.Routine.calloc.run unit args machine
          machine'.memory.read p n.toNat = List.replicate n.toNat 0) := by
  intro m
  have hload : Reached { load segments base slack with maxTransfer } := (Reached.load segments base slack).limit _
  refine ⟨fun s hs => ?_, fun n hn hnext => ?_⟩
  · have hbase : m.heap.base = heapBaseFor segments base :=
      (congrArg Heap.base (heap_run _ ops)).trans (Heap.base_run _ _)
    exact hbase ▸ stop_le_heapBaseFor hsegments base hs
  · have hloaded : ZeroAbove { load segments base slack with maxTransfer } := zeroAbove_load hsegments base slack
    have hstep : (m.step (.alloc n)).heap.next ≠ lastAddress := hnext
    have hzero : ZeroAbove m := hloaded.run hload hops (next_ne_of_step hstep)
    have hread := hzero.read_alloc (hload.run ops) hn hnext
    refine ⟨hread, ?_⟩
    rintro machine unit args hmachine
    rw [← hmachine] at hread
    exact ⟨fun hargs => hargs ▸ hread, fun hargs => hargs ▸ hread⟩

/-- A block that is given back after it moved and grew leaves its contents behind, but not where the next one goes.
The segment ends in the page that the heap begins in. -/
theorem zeros_after_moved_block :
    let segments : List Segment := [⟨"data", 0x1F00, 0x180, some #[7]⟩]
    let ops := [.alloc 4, .alloc 4, .write 0x2080 [1, 2, 3, 4], .realloc 0x2080 8, .writeWord 0x2088 5 8,
      .realloc 0x2088 16, .free 0x2088]
    let m := run { load segments 0x2080 0 with maxTransfer := 2 } ops
    Contained { load segments 0x2080 0 with maxTransfer := 2 } ops ∧ (m.alloc 6).2.heap.next ≠ lastAddress ∧
      (m.alloc 6).1 = 0x2098 ∧ (m.alloc 6).2.read 0x2098 6 = List.replicate 6 0 := by
  intro segments ops m
  let m₀ : Memory := { load segments 0x2080 0 with maxTransfer := 2 }
  have hheap : m.heap = m₀.heap.run (ops.flatMap fun op => op.request?.toList) := m₀.heap_run ops
  have hops : Contained m₀ ops := by
    refine ⟨.inl rfl, .inl rfl, .inr (.inr ⟨0x2080, 4, rfl, by decide, by decide⟩), .inl rfl,
      .inr (.inr ⟨0x2088, 8, ?_, by decide, by decide⟩), .inl rfl, .inl rfl, trivial⟩
    rw [heap_step, heap_step]
    decide
  have hnext : (m.alloc 6).2.heap.next ≠ lastAddress := by
    show (m.heap.alloc 6).2.next ≠ lastAddress
    rw [hheap]
    decide
  have hplace : (m.alloc 6).1 = 0x2098 := by
    show (m.heap.alloc 6).1 = 0x2098
    rw [hheap]
    decide
  have hfresh := (fresh_block_reads_zero segments 0x2080 0 2 ops (by decide) hops).2 6 (by decide) hnext
  exact ⟨hops, hnext, hplace, hplace ▸ hfresh.1⟩

end Memory
end PathReplay
