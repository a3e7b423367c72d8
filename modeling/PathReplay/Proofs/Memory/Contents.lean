import PathReplay.Proofs.Memory.Overlay

/-!
# Memory as an array of bytes

* `byte_eq` : a byte is that of its page, once the page is materialised, and the initial one before;
* `read_eq_map` : a read gives the bytes one after the other, across pages, segments and the top of the address
  space;
* `byte_writeChunk`, `byte_write` : a write changes the bytes that it writes and no other, although it
  materialises whole pages;
* `Op`, `run`, `Reached` : what a program does to memory, and the memory it can come to have;
* `contents_run` : memory is an array of bytes after every run.
-/

namespace PathReplay.Memory

theorem byte_eq (m : Memory) (x : Address) :
    m.byte x = match m.pages[pageBase x]? with
      | some p => p.getD (pageOffset x) 0
      | none => if x = lastAddress then 0 else initialByte m.segments x := by
  rw [byte]
  cases m.pages[pageBase x]? with
  | some p => rfl
  | none => exact loadedByte_eq m.segments x

theorem byte_load (segments : List Segment) (base : Address) (slack : UInt64) (x : Address) :
    (load segments base slack).byte x = loadedByte segments x := by
  rw [byte, show (load segments base slack).pages[pageBase x]? = none from Std.ExtTreeMap.getElem?_empty]
  rfl

/-! ## Reading -/

theorem getElem?_readChunk (m : Memory) {a : Address} {n i : Nat} (hn : n ≤ pageRoom a) (hi : i < n) :
    (m.readChunk a n)[i]? = some (m.byte (a + UInt64.ofNat i)) := by
  have hroom : i < pageRoom a := Nat.lt_of_lt_of_le hi hn
  have hfit := toNat_add_le_of_le_pageRoom (Nat.succ_le_of_lt hroom)
  rw [readChunk, byte, pageBase_add hroom, pageOffset_add hroom]
  cases m.pages[pageBase a]? with
  | some p =>
    have hpos : pageOffset a + i < pageSize := by simp only [pageRoom] at hroom; omega
    rw [Array.getElem?_extract_of_lt (by rw [Vector.size_toArray]; omega)]
    exact congrArg some (getD_page p hpos).symm
  | none => exact getElem?_loadedChunk m.segments hi (by omega)

theorem size_readChunk (m : Memory) {a : Address} {n : Nat} (hn : n ≤ pageRoom a) :
    (m.readChunk a n).size = n := by
  rw [readChunk]
  cases m.pages[pageBase a]? with
  | some p =>
    simp only [pageRoom] at hn
    simp only [Array.size_extract, Vector.size_toArray]
    omega
  | none => exact size_loadedChunk m.segments a n

/-- Within a page, a read gives the bytes one after the other. -/
theorem toList_readChunk (m : Memory) {a : Address} {n : Nat} (hn : n ≤ pageRoom a) :
    (m.readChunk a n).toList = (List.range n).map fun i => m.byte (a + UInt64.ofNat i) := by
  refine List.ext_getElem? fun i => ?_
  rw [Array.getElem?_toList]
  by_cases hi : i < n
  · rw [m.getElem?_readChunk hn hi]
    simp [hi]
  · rw [Array.getElem?_eq_none (by rw [m.size_readChunk hn]; omega)]
    simp [hi]

/-- A read gives the bytes one after the other, wherever pages and the address space end. -/
theorem read_eq_map (m : Memory) (a : Address) (n : Nat) :
    m.read a n = (List.range n).map fun i => m.byte (a + UInt64.ofNat i) := by
  fun_induction m.read a n with
  | case1 => rfl
  | case2 a n hn k ih =>
    have hk : n = k + (n - k) := (Nat.add_sub_cancel' (chunkSize_le a n)).symm
    have hroom : k ≤ pageRoom a := Nat.min_le_left _ _
    rw [ih, m.toList_readChunk hroom, hk, List.range_add, List.map_append, List.map_map]
    simp only [Nat.add_sub_cancel_left, add_ofNat_add, Function.comp_def]

theorem length_read (m : Memory) (a : Address) (n : Nat) : (m.read a n).length = n := by
  rw [read_eq_map, List.length_map, List.length_range]

/-! ## Writing -/

theorem getElem_put (data : Bytes) :
    ∀ (p : Page) (offset : Nat), offset + data.length ≤ pageSize → ∀ k (hk : k < pageSize),
      (p.put offset data)[k] = if offset ≤ k then (data[k - offset]?).getD p[k] else p[k] := by
  induction data with
  | nil =>
    intro p offset _ k hk
    rw [Page.put, List.getElem?_nil, Option.getD_none, ite_self]
  | cons b rest ih =>
    intro p offset hfit k hk
    rw [List.length_cons] at hfit
    rw [Page.put, ih _ _ (by omega) k hk, Vector.getElem_setIfInBounds]
    rcases Nat.lt_trichotomy k offset with hlt | rfl | hgt
    · rw [if_neg (by omega), if_neg (by omega), if_neg (by omega)]
    · rw [if_neg (by omega), if_pos rfl, if_pos (Nat.le_refl k), Nat.sub_self, List.getElem?_cons_zero,
        Option.getD_some]
    · rw [if_pos (by omega), if_neg (by omega), if_pos (by omega),
        show k - offset = k - (offset + 1) + 1 by omega, List.getElem?_cons_succ]

theorem getD_put (data : Bytes) (p : Page) {offset k : Nat} (hfit : offset + data.length ≤ pageSize)
    (hk : k < pageSize) : (p.put offset data).getD k 0 =
      if offset ≤ k then (data[k - offset]?).getD (p.getD k 0) else p.getD k 0 := by
  rw [getD_page _ hk, getD_page _ hk, getElem_put data p offset hfit k hk]

/-- The contents of a page, those it was loaded with if it is not materialised. -/
def page (m : Memory) (base : Address) : Page := (m.pages[base]?).getD (loadedPage m.segments base)

/-- Page by page, memory holds the same bytes as segment by segment. -/
theorem getD_page_pageBase (m : Memory) (x : Address) :
    (m.page (pageBase x)).getD (pageOffset x) 0 = m.byte x := by
  rw [page, byte]
  cases m.pages[pageBase x]? with
  | some p => rfl
  | none => exact getD_loadedPage m.segments x

theorem page_writeChunk (m : Memory) (a : Address) (data : Bytes) (base : Address) :
    (m.writeChunk a data).page base =
      if base = pageBase a then (m.page base).put (pageOffset a) data else m.page base := by
  simp only [page, writeChunk, Std.ExtTreeMap.getElem?_alter, Std.LawfulEqCmp.compare_eq_iff_eq,
    eq_comm (a := base)]
  split
  · rename_i h
    subst h
    cases m.pages[pageBase a]? <;> rfl
  · rfl

/-- A write into a page changes what it writes, and the page keeps every other byte although it may be
materialised by it. -/
theorem byte_writeChunk (m : Memory) {a : Address} {data : Bytes} (h : data.length ≤ pageRoom a)
    (x : Address) : (m.writeChunk a data).byte x = (data[(x - a).toNat]?).getD (m.byte x) := by
  have hfit : pageOffset a + data.length ≤ pageSize := by
    have := pageOffset_lt a
    simp only [pageRoom] at h
    omega
  rw [← getD_page_pageBase, ← getD_page_pageBase, page_writeChunk]
  by_cases hpage : pageBase x = pageBase a
  · rw [if_pos hpage, getD_put data _ hfit (pageOffset_lt x)]
    by_cases hle : pageOffset a ≤ pageOffset x
    · rw [if_pos hle, toNat_sub_of_pageOffset_le hpage hle]
    · have hout := pageRoom_le_sub_of_pageOffset_lt hpage (Nat.lt_of_not_le hle)
      rw [if_neg hle, List.getElem?_eq_none (by omega), Option.getD_none]
  · have hout := pageRoom_le_sub_of_pageBase_ne hpage
    rw [if_neg hpage, List.getElem?_eq_none (by omega), Option.getD_none]

/-- A write changes the bytes that it writes and no other, wherever pages and the address space end. More
than the address space would come round to its own beginning. -/
theorem byte_write (m : Memory) (a : Address) (data : Bytes) (h : data.length ≤ 2 ^ 64) (x : Address) :
    (m.write a data).byte x = (data[(x - a).toNat]?).getD (m.byte x) := by
  fun_induction m.write a data with
  | case1 => rfl
  | case2 m a data hne n ih =>
    have hn : n < 2 ^ 64 := Nat.lt_of_le_of_lt (Nat.sub_le _ _) (by decide)
    have htake : (data.take n).length ≤ pageRoom a := List.length_take_le _ _
    rw [ih (by rw [List.length_drop]; omega), m.byte_writeChunk htake, toNat_sub_add_ofNat x a hn,
      List.getElem?_drop, List.getElem?_take]
    have hx := x.toNat_lt
    have hd := (x - a).toNat_lt
    split
    · rename_i hle
      rw [if_neg (by omega), Option.getD_none, Nat.add_sub_cancel' hle]
    · rename_i hlt
      rw [if_pos (by omega), List.getElem?_eq_none (by omega), Option.getD_none]

theorem byte_write_of_le (m : Memory) {a x : Address} {data : Bytes} (h : data.length ≤ (x - a).toNat) :
    (m.write a data).byte x = m.byte x := by
  have hlt := (x - a).toNat_lt
  rw [byte_write m a data (by omega), List.getElem?_eq_none h, Option.getD_none]

/-- What was written is read back. -/
theorem read_write (m : Memory) (a : Address) (data : Bytes) (h : data.length ≤ 2 ^ 64) :
    (m.write a data).read a data.length = data := by
  rw [read_eq_map]
  apply List.ext_getElem
  · rw [List.length_map, List.length_range]
  · intro i hi hi'
    have hdistance : (a + UInt64.ofNat i - a).toNat = i := toNat_add_ofNat_sub a (by omega)
    rw [List.getElem_map, List.getElem_range, byte_write m a data h, hdistance, List.getElem?_eq_getElem hi',
      Option.getD_some]

theorem read_congr {m m' : Memory} {a : Address} {n : Nat}
    (h : ∀ i < n, m.byte (a + UInt64.ofNat i) = m'.byte (a + UInt64.ofNat i)) : m.read a n = m'.read a n := by
  rw [read_eq_map, read_eq_map]
  exact List.map_congr_left fun i hi => h i (List.mem_range.1 hi)

/-- What lies below or above the bytes that are written is read as before. -/
theorem read_write_of_disjoint (m : Memory) {a b : Address} {data : Bytes} {n : Nat}
    (ha : a.toNat + data.length ≤ 2 ^ 64) (hb : b.toNat + n ≤ 2 ^ 64)
    (h : b.toNat + n ≤ a.toNat ∨ a.toNat + data.length ≤ b.toNat) : (m.write a data).read b n = m.read b n := by
  refine read_congr fun i hi => m.byte_write_of_le ?_
  have hlt := a.toNat_lt
  have hx : (b + UInt64.ofNat i).toNat = b.toNat + i := toNat_add_of_lt (by omega)
  rw [UInt64.toNat_sub, hx]
  omega

/-! ## Runs -/

/-- What a program does to memory. -/
inductive Op where
  | write (a : Address) (data : Bytes)
  | writeWord (a : Address) (value : UInt64) (width : Nat)
  | alloc (size : UInt64)
  | realloc (a : Address) (size : UInt64)
  | free (a : Address)

def step (m : Memory) : Op → Memory
  | .write a data => m.write a data
  | .writeWord a value width => m.writeWord a value width
  | .alloc size => (m.alloc size).2
  | .realloc a size => (m.realloc a size).2
  | .free a => m.free a

def run (m : Memory) (ops : List Op) : Memory := ops.foldl step m

/-- Memory that a program can have: loaded, operated on, given another limit for bulk operations. -/
inductive Reached : Memory → Prop where
  | load (segments : List Segment) (base : Address) (slack : UInt64) : Reached (load segments base slack)
  | step {m : Memory} (op : Op) : Reached m → Reached (m.step op)
  | limit {m : Memory} (maxTransfer : UInt64) : Reached m → Reached { m with maxTransfer }

/-- A write changes nothing but pages. -/
theorem write_eq (m : Memory) (a : Address) (data : Bytes) : ∃ pages, m.write a data = { m with pages } := by
  fun_induction m.write a data with
  | case1 m => exact ⟨m.pages, rfl⟩
  | case2 m a data _ n ih => exact ih

theorem segments_write (m : Memory) (a : Address) (data : Bytes) :
    (m.write a data).segments = m.segments := by
  obtain ⟨pages, heq⟩ := m.write_eq a data
  rw [heq]

theorem segments_step (m : Memory) (op : Op) : (m.step op).segments = m.segments := by
  cases op with
  | write a data => exact m.segments_write a data
  | writeWord a value width => exact m.segments_write a _
  | alloc size => rfl
  | realloc a size =>
    simp only [step, realloc]
    cases (m.heap.realloc a size).1.2 with
    | none => rfl
    | some old => exact segments_write _ _ _
  | free a => rfl

theorem segments_run (m : Memory) (ops : List Op) : (m.run ops).segments = m.segments := by
  induction ops generalizing m with
  | nil => rfl
  | cons op ops ih => exact (ih _).trans (m.segments_step op)

/-- Memory is an array of bytes: after every run, a byte is that of its page, if the page is materialised, and
else the initial one of the segments; a read gives the bytes from its address on; a write changes the bytes that
it writes and no other; and materialising a page changes none, as the page is seeded with what chunks are read
from. -/
theorem contents_run (segments : List Segment) (base : Address) (slack : UInt64) (ops : List Op) :
    let m := run (load segments base slack) ops
    (∀ x, m.byte x = match m.pages[pageBase x]? with
      | some p => p.getD (pageOffset x) 0
      | none => if x = lastAddress then 0 else initialByte segments x) ∧
    (∀ a n, m.read a n = (List.range n).map fun i => m.byte (a + UInt64.ofNat i)) ∧
    (∀ a data, data.length ≤ 2 ^ 64 → ∀ x,
      (m.write a data).byte x = (data[(x - a).toNat]?).getD (m.byte x)) ∧
    (∀ a, (m.writeChunk a []).pages.contains (pageBase a) = true ∧
      ∀ x, (m.writeChunk a []).byte x = m.byte x) ∧
    ∀ a n i, n ≤ pageRoom a → i < n →
      (loadedChunk segments a n)[i]? =
        some ((loadedPage segments (pageBase a)).getD (pageOffset a + i) 0) := by
  intro m
  have hsegments : m.segments = segments := segments_run _ ops
  refine ⟨fun x => hsegments ▸ m.byte_eq x, m.read_eq_map, m.byte_write, fun a => ⟨?_, fun x => ?_⟩,
    fun a n i hn hi => ?_⟩
  · simp only [writeChunk, Std.ExtTreeMap.contains_alter_self]
    cases m.pages[pageBase a]? <;> rfl
  · rw [m.byte_writeChunk (Nat.zero_le _), List.getElem?_nil, Option.getD_none]
  · have hroom : i < pageRoom a := Nat.lt_of_lt_of_le hi hn
    have hfit := toNat_add_le_of_le_pageRoom (Nat.succ_le_of_lt hroom)
    rw [getElem?_loadedChunk segments hi (by omega), ← getD_loadedPage, pageBase_add hroom,
      pageOffset_add hroom]

/-- A write across the top of the address space goes on at its bottom. -/
theorem byte_zero_of_write_across_top :
    ((run (load [⟨"top", 0xFFFFFFFFFFFFFFFE, 2, some #[1, 2]⟩] 0x1000 0) [.alloc 8]).write
      0xFFFFFFFFFFFFFFFE [3, 4, 5]).byte 0 = 5 := by
  have h := (contents_run [⟨"top", 0xFFFFFFFFFFFFFFFE, 2, some #[1, 2]⟩] 0x1000 0 [.alloc 8]).2.2.1
    0xFFFFFFFFFFFFFFFE [3, 4, 5] (by decide) 0
  rw [h]
  rfl

/-- The end of a segment is at most the last address, so contents that reach that far are not seen there. -/
theorem read_lastAddress_of_segment :
    let m := run (load [⟨"top", 0xFFFFFFFFFFFFFFFE, 2, some #[1, 2]⟩] 0x1000 0) []
    m.pages[pageBase lastAddress]? = none ∧ initialByte m.segments lastAddress = 2 ∧
      m.read lastAddress 1 = [0] := by
  intro m
  have hpage : m.pages[pageBase lastAddress]? = none := Std.ExtTreeMap.getElem?_empty
  refine ⟨hpage, by decide, ?_⟩
  rw [read_eq_map, List.range_one, List.map_singleton,
    show lastAddress + UInt64.ofNat 0 = lastAddress from rfl, byte_eq, hpage]
  rfl

end PathReplay.Memory
