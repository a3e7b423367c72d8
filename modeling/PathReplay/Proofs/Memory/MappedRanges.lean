import PathReplay.Proofs.Memory.Reallocation
import PathReplay.Proofs.Memory.Search

/-!
# Mapped ranges

* `Mapped` : the pages that are to be listed; `Extent` : the ranges besides written pages that are rounded to pages;
* `mem_pieces_iff` : what is merged; `holds_mappedSpans_iff`, `empty_mem_mappedSpans_iff` : what comes of it;
* `mappedSpans_exact` : the ranges that are listed are in order with gaps between them and hold the pages that are to be
  listed, except for what extents have of the top page and for a heap whose live blocks are all empty.
-/

namespace PathReplay

theorem Heap.exists_stop {h : Heap} {a : Address} {size : UInt64} (hlive : h.live[a]? = some size) :
    ∃ stop, h.stop? = some stop ∧ extentStop (a, size) ≤ stop := by
  have hmem : extentStop (a, size) ∈ h.toList.map extentStop :=
    List.mem_map_of_mem (Std.ExtTreeMap.mem_toList_iff_getElem?_eq_some.2 hlive)
  cases hstop : h.stop? with
  | none => exact absurd hmem (List.max?_eq_none_iff.1 hstop ▸ List.not_mem_nil)
  | some stop => exact ⟨stop, rfl, (stop?_eq_some_iff.1 hstop).2 ⟨a, size, hlive, rfl⟩⟩

namespace Memory

variable {m : Memory} {x lo hi : Address}

/-- The page of an address was written, or shares an address with a segment, or with the range from the heap base to the
end of a live block. -/
inductive Mapped (m : Memory) (x : Address) : Prop where
  | written (hpage : m.pages.contains (pageBase x) = true)
  | loaded (s : Segment) (hs : s ∈ m.segments) (y : Address) (hpage : pageBase y = pageBase x)
      (hy : s.start.toNat ≤ y.toNat ∧ y.toNat < s.start.toNat + s.size.toNat)
  | allotted (a : Address) (size : UInt64) (hlive : m.heap.live[a]? = some size) (y : Address)
      (hpage : pageBase y = pageBase x) (hy : m.heap.base.toNat ≤ y.toNat ∧ y.toNat < a.toNat + size.toNat)

/-- The ranges that are rounded to pages: the segments that are not empty, and the heap from its base to the highest end
of a live block. -/
inductive Extent (m : Memory) : Address → Address → Prop where
  | segment (s : Segment) (hs : s ∈ m.segments) (hsize : 0 < s.size) : Extent m s.start s.stop
  | heap (stop : Address) (hstop : m.heap.stop? = some stop) : Extent m m.heap.base stop

theorem Extent.le (hm : Reached m) (h : m.Extent lo hi) : lo ≤ hi := by
  cases h with
  | segment s => exact start_le_stop s
  | heap stop hstop =>
    obtain ⟨⟨a, size, hlive, rfl⟩, -⟩ := Heap.stop?_eq_some_iff.1 hstop
    exact UInt64.le_trans (hm.heap_separated.base_le a size hlive) (Heap.le_extentStop (a, size))

/-! ## What is merged -/

/-- The span of the heap, if a block is live. -/
def heapSpans (m : Memory) : List Span := m.heap.stop?.toList.map fun stop => (pageBase m.heap.base, pageCeil stop)

theorem mappedSpans_eq (m : Memory) : m.mappedSpans = Span.merged (m.backedSpans ++ m.heapSpans) := by
  rw [mappedSpans, heapSpans]
  cases m.heap.stop? with
  | none => exact congrArg Span.merged (List.append_nil _).symm
  | some stop => rfl

/-- The spans of the written pages, the segments and the heap. -/
def pieces (m : Memory) : List Span :=
  (m.pages.keys.map fun base => (base, Word.saturatingAdd base (UInt64.ofNat pageSize))) ++
    ((m.segments.filter fun s => s.size > 0).map segmentSpan) ++ m.heapSpans

theorem mem_pieces_iff {t : Span} : t ∈ m.pieces ↔
    (∃ base, m.pages.contains base = true ∧ t = (base, Word.saturatingAdd base (UInt64.ofNat pageSize))) ∨
      ∃ lo hi, m.Extent lo hi ∧ t = (pageBase lo, pageCeil hi) := by
  simp only [pieces, heapSpans, List.mem_append, List.mem_map, List.mem_filter, Std.ExtTreeMap.mem_keys,
    ← Std.ExtTreeMap.contains_iff_mem, decide_eq_true_eq, Option.mem_toList, or_assoc]
  constructor
  · rintro (⟨base, hbase, rfl⟩ | ⟨s, ⟨hs, hsize⟩, rfl⟩ | ⟨stop, hstop, rfl⟩)
    · exact .inl ⟨base, hbase, rfl⟩
    · exact .inr ⟨_, _, .segment s hs hsize, rfl⟩
    · exact .inr ⟨_, _, .heap stop hstop, rfl⟩
  · rintro (⟨base, hbase, rfl⟩ | ⟨lo, hi, hextent, rfl⟩)
    · exact .inl ⟨base, hbase, rfl⟩
    · cases hextent with
      | segment s hs hsize => exact .inr (.inl ⟨s, ⟨hs, hsize⟩, rfl⟩)
      | heap _ hstop => exact .inr (.inr ⟨hi, hstop, rfl⟩)

/-- The span of a page is not empty, in the top page either. -/
theorem lt_pageStop {base : Address} (hbase : pageBase base = base) :
    base < Word.saturatingAdd base (UInt64.ofNat pageSize) := by
  have hlt := base.toNat_lt
  have hmul := toNat_pageBase_eq_mul base
  rw [hbase] at hmul
  rw [UInt64.lt_iff_toNat_lt, Word.toNat_saturatingAdd, show (UInt64.ofNat pageSize).toNat = 0x1000 from rfl]
  simp only [pageSize, UInt64.size] at hmul ⊢
  omega

theorem le_of_mem_pieces (hm : Reached m) : ∀ t ∈ m.pieces, t.1 ≤ t.2 := by
  intro t ht
  rcases mem_pieces_iff.1 ht with ⟨base, hbase, rfl⟩ | ⟨lo, hi, hextent, rfl⟩
  · have hlt := lt_pageStop (hm.aligned base hbase)
    dsimp only
    exact UInt64.le_of_lt hlt
  · exact pageBase_le_pageCeil (hextent.le hm)

/-! ## What comes of it -/

theorem exists_mem_mappedSpans (m : Memory) (x : Address) :
    (∃ t ∈ m.mappedSpans, t.Holds x) ↔ ∃ t ∈ m.pieces, t.Holds x := by
  simp only [mappedSpans_eq, backedSpans, pieces, Span.exists_mem_merged, List.mem_append, or_and_right, exists_or]

/-- Below the last address, the listed ranges hold the written pages and the pages of the extents, except that extents
do not count in the top page, and that an empty extent counts as its page if it is not at the start of one. -/
theorem holds_mappedSpans_iff_extent (hm : Reached m) (hx : x ≠ lastAddress) :
    (∃ t ∈ m.mappedSpans, t.Holds x) ↔ m.pages.contains (pageBase x) = true ∨
      pageBase x ≠ topPage ∧ ∃ lo hi, m.Extent lo hi ∧
        ((∃ y, (lo ≤ y ∧ y < hi) ∧ pageBase y = pageBase x) ∨
          lo = hi ∧ pageBase lo ≠ lo ∧ pageBase x = pageBase lo) := by
  rw [exists_mem_mappedSpans]
  constructor
  · rintro ⟨t, ht, hholds⟩
    rcases mem_pieces_iff.1 ht with ⟨base, hbase, rfl⟩ | ⟨lo, hi, hextent, rfl⟩
    · rw [holds_pageSpan_iff (hm.aligned base hbase) hx] at hholds
      exact .inl (hholds ▸ hbase)
    · obtain ⟨htop, hpage⟩ := (holds_pages_iff (hextent.le hm)).1 hholds
      exact .inr ⟨htop, lo, hi, hextent, hpage⟩
  · rintro (hbase | ⟨htop, lo, hi, hextent, hpage⟩)
    · exact ⟨_, mem_pieces_iff.2 (.inl ⟨_, hbase, rfl⟩), (holds_pageSpan_iff (pageBase_pageBase x) hx).2 rfl⟩
    · exact ⟨_, mem_pieces_iff.2 (.inr ⟨lo, hi, hextent, rfl⟩),
        (holds_pages_iff (hextent.le hm)).2 ⟨htop, hpage⟩⟩

/-- An extent is rounded to nothing in the top page, or at the start of a page if it is empty itself. -/
theorem empty_mem_pieces_iff (hm : Reached m) {a : Address} :
    (a, a) ∈ m.pieces ↔ ∃ lo hi, m.Extent lo hi ∧ pageBase lo = a ∧ (a = topPage ∨ lo = hi ∧ lo = a) := by
  rw [mem_pieces_iff]
  constructor
  · rintro (⟨base, hbase, heq⟩ | ⟨lo, hi, hextent, heq⟩)
    · have hlt := lt_pageStop (hm.aligned base hbase)
      rw [Prod.mk.injEq] at heq
      rw [← heq.2, ← heq.1] at hlt
      exact absurd hlt (UInt64.lt_irrefl a)
    · rw [Prod.mk.injEq] at heq
      rcases (pageBase_eq_pageCeil_iff (hextent.le hm)).1 (heq.1.symm.trans heq.2) with htop | ⟨hempty, hstart⟩
      · exact ⟨lo, hi, hextent, heq.1.symm, .inl (heq.1.trans htop)⟩
      · exact ⟨lo, hi, hextent, heq.1.symm, .inr ⟨hempty, hstart.symm.trans heq.1.symm⟩⟩
  · rintro ⟨lo, hi, hextent, rfl, hcase⟩
    have hempty : pageBase lo = pageCeil hi := (pageBase_eq_pageCeil_iff (hextent.le hm)).2
      (hcase.imp_right fun h => ⟨h.1, h.2.symm⟩)
    exact .inr ⟨lo, hi, hextent, Prod.ext rfl hempty⟩

/-- An empty range is listed for an extent that is rounded to nothing, unless an address next to it is listed. -/
theorem empty_mem_mappedSpans_iff_extent (hm : Reached m) {a : Address} :
    (a, a) ∈ m.mappedSpans ↔
      (∃ lo hi, m.Extent lo hi ∧ pageBase lo = a ∧ (a = topPage ∨ lo = hi ∧ lo = a)) ∧
        ¬∃ t ∈ m.mappedSpans, t.Holds a ∨ t.Holds (a - 1) := by
  rw [← empty_mem_pieces_iff hm, mappedSpans_eq]
  exact Span.empty_mem_merged_append_iff (le_of_mem_pieces hm)

/-- Below the top page, a page is to be listed if it was written or shares an address with an extent. -/
theorem mapped_iff (hx : pageBase x ≠ topPage) : m.Mapped x ↔ m.pages.contains (pageBase x) = true ∨
    ∃ lo hi, m.Extent lo hi ∧ ∃ y, (lo ≤ y ∧ y < hi) ∧ pageBase y = pageBase x := by
  -- the ends of extents stop at the last address, which is in the top page
  have hbelow : ∀ y : Address, pageBase y = pageBase x → y.toNat < 2 ^ 64 - 1 := fun y hy => by
    rw [← hy, Ne, pageBase_eq_topPage_iff] at hx
    simp only [pageSize] at hx
    omega
  simp only [UInt64.le_iff_toNat_le, UInt64.lt_iff_toNat_lt]
  constructor
  · rintro (hpage | ⟨s, hs, y, hpage, hy⟩ | ⟨a, size, hlive, y, hpage, hy⟩)
    · exact .inl hpage
    · have hstop := s.toNat_stop
      have hsize : 0 < s.size := by
        rw [UInt64.lt_iff_toNat_lt, UInt64.toNat_zero]
        omega
      have := hbelow y hpage
      exact .inr ⟨_, _, .segment s hs hsize, y, by omega, hpage⟩
    · obtain ⟨stop, hstop, hle⟩ := Heap.exists_stop hlive
      have := hbelow y hpage
      rw [UInt64.le_iff_toNat_le, Heap.toNat_extentStop] at hle
      dsimp only at hle
      exact .inr ⟨_, _, .heap stop hstop, y, by omega, hpage⟩
  · rintro (hpage | ⟨lo, hi, hextent, y, hy, hpage⟩)
    · exact .written hpage
    · cases hextent with
      | segment s hs hsize =>
        have hstop := s.toNat_stop
        exact .loaded s hs y hpage (by omega)
      | heap _ hstop =>
        obtain ⟨⟨a, size, hlive, rfl⟩, -⟩ := Heap.stop?_eq_some_iff.1 hstop
        rw [Heap.toNat_extentStop] at hy
        dsimp only at hy
        exact .allotted a size hlive y hpage (by omega)

/-- Below the top page, only the heap can be an empty extent. -/
theorem Extent.empty (h : m.Extent lo hi) (hempty : lo = hi) (htop : pageBase lo ≠ topPage) :
    lo = m.heap.base ∧ m.heap.stop? = some m.heap.base := by
  cases h with
  | segment s hs hsize =>
    rw [Ne, pageBase_eq_topPage_iff] at htop
    rw [← UInt64.toNat_inj, s.toNat_stop] at hempty
    rw [UInt64.lt_iff_toNat_lt, UInt64.toNat_zero] at hsize
    simp only [pageSize] at htop
    omega
  | heap _ hstop => exact ⟨rfl, hempty ▸ hstop⟩

/-- Below the top page, the listed ranges hold the pages that are to be listed, and that of a heap base inside a page if
every live block is empty. Of the top page they hold what was written. -/
theorem holds_mappedSpans_iff (hm : Reached m) (hx : x ≠ lastAddress) : (∃ t ∈ m.mappedSpans, t.Holds x) ↔
    if pageBase x = topPage then m.pages.contains topPage = true
    else m.Mapped x ∨ m.heap.stop? = some m.heap.base ∧ pageBase m.heap.base ≠ m.heap.base ∧
      pageBase x = pageBase m.heap.base := by
  rw [holds_mappedSpans_iff_extent hm hx]
  split
  · rename_i htop
    rw [htop]
    exact or_iff_left fun h => h.1 rfl
  · rename_i htop
    rw [mapped_iff htop, or_assoc, and_iff_right htop]
    refine or_congr_right ?_
    constructor
    · rintro ⟨lo, hi, hextent, hy | ⟨hempty, hinside, hpage⟩⟩
      · exact .inl ⟨lo, hi, hextent, hy⟩
      · obtain ⟨rfl, hstop⟩ := hextent.empty hempty (hpage ▸ htop)
        exact .inr ⟨hstop, hinside, hpage⟩
    · rintro (⟨lo, hi, hextent, hy⟩ | ⟨hstop, hinside, hpage⟩)
      · exact ⟨lo, hi, hextent, .inl hy⟩
      · exact ⟨_, _, .heap _ hstop, .inr ⟨rfl, hinside, hpage⟩⟩

/-- An empty range is listed for an extent in the top page, and for a heap base at the start of a page if every live
block is empty, unless an address next to it is listed. -/
theorem empty_mem_mappedSpans_iff (hm : Reached m) {a : Address} : (a, a) ∈ m.mappedSpans ↔
    ((a = topPage ∧ ∃ lo hi, m.Extent lo hi ∧ pageBase lo = topPage) ∨
      a = m.heap.base ∧ m.heap.stop? = some m.heap.base ∧ pageBase m.heap.base = m.heap.base) ∧
      ¬∃ t ∈ m.mappedSpans, t.Holds a ∨ t.Holds (a - 1) := by
  rw [empty_mem_mappedSpans_iff_extent hm]
  refine and_congr_left fun _ => ?_
  constructor
  · rintro ⟨lo, hi, hextent, hpage, hcase⟩
    by_cases htop : a = topPage
    · exact .inl ⟨htop, lo, hi, hextent, hpage.trans htop⟩
    · obtain ⟨hempty, rfl⟩ := hcase.resolve_left htop
      obtain ⟨rfl, hstop⟩ := hextent.empty hempty (hpage.symm ▸ htop)
      exact .inr ⟨rfl, hstop, hpage⟩
  · rintro (⟨rfl, lo, hi, hextent, hpage⟩ | ⟨rfl, hstop, hpage⟩)
    · exact ⟨lo, hi, hextent, hpage, .inl rfl⟩
    · exact ⟨_, _, .heap _ hstop, hpage, .inr ⟨rfl, rfl⟩⟩

theorem le_of_mem_mappedSpans (hm : Reached m) : ∀ t ∈ m.mappedSpans, t.1 ≤ t.2 := by
  have hle := le_of_mem_pieces hm
  have hbacked : ∀ t ∈ m.backedSpans, t.1 ≤ t.2 := fun t =>
    Span.le_of_mem_merged fun s hs => hle s (List.mem_append_left _ hs)
  intro t ht
  rw [mappedSpans_eq] at ht
  exact Span.le_of_mem_merged (fun s hs => (List.mem_append.1 hs).elim (hbacked s) fun hs =>
    hle s (List.mem_append_right _ hs)) ht

section Regular

variable (hregular : ∀ lo hi, m.Extent lo hi → lo < hi ∧ hi ≤ topPage)

include hregular

/-- Of the top page, what is to be listed was written, as no extent reaches into it. -/
theorem mapped_topPage_iff (hx : pageBase x = topPage) : m.Mapped x ↔ m.pages.contains topPage = true := by
  have hend : ∀ lo hi, m.Extent lo hi → hi.toNat ≤ 2 ^ 64 - pageSize := fun lo hi h => by
    rw [← toNat_topPage, ← UInt64.le_iff_toNat_le]
    exact (hregular lo hi h).2
  simp only [pageSize] at hend
  constructor
  · rintro (hpage | ⟨s, hs, y, hpage, hy⟩ | ⟨a, size, hlive, y, hpage, hy⟩)
    · exact hx ▸ hpage
    · rw [hx, pageBase_eq_topPage_iff] at hpage
      have hsize : 0 < s.size := by
        rw [UInt64.lt_iff_toNat_lt, UInt64.toNat_zero]
        omega
      have hstop := hend _ _ (.segment s hs hsize)
      rw [s.toNat_stop] at hstop
      simp only [pageSize] at hpage
      omega
    · rw [hx, pageBase_eq_topPage_iff] at hpage
      obtain ⟨stop, hstop, hle⟩ := Heap.exists_stop hlive
      have htop := hend _ _ (.heap stop hstop)
      rw [UInt64.le_iff_toNat_le, Heap.toNat_extentStop] at hle
      simp only [pageSize] at hle hpage
      omega
  · exact fun hpage => .written (hx.symm ▸ hpage)

/-- No range is empty, as no extent is rounded to nothing. -/
theorem lt_of_mem_mappedSpans (hm : Reached m) : ∀ t ∈ m.mappedSpans, t.1 < t.2 := by
  rintro ⟨a, b⟩ ht
  have hle : a ≤ b := le_of_mem_mappedSpans hm _ ht
  refine UInt64.lt_of_le_of_ne hle fun heq => ?_
  obtain rfl : a = b := heq
  obtain ⟨⟨lo, hi, hextent, hpage, hcase⟩, -⟩ := (empty_mem_mappedSpans_iff_extent hm).1 ht
  obtain ⟨hlt, htop⟩ := hregular lo hi hextent
  have hbelow : pageBase lo ≠ topPage := by
    rw [UInt64.lt_iff_toNat_lt] at hlt
    rw [UInt64.le_iff_toNat_le, toNat_topPage] at htop
    rw [Ne, pageBase_eq_topPage_iff]
    omega
  rcases hcase with rfl | ⟨rfl, -⟩
  · exact hbelow hpage
  · exact UInt64.lt_irrefl _ hlt

end Regular

/-- The listed ranges are in order with a gap between any two, and none ends before it starts. Below the top page, they
hold the pages that are to be listed, and the page of a heap base inside a page if all live blocks are empty; of the top
page they hold what was written. A range is empty if a segment or the heap starts in the top page, or if all live blocks
are empty and the heap base is at the start of a page, unless an address next to it is listed. So no range is empty and
exactly the pages that are to be listed are, as long as no extent is empty or reaches into the top page. -/
theorem mappedSpans_exact (hm : Reached m) :
    m.mappedSpans.Pairwise (fun s t => s.2 < t.1) ∧
    (∀ t ∈ m.mappedSpans, t.1 ≤ t.2) ∧
    (∀ x, x ≠ lastAddress → ((∃ t ∈ m.mappedSpans, t.Holds x) ↔
      if pageBase x = topPage then m.pages.contains topPage = true
      else m.Mapped x ∨ m.heap.stop? = some m.heap.base ∧ pageBase m.heap.base ≠ m.heap.base ∧
        pageBase x = pageBase m.heap.base)) ∧
    (∀ a, (a, a) ∈ m.mappedSpans ↔
      ((a = topPage ∧ ∃ lo hi, m.Extent lo hi ∧ pageBase lo = topPage) ∨
        a = m.heap.base ∧ m.heap.stop? = some m.heap.base ∧ pageBase m.heap.base = m.heap.base) ∧
        ¬∃ t ∈ m.mappedSpans, t.Holds a ∨ t.Holds (a - 1)) ∧
    ((∀ lo hi, m.Extent lo hi → lo < hi ∧ hi ≤ topPage) →
      (∀ t ∈ m.mappedSpans, t.1 < t.2) ∧
        ∀ x, x ≠ lastAddress → ((∃ t ∈ m.mappedSpans, t.Holds x) ↔ m.Mapped x)) := by
  refine ⟨?_, le_of_mem_mappedSpans hm, fun x => holds_mappedSpans_iff hm, fun a => empty_mem_mappedSpans_iff hm,
    fun hregular => ⟨lt_of_mem_mappedSpans hregular hm, fun x hx => ?_⟩⟩
  · rw [mappedSpans_eq]
    exact (Span.pairwise_merged _).imp UInt64.lt_iff_toNat_lt.2
  · rw [holds_mappedSpans_iff hm hx]
    split
    · exact (mapped_topPage_iff hregular ‹_›).symm
    · refine or_iff_left fun h => ?_
      exact UInt64.lt_irrefl _ (hregular _ _ (.heap _ h.1)).1

/-- A segment is listed with the pages it reaches into, and a heap with a live block with the pages from its base on. -/
theorem mappedSpans_segment_and_block :
    let m := run (load [⟨"text", 0x1800, 0x900, none⟩] 0x10000 0) [.alloc 16]
    Reached m ∧ (∀ t ∈ m.mappedSpans, t.1 < t.2) ∧ (∃ t ∈ m.mappedSpans, t.Holds 0x2FFF) ∧
      ∃ t ∈ m.mappedSpans, t.Holds 0x10FFF := by
  intro m
  have hreached : Reached m := .step (.alloc 16) (.load [⟨"text", 0x1800, 0x900, none⟩] 0x10000 0)
  have hregular : ∀ lo hi, m.Extent lo hi → lo < hi ∧ hi ≤ topPage := by
    intro lo hi hextent
    cases hextent with
    | segment s hs hsize =>
      obtain rfl := List.mem_singleton.1 hs
      decide
    | heap _ hstop =>
      have hend : m.heap.stop? = some 0x10010 := by decide +kernel
      obtain rfl : hi = 0x10010 := Option.some.inj (hstop.symm.trans hend)
      decide
  obtain ⟨-, -, -, -, hexact⟩ := mappedSpans_exact hreached
  obtain ⟨hlt, hholds⟩ := hexact hregular
  refine ⟨hreached, hlt, (hholds 0x2FFF (by decide)).2 ?_, (hholds 0x10FFF (by decide)).2 ?_⟩
  · exact .loaded _ List.mem_cons_self 0x20FF rfl (by decide)
  · exact .allotted 0x10000 16 rfl 0x10000 rfl (by decide)

/-- A segment in the top page is listed as an empty range, and so is a heap whose only block is empty. -/
theorem mappedSpans_empty :
    let m := load [⟨"top", 0xFFFFFFFFFFFFF000, 16, none⟩] 0x1000 0
    let emptied := run (load [] 0x2000000 0x100) [.alloc 16, .realloc 0x2000000 0]
    (Reached m ∧ m.Mapped topPage ∧ m.mappedSpans = [(topPage, topPage)]) ∧
      Reached emptied ∧ emptied.mappedSpans = [(0x2000000, 0x2000000)] := by
  intro m emptied
  have hmapped : m.Mapped topPage := .loaded _ List.mem_cons_self topPage rfl (by decide)
  have hemptied : Reached emptied := .step (.realloc 0x2000000 0) (.step (.alloc 16) (.load [] 0x2000000 0x100))
  exact ⟨⟨.load _ _ _, hmapped, by decide +kernel⟩, hemptied, by decide +kernel⟩

end Memory
end PathReplay
