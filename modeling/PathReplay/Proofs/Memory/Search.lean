import Mathlib.Order.Bounds.Defs
import PathReplay.Memory.Search
import PathReplay.Proofs.Memory.Contents
import PathReplay.Proofs.Memory.Spans

/-!
# Search

* `Aligned` : pages are kept by their bases; `Reached.aligned` : they are in every memory that a program can have;
* `holds_pages_iff` : what is left of a range when it is rounded to pages;
* `Backed`, `holds_backedSpans_iff` : the pages that hold bytes, address by address and as spans;
* `Lowest` : what a search is to answer; `lowest_firstMatch?`, `lowest_firstInSpan?` : consecutive addresses and a
  span are searched from below; `lowest_findSome?` : so are spans that leave gaps;
* `Occurs` : an occurrence between two addresses with every byte in a backed page; `occurs_iff` : it lies in a single
  span;
* `find?_exact` : a search gives the lowest occurrence and misses none.
-/

namespace PathReplay

theorem Heap.stop?_eq_some_iff {h : Heap} {stop : Address} :
    h.stop? = some stop ↔ IsGreatest {e | ∃ a s, h.live[a]? = some s ∧ e = extentStop (a, s)} stop := by
  have hmem : ∀ e, e ∈ h.toList.map extentStop ↔ ∃ a s, h.live[a]? = some s ∧ e = extentStop (a, s) := by
    intro e
    simp [toList, Std.ExtTreeMap.mem_toList_iff_getElem?_eq_some, eq_comm]
  rw [stop?, List.max?_eq_some_iff]
  simp only [hmem]
  rfl

/-! ## Pages that hold bytes -/

theorem toNat_pageBase_eq_mul (a : Address) : (pageBase a).toNat = pageSize * (a.toNat / pageSize) := by
  rw [toNat_pageBase, pageOffset]
  simp only [pageSize]
  omega

theorem pageBase_eq_iff {a b : Address} : pageBase a = pageBase b ↔ a.toNat / pageSize = b.toNat / pageSize := by
  rw [← UInt64.toNat_inj, toNat_pageBase_eq_mul, toNat_pageBase_eq_mul]
  simp only [pageSize]
  omega

theorem pageBase_pageBase (a : Address) : pageBase (pageBase a) = pageBase a := by
  rw [pageBase_eq_iff, toNat_pageBase_eq_mul]
  simp only [pageSize]
  omega

theorem toNat_pageCeil (a : Address) :
    (pageCeil a).toNat = pageSize * (min (a.toNat + 0xFFF) (2 ^ 64 - 1) / pageSize) := by
  rw [pageCeil, toNat_pageBase_eq_mul, Word.toNat_saturatingAdd]
  rfl

def topPage : Address := pageBase lastAddress

theorem toNat_topPage : topPage.toNat = 2 ^ 64 - pageSize := rfl

theorem pageBase_eq_topPage_iff {a : Address} : pageBase a = topPage ↔ 2 ^ 64 - pageSize ≤ a.toNat := by
  have ha := a.toNat_lt
  rw [topPage, pageBase_eq_iff, toNat_lastAddress]
  simp only [pageSize]
  omega

section Rounded

variable {lo hi : Address} (hle : lo ≤ hi)

include hle

/-- A range rounded to pages is empty when it starts in the top page, which rounding up does not reach past, or is empty
at the start of a page. -/
theorem pageBase_eq_pageCeil_iff :
    pageBase lo = pageCeil hi ↔ pageBase lo = topPage ∨ lo = hi ∧ pageBase lo = lo := by
  have hlt := hi.toNat_lt
  rw [UInt64.le_iff_toNat_le] at hle
  rw [pageBase_eq_topPage_iff]
  simp only [← UInt64.toNat_inj, toNat_pageBase_eq_mul, toNat_pageCeil, pageSize]
  omega

theorem pageBase_le_pageCeil : pageBase lo ≤ pageCeil hi := by
  have hlt := hi.toNat_lt
  rw [UInt64.le_iff_toNat_le] at hle ⊢
  rw [toNat_pageBase_eq_mul, toNat_pageCeil]
  simp only [pageSize]
  omega

/-- A range rounded to pages holds the pages that it shares an address with, except the top page, and that of an empty
range inside a page. -/
theorem holds_pages_iff {x : Address} : Span.Holds (pageBase lo, pageCeil hi) x ↔ pageBase x ≠ topPage ∧
    ((∃ y, (lo ≤ y ∧ y < hi) ∧ pageBase y = pageBase x) ∨
      lo = hi ∧ pageBase lo ≠ lo ∧ pageBase x = pageBase lo) := by
  have hlt := hi.toNat_lt
  have hxlt := x.toNat_lt
  rw [UInt64.le_iff_toNat_le] at hle
  rw [Span.holds_iff, Ne, pageBase_eq_topPage_iff]
  simp only [UInt64.le_iff_toNat_le, UInt64.lt_iff_toNat_lt, ne_eq, ← UInt64.toNat_inj, toNat_pageBase_eq_mul,
    toNat_pageCeil, pageSize]
  constructor
  · rintro ⟨hlo, hhi⟩
    refine ⟨by omega, ?_⟩
    rcases Nat.eq_or_lt_of_le hle with heq | hne
    · exact .inr ⟨heq, by omega, by omega⟩
    · -- Where the range misses the address itself, it has its first or its last address in the page.
      left
      by_cases hbelow : x.toNat < lo.toNat
      · exact ⟨lo, by omega, by omega⟩
      · by_cases hin : x.toNat < hi.toNat
        · exact ⟨x, by omega, rfl⟩
        · have hlast : (hi - 1).toNat = hi.toNat - 1 :=
            UInt64.toNat_sub_of_le _ _ (UInt64.le_iff_toNat_le.2 (show 1 ≤ hi.toNat by omega))
          exact ⟨hi - 1, by omega, by omega⟩
  · rintro ⟨htop, ⟨y, hy, hpage⟩ | ⟨heq, hinside, hpage⟩⟩ <;> omega

end Rounded

namespace Segment

variable {s : Segment} {y : Address}

theorem contains_iff : s.contains y = true ↔ s.start.toNat ≤ y.toNat ∧ y.toNat < s.stop.toNat := by
  simp [contains, UInt64.le_iff_toNat_le, UInt64.lt_iff_toNat_lt]

theorem toNat_stop (s : Segment) : s.stop.toNat = min (s.start.toNat + s.size.toNat) (2 ^ 64 - 1) :=
  Word.toNat_saturatingAdd s.start s.size

theorem size_pos_of_contains (h : s.contains y = true) : 0 < s.size := by
  rw [contains_iff, toNat_stop] at h
  rw [UInt64.lt_iff_toNat_lt, UInt64.toNat_zero]
  omega

end Segment

namespace Memory

variable {m : Memory}

/-- Pages are kept by their bases. -/
def Aligned (m : Memory) : Prop := ∀ base, m.pages.contains base = true → pageBase base = base

theorem Aligned.writeChunk (hm : Aligned m) (a : Address) (data : Bytes) : Aligned (m.writeChunk a data) := by
  intro base hbase
  simp only [Memory.writeChunk, Std.ExtTreeMap.contains_alter, Std.LawfulEqCmp.compare_eq_iff_eq] at hbase
  split at hbase
  · rename_i heq
    rw [← heq, pageBase_pageBase]
  · exact hm base hbase

theorem Aligned.write (hm : Aligned m) (a : Address) (data : Bytes) : Aligned (m.write a data) := by
  fun_induction m.write a data with
  | case1 => exact hm
  | case2 m a data _ n ih => exact ih (hm.writeChunk a _)

theorem Aligned.step (hm : Aligned m) (op : Op) : Aligned (m.step op) := by
  cases op with
  | write a data => exact hm.write a data
  | writeWord a value width => exact hm.write a _
  | alloc size => exact hm
  | realloc a size =>
    simp only [Memory.step, realloc]
    cases (m.heap.realloc a size).1.2 with
    | none => exact hm
    | some old => exact Aligned.write (m := { m with heap := (m.heap.realloc a size).2 }) hm _ _
  | free a => exact hm

theorem Reached.aligned (hm : Reached m) : Aligned m := by
  induction hm with
  | load segments base slack =>
    intro a ha
    simp [Memory.load] at ha
  | step op _ ih => exact ih.step op
  | limit n _ ih => exact ih

/-- An address lies in a materialised page or in a page that a segment reaches into. -/
def Backed (m : Memory) (x : Address) : Prop :=
  m.pages.contains (pageBase x) = true ∨ ∃ s ∈ m.segments, ∃ y, s.contains y = true ∧ pageBase y = pageBase x

/-- A page as a span. That of the top page lacks the last address. -/
theorem holds_pageSpan_iff {base x : Address} (hbase : pageBase base = base) (hx : x ≠ lastAddress) :
    Span.Holds (base, Word.saturatingAdd base (UInt64.ofNat pageSize)) x ↔ pageBase x = base := by
  have hlt := x.toNat_lt
  have hpage : pageBase x = base ↔ x.toNat / pageSize = base.toNat / pageSize := by rw [← pageBase_eq_iff, hbase]
  have hmul := toNat_pageBase_eq_mul base
  rw [hbase] at hmul
  rw [Ne, ← UInt64.toNat_inj, toNat_lastAddress] at hx
  rw [hpage, Span.holds_iff, Word.toNat_saturatingAdd, show (UInt64.ofNat pageSize).toNat = 0x1000 from rfl]
  simp only [pageSize, UInt64.size] at hmul ⊢
  omega

theorem start_le_stop (s : Segment) : s.start ≤ s.stop := by
  have hlt := s.start.toNat_lt
  rw [UInt64.le_iff_toNat_le, s.toNat_stop]
  omega

theorem holds_segmentSpan_iff {s : Segment} (hsize : 0 < s.size) (htop : s.stop.toNat ≤ 2 ^ 64 - pageSize)
    {x : Address} : (segmentSpan s).Holds x ↔ ∃ y, s.contains y = true ∧ pageBase y = pageBase x := by
  have hstop := s.toNat_stop
  rw [UInt64.lt_iff_toNat_lt, UInt64.toNat_zero] at hsize
  rw [segmentSpan, holds_pages_iff (start_le_stop s), Ne, pageBase_eq_topPage_iff]
  simp only [Segment.contains, Bool.and_eq_true, decide_eq_true_eq, UInt64.lt_iff_toNat_lt, ← UInt64.toNat_inj,
    toNat_pageBase_eq_mul, pageSize] at htop ⊢
  constructor
  · rintro ⟨-, hy | ⟨heq, -⟩⟩
    · exact hy
    · omega
  · rintro ⟨y, hy, hpage⟩
    exact ⟨by omega, .inl ⟨y, hy, hpage⟩⟩

/-- Below the last address, the spans hold the addresses of the backed pages. -/
theorem holds_backedSpans_iff (hm : Aligned m) (htop : ∀ s ∈ m.segments, s.stop.toNat ≤ 2 ^ 64 - pageSize)
    {x : Address} (hx : x ≠ lastAddress) : (∃ t ∈ m.backedSpans, t.Holds x) ↔ m.Backed x := by
  have hpages : (∃ t ∈ m.pages.keys.map fun base => (base, Word.saturatingAdd base (UInt64.ofNat pageSize)),
      Span.Holds t x) ↔ m.pages.contains (pageBase x) = true := by
    simp only [List.mem_map, Std.ExtTreeMap.mem_keys, ← Std.ExtTreeMap.contains_iff_mem]
    constructor
    · rintro ⟨_, ⟨base, hbase, rfl⟩, hx'⟩
      rw [(holds_pageSpan_iff (hm base hbase) hx).1 hx']
      exact hbase
    · intro hpage
      exact ⟨_, ⟨pageBase x, hpage, rfl⟩, (holds_pageSpan_iff (pageBase_pageBase x) hx).2 rfl⟩
  have hsegments : (∃ t ∈ (m.segments.filter fun s => s.size > 0).map segmentSpan, t.Holds x) ↔
      ∃ s ∈ m.segments, ∃ y, s.contains y = true ∧ pageBase y = pageBase x := by
    simp only [List.mem_map, List.mem_filter, decide_eq_true_eq]
    constructor
    · rintro ⟨_, ⟨s, ⟨hs, hsize⟩, rfl⟩, hx'⟩
      exact ⟨s, hs, (holds_segmentSpan_iff hsize (htop s hs)).1 hx'⟩
    · rintro ⟨s, hs, y, hy, hpage⟩
      have hsize := Segment.size_pos_of_contains hy
      exact ⟨_, ⟨s, ⟨hs, hsize⟩, rfl⟩, (holds_segmentSpan_iff hsize (htop s hs)).2 ⟨y, hy, hpage⟩⟩
  rw [backedSpans, Span.exists_mem_merged, Backed, ← hpages, ← hsegments]
  simp only [List.mem_append, or_and_right, exists_or]

/-! ## Matches -/

theorem read_succ (m : Memory) (a : Address) (n : Nat) : m.read a (n + 1) = m.byte a :: m.read (a + 1) n := by
  have hnext : ∀ i, a + UInt64.ofNat (i + 1) = a + 1 + UInt64.ofNat i := by
    intro i
    rw [Nat.add_comm, ← add_ofNat_add a 1 i]
    rfl
  rw [read_eq_map, read_eq_map, List.range_succ_eq_map, List.map_cons, List.map_map]
  simp only [Function.comp_def, Nat.succ_eq_add_one, hnext]
  rw [show a + UInt64.ofNat 0 = a from UInt64.add_zero a]

theorem matchesAt_iff (m : Memory) (a : Address) (needle : Bytes) :
    m.matchesAt a needle = true ↔ m.read a needle.length = needle := by
  induction needle generalizing a with
  | nil => simp [matchesAt]
  | cons b rest ih =>
    rw [matchesAt, List.length_cons, read_succ, Bool.and_eq_true, beq_iff_eq, ih, List.cons.injEq]

/-- What a search among addresses is to answer: the lowest of them, or nothing if there is none. -/
def Lowest (addresses : Set Address) : Option Address → Prop
  | some p => IsLeast addresses p
  | none => ∀ q, q ∉ addresses

theorem Lowest.eq_some_iff {addresses : Set Address} {answer : Option Address} (h : Lowest addresses answer)
    {p : Address} : answer = some p ↔ IsLeast addresses p := by
  cases answer with
  | none => simpa using fun hp : IsLeast addresses p => h p hp.1
  | some a =>
    rw [Option.some.injEq]
    constructor
    · rintro rfl
      exact h
    · intro hp
      exact UInt64.le_antisymm (h.2 hp.1) (hp.2 h.1)

theorem Lowest.eq_none_iff {addresses : Set Address} {answer : Option Address} (h : Lowest addresses answer) :
    answer = none ↔ ∀ q, q ∉ addresses := by
  cases answer with
  | none => simpa using fun q => h q
  | some a => simpa using ⟨a, h.1⟩

theorem lowest_firstMatch? (m : Memory) (needle : Bytes) {a : Address} {count : Nat} (hfit : a.toNat + count < 2 ^ 64) :
    Lowest {q | a ≤ q ∧ q.toNat < a.toNat + count ∧ m.read q needle.length = needle}
      (m.firstMatch? needle a count) := by
  induction count generalizing a with
  | zero =>
    rintro q ⟨hle, hlt, -⟩
    rw [UInt64.le_iff_toNat_le] at hle
    omega
  | succ count ih =>
    rw [firstMatch?]
    split
    · rename_i hmatch
      exact ⟨⟨UInt64.le_refl a, by omega, (m.matchesAt_iff a needle).1 hmatch⟩, fun q hq => hq.1⟩
    · rename_i hmatch
      have hnext : (a + 1).toNat = a.toNat + 1 := toNat_add_of_lt (i := 1) (by omega)
      -- The address that does not match is the only one that the search drops.
      have hsame : {q | a + 1 ≤ q ∧ q.toNat < (a + 1).toNat + count ∧ m.read q needle.length = needle} =
          {q | a ≤ q ∧ q.toNat < a.toNat + (count + 1) ∧ m.read q needle.length = needle} := by
        ext q
        simp only [Set.mem_ofPred_eq, UInt64.le_iff_toNat_le, hnext]
        constructor
        · rintro ⟨hle, hlt, hread⟩
          exact ⟨by omega, by omega, hread⟩
        · rintro ⟨hle, hlt, hread⟩
          have hne : a.toNat ≠ q.toNat := by
            intro heq
            rw [UInt64.toNat_inj] at heq
            exact hmatch ((m.matchesAt_iff a needle).2 (heq ▸ hread))
          exact ⟨by omega, by omega, hread⟩
      exact hsame ▸ ih (by omega)

/-- The addresses at which the bytes match, wholly inside a span. -/
def matchesIn (m : Memory) (needle : Bytes) (span : Span) : Set Address :=
  {q | span.1 ≤ q ∧ q.toNat + needle.length ≤ span.2.toNat ∧ m.read q needle.length = needle}

theorem lowest_firstInSpan? (m : Memory) {needle : Bytes} (hne : needle ≠ []) (span : Span) :
    Lowest (m.matchesIn needle span) (m.firstInSpan? needle span) := by
  have hpos := List.length_pos_iff.2 hne
  have hstop := span.2.toNat_lt
  simp only [firstInSpan?, UInt64.lt_iff_toNat_lt]
  split
  · rename_i hroom
    have hsame : {q | span.1 ≤ q ∧ q.toNat < span.1.toNat + (span.2.toNat - span.1.toNat - needle.length + 1) ∧
        m.read q needle.length = needle} = m.matchesIn needle span := by
      ext q
      simp only [matchesIn, Set.mem_ofPred_eq]
      exact and_congr_right fun _ => and_congr_left fun _ => by omega
    exact hsame ▸ m.lowest_firstMatch? needle (by omega)
  · rename_i hroom
    rintro q ⟨hle, hfit, -⟩
    rw [UInt64.le_iff_toNat_le] at hle
    omega

/-- Searching spans in their order gives the lowest address of any, as the spans do not overlap. -/
theorem lowest_findSome? {spans : List Span} (hgaps : spans.Pairwise fun s t => s.2.toNat < t.1.toNat)
    {addresses : Span → Set Address} {search : Span → Option Address}
    (hsearch : ∀ span, Lowest (addresses span) (search span))
    (hinside : ∀ span, ∀ q ∈ addresses span, span.1.toNat ≤ q.toNat ∧ q.toNat ≤ span.2.toNat) :
    Lowest {q | ∃ span ∈ spans, q ∈ addresses span} (spans.findSome? search) := by
  induction spans with
  | nil => simp [Lowest]
  | cons s rest ih =>
    obtain ⟨hs, hrest⟩ := List.pairwise_cons.1 hgaps
    have hhead := hsearch s
    rw [List.findSome?_cons]
    cases hanswer : search s with
    | some p =>
      rw [hanswer] at hhead
      refine ⟨⟨s, by simp, hhead.1⟩, ?_⟩
      rintro q ⟨t, ht, hq⟩
      rcases List.mem_cons.1 ht with rfl | ht
      · exact hhead.2 hq
      · have hp := hinside s p hhead.1
        have hq := hinside t q hq
        have hst := hs t ht
        rw [UInt64.le_iff_toNat_le]
        omega
    | none =>
      rw [hanswer] at hhead
      have hsame : {q | ∃ span ∈ s :: rest, q ∈ addresses span} = {q | ∃ span ∈ rest, q ∈ addresses span} := by
        ext q
        simp [hhead q]
      exact hsame ▸ ih hrest

/-! ## Occurrences -/

/-- The bytes occur at an address, wholly from `start` up to `stop` and in backed pages. -/
structure Occurs (m : Memory) (needle : Bytes) (start stop p : Address) : Prop where
  start_le : start ≤ p
  le_stop : p.toNat + needle.length ≤ stop.toNat
  backed : ∀ i < needle.length, m.Backed (p + UInt64.ofNat i)
  read_eq : m.read p needle.length = needle

theorem mem_matchesIn_clipped {needle : Bytes} {start stop q : Address} {span : Span} :
    q ∈ m.matchesIn needle (clipped start stop span) ↔
      (start ≤ q ∧ q.toNat + needle.length ≤ stop.toNat) ∧ q ∈ m.matchesIn needle span := by
  simp only [matchesIn, Set.mem_ofPred_eq, clipped, UInt64.le_iff_toNat_le, Word.toNat_max, Word.toNat_min]
  constructor
  · rintro ⟨hlo, hhi, hread⟩
    exact ⟨⟨by omega, by omega⟩, by omega, by omega, hread⟩
  · rintro ⟨⟨hstart, hstop⟩, hlo, hhi, hread⟩
    exact ⟨by omega, by omega, hread⟩

/-- An occurrence lies in a single span, as the spans leave gaps between them. -/
theorem occurs_iff (hm : Aligned m) (htop : ∀ s ∈ m.segments, s.stop.toNat ≤ 2 ^ 64 - pageSize) {needle : Bytes}
    (hne : needle ≠ []) {start stop p : Address} :
    m.Occurs needle start stop p ↔ ∃ span ∈ m.backedSpans, p ∈ m.matchesIn needle (clipped start stop span) := by
  have hpos := List.length_pos_iff.2 hne
  have hlt := stop.toNat_lt
  have hspan : p.toNat + needle.length ≤ stop.toNat → ∀ i < needle.length,
      (m.Backed (p + UInt64.ofNat i) ↔ ∃ t ∈ m.backedSpans, t.1.toNat ≤ p.toNat + i ∧ p.toNat + i < t.2.toNat) := by
    intro hfit i hi
    have hnat : (p + UInt64.ofNat i).toNat = p.toNat + i := toNat_add_of_lt (by omega)
    have hlast : p + UInt64.ofNat i ≠ lastAddress := by
      rw [Ne, ← UInt64.toNat_inj, hnat, toNat_lastAddress]
      omega
    rw [← holds_backedSpans_iff hm htop hlast]
    simp only [Span.holds_iff, hnat]
  simp only [mem_matchesIn_clipped]
  constructor
  · intro h
    obtain ⟨t, ht, hlo, hhi⟩ := Span.exists_mem_of_run (Span.pairwise_merged _) hpos
      fun i hi => (hspan h.le_stop i hi).1 (h.backed i hi)
    exact ⟨t, ht, ⟨h.start_le, h.le_stop⟩, UInt64.le_iff_toNat_le.2 hlo, hhi, h.read_eq⟩
  · rintro ⟨t, ht, ⟨hstart, hfit⟩, hlo, hhi, hread⟩
    rw [UInt64.le_iff_toNat_le] at hlo
    exact ⟨hstart, hfit, fun i hi => (hspan hfit i hi).2 ⟨t, ht, by omega, by omega⟩, hread⟩

theorem lowest_find? (hm : Aligned m) (htop : ∀ s ∈ m.segments, s.stop.toNat ≤ 2 ^ 64 - pageSize) {needle : Bytes}
    (hne : needle ≠ []) (start stop : Option Address) :
    Lowest {q | m.Occurs needle (start.getD 0) (stop.getD lastAddress) q} (m.find? needle start stop) := by
  have hpos := List.length_pos_iff.2 hne
  have hsame : {q | m.Occurs needle (start.getD 0) (stop.getD lastAddress) q} =
      {q | ∃ span ∈ m.backedSpans, q ∈ m.matchesIn needle (clipped (start.getD 0) (stop.getD lastAddress) span)} :=
    Set.ext fun q => occurs_iff hm htop hne
  simp only [find?]
  split
  · rename_i hempty
    intro q hq
    have hle : stop.getD lastAddress ≤ start.getD 0 := hempty.resolve_left hne
    have hstart := hq.start_le
    have hstop := hq.le_stop
    rw [UInt64.le_iff_toNat_le] at hle hstart
    omega
  · rw [hsame]
    refine lowest_findSome? (Span.pairwise_merged _) (fun span => m.lowest_firstInSpan? hne _) fun span q hq => ?_
    obtain ⟨-, hlo, hhi, -⟩ := mem_matchesIn_clipped.1 hq
    rw [UInt64.le_iff_toNat_le] at hlo
    omega

/-- A search gives the lowest occurrence and misses none, whatever pages and segments it reaches across. In the first
segment of a name and in the heap it is the same search between their ends. -/
theorem find?_exact (hm : Reached m) (htop : ∀ s ∈ m.segments, s.stop.toNat ≤ 2 ^ 64 - pageSize) (needle : Bytes) :
    (∀ start stop p, m.find? needle start stop = some p ↔
      needle ≠ [] ∧ IsLeast {q | m.Occurs needle (start.getD 0) (stop.getD lastAddress) q} p) ∧
    (∀ start stop, m.find? needle start stop = none ↔
      needle = [] ∨ ∀ q, ¬ m.Occurs needle (start.getD 0) (stop.getD lastAddress) q) ∧
    (∀ start stop, stop.getD lastAddress ≤ start.getD 0 → m.find? needle start stop = none) ∧
    (∀ name p, m.findInSegment? needle name = some p ↔
      ∃ s before after, m.segments = before ++ s :: after ∧ s.name = name ∧ (∀ t ∈ before, t.name ≠ name) ∧
        needle ≠ [] ∧ IsLeast {q | m.Occurs needle s.start s.stop q} p) ∧
    ∀ p, m.findInHeap? needle = some p ↔
      ∃ stop, IsGreatest {e | ∃ a s, m.heap.live[a]? = some s ∧ e = Heap.extentStop (a, s)} stop ∧
        needle ≠ [] ∧ IsLeast {q | m.Occurs needle m.heap.base stop q} p := by
  have hsome : ∀ start stop p, m.find? needle start stop = some p ↔
      needle ≠ [] ∧ IsLeast {q | m.Occurs needle (start.getD 0) (stop.getD lastAddress) q} p := by
    intro start stop p
    by_cases hne : needle = []
    · simp [hne, find?_nil]
    · simp [(lowest_find? hm.aligned htop hne start stop).eq_some_iff, hne]
  refine ⟨hsome, fun start stop => ?_, fun start stop hle => ?_, fun name p => ?_, fun p => ?_⟩
  · by_cases hne : needle = []
    · simp [hne, find?_nil]
    · simp [(lowest_find? hm.aligned htop hne start stop).eq_none_iff, hne]
  · exact if_pos (.inr hle)
  · rw [findInSegment?, Option.bind_eq_some_iff]
    simp only [hsome, Option.getD_some, List.find?_eq_some_iff_append]
    constructor
    · rintro ⟨s, ⟨hname, before, after, hsegments, hbefore⟩, hne, hleast⟩
      exact ⟨s, before, after, hsegments, by simpa using hname, fun t ht => by simpa using hbefore t ht, hne, hleast⟩
    · rintro ⟨s, before, after, hsegments, hname, hbefore, hne, hleast⟩
      exact ⟨s, ⟨by simpa using hname, before, after, hsegments, fun t ht => by simpa using hbefore t ht⟩, hne, hleast⟩
  · rw [findInHeap?, Option.bind_eq_some_iff]
    simp only [hsome, Option.getD_some, Heap.stop?_eq_some_iff]

/-- Bytes are found across the edge of a page at which one segment ends and another begins. -/
theorem find?_across_segments :
    let m := load [⟨"text", 0x1FFF, 1, some #[0xAA]⟩, ⟨"data", 0x2000, 1, some #[0xBB]⟩] 0x10000 0
    Reached m ∧ (∀ s ∈ m.segments, s.stop.toNat ≤ 2 ^ 64 - pageSize) ∧
      m.find? [0xAA, 0xBB] (some 0x1FFF) none = some 0x1FFF := by
  intro m
  have hreached : Reached m := .load _ _ _
  have htop : ∀ s ∈ m.segments, s.stop.toNat ≤ 2 ^ 64 - pageSize := by
    show ∀ s ∈ [(⟨"text", 0x1FFF, 1, some #[0xAA]⟩ : Segment), ⟨"data", 0x2000, 1, some #[0xBB]⟩], _
    decide
  have hread : m.read 0x1FFF 2 = [0xAA, 0xBB] := by
    rw [read_succ, read_succ, read_zero, byte_load, byte_load]
    decide
  have hoccurs : m.Occurs [0xAA, 0xBB] 0x1FFF lastAddress 0x1FFF := by
    refine ⟨UInt64.le_refl _, by decide, fun i hi => ?_, hread⟩
    match i, hi with
    | 0, _ => exact .inr ⟨⟨"text", 0x1FFF, 1, some #[0xAA]⟩, by simp [m, load], 0x1FFF, by decide, by decide⟩
    | 1, _ => exact .inr ⟨⟨"data", 0x2000, 1, some #[0xBB]⟩, by simp [m, load], 0x2000, by decide, by decide⟩
  refine ⟨hreached, htop, ((find?_exact hreached htop _).1 _ _ _).2 ⟨by decide, hoccurs, fun q hq => hq.start_le⟩⟩

end Memory
end PathReplay
