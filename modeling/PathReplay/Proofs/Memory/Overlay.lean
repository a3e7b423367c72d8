import Mathlib.Order.MinMax
import Mathlib.Order.Nat
import PathReplay.Proofs.Memory.Paging

/-!
# The contents that segments were loaded with

* `Segment.holds`, `Segment.initial?` : whether a segment's contents reach an address, without any bound from the
  width of addresses, and the byte they have there;
* `Segment.byte?_eq` : the loaded byte is that byte, except at the last address, which lies in no segment;
* `Segment.getElem?_overlay` : an overlay replaces exactly the bytes of a buffer that the segment has loaded;
* `getElem?_loadedChunk`, `getD_loadedPage` : a buffer and a page under all segments hold the loaded bytes;
* `initialByte`, `loadedByte_eq` : of overlapping segments the last one decides.
-/

namespace PathReplay

namespace Segment

/-- Whether a segment's contents, cut to its size, reach an address. -/
def holds (s : Segment) (x : Address) : Bool :=
  s.start ≤ x && decide ((x - s.start).toNat < min s.contents.size s.size.toNat)

/-- The byte that a segment's contents, cut to its size, have at an address. -/
def initial? (s : Segment) (x : Address) : Option UInt8 :=
  if s.holds x then s.contents[(x - s.start).toNat]? else none

theorem toNat_contentsStop (s : Segment) :
    s.contentsStop.toNat = min (s.start.toNat + min s.contents.size s.size.toNat) (2 ^ 64 - 1) := by
  rw [contentsStop, stop, Word.toNat_min, Word.toNat_advance, Word.toNat_saturatingAdd,
    ← Nat.add_min_add_left]
  exact (inf_inf_distrib_right _ _ _).symm

theorem contentsStop_le (s : Segment) : s.contentsStop.toNat ≤ s.start.toNat + s.contents.size := by
  rw [toNat_contentsStop]
  exact (Nat.min_le_left _ _).trans (Nat.add_le_add_left (Nat.min_le_left _ _) _)

theorem holds_iff {s : Segment} {x : Address} :
    s.holds x = true ↔ s.start.toNat ≤ x.toNat ∧
      x.toNat < s.start.toNat + min s.contents.size s.size.toNat := by
  rw [holds, Bool.and_eq_true, decide_eq_true_eq, decide_eq_true_eq]
  refine and_congr_right fun h => ?_
  rw [UInt64.toNat_sub_of_le x s.start h]
  rw [UInt64.le_iff_toNat_le] at h
  omega

theorem lt_contentsStop_iff {s : Segment} {x : Address} :
    (s.start ≤ x ∧ x < s.contentsStop) ↔ s.holds x = true ∧ x ≠ lastAddress := by
  have hx := x.toNat_lt
  rw [holds_iff, UInt64.le_iff_toNat_le, UInt64.lt_iff_toNat_lt, toNat_contentsStop, Ne,
    ← UInt64.toNat_inj, toNat_lastAddress]
  omega

/-- The end of the contents is at most the last address, so no segment has a byte there. -/
theorem byte?_eq (s : Segment) (x : Address) :
    s.byte? x = if x = lastAddress then none else s.initial? x := by
  rw [byte?, initial?]
  by_cases hlast : x = lastAddress
  · rw [if_neg fun h => (lt_contentsStop_iff.1 h).2 hlast, if_pos hlast]
  · rw [if_neg hlast]
    exact if_congr (lt_contentsStop_iff.trans (and_iff_left hlast)) rfl rfl

/-! ## Overlays -/

/-- An overlay on natural numbers: the contents from `lo` up to `hi`, which lie in the buffer and in the segment,
replace those of the buffer. -/
theorem overlay_eq (s : Segment) (a : Address) (buffer : Array UInt8) :
    ∃ lo hi : Nat, a.toNat ≤ lo ∧ s.start.toNat ≤ lo ∧ hi ≤ a.toNat + buffer.size ∧
      hi ≤ s.contentsStop.toNat ∧
      (∀ x, a.toNat ≤ x → x < a.toNat + buffer.size →
        (lo ≤ x ∧ x < hi ↔ s.start.toNat ≤ x ∧ x < s.contentsStop.toNat)) ∧
      s.overlay a buffer =
        if lo < hi then
          buffer.extract 0 (lo - a.toNat) ++
            s.contents.extract (lo - s.start.toNat) (hi - s.start.toNat) ++
            buffer.extract (hi - a.toNat) buffer.size
        else buffer := by
  have hlo := Word.toNat_max a s.start
  have hhi := Word.toNat_min (Word.advance a buffer.size) s.contentsStop
  rw [Word.toNat_advance] at hhi
  have htop : s.contentsStop.toNat < UInt64.size := s.contentsStop.toNat_lt
  refine ⟨(max a s.start).toNat, (min (Word.advance a buffer.size) s.contentsStop).toNat,
    by omega, by omega, by omega, by omega, fun x hx hx' => by omega, ?_⟩
  have ha : a ≤ max a s.start := UInt64.le_iff_toNat_le.2 (by omega)
  have hs : s.start ≤ max a s.start := UInt64.le_iff_toNat_le.2 (by omega)
  simp only [overlay, UInt64.lt_iff_toNat_lt]
  clear hlo hhi
  split
  · rename_i hlt
    have hle := UInt64.le_of_lt (UInt64.lt_iff_toNat_lt.2 hlt)
    rw [UInt64.le_iff_toNat_le] at ha hs
    rw [UInt64.toNat_sub_of_le _ _ (UInt64.le_iff_toNat_le.2 hs),
      UInt64.toNat_sub_of_le _ _ (UInt64.le_iff_toNat_le.2 ha), UInt64.toNat_sub_of_le _ _ hle]
    congr 2
    · congr 1
      omega
    · omega
  · rfl

theorem size_overlay (s : Segment) (a : Address) (buffer : Array UInt8) :
    (s.overlay a buffer).size = buffer.size := by
  have hle := s.contentsStop_le
  obtain ⟨lo, hi, ha, hs, hbuf, hstop, -, heq⟩ := s.overlay_eq a buffer
  rw [heq]
  split
  · rename_i hlt
    have hsource : hi - s.start.toNat ≤ s.contents.size := by omega
    rw [Array.size_append, Array.size_append, Array.size_extract_of_le (by omega),
      Array.size_extract_of_le hsource, Array.size_extract_of_le (Nat.le_refl _)]
    omega
  · rfl

/-- A buffer with the positions from `lo` up to `hi` replaced by a piece of another one. -/
theorem getElem?_spliced (buffer source : Array UInt8) {lo hi first last : Nat} (hhi : hi ≤ buffer.size)
    (hlast : last ≤ source.size) (hlen : first + hi = last + lo) (hle : lo ≤ hi) (i : Nat) :
    (buffer.extract 0 lo ++ source.extract first last ++ buffer.extract hi buffer.size)[i]? =
      if lo ≤ i ∧ i < hi then source[first + (i - lo)]? else buffer[i]? := by
  have hmid : (buffer.extract 0 lo).size = lo := by rw [Array.size_extract]; omega
  have hend : (buffer.extract 0 lo ++ source.extract first last).size = hi := by
    rw [Array.size_append, hmid, Array.size_extract]; omega
  by_cases hlo : i < lo
  · rw [if_neg (by omega), Array.append_assoc, Array.getElem?_append_left (by omega),
      Array.getElem?_extract, if_pos (by omega), Nat.zero_add]
  · by_cases hin : i < hi
    · rw [if_pos ⟨by omega, hin⟩, Array.getElem?_append_left (by omega),
        Array.getElem?_append_right (by omega), Array.getElem?_extract, hmid, if_pos (by omega)]
    · rw [if_neg (by omega), Array.getElem?_append_right (by omega), Array.getElem?_extract, hend]
      split
      · rw [Nat.add_sub_cancel' (by omega)]
      · exact (Array.getElem?_eq_none (by omega)).symm

/-- An overlay replaces exactly the bytes that the segment has loaded. -/
theorem getElem?_overlay (s : Segment) (a : Address) (buffer : Array UInt8) {i : Nat}
    (hi : i < buffer.size) (ha : a.toNat + i < 2 ^ 64) :
    (s.overlay a buffer)[i]? = some ((s.byte? (a + UInt64.ofNat i)).getD buffer[i]) := by
  have hle := s.contentsStop_le
  have hx := toNat_add_of_lt ha
  obtain ⟨lo, stop, halo, hslo, hbuf, hstop, hcov, heq⟩ := s.overlay_eq a buffer
  have hcov := hcov (a.toNat + i) (Nat.le_add_right _ _) (Nat.add_lt_add_left hi _)
  rw [heq, byte?]
  by_cases hin : s.start ≤ a + UInt64.ofNat i ∧ a + UInt64.ofNat i < s.contentsStop
  · rw [if_pos hin, UInt64.toNat_sub_of_le _ _ hin.1, hx]
    rw [UInt64.le_iff_toNat_le, UInt64.lt_iff_toNat_lt, hx] at hin
    obtain ⟨hlo, hhi⟩ := hcov.2 hin
    rw [if_pos (by omega), getElem?_spliced _ _ (by omega) (by omega) (by omega) (by omega),
      if_pos (by omega), show lo - s.start.toNat + (i - (lo - a.toNat)) = a.toNat + i - s.start.toNat by
        omega, Array.getElem?_eq_getElem (by omega), Option.getD_some]
  · rw [if_neg hin, Option.getD_none, ← Array.getElem?_eq_getElem hi]
    rw [UInt64.le_iff_toNat_le, UInt64.lt_iff_toNat_lt, hx] at hin
    have hout := mt hcov.1 hin
    split
    · rw [getElem?_spliced _ _ (by omega) (by omega) (by omega) (by omega), if_neg (by omega)]
    · rfl

end Segment

namespace Memory

/-! ## All segments -/

theorem foldl_overlay (segments : List Segment) (a : Address) :
    ∀ (buffer : Array UInt8), (segments.foldl (fun b s => s.overlay a b) buffer).size = buffer.size ∧
      ∀ i (hi : i < buffer.size), a.toNat + i < 2 ^ 64 →
        (segments.foldl (fun b s => s.overlay a b) buffer)[i]? =
          some (segments.foldl (fun b s => (s.byte? (a + UInt64.ofNat i)).getD b) buffer[i]) := by
  induction segments with
  | nil => exact fun buffer => ⟨rfl, fun i hi _ => Array.getElem?_eq_getElem hi⟩
  | cons s rest ih =>
    intro buffer
    have hsize := s.size_overlay a buffer
    obtain ⟨hrest, hbytes⟩ := ih (s.overlay a buffer)
    refine ⟨hrest.trans hsize, fun i hi ha => ?_⟩
    have hhead := s.getElem?_overlay a buffer hi ha
    rw [Array.getElem?_eq_getElem (hsize.symm ▸ hi), Option.some.injEq] at hhead
    rw [List.foldl_cons, List.foldl_cons, hbytes i (hsize.symm ▸ hi) ha, hhead]

theorem size_loadedChunk (segments : List Segment) (a : Address) (n : Nat) :
    (loadedChunk segments a n).size = n := by
  rw [loadedChunk, (foldl_overlay segments a _).1, Array.size_replicate]

/-- Laying all segments over a buffer gives it the loaded bytes, as long as it does not wrap. -/
theorem getElem?_loadedChunk (segments : List Segment) {a : Address} {n i : Nat} (hi : i < n)
    (ha : a.toNat + i < 2 ^ 64) :
    (loadedChunk segments a n)[i]? = some (loadedByte segments (a + UInt64.ofNat i)) := by
  have hi' : i < (Array.replicate n (0 : UInt8)).size := by rw [Array.size_replicate]; exact hi
  rw [loadedChunk, (foldl_overlay segments a _).2 i hi' ha, Array.getElem_replicate, loadedByte]

theorem getD_page (p : Page) {k : Nat} (hk : k < pageSize) : p.getD k 0 = p[k] := by
  show (if h : k < p.toArray.size then p.toArray[k] else 0) = p[k]
  rw [dif_pos (by rw [p.size_toArray]; exact hk)]
  rfl

/-- A page, as it was loaded, holds the loaded byte at the position of an address in it. -/
theorem getD_loadedPage (segments : List Segment) (x : Address) :
    (loadedPage segments (pageBase x)).getD (pageOffset x) 0 = loadedByte segments x := by
  have hx := toNat_pageBase_add x
  have hlt := x.toNat_lt
  rw [getD_page _ (pageOffset_lt x), loadedPage, Vector.getElem_ofFn, Array.getD_eq_getD_getElem?,
    getElem?_loadedChunk segments (pageOffset_lt x) (by omega), pageBase_add_pageOffset, Option.getD_some]

theorem foldl_getD (f : Segment → Option UInt8) (segments : List Segment) :
    ∀ b, segments.foldl (fun b s => (f s).getD b) b = (segments.reverse.findSome? f).getD b := by
  induction segments with
  | nil => exact fun _ => rfl
  | cons s rest ih =>
    intro b
    rw [List.foldl_cons, ih, List.reverse_cons, List.findSome?_append, List.findSome?_singleton]
    cases rest.reverse.findSome? f <;> rfl

/-- The byte that the last segment whose contents reach an address has there, or zero if there is none. -/
def initialByte (segments : List Segment) (x : Address) : UInt8 :=
  (segments.reverse.findSome? fun s => s.initial? x).getD 0

/-- Segments give every address its initial byte, except the last one, which they leave zero. -/
theorem loadedByte_eq (segments : List Segment) (x : Address) :
    loadedByte segments x = if x = lastAddress then 0 else initialByte segments x := by
  rw [loadedByte, foldl_getD, initialByte]
  simp only [Segment.byte?_eq]
  split
  · have hnone : ∀ l : List Segment, (l.findSome? fun _ => (none : Option UInt8)) = none := by
      intro l
      rw [List.findSome?_eq_none_iff]
      exact fun _ _ => rfl
    rw [hnone, Option.getD_none]
  · rfl

end Memory
end PathReplay
