import Mathlib.Data.List.Induction
import PathReplay.Graph.FlowChart

/-!
# Finding blocks by address

* `LastAt` : the last of the blocks that start at an address; `position?_eq_some_iff` : it is the one that an edge to
  the address leads to;
* `Holds` : of the blocks that start nearest below an address, the last, if the address is in it;
  `find?_eq_some_iff` : it is the one that the address is looked up to;
* `Unnested` : blocks that start apart and not inside one another, empty ones included. `Unnested.holds_iff` : the block
  that an address is looked up to is then the one that contains it;
* `Separate` : blocks with code in them that do not overlap. `Separate.unnested` : they are such blocks.
-/

namespace PathReplay.FlowChart

variable {c : FlowChart} {a : Address} {i : Nat}

/-- The last of the blocks that start at an address. -/
structure LastAt (c : FlowChart) (a : Address) (i : Nat) : Prop where
  lt : i < c.size
  start : (c.block i).start = a
  last : ∀ j < c.size, (c.block j).start = a → j ≤ i

/-- The last of the blocks that start nearest below an address, with the address in it. -/
structure Holds (c : FlowChart) (a : Address) (i : Nat) : Prop where
  last : c.LastAt (c.block i).start i
  nearest : ∀ j < c.size, (c.block j).start ≤ a → (c.block j).start ≤ (c.block i).start
  contains : (c.block i).contains a = true

/-! ## Edges -/

theorem indexBlocks_concat (bs : List BlockRecord) (b : BlockRecord) :
    indexBlocks (bs ++ [b]) = (indexBlocks bs).insert b.start bs.length := by
  simp [indexBlocks, List.zipIdx_append]

theorem lt_of_map_start {bs : List BlockRecord} (h : bs[i]?.map BlockRecord.start = some a) : i < bs.length := by
  by_contra hge
  simp [List.getElem?_eq_none (Nat.not_lt.1 hge)] at h

theorem map_start_concat (bs : List BlockRecord) (b : BlockRecord) (i : Nat) (a : Address) :
    (bs ++ [b])[i]?.map BlockRecord.start = some a ↔
      bs[i]?.map BlockRecord.start = some a ∨ i = bs.length ∧ b.start = a := by
  rcases Nat.lt_trichotomy i bs.length with hi | rfl | hi
  · simp [List.getElem?_append_left hi, Nat.ne_of_lt hi]
  · simp
  · have hlength : (bs ++ [b]).length ≤ i := by
      rw [List.length_append, List.length_singleton]
      omega
    simp [List.getElem?_eq_none hlength, List.getElem?_eq_none (Nat.le_of_lt hi), Nat.ne_of_gt hi]

/-- The index has the position of the last block of each start. -/
theorem getElem?_indexBlocks (bs : List BlockRecord) (a : Address) (i : Nat) :
    (indexBlocks bs)[a]? = some i ↔
      bs[i]?.map BlockRecord.start = some a ∧ ∀ j, bs[j]?.map BlockRecord.start = some a → j ≤ i := by
  induction bs using List.reverseRecOn with
  | nil => simp [indexBlocks]
  | append_singleton bs b ih =>
    simp only [indexBlocks_concat, Std.ExtTreeMap.getElem?_insert, Std.LawfulEqCmp.compare_eq_iff_eq, map_start_concat]
    split
    · -- the last block takes the place of those before it with the same start
      rename_i hb
      constructor
      · rintro ⟨⟩
        refine ⟨.inr ⟨rfl, hb⟩, fun j hj => ?_⟩
        rcases hj with hj | ⟨rfl, -⟩
        · exact Nat.le_of_lt (lt_of_map_start hj)
        · exact Nat.le_refl _
      · rintro ⟨hi, hlast⟩
        rcases hi with hi | ⟨rfl, -⟩
        · exact absurd (lt_of_map_start hi) (Nat.not_lt.2 (hlast bs.length (.inr ⟨rfl, hb⟩)))
        · rfl
    · rename_i hb
      simp [ih, hb]

theorem map_start_getElem? (c : FlowChart) (i : Nat) (a : Address) :
    c.blocks.toList[i]?.map BlockRecord.start = some a ↔ i < c.size ∧ (c.block i).start = a := by
  by_cases hi : i < c.blocks.size
  · simp [block, size, hi]
  · simp [size, hi]

/-- An edge leads to the last block that starts at its address. -/
theorem position?_eq_some_iff : c.position? a = some i ↔ c.LastAt a i := by
  rw [position?, c.index_eq, getElem?_indexBlocks]
  simp only [map_start_getElem?]
  constructor
  · rintro ⟨⟨hi, hs⟩, hlast⟩
    exact ⟨hi, hs, fun j hj hs' => hlast j ⟨hj, hs'⟩⟩
  · rintro ⟨hi, hs, hlast⟩
    exact ⟨⟨hi, hs⟩, fun j hj => hlast j hj.1 hj.2⟩

/-! ## Addresses inside blocks -/

theorem startBelow?_eq_some_iff {s : Address} :
    c.startBelow? a = some s ↔
      (∃ j < c.size, (c.block j).start = s) ∧ s ≤ a ∧ ∀ j < c.size, (c.block j).start ≤ a → (c.block j).start ≤ s := by
  have hmem : ∀ s, s ∈ c.blocks.toList.map BlockRecord.start ↔ ∃ j < c.size, (c.block j).start = s := by
    intro s
    rw [List.mem_map]
    constructor
    · rintro ⟨b, hb, rfl⟩
      obtain ⟨j, hj, rfl⟩ := List.mem_iff_getElem.1 hb
      exact ⟨j, by simpa [size] using hj, by simp [block, show j < c.blocks.size by simpa using hj]⟩
    · rintro ⟨j, hj, rfl⟩
      exact ⟨c.block j, by simp [block, show j < c.blocks.size from hj], rfl⟩
  rw [startBelow?, List.max?_eq_some_iff]
  simp only [List.mem_filter, hmem, decide_eq_true_eq]
  constructor
  · rintro ⟨⟨hs, hle⟩, hmax⟩
    exact ⟨hs, hle, fun j hj hja => hmax _ ⟨⟨j, hj, rfl⟩, hja⟩⟩
  · rintro ⟨hs, hle, hmax⟩
    refine ⟨⟨hs, hle⟩, ?_⟩
    rintro _ ⟨⟨j, hj, rfl⟩, hja⟩
    exact hmax j hj hja

/-- An address is looked up to the last of the blocks that start nearest below it, if it is in that block. -/
theorem find?_eq_some_iff : c.find? a = some i ↔ c.Holds a i := by
  simp only [find?, Option.bind_eq_bind, Option.bind_eq_some_iff, startBelow?_eq_some_iff, position?_eq_some_iff]
  constructor
  · rintro ⟨s, ⟨-, -, hnearest⟩, k, hk, hik⟩
    split at hik
    · rename_i hin
      obtain rfl := Option.some.inj hik
      obtain rfl := hk.start
      exact ⟨hk, hnearest, hin⟩
    · cases hik
  · rintro ⟨hlast, hnearest, hin⟩
    have hle : (c.block i).start ≤ a := by
      simp only [BlockRecord.contains, Bool.and_eq_true, decide_eq_true_eq] at hin
      exact hin.1
    exact ⟨_, ⟨⟨i, hlast.lt, rfl⟩, hle, hnearest⟩, i, hlast, if_pos hin⟩

theorem contains_iff {b : BlockRecord} : b.contains a = true ↔ b.start ≤ a ∧ a < b.stop := by
  simp [BlockRecord.contains]

/-- No two blocks start at one address, and none starts strictly inside another. -/
structure Unnested (c : FlowChart) : Prop where
  distinct : ∀ i < c.size, ∀ j < c.size, (c.block i).start = (c.block j).start → i = j
  outside : ∀ i < c.size, ∀ j < c.size, (c.block i).start < (c.block j).start → (c.block i).stop ≤ (c.block j).start

theorem Unnested.holds_iff (h : c.Unnested) : c.Holds a i ↔ i < c.size ∧ (c.block i).contains a = true := by
  refine ⟨fun hi => ⟨hi.last.lt, hi.contains⟩, ?_⟩
  rintro ⟨hi, hin⟩
  refine ⟨⟨hi, rfl, fun j hj hs => ?_⟩, fun j hj hja => ?_, hin⟩
  · exact Nat.le_of_eq (h.distinct j hj i hi hs)
  · -- a block that starts nearer to the address would start inside this one
    by_contra hnear
    have hstop := h.outside i hi j hj (UInt64.not_le.1 hnear)
    exact absurd (UInt64.le_trans hstop hja) (UInt64.not_le.2 (contains_iff.1 hin).2)

/-- Every block has code in it and no two overlap. -/
structure Separate (c : FlowChart) : Prop where
  nonempty : ∀ i < c.size, (c.block i).start < (c.block i).stop
  apart : ∀ i < c.size, ∀ j < c.size, (c.block i).start ≤ (c.block j).start → i = j ∨
    (c.block i).stop ≤ (c.block j).start

theorem Separate.unnested (h : c.Separate) : c.Unnested where
  distinct i hi j hj hs := by
    -- a second block with the same start would begin before the end of this one
    rcases h.apart i hi j hj (UInt64.le_of_eq hs) with rfl | hstop
    · rfl
    · have hcode := h.nonempty i hi
      rw [hs] at hcode
      exact absurd hcode (UInt64.not_lt.2 hstop)
  outside i hi j hj hlt := by
    rcases h.apart i hi j hj (UInt64.le_of_lt hlt) with rfl | hstop
    · exact absurd hlt (UInt64.lt_irrefl _)
    · exact hstop

theorem Separate.holds_iff (h : c.Separate) : c.Holds a i ↔ i < c.size ∧ (c.block i).contains a = true :=
  h.unnested.holds_iff

end PathReplay.FlowChart
