import PathReplay.Graph.Path
import PathReplay.Proofs.Graph.Lookup

/-!
# What depends on an address through its block

* `mem_blocks_iff` : the blocks are those at the positions of a flow chart;
* `findBlock?_eq_some_iff` : of unnested blocks, an address is looked up to the one that contains it;
* `trails_of_find?`, `walkBlocks_of_find?` : paths and walks depend on an address through the block it is looked up to;
* `findBlock?_exact` : the two together.
-/

namespace PathReplay.FlowChart

variable {c : FlowChart} {a a' : Address} {b : BlockRecord} {i j : Nat}

theorem mem_blocks_iff : b ∈ c.blocks ↔ ∃ i < c.size, c.block i = b := by
  rw [Array.mem_iff_getElem]
  constructor
  · rintro ⟨i, hi, rfl⟩
    exact ⟨i, hi, by simp [block, hi]⟩
  · rintro ⟨i, hi, rfl⟩
    have hlt : i < c.blocks.size := hi
    exact ⟨i, hlt, by simp [block, hlt]⟩

/-! ## Lookup in unnested blocks -/

theorem Unnested.find?_eq_some_iff (h : c.Unnested) :
    c.find? a = some i ↔ i < c.size ∧ (c.block i).contains a = true :=
  FlowChart.find?_eq_some_iff.trans h.holds_iff

/-- An address is in one block at most. -/
theorem Unnested.eq_of_contains (h : c.Unnested) (hi : i < c.size) (hj : j < c.size)
    (hin : (c.block i).contains a = true) (hin' : (c.block j).contains a = true) : i = j :=
  Option.some.inj ((h.find?_eq_some_iff.2 ⟨hi, hin⟩).symm.trans (h.find?_eq_some_iff.2 ⟨hj, hin'⟩))

theorem findBlock?_eq_some_iff (h : c.Unnested) :
    c.findBlock? a = some b ↔ b ∈ c.blocks ∧ b.contains a = true := by
  simp only [findBlock?, Option.map_eq_some_iff, h.find?_eq_some_iff, mem_blocks_iff]
  constructor
  · rintro ⟨i, ⟨hi, hin⟩, rfl⟩
    exact ⟨⟨i, hi, rfl⟩, hin⟩
  · rintro ⟨⟨i, hi, rfl⟩, hin⟩
    exact ⟨i, ⟨hi, hin⟩, rfl⟩

theorem findBlock?_eq_none_iff (h : c.Unnested) :
    c.findBlock? a = none ↔ ∀ b ∈ c.blocks, b.contains a = false := by
  rw [Option.eq_none_iff_forall_ne_some]
  simp only [ne_eq, findBlock?_eq_some_iff h, not_and, Bool.not_eq_true]

/-- A block that contains an address contains its own start, so both are looked up to it. -/
theorem find?_start_of_findBlock? (h : c.Unnested) (hb : c.findBlock? a = some b) : c.find? b.start = c.find? a := by
  obtain ⟨i, hi, rfl⟩ := Option.map_eq_some_iff.1 hb
  obtain ⟨hlt, hin⟩ := h.find?_eq_some_iff.1 hi
  obtain ⟨hle, hstop⟩ := contains_iff.1 hin
  rw [hi, h.find?_eq_some_iff]
  exact ⟨hlt, contains_iff.2 ⟨UInt64.le_refl _, UInt64.lt_of_le_of_lt hle hstop⟩⟩

/-! ## Paths and walks -/

theorem trails_of_find? (h : c.find? a = c.find? a') : c.trails a = c.trails a' := by
  unfold trails
  rw [h]

theorem firstTrails_of_find? (h : c.find? a = c.find? a') (n : Nat) : c.firstTrails a n = c.firstTrails a' n := by
  unfold firstTrails
  rw [h]

theorem walkBlocks_of_find? (h : c.find? a = c.find? a') (reverse depthFirst : Bool) :
    c.walkBlocks (some a) reverse depthFirst = c.walkBlocks (some a') reverse depthFirst := by
  have hroots : c.roots (some a) reverse = c.roots (some a') reverse := congrArg Option.toList h
  rw [walkBlocks, hroots, walkBlocks]

/-- Of blocks that start apart and not inside one another, an address is looked up to the one that contains it, which is
the only one, and otherwise to none. From any address of a block come the same paths and the same walks as from its
start. -/
theorem findBlock?_exact (h : c.Unnested) (a : Address) :
    (∀ b, c.findBlock? a = some b ↔ b ∈ c.blocks ∧ b.start ≤ a ∧ a < b.stop) ∧
      (∀ i < c.size, ∀ j < c.size, (c.block i).contains a = true → (c.block j).contains a = true → i = j) ∧
      (c.findBlock? a = none ↔ ∀ b ∈ c.blocks, ¬ (b.start ≤ a ∧ a < b.stop)) ∧
      ∀ b, c.findBlock? a = some b →
        c.trails a = c.trails b.start ∧ (∀ n, c.firstTrails a n = c.firstTrails b.start n) ∧
          ∀ reverse depthFirst,
            c.walkBlocks (some a) reverse depthFirst = c.walkBlocks (some b.start) reverse depthFirst := by
  refine ⟨fun b => ?_, fun i hi j hj => h.eq_of_contains hi hj, ?_, fun b hb => ?_⟩
  · rw [findBlock?_eq_some_iff h, contains_iff]
  · simp only [findBlock?_eq_none_iff h, ← contains_iff, Bool.not_eq_true]
  · have hsame := (find?_start_of_findBlock? h hb).symm
    exact ⟨trails_of_find? hsame, firstTrails_of_find? hsame, walkBlocks_of_find? hsame⟩

/-- Blocks out of order, with a gap after the first and an empty one at the end. -/
theorem findBlock?_gap :
    let first : BlockRecord := ⟨0x1000, 0x1008, [], [0x1010], []⟩
    let last : BlockRecord := ⟨0x1010, 0x1020, [], [], [0x1000]⟩
    let c := ofBlocks 0x1000 [last, ⟨0x1020, 0x1020, [], [], []⟩, first]
    c.Unnested ∧ c.findBlock? 0x1014 = some last ∧ c.findBlock? 0x100C = none ∧ c.findBlock? 0x1020 = none ∧
      c.trails 0x1014 = c.trails 0x1010 := by
  intro first last c
  have h : c.Unnested := ⟨by decide +kernel, by decide +kernel⟩
  have hfound : c.findBlock? 0x1014 = some last := ((findBlock?_exact h 0x1014).1 last).2 (by decide +kernel)
  exact ⟨h, hfound, (findBlock?_exact h 0x100C).2.2.1.2 (by decide +kernel),
    (findBlock?_exact h 0x1020).2.2.1.2 (by decide +kernel), ((findBlock?_exact h 0x1014).2.2.2 last hfound).1⟩

end PathReplay.FlowChart
