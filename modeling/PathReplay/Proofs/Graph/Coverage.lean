import PathReplay.Proofs.Graph.Lookup
import PathReplay.Proofs.Graph.Walks

/-!
# What is asked of a walk

* `Leads` : a step from block to block in terms of the edges that are listed and of the blocks that start there;
* `IsRoot` : where a walk is to begin; `mem_roots_iff`, `pairwise_roots` : it begins at these blocks, in their order;
* `walkBlocks_exact` : a walk gives the blocks that can be reached from them, each once.
-/

namespace PathReplay.FlowChart

variable {c : FlowChart} {start : Option Address} {reverse : Bool} {i j : Nat}

/-- An edge that is listed at one block, with `reverse` among those that come in, has the address at which the other
starts. -/
def Leads (c : FlowChart) (reverse : Bool) (i j : Nat) : Prop :=
  ∃ a ∈ if reverse then (c.block i).preds else (c.block i).succs, c.LastAt a j

theorem edge_iff_leads : c.Edge reverse i j ↔ c.Leads reverse i j := by
  unfold Edge neighbours resolve Leads
  simp only [List.mem_filterMap, position?_eq_some_iff]

theorem edge_eq_leads (c : FlowChart) (reverse : Bool) : c.Edge reverse = c.Leads reverse := by
  funext i j
  exact propext edge_iff_leads

/-- A walk begins at the block to which an address is looked up; without one at the entry block or, against the edges,
at every block that none leaves. -/
def IsRoot (c : FlowChart) (start : Option Address) (reverse : Bool) (i : Nat) : Prop :=
  match start, reverse with
  | some a, _ => c.Holds a i
  | none, true => i < c.size ∧ (c.block i).succs = []
  | none, false => c.LastAt c.entry i

theorem mem_roots_iff : i ∈ c.roots start reverse ↔ c.IsRoot start reverse i := by
  match start, reverse with
  | some a, _ => exact Option.mem_toList.trans find?_eq_some_iff
  | none, true => simp [roots, IsRoot, BlockRecord.isTerminal]
  | none, false => exact Option.mem_toList.trans position?_eq_some_iff

theorem IsRoot.lt (h : c.IsRoot start reverse i) : i < c.size := by
  unfold IsRoot at h
  split at h
  · exact h.last.lt
  · exact h.1
  · exact h.lt

theorem pairwise_roots (c : FlowChart) (start : Option Address) (reverse : Bool) :
    (c.roots start reverse).Pairwise (· < ·) := by
  have hone : ∀ o : Option Nat, o.toList.Pairwise (· < ·) := by
    intro o
    cases o <;> simp
  unfold roots
  split
  · exact hone _
  · exact List.Pairwise.filter _ List.pairwise_lt_range
  · exact hone _

/-- A walk gives the blocks that can be reached from those at which it is to begin, each once. -/
theorem walkBlocks_exact (c : FlowChart) (start : Option Address) (reverse depthFirst : Bool) :
    ∃ roots order : List Nat,
      roots.Pairwise (· < ·) ∧ (∀ i, i ∈ roots ↔ c.IsRoot start reverse i) ∧
      c.walkBlocks start reverse depthFirst = order.map c.block ∧
      order.Nodup ∧ order.length ≤ c.size ∧ (∀ j ∈ order, j < c.size) ∧
      (∀ j, j ∈ order ↔ ∃ i ∈ roots, Relation.ReflTransGen (c.Leads reverse) i j) ∧
      (depthFirst = false → roots <+: order) ∧
      (c.Separate → ∀ a, start = some a → ∀ i, i ∈ roots ↔ i < c.size ∧ (c.block i).contains a = true) := by
  have hlt : ∀ i ∈ c.roots start reverse, i < c.size := fun i hi => (mem_roots_iff.1 hi).lt
  have hreach : ∀ j, j ∈ c.walk reverse depthFirst (c.roots start reverse) ↔
      ∃ i ∈ c.roots start reverse, Relation.ReflTransGen (c.Leads reverse) i j := by
    intro j
    rw [mem_walk_iff, Reaches, edge_eq_leads]
    constructor
    · rintro ⟨i, hi, -, hij⟩
      exact ⟨i, hi, hij⟩
    · rintro ⟨i, hi, hij⟩
      exact ⟨i, hi, hlt i hi, hij⟩
  refine ⟨c.roots start reverse, c.walk reverse depthFirst (c.roots start reverse), pairwise_roots c start reverse,
    fun i => mem_roots_iff, rfl, nodup_walk, length_walk_le, fun j => lt_of_mem_walk, hreach, ?_, ?_⟩
  · rintro rfl
    exact prefix_walk ((pairwise_roots c start reverse).imp Nat.ne_of_lt) hlt
  · rintro hsep a rfl i
    rw [mem_roots_iff]
    exact hsep.holds_iff

/-- An address in one block and past another that lies within it is looked up to neither. -/
theorem walkBlocks_nested :
    let c := ofBlocks 0x1000 [⟨0x1000, 0x1100, [], [], []⟩, ⟨0x1010, 0x1020, [], [], []⟩]
    (∀ i < c.size, (c.block i).contains 0x1050 = true ↔ i = 0) ∧ c.walkBlocks (some 0x1050) false false = [] := by
  intro c
  have hin : ∀ i < c.size, (c.block i).contains 0x1050 = true ↔ i = 0 := by decide
  have hnone : c.find? 0x1050 = none := by
    rw [Option.eq_none_iff_forall_ne_some]
    intro i hi
    obtain ⟨hlast, hnearest, hcontains⟩ := find?_eq_some_iff.1 hi
    obtain rfl := (hin i hlast.lt).1 hcontains
    exact absurd (hnearest 1 (by decide) (by decide)) (by decide)
  refine ⟨hin, ?_⟩
  simp [walkBlocks, roots, hnone, walk, walkFrom]

end PathReplay.FlowChart
