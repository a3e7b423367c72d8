import PathReplay.Graph.Walk
import Mathlib.Data.List.Perm.Subperm
import Mathlib.Data.List.Nodup
import Mathlib.Logic.Relation

/-!
# What a walk visits

* `Edge`, `Reaches` : one edge along or against control, and any number of them;
* `reaches_of_mem_walkFrom` : a walk visits nothing else than blocks that can be reached;
* `closed_walkFrom` : it goes on to every block next to one it visits;
* `mem_walk_iff` : a walk visits exactly the blocks that can be reached from its roots;
* `nodup_walk`, `length_walk_le` : it visits none twice, so no more than there are;
* `prefix_walk` : a breadth first walk begins with its roots.
-/

namespace PathReplay.FlowChart

variable {c : FlowChart} {reverse depthFirst : Bool} {pending visited roots : List Nat} {i j : Nat}

/-- Control may go from one block to the other; with `reverse`, it may come from the other. -/
def Edge (c : FlowChart) (reverse : Bool) (i j : Nat) : Prop := j ∈ c.neighbours reverse i

/-- Some number of edges lead from one block to the other. -/
abbrev Reaches (c : FlowChart) (reverse : Bool) : Nat → Nat → Prop := Relation.ReflTransGen (c.Edge reverse)

theorem Edge.lt (h : c.Edge reverse i j) : j < c.size := lt_of_mem_neighbours h

theorem Reaches.lt (h : c.Reaches reverse i j) (hi : i < c.size) : j < c.size := by
  rcases Relation.ReflTransGen.cases_tail h with rfl | ⟨k, -, hkj⟩
  · exact hi
  · exact hkj.lt

/-- A walk visits a block for one of two reasons: it had visited it before, or it reaches it from a block that was
pending. -/
theorem reaches_of_mem_walkFrom (hj : j ∈ c.walkFrom reverse depthFirst pending visited) :
    j ∈ visited ∨ ∃ i ∈ pending, i < c.size ∧ c.Reaches reverse i j := by
  fun_induction walkFrom c reverse depthFirst pending visited with
  | case1 visited => exact .inl (List.mem_reverse.1 hj)
  | case2 visited i rest hskip ih =>
    rcases ih hj with hv | ⟨k, hk, hreach⟩
    · exact .inl hv
    · exact .inr ⟨k, List.mem_cons_of_mem i hk, hreach⟩
  | case3 visited i rest hnew next ih =>
    have hi : i < c.size := Nat.lt_of_not_le fun hle => hnew (.inr hle)
    rcases ih hj with hv | ⟨k, hk, hlt, hreach⟩
    · rcases List.mem_cons.1 hv with rfl | hv
      · exact .inr ⟨j, List.mem_cons_self, hi, .refl⟩
      · exact .inl hv
    · have hcases : k ∈ next ∨ k ∈ rest := by
        split at hk
        · exact List.mem_append.1 hk
        · exact (List.mem_append.1 hk).symm
      rcases hcases with hnext | hrest
      · have hedge : c.Edge reverse i k := (List.mem_filter.1 hnext).1
        exact .inr ⟨i, List.mem_cons_self, hi, hreach.head hedge⟩
      · exact .inr ⟨k, List.mem_cons_of_mem i hrest, hlt, hreach⟩

/-- A walk visits what it had visited, and all that is pending. -/
theorem mem_walkFrom (hi : i ∈ visited ∨ i ∈ pending ∧ i < c.size) :
    i ∈ c.walkFrom reverse depthFirst pending visited := by
  fun_induction walkFrom c reverse depthFirst pending visited with
  | case1 visited =>
    rcases hi with hv | ⟨hp, -⟩
    · exact List.mem_reverse.2 hv
    · cases hp
  | case2 visited k rest hskip ih =>
    apply ih
    rcases hi with hv | ⟨hp, hlt⟩
    · exact .inl hv
    · rcases List.mem_cons.1 hp with rfl | hrest
      · exact .inl (hskip.resolve_right (Nat.not_le.2 hlt))
      · exact .inr ⟨hrest, hlt⟩
  | case3 visited k rest hnew next ih =>
    apply ih
    rcases hi with hv | ⟨hp, hlt⟩
    · exact .inl (List.mem_cons_of_mem k hv)
    · rcases List.mem_cons.1 hp with rfl | hrest
      · exact .inl List.mem_cons_self
      · refine .inr ⟨?_, hlt⟩
        split
        · exact List.mem_append_right next hrest
        · exact List.mem_append_left next hrest

/-- If every block next to a visited one is visited or pending, a walk visits all the blocks next to each that it
visits. -/
theorem closed_walkFrom
    (hinv : ∀ i ∈ visited, ∀ j, c.Edge reverse i j → j ∈ visited ∨ j ∈ pending)
    (hi : i ∈ c.walkFrom reverse depthFirst pending visited) (hij : c.Edge reverse i j) :
    j ∈ c.walkFrom reverse depthFirst pending visited := by
  fun_induction walkFrom c reverse depthFirst pending visited with
  | case1 visited =>
    rw [List.mem_reverse] at hi ⊢
    exact (hinv i hi j hij).resolve_right List.not_mem_nil
  | case2 visited k rest hskip ih =>
    refine ih (fun i hi j hij => ?_) hi
    rcases hinv i hi j hij with hv | hp
    · exact .inl hv
    · rcases List.mem_cons.1 hp with rfl | hrest
      · exact .inl (hskip.resolve_right (Nat.not_le.2 hij.lt))
      · exact .inr hrest
  | case3 visited k rest hnew next ih =>
    -- The blocks next to the one visited now are visited already or put among those pending.
    refine ih (fun i hi j hij => ?_) hi
    by_cases hv : j ∈ k :: visited
    · exact .inl hv
    · have hcases : j ∈ next ∨ j ∈ rest := by
        rcases List.mem_cons.1 hi with rfl | hi
        · exact .inl (List.mem_filter.2 ⟨hij, by simpa using hv⟩)
        · rcases hinv i hi j hij with hold | hp
          · exact absurd (List.mem_cons_of_mem k hold) hv
          · exact .inr ((List.mem_cons.1 hp).resolve_left fun heq => hv (heq ▸ List.mem_cons_self))
      right
      split
      · exact List.mem_append.2 hcases
      · exact List.mem_append.2 hcases.symm

/-- A walk visits exactly the blocks that can be reached from its roots. -/
theorem mem_walk_iff :
    j ∈ c.walk reverse depthFirst roots ↔ ∃ i ∈ roots, i < c.size ∧ c.Reaches reverse i j := by
  constructor
  · intro hj
    exact (reaches_of_mem_walkFrom hj).resolve_left List.not_mem_nil
  · rintro ⟨i, hroot, hlt, hreach⟩
    induction hreach with
    | refl => exact mem_walkFrom (.inr ⟨hroot, hlt⟩)
    | tail _ hedge ih => exact closed_walkFrom (fun _ h => absurd h List.not_mem_nil) ih hedge

theorem lt_of_mem_walk (hj : j ∈ c.walk reverse depthFirst roots) : j < c.size := by
  obtain ⟨i, -, hi, hreach⟩ := mem_walk_iff.1 hj
  exact hreach.lt hi

/-! ## How often, and in what order -/

theorem nodup_walkFrom (hv : visited.Nodup) : (c.walkFrom reverse depthFirst pending visited).Nodup := by
  fun_induction walkFrom c reverse depthFirst pending visited with
  | case1 visited => exact List.nodup_reverse.2 hv
  | case2 visited i rest hskip ih => exact ih hv
  | case3 visited i rest hnew next ih => exact ih (List.nodup_cons.2 ⟨fun hi => hnew (.inl hi), hv⟩)

theorem nodup_walk : (c.walk reverse depthFirst roots).Nodup := nodup_walkFrom List.nodup_nil

theorem length_walk_le : (c.walk reverse depthFirst roots).length ≤ c.size := by
  have hsub : c.walk reverse depthFirst roots ⊆ List.range c.size :=
    fun j hj => List.mem_range.2 (lt_of_mem_walk hj)
  simpa using (nodup_walk.subperm hsub).length_le

theorem reverse_prefix_walkFrom : visited.reverse <+: c.walkFrom reverse depthFirst pending visited := by
  fun_induction walkFrom c reverse depthFirst pending visited with
  | case1 visited => exact List.prefix_refl _
  | case2 visited i rest hskip ih => exact ih
  | case3 visited i rest hnew next ih =>
    rw [List.reverse_cons] at ih
    exact (List.prefix_append _ _).trans ih

/-- A breadth first walk visits what is pending before anything that it adds. -/
theorem append_prefix_walkFrom (reverse : Bool) (visited more : List Nat) (hnodup : (visited.reverse ++ pending).Nodup)
    (hlt : ∀ i ∈ pending, i < c.size) :
    visited.reverse ++ pending <+: c.walkFrom reverse false (pending ++ more) visited := by
  induction pending generalizing visited more with
  | nil => simpa using reverse_prefix_walkFrom
  | cons i rest ih =>
    have hi : i ∉ visited := by
      intro hv
      exact (List.nodup_append.1 hnodup).2.2 i (List.mem_reverse.2 hv) i List.mem_cons_self rfl
    have hskip : ¬(i ∈ visited ∨ c.size ≤ i) := by
      rintro (hv | hge)
      · exact hi hv
      · exact Nat.not_lt.2 hge (hlt i List.mem_cons_self)
    have hsplit : visited.reverse ++ i :: rest = (i :: visited).reverse ++ rest := by simp
    rw [List.cons_append, walkFrom, dif_neg hskip, hsplit]
    rw [hsplit] at hnodup
    simp only [if_neg Bool.false_ne_true, List.append_assoc]
    exact ih _ _ hnodup fun j hj => hlt j (List.mem_cons_of_mem i hj)

theorem prefix_walk (hnodup : roots.Nodup) (hlt : ∀ i ∈ roots, i < c.size) :
    roots <+: c.walk reverse false roots := by
  simpa [walk] using append_prefix_walkFrom reverse [] [] hnodup hlt

end PathReplay.FlowChart
