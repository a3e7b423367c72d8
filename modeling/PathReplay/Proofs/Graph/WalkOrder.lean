import PathReplay.Proofs.Graph.Coverage

/-!
# In what order a walk visits

* `walkFrom_visit` : that a walk leaves out edges to blocks it has visited makes no difference;
* `preorder` : the recursive depth first walk; `walk_depthFirst` : a walk by a list of pending blocks is the same;
* `reachedIn`, `IsDistance` : where paths of so many edges end, and the least number of edges to a block;
* `level`, `walkFrom_level` : a breadth first walk goes on level by level; `mem_level_iff` : a level is a distance;
* `walkBlocks_order` : so depth first the order is that of the recursion, and breadth first that of the distances, each
  in the order in which the edges from the one before first reach it.
-/

namespace PathReplay.FlowChart

variable {c : FlowChart} {reverse depthFirst : Bool} {pending visited roots : List Nat} {i j n k : Nat}

/-! ## Pending blocks -/

theorem walkFrom_skip (rest : List Nat) (hskip : i ∈ visited ∨ c.size ≤ i) :
    c.walkFrom reverse depthFirst (i :: rest) visited = c.walkFrom reverse depthFirst rest visited := by
  rw [walkFrom, dif_pos hskip]

/-- Pending blocks that are visited already may be left out. -/
theorem walkFrom_filter (keep : Nat → Bool) (pending : List Nat) (hkeep : ∀ i, keep i = false → i ∈ visited) :
    c.walkFrom reverse depthFirst (pending.filter keep) visited = c.walkFrom reverse depthFirst pending visited := by
  fun_induction walkFrom c reverse depthFirst pending visited with
  | case1 visited => rw [List.filter_nil, walkFrom]
  | case2 visited i rest hskip ih =>
    rw [List.filter_cons]
    split
    · rw [walkFrom_skip _ hskip, ih hkeep]
    · exact ih hkeep
  | case3 visited i rest hnew next ih =>
    have hkept : keep i = true := by
      rw [← Bool.not_eq_false]
      exact fun hdrop => hnew (.inl (hkeep i hdrop))
    have hnext : next.filter keep = next := by
      refine List.filter_eq_self.2 fun j hj => ?_
      rw [← Bool.not_eq_false]
      intro hdrop
      have hunseen := (List.mem_filter.1 hj).2
      simp [hkeep j hdrop] at hunseen
    rw [List.filter_cons_of_pos hkept, walkFrom, dif_neg hnew]
    refine Eq.trans ?_ (ih fun j hj => List.mem_cons_of_mem i (hkeep j hj))
    cases depthFirst
    · simp only [Bool.false_eq_true, if_false, dite_false, List.filter_append, hnext]
      rfl
    · simp only [if_true, dite_true, List.filter_append, hnext]
      rfl

/-- A block that is visited puts all the blocks next to it among those pending. -/
theorem walkFrom_visit (rest : List Nat) (hnew : ¬(i ∈ visited ∨ c.size ≤ i)) :
    c.walkFrom reverse depthFirst (i :: rest) visited =
      c.walkFrom reverse depthFirst
        (if depthFirst then c.neighbours reverse i ++ rest else rest ++ c.neighbours reverse i) (i :: visited) := by
  let keep := fun j => !(i :: visited).contains j
  have hkeep : ∀ j, keep j = false → j ∈ i :: visited := by
    intro j hj
    rwa [Bool.not_eq_false', List.contains_iff_mem] at hj
  rw [walkFrom, dif_neg hnew, ← walkFrom_filter keep _ hkeep, ← walkFrom_filter keep (ite ..) hkeep]
  cases depthFirst
  · simp only [Bool.false_eq_true, if_false, List.filter_append, List.filter_filter, keep, Bool.and_self]
  · simp only [if_true, List.filter_append, List.filter_filter, keep, Bool.and_self]

/-! ## Depth first -/

theorem unvisited_le_of_suffix {after : List Nat} (h : visited <:+ after) :
    c.unvisited after ≤ c.unvisited visited := by
  refine List.countP_mono_left fun j _ hj => ?_
  rw [Bool.not_eq_true', ← Bool.not_eq_true, List.contains_iff_mem] at hj ⊢
  exact fun hv => hj (h.subset hv)

/-- The recursive depth first walk. A block that is not visited yet is visited, then in order the blocks next to it,
each with all that comes after it, and only then the others. All share what is visited, last one first, and give it back
with what they added. -/
def descend (c : FlowChart) (reverse : Bool) (blocks visited : List Nat) : {after : List Nat // visited <:+ after} :=
  match blocks with
  | [] => ⟨visited, List.suffix_refl visited⟩
  | i :: rest =>
    if _h : i ∈ visited ∨ c.size ≤ i then c.descend reverse rest visited
    else
      let below := c.descend reverse (c.neighbours reverse i) (i :: visited)
      let after := c.descend reverse rest below.val
      ⟨after.val, ((List.suffix_cons i visited).trans below.property).trans after.property⟩
termination_by (c.unvisited visited, blocks.length)
decreasing_by
  · exact Prod.Lex.right _ (Nat.lt_succ_self rest.length)
  · exact Prod.Lex.left _ _ (c.unvisited_cons_lt (by omega) fun hv => _h (.inl hv))
  · refine Prod.Lex.left _ _ (Nat.lt_of_le_of_lt (unvisited_le_of_suffix below.property) ?_)
    exact c.unvisited_cons_lt (by omega) fun hv => _h (.inl hv)

/-- The blocks in the order in which the recursive walk visits them. -/
def preorder (c : FlowChart) (reverse : Bool) (roots : List Nat) : List Nat := (c.descend reverse roots []).val.reverse

/-- What is in front of the pending blocks is walked as the recursive walk does it, and then the others. -/
theorem walkFrom_append (rest : List Nat) :
    c.walkFrom reverse true (pending ++ rest) visited =
      c.walkFrom reverse true rest (c.descend reverse pending visited).val := by
  fun_induction descend c reverse pending visited generalizing rest with
  | case1 visited => rfl
  | case2 visited i pending hskip ih => rw [List.cons_append, walkFrom_skip _ hskip, ih]
  | case3 visited i pending hnew below after ihbelow ihafter =>
    rw [List.cons_append, walkFrom_visit _ hnew, if_pos rfl, ihbelow, ihafter]

theorem walk_depthFirst (c : FlowChart) (reverse : Bool) (roots : List Nat) :
    c.walk reverse true roots = c.preorder reverse roots := by
  rw [walk, ← List.append_nil roots, walkFrom_append, List.append_nil, walkFrom, preorder]

/-! ## Distances -/

/-- Where the paths of so many edges from the roots end. -/
def reachedIn (c : FlowChart) (reverse : Bool) (roots : List Nat) : Nat → List Nat
  | 0 => roots
  | n + 1 => (c.reachedIn reverse roots n).flatMap (c.neighbours reverse)

/-- So many edges lead from a root to the block, and no fewer do. -/
def IsDistance (c : FlowChart) (reverse : Bool) (roots : List Nat) (n j : Nat) : Prop :=
  j ∈ c.reachedIn reverse roots n ∧ ∀ m < n, j ∉ c.reachedIn reverse roots m

instance (c : FlowChart) (reverse : Bool) (roots : List Nat) (n j : Nat) :
    Decidable (c.IsDistance reverse roots n j) :=
  inferInstanceAs (Decidable (_ ∧ _))

theorem mem_reachedIn_succ :
    j ∈ c.reachedIn reverse roots (n + 1) ↔ ∃ i ∈ c.reachedIn reverse roots n, j ∈ c.neighbours reverse i :=
  List.mem_flatMap

theorem lt_of_mem_reachedIn (hlt : ∀ i ∈ roots, i < c.size) (hj : j ∈ c.reachedIn reverse roots n) : j < c.size := by
  cases n with
  | zero => exact hlt j hj
  | succ n =>
    obtain ⟨i, -, hedge⟩ := mem_reachedIn_succ.1 hj
    exact lt_of_mem_neighbours hedge

theorem IsDistance.unique (hn : c.IsDistance reverse roots n j) (hk : c.IsDistance reverse roots k j) : n = k := by
  rcases Nat.lt_trichotomy n k with h | h | h
  · exact absurd hn.1 (hk.2 n h)
  · exact h
  · exact absurd hk.1 (hn.2 k h)

/-- A block that can be reached has a distance. -/
theorem exists_isDistance_le (hj : j ∈ c.reachedIn reverse roots n) : ∃ m ≤ n, c.IsDistance reverse roots m j := by
  induction n using Nat.strongRecOn with
  | ind n ih =>
    by_cases hless : ∃ m < n, j ∈ c.reachedIn reverse roots m
    · obtain ⟨m, hm, hjm⟩ := hless
      obtain ⟨l, hl, hdist⟩ := ih m hm hjm
      exact ⟨l, by omega, hdist⟩
    · exact ⟨n, Nat.le_refl n, hj, fun m hm hjm => hless ⟨m, hm, hjm⟩⟩

/-- A block farther off than the roots is next to one that is one edge nearer. -/
theorem IsDistance.pred (h : c.IsDistance reverse roots (n + 1) j) :
    ∃ i, c.IsDistance reverse roots n i ∧ j ∈ c.neighbours reverse i := by
  obtain ⟨i, hi, hedge⟩ := mem_reachedIn_succ.1 h.1
  refine ⟨i, ⟨hi, fun m hm him => ?_⟩, hedge⟩
  exact h.2 (m + 1) (Nat.succ_lt_succ hm) (mem_reachedIn_succ.2 ⟨i, him, hedge⟩)

/-- The blocks at a distance: the roots first, then those that the edges from the blocks of the level before reach, each
where it is first reached. -/
def level (c : FlowChart) (reverse : Bool) (roots : List Nat) : Nat → List Nat
  | 0 => roots
  | n + 1 =>
    (((c.level reverse roots n).flatMap (c.neighbours reverse)).filter
      (c.IsDistance reverse roots (n + 1))).eraseDups

theorem mem_level_iff : j ∈ c.level reverse roots n ↔ c.IsDistance reverse roots n j := by
  induction n generalizing j with
  | zero => simp [level, IsDistance, reachedIn]
  | succ n ih =>
    rw [level, List.mem_eraseDups, List.mem_filter, decide_eq_true_iff, List.mem_flatMap]
    refine ⟨And.right, fun h => ⟨?_, h⟩⟩
    obtain ⟨i, hi, hedge⟩ := h.pred
    exact ⟨i, ih.2 hi, hedge⟩

/-! ## Breadth first -/

/-- Of the pending blocks those that are still to be visited, each where it first stands. -/
def fresh (c : FlowChart) (pending visited : List Nat) : List Nat :=
  (pending.filter fun i => decide ¬(i ∈ visited ∨ c.size ≤ i)).eraseDups

theorem fresh_skip (rest : List Nat) (hskip : i ∈ visited ∨ c.size ≤ i) :
    c.fresh (i :: rest) visited = c.fresh rest visited := by
  rw [fresh, List.filter_cons_of_neg (by simp [hskip]), fresh]

theorem fresh_visit (rest : List Nat) (hnew : ¬(i ∈ visited ∨ c.size ≤ i)) :
    c.fresh (i :: rest) visited = i :: c.fresh rest (i :: visited) := by
  rw [fresh, List.filter_cons_of_pos (by simpa using hnew), List.eraseDups_cons, List.filter_filter, fresh]
  congr 2
  refine List.filter_congr fun j _ => ?_
  by_cases hji : j = i <;> simp [hji]

theorem fresh_eq_self (hnodup : pending.Nodup) (hnew : ∀ i ∈ pending, ¬(i ∈ visited ∨ c.size ≤ i)) :
    c.fresh pending visited = pending := by
  induction pending generalizing visited with
  | nil => rfl
  | cons i rest ih =>
    obtain ⟨hi, hrest⟩ := List.nodup_cons.1 hnodup
    rw [fresh_visit _ (hnew i List.mem_cons_self), ih hrest]
    rintro j hj (hv | hge)
    · rcases List.mem_cons.1 hv with rfl | hv
      · exact hi hj
      · exact hnew j (List.mem_cons_of_mem i hj) (.inl hv)
    · exact hnew j (List.mem_cons_of_mem i hj) (.inr hge)

/-- A breadth first walk visits what is pending, and has then pending what is next to that. -/
theorem walkFrom_level (c : FlowChart) (reverse : Bool) (pending visited rest : List Nat) :
    c.walkFrom reverse false (pending ++ rest) visited =
      c.walkFrom reverse false (rest ++ (c.fresh pending visited).flatMap (c.neighbours reverse))
        ((c.fresh pending visited).reverse ++ visited) := by
  induction pending generalizing visited rest with
  | nil => simp [fresh]
  | cons i pending ih =>
    rw [List.cons_append]
    by_cases hskip : i ∈ visited ∨ c.size ≤ i
    · rw [walkFrom_skip _ hskip, fresh_skip _ hskip, ih]
    · rw [walkFrom_visit _ hskip, fresh_visit _ hskip, if_neg Bool.false_ne_true, List.append_assoc, ih,
        List.flatMap_cons, List.reverse_cons, List.append_assoc, List.append_assoc]
      rfl

/-- What a breadth first walk has pending after so many levels. -/
def arrivals (c : FlowChart) (reverse : Bool) (roots : List Nat) : Nat → List Nat
  | 0 => roots
  | n + 1 => (c.level reverse roots n).flatMap (c.neighbours reverse)

theorem mem_reachedIn_of_mem_arrivals (hj : j ∈ c.arrivals reverse roots n) : j ∈ c.reachedIn reverse roots n := by
  cases n with
  | zero => exact hj
  | succ n =>
    obtain ⟨i, hi, hedge⟩ := List.mem_flatMap.1 hj
    exact mem_reachedIn_succ.2 ⟨i, (mem_level_iff.1 hi).1, hedge⟩

/-- The levels nearer than so many edges. -/
abbrev levels (c : FlowChart) (reverse : Bool) (roots : List Nat) (n : Nat) : List Nat :=
  (List.range n).flatMap (c.level reverse roots)

theorem levels_succ : c.levels reverse roots (n + 1) = c.levels reverse roots n ++ c.level reverse roots n := by
  simp [levels, List.range_succ]

theorem mem_levels_iff : j ∈ c.levels reverse roots n ↔ ∃ m < n, c.IsDistance reverse roots m j := by
  simp only [List.mem_flatMap, List.mem_range, mem_level_iff]

/-- Once the levels before are visited, the blocks still to be visited are those of the next. -/
theorem fresh_arrivals (hnodup : roots.Nodup) (hlt : ∀ i ∈ roots, i < c.size) :
    c.fresh (c.arrivals reverse roots n) (c.levels reverse roots n).reverse = c.level reverse roots n := by
  cases n with
  | zero =>
    refine fresh_eq_self hnodup fun i hi hskip => ?_
    exact Nat.not_le.2 (hlt i hi) (hskip.resolve_left List.not_mem_nil)
  | succ n =>
    refine congrArg List.eraseDups (List.filter_congr fun j hj => ?_)
    have hreached := mem_reachedIn_of_mem_arrivals hj
    rw [decide_eq_decide, List.mem_reverse, mem_levels_iff]
    constructor
    · intro hnew
      obtain ⟨m, hm, hdist⟩ := exists_isDistance_le hreached
      obtain rfl : m = n + 1 := (Nat.eq_or_lt_of_le hm).resolve_right fun h => hnew (.inl ⟨m, h, hdist⟩)
      exact hdist
    · rintro hdist (⟨m, hm, hnear⟩ | hge)
      · exact hdist.2 m hm hnear.1
      · exact Nat.not_lt.2 hge (lt_of_mem_reachedIn hlt hreached)

theorem walk_eq_walkFrom_arrivals (hnodup : roots.Nodup) (hlt : ∀ i ∈ roots, i < c.size) (n : Nat) :
    c.walk reverse false roots =
      c.walkFrom reverse false (c.arrivals reverse roots n) (c.levels reverse roots n).reverse := by
  induction n with
  | zero => rfl
  | succ n ih =>
    have hstep := walkFrom_level c reverse (c.arrivals reverse roots n) (c.levels reverse roots n).reverse []
    rw [List.append_nil, List.nil_append, fresh_arrivals hnodup hlt, ← List.reverse_append, ← levels_succ] at hstep
    exact ih.trans hstep

/-- There are no more levels than blocks, as one level leads to the next. -/
theorem le_length_levels (hne : c.level reverse roots n ≠ []) : n ≤ (c.levels reverse roots n).length := by
  induction n with
  | zero => exact Nat.zero_le _
  | succ n ih =>
    have hprev : c.level reverse roots n ≠ [] := by
      intro hnil
      simp [level, hnil] at hne
    have hpos := List.length_pos_iff.2 hprev
    have hle := ih hprev
    rw [levels_succ, List.length_append]
    omega

theorem level_size (hnodup : roots.Nodup) (hlt : ∀ i ∈ roots, i < c.size) (hn : c.size ≤ n) :
    c.level reverse roots n = [] := by
  by_contra hne
  have hprefix : (c.levels reverse roots (n + 1)).reverse.reverse <+: c.walk reverse false roots := by
    rw [walk_eq_walkFrom_arrivals hnodup hlt (n + 1)]
    exact reverse_prefix_walkFrom
  rw [List.reverse_reverse] at hprefix
  have hle := Nat.le_trans hprefix.length_le length_walk_le
  have hmany := le_length_levels hne
  have hpos := List.length_pos_iff.2 hne
  rw [levels_succ, List.length_append] at hle
  omega

/-- A breadth first walk visits one level after the other. -/
theorem walk_breadthFirst (hnodup : roots.Nodup) (hlt : ∀ i ∈ roots, i < c.size) :
    c.walk reverse false roots = c.levels reverse roots c.size := by
  have hlast : c.level reverse roots c.size = [] := level_size hnodup hlt (Nat.le_refl c.size)
  rw [walk_eq_walkFrom_arrivals hnodup hlt (c.size + 1), arrivals, levels_succ, hlast]
  simp [walkFrom]

theorem filter_level (k n : Nat) :
    (c.level reverse roots k).filter (c.IsDistance reverse roots n) =
      if k = n then c.level reverse roots n else [] := by
  split
  · subst k
    exact List.filter_eq_self.2 fun j hj => decide_eq_true (mem_level_iff.1 hj)
  · rename_i hne
    refine List.filter_eq_nil_iff.2 fun j hj hdist => hne ?_
    exact (mem_level_iff.1 hj).unique (of_decide_eq_true hdist)

/-- The blocks of a level are picked out of those before by their distance. -/
theorem filter_levels (k n : Nat) :
    (c.levels reverse roots k).filter (c.IsDistance reverse roots n) =
      if n < k then c.level reverse roots n else [] := by
  induction k with
  | zero => rfl
  | succ k ih =>
    rw [levels_succ, List.filter_append, ih, filter_level]
    rcases Nat.lt_trichotomy n k with h | rfl | h
    · simp [h, Nat.lt_succ_of_lt h, Nat.ne_of_gt h]
    · simp
    · simp [Nat.ne_of_lt h, Nat.not_lt_of_gt h, Nat.not_lt.2 h]

theorem pairwise_levels (k : Nat) :
    (c.levels reverse roots k).Pairwise fun i j =>
      ∀ d e, c.IsDistance reverse roots d i → c.IsDistance reverse roots e j → d ≤ e := by
  rw [List.pairwise_flatMap]
  constructor
  · intro n _
    refine List.pairwise_of_forall_mem_list fun i hi j hj d e hd he => ?_
    exact Nat.le_of_eq ((hd.unique (mem_level_iff.1 hi)).trans (he.unique (mem_level_iff.1 hj)).symm)
  · refine List.pairwise_lt_range.imp fun {m n} hmn i hi j hj d e hd he => ?_
    rw [hd.unique (mem_level_iff.1 hi), he.unique (mem_level_iff.1 hj)]
    exact Nat.le_of_lt hmn

/-- Depth first a walk gives the blocks in the order of the recursive walk. Breadth first it gives those that can be
reached, each once and none before one that is nearer to the roots. The roots keep their order; the blocks one edge
farther off than others stand as the edges from these, in the order of both, first lead to them. -/
theorem walkBlocks_order (c : FlowChart) (start : Option Address) (reverse : Bool) :
    ∃ roots : List Nat,
      roots.Pairwise (· < ·) ∧ (∀ i, i ∈ roots ↔ c.IsRoot start reverse i) ∧
      c.walkBlocks start reverse true = (c.preorder reverse roots).map c.block ∧
      ∃ order : List Nat,
        let distance := c.IsDistance reverse roots
        c.walkBlocks start reverse false = order.map c.block ∧
        order.Nodup ∧ (∀ j, j ∈ order ↔ ∃ n, distance n j) ∧
        order.Pairwise (fun i j => ∀ d e, distance d i → distance e j → d ≤ e) ∧
        order.filter (distance 0 ·) = roots ∧
        ∀ n, order.filter (distance (n + 1) ·) =
          (((order.filter (distance n ·)).flatMap (c.neighbours reverse)).filter (distance (n + 1) ·)).eraseDups := by
  let roots := c.roots start reverse
  let distance := c.IsDistance reverse roots
  have hnodup : roots.Nodup := (pairwise_roots c start reverse).imp Nat.ne_of_lt
  have hlt : ∀ i ∈ roots, i < c.size := fun i hi => (mem_roots_iff.1 hi).lt
  have hfilter : ∀ n, (c.levels reverse roots c.size).filter (distance n ·) = c.level reverse roots n := by
    intro n
    rw [filter_levels]
    split
    · rfl
    · rename_i hge
      exact (level_size hnodup hlt (Nat.not_lt.1 hge)).symm
  have hwalk : c.walk reverse false roots = c.levels reverse roots c.size := walk_breadthFirst hnodup hlt
  refine ⟨roots, pairwise_roots c start reverse, fun i => mem_roots_iff,
    congrArg (List.map c.block) (walk_depthFirst c reverse roots), c.levels reverse roots c.size,
    congrArg (List.map c.block) hwalk, hwalk ▸ nodup_walk, fun j => ?_, pairwise_levels _, hfilter 0, fun n => ?_⟩
  · rw [mem_levels_iff]
    constructor
    · rintro ⟨n, -, hn⟩
      exact ⟨n, hn⟩
    · rintro ⟨n, hn⟩
      refine ⟨n, Nat.lt_of_not_le fun hge => ?_, hn⟩
      have hmem := mem_level_iff.2 hn
      rw [level_size hnodup hlt hge] at hmem
      cases hmem
  · rw [hfilter, hfilter, level]

end PathReplay.FlowChart
