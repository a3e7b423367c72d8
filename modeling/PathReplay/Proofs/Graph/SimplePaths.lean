import Mathlib.Data.List.Nodup
import PathReplay.Proofs.Graph.PathTree
import PathReplay.Proofs.Graph.Tracing

/-!
# Exactness of the path search

* `SimplePath` : a path from the entry block to the goal that has no block twice;
* `mem_trails_iff` : the search finds the simple paths all of whose blocks the goal leads back to, and no other;
* `pairwise_trails` : it finds them in the lexicographic order of their choices;
* `Consistent` : every edge between two blocks is recorded at both of them. The goal then leads back to every block
  of every simple path (`SimplePath.reaches`), and there is a path if there is any walk (`exists_simplePath`);
* `trails_exact` : all of this, and what it means for a tracer that is asked for a machine.
-/

namespace PathReplay.FlowChart

variable {c : FlowChart} {a : Address} {goal i j : Nat} {t u : Trail} {p : List Nat}

/-- The block at a position is the one that its start leads to. -/
def IsFound (c : FlowChart) (i : Nat) : Prop := c.position? (c.block i).start = some i

theorem isFound_of_position? (h : c.position? a = some i) : c.IsFound i := by
  rw [IsFound, start_block h]
  exact h

theorem Edge.isFound {reverse : Bool} (h : c.Edge reverse i j) : c.IsFound j := by
  obtain ⟨a, -, ha⟩ := List.mem_filterMap.1 h
  exact isFound_of_position? ha

theorem isFound_of_find? (h : c.find? a = some i) : c.IsFound i := by
  unfold find? at h
  obtain ⟨start, -, h⟩ := Option.bind_eq_some_iff.1 h
  obtain ⟨k, hk, h⟩ := Option.bind_eq_some_iff.1 h
  split at h
  · obtain rfl := Option.some.inj h
    exact isFound_of_position? hk
  · cases h

theorem IsFound.lt (h : c.IsFound i) : i < c.size := position?_lt h

/-- Found blocks with the same start are the same. -/
theorem IsFound.eq (hi : c.IsFound i) (hj : c.IsFound j) (h : (c.block i).start = (c.block j).start) : i = j := by
  rw [IsFound, h] at hi
  exact Option.some.inj (hi.symm.trans hj)

/-- The blocks that are of use to a path are those that the goal leads back to. -/
theorem getD_reaching (hgoal : goal < c.size) :
    (c.reaching goal).getD i false = true ↔ c.Reaches true goal i := by
  have hwalk : i ∈ c.walk true true [goal] ↔ c.Reaches true goal i := by
    rw [mem_walk_iff]
    constructor
    · rintro ⟨k, hk, -, h⟩
      rwa [List.mem_singleton.1 hk] at h
    · exact fun h => ⟨goal, List.mem_singleton_self goal, hgoal, h⟩
  rw [← hwalk, reaching, Array.getD]
  split
  · simp
  · rename_i hlt
    rw [Array.size_ofFn] at hlt
    refine iff_of_false Bool.false_ne_true fun h => hlt ?_
    exact (hwalk.1 h).lt hgoal

/-- A path from the entry block to the goal along the edges that has no block twice. -/
structure SimplePath (c : FlowChart) (goal : Nat) (p : List Nat) : Prop where
  first : p.head? = c.position? c.entry
  last : p.getLast? = some goal
  follows : p.IsChain (c.Edge false)
  nodup : p.Nodup

theorem simplePath_path : c.SimplePath goal t.path ↔ t.getLast? = c.position? c.entry ∧ t.head? = some goal ∧
    t.IsChain (fun k j => c.Edge false j k) ∧ t.Nodup := by
  unfold Trail.path
  constructor
  · rintro ⟨hfirst, hlast, hfollows, hnodup⟩
    rw [List.head?_reverse] at hfirst
    rw [List.getLast?_reverse] at hlast
    exact ⟨hfirst, hlast, List.isChain_reverse.1 hfollows, List.nodup_reverse.1 hnodup⟩
  · rintro ⟨hfirst, hlast, hfollows, hnodup⟩
    refine ⟨?_, ?_, List.isChain_reverse.2 hfollows, List.nodup_reverse.2 hnodup⟩
    · rwa [List.head?_reverse]
    · rwa [List.getLast?_reverse]

theorem mem_path : i ∈ t.path ↔ i ∈ t := List.mem_reverse

theorem path_inj (h : t.path = u.path) : t = u := List.reverse_inj.1 h

/-! ## What the search finds -/

theorem trails_eq_below (hgoal : c.find? a = some goal) :
    c.trails a = (c.firstStack (c.reaching goal)).flatMap (c.below goal (c.reaching goal)) := by
  rw [trails, hgoal]
  exact c.trailsOn_eq_flatMap goal _ _

/-- The only path to the entry block is the entry block. -/
theorem trails_of_entry {e : Nat} (hentry : c.position? c.entry = some e) (ha : c.find? a = some e) :
    c.trails a = [[e]] := by
  have huseful : (c.reaching e).getD e false = true :=
    (getD_reaching (isFound_of_find? ha).lt).2 Relation.ReflTransGen.refl
  have hbelow : c.below e (c.reaching e) [e] = [[e]] := by
    rw [below_eq]
    exact if_pos rfl
  rw [trails_eq_below ha, firstStack, hentry, Option.filter_some, if_pos huseful]
  show c.below e (c.reaching e) [e] ++ [] = _
  rw [hbelow, List.append_nil]

theorem mem_firstStack {useful : Array Bool} :
    t ∈ c.firstStack useful ↔ ∃ e, c.position? c.entry = some e ∧ useful.getD e false = true ∧ t = [e] := by
  unfold firstStack
  rw [List.mem_map]
  constructor
  · rintro ⟨e, he, rfl⟩
    rw [Option.mem_toList, Option.filter_eq_some_iff] at he
    exact ⟨e, he.1, he.2, rfl⟩
  · rintro ⟨e, he, huseful, rfl⟩
    refine ⟨e, ?_, rfl⟩
    rw [Option.mem_toList, Option.filter_eq_some_iff]
    exact ⟨he, huseful⟩

/-- The search finds the simple paths all of whose blocks the goal leads back to. -/
theorem mem_trails_iff : t ∈ c.trails a ↔
    ∃ goal, c.find? a = some goal ∧ c.SimplePath goal t.path ∧ ∀ i ∈ t.path, c.Reaches true goal i := by
  cases hfind : c.find? a with
  | none =>
    rw [trails, hfind]
    exact ⟨fun h => absurd h List.not_mem_nil, fun ⟨goal, h, _⟩ => nomatch h⟩
  | some goal =>
    have hgoal := (isFound_of_find? hfind).lt
    rw [trails_eq_below hfind, List.mem_flatMap]
    constructor
    · rintro ⟨s, hs, ht⟩
      obtain ⟨e, he, huseful, rfl⟩ := mem_firstStack.1 hs
      obtain ⟨hgrown, hhead⟩ := mem_below_iff.1 ht
      obtain ⟨hlast, hchain, hnodup, hall⟩ := (grown_iff huseful).1 hgrown
      refine ⟨goal, rfl, simplePath_path.2 ⟨hlast.trans he.symm, hhead, hchain, hnodup⟩, ?_⟩
      intro i hi
      exact (getD_reaching hgoal).1 (hall i (mem_path.1 hi))
    · rintro ⟨goal', hgoal', hsimple, hall⟩
      obtain rfl := Option.some.inj hgoal'
      obtain ⟨hlast, hhead, hchain, hnodup⟩ := simplePath_path.1 hsimple
      have huseful : ∀ i ∈ t, (c.reaching goal).getD i false = true :=
        fun i hi => (getD_reaching hgoal).2 (hall i (mem_path.2 hi))
      obtain ⟨e, he⟩ : ∃ e, t.getLast? = some e := by
        cases t with
        | nil => cases hhead
        | cons i t => exact ⟨_, List.getLast?_cons⟩
      have hmem := huseful e (List.mem_of_getLast? he)
      refine ⟨[e], mem_firstStack.2 ⟨e, hlast ▸ he, hmem, rfl⟩, mem_below_iff.2 ⟨?_, hhead⟩⟩
      exact (grown_iff hmem).2 ⟨he, hchain, hnodup, huseful⟩

theorem pairwise_trails (c : FlowChart) (a : Address) :
    (c.trails a).Pairwise fun t u => c.choices t < c.choices u := by
  cases hfind : c.find? a with
  | none =>
    rw [trails, hfind]
    exact .nil
  | some goal =>
    rw [trails_eq_below hfind, firstStack]
    cases (c.position? c.entry).filter fun e => (c.reaching goal).getD e false with
    | none => exact .nil
    | some e =>
      rw [Option.toList_some, List.map_singleton, List.flatMap_singleton]
      exact c.pairwise_below goal e _ []

theorem isFound_of_mem_trail (hlast : t.getLast? = c.position? c.entry)
    (hchain : t.IsChain fun k j => c.Edge false j k) : ∀ i ∈ t, c.IsFound i := by
  induction t with
  | nil => exact fun i hi => absurd hi List.not_mem_nil
  | cons k t ih =>
    cases t with
    | nil =>
      intro i hi
      rw [List.mem_singleton] at hi
      rw [hi]
      exact isFound_of_position? hlast.symm
    | cons j t =>
      rw [List.isChain_cons_cons] at hchain
      rw [List.getLast?_cons_cons] at hlast
      exact List.forall_mem_cons.2 ⟨hchain.1.isFound, ih hlast hchain.2⟩

theorem SimplePath.isFound (h : c.SimplePath goal t.path) : ∀ i ∈ t.path, c.IsFound i := by
  obtain ⟨hlast, -, hchain, -⟩ := simplePath_path.1 h
  intro i hi
  exact isFound_of_mem_trail hlast hchain i (mem_path.1 hi)

/-- Found blocks are known by their starts, on paths as well. -/
theorem map_start_inj {p q : List Nat} (hp : ∀ i ∈ p, c.IsFound i) (hq : ∀ i ∈ q, c.IsFound i)
    (h : p.map (fun i => (c.block i).start) = q.map fun i => (c.block i).start) : p = q := by
  induction p generalizing q with
  | nil => exact (List.map_eq_nil_iff.1 h.symm).symm
  | cons i p ih =>
    cases q with
    | nil => cases h
    | cons j q =>
      obtain ⟨hi, hp⟩ := List.forall_mem_cons.1 hp
      obtain ⟨hj, hq⟩ := List.forall_mem_cons.1 hq
      rw [List.map_cons, List.map_cons] at h
      obtain ⟨hstart, htail⟩ := List.cons.inj h
      rw [hi.eq hj hstart, ih hp hq htail]

/-! ## Edges that are recorded at both ends -/

/-- A block that is a successor of another has it among its predecessors. -/
def Consistent (c : FlowChart) : Prop :=
  ∀ x y i j, c.position? x = some i → c.position? y = some j →
    y ∈ (c.block i).succs → x ∈ (c.block j).preds

theorem block_mem (h : c.position? a = some i) : c.block i ∈ c.blocks.toList := by
  have hi : i < c.blocks.size := position?_lt h
  rw [block, Array.getD, dif_pos hi]
  exact Array.getElem_mem_toList hi

theorem consistent_of_blocks (h : ∀ b ∈ c.blocks.toList, ∀ b' ∈ c.blocks.toList,
    b'.start ∈ b.succs → b.start ∈ b'.preds) : c.Consistent := by
  intro x y i j hi hj hsucc
  rw [← start_block hi]
  rw [← start_block hj] at hsucc
  exact h _ (block_mem hi) _ (block_mem hj) hsucc

theorem Consistent.edge_symm (hc : c.Consistent) (hi : c.IsFound i) (h : c.Edge false i j) :
    c.Edge true j i := by
  obtain ⟨y, hy, hj⟩ := List.mem_filterMap.1 h
  exact List.mem_filterMap.2 ⟨(c.block i).start, hc _ y i j hi hj hy, hi⟩

theorem Consistent.reaches (hc : c.Consistent) (hfound : ∀ i ∈ goal :: t, c.IsFound i)
    (hchain : (goal :: t).IsChain fun k j => c.Edge false j k) : ∀ i ∈ goal :: t, c.Reaches true goal i := by
  induction t generalizing goal with
  | nil =>
    intro i hi
    rw [List.mem_singleton] at hi
    rw [hi]
  | cons j t ih =>
    rw [List.isChain_cons_cons] at hchain
    obtain ⟨-, hfound⟩ := List.forall_mem_cons.1 hfound
    have hback : c.Edge true goal j := hc.edge_symm (hfound j List.mem_cons_self) hchain.1
    refine List.forall_mem_cons.2 ⟨.refl, fun i hi => ?_⟩
    exact (ih hfound hchain.2 i hi).head hback

/-- The goal leads back to every block of a simple path to it. -/
theorem SimplePath.reaches (hc : c.Consistent) (h : c.SimplePath goal t.path) :
    ∀ i ∈ t.path, c.Reaches true goal i := by
  obtain ⟨hlast, hhead, hchain, -⟩ := simplePath_path.1 h
  obtain ⟨t, rfl⟩ := List.head?_eq_some_iff.1 hhead
  intro i hi
  exact hc.reaches (isFound_of_mem_trail hlast hchain) hchain i (mem_path.1 hi)

/-- Where a walk leads, a simple path leads: it is cut at the place where it comes to a block again. -/
theorem exists_simplePath (hi : c.position? c.entry = some i) (h : c.Reaches false i goal) :
    ∃ t : Trail, c.SimplePath goal t.path := by
  simp only [simplePath_path, hi]
  induction h with
  | refl => exact ⟨[i], rfl, rfl, List.isChain_singleton i, List.nodup_singleton i⟩
  | @tail k j _ hedge ih =>
    obtain ⟨t, hlast, hhead, hchain, hnodup⟩ := ih
    by_cases hj : j ∈ t
    · -- The walk comes back to `j`: what follows its first visit, on the trail what stands before it, is dropped.
      obtain ⟨s, r, rfl⟩ := List.append_of_mem hj
      have hsuffix : j :: r <:+ s ++ j :: r := List.suffix_append s (j :: r)
      rw [List.getLast?_append_of_ne_nil s (List.cons_ne_nil j r)] at hlast
      exact ⟨j :: r, hlast, rfl, hchain.suffix hsuffix, hnodup.sublist hsuffix.sublist⟩
    · obtain ⟨t, rfl⟩ := List.head?_eq_some_iff.1 hhead
      refine ⟨j :: k :: t, ?_, rfl, hchain.cons_cons hedge, List.nodup_cons.2 ⟨hj, hnodup⟩⟩
      rwa [List.getLast?_cons_cons]

/-- A simple path is a walk from the entry block. -/
theorem SimplePath.reaches_last (h : c.SimplePath goal t.path) :
    ∃ i, c.position? c.entry = some i ∧ c.Reaches false i goal := by
  obtain ⟨hlast, hhead, hchain, -⟩ := simplePath_path.1 h
  clear h
  induction t generalizing goal with
  | nil => cases hhead
  | cons k t ih =>
    obtain rfl := Option.some.inj hhead
    cases t with
    | nil => exact ⟨k, hlast.symm, .refl⟩
    | cons j t =>
      rw [List.isChain_cons_cons] at hchain
      rw [List.getLast?_cons_cons] at hlast
      obtain ⟨i, hi, hreach⟩ := ih hlast rfl hchain.2
      exact ⟨i, hi, hreach.tail hchain.1⟩

theorem trails_eq_nil_iff (hc : c.Consistent) : c.trails a = [] ↔
    ¬∃ i goal, c.position? c.entry = some i ∧ c.find? a = some goal ∧ c.Reaches false i goal := by
  rw [List.eq_nil_iff_forall_not_mem]
  constructor
  · rintro hnone ⟨i, goal, hi, hgoal, hreach⟩
    obtain ⟨t, ht⟩ := exists_simplePath hi hreach
    exact hnone t (mem_trails_iff.2 ⟨goal, hgoal, ht, ht.reaches hc⟩)
  · intro hnot t ht
    obtain ⟨goal, hgoal, hsimple, -⟩ := mem_trails_iff.1 ht
    obtain ⟨i, hi, hreach⟩ := hsimple.reaches_last
    exact hnot ⟨i, goal, hi, hgoal, hreach⟩

/-! ## Exactness -/

theorem mem_map_path : t.path ∈ (c.trails a).map Trail.path ↔ t ∈ c.trails a := by
  rw [List.mem_map]
  constructor
  · rintro ⟨u, hu, heq⟩
    rwa [← path_inj heq]
  · exact fun h => ⟨t, h, rfl⟩

theorem nodup_trails (c : FlowChart) (a : Address) : (c.trails a).Nodup := by
  apply (c.pairwise_trails a).imp
  intro t u hlt heq
  rw [heq] at hlt
  exact List.lt_irrefl _ hlt

theorem nodup_starts (c : FlowChart) (a : Address) : ((c.trails a).map c.starts).Nodup := by
  refine (c.nodup_trails a).map_on fun t ht u hu heq => ?_
  obtain ⟨goal, -, hsimple, -⟩ := mem_trails_iff.1 ht
  obtain ⟨goal', -, hsimple', -⟩ := mem_trails_iff.1 hu
  exact path_inj (map_start_inj hsimple.isFound hsimple'.isFound heq)

/-- The paths that a search for an address finds are the simple paths to its block all of whose blocks that block
leads back to. It finds each of them once, in the lexicographic order of the places in the successor lists at which
they go on, and asked for some of them it finds the first. If the edges are recorded at both ends, these are all the
simple paths, and there is one if there is any walk. A tracer says that it finds no path exactly if there is none. -/
theorem trails_exact (c : FlowChart) (a : Address) :
    let paths := (c.trails a).map Trail.path
    (∀ p, p ∈ paths ↔
      ∃ goal, c.find? a = some goal ∧ c.SimplePath goal p ∧ ∀ i ∈ p, c.Reaches true goal i) ∧
    paths.Nodup ∧ ((c.trails a).map c.starts).Nodup ∧ ((c.trails a).map c.choices).Pairwise (· < ·) ∧
    (∀ n, c.firstTrails a n = (c.trails a).take n) ∧
    (c.Consistent →
      (∀ p, p ∈ paths ↔ ∃ goal, c.find? a = some goal ∧ c.SimplePath goal p) ∧
      (paths = [] ↔
        ¬∃ i goal, c.position? c.entry = some i ∧ c.find? a = some goal ∧ c.Reaches false i goal)) ∧
    ∀ tracer : Tracer, tracer.chart = c →
      (tracer.firstMachine a = .error (.pathNotFound a) ↔ paths = []) ∧
      ∀ depth, Tracer.machines depth tracer a = .error (.pathNotFound a) ↔ paths = [] := by
  intro paths
  have hmem : ∀ p, p ∈ paths ↔
      ∃ goal, c.find? a = some goal ∧ c.SimplePath goal p ∧ ∀ i ∈ p, c.Reaches true goal i := by
    intro p
    obtain ⟨t, rfl⟩ : ∃ t : Trail, t.path = p := ⟨p.reverse, List.reverse_reverse p⟩
    exact mem_map_path.trans mem_trails_iff
  have hnil : paths = [] ↔ c.trails a = [] := List.map_eq_nil_iff
  refine ⟨hmem, (c.nodup_trails a).map fun _ _ => path_inj, c.nodup_starts a,
    List.pairwise_map.2 (c.pairwise_trails a), c.firstTrails_eq_take a, fun hc => ⟨fun p => ?_, ?_⟩, ?_⟩
  · rw [hmem]
    constructor
    · rintro ⟨goal, hgoal, hsimple, -⟩
      exact ⟨goal, hgoal, hsimple⟩
    · rintro ⟨goal, hgoal, hsimple⟩
      obtain ⟨t, rfl⟩ : ∃ t : Trail, t.path = p := ⟨p.reverse, List.reverse_reverse p⟩
      exact ⟨goal, hgoal, hsimple, hsimple.reaches hc⟩
  · exact hnil.trans (trails_eq_nil_iff hc)
  · rintro tracer rfl
    rw [hnil]
    exact ⟨tracer.firstMachine_eq_pathNotFound_iff a, fun depth => tracer.machines_eq_pathNotFound_iff depth a⟩

/-- Two blocks in a circle, and one after both of them. -/
def circle : FlowChart :=
  ofBlocks 0x1000
    [⟨0x1000, 0x1010, [], [0x1010, 0x1020], [0x1010]⟩, ⟨0x1010, 0x1020, [], [0x1000, 0x1020], [0x1000]⟩,
      ⟨0x1020, 0x1030, [], [], [0x1000, 0x1010]⟩]

/-- Both ways out of the circle are found, the longer one through its second block. -/
theorem paths_circle : circle.Consistent ∧ [0, 1, 2] ∈ (circle.trails 0x1024).map Trail.path ∧
    [0, 2] ∈ (circle.trails 0x1024).map Trail.path := by
  have hc : circle.Consistent := consistent_of_blocks (by decide)
  obtain ⟨hmem, -⟩ := (trails_exact circle 0x1024).2.2.2.2.2.1 hc
  have hgoal : circle.find? 0x1024 = some 2 := by decide +kernel
  have hentry : some 0 = circle.position? circle.entry := by decide +kernel
  have h0 : circle.neighbours false 0 = [1, 2] := by decide +kernel
  have h1 : circle.neighbours false 1 = [0, 2] := by decide +kernel
  refine ⟨hc, (hmem _).2 ⟨2, hgoal, hentry, rfl, ?_, by decide⟩, (hmem _).2 ⟨2, hgoal, hentry, rfl, ?_, by decide⟩⟩
  · simp [Edge, h0, h1]
  · simp [Edge, h0]

end PathReplay.FlowChart
