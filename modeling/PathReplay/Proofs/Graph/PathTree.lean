import Mathlib.Data.List.Chain
import PathReplay.Graph.Path
import PathReplay.Proofs.Graph.Walks

/-!
# The tree of paths

* `below` : the trails to the goal among those that go on from a trail;
* `trailsOn_eq_flatMap` : the search from a stack finds those below its trails, the topmost first;
* `firstTrailsOn_eq_take` : asked for some of them, it finds the first;
* `Grown`, `mem_below_iff` : what is below a trail has grown out of it block by block and ends at the goal;
* `choices`, `pairwise_below` : at which places of the successor lists a path goes on. The paths below a trail are in
  the lexicographic order of these.
-/

namespace PathReplay.FlowChart

variable {c : FlowChart} {goal i j k : Nat} {useful : Array Bool} {t u v : Trail}

theorem mem_children : u ∈ c.children useful t ↔ ∃ j ∈ c.extensions useful t, j :: t = u := List.mem_map

theorem children_induction (c : FlowChart) (useful : Array Bool) {motive : Trail → Prop} (t : Trail)
    (step : ∀ t, (∀ u ∈ c.children useful t, motive u) → motive t) : motive t := by
  apply step
  intro u hu
  obtain ⟨j, hj, rfl⟩ := mem_children.1 hu
  exact children_induction c useful (j :: t) step
termination_by c.unvisited t
decreasing_by exact c.unvisited_cons_lt (lt_of_mem_extensions hj).1 (lt_of_mem_extensions hj).2

/-! ## The search -/

/-- The trails to the goal below a trail: the trail itself if it ends there, and those below the trails that go on
from it by one block otherwise. -/
def below (c : FlowChart) (goal : Nat) (useful : Array Bool) (t : Trail) : List Trail :=
  if t.head? = some goal then [t]
  else (c.extensions useful t).attach.flatMap fun j => c.below goal useful (j.1 :: t)
termination_by c.unvisited t
decreasing_by exact c.unvisited_cons_lt (lt_of_mem_extensions j.2).1 (lt_of_mem_extensions j.2).2

theorem below_eq (c : FlowChart) (goal : Nat) (useful : Array Bool) (t : Trail) :
    c.below goal useful t =
      if t.head? = some goal then [t] else (c.children useful t).flatMap (c.below goal useful) := by
  rw [below, children, List.flatMap_map]
  split
  · rfl
  · rw [List.flatMap_subtype (g := fun j => c.below goal useful (j :: t)) fun _ _ => rfl, List.unattach_attach]

theorem trailsOn_nil (c : FlowChart) (goal : Nat) (useful : Array Bool) : c.trailsOn goal useful [] = [] := by
  rw [trailsOn, nextTrail?]

theorem trailsOn_cons (c : FlowChart) (goal : Nat) (useful : Array Bool) (t : Trail) (stack : List Trail) :
    c.trailsOn goal useful (t :: stack) =
      if t.head? = some goal then t :: c.trailsOn goal useful stack
      else c.trailsOn goal useful (c.children useful t ++ stack) := by
  by_cases hgoal : t.head? = some goal
  · rw [trailsOn, nextTrail?, if_pos hgoal, if_pos hgoal]
  · rw [trailsOn, nextTrail?, if_neg hgoal, if_neg hgoal, trailsOn]

theorem trailsOn_eq_flatMap (c : FlowChart) (goal : Nat) (useful : Array Bool) (stack : List Trail) :
    c.trailsOn goal useful stack = stack.flatMap (c.below goal useful) := by
  -- Every step of the search leaves less pending, so the induction follows its steps.
  match stack with
  | [] => rw [trailsOn_nil, List.flatMap_nil]
  | t :: stack =>
    rw [trailsOn_cons, List.flatMap_cons, below_eq]
    split
    · rw [trailsOn_eq_flatMap c goal useful stack, List.singleton_append]
    · rw [trailsOn_eq_flatMap c goal useful (c.children useful t ++ stack), List.flatMap_append]
termination_by c.pending stack
decreasing_by
  · exact c.pending_children_lt useful t stack
  · exact c.pending_lt_cons t stack

theorem firstTrailsOn_eq_take (c : FlowChart) (goal : Nat) (useful : Array Bool) (n : Nat) (stack : List Trail) :
    c.firstTrailsOn goal useful n stack = (c.trailsOn goal useful stack).take n := by
  induction n generalizing stack with
  | zero => rw [firstTrailsOn, List.take_zero]
  | succ n ih =>
    rw [firstTrailsOn, trailsOn]
    cases c.nextTrail? goal useful stack with
    | none => rw [List.take_nil]
    | some next => rw [List.take_succ_cons, ← ih]

theorem firstTrails_eq_take (c : FlowChart) (a : Address) (n : Nat) :
    c.firstTrails a n = (c.trails a).take n := by
  unfold firstTrails trails
  cases c.find? a with
  | none => rw [List.take_nil]
  | some goal => exact c.firstTrailsOn_eq_take goal _ n _

/-! ## What is below a trail -/

/-- One trail has grown out of the other. -/
abbrev Grown (c : FlowChart) (useful : Array Bool) : Trail → Trail → Prop :=
  Relation.ReflTransGen fun t u => u ∈ c.children useful t

theorem Grown.suffix (h : c.Grown useful t u) : t <:+ u := by
  induction h with
  | refl => exact List.suffix_rfl
  | tail _ hstep ih =>
    obtain ⟨j, -, rfl⟩ := mem_children.1 hstep
    exact ih.trans (List.suffix_cons j _)

/-- Every block that a trail gains is new to it. -/
theorem Grown.head?_ne (h : c.Grown useful t u) (hne : u ≠ t) (hi : i ∈ t) : u.head? ≠ some i := by
  rcases Relation.ReflTransGen.cases_tail h with rfl | ⟨v, hv, hstep⟩
  · exact absurd rfl hne
  · obtain ⟨j, hj, rfl⟩ := mem_children.1 hstep
    intro heq
    obtain rfl : j = i := Option.some.inj heq
    exact (lt_of_mem_extensions hj).2 (Grown.suffix hv |>.subset hi)

theorem mem_below_iff : u ∈ c.below goal useful t ↔ c.Grown useful t u ∧ u.head? = some goal := by
  induction t using children_induction c useful with
  | step t ih =>
  rw [below_eq]
  split
  · -- Nothing else is below a trail that ends at the goal: it would have to come back there.
    rename_i hgoal
    rw [List.mem_singleton]
    constructor
    · rintro rfl
      exact ⟨.refl, hgoal⟩
    · rintro ⟨hgrown, hu⟩
      by_cases hne : u = t
      · exact hne
      · exact absurd hu (hgrown.head?_ne hne (List.mem_of_head? hgoal))
  · rename_i hgoal
    rw [List.mem_flatMap]
    constructor
    · rintro ⟨v, hv, hu⟩
      obtain ⟨hgrown, hu⟩ := (ih v hv).1 hu
      exact ⟨hgrown.head hv, hu⟩
    · rintro ⟨hgrown, hu⟩
      rcases Relation.ReflTransGen.cases_head hgrown with rfl | ⟨v, hv, hvu⟩
      · exact absurd hu hgoal
      · exact ⟨v, hv, (ih v hv).2 ⟨hvu, hu⟩⟩

/-- A trail that has grown out of a useful block is a path from it that has no block twice, and all of its blocks
are useful. -/
theorem grown_iff (hi : useful.getD i false = true) :
    c.Grown useful [i] u ↔ u.getLast? = some i ∧ u.IsChain (fun k j => c.Edge false j k) ∧ u.Nodup ∧
      ∀ j ∈ u, useful.getD j false = true := by
  constructor
  · intro h
    induction h with
    | refl => exact ⟨rfl, List.isChain_singleton i, List.pairwise_singleton _ _, List.forall_mem_singleton.2 hi⟩
    | @tail v w _ hstep ih =>
      obtain ⟨hlast, hchain, hnodup, huseful⟩ := ih
      obtain ⟨k, hk, rfl⟩ := mem_children.1 hstep
      cases v with
      | nil => simp at hlast
      | cons j v =>
        obtain ⟨hedge, hk, hnew⟩ := mem_extensions.1 hk
        refine ⟨by rwa [List.getLast?_cons_cons], hchain.cons_cons hedge, List.nodup_cons.2 ⟨hnew, hnodup⟩, ?_⟩
        exact List.forall_mem_cons.2 ⟨hk, huseful⟩
  · rintro ⟨hlast, hchain, hnodup, huseful⟩
    induction u with
    | nil => simp at hlast
    | cons k u ih =>
      cases u with
      | nil =>
        obtain rfl : k = i := Option.some.inj hlast
        exact .refl
      | cons j u =>
        rw [List.isChain_cons_cons] at hchain
        rw [List.nodup_cons] at hnodup
        rw [List.forall_mem_cons] at huseful
        rw [List.getLast?_cons_cons] at hlast
        refine .tail (ih hlast hchain.2 hnodup.2 huseful.2) ?_
        exact mem_children.2 ⟨k, mem_extensions.2 ⟨hchain.1, huseful.1, hnodup.1⟩, rfl⟩

/-! ## The order -/

/-- The place in a block's successor list of the first edge to another. -/
def choice (c : FlowChart) (i j : Nat) : Nat := (c.block i).succs.findIdx fun a => c.position? a == some j

/-- The places in the successor lists of the edges that a trail takes, in order. -/
def choices (c : FlowChart) : Trail → List Nat
  | j :: i :: t => c.choices (i :: t) ++ [c.choice i j]
  | _ => []

theorem Grown.prefix_choices (h : c.Grown useful (i :: t) u) : c.choices (i :: t) <+: c.choices u := by
  induction h with
  | refl => exact List.prefix_rfl
  | @tail v w hgrown hstep ih =>
    obtain ⟨k, -, rfl⟩ := mem_children.1 hstep
    cases v with
    | nil => exact absurd (Grown.suffix hgrown).length_le (by simp)
    | cons j v => exact ih.trans (List.prefix_append _ _)

/-- What is left of a list of edges once those that lead nowhere, unwanted blocks and repetitions are removed is
in the order of the first edges. -/
theorem pairwise_findIdx_eraseDups (f : Address → Option Nat) (edges : List Address) (p : Nat → Bool) :
    ((edges.filterMap f).filter p).eraseDups.Pairwise fun j k =>
      edges.findIdx (fun a => f a == some j) < edges.findIdx fun a => f a == some k := by
  induction edges generalizing p with
  | nil => exact List.Pairwise.nil
  | cons a edges ih =>
    -- An edge in front of all moves the places of the other ones on by one.
    have hshift : ∀ q : Nat → Bool, (∀ j, q j = true → f a ≠ some j) →
        ((edges.filterMap f).filter q).eraseDups.Pairwise fun j k =>
          (a :: edges).findIdx (fun a => f a == some j) < (a :: edges).findIdx fun a => f a == some k := by
      intro q hq
      apply (ih q).imp_of_mem
      intro j k hj hk hlt
      rw [List.mem_eraseDups, List.mem_filter] at hj hk
      rw [List.findIdx_cons, List.findIdx_cons, beq_false_of_ne (hq j hj.2), beq_false_of_ne (hq k hk.2)]
      exact Nat.succ_lt_succ hlt
    cases ha : f a with
    | none =>
      rw [List.filterMap_cons_none ha]
      exact hshift p fun j _ => by simp [ha]
    | some i =>
      rw [List.filterMap_cons_some ha]
      by_cases hp : p i = true
      · rw [List.filter_cons_of_pos hp, List.eraseDups_cons, List.filter_filter, List.pairwise_cons]
        refine ⟨fun k hk => ?_, hshift _ fun j hj => ?_⟩
        · rw [List.mem_eraseDups, List.mem_filter] at hk
          have hne : k ≠ i := by simpa using (Bool.and_eq_true_iff.1 hk.2).1
          rw [List.findIdx_cons, List.findIdx_cons, ha, beq_self_eq_true,
            beq_false_of_ne fun heq => hne (Option.some.inj heq).symm]
          exact Nat.succ_pos _
        · have hne : j ≠ i := by simpa using (Bool.and_eq_true_iff.1 hj).1
          rw [ha]
          exact fun heq => hne (Option.some.inj heq).symm
      · rw [List.filter_cons_of_neg hp]
        refine hshift p fun j hj heq => hp ?_
        rw [ha] at heq
        exact Option.some.inj heq ▸ hj

theorem pairwise_extensions : (c.extensions useful (i :: t)).Pairwise fun j k => c.choice i j < c.choice i k :=
  pairwise_findIdx_eraseDups c.position? (c.block i).succs _

/-- The paths below a trail are in the lexicographic order of their choices. -/
theorem pairwise_below (c : FlowChart) (goal i : Nat) (useful : Array Bool) (t : Trail) :
    (c.below goal useful (i :: t)).Pairwise fun u v => c.choices u < c.choices v := by
  suffices h : ∀ t, t ≠ [] → (c.below goal useful t).Pairwise fun u v => c.choices u < c.choices v from
    h (i :: t) (List.cons_ne_nil i t)
  intro t
  induction t using children_induction c useful with
  | step t ih =>
  intro ht
  obtain ⟨i, t, rfl⟩ := List.exists_cons_of_ne_nil ht
  rw [below_eq]
  split
  · exact List.pairwise_singleton _ _
  · rw [children, List.flatMap_map, List.pairwise_flatMap]
    refine ⟨fun j hj => ih _ (mem_children.2 ⟨j, hj, rfl⟩) (List.cons_ne_nil j _), ?_⟩
    -- Paths below two children make the same choices up to the trail, and then those of the children.
    apply pairwise_extensions.imp
    intro j k hlt u hu v hv
    obtain ⟨r, hr⟩ := (mem_below_iff.1 hu).1.prefix_choices
    obtain ⟨s, hs⟩ := (mem_below_iff.1 hv).1.prefix_choices
    rw [← hr, ← hs, choices, choices, List.append_assoc, List.append_assoc]
    apply List.append_left_lt
    exact List.cons_lt_cons_iff.2 (.inl hlt)

end PathReplay.FlowChart
