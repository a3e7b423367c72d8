import PathReplay.Graph.Walk

/-!
# Paths to a block

A `Trail` is a path from the entry block, its last block first, so that paths share what they have in
common. `FlowChart.nextTrail?` takes trails off a stack and puts those that go on by one block in their place,
until one ends at the goal. `FlowChart.trails` are all the paths to the block that contains an address, in the
order in which that finds them. Only blocks from which the goal can be reached are explored, and no path has a
block twice.
-/

namespace PathReplay

/-- The positions of a path's blocks, last one first. -/
abbrev Trail := List Nat

/-- The positions of a path's blocks, entry block first. -/
def Trail.path (t : Trail) : List Nat := t.reverse

namespace FlowChart

/-- The blocks from which the goal is reached against the edges. -/
def reaching (c : FlowChart) (goal : Nat) : Array Bool :=
  let reached := c.walk true true [goal]
  Array.ofFn fun i : Fin c.size => reached.contains i.val

/-- The blocks that a path may go on to. -/
def extensions (c : FlowChart) (useful : Array Bool) (t : Trail) : List Nat :=
  match t with
  | [] => []
  | i :: _ =>
    ((c.neighbours false i).filter fun j => useful.getD j false && !t.contains j).eraseDups

theorem mem_extensions {c : FlowChart} {useful : Array Bool} {i j : Nat} {t : Trail} :
    j ∈ c.extensions useful (i :: t) ↔
      j ∈ c.neighbours false i ∧ useful.getD j false = true ∧ j ∉ i :: t := by
  simp only [extensions, List.mem_eraseDups, List.mem_filter, Bool.and_eq_true, Bool.not_eq_true',
    ← Bool.not_eq_true, List.contains_iff_mem]

theorem lt_of_mem_extensions {c : FlowChart} {useful : Array Bool} {j : Nat} {t : Trail}
    (h : j ∈ c.extensions useful t) : j < c.size ∧ j ∉ t := by
  cases t with
  | nil => simp [extensions] at h
  | cons i t =>
    rw [mem_extensions] at h
    exact ⟨lt_of_mem_neighbours h.1, h.2.2⟩

theorem nodup_eraseDups (l : List Nat) : l.eraseDups.Nodup := by
  match l with
  | [] => simp
  | a :: l =>
    rw [List.eraseDups_cons, List.nodup_cons]
    refine ⟨fun h => ?_, nodup_eraseDups _⟩
    simp [List.mem_eraseDups] at h
termination_by l.length
decreasing_by simp only [List.length_cons]; exact Nat.lt_succ_of_le (List.length_filter_le _ _)

theorem length_extensions_le (c : FlowChart) (useful : Array Bool) (t : Trail) :
    (c.extensions useful t).length ≤ c.size := by
  have hnodup : (c.extensions useful t).Nodup := by
    unfold extensions
    split
    · exact List.nodup_nil
    · exact nodup_eraseDups _
  have hsub : c.extensions useful t ⊆ List.range c.size :=
    fun j hj => List.mem_range.2 (lt_of_mem_extensions hj).1
  simpa using hnodup.length_le_of_subset hsub

/-- The paths that go on from a trail by one block. -/
def children (c : FlowChart) (useful : Array Bool) (t : Trail) : List Trail :=
  (c.extensions useful t).map (· :: t)

/-- A bound on how many trails the search from a stack still takes off it: a trail that misses `n` blocks has
at most as many children as there are blocks, and each of them misses fewer. -/
def pending (c : FlowChart) : List Trail → Nat
  | [] => 0
  | t :: stack => (c.size + 1).pow (c.unvisited t) + c.pending stack

theorem pending_cons (c : FlowChart) (t : Trail) (stack : List Trail) :
    c.pending (t :: stack) = (c.size + 1).pow (c.unvisited t) + c.pending stack := rfl

theorem pending_append (c : FlowChart) (ts us : List Trail) :
    c.pending (ts ++ us) = c.pending ts + c.pending us := by
  induction ts with
  | nil => exact (Nat.zero_add _).symm
  | cons t ts ih => rw [List.cons_append, pending_cons, pending_cons, ih, Nat.add_assoc]

theorem pending_lt_cons (c : FlowChart) (t : Trail) (stack : List Trail) :
    c.pending stack < c.pending (t :: stack) := by
  rw [pending_cons]
  exact Nat.lt_add_of_pos_left (Nat.pow_pos (Nat.succ_pos c.size))

theorem pending_extended_le (c : FlowChart) (t : Trail) (js : List Nat)
    (h : ∀ j ∈ js, j < c.size ∧ j ∉ t) :
    c.pending (js.map (· :: t)) ≤ js.length * (c.size + 1).pow (c.unvisited t - 1) := by
  induction js with
  | nil => simp [pending]
  | cons j js ih =>
    obtain ⟨hlt, hnot⟩ := h j List.mem_cons_self
    have hfewer := c.unvisited_cons_lt hlt hnot
    have hhead : (c.size + 1).pow (c.unvisited (j :: t)) ≤ (c.size + 1).pow (c.unvisited t - 1) :=
      Nat.pow_le_pow_right (Nat.succ_pos _) (by omega)
    have htail := ih fun k hk => h k (List.mem_cons_of_mem _ hk)
    rw [List.map_cons, pending_cons, List.length_cons, Nat.succ_mul]
    omega

theorem pending_children_lt (c : FlowChart) (useful : Array Bool) (t : Trail) (stack : List Trail) :
    c.pending (c.children useful t ++ stack) < c.pending (t :: stack) := by
  rw [pending_append, pending_cons]
  refine Nat.add_lt_add_right ?_ _
  cases hjs : c.extensions useful t with
  | nil =>
    rw [children, hjs]
    exact Nat.pow_pos (Nat.succ_pos c.size)
  | cons j js =>
    have hmem : ∀ k ∈ c.extensions useful t, k < c.size ∧ k ∉ t := fun _ => lt_of_mem_extensions
    obtain ⟨hlt, hnot⟩ := hmem j (hjs ▸ List.mem_cons_self)
    have hfewer := c.unvisited_cons_lt hlt hnot
    calc c.pending (c.children useful t)
        ≤ (c.extensions useful t).length * (c.size + 1).pow (c.unvisited t - 1) :=
          c.pending_extended_le t _ hmem
      _ ≤ c.size * (c.size + 1).pow (c.unvisited t - 1) :=
          Nat.mul_le_mul_right _ (c.length_extensions_le useful t)
      _ < (c.size + 1) * (c.size + 1).pow (c.unvisited t - 1) :=
          Nat.mul_lt_mul_of_pos_right (Nat.lt_succ_self _) (Nat.pow_pos (Nat.succ_pos _))
      _ = (c.size + 1).pow (c.unvisited t - 1 + 1) := Nat.pow_succ'.symm
      _ = (c.size + 1).pow (c.unvisited t) := by rw [Nat.sub_add_cancel (by omega)]

/-- The next path to the goal that the trails on a stack lead to, and the stack after it. The topmost trail is
followed first. -/
def nextTrail? (c : FlowChart) (goal : Nat) (useful : Array Bool) :
    List Trail → Option (Trail × List Trail)
  | [] => none
  | t :: stack =>
    if t.head? = some goal then some (t, stack)
    else c.nextTrail? goal useful (c.children useful t ++ stack)
termination_by stack => c.pending stack
decreasing_by exact c.pending_children_lt useful t stack

theorem pending_nextTrail?_lt {c : FlowChart} {goal : Nat} {useful : Array Bool} {stack rest : List Trail}
    {t : Trail} (h : c.nextTrail? goal useful stack = some (t, rest)) :
    c.pending rest < c.pending stack := by
  fun_induction nextTrail? c goal useful stack with
  | case1 => simp at h
  | case2 t stack hgoal =>
    obtain ⟨rfl, rfl⟩ := Prod.mk.inj (Option.some.inj h)
    exact c.pending_lt_cons t stack
  | case3 t stack hgoal ih => exact Nat.lt_trans (ih h) (c.pending_children_lt useful t stack)

/-- The paths to the goal that the trails on a stack lead to. -/
def trailsOn (c : FlowChart) (goal : Nat) (useful : Array Bool) (stack : List Trail) : List Trail :=
  match _h : c.nextTrail? goal useful stack with
  | none => []
  | some (t, rest) => t :: c.trailsOn goal useful rest
termination_by c.pending stack
decreasing_by exact pending_nextTrail?_lt _h

/-- The first `n` of the paths to the goal that the trails on a stack lead to. -/
def firstTrailsOn (c : FlowChart) (goal : Nat) (useful : Array Bool) : Nat → List Trail → List Trail
  | 0, _ => []
  | n + 1, stack =>
    match c.nextTrail? goal useful stack with
    | none => []
    | some (t, rest) => t :: c.firstTrailsOn goal useful n rest

/-- The stack on which a search begins: the entry block, if the goal can be reached from it. -/
def firstStack (c : FlowChart) (useful : Array Bool) : List Trail :=
  ((c.position? c.entry).filter fun e => useful.getD e false).toList.map ([·])

def trails (c : FlowChart) (a : Address) : List Trail :=
  match c.find? a with
  | some goal =>
    let useful := c.reaching goal
    c.trailsOn goal useful (c.firstStack useful)
  | none => []

def firstTrails (c : FlowChart) (a : Address) (n : Nat) : List Trail :=
  match c.find? a with
  | some goal =>
    let useful := c.reaching goal
    c.firstTrailsOn goal useful n (c.firstStack useful)
  | none => []

def firstTrail? (c : FlowChart) (a : Address) : Option Trail := (c.firstTrails a 1).head?

/-- The starts of a path's blocks, entry block first. -/
def starts (c : FlowChart) (t : Trail) : List Address := t.path.map fun i => (c.block i).start

end FlowChart
end PathReplay
