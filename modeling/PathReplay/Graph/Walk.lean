import PathReplay.Graph.FlowChart

/-!
# Walks over a flow chart

`FlowChart.walk` visits the blocks that can be reached from the roots, each once, along the edges or against
them. A block is visited when it is taken off the list of those pending; a depth first walk puts the blocks
after it in front of that list, a breadth first walk at its end.
-/

namespace PathReplay.FlowChart

def unvisited (c : FlowChart) (visited : List Nat) : Nat :=
  (List.range c.size).countP fun i => !visited.contains i

theorem unvisited_cons_lt (c : FlowChart) {visited : List Nat} {i : Nat} (hi : i < c.size)
    (hv : i ∉ visited) : c.unvisited (i :: visited) < c.unvisited visited := by
  unfold unvisited
  have hmem : i ∈ List.range c.size := List.mem_range.2 hi
  have hle : ∀ l : List Nat, l.countP (fun j => !(i :: visited).contains j) ≤
      l.countP fun j => !visited.contains j := by
    intro l
    refine List.countP_mono_left fun x _ h => ?_
    simp only [List.contains_cons, Bool.not_or, Bool.and_eq_true] at h
    exact h.2
  obtain ⟨l, r, hlr⟩ := List.append_of_mem hmem
  rw [hlr]
  simp only [List.countP_append, List.countP_cons]
  have h1 : (!(i :: visited).contains i) = false := by simp
  have h2 : (!visited.contains i) = true := by simp [hv]
  have := hle l
  have := hle r
  simp only [h1, h2, if_true, Bool.false_eq_true, if_false]
  omega

/-- The rest of a walk: the blocks still pending, and those visited so far, last one first. -/
def walkFrom (c : FlowChart) (reverse depthFirst : Bool) (pending visited : List Nat) : List Nat :=
  match pending with
  | [] => visited.reverse
  | i :: rest =>
    if _h : i ∈ visited ∨ c.size ≤ i then c.walkFrom reverse depthFirst rest visited
    else
      let next := (c.neighbours reverse i).filter fun j => !(i :: visited).contains j
      c.walkFrom reverse depthFirst (if depthFirst then next ++ rest else rest ++ next) (i :: visited)
termination_by (c.unvisited visited, pending.length)
decreasing_by
  · exact Prod.Lex.right _ (by simp)
  · exact Prod.Lex.left _ _ (c.unvisited_cons_lt (by omega) (fun hv => _h (.inl hv)))

def walk (c : FlowChart) (reverse depthFirst : Bool) (roots : List Nat) : List Nat :=
  c.walkFrom reverse depthFirst roots []

/-- Where a walk begins: at the block that contains an address; without one at the entry block, or, against
the edges, at every block from which control leaves the function. -/
def roots (c : FlowChart) (start : Option Address) (reverse : Bool) : List Nat :=
  match start, reverse with
  | some a, _ => (c.find? a).toList
  | none, true => (List.range c.size).filter fun i => (c.block i).isTerminal
  | none, false => (c.position? c.entry).toList

/-- The blocks of the function in the order of a walk. -/
def walkBlocks (c : FlowChart) (start : Option Address) (reverse depthFirst : Bool) : List BlockRecord :=
  (c.walk reverse depthFirst (c.roots start reverse)).map c.block

end PathReplay.FlowChart
