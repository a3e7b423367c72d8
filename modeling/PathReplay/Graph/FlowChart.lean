import Std.Data.ExtTreeMap
import PathReplay.Listing.Basic
import PathReplay.Error

/-!
# Flow charts

A `FlowChart` is the basic blocks of one function in the order of the listing. Blocks are known by their
position; an edge is an address and leads to the last block that starts there, or nowhere.
-/

namespace PathReplay

/-- The position of the last block of each start. -/
def indexBlocks (blocks : List BlockRecord) : Std.ExtTreeMap Address Nat compare :=
  blocks.zipIdx.foldl (fun m (b, i) => m.insert b.start i) ∅

theorem start_of_getElem?_foldl {a : Address} {i : Nat} (blocks : List BlockRecord) :
    ∀ (k : Nat) (m : Std.ExtTreeMap Address Nat compare),
      ((blocks.zipIdx k).foldl (fun m (b, i) => m.insert b.start i) m)[a]? = some i →
      m[a]? = some i ∨ ∃ j, ∃ h : j < blocks.length, i = k + j ∧ blocks[j].start = a := by
  induction blocks with
  | nil => exact fun _ _ h => .inl h
  | cons b rest ih =>
    intro k m h
    rw [List.zipIdx_cons, List.foldl_cons] at h
    rcases ih (k + 1) _ h with hm | ⟨j, hj, rfl, hs⟩
    · rw [Std.ExtTreeMap.getElem?_insert] at hm
      split at hm
      · rename_i hb
        refine .inr ⟨0, Nat.zero_lt_succ _, ?_, ?_⟩
        · simpa using (Option.some.inj hm).symm
        · simpa using hb
      · exact .inl hm
    · exact .inr ⟨j + 1, Nat.succ_lt_succ hj, by omega, hs⟩

/-- An address in the index is the start of the block at the position that the index gives. -/
theorem start_of_getElem?_indexBlocks {blocks : List BlockRecord} {a : Address} {i : Nat}
    (h : (indexBlocks blocks)[a]? = some i) : ∃ hi : i < blocks.length, blocks[i].start = a := by
  rcases start_of_getElem?_foldl blocks 0 ∅ h with h | ⟨j, hj, rfl, hs⟩
  · simp at h
  · exact ⟨by omega, by simpa using hs⟩

/-- The basic blocks of a function. -/
structure FlowChart where
  entry : Address
  blocks : Array BlockRecord
  /-- The position of the last block of each start. -/
  index : Std.ExtTreeMap Address Nat compare
  index_eq : index = indexBlocks blocks.toList

namespace FlowChart

def ofBlocks (entry : Address) (blocks : List BlockRecord) : FlowChart :=
  ⟨entry, blocks.toArray, indexBlocks blocks, rfl⟩

/-- The flow chart of the function that contains an address. -/
def ofListing (l : Listing) (a : Address) : Except Error FlowChart :=
  match l.functionAt? a with
  | some f => .ok (ofBlocks f.entry (l.blocksOf f.entry))
  | none => .error (.functionNotFound a)

def size (c : FlowChart) : Nat := c.blocks.size

/-- The block at a position. A position past the end has an empty one. -/
def block (c : FlowChart) (i : Nat) : BlockRecord := c.blocks.getD i ⟨0, 0, [], [], []⟩

/-- The position of the last block that starts at an address. -/
def position? (c : FlowChart) (start : Address) : Option Nat := c.index[start]?

theorem position?_lt {c : FlowChart} {a : Address} {i : Nat} (h : c.position? a = some i) :
    i < c.size := by
  rw [position?, c.index_eq] at h
  obtain ⟨hi, -⟩ := start_of_getElem?_indexBlocks h
  simpa [size] using hi

/-- The block that a start leads to starts there. -/
theorem start_block {c : FlowChart} {a : Address} {i : Nat} (h : c.position? a = some i) :
    (c.block i).start = a := by
  rw [position?, c.index_eq] at h
  obtain ⟨hi, hs⟩ := start_of_getElem?_indexBlocks h
  have hi' : i < c.blocks.size := by simpa using hi
  simpa [block, hi'] using hs

def startBelow? (c : FlowChart) (a : Address) : Option Address :=
  ((c.blocks.toList.map BlockRecord.start).filter (· ≤ a)).max?

/-- The position of the block that contains an address, of those that start nearest below it. -/
def find? (c : FlowChart) (a : Address) : Option Nat := do
  let start ← c.startBelow? a
  let i ← c.position? start
  if (c.block i).contains a then some i else none

def findBlock? (c : FlowChart) (a : Address) : Option BlockRecord := (c.find? a).map c.block

def resolve (c : FlowChart) (edges : List Address) : List Nat := edges.filterMap c.position?

/-- The blocks that control may go to from a block, or come from. -/
def neighbours (c : FlowChart) (reverse : Bool) (i : Nat) : List Nat :=
  c.resolve (if reverse then (c.block i).preds else (c.block i).succs)

theorem lt_of_mem_neighbours {c : FlowChart} {reverse : Bool} {i j : Nat}
    (h : j ∈ c.neighbours reverse i) : j < c.size := by
  obtain ⟨a, -, ha⟩ := List.mem_filterMap.1 h
  exact position?_lt ha

end FlowChart
end PathReplay
