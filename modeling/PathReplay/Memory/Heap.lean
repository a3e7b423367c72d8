import Std.Data.ExtTreeMap
import PathReplay.Word

/-!
# The heap

Allocations are handed out in ascending order from a base address, each followed by some slack. Space that
was freed is never handed out again. `Heap.live` holds the size of each live allocation by its address.
-/

namespace PathReplay

structure Heap where
  base : Address
  slack : UInt64
  /-- Where the next allocation goes. -/
  next : Address
  /-- The sizes of the live allocations, by address. -/
  live : Std.ExtTreeMap Address UInt64 compare

namespace Heap

def empty (base : Address) (slack : UInt64) : Heap := ⟨base, slack, base, ∅⟩

/-- The live allocations, lowest address first. -/
def toList (h : Heap) : List (Address × UInt64) := h.live.toList

def sizeOf? (h : Heap) (a : Address) : Option UInt64 := h.live[a]?

/-- The address just past an extent, at most the largest address. -/
def extentStop (e : Address × UInt64) : Address := Word.saturatingAdd e.1 e.2

/-- The end of the live allocation that reaches highest. -/
def stop? (h : Heap) : Option Address := (h.toList.map extentStop).max?

/-- The place after an extent and its slack. -/
def after (h : Heap) (a : Address) (size : UInt64) : Address :=
  Word.saturatingAdd (Word.saturatingAdd a size) h.slack

/-- An allocation and its address. One of size zero takes nothing. -/
def alloc (h : Heap) (size : UInt64) : Address × Heap :=
  if size = 0 then (h.next, h)
  else (h.next, { h with live := h.live.insert h.next size, next := h.after h.next size })

theorem fst_alloc (h : Heap) (size : UInt64) : (h.alloc size).1 = h.next := by
  unfold alloc; split <;> rfl

def following? (h : Heap) (a : Address) : Option Address :=
  (h.toList.find? fun e => Word.saturatingAdd a 1 ≤ e.1).map (·.1)

/-- An allocation given another size, with its address. The last one always grows in place. Another one
stays where it is if it fits below the allocation that follows it, and moves otherwise; then the size it
had is given too. An address without an allocation gets a new one. -/
def realloc (h : Heap) (a : Address) (size : UInt64) : (Address × Option UInt64) × Heap :=
  match h.live[a]? with
  | none => ((h.next, none), (h.alloc size).2)
  | some old =>
    match h.following? a with
    | some f =>
      if size > f - a then
        let h := { h with live := h.live.erase a }
        ((h.next, some old), (h.alloc size).2)
      else ((a, none), { h with live := h.live.insert a size })
    | none =>
      ((a, none), { h with live := h.live.insert a size, next := max h.next (h.after a size) })

def free (h : Heap) (a : Address) : Heap := { h with live := h.live.erase a }

def isLive (h : Heap) (a : Address) : Bool := h.live.contains a

@[simp] theorem live_free (h : Heap) (a : Address) : (h.free a).live = h.live.erase a := rfl

theorem isLive_eq_isSome (h : Heap) (a : Address) : h.isLive a = (h.sizeOf? a).isSome :=
  Std.ExtTreeMap.contains_eq_isSome_getElem?

end Heap
end PathReplay
