import PathReplay.Proofs.Memory.Reallocation

/-!
# How far the heap grows

* `Op.size?`, `place` : the bytes that a request asks for, and the address that it is given; `live_place` : a block of
  that size is live there;
* `Below.place_le_next` : it does not lie above the next free place;
* `Op.claims`, `Below.next_step_le` : how far up a request moves the next free place at most.
-/

namespace PathReplay.Heap

variable {h : Heap} {a : Address} {size : UInt64} {op : Op}

deriving instance DecidableEq for Op

def Op.size? : Op → Option UInt64
  | .alloc size => some size
  | .realloc _ size => some size
  | .free _ => none

/-- The address that a request is given. -/
def place (h : Heap) : Op → Address
  | .alloc size => (h.alloc size).1
  | .realloc a size => (h.realloc a size).1.1
  | .free _ => 0

/-- Whoever asks for some bytes is given the address of a live block of that many. -/
theorem live_place (hsize : op.size? = some size) (hpos : size ≠ 0) : (h.step op).live[h.place op]? = some size := by
  cases op with
  | alloc n =>
    obtain rfl := Option.some.inj hsize
    show (h.alloc n).2.live[(h.alloc n).1]? = some n
    rw [fst_alloc]
    exact h.live_alloc hpos
  | realloc a n =>
    obtain rfl := Option.some.inj hsize
    rcases h.getElem?_realloc_self a n with ⟨-, hzero, -⟩ | ⟨-, hlive⟩
    · exact absurd hzero hpos
    · exact hlive
  | free a => cases hsize

theorem Below.le_next (hb : h.Below) (ha : h.live[a]? = some size) : a ≤ h.next := by
  rcases hb a size ha with hlt | hlast
  · exact UInt64.le_of_lt hlt
  · exact hlast ▸ le_lastAddress a

theorem Below.place_le_next (hb : h.Below) (op : Op) : h.place op ≤ h.next := by
  cases op with
  | alloc size => exact UInt64.le_of_eq (h.fst_alloc size)
  | realloc a size =>
    show (h.realloc a size).1.1 ≤ h.next
    rcases h.realloc_cases a size with ⟨-, heq⟩ | ⟨old, f, -, -, -, heq⟩ | ⟨old, f, hold, -, -, heq⟩ |
      ⟨old, hold, -, heq⟩ <;> rw [heq]
    · exact UInt64.le_refl _
    · exact UInt64.le_refl _
    · exact hb.le_next hold
    · exact hb.le_next hold
  | free a => exact UInt64.zero_le

/-! ## Growth -/

/-- The bytes that a request can take from the heap, with the slack that follows them. -/
def Op.claims (slack : UInt64) (op : Op) : Nat := (op.size?.getD 0).toNat + slack.toNat

theorem toNat_after_le (h : Heap) (a : Address) (size : UInt64) :
    (h.after a size).toNat ≤ a.toNat + size.toNat + h.slack.toNat := by
  rw [toNat_after]
  omega

theorem next_alloc_le (h : Heap) (size : UInt64) :
    (h.alloc size).2.next.toNat ≤ h.next.toNat + (size.toNat + h.slack.toNat) := by
  unfold Heap.alloc
  split
  · exact Nat.le_add_right _ _
  · have := h.toNat_after_le h.next size
    show (h.after h.next size).toNat ≤ _
    omega

/-- A request moves the next free place up by what it claims at most. -/
theorem Below.next_step_le (hb : h.Below) (op : Op) :
    (h.step op).next.toNat ≤ h.next.toNat + op.claims h.slack := by
  cases op with
  | alloc size => exact h.next_alloc_le size
  | realloc a size =>
    simp only [Heap.step, Op.claims, Op.size?, Option.getD_some]
    rcases h.realloc_cases a size with ⟨-, heq⟩ | ⟨old, f, -, -, -, heq⟩ | ⟨old, f, -, -, -, heq⟩ |
      ⟨old, hold, -, heq⟩ <;> rw [heq]
    · exact h.next_alloc_le size
    · exact (h.free a).next_alloc_le size
    · exact Nat.le_add_right _ _
    · have hle := UInt64.le_iff_toNat_le.1 (hb.le_next hold)
      have hafter := h.toNat_after_le a size
      rw [Word.toNat_max]
      omega
  | free a => exact Nat.le_add_right _ _

end PathReplay.Heap
