import PathReplay.Proofs.Machine.Locations

/-!
# The stack below the stack pointer

* `Machine.below` : where the stack pointer is after a number of pushes; `below_push`, `wrap_below_add` : pushes and
  pops move along these places;
* `apart_below` : the slots of different pushes have no byte in common, also where the stack pointer wraps, as long as
  they are no more than the address space has room for;
* `registers_pushes`, `byte_pushes`, `readWord_pushes` : values pushed one after the other move the stack pointer, fill
  one slot each and change nothing besides.
-/

namespace PathReplay

/-- The last move of the stack pointer counts. -/
theorem Registers.withSp_withSp (r : Registers) (a b : Address) : (r.withSp a).withSp b = r.withSp b :=
  congrArg (fun stores => { r with stores }) (Field.write_write r.arch.stackField r.stores _ _)

namespace Machine

variable {m : Machine} {j k l n : Nat} {x : Address}

/-! ## Places on the stack -/

/-- Where the stack pointer is after `k` pushes. -/
def below (m : Machine) (k : Nat) : Address := m.arch.wrap (m.sp - UInt64.ofNat (k * m.pointerSize))

theorem below_zero (m : Machine) : m.below 0 = m.sp := by
  rw [below, Nat.zero_mul, show UInt64.ofNat 0 = 0 from rfl, UInt64.sub_zero]
  exact m.registers.wrap_sp

theorem below_congr {m' : Machine} (harch : m'.arch = m.arch) (hsp : m'.sp = m.sp) (k : Nat) :
    m'.below k = m.below k := by
  rw [below, below, pointerSize, pointerSize, harch, hsp]

theorem pointerSize_cases (m : Machine) : m.pointerSize = 4 ∨ m.pointerSize = 8 := by
  unfold pointerSize
  cases m.arch
  · exact .inl rfl
  · exact .inr rfl

theorem toNat_below (m : Machine) (hk : k * m.pointerSize ≤ 2 ^ (8 * m.pointerSize)) :
    (m.below k).toNat =
      (m.sp.toNat + (2 ^ (8 * m.pointerSize) - k * m.pointerSize)) % 2 ^ (8 * m.pointerSize) := by
  have hsp : m.sp.toNat < 2 ^ (8 * m.pointerSize) := m.registers.toNat_sp_lt
  rw [below, Arch.toNat_wrap, UInt64.toNat_sub, UInt64.toNat_ofNat']
  change _ % 2 ^ (8 * m.pointerSize) = _
  rcases m.pointerSize_cases with hsize | hsize <;> rw [hsize] at hk hsp ⊢ <;> omega

/-- Slots that are taken off again. -/
theorem wrap_below_add (m : Machine) (h : j ≤ k) :
    m.arch.wrap (m.below k + UInt64.ofNat (j * m.pointerSize)) = m.below (k - j) := by
  have hslots : UInt64.ofNat (k * m.pointerSize) =
      UInt64.ofNat ((k - j) * m.pointerSize) + UInt64.ofNat (j * m.pointerSize) := by
    rw [← UInt64.ofNat_add, ← Nat.add_mul, Nat.sub_add_cancel h]
  rw [below, Arch.wrap_add, below, hslots]
  congr 1
  grind

/-- The slots of different pushes have no byte in common, as long as the address space has room for them. -/
theorem apart_below (hne : k ≠ l) (hk : k < n) (hl : l < n) (hn : n * m.pointerSize ≤ 2 ^ (8 * m.pointerSize)) :
    (Location.memory (m.below (k + 1))).Apart m.arch m.pointerSize (.memory (m.below (l + 1))) := by
  have hle : ∀ {k}, k < n → (k + 1) * m.pointerSize ≤ 2 ^ (8 * m.pointerSize) := fun hk =>
    Nat.le_trans (Nat.mul_le_mul_right _ hk) hn
  have hk' := hle hk
  have hl' := hle hl
  have hsp : m.sp.toNat < 2 ^ (8 * m.pointerSize) := m.registers.toNat_sp_lt
  intro i hi hcovers
  change (m.below (l + 1) + UInt64.ofNat i - m.below (k + 1)).toNat < m.pointerSize at hcovers
  rw [UInt64.toNat_sub, UInt64.toNat_add, m.toNat_below hk', m.toNat_below hl', UInt64.toNat_ofNat'] at hcovers
  rcases m.pointerSize_cases with hsize | hsize <;> rw [hsize] at hk' hl' hn hsp hi hcovers <;> omega

/-! ## Pushes -/

theorem sp_push_eq_below (m : Machine) (v : UInt64) : (m.push v).sp = m.below 1 := by
  rw [sp_push, below, Nat.one_mul]

theorem below_push (m : Machine) (v : UInt64) (k : Nat) : (m.push v).below k = m.below (k + 1) := by
  rw [below, sp_push_eq_below, below, below, Nat.one_mul]
  show m.arch.wrap (m.arch.wrap (m.sp - UInt64.ofNat m.pointerSize) - UInt64.ofNat (k * m.pointerSize)) = _
  rw [Arch.wrap_sub, Nat.succ_mul, UInt64.ofNat_add]
  congr 1
  grind

/-- A push moves the stack pointer and fills the slot there. -/
theorem assigned_push (m : Machine) (v : UInt64) :
    Assigned (.memory (m.below 1)) m.pointerSize v (m.withSp (m.below 1)) (m.push v) := by
  have hwidth : m.pointerSize ≤ 8 := by unfold pointerSize; cases m.arch <;> decide
  have hbelow : m.below 1 = m.arch.wrap (m.sp - UInt64.ofNat m.pointerSize) := by rw [below, Nat.one_mul]
  rw [push, ← hbelow]
  exact (m.withSp (m.below 1)).assigned_writeWord (m.below 1) v hwidth

/-- Pushes change no register but the stack pointer. -/
theorem registers_pushes (values : List UInt64) (m : Machine) :
    (values.foldl push m).registers = m.registers.withSp (m.below values.length) := by
  induction values generalizing m with
  | nil =>
    rw [List.length_nil, below_zero]
    exact m.registers.withSp_sp.symm
  | cons v values ih =>
    rw [List.foldl_cons, ih, below_push, registers_push, Registers.withSp_withSp, List.length_cons]

/-- Pushes change no byte outside their slots. -/
theorem byte_pushes (values : List UInt64) (m : Machine)
    (hx : ∀ k < values.length, ¬ (Location.memory (m.below (k + 1))).Covers m.pointerSize x) :
    (values.foldl push m).memory.byte x = m.memory.byte x := by
  induction values generalizing m with
  | nil => rfl
  | cons v values ih =>
    have hfirst : (m.push v).memory.byte x = m.memory.byte x := (m.assigned_push v).byte x (hx 0 (Nat.succ_pos _))
    refine (ih (m.push v) fun k hk => ?_).trans hfirst
    rw [below_push]
    exact hx (k + 1) (Nat.succ_lt_succ hk)

/-- Every slot holds the value that was pushed there, cut to its width. -/
theorem readWord_pushes (values : List UInt64) (m : Machine)
    (hroom : values.length * m.pointerSize ≤ 2 ^ (8 * m.pointerSize)) {v : UInt64} (hv : values[k]? = some v) :
    ((values.foldl push m).readWord (m.below (k + 1)) m.pointerSize).toNat = v.toNat % 2 ^ (8 * m.pointerSize) := by
  induction values generalizing m k with
  | nil => simp at hv
  | cons w values ih =>
    cases k with
    | zero =>
      obtain rfl : w = v := by simpa using hv
      -- the pushes that follow lie below the slot
      have hkeeps : (values.foldl push (m.push w)).memory.read (m.below 1) (min m.pointerSize 8) =
          (m.push w).memory.read (m.below 1) (min m.pointerSize 8) := by
        refine Memory.read_congr fun i hi => byte_pushes values (m.push w) fun j hj => ?_
        rw [below_push]
        exact apart_below (Nat.succ_ne_zero j) (Nat.succ_lt_succ hj) (Nat.succ_pos _) hroom i
          (Nat.lt_of_lt_of_le hi (Nat.min_le_left _ _))
      have hword : (values.foldl push (m.push w)).readWord (m.below 1) m.pointerSize =
          (m.push w).readWord (m.below 1) m.pointerSize := by
        rw [readWord, readWord, Memory.readWord, hkeeps, Memory.readWord]
      rw [List.foldl_cons, hword]
      exact (m.assigned_push w).toNat_contents
    | succ k =>
      have hrest : values.length * m.pointerSize ≤ 2 ^ (8 * m.pointerSize) :=
        Nat.le_trans (Nat.mul_le_mul_right _ (Nat.le_succ _)) hroom
      rw [List.foldl_cons, ← below_push m w]
      exact ih (m.push w) hrest (by simpa using hv)

end Machine
end PathReplay
