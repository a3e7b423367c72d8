import PathReplay.Word

/-!
# Windows of a register store

Every register is a window of some bits of one 128-bit store; names whose windows share a store are
aliases of each other. `Field.read` takes the window out of its store, `Field.write` puts a value into
it. `getLsbD_write` gives every bit after a write.
-/

namespace PathReplay

/-- A window of `bits` bits, `offset` bits above the bottom of one of `n` stores. -/
structure Field (n : Nat) where
  store : Fin n
  offset : Nat
  bits : Nat
  /-- A write clears every other bit of the store. -/
  zeroExtends : Bool := false
deriving DecidableEq, Repr

/-- The stores that hold the contents of a register file. -/
abbrev Stores (n : Nat) := Vector (BitVec 128) n

namespace Field

variable {n : Nat}

def read (f : Field n) (s : Stores n) : BitVec 128 :=
  (s[f.store] >>> f.offset) &&& Word.maskBits f.bits

/-- The store's contents after a write of `value`, cut to the window: within the window, the bits in which the
two differ are flipped. -/
def put (f : Field n) (old value : BitVec 128) : BitVec 128 :=
  let kept := if f.zeroExtends then 0 else old
  kept ^^^ ((((kept >>> f.offset) ^^^ value) &&& Word.maskBits f.bits) <<< f.offset)

/-- The stores after a write of `value`, cut to the window. -/
def write (f : Field n) (s : Stores n) (value : BitVec 128) : Stores n :=
  s.set f.store (f.put s[f.store] value)

/-- The window's width in bytes, rounded up. -/
def width (f : Field n) : Nat := (f.bits + 7) / 8

theorem getLsbD_maskBits (bits i : Nat) :
    (Word.maskBits bits).getLsbD i = (decide (i < 128) && decide (i < bits)) := by
  unfold Word.maskBits
  rw [BitVec.getLsbD_ushiftRight, BitVec.getLsbD_allOnes]
  by_cases h : i < 128 <;> by_cases h' : i < bits <;> simp [h, h'] <;> omega

/-- Bit `j` of the window is bit `offset + j` of its store. -/
theorem getLsbD_read (f : Field n) (s : Stores n) (j : Nat) :
    (f.read s).getLsbD j = (decide (j < f.bits) && s[f.store].getLsbD (f.offset + j)) := by
  simp only [read, BitVec.getLsbD_and, BitVec.getLsbD_ushiftRight, getLsbD_maskBits]
  by_cases h : j < 128
  · simp [h, Bool.and_comm]
  · simp only [h, decide_false, Bool.false_and, Bool.and_false]
    rw [BitVec.getLsbD_of_ge _ _ (by omega), Bool.and_false]

/-- A bit after a write: of the value inside the window, and outside it cleared or kept. -/
theorem getLsbD_put (f : Field n) (old value : BitVec 128) (k : Nat) (hk : k < 128) :
    (f.put old value).getLsbD k =
      if f.offset ≤ k ∧ k < f.offset + f.bits then value.getLsbD (k - f.offset)
      else !f.zeroExtends && old.getLsbD k := by
  have hs : ∀ x : BitVec 128, (x <<< f.offset).getLsbD k =
      (decide (f.offset ≤ k) && x.getLsbD (k - f.offset)) := by
    intro x; rw [BitVec.getLsbD_shiftLeft]
    by_cases h : k < f.offset
    · simp [h, hk, Nat.not_le.2 h]
    · simp [h, hk, Nat.not_lt.1 h]
  have hkept : (if f.zeroExtends then 0 else old).getLsbD k = (!f.zeroExtends && old.getLsbD k) := by
    cases f.zeroExtends <;> simp
  simp only [put, BitVec.getLsbD_xor, hs, BitVec.getLsbD_and, BitVec.getLsbD_ushiftRight,
    getLsbD_maskBits]
  by_cases h1 : f.offset ≤ k
  · rw [Nat.add_sub_cancel' h1, hkept]
    have h3 : k - f.offset < 128 := by omega
    by_cases h2 : k < f.offset + f.bits
    · have h4 : k - f.offset < f.bits := by omega
      simp [h1, h2, h3, h4]
    · have h4 : ¬ k - f.offset < f.bits := by omega
      simp [h1, h2, h4]
  · rw [hkept]; simp [h1]

/-- Only the window's own store changes. -/
theorem getElem_write_ne (f : Field n) (s : Stores n) (value : BitVec 128) {i : Fin n}
    (h : i ≠ f.store) : (f.write s value)[i] = s[i] := by
  have : f.store.val ≠ i.val := fun e => h (Fin.ext e.symm)
  simp [write, this]

theorem getElem_write_self (f : Field n) (s : Stores n) (value : BitVec 128) :
    (f.write s value)[f.store] = f.put s[f.store] value := by
  simp [write]

end Field
end PathReplay
