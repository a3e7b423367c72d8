import PathReplay.Instruction.Checked
import PathReplay.Proofs.Instruction.Shifts

/-!
# Where arithmetic has results

* `Arithmetic.Checked.mask_eq`, `signBit_eq`, `signExtend_eq`, `toInt_eq` : the shifts that words of a width are made
  with stay within the word, for every width;
* `shiftLeft_eq`, `shiftRight_eq`, `shiftRightSigned_eq`, `rotateLeft_eq`, `rotateRight_eq` : the shifts and rotates
  that have a result, and that it is the one that is computed;
* `halves_eq`, `overflowsUnsigned_eq`, `joinHalves_eq`, `significant_eq`, `divide_eq`, `divideSigned_eq` : the same for
  the values of double width that are multiplied and divided.
-/

namespace PathReplay

namespace Arithmetic.Checked

variable {width n count x d : Nat} {a value : UInt64} {i : Int}

/-! ## Operations on machine integers -/

theorem shl_eq_some (a : UInt64) (h : n < 64) : shl a n = some (a <<< UInt64.ofNat n) := if_pos h

theorem shl_eq_none (a : UInt64) (h : 64 ≤ n) : shl a n = none := if_neg (Nat.not_lt.2 h)

theorem shr_eq_some (a : UInt64) (h : n < 64) : shr a n = some (a >>> UInt64.ofNat n) := if_pos h

theorem shr_eq_none (a : UInt64) (h : 64 ≤ n) : shr a n = none := if_neg (Nat.not_lt.2 h)

theorem sar_eq_some (i : Int) (h : n < 64) : sar i n = some (i >>> n) := if_pos h

theorem remainder_eq_some (x : Nat) (h : d ≠ 0) : remainder x d = some (x % d) := if_neg h

theorem remainder_of_eq_zero (x : Nat) (h : d = 0) : remainder x d = none := if_pos h

/-! ## Words of a given width -/

@[simp] theorem mask_eq (width : Nat) : mask width = some (Word.mask width) := by
  by_cases h : 8 ≤ width
  · rw [mask, if_pos h, Word.mask_of_le h]
  · rw [mask, if_neg h]
    have : width = 0 ∨ width = 1 ∨ width = 2 ∨ width = 3 ∨ width = 4 ∨ width = 5 ∨ width = 6 ∨ width = 7 := by omega
    rcases this with rfl | rfl | rfl | rfl | rfl | rfl | rfl | rfl <;> rfl

@[simp] theorem signBit_eq (value : UInt64) (width : Nat) : signBit value width = some (Word.signBit value width) := by
  have hlt : 8 * Word.signWidth width - 1 < 64 := by
    unfold Word.signWidth
    omega
  rw [signBit, shr_eq_some _ hlt, Option.map_some, Shift.lowBit_shiftRight value hlt, Word.signBit]

@[simp] theorem signExtend_eq (value : UInt64) (width : Nat) :
    signExtend value width = some (Word.signExtend value width) := by
  simp [signExtend, Word.signExtend]

@[simp] theorem toInt_eq (value : UInt64) (width : Nat) : toInt value width = some (Word.toInt value width) := by
  simp [toInt, Word.toInt]

@[simp] theorem resultFlags_eq (value : UInt64) (width : Nat) :
    resultFlags value width = some (Arithmetic.resultFlags value width) := by
  simp [resultFlags, Arithmetic.resultFlags]

/-! ## Shifts and rotates -/

theorem shiftedLeft_eq (width : Nat) (a : UInt64) (hlt : count < 64) :
    shiftedLeft width a count = some (Arithmetic.shiftLeft width a count).value := by
  unfold shiftedLeft Arithmetic.shiftLeft
  split <;> simp_all [shl_eq_some a hlt]

/-- The bit that goes last is looked for in the word, where it need not be. -/
theorem lastOut_eq (width : Nat) (a : UInt64) (count : Nat) : lastOut width a count =
    if count + 64 ≤ widthBits width then none
    else some (decide (count ≤ widthBits width) && lowBit (a >>> UInt64.ofNat (widthBits width - count))) := by
  unfold lastOut
  by_cases hle : count ≤ widthBits width
  · rw [if_pos hle]
    split
    · rw [shr_eq_none a (by omega), Option.map_none]
    · rw [shr_eq_some a (by omega), Option.map_some, decide_eq_true hle, Bool.true_and]
  · rw [if_neg hle, if_neg (by omega), decide_eq_false hle, Bool.false_and]

theorem shiftLeft_eq (width : Nat) (a : UInt64) (hlt : count < 64) : shiftLeft width a count =
    if count + 64 ≤ widthBits width then none else some (Arithmetic.shiftLeft width a count) := by
  rw [shiftLeft, shiftedLeft_eq width a hlt, lastOut_eq]
  split
  · rfl
  · simp [Arithmetic.shiftLeft]

theorem shiftRight_eq (width : Nat) (a : UInt64) (hlt : count < 64) :
    shiftRight width a count = some (Arithmetic.shiftRight width a count) := by
  simp [shiftRight, Arithmetic.shiftRight, shr_eq_some a hlt, shr_eq_some a (show count - 1 < 64 by omega)]

theorem shiftRightSigned_eq (width : Nat) (a : UInt64) (hlt : count < 64) :
    shiftRightSigned width a count = some (Arithmetic.shiftRightSigned width a count) := by
  have hmin : min count 63 = count := by omega
  have hmin' : min (count - 1) 63 = count - 1 := by omega
  simp [shiftRightSigned, Arithmetic.shiftRightSigned, hmin, hmin', sar_eq_some _ hlt,
    sar_eq_some _ (show count - 1 < 64 by omega)]

/-- A rotate has its count reduced by no bits at all, or moves bits back by more than a word. -/
abbrev Outruns (width count : Nat) : Prop :=
  widthBits width = 0 ∨ 0 < count % widthBits width ∧ count % widthBits width + 64 ≤ widthBits width

theorem rotateLeft_eq (width : Nat) (a : UInt64) (hlt : count < 64) :
    rotateLeft width a count = if Outruns width count then none else some (rotateLeft? width a count) := by
  have hrest : count % widthBits width ≤ count := Nat.mod_le _ _
  by_cases hbits : widthBits width = 0
  · rw [if_pos (.inl hbits)]
    simp [rotateLeft, remainder_of_eq_zero _ hbits]
  by_cases hzero : count % widthBits width = 0
  · rw [if_neg (by omega)]
    simp [rotateLeft, rotateLeft?, remainder_eq_some _ hbits, hzero]
  have hshl := shl_eq_some a (show count % widthBits width < 64 by omega)
  by_cases hfar : count % widthBits width + 64 ≤ widthBits width
  · rw [if_pos (by omega)]
    simp [rotateLeft, remainder_eq_some _ hbits, hzero, hshl,
      shr_eq_none a (show 64 ≤ widthBits width - count % widthBits width by omega)]
  · rw [if_neg (by omega)]
    simp [rotateLeft, rotateLeft?, remainder_eq_some _ hbits, hzero, hbits, hshl,
      shr_eq_some a (show widthBits width - count % widthBits width < 64 by omega)]

theorem rotateRight_eq (width : Nat) (a : UInt64) (hlt : count < 64) :
    rotateRight width a count = if Outruns width count then none else some (rotateRight? width a count) := by
  have hrest : count % widthBits width ≤ count := Nat.mod_le _ _
  by_cases hbits : widthBits width = 0
  · rw [if_pos (.inl hbits)]
    simp [rotateRight, remainder_of_eq_zero _ hbits]
  by_cases hzero : count % widthBits width = 0
  · rw [if_neg (by omega)]
    simp [rotateRight, rotateRight?, remainder_eq_some _ hbits, hzero]
  have hshr := shr_eq_some a (show count % widthBits width < 64 by omega)
  by_cases hfar : count % widthBits width + 64 ≤ widthBits width
  · rw [if_pos (by omega)]
    simp [rotateRight, remainder_eq_some _ hbits, hzero, hshr,
      shl_eq_none a (show 64 ≤ widthBits width - count % widthBits width by omega)]
  · rw [if_neg (by omega)]
    simp [rotateRight, rotateRight?, remainder_eq_some _ hbits, hzero, hbits, hshr,
      shl_eq_some _ (show 1 < 64 by decide), shl_eq_some a (show widthBits width - count % widthBits width < 64 by omega)]

/-! ## Products and quotients -/

/-- An operand with as many bits as a double-width value, or more. -/
abbrev Outsized (width : Nat) : Prop := 128 ≤ wordBits width

theorem halfShift_eq (h : wordBits width < 128) : halfShift width = wordBits width := by
  unfold halfShift
  unfold wordBits UInt64.size at h ⊢
  omega

theorem shrDouble_wordBits (x width : Nat) :
    shrDouble x (wordBits width) = if Outsized width then none else some (x >>> halfShift width) := by
  unfold shrDouble
  by_cases h : wordBits width < 128
  · rw [if_pos h, if_neg (Nat.not_le.2 h), halfShift_eq h]
  · rw [if_neg h, if_pos (Nat.not_lt.1 h)]

theorem shlDouble_wordBits (x width : Nat) : shlDouble x (wordBits width) =
    if Outsized width then none else some ((x <<< halfShift width) % doubleCount) := by
  unfold shlDouble
  by_cases h : wordBits width < 128
  · rw [if_pos h, if_neg (Nat.not_le.2 h), halfShift_eq h]
  · rw [if_neg h, if_pos (Nat.not_lt.1 h)]

theorem halves_eq (width n : Nat) :
    halves width n = if Outsized width then none else some (Arithmetic.halves width n) := by
  rw [halves, mask_eq, shrDouble_wordBits]
  split <;> rfl

theorem overflowsUnsigned_eq (width product : Nat) : overflowsUnsigned width product =
    if Outsized width then none else some (Arithmetic.overflowsUnsigned width product) := by
  rw [overflowsUnsigned, shrDouble_wordBits]
  split <;> rfl

@[simp] theorem overflowsSigned_eq (width : Nat) (product : Int) :
    overflowsSigned width product = some (Arithmetic.overflowsSigned width product) := by
  simp [overflowsSigned, Arithmetic.overflowsSigned]

theorem joinHalves_eq (width : Nat) (high low : UInt64) : joinHalves width high low =
    if Outsized width then none else some (Arithmetic.joinHalves width high low) := by
  rw [joinHalves, shlDouble_wordBits]
  split <;> rfl

/-- Bits at the top of a double-width value count that much more. -/
theorem bmod_shiftLeft_mod (x : Nat) {bits : Nat} (hpos : bits ≠ 0) (hlt : bits < 128) :
    Int.bmod ((x <<< (128 - bits) % doubleCount : Nat) : Int) doubleCount =
      2 ^ (128 - bits) * Int.bmod x (2 ^ bits) := by
  have hsplit : doubleCount = 2 ^ (128 - bits) * 2 ^ bits := by
    rw [← Nat.pow_add, Nat.sub_add_cancel (Nat.le_of_lt hlt)]
    rfl
  rw [Int.natCast_emod, Int.emod_bmod, Nat.shiftLeft_eq, Nat.mul_comm, Int.natCast_mul, hsplit,
    Int.mod_bmod_mul_of_pos _ _ (Nat.two_pow_pos _) (dvd_pow_self 2 hpos)]
  push_cast
  rfl

/-- Bits that are moved to the top of a double-width value and back keep their value in two's complement, unless there
are none. -/
theorem significant_eq (width dividend : Nat) : significant width dividend =
    if width * 16 % UInt32.size = 0 then none else some (Int.bmod dividend (1 <<< dividendBits width)) := by
  unfold significant dividendBits
  dsimp only
  generalize width * 16 % UInt32.size = bits
  by_cases hnone : bits = 0
  · subst hnone
    rfl
  rw [if_neg hnone]
  by_cases hlt : bits < 128
  · rw [if_pos hlt, if_pos ⟨Nat.pos_of_ne_zero hnone, hlt⟩, Nat.one_shiftLeft]
    simp only [shlDouble, sarDouble, if_pos (show 128 - bits < 128 by omega), Option.bind_eq_bind, Option.bind_some]
    rw [bmod_shiftLeft_mod dividend hnone hlt, Int.shiftRight_eq_div_pow]
    push_cast
    rw [Int.mul_ediv_cancel_left _ (Int.pow_ne_zero (by decide))]
  · rw [if_neg hlt, if_neg (fun h => hlt h.2)]
    rfl

theorem divide_eq (width dividend : Nat) {divisor : Nat} (h : divisor ≠ 0) :
    divide width dividend divisor = some (divide? width dividend divisor) := by
  unfold divide divide? quotient
  rw [remainder_eq_some _ h, if_neg h, if_neg h]
  by_cases hfits : (Word.mask width).toNat < dividend / divisor <;> simp [hfits]

theorem divideSigned_eq (width dividend : Nat) {divisor : Int} (h : divisor ≠ 0) : divideSigned width dividend divisor =
    if width * 16 % UInt32.size = 0 then none else some (divideSigned? width dividend divisor) := by
  unfold divideSigned divideSigned?
  rw [significant_eq, if_neg h]
  split
  · rfl
  · simp

end Arithmetic.Checked

end PathReplay
