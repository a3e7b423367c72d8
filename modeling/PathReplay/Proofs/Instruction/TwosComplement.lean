import Mathlib.Data.Nat.Bitwise
import PathReplay.Instruction.Arithmetic

/-!
# Sums and differences against two's complement

* `Word.toNat_and_mask`, `Word.signBit_eq`, `Word.toNat_signExtend`, `Word.toInt_eq` : the low bytes of a word, their
  sign bit, their sign extension and their value in two's complement as arithmetic;
* `Arithmetic.overflowsSigned_eq` : what overflows is what lies outside the range of the width;
* `Arithmetic.exactResult` : the result of an operation by its exact values: without sign, in two's complement, and on
  the low four bits;
* `Arithmetic.sum_eq`, `Arithmetic.difference_eq` : sums and differences have these results.
-/

namespace PathReplay

namespace Word

variable {width : Nat} {v : UInt64}

/-- The values of a width come in two halves, and each is a multiple of the sixteen values of a nibble. -/
theorem exists_halves (h : 1 ≤ width) :
    ∃ k, 0 < k ∧ 2 ^ (8 * width) = 256 * k ∧ 2 ^ (8 * width - 1) = 128 * k := by
  obtain ⟨n, rfl⟩ := Nat.exists_eq_add_of_le h
  refine ⟨2 ^ (8 * n), Nat.two_pow_pos _, ?_, ?_⟩
  · rw [show 8 * (1 + n) = 8 + 8 * n by omega, Nat.pow_add]
  · rw [show 8 * (1 + n) - 1 = 7 + 8 * n by omega, Nat.pow_add]

theorem two_pow_dvd (h : width ≤ 8) : 2 ^ (8 * width) ∣ 2 ^ 64 := Nat.pow_dvd_pow 2 (by omega)

theorem toNat_ofNat_mod (h : width ≤ 8) (n : Nat) : (UInt64.ofNat n).toNat % 2 ^ (8 * width) = n % 2 ^ (8 * width) := by
  rw [UInt64.toNat_ofNat', Nat.mod_mod_of_dvd _ (two_pow_dvd h)]

theorem toNat_and_mask (v : UInt64) (h : width ≤ 8) : (v &&& mask width).toNat = v.toNat % 2 ^ (8 * width) := by
  rw [UInt64.toNat_and, toNat_mask h, Nat.one_shiftLeft, Nat.and_two_pow_sub_one_eq_mod]

theorem and_mask_of_lt (h : width ≤ 8) (hv : v.toNat < 2 ^ (8 * width)) : v &&& mask width = v := by
  apply UInt64.toNat_inj.1
  rw [toNat_and_mask v h, Nat.mod_eq_of_lt hv]

/-- The top bit of a value of a width tells whether it lies in the upper half. -/
theorem testBit_top (hpos : 1 ≤ width) {n : Nat} (hn : n < 2 ^ (8 * width)) :
    n.testBit (8 * width - 1) = decide (2 ^ (8 * width - 1) ≤ n) := by
  obtain ⟨k, hk, hcount, hhalf⟩ := exists_halves hpos
  rw [Nat.testBit_eq_decide_div_mod_eq, decide_eq_decide, hhalf]
  rw [hcount] at hn
  have hupper : n / (128 * k) < 2 := by
    rw [Nat.div_lt_iff_lt_mul (by omega)]
    omega
  have hlower : 1 ≤ n / (128 * k) ↔ 128 * k ≤ n := Nat.one_le_div_iff (by omega)
  generalize n / (128 * k) = q at *
  omega

/-- The sign bit of a value of a width tells whether it lies in the upper half. -/
theorem signBit_eq (hpos : 1 ≤ width) (hle : width ≤ 8) (hv : v.toNat < 2 ^ (8 * width)) :
    signBit v width = decide (2 ^ (8 * width - 1) ≤ v.toNat) := by
  rw [signBit, signWidth_of_mem hpos hle]
  exact testBit_top hpos hv

/-- A value of a width in two's complement. -/
theorem bmod_eq (hpos : 1 ≤ width) {n : Nat} (hn : n < 2 ^ (8 * width)) :
    Int.bmod n (2 ^ (8 * width)) =
      if 2 ^ (8 * width - 1) ≤ n then (n : Int) - (2 ^ (8 * width) : Nat) else n := by
  obtain ⟨k, hk, hcount, hhalf⟩ := exists_halves hpos
  rw [hcount] at hn ⊢
  rw [Int.bmod_def, hhalf, Int.emod_eq_of_lt (by omega) (by exact_mod_cast hn)]
  split <;> split <;> omega

/-- Only the low bits of a number count in two's complement. -/
theorem bmod_mod (n bits : Nat) : Int.bmod (n % 2 ^ bits : Nat) (2 ^ bits) = Int.bmod n (2 ^ bits) := by
  rw [Int.natCast_emod, Int.emod_bmod]

/-- A number is its own value in two's complement if it lies in the range of the width. -/
theorem bmod_eq_self_iff (hpos : 1 ≤ width) {i : Int} :
    Int.bmod i (2 ^ (8 * width)) = i ↔ -2 ^ (8 * width - 1) ≤ i ∧ i < 2 ^ (8 * width - 1) := by
  obtain ⟨k, hk, hcount, hhalf⟩ := exists_halves hpos
  have hhalf' : (2 : Int) ^ (8 * width - 1) = 128 * k := by exact_mod_cast hhalf
  rw [hhalf', hcount]
  constructor
  · intro h
    have hlo := Int.le_bmod (x := i) (m := 256 * k) (by omega)
    have hhi := Int.bmod_lt (x := i) (m := 256 * k) (by omega)
    omega
  · intro h
    exact Int.bmod_eq_of_le (by omega) (by omega)

theorem toNat_not_mask (h : width ≤ 8) : (~~~(mask width)).toNat = 2 ^ 64 - 2 ^ (8 * width) := by
  have hcount : 2 ^ (8 * width) ≤ 2 ^ 64 := Nat.pow_le_pow_right (by decide) (by omega)
  have hpos : 0 < 2 ^ (8 * width) := Nat.two_pow_pos _
  rw [UInt64.toNat_not, toNat_mask h, Nat.one_shiftLeft, UInt64.size]
  omega

/-- The bits of a value of a width and those above the width do not overlap. -/
theorem toNat_or_not_mask (h : width ≤ 8) (hv : v.toNat < 2 ^ (8 * width)) :
    (v ||| ~~~(mask width)).toNat = v.toNat + (2 ^ 64 - 2 ^ (8 * width)) := by
  have habove : (2 : Nat) ^ 64 - 2 ^ (8 * width) = 2 ^ (8 * width) * (2 ^ (64 - 8 * width) - 1) := by
    rw [Nat.mul_sub, ← Nat.pow_add, Nat.mul_one, show 8 * width + (64 - 8 * width) = 64 by omega]
  rw [UInt64.toNat_or, toNat_not_mask h, habove, Nat.or_comm, ← Nat.two_pow_add_eq_or_of_lt hv, Nat.add_comm]

/-- Extending the sign gives the word of the value in two's complement. A value without any bytes is zero, and one of
more than eight bytes is not negative. -/
theorem toNat_signExtend (v : UInt64) (width : Nat) :
    ((signExtend v width).toNat : Int) = Int.bmod v.toNat (2 ^ (8 * width)) % 2 ^ 64 := by
  have hlt := v.toNat_lt
  rcases Nat.eq_zero_or_pos width with rfl | hpos
  · have hlow : v &&& mask 0 = 0 := by
      apply UInt64.toNat_inj.1
      rw [toNat_and_mask v (by decide), Nat.mul_zero, Nat.pow_zero, Nat.mod_one]
      rfl
    have hzero : signExtend v 0 = 0 := by
      rw [signExtend, hlow]
      rfl
    rw [hzero, Nat.mul_zero, Nat.pow_zero, Int.bmod_one]
    rfl
  rcases Nat.lt_or_ge 8 width with hwide | hle
  · have hcount : (2 : Nat) ^ 65 ≤ 2 ^ (8 * width) := Nat.pow_le_pow_right (by decide) (by omega)
    have hsame : signExtend v width = v := by
      have hall : v &&& 0xFFFFFFFFFFFFFFFF = v := UInt64.and_neg_one
      have hnone : v ||| ~~~0xFFFFFFFFFFFFFFFF = v := UInt64.or_zero
      rw [signExtend, mask_of_le (by omega), hall, hnone, ite_self]
    rw [hsame, Int.bmod_eq_of_le (by omega) (by omega)]
    omega
  · have hn : (v &&& mask width).toNat < 2 ^ (8 * width) := by
      rw [toNat_and_mask v hle]
      exact Nat.mod_lt _ (Nat.two_pow_pos _)
    have hcount : (2 : Nat) ^ (8 * width) ≤ 2 ^ 64 := Nat.pow_le_pow_right (by decide) (by omega)
    have hlow : Int.bmod v.toNat (2 ^ (8 * width)) = Int.bmod (v &&& mask width).toNat (2 ^ (8 * width)) := by
      rw [toNat_and_mask v hle, bmod_mod]
    rw [hlow, bmod_eq hpos hn, signExtend, signBit_eq hpos hle hn]
    split
    · rename_i hneg
      rw [if_pos (of_decide_eq_true hneg), toNat_or_not_mask hle hn]
      omega
    · rename_i hneg
      rw [if_neg (by simpa using hneg)]
      omega

theorem toNat_ofInt (i : Int) : ((ofInt i).toNat : Int) = i % 2 ^ 64 := by
  have hlt := Int.emod_lt_of_pos i (b := 2 ^ 64) (by decide)
  have hpos := Int.emod_nonneg i (b := 2 ^ 64) (by decide)
  rw [ofInt, UInt64.ofInt, UInt64.toNat_ofNat', Nat.mod_eq_of_lt (by omega), Int.toNat_of_nonneg hpos]

/-- The word of an integer has its low bytes. -/
theorem bmod_toNat_ofInt (h : width ≤ 8) (i : Int) :
    Int.bmod (ofInt i).toNat (2 ^ (8 * width)) = Int.bmod i (2 ^ (8 * width)) := by
  rw [toNat_ofInt, ← Int.bmod_bmod_of_dvd (two_pow_dvd h)]
  exact (congrArg (Int.bmod · _) (Int.emod_bmod i (2 ^ 64))).trans (Int.bmod_bmod_of_dvd (two_pow_dvd h))

theorem toInt_toInt64 (w : UInt64) : w.toInt64.toInt = Int.bmod w.toNat (2 ^ 64) :=
  BitVec.toInt_eq_toNat_bmod w.toBitVec

/-- The low bytes of a word in two's complement. -/
theorem toInt_eq (h : width ≤ 8) (v : UInt64) : toInt v width = Int.bmod v.toNat (2 ^ (8 * width)) := by
  have hcount : (2 : Nat) ^ (8 * width) ≤ 2 ^ 64 := Nat.pow_le_pow_right (by decide) (by omega)
  have hlo := Int.le_bmod (x := v.toNat) (m := 2 ^ (8 * width)) (Nat.two_pow_pos _)
  have hhi := Int.bmod_lt (x := v.toNat) (m := 2 ^ (8 * width)) (Nat.two_pow_pos _)
  have hall : Int.bmod (Int.bmod v.toNat (2 ^ (8 * width))) (2 ^ 64) = Int.bmod v.toNat (2 ^ (8 * width)) := by
    rw [show (2 : Nat) ^ 64 = 18446744073709551616 from rfl] at hcount ⊢
    exact Int.bmod_eq_of_le (by omega) (by omega)
  rw [toInt, toInt_toInt64, toNat_signExtend]
  exact (Int.emod_bmod ..).trans hall

end Word

namespace Arithmetic

variable {width : Nat} {a b value : UInt64}

/-- A signed product overflows if it does not lie in the range of the width. -/
theorem overflowsSigned_eq (hpos : 1 ≤ width) (hle : width ≤ 8) (product : Int) :
    overflowsSigned width product =
      decide ¬ (-2 ^ (8 * width - 1) ≤ product ∧ product < 2 ^ (8 * width - 1)) := by
  rw [overflowsSigned, Word.toInt_eq hle, Word.bmod_toNat_ofInt hle, Bool.eq_iff_iff, bne_iff_ne, decide_eq_true_eq,
    ne_eq, Word.bmod_eq_self_iff hpos]

/-- The result of an operation with these exact values: of its operands without sign, of its operands in two's
complement, and of their low four bits. Carry, overflow and adjust tell which of them leave their range. -/
def exactResult (width : Nat) (unsigned signed nibble : Int) : Result :=
  let bound : Int := 2 ^ (8 * width)
  let half : Int := 2 ^ (8 * width - 1)
  let n := (unsigned % bound).toNat
  { value := UInt64.ofNat n
    flags :=
      [(.carry, decide ¬ (0 ≤ unsigned ∧ unsigned < bound)), (.overflow, decide ¬ (-half ≤ signed ∧ signed < half)),
        (.adjust, decide ¬ (0 ≤ nibble ∧ nibble < 16)), (.zero, decide (n = 0)), (.sign, n.testBit (8 * width - 1)),
        (.parity, (List.range 8).countP n.testBit % 2 == 0)] }

theorem carriesOutOfNibble_eq (a b result : UInt64) :
    carriesOutOfNibble a b result = decide ((a.toNat / 16 + b.toNat / 16 + result.toNat / 16) % 2 = 1) := by
  have hbit : ((a ^^^ b ^^^ result) &&& 0x10).toNat = ((a ^^^ b ^^^ result).toNat.testBit 4).toNat * 2 ^ 4 := by
    rw [UInt64.toNat_and, show (0x10 : UInt64).toNat = 2 ^ 4 from rfl, Nat.and_two_pow]
  rw [UInt64.toNat_xor, UInt64.toNat_xor, Nat.testBit_xor, Nat.testBit_xor] at hbit
  simp only [Nat.testBit_eq_decide_div_mod_eq] at hbit
  rw [carriesOutOfNibble, Bool.eq_iff_iff, bne_iff_ne, Ne, ← UInt64.toNat_inj, hbit, decide_eq_true_eq]
  rcases Nat.mod_two_eq_zero_or_one (a.toNat / 16) with ha | ha <;>
    rcases Nat.mod_two_eq_zero_or_one (b.toNat / 16) with hb | hb <;>
    rcases Nat.mod_two_eq_zero_or_one (result.toNat / 16) with hr | hr <;> simp [ha, hb, hr] <;> omega

/-- The flags that tell the properties of a value of the width. -/
theorem resultFlags_eq (hpos : 1 ≤ width) (hle : width ≤ 8) (hlt : value.toNat < 2 ^ (8 * width)) :
    resultFlags value width =
      [(.zero, decide (value.toNat = 0)), (.sign, value.toNat.testBit (8 * width - 1)),
        (.parity, (List.range 8).countP value.toNat.testBit % 2 == 0)] := by
  have hmask : value &&& Word.mask width = value := by
    apply UInt64.toNat_inj.1
    rw [Word.toNat_and_mask value hle, Nat.mod_eq_of_lt hlt]
  have hzero : (value == 0) = decide (value.toNat = 0) := by
    rw [Bool.eq_iff_iff, beq_iff_eq, decide_eq_true_eq, ← UInt64.toNat_inj]
    rfl
  simp only [resultFlags, hmask, hzero]
  rw [Word.signBit, Word.signWidth_of_mem hpos hle]
  rfl

/-- A value of the width with the flags of its own and the three of its exact values. -/
theorem eq_exactResult (hpos : 1 ≤ width) (hle : width ≤ 8) {unsigned signed nibble : Int}
    {carry overflow adjust : Bool}
    (hvalue : (value.toNat : Int) = unsigned % 2 ^ (8 * width))
    (hcarry : carry = decide ¬ (0 ≤ unsigned ∧ unsigned < 2 ^ (8 * width)))
    (hoverflow : overflow = decide ¬ (-2 ^ (8 * width - 1) ≤ signed ∧ signed < 2 ^ (8 * width - 1)))
    (hadjust : adjust = decide ¬ (0 ≤ nibble ∧ nibble < 16)) :
    ({ value
       flags := (.carry, carry) :: (.overflow, overflow) :: (.adjust, adjust) :: resultFlags value width } : Result) =
      exactResult width unsigned signed nibble := by
  have hbound : (unsigned % 2 ^ (8 * width)) < 2 ^ (8 * width) := Int.emod_lt_of_pos _ (Int.pow_pos (by decide))
  have hlt : value.toNat < 2 ^ (8 * width) := by
    rw [← hvalue] at hbound
    exact_mod_cast hbound
  simp only [exactResult, resultFlags_eq hpos hle hlt, ← hvalue, Int.toNat_natCast, UInt64.ofNat_toNat, hcarry,
    hoverflow, hadjust]

/-- A remainder of a number that is less than one bound out of range. -/
theorem emod_cases {e n : Int} (hlo : -n ≤ e) (hhi : e < 2 * n) :
    0 ≤ e ∧ e < n ∧ e % n = e ∨ n ≤ e ∧ e % n = e - n ∨ e < 0 ∧ e % n = e + n := by
  by_cases hneg : e < 0
  · refine .inr (.inr ⟨hneg, ?_⟩)
    rw [← Int.add_emod_right, Int.emod_eq_of_lt (by omega) (by omega)]
  by_cases hlt : e < n
  · exact .inl ⟨by omega, hlt, Int.emod_eq_of_lt (by omega) hlt⟩
  · refine .inr (.inl ⟨by omega, ?_⟩)
    rw [← Int.sub_emod_right, Int.emod_eq_of_lt (by omega) (by omega)]

/-- A word cut to the width: its value, its sign bit, and its value in two's complement. -/
theorem exists_operand (hpos : 1 ≤ width) (hle : width ≤ 8) {k : Nat} (hcount : 2 ^ (8 * width) = 256 * k)
    (hhalf : 2 ^ (8 * width - 1) = 128 * k) (a : UInt64) :
    ∃ n : Nat, n < 256 * k ∧ (a &&& Word.mask width).toNat = n ∧ (a.toNat % 2 ^ (8 * width) : Int) = n ∧
      Word.signBit (a &&& Word.mask width) width = decide (128 * k ≤ n) ∧
      Int.bmod n (2 ^ (8 * width)) = if 128 * k ≤ n then (n : Int) - 256 * k else n := by
  have hn : a.toNat % 2 ^ (8 * width) < 2 ^ (8 * width) := Nat.mod_lt _ (Nat.two_pow_pos _)
  have hlow := Word.toNat_and_mask a hle
  refine ⟨a.toNat % 2 ^ (8 * width), hcount ▸ hn, hlow, by push_cast; rfl, ?_, ?_⟩
  · rw [Word.signBit_eq hpos hle (hlow ▸ hn), hlow, hhalf]
  · rw [Word.bmod_eq hpos hn, hhalf]
    exact if_congr Iff.rfl (by rw [hcount]; push_cast; rfl) rfl

theorem sum_eq (hpos : 1 ≤ width) (hle : width ≤ 8) (a b : UInt64) (carry : Bool) :
    let x : Int := a.toNat % 2 ^ (8 * width)
    let y : Int := b.toNat % 2 ^ (8 * width)
    sum width a b carry =
      exactResult width (x + y + carry.toNat) (x.bmod (2 ^ (8 * width)) + y.bmod (2 ^ (8 * width)) + carry.toNat)
        (x % 16 + y % 16 + carry.toNat) := by
  intro x y
  -- with the modulus and its half as multiples of one number, what is left of each flag is linear
  obtain ⟨k, hk, hcount, hhalf⟩ := Word.exists_halves hpos
  obtain ⟨n, hn, hna, hx, hsa, hma⟩ := exists_operand hpos hle hcount hhalf a
  obtain ⟨l, hl, hlb, hy, hsb, hmb⟩ := exists_operand hpos hle hcount hhalf b
  obtain ⟨v, hv, hvalue, -, hsv, -⟩ := exists_operand hpos hle hcount hhalf (UInt64.ofNat (n + l + carry.toNat))
  have hcount' : (2 : Int) ^ (8 * width) = 256 * k := by exact_mod_cast hcount
  have hhalf' : (2 : Int) ^ (8 * width - 1) = 128 * k := by exact_mod_cast hhalf
  have hexact : (v : Int) = (n + l + carry.toNat) % (256 * k) := by
    rw [← hvalue, Word.toNat_and_mask _ hle, Word.toNat_ofNat_mod hle, hcount]
    push_cast
    rfl
  have hcarry : carry.toNat ≤ 1 := carry.toNat_le
  have hcases := emod_cases (e := n + l + carry.toNat) (n := 256 * k) (by omega) (by omega)
  rw [← hexact] at hcases
  rw [show x = n from hx, show y = l from hy, hma, hmb, sum, hna, hlb, hsa, hsb, hsv]
  refine eq_exactResult hpos hle (by rw [hvalue, hexact, hcount']) ?_ ?_ ?_
  · rw [Word.toNat_mask hle, decide_eq_decide, Nat.one_shiftLeft]
    omega
  · rw [Bool.eq_iff_iff, hhalf']
    simp only [Bool.and_eq_true, beq_iff_eq, bne_iff_ne, ne_eq, decide_eq_decide, decide_eq_true_eq]
    split <;> split <;> omega
  · rw [carriesOutOfNibble_eq, decide_eq_decide, hna, hlb, hvalue]
    omega

theorem difference_eq (hpos : 1 ≤ width) (hle : width ≤ 8) (a b : UInt64) (borrow : Bool) :
    let x : Int := a.toNat % 2 ^ (8 * width)
    let y : Int := b.toNat % 2 ^ (8 * width)
    difference width a b borrow =
      exactResult width (x - y - borrow.toNat) (x.bmod (2 ^ (8 * width)) - y.bmod (2 ^ (8 * width)) - borrow.toNat)
        (x % 16 - y % 16 - borrow.toNat) := by
  intro x y
  obtain ⟨k, hk, hcount, hhalf⟩ := Word.exists_halves hpos
  obtain ⟨n, hn, hna, hx, hsa, hma⟩ := exists_operand hpos hle hcount hhalf a
  obtain ⟨l, hl, hlb, hy, hsb, hmb⟩ := exists_operand hpos hle hcount hhalf b
  obtain ⟨v, hv, hvalue, -, hsv, -⟩ := exists_operand hpos hle hcount hhalf
    ((a &&& Word.mask width) - (b &&& Word.mask width) - borrow.toUInt64)
  have hcount' : (2 : Int) ^ (8 * width) = 256 * k := by exact_mod_cast hcount
  have hhalf' : (2 : Int) ^ (8 * width - 1) = 128 * k := by exact_mod_cast hhalf
  have hborrow : borrow.toNat ≤ 1 := borrow.toNat_le
  have hwraps : (((a &&& Word.mask width) - (b &&& Word.mask width) - borrow.toUInt64).toNat : Int) =
      (n - l - borrow.toNat) % 2 ^ 64 := by
    have hword : borrow.toUInt64.toNat = borrow.toNat := by cases borrow <;> rfl
    have hword64 : (2 : Nat) ^ (8 * width) ≤ 2 ^ 64 := Nat.pow_le_pow_right (by decide) (by omega)
    rw [UInt64.toNat_sub, UInt64.toNat_sub, hna, hlb, hword]
    omega
  have hexact : (v : Int) = (n - l - borrow.toNat) % (256 * k) := by
    have hdvd : (256 * k : Int) ∣ 2 ^ 64 := by
      rw [← hcount']
      exact_mod_cast Word.two_pow_dvd hle
    rw [← hvalue, Word.toNat_and_mask _ hle, hcount, Int.natCast_emod, hwraps, ← Int.emod_emod_of_dvd _ hdvd]
    push_cast
    rfl
  have hcases := emod_cases (e := n - l - borrow.toNat) (n := 256 * k) (by omega) (by omega)
  rw [← hexact] at hcases
  rw [show x = n from hx, show y = l from hy, hma, hmb, difference, hna, hlb, hsa, hsb, hsv]
  refine eq_exactResult hpos hle (by rw [hvalue, hexact, hcount']) ?_ ?_ ?_
  · rw [decide_eq_decide]
    omega
  · rw [Bool.eq_iff_iff, hhalf']
    simp only [Bool.and_eq_true, bne_iff_ne, ne_eq, decide_eq_decide, decide_eq_true_eq]
    split <;> split <;> omega
  · rw [carriesOutOfNibble_eq, decide_eq_decide, hna, hlb, hvalue]
    omega

end Arithmetic
end PathReplay
