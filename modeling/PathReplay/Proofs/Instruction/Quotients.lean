import PathReplay.Proofs.Machine.Accumulators

/-!
# Division

* `Arithmetic.divide?_eq`, `Arithmetic.divideSigned?_eq` : which quotients there are;
* `Machine.divide_pair`, `divideSigned_pair` : the accumulators after a division, as numbers;
* `execute_division` : a division leaves an exact quotient and remainder, or has no effect.
-/

namespace PathReplay

namespace Arithmetic

variable {width : Nat}

theorem divide?_eq (h : width ≤ 8) (dividend divisor : Nat) :
    divide? width dividend divisor =
      if divisor ≠ 0 ∧ dividend / divisor < 2 ^ (8 * width) then some (dividend / divisor, dividend % divisor)
      else none := by
  have hpos : 0 < 2 ^ (8 * width) := Nat.two_pow_pos _
  unfold divide?
  rw [Word.toNat_mask h, Nat.one_shiftLeft]
  by_cases hzero : divisor = 0
  · rw [if_pos hzero, if_neg fun hfits => hfits.1 hzero]
  · rw [if_neg hzero]
    by_cases hfits : dividend / divisor < 2 ^ (8 * width)
    · rw [if_neg (by omega), if_pos ⟨hzero, hfits⟩]
    · rw [if_pos (by omega), if_neg fun h => hfits h.2]

theorem dividendBits_eq (hpos : 1 ≤ width) (h : width ≤ 8) : dividendBits width = 2 * (8 * width) := by
  simp only [dividendBits, UInt32.size]
  split <;> omega

theorem divideSigned?_eq (hpos : 1 ≤ width) (h : width ≤ 8) (n : Nat) (divisor : Int) :
    let dividend := Int.bmod n (2 ^ (2 * (8 * width)))
    divideSigned? width n divisor =
      if divisor ≠ 0 ∧ -2 ^ (8 * width - 1) ≤ dividend.tdiv divisor ∧ dividend.tdiv divisor < 2 ^ (8 * width - 1) then
        some (dividend.tdiv divisor, dividend.tmod divisor)
      else none := by
  intro dividend
  unfold divideSigned?
  dsimp only
  rw [dividendBits_eq hpos h, Nat.one_shiftLeft, overflowsSigned_eq hpos h]
  by_cases hzero : divisor = 0
  · rw [if_pos hzero, if_neg fun hfits => hfits.1 hzero]
  · rw [if_neg hzero]
    by_cases hfits : -2 ^ (8 * width - 1) ≤ dividend.tdiv divisor ∧ dividend.tdiv divisor < 2 ^ (8 * width - 1)
    · rw [if_neg (by simpa using hfits), if_pos ⟨hzero, hfits⟩]
    · rw [if_pos (decide_eq_true hfits), if_neg fun h => hfits h.2]

/-- Division toward zero: the remainder is smaller than the divisor, and has the sign of the dividend. -/
theorem tdiv_tmod (dividend : Int) {divisor : Int} (h : divisor ≠ 0) :
    dividend = dividend.tdiv divisor * divisor + dividend.tmod divisor ∧
      (dividend.tmod divisor).natAbs < divisor.natAbs ∧
      (dividend.tmod divisor = 0 ∨ (dividend.tmod divisor).sign = dividend.sign) := by
  refine ⟨?_, ?_, ?_⟩
  · rw [Int.add_comm, Int.tmod_add_tdiv_mul]
  · rw [Int.natAbs_tmod]
    exact Nat.mod_lt _ (Int.natAbs_pos.2 h)
  · have hsign := Int.sign_tmod dividend divisor
    split at hsign
    · exact .inl (Int.sign_eq_zero_iff_zero.1 hsign)
    · exact .inr hsign

end Arithmetic

namespace Machine

variable {m : Machine} {a : Address} {i : Instruction} {src : Operand} {high low : String}

/-- A division leaves the quotient and the remainder in the halves of the accumulators, or the machine as it was. -/
theorem divide_pair (hsrc : i.operands[0]? = some src) (hpair : (src.width, high, low) ∈ m.arch.pairs) :
    let n := m.doubleValue src.width high low
    let y := (m.operandValue src).toNat % 2 ^ (8 * src.width)
    ∃ m', Exec.divide i m = .ok () m' ∧ m.Accumulated m' ∧
      if y ≠ 0 ∧ n / y < 2 ^ (8 * src.width) then
        (m'.registerOrZero low).toNat = n / y ∧ (m'.registerOrZero high).toNat = n % y
      else m' = m := by
  intro n y
  obtain ⟨f, g, h⟩ := m.registers.arch.exists_isPair hpair
  have hrun : Exec.divide i m = if y ≠ 0 ∧ n / y < 2 ^ (8 * src.width) then
      Exec.storeDivision src.width (UInt64.ofNat (n / y)) (UInt64.ofNat (n % y)) m else .ok () m := by
    let v := m.operandValue src &&& Word.mask src.width
    have hv : v.toNat = y := Word.toNat_and_mask _ h.width_le
    unfold Exec.divide Exec.operand
    rw [hsrc]
    show (if v = 0 then pure () else Exec.dividend src.width >>= _ : Exec Unit) m = _
    split
    · rename_i hzero
      rw [if_neg fun hfits => hfits.1 (by rw [← hv, hzero]; rfl)]
      rfl
    · refine (Exec.bind_of_ok (dividend_eq h)).trans ?_
      dsimp only
      rw [hv, Arithmetic.divide?_eq h.width_le]
      split <;> rfl
  rw [hrun]
  split
  · rename_i hfits
    have hy : y < 2 ^ (8 * src.width) := Nat.mod_lt _ (Nat.two_pow_pos _)
    have hremainder : n % y < y := Nat.mod_lt _ (Nat.pos_of_ne_zero hfits.1)
    obtain ⟨m', hstore, hpaired⟩ := storeDivision_pair h (UInt64.ofNat (n / y)) (UInt64.ofNat (n % y))
    refine ⟨m', hstore, hpaired.toAccumulated, ?_⟩
    rw [hpaired.toNat_low, hpaired.toNat_high, Word.toNat_ofNat_mod h.width_le, Word.toNat_ofNat_mod h.width_le]
    exact ⟨Nat.mod_eq_of_lt hfits.2, Nat.mod_eq_of_lt (Nat.lt_trans hremainder hy)⟩
  · exact ⟨m, rfl, .refl m, rfl⟩

/-- A signed division leaves the quotient and the remainder in the halves of the accumulators, or the machine as it
was. -/
theorem divideSigned_pair (hsrc : i.operands[0]? = some src) (hpair : (src.width, high, low) ∈ m.arch.pairs) :
    let bits := 8 * src.width
    let dividend := Int.bmod (m.doubleValue src.width high low) (2 ^ (2 * bits))
    let divisor := Int.bmod ((m.operandValue src).toNat % 2 ^ bits : Nat) (2 ^ bits)
    ∃ m', Exec.divideSigned i m = .ok () m' ∧ m.Accumulated m' ∧
      if divisor ≠ 0 ∧ -2 ^ (bits - 1) ≤ dividend.tdiv divisor ∧ dividend.tdiv divisor < 2 ^ (bits - 1) then
        Int.bmod (m'.registerOrZero low).toNat (2 ^ bits) = dividend.tdiv divisor ∧
          Int.bmod (m'.registerOrZero high).toNat (2 ^ bits) = dividend.tmod divisor
      else m' = m := by
  intro bits dividend divisor
  obtain ⟨f, g, h⟩ := m.registers.arch.exists_isPair hpair
  have hrun : Exec.divideSigned i m =
      if divisor ≠ 0 ∧ -2 ^ (bits - 1) ≤ dividend.tdiv divisor ∧ dividend.tdiv divisor < 2 ^ (bits - 1) then
        Exec.storeDivision src.width (Word.ofInt (dividend.tdiv divisor)) (Word.ofInt (dividend.tmod divisor)) m
      else .ok () m := by
    have hdivisor : m.integerValue src = divisor := (Word.toInt_eq h.width_le _).trans (Word.bmod_mod ..).symm
    unfold Exec.divideSigned Exec.operand
    rw [hsrc]
    show (if m.integerValue src = 0 then pure () else Exec.dividend src.width >>= _ : Exec Unit) m = _
    rw [hdivisor]
    split
    · rename_i hzero
      rw [if_neg fun hfits => hfits.1 hzero]
      rfl
    · refine (Exec.bind_of_ok (dividend_eq h)).trans ?_
      dsimp only
      rw [hdivisor, Arithmetic.divideSigned?_eq h.width_pos h.width_le]
      split <;> rfl
  rw [hrun]
  split
  · rename_i hfits
    obtain ⟨-, hremainder, -⟩ := Arithmetic.tdiv_tmod dividend hfits.1
    have hdivisor : -2 ^ (bits - 1) ≤ divisor ∧ divisor < 2 ^ (bits - 1) :=
      (Word.bmod_eq_self_iff h.width_pos).1 Int.bmod_bmod
    have hrange : -2 ^ (bits - 1) ≤ dividend.tmod divisor ∧ dividend.tmod divisor < 2 ^ (bits - 1) := by omega
    obtain ⟨m', hstore, hpaired⟩ :=
      storeDivision_pair h (Word.ofInt (dividend.tdiv divisor)) (Word.ofInt (dividend.tmod divisor))
    refine ⟨m', hstore, hpaired.toAccumulated, ?_⟩
    rw [hpaired.toNat_low, hpaired.toNat_high, Word.bmod_mod, Word.bmod_mod, Word.bmod_toNat_ofInt h.width_le,
      Word.bmod_toNat_ofInt h.width_le]
    exact ⟨(Word.bmod_eq_self_iff h.width_pos).2 hfits.2, (Word.bmod_eq_self_iff h.width_pos).2 hrange⟩
  · exact ⟨m, rfl, .refl m, rfl⟩

/-- Division is exact or has no effect. The dividend is the double-width value of the accumulators. A quotient that fits
the width is left in the low half and the remainder in the high one. If the quotient does not fit, or if the divisor is
zero, control moves on to the next instruction and nothing else changes. Memory and flags never change. -/
theorem execute_division (hi : m.listing.decode? a = some i) (hsrc : i.operands[0]? = some src)
    (hpair : (src.width, high, low) ∈ m.arch.pairs) :
    let p := m.prepare a i
    let bits := 8 * src.width
    let n := p.doubleValue src.width high low
    let y := (p.operandValue src).toNat % 2 ^ bits
    let dividend := Int.bmod n (2 ^ (2 * bits))
    let divisor := Int.bmod y (2 ^ bits)
    (i.mnemonic = "div" → ∃ m', execute a m = .ok () m' ∧ m'.memory = m.memory ∧
        (∀ name, m.arch.namesFlags name → m'.registers.get name = m.registers.get name) ∧
        if y ≠ 0 ∧ n / y < 2 ^ bits then
          ∃ q r, n = q * y + r ∧ r < y ∧ (m'.registerOrZero low).toNat = q ∧ (m'.registerOrZero high).toNat = r
        else m'.registers = m.registers.withIp i.next) ∧
      (i.mnemonic = "idiv" → ∃ m', execute a m = .ok () m' ∧ m'.memory = m.memory ∧
        (∀ name, m.arch.namesFlags name → m'.registers.get name = m.registers.get name) ∧
        if divisor ≠ 0 ∧ -2 ^ (bits - 1) ≤ dividend.tdiv divisor ∧ dividend.tdiv divisor < 2 ^ (bits - 1) then
          ∃ q r, dividend = q * divisor + r ∧ r.natAbs < divisor.natAbs ∧ (r = 0 ∨ r.sign = dividend.sign) ∧
            Int.bmod (m'.registerOrZero low).toNat (2 ^ bits) = q ∧
            Int.bmod (m'.registerOrZero high).toNat (2 ^ bits) = r
        else m'.registers = m.registers.withIp i.next) := by
  intro p bits n y dividend divisor
  have hprepare : m.Accumulated p := m.accumulated_prepare a i
  rw [← hprepare.arch] at hpair
  refine ⟨fun hdiv => ?_, fun hidiv => ?_⟩
  · obtain ⟨m', hdivide, hkept, hresult⟩ := divide_pair hsrc hpair
    have hrun : execute a m = Exec.divide i p := execute_of_name hi hdiv rfl
    have hall := hprepare.trans hkept
    refine ⟨m', hrun.trans hdivide, hall.memory, hall.get, ?_⟩
    split
    · rename_i hfits
      obtain ⟨hlow, hhigh⟩ := (if_pos hfits).mp hresult
      exact ⟨n / y, n % y, (Nat.div_add_mod' n y).symm, Nat.mod_lt _ (Nat.pos_of_ne_zero hfits.1), hlow, hhigh⟩
    · rename_i hfits
      rw [if_neg hfits] at hresult
      rw [hresult]
      exact m.registers_prepare a i
  · obtain ⟨m', hdivide, hkept, hresult⟩ := divideSigned_pair hsrc hpair
    have hrun : execute a m = Exec.divideSigned i p := execute_of_name hi hidiv rfl
    have hall := hprepare.trans hkept
    refine ⟨m', hrun.trans hdivide, hall.memory, hall.get, ?_⟩
    split
    · rename_i hfits
      obtain ⟨hlow, hhigh⟩ := (if_pos hfits).mp hresult
      obtain ⟨hsum, hbound, hsign⟩ := Arithmetic.tdiv_tmod dividend hfits.1
      exact ⟨_, _, hsum, hbound, hsign, hlow, hhigh⟩
    · rename_i hfits
      rw [if_neg hfits] at hresult
      rw [hresult]
      exact m.registers_prepare a i

/-- The least dividend divided by minus one has no quotient. -/
theorem execute_division_least :
    let src := Operand.ofRegister "rcx" 8
    let i := Instruction.of 0x1000 "idiv" 3 [src]
    let m := (do Exec.setRegister "rdx" 0x8000000000000000; Exec.setRegister "rcx" 0xFFFFFFFFFFFFFFFF : Exec Unit).after
      (Machine.fresh ((Listing.empty .x86_64).addInstruction i) {})
    (m.prepare 0x1000 i).doubleValue src.width "rdx" "rax" = 2 ^ 127 ∧
      ∃ m', execute 0x1000 m = .ok () m' ∧ m'.memory = m.memory ∧ m'.registers = m.registers.withIp 0x1003 := by
  intro src i m
  have hpair : (src.width, "rdx", "rax") ∈ m.arch.pairs := by
    rw [show m.arch = .x86_64 by decide +kernel]
    show (8, "rdx", "rax") ∈ Arch.x86_64.pairs
    simp [Arch.pairs]
  have hsrc : i.operands[0]? = some src := rfl
  have hdividend : (m.prepare 0x1000 i).doubleValue src.width "rdx" "rax" = 2 ^ 127 := by decide +kernel
  have hdivisor : ((m.prepare 0x1000 i).operandValue src).toNat = 2 ^ 64 - 1 := by decide +kernel
  obtain ⟨-, hidiv⟩ := execute_division (m := m) (a := 0x1000) (i := i) (by decide +kernel) hsrc hpair
  obtain ⟨m', hrun, hmemory, -, hresult⟩ := hidiv (by decide +kernel)
  rw [hdividend, hdivisor, if_neg (by decide +kernel)] at hresult
  exact ⟨hdividend, m', hrun, hmemory, hresult⟩

end Machine
end PathReplay
