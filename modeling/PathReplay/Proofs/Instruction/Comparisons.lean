import PathReplay.Proofs.Instruction.Sums

/-!
# Conditions after a comparison

* `Comparison.relations` : what every suffix of a conditional instruction says of two values that were compared;
* `Comparison.Leaves`, `Comparison.leaves_flags` : the flags after a comparison, one by one, in terms of these values;
* `Comparison.less`, `Comparison.exists_condition` : signed order out of sign and overflow, every relation out of the
  flags;
* `execute_compare` : a conditional jump, set or move after a comparison takes effect as its suffix says.
-/

namespace PathReplay

namespace Comparison

open Arithmetic

variable {width : Nat} {x y : Int} {f : Flag → Bool}

/-- What the suffixes of conditional instructions say of two values that were compared, `x` and `y` without sign. In
two's complement they are the balanced remainders. -/
def relations (width : Nat) (x y : Int) : List (List String × Prop) :=
  let signed := fun z : Int => z.bmod (2 ^ (8 * width))
  let half : Int := 2 ^ (8 * width - 1)
  let ones := (List.range 8).countP ((x - y) % 2 ^ (8 * width)).toNat.testBit
  [(["b", "c", "nae"], x < y), (["be", "na"], x ≤ y), (["a", "nbe"], x > y), (["ae", "nb", "nc"], x ≥ y),
    (["e", "z"], x = y), (["ne", "nz"], x ≠ y),
    (["l", "nge"], signed x < signed y), (["le", "ng"], signed x ≤ signed y),
    (["g", "nle"], signed x > signed y), (["ge", "nl"], signed x ≥ signed y),
    (["s"], signed (x - y) < 0), (["ns"], ¬ signed (x - y) < 0),
    (["o"], ¬ (-half ≤ signed x - signed y ∧ signed x - signed y < half)),
    (["no"], -half ≤ signed x - signed y ∧ signed x - signed y < half),
    (["p", "pe"], ones % 2 = 0), (["np", "po"], ¬ ones % 2 = 0)]

/-- The flags that a comparison of two values leaves. -/
structure Leaves (width : Nat) (x y : Int) (f : Flag → Bool) : Prop where
  carry : f .carry = decide (x < y)
  zero : f .zero = decide (x = y)
  sign : f .sign = decide ((x - y).bmod (2 ^ (8 * width)) < 0)
  overflow : f .overflow = decide ¬ (-2 ^ (8 * width - 1) ≤ x.bmod (2 ^ (8 * width)) - y.bmod (2 ^ (8 * width)) ∧
    x.bmod (2 ^ (8 * width)) - y.bmod (2 ^ (8 * width)) < 2 ^ (8 * width - 1))
  parity : f .parity = decide ((List.range 8).countP ((x - y) % 2 ^ (8 * width)).toNat.testBit % 2 = 0)

/-! ## From values to flags -/

/-- A remainder is negative in two's complement if its top bit is set. -/
theorem testBit_emod_iff (hpos : 1 ≤ width) (z : Int) :
    (z % 2 ^ (8 * width)).toNat.testBit (8 * width - 1) = true ↔ z.bmod (2 ^ (8 * width)) < 0 := by
  have hcount : ((2 ^ (8 * width) : Nat) : Int) = 2 ^ (8 * width) := by push_cast; rfl
  have hnonneg : 0 ≤ z % 2 ^ (8 * width) := Int.emod_nonneg _ (Int.pow_ne_zero (by decide))
  have hbound : z % 2 ^ (8 * width) < 2 ^ (8 * width) := Int.emod_lt_of_pos _ (Int.pow_pos (by decide))
  have hlt : (z % 2 ^ (8 * width)).toNat < 2 ^ (8 * width) := by omega
  have hbmod : z.bmod (2 ^ (8 * width)) = Int.bmod (z % 2 ^ (8 * width)).toNat (2 ^ (8 * width)) := by
    rw [Int.toNat_of_nonneg hnonneg, ← hcount, Int.emod_bmod]
  rw [Word.testBit_top hpos hlt, decide_eq_true_eq, hbmod, Word.bmod_eq hpos hlt]
  split <;> omega

/-- The flags of the exact result of a difference tell how its operands compare. -/
theorem leaves_flags (hpos : 1 ≤ width) (hx : 0 ≤ x ∧ x < 2 ^ (8 * width)) (hy : 0 ≤ y ∧ y < 2 ^ (8 * width))
    (r : Registers) (nibble : Int) :
    let e := exactResult width (x - y) (x.bmod (2 ^ (8 * width)) - y.bmod (2 ^ (8 * width))) nibble
    Leaves width x y (r.withFlags e.flags).flag := by
  intro e
  obtain ⟨hcarry, hoverflow, hzero, hsign, hparity, -⟩ := AddSub.flag_withFlags_exactResult r false width (x - y)
    (x.bmod (2 ^ (8 * width)) - y.bmod (2 ^ (8 * width))) nibble
  rw [if_neg Bool.false_ne_true, if_neg Bool.false_ne_true] at hcarry
  rw [if_neg Bool.false_ne_true] at hoverflow hzero hsign hparity
  have hcases := emod_cases (e := x - y) (n := 2 ^ (8 * width)) (by omega) (by omega)
  refine ⟨?_, ?_, ?_, ?_, ?_⟩ <;> rw [Bool.eq_iff_iff, decide_eq_true_eq]
  · rw [hcarry]
    omega
  · rw [hzero]
    omega
  · rw [hsign, testBit_emod_iff hpos]
  · exact hoverflow
  · exact hparity

/-! ## From flags to relations -/

/-- Values of a width are the same if they are in two's complement. -/
theorem bmod_inj (hx : 0 ≤ x ∧ x < 2 ^ (8 * width)) (hy : 0 ≤ y ∧ y < 2 ^ (8 * width)) :
    x.bmod (2 ^ (8 * width)) = y.bmod (2 ^ (8 * width)) ↔ x = y := by
  refine ⟨fun h => ?_, fun h => h ▸ rfl⟩
  have hmod := congrArg (· % ((2 ^ (8 * width) : Nat) : Int)) h
  simp only [Int.bmod_emod] at hmod
  push_cast at hmod
  rwa [Int.emod_eq_of_lt hx.1 hx.2, Int.emod_eq_of_lt hy.1 hy.2] at hmod

/-- The sign of a difference tells the signed order of its operands, unless the signed difference leaves the width; it
then tells the opposite. -/
theorem less (hpos : 1 ≤ width) (h : Leaves width x y f) :
    (f .sign != f .overflow) = decide (x.bmod (2 ^ (8 * width)) < y.bmod (2 ^ (8 * width))) := by
  obtain ⟨k, hk, hcount, hhalf⟩ := Word.exists_halves hpos
  have hhalf' : (2 : Int) ^ (8 * width - 1) = 128 * k := by exact_mod_cast hhalf
  have hdifference : (x - y).bmod (2 ^ (8 * width)) =
      (x.bmod (2 ^ (8 * width)) - y.bmod (2 ^ (8 * width))).bmod (2 ^ (8 * width)) := by
    rw [Int.sub_bmod_bmod, Int.bmod_sub_bmod]
  rw [h.sign, h.overflow, hdifference, hhalf', hcount]
  have hx := Int.le_bmod (x := x) (m := 256 * k) (by omega)
  have hx' := Int.bmod_lt (x := x) (m := 256 * k) (by omega)
  have hy := Int.le_bmod (x := y) (m := 256 * k) (by omega)
  have hy' := Int.bmod_lt (x := y) (m := 256 * k) (by omega)
  generalize x.bmod (256 * k) = s at *
  generalize y.bmod (256 * k) = t at *
  have hcases := emod_cases (e := s - t) (n := (256 * k : Nat)) (by omega) (by omega)
  rw [Bool.eq_iff_iff, bne_iff_ne, ne_eq, decide_eq_decide, decide_eq_true_eq, Int.bmod_def]
  split <;> omega

/-- Every suffix is the spelling of a condition, and after a comparison the condition says of the flags what the suffix
says of the values. -/
theorem exists_condition (hpos : 1 ≤ width) (hx : 0 ≤ x ∧ x < 2 ^ (8 * width)) (hy : 0 ≤ y ∧ y < 2 ^ (8 * width))
    (h : Leaves width x y f) :
    ∀ relation ∈ relations width x y, ∀ suffix ∈ relation.1,
      ∃ c, (suffix, c) ∈ Condition.suffixes ∧ (c.eval f = true ↔ relation.2) := by
  have hless := less hpos h
  have hinj := bmod_inj hx hy
  have hsame : (f .sign == f .overflow) = !(f .sign != f .overflow) := by rw [bne, Bool.not_not]
  have spelled : ∀ {row : List String × Prop} (c : Condition), (∀ suffix ∈ row.1, (suffix, c) ∈ Condition.suffixes) →
      (c.eval f = true ↔ row.2) → ∀ suffix ∈ row.1, ∃ c, (suffix, c) ∈ Condition.suffixes ∧ (c.eval f = true ↔ row.2) :=
    fun c hspelled hc suffix hs => ⟨c, hspelled suffix hs, hc⟩
  -- one case for each row of the table, in its order
  intro relation hrelation
  simp only [relations, List.mem_cons, List.not_mem_nil, or_false] at hrelation
  rcases hrelation with rfl | rfl | rfl | rfl | rfl | rfl | rfl | rfl | rfl | rfl | rfl | rfl | rfl | rfl | rfl | rfl
  · refine spelled .below (by simp [Condition.suffixes]) ?_
    simp only [Condition.eval, h.carry, decide_eq_true_eq]
  · refine spelled .belowOrEqual (by simp [Condition.suffixes]) ?_
    simp only [Condition.eval, h.carry, h.zero, Bool.or_eq_true, decide_eq_true_eq]
    omega
  · refine spelled .above (by simp [Condition.suffixes]) ?_
    simp only [Condition.eval, h.carry, h.zero, Bool.and_eq_true, Bool.not_eq_true', decide_eq_false_iff_not]
    omega
  · refine spelled .aboveOrEqual (by simp [Condition.suffixes]) ?_
    simp only [Condition.eval, h.carry, Bool.not_eq_true', decide_eq_false_iff_not]
    omega
  · refine spelled .equal (by simp [Condition.suffixes]) ?_
    simp only [Condition.eval, h.zero, decide_eq_true_eq]
  · refine spelled .notEqual (by simp [Condition.suffixes]) ?_
    simp only [Condition.eval, h.zero, Bool.not_eq_true', decide_eq_false_iff_not, ne_eq]
  · refine spelled .less (by simp [Condition.suffixes]) ?_
    simp only [Condition.eval, hless, decide_eq_true_eq]
  · refine spelled .lessOrEqual (by simp [Condition.suffixes]) ?_
    simp only [Condition.eval, hless, h.zero, Bool.or_eq_true, decide_eq_true_eq]
    omega
  · refine spelled .greater (by simp [Condition.suffixes]) ?_
    simp only [Condition.eval, hsame, hless, h.zero, Bool.and_eq_true, Bool.not_eq_true', decide_eq_false_iff_not]
    omega
  · refine spelled .greaterOrEqual (by simp [Condition.suffixes]) ?_
    simp only [Condition.eval, hsame, hless, Bool.not_eq_true', decide_eq_false_iff_not]
    omega
  · refine spelled .sign (by simp [Condition.suffixes]) ?_
    simp only [Condition.eval, h.sign, decide_eq_true_eq]
  · refine spelled .notSign (by simp [Condition.suffixes]) ?_
    simp only [Condition.eval, h.sign, Bool.not_eq_true', decide_eq_false_iff_not]
  · refine spelled .overflow (by simp [Condition.suffixes]) ?_
    simp only [Condition.eval, h.overflow, decide_eq_true_eq]
  · refine spelled .notOverflow (by simp [Condition.suffixes]) ?_
    simp only [Condition.eval, h.overflow, Bool.not_eq_true', decide_eq_false_iff_not, not_not]
  · refine spelled .parity (by simp [Condition.suffixes]) ?_
    simp only [Condition.eval, h.parity, decide_eq_true_eq]
  · refine spelled .notParity (by simp [Condition.suffixes]) ?_
    simp only [Condition.eval, h.parity, Bool.not_eq_true', decide_eq_false_iff_not]

end Comparison

/-! ## Conditional instructions -/

theorem Condition.ofSuffix?_of_mem : ∀ e ∈ suffixes, ofSuffix? e.1 = some e.2 := by decide +kernel

/-- The three kinds of conditional instructions, with any suffix. -/
theorem Operation.ofMnemonic?_append {suffix : String} {c : Condition} (h : (suffix, c) ∈ Condition.suffixes) :
    ∀ kind ∈ [("j", branchIf), ("set", setIf), ("cmov", moveIf)], ofMnemonic? (kind.1 ++ suffix) = some (kind.2 c) := by
  have hsuffix : Condition.ofSuffix? (String.ofList suffix.toList) = some c := by
    rw [String.ofList_toList, Condition.ofSuffix?_of_mem _ h]
  simp only [List.forall_mem_cons, List.not_mem_nil, false_imp_iff, implies_true, and_true]
  refine ⟨?_, ?_, ?_⟩
  all_goals
    apply ofMnemonic?_of_conditional
    rw [conditional?, String.toList_append]
    exact congrArg (Option.map _) hsuffix

namespace Machine

variable {m : Machine} {a b : Address} {i j : Instruction} {dst src o : Operand} {c : Condition} {suffix : String}

theorem holds_prepare (c : Condition) (m : Machine) (b : Address) (j : Instruction) :
    c.holds (m.prepare b j).registers = c.eval m.registers.flag :=
  congrArg (Condition.eval · c) (funext (m.flag_prepare b j))

theorem execute_branchIf (hc : (suffix, c) ∈ Condition.suffixes) (hj : m.listing.decode? b = some j)
    (hname : j.mnemonic = "j" ++ suffix) (ho : j.operands[0]? = some o) :
    let q := m.prepare b j
    execute b m = .ok () (if c.eval m.registers.flag then q.withIp (q.operandValue o) else q) := by
  intro q
  have hop := Operation.ofMnemonic?_append hc ("j", .branchIf) (by simp)
  rw [execute_of_mnemonic hj (hname ▸ hop), ← holds_prepare c m b j]
  show Exec.branchIf j (c.holds q.registers) q = _
  cases c.holds q.registers with
  | false => rfl
  | true =>
    show Exec.branch j q = _
    unfold Exec.branch Exec.operand
    rw [ho]
    rfl

theorem execute_setIf (hc : (suffix, c) ∈ Condition.suffixes) (hj : m.listing.decode? b = some j)
    (hname : j.mnemonic = "set" ++ suffix) (ho : j.operands[0]? = some o) :
    execute b m = Exec.store o (if c.eval m.registers.flag then 1 else 0) (m.prepare b j) := by
  have hop := Operation.ofMnemonic?_append hc ("set", .setIf) (by simp)
  rw [execute_of_mnemonic hj (hname ▸ hop), ← holds_prepare c m b j]
  show Exec.storeBool j (c.holds (m.prepare b j).registers) (m.prepare b j) = _
  unfold Exec.storeBool Exec.operand
  rw [ho]
  cases c.holds (m.prepare b j).registers <;> rfl

theorem execute_moveIf (hc : (suffix, c) ∈ Condition.suffixes) (hj : m.listing.decode? b = some j)
    (hname : j.mnemonic = "cmov" ++ suffix) (ho : j.operands[0]? = some o) (hsrc : j.operands[1]? = some src) :
    let q := m.prepare b j
    execute b m = if c.eval m.registers.flag then Exec.store o (q.operandValue src) q else .ok () q := by
  intro q
  have hop := Operation.ofMnemonic?_append hc ("cmov", .moveIf) (by simp)
  rw [execute_of_mnemonic hj (hname ▸ hop), ← holds_prepare c m b j]
  show (if c.holds q.registers then Exec.move j else pure ()) q = _
  cases c.holds q.registers with
  | false => rfl
  | true =>
    show Exec.move j q = _
    unfold Exec.move Exec.operand
    rw [ho, hsrc]
    rfl

/-! ## A comparison and a conditional instruction -/

/-- A comparison changes nothing but flags, and these tell how its operands compare. -/
theorem execute_cmp (hi : m.listing.decode? a = some i) (hcmp : i.mnemonic = "cmp") (hdst : i.operands[0]? = some dst)
    (hsrc : i.operands[1]? = some src) (hpos : 1 ≤ dst.width) (hle : dst.width ≤ 8) :
    let p := m.prepare a i
    let bound : Int := 2 ^ (8 * dst.width)
    let x := (p.operandValue dst).toNat % bound
    let y := Int.bmod (p.operandValue src).toNat (2 ^ (8 * src.width)) % bound
    ∃ fs, execute a m = .ok () (p.withRegisters (p.registers.withFlags fs)) ∧
      Comparison.Leaves dst.width x y (p.registers.withFlags fs).flag := by
  intro p bound x y
  let r := AddSub.result .cmp dst.width (p.operandValue dst) (p.signedValue src &&& Word.mask dst.width)
    (p.registers.flag .carry)
  have hbound : bound ≠ 0 := Int.pow_ne_zero (by decide)
  have hbound' : 0 < bound := Int.pow_pos (by decide)
  refine ⟨r.flags, ?_, ?_⟩
  · have hrun := AddSub.run_operation .cmp hdst (fun _ => hsrc) p
    exact (execute_of_mnemonic hi (hcmp ▸ AddSub.ofMnemonic?_mnemonic .cmp)).trans (hrun.trans (if_pos rfl))
  · have hresult := AddSub.result_eq .cmp hpos hle (p.operandValue dst) (p.signedValue src &&& Word.mask dst.width)
      (p.registers.flag .carry)
    rw [AddSub.toNat_signedValue p src hle] at hresult
    show Comparison.Leaves dst.width x y (p.registers.withFlags r.flags).flag
    rw [show r = _ from hresult]
    exact Comparison.leaves_flags hpos ⟨Int.emod_nonneg _ hbound, Int.emod_lt_of_pos _ hbound'⟩
      ⟨Int.emod_nonneg _ hbound, Int.emod_lt_of_pos _ hbound'⟩ p.registers _

/-- A conditional instruction after a comparison takes effect exactly if what its suffix says holds of the operands of
the comparison: the values of the destination and of the source, the latter with its sign extended from its own width,
both cut to the width of the destination. A jump is taken then, a set stores one and otherwise zero, and a move copies
its source. The comparison itself changes nothing but flags. -/
theorem execute_compare (hi : m.listing.decode? a = some i) (hcmp : i.mnemonic = "cmp")
    (hdst : i.operands[0]? = some dst) (hsrc : i.operands[1]? = some src) (hpos : 1 ≤ dst.width) (hle : dst.width ≤ 8) :
    let p := m.prepare a i
    let bound : Int := 2 ^ (8 * dst.width)
    let x := (p.operandValue dst).toNat % bound
    let y := Int.bmod (p.operandValue src).toNat (2 ^ (8 * src.width)) % bound
    ∃ m', execute a m = .ok () m' ∧ m'.memory = m.memory ∧
      (∀ name, ¬ m.arch.namesFlags name → m'.registers.get name = p.registers.get name) ∧
      ∀ relation ∈ Comparison.relations dst.width x y, ∀ suffix ∈ relation.1, ∀ b j o,
        m.listing.decode? b = some j → j.operands[0]? = some o →
        let q := m'.prepare b j
        (j.mnemonic = "j" ++ suffix → ∃ m'', execute b m' = .ok () m'' ∧
          (relation.2 → m'' = q.withIp (q.operandValue o)) ∧ (¬ relation.2 → m'' = q)) ∧
        (j.mnemonic = "set" ++ suffix → o.IsPlace m.arch → 1 ≤ o.width → o.width ≤ 8 →
          ∃ m'', execute b m' = .ok () m'' ∧
            (relation.2 → m''.operandValue o = 1) ∧ (¬ relation.2 → m''.operandValue o = 0)) ∧
        (j.mnemonic = "cmov" ++ suffix → ∀ v, j.operands[1]? = some v → o.IsPlace m.arch → o.width ≤ 8 →
          ∃ m'', execute b m' = .ok () m'' ∧
            (relation.2 → (m''.operandValue o).toNat = (q.operandValue v).toNat % 2 ^ (8 * o.width)) ∧
            (¬ relation.2 → m'' = q)) := by
  intro p bound x y
  obtain ⟨fs, hrun, hleaves⟩ := execute_cmp hi hcmp hdst hsrc hpos hle
  let m' := p.withRegisters (p.registers.withFlags fs)
  have harch : m'.arch = m.arch := (p.registers.arch_withFlags fs).trans (m.arch_prepare a i)
  have hlisting : m'.listing = m.listing := m.listing_prepare a i
  have hkept : ∀ name, ¬ m.arch.namesFlags name → m'.registers.get name = p.registers.get name := by
    intro name hname
    rw [← m.arch_prepare a i] at hname
    exact p.registers.get_withFlags fs hname
  have hbound : 0 < bound := Int.pow_pos (by decide)
  refine ⟨m', hrun, m.memory_prepare a i, hkept, ?_⟩
  intro relation hrelation suffix hsuffix b j o hj ho q
  rw [← hlisting] at hj
  obtain ⟨c, hc, hiff⟩ : ∃ c, (suffix, c) ∈ Condition.suffixes ∧ (c.eval m'.registers.flag = true ↔ relation.2) :=
    Comparison.exists_condition hpos ⟨Int.emod_nonneg _ hbound.ne', Int.emod_lt_of_pos _ hbound⟩
      ⟨Int.emod_nonneg _ hbound.ne', Int.emod_lt_of_pos _ hbound⟩ hleaves relation hrelation suffix hsuffix
  have hplace : o.IsPlace m.arch → o.IsPlace q.arch := by
    rw [m'.arch_prepare b j, harch]
    exact id
  refine ⟨fun hname => ?_, fun hname hfits hpos' hle' => ?_, fun hname v hv hfits hle' => ?_⟩
  · exact ⟨_, execute_branchIf hc hj hname ho, fun h => if_pos (hiff.2 h), fun h => if_neg fun hh => h (hiff.1 hh)⟩
  · obtain ⟨m'', hstore, hstored⟩ := store_place (hplace hfits) hle' (if c.eval m'.registers.flag then 1 else 0)
    have hone : 2 ≤ 2 ^ (8 * o.width) := Nat.le_self_pow (by omega) 2
    refine ⟨m'', (execute_setIf hc hj hname ho).trans hstore, fun h => ?_, fun h => ?_⟩
    · rw [if_pos (hiff.2 h)] at hstored
      exact UInt64.toNat_inj.1 (hstored.toNat_value.trans (Nat.mod_eq_of_lt hone))
    · rw [if_neg fun hh => h (hiff.1 hh)] at hstored
      exact UInt64.toNat_inj.1 (hstored.toNat_value.trans (Nat.zero_mod _))
  · have hmove := execute_moveIf hc hj hname ho hv
    by_cases h : relation.2
    · obtain ⟨m'', hstore, hstored⟩ := store_place (hplace hfits) hle' (q.operandValue v)
      exact ⟨m'', (hmove.trans (if_pos (hiff.2 h))).trans hstore, fun _ => hstored.toNat_value, fun hn => (hn h).elim⟩
    · exact ⟨q, hmove.trans (if_neg fun hh => h (hiff.1 hh)), fun hp => (h hp).elim, fun _ => rfl⟩

/-- Zero is greater than minus one, which is below nothing without its sign. -/
theorem execute_compare_minus_one :
    let i := Instruction.of 0x1000 "cmp" 3 [.ofRegister "eax" 4, .ofImmediate "-1" 1 0xFFFFFFFFFFFFFFFF]
    let j := Instruction.of 0x1003 "jg" 2 [.ofNear "greater" 4 0x5000]
    let m := Machine.fresh (((Listing.empty .x86).addInstruction i).addInstruction j) {}
    ∃ m', execute 0x1000 m = .ok () m' ∧ execute 0x1003 m' = .ok () ((m'.prepare 0x1003 j).withIp 0x5000) := by
  intro i j m
  have hi : m.listing.decode? 0x1000 = some i := by decide +kernel
  have hj : m.listing.decode? 0x1003 = some j := by decide +kernel
  have hdst : i.operands[0]? = some (.ofRegister "eax" 4) := rfl
  have hsrc : i.operands[1]? = some (.ofImmediate "-1" 1 0xFFFFFFFFFFFFFFFF) := rfl
  obtain ⟨m', hcompare, -, -, hconditional⟩ :=
    execute_compare hi (by decide +kernel) hdst hsrc (by decide) (by decide)
  have hx : (m.prepare 0x1000 i).operandValue (.ofRegister "eax" 4) = 0 := by decide +kernel
  have hy : (m.prepare 0x1000 i).operandValue (.ofImmediate "-1" 1 0xFFFFFFFFFFFFFFFF) = 0xFF := by decide +kernel
  rw [hx, hy] at hconditional
  have hrow : (["g", "nle"], Int.bmod 0 (2 ^ 32) > Int.bmod 0xFFFFFFFF (2 ^ 32)) ∈
      Comparison.relations 4 0 0xFFFFFFFF := by simp [Comparison.relations]
  obtain ⟨hjump, -, -⟩ := hconditional _ hrow "g" (by simp) 0x1003 j (.ofNear "greater" 4 0x5000) hj rfl
  obtain ⟨m'', hrun, htaken, -⟩ := hjump (by decide +kernel)
  obtain rfl := htaken (by decide)
  exact ⟨m', hcompare, hrun⟩

end Machine
end PathReplay
