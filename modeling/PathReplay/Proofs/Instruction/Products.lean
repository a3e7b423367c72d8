import PathReplay.Proofs.Instruction.Quotients

/-!
# Multiplication

* `Arithmetic.bmod_toDouble`, `Arithmetic.bmod_product` : products as double-width values;
* `Machine.Multiplied`, `multiply_pair`, `multiplySigned_pair` : the accumulators after a multiplication, as
  numbers;
* `Instruction.factors?`, `multiplySigned_place` : a signed product in a place of its own;
* `execute_multiplication` : products are exact, and a division undoes a multiplication.
-/

namespace PathReplay

namespace Arithmetic

variable {width : Nat}

theorem overflowsUnsigned_eq (h : width ≤ 8) (product : Nat) :
    overflowsUnsigned width product = decide (product / 2 ^ (8 * width) ≠ 0) := by
  rw [overflowsUnsigned, halfShift_of_lt (by omega), Nat.shiftRight_eq_div_pow, Bool.eq_iff_iff, bne_iff_ne,
    decide_eq_true_eq]

/-- The product of two values in two's complement fits twice their width. -/
theorem bmod_product (hpos : 1 ≤ width) (x y : Int) :
    let product := x.bmod (2 ^ (8 * width)) * y.bmod (2 ^ (8 * width))
    product.bmod (2 ^ (2 * (8 * width))) = product := by
  intro product
  have hrange : ∀ z : Int, -2 ^ (8 * width - 1) ≤ z.bmod (2 ^ (8 * width)) ∧
      z.bmod (2 ^ (8 * width)) < 2 ^ (8 * width - 1) :=
    fun z => (Word.bmod_eq_self_iff hpos).1 Int.bmod_bmod
  obtain ⟨hxlo, hxhi⟩ := hrange x
  obtain ⟨hylo, hyhi⟩ := hrange y
  have hhalf : (2 : Int) ^ (8 * width - 1) = (2 ^ (8 * width - 1) : Nat) := by push_cast; rfl
  have hproduct : product.natAbs ≤ 2 ^ (8 * width - 1) * 2 ^ (8 * width - 1) := by
    rw [Int.natAbs_mul]
    exact Nat.mul_le_mul (by omega) (by omega)
  have hdouble : 2 ^ (8 * (2 * width) - 1) = 2 * (2 ^ (8 * width - 1) * 2 ^ (8 * width - 1)) := by
    rw [← Nat.pow_add, ← Nat.pow_succ']
    congr 1
    omega
  have hdouble' : (2 : Int) ^ (8 * (2 * width) - 1) = (2 ^ (8 * (2 * width) - 1) : Nat) := by push_cast; rfl
  have hpositive : 0 < 2 ^ (8 * width - 1) * 2 ^ (8 * width - 1) := Nat.mul_pos (Nat.two_pow_pos _) (Nat.two_pow_pos _)
  rw [show 2 * (8 * width) = 8 * (2 * width) by omega, Word.bmod_eq_self_iff (by omega), hdouble']
  omega

/-- A double-width value has the low bits of the integer that it is of. -/
theorem bmod_toDouble {bits : Nat} (h : bits ≤ 128) (product : Int) :
    Int.bmod (toDouble product % 2 ^ bits : Nat) (2 ^ bits) = product.bmod (2 ^ bits) := by
  have hdvd : 2 ^ bits ∣ doubleCount := by
    rw [doubleCount, Nat.one_shiftLeft]
    exact Nat.pow_dvd_pow 2 h
  have hnonneg : 0 ≤ product % (doubleCount : Int) := Int.emod_nonneg _ (by decide)
  rw [Word.bmod_mod, toDouble, Int.toNat_of_nonneg hnonneg]
  calc _ = Int.bmod (Int.bmod (product % doubleCount) doubleCount) (2 ^ bits) := (Int.bmod_bmod_of_dvd hdvd).symm
    _ = Int.bmod (Int.bmod product doubleCount) (2 ^ bits) := by rw [Int.emod_bmod]
    _ = _ := Int.bmod_bmod_of_dvd hdvd

end Arithmetic

/-- The two flags of a product, which are the same. -/
theorem Registers.flag_productFlags (r : Registers) (overflows : Bool) :
    ∀ f ∈ [Flag.carry, .overflow], (r.withFlags (Arithmetic.productFlags overflows)).flag f = overflows := by
  intro f hf
  have hnodup : ((Arithmetic.productFlags overflows).map (·.1)).Nodup := (by decide : [Flag.carry, .overflow].Nodup)
  rw [r.flag_withFlags hnodup]
  simp only [List.mem_cons, List.not_mem_nil, or_false] at hf
  rcases hf with rfl | rfl <;> rfl

/-- The destination and the two factors of a signed multiplication that names its destination, which is also the first
factor if only two operands are given. -/
def Instruction.factors? (i : Instruction) : Option (Operand × Operand × Operand) :=
  match i.operands with
  | [x, y] => some (x, x, y)
  | dst :: x :: y :: _ => some (dst, x, y)
  | _ => none

namespace Machine

variable {m m' : Machine} {a b : Address} {i j : Instruction} {src dst o x y : Operand} {high low : String} {width : Nat}

/-- What a multiplication leaves in the accumulators, with the flags that tell whether it overflows. -/
structure Multiplied (m m' : Machine) (width : Nat) (high low : String) (n : Nat) (overflows : Bool) : Prop where
  toNat_low : (m'.registerOrZero low).toNat = n % 2 ^ (8 * width)
  toNat_high : (m'.registerOrZero high).toNat = n / 2 ^ (8 * width) % 2 ^ (8 * width)
  flag : ∀ f ∈ [Flag.carry, .overflow], m'.registers.flag f = overflows
  arch : m'.arch = m.arch
  listing : m'.listing = m.listing

/-- A multiplication ends by setting flags and storing its product. -/
theorem storeProduct_multiplied (hpair : (width, high, low) ∈ m.arch.pairs) (n : Nat) (overflows : Bool) :
    ∃ m', (do Exec.setFlags (Arithmetic.productFlags overflows); Exec.storeProduct n width : Exec Unit) m = .ok () m' ∧
      m.Multiplied m' width high low n overflows := by
  let q := m.withRegisters (m.registers.withFlags (Arithmetic.productFlags overflows))
  have harch : q.registers.arch = m.arch := m.registers.arch_withFlags _
  obtain ⟨f, g, h⟩ := q.registers.arch.exists_isPair (harch.symm ▸ hpair)
  obtain ⟨m', hstore, hpaired⟩ := storeProduct_pair h n
  have hflag := m.registers.flag_productFlags overflows
  exact ⟨m', hstore, hpaired.toNat_low, hpaired.toNat_high, fun f hf => (hpaired.flag f).trans (hflag f hf),
    hpaired.arch.trans harch, hpaired.listing⟩

namespace Multiplied

variable {n y : Nat} {overflows : Bool}

/-- The double-width value that a multiplication leaves. -/
theorem doubleValue (h : m.Multiplied m' width high low n overflows) (hpair : (width, high, low) ∈ m.arch.pairs) :
    m'.doubleValue width high low = n % 2 ^ (2 * (8 * width)) := by
  obtain ⟨f, g, hwindows⟩ := m.registers.arch.exists_isPair hpair
  rw [doubleValue_eq hwindows.accumulators, h.toNat_low, h.toNat_high, Nat.two_mul, Nat.pow_add, Nat.mod_mul]
  rw [Nat.mul_comm, Nat.add_comm]

/-- The product of two values of the width is left as a whole. -/
theorem doubleValue_mul (h : m.Multiplied m' width high low (n * y) overflows)
    (hpair : (width, high, low) ∈ m.arch.pairs) (hn : n < 2 ^ (8 * width)) (hy : y < 2 ^ (8 * width)) :
    m'.doubleValue width high low = n * y := by
  rw [h.doubleValue hpair, Nat.two_mul, Nat.pow_add]
  exact Nat.mod_eq_of_lt (Nat.mul_lt_mul'' hn hy)

/-- Its high half is what the flags tell of. -/
theorem flag_mul (h : m.Multiplied m' width high low (n * y) (decide (n * y / 2 ^ (8 * width) ≠ 0)))
    (hn : n < 2 ^ (8 * width)) (hy : y < 2 ^ (8 * width)) :
    ∀ f ∈ [Flag.carry, .overflow], (m'.registers.flag f = true ↔ m'.registerOrZero high ≠ 0) := by
  have hhigh : (m'.registerOrZero high).toNat = n * y / 2 ^ (8 * width) :=
    h.toNat_high.trans (Nat.mod_eq_of_lt (Nat.div_lt_of_lt_mul (Nat.mul_lt_mul'' hn hy)))
  intro f hf
  rw [h.flag f hf, decide_eq_true_eq, ← hhigh, Ne, Ne, ← UInt64.toNat_inj]
  rfl

/-- The product of two values in two's complement is left as a whole, and the flags tell whether it is more than its low
half. -/
theorem signed {x y : Int}
    (h : m.Multiplied m' width high low (Arithmetic.toDouble (x.bmod (2 ^ (8 * width)) * y.bmod (2 ^ (8 * width))))
      (Arithmetic.overflowsSigned width (x.bmod (2 ^ (8 * width)) * y.bmod (2 ^ (8 * width)))))
    (hpair : (width, high, low) ∈ m.arch.pairs) :
    let product := x.bmod (2 ^ (8 * width)) * y.bmod (2 ^ (8 * width))
    Int.bmod (m'.doubleValue width high low) (2 ^ (2 * (8 * width))) = product ∧
      ∀ f ∈ [Flag.carry, .overflow],
        (m'.registers.flag f = true ↔ product ≠ Int.bmod (m'.registerOrZero low).toNat (2 ^ (8 * width))) := by
  intro product
  obtain ⟨f, g, hwindows⟩ := m.registers.arch.exists_isPair hpair
  have hpos := hwindows.width_pos
  have hle := hwindows.width_le
  refine ⟨?_, fun f hf => ?_⟩
  · rw [h.doubleValue hpair, Arithmetic.bmod_toDouble (by omega)]
    exact Arithmetic.bmod_product hpos x y
  · rw [h.flag f hf, Arithmetic.overflowsSigned_eq hpos hle, decide_eq_true_eq, h.toNat_low,
      Arithmetic.bmod_toDouble (by omega), ← Word.bmod_eq_self_iff hpos]
    exact not_congr eq_comm

end Multiplied

theorem multiply_pair (hsrc : i.operands[0]? = some src) (hpair : (src.width, high, low) ∈ m.arch.pairs) :
    let n := (m.registerOrZero low).toNat * ((m.operandValue src).toNat % 2 ^ (8 * src.width))
    ∃ m', Exec.multiply i m = .ok () m' ∧
      m.Multiplied m' src.width high low n (decide (n / 2 ^ (8 * src.width) ≠ 0)) := by
  intro n
  obtain ⟨f, g, h⟩ := m.registers.arch.exists_isPair hpair
  have hn : (m.registerOrZero low).toNat * (m.operandValue src &&& Word.mask src.width).toNat = n := by
    rw [Word.toNat_and_mask _ h.width_le]
  have hrun : Exec.multiply i m = (do
      Exec.setFlags (Arithmetic.productFlags (Arithmetic.overflowsUnsigned src.width n))
      Exec.storeProduct n src.width : Exec Unit) m := by
    rw [← hn]
    unfold Exec.multiply Exec.operand
    rw [hsrc]
    exact Exec.bind_of_ok (register_low h)
  rw [hrun, Arithmetic.overflowsUnsigned_eq h.width_le]
  exact storeProduct_multiplied hpair n _

theorem multiplySigned_pair (hone : i.operands.length = 1) (hsrc : i.operands[0]? = some src)
    (hpair : (src.width, high, low) ∈ m.arch.pairs) :
    let bits := 8 * src.width
    let product := Int.bmod (m.registerOrZero low).toNat (2 ^ bits) *
      Int.bmod ((m.operandValue src).toNat % 2 ^ bits : Nat) (2 ^ bits)
    ∃ m', Exec.multiplySigned i m = .ok () m' ∧
      m.Multiplied m' src.width high low (Arithmetic.toDouble product)
        (Arithmetic.overflowsSigned src.width product) := by
  intro bits product
  obtain ⟨f, g, h⟩ := m.registers.arch.exists_isPair hpair
  have hproduct : Word.toInt (m.registerOrZero low) src.width * m.integerValue src = product := by
    rw [integerValue, Word.toInt_eq h.width_le, Word.toInt_eq h.width_le, ← Word.bmod_mod (m.operandValue src).toNat]
  have hrun : Exec.multiplySigned i m = (do
      Exec.setFlags (Arithmetic.productFlags (Arithmetic.overflowsSigned src.width product))
      Exec.storeProduct (Arithmetic.toDouble product) src.width : Exec Unit) m := by
    rw [← hproduct]
    unfold Exec.multiplySigned
    rw [if_pos hone]
    unfold Exec.multiplyAccumulator Exec.operand
    rw [hsrc]
    exact Exec.bind_of_ok (register_low h)
  rw [hrun]
  exact storeProduct_multiplied hpair _ _

theorem multiplySigned_eq (h : i.factors? = some (dst, x, y)) (m : Machine) :
    let product := m.integerValue x * m.integerValue y
    Exec.multiplySigned i m = Exec.finish dst
      { value := Word.ofInt product &&& Word.mask dst.width
        flags := Arithmetic.productFlags (Arithmetic.overflowsSigned dst.width product) } m := by
  intro product
  unfold Instruction.factors? at h
  unfold Exec.multiplySigned Exec.operand
  rcases hoperands : i.operands with _ | ⟨first, _ | ⟨second, _ | ⟨third, rest⟩⟩⟩ <;> rw [hoperands] at h
  · cases h
  · cases h
  · obtain ⟨rfl, rfl, rfl⟩ := Option.some_inj.1 h
    rfl
  · obtain ⟨rfl, rfl, rfl⟩ := Option.some_inj.1 h
    simp only [List.length_cons, if_neg (show rest.length + 1 + 1 + 1 ≠ 1 by omega),
      if_neg (show rest.length + 1 + 1 + 1 ≠ 2 by omega)]
    rfl

/-- A signed multiplication that names its destination stores the product there, cut to the width, and its flags tell
whether that is all of it. -/
theorem multiplySigned_place (h : i.factors? = some (dst, x, y)) (hplace : dst.IsPlace m.arch) (hpos : 1 ≤ dst.width)
    (hle : dst.width ≤ 8) (hx : x.width ≤ 8) (hy : y.width ≤ 8) :
    let product := Int.bmod (m.operandValue x).toNat (2 ^ (8 * x.width)) *
      Int.bmod (m.operandValue y).toNat (2 ^ (8 * y.width))
    let fits := -2 ^ (8 * dst.width - 1) ≤ product ∧ product < 2 ^ (8 * dst.width - 1)
    ∃ m', Exec.multiplySigned i m = .ok () m' ∧
      ((m'.operandValue dst).toNat : Int) = product % 2 ^ (8 * dst.width) ∧
      (∀ r, dst.kind = .memory r → (∀ name, r.base = some name ∨ r.index = some name → ¬ m.arch.namesFlags name) →
        m'.referenceAddress r = m.referenceAddress r) ∧
      ∀ f ∈ [Flag.carry, .overflow], (m'.registers.flag f = true ↔ ¬ fits) := by
  intro product fits
  have hproduct : m.integerValue x * m.integerValue y = product := by
    rw [integerValue, integerValue, Word.toInt_eq hx, Word.toInt_eq hy]
  let overflows := Arithmetic.overflowsSigned dst.width product
  obtain ⟨m', hfinish, hstored⟩ := finish_place (m := m) (o := dst)
    (r := { value := Word.ofInt product &&& Word.mask dst.width, flags := Arithmetic.productFlags overflows }) hplace hle
  refine ⟨m', ?_, ?_, fun r hr hnames => ?_, fun f hf => ?_⟩
  · rw [multiplySigned_eq h m, hproduct]
    exact hfinish
  · have hdvd : (2 : Int) ^ (8 * dst.width) ∣ 2 ^ 64 := by exact_mod_cast Word.two_pow_dvd hle
    rw [hstored.toNat_value, Word.toNat_and_mask _ hle, Nat.mod_mod, Int.natCast_emod, Word.toNat_ofInt]
    push_cast
    exact Int.emod_emod_of_dvd _ hdvd
  · have haddress := hstored.address
    rw [operandAddress?_memory hr, operandAddress?_memory hr, Option.some_inj] at haddress
    rw [haddress]
    exact m.referenceAddress_withFlags _ hnames
  · have hflag : m'.registers.flag f = overflows :=
      (hstored.flag f).trans (m.registers.flag_productFlags overflows f hf)
    rw [hflag, show overflows = _ from Arithmetic.overflowsSigned_eq hpos hle product, decide_eq_true_eq]

/-- A division by one factor of a product gives the other. -/
theorem divide_multiplied {n y : Nat} {overflows : Bool} (h : m.Multiplied m' width high low (n * y) overflows)
    (hpair : (width, high, low) ∈ m.arch.pairs) (hn : n < 2 ^ (8 * width)) (hy : y ≠ 0)
    (ho : j.operands[0]? = some o) (hwidth : o.width = width)
    (hvalue : ((m'.prepare b j).operandValue o).toNat % 2 ^ (8 * width) = y) :
    ∃ m'', Exec.divide j (m'.prepare b j) = .ok () m'' ∧ (m''.registerOrZero low).toNat = n ∧
      (m''.registerOrZero high).toNat = 0 := by
  subst hwidth
  have hylt : y < 2 ^ (8 * o.width) := hvalue ▸ Nat.mod_lt _ (Nat.two_pow_pos _)
  have hdouble := h.doubleValue_mul hpair hn hylt
  rw [← h.arch] at hpair
  obtain ⟨m'', hdivide, -, hresult⟩ := divide_pair (m := m'.prepare b j) ho ((m'.arch_prepare b j).symm ▸ hpair)
  rw [doubleValue_prepare hpair, hdouble, hvalue, Nat.mul_div_cancel _ (Nat.pos_of_ne_zero hy), if_pos ⟨hy, hn⟩,
    Nat.mul_mod_left] at hresult
  exact ⟨m'', hdivide, hresult⟩

/-- Multiplication is exact and undone by division. The accumulators receive the whole product, of values without sign
or in two's complement, and carry and overflow tell whether its low half is all of it. A signed multiplication that names
its destination stores the product there cut to the width, and the two flags tell whether it fits. A product without
sign that is divided by its second factor, which is not zero, leaves the first one and no remainder. -/
theorem execute_multiplication (hi : m.listing.decode? a = some i) :
    let p := m.prepare a i
    (∀ src high low, i.operands[0]? = some src → (src.width, high, low) ∈ m.arch.pairs →
      let bits := 8 * src.width
      let x := (p.registerOrZero low).toNat
      let y := (p.operandValue src).toNat % 2 ^ bits
      (i.mnemonic = "mul" → ∃ m', execute a m = .ok () m' ∧ m'.doubleValue src.width high low = x * y ∧
        (∀ f ∈ [Flag.carry, .overflow], (m'.registers.flag f = true ↔ m'.registerOrZero high ≠ 0)) ∧
        ∀ b j o, m.listing.decode? b = some j → j.mnemonic = "div" → j.operands[0]? = some o → o.width = src.width →
          y ≠ 0 → ((m'.prepare b j).operandValue o).toNat % 2 ^ bits = y →
          ∃ m'', execute b m' = .ok () m'' ∧ m''.registerOrZero low = p.registerOrZero low ∧
            m''.registerOrZero high = 0) ∧
      (i.mnemonic = "imul" → i.operands.length = 1 →
        let product := Int.bmod x (2 ^ bits) * Int.bmod y (2 ^ bits)
        ∃ m', execute a m = .ok () m' ∧ Int.bmod (m'.doubleValue src.width high low) (2 ^ (2 * bits)) = product ∧
          ∀ f ∈ [Flag.carry, .overflow],
            (m'.registers.flag f = true ↔ product ≠ Int.bmod (m'.registerOrZero low).toNat (2 ^ bits)))) ∧
    (i.mnemonic = "imul" → ∀ dst x y, i.factors? = some (dst, x, y) → dst.IsPlace m.arch → 1 ≤ dst.width →
      dst.width ≤ 8 → x.width ≤ 8 → y.width ≤ 8 →
      let product := Int.bmod (p.operandValue x).toNat (2 ^ (8 * x.width)) *
        Int.bmod (p.operandValue y).toNat (2 ^ (8 * y.width))
      ∃ m', execute a m = .ok () m' ∧ ((m'.operandValue dst).toNat : Int) = product % 2 ^ (8 * dst.width) ∧
        (∀ r, dst.kind = .memory r → (∀ name, r.base = some name ∨ r.index = some name → ¬ m.arch.namesFlags name) →
          m'.referenceAddress r = p.referenceAddress r) ∧
        ∀ f ∈ [Flag.carry, .overflow], (m'.registers.flag f = true ↔
          ¬ (-2 ^ (8 * dst.width - 1) ≤ product ∧ product < 2 ^ (8 * dst.width - 1)))) := by
  intro p
  have harch : p.arch = m.arch := m.arch_prepare a i
  refine ⟨fun src high low hsrc hpair => ?_, fun himul dst x y hfactors hplace hpos hle hx hy => ?_⟩
  · rw [← harch] at hpair
    obtain ⟨f, g, h⟩ := p.registers.arch.exists_isPair hpair
    intro bits x y
    have hx : x < 2 ^ bits := toNat_low_lt h
    have hy : y < 2 ^ bits := Nat.mod_lt _ (Nat.two_pow_pos _)
    refine ⟨fun hmul => ?_, fun himul hone => ?_⟩
    · obtain ⟨m', hmultiply, hmultiplied⟩ := multiply_pair hsrc hpair
      refine ⟨m', (execute_of_name hi hmul rfl).trans hmultiply, hmultiplied.doubleValue_mul hpair hx hy,
        hmultiplied.flag_mul hx hy, ?_⟩
      intro b j o hj hdiv ho hwidth hzero hvalue
      have hlisting : m'.listing = m.listing := hmultiplied.listing.trans (m.listing_prepare a i)
      obtain ⟨m'', hdivide, hlow, hhigh⟩ := divide_multiplied hmultiplied hpair hx hzero ho hwidth hvalue
      exact ⟨m'', (execute_of_name (hlisting ▸ hj) hdiv rfl).trans hdivide, UInt64.toNat_inj.1 hlow,
        UInt64.toNat_inj.1 hhigh⟩
    · obtain ⟨m', hmultiply, hmultiplied⟩ := multiplySigned_pair hone hsrc hpair
      exact ⟨m', (execute_of_name hi himul rfl).trans hmultiply, hmultiplied.signed hpair⟩
  · obtain ⟨m', hmultiply, hvalue, haddress, hflag⟩ :=
      multiplySigned_place hfactors (harch ▸ hplace) hpos hle hx hy
    exact ⟨m', (execute_of_name hi himul rfl).trans hmultiply, hvalue, harch ▸ haddress, hflag⟩

/-- The largest word, multiplied by three and divided again. -/
theorem execute_multiplication_word :
    let src := Operand.ofRegister "ecx" 4
    let i := Instruction.of 0x1000 "mul" 2 [src]
    let j := Instruction.of 0x1002 "div" 2 [src]
    let m := (do Exec.setRegister "eax" 0xFFFFFFFF; Exec.setRegister "ecx" 3 : Exec Unit).after
      (Machine.fresh (((Listing.empty .x86).addInstruction i).addInstruction j) {})
    ∃ m' m'', execute 0x1000 m = .ok () m' ∧ m'.doubleValue 4 "edx" "eax" = 0x2FFFFFFFD ∧
      m'.registers.flag .carry = true ∧ execute 0x1002 m' = .ok () m'' ∧ m''.registerOrZero "eax" = 0xFFFFFFFF ∧
      m''.registerOrZero "edx" = 0 := by
  intro src i j m
  have hpair : (src.width, "edx", "eax") ∈ m.arch.pairs := by
    rw [show m.arch = .x86 by decide +kernel]
    show (4, "edx", "eax") ∈ Arch.x86.pairs
    simp [Arch.pairs]
  have hx : (m.prepare 0x1000 i).registerOrZero "eax" = 0xFFFFFFFF := by decide +kernel
  have hy : ((m.prepare 0x1000 i).operandValue src).toNat = 3 := by decide +kernel
  obtain ⟨hunsigned, -⟩ := execute_multiplication (m := m) (a := 0x1000) (i := i) (by decide +kernel)
  obtain ⟨hmul, -⟩ := hunsigned src "edx" "eax" rfl hpair
  obtain ⟨m', hrun, hdouble, hflag, hdiv⟩ := hmul (by decide +kernel)
  have hafter : m' = (execute 0x1000).after m := by rw [Exec.after, hrun]
  rw [hx, hy] at hdouble hdiv
  have hhigh : m'.registerOrZero "edx" ≠ 0 := by
    rw [hafter]
    decide +kernel
  have hvalue : ((m'.prepare 0x1002 j).operandValue src).toNat % 2 ^ (8 * src.width) = 3 := by
    rw [hafter]
    decide +kernel
  obtain ⟨m'', hrun', hlow, hhigh'⟩ :=
    hdiv 0x1002 j src (by decide +kernel) (by decide +kernel) rfl rfl (by decide) hvalue
  exact ⟨m', m'', hrun, hdouble, (hflag .carry (by simp)).2 hhigh, hrun', hlow, hhigh'⟩

end Machine
end PathReplay
