import PathReplay.Proofs.Instruction.TwosComplement
import PathReplay.Proofs.Machine.Places

/-!
# Instructions that add and subtract

* `AddSub`, `AddSub.exact` : the instructions, and the integer that each of them computes;
* `execute_eq_store_result` : the last step of an instruction, which stores the remainder of that integer;
* `execute_addSub` : what they store and how they set the flags, against these integers.
-/

namespace PathReplay

/-! ## The instructions -/

inductive AddSub where
  | add
  | adc
  | sub
  | sbb
  | cmp
  | inc
  | dec
  | neg
deriving DecidableEq

namespace AddSub

open Arithmetic

variable {k : AddSub} {i : Instruction} {dst src : Operand}

def mnemonic : AddSub → String
  | add => "add"
  | adc => "adc"
  | sub => "sub"
  | sbb => "sbb"
  | cmp => "cmp"
  | inc => "inc"
  | dec => "dec"
  | neg => "neg"

def operation : AddSub → Operation
  | add => .add false
  | adc => .add true
  | sub => .subtract false
  | sbb => .subtract true
  | cmp => .compare
  | inc => .increment
  | dec => .decrement
  | neg => .negate

def hasSource : AddSub → Bool
  | inc | dec | neg => false
  | _ => true

def keepsCarry : AddSub → Bool
  | inc | dec => true
  | _ => false

def exact (k : AddSub) (x y carry : Int) : Int :=
  match k with
  | add => x + y
  | adc => x + y + carry
  | sub | cmp => x - y
  | sbb => x - y - carry
  | inc => x + 1
  | dec => x - 1
  | neg => -x

def result (k : AddSub) (width : Nat) (a b : UInt64) (carry : Bool) : Result :=
  match k with
  | add => sum width a b false
  | adc => sum width a b carry
  | sub | cmp => difference width a b false
  | sbb => difference width a b carry
  | inc => (sum width a 1 false).keepingCarry
  | dec => (difference width a 1 false).keepingCarry
  | neg => difference width 0 a false

theorem ofMnemonic?_mnemonic (k : AddSub) : Operation.ofMnemonic? k.mnemonic = some k.operation := by
  cases k <;> rfl

theorem binary_eq (hdst : i.operands[0]? = some dst) (hsrc : i.operands[1]? = some src) (m : Machine) :
    Exec.binary i m = .ok (dst, m.operandValue dst, m.signedValue src &&& Word.mask dst.width) m := by
  unfold Exec.binary Exec.operand
  rw [hdst, hsrc]
  rfl

/-- The instruction sets the flags of its result and stores its value, which a comparison does not. -/
theorem run_operation (k : AddSub) (hdst : i.operands[0]? = some dst)
    (hsrc : k.hasSource = true → i.operands[1]? = some src) (m : Machine) :
    let r := k.result dst.width (m.operandValue dst) (m.signedValue src &&& Word.mask dst.width)
      (m.registers.flag .carry)
    let m' := m.withRegisters (m.registers.withFlags r.flags)
    k.operation.run i m = if k = .cmp then .ok () m' else Exec.store dst r.value m' := by
  intro r m'
  have hoperand : Exec.operand i 0 = pure dst := by rw [Exec.operand, hdst]
  cases k with
  | add | adc | sub | sbb =>
    simp only [operation, Operation.run, Exec.add, Exec.subtract]
    exact (Exec.bind_of_ok (binary_eq hdst (hsrc rfl) m)).trans rfl
  | cmp =>
    simp only [operation, Operation.run, Exec.compare]
    exact (Exec.bind_of_ok (binary_eq hdst (hsrc rfl) m)).trans rfl
  | inc | dec | neg =>
    simp only [operation, Operation.run, Exec.increment, Exec.decrement, Exec.negate, hoperand]
    rfl

/-- One is itself at every width, also in two's complement. -/
theorem one_of_width {width : Nat} (hpos : 1 ≤ width) :
    ((1 : UInt64).toNat : Int) % 2 ^ (8 * width) = 1 ∧ Int.bmod 1 (2 ^ (8 * width)) = 1 := by
  obtain ⟨k, hk, hcount, -⟩ := Word.exists_halves hpos
  have hone : ((1 : UInt64).toNat : Int) = 1 := rfl
  have hcount' : (2 : Int) ^ (8 * width) = 256 * k := by exact_mod_cast hcount
  rw [hone, hcount', hcount]
  exact ⟨Int.emod_eq_of_lt (by decide) (by omega), Int.bmod_eq_of_le (by omega) (by omega)⟩

theorem result_eq (k : AddSub) {width : Nat} (hpos : 1 ≤ width) (hle : width ≤ 8) (a b : UInt64) (carry : Bool) :
    let x : Int := a.toNat % 2 ^ (8 * width)
    let y : Int := b.toNat % 2 ^ (8 * width)
    let r := exactResult width (k.exact x y carry.toNat)
      (k.exact (x.bmod (2 ^ (8 * width))) (y.bmod (2 ^ (8 * width))) carry.toNat)
      (k.exact (x % 16) (y % 16) carry.toNat)
    k.result width a b carry = if k.keepsCarry then r.keepingCarry else r := by
  intro x y r
  have hfalse : ((false.toNat : Nat) : Int) = 0 := rfl
  cases k with
  | add | adc =>
    simp only [result, sum_eq hpos hle, keepsCarry, Bool.false_eq_true, if_false, r, exact, hfalse, Int.add_zero, x, y]
  | sub | sbb | cmp =>
    simp only [result, difference_eq hpos hle, keepsCarry, Bool.false_eq_true, if_false, r, exact, hfalse, Int.sub_zero,
      x, y]
  | inc =>
    simp only [result, sum_eq hpos hle, keepsCarry, if_true, r, exact, hfalse, Int.add_zero, x, one_of_width hpos]
    rfl
  | dec =>
    simp only [result, difference_eq hpos hle, keepsCarry, if_true, r, exact, hfalse, Int.sub_zero, x,
      one_of_width hpos]
    rfl
  | neg =>
    simp only [result, difference_eq hpos hle, keepsCarry, Bool.false_eq_true, if_false, r, exact, hfalse, Int.sub_zero,
      x, UInt64.toNat_zero, Int.natCast_zero, Int.zero_emod, Int.zero_bmod, Int.zero_sub]

/-- The source at the destination's width, its sign extended from its own. -/
theorem toNat_signedValue (m : Machine) (src : Operand) {width : Nat} (hle : width ≤ 8) :
    ((m.signedValue src &&& Word.mask width).toNat : Int) % 2 ^ (8 * width) =
      Int.bmod (m.operandValue src).toNat (2 ^ (8 * src.width)) % 2 ^ (8 * width) := by
  have hdvd : (2 : Int) ^ (8 * width) ∣ 2 ^ 64 := by exact_mod_cast Word.two_pow_dvd hle
  rw [Word.toNat_and_mask _ hle, Int.natCast_emod, Machine.signedValue, Word.toNat_signExtend]
  push_cast
  rw [Int.emod_emod]
  exact Int.emod_emod_of_dvd _ hdvd

theorem toNat_value_exactResult (keeps : Bool) {width : Nat} (hle : width ≤ 8) (unsigned signed nibble : Int) :
    let e := exactResult width unsigned signed nibble
    (if keeps then e.keepingCarry else e).value.toNat = (unsigned % 2 ^ (8 * width)).toNat := by
  intro e
  have hbound : (2 : Int) ^ (8 * width) ≤ 2 ^ 64 := by
    exact_mod_cast Nat.pow_le_pow_right (n := 2) (by decide) (show 8 * width ≤ 64 by omega)
  have hlt := Int.emod_lt_of_pos unsigned (b := 2 ^ (8 * width)) (Int.pow_pos (by decide))
  have hvalue : (if keeps then e.keepingCarry else e).value = UInt64.ofNat (unsigned % 2 ^ (8 * width)).toNat := by
    cases keeps <;> rfl
  rw [hvalue, UInt64.toNat_ofNat', Nat.mod_eq_of_lt]
  omega

/-- The flags after a write of those of an exact result, with or without the carry flag. -/
theorem flag_withFlags_exactResult (r : Registers) (keeps : Bool) (width : Nat) (unsigned signed nibble : Int) :
    let e := exactResult width unsigned signed nibble
    let r' := r.withFlags (if keeps then e.keepingCarry else e).flags
    let bound : Int := 2 ^ (8 * width)
    let half : Int := 2 ^ (8 * width - 1)
    let n := (unsigned % bound).toNat
    (r'.flag .carry = true ↔ if keeps then r.flag .carry = true else ¬ (0 ≤ unsigned ∧ unsigned < bound)) ∧
      (r'.flag .overflow = true ↔ ¬ (-half ≤ signed ∧ signed < half)) ∧
      (r'.flag .zero = true ↔ n = 0) ∧
      (r'.flag .sign = true ↔ n.testBit (8 * width - 1) = true) ∧
      (r'.flag .parity = true ↔ (List.range 8).countP n.testBit % 2 = 0) ∧
      (r'.flag .adjust = true ↔ ¬ (0 ≤ nibble ∧ nibble < 16)) := by
  intro e r' bound half n
  have hflag : ∀ f, r'.flag f = ((if keeps then e.keepingCarry else e).flags.lookup f).getD (r.flag f) := by
    refine r.flag_withFlags ?_
    cases keeps
    · exact (by decide : [Flag.carry, .overflow, .adjust, .zero, .sign, .parity].Nodup)
    · exact (by decide : [Flag.overflow, .adjust, .zero, .sign, .parity].Nodup)
  simp only [hflag]
  cases keeps
  · exact ⟨decide_eq_true_iff, decide_eq_true_iff, decide_eq_true_iff, Iff.rfl, beq_iff_eq, decide_eq_true_iff⟩
  · exact ⟨Iff.rfl, decide_eq_true_iff, decide_eq_true_iff, Iff.rfl, beq_iff_eq, decide_eq_true_iff⟩

end AddSub

namespace Machine

open Arithmetic

variable {m : Machine} {a : Address} {i : Instruction} {dst src : Operand}

/-- The store, if there is one, leaves the flags and the place of the destination. -/
theorem store_unless (k : AddSub) {q : Machine} {v : UInt64} (hplace : dst.IsPlace q.arch) (hle : dst.width ≤ 8)
    (hv : v.toNat < 2 ^ (8 * dst.width)) :
    ∃ m', (if k = .cmp then .ok () q else Exec.store dst v q) = .ok () m' ∧
      (if k = .cmp then m' = q else m'.operandValue dst = v) ∧ m'.operandAddress? dst = q.operandAddress? dst ∧
      ∀ f, m'.registers.flag f = q.registers.flag f := by
  by_cases hcmp : k = .cmp
  · exact ⟨q, if_pos hcmp, by rw [if_pos hcmp], rfl, fun _ => rfl⟩
  · obtain ⟨m', hstore, hstored⟩ := store_place hplace hle v
    have hholds : m'.operandValue dst = v := UInt64.toNat_inj.1 (hstored.toNat_value.trans (Nat.mod_eq_of_lt hv))
    exact ⟨m', by rw [if_neg hcmp, hstore], by rw [if_neg hcmp, hholds], hstored.address, hstored.flag⟩

/-- Any of the instructions but a comparison ends by storing the remainder of the integer that it computes, after it has
set the flags. -/
theorem execute_eq_store_result (k : AddSub) (hi : m.listing.decode? a = some i) (hk : i.mnemonic = k.mnemonic)
    (hdst : i.operands[0]? = some dst) (hsrc : k.hasSource = true → i.operands[1]? = some src) (hcmp : k ≠ .cmp)
    (hplace : dst.IsPlace m.arch) (hpos : 1 ≤ dst.width) (hle : dst.width ≤ 8) :
    let p := m.prepare a i
    let bound : Int := 2 ^ (8 * dst.width)
    let x : Int := (p.operandValue dst).toNat
    let y : Int := Int.bmod (p.operandValue src).toNat (2 ^ (8 * src.width)) % bound
    let e := k.exact x y (m.registers.flag .carry).toNat
    ∃ r : Result,
      execute a m = Exec.store dst r.value (p.withRegisters (p.registers.withFlags r.flags)) ∧
      (r.value.toNat : Int) = e % bound ∧
      ((p.registers.withFlags r.flags).flag .carry = true ↔
        if k.keepsCarry then m.registers.flag .carry = true else ¬ (0 ≤ e ∧ e < bound)) := by
  intro p bound x y e
  have hcarry : p.registers.flag .carry = m.registers.flag .carry := m.flag_prepare a i .carry
  have hx : ((p.operandValue dst).toNat : Int) % 2 ^ (8 * dst.width) = x := by
    have hlt : (p.operandValue dst).toNat < 2 ^ (8 * dst.width) :=
      toNat_operandValue_lt (m.arch_prepare a i ▸ hplace) hle
    exact Int.emod_eq_of_lt (Int.natCast_nonneg _) (by exact_mod_cast hlt)
  let r := k.result dst.width (p.operandValue dst) (p.signedValue src &&& Word.mask dst.width) (m.registers.flag .carry)
  have hrun := k.run_operation hdst hsrc p
  dsimp only at hrun
  rw [if_neg hcmp, hcarry] at hrun
  have hr := k.result_eq hpos hle (p.operandValue dst) (p.signedValue src &&& Word.mask dst.width)
    (m.registers.flag .carry)
  rw [AddSub.toNat_signedValue p src hle, hx] at hr
  refine ⟨r, (execute_of_mnemonic hi (hk ▸ k.ofMnemonic?_mnemonic)).trans hrun, ?_, ?_⟩
  · have hnonneg : 0 ≤ e % bound := Int.emod_nonneg _ (Int.ne_of_gt (Int.pow_pos (by decide)))
    rw [show r = _ from hr, AddSub.toNat_value_exactResult _ hle, Int.toNat_of_nonneg hnonneg]
  · rw [show r = _ from hr]
    refine (AddSub.flag_withFlags_exactResult p.registers k.keepsCarry dst.width _ _ _).1.trans ?_
    rw [hcarry]

/-- Addition, subtraction, comparison, increment, decrement and negation against two's complement. The instruction
computes an integer from the values of its operands, the source with its sign extended from its own width, and the carry
flag. It stores the remainder of the integer modulo the bound of the destination's width, unless it is a comparison.
Carry tells that the integer of the operands without sign leaves the width, overflow that the one in two's complement
does, and adjust that the one of their low four bits leaves these; increments and decrements keep the carry. -/
theorem execute_addSub (k : AddSub) (hi : m.listing.decode? a = some i) (hk : i.mnemonic = k.mnemonic)
    (hdst : i.operands[0]? = some dst) (hsrc : k.hasSource = true → i.operands[1]? = some src)
    (hplace : dst.IsPlace m.arch) (hpos : 1 ≤ dst.width) (hle : dst.width ≤ 8) :
    let p := m.prepare a i
    let bound : Int := 2 ^ (8 * dst.width)
    let half : Int := 2 ^ (8 * dst.width - 1)
    let x : Int := (p.operandValue dst).toNat
    let y : Int := Int.bmod (p.operandValue src).toNat (2 ^ (8 * src.width)) % bound
    let carry : Int := (m.registers.flag .carry).toNat
    let unsigned := k.exact x y carry
    let signed := k.exact (x.bmod (2 ^ (8 * dst.width))) (y.bmod (2 ^ (8 * dst.width))) carry
    let nibble := k.exact (x % 16) (y % 16) carry
    let stored := (unsigned % bound).toNat
    x < bound ∧ ∃ m', execute a m = .ok () m' ∧
      (if k = .cmp then m'.memory = m.memory ∧
          ∀ name, ¬ m.arch.namesFlags name → m'.registers.get name = p.registers.get name
        else (m'.operandValue dst).toNat = stored) ∧
      (∀ r, dst.kind = .memory r → (∀ name, r.base = some name ∨ r.index = some name → ¬ m.arch.namesFlags name) →
        m'.referenceAddress r = p.referenceAddress r) ∧
      (m'.registers.flag .carry = true ↔
        if k.keepsCarry then m.registers.flag .carry = true else ¬ (0 ≤ unsigned ∧ unsigned < bound)) ∧
      (m'.registers.flag .overflow = true ↔ ¬ (-half ≤ signed ∧ signed < half)) ∧
      (m'.registers.flag .zero = true ↔ stored = 0) ∧
      (m'.registers.flag .sign = true ↔ stored.testBit (8 * dst.width - 1) = true) ∧
      (m'.registers.flag .parity = true ↔ (List.range 8).countP stored.testBit % 2 = 0) ∧
      (m'.registers.flag .adjust = true ↔ ¬ (0 ≤ nibble ∧ nibble < 16)) := by
  intro p bound half x y carry unsigned signed nibble stored
  have harch : p.arch = m.arch := m.arch_prepare a i
  have hcarry : p.registers.flag .carry = m.registers.flag .carry := by
    rw [registers_prepare, Registers.flag_withIp]
  have hplace' : dst.IsPlace p.arch := harch ▸ hplace
  have hbound : bound = (2 ^ (8 * dst.width) : Nat) := by push_cast; rfl
  have hxlt : x < bound := by
    rw [hbound]
    exact Int.ofNat_lt.2 (toNat_operandValue_lt hplace' hle)
  let e := exactResult dst.width unsigned signed nibble
  let r := k.result dst.width (p.operandValue dst) (p.signedValue src &&& Word.mask dst.width) (m.registers.flag .carry)
  let q := p.withRegisters (p.registers.withFlags r.flags)
  have hrun : execute a m = if k = .cmp then .ok () q else Exec.store dst r.value q := by
    have hoperation := k.run_operation hdst hsrc p
    rw [hcarry] at hoperation
    exact (execute_of_mnemonic hi (hk ▸ k.ofMnemonic?_mnemonic)).trans hoperation
  have hr : r = if k.keepsCarry then e.keepingCarry else e := by
    have hx : ((p.operandValue dst).toNat : Int) % 2 ^ (8 * dst.width) = x :=
      Int.emod_eq_of_lt (Int.natCast_nonneg _) hxlt
    have hresult := k.result_eq hpos hle (p.operandValue dst) (p.signedValue src &&& Word.mask dst.width)
      (m.registers.flag .carry)
    rw [AddSub.toNat_signedValue p src hle, hx] at hresult
    exact hresult
  have hvalue : r.value.toNat = stored := by
    rw [hr]
    exact AddSub.toNat_value_exactResult _ hle _ _ _
  have hlt : r.value.toNat < 2 ^ (8 * dst.width) := by
    have hbounded := Int.emod_lt_of_pos unsigned (b := bound) (Int.pow_pos (by decide))
    omega
  have hplaceq : dst.IsPlace q.arch := by
    rw [show q.arch = p.arch from p.registers.arch_withFlags r.flags]
    exact hplace'
  obtain ⟨m', hstore, hresult, haddress, hkept⟩ := store_unless k hplaceq hle hlt
  have hflags := AddSub.flag_withFlags_exactResult p.registers k.keepsCarry dst.width unsigned signed nibble
  dsimp only at hflags
  rw [← hr, hcarry] at hflags
  refine ⟨hxlt, m', hrun.trans hstore, ?_, fun ref href hnames => ?_, ?_⟩
  · by_cases hcmp : k = .cmp
    · rw [if_pos hcmp] at hresult ⊢
      subst hresult
      refine ⟨m.memory_prepare a i, fun name hname => p.registers.get_withFlags r.flags ?_⟩
      rwa [show p.registers.arch = m.arch from harch]
    · rw [if_neg hcmp] at hresult ⊢
      rw [hresult, hvalue]
  · rw [operandAddress?_memory href, operandAddress?_memory href, Option.some_inj] at haddress
    rw [haddress]
    exact p.referenceAddress_withFlags r.flags (harch ▸ hnames)
  · simp only [hkept]
    exact hflags

/-- A borrow together with a source of all ones, one byte wide, comes round to the value before. The signed difference
fits the width. -/
theorem execute_sbb_all_ones :
    let dst := Operand.ofRegister "eax" 4
    let i := Instruction.of 0x1000 "sbb" 3 [dst, .ofImmediate "-1" 1 0xFFFFFFFFFFFFFFFF]
    let m₀ := Machine.fresh ((Listing.empty .x86).addInstruction i) {}
    let m := m₀.withRegisters (m₀.registers.withFlag .carry true)
    ∃ m', execute 0x1000 m = .ok () m' ∧ (m'.operandValue dst).toNat = 0 ∧ m'.registers.flag .carry = true ∧
      m'.registers.flag .overflow = false ∧ m'.registers.flag .zero = true := by
  intro dst i m₀ m
  have hregister : dst.IsPlace .x86 := ⟨⟨(0 : Fin 24), 0, 32, false⟩, by decide +kernel, by decide, rfl⟩
  have harch : m.arch = .x86 := by decide +kernel
  have hplace : dst.IsPlace m.arch := harch ▸ hregister
  have hi : m.listing.decode? 0x1000 = some i := by decide +kernel
  have hdst : i.operands[0]? = some dst := rfl
  have hsrc : i.operands[1]? = some (.ofImmediate "-1" 1 0xFFFFFFFFFFFFFFFF) := rfl
  obtain ⟨-, m', hok, hvalue, -, hcarry, hoverflow, hzero, -⟩ :=
    execute_addSub .sbb hi (by decide +kernel) hdst (fun _ => hsrc) hplace (by decide) (by decide)
  have hx : (m.prepare 0x1000 i).operandValue dst = 0 := by decide +kernel
  have hc : m.registers.flag .carry = true := m₀.registers.flag_withFlag_self .carry true
  have hy : (m.prepare 0x1000 i).operandValue (.ofImmediate "-1" 1 0xFFFFFFFFFFFFFFFF) = 0xFF := by decide
  rw [hx, hc, hy] at hvalue hcarry hoverflow hzero
  rw [if_neg (by decide)] at hvalue
  exact ⟨m', hok, hvalue.trans (by decide), hcarry.2 (by decide),
    Bool.eq_false_iff.2 fun h => hoverflow.1 h (by decide), hzero.2 (by decide)⟩

end Machine
end PathReplay
