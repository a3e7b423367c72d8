import PathReplay.Proofs.Instruction.Sums
import PathReplay.Proofs.Machine.Frames

/-!
# Immediate values that are narrower than their destination

* `Word.extended_eq_iff` : when a value is the same at a greater width with its sign extended as without;
* `execute_move` : a move leaves its source's value, cut to the destination;
* `execute_add_immediate` : an addition extends the sign of an immediate value;
* `execute_mov_immediate` : a move does not, so what it leaves is not what is added to zero if the value is narrower
  than the destination and negative.
-/

namespace PathReplay

/-- The top bit of a value is what its sign, once extended, changes of it. -/
theorem Word.extended_eq_iff {width width' : Nat} (hpos : 1 ≤ width) (hle : width ≤ width') (n : Nat) :
    ((n % 2 ^ (8 * width) : Nat) : Int) = Int.bmod n (2 ^ (8 * width)) % 2 ^ (8 * width') ↔
      width = width' ∨ n.testBit (8 * width - 1) = false := by
  have hlt : n % 2 ^ (8 * width) < 2 ^ (8 * width) := Nat.mod_lt _ (Nat.two_pow_pos _)
  have htop : n.testBit (8 * width - 1) = decide (2 ^ (8 * width - 1) ≤ n % 2 ^ (8 * width)) := by
    rw [← testBit_top hpos hlt, Nat.testBit_mod_two_pow, decide_eq_true (by omega), Bool.true_and]
  have hwider : 2 ^ (8 * width) ≤ 2 ^ (8 * width') := Nat.pow_le_pow_right (by decide) (by omega)
  have hbound : (2 : Int) ^ (8 * width') = (2 ^ (8 * width') : Nat) := by push_cast; rfl
  have hsame : 2 ^ (8 * width) = 2 ^ (8 * width') ↔ width = width' := by
    rw [Nat.pow_right_inj (by decide)]
    omega
  rw [htop, ← bmod_mod, bmod_eq hpos hlt, hbound, ← hsame, decide_eq_false_iff_not]
  split
  · rename_i hnegative
    rw [← Int.add_emod_right, Int.emod_eq_of_lt (by omega) (by omega)]
    omega
  · rename_i hnonneg
    rw [Int.emod_eq_of_lt (by omega) (by omega)]
    exact ⟨fun _ => .inr hnonneg, fun _ => rfl⟩

namespace Machine

variable {m : Machine} {a : Address} {i : Instruction} {dst src : Operand} {l : Location} {v : UInt64}

theorem toNat_operandValue_immediate (himm : src.kind = .immediate v) (hle : src.width ≤ 8) :
    (m.operandValue src).toNat = v.toNat % 2 ^ (8 * src.width) := by
  rw [operandValue, himm]
  exact Word.toNat_and_mask v hle

/-- A move stores its source's value in a place. -/
theorem execute_move (hi : m.listing.decode? a = some i) (hmov : i.mnemonic = "mov")
    (hdst : i.operands[0]? = some dst) (hsrc : i.operands[1]? = some src) (hplace : dst.IsPlace m.arch)
    (hflags : ∀ name ∈ dst.addressNames, ¬ m.arch.namesFlags name) (hle : dst.width ≤ 8)
    (hl : (m.withIp i.next).location? dst = some l) :
    ∃ m', execute a m = .ok () m' ∧ Touched l dst.width m m' ∧
      (m'.contents l dst.width).toNat = ((m.prepare a i).operandValue src).toNat % 2 ^ (8 * dst.width) := by
  obtain ⟨m', hstore, htouched, -, hholds⟩ := store_touched hplace hflags hl a [] ((m.prepare a i).operandValue src)
  refine ⟨m', (execute_of_name hi hmov rfl).trans (Eq.trans ?_ hstore), htouched, hholds hle⟩
  show Exec.move i (m.prepare a i) = _
  rw [Exec.move, Exec.operand, Exec.operand, hdst, hsrc]
  rfl

/-- An immediate value is added to zero with its sign extended. -/
theorem execute_add_immediate (hi : m.listing.decode? a = some i) (hadd : i.mnemonic = "add")
    (hdst : i.operands[0]? = some dst) (hsrc : i.operands[1]? = some src) (himm : src.kind = .immediate v)
    (hplace : dst.IsPlace m.arch) (hflags : ∀ name ∈ dst.addressNames, ¬ m.arch.namesFlags name)
    (hpos : 1 ≤ dst.width) (hle : dst.width ≤ 8) (hle' : src.width ≤ 8) (hl : (m.withIp i.next).location? dst = some l)
    (hzero : m.contents l dst.width = 0) :
    ∃ m', execute a m = .ok () m' ∧
      ((m'.contents l dst.width).toNat : Int) = Int.bmod v.toNat (2 ^ (8 * src.width)) % 2 ^ (8 * dst.width) := by
  obtain ⟨r, hrun, hvalue, -⟩ :=
    execute_eq_store_result .add hi hadd hdst (fun _ => hsrc) (by decide) hplace hpos hle
  obtain ⟨m', hstore, -, -, hholds⟩ := store_touched hplace hflags hl a r.flags r.value
  have hsum : AddSub.add.exact 0 (Int.bmod v.toNat (2 ^ (8 * src.width)) % 2 ^ (8 * dst.width))
      (m.registers.flag .carry).toNat = Int.bmod v.toNat (2 ^ (8 * src.width)) % 2 ^ (8 * dst.width) := Int.zero_add _
  rw [operandValue_prepare_eq_contents hplace hl, hzero, toNat_operandValue_immediate himm hle', Word.bmod_mod,
    UInt64.toNat_zero, Int.natCast_zero, hsum, Int.emod_emod] at hvalue
  refine ⟨m', hrun.trans hstore, ?_⟩
  rw [hholds hle, Int.natCast_emod, hvalue]
  push_cast
  exact Int.emod_emod _ _

/-- A move of an immediate value to a place that is no narrower leaves the value's own bytes and zeros above them. Added
to zero there, the same value has its sign extended. The two are the same if the value is as wide as the place, or its
top bit is clear, and otherwise not. -/
theorem execute_mov_immediate (hi : m.listing.decode? a = some i) (hmov : i.mnemonic = "mov")
    (hdst : i.operands[0]? = some dst) (hsrc : i.operands[1]? = some src) (himm : src.kind = .immediate v)
    (hplace : dst.IsPlace m.arch) (hflags : ∀ name ∈ dst.addressNames, ¬ m.arch.namesFlags name)
    (hpos : 1 ≤ src.width) (hnarrow : src.width ≤ dst.width) (hle : dst.width ≤ 8)
    (hl : (m.withIp i.next).location? dst = some l) :
    ∃ m', execute a m = .ok () m' ∧ Touched l dst.width m m' ∧
      (m'.contents l dst.width).toNat = v.toNat % 2 ^ (8 * src.width) ∧
      ∀ (z : Machine) (b : Address) (j : Instruction), z.arch = m.arch → z.listing.decode? b = some j →
        j.mnemonic = "add" → j.operands = i.operands → (z.withIp j.next).location? dst = some l →
        z.contents l dst.width = 0 →
        ∃ z', execute b z = .ok () z' ∧
          ((z'.contents l dst.width).toNat : Int) = Int.bmod v.toNat (2 ^ (8 * src.width)) % 2 ^ (8 * dst.width) ∧
          (m'.contents l dst.width = z'.contents l dst.width ↔
            src.width = dst.width ∨ v.toNat.testBit (8 * src.width - 1) = false) := by
  obtain ⟨m', hrun, htouched, hvalue⟩ := execute_move hi hmov hdst hsrc hplace hflags hle hl
  have hfits : v.toNat % 2 ^ (8 * src.width) < 2 ^ (8 * dst.width) :=
    Nat.lt_of_lt_of_le (Nat.mod_lt _ (Nat.two_pow_pos _)) (Nat.pow_le_pow_right (by decide) (by omega))
  rw [toNat_operandValue_immediate himm (by omega), Nat.mod_eq_of_lt hfits] at hvalue
  refine ⟨m', hrun, htouched, hvalue, fun z b j harch hj hadd hoperands hlz hzero => ?_⟩
  obtain ⟨z', hrunz, hvaluez⟩ := execute_add_immediate hj hadd (hoperands ▸ hdst) (hoperands ▸ hsrc) himm
    (harch ▸ hplace) (harch ▸ hflags) (by omega) hle (by omega) hlz hzero
  refine ⟨z', hrunz, hvaluez, ?_⟩
  rw [← Word.extended_eq_iff hpos hnarrow, ← hvaluez, ← hvalue, Int.ofNat_inj, UInt64.toNat_inj]

/-- A value of four bytes whose top bit is clear, moved to eight and added to them. -/
theorem execute_mov_immediate_positive :
    let dst : Operand := ⟨"rax", 8, .register "rax"⟩
    let src := Operand.ofImmediate "7FFFFFFFh" 4 0x7FFFFFFF
    let mov := Instruction.of 0x1000 "mov" 7 [dst, src]
    let add := Instruction.of 0x2000 "add" 7 [dst, src]
    let m := Machine.fresh (((Listing.empty .x86_64).addInstruction mov).addInstruction add) {}
    ∃ m' z', execute 0x1000 m = .ok () m' ∧ execute 0x2000 m = .ok () z' ∧
      (m'.contents (.register "rax") 8).toNat = 0x7FFFFFFF ∧
      m'.contents (.register "rax") 8 = z'.contents (.register "rax") 8 := by
  intro dst src mov add m
  have harch : m.arch = .x86_64 := by decide +kernel
  have hplace : dst.IsPlace .x86_64 := ⟨⟨(0 : Fin 40), 0, 64, false⟩, by decide +kernel, by decide, rfl⟩
  have hdst : mov.operands[0]? = some dst := rfl
  have hsrc : mov.operands[1]? = some src := rfl
  obtain ⟨m', hrun, -, hvalue, hadd⟩ := execute_mov_immediate (m := m) (a := 0x1000) (by decide +kernel)
    (by decide +kernel) hdst hsrc rfl (harch ▸ hplace) nofun (by decide) (by decide) (by decide) rfl
  obtain ⟨z', hrunz, -, hsame⟩ := hadd m 0x2000 add rfl (by decide +kernel) (by decide +kernel) rfl rfl
    (by decide +kernel)
  exact ⟨m', z', hrun, hrunz, hvalue.trans (by decide), hsame.2 (.inr (by decide))⟩

/-- Minus one in four bytes is moved to eight with zeros above it, and added to zero there it is minus one. -/
theorem execute_mov_immediate_negative :
    let dst : Operand := ⟨"rax", 8, .register "rax"⟩
    let src := Operand.ofImmediate "-1" 4 0xFFFFFFFFFFFFFFFF
    let mov := Instruction.of 0x1000 "mov" 7 [dst, src]
    let add := Instruction.of 0x2000 "add" 7 [dst, src]
    let m := Machine.fresh (((Listing.empty .x86_64).addInstruction mov).addInstruction add) {}
    m.registerOrZero "rax" = 0 ∧ ((execute 0x1000).after m).registerOrZero "rax" = 0xFFFFFFFF ∧
      ((execute 0x2000).after m).registerOrZero "rax" = 0xFFFFFFFFFFFFFFFF := by
  intro dst src mov add m
  exact ⟨by decide +kernel, by decide +kernel, by decide +kernel⟩

end Machine
end PathReplay
