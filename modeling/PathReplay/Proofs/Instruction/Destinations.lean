import PathReplay.Proofs.Instruction.Checked
import PathReplay.Proofs.Instruction.ControlFlow

/-!
# Where an instruction sends control

* `Machine.destination?` : where an instruction sends control by its mnemonic; `ip_run` : its operation does so;
* `Machine.after?` : the machine after an instruction, if the program does not end at it;
* `ip_execute` : every instruction sends control there, and to the next instruction if it sends it nowhere else.
-/

namespace PathReplay

/-- Where an instruction sends control, if it does not go on to the next one. The machine is the one in which the
instruction takes effect. -/
def Machine.destination? (m : Machine) (i : Instruction) : Option Address :=
  match i.mnemonic with
  | "jmp" => m.target? i
  | "ret" | "retn" => some m.pop.1
  | "loop" => if m.countAfter = 0 then none else m.countDown.target? i
  | "jcxz" => if m.registers.get "cx" = .ok 0 then m.target? i else none
  | "jecxz" => if m.registers.get "ecx" = .ok 0 then m.target? i else none
  | "jrcxz" => if m.registers.get "rcx" = .ok 0 then m.target? i else none
  | mnemonic => if (jumpCondition? mnemonic).any (·.holds m.registers) then m.target? i else none

namespace Machine

variable {m : Machine} {i : Instruction} {a : Address}

theorem ip_run (hi : ∀ o ∈ i.operands, ∀ name, o.kind = .register name → isInstructionPointer name = false)
    {op : Operation} (hop : Operation.ofMnemonic? i.mnemonic = some op) :
    ((op.run i).after m).ip = m.arch.wrap ((m.destination? i).getD m.ip) := by
  have of_eq : ∀ op' {name}, i.mnemonic = name → Operation.ofMnemonic? name = some op' → op = op' := by
    intro op' name hname hop'
    rw [hname, hop'] at hop
    exact (Option.some.inj hop).symm
  unfold destination?
  split
  · rename_i hname
    obtain rfl := of_eq .branch hname rfl
    exact Exec.ip_branch i m
  · rename_i hname
    obtain rfl := of_eq .ret hname rfl
    exact Exec.ip_ret i m
  · rename_i hname
    obtain rfl := of_eq .ret hname rfl
    exact Exec.ip_ret i m
  · rename_i hname
    obtain rfl := of_eq .loop hname rfl
    exact Exec.ip_loop i m
  · rename_i hname
    obtain rfl := of_eq (.branchIfZero "cx") hname rfl
    exact Exec.ip_branchIfZero "cx" i m
  · rename_i hname
    obtain rfl := of_eq (.branchIfZero "ecx") hname rfl
    exact Exec.ip_branchIfZero "ecx" i m
  · rename_i hname
    obtain rfl := of_eq (.branchIfZero "rcx") hname rfl
    exact Exec.ip_branchIfZero "rcx" i m
  · rename_i hjmp hret hretn hloop hcx hecx hrcx
    cases hc : jumpCondition? i.mnemonic with
    | some c =>
      obtain rfl := Option.some.inj (hop.symm.trans (Operation.ofMnemonic?_of_jumpCondition hc))
      exact Exec.ip_branchIf i (c.holds m.registers) m
    | none =>
      refine Eq.trans ?_ m.wrap_ip.symm
      obtain hstraight | rfl | htransfer | ⟨c, hc'⟩ := Operation.straight_or_transfer hop
      · exact (Exec.inherited_keepsIp hi).run hstraight m
      · exact Exec.ip_call i m
      · simp only [List.mem_cons, List.not_mem_nil, or_false] at htransfer
        rcases htransfer with h | h | h | h | h | h | h
        exacts [(hjmp h).elim, (hret h).elim, (hretn h).elim, (hloop h).elim, (hcx h).elim, (hecx h).elim,
          (hrcx h).elim]
      · rw [hc] at hc'
        cases hc'

theorem destination?_eq_none (h : Operation.ofMnemonic? i.mnemonic = none) : m.destination? i = none := by
  unfold destination?
  split
  case h_8 =>
    cases hc : jumpCondition? i.mnemonic with
    | some c =>
      rw [Operation.ofMnemonic?_of_jumpCondition hc] at h
      cases h
    | none => rfl
  all_goals
    rename_i hname
    rw [hname] at h
    cases h

/-- The machine after the instruction at an address, one that fails included. There is none if the program ends. -/
def after? (m : Machine) (a : Address) : Option Machine :=
  if ∃ i ∈ m.listing.decode? a, i.Aborts then none else some ((execute a).after m)

theorem after?_of_not_aborts (hi : m.listing.decode? a = some i) (h : ¬ i.Aborts) :
    m.after? a = some ((execute a).after m) := by
  refine if_neg ?_
  rintro ⟨j, hj, habort⟩
  cases hi.symm.trans hj
  exact h habort

/-- After an instruction, one that fails included, control is at the next instruction, unless the instruction sends it
elsewhere: a jump, a conditional jump whose condition holds, a loop whose counter is not zero after counting down and a
jump on a counter that is zero send it to the value of their first operand, if they have one, and a return to the
address it pops. No other instruction moves it, as long as no operand is the instruction pointer itself. Only at an
instruction that comes to a remainder by zero the program ends instead. -/
theorem ip_execute (hi : m.listing.decode? a = some i)
    (hoperands : ∀ o ∈ i.operands, ∀ name, o.kind = .register name → isInstructionPointer name = false) :
    (i.Aborts → ∃ m', (executeChecked a).run m = .ok none m') ∧
    (¬ i.Aborts → ∃ m', m.after? a = some m' ∧
      m'.ip.toNat =
        (((m.prepare a i).destination? i).map UInt64.toNat).getD (i.address.toNat + i.length.toNat) %
          2 ^ (8 * m.pointerSize)) := by
  refine ⟨executeChecked_of_aborts hi, fun habort => ⟨(execute a).after m, after?_of_not_aborts hi habort, ?_⟩⟩
  have hafter : ((execute a).after m).ip =
      m.arch.wrap (((m.prepare a i).destination? i).getD (m.prepare a i).ip) := by
    unfold Exec.after
    cases hop : Operation.ofMnemonic? i.mnemonic with
    | some op =>
      have hrun := ip_run (m := m.prepare a i) hoperands hop
      rw [arch_prepare] at hrun
      rw [execute_of_mnemonic hi hop]
      exact hrun
    | none =>
      rw [destination?_eq_none hop, Option.getD_none, ip_prepare, Arch.wrap_wrap, ← ip_prepare m a i, execute, hi]
      dsimp only
      rw [hop]
  rw [hafter, Arch.toNat_wrap, pointerSize]
  cases (m.prepare a i).destination? i with
  | some target => rfl
  | none =>
    rw [Option.getD_none, ip_prepare, Arch.toNat_wrap, Nat.mod_mod, Instruction.next, UInt64.toNat_add]
    exact Nat.mod_mod_of_dvd _ (by cases m.arch <;> decide)

/-- A loop at the top of a 32-bit address space, its counter at one. -/
theorem ip_execute_loop_last :
    let i := Instruction.of 0xFFFFFFFE "loop" 2 [.ofNear "start" 4 0xFFFFFFF0]
    let m := Machine.fresh ((Listing.empty .x86).addInstruction i) {}
    let m := (Exec.setRegister "ecx" 1).after m
    ∃ m', m.after? 0xFFFFFFFE = some m' ∧ m'.ip = 0 := by
  intro i m₀ m
  have hoperands : ∀ o ∈ i.operands, ∀ name, o.kind = .register name → isInstructionPointer name = false := by
    rintro o ho name hkind
    rw [List.mem_singleton.1 ho] at hkind
    cases hkind
  have hdecode : m.listing.decode? 0xFFFFFFFE = some i := by decide +kernel
  obtain ⟨m', hm', hip⟩ := (ip_execute hdecode hoperands).2 (by decide +kernel)
  exact ⟨m', hm', UInt64.toNat_inj.1 (hip.trans (by decide +kernel))⟩

/-- An instruction goes on from the address that it gives itself, which need not be the one it is listed at. After a
rotate of an operand without any bits there is no machine at all. -/
theorem ip_execute_listed_elsewhere :
    let i := Instruction.of 0x2000 "nop" 1 []
    let instructions := (∅ : Std.ExtTreeMap Address Instruction compare).insert 0x1000 i
    let m := Machine.fresh { Listing.empty .x86 with instructions } {}
    let j := Instruction.of 0x1000 "rol" 3 [.ofRegister "eax" 0, .ofImmediate "1" 1 1]
    m.listing.decode? 0x1000 = some i ∧
      (∀ m' ∈ m.after? 0x1000, m'.ip.toNat ≠ (0x1000 + i.length.toNat) % 2 ^ (8 * m.pointerSize)) ∧
      (Machine.fresh ((Listing.empty .x86).addInstruction j) {}).after? 0x1000 = none := by
  intro i instructions m j
  refine ⟨by decide +kernel, fun m' hm' => ?_, if_pos (by decide +kernel)⟩
  obtain rfl := Option.some.inj ((after?_of_not_aborts (i := i) (by decide +kernel) (by decide +kernel)).symm.trans hm')
  decide +kernel

end Machine
end PathReplay
