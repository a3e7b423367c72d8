import PathReplay.Instruction.Operation
import PathReplay.Proofs.Machine.Entering

/-!
# Stepping over a call is contained

* `prepare_eq` : what becomes of a machine before an instruction takes effect;
* `Routine.call_frame` : an emulated function writes memory and nothing else that a program can see;
* `call_emulated`, `call_recorded` : the two ways to step over a call, register by register;
* `sp_pushes`, `execute_ret` : the stack pointer under pushes and returns;
* `execute_call` : what a call leaves alone, and that it returns the stack to where it was before the arguments.
-/

namespace PathReplay

/-! ## The result register -/

def Arch.resultField : (arch : Arch) → Field arch.stores
  | .x86 => ⟨⟨0, by decide⟩, 0, 32, false⟩
  | .x86_64 => ⟨⟨0, by decide⟩, 0, 64, false⟩

theorem Arch.field?_resultRegister : ∀ arch : Arch,
    arch.layout.field? (Text.lowercase arch.resultRegister) = some arch.resultField
  | .x86 => by decide +kernel
  | .x86_64 => by decide +kernel

/-- The registers with another result, cut to the width of the result register. -/
def Registers.withResult (r : Registers) (v : UInt64) : Registers :=
  r.writeField r.arch.resultField (v.toBitVec.setWidth 128)

theorem Registers.set_resultRegister (r : Registers) (v : UInt64) :
    r.set r.arch.resultRegister v = .ok (r.withResult v) := by
  rw [set, setWide_of_field? r.arch.field?_resultRegister]
  rfl

theorem Registers.sp_withResult (r : Registers) (v : UInt64) : (r.withResult v).sp = r.sp := by
  have hstore : r.arch.stackField.store ≠ r.arch.resultField.store := by cases r.arch <;> decide
  exact wordAt_writeField_of_ne hstore _

theorem Registers.ip_withResult (r : Registers) (v : UInt64) : (r.withResult v).ip = r.ip := by
  have hstore : r.arch.instructionField.store ≠ r.arch.resultField.store := by cases r.arch <;> decide
  exact wordAt_writeField_of_ne hstore _

/-! ## Emulated functions -/

/-- An emulated function writes memory, of which the variables in the way take note, and changes nothing else. -/
theorem LibC.Routine.call_frame (f : Routine) (name : String) (args : List UInt64) (m : Machine) :
    ∃ known memory, (f.call name args m).2 = { m with known, memory } := by
  cases f <;> exact ⟨_, _, rfl⟩

/-- A return that releases some bytes of stack after the return address. -/
def Instruction.ReturnsReleasing (i : Instruction) (bytes : UInt64) : Prop :=
  i.mnemonic ∈ ["ret", "retn"] ∧
    ∃ o v, i.operands = [o] ∧ o.kind = .immediate v ∧ v &&& Word.mask o.width = bytes

namespace Machine

variable {m : Machine} {i : Instruction} {o : Operand} {a : Address}

/-! ## Before an instruction takes effect -/

theorem enter_eq (m : Machine) (a : Address) : ∃ frame, m.enter a = { m with frame } := by
  unfold enter
  split
  · exact ⟨_, rfl⟩
  · exact ⟨m.frame, rfl⟩

/-- When an instruction takes effect, control is at the next one; besides, only what is known and the current function
have changed. -/
theorem prepare_eq (m : Machine) (a : Address) (i : Instruction) :
    ∃ known frame, m.prepare a i = { m with registers := m.registers.withIp i.next, known, frame } := by
  obtain ⟨frame, henter⟩ := m.enter_eq a
  obtain ⟨known, htrack⟩ := track_eq (({ m with frame } : Machine).withIp a) i
  refine ⟨known, frame, ?_⟩
  rw [prepare, henter, htrack]
  exact congrArg (fun registers => ({ m with registers, known, frame } : Machine)) (Registers.withIp_withIp ..)

theorem registers_prepare (m : Machine) (a : Address) (i : Instruction) :
    (m.prepare a i).registers = m.registers.withIp i.next := by
  obtain ⟨known, frame, h⟩ := m.prepare_eq a i
  rw [h]

theorem memory_prepare (m : Machine) (a : Address) (i : Instruction) : (m.prepare a i).memory = m.memory := by
  obtain ⟨known, frame, h⟩ := m.prepare_eq a i
  rw [h]

theorem listing_prepare (m : Machine) (a : Address) (i : Instruction) : (m.prepare a i).listing = m.listing := by
  obtain ⟨known, frame, h⟩ := m.prepare_eq a i
  rw [h]

theorem calls_prepare (m : Machine) (a : Address) (i : Instruction) : (m.prepare a i).calls = m.calls := by
  obtain ⟨known, frame, h⟩ := m.prepare_eq a i
  rw [h]

theorem arch_prepare (m : Machine) (a : Address) (i : Instruction) : (m.prepare a i).arch = m.arch := by
  rw [arch, registers_prepare]
  rfl

theorem ip_prepare (m : Machine) (a : Address) (i : Instruction) : (m.prepare a i).ip = m.arch.wrap i.next :=
  (congrArg Registers.ip (m.registers_prepare a i)).trans (Registers.ip_withIp _ _)

theorem sp_prepare (m : Machine) (a : Address) (i : Instruction) : (m.prepare a i).sp = m.sp :=
  (congrArg Registers.sp (m.registers_prepare a i)).trans (Registers.sp_withIp _ _)

theorem execute_of_mnemonic (hi : m.listing.decode? a = some i) {op : Operation}
    (hop : Operation.ofMnemonic? i.mnemonic = some op) : execute a m = op.run i (m.prepare a i) := by
  unfold execute
  rw [hi]
  dsimp only
  rw [hop]

theorem execute_of_name (hi : m.listing.decode? a = some i) {name : String} (hname : i.mnemonic = name) {op : Operation}
    (hop : Operation.ofMnemonic? name = some op) : execute a m = op.run i (m.prepare a i) :=
  execute_of_mnemonic hi (hname ▸ hop)

theorem execute_of_isCall (hi : m.listing.decode? a = some i) (hcall : i.isCall = true) :
    execute a m = (m.prepare a i).call i :=
  execute_of_name hi (beq_iff_eq.1 hcall) rfl

/-! ## The two ways to step over a call -/

/-- The emulated function that a call with an operand runs, and the name under which it is called. -/
def emulated? (m : Machine) (o : Operand) : Option (String × LibC.Entry) :=
  (m.targetName? o (m.operandValue o)).bind fun name => (LibC.find? name).map fun e => (name, e)

/-- The convention and the number of arguments by which a call releases stack. -/
def released? (m : Machine) (o : Operand) : Option (Convention × Nat) :=
  match m.emulated? o with
  | some (_, e) => some (m.effectiveConvention (some e.convention), e.routine.arity)
  | none => (m.listing.prototype? (m.operandValue o)).map fun p => (m.effectiveConvention p.convention, p.args.length)

def cleanup (m : Machine) (o : Operand) : UInt64 :=
  match m.released? o with
  | some (c, count) => c.calleeCleanup count m.pointerSize
  | none => 0

/-- The called function releases a number of stack arguments itself. -/
def ReleasesArguments (m : Machine) (o : Operand) (slots : Nat) : Prop :=
  ∃ c count, m.released? o = some (c, count) ∧ c.calleeCleans = true ∧ count - c.argumentRegisters.length = slots

theorem ReleasesArguments.cleanup_eq {slots : Nat} (h : m.ReleasesArguments o slots) :
    m.cleanup o = UInt64.ofNat (slots * m.pointerSize) := by
  obtain ⟨c, count, hreleased, hcleans, rfl⟩ := h
  unfold cleanup
  rw [hreleased]
  exact if_pos hcleans

theorem releaseArguments_eq (m : Machine) (c : Convention) (count : Nat) :
    m.releaseArguments c count = m.withSp (m.arch.wrap (m.sp + c.calleeCleanup count m.pointerSize)) := by
  unfold releaseArguments
  dsimp only
  split
  · rename_i hzero
    rw [hzero, UInt64.add_zero]
    show m = m.withRegisters (m.registers.withSp (m.registers.arch.wrap m.registers.sp))
    rw [Registers.wrap_sp, Registers.withSp_sp]
    rfl
  · rfl

theorem setRegister_resultRegister (m : Machine) (v : UInt64) :
    m.setRegister m.arch.resultRegister v = .ok (m.withRegisters (m.registers.withResult v)) := by
  rw [setRegister, show m.arch = m.registers.arch from rfl, Registers.set_resultRegister]
  rfl

theorem call_eq {rest : List Operand} (ho : i.operands = o :: rest) :
    m.call i = match m.emulated? o with
      | some (name, e) => m.callRoutine e name (m.operandValue o)
      | none => .ok () (m.recordCall i.address (m.operandValue o) (m.targetName? o (m.operandValue o))) := by
  unfold call
  rw [ho]
  rfl

/-- A call to an emulated function. -/
theorem call_emulated {rest : List Operand} (ho : i.operands = o :: rest) {name : String} {e : LibC.Entry}
    (h : m.emulated? o = some (name, e)) :
    let c := m.effectiveConvention (some e.convention)
    let run := e.routine.call (LibC.undecorated name) (m.readArguments (m.operandValue o) c e.routine.arity) m
    ∃ m', m.call i = .ok () m' ∧
      m'.registers = (m.registers.withResult run.1).withSp (m.arch.wrap (m.sp + m.cleanup o)) ∧
      m'.memory = run.2.memory ∧ m'.calls = m.calls := by
  intro c run
  have hcall : m.call i =
      .ok () ((run.2.withRegisters (run.2.registers.withResult run.1)).releaseArguments c e.routine.arity) := by
    rw [call_eq ho, h]
    dsimp only [callRoutine]
    rw [setRegister_resultRegister]
  have hcleanup : m.cleanup o = c.calleeCleanup e.routine.arity m.pointerSize := by
    unfold cleanup released?
    rw [h]
  obtain ⟨known, memory, hframe⟩ : ∃ known memory, run.2 = { m with known, memory } := e.routine.call_frame _ _ m
  have hregisters : run.2.registers = m.registers := by rw [hframe]
  refine ⟨_, hcall, ?_, ?_, ?_⟩
  · rw [releaseArguments_eq, hcleanup]
    show (run.2.registers.withResult run.1).withSp (run.2.registers.arch.wrap
      ((run.2.registers.withResult run.1).sp + c.calleeCleanup e.routine.arity run.2.registers.arch.pointerSize)) = _
    rw [Registers.sp_withResult, hregisters]
    rfl
  · rw [releaseArguments_eq]
    rfl
  · rw [releaseArguments_eq, hframe]
    rfl

/-- A call to any other function. -/
theorem call_recorded {rest : List Operand} (ho : i.operands = o :: rest) (h : m.emulated? o = none) :
    ∃ m', m.call i = .ok () m' ∧ m'.registers = m.registers.withSp (m.arch.wrap (m.sp + m.cleanup o)) ∧
      m'.memory = m.memory ∧ m'.calls = m.calls.insert i.address
        ⟨i.address, m.operandValue o, m.targetName? o (m.operandValue o),
          (m.functionArguments (some (m.operandValue o)) none).toOption.getD []⟩ := by
  have hcall := call_eq (m := m) ho
  rw [h] at hcall
  refine ⟨_, hcall, ?_⟩
  unfold recordCall cleanup released?
  rw [h]
  dsimp only
  cases m.listing.prototype? (m.operandValue o) with
  | none =>
    refine ⟨?_, rfl, ?_⟩
    · show m.registers = m.registers.withSp (m.registers.arch.wrap (m.registers.sp + 0))
      rw [UInt64.add_zero, Registers.wrap_sp, Registers.withSp_sp]
    · cases m.functionArguments (some (m.operandValue o)) none <;> rfl
  | some p =>
    dsimp only [Option.map_some]
    rw [releaseArguments_eq]
    refine ⟨rfl, rfl, ?_⟩
    cases m.functionArguments (some (m.operandValue o)) none <;> rfl

/-! ## The stack before and after -/

theorem arch_pushes (values : List UInt64) (m : Machine) : (values.foldl push m).arch = m.arch := by
  induction values generalizing m with
  | nil => rfl
  | cons v values ih => exact ih (m.push v)

/-- Pushes move the stack pointer down by one slot each, modulo the pointer width. -/
theorem sp_pushes (values : List UInt64) (m : Machine) :
    (values.foldl push m).sp = m.arch.wrap (m.sp - UInt64.ofNat (values.length * m.pointerSize)) := by
  induction values generalizing m with
  | nil =>
    rw [List.length_nil, Nat.zero_mul]
    show m.registers.sp = m.registers.arch.wrap (m.registers.sp - 0)
    rw [UInt64.sub_zero, Registers.wrap_sp]
  | cons v values ih =>
    have hslots : UInt64.ofNat ((v :: values).length * m.pointerSize) =
        UInt64.ofNat (values.length * m.pointerSize) + UInt64.ofNat m.pointerSize := by
      rw [List.length_cons, Nat.succ_mul, UInt64.ofNat_add]
    rw [List.foldl_cons, ih]
    show m.arch.wrap ((m.push v).sp - UInt64.ofNat (values.length * m.pointerSize)) = _
    rw [sp_push, Arch.wrap_sub, hslots]
    congr 1
    simp only [UInt64.sub_eq_add_neg, UInt64.neg_add]
    ac_rfl

/-- Releasing as many slots as were pushed brings the stack back. -/
theorem wrap_sp_pushes (values : List UInt64) (m : Machine) :
    m.arch.wrap ((values.foldl push m).sp + UInt64.ofNat (values.length * m.pointerSize)) = m.sp := by
  rw [sp_pushes, Arch.wrap_add, UInt64.sub_add_cancel]
  exact m.registers.wrap_sp

theorem ret_eq (ho : i.operands = [o]) :
    Exec.ret i m =
      let m' := m.pop.2.withIp m.pop.1
      .ok () (m'.withSp (m'.arch.wrap (m'.sp + m'.operandValue o))) := by
  unfold Exec.ret
  rw [ho]
  rfl

/-- A return pops the return address and then releases what its operand says. -/
theorem execute_ret {bytes : UInt64} (hi : m.listing.decode? a = some i) (hret : i.ReturnsReleasing bytes) :
    ∃ m', execute a m = .ok () m' ∧ m'.sp = m.arch.wrap (m.sp + UInt64.ofNat m.pointerSize + bytes) := by
  obtain ⟨hname, o, v, ho, hkind, rfl⟩ := hret
  have hop : Operation.ofMnemonic? i.mnemonic = some .ret := by
    simp only [List.mem_cons, List.not_mem_nil, or_false] at hname
    obtain h | h := hname
    · rw [h]
      rfl
    · rw [h]
      rfl
  have hvalue : ∀ m : Machine, m.operandValue o = v &&& Word.mask o.width := by
    intro m
    rw [operandValue, hkind]
  have hsp := m.sp_prepare a i
  have harch := m.arch_prepare a i
  refine ⟨_, (execute_of_mnemonic hi hop).trans (ret_eq ho), ?_⟩
  generalize m.prepare a i = p at hsp harch ⊢
  have hpopped : (p.pop.2.withIp p.pop.1).sp = p.arch.wrap (p.sp + UInt64.ofNat p.pointerSize) :=
    (Registers.sp_withIp _ _).trans ((Registers.sp_withSp _ _).trans (p.arch.wrap_wrap _))
  refine (Registers.sp_withSp _ _).trans ?_
  show p.arch.wrap (p.arch.wrap (_ + _)) = _
  rw [Arch.wrap_wrap, hvalue, hpopped, Arch.wrap_add, hsp, pointerSize, pointerSize, harch]

/-- The same return, with the return address on the stack: only what its operand says is gone in the end. -/
theorem execute_ret_of_push {q : Machine} {returnAddress : Address} {bytes : UInt64} (harch : q.arch = m.arch)
    (hsp : q.sp = (m.push returnAddress).sp) (hi : q.listing.decode? a = some i) (hret : i.ReturnsReleasing bytes) :
    ∃ q', execute a q = .ok () q' ∧ q'.sp = m.arch.wrap (m.sp + bytes) := by
  obtain ⟨q', hok, hq'⟩ := execute_ret hi hret
  refine ⟨q', hok, ?_⟩
  rw [hq', hsp, sp_push, harch, show q.pointerSize = m.pointerSize by rw [pointerSize, harch]; rfl, UInt64.add_assoc,
    Arch.wrap_add, ← UInt64.add_assoc, UInt64.sub_add_cancel]

/-- A call is stepped over: it succeeds, and control is at the next instruction. An emulated function leaves its result,
cut to the result register, and what it wrote to memory; any other call leaves memory as it was and is recorded under
its address. Besides these, only the stack pointer differs, by what the called function is to release. So where the
called function releases its arguments, the stack is back to where it was before they were pushed, as the function's own
return would leave it. -/
theorem execute_call {rest : List Operand} (hi : m.listing.decode? a = some i) (hcall : i.isCall = true)
    (ho : i.operands = o :: rest) :
    let p := m.prepare a i
    let target := p.operandValue o
    let sp := m.arch.wrap (m.sp + p.cleanup o)
    (∃ m', execute a m = .ok () m' ∧ m'.ip = m.arch.wrap i.next ∧ m'.sp = sp ∧
      (∀ name e, p.emulated? o = some (name, e) →
        let c := m.effectiveConvention (some e.convention)
        let run := e.routine.call (LibC.undecorated name) (p.readArguments target c e.routine.arity) p
        m'.registers = ((m.registers.withIp i.next).withResult run.1).withSp sp ∧
          m'.memory = run.2.memory ∧ m'.calls = m.calls) ∧
      (p.emulated? o = none →
        m'.registers = (m.registers.withIp i.next).withSp sp ∧ m'.memory = m.memory ∧
          m'.calls = m.calls.insert i.address ⟨i.address, target, p.targetName? o target,
            (p.functionArguments (some target) none).toOption.getD []⟩)) ∧
    ∀ (before : Machine) (values : List UInt64), m = values.foldl push before →
      p.ReleasesArguments o values.length →
      sp = before.sp ∧
        ∀ (q : Machine) (returnAddress b : Address) (j : Instruction), q.arch = m.arch →
          q.sp = (m.push returnAddress).sp → q.listing.decode? b = some j →
          j.ReturnsReleasing (UInt64.ofNat (values.length * m.pointerSize)) →
          ∃ q', execute b q = .ok () q' ∧ q'.sp = before.sp := by
  intro p target sp
  have hrun : execute a m = p.call i := by
    have hop : Operation.ofMnemonic? i.mnemonic = some .call := by
      rw [beq_iff_eq.1 hcall]
      rfl
    exact execute_of_mnemonic hi hop
  have hregisters : p.registers = m.registers.withIp i.next := m.registers_prepare a i
  have harch : p.arch = m.arch := m.arch_prepare a i
  have hsp : p.arch.wrap (p.sp + p.cleanup o) = sp := by rw [harch, show p.sp = m.sp from m.sp_prepare a i]
  have hwrap : m.arch.wrap sp = sp := m.arch.wrap_wrap _
  constructor
  · rw [hrun]
    cases h : p.emulated? o with
    | none =>
      obtain ⟨m', hok, hregs, hmemory, hcalls⟩ := call_recorded ho h
      rw [hsp, hregisters] at hregs
      refine ⟨m', hok, ?_, ?_, nofun, fun _ => ⟨hregs, hmemory.trans (m.memory_prepare a i), ?_⟩⟩
      · rw [ip, hregs, Registers.ip_withSp]
        exact Registers.ip_withIp _ _
      · rw [Machine.sp, hregs]
        exact (Registers.sp_withSp _ _).trans hwrap
      · rw [hcalls, show p.calls = m.calls from m.calls_prepare a i]
    | some emulated =>
      obtain ⟨m', hok, hregs, hmemory, hcalls⟩ := call_emulated ho h
      rw [hsp, hregisters] at hregs
      refine ⟨m', hok, ?_, ?_, ?_, nofun⟩
      · rw [ip, hregs, Registers.ip_withSp, Registers.ip_withResult]
        exact Registers.ip_withIp _ _
      · rw [Machine.sp, hregs]
        exact (Registers.sp_withSp _ _).trans hwrap
      · rintro name e ⟨⟩
        have hconvention : p.effectiveConvention (some e.convention) = m.effectiveConvention (some e.convention) := by
          rw [effectiveConvention, harch]
          rfl
        rw [hconvention] at hregs hmemory
        exact ⟨hregs, hmemory, hcalls.trans (m.calls_prepare a i)⟩
  · intro before values hm hreleases
    have hback : m.arch.wrap (m.sp + UInt64.ofNat (values.length * m.pointerSize)) = before.sp := by
      have harch : m.arch = before.arch := by rw [hm, arch_pushes]
      rw [pointerSize, harch, hm]
      exact before.wrap_sp_pushes values
    refine ⟨?_, fun q returnAddress b j hq hqsp hj hret => ?_⟩
    · rw [show sp = m.arch.wrap (m.sp + p.cleanup o) from rfl, hreleases.cleanup_eq, pointerSize, harch]
      exact hback
    · rw [← hback]
      exact execute_ret_of_push hq hqsp hj hret

/-- Two arguments pushed for a function that releases them are gone after the call. -/
theorem execute_call_stdcall :
    let o := Operand.ofNear "f" 4 0x2000
    let i := Instruction.of 0x1000 "call" 5 [o]
    let f : FunctionRecord := ⟨0x2000, 0x2010, [], [], some ⟨"f", "int", some .stdcall, [⟨"int", "a"⟩, ⟨"int", "b"⟩]⟩⟩
    let before := Machine.fresh { (Listing.empty .x86).addInstruction i with functions := [f] } {}
    ∃ m', execute 0x1000 ([7, 8].foldl push before) = .ok () m' ∧ m'.sp = before.sp := by
  intro o i f before
  have hi : ([7, 8].foldl push before).listing.decode? 0x1000 = some i := by decide +kernel
  obtain ⟨⟨m', hok, -, hsp, -, -⟩, hback⟩ := execute_call hi (by decide +kernel) rfl
  have hreleases : (([7, 8].foldl push before).prepare 0x1000 i).ReleasesArguments o 2 :=
    ⟨.stdcall, 2, by decide +kernel, rfl, rfl⟩
  exact ⟨m', hok, hsp.trans (hback before [7, 8] rfl hreleases).1⟩

end Machine
end PathReplay
