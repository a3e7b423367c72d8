import PathReplay.Proofs.Instruction.ControlFlow

/-!
# Where operands refer to

An operand is evaluated with control at its instruction when its variable is looked up, and with control at the next
instruction when the instruction takes effect.

* `MemoryReference.isRelative`, `Operand.isRelative` : the operands to which it makes a difference where control is;
  `referenceAddress_withIp`, `operandAddress?_withIp`, `operandValue_withIp` : to no others;
* `referenceAddress_relative` : how far a reference moves with the instruction pointer that is its base;
* `LooksUp`, `looksUp_referenceAddress` : where the variable of a memory operand is looked up;
* `execute_mov` : a move looks up the address that it reads or writes, unless that is relative to the instruction
  pointer; it is then off by the length of the instruction.
-/

namespace PathReplay

/-- A reference whose base or index is the instruction pointer or a part of it. -/
def MemoryReference.isRelative (r : MemoryReference) : Bool :=
  r.base.any isInstructionPointer || r.index.any isInstructionPointer

/-- An operand that is the instruction pointer or a part of it, or refers to memory by it. -/
def Operand.isRelative (o : Operand) : Bool :=
  match o.kind with
  | .register name => isInstructionPointer name
  | .memory r => r.isRelative
  | _ => false

namespace Registers

variable {name : String} {r : Registers}

theorem getWide_withIp (h : isInstructionPointer name = false) (a : Address) :
    (r.withIp a).getWide name = r.getWide name := by
  refine getWide_writeField (fun g hg hstore => ?_) _
  have hmem : Text.lowercase name ∈ ["eip", "ip", "rip"] := (Layout.name_of_field? hg).2 hstore
  rw [isInstructionPointer, List.contains_iff_mem.2 hmem] at h
  cases h

theorem get_withIp (h : isInstructionPointer name = false) (a : Address) : (r.withIp a).get name = r.get name := by
  rw [get, get, getWide_withIp h]

theorem get_instructionPointer (h : Text.lowercase name = r.arch.instructionPointer) : r.get name = .ok r.ip := by
  have hfield := r.arch.field?_instructionPointer
  rw [← h] at hfield
  exact get_of_field? hfield

end Registers

namespace Machine

variable {m m' : Machine} {a b : Address} {i : Instruction} {o dst src : Operand} {rest : List Operand}
  {r : MemoryReference} {name : String}

/-! ## Where control is -/

/-- A register that is not the instruction pointer keeps its contents until an instruction takes effect. -/
theorem getWide_prepare (h : isInstructionPointer name = false) (a : Address) (i : Instruction) :
    (m.prepare a i).registers.getWide name = m.registers.getWide name := by
  rw [registers_prepare, Registers.getWide_withIp h]

theorem registerOrZero_withIp (h : isInstructionPointer name = false) (a : Address) :
    (m.withIp a).registerOrZero name = m.registerOrZero name := by
  unfold registerOrZero
  rw [show (m.withIp a).registers.get name = m.registers.get name from Registers.get_withIp h a]

theorem optionalRegister_withIp {name : Option String} (h : name.any isInstructionPointer = false) (a : Address) :
    (m.withIp a).optionalRegister name = m.optionalRegister name := by
  cases name with
  | none => rfl
  | some name => exact registerOrZero_withIp h a

theorem registerValue_withIp (h : isInstructionPointer name = false) (a : Address) :
    (m.withIp a).registerValue name = m.registerValue name := by
  unfold registerValue
  rw [show (m.withIp a).registers.get name = m.registers.get name from Registers.get_withIp h a]
  rfl

/-- An address is made of what the base and the index hold. -/
theorem referenceAddress_congr (harch : m'.arch = m.arch)
    (h : ∀ name, r.base = some name ∨ r.index = some name → m'.registerOrZero name = m.registerOrZero name) :
    m'.referenceAddress r = m.referenceAddress r := by
  have hregister : ∀ n : Option String, r.base = n ∨ r.index = n → m'.optionalRegister n = m.optionalRegister n := by
    intro n hn
    cases n with
    | none => rfl
    | some name => exact h name hn
  rw [referenceAddress, referenceAddress, harch, hregister _ (.inl rfl), hregister _ (.inr rfl)]

theorem referenceAddress_withIp (h : r.isRelative = false) (a : Address) :
    (m.withIp a).referenceAddress r = m.referenceAddress r := by
  obtain ⟨hbase, hindex⟩ := Bool.or_eq_false_iff.1 h
  unfold referenceAddress
  rw [optionalRegister_withIp hbase, optionalRegister_withIp hindex]
  rfl

theorem operandValue_withIp (h : o.isRelative = false) (a : Address) :
    (m.withIp a).operandValue o = m.operandValue o := by
  unfold Operand.isRelative at h
  unfold operandValue
  split
  · rename_i hkind
    rw [hkind] at h
    exact registerValue_withIp h a
  · rfl
  · rfl
  · rename_i hkind
    rw [hkind] at h
    rw [referenceAddress_withIp h]
    rfl

theorem operandAddress?_withIp (h : o.isRelative = false) (a : Address) :
    (m.withIp a).operandAddress? o = m.operandAddress? o := by
  unfold operandAddress?
  split
  · rename_i hkind
    unfold Operand.isRelative at h
    rw [hkind] at h
    rw [referenceAddress_withIp h]
  · rfl

theorem registerOrZero_instructionPointer (h : Text.lowercase name = m.arch.instructionPointer) :
    m.registerOrZero name = m.ip := by
  unfold registerOrZero
  rw [Registers.get_instructionPointer h]
  rfl

/-- A reference relative to the instruction pointer moves with it. -/
theorem referenceAddress_relative {base : String} (hbase : r.base = some base)
    (hname : Text.lowercase base = m.arch.instructionPointer) (hindex : r.index.any isInstructionPointer = false)
    (a b : Address) :
    (m.withIp b).referenceAddress r = m.arch.wrap ((m.withIp a).referenceAddress r + (b - a)) := by
  have haddress : ∀ a, (m.withIp a).referenceAddress r =
      m.arch.wrap (a + (r.displacement.toUInt64 + m.optionalRegister r.index * r.scale.toUInt64)) := by
    intro a
    have hip : (m.withIp a).optionalRegister r.base = m.arch.wrap a := by
      rw [hbase]
      exact (registerOrZero_instructionPointer (m := m.withIp a) hname).trans (ip_withIp m a)
    have horder : ∀ d x y : UInt64, d + x + y = x + (d + y) := fun d x y => by ac_rfl
    unfold referenceAddress
    rw [hip, optionalRegister_withIp hindex, horder]
    exact Arch.wrap_add _ _ _
  rw [haddress, haddress, Arch.wrap_add]
  congr 1
  rw [UInt64.sub_eq_add_neg]
  calc _ = (a + -a) + (b + (r.displacement.toUInt64 + m.optionalRegister r.index * r.scale.toUInt64)) := by
        rw [UInt64.add_neg_eq_sub, UInt64.sub_self, UInt64.zero_add]
    _ = _ := by ac_rfl

/-! ## Where a variable is looked up -/

theorem referenceAddress_of_registers (h : m'.registers = m.registers) (r : MemoryReference) :
    m'.referenceAddress r = m.referenceAddress r := by
  unfold referenceAddress optionalRegister registerOrZero arch
  rw [h]

/-- The machine with the variable at an address known: that of a named location, or the slot of the current frame. -/
def trackAt (m : Machine) (size : UInt64) (x : Address) : Machine :=
  match m.trackSymbol? x size with
  | some m => m
  | none =>
    match m.frameMember? x with
    | some (start, name, size) => m.registerVariable start name size
    | none => m

theorem trackOperand_memory (h : o.kind = .memory r) (m : Machine) :
    m.trackOperand o = m.trackAt o.size (m.referenceAddress r) := by
  unfold trackOperand
  rw [h]
  rfl

/-- Before an instruction takes effect, the variable of one of its operands is looked up at an address. -/
def LooksUp (m : Machine) (a : Address) (i : Instruction) (o : Operand) (x : Address) : Prop :=
  ∀ before after, i.operands = before ++ o :: after →
    m.prepare a i =
      (after.foldl trackOperand ((before.foldl trackOperand ((m.enter a).withIp a)).trackAt o.size x)).withIp i.next

/-- The variable of a memory operand is looked up where the operand refers to with control at the instruction. -/
theorem looksUp_referenceAddress (h : o.kind = .memory r) : m.LooksUp a i o ((m.withIp a).referenceAddress r) := by
  intro before after hoperands
  obtain ⟨frame, henter⟩ := m.enter_eq a
  obtain ⟨known, hbefore⟩ : ∃ known, before.foldl trackOperand ((m.enter a).withIp a) =
      { (m.enter a).withIp a with known } := track_eq _ { i with operands := before }
  have haddress : (before.foldl trackOperand ((m.enter a).withIp a)).referenceAddress r =
      (m.withIp a).referenceAddress r := by
    apply referenceAddress_of_registers
    rw [hbefore, henter]
    rfl
  unfold prepare track
  rw [hoperands, List.foldl_append, List.foldl_cons, trackOperand_memory h, haddress]

/-! ## When an instruction takes effect -/

theorem referenceAddress_prepare (m : Machine) (a : Address) (i : Instruction) (r : MemoryReference) :
    (m.prepare a i).referenceAddress r = (m.withIp i.next).referenceAddress r :=
  referenceAddress_of_registers (m.registers_prepare a i) r

/-- An operand is evaluated with control at the next instruction. -/
theorem operandAddress?_prepare_eq (m : Machine) (a : Address) (i : Instruction) (o : Operand) :
    (m.prepare a i).operandAddress? o = (m.withIp i.next).operandAddress? o := by
  obtain ⟨known, frame, hprepare⟩ := m.prepare_eq a i
  rw [hprepare]
  rfl

theorem operandValue_prepare_eq (m : Machine) (a : Address) (i : Instruction) (o : Operand) :
    (m.prepare a i).operandValue o = (m.withIp i.next).operandValue o := by
  obtain ⟨known, frame, hprepare⟩ := m.prepare_eq a i
  rw [hprepare]
  rfl

theorem operandAddress?_prepare (h : o.isRelative = false) (a : Address) (i : Instruction) :
    (m.prepare a i).operandAddress? o = m.operandAddress? o := by
  rw [operandAddress?_prepare_eq, operandAddress?_withIp h]

theorem operandValue_prepare (h : o.isRelative = false) (a : Address) (i : Instruction) :
    (m.prepare a i).operandValue o = m.operandValue o := by
  rw [operandValue_prepare_eq, operandValue_withIp h]

/-! ## Moves -/

theorem operandAddress?_memory (h : o.kind = .memory r) (m : Machine) :
    m.operandAddress? o = some (m.referenceAddress r) := by
  rw [operandAddress?, h]

theorem move_eq (ho : i.operands = dst :: src :: rest) (m : Machine) :
    Exec.move i m = Exec.store dst (m.operandValue src) m := by
  unfold Exec.move Exec.operand
  rw [ho]
  rfl

/-- A move looks up the variable of a memory operand at an address, the one that the operand has with control at the
instruction, and reads or writes at an address, the one that it has with control at the next instruction. The two are
the same unless the operand is relative to the instruction pointer. If that is its base, they are as far from each other
as the two instructions. -/
theorem execute_mov (hi : m.listing.decode? a = some i) (hmov : i.mnemonic = "mov")
    (ho : i.operands = dst :: src :: rest) (hr : o.kind = .memory r) :
    ∃ found accessed : Address,
      (m.withIp a).operandAddress? o = some found ∧ m.LooksUp a i o found ∧
      (m.withIp i.next).operandAddress? o = some accessed ∧
      (o = src → execute a m = Exec.store dst (m.memory.readWord accessed o.width) (m.prepare a i)) ∧
      (o = dst → execute a m =
        .ok () ((m.prepare a i).writeWord accessed ((m.prepare a i).operandValue src) o.width)) ∧
      (r.isRelative = false → accessed = found) ∧
      ∀ base, r.base = some base → Text.lowercase base = m.arch.instructionPointer →
        r.index.any isInstructionPointer = false → accessed = m.arch.wrap (found + (i.next - a)) := by
  have hexecute : execute a m = Exec.store dst ((m.prepare a i).operandValue src) (m.prepare a i) := by
    have hop : Operation.ofMnemonic? i.mnemonic = some .move := by
      rw [hmov]
      rfl
    exact (execute_of_mnemonic hi hop).trans (move_eq ho _)
  refine ⟨(m.withIp a).referenceAddress r, (m.withIp i.next).referenceAddress r, operandAddress?_memory hr _,
    looksUp_referenceAddress hr, operandAddress?_memory hr _, ?_, ?_, ?_, ?_⟩
  · rintro rfl
    rw [hexecute, operandValue, hr]
    dsimp only
    rw [referenceAddress_prepare, readWord, memory_prepare]
  · rintro rfl
    rw [hexecute, ← referenceAddress_prepare m a]
    unfold Exec.store Exec.updateOrFail setOperand
    rw [hr]
  · intro h
    rw [referenceAddress_withIp h, referenceAddress_withIp h]
  · intro base hbase hname hindex
    exact referenceAddress_relative hbase hname hindex a i.next

/-- A local is known by the address that it is written at. -/
theorem execute_mov_local :
    let o := Operand.ofMemory "[ebp-4]" 4 (some "ebp") (-4)
    let i := Instruction.of 0x1000 "mov" 3 [o, .ofRegister "eax" 4]
    let m := Machine.fresh ((Listing.empty .x86).addInstruction i) {}
    ∃ x, (m.withIp 0x1000).operandAddress? o = some x ∧ m.LooksUp 0x1000 i o x ∧
      execute 0x1000 m = .ok () ((m.prepare 0x1000 i).writeWord x 0 4) := by
  intro o i m
  obtain ⟨found, accessed, hfound, hlooks, -, -, hwrite, hsame, -⟩ :=
    execute_mov (m := m) (a := 0x1000) (i := i) (o := o) (by decide +kernel) (by decide +kernel) rfl rfl
  obtain rfl := hsame (by decide +kernel)
  refine ⟨accessed, hfound, hlooks, (hwrite rfl).trans ?_⟩
  rw [show (m.prepare 0x1000 i).operandValue (.ofRegister "eax" 4) = 0 by decide +kernel]
  rfl

/-- A global that is read relative to the instruction pointer is looked up seven bytes below where it lies. -/
theorem execute_mov_relative :
    let o := Operand.ofMemory "[rip+10h]" 8 (some "rip") 0x10
    let i := Instruction.of 0x1000 "mov" 7 [.ofRegister "rax" 8, o]
    let data : Segment := ⟨".data", 0x1017, 8, some #[42]⟩
    let m := Machine.fresh { (Listing.empty .x86_64).addInstruction i with segments := [data] } {}
    (m.withIp 0x1000).operandAddress? o = some 0x1010 ∧ m.LooksUp 0x1000 i o 0x1010 ∧
      ((execute 0x1000).after m).registerOrZero "rax" = m.readWord 0x1017 8 ∧
      m.readWord 0x1017 8 ≠ m.readWord 0x1010 8 := by
  intro o i data m
  have haddress : (m.withIp 0x1000).operandAddress? o = some 0x1010 := by decide +kernel
  refine ⟨haddress, ?_, by decide +kernel, by decide +kernel⟩
  rw [operandAddress?_memory rfl, Option.some_inj] at haddress
  rw [← haddress]
  exact looksUp_referenceAddress rfl

end Machine
end PathReplay
