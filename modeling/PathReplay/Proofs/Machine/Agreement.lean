import PathReplay.Instruction.Operation
import PathReplay.Proofs.Memory.Agreement

/-!
# Machines whose memories read alike

* `Machine.Agrees` : two machines that are equal but for the materialised pages of their memories;
* `Agrees.operandValue`, `Agrees.floatValue`, `Agrees.readString` and others : they look alike;
* `Agrees.write`, `Agrees.setOperand`, `Agrees.setFloat`, `Agrees.push` and others : what is done to both keeps
  them alike;
* `Agrees.routine`, `Agrees.call` : so does a call, emulated or recorded;
* `Agrees.prepare` : so does getting ready for an instruction.
-/

namespace PathReplay

/-- Memory is read alike for the histories of variables. -/
theorem Variables.recordWrite_congr {memory memory' : Memory} (h : memory.Agrees memory') (vs : Variables) (a : Address)
    (length : Nat) : vs.recordWrite memory' a length = vs.recordWrite memory a length := by
  have hremember : ∀ v : Variable, v.remember memory' = v.remember memory := fun v => by
    rw [Variable.remember, Variable.data, h.read, Variable.remember, Variable.data]
  simp only [recordWrite, hremember]

namespace Machine

variable {m m' : Machine}

/-- Two machines are equal but for their memories, which read alike. -/
structure Agrees (m m' : Machine) : Prop where
  eq : m' = { m with memory := m'.memory }
  memory : m.memory.Agrees m'.memory

/-- A machine with one memory or the other. -/
theorem agrees_withMemory (m : Machine) {memory memory' : Memory} (h : memory.Agrees memory') :
    Agrees { m with memory } { m with memory := memory' } := ⟨rfl, h⟩

theorem trackSymbol?_withMemory (m : Machine) (memory : Memory) (a : Address) (size : UInt64) :
    trackSymbol? { m with memory } a size = (m.trackSymbol? a size).map fun n => { n with memory } := by
  rw [trackSymbol?, trackSymbol?, Option.map_map]
  rfl

/-- Memory is not looked at for the variable of an operand. -/
theorem trackOperand_withMemory (m : Machine) (memory : Memory) (o : Operand) :
    trackOperand { m with memory } o = { m.trackOperand o with memory } := by
  have hsymbol : ∀ a size, (trackSymbol? { m with memory } a size).getD { m with memory } =
      { (m.trackSymbol? a size).getD m with memory } := by
    intro a size
    rw [trackSymbol?_withMemory]
    cases m.trackSymbol? a size <;> rfl
  unfold trackOperand
  split
  · rfl
  · exact hsymbol _ _
  · exact hsymbol _ _
  · rename_i r _
    have ha : referenceAddress { m with memory } r = m.referenceAddress r := rfl
    have hmember : frameMember? { m with memory } (m.referenceAddress r) = m.frameMember? (m.referenceAddress r) := rfl
    dsimp only
    rw [ha, hmember, trackSymbol?_withMemory]
    cases m.trackSymbol? (m.referenceAddress r) o.size with
    | some n => rfl
    | none =>
      cases m.frameMember? (m.referenceAddress r) with
      | none => rfl
      | some slot => rfl

/-- A machine that agrees is the same machine with another memory. -/
theorem Agrees.eq_withMemory (h : m.Agrees m') : ∃ memory, m.memory.Agrees memory ∧ m' = { m with memory } :=
  ⟨m'.memory, h.memory, h.eq⟩

namespace Agrees

variable (h : m.Agrees m')
include h

/-! ## What is seen -/

theorem registers : m'.registers = m.registers := by rw [h.eq]

theorem listing : m'.listing = m.listing := by rw [h.eq]

theorem arch : m'.arch = m.arch := by rw [Machine.arch, h.registers, Machine.arch]

theorem pointerSize : m'.pointerSize = m.pointerSize := by rw [Machine.pointerSize, h.arch, Machine.pointerSize]

theorem sp : m'.sp = m.sp := by rw [Machine.sp, h.registers, Machine.sp]

theorem ip : m'.ip = m.ip := by rw [Machine.ip, h.registers, Machine.ip]

theorem readWord (a : Address) (width : Nat) : m'.readWord a width = m.readWord a width := h.memory.readWord a width

theorem registerOrZero (name : String) : m'.registerOrZero name = m.registerOrZero name := by
  rw [Machine.registerOrZero, h.registers, Machine.registerOrZero]

theorem referenceAddress (r : MemoryReference) : m'.referenceAddress r = m.referenceAddress r := by
  rw [h.eq]
  rfl

theorem operandAddress? (o : Operand) : m'.operandAddress? o = m.operandAddress? o := by
  rw [h.eq]
  rfl

theorem operandValue (o : Operand) : m'.operandValue o = m.operandValue o := by
  unfold Machine.operandValue
  split
  · rw [registerValue, h.registers, registerValue]
  · rfl
  · rfl
  · rw [h.referenceAddress, h.readWord]

theorem signedValue (o : Operand) : m'.signedValue o = m.signedValue o := by
  rw [Machine.signedValue, h.operandValue, Machine.signedValue]

theorem integerValue (o : Operand) : m'.integerValue o = m.integerValue o := by
  rw [Machine.integerValue, h.operandValue, Machine.integerValue]

theorem stackValue (n : Nat) : m'.stackValue n = m.stackValue n := by
  rw [Machine.stackValue, h.registers, Machine.stackValue]

theorem readFloat (a : Address) (size : Nat) : m'.readFloat a size = m.readFloat a size := by
  simp only [Machine.readFloat, h.readWord, h.memory.read]

theorem floatValue (o : Operand) : m'.floatValue o = m.floatValue o := by
  simp only [Machine.floatValue, h.stackValue, h.operandAddress?, h.readFloat, h.operandValue]

theorem stringLimit (unit : Nat) : m'.stringLimit unit = m.stringLimit unit := by
  rw [h.eq]
  rfl

theorem readString (a : Address) (unit : Nat) : m'.readString a unit = m.readString a unit := by
  simp only [Machine.readString, h.stringLimit, h.memory.read]

theorem readUnits (a : Address) (unit : Nat) (count : UInt64) :
    m'.readUnits a unit count = m.readUnits a unit count := by
  rw [Machine.readUnits, h.readString, Machine.readUnits]

/-! ### Arguments -/

theorem effectiveConvention (c : Option Convention) : m'.effectiveConvention c = m.effectiveConvention c := by
  rw [Machine.effectiveConvention, h.arch, Machine.effectiveConvention]

theorem instruction? : m'.instruction? = m.instruction? := by
  rw [Machine.instruction?, h.listing, h.ip, Machine.instruction?]

theorem resolveFunction (a : Option Address) : m'.resolveFunction a = m.resolveFunction a := by
  simp only [Machine.resolveFunction, h.instruction?, h.operandValue, h.ip, h.listing]

theorem argument (entry : Address) (c : Convention) (i : Nat) : m'.argument entry c i = m.argument entry c i := by
  simp only [Machine.argument, h.registerOrZero, stackArguments, h.ip, h.sp, h.pointerSize, h.readWord]

theorem readArguments (entry : Address) (c : Convention) (count : Nat) :
    m'.readArguments entry c count = m.readArguments entry c count := by
  rw [Machine.readArguments, Machine.readArguments]
  exact List.map_congr_left fun i _ => h.argument entry c i

theorem functionArguments (a : Option Address) (count : Option Nat) :
    m'.functionArguments a count = m.functionArguments a count := by
  simp only [Machine.functionArguments, h.resolveFunction, h.listing, h.effectiveConvention, h.readArguments]

theorem targetName? (o : Operand) (target : Address) : m'.targetName? o target = m.targetName? o target := by
  rw [Machine.targetName?, h.operandAddress?, h.listing, Machine.targetName?]

/-! ## What is done -/

theorem withRegisters (r : Registers) : (m.withRegisters r).Agrees (m'.withRegisters r) := by
  obtain ⟨memory, hmemory, rfl⟩ := h.eq_withMemory
  exact ⟨rfl, hmemory⟩

theorem withIp (a : Address) : (m.withIp a).Agrees (m'.withIp a) := by
  rw [Machine.withIp, Machine.withIp, h.registers]
  exact h.withRegisters _

theorem withSp (a : Address) : (m.withSp a).Agrees (m'.withSp a) := by
  rw [Machine.withSp, Machine.withSp, h.registers]
  exact h.withRegisters _

theorem write (a : Address) (data : Bytes) : (m.write a data).Agrees (m'.write a data) := by
  obtain ⟨memory, hmemory, rfl⟩ := h.eq_withMemory
  rw [Machine.write, Machine.write, Variables.recordWrite_congr hmemory]
  exact ⟨rfl, hmemory.write a data⟩

theorem writeWord (a : Address) (value : UInt64) (width : Nat) :
    (m.writeWord a value width).Agrees (m'.writeWord a value width) := h.write a _

theorem push (value : UInt64) : (m.push value).Agrees (m'.push value) := by
  rw [Machine.push, Machine.push, h.arch, h.sp, h.pointerSize]
  exact (h.withSp _).writeWord _ _ _

theorem pop : m'.pop.1 = m.pop.1 ∧ m.pop.2.Agrees m'.pop.2 := by
  rw [Machine.pop, Machine.pop, h.arch, h.sp, h.pointerSize]
  exact ⟨h.readWord _ _, h.withSp _⟩

theorem withFloat (s : FloatStack) : (m.withFloat s).Agrees (m'.withFloat s) := by
  rw [Machine.withFloat, Machine.withFloat, h.registers]
  exact h.withRegisters _

theorem writeFloat (a : Address) (size : Nat) (x : Double) :
    (m.writeFloat a size x).Agrees (m'.writeFloat a size x) := by
  unfold Machine.writeFloat
  split
  · exact h.writeWord _ _ _
  · split
    · exact h.write _ _
    · exact h.writeWord _ _ _

theorem setFloat (o : Operand) (x : Double) : (m.setFloat o x).Agrees (m'.setFloat o x) := by
  unfold Machine.setFloat
  rw [h.operandAddress?, h.registers]
  split
  · exact h.withFloat _
  · split
    · exact h.writeFloat _ _ _
    · exact h

/-! ## Before an instruction -/

theorem enter (a : Address) : (m.enter a).Agrees (m'.enter a) := by
  obtain ⟨memory, hmemory, rfl⟩ := h.eq_withMemory
  unfold Machine.enter
  split
  · exact ⟨rfl, hmemory⟩
  · exact h

theorem trackOperand (o : Operand) : (m.trackOperand o).Agrees (m'.trackOperand o) := by
  obtain ⟨memory, hmemory, rfl⟩ := h.eq_withMemory
  obtain ⟨known, heq⟩ := m.trackOperand_eq o
  rw [trackOperand_withMemory m memory, heq]
  exact ⟨rfl, hmemory⟩

theorem track (i : Instruction) : (m.track i).Agrees (m'.track i) := by
  unfold Machine.track
  induction i.operands generalizing m m' with
  | nil => exact h
  | cons o os ih => exact ih (h.trackOperand o)

theorem prepare (a : Address) (i : Instruction) : (m.prepare a i).Agrees (m'.prepare a i) :=
  (((h.enter a).withIp a).track i).withIp i.next

end Agrees

/-! ## What may fail -/

/-- Two changes fail alike or give machines that agree. -/
inductive SameChange : Except Error Machine → Except Error Machine → Prop where
  | ok {m m' : Machine} (h : m.Agrees m') : SameChange (.ok m) (.ok m')
  | error (e : Error) : SameChange (.error e) (.error e)

namespace Agrees

variable (h : m.Agrees m')
include h

theorem setRegister (name : String) (value : UInt64) :
    SameChange (m.setRegister name value) (m'.setRegister name value) := by
  rw [Machine.setRegister, Machine.setRegister, h.registers]
  cases m.registers.set name value with
  | error e => exact .error e
  | ok r => exact .ok (h.withRegisters r)

theorem setOperand (o : Operand) (value : UInt64) : SameChange (m.setOperand o value) (m'.setOperand o value) := by
  unfold Machine.setOperand
  split
  · exact h.setRegister _ value
  · rw [h.referenceAddress]
    exact .ok (h.writeWord _ value _)
  · exact .ok h

/-! ## Calls -/

theorem alloc (size : UInt64) : (m'.alloc size).1 = (m.alloc size).1 ∧ (m.alloc size).2.Agrees (m'.alloc size).2 := by
  obtain ⟨memory, hmemory, rfl⟩ := h.eq_withMemory
  obtain ⟨hp, halloc⟩ := hmemory.alloc size
  exact ⟨hp, rfl, halloc⟩

theorem writeString (a : Address) (data : Bytes) (unit : Nat) :
    (m.writeString a data unit).Agrees (m'.writeString a data unit) := h.write a _

theorem duplicate (data : Bytes) (unit : Nat) :
    (LibC.duplicate m' data unit).1 = (LibC.duplicate m data unit).1 ∧
      (LibC.duplicate m data unit).2.Agrees (LibC.duplicate m' data unit).2 := by
  obtain ⟨hp, halloc⟩ := h.alloc (UInt64.ofNat (data.length + unit))
  rw [LibC.duplicate, LibC.duplicate]
  dsimp only
  rw [hp]
  exact ⟨rfl, halloc.writeString _ data unit⟩

/-- An emulated function gives the same result and leaves machines that agree. -/
theorem routine (r : LibC.Routine) (unit : Nat) (args : List UInt64) :
    (r.run unit args m').1 = (r.run unit args m).1 ∧ (r.run unit args m).2.Agrees (r.run unit args m').2 := by
  cases r <;> simp only [LibC.Routine.run, LibC.stringEnd, h.readString, h.readUnits, h.memory.bounded, h.memory.read]
  case strcat | strncat | strcpy => exact ⟨trivial, h.writeString _ _ unit⟩
  case strncpy | memcpy | memset => exact ⟨trivial, h.write _ _⟩
  case strdup | strndup => exact h.duplicate _ unit
  case malloc | calloc => exact h.alloc _
  case strlen => exact ⟨trivial, h⟩
  case realloc =>
    obtain ⟨memory, hmemory, rfl⟩ := h.eq_withMemory
    obtain ⟨hp, hrealloc⟩ := hmemory.realloc (args.getD 0 0) (args.getD 1 0)
    exact ⟨hp, rfl, hrealloc⟩
  case free =>
    obtain ⟨memory, hmemory, rfl⟩ := h.eq_withMemory
    exact ⟨trivial, rfl, hmemory.free _⟩

theorem releaseArguments (c : Convention) (count : Nat) :
    (m.releaseArguments c count).Agrees (m'.releaseArguments c count) := by
  simp only [Machine.releaseArguments, h.pointerSize, h.arch, h.sp]
  split
  · exact h
  · exact h.withSp _

theorem recordCall (site target : Address) (name : Option String) :
    (m.recordCall site target name).Agrees (m'.recordCall site target name) := by
  have hinsert : ∀ {n n' : Machine}, n.Agrees n' → ∀ c : Call,
      Agrees { n with calls := n.calls.insert site c } { n' with calls := n'.calls.insert site c } := by
    intro n n' hn c
    obtain ⟨memory, hmemory, rfl⟩ := hn.eq_withMemory
    exact ⟨rfl, hmemory⟩
  simp only [Machine.recordCall, h.functionArguments, h.listing, h.effectiveConvention]
  refine hinsert ?_ _
  split
  · exact h.releaseArguments _ _
  · exact h

end Agrees

/-- Two runs of an effect fail alike or succeed with the same value, and leave machines that agree. -/
inductive SameOutcome {α : Type} : EStateM.Result Error Machine α → EStateM.Result Error Machine α → Prop where
  | ok (x : α) {m m' : Machine} (h : m.Agrees m') : SameOutcome (.ok x m) (.ok x m')
  | error (e : Error) {m m' : Machine} (h : m.Agrees m') : SameOutcome (.error e m) (.error e m')

namespace Agrees

variable (h : m.Agrees m')
include h

/-- The result of a function is stored, and its arguments are released unless that fails. -/
theorem storeResult (result : UInt64) (c : Convention) (count : Nat) :
    SameOutcome
      (match m.setRegister m.arch.resultRegister result with
        | .ok n => .ok () (n.releaseArguments c count)
        | .error e => .error e m)
      (match m'.setRegister m'.arch.resultRegister result with
        | .ok n => .ok () (n.releaseArguments c count)
        | .error e => .error e m') := by
  have hset := h.setRegister m.arch.resultRegister result
  rw [h.arch]
  generalize m.setRegister m.arch.resultRegister result = r at hset ⊢
  generalize m'.setRegister m.arch.resultRegister result = r' at hset ⊢
  cases hset with
  | ok hn => exact .ok () (hn.releaseArguments c count)
  | error e => exact .error e h

theorem callRoutine (e : LibC.Entry) (name : String) (target : Address) :
    SameOutcome (m.callRoutine e name target) (m'.callRoutine e name target) := by
  obtain ⟨hresult, hrun⟩ := h.routine e.routine (LibC.unitOf (LibC.undecorated name))
    (m.readArguments target (m.effectiveConvention (some e.convention)) e.routine.arity)
  simp only [Machine.callRoutine, LibC.Routine.call, h.effectiveConvention, h.readArguments, hresult]
  exact hrun.storeResult _ _ _

theorem call (i : Instruction) : SameOutcome (m.call i) (m'.call i) := by
  unfold Machine.call
  split
  · exact .ok () h
  · dsimp only
    rw [h.operandValue, h.targetName?]
    split
    · exact h.callRoutine _ _ _
    · exact .ok () (h.recordCall _ _ _)

end Agrees
end Machine
end PathReplay
