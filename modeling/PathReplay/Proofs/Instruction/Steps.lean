import PathReplay.Proofs.Machine.Agreement
import PathReplay.Proofs.Register.Windows

/-!
# What an instruction inherits from its steps

* `Stepwise` : a property of effects that passes from the steps of an instruction to whatever is put together from
  them. Moving control is not among these steps, and none of them looks at memory otherwise than by reading it;
* `Stepwise.operand`, `Stepwise.iterate`, `Stepwise.forM` : the ways in which instructions put steps together;
* `Operation.isStraight`, `Stepwise.run` : an operation that does not move control has every such property;
* `Inherited` : a property that every view of the machine has, and every change of it that leaves control and the
  program alone; `Machine.SameProgram` : the architecture and the listing are the same;
* `Complete`, `Complete.run` : every operation has such a property if moving control and stepping over a call have it;
* `straight_or_transfer` : the mnemonics of those that do.
-/

namespace PathReplay

/-- A name, in any case, under which a register is the instruction pointer or a part of it. -/
def isInstructionPointer (name : String) : Bool := ["eip", "ip", "rip"].contains (Text.lowercase name)

/-- The general registers, under the names by which instructions choose one themselves. -/
def generalNames : List String :=
  ["al", "ah", "ax", "dx"] ++ Arch.nativeNames.map Prod.fst ++ Arch.nativeNames.map Prod.snd

theorem isInstructionPointer_of_general :
    ∀ {name : String}, name ∈ generalNames → isInstructionPointer name = false := by
  decide +kernel

/-- An operation that neither moves control nor steps over a call. Extending the accumulator is one as long as it
extends into another register than the instruction pointer. -/
def Operation.isStraight : Operation → Bool
  | branch | branchIf _ | branchIfZero _ | loop | ret | call => false
  | extendAccumulator _ _ target => !isInstructionPointer target
  | _ => true

theorem Operation.eq_of_not_isStraight {op : Operation} (h : op.isStraight = false) :
    op = branch ∨ (∃ c, op = branchIf c) ∨ (∃ counter, op = branchIfZero counter) ∨ op = loop ∨ op = ret ∨ op = call ∨
      ∃ source width target, op = extendAccumulator source width target ∧ isInstructionPointer target = true := by
  cases op <;> simp_all [isStraight, and_assoc]

/-! ## Mnemonics of operations that move control -/

def jumpCondition? (mnemonic : String) : Option Condition :=
  match mnemonic.toList with
  | 'j' :: suffix => Condition.ofSuffix? (String.ofList suffix)
  | _ => none

namespace Operation

/-- Of the listed mnemonics few transfer control. -/
theorem mnemonics_transfer : ∀ e ∈ mnemonics, e.2.isStraight = true ∨ e.2 = call ∨
    e.1 ∈ ["jmp", "ret", "retn", "loop", "jcxz", "jecxz", "jrcxz"] := by decide +kernel

theorem mnemonics_conditional : ∀ e ∈ mnemonics, conditional? e.1 = none := by decide +kernel

theorem mem_of_lookup {name : String} {op : Operation} (h : mnemonics.lookup name = some op) :
    (name, op) ∈ mnemonics := by
  obtain ⟨front, back, hlist, -⟩ := List.lookup_eq_some_iff.1 h
  simp [hlist]

/-- No conditional instruction is listed among the mnemonics, so its suffix decides what it is. -/
theorem ofMnemonic?_of_conditional {name : String} {op : Operation} (h : conditional? name = some op) :
    ofMnemonic? name = some op := by
  have hlookup : mnemonics.lookup name = none := by
    rw [Option.eq_none_iff_forall_ne_some]
    intro listed hlisted
    rw [mnemonics_conditional _ (mem_of_lookup hlisted)] at h
    cases h
  rw [ofMnemonic?, hlookup, Option.none_or, h]

theorem ofMnemonic?_of_jumpCondition {name : String} {c : Condition} (h : jumpCondition? name = some c) :
    ofMnemonic? name = some (branchIf c) := by
  apply ofMnemonic?_of_conditional
  unfold jumpCondition? at h
  split at h
  · rename_i suffix hname
    unfold conditional?
    rw [hname]
    exact congrArg (Option.map branchIf) h
  · cases h

theorem straight_or_transfer {name : String} {op : Operation} (h : ofMnemonic? name = some op) :
    op.isStraight = true ∨ op = call ∨ name ∈ ["jmp", "ret", "retn", "loop", "jcxz", "jecxz", "jrcxz"] ∨
      ∃ c, jumpCondition? name = some c := by
  rw [ofMnemonic?, Option.or_eq_some_iff] at h
  obtain hlookup | ⟨-, hconditional⟩ := h
  · obtain hstraight | hcall | htransfer := mnemonics_transfer _ (mem_of_lookup hlookup)
    · exact .inl hstraight
    · exact .inr (.inl hcall)
    · exact .inr (.inr (.inl htransfer))
  · unfold conditional? at hconditional
    dsimp only at hconditional
    split at hconditional
    · obtain ⟨c, -, rfl⟩ := Option.map_eq_some_iff.1 hconditional
      exact .inl rfl
    · obtain ⟨c, -, rfl⟩ := Option.map_eq_some_iff.1 hconditional
      exact .inl rfl
    · rename_i suffix hname
      obtain ⟨c, hc, rfl⟩ := Option.map_eq_some_iff.1 hconditional
      refine .inr (.inr (.inr ⟨c, ?_⟩))
      unfold jumpCondition?
      rw [hname]
      exact hc
    · cases hconditional

end Operation

/-! ## Changes that leave control where it is, and the program -/

namespace Machine

structure SameProgram (m m' : Machine) : Prop where
  arch : m'.arch = m.arch
  listing : m'.listing = m.listing

theorem SameProgram.refl (m : Machine) : SameProgram m m := ⟨rfl, rfl⟩

theorem SameProgram.trans {m m' m'' : Machine} (h : SameProgram m m') (h' : SameProgram m' m'') : SameProgram m m'' :=
  ⟨h'.arch.trans h.arch, h'.listing.trans h.listing⟩

theorem sameProgram_withFlags (m : Machine) (fs : List (Flag × Bool)) :
    m.SameProgram (m.withRegisters (fs.foldl (fun r (f, b) => r.withFlag f b) m.registers)) := by
  refine ⟨?_, rfl⟩
  show (fs.foldl (fun r (f, b) => r.withFlag f b) m.registers).arch = m.registers.arch
  generalize m.registers = r
  induction fs generalizing r with
  | nil => rfl
  | cons fb fs ih => exact ih (r.withFlag fb.1 fb.2)

theorem sameProgram_writeFloat (m : Machine) (a : Address) (size : Nat) (x : Double) :
    m.SameProgram (m.writeFloat a size x) := by
  unfold writeFloat
  split
  · exact ⟨rfl, rfl⟩
  · split <;> exact ⟨rfl, rfl⟩

theorem sameProgram_setFloat (m : Machine) (o : Operand) (x : Double) : m.SameProgram (m.setFloat o x) := by
  unfold setFloat
  split
  · exact ⟨rfl, rfl⟩
  · split
    · exact sameProgram_writeFloat ..
    · exact .refl m

theorem ip_withIp (m : Machine) (a : Address) : (m.withIp a).ip = m.arch.wrap a := Registers.ip_withIp _ _

theorem ip_withSp (m : Machine) (a : Address) : (m.withSp a).ip = m.ip := Registers.ip_withSp _ _

theorem ip_push (m : Machine) (v : UInt64) : (m.push v).ip = m.ip := ip_withSp _ _

theorem ip_writeFloat (m : Machine) (a : Address) (size : Nat) (x : Double) : (m.writeFloat a size x).ip = m.ip := by
  unfold writeFloat
  split
  · rfl
  · split <;> rfl

theorem ip_setFloat (m : Machine) (o : Operand) (x : Double) : (m.setFloat o x).ip = m.ip := by
  unfold setFloat
  split
  · rfl
  · split
    · exact ip_writeFloat ..
    · rfl

end Machine

theorem Flag.store_field_ne (f : Flag) (arch : Arch) : arch.instructionField.store ≠ (f.field arch).store := by
  cases f <;> cases arch <;> decide

theorem Registers.ip_withFlags (fs : List (Flag × Bool)) (r : Registers) :
    (fs.foldl (fun r (f, b) => r.withFlag f b) r).ip = r.ip := by
  induction fs generalizing r with
  | nil => rfl
  | cons fb fs ih => exact (ih _).trans (wordAt_writeField_of_ne (fb.1.store_field_ne r.arch) _)

namespace Exec

/-! ## Properties that pass from steps to what they make up -/

/-- What is put together from the steps of an instruction has the property if these steps have it. A step sees memory
only as it reads, and changes it alike whichever pages are materialised. -/
structure Stepwise (i : Instruction) (P : ∀ α : Type, Exec α → Prop) : Prop where
  pure : ∀ {α : Type} (a : α), P α (pure a)
  bind : ∀ {α β : Type} {x : Exec α} {f : α → Exec β}, P α x → (∀ a, P β (f a)) → P β (x >>= f)
  /-- An operand that the instruction lacks. -/
  missing : ∀ {α : Type}, P α (throw (.invalidInstruction i.address))
  view : ∀ {α : Type} {g : Machine → α}, (∀ m m', m.Agrees m' → g m' = g m) → P α (view g)
  register : ∀ name, P UInt64 (register name)
  setRegister : ∀ {name}, isInstructionPointer name = false → ∀ v, P Unit (setRegister name v)
  store : ∀ {o}, o ∈ i.operands → ∀ v, P Unit (store o v)
  pop : P UInt64 pop
  update : ∀ {g : Machine → Machine}, (∀ m, (g m).ip = m.ip) → (∀ m : Machine, m.SameProgram (g m)) →
    (∀ m m', m.Agrees m' → (g m).Agrees (g m')) → P Unit (update g)

/-- What is put together from the steps of an instruction has the property if these steps have it, whatever they see
of the machine and however they change it. -/
structure Inherited (i : Instruction) (P : ∀ α : Type, Exec α → Prop) : Prop where
  pure : ∀ {α : Type} (a : α), P α (pure a)
  bind : ∀ {α β : Type} {x : Exec α} {f : α → Exec β}, P α x → (∀ a, P β (f a)) → P β (x >>= f)
  /-- An operand that the instruction lacks. -/
  missing : ∀ {α : Type}, P α (throw (.invalidInstruction i.address))
  view : ∀ {α : Type} (g : Machine → α), P α (view g)
  register : ∀ name, P UInt64 (register name)
  setRegister : ∀ {name}, isInstructionPointer name = false → ∀ v, P Unit (setRegister name v)
  store : ∀ {o}, o ∈ i.operands → ∀ v, P Unit (store o v)
  pop : P UInt64 pop
  update : ∀ {g : Machine → Machine}, (∀ m, (g m).ip = m.ip) → (∀ m : Machine, m.SameProgram (g m)) → P Unit (update g)

theorem Inherited.stepwise {i : Instruction} {P : ∀ α : Type, Exec α → Prop} (h : Inherited i P) : Stepwise i P where
  pure := h.pure
  bind := h.bind
  missing := h.missing
  view _ := h.view _
  register := h.register
  setRegister := h.setRegister
  store := h.store
  pop := h.pop
  update hip hprogram _ := h.update hip hprogram

namespace Stepwise

variable {i : Instruction} {P : ∀ α : Type, Exec α → Prop} {α β : Type}

theorem ite {p : Prop} [Decidable p] {x y : Exec α} (hx : P α x) (hy : P α y) : P α (if p then x else y) := by
  split
  · exact hx
  · exact hy

section
variable (h : Stepwise i P)
include h

/-- What follows after an operand was found may count on it to be one of the instruction's. -/
theorem operand (n : Nat) {f : Operand → Exec α} (hf : ∀ o ∈ i.operands, P α (f o)) : P α (operand i n >>= f) := by
  unfold Exec.operand
  split
  · rename_i o ho
    rw [pure_bind]
    exact hf o (List.mem_of_getElem? ho)
  · exact h.missing

theorem iterate {step : Exec Unit} (hstep : P Unit step) (n : Nat) : P Unit (iterate step n) := by
  induction n with
  | zero => exact h.pure ()
  | succ n ih =>
    rw [show Exec.iterate step (n + 1) = step >>= fun _ => Exec.iterate step n from funext (iterate_succ step n)]
    exact h.bind hstep fun _ => ih

theorem forM {step : β → Exec Unit} {bs : List β} (hstep : ∀ b ∈ bs, P Unit (step b)) : P Unit (bs.forM step) := by
  induction bs with
  | nil => exact h.pure ()
  | cons b bs ih =>
    exact h.bind (hstep b List.mem_cons_self) fun _ => ih fun b' hb' => hstep b' (List.mem_cons_of_mem _ hb')

/-! ## What the steps of instructions see and change -/

theorem value (o : Operand) : P UInt64 (value o) := h.view fun _ _ hm => hm.operandValue o

theorem signedValue (o : Operand) : P UInt64 (signedValue o) := h.view fun _ _ hm => hm.signedValue o

theorem flag (f : Flag) : P Bool (flag f) := h.view fun _ _ hm => by rw [hm.registers]

theorem holds (c : Condition) : P Bool (Exec.view fun m => c.holds m.registers) :=
  h.view fun _ _ hm => by rw [hm.registers]

theorem arch : P Arch arch := h.view fun _ _ hm => hm.arch

theorem stackValue (n : Nat) : P Double (stackValue n) := h.view fun _ _ hm => hm.stackValue n

theorem floatValue (o : Operand) : P Double (floatValue o) := h.view fun _ _ hm => hm.floatValue o

theorem setFlags (fs : List (Flag × Bool)) : P Unit (setFlags fs) := by
  refine h.update (fun m => Registers.ip_withFlags fs m.registers) (fun m => m.sameProgram_withFlags fs)
    fun m m' hm => ?_
  rw [hm.registers]
  exact hm.withRegisters _

theorem push (v : UInt64) : P Unit (push v) :=
  h.update (fun m => m.ip_push v) (fun _ => ⟨rfl, rfl⟩) fun _ _ hm => hm.push v

theorem updateFloat (f : FloatStack → FloatStack) :
    P Unit (Exec.update fun m => m.withFloat (f m.registers.float)) := by
  refine h.update (fun _ => rfl) (fun _ => ⟨rfl, rfl⟩) fun m m' hm => ?_
  rw [hm.registers]
  exact hm.withFloat _

theorem setFloat (o : Operand) (x : Double) : P Unit (Exec.update fun m => m.setFloat o x) :=
  h.update (fun m => m.ip_setFloat o x) (fun m => m.sameProgram_setFloat o x) fun _ _ hm => hm.setFloat o x

/-! ## Registers that instructions name themselves -/

theorem setAccumulator (width : Nat) (v : UInt64) : P Unit (Exec.setRegister (accumulators width).1 v) := by
  refine h.setRegister ?_ v
  apply isInstructionPointer_of_general
  unfold accumulators
  split <;> decide

theorem setPartner (width : Nat) (v : UInt64) : P Unit (Exec.setRegister (accumulators width).2 v) := by
  refine h.setRegister ?_ v
  apply isInstructionPointer_of_general
  unfold accumulators
  split <;> decide

/-- The general registers that instructions name by their 32-bit names. -/
theorem setNative {name : String} (hname : name ∈ ["ecx", "esi", "edi"]) (a : Arch) (v : UInt64) :
    P Unit (Exec.setRegister (a.nativeName name) v) := by
  refine h.setRegister (isInstructionPointer_of_general ?_) v
  revert name
  cases a <;> decide

/-! ## Data movement -/

theorem move : P Unit (move i) := by
  apply h.operand 0
  intro dst hdst
  apply h.operand 1
  intro src _
  exact h.bind (h.value src) fun v => h.store hdst v

theorem moveSigned : P Unit (moveSigned i) := by
  apply h.operand 0
  intro dst hdst
  apply h.operand 1
  intro src _
  exact h.bind (h.signedValue src) fun v => h.store hdst _

theorem loadAddress : P Unit (loadAddress i) := by
  apply h.operand 0
  intro dst hdst
  apply h.operand 1
  intro src _
  exact h.bind (h.view fun _ _ hm => by rw [hm.operandAddress?]) fun a => h.store hdst _

theorem exchange : P Unit (exchange i) := by
  apply h.operand 0
  intro a ha
  apply h.operand 1
  intro b hb
  apply h.bind (h.value a)
  intro va
  apply h.bind (h.value b)
  intro vb
  exact h.bind (h.store ha vb) fun _ => h.store hb va

theorem pushOperand : P Unit (pushOperand i) := by
  apply h.operand 0
  intro src _
  exact h.bind (h.signedValue src) fun v => h.bind h.arch fun a => h.push _

theorem popOperand : P Unit (popOperand i) := by
  apply h.operand 0
  intro dst hdst
  exact h.bind h.pop fun v => h.store hdst v

theorem pushAll : P Unit pushAll := by
  apply h.bind h.arch
  intro a
  refine ite ?_ (h.pure ())
  apply h.bind (h.view fun _ _ hm => hm.sp)
  intro sp
  apply h.forM
  intro name _
  dsimp only
  exact ite (h.bind (h.pure sp) h.push) (h.bind (h.register name) h.push)

theorem popAll : P Unit popAll := by
  apply h.bind h.arch
  intro a
  refine ite ?_ (h.pure ())
  apply h.forM
  intro name hname
  have hip : isInstructionPointer name = false := by
    apply isInstructionPointer_of_general
    revert name
    decide
  exact h.bind h.pop fun v => ite (h.pure ()) (h.setRegister hip v)

theorem leave : P Unit leave := by
  apply h.bind h.arch
  intro a
  have hip : isInstructionPointer a.framePointer = false := by
    apply isInstructionPointer_of_general
    cases a <;> decide
  apply h.bind (h.register _)
  intro frame
  apply h.bind (h.update (fun m => m.ip_withSp frame) (fun _ => ⟨rfl, rfl⟩) fun _ _ hm => hm.withSp frame)
  intro _
  exact h.bind h.pop fun v => h.setRegister hip v

theorem extendAccumulator {target : String} (htarget : isInstructionPointer target = false) (source : String)
    (width : Nat) : P Unit (extendAccumulator source width target) :=
  h.bind (h.register source) fun _ => h.setRegister htarget _

theorem fillSign (width : Nat) : P Unit (fillSign width) :=
  h.bind (h.register _) fun _ => h.setPartner width _

theorem storeBool (b : Bool) : P Unit (storeBool i b) := h.operand 0 fun _ ho => h.store ho _

theorem repeated {step : Exec Unit} (hstep : P Unit step) : P Unit (repeated i step) := by
  apply h.bind h.arch
  intro a
  dsimp only
  split
  · exact hstep
  · apply h.bind (h.register _)
    intro n
    exact h.bind (h.iterate hstep _) fun _ => h.setNative (by decide) a 0

theorem advance {name : String} (hname : name ∈ ["ecx", "esi", "edi"]) (a : Arch) (unit : UInt64) :
    P Unit (advance (a.nativeName name) unit) := by
  apply h.bind (h.register _)
  intro v
  apply h.bind (h.flag .direction)
  intro d
  exact h.bind h.arch fun _ => h.setNative hname a _

theorem moveString : P Unit (moveString i) := by
  unfold Exec.moveString
  refine ite h.move (h.bind h.arch fun a => h.bind h.arch fun b => h.repeated ?_)
  refine h.bind (h.register _) fun src => h.bind (h.register _) fun dst => ?_
  refine h.bind (h.update (fun m => rfl) (fun _ => ⟨rfl, rfl⟩) fun m m' hm => ?_) fun _ => ?_
  · rw [hm.memory.read]
    exact hm.write _ _
  · exact h.bind (h.advance (by decide) a _) fun _ => h.advance (by decide) b _

theorem storeString : P Unit (storeString i) := by
  refine h.bind h.arch fun a => h.repeated ?_
  refine h.bind (h.register _) fun v => h.bind (h.register _) fun dst => ?_
  refine h.bind (h.update (fun m => rfl) (fun _ => ⟨rfl, rfl⟩) fun _ _ hm => hm.writeWord _ _ _) fun _ => ?_
  exact h.advance (by decide) a _

theorem loadString : P Unit (loadString i) := by
  refine h.bind h.arch fun a => h.repeated ?_
  refine h.bind (h.register _) fun src => h.bind (h.view fun _ _ hm => hm.readWord _ _) fun v => ?_
  exact h.bind (h.setAccumulator _ v) fun _ => h.advance (by decide) a _

/-! ## Integers -/

theorem finish {dst : Operand} (hdst : dst ∈ i.operands) (r : Arithmetic.Result) : P Unit (finish dst r) :=
  h.bind (h.setFlags _) fun _ => h.store hdst _

theorem binary {f : Operand × UInt64 × UInt64 → Exec α} (hf : ∀ dst ∈ i.operands, ∀ a b, P α (f (dst, a, b))) :
    P α (binary i >>= f) := by
  simp only [Exec.binary, bind_assoc, pure_bind]
  apply h.operand 0
  intro dst hdst
  apply h.operand 1
  intro src _
  exact h.bind (h.signedValue src) fun b => h.bind (h.value dst) fun a => hf dst hdst a _

theorem add (withCarry : Bool) : P Unit (add i withCarry) :=
  h.binary fun _ hdst _ _ => h.bind (h.flag .carry) fun _ => h.finish hdst _

theorem subtract (withBorrow : Bool) : P Unit (subtract i withBorrow) :=
  h.binary fun _ hdst _ _ => h.bind (h.flag .carry) fun _ => h.finish hdst _

theorem compare : P Unit (compare i) := h.binary fun _ _ _ _ => h.setFlags _

theorem increment : P Unit (increment i) :=
  h.operand 0 fun _ hdst => h.bind (h.value _) fun _ => h.finish hdst _

theorem decrement : P Unit (decrement i) :=
  h.operand 0 fun _ hdst => h.bind (h.value _) fun _ => h.finish hdst _

theorem negate : P Unit (negate i) :=
  h.operand 0 fun _ hdst => h.bind (h.value _) fun _ => h.finish hdst _

theorem bitwise (op : UInt64 → UInt64 → UInt64) : P Unit (bitwise i op) :=
  h.binary fun _ hdst _ _ => h.finish hdst _

theorem test : P Unit (test i) := h.binary fun _ _ _ _ => h.setFlags _

theorem complement : P Unit (complement i) :=
  h.operand 0 fun _ hdst => h.bind (h.value _) fun _ => h.store hdst _

theorem shiftOperands {f : Operand × UInt64 × Nat → Exec α}
    (hf : ∀ dst ∈ i.operands, ∀ a count, P α (f (dst, a, count))) : P α (shiftOperands i >>= f) := by
  simp only [Exec.shiftOperands, bind_assoc, pure_bind]
  apply h.operand 0
  intro dst hdst
  refine h.bind (h.view fun m m' hm => ?_) fun count => h.bind (h.value dst) fun a => hf dst hdst _ _
  rw [show m'.operandValue = m.operandValue from funext hm.operandValue]

theorem shift (op : Nat → UInt64 → Nat → Arithmetic.Result) : P Unit (shift i op) :=
  h.shiftOperands fun _ hdst _ _ => ite (h.pure ()) (h.finish hdst _)

theorem rotate (op : Nat → UInt64 → Nat → Option Arithmetic.Result) : P Unit (rotate i op) := by
  apply h.shiftOperands
  intro dst hdst a count
  dsimp only
  split
  · exact h.finish hdst _
  · exact h.pure ()

theorem storeProduct (product width : Nat) : P Unit (storeProduct product width) := by
  unfold Exec.storeProduct
  refine ite (h.setRegister (isInstructionPointer_of_general (by decide)) _) ?_
  exact h.bind (h.setAccumulator width _) fun _ => h.setPartner width _

theorem multiply : P Unit (multiply i) := by
  apply h.operand 0
  intro src _
  apply h.bind (h.register _)
  intro a
  apply h.bind (h.value src)
  intro b
  exact h.bind (h.setFlags _) fun _ => h.storeProduct _ _

theorem multiplyAccumulator : P Unit (multiplyAccumulator i) := by
  apply h.operand 0
  intro src _
  apply h.bind (h.register _)
  intro a
  apply h.bind (h.view fun _ _ hm => hm.integerValue src)
  intro b
  exact h.bind (h.setFlags _) fun _ => h.storeProduct _ _

theorem multiplySigned : P Unit (multiplySigned i) := by
  unfold Exec.multiplySigned
  refine ite h.multiplyAccumulator ?_
  apply h.operand 0
  intro dst hdst
  apply h.operand
  intro x _
  apply h.operand
  intro y _
  apply h.bind (h.view fun _ _ hm => by rw [hm.integerValue, hm.integerValue])
  intro product
  exact h.bind (h.setFlags _) fun _ => h.store hdst _

theorem dividend (width : Nat) : P Nat (dividend width) := by
  unfold Exec.dividend
  refine ite (h.bind (h.register _) fun a => h.pure _) ?_
  apply h.bind (h.register _)
  intro high
  exact h.bind (h.register _) fun low => h.pure _

theorem storeDivision (width : Nat) (quotient remainder : UInt64) :
    P Unit (storeDivision width quotient remainder) :=
  h.bind (h.setAccumulator width _) fun _ => h.setPartner width _

theorem divide : P Unit (divide i) := by
  apply h.operand 0
  intro src _
  apply h.bind (h.value src)
  intro b
  refine ite (h.pure ()) (h.bind (h.dividend _) fun n => ?_)
  split
  · exact h.storeDivision _ _ _
  · exact h.pure ()

theorem divideSigned : P Unit (divideSigned i) := by
  apply h.operand 0
  intro src _
  apply h.bind (h.view fun _ _ hm => hm.integerValue src)
  intro b
  refine ite (h.pure ()) (h.bind (h.dividend _) fun n => ?_)
  split
  · exact h.storeDivision _ _ _
  · exact h.pure ()

/-! ## Floating point -/

theorem setStackValue (n : Nat) (x : Double) : P Unit (setStackValue n x) := h.updateFloat fun s => s.setSlot n x

theorem pushFloat (x : Double) : P Unit (pushFloat x) := h.updateFloat fun s => s.push x

theorem popFloatIf (pops : Bool) : P Unit (popFloatIf pops) := ite (h.updateFloat fun s => s.pop.2) (h.pure ())

theorem loadFloat : P Unit (loadFloat i) :=
  h.operand 0 fun _ _ => h.bind (h.floatValue _) h.pushFloat

theorem loadInteger : P Unit (loadInteger i) :=
  h.operand 0 fun _ _ => h.bind (h.signedValue _) fun _ => h.pushFloat _

theorem storeFloat (pops : Bool) : P Unit (storeFloat i pops) := by
  apply h.bind (h.stackValue 0)
  intro x
  apply h.operand 0
  intro dst _
  exact h.bind (h.setFloat dst x) fun _ => h.popFloatIf pops

theorem storeInteger (pops : Bool) : P Unit (storeInteger i pops) := by
  apply h.operand 0
  intro dst hdst
  apply h.bind (h.stackValue 0)
  intro x
  exact h.bind (h.store hdst _) fun _ => h.popFloatIf pops

theorem combine (op : Double → Double → Double) (pops : Bool) : P Unit (combine i op pops) := by
  unfold Exec.combine
  dsimp only
  split
  · refine h.bind (h.stackValue 1) fun x => h.bind (h.stackValue 0) fun y => ?_
    exact h.bind (h.setStackValue 1 _) fun _ => h.popFloatIf _
  · refine h.bind (h.stackValue 0) fun x => h.bind (h.floatValue _) fun y => ?_
    exact h.bind (h.setStackValue 0 _) fun _ => h.popFloatIf _
  · refine h.bind (h.floatValue _) fun x => h.bind (h.floatValue _) fun y => ?_
    exact h.bind (h.setFloat _ _) fun _ => h.popFloatIf _

theorem mapTop (f : Double → Double) : P Unit (mapTop f) := h.bind (h.stackValue 0) fun _ => h.setStackValue 0 _

theorem exchangeFloat : P Unit (exchangeFloat i) := by
  refine h.bind (h.stackValue 0) fun a => h.bind (h.stackValue _) fun b => ?_
  exact h.bind (h.setStackValue 0 b) fun _ => h.setStackValue _ a

theorem compareFloat (pops : Bool) : P Unit (compareFloat i pops) := by
  apply h.bind (h.stackValue 0)
  intro a
  dsimp only
  split
  · apply h.bind (h.floatValue _)
    intro b
    exact h.bind (h.updateFloat fun s => s.withCondition _ _ _) fun _ => h.popFloatIf pops
  · apply h.bind (h.stackValue 1)
    intro b
    exact h.bind (h.updateFloat fun s => s.withCondition _ _ _) fun _ => h.popFloatIf pops

/-! ## Every operation that does not move control -/

/-- An operation that does not move control has every property that its steps have. -/
theorem run {op : Operation} (hop : op.isStraight = true) : P Unit (op.run i) := by
  cases op with
  | nop => exact h.pure ()
  | move => exact h.move
  | moveSigned => exact h.moveSigned
  | loadAddress => exact h.loadAddress
  | exchange => exact h.exchange
  | push => exact h.pushOperand
  | pop => exact h.popOperand
  | pushAll => exact h.pushAll
  | popAll => exact h.popAll
  | leave => exact h.leave
  | extendAccumulator source width target =>
    exact h.extendAccumulator (by simpa [Operation.isStraight] using hop) source width
  | fillSign width => exact h.fillSign width
  | moveString => exact h.moveString
  | storeString => exact h.storeString
  | loadString => exact h.loadString
  | add withCarry => exact h.add withCarry
  | subtract withBorrow => exact h.subtract withBorrow
  | compare => exact h.compare
  | increment => exact h.increment
  | decrement => exact h.decrement
  | negate => exact h.negate
  | and => exact h.bitwise _
  | or => exact h.bitwise _
  | xor => exact h.bitwise _
  | test => exact h.test
  | complement => exact h.complement
  | shiftLeft => exact h.shift _
  | shiftRight => exact h.shift _
  | shiftRightSigned => exact h.shift _
  | rotateLeft => exact h.rotate _
  | rotateRight => exact h.rotate _
  | multiply => exact h.multiply
  | multiplySigned => exact h.multiplySigned
  | divide => exact h.divide
  | divideSigned => exact h.divideSigned
  | branch => cases hop
  | call => cases hop
  | ret => cases hop
  | loop => cases hop
  | branchIfZero counter => cases hop
  | loadFloat => exact h.loadFloat
  | loadInteger => exact h.loadInteger
  | storeFloat pops => exact h.storeFloat pops
  | storeInteger pops => exact h.storeInteger pops
  | addFloat pops => exact h.combine _ pops
  | subtractFloat pops => exact h.combine _ pops
  | multiplyFloat pops => exact h.combine _ pops
  | divideFloat pops => exact h.combine _ pops
  | negateFloat => exact h.mapTop _
  | absoluteFloat => exact h.mapTop _
  | exchangeFloat => exact h.exchangeFloat
  | pushConstant x => exact h.pushFloat x
  | compareFloat pops => exact h.compareFloat pops
  | moveIf c => exact h.bind (h.holds c) fun _ => ite h.move (h.pure ())
  | setIf c => exact h.bind (h.holds c) fun _ => h.storeBool _
  | branchIf c => cases hop

end
end Stepwise

namespace Inherited

variable {i : Instruction} {P : ∀ α : Type, Exec α → Prop}

/-- An operation that does not move control has every property that its steps pass on. -/
theorem run (h : Inherited i P) {op : Operation} (hop : op.isStraight = true) : P Unit (op.run i) := h.stepwise.run hop

end Inherited

/-! ## Operations that move control -/

/-- Moving control, writing any register and stepping over a call have a property that the steps of an instruction pass
on. -/
structure Complete (i : Instruction) (P : ∀ α : Type, Exec α → Prop) : Prop where
  stepwise : Stepwise i P
  setRegister : ∀ name v, P Unit (setRegister name v)
  jump : ∀ target, P Unit (jump target)
  call : P Unit (call i)

namespace Complete

variable {i : Instruction} {P : ∀ α : Type, Exec α → Prop} (h : Complete i P)
include h

theorem branch : P Unit (branch i) :=
  h.stepwise.operand 0 fun o _ => h.stepwise.bind (h.stepwise.value o) fun _ => h.jump _

theorem branchIf (taken : Bool) : P Unit (branchIf i taken) := Stepwise.ite h.branch (h.stepwise.pure ())

theorem branchIfZero (name : String) : P Unit (branchIfZero name i) :=
  h.stepwise.bind (h.stepwise.register name) fun _ => h.branchIf _

theorem loop : P Unit (loop i) := by
  apply h.stepwise.bind h.stepwise.arch
  intro a
  apply h.stepwise.bind (h.stepwise.register _)
  intro n
  exact h.stepwise.bind (h.setRegister _ _) fun _ => h.branchIf _

theorem ret : P Unit (ret i) := by
  apply h.stepwise.bind h.stepwise.pop
  intro a
  apply h.stepwise.bind (h.jump a)
  intro _
  split
  · exact h.stepwise.pure ()
  · apply h.stepwise.bind (h.stepwise.value _)
    intro n
    refine h.stepwise.update (fun m => m.ip_withSp _) (fun _ => ⟨rfl, rfl⟩) fun m m' hm => ?_
    rw [hm.arch, hm.sp]
    exact hm.withSp _

/-- Every operation has the property. -/
theorem run (op : Operation) : P Unit (op.run i) := by
  cases hop : op.isStraight with
  | true => exact h.stepwise.run hop
  | false =>
    obtain rfl | ⟨c, rfl⟩ | ⟨counter, rfl⟩ | rfl | rfl | rfl | ⟨source, width, target, rfl, -⟩ :=
      Operation.eq_of_not_isStraight hop
    · exact h.branch
    · exact h.stepwise.bind (h.stepwise.holds c) fun _ => h.branchIf _
    · exact h.branchIfZero counter
    · exact h.loop
    · exact h.ret
    · exact h.call
    · exact h.stepwise.bind (h.stepwise.register source) fun _ => h.setRegister target _

end Complete
end Exec
end PathReplay
