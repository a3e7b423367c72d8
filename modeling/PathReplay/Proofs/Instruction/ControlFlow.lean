import PathReplay.Proofs.Instruction.Steps
import PathReplay.Proofs.Machine.Calls

/-!
# Operations that transfer control

* `Exec.after` : the machine after an effect, also one that failed;
* `KeepsIp` : an effect that leaves the instruction pointer as it is. It is so of the steps of an instruction none of
  whose operands names the instruction pointer (`inherited_keepsIp`);
* `ip_branch`, `ip_branchIf`, `ip_branchIfZero`, `ip_loop`, `ip_ret`, `ip_call` : where the operations send it that
  transfer control.
-/

namespace PathReplay

/-! ## Writes that miss the instruction pointer -/

theorem Registers.ip_set {r r' : Registers} {name : String} (hname : isInstructionPointer name = false) {v : UInt64}
    (h : r.set name v = .ok r') : r'.ip = r.ip := by
  unfold set setWide at h
  dsimp only at h
  split at h
  · rename_i f hf
    obtain rfl := Except.ok.inj h
    have hstore : r.arch.instructionField.store ≠ f.store := by
      intro heq
      have hmem := List.contains_iff_mem.2 ((Layout.name_of_field? hf).2 heq.symm)
      cases hname.symm.trans hmem
    exact wordAt_writeField_of_ne hstore _
  · split at h
    · cases h
    · cases hword : r.float.setWord (Text.lowercase name) (UInt64.ofNat (v.toBitVec.setWidth 128).toNat) with
      | ok float =>
        rw [hword] at h
        obtain rfl := Except.ok.inj h
        rfl
      | error e =>
        rw [hword] at h
        cases h

namespace Machine

variable {m m' : Machine} {i : Instruction} {o : Operand} {a : Address} {v : UInt64}

theorem ip_setRegister {name : String} (hname : isInstructionPointer name = false)
    (h : m.setRegister name v = .ok m') : m'.ip = m.ip := by
  unfold setRegister at h
  cases hset : m.registers.set name v with
  | ok r =>
    rw [hset] at h
    obtain rfl := Except.ok.inj h
    exact Registers.ip_set hname hset
  | error e =>
    rw [hset] at h
    cases h

theorem ip_setOperand (ho : ∀ name, o.kind = .register name → isInstructionPointer name = false)
    (h : m.setOperand o v = .ok m') : m'.ip = m.ip := by
  unfold setOperand at h
  split at h
  · rename_i name hkind
    exact ip_setRegister (ho name hkind) h
  · obtain rfl := Except.ok.inj h
    rfl
  · obtain rfl := Except.ok.inj h
    rfl

end Machine

namespace Exec

variable {α β : Type} {x : Exec α} {f : α → Exec β} {i : Instruction} {m : Machine}

/-- The machine after an effect. One that fails leaves what it did up to then. -/
def after (x : Exec α) (m : Machine) : Machine :=
  match x m with
  | .ok _ m' => m'
  | .error _ m' => m'

theorem after_bind (x : Exec α) (f : α → Exec β) (m : Machine) :
    (x >>= f).after m = match x m with
      | .ok a m' => (f a).after m'
      | .error _ m' => m' := by
  rw [after, bind_apply]
  cases x m <;> rfl

theorem after_viewOrFail (g : Machine → Except Error α) (m : Machine) : (viewOrFail g).after m = m := by
  unfold after viewOrFail
  cases g m <;> rfl

theorem after_updateOrFail (g : Machine → Except Error Machine) (m : Machine) :
    g m = .ok ((updateOrFail g).after m) ∨ (updateOrFail g).after m = m := by
  unfold after updateOrFail
  cases g m with
  | ok m' => exact .inl rfl
  | error e => exact .inr rfl

/-- A relation of the machine before an effect to the one after it passes on to two effects, one after the other. -/
theorem rel_after_bind {R : Machine → Machine → Prop} (htrans : ∀ {m m' m''}, R m m' → R m' m'' → R m m'')
    (hx : ∀ m, R m (x.after m)) (hf : ∀ a m, R m ((f a).after m)) (m : Machine) : R m ((x >>= f).after m) := by
  have hfirst := hx m
  rw [after_bind]
  unfold after at hfirst
  cases hrun : x m with
  | ok a m' =>
    rw [hrun] at hfirst
    exact htrans hfirst (hf a m')
  | error e m' =>
    rw [hrun] at hfirst
    exact hfirst

/-- An effect that leaves the instruction pointer as it is, also where it fails. -/
def KeepsIp (x : Exec α) : Prop := ∀ m, (x.after m).ip = m.ip

theorem KeepsIp.bind (hx : KeepsIp x) (hf : ∀ a, KeepsIp (f a)) : KeepsIp (x >>= f) :=
  rel_after_bind (R := fun m m' => m'.ip = m.ip) (fun h h' => h'.trans h) hx hf

theorem keepsIp_viewOrFail (g : Machine → Except Error α) : KeepsIp (viewOrFail g) := fun m => by
  rw [after_viewOrFail]

theorem keepsIp_updateOrFail {g : Machine → Except Error Machine} (hg : ∀ m m', g m = .ok m' → m'.ip = m.ip) :
    KeepsIp (updateOrFail g) := fun m =>
  (after_updateOrFail g m).elim (hg m _) fun h => by rw [h]

/-- What is put together from the steps of an instruction leaves the instruction pointer as it is, unless one of its
operands is the instruction pointer. -/
theorem inherited_keepsIp
    (hi : ∀ o ∈ i.operands, ∀ name, o.kind = .register name → isInstructionPointer name = false) :
    Inherited i fun _ x => KeepsIp x where
  pure _ _ := rfl
  bind := KeepsIp.bind
  missing _ := rfl
  view _ _ := rfl
  register _ := keepsIp_viewOrFail _
  setRegister hname _ := keepsIp_updateOrFail fun _ _ => Machine.ip_setRegister hname
  store ho _ := keepsIp_updateOrFail fun _ _ => Machine.ip_setOperand (hi _ ho)
  pop m := m.ip_withSp _
  update hg _ := hg

end Exec

/-! ## Operations that transfer control -/

namespace Machine

variable {m : Machine} {i : Instruction}

/-- The value of an instruction's first operand, if it has one. -/
def target? (m : Machine) (i : Instruction) : Option Address := i.operands[0]?.map m.operandValue

/-- What the counter of loops is after counting down. -/
def countAfter (m : Machine) : UInt64 := m.arch.wrap (m.registerOrZero (Exec.counterName m.arch) - 1)

/-- The machine with the counter of loops counted down. -/
def countDown (m : Machine) : Machine := (Exec.setRegister (Exec.counterName m.arch) m.countAfter).after m

theorem wrap_ip (m : Machine) : m.arch.wrap m.ip = m.ip := m.registers.wrap_ip

end Machine

namespace Exec

variable {m : Machine} {i : Instruction}

theorem ip_branch (i : Instruction) (m : Machine) :
    ((branch i).after m).ip = m.arch.wrap ((m.target? i).getD m.ip) := by
  unfold branch operand Machine.target?
  cases i.operands[0]? with
  | none => exact m.wrap_ip.symm
  | some o => exact m.ip_withIp _

theorem ip_branchIf (i : Instruction) (taken : Bool) (m : Machine) :
    ((branchIf i taken).after m).ip = m.arch.wrap ((if taken then m.target? i else none).getD m.ip) := by
  cases taken with
  | true => exact ip_branch i m
  | false => exact m.wrap_ip.symm

theorem ip_branchIfZero (name : String) (i : Instruction) (m : Machine) :
    ((branchIfZero name i).after m).ip =
      m.arch.wrap ((if m.registers.get name = .ok 0 then m.target? i else none).getD m.ip) := by
  unfold branchIfZero register
  rw [after_bind, viewOrFail]
  cases m.registers.get name with
  | error e => exact m.wrap_ip.symm
  | ok v =>
    dsimp only
    rw [ip_branchIf]
    simp only [beq_iff_eq, Except.ok.injEq]

theorem ip_ret (i : Instruction) (m : Machine) : ((ret i).after m).ip = m.arch.wrap m.pop.1 := by
  have hjump : (m.pop.2.withIp m.pop.1).ip = m.arch.wrap m.pop.1 := Machine.ip_withIp _ _
  unfold ret
  split
  · exact hjump
  · exact (Machine.ip_withSp _ _).trans hjump

theorem ip_call (i : Instruction) (m : Machine) : ((call i).after m).ip = m.ip := by
  unfold after call
  cases ho : i.operands with
  | nil =>
    unfold Machine.call
    rw [ho]
  | cons o rest =>
    cases h : m.emulated? o with
    | none =>
      obtain ⟨m', hok, hregisters, -⟩ := Machine.call_recorded ho h
      rw [hok]
      dsimp only
      rw [Machine.ip, hregisters]
      exact Registers.ip_withSp _ _
    | some emulated =>
      obtain ⟨m', hok, hregisters, -⟩ := Machine.call_emulated ho h
      rw [hok]
      dsimp only
      rw [Machine.ip, hregisters, Registers.ip_withSp]
      exact Registers.ip_withResult _ _

/-- The counter of loops is a register of its architecture. -/
theorem counter_writes (m : Machine) (v : UInt64) :
    ∃ f, m.registers.get (counterName m.arch) = .ok (m.registerOrZero (counterName m.arch)) ∧
      m.setRegister (counterName m.arch) v =
        .ok (m.withRegisters (m.registers.writeField f (v.toBitVec.setWidth 128))) := by
  have hfield : ∃ f, m.registers.field? (Text.lowercase (counterName m.arch)) = some f := by
    have : ∀ arch : Arch, (arch.layout.field? (Text.lowercase (counterName arch))).isSome = true
      | .x86 => by decide +kernel
      | .x86_64 => by decide +kernel
    exact Option.isSome_iff_exists.1 (this m.arch)
  obtain ⟨f, hf⟩ := hfield
  have hget : m.registers.get (counterName m.arch) = .ok (m.registers.wordAt f) := by
    rw [Registers.get, Registers.getWide, hf]
    rfl
  refine ⟨f, ?_, ?_⟩
  · rw [Machine.registerOrZero, hget]
  · rw [Machine.setRegister, Registers.set, Registers.setWide, hf]
    rfl

theorem ip_loop (i : Instruction) (m : Machine) :
    ((loop i).after m).ip =
      m.arch.wrap ((if m.countAfter = 0 then none else m.countDown.target? i).getD m.ip) := by
  obtain ⟨f, hget, hset⟩ := counter_writes m m.countAfter
  have hname : isInstructionPointer (counterName m.arch) = false := by
    apply isInstructionPointer_of_general
    cases m.arch <;> decide
  have hdown : m.countDown = m.withRegisters (m.registers.writeField f (m.countAfter.toBitVec.setWidth 128)) := by
    rw [Machine.countDown, after, setRegister, updateOrFail, hset]
  have hip : m.countDown.ip = m.ip := by
    rw [hdown]
    exact Machine.ip_setRegister hname hset
  have harch : m.countDown.arch = m.arch := by rw [hdown]; rfl
  have hrun : (loop i).after m = (branchIf i (m.countAfter != 0)).after m.countDown := by
    unfold loop register setRegister
    rw [after_bind]
    show (viewOrFail _ >>= _).after m = _
    rw [after_bind, viewOrFail]
    dsimp only
    rw [hget]
    show (updateOrFail (fun m' => m'.setRegister (counterName m.arch) m.countAfter) >>= _).after m = _
    rw [after_bind, updateOrFail, hset, hdown]
    rfl
  rw [hrun, ip_branchIf, hip, harch]
  by_cases hzero : m.countAfter = 0
  · simp [hzero]
  · simp [hzero]

end Exec

end PathReplay
