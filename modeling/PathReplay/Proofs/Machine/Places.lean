import PathReplay.Proofs.Instruction.Addressing
import PathReplay.Proofs.Register.Aliasing

/-!
# Places that instructions store in

* `Word.toNat_ofBytes_toBytes`, `Memory.toNat_readWord_writeWord` : a word that is written is read back, cut to its
  width;
* `Registers.flag_withFlags`, `Registers.get_withFlags` : flags and other registers after a write of flags;
* `Operand.IsPlace` : general registers and memory operands;
* `Machine.register_of_field?`, `exec_setRegister_of_field?` : how an instruction reads and writes a register;
* `Machine.Stored`, `setOperand_place` : a place holds what is stored in it, cut to its width, and flags, control and
  the place itself stay where they are;
* `finish_place` : an instruction that sets flags and stores a value leaves both;
* `Machine.Finished`, `finish_at` : the same, where the place is looked at with control at the instruction that follows.
-/

namespace PathReplay

/-! ## Words in memory -/

namespace Word

theorem toNat_ofBytes_cons (b : UInt8) {rest : Bytes} (h : (ofBytes rest).toNat < 2 ^ 56) :
    (ofBytes (b :: rest)).toNat = b.toNat + 256 * (ofBytes rest).toNat := by
  have hb := b.toNat_lt
  have hshift : (ofBytes rest <<< 8).toNat = 2 ^ 8 * (ofBytes rest).toNat := by
    rw [UInt64.toNat_shiftLeft, show (8 : UInt64).toNat % 64 = 8 from rfl, Nat.shiftLeft_eq]
    omega
  rw [ofBytes, UInt64.toNat_or, hshift, UInt8.toNat_toUInt64, Nat.or_comm, ← Nat.two_pow_add_eq_or_of_lt hb,
    Nat.add_comm]

theorem toNat_ofBytes_lt : ∀ {data : Bytes}, data.length ≤ 8 → (ofBytes data).toNat < 2 ^ (8 * data.length)
  | [], _ => by decide
  | b :: rest, h => by
    rw [List.length_cons] at h ⊢
    have hrest : (ofBytes rest).toNat < 2 ^ (8 * rest.length) := toNat_ofBytes_lt (by omega)
    have hb := b.toNat_lt
    have hpow : 2 ^ (8 * rest.length) ≤ 2 ^ 56 := Nat.pow_le_pow_right (by decide) (by omega)
    rw [toNat_ofBytes_cons b (by omega), Nat.mul_succ, Nat.pow_add]
    omega

/-- The little-endian bytes of a word give it back, cut to their number. -/
theorem toNat_ofBytes_toBytes (v : UInt64) {n : Nat} (h : n ≤ 8) :
    (ofBytes (toBytes v n)).toNat = v.toNat % 2 ^ (8 * n) := by
  induction n generalizing v with
  | zero => rw [Nat.mul_zero, Nat.pow_zero, Nat.mod_one]; rfl
  | succ n ih =>
    have hrest := ih (v >>> 8) (by omega)
    have hlt : v.toNat / 256 % 2 ^ (8 * n) < 2 ^ 56 :=
      Nat.lt_of_lt_of_le (Nat.mod_lt _ (Nat.two_pow_pos _)) (Nat.pow_le_pow_right (by decide) (by omega))
    rw [UInt64.toNat_shiftRight, show (8 : UInt64).toNat % 64 = 8 from rfl, Nat.shiftRight_eq_div_pow] at hrest
    rw [toBytes, toNat_ofBytes_cons _ (hrest ▸ hlt), hrest, UInt64.toNat_toUInt8,
      show 8 * (n + 1) = 8 + 8 * n by omega, Nat.pow_add, Nat.mod_mul]

end Word

theorem Memory.toNat_readWord_lt (m : Memory) (a : Address) {width : Nat} (h : width ≤ 8) :
    (m.readWord a width).toNat < 2 ^ (8 * width) := by
  have hlength := m.length_read a width
  have hlt := Word.toNat_ofBytes_lt (hlength ▸ h)
  rw [hlength] at hlt
  rwa [readWord, Nat.min_eq_left h]

/-- A word that is written is read back, cut to its width. -/
theorem Memory.toNat_readWord_writeWord (m : Memory) (a : Address) (v : UInt64) {width : Nat} (h : width ≤ 8) :
    ((m.writeWord a v width).readWord a width).toNat = v.toNat % 2 ^ (8 * width) := by
  have hlength := Word.length_toBytes v (min width 8)
  have hread := m.read_write a (Word.toBytes v (min width 8)) (by omega)
  rw [hlength] at hread
  rw [readWord, writeWord, hread, Word.toNat_ofBytes_toBytes v (Nat.min_le_right _ _), Nat.min_eq_left h]

/-! ## Flags -/

namespace Flag

variable {f g : Flag}

theorem store_eq (f g : Flag) (arch : Arch) : (f.field arch).store = (g.field arch).store := by
  cases arch <;> rfl

theorem fits (f : Flag) (arch : Arch) : (f.field arch).offset + (f.field arch).bits ≤ 128 :=
  Layout.fits_of_field? (field?_label f arch)

theorem offset_ne (h : g ≠ f) (arch : Arch) : (g.field arch).offset ≠ (f.field arch).offset := by
  cases f <;> cases g <;> cases arch <;> first | exact absurd rfl h | decide

theorem bits_field (f : Flag) (arch : Arch) : (f.field arch).bits = 1 := by cases arch <;> rfl

theorem zeroExtends_field (f : Flag) (arch : Arch) : (f.field arch).zeroExtends = false := by cases arch <;> rfl

end Flag

/-- Whether a name is that of a flag or of the register that the flags are part of. -/
def Arch.namesFlags (arch : Arch) (name : String) : Prop :=
  ∃ field, arch.layout.field? (Text.lowercase name) = some field ∧ field.store = (Flag.carry.field arch).store

namespace Registers

variable {r : Registers} {f g : Flag}

/-- The registers with flags written, one after the other. -/
def withFlags (r : Registers) (fs : List (Flag × Bool)) : Registers := fs.foldl (fun r (f, b) => r.withFlag f b) r

theorem flag_withFlag_self (r : Registers) (f : Flag) (b : Bool) : (r.withFlag f b).flag f = b := by
  have hread : (r.withFlag f b).readField (f.field r.arch) =
      (if b then 1 else 0) &&& Word.maskBits (f.field r.arch).bits :=
    Field.read_write_self (f.fits r.arch) r.stores _
  show ((r.withFlag f b).readField (f.field r.arch) != 0) = b
  rw [hread, Flag.bits_field]
  cases b <;> decide

theorem flag_withFlag_of_ne (h : g ≠ f) (b : Bool) : (r.withFlag f b).flag g = r.flag g := by
  have hoffset := Flag.offset_ne h r.arch
  have hread : (r.withFlag f b).readField (g.field r.arch) = r.readField (g.field r.arch) := by
    refine Field.read_write_of_disjoint (g.fits r.arch) (.inr ⟨f.zeroExtends_field r.arch, ?_⟩) r.stores _
    rw [Flag.bits_field, Flag.bits_field]
    omega
  show ((r.withFlag f b).readField (g.field r.arch) != 0) = (r.readField (g.field r.arch) != 0)
  rw [hread]

theorem flag_withFlags (r : Registers) {fs : List (Flag × Bool)} (h : (fs.map (·.1)).Nodup) (f : Flag) :
    (r.withFlags fs).flag f = (fs.lookup f).getD (r.flag f) := by
  induction fs generalizing r with
  | nil => rfl
  | cons e fs ih =>
    obtain ⟨g, b⟩ := e
    obtain ⟨hnew, hrest⟩ := List.nodup_cons.1 h
    refine (ih (r.withFlag g b) hrest).trans ?_
    rw [List.lookup_cons]
    by_cases hfg : f = g
    · subst hfg
      have hnone : fs.lookup f = none := by
        refine List.lookup_eq_none_iff.2 fun e he => bne_iff_ne.2 fun heq => hnew ?_
        exact List.mem_map.2 ⟨e, he, heq.symm⟩
      rw [hnone, flag_withFlag_self, beq_self_eq_true]
      rfl
    · rw [flag_withFlag_of_ne hfg, beq_false_of_ne hfg]

theorem flag_withIp (r : Registers) (f : Flag) (a : Address) : (r.withIp a).flag f = r.flag f :=
  congrArg (· != 0) (Field.read_write_of_ne (f.store_field_ne r.arch).symm r.stores _)

theorem arch_withFlags (r : Registers) (fs : List (Flag × Bool)) : (r.withFlags fs).arch = r.arch := by
  induction fs generalizing r with
  | nil => rfl
  | cons e fs ih => exact ih _

/-- A write of flags leaves every register alone that does not share their store. -/
theorem get_withFlags (r : Registers) (fs : List (Flag × Bool)) {name : String} (h : ¬ r.arch.namesFlags name) :
    (r.withFlags fs).get name = r.get name := by
  induction fs generalizing r with
  | nil => rfl
  | cons e fs ih =>
    refine (ih (r.withFlag e.1 e.2) h).trans (get_writeField (fun field hfield hstore => h ?_) _)
    exact ⟨field, hfield, hstore.trans (Flag.store_eq e.1 .carry r.arch)⟩

end Registers

/-! ## Places -/

/-- How many stores hold general registers. They are the first ones. -/
def Arch.generalStores : Arch → Nat
  | .x86 => 8
  | .x86_64 => 16

/-- A general register of the operand's width, or an operand in memory. -/
def Operand.IsPlace (arch : Arch) (o : Operand) : Prop :=
  match o.kind with
  | .register name => ∃ f, arch.layout.field? (Text.lowercase name) = some f ∧ f.store.val < arch.generalStores ∧
      f.bits = 8 * o.width
  | .memory _ => True
  | _ => False

theorem Flag.generalStores_le (f : Flag) (arch : Arch) : arch.generalStores ≤ (f.field arch).store.val := by
  cases f <;> cases arch <;> decide

theorem Arch.generalStores_le_instructionField (arch : Arch) :
    arch.generalStores ≤ arch.instructionField.store.val := by
  cases arch <;> decide

namespace Registers

variable {r : Registers} {f : Field r.arch.stores}

theorem store_flag_ne (hf : f.store.val < r.arch.generalStores) (g : Flag) : (g.field r.arch).store ≠ f.store := by
  intro heq
  have hflags := g.generalStores_le r.arch
  rw [heq] at hflags
  omega

theorem flag_writeField (hf : f.store.val < r.arch.generalStores) (v : BitVec 128) (g : Flag) :
    (r.writeField f v).flag g = r.flag g :=
  congrArg (· != 0) (Field.read_write_of_ne (store_flag_ne hf g) r.stores v)

theorem ip_writeField (hf : f.store.val < r.arch.generalStores) (v : BitVec 128) : (r.writeField f v).ip = r.ip := by
  have hne : r.arch.instructionField.store ≠ f.store := fun heq => by
    have hip := r.arch.generalStores_le_instructionField
    rw [heq] at hip
    omega
  exact wordAt_writeField_of_ne hne v

/-- A write to another store leaves the register of the flags alone, and each of them. -/
theorem get_writeField_of_namesFlags (hf : (Flag.carry.field r.arch).store ≠ f.store) {name : String}
    (hname : r.arch.namesFlags name) (v : BitVec 128) : (r.writeField f v).get name = r.get name := by
  obtain ⟨field, hfield, hstore⟩ := hname
  refine get_writeField (fun g hg heq => hf ?_) v
  obtain rfl := Option.some_inj.1 (hfield.symm.trans hg)
  exact hstore.symm.trans heq

end Registers

namespace Machine

variable {m : Machine} {o : Operand}

theorem flag_prepare (m : Machine) (a : Address) (i : Instruction) (f : Flag) :
    (m.prepare a i).registers.flag f = m.registers.flag f := by
  rw [registers_prepare, Registers.flag_withIp]

theorem toNat_operandValue_lt (ho : o.IsPlace m.arch) (h : o.width ≤ 8) :
    (m.operandValue o).toNat < 2 ^ (8 * o.width) := by
  unfold Operand.IsPlace at ho
  unfold operandValue
  split at ho
  · rename_i name hkind
    obtain ⟨f, hf, -, hbits⟩ := ho
    rw [hkind]
    dsimp only
    rw [registerValue, Registers.get_of_field? (r := m.registers) hf, ← hbits]
    exact Registers.toNat_wordAt_lt (by omega)
  · rename_i r hkind
    rw [hkind]
    exact m.memory.toNat_readWord_lt _ h
  · cases ho

/-- What holds of a machine after a value was stored in a place. -/
structure Stored (m m' : Machine) (o : Operand) (v : UInt64) : Prop where
  toNat_value : (m'.operandValue o).toNat = v.toNat % 2 ^ (8 * o.width)
  address : m'.operandAddress? o = m.operandAddress? o
  flag : ∀ f, m'.registers.flag f = m.registers.flag f
  ip : m'.ip = m.ip
  arch : m'.arch = m.arch
  listing : m'.listing = m.listing

section OfField

variable {name : String} {f : Field m.registers.arch.stores}

theorem setRegister_of_field? (h : m.registers.arch.layout.field? (Text.lowercase name) = some f) (v : UInt64) :
    m.setRegister name v = .ok (m.withRegisters (m.registers.writeField f (v.toBitVec.setWidth 128))) := by
  rw [setRegister, Registers.set, Registers.setWide_of_field? h]
  rfl

theorem registerOrZero_of_field? (h : m.registers.arch.layout.field? (Text.lowercase name) = some f) :
    m.registerOrZero name = m.registers.wordAt f := by
  rw [registerOrZero, Registers.get_of_field? h]

theorem register_of_field? (h : m.registers.arch.layout.field? (Text.lowercase name) = some f) :
    Exec.register name m = .ok (m.registerOrZero name) m := by
  rw [Exec.register, Exec.viewOrFail, Registers.get_of_field? h, registerOrZero_of_field? h]

theorem toNat_registerOrZero_lt_of_field? (h : m.registers.arch.layout.field? (Text.lowercase name) = some f)
    (hbits : f.bits ≤ 64) : (m.registerOrZero name).toNat < 2 ^ f.bits := by
  rw [registerOrZero_of_field? h]
  exact Registers.toNat_wordAt_lt hbits

theorem exec_setRegister_of_field? (h : m.registers.arch.layout.field? (Text.lowercase name) = some f) (v : UInt64) :
    Exec.setRegister name v m =
      .ok () (m.withRegisters (m.registers.writeField f (v.toBitVec.setWidth 128))) := by
  rw [Exec.setRegister, Exec.updateOrFail, setRegister_of_field? h]

end OfField

/-- A place holds what is stored in it, cut to its width. -/
theorem setOperand_place (ho : o.IsPlace m.arch) (h : o.width ≤ 8) (v : UInt64) :
    ∃ m', m.setOperand o v = .ok m' ∧ m.Stored m' o v := by
  unfold Operand.IsPlace at ho
  split at ho
  · rename_i name hkind
    obtain ⟨f, hf, hstore, hbits⟩ := ho
    let r' := m.registers.writeField f (v.toBitVec.setWidth 128)
    have hset : m.setOperand o v = .ok (m.withRegisters r') := by
      unfold setOperand
      rw [hkind]
      exact setRegister_of_field? hf v
    refine ⟨m.withRegisters r', hset, ?_, ?_, Registers.flag_writeField hstore _, Registers.ip_writeField hstore _, rfl,
      rfl⟩
    · have hget : r'.get name = .ok (r'.wordAt f) := Registers.get_of_field? (r := r') hf
      unfold operandValue
      rw [hkind]
      show ((m.withRegisters r').registerValue name).toNat = _
      rw [registerValue, show (m.withRegisters r').registers.get name = .ok (r'.wordAt f) from hget, ← hbits]
      exact Registers.toNat_wordAt_writeField (Layout.fits_of_field? hf) v
    · unfold operandAddress?
      rw [hkind]
  · rename_i r hkind
    refine ⟨m.writeWord (m.referenceAddress r) v o.width, ?_, ?_, ?_, fun _ => rfl, rfl, rfl, rfl⟩
    · unfold setOperand
      rw [hkind]
    · unfold operandValue
      rw [hkind]
      exact m.memory.toNat_readWord_writeWord (m.referenceAddress r) v h
    · unfold operandAddress?
      rw [hkind]
      rfl
  · cases ho

theorem store_place (ho : o.IsPlace m.arch) (h : o.width ≤ 8) (v : UInt64) :
    ∃ m', Exec.store o v m = .ok () m' ∧ m.Stored m' o v := by
  obtain ⟨m', hset, hstored⟩ := setOperand_place ho h v
  exact ⟨m', by rw [Exec.store, Exec.updateOrFail, hset], hstored⟩

/-- A write of flags does not move what is in memory, unless its address has a flag in it. -/
theorem referenceAddress_withFlags (m : Machine) (fs : List (Flag × Bool)) {r : MemoryReference}
    (h : ∀ name, r.base = some name ∨ r.index = some name → ¬ m.arch.namesFlags name) :
    (m.withRegisters (m.registers.withFlags fs)).referenceAddress r = m.referenceAddress r := by
  refine referenceAddress_congr (m.registers.arch_withFlags fs) fun name hname => ?_
  have hget : (m.withRegisters (m.registers.withFlags fs)).registers.get name = m.registers.get name :=
    m.registers.get_withFlags fs (h name hname)
  rw [registerOrZero, registerOrZero, hget]

/-- An instruction that ends by setting flags and storing a value leaves both. -/
theorem finish_place {r : Arithmetic.Result} (ho : o.IsPlace m.arch) (h : o.width ≤ 8) :
    ∃ m', Exec.finish o r m = .ok () m' ∧ (m.withRegisters (m.registers.withFlags r.flags)).Stored m' o r.value := by
  let q := m.withRegisters (m.registers.withFlags r.flags)
  have hplace : o.IsPlace q.arch := by
    rw [show q.arch = m.arch from m.registers.arch_withFlags r.flags]
    exact ho
  exact store_place hplace h r.value

theorem withIp_of_ip {next : Address} (h : m.ip = m.arch.wrap next) : m.withIp next = m :=
  congrArg m.withRegisters (Registers.withIp_of_ip h)

theorem withIp_prepare (m : Machine) (a : Address) (i : Instruction) : (m.prepare a i).withIp i.next = m.prepare a i :=
  withIp_of_ip ((m.arch_prepare a i).symm ▸ m.ip_prepare a i)

/-- What an instruction leaves of a machine that ends by setting flags and storing a value in a place. The place is
looked at with control at the instruction that follows. -/
structure Finished (o : Operand) (next : Address) (r : Arithmetic.Result) (m m' : Machine) : Prop where
  toNat_value : ((m'.withIp next).operandValue o).toNat = r.value.toNat
  flag : ∀ f, m'.registers.flag f = (m.registers.withFlags r.flags).flag f
  address : (∀ ref, o.kind = .memory ref →
      ∀ name, ref.base = some name ∨ ref.index = some name → ¬ m.arch.namesFlags name) →
    (m'.withIp next).operandAddress? o = (m.withIp next).operandAddress? o
  ip : m'.ip = m'.arch.wrap next
  arch : m'.arch = m.arch
  listing : m'.listing = m.listing

/-- A value of the place's width is stored as it is. -/
theorem finish_at {r : Arithmetic.Result} {next : Address} (ho : o.IsPlace m.arch) (hle : o.width ≤ 8)
    (hr : r.value.toNat < 2 ^ (8 * o.width)) (hip : m.ip = m.arch.wrap next) :
    ∃ m', Exec.finish o r m = .ok () m' ∧ Finished o next r m m' := by
  obtain ⟨m', hfinish, hstored⟩ := finish_place (r := r) ho hle
  have harch : m'.arch = m.arch := hstored.arch.trans (m.registers.arch_withFlags r.flags)
  have hip' : m'.ip = m'.arch.wrap next := by
    rw [hstored.ip, harch, ← hip]
    exact Registers.ip_withFlags r.flags m.registers
  refine ⟨m', hfinish, ?_, hstored.flag, fun hnames => ?_, hip', harch, hstored.listing⟩
  · rw [withIp_of_ip hip', hstored.toNat_value, Nat.mod_eq_of_lt hr]
  · rw [withIp_of_ip hip', withIp_of_ip hip, hstored.address]
    unfold operandAddress?
    split
    · rename_i ref hkind
      rw [m.referenceAddress_withFlags r.flags (hnames ref hkind)]
    · rfl

end Machine

end PathReplay
