import PathReplay.Instruction.Integer
import PathReplay.Proofs.Instruction.TwosComplement
import PathReplay.Proofs.Machine.Places

/-!
# The accumulators

* `Arch.pairs`, `Arch.IsPair` : the registers of the two halves of a double-width value, and their windows;
* `Machine.doubleValue`, `doubleValue_eq` : the double-width value of the accumulators, as the value of a pair;
* `Arithmetic.joinHalves_eq`, `dividend_eq` : what is divided is what the pair holds;
* `Machine.Paired`, `storeDivision_pair`, `storeProduct_pair` : what a write of both halves leaves.
-/

namespace PathReplay

namespace Arch

variable {arch : Arch} {width : Nat} {high low : String}

/-- The widths in bytes of products and quotients, with the registers of the high and of the low half. -/
def pairs : Arch → List (Nat × String × String)
  | .x86 => [(1, "ah", "al"), (2, "dx", "ax"), (4, "edx", "eax")]
  | .x86_64 => [(1, "ah", "al"), (2, "dx", "ax"), (4, "edx", "eax"), (8, "rdx", "rax")]

/-- The windows of a pair: as wide as its halves, in general registers, and without any bit in common. -/
structure IsPair (arch : Arch) (width : Nat) (high low : String) (f g : Field arch.stores) : Prop where
  width_pos : 1 ≤ width
  width_le : width ≤ 8
  accumulators : accumulators width = (low, high)
  field_high : arch.layout.field? (Text.lowercase high) = some f
  field_low : arch.layout.field? (Text.lowercase low) = some g
  bits_high : f.bits = 8 * width
  bits_low : g.bits = 8 * width
  store_high : f.store.val < arch.generalStores
  store_low : g.store.val < arch.generalStores
  apart : f.store ≠ g.store ∨ f.zeroExtends = false ∧ (f.offset + f.bits ≤ g.offset ∨ g.offset + g.bits ≤ f.offset)

theorem windows_of_mem_pairs : ∀ arch : Arch, ∀ e ∈ arch.pairs,
    1 ≤ e.1 ∧ e.1 ≤ 8 ∧ PathReplay.accumulators e.1 = (e.2.2, e.2.1) ∧
      ∃ f ∈ arch.layout.field? (Text.lowercase e.2.1), ∃ g ∈ arch.layout.field? (Text.lowercase e.2.2),
        f.bits = 8 * e.1 ∧ g.bits = 8 * e.1 ∧ f.store.val < arch.generalStores ∧ g.store.val < arch.generalStores ∧
          (f.store ≠ g.store ∨ f.zeroExtends = false ∧
            (f.offset + f.bits ≤ g.offset ∨ g.offset + g.bits ≤ f.offset))
  | .x86 => by decide +kernel
  | .x86_64 => by decide +kernel

theorem exists_isPair (arch : Arch) (h : (width, high, low) ∈ arch.pairs) :
    ∃ f g, arch.IsPair width high low f g := by
  obtain ⟨hpos, hle, haccumulators, f, hf, g, hg, hbits, hbits', hstore, hstore', hapart⟩ :=
    arch.windows_of_mem_pairs _ h
  exact ⟨f, g, hpos, hle, haccumulators, hf, hg, hbits, hbits', hstore, hstore', hapart⟩

theorem byte_mem_pairs (arch : Arch) : (1, "ah", "al") ∈ arch.pairs := by cases arch <;> simp [pairs]

/-- The word accumulator is made of the two byte accumulators. -/
theorem windows_of_ax : ∀ arch : Arch, ∃ e ∈ arch.layout.field? (Text.lowercase "ax"),
    ∃ f ∈ arch.layout.field? (Text.lowercase "ah"), ∃ g ∈ arch.layout.field? (Text.lowercase "al"),
      f.store = e.store ∧ g.store = e.store ∧ e.offset = 0 ∧ f.offset = 8 ∧ g.offset = 0 ∧
        e.bits = 16 ∧ f.bits = 8 ∧ g.bits = 8 ∧ e.store.val < arch.generalStores
  | .x86 => by decide +kernel
  | .x86_64 => by decide +kernel

end Arch

theorem Arithmetic.joinHalves_eq {width : Nat} (hle : width ≤ 8) {high low : UInt64}
    (hhigh : high.toNat < 2 ^ (8 * width)) (hlow : low.toNat < 2 ^ (8 * width)) :
    joinHalves width high low = high.toNat * 2 ^ (8 * width) + low.toNat := by
  have hfits : high.toNat * 2 ^ (8 * width) < doubleCount := by
    have hdouble : high.toNat * 2 ^ (8 * width) < 2 ^ (8 * width) * 2 ^ (8 * width) :=
      Nat.mul_lt_mul_of_pos_right hhigh (Nat.two_pow_pos _)
    rw [← Nat.pow_add] at hdouble
    rw [doubleCount, Nat.one_shiftLeft]
    exact Nat.lt_of_lt_of_le hdouble (Nat.pow_le_pow_right (by decide) (by omega))
  rw [joinHalves, halfShift_of_lt (by omega), Nat.shiftLeft_eq, Nat.mod_eq_of_lt hfits, Nat.mul_comm,
    ← Nat.two_pow_add_eq_or_of_lt hlow]

namespace Machine

variable {m m' m'' : Machine} {width : Nat} {high low name : String} {f g : Field m.registers.arch.stores}

/-- The double-width value of the accumulators: that of `ax` for a byte, otherwise that of two registers together. -/
def doubleValue (m : Machine) (width : Nat) (high low : String) : Nat :=
  if width = 1 then (m.registerOrZero "ax").toNat
  else (m.registerOrZero high).toNat * 2 ^ (8 * width) + (m.registerOrZero low).toNat

/-- A general register keeps its contents until an instruction takes effect. -/
theorem registerOrZero_prepare (h : m.registers.arch.layout.field? (Text.lowercase name) = some f)
    (hgeneral : f.store.val < m.registers.arch.generalStores) (a : Address) (i : Instruction) :
    (m.prepare a i).registerOrZero name = m.registerOrZero name := by
  have hget : (m.registers.withIp i.next).get name = m.registers.get name := by
    refine Registers.get_writeField (r := m.registers) (fun g hg heq => ?_) _
    obtain rfl := Option.some_inj.1 (h.symm.trans hg)
    have hip := m.registers.arch.generalStores_le_instructionField
    rw [← heq] at hip
    omega
  rw [registerOrZero, registers_prepare, hget, registerOrZero]

/-- What the word accumulator holds. -/
theorem toNat_ax (m : Machine) :
    (m.registerOrZero "ax").toNat = (m.registerOrZero "ah").toNat * 2 ^ 8 + (m.registerOrZero "al").toNat := by
  obtain ⟨e, he, f, hf, g, hg, hfstore, hgstore, heoffset, hfoffset, hgoffset, hebits, hfbits, hgbits, -⟩ :=
    m.registers.arch.windows_of_ax
  have hread : ∀ {name : String} {f : Field m.registers.arch.stores},
      f ∈ m.registers.arch.layout.field? (Text.lowercase name) → f.bits ≤ 64 →
      (m.registerOrZero name).toNat = (m.registers.stores.get f.store).toNat / 2 ^ f.offset % 2 ^ f.bits := by
    intro name f hf hbits
    rw [registerOrZero_of_field? hf, Registers.toNat_wordAt hbits]
    exact Field.toNat_read f m.registers.stores
  rw [hread he (by omega), hread hf (by omega), hread hg (by omega), hfstore, hgstore, heoffset, hfoffset, hgoffset,
    hebits, hfbits, hgbits]
  generalize (m.registers.stores.get e.store).toNat = store
  omega

/-- The accumulators hold their double-width value in two halves, also for a byte. -/
theorem doubleValue_eq (h : accumulators width = (low, high)) (m : Machine) : m.doubleValue width high low =
    (m.registerOrZero high).toNat * 2 ^ (8 * width) + (m.registerOrZero low).toNat := by
  unfold doubleValue
  split
  · rename_i hone
    subst hone
    obtain ⟨rfl, rfl⟩ := Prod.mk.inj h
    exact m.toNat_ax
  · rfl

section Pair

variable (h : m.registers.arch.IsPair width high low f g)

include h

theorem toNat_high_lt : (m.registerOrZero high).toNat < 2 ^ (8 * width) := by
  have hbits := h.bits_high
  have hle := h.width_le
  exact hbits ▸ toNat_registerOrZero_lt_of_field? h.field_high (by omega)

theorem toNat_low_lt : (m.registerOrZero low).toNat < 2 ^ (8 * width) := by
  have hbits := h.bits_low
  have hle := h.width_le
  exact hbits ▸ toNat_registerOrZero_lt_of_field? h.field_low (by omega)

theorem register_low : Exec.register (accumulators width).1 m = .ok (m.registerOrZero low) m := by
  rw [h.accumulators, register_of_field? h.field_low]

/-- What is divided is what the pair holds. -/
theorem dividend_eq : Exec.dividend width m = .ok (m.doubleValue width high low) m := by
  unfold Exec.dividend
  split
  · rename_i hone
    subst hone
    obtain ⟨e, he, -⟩ := m.registers.arch.windows_of_ax
    exact Exec.bind_of_ok (register_of_field? he)
  · rw [h.accumulators]
    refine (Exec.bind_of_ok (register_of_field? h.field_high)).trans ?_
    refine (Exec.bind_of_ok (register_of_field? h.field_low)).trans ?_
    show EStateM.Result.ok (Arithmetic.joinHalves width (m.registerOrZero high) (m.registerOrZero low)) m = _
    rw [Arithmetic.joinHalves_eq h.width_le (toNat_high_lt h) (toNat_low_lt h), doubleValue_eq h.accumulators]

end Pair

/-- The accumulators keep their value until an instruction takes effect. -/
theorem doubleValue_prepare (hpair : (width, high, low) ∈ m.arch.pairs) (a : Address) (i : Instruction) :
    (m.prepare a i).doubleValue width high low = m.doubleValue width high low := by
  obtain ⟨f, g, h⟩ := m.registers.arch.exists_isPair hpair
  rw [doubleValue_eq h.accumulators, doubleValue_eq h.accumulators,
    registerOrZero_prepare h.field_high h.store_high, registerOrZero_prepare h.field_low h.store_low]

/-! ## Writing both halves -/

/-- What a machine has in common with one in which only accumulators or the instruction pointer were written. -/
structure Accumulated (m m' : Machine) : Prop where
  get : ∀ name, m.arch.namesFlags name → m'.registers.get name = m.registers.get name
  flag : ∀ f, m'.registers.flag f = m.registers.flag f
  memory : m'.memory = m.memory
  arch : m'.arch = m.arch
  listing : m'.listing = m.listing

/-- What a write of the two halves of a pair leaves. -/
structure Paired (m m' : Machine) (width : Nat) (high low : String) (l r : Nat) : Prop extends Accumulated m m' where
  toNat_low : (m'.registerOrZero low).toNat = l % 2 ^ (8 * width)
  toNat_high : (m'.registerOrZero high).toNat = r % 2 ^ (8 * width)

theorem accumulated_writeField (h : f.store.val < m.registers.arch.generalStores) (v : BitVec 128) :
    m.Accumulated (m.withRegisters (m.registers.writeField f v)) where
  get _ hname := Registers.get_writeField_of_namesFlags (r := m.registers) (Registers.store_flag_ne h .carry) hname v
  flag := Registers.flag_writeField (r := m.registers) h v
  memory := rfl
  arch := rfl
  listing := rfl

theorem Accumulated.refl (m : Machine) : m.Accumulated m := ⟨fun _ _ => rfl, fun _ => rfl, rfl, rfl, rfl⟩

theorem Accumulated.trans (h : m.Accumulated m') (h' : m'.Accumulated m'') : m.Accumulated m'' where
  get name hname := (h'.get name (h.arch.symm ▸ hname)).trans (h.get name hname)
  flag f := (h'.flag f).trans (h.flag f)
  memory := h'.memory.trans h.memory
  arch := h'.arch.trans h.arch
  listing := h'.listing.trans h.listing

/-- An instruction leaves accumulators and flags alone before it takes effect. -/
theorem accumulated_prepare (m : Machine) (a : Address) (i : Instruction) : m.Accumulated (m.prepare a i) where
  get name hname := by
    rw [registers_prepare]
    exact Registers.get_writeField_of_namesFlags (r := m.registers) (Flag.carry.store_field_ne m.arch).symm hname _
  flag := m.flag_prepare a i
  memory := m.memory_prepare a i
  arch := m.arch_prepare a i
  listing := m.listing_prepare a i

theorem setRegister_ax (m : Machine) (v : UInt64) :
    ∃ m', Exec.setRegister "ax" v m = .ok () m' ∧ m.Accumulated m' ∧
      (m'.registerOrZero "ax").toNat = v.toNat % 2 ^ 16 := by
  obtain ⟨e, hax, -, -, -, -, -, -, -, -, -, hbits, -, -, hgeneral⟩ := m.registers.arch.windows_of_ax
  let m' := m.withRegisters (m.registers.writeField e (v.toBitVec.setWidth 128))
  refine ⟨m', exec_setRegister_of_field? hax v, accumulated_writeField hgeneral _, ?_⟩
  rw [registerOrZero_of_field? (m := m') hax, ← hbits]
  exact Registers.toNat_wordAt_writeField (r := m.registers) (Layout.fits_of_field? hax) v

theorem setRegister_pair (h : m.registers.arch.IsPair width high low f g) (l r : UInt64) :
    ∃ m', (do Exec.setRegister low l; Exec.setRegister high r : Exec Unit) m = .ok () m' ∧
      m.Paired m' width high low l.toNat r.toNat := by
  let r₁ := m.registers.writeField g (l.toBitVec.setWidth 128)
  let r₂ := r₁.writeField f (r.toBitVec.setWidth 128)
  have hlow : m.Accumulated (m.withRegisters r₁) := accumulated_writeField h.store_low _
  have hhigh : (m.withRegisters r₁).Accumulated (m.withRegisters r₂) :=
    accumulated_writeField (m := m.withRegisters r₁) h.store_high _
  refine ⟨m.withRegisters r₂, ?_, hlow.trans hhigh, ?_, ?_⟩
  · refine (Exec.bind_of_ok (exec_setRegister_of_field? h.field_low l)).trans ?_
    exact exec_setRegister_of_field? (m := m.withRegisters r₁) h.field_high r
  · have hkept : r₂.wordAt g = r₁.wordAt g :=
      congrArg (fun v : BitVec 128 => UInt64.ofNat v.toNat)
        (Field.read_write_of_disjoint (Layout.fits_of_field? h.field_low) h.apart r₁.stores _)
    rw [registerOrZero_of_field? (m := m.withRegisters r₂) h.field_low, ← h.bits_low]
    exact (congrArg UInt64.toNat hkept).trans
      (Registers.toNat_wordAt_writeField (r := m.registers) (Layout.fits_of_field? h.field_low) l)
  · rw [registerOrZero_of_field? (m := m.withRegisters r₂) h.field_high, ← h.bits_high]
    exact Registers.toNat_wordAt_writeField (r := r₁) (Layout.fits_of_field? h.field_high) r

theorem storeDivision_pair (h : m.registers.arch.IsPair width high low f g) (q r : UInt64) :
    ∃ m', Exec.storeDivision width q r m = .ok () m' ∧ m.Paired m' width high low q.toNat r.toNat := by
  obtain ⟨m', hstore, hpaired⟩ := setRegister_pair h (q &&& Word.mask width) (r &&& Word.mask width)
  refine ⟨m', ?_, { hpaired with toNat_low := ?_, toNat_high := ?_ }⟩
  · unfold Exec.storeDivision
    rw [h.accumulators]
    exact hstore
  · rw [hpaired.toNat_low, Word.toNat_and_mask _ h.width_le, Nat.mod_mod]
  · rw [hpaired.toNat_high, Word.toNat_and_mask _ h.width_le, Nat.mod_mod]

/-- A product is left in both halves. -/
theorem storeProduct_pair (h : m.registers.arch.IsPair width high low f g) (n : Nat) :
    ∃ m', Exec.storeProduct n width m = .ok () m' ∧ m.Paired m' width high low n (n / 2 ^ (8 * width)) := by
  have hword : ∀ n : Nat, (UInt64.ofNat n &&& Word.mask width).toNat % 2 ^ (8 * width) = n % 2 ^ (8 * width) := by
    intro n
    rw [Word.toNat_and_mask _ h.width_le, Nat.mod_mod, Word.toNat_ofNat_mod h.width_le]
  unfold Exec.storeProduct
  split
  · rename_i hone
    subst hone
    obtain ⟨rfl, rfl⟩ := Prod.mk.inj h.accumulators
    obtain ⟨m', hset, hrest, hax⟩ := m.setRegister_ax (UInt64.ofNat n &&& 0xFFFF)
    obtain ⟨f', g', h'⟩ := m'.registers.arch.exists_isPair m'.registers.arch.byte_mem_pairs
    have hlow := toNat_low_lt h'
    have hhigh := toNat_high_lt h'
    have hvalue : (UInt64.ofNat n &&& 0xFFFF).toNat = n % 2 ^ 16 := by
      rw [UInt64.toNat_and, UInt64.toNat_ofNat']
      show n % 2 ^ 64 &&& (2 ^ 16 - 1) = n % 2 ^ 16
      rw [Nat.and_two_pow_sub_one_eq_mod]
      omega
    rw [toNat_ax, hvalue] at hax
    refine ⟨m', hset, hrest, ?_, ?_⟩
    · omega
    · omega
  · have hle := h.width_le
    obtain ⟨m', hstore, hpaired⟩ := setRegister_pair h (Arithmetic.halves width n).1 (Arithmetic.halves width n).2
    refine ⟨m', ?_, { hpaired with toNat_low := ?_, toNat_high := ?_ }⟩
    · rw [h.accumulators]
      exact hstore
    · rw [hpaired.toNat_low]
      exact hword n
    · rw [hpaired.toNat_high, Arithmetic.halves, Arithmetic.halfShift_of_lt (by omega), Nat.shiftRight_eq_div_pow]
      exact hword _

end Machine
end PathReplay
