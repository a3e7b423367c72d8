import PathReplay.Proofs.Machine.Places
import PathReplay.Proofs.Register.Slots

/-!
# Locations

* `Location`, `Operand.HasLocation`, `Machine.location?` : the integer register or the address in memory that an operand
  is; `Machine.contents` : the value there;
* `location_cases`, `store_cases` : a location is a register or in memory, and so it is written;
* `Machine.Assigned` : a value was stored in a location, and no register and no byte apart from it has changed;
  `setRegister_assigned`, `store_location` : so it is when a register or an operand is written;
* `Assigned.referenceAddress`, `Assigned.contents_of_apart` : an address stays that no register written is part of, and
  so does the value in a location that lies apart;
* `apart_or_same` : a register and another location of its width lie apart, or they are the same register.
-/

namespace PathReplay

/-- Where a value is held: in an integer register, or in memory from an address on. -/
inductive Location where
  | register (name : String)
  | memory (a : Address)
deriving DecidableEq

/-- An integer register of the operand's width, or an operand in memory. -/
def Operand.HasLocation (arch : Arch) (o : Operand) : Prop :=
  match o.kind with
  | .register name => ∃ s, arch.slot? name = some s ∧ s.bits = 8 * o.width
  | .memory _ => True
  | _ => False

namespace Location

/-- A register has a bit in common with the one that the location is. -/
def Meets (arch : Arch) (l : Location) (name : String) : Prop :=
  match l with
  | register other => arch.Overlap other name
  | memory _ => False

/-- A byte of memory is one of the `width` that the location has. -/
def Covers (l : Location) (width : Nat) (x : Address) : Prop :=
  match l with
  | register _ => False
  | memory a => (x - a).toNat < width

/-- Two locations of `width` bytes have nothing in common. -/
def Apart (arch : Arch) (width : Nat) (l l' : Location) : Prop :=
  match l' with
  | register name => ¬ l.Meets arch name
  | memory a => ∀ n < width, ¬ l.Covers width (a + UInt64.ofNat n)

end Location

namespace Machine

variable {m m' : Machine} {o o' : Operand} {l l' : Location} {v : UInt64} {width : Nat}

def location? (m : Machine) (o : Operand) : Option Location :=
  match o.kind with
  | .register name => some (.register name)
  | .memory r => some (.memory (m.referenceAddress r))
  | _ => none

/-- The value in a location of `width` bytes, as an unsigned number. -/
def contents (m : Machine) (l : Location) (width : Nat) : UInt64 :=
  match l with
  | .register name => m.registerOrZero name
  | .memory a => m.readWord a width

theorem location?_register {name : String} (h : o.kind = .register name) : m.location? o = some (.register name) := by
  rw [location?, h]

theorem location?_memory {r : MemoryReference} (h : o.kind = .memory r) :
    m.location? o = some (.memory (m.referenceAddress r)) := by
  rw [location?, h]

/-- An operand with a location is a register with a window of its width, or in memory. -/
theorem exists_location {arch : Arch} (ho : o.HasLocation arch) :
    (∃ name s, o.kind = .register name ∧ arch.slot? name = some s ∧ s.bits = 8 * o.width) ∨
      ∃ r, o.kind = .memory r := by
  unfold Operand.HasLocation at ho
  split at ho
  · rename_i name hkind
    obtain ⟨s, hs, hbits⟩ := ho
    exact .inl ⟨name, s, hkind, hs, hbits⟩
  · rename_i r hkind
    exact .inr ⟨r, hkind⟩
  · cases ho

theorem exists_location?_eq {arch : Arch} (ho : o.HasLocation arch) (m : Machine) : ∃ l, m.location? o = some l := by
  rcases exists_location ho with ⟨name, s, hkind, -⟩ | ⟨r, hkind⟩
  · exact ⟨_, location?_register hkind⟩
  · exact ⟨_, location?_memory hkind⟩

/-- What the location of an operand is. -/
theorem location_cases {arch : Arch} (ho : o.HasLocation arch) (hl : m.location? o = some l) :
    (∃ name s, o.kind = .register name ∧ l = .register name ∧ arch.slot? name = some s ∧ s.bits = 8 * o.width) ∨
      ∃ r, o.kind = .memory r ∧ l = .memory (m.referenceAddress r) := by
  rcases exists_location ho with ⟨name, s, hkind, hs, hbits⟩ | ⟨r, hkind⟩
  · exact .inl ⟨name, s, hkind, Option.some_inj.1 (hl.symm.trans (location?_register hkind)), hs, hbits⟩
  · exact .inr ⟨r, hkind, Option.some_inj.1 (hl.symm.trans (location?_memory hkind))⟩

theorem registerOrZero_of_getWide {name : String} (h : m'.registers.getWide name = m.registers.getWide name) :
    m'.registerOrZero name = m.registerOrZero name := by
  rw [registerOrZero, registerOrZero, Registers.get, Registers.get, h]

theorem registerOrZero_of_slot? {name : String} {s : Slot m.arch} (h : m.arch.slot? name = some s) :
    m.registerOrZero name = UInt64.ofNat (m.registers.readSlot s).toNat := by
  rw [registerOrZero, Registers.get_of_slot? (r := m.registers) h]

theorem toNat_registerOrZero_lt_of_slot? {name : String} {s : Slot m.arch} (h : m.arch.slot? name = some s) :
    (m.registerOrZero name).toNat < 2 ^ s.bits := by
  rw [registerOrZero_of_slot? h, UInt64.toNat_ofNat']
  exact Nat.lt_of_le_of_lt (Nat.mod_le _ _) (m.registers.toNat_readSlot_lt s)

/-- The value of an operand is what its location holds. -/
theorem operandValue_eq_contents (ho : o.HasLocation m.arch) (hl : m.location? o = some l) :
    m.operandValue o = m.contents l o.width := by
  rcases location_cases ho hl with ⟨name, s, hkind, rfl, hs, -⟩ | ⟨r, hkind, rfl⟩
  · rw [operandValue, hkind]
    show m.registerValue name = m.registerOrZero name
    rw [registerOrZero_of_slot? hs, registerValue, Registers.get_of_slot? (r := m.registers) hs]
  · rw [operandValue, hkind]
    rfl

/-- What a location has room for, also after the address of the operand has moved. -/
theorem toNat_contents_lt (ho : o.HasLocation m'.arch) (h : o.width ≤ 8) (hl : m.location? o = some l) :
    (m'.contents l o.width).toNat < 2 ^ (8 * o.width) := by
  rcases location_cases ho hl with ⟨name, s, -, rfl, hs, hbits⟩ | ⟨r, -, rfl⟩
  · exact hbits ▸ toNat_registerOrZero_lt_of_slot? hs
  · exact m'.memory.toNat_readWord_lt _ h

/-- Two registers of one width lie apart or are the same, and a register and an operand in memory lie apart. -/
theorem apart_or_same {arch : Arch} (ho : o.HasLocation arch) (ho' : o'.HasLocation arch)
    (hwidth : o'.width = o.width) (hregister : o.isMemory = false ∨ o'.isMemory = false) (hl : m.location? o = some l)
    (hl' : m'.location? o' = some l') :
    l.Apart arch o.width l' ∨ ∀ q : Machine, q.arch = arch →
      q.operandValue o = q.operandValue o' ∧ q.contents l o.width = q.contents l' o.width := by
  rcases location_cases ho hl with ⟨name, s, hkind, rfl, hs, hbits⟩ | ⟨r, hkind, rfl⟩
  · rcases location_cases ho' hl' with ⟨name', t, hkind', rfl, ht, hbits'⟩ | ⟨r', -, rfl⟩
    · by_cases hover : s.Overlaps t
      · obtain rfl := Slot.eq_of_overlaps hs ht (by omega) hover
        refine .inr fun q hq => ?_
        subst hq
        have hsame : q.registerOrZero name = q.registerOrZero name' :=
          (registerOrZero_of_slot? hs).trans (registerOrZero_of_slot? ht).symm
        exact ⟨by rw [operandValue_eq_contents ho (location?_register hkind),
          operandValue_eq_contents ho' (location?_register hkind'), contents, hsame, contents], hsame⟩
      · refine .inl fun ⟨s', t', hs', ht', hover'⟩ => hover ?_
        obtain rfl := Option.some_inj.1 (hs.symm.trans hs')
        obtain rfl := Option.some_inj.1 (ht.symm.trans ht')
        exact hover'
    · exact .inl fun _ _ h => h
  · rcases location_cases ho' hl' with ⟨name', t, -, rfl, -⟩ | ⟨r', hkind', rfl⟩
    · exact .inl fun h => h
    · simp [Operand.isMemory, hkind, hkind'] at hregister

/-! ## Storing -/

/-- A value was stored in a location, and nothing else has changed. -/
structure Assigned (l : Location) (width : Nat) (v : UInt64) (m m' : Machine) : Prop where
  toNat_contents : (m'.contents l width).toNat = v.toNat % 2 ^ (8 * width)
  register : ∀ name, ¬ l.Meets m.arch name → m'.registers.getWide name = m.registers.getWide name
  byte : ∀ x, ¬ l.Covers width x → m'.memory.byte x = m.memory.byte x
  data : m'.registers.float.data = m.registers.float.data
  arch : m'.arch = m.arch

/-- A register is written; nothing but registers changes. -/
theorem setRegister_assigned {name : String} {s : Slot m.arch} (hs : m.arch.slot? name = some s)
    (hbits : s.bits = 8 * width) (v : UInt64) :
    ∃ r, m.setRegister name v = .ok (m.withRegisters r) ∧
      Assigned (.register name) width v m (m.withRegisters r) := by
  let r := m.registers.writeSlot s (v.toBitVec.setWidth 128)
  have hread : (r.readSlot s).toNat = v.toNat % 2 ^ (8 * width) :=
    hbits ▸ Registers.toNat_readSlot_writeSlot hs v
  have hlt : v.toNat % 2 ^ (8 * width) < 2 ^ 64 := Nat.lt_of_le_of_lt (Nat.mod_le _ _) v.toNat_lt
  refine ⟨r, ?_, ?_, fun name' hname => Registers.getWide_writeSlot hs hname _, fun _ _ => rfl,
    Registers.data_writeSlot .., rfl⟩
  · rw [setRegister, Registers.set_of_slot? (r := m.registers) hs]
    rfl
  · show ((m.withRegisters r).registerOrZero name).toNat = _
    rw [registerOrZero_of_slot? (m := m.withRegisters r) hs]
    show (UInt64.ofNat (r.readSlot s).toNat).toNat = _
    rw [hread, UInt64.toNat_ofNat', Nat.mod_eq_of_lt hlt]

theorem byte_writeWord (m : Machine) {a x : Address} (v : UInt64) (h : ¬ (Location.memory a).Covers width x) :
    (m.writeWord a v width).memory.byte x = m.memory.byte x := by
  refine m.memory.byte_write_of_le ?_
  rw [Word.length_toBytes]
  exact Nat.le_trans (Nat.min_le_left _ _) (Nat.le_of_not_lt h)

/-- A word is written to memory. -/
theorem assigned_writeWord (m : Machine) (a : Address) (v : UInt64) (h : width ≤ 8) :
    Assigned (.memory a) width v m (m.writeWord a v width) :=
  ⟨m.memory.toNat_readWord_writeWord a v h, fun _ _ => rfl, fun _ => m.byte_writeWord v, rfl, rfl⟩

/-- An operand that has a location is written as a register is, or as a word in memory. -/
theorem store_cases (ho : o.HasLocation m.arch) (hl : m.location? o = some l) (v : UInt64) :
    (∃ name r, l = .register name ∧ Exec.store o v m = .ok () (m.withRegisters r) ∧
        Assigned l o.width v m (m.withRegisters r)) ∨
      ∃ a, l = .memory a ∧ Exec.store o v m = .ok () (m.writeWord a v o.width) := by
  have hstore : ∀ m', m.setOperand o v = .ok m' → Exec.store o v m = .ok () m' := fun m' hset => by
    rw [Exec.store, Exec.updateOrFail, hset]
  rcases location_cases ho hl with ⟨name, s, hkind, rfl, hs, hbits⟩ | ⟨r, hkind, rfl⟩
  · obtain ⟨r, hset, hassigned⟩ := setRegister_assigned hs hbits v
    exact .inl ⟨name, r, rfl, hstore _ (by rw [setOperand, hkind]; exact hset), hassigned⟩
  · exact .inr ⟨_, rfl, hstore _ (by rw [setOperand, hkind])⟩

/-- It is written there, and nowhere else. -/
theorem store_location (ho : o.HasLocation m.arch) (h : o.width ≤ 8) (hl : m.location? o = some l) (v : UInt64) :
    ∃ m', Exec.store o v m = .ok () m' ∧ Assigned l o.width v m m' := by
  rcases store_cases ho hl v with ⟨name, r, -, hstore, hassigned⟩ | ⟨a, rfl, hstore⟩
  · exact ⟨_, hstore, hassigned⟩
  · exact ⟨_, hstore, m.assigned_writeWord a v h⟩

namespace Assigned

variable (h : Assigned l width v m m')
include h

theorem registerOrZero {name : String} (hname : ¬ l.Meets m.arch name) :
    m'.registerOrZero name = m.registerOrZero name :=
  registerOrZero_of_getWide (h.register name hname)

/-- An address stays whose base and index have nothing in common with what was written. -/
theorem referenceAddress {r : MemoryReference}
    (hr : ∀ name, r.base = some name ∨ r.index = some name → ¬ l.Meets m.arch name) :
    m'.referenceAddress r = m.referenceAddress r :=
  referenceAddress_congr h.arch fun name hname => h.registerOrZero (hr name hname)

/-- A location that lies apart keeps its value. -/
theorem contents_of_apart (hapart : l.Apart m.arch width l') : m'.contents l' width = m.contents l' width := by
  cases l' with
  | register name => exact h.registerOrZero hapart
  | memory a =>
    have hread : m'.memory.read a (min width 8) = m.memory.read a (min width 8) :=
      Memory.read_congr fun i hi => h.byte _ (hapart i (Nat.lt_of_lt_of_le hi (Nat.min_le_left _ _)))
    show m'.memory.readWord a width = m.memory.readWord a width
    rw [Memory.readWord, hread, Memory.readWord]

end Assigned

end Machine
end PathReplay
