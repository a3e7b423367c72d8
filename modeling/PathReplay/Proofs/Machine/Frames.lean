import PathReplay.Proofs.Machine.Locations

/-!
# What an instruction leaves alone

* `Operand.addressNames` : the registers that an operand's address is made of;
* `Registers.getWide_withIp_of_instructionPointer` : the instruction pointer and its parts are what was written last;
* `Registers.getWide_withFlags` : a write of flags leaves the other registers alone;
* `Location.IsGeneral`, `Machine.isGeneral_of_location?` : general registers and memory, the locations of places;
* `Location.Misses` : a value of one width and a value of another have nothing in common; `Misses.symm` : it does not
  matter which of them comes first;
* `Machine.Touched` : nothing has changed but one location, the flags and the instruction pointer; `Touched.contents`,
  `Touched.location?` : so a value that lies elsewhere has stayed, and so has the location of an operand;
* `store_touched` : a value that is stored at the end of an instruction leaves all else so.
-/

namespace PathReplay

/-! ## Names in addresses -/

/-- The registers that the address of an operand in memory is made of. -/
def Operand.addressNames (o : Operand) : List String :=
  match o.kind with
  | .memory r => r.base.toList ++ r.index.toList
  | _ => []

theorem Operand.mem_addressNames {o : Operand} {r : MemoryReference} (h : o.kind = .memory r) {name : String} :
    name ∈ o.addressNames ↔ r.base = some name ∨ r.index = some name := by
  rw [addressNames, h, List.mem_append, Option.mem_toList, Option.mem_toList]

/-! ## The instruction pointer by name -/

/-- A name of the instruction pointer stands for a window of it. -/
theorem Layout.window_of_instructionPointer : ∀ arch : Arch, ∀ e ∈ arch.layout.fields, e.1 ∈ ["eip", "ip", "rip"] →
    arch.instructionField.store = e.2.store ∧ arch.instructionField.offset ≤ e.2.offset ∧
      e.2.offset + e.2.bits ≤ arch.instructionField.offset + arch.instructionField.bits
  | .x86 => by decide +kernel
  | .x86_64 => by decide +kernel

/-- What a window holds after another that it lies in is written does not depend on what there was. -/
theorem Field.read_write_of_within {n : Nat} {f g : Field n} (hfit : f.offset + f.bits ≤ 128)
    (hstore : f.store = g.store) (hlow : f.offset ≤ g.offset) (hhigh : g.offset + g.bits ≤ f.offset + f.bits)
    (s t : Stores n) (v : BitVec 128) :
    g.read (f.write s v) = g.read (f.write t v) :=
  read_congr_of_within hstore.symm hlow hhigh ((read_write_self hfit s v).trans (read_write_self hfit t v).symm)

/-- The instruction pointer and its parts are what was written last. -/
theorem Registers.getWide_withIp_of_instructionPointer {r r' : Registers} {name : String} (harch : r'.arch = r.arch)
    (hname : isInstructionPointer name = true) (a : Address) :
    (r'.withIp a).getWide name = (r.withIp a).getWide name := by
  have hmem : Text.lowercase name ∈ ["eip", "ip", "rip"] := List.contains_iff_mem.1 hname
  obtain ⟨arch, stores, float⟩ := r
  obtain ⟨arch', stores', float'⟩ := r'
  subst harch
  cases hfield : arch'.layout.field? (Text.lowercase name) with
  | some g =>
    have hfit : arch'.instructionField.offset + arch'.instructionField.bits ≤ 128 := by cases arch' <;> decide
    obtain ⟨hstore, hlow, hhigh⟩ :=
      Layout.window_of_instructionPointer arch' _ (Layout.mem_fields_of_field? hfield) hmem
    rw [getWide_of_field? (r := Registers.withIp ⟨arch', stores, float⟩ a) hfield,
      getWide_of_field? (r := Registers.withIp ⟨arch', stores', float'⟩ a) hfield]
    exact congrArg Except.ok (Field.read_write_of_within hfit hstore hlow hhigh _ _ _)
  | none =>
    have hfloat : ∀ lower ∈ ["eip", "ip", "rip"], (FloatStack.position? lower).isSome = false ∧
        Layout.floatWords.field? lower = none := by decide +kernel
    have hslot : arch'.slot? name = none := by
      simp only [Arch.slot?, hfield, hfloat _ hmem, Bool.false_eq_true, if_false, Option.map_none]
    rw [getWide_of_slot?_eq_none (r := Registers.withIp ⟨arch', stores, float⟩ a) hslot,
      getWide_of_slot?_eq_none (r := Registers.withIp ⟨arch', stores', float'⟩ a) hslot]

/-! ## Writes of flags -/

/-- A write of flags leaves a register alone that is none of them. -/
theorem Registers.getWide_withFlags {r : Registers} {name : String} (h : ¬ r.arch.namesFlags name)
    (fs : List (Flag × Bool)) : (r.withFlags fs).getWide name = r.getWide name := by
  induction fs generalizing r with
  | nil => rfl
  | cons e fs ih =>
    refine (ih (r := r.withFlag e.1 e.2) h).trans (getWide_writeField (fun field hfield hstore => h ?_) _)
    exact ⟨field, hfield, hstore.trans (Flag.store_eq e.1 .carry r.arch)⟩

theorem Registers.flag_withFlags_of_notMem {f : Flag} {fs : List (Flag × Bool)} (h : ∀ e ∈ fs, e.1 ≠ f)
    (r : Registers) : (r.withFlags fs).flag f = r.flag f := by
  induction fs generalizing r with
  | nil => rfl
  | cons e fs ih =>
    refine (ih (fun e' he' => h e' (List.mem_cons_of_mem e he')) (r.withFlag e.1 e.2)).trans ?_
    exact flag_withFlag_of_ne (h e List.mem_cons_self).symm e.2

/-! ## Locations -/

theorem Slot.Overlaps.symm {arch : Arch} {s t : Slot arch} (h : s.Overlaps t) : t.Overlaps s := by
  cases s <;> cases t
  · exact ⟨h.1.symm, h.2.2, h.2.1⟩
  · exact h
  · exact h
  · exact ⟨h.1.symm, h.2.2, h.2.1⟩

theorem Arch.Overlap.symm {arch : Arch} {p q : String} (h : arch.Overlap p q) : arch.Overlap q p := by
  obtain ⟨s, t, hs, ht, hover⟩ := h
  exact ⟨t, s, ht, hs, hover.symm⟩

namespace Location

variable {arch : Arch} {l l' : Location} {width width' : Nat}

/-- A general register, or memory. -/
def IsGeneral (arch : Arch) (l : Location) : Prop :=
  match l with
  | register name => ∃ f, arch.layout.field? (Text.lowercase name) = some f ∧ f.store.val < arch.generalStores
  | memory _ => True

/-- A value of `width` bytes in the first location has nothing in common with one of `width'` bytes in the other. -/
def Misses (arch : Arch) (l : Location) (width : Nat) (l' : Location) (width' : Nat) : Prop :=
  match l' with
  | register name => ¬ l.Meets arch name
  | memory a => ∀ n < width', ¬ l.Covers width (a + UInt64.ofNat n)

/-- It does not matter which of the two comes first. -/
theorem Misses.symm (hle : width ≤ 8) (h : l.Misses arch width l' width') : l'.Misses arch width' l width := by
  cases l with
  | register name =>
    cases l' with
    | register name' => exact fun hover => h hover.symm
    | memory a => exact fun hmeets => hmeets
  | memory a =>
    cases l' with
    | register name' => exact fun _ _ hcovers => hcovers
    | memory a' =>
      intro n hn hcovers
      refine h _ hcovers ?_
      have hback : a' + UInt64.ofNat (a + UInt64.ofNat n - a').toNat - a = UInt64.ofNat n := by
        rw [UInt64.ofNat_toNat]
        grind
      show (a' + UInt64.ofNat (a + UInt64.ofNat n - a').toNat - a).toNat < width
      rw [hback, UInt64.toNat_ofNat', Nat.mod_eq_of_lt (by omega)]
      exact hn

/-- A general register has no bit of the flags and none of the instruction pointer. -/
theorem IsGeneral.name {name : String} (h : (register name).IsGeneral arch) :
    isInstructionPointer name = false ∧ ¬ arch.namesFlags name := by
  obtain ⟨f, hf, hlt⟩ := h
  constructor
  · rw [← Bool.not_eq_true]
    intro hip
    have hstore := (Layout.window_of_instructionPointer arch _ (Layout.mem_fields_of_field? hf)
      (List.contains_iff_mem.1 hip)).1
    have hpointer := arch.generalStores_le_instructionField
    rw [hstore] at hpointer
    exact Nat.not_lt.2 hpointer hlt
  · rintro ⟨g, hg, hstore⟩
    obtain rfl := Option.some_inj.1 (hf.symm.trans hg)
    have hflags := Flag.carry.generalStores_le arch
    rw [← hstore] at hflags
    omega

end Location

namespace Operand

variable {arch : Arch} {o : Operand}

theorem IsPlace.hasLocation (h : o.IsPlace arch) : o.HasLocation arch := by
  cases hkind : o.kind with
  | register name =>
    simp only [IsPlace, hkind] at h
    obtain ⟨f, hf, -, hbits⟩ := h
    simp only [HasLocation, hkind]
    exact ⟨.integer f, Arch.slot?_of_field? hf, hbits⟩
  | memory r => simp only [HasLocation, hkind]
  | _ => simp only [IsPlace, hkind] at h

end Operand

namespace Machine

variable {m m' p q : Machine} {a next : Address} {i : Instruction} {o : Operand} {l l' : Location} {width width' : Nat}

theorem isGeneral_of_location? (ho : o.IsPlace m.arch) (hl : m.location? o = some l) : l.IsGeneral m.arch := by
  unfold Operand.IsPlace at ho
  split at ho
  · rename_i name hkind
    obtain rfl := Option.some_inj.1 ((location?_register hkind).symm.trans hl)
    obtain ⟨f, hf, hstore, -⟩ := ho
    exact ⟨f, hf, hstore⟩
  · rename_i r hkind
    obtain rfl := Option.some_inj.1 ((location?_memory hkind).symm.trans hl)
    trivial
  · cases ho

theorem toNat_contents_lt_of_place (ho : o.IsPlace m.arch) (hle : o.width ≤ 8) (hl : m.location? o = some l)
    (harch : m'.arch = m.arch) : (m'.contents l o.width).toNat < 2 ^ (8 * o.width) := by
  have ho' : o.IsPlace m'.arch := harch ▸ ho
  exact toNat_contents_lt ho'.hasLocation hle hl

/-- Nothing has changed but a value of `width` bytes in the location, the flags and the instruction pointer, as far as
instructions see. -/
structure Touched (l : Location) (width : Nat) (m m' : Machine) : Prop where
  register : ∀ name, isInstructionPointer name = false → ¬ m.arch.namesFlags name → ¬ l.Meets m.arch name →
    m'.registers.getWide name = m.registers.getWide name
  byte : ∀ x, ¬ l.Covers width x → m'.memory.byte x = m.memory.byte x
  arch : m'.arch = m.arch
  listing : m'.listing = m.listing

namespace Touched

variable (h : Touched l width m m')
include h

/-- A value that lies elsewhere stays. -/
theorem contents (hl : l'.IsGeneral m.arch) (hmiss : l.Misses m.arch width l' width') :
    m'.contents l' width' = m.contents l' width' := by
  cases l' with
  | register name => exact registerOrZero_of_getWide (h.register name hl.name.1 hl.name.2 hmiss)
  | memory x =>
    have hread : m'.memory.read x (min width' 8) = m.memory.read x (min width' 8) :=
      Memory.read_congr fun n hn => h.byte _ (hmiss n (Nat.lt_of_lt_of_le hn (Nat.min_le_left _ _)))
    show m'.memory.readWord x width' = m.memory.readWord x width'
    rw [Memory.readWord, hread, Memory.readWord]

/-- An address that nothing written is part of stays, with control at the same instruction. -/
theorem referenceAddress {r : MemoryReference} (next : Address)
    (hr : ∀ name, r.base = some name ∨ r.index = some name → ¬ m.arch.namesFlags name ∧ ¬ l.Meets m.arch name) :
    (m'.withIp next).referenceAddress r = (m.withIp next).referenceAddress r := by
  refine referenceAddress_congr h.arch fun name hname => registerOrZero_of_getWide ?_
  obtain ⟨hflags, hmeets⟩ := hr name hname
  cases hip : isInstructionPointer name with
  | true => exact Registers.getWide_withIp_of_instructionPointer h.arch hip next
  | false =>
    exact (Registers.getWide_withIp hip next).trans
      ((h.register name hip hflags hmeets).trans (Registers.getWide_withIp hip next).symm)

theorem location? (next : Address)
    (ho : ∀ name ∈ o.addressNames, ¬ m.arch.namesFlags name ∧ ¬ l.Meets m.arch name) :
    (m'.withIp next).location? o = (m.withIp next).location? o := by
  unfold Machine.location?
  split
  · rfl
  · rename_i r hkind
    rw [h.referenceAddress next fun name hname => ho name ((Operand.mem_addressNames hkind).2 hname)]
  · rfl

end Touched

/-! ## The end of an instruction -/

theorem location?_prepare (m : Machine) (a : Address) (i : Instruction) (o : Operand) :
    (m.prepare a i).location? o = (m.withIp i.next).location? o := by
  obtain ⟨known, frame, hprepare⟩ := m.prepare_eq a i
  rw [hprepare]
  rfl

theorem contents_prepare (hl : l.IsGeneral m.arch) (a : Address) (i : Instruction) (width : Nat) :
    (m.prepare a i).contents l width = m.contents l width := by
  cases l with
  | register name => exact registerOrZero_of_getWide (getWide_prepare hl.name.1 a i)
  | memory x =>
    show (m.prepare a i).memory.readWord x width = _
    rw [memory_prepare]
    rfl

/-- An operand's value is what its location holds before the instruction. -/
theorem operandValue_prepare_eq_contents (ho : o.IsPlace m.arch) (hl : (m.withIp i.next).location? o = some l)
    (a : Address) : (m.prepare a i).operandValue o = m.contents l o.width := by
  have ho' : o.IsPlace (m.prepare a i).arch := (m.arch_prepare a i).symm ▸ ho
  have hgeneral : l.IsGeneral m.arch := isGeneral_of_location? (m := m.withIp i.next) ho hl
  rw [operandValue_eq_contents ho'.hasLocation ((m.location?_prepare a i o).trans hl), contents_prepare hgeneral]

theorem location?_withFlags (m : Machine) (fs : List (Flag × Bool))
    (ho : ∀ name ∈ o.addressNames, ¬ m.arch.namesFlags name) :
    (m.withRegisters (m.registers.withFlags fs)).location? o = m.location? o := by
  unfold location?
  split
  · rfl
  · rename_i r hkind
    rw [m.referenceAddress_withFlags fs fun name hname => ho name ((Operand.mem_addressNames hkind).2 hname)]
  · rfl

/-- No flag is part of a general register. -/
theorem not_meets_label (hl : l.IsGeneral m.arch) (f : Flag) : ¬ l.Meets m.arch f.label := by
  cases l with
  | register name =>
    obtain ⟨g, hg, hlt⟩ := hl
    have hlabel : m.arch.layout.field? (Text.lowercase f.label) = some (f.field m.arch) := by
      rw [f.lowercase_label, f.field?_label]
    exact Arch.not_overlap_of_store_ne hg hlabel (Registers.store_flag_ne (r := m.registers) hlt f)
  | memory x => exact fun hmeets => hmeets

/-- A store in a place, after flags were set or not, changes nothing besides. -/
theorem store_touched (hplace : o.IsPlace m.arch) (hflags : ∀ name ∈ o.addressNames, ¬ m.arch.namesFlags name)
    (hl : (m.withIp i.next).location? o = some l) (a : Address) (fs : List (Flag × Bool)) (v : UInt64) :
    let r := (m.prepare a i).registers.withFlags fs
    ∃ m', Exec.store o v ((m.prepare a i).withRegisters r) = .ok () m' ∧ Touched l o.width m m' ∧
      (∀ f, m'.registers.flag f = r.flag f) ∧
      (o.width ≤ 8 → (m'.contents l o.width).toNat = v.toNat % 2 ^ (8 * o.width)) := by
  intro r
  let p := m.prepare a i
  let q := p.withRegisters r
  have harchp : p.arch = m.arch := m.arch_prepare a i
  have harch : q.arch = m.arch := (p.registers.arch_withFlags fs).trans harchp
  have hgeneral : l.IsGeneral m.arch := isGeneral_of_location? (m := m.withIp i.next) hplace hl
  have hlq : q.location? o = some l := by
    rw [p.location?_withFlags fs fun name hname => harchp ▸ hflags name hname, m.location?_prepare, hl]
  have hplaceq : o.IsPlace q.arch := harch ▸ hplace
  have hregister : ∀ name, isInstructionPointer name = false → ¬ m.arch.namesFlags name →
      q.registers.getWide name = m.registers.getWide name := by
    intro name hip hname
    have hname : ¬ p.arch.namesFlags name := harchp ▸ hname
    exact (Registers.getWide_withFlags hname fs).trans (getWide_prepare hip a i)
  have hmemory : q.memory = m.memory := m.memory_prepare a i
  have hlisting : q.listing = m.listing := m.listing_prepare a i
  rcases store_cases hplaceq.hasLocation hlq v with ⟨name, r', rfl, hstore, hassigned⟩ | ⟨b, rfl, hstore⟩
  · refine ⟨_, hstore, ⟨fun other hip hname hmeets => ?_, fun x _ => ?_, hassigned.arch.trans harch, hlisting⟩,
      fun f => ?_, fun _ => hassigned.toNat_contents⟩
    · exact (hassigned.register other (harch ▸ hmeets)).trans (hregister other hip hname)
    · exact congrArg (·.byte x) hmemory
    · exact Registers.flag_of_getWide (hassigned.register f.label (harch ▸ not_meets_label hgeneral f))
  · refine ⟨_, hstore, ⟨fun other hip hname _ => hregister other hip hname, fun x hx => ?_, harch, hlisting⟩,
      fun _ => rfl, fun hle => q.memory.toNat_readWord_writeWord b v hle⟩
    exact (q.byte_writeWord v hx).trans (congrArg (·.byte x) hmemory)

end Machine
end PathReplay
