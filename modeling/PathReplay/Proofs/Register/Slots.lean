import PathReplay.Proofs.Register.Aliasing

/-!
# Registers that overlap

* `Field.Overlaps` : two windows have a bit in common;
* `Slot`, `Arch.slot?` : the window of an integer register, in a store of the processor or in a word of the floating
  point unit; `Registers.getWide_of_slot?`, `Registers.set_of_slot?` : a register is read and written there;
* `Slot.eq_of_overlaps` : two registers of one width that overlap have the same window;
* `Registers.readSlot_writeSlot_self`, `Registers.getWide_writeSlot` : what was written is read back, and a register
  that does not overlap the one written keeps its contents; `flag_of_getWide` : so does a flag, by the name of its bit.
-/

namespace PathReplay

namespace Field

variable {n : Nat}

/-- Two windows have a bit in common. -/
def Overlaps (f g : Field n) : Prop :=
  f.store = g.store ∧ f.offset < g.offset + g.bits ∧ g.offset < f.offset + f.bits

instance (f g : Field n) : Decidable (f.Overlaps g) := inferInstanceAs (Decidable (_ ∧ _))

/-- A window keeps its contents when one that it does not overlap is written, if that does not clear it. -/
theorem read_write_of_not_overlaps {f g : Field n} (hfit : g.offset + g.bits ≤ 128)
    (hclears : f.zeroExtends = true → f.store = g.store → f.Overlaps g) (h : ¬ f.Overlaps g) (s : Stores n)
    (v : BitVec 128) : g.read (f.write s v) = g.read s := by
  refine read_write_of_disjoint hfit ?_ s v
  by_cases hstore : f.store = g.store
  · have hkeeps : f.zeroExtends = false := Bool.eq_false_iff.2 fun hz => h (hclears hz hstore)
    refine .inr ⟨hkeeps, ?_⟩
    rw [Overlaps] at h
    omega
  · exact .inl hstore

end Field

namespace Layout

variable {n : Nat}

/-- Windows of one width that overlap are the same. -/
def SameIfOverlapping (l : Layout n) : Prop :=
  ∀ e ∈ l.fields, ∀ e' ∈ l.fields, e.2.bits = e'.2.bits → e.2.Overlaps e'.2 → e.2 = e'.2

/-- A window that clears the rest of its store overlaps every window of it. -/
def ClearsOverlapping (l : Layout n) : Prop :=
  ∀ e ∈ l.fields, e.2.zeroExtends = true → ∀ e' ∈ l.fields, e.2.store = e'.2.store → e.2.Overlaps e'.2

instance (l : Layout n) : Decidable l.SameIfOverlapping :=
  inferInstanceAs (Decidable (∀ e ∈ l.fields, ∀ e' ∈ l.fields, _ → _ → _))

/-- Two windows of one width that overlap begin at one multiple of it. -/
theorem sameIfOverlapping (arch : Arch) : arch.layout.SameIfOverlapping := by
  rintro ⟨p, f⟩ hf ⟨q, g⟩ hg hbits ⟨hstore, hlow, hhigh⟩
  obtain ⟨⟨j, hj⟩, -, -, hextends⟩ := window_of_mem_fields arch _ hf
  obtain ⟨⟨k, hk⟩, -, -, hextends'⟩ := window_of_mem_fields arch _ hg
  dsimp only at *
  have hoffset : f.offset = g.offset := by
    rw [hj, hk, ← hbits, ← Nat.mul_succ] at hlow hhigh
    have hle : j ≤ k := Nat.lt_succ_iff.1 (Nat.lt_of_mul_lt_mul_left hlow)
    have hge : k ≤ j := Nat.lt_succ_iff.1 (Nat.lt_of_mul_lt_mul_left hhigh)
    rw [hj, hk, ← hbits, Nat.le_antisymm hle hge]
  have hclears : f.zeroExtends = g.zeroExtends := by
    rw [Bool.eq_iff_iff, hextends, hextends', hbits, hstore]
  cases f
  cases g
  rw [Field.mk.injEq]
  exact ⟨hstore, hoffset, hbits, hclears⟩

/-- A window that clears the rest of its store reaches from bit 0 to bit 32, below which every window begins. -/
theorem clearsOverlapping (arch : Arch) : arch.layout.ClearsOverlapping := by
  intro e he hclears e' he' hstore
  obtain ⟨haligned, hbelow, -, hextends⟩ := window_of_mem_fields arch e he
  obtain ⟨-, hbits, -⟩ := hextends.1 hclears
  obtain ⟨-, hbelow', -, -⟩ := window_of_mem_fields arch e' he'
  have hpos := (field_fits arch e' he').1
  rw [hbits] at haligned
  have hoffset : e.2.offset = 0 := Nat.eq_zero_of_dvd_of_lt haligned hbelow
  exact ⟨hstore, by omega, by omega⟩

theorem sameIfOverlapping_floatWords : floatWords.SameIfOverlapping := by decide +kernel

theorem floatWords_narrow : ∀ e ∈ floatWords.fields, e.2.offset + e.2.bits ≤ 16 ∧ e.2.zeroExtends = false := by
  decide +kernel

end Layout

/-- The window of an integer register: in a store of the processor, or in a word of the floating point unit. -/
inductive Slot (arch : Arch) where
  | integer (f : Field arch.stores)
  | float (f : Field 3)

/-- The window of a register's name, in any case. Positions of the floating point stack have none. -/
def Arch.slot? (arch : Arch) (name : String) : Option (Slot arch) :=
  match arch.layout.field? (Text.lowercase name) with
  | some f => some (.integer f)
  | none =>
    if (FloatStack.position? (Text.lowercase name)).isSome then none
    else (Layout.floatWords.field? (Text.lowercase name)).map .float

theorem Arch.slot?_of_field? {arch : Arch} {name : String} {f : Field arch.stores}
    (h : arch.layout.field? (Text.lowercase name) = some f) : arch.slot? name = some (.integer f) := by
  rw [slot?, h]

namespace Slot

variable {arch : Arch} {s t : Slot arch}

def bits : Slot arch → Nat
  | integer f => f.bits
  | float f => f.bits

def Overlaps : Slot arch → Slot arch → Prop
  | integer f, integer g => f.Overlaps g
  | float f, float g => f.Overlaps g
  | _, _ => False

/-- A window that a name has is one of the tables. -/
theorem mem_fields_of_slot? {name : String} (h : arch.slot? name = some s) :
    match s with
    | integer f => (Text.lowercase name, f) ∈ arch.layout.fields
    | float f => (Text.lowercase name, f) ∈ Layout.floatWords.fields := by
  unfold Arch.slot? at h
  split at h
  · rename_i f hf
    obtain rfl := Option.some_inj.1 h
    exact Layout.mem_fields_of_field? hf
  · split at h
    · cases h
    · obtain ⟨f, hf, rfl⟩ := Option.map_eq_some_iff.1 h
      exact Layout.mem_fields_of_field? hf

/-- Two registers of one width that overlap have the same window. -/
theorem eq_of_overlaps {p q : String} (hs : arch.slot? p = some s) (ht : arch.slot? q = some t)
    (hbits : s.bits = t.bits) (h : s.Overlaps t) : s = t := by
  have hs := mem_fields_of_slot? hs
  have ht := mem_fields_of_slot? ht
  cases s with
  | integer f =>
    cases t with
    | integer g => exact congrArg integer (Layout.sameIfOverlapping arch _ hs _ ht hbits h)
    | float g => cases h
  | float f =>
    cases t with
    | integer g => cases h
    | float g => exact congrArg float (Layout.sameIfOverlapping_floatWords _ hs _ ht hbits h)

end Slot

/-- Two names whose windows have a bit in common, as those of a register and of a part of it have. -/
def Arch.Overlap (arch : Arch) (p q : String) : Prop :=
  ∃ s t, arch.slot? p = some s ∧ arch.slot? q = some t ∧ s.Overlaps t

theorem Flag.lowercase_label (f : Flag) : Text.lowercase f.label = f.label := by cases f <;> decide +kernel

/-- Registers in different stores do not overlap. -/
theorem Arch.not_overlap_of_store_ne {arch : Arch} {p q : String} {f g : Field arch.stores}
    (hf : arch.layout.field? (Text.lowercase p) = some f) (hg : arch.layout.field? (Text.lowercase q) = some g)
    (h : g.store ≠ f.store) : ¬ arch.Overlap p q := by
  rintro ⟨s, t, hs, ht, hover⟩
  obtain rfl := Option.some_inj.1 ((slot?_of_field? hf).symm.trans hs)
  obtain rfl := Option.some_inj.1 ((slot?_of_field? hg).symm.trans ht)
  exact h hover.1.symm

namespace Registers

variable {r : Registers} {p q : String}

def readSlot (r : Registers) : Slot r.arch → BitVec 128
  | .integer f => r.readField f
  | .float f => f.read r.float.words

def writeSlot (r : Registers) (s : Slot r.arch) (v : BitVec 128) : Registers where
  arch := r.arch
  stores := match s with
    | .integer f => f.write r.stores v
    | .float _ => r.stores
  float := match s with
    | .integer _ => r.float
    | .float f => r.float.withField f v

theorem data_writeSlot (r : Registers) (s : Slot r.arch) (v : BitVec 128) :
    (r.writeSlot s v).float.data = r.float.data := by
  cases s <;> rfl

theorem toNat_readSlot_lt (r : Registers) (s : Slot r.arch) : (r.readSlot s).toNat < 2 ^ s.bits := by
  cases s with
  | integer f => exact r.toNat_readField_lt f
  | float f =>
    show (f.read r.float.words).toNat < 2 ^ f.bits
    rw [Field.toNat_read]
    exact Nat.mod_lt _ (Nat.two_pow_pos _)

theorem getWide_of_slot? {s : Slot r.arch} (h : r.arch.slot? p = some s) : r.getWide p = .ok (r.readSlot s) := by
  have hmem := Slot.mem_fields_of_slot? h
  unfold Arch.slot? at h
  rw [getWide, field?]
  split at h
  · rename_i f hf
    obtain rfl := Option.some_inj.1 h
    rw [hf]
    rfl
  · rename_i hnone
    rw [hnone]
    split at h
    · cases h
    · rename_i hposition
      obtain ⟨f, hf, rfl⟩ := Option.map_eq_some_iff.1 h
      have hbits : f.offset + f.bits ≤ 16 := (Layout.floatWords_narrow _ hmem).1
      have hlt : (f.read r.float.words).toNat < 2 ^ 64 :=
        Nat.lt_of_lt_of_le (r.toNat_readSlot_lt (.float f)) (Nat.pow_le_pow_right (by decide) (by omega : f.bits ≤ 64))
      dsimp only
      rw [if_neg hposition, FloatStack.word?, hf]
      refine congrArg Except.ok (BitVec.eq_of_toNat_eq ?_)
      rw [BitVec.toNat_setWidth, UInt64.toNat_toBitVec, UInt64.toNat_ofNat', Nat.mod_eq_of_lt hlt,
        Nat.mod_eq_of_lt (BitVec.isLt _)]
      rfl

theorem getWide_of_slot?_eq_none (h : r.arch.slot? p = none) :
    r.getWide p = .error (if (FloatStack.position? (Text.lowercase p)).isSome then .floatRegister (Text.lowercase p)
      else .unknownRegister (Text.lowercase p)) := by
  unfold Arch.slot? at h
  rw [getWide, field?]
  split at h
  · cases h
  · rename_i hnone
    rw [hnone]
    dsimp only
    split at h
    · rename_i hposition
      rw [if_pos hposition, if_pos hposition]
    · rename_i hposition
      rw [if_neg hposition, if_neg hposition, FloatStack.word?, Option.map_eq_none_iff.1 h]
      rfl

theorem get_of_slot? {s : Slot r.arch} (h : r.arch.slot? p = some s) :
    r.get p = .ok (UInt64.ofNat (r.readSlot s).toNat) := by
  rw [get, getWide_of_slot? h]
  rfl

theorem set_of_slot? {s : Slot r.arch} (h : r.arch.slot? p = some s) (v : UInt64) :
    r.set p v = .ok (r.writeSlot s (v.toBitVec.setWidth 128)) := by
  unfold Arch.slot? at h
  rw [set, setWide, field?]
  split at h
  · rename_i f hf
    obtain rfl := Option.some_inj.1 h
    rw [hf]
    rfl
  · rename_i hnone
    rw [hnone]
    split at h
    · cases h
    · rename_i hposition
      obtain ⟨f, hf, rfl⟩ := Option.map_eq_some_iff.1 h
      dsimp only
      have hword : UInt64.ofNat (v.toBitVec.setWidth 128).toNat = v := by
        apply UInt64.toNat_inj.1
        rw [UInt64.toNat_ofNat', BitVec.toNat_setWidth, UInt64.toNat_toBitVec]
        have := v.toNat_lt
        omega
      rw [if_neg hposition, FloatStack.setWord, hf, hword]
      rfl

/-- What was written is read back, cut to the width. -/
theorem readSlot_writeSlot_self {s : Slot r.arch} (h : r.arch.slot? p = some s) (v : BitVec 128) :
    (r.writeSlot s v).readSlot s = v &&& Word.maskBits s.bits := by
  have hmem := Slot.mem_fields_of_slot? h
  cases s with
  | integer f => exact Field.read_write_self (Layout.field_fits r.arch _ hmem).2 r.stores v
  | float f =>
    have hnarrow : f.offset + f.bits ≤ 16 := (Layout.floatWords_narrow _ hmem).1
    exact Field.read_write_self (by omega) r.float.words v

theorem toNat_readSlot_writeSlot {s : Slot r.arch} (h : r.arch.slot? p = some s) (v : UInt64) :
    ((r.writeSlot s (v.toBitVec.setWidth 128)).readSlot s).toNat = v.toNat % 2 ^ s.bits := by
  have hlt : v.toNat < 2 ^ 128 := Nat.lt_trans v.toNat_lt (by decide)
  rw [readSlot_writeSlot_self h, Word.toNat_and_maskBits, BitVec.toNat_setWidth, UInt64.toNat_toBitVec,
    Nat.mod_eq_of_lt hlt]

/-- A register that does not overlap the one that is written keeps its contents. -/
theorem getWide_writeSlot {s : Slot r.arch} (hs : r.arch.slot? p = some s) (h : ¬ r.arch.Overlap p q) (v : BitVec 128) :
    (r.writeSlot s v).getWide q = r.getWide q := by
  have hmem := Slot.mem_fields_of_slot? hs
  -- a window that does not overlap the other lies elsewhere, and that one does not clear it
  have hread : ∀ g, r.arch.slot? q = some g → (r.writeSlot s v).readSlot g = r.readSlot g := by
    intro g hg
    have hmem' := Slot.mem_fields_of_slot? hg
    have hnot : ¬ s.Overlaps g := fun ho => h ⟨s, g, hs, hg, ho⟩
    cases s with
    | integer f =>
      cases g with
      | integer g =>
        have hfit := (Layout.field_fits r.arch _ hmem').2
        exact Field.read_write_of_not_overlaps hfit (fun hz => Layout.clearsOverlapping r.arch _ hmem hz _ hmem') hnot
          r.stores v
      | float g => rfl
    | float f =>
      cases g with
      | integer g => rfl
      | float g =>
        have hfit : g.offset + g.bits ≤ 128 := Nat.le_trans (Layout.floatWords_narrow _ hmem').1 (by decide)
        have hkeeps := (Layout.floatWords_narrow _ hmem).2
        exact Field.read_write_of_not_overlaps hfit (fun hz => absurd (hz.symm.trans hkeeps) (by decide)) hnot
          r.float.words v
  cases hq : r.arch.slot? q with
  | none => rw [getWide_of_slot?_eq_none hq, getWide_of_slot?_eq_none (r := r.writeSlot s v) hq]
  | some g => rw [getWide_of_slot? hq, getWide_of_slot? (r := r.writeSlot s v) hq, hread g hq]

/-- A flag is what its bit holds. -/
theorem flag_of_getWide {r r' : Registers} {f : Flag} (h : r'.getWide f.label = r.getWide f.label) :
    r'.flag f = r.flag f := by
  have hread : ∀ r : Registers, r.getWide f.label = .ok (r.readField (f.field r.arch)) := fun r =>
    getWide_of_field? (f.lowercase_label.symm ▸ f.field?_label r.arch)
  rw [hread, hread] at h
  rw [flag, flag, Except.ok.inj h]

end Registers
end PathReplay
