import Mathlib.Data.List.Sort
import PathReplay.Proofs.Register.Windows

/-!
# Registers that share a store

* `Field.getLsbD_read_write`, `Field.read_write_of_disjoint` : every bit of a window after a write to another one;
  `Field.read_congr_of_within` : what a window holds decides what the windows in it hold;
* `Layout.exists_widest`, `Layout.zeroExtends_iff` : each store has a window that all its windows lie in, and the
  windows that clear the rest of their store are the 32-bit names of the 64-bit general registers;
* `Registers.Op`, `Registers.run` : writes to registers by name, to flags and to the two pointers;
* `Registers.Confined` : no bit is set outside the windows of a store; `Confined.run` : none is after any run;
* `Registers.aliasing_run` : what every register holds after a write to any register.
-/

namespace PathReplay

namespace Field

variable {n : Nat} {f g : Field n}

theorem getLsbD_write (f : Field n) (s : Stores n) (v : BitVec 128) (i : Fin n) {k : Nat} (hk : k < 128) :
    (f.write s v)[i].getLsbD k =
      if f.store ≠ i then s[i].getLsbD k
      else if f.offset ≤ k ∧ k < f.offset + f.bits then v.getLsbD (k - f.offset)
      else !f.zeroExtends && s[i].getLsbD k := by
  by_cases hstore : f.store = i
  · subst hstore
    rw [getElem_write_self, getLsbD_put _ _ _ _ hk, if_neg (not_not_intro rfl)]
  · rw [getElem_write_ne f s v (Ne.symm hstore), if_pos hstore]

/-- A bit of the window `g` after a write to the window `f` is a bit of the value where the two overlap. Elsewhere
it is cleared or kept. -/
theorem getLsbD_read_write (hfit : g.offset + g.bits ≤ 128) (s : Stores n) (v : BitVec 128) (j : Nat) :
    (g.read (f.write s v)).getLsbD j = (decide (j < g.bits) &&
      if f.store ≠ g.store then (g.read s).getLsbD j
      else if f.offset ≤ g.offset + j ∧ g.offset + j < f.offset + f.bits then v.getLsbD (g.offset + j - f.offset)
      else if f.zeroExtends then false
      else (g.read s).getLsbD j) := by
  rw [getLsbD_read, getLsbD_read]
  by_cases hj : j < g.bits
  · rw [getLsbD_write f s v g.store (by omega)]
    cases f.zeroExtends <;> simp [hj]
  · simp [hj]

/-- Windows of one store hold the same if a window that they lie in holds the same. -/
theorem read_congr_of_within (hstore : f.store = g.store) (hlow : g.offset ≤ f.offset)
    (hhigh : f.offset + f.bits ≤ g.offset + g.bits) {s t : Stores n} (h : g.read s = g.read t) :
    f.read s = f.read t := by
  apply BitVec.eq_of_getLsbD_eq
  intro j _
  rw [getLsbD_read, getLsbD_read]
  by_cases hj : j < f.bits
  · have hbit := congrArg (fun v => v.getLsbD (f.offset + j - g.offset)) h
    simp only [getLsbD_read, decide_eq_true (show f.offset + j - g.offset < g.bits by omega), Bool.true_and,
      show g.offset + (f.offset + j - g.offset) = f.offset + j by omega] at hbit
    simp only [hstore, hbit]
  · simp only [hj, decide_false, Bool.false_and]

/-- A window keeps its contents when one that does not overlap it is written, unless that clears its store. -/
theorem read_write_of_disjoint (hfit : g.offset + g.bits ≤ 128)
    (h : f.store ≠ g.store ∨ f.zeroExtends = false ∧
      (f.offset + f.bits ≤ g.offset ∨ g.offset + g.bits ≤ f.offset)) (s : Stores n) (v : BitVec 128) :
    g.read (f.write s v) = g.read s := by
  rcases h with hstore | ⟨hextends, hapart⟩
  · exact read_write_of_ne hstore.symm s v
  · apply BitVec.eq_of_getLsbD_eq
    intro j hj
    rw [getLsbD_read, getLsbD_read]
    by_cases hwithin : j < g.bits
    · rw [getLsbD_write f s v g.store (by omega), if_neg (show ¬ (f.offset ≤ _ ∧ _) by omega), hextends, Bool.not_false,
        Bool.true_and, ite_self]
    · rw [decide_eq_false hwithin, Bool.false_and, Bool.false_and]

theorem and_maskBits (v : BitVec 128) (bits : Nat) :
    v &&& Word.maskBits bits = (v.setWidth bits).setWidth 128 := by
  apply BitVec.eq_of_getLsbD_eq
  intro j hj
  rw [BitVec.getLsbD_and, getLsbD_maskBits, BitVec.getLsbD_setWidth, BitVec.getLsbD_setWidth]
  cases v.getLsbD j <;> simp [hj]

end Field

/-! ## The tables -/

/-- A string without a letter from `A` to `Z` stays. -/
theorem Text.lowercase_eq_self {s : String} (h : ∀ c ∈ s.toList, c < 'A' ∨ 'Z' < c) : lowercase s = s := by
  apply String.toList_inj.1
  rw [lowercase, String.toList_map]
  refine List.map_congr_left (fun c hc => ?_) |>.trans (List.map_id' _)
  refine dif_neg fun ⟨hlow, hhigh⟩ => ?_
  exact (h c hc).elim (Nat.not_lt.2 hlow) (Nat.not_lt.2 hhigh)

/-- The width of the register that owns a store. -/
def Arch.storeBits : (arch : Arch) → Fin arch.stores → Nat
  | .x86, s => if s.val < 10 then 32 else if s.val < 16 then 16 else 128
  | .x86_64, s => if s.val < 18 then 64 else if s.val < 24 then 16 else 128

namespace Layout

variable {n : Nat} {name : String}

/-- The bytes of a name, as one number. -/
def code (name : String) : Nat := name.toByteArray.data.toList.foldl (fun k b => 256 * k + b.toNat) 0

/-- Names whose numbers are in order without a repetition once they are sorted differ. -/
theorem nodup_of_isChain {names : List String}
    (h : List.IsChain (· < ·) ((names.map code).insertionSort (· ≤ ·))) : names.Nodup := by
  refine List.Nodup.of_map code ?_
  rw [← (List.perm_insertionSort (· ≤ ·) (names.map code)).nodup_iff]
  exact (List.isChain_iff_pairwise.1 h).imp Nat.ne_of_lt

theorem names_nodup : ∀ arch : Arch, arch.layout.names.Nodup
  | .x86 => nodup_of_isChain (by decide +kernel)
  | .x86_64 => nodup_of_isChain (by decide +kernel)

/-- No name is given twice, so each has the window that the table lists it with. -/
theorem field?_of_mem_fields {arch : Arch} {f : Field arch.stores} (h : (name, f) ∈ arch.layout.fields) :
    arch.layout.field? name = some f := by
  obtain ⟨front, back, hfields⟩ := List.append_of_mem h
  have hnodup := names_nodup arch
  rw [names, hfields, List.map_append, List.nodup_append] at hnodup
  refine List.lookup_eq_some_iff.2 ⟨front, back, hfields, fun e he => ?_⟩
  have hne := hnodup.2.2 e.1 (List.mem_map_of_mem he) name (by simp)
  simpa using Ne.symm hne

/-- Every window of a store lies in this one. -/
def IsWidest (l : Layout n) (g : Field n) : Prop :=
  ∀ e ∈ l.fields, e.2.store = g.store → g.offset ≤ e.2.offset ∧ e.2.offset + e.2.bits ≤ g.offset + g.bits

instance (l : Layout n) (g : Field n) : Decidable (l.IsWidest g) :=
  inferInstanceAs (Decidable (∀ e ∈ l.fields, _ → _))

/-- Every window begins at a multiple of its width, below bit 32, and lies in the register that owns its store. Those
that clear the rest of their store are the 32-bit names of the registers before the flags. -/
theorem window_of_mem_fields : ∀ arch : Arch, ∀ e ∈ arch.layout.fields,
    e.2.bits ∣ e.2.offset ∧ e.2.offset < 32 ∧ e.2.offset + e.2.bits ≤ arch.storeBits e.2.store ∧
    (e.2.zeroExtends = true ↔ arch = .x86_64 ∧ e.2.bits = 32 ∧ e.2.store < (Flag.carry.field arch).store)
  | .x86 => by decide +kernel
  | .x86_64 => by decide +kernel

theorem mem_owners : ∀ (arch : Arch) (s : Fin arch.stores),
    s ∈ (arch.layout.fields.filter fun e => e.2.offset == 0 && e.2.bits == arch.storeBits e.2.store).map (·.2.store)
  | .x86 => by decide +kernel
  | .x86_64 => by decide +kernel

theorem exists_widest (arch : Arch) (s : Fin arch.stores) :
    ∃ e ∈ arch.layout.fields, e.2.store = s ∧ arch.layout.IsWidest e.2 := by
  obtain ⟨e, he, rfl⟩ := List.mem_map.1 (mem_owners arch s)
  rw [List.mem_filter, Bool.and_eq_true, beq_iff_eq, beq_iff_eq] at he
  obtain ⟨hmem, hoffset, hbits⟩ := he
  refine ⟨e, hmem, rfl, fun e' hmem' hstore => ?_⟩
  have hwithin := (window_of_mem_fields arch e' hmem').2.2.1
  rw [hstore] at hwithin
  omega

theorem zeroExtends_of_mem_fields : ∀ arch : Arch, ∀ e ∈ arch.layout.fields,
    (e.2.zeroExtends = true ↔ arch = .x86_64 ∧ e.2.bits = 32 ∧ e.1 ≠ "eflags")
  | .x86 => by decide +kernel
  | .x86_64 => by decide +kernel

theorem no_capital_of_mem_fields : ∀ arch : Arch, ∀ e ∈ arch.layout.fields,
    e.1.toList.all fun c => decide (c < 'A') || decide ('Z' < c)
  | .x86 => by decide +kernel
  | .x86_64 => by decide +kernel

theorem lowercase_of_mem_fields (arch : Arch) (e : String × Field arch.stores) (he : e ∈ arch.layout.fields) :
    Text.lowercase e.1 = e.1 := by
  refine Text.lowercase_eq_self fun c hc => ?_
  simpa using List.all_eq_true.1 (no_capital_of_mem_fields arch e he) c hc

theorem zeroExtends_iff {arch : Arch} {f : Field arch.stores} (h : arch.layout.field? name = some f) :
    f.zeroExtends = true ↔ arch = .x86_64 ∧ f.bits = 32 ∧ name ≠ "eflags" :=
  zeroExtends_of_mem_fields arch (name, f) (mem_fields_of_field? h)

theorem fits_of_field? {arch : Arch} {f : Field arch.stores} (h : arch.layout.field? name = some f) :
    f.offset + f.bits ≤ 128 :=
  (field_fits arch (name, f) (mem_fields_of_field? h)).2

end Layout

namespace Registers

variable {r : Registers}

/-! ## Runs -/

/-- A write to registers: to one by its name, to a bit by its name, to one of the two pointers. -/
inductive Op where
  | set (name : String) (value : UInt64)
  | setWide (name : String) (value : BitVec 128)
  | setBit (name : String) (value : Bool)
  | setIp (a : Address)
  | setSp (a : Address)

/-- The registers after a write. One that is refused changes nothing. -/
def step (r : Registers) : Op → Registers
  | .set name value => (r.set name value).toOption.getD r
  | .setWide name value => (r.setWide name value).toOption.getD r
  | .setBit name value => r.withBit name value
  | .setIp a => r.withIp a
  | .setSp a => r.withSp a

def run (r : Registers) (ops : List Op) : Registers := ops.foldl step r

/-- A write reaches one window of the layout, or no store at all. -/
theorem step_cases (r : Registers) (op : Op) :
    (∃ name f v, r.field? name = some f ∧ r.step op = r.writeField f v) ∨ ∃ float, r.step op = { r with float } := by
  -- a write by name may also be one to a word of the floating point unit
  have hwide : ∀ p v, (∃ name f w, r.field? name = some f ∧ (r.setWide p v).toOption.getD r = r.writeField f w) ∨
      ∃ float, (r.setWide p v).toOption.getD r = { r with float } := by
    intro p v
    rw [setWide]
    cases hfield : r.field? (Text.lowercase p) with
    | some f => exact .inl ⟨_, f, v, hfield, rfl⟩
    | none =>
      refine .inr ?_
      dsimp only
      split
      · exact ⟨r.float, rfl⟩
      · cases r.float.setWord (Text.lowercase p) (UInt64.ofNat v.toNat) with
        | ok s => exact ⟨s, rfl⟩
        | error e => exact ⟨r.float, rfl⟩
  cases op with
  | set name value => exact hwide name _
  | setWide name value => exact hwide name value
  | setBit name value =>
    simp only [step, withBit]
    cases hfield : r.field? name with
    | some f => exact .inl ⟨name, f, _, hfield, rfl⟩
    | none => exact .inr ⟨r.float, rfl⟩
  | setIp a => exact .inl ⟨_, _, _, Arch.field?_instructionPointer r.arch, rfl⟩
  | setSp a => exact .inl ⟨_, _, _, Arch.field?_stackPointer r.arch, rfl⟩

theorem arch_step (r : Registers) (op : Op) : (r.step op).arch = r.arch := by
  rcases r.step_cases op with ⟨name, f, v, -, heq⟩ | ⟨float, heq⟩ <;> rw [heq]
  rfl

theorem arch_run (r : Registers) (ops : List Op) : (r.run ops).arch = r.arch := by
  induction ops generalizing r with
  | nil => rfl
  | cons op ops ih => exact (ih _).trans (r.arch_step op)

/-! ## Bits without a name -/

/-- No bit is set outside a window that holds every window of its store. -/
def Confined (r : Registers) : Prop :=
  ∀ g, r.arch.layout.IsWidest g → ∀ k, r.stores[g.store].getLsbD k = true → g.offset ≤ k ∧ k < g.offset + g.bits

theorem confined_initial (arch : Arch) : Confined (initial arch) := by
  intro g _ k hk
  have hzero : (initial arch).stores[g.store] = 0 := Vector.getElem_replicate ..
  rw [hzero] at hk
  simp at hk

theorem Confined.writeField (hr : Confined r) {name : String} {f : Field r.arch.stores} (hf : r.field? name = some f)
    (v : BitVec 128) : Confined (r.writeField f v) := by
  intro g hg k hk
  have hbit := hk.symm.trans (Field.getLsbD_write f r.stores v g.store (BitVec.lt_of_getLsbD hk))
  split at hbit
  · exact hr g hg k hbit.symm
  · rename_i hstore
    have hin := hg _ (Layout.mem_fields_of_field? hf) (Classical.not_not.1 hstore)
    dsimp only at hin
    split at hbit
    · omega
    -- outside the window a write clears or keeps, so a bit that is set was set before
    · exact hr g hg k (Bool.and_eq_true_iff.1 hbit.symm).2

theorem Confined.step (hr : Confined r) (op : Op) : Confined (r.step op) := by
  rcases r.step_cases op with ⟨name, f, v, hf, heq⟩ | ⟨float, heq⟩ <;> rw [heq]
  · exact hr.writeField hf v
  · exact hr

theorem Confined.run (hr : Confined r) (ops : List Op) : Confined (r.run ops) := by
  induction ops generalizing r with
  | nil => exact hr
  | cons op ops ih => exact ih (hr.step op)

/-! ## Aliases -/

/-- Every register after a write to any register, in every register file that writes lead to. Where the two windows
overlap, the bits are those of the value. Elsewhere in the store they are cleared by the 32-bit names of the 64-bit
general registers and kept by every other one, and other stores keep all of theirs. No store ever has a bit set
outside its widest register. -/
theorem aliasing_run (arch : Arch) (ops : List Op) :
    let r := run (initial arch) ops
    r.arch = arch ∧
    (∀ p f, r.field? (Text.lowercase p) = some f → ∀ v : BitVec 128, ∃ r', r.setWide p v = .ok r' ∧
      (∀ q g, r.field? (Text.lowercase q) = some g → ∃ old new, r.getWide q = .ok old ∧ r'.getWide q = .ok new ∧
        ∀ j, new.getLsbD j = (decide (j < g.bits) &&
          if f.store ≠ g.store then old.getLsbD j
          else if f.offset ≤ g.offset + j ∧ g.offset + j < f.offset + f.bits then v.getLsbD (g.offset + j - f.offset)
          else if f.zeroExtends then false
          else old.getLsbD j)) ∧
      r'.getWide p = .ok ((v.setWidth f.bits).setWidth 128) ∧
      ∀ q, (∀ g ∈ r.field? (Text.lowercase q), g.store ≠ f.store) → r'.getWide q = r.getWide q) ∧
    (∀ p f, r.field? p = some f → Text.lowercase p = p ∧
      (f.zeroExtends = true ↔ arch = .x86_64 ∧ f.bits = 32 ∧ p ≠ "eflags")) ∧
    ∀ s : Fin r.arch.stores, ∃ name g, r.field? name = some g ∧ g.store = s ∧
      (∀ other f, r.field? other = some f → f.store = s → f.bits ≤ g.bits) ∧
      ∀ k, r.stores[s].getLsbD k = true → g.offset ≤ k ∧ k < g.offset + g.bits := by
  intro r
  have harch : r.arch = arch := arch_run _ ops
  have hconfined : Confined r := (confined_initial arch).run ops
  refine ⟨harch, fun p f hf v => ⟨r.writeField f v, setWide_of_field? hf v, fun q g hg => ?_, ?_, fun q hq => ?_⟩,
    fun p f hf => ?_, fun s => ?_⟩
  · exact ⟨r.readField g, (r.writeField f v).readField g, getWide_of_field? hg, getWide_of_field? hg,
      Field.getLsbD_read_write (Layout.fits_of_field? hg) r.stores v⟩
  · have hread : (r.writeField f v).readField f = _ := Field.read_write_self (Layout.fits_of_field? hf) r.stores v
    rw [getWide_of_field? (r := r.writeField f v) hf, hread, Field.and_maskBits]
  · exact getWide_writeField hq v
  · rw [← harch]
    exact ⟨Layout.lowercase_of_mem_fields _ _ (Layout.mem_fields_of_field? hf), Layout.zeroExtends_iff hf⟩
  · obtain ⟨e, he, rfl, hwidest⟩ := Layout.exists_widest r.arch s
    refine ⟨e.1, e.2, Layout.field?_of_mem_fields he, rfl, fun other f hf hstore => ?_, hconfined e.2 hwidest⟩
    have hin := hwidest _ (Layout.mem_fields_of_field? hf) hstore
    have hpos := (Layout.field_fits r.arch _ (Layout.mem_fields_of_field? hf)).1
    dsimp only at hin hpos
    omega

/-- The 32-bit name of the stack pointer clears its upper half, whatever that held. -/
theorem upper_half_cleared :
    let r := run (initial .x86_64) [.setSp 0xFFFFFFFFFFFFFFFF, .setBit "cf" true]
    ∃ r' old new, r.setWide "ESP" 0x1234 = .ok r' ∧ r'.getWide "ESP" = .ok 0x1234 ∧ r.getWide "rsp" = .ok old ∧
      r'.getWide "rsp" = .ok new ∧ old.getLsbD 40 = true ∧ new.getLsbD 40 = false := by
  intro r
  have hp : r.field? (Text.lowercase "ESP") = some ⟨(7 : Fin 40), 0, 32, true⟩ := by decide +kernel
  have hq : r.field? (Text.lowercase "rsp") = some ⟨(7 : Fin 40), 0, 64, false⟩ := by decide +kernel
  obtain ⟨r', hset, hbits, hback, -⟩ :=
    (aliasing_run .x86_64 [.setSp 0xFFFFFFFFFFFFFFFF, .setBit "cf" true]).2.1 "ESP" _ hp 0x1234
  obtain ⟨old, new, hold, hnew, hbit⟩ := hbits "rsp" _ hq
  have hfull : old = 0xFFFFFFFFFFFFFFFF := by
    refine Except.ok.inj (hold.symm.trans ((getWide_of_field? hq).trans (congrArg Except.ok ?_)))
    decide +kernel
  exact ⟨r', old, new, hset, hback, hold, hnew, hfull ▸ rfl, hbit 40⟩

end Registers
end PathReplay
