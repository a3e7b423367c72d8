import PathReplay.Proofs.Instruction.KeptProgram
import PathReplay.Proofs.Machine.Stack

/-!
# Saving and restoring the general registers

* `Arch.exists_field_pushOrder`, `Arch.not_overlap_pushOrder` : the registers that are pushed together, no two of which
  overlap; `Registers.getWide_of_overlap` : what such a register holds decides what its parts hold;
* `Machine.pushAll_eq` : pushing the general registers is eight pushes of what they hold before the first;
* `Machine.Popped`, `popped_popGeneral`, `popped_forM` : a machine after some of the registers were popped;
* `execute_pushad`, `execute_popad` : the slots hold the registers then, and the registers are what the slots held;
* `execute_pushad_popad` : popping the general registers undoes pushing them, and what runs in between may do as it
  likes, but for the slots and the stack pointer.
-/

namespace PathReplay

open Exec (pushOrder)

/-! ## The registers that are pushed together -/

namespace Arch

variable {arch : Arch} {name other : String}

theorem fields_pushOrder : ∀ name ∈ pushOrder, isInstructionPointer name = false ∧
    ∃ f ∈ Arch.x86.layout.field? (Text.lowercase name), f.offset = 0 ∧ f.bits = 32 ∧ f.store.val < 8 ∧
      ∀ other ∈ pushOrder, other ≠ name → ∀ g ∈ Arch.x86.layout.field? (Text.lowercase other), g.store ≠ f.store := by
  decide +kernel

theorem exists_field_pushOrder (harch : arch = .x86) (h : name ∈ pushOrder) :
    ∃ f, arch.layout.field? (Text.lowercase name) = some f ∧ f.offset = 0 ∧ f.bits = 32 ∧ f.store.val < 8 := by
  subst harch
  obtain ⟨-, f, hf, hoffset, hbits, hstore, -⟩ := fields_pushOrder name h
  exact ⟨f, hf, hoffset, hbits, hstore⟩

theorem not_overlap_pushOrder (harch : arch = .x86) (h : name ∈ pushOrder) (h' : other ∈ pushOrder)
    (hne : other ≠ name) : ¬ arch.Overlap name other := by
  subst harch
  obtain ⟨-, f, hf, -, -, -, hstores⟩ := fields_pushOrder name h
  obtain ⟨-, g, hg, -⟩ := fields_pushOrder other h'
  exact not_overlap_of_store_ne hf hg (hstores other h' hne g hg)

theorem field?_esp (harch : arch = .x86) : arch.layout.field? (Text.lowercase "esp") = some arch.stackField := by
  subst harch
  decide +kernel

end Arch

/-- What a general register holds decides what its parts hold. -/
theorem Registers.getWide_of_overlap {r r' : Registers} {name part : String} (harch : r.arch = .x86)
    (harch' : r'.arch = .x86) (hname : name ∈ pushOrder) (hpart : Arch.x86.Overlap name part)
    (h : r'.getWide name = r.getWide name) : r'.getWide part = r.getWide part := by
  obtain ⟨arch, stores, float⟩ := r
  obtain ⟨arch', stores', float'⟩ := r'
  subst harch
  subst harch'
  obtain ⟨f, hf, hoffset, hbits, hstore⟩ := Arch.exists_field_pushOrder rfl hname
  obtain ⟨s, t, hs, ht, hover⟩ := hpart
  obtain rfl := Option.some_inj.1 ((Arch.slot?_of_field? hf).symm.trans hs)
  cases t with
  | float g => cases hover
  | integer g =>
    -- the register is as wide as its store, so the part lies in it
    have hwithin := (Layout.window_of_mem_fields .x86 _ (Slot.mem_fields_of_slot? ht)).2.2.1
    have hwidth : Arch.x86.storeBits g.store = 32 := by
      rw [← hover.1]
      exact if_pos (by omega)
    rw [getWide_of_field? (r := ⟨.x86, stores, float⟩) hf, getWide_of_field? (r := ⟨.x86, stores', float'⟩) hf] at h
    rw [getWide_of_slot? (r := ⟨.x86, stores, float⟩) ht, getWide_of_slot? (r := ⟨.x86, stores', float'⟩) ht]
    exact congrArg Except.ok (Field.read_congr_of_within hover.1.symm (by omega) (by dsimp only at hwithin; omega)
      (Except.ok.inj h))

namespace Exec

/-- Pushes a general register; for the stack pointer another value. -/
def pushGeneral (sp : UInt64) (name : String) : Exec Unit := do
  push (← if name = "esp" then pure sp else register name)

/-- Pops a general register; the stack pointer's slot is skipped. -/
def popGeneral (name : String) : Exec Unit := do
  let v ← pop
  if name = "esp" then pure () else setRegister name v

end Exec

namespace Machine

variable {m m' p q : Machine} {name other : String} {a b : Address} {i j : Instruction}

theorem pointerSize_of_x86 (harch : m.arch = .x86) : m.pointerSize = 4 := congrArg Arch.pointerSize harch

theorem registerOrZero_esp (harch : m.arch = .x86) : m.registerOrZero "esp" = m.sp :=
  registerOrZero_of_field? (Arch.field?_esp harch)

theorem getWide_withSp (harch : m.arch = .x86) (h : ¬ m.arch.Overlap "esp" name) (x : Address) :
    (m.withSp x).registers.getWide name = m.registers.getWide name :=
  Registers.getWide_writeSlot (Arch.slot?_of_field? (Arch.field?_esp harch)) h _

theorem register_pushOrder (harch : m.arch = .x86) (h : name ∈ pushOrder) :
    Exec.register name m = .ok (m.registerOrZero name) m := by
  obtain ⟨f, hf, -⟩ := Arch.exists_field_pushOrder harch h
  exact register_of_field? hf

theorem toNat_registerOrZero_lt (harch : m.arch = .x86) (h : name ∈ pushOrder) :
    (m.registerOrZero name).toNat < 2 ^ 32 := by
  obtain ⟨f, hf, -, hbits, -⟩ := Arch.exists_field_pushOrder harch h
  exact hbits ▸ toNat_registerOrZero_lt_of_field? hf (by omega)

/-- A general register holds no more than instructions read of it. -/
theorem getWide_pushOrder (harch : m.arch = .x86) (h : name ∈ pushOrder) :
    m.registers.getWide name = .ok ((m.registerOrZero name).toBitVec.setWidth 128) := by
  obtain ⟨f, hf, -, hbits, -⟩ := Arch.exists_field_pushOrder harch h
  have hword : (m.registers.wordAt f).toNat = (m.registers.readField f).toNat := Registers.toNat_wordAt (by omega)
  rw [Registers.getWide_of_field? (r := m.registers) hf, registerOrZero_of_field? hf]
  refine congrArg Except.ok (BitVec.eq_of_toNat_eq ?_)
  rw [BitVec.toNat_setWidth, UInt64.toNat_toBitVec, hword, Nat.mod_eq_of_lt (BitVec.isLt _)]

/-! ## Pushing -/

theorem pushGeneral_eq (harch : m.arch = .x86) (h : name ∈ pushOrder) (sp : UInt64) :
    Exec.pushGeneral sp name m = .ok () (m.push (if name = "esp" then sp else m.registerOrZero name)) := by
  unfold Exec.pushGeneral
  split
  · rfl
  · exact Exec.bind_of_ok (register_pushOrder harch h)

/-- Each register is pushed as it was before the first push. -/
theorem forM_pushGeneral (names : List String) (hnames : ∀ name ∈ names, name ∈ pushOrder) (harch : m.arch = .x86)
    (harch' : q.arch = .x86)
    (hsame : ∀ name ∈ names, name ≠ "esp" → q.registers.getWide name = m.registers.getWide name) :
    names.forM (Exec.pushGeneral m.sp) q = .ok () ((names.map m.registerOrZero).foldl push q) := by
  induction names generalizing q with
  | nil => rfl
  | cons name names ih =>
    have hname := hnames name List.mem_cons_self
    have hpushed : (if name = "esp" then m.sp else q.registerOrZero name) = m.registerOrZero name := by
      split
      · rename_i hesp
        rw [hesp, registerOrZero_esp harch]
      · rename_i hesp
        exact registerOrZero_of_getWide (hsame name List.mem_cons_self hesp)
    refine (Exec.bind_of_ok (pushGeneral_eq harch' hname m.sp)).trans ?_
    rw [hpushed]
    refine ih (fun other hother => hnames other (List.mem_cons_of_mem _ hother)) harch' fun other hother hesp => ?_
    have hapart := Arch.not_overlap_pushOrder harch' (by decide) (hnames other (List.mem_cons_of_mem _ hother)) hesp
    exact (getWide_withSp harch' hapart _).trans (hsame other (List.mem_cons_of_mem _ hother) hesp)

theorem pushAll_eq (harch : m.arch = .x86) :
    Exec.pushAll m = .ok () ((pushOrder.map m.registerOrZero).foldl push m) := by
  have hrun : Exec.pushAll m = pushOrder.forM (Exec.pushGeneral m.sp) m := by
    show (if m.arch = .x86 then _ else _ : Exec Unit) m = _
    rw [if_pos harch]
    rfl
  rw [hrun]
  exact forM_pushGeneral pushOrder (fun _ h => h) harch harch fun _ _ _ => rfl

/-! ## Popping -/

/-- A machine after the registers of some names were popped one after the other. -/
structure Popped (names : List String) (m m' : Machine) : Prop where
  memory : m'.memory = m.memory
  arch : m'.arch = m.arch
  sp : m'.sp = m.arch.wrap (m.sp + UInt64.ofNat (names.length * 4))
  /-- Every register but the stack pointer comes from a slot of its own. -/
  loaded : ∀ k name, names[k]? = some name → name ≠ "esp" →
    m'.registerOrZero name = m.readWord (m.arch.wrap (m.sp + UInt64.ofNat (k * 4))) 4
  register : ∀ other, (∀ name ∈ names, ¬ m.arch.Overlap name other) → ¬ m.arch.Overlap "esp" other →
    m'.registers.getWide other = m.registers.getWide other

/-- The word on top of the stack. -/
theorem wrap_sp_add_zero (m : Machine) : m.arch.wrap (m.sp + UInt64.ofNat (0 * 4)) = m.sp := by
  rw [Nat.zero_mul, show UInt64.ofNat 0 = 0 from rfl, UInt64.add_zero]
  exact m.registers.wrap_sp

theorem pop_eq (harch : m.arch = .x86) : m.pop = (m.readWord m.sp 4, m.withSp (m.arch.wrap (m.sp + 4))) := by
  rw [pop, pointerSize_of_x86 harch]
  rfl

/-- The word for the stack pointer is popped and dropped. -/
theorem popGeneral_eq (harch : m.arch = .x86) (name : String) :
    Exec.popGeneral name m =
      (if name = "esp" then pure () else Exec.setRegister name (m.readWord m.sp 4) : Exec Unit)
        (m.withSp (m.arch.wrap (m.sp + 4))) := by
  have hpop : Exec.pop m = .ok (m.readWord m.sp 4) (m.withSp (m.arch.wrap (m.sp + 4))) := by
    rw [Exec.pop, pop_eq harch]
  exact Exec.bind_of_ok hpop

/-- One register is popped. -/
theorem popped_popGeneral (harch : m.arch = .x86) (h : name ∈ pushOrder) :
    ∃ m', Exec.popGeneral name m = .ok () m' ∧ Popped [name] m m' := by
  let d := m.withSp (m.arch.wrap (m.sp + 4))
  have hsp : d.sp = m.arch.wrap (m.sp + 4) := (Registers.sp_withSp _ _).trans (m.arch.wrap_wrap _)
  by_cases hesp : name = "esp"
  · refine ⟨d, by rw [popGeneral_eq harch, if_pos hesp]; rfl, rfl, rfl, hsp, fun k name' hk hne => ?_,
      fun other _ hother => getWide_withSp harch hother _⟩
    have hname' : name' = name := by simpa using List.mem_of_getElem? hk
    exact (hne (hname'.trans hesp)).elim
  · have harchd : d.arch = .x86 := harch
    obtain ⟨f, hf, -, hbits, -⟩ := Arch.exists_field_pushOrder harchd h
    have hwidth : (Slot.integer f).bits = 8 * 4 := hbits
    obtain ⟨r, hset, hassigned⟩ :=
      setRegister_assigned (m := d) (Arch.slot?_of_field? hf) hwidth (m.readWord m.sp 4)
    have hstack : ¬ d.arch.Overlap name "esp" :=
      Arch.not_overlap_pushOrder harch h (by decide) (Ne.symm hesp)
    have hsp' : (d.withRegisters r).sp = d.sp := by
      rw [← registerOrZero_esp (m := d) harch, ← registerOrZero_esp (hassigned.arch.trans harch)]
      exact hassigned.registerOrZero hstack
    refine ⟨d.withRegisters r, ?_, rfl, hassigned.arch, hsp'.trans hsp, fun k name' hk _ => ?_,
      fun other hother hother' => ?_⟩
    · rw [popGeneral_eq harch, if_neg hesp, Exec.setRegister, Exec.updateOrFail, hset]
    · obtain ⟨rfl, rfl⟩ : k = 0 ∧ name' = name := by
        cases k with
        | zero => exact ⟨rfl, by simpa using hk.symm⟩
        | succ k => simp at hk
      apply UInt64.toNat_inj.1
      have hlt : (m.memory.readWord m.sp 4).toNat < 2 ^ (8 * 4) := m.memory.toNat_readWord_lt m.sp (by decide)
      rw [wrap_sp_add_zero]
      exact hassigned.toNat_contents.trans (Nat.mod_eq_of_lt hlt)
    · exact (hassigned.register other (hother name (List.mem_singleton_self _))).trans (getWide_withSp harch hother' _)

/-- What is popped after a register leaves that register alone. -/
theorem Popped.cons {names : List String} (harch : m.arch = .x86) (hname : name ∈ pushOrder)
    (hnames : ∀ other ∈ names, other ∈ pushOrder) (hfresh : name ∉ names) (hfirst : Popped [name] m q)
    (h : Popped names q m') : Popped (name :: names) m m' := by
  have hsp : ∀ k, q.arch.wrap (q.sp + UInt64.ofNat (k * 4)) = m.arch.wrap (m.sp + UInt64.ofNat ((k + 1) * 4)) := by
    intro k
    rw [hfirst.arch, hfirst.sp, Arch.wrap_add, List.length_singleton, UInt64.add_assoc, ← UInt64.ofNat_add]
    congr 3
    omega
  refine ⟨h.memory.trans hfirst.memory, h.arch.trans hfirst.arch, h.sp.trans (hsp _), fun k name' hk hesp => ?_,
    fun other hother hesp => ?_⟩
  · cases k with
    | zero =>
      obtain rfl : name = name' := by simpa using hk
      have hkeeps := h.register name
        (fun other hother => hfirst.arch.symm ▸ Arch.not_overlap_pushOrder harch (hnames other hother) hname
          fun heq => hfresh (heq ▸ hother))
        (hfirst.arch.symm ▸ Arch.not_overlap_pushOrder harch (by decide) hname hesp)
      exact (registerOrZero_of_getWide hkeeps).trans (hfirst.loaded 0 name rfl hesp)
    | succ k =>
      rw [h.loaded k name' (by simpa using hk) hesp, hsp, readWord, hfirst.memory]
      rfl
  · refine (h.register other (fun name' hname' => ?_) (hfirst.arch.symm ▸ hesp)).trans
      (hfirst.register other (fun name' hname' => ?_) hesp)
    · exact hfirst.arch.symm ▸ hother name' (List.mem_cons_of_mem _ hname')
    · exact hother name' (List.mem_singleton.1 hname' ▸ List.mem_cons_self)

/-- Registers that are popped one after the other keep what was popped into them. -/
theorem popped_forM (names : List String) (hnames : ∀ name ∈ names, name ∈ pushOrder) (hnodup : names.Nodup)
    (harch : m.arch = .x86) : ∃ m', names.forM Exec.popGeneral m = .ok () m' ∧ Popped names m m' := by
  induction names generalizing m with
  | nil =>
    exact ⟨m, rfl, rfl, rfl, m.wrap_sp_add_zero.symm, fun k name hk => by simp at hk, fun _ _ _ => rfl⟩
  | cons name names ih =>
    obtain ⟨hfresh, hnodup⟩ := List.nodup_cons.1 hnodup
    have hname := hnames name List.mem_cons_self
    have hrest : ∀ other ∈ names, other ∈ pushOrder := fun other hother => hnames other (List.mem_cons_of_mem _ hother)
    obtain ⟨q, hrun, hfirst⟩ := popped_popGeneral harch hname
    obtain ⟨m', hruns, hpopped⟩ := ih hrest hnodup (hfirst.arch.trans harch)
    exact ⟨m', (Exec.bind_of_ok hrun).trans hruns, hfirst.cons harch hname hrest hfresh hpopped⟩

theorem popped_popAll (harch : m.arch = .x86) : ∃ m', Exec.popAll m = .ok () m' ∧ Popped pushOrder.reverse m m' := by
  have hrun : Exec.popAll m = pushOrder.reverse.forM Exec.popGeneral m := by
    show (if m.arch = .x86 then _ else _ : Exec Unit) m = _
    rw [if_pos harch]
    rfl
  rw [hrun]
  exact popped_forM _ (fun _ h => List.mem_reverse.1 h) (by decide) harch

/-- Registers that are popped from slots that hold the registers of another machine, with its stack pointer above
them, are that machine's. -/
theorem Popped.restored (h : Popped pushOrder.reverse q p) (harch : m.arch = .x86) (harch' : q.arch = .x86)
    (hsp : q.sp = m.below 8)
    (hwords : ∀ k name, pushOrder[k]? = some name → q.readWord (m.below (k + 1)) 4 = m.registerOrZero name)
    (hname : name ∈ pushOrder) : p.registers.getWide name = m.registers.getWide name := by
  have hsize : m.pointerSize = 4 := pointerSize_of_x86 harch
  have hplace : ∀ k ≤ 8, q.arch.wrap (q.sp + UInt64.ofNat (k * 4)) = m.below (8 - k) := by
    intro k hk
    rw [hsp, harch', ← harch, ← hsize]
    exact m.wrap_below_add hk
  rw [getWide_pushOrder harch hname, getWide_pushOrder (h.arch.trans harch') hname]
  refine congrArg (fun v : UInt64 => Except.ok (v.toBitVec.setWidth 128)) ?_
  by_cases hesp : name = "esp"
  · rw [hesp, registerOrZero_esp harch, registerOrZero_esp (h.arch.trans harch'), h.sp]
    exact (hplace 8 (Nat.le_refl 8)).trans m.below_zero
  · obtain ⟨k, hk⟩ := List.mem_iff_getElem?.1 hname
    have hlt : k < 8 := (List.getElem?_eq_some_iff.1 hk).1
    have hrev : pushOrder.reverse[7 - k]? = some name := by
      rw [List.getElem?_reverse (show 7 - k < 8 by omega)]
      show pushOrder[7 - (7 - k)]? = some name
      rw [show 7 - (7 - k) = k by omega]
      exact hk
    rw [h.loaded (7 - k) name hrev hesp, hplace (7 - k) (by omega), show 8 - (7 - k) = k + 1 by omega]
    exact hwords k name hk

/-! ## The two instructions -/

/-- Popping the general registers from slots that hold those of another machine, with its stack pointer above them,
restores them and their parts. All else stays, but for control. -/
theorem execute_popad (harch : m.arch = .x86) (harch' : q.arch = .x86) (hj : q.listing.decode? b = some j)
    (hpop : j.mnemonic ∈ ["popad", "popa"]) (hsp : q.sp = m.below 8)
    (hwords : ∀ k name, pushOrder[k]? = some name → q.readWord (m.below (k + 1)) 4 = m.registerOrZero name) :
    ∃ n, execute b q = .ok () n ∧ n.memory = q.memory ∧
      (∀ name, (∃ general ∈ pushOrder, Arch.x86.Overlap general name) →
        n.registers.getWide name = m.registers.getWide name) ∧
      ∀ name, isInstructionPointer name = false → (∀ general ∈ pushOrder, ¬ Arch.x86.Overlap general name) →
        n.registers.getWide name = q.registers.getWide name := by
  have hop : ∀ name ∈ ["popad", "popa"], Operation.ofMnemonic? name = some .popAll := by decide +kernel
  have harchp : (q.prepare b j).arch = .x86 := (q.arch_prepare b j).trans harch'
  obtain ⟨n, hrun, hn⟩ := popped_popAll harchp
  refine ⟨n, (execute_of_mnemonic hj (hop _ hpop)).trans hrun, hn.memory.trans (q.memory_prepare b j), ?_,
    fun name hip hapart => ?_⟩
  · rintro name ⟨general, hgeneral, hover⟩
    refine Registers.getWide_of_overlap harch (hn.arch.trans harchp) hgeneral hover ?_
    refine hn.restored harch harchp ((q.sp_prepare b j).trans hsp) (fun k name hk => ?_) hgeneral
    rw [readWord, memory_prepare]
    exact hwords k name hk
  · refine (hn.register name (fun general hgeneral => ?_) ?_).trans (getWide_prepare hip b j)
    · exact harchp ▸ hapart general (List.mem_reverse.1 hgeneral)
    · exact harchp ▸ hapart "esp" (by decide)

/-- Pushing the general registers fills the eight slots below the stack pointer with what they held. -/
theorem execute_pushad (harch : m.arch = .x86) (hi : m.listing.decode? a = some i)
    (hpush : i.mnemonic ∈ ["pushad", "pusha"]) :
    ∃ p, execute a m = .ok () p ∧ p.sp = m.below 8 ∧
      (∀ k name, pushOrder[k]? = some name → p.readWord (m.below (k + 1)) 4 = m.registerOrZero name) ∧
      (∀ x, (∀ k < 8, 4 ≤ (x - m.below (k + 1)).toNat) → p.memory.byte x = m.memory.byte x) ∧
      ∀ name, isInstructionPointer name = false → ¬ Arch.x86.Overlap "esp" name →
        p.registers.getWide name = m.registers.getWide name := by
  have hop : ∀ name ∈ ["pushad", "pusha"], Operation.ofMnemonic? name = some .pushAll := by decide +kernel
  let d := m.prepare a i
  let values := pushOrder.map d.registerOrZero
  have harchd : d.arch = m.arch := m.arch_prepare a i
  have hsized : d.pointerSize = 4 := pointerSize_of_x86 (harchd.trans harch)
  have hbelow : ∀ k, d.below k = m.below k := below_congr harchd (m.sp_prepare a i)
  have hregister : ∀ name ∈ pushOrder, d.registerOrZero name = m.registerOrZero name := fun name hname =>
    registerOrZero_of_getWide (getWide_prepare (Arch.fields_pushOrder name hname).1 a i)
  refine ⟨values.foldl push d, ?_, ?_, fun k name hk => ?_, fun x hx => ?_, fun name hip hesp => ?_⟩
  · exact (execute_of_mnemonic hi (hop _ hpush)).trans (pushAll_eq (harchd.trans harch))
  · rw [sp_pushes]
    exact hbelow 8
  · have hname := List.mem_of_getElem? hk
    have hvalue : values[k]? = some (d.registerOrZero name) := by rw [List.getElem?_map, hk, Option.map_some]
    have hword := readWord_pushes values d (by rw [hsized, List.length_map]; decide) hvalue
    rw [hsized, hbelow, hregister name hname, Nat.mod_eq_of_lt (toNat_registerOrZero_lt harch hname)] at hword
    exact UInt64.toNat_inj.1 hword
  · refine (byte_pushes values d fun k hk => ?_).trans (by rw [m.memory_prepare a i])
    rw [hsized, hbelow]
    exact Nat.not_lt.2 (hx k hk)
  · rw [registers_pushes]
    exact (getWide_withSp (harchd.trans harch) (by rw [harchd, harch]; exact hesp) _).trans (getWide_prepare hip a i)

/-- Popping the general registers undoes pushing them, wherever the stack pointer is. The pushes write the eight slots
below it and nothing else in memory, and one of these holds the stack pointer as it was before. The pops restore every
register but the instruction pointer, and so every flag. Where other instructions run in between that leave the slots
and the stack pointer as they found them, the general registers are restored all the same. -/
theorem execute_pushad_popad (harch : m.arch = .x86) (hi : m.listing.decode? a = some i)
    (hpush : i.mnemonic ∈ ["pushad", "pusha"]) (hj : m.listing.decode? b = some j)
    (hpop : j.mnemonic ∈ ["popad", "popa"]) :
    ∃ p, execute a m = .ok () p ∧ p.sp = m.below 8 ∧
      (∀ k name, pushOrder[k]? = some name → p.readWord (m.below (k + 1)) 4 = m.registerOrZero name) ∧
      p.readWord (m.below 5) 4 = m.sp ∧
      (∀ x, (∀ k < 8, 4 ≤ (x - m.below (k + 1)).toNat) → p.memory.byte x = m.memory.byte x) ∧
      (∃ n, execute b p = .ok () n ∧ n.memory = p.memory ∧ (∀ f, n.registers.flag f = m.registers.flag f) ∧
        ∀ name, isInstructionPointer name = false → n.registers.getWide name = m.registers.getWide name) ∧
      ∀ between : List Action,
        let q := (p.performAll between).2
        q.sp = p.sp → (∀ k < 8, q.readWord (m.below (k + 1)) 4 = p.readWord (m.below (k + 1)) 4) →
        ∃ n, execute b q = .ok () n ∧ n.memory = q.memory ∧
          (∀ name, (∃ general ∈ pushOrder, Arch.x86.Overlap general name) →
            n.registers.getWide name = m.registers.getWide name) ∧
          ∀ name, isInstructionPointer name = false → (∀ general ∈ pushOrder, ¬ Arch.x86.Overlap general name) →
            n.registers.getWide name = q.registers.getWide name := by
  obtain ⟨p, hrun, hsp, hwords, hbytes, hregisters⟩ := execute_pushad harch hi hpush
  have hafter : (execute a).after m = p := by rw [Exec.after, hrun]
  have hp : m.SameProgram p := hafter ▸ m.sameProgram_execute a
  have hrestore : ∀ q, m.SameProgram q → q.sp = p.sp →
      (∀ k < 8, q.readWord (m.below (k + 1)) 4 = p.readWord (m.below (k + 1)) 4) → _ := fun q hq hqsp hsame =>
    execute_popad (m := m) (b := b) harch (hq.arch.trans harch) (hq.listing.symm ▸ hj) hpop (hqsp.trans hsp)
      fun k name hk => (hsame k (List.getElem?_eq_some_iff.1 hk).1).trans (hwords k name hk)
  refine ⟨p, hrun, hsp, hwords, ?_, hbytes, ?_, ?_⟩
  · exact (hwords 4 "esp" rfl).trans (registerOrZero_esp harch)
  · obtain ⟨n, hpops, hmemory, hgeneral, hother⟩ := hrestore p hp rfl fun _ _ => rfl
    have hall : ∀ name, isInstructionPointer name = false →
        n.registers.getWide name = m.registers.getWide name := by
      intro name hip
      by_cases hover : ∃ general ∈ pushOrder, Arch.x86.Overlap general name
      · exact hgeneral name hover
      · have hapart : ∀ general ∈ pushOrder, ¬ Arch.x86.Overlap general name := fun general hmem h =>
          hover ⟨general, hmem, h⟩
        exact (hother name hip hapart).trans (hregisters name hip (hapart "esp" (by decide)))
    refine ⟨n, hpops, hmemory, fun f => Registers.flag_of_getWide (hall f.label ?_), hall⟩
    cases f <;> decide +kernel
  · intro between q hqsp hsame
    exact hrestore q (hp.trans (p.sameProgram_performAll between)) hqsp hsame

/-- The second push wraps, and the counter is written before it is restored. -/
theorem execute_pushad_mov_popad :
    let save := Instruction.of 0x1000 "pushad" 1 []
    let change := Instruction.of 0x1001 "mov" 4 [⟨"cx", 2, .register "cx"⟩, .ofImmediate "5" 2 5]
    let restore := Instruction.of 0x1005 "popad" 1 []
    let m := (Machine.fresh ([save, change, restore].foldl Listing.addInstruction (.empty .x86)) {}).withSp 6
    let p := (execute 0x1000).after m
    m.below 1 = 2 ∧ m.below 2 = 0xFFFFFFFE ∧ p.readWord (m.below 5) 4 = 6 ∧
      ((execute 0x1005).after p).registers.getWide "esp" = m.registers.getWide "esp" ∧
      (p.performAll [.execute 0x1001]).2.registerOrZero "ecx" = 5 ∧
      ((execute 0x1005).after (p.performAll [.execute 0x1001]).2).registers.getWide "ecx" = .ok 0 := by
  intro save change restore m p
  obtain ⟨p', hrun, -, -, hstack, -, ⟨n, hn, -, -, hback⟩, hbetween⟩ :=
    execute_pushad_popad (m := m) (a := 0x1000) (b := 0x1005) (i := save) (j := restore) (by decide +kernel)
      (by decide +kernel) (by decide +kernel) (by decide +kernel) (by decide +kernel)
  have hp : p = p' := by
    show (execute 0x1000).after m = p'
    rw [Exec.after, hrun]
  subst hp
  have hmove : ∀ d : Machine, ((Exec.move change).after d).memory = d.memory := by
    intro d
    show ((Exec.store ⟨"cx", 2, .register "cx"⟩ (d.operandValue (.ofImmediate "5" 2 5))).after d).memory = d.memory
    rw [Exec.after, Exec.store, Exec.updateOrFail]
    dsimp only [setOperand]
    rw [setRegister]
    cases d.registers.set "cx" (d.operandValue (.ofImmediate "5" 2 5)) <;> rfl
  have hmemory : (p.performAll [.execute 0x1001]).2.memory = p.memory := by
    have hi : p.listing.decode? 0x1001 = some change := by decide +kernel
    have hop : Operation.ofMnemonic? change.mnemonic = some .move := by decide +kernel
    have hrun : execute 0x1001 p = Exec.move change (p.prepare 0x1001 change) := execute_of_mnemonic hi hop
    show (p.perform (.execute 0x1001)).2.memory = p.memory
    rw [snd_perform_execute, Exec.after, hrun, ← p.memory_prepare 0x1001 change]
    exact hmove _
  obtain ⟨n', hn', -, hgeneral, -⟩ := hbetween [.execute 0x1001] (by decide +kernel) fun k _ => by
    rw [readWord, hmemory, readWord]
  have hsp : m.sp = 6 := by decide +kernel
  have hcounter : (p.performAll [.execute 0x1001]).2.registerOrZero "ecx" = 5 := by decide +kernel
  have hslot : p.readWord (m.below 5) 4 = 6 := hstack.trans hsp
  have hwraps : m.below 1 = 2 ∧ m.below 2 = 0xFFFFFFFE := by decide +kernel
  refine ⟨hwraps.1, hwraps.2, hslot, ?_, hcounter, ?_⟩
  · rw [Exec.after, hn]
    exact hback "esp" (by decide +kernel)
  · rw [Exec.after, hn']
    have hfield : Arch.x86.layout.field? (Text.lowercase "ecx") = some ⟨(2 : Fin 24), 0, 32, false⟩ := by
      decide +kernel
    have hover : Arch.x86.Overlap "ecx" "ecx" :=
      ⟨_, _, Arch.slot?_of_field? hfield, Arch.slot?_of_field? hfield, rfl, by decide, by decide⟩
    exact (hgeneral "ecx" ⟨"ecx", by decide, hover⟩).trans (by decide +kernel)

end Machine
end PathReplay
