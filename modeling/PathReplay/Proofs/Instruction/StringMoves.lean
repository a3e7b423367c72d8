import PathReplay.Proofs.Machine.Locations
import PathReplay.Proofs.Memory.Copies

/-!
# String moves

* `Arch.stringNames`, `not_overlap_stringNames` : the registers of a string instruction, no two of which overlap;
* `Exec.moveUnit`, `moveString_eq` : what a repeated move repeats;
* `Machine.Moved`, `moved_step`, `moved_iterate` : a machine after some bytes were moved, and after one more;
* `execute_rep_movsb` : a repeated move of bytes copies them one after the other; where that does not write what it has
  yet to read, memory is then as after a call of `memcpy`.
-/

namespace PathReplay

/-! ## The registers of string instructions -/

namespace Arch

variable {arch : Arch} {name other : String}

/-- The registers that count and that hold the source and the target. -/
def stringNames (arch : Arch) : List String := ["ecx", "esi", "edi"].map arch.nativeName

theorem fields_stringNames : ∀ arch : Arch, ∀ name ∈ arch.stringNames,
    isInstructionPointer name = false ∧
      ∃ f ∈ arch.layout.field? (Text.lowercase name), f.bits = 8 * arch.pointerSize ∧
        f.store.val < arch.generalStores ∧
        ∀ other ∈ arch.stringNames, other ≠ name → ∀ g ∈ arch.layout.field? (Text.lowercase other), g.store ≠ f.store
  | .x86 => by decide +kernel
  | .x86_64 => by decide +kernel

theorem esi_mem_stringNames (arch : Arch) : arch.nativeName "esi" ∈ arch.stringNames := by simp [Arch.stringNames]

theorem edi_mem_stringNames (arch : Arch) : arch.nativeName "edi" ∈ arch.stringNames := by simp [Arch.stringNames]

theorem ecx_mem_stringNames (arch : Arch) : arch.nativeName "ecx" ∈ arch.stringNames := by simp [Arch.stringNames]

theorem exists_slot_stringNames (h : name ∈ arch.stringNames) :
    ∃ s, arch.slot? name = some s ∧ s.bits = 8 * arch.pointerSize := by
  obtain ⟨-, f, hf, hbits, -⟩ := fields_stringNames arch name h
  exact ⟨_, slot?_of_field? hf, hbits⟩

theorem not_overlap_stringNames (h : name ∈ arch.stringNames) (h' : other ∈ arch.stringNames) (hne : other ≠ name) :
    ¬ arch.Overlap name other := by
  obtain ⟨-, f, hf, -, -, hstores⟩ := fields_stringNames arch name h
  obtain ⟨-, g, hg, -⟩ := fields_stringNames arch other h'
  exact not_overlap_of_store_ne hf hg (hstores other h' hne g hg)

theorem not_overlap_label (h : name ∈ arch.stringNames) (flag : Flag) : ¬ arch.Overlap name flag.label := by
  obtain ⟨-, f, hf, -, hgeneral, -⟩ := fields_stringNames arch name h
  refine not_overlap_of_store_ne hf (flag.lowercase_label.symm ▸ flag.field?_label arch) fun hstore => ?_
  have := flag.generalStores_le arch
  rw [hstore] at this
  omega

end Arch

namespace Exec

/-- What a move of strings does each time. -/
def moveUnit (unit : UInt64) (source target : String) : Exec Unit := do
  let src ← register source
  let dst ← register target
  update fun m => m.write dst (m.memory.read src unit.toNat)
  advance source unit
  advance target unit

theorem moveString_eq {i : Instruction} (h : i.operands.any Operand.isRegister = false) (m : Machine) :
    moveString i m =
      repeated i (moveUnit (stringUnit i) (m.arch.nativeName "esi") (m.arch.nativeName "edi")) m := by
  unfold moveString
  rw [h]
  rfl

theorem repeated_eq {i : Instruction} (h : i.repetition.isSome = true) (step : Exec Unit) (m : Machine) :
    repeated i step m = (do
      iterate step (min (← register (m.arch.nativeName "ecx")).toNat maxRepeat)
      setRegister (m.arch.nativeName "ecx") 0 : Exec Unit) m := by
  obtain ⟨prefixed, hprefixed⟩ := Option.isSome_iff_exists.1 h
  unfold repeated
  rw [hprefixed]
  rfl

end Exec

namespace Machine

variable {m m' : Machine} {s d a : Address} {k n : Nat} {name : String} {i : Instruction}

/-! ## One move -/

theorem register_stringNames (h : name ∈ m.arch.stringNames) :
    Exec.register name m = .ok (m.registerOrZero name) m := by
  obtain ⟨-, f, hf, -⟩ := Arch.fields_stringNames m.arch name h
  exact register_of_field? hf

theorem toNat_stringNames_lt (h : name ∈ m.arch.stringNames) :
    (m.registerOrZero name).toNat < 2 ^ (8 * m.arch.pointerSize) := by
  obtain ⟨s, hs, hbits⟩ := Arch.exists_slot_stringNames h
  exact hbits ▸ toNat_registerOrZero_lt_of_slot? hs

/-- A register of a string instruction is written; nothing but registers changes. -/
theorem setRegister_stringNames (h : name ∈ m.arch.stringNames) (v : UInt64) :
    ∃ r, Exec.setRegister name (m.arch.wrap v) m = .ok () (m.withRegisters r) ∧
      (m.withRegisters r).registerOrZero name = m.arch.wrap v ∧
      Assigned (.register name) m.arch.pointerSize (m.arch.wrap v) m (m.withRegisters r) := by
  obtain ⟨s, hs, hbits⟩ := Arch.exists_slot_stringNames h
  obtain ⟨r, hset, hassigned⟩ := setRegister_assigned hs hbits (m.arch.wrap v)
  refine ⟨r, by rw [Exec.setRegister, Exec.updateOrFail, hset], UInt64.toNat_inj.1 ?_, hassigned⟩
  refine hassigned.toNat_contents.trans ?_
  rw [Arch.toNat_wrap, Nat.mod_mod]

/-- An index register moves up if the direction flag is clear. -/
theorem advance_eq (h : name ∈ m.arch.stringNames) (hforward : m.registers.flag .direction = false) (unit : UInt64) :
    ∃ r, Exec.advance name unit m = .ok () (m.withRegisters r) ∧
      (m.withRegisters r).registerOrZero name = m.arch.wrap (m.registerOrZero name + unit) ∧
      Assigned (.register name) m.arch.pointerSize (m.arch.wrap (m.registerOrZero name + unit)) m
        (m.withRegisters r) := by
  obtain ⟨r, hset, hassigned⟩ := setRegister_stringNames h (m.registerOrZero name + unit)
  refine ⟨r, ?_, hassigned⟩
  refine (Exec.bind_of_ok (register_stringNames h)).trans ?_
  show Exec.setRegister name (m.arch.wrap (if m.registers.flag .direction then _ else _)) m = _
  rw [hforward]
  exact hset

/-- One unit is moved up. -/
theorem moveUnit_eq {source target : String} (hsource : source ∈ m.arch.stringNames)
    (htarget : target ∈ m.arch.stringNames) (hne : target ≠ source) (hforward : m.registers.flag .direction = false)
    (unit : UInt64) :
    ∃ m', Exec.moveUnit unit source target m = .ok () m' ∧
      m'.memory = m.memory.write (m.registerOrZero target) (m.memory.read (m.registerOrZero source) unit.toNat) ∧
      m'.registerOrZero source = m.arch.wrap (m.registerOrZero source + unit) ∧
      m'.registerOrZero target = m.arch.wrap (m.registerOrZero target + unit) ∧
      (∀ name, ¬ m.arch.Overlap source name → ¬ m.arch.Overlap target name →
        m'.registers.getWide name = m.registers.getWide name) ∧ m'.arch = m.arch := by
  let w := m.write (m.registerOrZero target) (m.memory.read (m.registerOrZero source) unit.toNat)
  obtain ⟨r, hfirst, hadvanced, hassigned⟩ := advance_eq (m := w) hsource hforward unit
  have hforward' : (w.withRegisters r).registers.flag .direction = false :=
    (Registers.flag_of_getWide (hassigned.register _ (Arch.not_overlap_label hsource _))).trans hforward
  have harch : (w.withRegisters r).arch = m.arch := hassigned.arch
  obtain ⟨r', hsecond, hadvanced', hassigned'⟩ := advance_eq (m := w.withRegisters r) (harch ▸ htarget) hforward' unit
  refine ⟨(w.withRegisters r).withRegisters r', ?_, rfl, ?_, ?_, fun name hname hname' => ?_, ?_⟩
  · refine (Exec.bind_of_ok (register_stringNames hsource)).trans ?_
    refine (Exec.bind_of_ok (register_stringNames htarget)).trans ?_
    exact (Exec.bind_of_ok hfirst).trans hsecond
  · have hapart := Arch.not_overlap_stringNames htarget hsource hne.symm
    exact (hassigned'.registerOrZero (harch ▸ hapart)).trans hadvanced
  · have hapart := Arch.not_overlap_stringNames hsource htarget hne
    rw [hadvanced', hassigned.registerOrZero hapart, harch]
    rfl
  · exact (hassigned'.register name (harch ▸ hname')).trans (hassigned.register name hname)
  · exact hassigned'.arch.trans harch

/-! ## Repeated moves -/

/-- A machine after the first `k` bytes were moved from `s` to `d`. -/
structure Moved (s d : Address) (k : Nat) (m m' : Machine) : Prop where
  memory : m'.memory = m.memory.copyForward s d k
  source : m'.registerOrZero (m.arch.nativeName "esi") = m.arch.wrap (s + UInt64.ofNat k)
  target : m'.registerOrZero (m.arch.nativeName "edi") = m.arch.wrap (d + UInt64.ofNat k)
  register : ∀ name, ¬ m.arch.Overlap (m.arch.nativeName "esi") name → ¬ m.arch.Overlap (m.arch.nativeName "edi") name →
    m'.registers.getWide name = m.registers.getWide name
  arch : m'.arch = m.arch

/-- One byte more is moved. -/
theorem moved_step (h : Moved s d k m m') (hforward : m.registers.flag .direction = false)
    (hs : s.toNat + k < 2 ^ (8 * m.arch.pointerSize)) (hd : d.toNat + k < 2 ^ (8 * m.arch.pointerSize)) :
    ∃ m'', Exec.moveUnit 1 (m.arch.nativeName "esi") (m.arch.nativeName "edi") m' = .ok () m'' ∧
      Moved s d (k + 1) m m'' := by
  have hne : m.arch.nativeName "edi" ≠ m.arch.nativeName "esi" := by cases m.arch <;> decide
  have hwidth : 2 ^ (8 * m.arch.pointerSize) ≤ 2 ^ 64 := by cases m.arch <;> decide
  have hforward' : m'.registers.flag .direction = false :=
    (Registers.flag_of_getWide (h.register _ (Arch.not_overlap_label (Arch.esi_mem_stringNames _) _)
      (Arch.not_overlap_label (Arch.edi_mem_stringNames _) _))).trans hforward
  -- neither index register has come round yet
  have hsource : m'.registerOrZero (m.arch.nativeName "esi") = s + UInt64.ofNat k :=
    h.source.trans (Arch.wrap_of_lt (by rw [toNat_add_of_lt (by omega)]; exact hs))
  have htarget : m'.registerOrZero (m.arch.nativeName "edi") = d + UInt64.ofNat k :=
    h.target.trans (Arch.wrap_of_lt (by rw [toNat_add_of_lt (by omega)]; exact hd))
  obtain ⟨m'', hrun, hmemory, hsource', htarget', hregister, harch⟩ :=
    moveUnit_eq (h.arch ▸ Arch.esi_mem_stringNames m.arch) (h.arch ▸ Arch.edi_mem_stringNames m.arch) hne hforward' 1
  refine ⟨m'', hrun, ?_, ?_, ?_, fun name hname hname' => ?_, harch.trans h.arch⟩
  · rw [hmemory, hsource, htarget, h.memory]
    rfl
  · rw [hsource', hsource, h.arch, ← add_ofNat_add]
    rfl
  · rw [htarget', htarget, h.arch, ← add_ofNat_add]
    rfl
  · exact (hregister name (h.arch.symm ▸ hname) (h.arch.symm ▸ hname')).trans (h.register name hname hname')

/-- Further bytes are moved one by one. -/
theorem moved_iterate (h : Moved s d k m m') (hforward : m.registers.flag .direction = false)
    (hs : s.toNat + (k + n) ≤ 2 ^ (8 * m.arch.pointerSize)) (hd : d.toNat + (k + n) ≤ 2 ^ (8 * m.arch.pointerSize)) :
    ∃ m'', Exec.iterate (Exec.moveUnit 1 (m.arch.nativeName "esi") (m.arch.nativeName "edi")) n m' = .ok () m'' ∧
      Moved s d (k + n) m m'' := by
  induction n generalizing k m' with
  | zero => exact ⟨m', rfl, h⟩
  | succ n ih =>
    obtain ⟨q, hstep, hq⟩ := moved_step h hforward (by omega) (by omega)
    obtain ⟨m'', hrun, hmoved⟩ := ih hq (by omega) (by omega)
    refine ⟨m'', ?_, ?_⟩
    · rw [Exec.iterate, hstep]
      exact hrun
    · rw [show k + (n + 1) = k + 1 + n by omega]
      exact hmoved

theorem registerOrZero_prepare_stringNames (h : name ∈ m.arch.stringNames) (a : Address) (i : Instruction) :
    (m.prepare a i).registerOrZero name = m.registerOrZero name :=
  registerOrZero_of_getWide (getWide_prepare (Arch.fields_stringNames m.arch name h).1 a i)

/-- A repeated move of bytes runs as often as the counter says. -/
theorem moveString_bytes (hmovsb : i.mnemonic = "movsb") (hrep : i.repetition.isSome = true)
    (hregister : i.operands.any Operand.isRegister = false)
    (hbyte : ∀ o ∈ i.operands.find? Operand.isMemory, o.size = 1) (hforward : m.registers.flag .direction = false)
    {c : UInt64} (hs : m.registerOrZero (m.arch.nativeName "esi") = s)
    (hd : m.registerOrZero (m.arch.nativeName "edi") = d) (hc : m.registerOrZero (m.arch.nativeName "ecx") = c)
    (hle : c.toNat ≤ Exec.maxRepeat) (hfits : s.toNat + c.toNat ≤ 2 ^ (8 * m.arch.pointerSize))
    (hfits' : d.toNat + c.toNat ≤ 2 ^ (8 * m.arch.pointerSize)) :
    ∃ q m', Moved s d c.toNat m q ∧ Exec.moveString i m = .ok () m' ∧ m'.memory = q.memory ∧
      m'.registerOrZero (m.arch.nativeName "ecx") = 0 ∧
      ∀ name, ¬ m.arch.Overlap (m.arch.nativeName "ecx") name →
        m'.registers.getWide name = q.registers.getWide name := by
  have hunit : Exec.stringUnit i = 1 := by
    unfold Exec.stringUnit
    split
    · rename_i o ho
      exact hbyte o ho
    · rw [hmovsb]
      rfl
  have hstart : Moved s d 0 m m := by
    refine ⟨rfl, ?_, ?_, fun _ _ _ => rfl, rfl⟩
    · rw [hs, show s + UInt64.ofNat 0 = s from UInt64.add_zero s]
      exact (Arch.wrap_of_lt (hs ▸ toNat_stringNames_lt (Arch.esi_mem_stringNames _))).symm
    · rw [hd, show d + UInt64.ofNat 0 = d from UInt64.add_zero d]
      exact (Arch.wrap_of_lt (hd ▸ toNat_stringNames_lt (Arch.edi_mem_stringNames _))).symm
  obtain ⟨q, hiterate, hmoved⟩ := moved_iterate (n := c.toNat) hstart hforward (by omega) (by omega)
  rw [Nat.zero_add] at hmoved
  have hzero : q.arch.wrap 0 = 0 := Arch.wrap_of_lt (Nat.two_pow_pos _)
  have hecx : m.arch.nativeName "ecx" ∈ q.arch.stringNames := hmoved.arch.symm ▸ Arch.ecx_mem_stringNames m.arch
  obtain ⟨r, hset, hread, hassigned⟩ := setRegister_stringNames hecx 0
  rw [hzero] at hset hread
  refine ⟨q, q.withRegisters r, hmoved, ?_, rfl, hread, fun name hname =>
    hassigned.register name (hmoved.arch.symm ▸ hname)⟩
  rw [Exec.moveString_eq hregister, Exec.repeated_eq hrep, hunit]
  refine (Exec.bind_of_ok (register_stringNames (Arch.ecx_mem_stringNames _))).trans ?_
  rw [hc]
  rw [← Nat.min_eq_left hle] at hiterate
  exact (Exec.bind_of_ok hiterate).trans hset

/-- What `memcpy` and `memmove` leave of memory. -/
theorem memory_memcpy {f : String} {e : LibC.Entry} (he : LibC.find? f = some e)
    (hf : LibC.bareName f ∈ ["memcpy", "memmove"]) {c : UInt64} (hc : c ≤ m.memory.maxTransfer) :
    (e.routine.call f [d, s, c] m).2.memory = m.memory.write d (m.memory.read s c.toNat) := by
  have hroutine : e.routine = .memcpy := by
    rw [LibC.find?] at he
    have hlookup : ∀ bare ∈ ["memcpy", "memmove"], LibC.catalogue.lookup bare = some ⟨.memcpy, .cdecl⟩ := by decide
    rw [Option.some_inj.1 (he.symm.trans (hlookup _ hf))]
  have hbounded : m.memory.bounded c = c.toNat := congrArg UInt64.toNat (if_pos hc)
  rw [hroutine, ← hbounded]
  rfl

/-- A repeated move of bytes, upwards and not across the end of the address space, copies them one after the other:
where the target begins within the source, the bytes before it are repeated. The index registers advance by the count,
which is then zero, and no other register changes, nor any other byte of memory. If nothing is written that is yet to
be read, memory is then the one after a call of `memcpy` or `memmove`, by whatever name. -/
theorem execute_rep_movsb (hi : m.listing.decode? a = some i) (hmovsb : i.mnemonic = "movsb")
    (hrep : i.repetition.isSome = true) (hregister : i.operands.any Operand.isRegister = false)
    (hbyte : ∀ o ∈ i.operands.find? Operand.isMemory, o.size = 1)
    (hforward : m.registers.flag .direction = false) :
    let source := m.arch.nativeName "esi"
    let target := m.arch.nativeName "edi"
    let counter := m.arch.nativeName "ecx"
    let s := m.registerOrZero source
    let d := m.registerOrZero target
    let n := m.registerOrZero counter
    n.toNat ≤ Exec.maxRepeat → s.toNat + n.toNat ≤ 2 ^ (8 * m.arch.pointerSize) →
    d.toNat + n.toNat ≤ 2 ^ (8 * m.arch.pointerSize) →
    ∃ m', execute a m = .ok () m' ∧
      (∀ k < n.toNat, m'.memory.byte (d + UInt64.ofNat k) =
        m.memory.byte (s + UInt64.ofNat
          (if s.toNat < d.toNat ∧ d.toNat < s.toNat + n.toNat then k % (d.toNat - s.toNat) else k))) ∧
      (∀ x, x.toNat < d.toNat ∨ d.toNat + n.toNat ≤ x.toNat → m'.memory.byte x = m.memory.byte x) ∧
      m'.registerOrZero source = m.arch.wrap (s + n) ∧ m'.registerOrZero target = m.arch.wrap (d + n) ∧
      m'.registerOrZero counter = 0 ∧
      (∀ name, isInstructionPointer name = false → ¬ m.arch.Overlap source name → ¬ m.arch.Overlap target name →
        ¬ m.arch.Overlap counter name → m'.registers.getWide name = m.registers.getWide name) ∧
      (d.toNat ≤ s.toNat ∨ s.toNat + n.toNat ≤ d.toNat → n ≤ m.memory.maxTransfer →
        ∀ name e, LibC.find? name = some e → LibC.bareName name ∈ ["memcpy", "memmove"] →
          (e.routine.call name [d, s, n] m).2.memory = m'.memory) := by
  intro source target counter s d n hn hs hd
  have hwidth : 2 ^ (8 * m.arch.pointerSize) ≤ 2 ^ 64 := by cases m.arch <;> decide
  have hs' : s.toNat + n.toNat ≤ 2 ^ 64 := Nat.le_trans hs hwidth
  have hd' : d.toNat + n.toNat ≤ 2 ^ 64 := Nat.le_trans hd hwidth
  have hforward' : (m.prepare a i).registers.flag .direction = false := by
    rw [registers_prepare]
    exact (Registers.flag_withIp ..).trans hforward
  have hregisters : ∀ name ∈ m.arch.stringNames, (m.prepare a i).registerOrZero name = m.registerOrZero name :=
    fun _ h => registerOrZero_prepare_stringNames h a i
  have harch := m.arch_prepare a i
  have hrun := moveString_bytes (m := m.prepare a i) (s := s) (d := d) (c := n) hmovsb hrep hregister hbyte hforward'
  rw [harch] at hrun
  obtain ⟨q, m', hmoved, hrun, hmemory, hcounter, hframe⟩ := hrun (hregisters _ (Arch.esi_mem_stringNames _))
    (hregisters _ (Arch.edi_mem_stringNames _)) (hregisters _ (Arch.ecx_mem_stringNames _)) hn hs hd
  have hne : target ≠ counter ∧ source ≠ counter := by
    show m.arch.nativeName "edi" ≠ m.arch.nativeName "ecx" ∧ m.arch.nativeName "esi" ≠ m.arch.nativeName "ecx"
    cases m.arch <;> decide
  have hadvanced := hmoved.source
  have hadvanced' := hmoved.target
  rw [harch, UInt64.ofNat_toNat] at hadvanced hadvanced'
  have hbytes : ∀ x, m'.memory.byte x = if (x - d).toNat < n.toNat then
      m.memory.byte (s + UInt64.ofNat (Memory.copyOffset s d (x - d).toNat)) else m.memory.byte x := by
    intro x
    rw [hmemory, hmoved.memory, memory_prepare]
    exact Memory.byte_copyForward hs' hd' x
  have hop : Operation.ofMnemonic? "movsb" = some .moveString := rfl
  refine ⟨m', (execute_of_name hi hmovsb hop).trans hrun, fun k hk => ?_, fun x hx => ?_, ?_, ?_,
    hcounter, fun name hip hsource htarget hcounter => ?_, fun hapart hle f e he hf => ?_⟩
  · have hdistance : (d + UInt64.ofNat k - d).toNat = k := by
      rw [UInt64.add_comm, UInt64.add_sub_cancel, UInt64.toNat_ofNat', Nat.mod_eq_of_lt (by omega)]
    rw [hbytes, hdistance, if_pos hk, Memory.copyOffset_of_lt hk]
  · have hout : ¬ (x - d).toNat < n.toNat := by
      have := x.toNat_lt
      rw [UInt64.toNat_sub]
      omega
    rw [hbytes, if_neg hout]
  · have hapart := Arch.not_overlap_stringNames (Arch.ecx_mem_stringNames _) (Arch.esi_mem_stringNames m.arch) hne.2
    exact (registerOrZero_of_getWide (hframe source hapart)).trans hadvanced
  · have hapart := Arch.not_overlap_stringNames (Arch.ecx_mem_stringNames _) (Arch.edi_mem_stringNames m.arch) hne.1
    exact (registerOrZero_of_getWide (hframe target hapart)).trans hadvanced'
  · rw [hframe name hcounter, hmoved.register name (harch ▸ hsource) (harch ▸ htarget), getWide_prepare hip]
  · rw [memory_memcpy he hf hle, hmemory, hmoved.memory, memory_prepare]
    exact (Memory.copyForward_eq_write hs' hd' hapart).symm

/-- Two bytes are repeated over the four after them. -/
theorem execute_rep_movsb_pattern :
    let i := (Instruction.of 0x1000 "movsb" 2 []).repeated "rep"
    let data : Segment := ⟨".data", 0x2000, 8, some #[0x61, 0x62]⟩
    let indices : Exec Unit := do Exec.setRegister "esi" 0x2000; Exec.setRegister "edi" 0x2002; Exec.setRegister "ecx" 4
    let m := indices.after (Machine.fresh { (Listing.empty .x86).addInstruction i with segments := [data] } {})
    ∃ m', execute 0x1000 m = .ok () m' ∧ m'.memory.byte 0x2004 = 0x61 ∧ m'.memory.byte 0x2005 = 0x62 ∧
      m'.registerOrZero "edi" = 0x2006 ∧ m'.registerOrZero "ecx" = 0 := by
  intro i data indices m
  have harch : m.arch = .x86 := by decide +kernel
  have hs : m.registerOrZero "esi" = 0x2000 := by decide +kernel
  have hd : m.registerOrZero "edi" = 0x2002 := by decide +kernel
  have hn : m.registerOrZero "ecx" = 4 := by decide +kernel
  have hmove := execute_rep_movsb (m := m) (a := 0x1000) (i := i) (by decide +kernel) (by decide +kernel) rfl rfl
    (fun _ h => by cases h) (by decide +kernel)
  dsimp only at hmove
  rw [harch, show Arch.x86.nativeName "esi" = "esi" from rfl, show Arch.x86.nativeName "edi" = "edi" from rfl,
    show Arch.x86.nativeName "ecx" = "ecx" from rfl, hs, hd, hn] at hmove
  obtain ⟨m', hrun, hcopied, -, -, htarget, hcounter, -⟩ := hmove (by decide) (by decide) (by decide)
  exact ⟨m', hrun, (hcopied 2 (by decide)).trans (by decide +kernel), (hcopied 3 (by decide)).trans (by decide +kernel),
    htarget, hcounter⟩

/-- What is moved is as wide as a memory operand, also where the mnemonic says bytes. -/
theorem execute_rep_movsb_dword :
    let i := (Instruction.of 0x1000 "movsb" 2
      [.ofMemory "[edi]" 4 (some "edi") 0, .ofMemory "[esi]" 4 (some "esi") 0]).repeated "rep"
    let indices : Exec Unit := do Exec.setRegister "esi" 0x2000; Exec.setRegister "edi" 0x3000; Exec.setRegister "ecx" 1
    let m := indices.after (Machine.fresh ((Listing.empty .x86).addInstruction i) {})
    i.operands.any Operand.isRegister = false ∧ m.registers.flag .direction = false ∧ m.registerOrZero "esi" = 0x2000 ∧
      m.registerOrZero "ecx" = 1 ∧ ((execute 0x1000).after m).registerOrZero "esi" = 0x2004 := by
  decide +kernel

end Machine
end PathReplay
