import PathReplay.Proofs.Machine.Locations

/-!
# Exchanges

* `Machine.exchange_eq`, `exchange_locations` : an exchange stores the second value in the first location, and then the
  first value where the second operand is by then;
* `execute_xchg` : so two locations exchange their values and all else stays, unless the first is a register that the
  address of the second is made of.
-/

namespace PathReplay.Machine

variable {m q : Machine} {a : Address} {i : Instruction} {dst src : Operand} {rest : List Operand} {l l' : Location}

theorem exchange_eq (ho : i.operands = dst :: src :: rest) (hstore : Exec.store dst (m.operandValue src) m = .ok () q) :
    Exec.exchange i m = Exec.store src (m.operandValue dst) q := by
  unfold Exec.exchange Exec.operand
  rw [ho]
  exact Exec.bind_of_ok hstore

/-- An exchange of two locations of one width, of which one at least is a register. The second operand is located again
once the first is written. -/
theorem exchange_locations (ho : i.operands = dst :: src :: rest) (hdst : dst.HasLocation m.arch)
    (hsrc : src.HasLocation m.arch) (hwidth : src.width = dst.width) (hle : dst.width ≤ 8)
    (hregister : dst.isMemory = false ∨ src.isMemory = false) (hl : m.location? dst = some l)
    (hl' : m.location? src = some l') :
    ∃ q l'' m', Exec.store dst (m.operandValue src) m = .ok () q ∧ q.location? src = some l'' ∧
      Exec.exchange i m = .ok () m' ∧
      m'.contents l dst.width = m.contents l' dst.width ∧ m'.contents l'' dst.width = m.contents l dst.width ∧
      Assigned l dst.width (m.contents l' dst.width) m q ∧ Assigned l'' dst.width (m.contents l dst.width) q m' := by
  have hva : m.operandValue dst = m.contents l dst.width := operandValue_eq_contents hdst hl
  have hvb : m.operandValue src = m.contents l' dst.width := hwidth ▸ operandValue_eq_contents hsrc hl'
  have hva_lt := toNat_contents_lt hdst hle hl
  have hvb_lt : (m.contents l' dst.width).toNat < 2 ^ (8 * dst.width) :=
    hwidth ▸ toNat_contents_lt hsrc (hwidth ▸ hle) hl'
  obtain ⟨q, hstore, hassigned⟩ := store_location hdst hle hl (m.operandValue src)
  obtain ⟨l'', hl''⟩ := exists_location?_eq hsrc q
  obtain ⟨m', hstore', hassigned'⟩ := store_location (hassigned.arch ▸ hsrc) (hwidth ▸ hle) hl'' (m.operandValue dst)
  rw [hwidth, hva] at hassigned'
  rw [hvb] at hassigned
  have hlast : m'.contents l'' dst.width = m.contents l dst.width :=
    UInt64.toNat_inj.1 (by rw [hassigned'.toNat_contents, Nat.mod_eq_of_lt hva_lt])
  refine ⟨q, l'', m', hstore, hl'', (exchange_eq ho hstore).trans hstore', ?_, hlast, hassigned, hassigned'⟩
  rcases apart_or_same hsrc hdst hwidth.symm (hregister.symm) hl'' hl with hapart | hsame
  · have hapart : l''.Apart q.arch dst.width l := by
      rw [hassigned.arch, ← hwidth]
      exact hapart
    refine UInt64.toNat_inj.1 ?_
    rw [hassigned'.contents_of_apart hapart, hassigned.toNat_contents, Nat.mod_eq_of_lt hvb_lt]
  · -- the operands are one register, whose two values are then the same
    have harch : m'.arch = m.arch := hassigned'.arch.trans hassigned.arch
    calc m'.contents l dst.width = m'.contents l'' dst.width := (hwidth ▸ (hsame m' harch).2).symm
      _ = m.operandValue dst := hlast.trans hva.symm
      _ = m.operandValue src := ((hsame m rfl).1).symm
      _ = m.contents l' dst.width := hvb

/-- Two operands of one width, registers or a register and memory, exchange their values: the location of the first
ends up with the value of the second, and the location that the second has once the first is written with the value of
the first. It is the one that it had before, unless the first is a register that the address of the second is made of.
No register changes that shares no bit with one of the two, but for the instruction pointer, and no byte of memory
outside. -/
theorem execute_xchg (hi : m.listing.decode? a = some i) (hxchg : i.mnemonic = "xchg")
    (ho : i.operands = dst :: src :: rest) (hdst : dst.HasLocation m.arch) (hsrc : src.HasLocation m.arch)
    (hwidth : src.width = dst.width) (hle : dst.width ≤ 8)
    (hregister : dst.isMemory = false ∨ src.isMemory = false) :
    let p := m.prepare a i
    ∃ l l' q l'' m', p.location? dst = some l ∧ p.location? src = some l' ∧
      Exec.store dst (p.operandValue src) p = .ok () q ∧ q.location? src = some l'' ∧
      execute a m = .ok () m' ∧
      m'.contents l dst.width = p.contents l' dst.width ∧ m'.contents l'' dst.width = p.contents l dst.width ∧
      ((∀ r, src.kind = .memory r →
          ∀ name, r.base = some name ∨ r.index = some name → ¬ l.Meets m.arch name) → l'' = l') ∧
      (∀ name, isInstructionPointer name = false → ¬ l.Meets m.arch name → ¬ l''.Meets m.arch name →
        m'.registers.getWide name = m.registers.getWide name) ∧
      m'.registers.float.data = m.registers.float.data ∧
      ∀ x, ¬ l.Covers dst.width x → ¬ l''.Covers dst.width x → m'.memory.byte x = m.memory.byte x := by
  intro p
  have harch : p.arch = m.arch := m.arch_prepare a i
  obtain ⟨l, hl⟩ := exists_location?_eq hdst p
  obtain ⟨l', hl'⟩ := exists_location?_eq hsrc p
  obtain ⟨q, l'', m', hstore, hl'', hrun, hfirst, hsecond, hassigned, hassigned'⟩ :=
    exchange_locations ho (harch ▸ hdst) (harch ▸ hsrc) hwidth hle hregister hl hl'
  have hop : Operation.ofMnemonic? "xchg" = some .exchange := rfl
  refine ⟨l, l', q, l'', m', hl, hl', hstore, hl'', (execute_of_name hi hxchg hop).trans hrun, hfirst, hsecond,
    fun hnames => ?_, fun name hip hname hname' => ?_, ?_, fun x hx hx' => ?_⟩
  · rcases exists_location hsrc with ⟨name, s, hkind, -⟩ | ⟨r, hkind⟩
    · rw [location?_register hkind] at hl' hl''
      exact Option.some_inj.1 (hl''.symm.trans hl')
    · rw [location?_memory hkind] at hl' hl''
      rw [hassigned.referenceAddress (harch ▸ hnames r hkind)] at hl''
      exact Option.some_inj.1 (hl''.symm.trans hl')
  · rw [hassigned'.register name (hassigned.arch ▸ harch ▸ hname'), hassigned.register name (harch ▸ hname),
      getWide_prepare hip]
  · rw [hassigned'.data, hassigned.data, registers_prepare]
    rfl
  · rw [hassigned'.byte x hx', hassigned.byte x hx, memory_prepare]

/-- A register and the word that it refers to, which is written first. -/
theorem execute_xchg_memory :
    let dst := Operand.ofMemory "[ebx+4]" 4 (some "ebx") 4
    let src := Operand.ofRegister "ebx" 4
    let i := Instruction.of 0x1000 "xchg" 3 [dst, src]
    let data : Segment := ⟨".data", 0x2004, 4, some #[0x2A]⟩
    let m := (Exec.setRegister "ebx" 0x2000).after
      (Machine.fresh { (Listing.empty .x86).addInstruction i with segments := [data] } {})
    ∃ m', execute 0x1000 m = .ok () m' ∧ m'.readWord 0x2004 4 = 0x2000 ∧ m'.registerOrZero "ebx" = 0x2A := by
  intro dst src i data m
  have hregister : src.HasLocation .x86 :=
    ⟨.integer ⟨(1 : Fin 24), 0, 32, false⟩, Arch.slot?_of_field? (by decide +kernel), rfl⟩
  have harch : m.arch = .x86 := by decide +kernel
  obtain ⟨l, l', q, l'', m', hl, hl', -, -, hrun, hfirst, hsecond, hsame, -⟩ :=
    execute_xchg (m := m) (a := 0x1000) (i := i) (by decide +kernel) (by decide +kernel) rfl trivial
      (harch ▸ hregister) rfl (by decide) (.inr rfl)
  obtain rfl := hsame fun r hr => by cases hr
  have hdst : (m.prepare 0x1000 i).location? dst = some (.memory 0x2004) := by decide +kernel
  have hsrc : (m.prepare 0x1000 i).location? src = some (.register "ebx") := by decide +kernel
  obtain rfl := Option.some_inj.1 (hl.symm.trans hdst)
  obtain rfl := Option.some_inj.1 (hl'.symm.trans hsrc)
  exact ⟨m', hrun, hfirst.trans (by decide +kernel), hsecond.trans (by decide +kernel)⟩

/-- A register and the word that it refers to, which comes second: it is written where the register refers to once it
holds the word. -/
theorem execute_xchg_moved :
    let dst := Operand.ofRegister "eax" 4
    let src := Operand.ofMemory "[eax]" 4 (some "eax") 0
    let i := Instruction.of 0x1000 "xchg" 2 [dst, src]
    let data : Segment := ⟨".data", 0x2000, 8, some #[0x04, 0x20]⟩
    let m := (Exec.setRegister "eax" 0x2000).after
      (Machine.fresh { (Listing.empty .x86).addInstruction i with segments := [data] } {})
    (m.prepare 0x1000 i).location? src = some (.memory 0x2000) ∧
      ∃ m', execute 0x1000 m = .ok () m' ∧ m'.registerOrZero "eax" = 0x2004 ∧ m'.readWord 0x2000 4 = 0x2004 ∧
        m'.readWord 0x2004 4 = 0x2000 := by
  intro dst src i data m
  let p := m.prepare 0x1000 i
  have hregister : dst.HasLocation .x86 :=
    ⟨.integer ⟨(0 : Fin 24), 0, 32, false⟩, Arch.slot?_of_field? (by decide +kernel), rfl⟩
  have harch : p.arch = .x86 := by decide +kernel
  obtain ⟨q, hfirst, -⟩ := store_location (harch ▸ hregister) (by decide) (location?_register rfl) (p.operandValue src)
  obtain rfl : q = (Exec.store dst (p.operandValue src)).after p := by rw [Exec.after, hfirst]
  have hq : ((Exec.store dst (p.operandValue src)).after p).location? src = some (.memory 0x2004) := by decide +kernel
  obtain ⟨m', hstore, hassigned⟩ := store_location (o := src) trivial (by decide) hq (p.operandValue dst)
  refine ⟨by decide +kernel, m', ?_, ?_, ?_, UInt64.toNat_inj.1 (hassigned.toNat_contents.trans (by decide +kernel))⟩
  · have hop : Operation.ofMnemonic? i.mnemonic = some .exchange := by decide +kernel
    exact (execute_of_mnemonic (by decide +kernel) hop).trans ((exchange_eq rfl hfirst).trans hstore)
  · exact (hassigned.registerOrZero fun h => h).trans (by decide +kernel)
  · have hapart : ∀ arch, (Location.memory 0x2004).Apart arch src.width (.memory 0x2000) := fun _ => by
      show ∀ n < 4, ¬ ((0x2000 + UInt64.ofNat n - 0x2004 : Address).toNat < 4)
      decide
    exact (hassigned.contents_of_apart (hapart _)).trans (by decide +kernel)

end PathReplay.Machine
