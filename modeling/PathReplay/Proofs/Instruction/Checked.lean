import PathReplay.Proofs.Instruction.CheckedArithmetic
import PathReplay.Proofs.Machine.Calls

/-!
# Instructions with checked arithmetic

* `Exec.Guarded` : an effect with checks against the one without, on a machine;
* `Exec.shift_guarded`, `rotate_guarded`, `multiply_guarded`, `multiplySigned_guarded`, `divide_guarded`,
  `divideSigned_guarded` : when the instructions come to an operation without a result;
* `Operation.Overruns`, `not_overruns` : all of these, and that operands of at most eight bytes are none of them;
* `Machine.executeChecked_of_aborts` : an instruction that aborts does so at such an operation;
* `Machine.executeChecked_exact` : an instruction ends in an operation without a result exactly then, and otherwise does
  what it does without checks.
-/

namespace PathReplay

/-! ## Wide accumulators -/

/-- The accumulators of eight bytes, which stand in for every width that has none, are on one architecture only. -/
theorem Registers.get_wide_iff (r : Registers) {name : String} (hname : name ∈ ["rax", "rdx"]) :
    (∃ x, r.get name = .ok x) ↔ r.arch = .x86_64 := by
  have hfields : ∀ arch : Arch, ∀ name ∈ ["rax", "rdx"],
      (FloatStack.position? (Text.lowercase name)).isSome = false ∧
        Layout.floatWords.field? (Text.lowercase name) = none ∧
          ((arch.layout.field? (Text.lowercase name)).isSome ↔ arch = .x86_64) := by
    intro arch
    cases arch <;> decide +kernel
  obtain ⟨hposition, hword, hfield⟩ := hfields r.arch name hname
  rw [← hfield]
  cases hf : r.arch.layout.field? (Text.lowercase name) with
  | some f => exact iff_of_true ⟨_, get_of_field? hf⟩ rfl
  | none =>
    refine iff_of_false (fun ⟨x, hx⟩ => ?_) (by simp)
    have hnone : r.field? (Text.lowercase name) = none := hf
    simp [get, getWide, hnone, hposition, FloatStack.word?, hword, Except.map] at hx

theorem Arithmetic.Checked.Outsized.notMem {width : Nat} (h : Outsized width) : width ∉ [1, 2, 4] := by
  simp only [List.mem_cons, List.not_mem_nil, or_false]
  rintro (rfl | rfl | rfl) <;> exact absurd h (by decide)

theorem accumulators_of_notMem {width : Nat} (h : width ∉ [1, 2, 4]) : accumulators width = ("rax", "rdx") := by
  unfold accumulators
  split <;> simp_all

namespace Exec

variable {α β : Type} {m m' : Machine} {x : OptionT Exec α} {y : Exec α} {bad : Prop}

theorem register_ok_iff {name : String} {v : UInt64} :
    register name m = .ok v m' ↔ m.registers.get name = .ok v ∧ m = m' := by
  cases hget : m.registers.get name <;> simp [register, viewOrFail, hget]

theorem map_apply (f : α → β) (y : Exec α) (m : Machine) : (f <$> y) m =
    match y m with
    | .ok a m' => .ok (f a) m'
    | .error e m' => .error e m' := by
  show EStateM.map f y m = _
  unfold EStateM.map
  cases y m <;> rfl

theorem run_bind (z : OptionT Exec β) (f : β → OptionT Exec α) (m : Machine) : (z >>= f).run m =
    match z.run m with
    | .ok (some b) m' => (f b).run m'
    | .ok none m' => .ok none m'
    | .error e m' => .error e m' := by
  show EStateM.bind z.run _ m = _
  unfold EStateM.bind
  cases z.run m with
  | ok b m' => cases b <;> rfl
  | error e m' => rfl

theorem bind_ok_iff {z : Exec β} {g : β → Exec α} {a : α} :
    (z >>= g) m = .ok a m' ↔ ∃ b m₁, z m = .ok b m₁ ∧ g b m₁ = .ok a m' := by
  rw [bind_apply]
  cases z m <;> simp

/-! ## Checked effects -/

/-- On a machine, an effect with checks comes to an operation without a result if `bad` holds, and otherwise it is the
effect without them. -/
structure Guarded (m : Machine) (x : OptionT Exec α) (y : Exec α) (bad : Prop) : Prop where
  undefined : bad → ∃ m', x.run m = .ok none m'
  defined : ¬ bad → x.run m = (some <$> y) m

namespace Guarded

theorem congr {bad' : Prop} (h : Guarded m x y bad) (hiff : bad ↔ bad') : Guarded m x y bad' :=
  propext hiff ▸ h

theorem pure (h : ¬ bad) (b : β) : Guarded m (Pure.pure b) (Pure.pure b) bad where
  undefined hbad := absurd hbad h
  defined _ := rfl

theorem lift (h : ¬ bad) : Guarded m (liftM y) y bad where
  undefined hbad := absurd hbad h
  defined _ := rfl

/-- The first of two effects must not fail where `bad` holds for the second. -/
theorem bind_of_guarded {z : OptionT Exec β} {w : Exec β} {f : β → OptionT Exec α} {g : β → Exec α} {bad' : Prop}
    (hz : Guarded m z w bad') (hbad' : bad' → bad) (hbad : ¬ bad' → bad → ∃ b m', w m = .ok b m')
    (h : ¬ bad' → ∀ b m', w m = .ok b m' → Guarded m' (f b) (g b) bad) : Guarded m (z >>= f) (w >>= g) bad := by
  by_cases hb' : bad'
  · obtain ⟨m', hm'⟩ := hz.undefined hb'
    exact ⟨fun _ => ⟨m', by rw [run_bind, hm']⟩, fun hb => absurd (hbad' hb') hb⟩
  have hrun := hz.defined hb'
  rw [map_apply] at hrun
  constructor
  · intro hb
    obtain ⟨b, m', hok⟩ := hbad hb' hb
    rw [run_bind, hrun, hok]
    exact (h hb' b m' hok).undefined hb
  · intro hb
    rw [run_bind, hrun, map_apply, bind_apply]
    cases hok : w m with
    | ok b m' => exact ((h hb' b m' hok).defined hb).trans (map_apply some (g b) m')
    | error e m' => rfl

theorem bind {z : Exec β} {f : β → OptionT Exec α} {g : β → Exec α} (hbad : bad → ∃ b m', z m = .ok b m')
    (h : ∀ b m', z m = .ok b m' → Guarded m' (f b) (g b) bad) : Guarded m (liftM z >>= f) (z >>= g) bad :=
  bind_of_guarded (lift id) False.elim (fun _ => hbad) fun _ => h

theorem bind_error {z : Exec β} {f : β → OptionT Exec α} {g : β → Exec α} {e : Error} (hz : z m = .error e m')
    (h : ¬ bad) : Guarded m (liftM z >>= f) (z >>= g) bad :=
  bind (fun hbad => absurd hbad h) fun b m'' hb => by cases hz.symm.trans hb

/-! What is only looked up, and is there, may be looked up on one side at a time. -/

theorem view_left {f : β → OptionT Exec α} {z : Exec β} {b : β} (hz : z m = .ok b m)
    (h : Guarded m (f b) y bad) : Guarded m (liftM z >>= f) y bad := by
  have hx : (liftM z >>= f : OptionT Exec α).run m = (f b).run m := by
    rw [run_bind, show (liftM z : OptionT Exec β).run m = (some <$> z) m from rfl, map_apply, hz]
  exact ⟨fun hbad => hx ▸ h.undefined hbad, fun hbad => hx ▸ h.defined hbad⟩

theorem view_right {g : β → Exec α} {z : Exec β} {b : β} (hz : z m = .ok b m)
    (h : Guarded m x (g b) bad) : Guarded m x (z >>= g) bad := by
  have hy : (some <$> (z >>= g)) m = (some <$> g b) m := by
    rw [map_apply, bind_apply, hz, map_apply]
  exact ⟨h.undefined, fun hbad => hy ▸ h.defined hbad⟩

theorem view {f : β → OptionT Exec α} {g : β → Exec α} {z : Exec β} {b : β} (hz : z m = .ok b m)
    (h : Guarded m (f b) (g b) bad) : Guarded m (liftM z >>= f) (z >>= g) bad :=
  view_left hz (view_right hz h)

theorem step_some {f : β → OptionT Exec α} {r : Option β} {b : β} (hr : r = some b)
    (h : Guarded m (f b) y bad) : Guarded m (Checked.step r >>= f) y bad := by
  subst hr
  exact h

theorem step_none {f : β → OptionT Exec α} {r : Option β} (hr : r = none) (h : bad) :
    Guarded m (Checked.step r >>= f) y bad := by
  subst hr
  exact ⟨fun _ => ⟨m, rfl⟩, fun hbad => absurd h hbad⟩

/-- A register that is there whenever `bad` holds. -/
theorem register {name : String} {f : UInt64 → OptionT Exec α} {g : UInt64 → Exec α}
    (hbad : bad → ∃ v, m.registers.get name = .ok v)
    (h : ∀ v, m.registers.get name = .ok v → Guarded m (f v) (g v) bad) :
    Guarded m (liftM (Exec.register name) >>= f) (Exec.register name >>= g) bad := by
  refine bind (fun hb => ?_) fun v m' hv => ?_
  · obtain ⟨v, hv⟩ := hbad hb
    exact ⟨v, m, register_ok_iff.2 ⟨hv, rfl⟩⟩
  · obtain ⟨hget, rfl⟩ := register_ok_iff.1 hv
    exact h v hget

end Guarded

/-! ## Instructions -/

theorem shift_guarded {i : Instruction} {dst : Operand} (hdst : i.operands[0]? = some dst)
    {op : Nat → UInt64 → Nat → Arithmetic.Result} {opChecked : Nat → UInt64 → Nat → Option Arithmetic.Result}
    {p : Nat → Prop} [DecidablePred p]
    (hop : ∀ a {count}, count < 64 →
      opChecked dst.width a count = if p count then none else some (op dst.width a count))
    {count : Nat}
    (hcount : count = Arithmetic.maskedCount dst.width (((i.operands[1]?).map m.operandValue).getD 1)) :
    Guarded m (Checked.shift i opChecked) (shift i op) (0 < count ∧ p count) := by
  refine Guarded.view (shiftOperands_eq hdst m) ?_
  dsimp only
  rw [← hcount]
  have hlt : count < 64 := hcount ▸ Arithmetic.maskedCount_lt _ _
  by_cases hzero : count = 0
  · rw [if_pos hzero, if_pos hzero]
    exact Guarded.pure (fun ⟨hpos, _⟩ => hpos.ne' hzero) ()
  · rw [if_neg hzero, if_neg hzero]
    by_cases hp : p count
    · exact Guarded.step_none ((hop _ hlt).trans (if_pos hp)) ⟨Nat.pos_of_ne_zero hzero, hp⟩
    · exact Guarded.step_some ((hop _ hlt).trans (if_neg hp)) (Guarded.lift fun h => hp h.2)

theorem rotate_guarded {i : Instruction} {dst : Operand} (hdst : i.operands[0]? = some dst)
    {op : Nat → UInt64 → Nat → Option Arithmetic.Result}
    {opChecked : Nat → UInt64 → Nat → Option (Option Arithmetic.Result)} {p : Nat → Prop} [DecidablePred p]
    (hop : ∀ a {count}, count < 64 →
      opChecked dst.width a count = if p count then none else some (op dst.width a count))
    {count : Nat}
    (hcount : count = Arithmetic.maskedCount dst.width (((i.operands[1]?).map m.operandValue).getD 1)) :
    Guarded m (Checked.rotate i opChecked) (rotate i op) (p count) := by
  refine Guarded.view (shiftOperands_eq hdst m) ?_
  dsimp only
  rw [← hcount]
  have hlt : count < 64 := hcount ▸ Arithmetic.maskedCount_lt _ _
  by_cases hp : p count
  · exact Guarded.step_none ((hop _ hlt).trans (if_pos hp)) hp
  · refine Guarded.step_some ((hop _ hlt).trans (if_neg hp)) ?_
    cases op dst.width _ count with
    | some r => exact Guarded.lift hp
    | none => exact Guarded.pure hp ()

theorem operand_of_getElem? {i : Instruction} {n : Nat} {o : Operand} (h : i.operands[n]? = some o) (m : Machine) :
    operand i n m = .ok o m := by
  rw [operand, h]
  rfl

/-- The accumulators of an operand without a width of its own are there on the larger architecture only. -/
theorem get_accumulators {width : Nat} (h : width ∉ [1, 2, 4]) (r : Registers) :
    ((∃ v, r.get (accumulators width).1 = .ok v) ↔ r.arch = .x86_64) ∧
      ((∃ v, r.get (accumulators width).2 = .ok v) ↔ r.arch = .x86_64) := by
  rw [accumulators_of_notMem h]
  exact ⟨r.get_wide_iff (by decide), r.get_wide_iff (by decide)⟩

theorem storeProduct_guarded (m : Machine) (product width : Nat) :
    Guarded m (Checked.storeProduct product width) (storeProduct product width) (Arithmetic.Checked.Outsized width) := by
  unfold Checked.storeProduct storeProduct
  split
  · exact Guarded.lift fun h => h.notMem (by simp [*])
  by_cases hfar : Arithmetic.Checked.Outsized width
  · exact Guarded.step_none ((Arithmetic.Checked.halves_eq _ _).trans (if_pos hfar)) hfar
  · refine Guarded.step_some ((Arithmetic.Checked.halves_eq _ _).trans (if_neg hfar)) ?_
    exact Guarded.bind (fun h => absurd h hfar) fun _ _ _ => Guarded.lift hfar

theorem multiply_guarded {i : Instruction} {src : Operand} (hsrc : i.operands[0]? = some src) (m : Machine) :
    Guarded m (Checked.multiply i) (multiply i)
      (m.arch = .x86_64 ∧ Arithmetic.Checked.Outsized src.width) := by
  refine Guarded.view (operand_of_getElem? hsrc m) ?_
  refine Guarded.register (fun h => (get_accumulators h.2.notMem m.registers).1.2 h.1) fun a ha => ?_
  refine Guarded.view (b := m.operandValue src) rfl ?_
  refine Guarded.step_some (Arithmetic.Checked.mask_eq _) ?_
  by_cases hfar : Arithmetic.Checked.Outsized src.width
  · exact Guarded.step_none ((Arithmetic.Checked.overflowsUnsigned_eq _ _).trans (if_pos hfar))
      ⟨(get_accumulators hfar.notMem m.registers).1.1 ⟨a, ha⟩, hfar⟩
  · refine Guarded.step_some ((Arithmetic.Checked.overflowsUnsigned_eq _ _).trans (if_neg hfar)) ?_
    refine Guarded.bind (fun h => absurd h.2 hfar) fun _ m' _ => ?_
    exact (storeProduct_guarded m' _ _).congr (by simp [hfar])

theorem multiplyAccumulator_guarded {i : Instruction} {src : Operand} (hsrc : i.operands[0]? = some src) (m : Machine) :
    Guarded m (Checked.multiplyAccumulator i) (multiplyAccumulator i)
      (m.arch = .x86_64 ∧ Arithmetic.Checked.Outsized src.width) := by
  refine Guarded.view (operand_of_getElem? hsrc m) ?_
  refine Guarded.register (fun h => (get_accumulators h.2.notMem m.registers).1.2 h.1) fun a ha => ?_
  refine Guarded.view_left (b := m.operandValue src) rfl ?_
  refine Guarded.view_right (b := m.integerValue src) rfl ?_
  refine Guarded.step_some (Arithmetic.Checked.toInt_eq _ _) ?_
  refine Guarded.step_some (Arithmetic.Checked.toInt_eq _ _) ?_
  refine Guarded.step_some (Arithmetic.Checked.overflowsSigned_eq _ _) ?_
  refine Guarded.bind (fun _ => ⟨_, _, rfl⟩) fun _ m' _ => ?_
  refine (storeProduct_guarded m' _ _).congr ⟨fun h => ⟨?_, h⟩, And.right⟩
  exact (get_accumulators h.notMem m.registers).1.1 ⟨a, ha⟩

theorem multiplySigned_guarded {i : Instruction} {dst : Operand} (hdst : i.operands[0]? = some dst) (m : Machine) :
    Guarded m (Checked.multiplySigned i) (multiplySigned i)
      (i.operands.length = 1 ∧ m.arch = .x86_64 ∧ Arithmetic.Checked.Outsized dst.width) := by
  unfold Checked.multiplySigned multiplySigned
  split
  case isTrue hone => exact (multiplyAccumulator_guarded hdst m).congr (by simp [hone])
  case isFalse hmany =>
    refine Guarded.view (operand_of_getElem? hdst m) ?_
    refine Guarded.bind (fun h => absurd h.1 hmany) fun x m₁ _ => ?_
    refine Guarded.bind (fun h => absurd h.1 hmany) fun y m₂ _ => ?_
    refine Guarded.view_right (b := m₂.integerValue x * m₂.integerValue y) rfl ?_
    refine Guarded.view_left (b := m₂.operandValue x) rfl ?_
    refine Guarded.step_some (Arithmetic.Checked.toInt_eq _ _) ?_
    refine Guarded.view_left (b := m₂.operandValue y) rfl ?_
    refine Guarded.step_some (Arithmetic.Checked.toInt_eq _ _) ?_
    refine Guarded.step_some (Arithmetic.Checked.mask_eq _) ?_
    refine Guarded.step_some (Arithmetic.Checked.overflowsSigned_eq _ _) ?_
    exact Guarded.bind (fun h => absurd h.1 hmany) fun _ _ _ => Guarded.lift fun h => hmany h.1

theorem dividend_guarded (m : Machine) (width : Nat) :
    Guarded m (Checked.dividend width) (dividend width) (m.arch = .x86_64 ∧ Arithmetic.Checked.Outsized width) := by
  unfold Checked.dividend dividend
  split
  · have hfits : ¬ Arithmetic.Checked.Outsized width := fun h => h.notMem (by simp [*])
    exact Guarded.bind (fun h => absurd h.2 hfits) fun _ _ _ => Guarded.pure (fun h => hfits h.2) _
  refine Guarded.register (fun h => (get_accumulators h.2.notMem m.registers).2.2 h.1) fun high hhigh => ?_
  refine Guarded.register (fun h => (get_accumulators h.2.notMem m.registers).1.2 h.1) fun low _ => ?_
  by_cases hfar : Arithmetic.Checked.Outsized width
  · have hpair : Checked.step (Arithmetic.Checked.joinHalves width high low) = Checked.step none >>= Pure.pure := by
      rw [Arithmetic.Checked.joinHalves_eq, if_pos hfar]
      rfl
    rw [hpair]
    exact Guarded.step_none rfl ⟨(get_accumulators hfar.notMem m.registers).2.1 ⟨high, hhigh⟩, hfar⟩
  · rw [Arithmetic.Checked.joinHalves_eq, if_neg hfar]
    exact Guarded.pure (fun h => hfar h.2) _

/-- An operand without a width of its own divides what the accumulators of eight bytes hold. -/
theorem dividend_ok_iff {width : Nat} (h : width ∉ [1, 2, 4]) (m : Machine) :
    (∃ n m', dividend width m = .ok n m') ↔ m.arch = .x86_64 := by
  obtain ⟨hlow, hhigh⟩ := get_accumulators h m.registers
  have hone : width ≠ 1 := fun hone => h (by simp [hone])
  unfold dividend
  rw [if_neg hone]
  constructor
  · rintro ⟨n, m', hok⟩
    obtain ⟨high, m₁, hregister, -⟩ := bind_ok_iff.1 hok
    exact hhigh.1 ⟨high, (register_ok_iff.1 hregister).1⟩
  · intro harch
    obtain ⟨high, hv⟩ := hhigh.2 harch
    obtain ⟨low, hw⟩ := hlow.2 harch
    exact ⟨_, m, bind_ok_iff.2 ⟨high, m, register_ok_iff.2 ⟨hv, rfl⟩,
      bind_ok_iff.2 ⟨low, m, register_ok_iff.2 ⟨hw, rfl⟩, rfl⟩⟩⟩

theorem storeDivision_guarded (h : ¬ bad) (m : Machine) (width : Nat) (q r : UInt64) :
    Guarded m (Checked.storeDivision width q r) (storeDivision width q r) bad := by
  refine Guarded.step_some (Arithmetic.Checked.mask_eq _) ?_
  exact Guarded.bind (fun hbad => absurd hbad h) fun _ _ _ => Guarded.lift h

theorem divide_guarded {i : Instruction} {src : Operand} (hsrc : i.operands[0]? = some src) (m : Machine) :
    Guarded m (Checked.divide i) (divide i) (m.arch = .x86_64 ∧ Arithmetic.Checked.Outsized src.width ∧
      m.operandValue src &&& Word.mask src.width ≠ 0) := by
  refine Guarded.view (operand_of_getElem? hsrc m) ?_
  refine Guarded.view (b := m.operandValue src) rfl ?_
  refine Guarded.step_some (Arithmetic.Checked.mask_eq _) ?_
  generalize m.operandValue src &&& Word.mask src.width = divisor
  dsimp only
  split
  case isTrue hzero => exact Guarded.pure (fun h => h.2.2 hzero) _
  case isFalse hzero =>
    refine Guarded.bind_of_guarded (dividend_guarded m src.width) (fun h => ⟨h.1, h.2, hzero⟩)
      (fun h h' => absurd ⟨h'.1, h'.2.1⟩ h) fun h n m' _ => ?_
    have hbad : ¬ (m.arch = .x86_64 ∧ Arithmetic.Checked.Outsized src.width ∧ divisor ≠ 0) :=
      fun h' => h ⟨h'.1, h'.2.1⟩
    have hdivisor : divisor.toNat ≠ 0 := fun h' => hzero (UInt64.toNat_inj.1 h')
    refine Guarded.step_some (Arithmetic.Checked.divide_eq _ _ hdivisor) ?_
    cases Arithmetic.divide? src.width n divisor.toNat with
    | none => exact Guarded.pure hbad _
    | some qr => exact storeDivision_guarded hbad m' _ _ _

theorem divideSigned_guarded {i : Instruction} {src : Operand} (hsrc : i.operands[0]? = some src) (m : Machine) :
    Guarded m (Checked.divideSigned i) (divideSigned i) (m.arch = .x86_64 ∧
      (Arithmetic.Checked.Outsized src.width ∨ src.width * 16 % UInt32.size = 0) ∧ m.integerValue src ≠ 0) := by
  refine Guarded.view (operand_of_getElem? hsrc m) ?_
  refine Guarded.view_left (b := m.operandValue src) rfl ?_
  refine Guarded.view_right (b := m.integerValue src) rfl ?_
  refine Guarded.step_some (Arithmetic.Checked.toInt_eq _ _) ?_
  rw [← Machine.integerValue]
  generalize m.integerValue src = divisor
  split
  case isTrue hzero => exact Guarded.pure (fun h => h.2.2 hzero) _
  case isFalse hzero =>
    have hwide : src.width * 16 % UInt32.size = 0 → src.width ∉ [1, 2, 4] := by
      simp only [List.mem_cons, List.not_mem_nil, or_false]
      rintro hnone (h | h | h) <;> simp [h] at hnone
    refine Guarded.bind_of_guarded (dividend_guarded m src.width) (fun h => ⟨h.1, .inl h.2, hzero⟩)
      (fun h h' => ?_) fun h n m' hn => ?_
    · have hnone := h'.2.1.resolve_left fun hfar => h ⟨h'.1, hfar⟩
      exact (dividend_ok_iff (hwide hnone) m).2 h'.1
    by_cases hnone : src.width * 16 % UInt32.size = 0
    · exact Guarded.step_none ((Arithmetic.Checked.divideSigned_eq _ _ hzero).trans (if_pos hnone))
        ⟨(dividend_ok_iff (hwide hnone) m).1 ⟨n, m', hn⟩, .inr hnone, hzero⟩
    · have hbad : ¬ (m.arch = .x86_64 ∧
          (Arithmetic.Checked.Outsized src.width ∨ src.width * 16 % UInt32.size = 0) ∧ divisor ≠ 0) :=
        fun h' => h'.2.1.elim (fun hfar => h ⟨h'.1, hfar⟩) hnone
      refine Guarded.step_some ((Arithmetic.Checked.divideSigned_eq _ _ hzero).trans (if_neg hnone)) ?_
      cases Arithmetic.divideSigned? src.width n divisor with
      | none => exact Guarded.pure hbad _
      | some qr => exact storeDivision_guarded hbad m' _ _ _

end Exec

namespace Operation

open Arithmetic (maskedCount widthBits)
open Arithmetic.Checked (Outruns Outsized)

variable {op : Operation} {i : Instruction} {m : Machine} {o : Operand}

/-- With a first operand, an instruction comes to an operation on machine integers that has no result: it shifts a word
by 64 bits or more or a double-width value by 128 or more, or takes a remainder by zero. -/
def OverrunsAt (op : Operation) (i : Instruction) (m : Machine) (o : Operand) : Prop :=
  let count := maskedCount o.width (((i.operands[1]?).map m.operandValue).getD 1)
  match op with
  | shiftLeft => 0 < count ∧ count + 64 ≤ widthBits o.width
  | rotateLeft | rotateRight => Outruns o.width count
  | multiply => m.arch = .x86_64 ∧ Outsized o.width
  | multiplySigned => i.operands.length = 1 ∧ m.arch = .x86_64 ∧ Outsized o.width
  | divide => m.arch = .x86_64 ∧ Outsized o.width ∧ m.operandValue o &&& Word.mask o.width ≠ 0
  | divideSigned =>
    m.arch = .x86_64 ∧ (Outsized o.width ∨ o.width * 16 % UInt32.size = 0) ∧ m.integerValue o ≠ 0
  | _ => False

def Overruns (op : Operation) (i : Instruction) (m : Machine) : Prop :=
  ∃ o, i.operands[0]? = some o ∧ op.OverrunsAt i m o

theorem overrunsAt_iff (ho : i.operands[0]? = some o) : op.OverrunsAt i m o ↔ op.Overruns i m := by
  simp [Overruns, ho]

theorem runChecked_of_some (op : Operation) (ho : i.operands[0]? = some o) (m : Machine) :
    Exec.Guarded m (op.runChecked i) (op.run i) (op.Overruns i m) := by
  refine Exec.Guarded.congr ?_ (overrunsAt_iff ho)
  cases op with
  | shiftLeft => exact Exec.shift_guarded ho (fun a _ h => Arithmetic.Checked.shiftLeft_eq o.width a h) rfl
  | shiftRight =>
    refine (Exec.shift_guarded (p := fun _ => False) ho (fun a _ h => ?_) rfl).congr (by simp [OverrunsAt])
    exact Arithmetic.Checked.shiftRight_eq o.width a h
  | shiftRightSigned =>
    refine (Exec.shift_guarded (p := fun _ => False) ho (fun a _ h => ?_) rfl).congr (by simp [OverrunsAt])
    exact Arithmetic.Checked.shiftRightSigned_eq o.width a h
  | rotateLeft => exact Exec.rotate_guarded ho (fun a _ h => Arithmetic.Checked.rotateLeft_eq o.width a h) rfl
  | rotateRight => exact Exec.rotate_guarded ho (fun a _ h => Arithmetic.Checked.rotateRight_eq o.width a h) rfl
  | multiply => exact Exec.multiply_guarded ho m
  | multiplySigned => exact Exec.multiplySigned_guarded ho m
  | divide => exact Exec.divide_guarded ho m
  | divideSigned => exact Exec.divideSigned_guarded ho m
  | _ => exact Exec.Guarded.lift id

/-- An instruction that lacks its first operand fails before it computes anything. -/
theorem runChecked_of_none (op : Operation) (ho : i.operands[0]? = none) (m : Machine) :
    Exec.Guarded m (op.runChecked i) (op.run i) (op.Overruns i m) := by
  have hnot : ¬ op.Overruns i m := fun ⟨o, ho', _⟩ => by simp [ho] at ho'
  have hoperand : Exec.operand i 0 m = .error (.invalidInstruction i.address) m := by
    rw [Exec.operand, ho]
    rfl
  have hshift : Exec.shiftOperands i m = .error (.invalidInstruction i.address) m := Exec.bind_of_error hoperand
  cases op with
  | shiftLeft | shiftRight | shiftRightSigned | rotateLeft | rotateRight =>
    exact Exec.Guarded.bind_error hshift hnot
  | multiply | divide | divideSigned => exact Exec.Guarded.bind_error hoperand hnot
  | multiplySigned =>
    unfold runChecked Operation.run Exec.Checked.multiplySigned Exec.multiplySigned
    dsimp only
    split
    · exact Exec.Guarded.bind_error hoperand hnot
    · exact Exec.Guarded.bind_error hoperand hnot
  | _ => exact Exec.Guarded.lift hnot

theorem runChecked_guarded (op : Operation) (i : Instruction) (m : Machine) :
    Exec.Guarded m (op.runChecked i) (op.run i) (op.Overruns i m) := by
  cases ho : i.operands[0]? with
  | some o => exact runChecked_of_some op ho m
  | none => exact runChecked_of_none op ho m

theorem mnemonic_of_rotate {name : String} (h : ofMnemonic? name = some op)
    (hop : op = rotateLeft ∨ op = rotateRight) : name ∈ ["rol", "ror"] := by
  have hlisted : ∀ e ∈ mnemonics, e.2 = rotateLeft ∨ e.2 = rotateRight → e.1 ∈ ["rol", "ror"] := by decide +kernel
  rw [ofMnemonic?, Option.or_eq_some_iff] at h
  obtain hlookup | ⟨-, hconditional⟩ := h
  · exact hlisted _ (mem_of_lookup hlookup) hop
  · unfold conditional? at hconditional
    dsimp only at hconditional
    split at hconditional
    case h_4 => cases hconditional
    all_goals
      obtain ⟨c, -, rfl⟩ := Option.map_eq_some_iff.1 hconditional
      simp at hop

/-- Operands of the widths that words have are within every limit. Those without any bits are too, but for a rotate. -/
theorem not_overruns (h : ∀ o ∈ i.operands[0]?, o.width ≤ 8 ∧ (o.width = 0 → op ≠ rotateLeft ∧ op ≠ rotateRight)) :
    ¬ op.Overruns i m := by
  rintro ⟨o, ho, hover⟩
  obtain ⟨hle, hzero⟩ := h o ho
  have hbits : widthBits o.width = 8 * o.width := Arithmetic.widthBits_of_le hle
  have hfits : ¬ Outsized o.width := by
    unfold Outsized Arithmetic.Checked.wordBits UInt64.size
    omega
  have hturn : 0 < o.width → ∀ count, ¬ Outruns o.width count := by
    intro hpos count
    unfold Outruns
    omega
  cases op with
  | shiftLeft =>
    obtain ⟨hpos, hfar⟩ := hover
    omega
  | rotateLeft => exact hturn (Nat.pos_of_ne_zero fun h => (hzero h).1 rfl) _ hover
  | rotateRight => exact hturn (Nat.pos_of_ne_zero fun h => (hzero h).2 rfl) _ hover
  | multiply => exact hfits hover.2
  | multiplySigned => exact hfits hover.2.2
  | divide => exact hfits hover.2.1
  | divideSigned =>
    obtain ⟨-, hfar | hnone, hdivisor⟩ := hover
    · exact hfits hfar
    · have hnowidth : o.width = 0 := by
        unfold UInt32.size at hnone
        omega
      refine hdivisor ?_
      rw [Machine.integerValue, hnowidth, Word.toInt, Word.signExtend, show Word.mask 0 = 0 from rfl, UInt64.and_zero]
      rfl
  | _ => exact hover

end Operation

namespace Machine

variable {m : Machine} {a : Address} {i : Instruction}

/-- The instruction at an address comes to an operation without a result. -/
def Overruns (m : Machine) (a : Address) : Prop :=
  ∃ i op, m.listing.decode? a = some i ∧ Operation.ofMnemonic? i.mnemonic = some op ∧ op.Overruns i (m.prepare a i)

theorem executeChecked_of_mnemonic (hi : m.listing.decode? a = some i) {op : Operation}
    (hop : Operation.ofMnemonic? i.mnemonic = some op) :
    (executeChecked a).run m = (op.runChecked i).run (m.prepare a i) := by
  simp [executeChecked, OptionT.run, OptionT.mk, hi, hop]

/-- Where no operation is looked up there is nothing to check. -/
theorem executeChecked_of_none
    (h : ∀ i, m.listing.decode? a = some i → Operation.ofMnemonic? i.mnemonic = none) :
    (executeChecked a).run m = (some <$> execute a) m := by
  rw [Exec.map_apply]
  cases hi : m.listing.decode? a with
  | none => simp [executeChecked, execute, OptionT.run, OptionT.mk, hi]
  | some i => simp [executeChecked, execute, OptionT.run, OptionT.mk, hi, h i hi]

theorem executeChecked_guarded (m : Machine) (a : Address) :
    Exec.Guarded m (executeChecked a) (execute a) (m.Overruns a) := by
  by_cases hlooked : ∃ i op, m.listing.decode? a = some i ∧ Operation.ofMnemonic? i.mnemonic = some op
  · obtain ⟨i, op, hi, hop⟩ := hlooked
    have hiff : op.Overruns i (m.prepare a i) ↔ m.Overruns a := by
      refine ⟨fun h => ⟨i, op, hi, hop, h⟩, fun ⟨j, op', hj, hop', h⟩ => ?_⟩
      cases hi.symm.trans hj
      cases hop.symm.trans hop'
      exact h
    obtain ⟨hundefined, hdefined⟩ := op.runChecked_guarded i (m.prepare a i)
    have hrun := executeChecked_of_mnemonic hi hop
    refine ⟨fun h => hrun ▸ hundefined (hiff.2 h), fun h => ?_⟩
    rw [hrun, hdefined fun h' => h (hiff.1 h'), Exec.map_apply, Exec.map_apply, execute_of_mnemonic hi hop]
  · refine ⟨fun ⟨i, op, hi, hop, _⟩ => absurd ⟨i, op, hi, hop⟩ hlooked, fun _ => executeChecked_of_none fun i hi => ?_⟩
    rw [Option.eq_none_iff_forall_ne_some]
    exact fun op hop => hlooked ⟨i, op, hi, hop⟩

theorem not_overruns (hi : m.listing.decode? a = some i)
    (h : i.mnemonic ∈ ["shr", "sar"] ∨
      ∀ o ∈ i.operands[0]?, o.width ≤ 8 ∧ (o.width = 0 → i.mnemonic ∉ ["rol", "ror"])) : ¬ m.Overruns a := by
  rintro ⟨j, op, hj, hop, hover⟩
  cases hi.symm.trans hj
  obtain hshift | hwidth := h
  · simp only [List.mem_cons, List.not_mem_nil, or_false] at hshift
    obtain ⟨o, -, hover⟩ := hover
    obtain hname | hname := hshift <;>
      · rw [hname] at hop
        cases hop
        exact hover
  · refine Operation.not_overruns (fun o ho => ⟨(hwidth o ho).1, fun hzero => ?_⟩) hover
    have hname := (hwidth o ho).2 hzero
    exact ⟨fun h => hname (Operation.mnemonic_of_rotate hop (.inl h)),
      fun h => hname (Operation.mnemonic_of_rotate hop (.inr h))⟩

/-- A rotate of an operand without any bits comes to the remainder of its count, which has no result. -/
theorem executeChecked_of_aborts (hi : m.listing.decode? a = some i) (h : i.Aborts) :
    ∃ m', (executeChecked a).run m = .ok none m' := by
  obtain ⟨hname, o, ho, hbits⟩ := h
  simp only [List.mem_cons, List.not_mem_nil, or_false] at hname
  obtain hname | hname := hname
  · exact (executeChecked_guarded m a).undefined ⟨i, .rotateLeft, hi, by rw [hname]; rfl, o, ho, .inl hbits⟩
  · exact (executeChecked_guarded m a).undefined ⟨i, .rotateRight, hi, by rw [hname]; rfl, o, ho, .inl hbits⟩

/-- Executing with checks comes to an operation without a result exactly where the operation of the instruction there
overruns what it is given, and otherwise does what executing does. Shifts to the right never come to one, and neither
does any instruction whose first operand is a word, or has no bits and is not rotated. -/
theorem executeChecked_exact (m : Machine) (a : Address) :
    ((∃ m', (executeChecked a).run m = .ok none m') ↔
      ∃ i op, m.listing.decode? a = some i ∧ Operation.ofMnemonic? i.mnemonic = some op ∧
        op.Overruns i (m.prepare a i)) ∧
    ((∀ m', (executeChecked a).run m ≠ .ok none m') → (executeChecked a).run m = (some <$> execute a) m) ∧
    ∀ i, m.listing.decode? a = some i →
      (i.mnemonic ∈ ["shr", "sar"] ∨
        ∀ o ∈ i.operands[0]?, o.width ≤ 8 ∧ (o.width = 0 → i.mnemonic ∉ ["rol", "ror"])) →
      (executeChecked a).run m = (some <$> execute a) m := by
  obtain ⟨hundefined, hdefined⟩ := executeChecked_guarded m a
  refine ⟨⟨fun ⟨m', hm'⟩ => ?_, hundefined⟩, fun h => ?_, fun i hi h => hdefined (not_overruns hi h)⟩
  · by_contra hnot
    rw [hdefined hnot, Exec.map_apply] at hm'
    cases hrun : execute a m <;> simp [hrun] at hm'
  · refine hdefined fun hover => ?_
    obtain ⟨m', hm'⟩ := hundefined hover
    exact h m' hm'

/-- A product with an operand of sixteen bytes has its halves a whole double-width value apart; with one of eight bytes
it is as it is without checks. -/
theorem executeChecked_mul :
    let i := Instruction.of 0x1000 "mul" 3 [.ofImmediate "2" 16 2]
    let j := Instruction.of 0x1000 "mul" 3 [.ofImmediate "2" 8 2]
    let m := Machine.fresh ((Listing.empty .x86_64).addInstruction i) {}
    let m₁ := Machine.fresh ((Listing.empty .x86_64).addInstruction j) {}
    (∃ m', (executeChecked 0x1000).run m = .ok none m') ∧
      (executeChecked 0x1000).run m₁ = (some <$> execute 0x1000) m₁ := by
  intro i j m m₁
  refine ⟨(executeChecked_exact m 0x1000).1.2 ⟨i, .multiply, by decide +kernel, by decide +kernel, ?_⟩,
    (executeChecked_exact m₁ 0x1000).2.2 j (by decide +kernel) (.inr (by decide +kernel))⟩
  exact ⟨.ofImmediate "2" 16 2, rfl, by decide +kernel, by decide +kernel⟩

/-- A rotate of an operand without any bits takes a remainder by zero, and a shift of sixteen bytes by one moves the bit
that goes last by 127. -/
theorem executeChecked_rol_shl :
    let i := Instruction.of 0x1000 "rol" 3 [.ofRegister "eax" 0, .ofImmediate "1" 1 1]
    let j := Instruction.of 0x1000 "shl" 3 [.ofMemory "[ebx]" 16 (some "ebx") 0, .ofImmediate "1" 1 1]
    (∃ m', (executeChecked 0x1000).run (.fresh ((Listing.empty .x86).addInstruction i) {}) = .ok none m') ∧
      ∃ m', (executeChecked 0x1000).run (.fresh ((Listing.empty .x86).addInstruction j) {}) = .ok none m' := by
  intro i j
  constructor
  · refine (executeChecked_guarded _ 0x1000).undefined ⟨i, .rotateLeft, by decide +kernel, by decide +kernel, ?_⟩
    exact ⟨.ofRegister "eax" 0, rfl, .inl (by decide +kernel)⟩
  · refine (executeChecked_guarded _ 0x1000).undefined ⟨j, .shiftLeft, by decide +kernel, by decide +kernel, ?_⟩
    exact ⟨.ofMemory "[ebx]" 16 (some "ebx") 0, rfl, by decide +kernel, by decide +kernel⟩

end Machine

end PathReplay
