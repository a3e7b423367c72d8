import PathReplay.Proofs.Instruction.Shifts

/-!
# Rotates

* `Rotate`, `Rotate.turned` : the rotates, and the value that each of them stores;
* `Rotate.turned_turned`, `Rotate.turned_opposite` : two rotates in a row are one by both counts, and a rotate is undone
  by the one the other way;
* `Rotate.result?_eq` : the value and the carry flag of a rotate, which has neither by whole turns;
* `Machine.Rotated`, `rotated_execute`, `rotated_iterate` : what a rotate leaves of a machine, and what a run of rotates
  by one does;
* `execute_rotate` : a rotate leaves its destination as that many rotates by one do, and carry too, except by whole
  turns.
-/

namespace PathReplay

inductive Rotate where
  | left
  | right
deriving DecidableEq

namespace Rotate

open Arithmetic

variable {k : Rotate} {bits width : Nat} {a : UInt64} {i : Instruction} {dst : Operand}

def mnemonic : Rotate → String
  | left => "rol"
  | right => "ror"

def operation : Rotate → Operation
  | left => .rotateLeft
  | right => .rotateRight

def opposite : Rotate → Rotate
  | left => right
  | right => left

/-- The value that is stored and the flags that are set, if there are any. -/
def result? : Rotate → Nat → UInt64 → Nat → Option Result
  | left => rotateLeft?
  | right => rotateRight?

/-- A value of so many bits after a rotate. -/
def turned (k : Rotate) (bits x n : Nat) : Nat :=
  match k with
  | left => ((BitVec.ofNat bits x).rotateLeft n).toNat
  | right => ((BitVec.ofNat bits x).rotateRight n).toNat

/-- The bit that the last of some rotates by one moved from one end of the value to the other. -/
def moved (k : Rotate) (bits v : Nat) : Bool :=
  match k with
  | left => v.testBit 0
  | right => v.testBit (bits - 1)

/-! ## Rotates in a row -/

theorem turned_lt (k : Rotate) (bits x n : Nat) : k.turned bits x n < 2 ^ bits := by
  cases k <;> exact BitVec.isLt _

/-- Only the rest of a count by the number of bits matters. -/
theorem turned_mod (k : Rotate) (bits x n : Nat) : k.turned bits x (n % bits) = k.turned bits x n := by
  cases k with
  | left => exact congrArg BitVec.toNat BitVec.rotateLeft_mod_eq_rotateLeft
  | right => exact congrArg BitVec.toNat BitVec.rotateRight_mod_eq_rotateRight

theorem turned_zero (k : Rotate) {x : Nat} (hx : x < 2 ^ bits) : k.turned bits x 0 = x := by
  have hout : x >>> bits = 0 := by rw [Nat.shiftRight_eq_div_pow, Nat.div_eq_of_lt hx]
  cases k with
  | left =>
    rw [turned, BitVec.toNat_rotateLeft, BitVec.toNat_ofNat, Nat.zero_mod, Nat.shiftLeft_zero, Nat.mod_mod,
      Nat.sub_zero, Nat.mod_eq_of_lt hx, hout, Nat.or_zero]
  | right =>
    rw [turned, BitVec.toNat_rotateRight, BitVec.toNat_ofNat, Nat.zero_mod, Nat.shiftRight_zero, Nat.sub_zero,
      Nat.mod_eq_of_lt hx, Nat.shiftLeft_eq, Nat.mul_mod_left, Nat.or_zero]

theorem add_mod_cases {w : Nat} (n : Nat) {j : Nat} (hj : j < w) :
    n % w < w ∧ (n % w + j < w ∧ (n + j) % w = n % w + j ∨ w ≤ n % w + j ∧ (n + j) % w = n % w + j - w) := by
  have hn := Nat.mod_lt n (Nat.zero_lt_of_lt hj)
  have hadd : (n + j) % w = (n % w + j) % w := (Nat.mod_add_mod n w j).symm
  refine ⟨hn, ?_⟩
  rcases Nat.lt_or_ge (n % w + j) w with h | h
  · exact .inl ⟨h, hadd.trans (Nat.mod_eq_of_lt h)⟩
  · exact .inr ⟨h, by rw [hadd, Nat.mod_eq_sub_mod h, Nat.mod_eq_of_lt (by omega)]⟩

theorem getLsbD_rotateRight {w : Nat} (x : BitVec w) (n : Nat) {j : Nat} (hj : j < w) :
    (x.rotateRight n).getLsbD j = x.getLsbD ((n + j) % w) := by
  rw [BitVec.getLsbD_rotateRight]
  obtain ⟨hn, ⟨h, heq⟩ | ⟨h, heq⟩⟩ := add_mod_cases n hj <;> rw [heq]
  · rw [decide_eq_true (by omega), cond_true]
  · rw [decide_eq_false (by omega), cond_false, decide_eq_true hj, Bool.true_and]
    congr 1
    omega

theorem getLsbD_rotateLeft {w : Nat} (x : BitVec w) (n : Nat) {j : Nat} (hj : j < w) :
    (x.rotateLeft n).getLsbD ((n + j) % w) = x.getLsbD j := by
  rw [BitVec.getLsbD_rotateLeft]
  obtain ⟨hn, ⟨h, heq⟩ | ⟨h, heq⟩⟩ := add_mod_cases n hj <;> rw [heq]
  · rw [decide_eq_false (by omega), cond_false, decide_eq_true h, Bool.true_and, Nat.add_sub_cancel_left]
  · rw [decide_eq_true (by omega), cond_true]
    congr 1
    omega

/-- Two rotates in a row are one by both counts. -/
theorem turned_turned (k : Rotate) (bits x s t : Nat) :
    k.turned bits (k.turned bits x s) t = k.turned bits x (s + t) := by
  cases k with
  | left =>
    have h : ((BitVec.ofNat bits x).rotateLeft s).rotateLeft t = (BitVec.ofNat bits x).rotateLeft (s + t) := by
      apply BitVec.eq_of_getMsbD_eq
      intro j hj
      rw [BitVec.getMsbD_rotateLeft, BitVec.getMsbD_rotateLeft, BitVec.getMsbD_rotateLeft, Nat.add_mod_mod,
        ← Nat.add_assoc, decide_eq_true (Nat.mod_lt _ (Nat.zero_lt_of_lt hj)), Bool.true_and]
    show ((BitVec.ofNat bits ((BitVec.ofNat bits x).rotateLeft s).toNat).rotateLeft t).toNat = _
    rw [BitVec.ofNat_toNat, BitVec.setWidth_eq, h]
    rfl
  | right =>
    have h : ((BitVec.ofNat bits x).rotateRight s).rotateRight t = (BitVec.ofNat bits x).rotateRight (s + t) := by
      apply BitVec.eq_of_getLsbD_eq
      intro j hj
      rw [getLsbD_rotateRight _ _ hj, getLsbD_rotateRight _ _ (Nat.mod_lt _ (Nat.zero_lt_of_lt hj)),
        getLsbD_rotateRight _ _ hj, Nat.add_mod_mod, Nat.add_assoc]
    show ((BitVec.ofNat bits ((BitVec.ofNat bits x).rotateRight s).toNat).rotateRight t).toNat = _
    rw [BitVec.ofNat_toNat, BitVec.setWidth_eq, h]
    rfl

/-- A rotate is undone by the one the other way. -/
theorem turned_opposite (k : Rotate) {x : Nat} (hx : x < 2 ^ bits) (n : Nat) :
    k.opposite.turned bits (k.turned bits x n) n = x := by
  have hself : (BitVec.ofNat bits x).toNat = x := by rw [BitVec.toNat_ofNat, Nat.mod_eq_of_lt hx]
  cases k with
  | left =>
    have h : ((BitVec.ofNat bits x).rotateLeft n).rotateRight n = BitVec.ofNat bits x := by
      apply BitVec.eq_of_getLsbD_eq
      intro j hj
      rw [getLsbD_rotateRight _ _ hj, getLsbD_rotateLeft _ _ hj]
    show ((BitVec.ofNat bits ((BitVec.ofNat bits x).rotateLeft n).toNat).rotateRight n).toNat = x
    rw [BitVec.ofNat_toNat, BitVec.setWidth_eq, h, hself]
  | right =>
    have h : ((BitVec.ofNat bits x).rotateRight n).rotateLeft n = BitVec.ofNat bits x := by
      apply BitVec.eq_of_getLsbD_eq
      intro j hj
      -- every position is where some bit is moved to
      obtain ⟨i, hi, rfl⟩ : ∃ i < bits, (n + i) % bits = j := by
        have hn := Nat.mod_lt n (Nat.zero_lt_of_lt hj)
        rcases Nat.lt_or_ge j (n % bits) with hlt | hge
        · have hi : j + bits - n % bits < bits := by omega
          exact ⟨_, hi, by have := add_mod_cases n hi; omega⟩
        · have hi : j - n % bits < bits := by omega
          exact ⟨_, hi, by have := add_mod_cases n hi; omega⟩
      rw [getLsbD_rotateLeft _ _ hi, getLsbD_rotateRight _ _ hi]
    show ((BitVec.ofNat bits ((BitVec.ofNat bits x).rotateRight n).toNat).rotateLeft n).toNat = x
    rw [BitVec.ofNat_toNat, BitVec.setWidth_eq, h, hself]

/-! ## Results -/

/-- How far up a rotate moves the bits that it moves up. It moves the others down, as far as its opposite moves up. -/
def up (k : Rotate) (bits c : Nat) : Nat :=
  match k with
  | left => c
  | right => bits - c

/-- The bits that move up and those that move down make up the value. -/
theorem toNat_turned (k : Rotate) (hle : width ≤ 8) (ha : a.toNat < 2 ^ (8 * width)) {c : Nat} (hc : 0 < c)
    (hlt : c < 8 * width) :
    (((a <<< UInt64.ofNat (k.up (8 * width) c)) ||| (a >>> UInt64.ofNat (k.opposite.up (8 * width) c))) &&&
      Word.mask width).toNat = k.turned (8 * width) a.toNat c := by
  have hcount : k.up (8 * width) c < 64 ∧ k.opposite.up (8 * width) c < 64 := by
    cases k <;> simp only [up, opposite] <;> omega
  have hright : a.toNat / 2 ^ k.opposite.up (8 * width) c < 2 ^ (8 * width) :=
    Nat.lt_of_le_of_lt (Nat.div_le_self _ _) ha
  rw [Word.toNat_and_mask _ hle, UInt64.toNat_or, Nat.or_mod_two_pow, UInt64.toNat_shiftLeft,
    Shift.toNat_ofNat_count hcount.1, Nat.mod_mod_of_dvd _ (Word.two_pow_dvd hle),
    Shift.toNat_shiftRight_count a hcount.2, Nat.mod_eq_of_lt hright, ← Nat.shiftRight_eq_div_pow]
  cases k with
  | left =>
    show _ = ((BitVec.ofNat (8 * width) a.toNat).rotateLeft c).toNat
    rw [BitVec.toNat_rotateLeft, BitVec.toNat_ofNat, Nat.mod_eq_of_lt ha, Nat.mod_eq_of_lt hlt]
    rfl
  | right =>
    show _ = ((BitVec.ofNat (8 * width) a.toNat).rotateRight c).toNat
    rw [BitVec.toNat_rotateRight, BitVec.toNat_ofNat, Nat.mod_eq_of_lt ha, Nat.mod_eq_of_lt hlt, Nat.or_comm]
    rfl

/-- By a multiple of the number of bits a rotate has no result. By any other count it has the value turned, and sets
carry to the bit that was moved last. -/
theorem result?_eq (k : Rotate) (hpos : 1 ≤ width) (hle : width ≤ 8) (ha : a.toNat < 2 ^ (8 * width)) (n : Nat) :
    match k.result? width a n with
    | none => n % (8 * width) = 0
    | some r => n % (8 * width) ≠ 0 ∧ r.value.toNat = k.turned (8 * width) a.toNat n ∧
      ∃ overflow, r.flags =
        [(.carry, k.moved (8 * width) (k.turned (8 * width) a.toNat n)), (.overflow, overflow)] := by
  have hc : n % (8 * width) < 8 * width := Nat.mod_lt _ (by omega)
  cases k with
  | left =>
    rw [result?, rotateLeft?, widthBits_of_le hle]
    dsimp only
    by_cases hn : n % (8 * width) = 0
    · rw [if_pos (.inr hn)]
      exact hn
    · rw [if_neg (by omega)]
      have hvalue := toNat_turned .left hle ha (Nat.pos_of_ne_zero hn) hc
      rw [turned_mod] at hvalue
      dsimp only [up, opposite] at hvalue
      refine ⟨hn, hvalue, _, congrArg (fun carry => [(Flag.carry, carry), _]) ?_⟩
      rw [lowBit, hvalue, moved, Nat.testBit_zero]
      rfl
  | right =>
    rw [result?, rotateRight?, widthBits_of_le hle]
    dsimp only
    by_cases hn : n % (8 * width) = 0
    · rw [if_pos (.inr hn)]
      exact hn
    · rw [if_neg (by omega)]
      have hvalue := toNat_turned .right hle ha (Nat.pos_of_ne_zero hn) hc
      rw [turned_mod, UInt64.or_comm] at hvalue
      dsimp only [up, opposite] at hvalue
      refine ⟨hn, hvalue, _, congrArg (fun carry => [(Flag.carry, carry), _]) ?_⟩
      rw [Word.signBit, Word.signWidth_of_mem hpos hle, hvalue, moved]

/-! ## Executing -/

theorem ofMnemonic?_mnemonic (k : Rotate) : Operation.ofMnemonic? k.mnemonic = some k.operation := by
  cases k <;> decide +kernel

/-- A rotate sets the flags of its result and stores its value, if it has one, and otherwise does nothing. -/
theorem run_operation (k : Rotate) (hdst : i.operands[0]? = some dst) (m : Machine) :
    let n := maskedCount dst.width (((i.operands[1]?).map m.operandValue).getD 1)
    k.operation.run i m = match k.result? dst.width (m.operandValue dst &&& Word.mask dst.width) n with
      | some r => Exec.finish dst r m
      | none => .ok () m := by
  intro n
  have hrotate : ∀ op, Exec.rotate i op m =
      match op dst.width (m.operandValue dst &&& Word.mask dst.width) n with
      | some r => Exec.finish dst r m
      | none => .ok () m := by
    intro op
    refine (Exec.bind_of_ok (Exec.shiftOperands_eq hdst m)).trans ?_
    show (match op dst.width (m.operandValue dst &&& Word.mask dst.width) n with
      | some r => Exec.finish dst r
      | none => pure ()) m = _
    cases op dst.width (m.operandValue dst &&& Word.mask dst.width) n <;> rfl
  cases k <;> exact hrotate _

end Rotate

namespace Machine

variable {k : Rotate} {m m' m'' : Machine} {a b next : Address} {i j : Instruction} {o dst : Operand} {s t n : Nat}

/-- What a rotate of a place by a count leaves of a machine, but for carry. The place is looked at with control at the
instruction that follows. -/
structure Rotated (k : Rotate) (o : Operand) (next : Address) (n : Nat) (m m' : Machine) : Prop where
  toNat_value : ((m'.withIp next).operandValue o).toNat =
    k.turned (8 * o.width) ((m.withIp next).operandValue o).toNat n
  flag : ∀ f, f ≠ .carry → f ≠ .overflow → m'.registers.flag f = m.registers.flag f
  address : (∀ r, o.kind = .memory r → ∀ name, r.base = some name ∨ r.index = some name → ¬ m.arch.namesFlags name) →
    (m'.withIp next).operandAddress? o = (m.withIp next).operandAddress? o
  arch : m'.arch = m.arch
  listing : m'.listing = m.listing

namespace Rotated

theorem refl (k : Rotate) (ho : o.IsPlace m.arch) (hle : o.width ≤ 8) (hn : n % (8 * o.width) = 0) (next : Address) :
    Rotated k o next n m m where
  toNat_value := by
    rw [← k.turned_mod, hn, k.turned_zero (toNat_operandValue_lt (m := m.withIp next) ho hle)]
  flag _ _ _ := rfl
  address _ := rfl
  arch := rfl
  listing := rfl

theorem trans (h : Rotated k o next s m m') (h' : Rotated k o next t m' m'') : Rotated k o next (s + t) m m'' where
  toNat_value := by rw [h'.toNat_value, h.toNat_value, k.turned_turned]
  flag f hf hf' := (h'.flag f hf hf').trans (h.flag f hf hf')
  address hnames := (h'.address (h.arch.symm ▸ hnames)).trans (h.address hnames)
  arch := h'.arch.trans h.arch
  listing := h'.listing.trans h.listing

end Rotated

/-- Before it takes effect, a rotate has turned its place by whole turns. -/
theorem rotated_prepare (k : Rotate) (ho : o.IsPlace m.arch) (hle : o.width ≤ 8) (hn : n % (8 * o.width) = 0)
    (a : Address) (i : Instruction) : Rotated k o i.next n m (m.prepare a i) := by
  have hself := Rotated.refl k ho hle hn i.next
  refine ⟨?_, fun f _ _ => ?_, fun _ => ?_, m.arch_prepare a i, m.listing_prepare a i⟩
  · rw [withIp_prepare, operandValue_prepare_eq, ← hself.toNat_value]
  · exact m.flag_prepare a i f
  · rw [withIp_prepare, operandAddress?_prepare_eq]

/-- What a rotate that has a result does when it takes effect. -/
theorem rotated_finish {r : Arithmetic.Result} (k : Rotate) (ho : o.IsPlace m.arch) (hle : o.width ≤ 8)
    (hip : m.ip = m.arch.wrap next) (hvalue : r.value.toNat = k.turned (8 * o.width) (m.operandValue o).toNat n)
    {carry overflow : Bool} (hflags : r.flags = [(.carry, carry), (.overflow, overflow)]) :
    ∃ m', Exec.finish o r m = .ok () m' ∧ Rotated k o next n m m' ∧ m'.ip = m'.arch.wrap next ∧
      m'.registers.flag .carry = carry := by
  have hnodup : (r.flags.map (·.1)).Nodup := by
    rw [hflags]
    exact (by decide : [Flag.carry, .overflow].Nodup)
  obtain ⟨m', hfinish, h⟩ := finish_at ho hle (hvalue ▸ k.turned_lt ..) hip
  have hflag : ∀ f, m'.registers.flag f = (r.flags.lookup f).getD (m.registers.flag f) := fun f =>
    (h.flag f).trans (m.registers.flag_withFlags hnodup f)
  rw [hflags] at hflag
  refine ⟨m', hfinish, ⟨?_, fun f hf hf' => ?_, h.address, h.arch, h.listing⟩, h.ip, hflag .carry⟩
  · rw [h.toNat_value, hvalue, withIp_of_ip hip]
  · rw [hflag]
    cases f with
    | carry => exact absurd rfl hf
    | overflow => exact absurd rfl hf'
    | zero | sign | parity | adjust | direction => rfl

/-- A rotate turns its destination by its count, and sets carry to the bit that is moved last. By whole turns it does
nothing at all. -/
theorem rotated_execute (k : Rotate) (hi : m.listing.decode? a = some i) (hk : i.mnemonic = k.mnemonic)
    (hdst : i.operands[0]? = some dst) (hplace : dst.IsPlace m.arch) (hpos : 1 ≤ dst.width) (hle : dst.width ≤ 8) :
    let p := m.prepare a i
    let n := (((i.operands[1]?).map p.operandValue).getD 1).toNat % if dst.width = 8 then 64 else 32
    ∃ m', execute a m = .ok () m' ∧ Rotated k dst i.next n m m' ∧ m'.ip = m'.arch.wrap i.next ∧
      (n % (8 * dst.width) = 0 → m' = p) ∧
      (n % (8 * dst.width) ≠ 0 → m'.registers.flag .carry =
        k.moved (8 * dst.width) ((m'.withIp i.next).operandValue dst).toNat) := by
  intro p n
  have harch : p.arch = m.arch := m.arch_prepare a i
  have hip : p.ip = p.arch.wrap i.next := harch ▸ m.ip_prepare a i
  have hx : (p.operandValue dst).toNat < 2 ^ (8 * dst.width) := toNat_operandValue_lt (harch ▸ hplace) hle
  have hrun := (execute_of_mnemonic hi (hk ▸ k.ofMnemonic?_mnemonic)).trans (k.run_operation hdst p)
  rw [Word.and_mask_of_lt hle hx, Shift.toNat_maskedCount] at hrun
  have hresult := k.result?_eq hpos hle hx n
  cases hr : k.result? dst.width (p.operandValue dst) n with
  | none =>
    rw [hr] at hresult
    rw [show k.result? dst.width (p.operandValue dst) _ = none from hr] at hrun
    exact ⟨p, hrun, rotated_prepare k hplace hle hresult a i, hip, fun _ => rfl, fun hn => (hn hresult).elim⟩
  | some r =>
    rw [hr] at hresult
    rw [show k.result? dst.width (p.operandValue dst) _ = some r from hr] at hrun
    obtain ⟨hn, hvalue, overflow, hflags⟩ := hresult
    obtain ⟨m', hfinish, hrotated, hip', hcarry⟩ := rotated_finish k (harch ▸ hplace) hle hip hvalue hflags
    have hwhole : Rotated k dst i.next 0 m p := rotated_prepare k hplace hle (Nat.zero_mod _) a i
    refine ⟨m', hrun.trans hfinish, ?_, hip', fun h => (hn h).elim, fun _ => ?_⟩
    · rw [← Nat.zero_add n]
      exact hwhole.trans hrotated
    · rw [hcarry, hrotated.toNat_value, withIp_of_ip hip]

/-- A run of rotates by one turns by their number, and sets carry to the bit that is moved last. -/
theorem rotated_iterate (k : Rotate) (hj : m.listing.decode? b = some j) (hk : j.mnemonic = k.mnemonic)
    (hdst : j.operands[0]? = some dst) (hone : ∀ q : Machine, ((j.operands[1]?).map q.operandValue).getD 1 = 1)
    (hplace : dst.IsPlace m.arch) (hpos : 1 ≤ dst.width) (hle : dst.width ≤ 8) (n : Nat) :
    ∃ m', Exec.iterate (execute b) n m = .ok () m' ∧ Rotated k dst j.next n m m' ∧ (n = 0 → m' = m) ∧
      (n ≠ 0 → m'.registers.flag .carry =
        k.moved (8 * dst.width) ((m'.withIp j.next).operandValue dst).toNat) := by
  induction n generalizing m with
  | zero => exact ⟨m, rfl, .refl k hplace hle (Nat.zero_mod _) j.next, fun _ => rfl, fun h => (h rfl).elim⟩
  | succ n ih =>
    obtain ⟨m', hstep, hrotated, -, -, hcarry⟩ := rotated_execute k hj hk hdst hplace hpos hle
    rw [hone, show (1 : UInt64).toNat % (if dst.width = 8 then 64 else 32) = 1 by split <;> rfl] at hrotated hcarry
    rw [Nat.mod_eq_of_lt (by omega : 1 < 8 * dst.width)] at hcarry
    obtain ⟨m'', hrest, hrotated', hnone, hcarry'⟩ := ih (hrotated.listing.symm ▸ hj) (hrotated.arch.symm ▸ hplace)
    refine ⟨m'', ?_, ?_, fun h => (n.succ_ne_zero h).elim, fun _ => ?_⟩
    · rw [Exec.iterate, hstep]
      exact hrest
    · rw [Nat.add_comm]
      exact hrotated.trans hrotated'
    · by_cases hn : n = 0
      · rw [hnone hn]
        exact hcarry (by decide)
      · exact hcarry' hn

/-- A rotate by a count, of which the low five bits matter, or six if the destination has eight bytes, turns its
destination by it, as that many rotates by one do, and leaves every flag apart from carry and overflow alone. The one
the other way by the same count turns it back. If the count is no multiple of the number of bits, carry too is what so
many rotates by one leave, the bit that the last of them moved from one end to the other. But by whole turns a rotate
does nothing except move on to the next instruction, and carry stays, which rotates by one set unless there are none.
-/
theorem execute_rotate (k : Rotate) (hi : m.listing.decode? a = some i) (hk : i.mnemonic = k.mnemonic)
    (hdst : i.operands[0]? = some dst) (hplace : dst.IsPlace m.arch) (hpos : 1 ≤ dst.width) (hle : dst.width ≤ 8) :
    let p := m.prepare a i
    let x := (p.operandValue dst).toNat
    let n := (((i.operands[1]?).map p.operandValue).getD 1).toNat % if dst.width = 8 then 64 else 32
    ∃ m', execute a m = .ok () m' ∧
      (m'.operandValue dst).toNat = (match k with
        | .left => (BitVec.ofNat (8 * dst.width) x).rotateLeft n
        | .right => (BitVec.ofNat (8 * dst.width) x).rotateRight n).toNat ∧
      (∀ f, f ≠ .carry → f ≠ .overflow → m'.registers.flag f = m.registers.flag f) ∧
      (n % (8 * dst.width) = 0 → m'.registers = m.registers.withIp i.next ∧ m'.memory = m.memory) ∧
      (∀ listing b j, listing.decode? b = some j → j.mnemonic = k.mnemonic → j.next = i.next →
        j.operands[0]? = some dst → (∀ q : Machine, ((j.operands[1]?).map q.operandValue).getD 1 = 1) →
        ∃ m'', Exec.iterate (execute b) n { m with listing } = .ok () m'' ∧
          (m''.withIp i.next).operandValue dst = m'.operandValue dst ∧
          ((∀ r, dst.kind = .memory r →
              ∀ name, r.base = some name ∨ r.index = some name → ¬ m.arch.namesFlags name) →
            (m''.withIp i.next).operandAddress? dst = m'.operandAddress? dst) ∧
          (∀ f, f ≠ .carry → f ≠ .overflow → m''.registers.flag f = m'.registers.flag f) ∧
          (n = 0 ∨ n % (8 * dst.width) ≠ 0 → m''.registers.flag .carry = m'.registers.flag .carry) ∧
          (n ≠ 0 → m''.registers.flag .carry = (m'.operandValue dst).toNat.testBit (match k with
            | .left => 0
            | .right => 8 * dst.width - 1))) ∧
      ∀ listing b j, listing.decode? b = some j → j.mnemonic = k.opposite.mnemonic →
        j.next = i.next ∨ dst.isRelative = false → j.operands[0]? = some dst →
        (((j.operands[1]?).map (prepare { m' with listing } b j).operandValue).getD 1).toNat %
          (if dst.width = 8 then 64 else 32) = n →
        ∃ m'', execute b { m' with listing } = .ok () m'' ∧
          (m''.withIp i.next).operandValue dst = p.operandValue dst ∧
          ((∀ r, dst.kind = .memory r →
              ∀ name, r.base = some name ∨ r.index = some name → ¬ m.arch.namesFlags name) →
            (m''.withIp i.next).operandAddress? dst = p.operandAddress? dst) := by
  intro p x n
  obtain ⟨m', hrun, hrotated, hip, hnone, hcarry⟩ := rotated_execute k hi hk hdst hplace hpos hle
  have hsame : m'.withIp i.next = m' := withIp_of_ip hip
  have hx : x < 2 ^ (8 * dst.width) :=
    toNat_operandValue_lt (show dst.IsPlace p.arch from (m.arch_prepare a i).symm ▸ hplace) hle
  have hvalue := hrotated.toNat_value
  rw [hsame, ← m.operandValue_prepare_eq a i dst] at hvalue
  refine ⟨m', hrun, ?_, hrotated.flag, fun hn => ?_, ?_, ?_⟩
  · rw [hvalue]
    cases k <;> rfl
  · obtain rfl := hnone hn
    exact ⟨m.registers_prepare a i, m.memory_prepare a i⟩
  · intro listing b j hj hk' hnext hdst' hone
    obtain ⟨m'', hiterate, hrotated', hzero, hcarry'⟩ :=
      rotated_iterate (m := { m with listing }) k hj hk' hdst' hone hplace hpos hle n
    rw [hnext] at hrotated' hcarry'
    have hplaced : (m''.withIp i.next).operandValue dst = m'.operandValue dst := by
      apply UInt64.toNat_inj.1
      rw [hrotated'.toNat_value, ← hsame]
      exact hrotated.toNat_value.symm
    refine ⟨m'', hiterate, hplaced, fun hnames => ?_, fun f hf hf' => ?_, fun hn => ?_, fun hn => ?_⟩
    · rw [hrotated'.address hnames, ← hsame]
      exact (hrotated.address hnames).symm
    · rw [hrotated'.flag f hf hf']
      exact (hrotated.flag f hf hf').symm
    · rcases hn with hn | hn
      · rw [hzero hn, hnone (show n % (8 * dst.width) = 0 by rw [hn, Nat.zero_mod]), registers_prepare]
        exact (m.registers.flag_withIp .carry i.next).symm
      · rw [hcarry' fun h => hn (by rw [h, Nat.zero_mod]), hcarry hn, hplaced, hsame]
    · rw [hcarry' hn, hplaced]
      cases k <;> rfl
  · intro listing b j hj hk' hnext hdst' hcount
    -- the place is the same for both instructions
    have hat : ∀ q : Machine, (q.withIp j.next).operandValue dst = (q.withIp i.next).operandValue dst ∧
        (q.withIp j.next).operandAddress? dst = (q.withIp i.next).operandAddress? dst := by
      intro q
      rcases hnext with hnext | hrelative
      · rw [hnext]
        exact ⟨rfl, rfl⟩
      · exact ⟨by rw [operandValue_withIp hrelative, operandValue_withIp hrelative],
          by rw [operandAddress?_withIp hrelative, operandAddress?_withIp hrelative]⟩
    obtain ⟨m'', hback, hopposite, -⟩ := rotated_execute (m := { m' with listing }) k.opposite hj hk' hdst'
      (show dst.IsPlace m'.arch from hrotated.arch.symm ▸ hplace) hpos hle
    rw [hcount] at hopposite
    refine ⟨m'', hback, ?_, fun hnames => ?_⟩
    · apply UInt64.toNat_inj.1
      rw [← (hat m'').1, hopposite.toNat_value, (hat _).1]
      show k.opposite.turned _ ((m'.withIp i.next).operandValue dst).toNat n = x
      rw [hsame, hvalue, k.turned_opposite hx]
    · rw [← hrotated.arch] at hnames
      rw [← (hat m'').2, hopposite.address hnames, (hat _).2, operandAddress?_prepare_eq]
      exact hrotated.address (hrotated.arch ▸ hnames)

/-- A byte that is turned round once and by one more is turned by one, as it is by nine rotates by one. -/
theorem execute_rol_byte :
    let dst := Operand.ofRegister "al" 1
    let i := Instruction.of 0x1000 "rol" 3 [dst, .ofImmediate "9" 1 9]
    let j := Instruction.of 0x1000 "rol" 3 [dst, .ofImmediate "1" 1 1]
    let m := (Exec.setRegister "al" 0x81).after (Machine.fresh ((Listing.empty .x86).addInstruction i) {})
    ∃ m' m'', execute 0x1000 m = .ok () m' ∧ (m'.operandValue dst).toNat = 0x03 ∧
      Exec.iterate (execute 0x1000) 9 { m with listing := (Listing.empty .x86).addInstruction j } = .ok () m'' ∧
      m''.operandValue dst = m'.operandValue dst ∧ m''.registers.flag .carry = m'.registers.flag .carry := by
  intro dst i j m
  have hregister : dst.IsPlace .x86 := ⟨⟨(0 : Fin 24), 0, 8, false⟩, by decide +kernel, by decide, rfl⟩
  have harch : m.arch = .x86 := by decide +kernel
  have hplace : dst.IsPlace m.arch := harch ▸ hregister
  have hdst : i.operands[0]? = some dst := rfl
  obtain ⟨m', hrun, hvalue, -, -, hruns, -⟩ := execute_rotate .left (m := m) (a := 0x1000) (i := i) (by decide +kernel)
    (by decide +kernel) hdst hplace (by decide) (by decide)
  have hx : (m.prepare 0x1000 i).operandValue dst = 0x81 := by decide +kernel
  have hn : (((i.operands[1]?).map (m.prepare 0x1000 i).operandValue).getD 1).toNat %
      (if dst.width = 8 then 64 else 32) = 9 := by decide
  rw [hx, hn] at hvalue
  rw [hn] at hruns
  obtain ⟨m'', hiterate, hsame, -, -, hcarry, -⟩ := hruns ((Listing.empty .x86).addInstruction j) 0x1000 j
    (by decide +kernel) (by decide +kernel) rfl rfl fun q => rfl
  rw [operandValue_withIp (by decide +kernel)] at hsame
  exact ⟨m', m'', hrun, hvalue.trans (by decide), hiterate, hsame, hcarry (.inr (by decide))⟩

/-- A byte that is turned round once stays, and so does carry, which eight rotates by one set. -/
theorem execute_rol_whole_turn :
    let dst := Operand.ofRegister "al" 1
    let i := Instruction.of 0x1000 "rol" 3 [dst, .ofImmediate "8" 1 8]
    let j := Instruction.of 0x1000 "rol" 3 [dst, .ofImmediate "1" 1 1]
    let m := (Exec.setRegister "al" 0x81).after (Machine.fresh ((Listing.empty .x86).addInstruction i) {})
    ((execute 0x1000).after m).registers.flag .carry = false ∧
      ((Exec.iterate (execute 0x1000) 8).after
        { m with listing := (Listing.empty .x86).addInstruction j }).registers.flag .carry = true := by
  decide +kernel

end Machine
end PathReplay
