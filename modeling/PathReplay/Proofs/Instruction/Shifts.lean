import PathReplay.Proofs.Instruction.TwosComplement
import PathReplay.Proofs.Machine.Places

/-!
# Shifts

* `Shift`, `Shift.shifted`, `Shift.flags` : the shifts, the value that each of them stores, and the flags that it sets,
  by arithmetic;
* `Shift.shifted_shifted`, `Shift.flag_shifted` : two shifts in a row are one by both counts;
* `Machine.Shifted`, `shifted_execute`, `shifted_iterate` : what a shift leaves of a machine, and what a run of shifts
  by one does;
* `execute_shift` : a shift stores its value, and leaves its destination and the flags as that many shifts by one do.
-/

namespace PathReplay

/-- What a shift or a rotate is given: its destination, the value there and the count. -/
theorem Exec.shiftOperands_eq {i : Instruction} {dst : Operand} (hdst : i.operands[0]? = some dst) (m : Machine) :
    Exec.shiftOperands i m = .ok (dst, m.operandValue dst &&& Word.mask dst.width,
      Arithmetic.maskedCount dst.width (((i.operands[1]?).map m.operandValue).getD 1)) m := by
  unfold Exec.shiftOperands Exec.operand
  rw [hdst]
  rfl

inductive Shift where
  | left
  | right
  | rightSigned
deriving DecidableEq

namespace Shift

open Arithmetic

variable {k : Shift} {width : Nat} {a : UInt64} {i : Instruction} {dst : Operand}

def mnemonics : Shift → List String
  | left => ["shl", "sal"]
  | right => ["shr"]
  | rightSigned => ["sar"]

def operation : Shift → Operation
  | left => .shiftLeft
  | right => .shiftRight
  | rightSigned => .shiftRightSigned

/-- The value that is stored and the flags that are set, for a count that is not zero. -/
def result : Shift → Nat → UInt64 → Nat → Result
  | left => shiftLeft
  | right => shiftRight
  | rightSigned => shiftRightSigned

/-- A value of a width after a shift. -/
def shifted (k : Shift) (width x n : Nat) : Nat :=
  match k with
  | left => x * 2 ^ n % 2 ^ (8 * width)
  | right => x / 2 ^ n
  | rightSigned => (Int.bmod x (2 ^ (8 * width)) / 2 ^ n % 2 ^ (8 * width)).toNat

/-- The bit that a shift by one drops. -/
def dropped (k : Shift) (width x : Nat) : Bool :=
  match k with
  | left => x.testBit (8 * width - 1)
  | right | rightSigned => x.testBit 0

/-- The flags of a shift, apart from overflow. Carry is the bit that the last of so many shifts by one drops. -/
def flags (k : Shift) (width x n : Nat) : List (Flag × Bool) :=
  let v := k.shifted width x n
  [(.carry, k.dropped width (k.shifted width x (n - 1))), (.zero, decide (v = 0)), (.sign, v.testBit (8 * width - 1)),
    (.parity, (List.range 8).countP v.testBit % 2 == 0)]

/-- A flag after a shift. By zero it sets none. -/
def flag (k : Shift) (width x n : Nat) (f : Flag) (old : Bool) : Bool :=
  if n = 0 then old else ((k.flags width x n).lookup f).getD old

theorem toNat_ofNat_count {n : Nat} (h : n < 64) : (UInt64.ofNat n).toNat % 64 = n := by
  rw [UInt64.toNat_ofNat']
  omega

theorem toNat_shiftRight_count (a : UInt64) {n : Nat} (h : n < 64) : (a >>> UInt64.ofNat n).toNat = a.toNat / 2 ^ n := by
  rw [UInt64.toNat_shiftRight, toNat_ofNat_count h, Nat.shiftRight_eq_div_pow]

theorem lowBit_shiftRight (a : UInt64) {n : Nat} (h : n < 64) : lowBit (a >>> UInt64.ofNat n) = a.toNat.testBit n := by
  rw [lowBit, toNat_shiftRight_count a h, Nat.testBit_eq_decide_div_mod_eq]
  rfl

/-! ## Shifts in a row -/

theorem natCast_shifted (width x n : Nat) :
    (shifted .rightSigned width x n : Int) = Int.bmod x (2 ^ (8 * width)) / 2 ^ n % 2 ^ (8 * width) :=
  Int.toNat_of_nonneg (Int.emod_nonneg _ (Int.pow_ne_zero (by decide)))

theorem shifted_lt (k : Shift) {x : Nat} (hx : x < 2 ^ (8 * width)) (n : Nat) :
    k.shifted width x n < 2 ^ (8 * width) := by
  cases k with
  | left => exact Nat.mod_lt _ (Nat.two_pow_pos _)
  | right => exact Nat.lt_of_le_of_lt (Nat.div_le_self _ _) hx
  | rightSigned =>
    have hlt := Int.emod_lt_of_pos (Int.bmod x (2 ^ (8 * width)) / 2 ^ n) (b := 2 ^ (8 * width))
      (Int.pow_pos (by decide))
    rw [← natCast_shifted] at hlt
    exact_mod_cast hlt

theorem shifted_zero (k : Shift) {x : Nat} (hx : x < 2 ^ (8 * width)) : k.shifted width x 0 = x := by
  cases k with
  | left =>
    show x * 2 ^ 0 % 2 ^ (8 * width) = x
    rw [Nat.pow_zero, Nat.mul_one, Nat.mod_eq_of_lt hx]
  | right => exact Nat.div_one x
  | rightSigned =>
    have hcount : ((2 ^ (8 * width) : Nat) : Int) = 2 ^ (8 * width) := by push_cast; rfl
    apply Int.natCast_inj.1
    rw [natCast_shifted, Int.pow_zero, Int.ediv_one, ← hcount, Int.bmod_emod, ← Int.natCast_emod, Nat.mod_eq_of_lt hx]

/-- The signed value of what a signed shift stores. -/
theorem bmod_shifted (hpos : 1 ≤ width) (x n : Nat) :
    Int.bmod (shifted .rightSigned width x n) (2 ^ (8 * width)) = Int.bmod x (2 ^ (8 * width)) / 2 ^ n := by
  have hcount : ((2 ^ (8 * width) : Nat) : Int) = 2 ^ (8 * width) := by push_cast; rfl
  rw [natCast_shifted, ← hcount, Int.emod_bmod, Word.bmod_eq_self_iff hpos]
  obtain ⟨hlo, hhi⟩ := (Word.bmod_eq_self_iff hpos).1 (Int.bmod_bmod (x := x) (m := 2 ^ (8 * width)))
  have hone : (1 : Int) ≤ 2 ^ n := Int.pow_pos (by decide)
  have hhalf : (2 : Int) ^ (8 * width - 1) * 1 ≤ 2 ^ (8 * width - 1) * 2 ^ n :=
    Int.mul_le_mul_of_nonneg_left hone (Int.pow_nonneg (by decide))
  constructor
  · rw [Int.le_ediv_iff_mul_le (by omega), Int.neg_mul]
    omega
  · rw [Int.ediv_lt_iff_lt_mul (by omega)]
    omega

/-- Two shifts in a row are one by both counts. -/
theorem shifted_shifted (k : Shift) (hpos : 1 ≤ width) (x s t : Nat) :
    k.shifted width (k.shifted width x s) t = k.shifted width x (s + t) := by
  cases k with
  | left =>
    show x * 2 ^ s % 2 ^ (8 * width) * 2 ^ t % 2 ^ (8 * width) = x * 2 ^ (s + t) % 2 ^ (8 * width)
    rw [Nat.mod_mul_mod, Nat.pow_add, Nat.mul_assoc]
  | right =>
    show x / 2 ^ s / 2 ^ t = x / 2 ^ (s + t)
    rw [Nat.div_div_eq_div_mul, Nat.pow_add]
  | rightSigned =>
    have hdiv : Int.bmod x (2 ^ (8 * width)) / 2 ^ s / 2 ^ t = Int.bmod x (2 ^ (8 * width)) / 2 ^ (s + t) := by
      rw [Int.ediv_ediv_of_nonneg (Int.pow_nonneg (by decide)), Int.pow_add]
    rw [shifted, bmod_shifted hpos, hdiv, shifted]

/-- The flags do not tell two shifts in a row from one by both counts. -/
theorem flag_shifted (k : Shift) (hpos : 1 ≤ width) (x s t : Nat) (f : Flag) (old : Bool) :
    k.flag width (k.shifted width x s) t f (k.flag width x s f old) = k.flag width x (s + t) f old := by
  rcases Nat.eq_zero_or_pos t with rfl | ht
  · rfl
  · have hflags : k.flags width (k.shifted width x s) t = k.flags width x (s + t) := by
      rw [flags, flags, shifted_shifted k hpos, shifted_shifted k hpos, Nat.add_sub_assoc ht]
    have hold : ((k.flags width x (s + t)).lookup f).getD (k.flag width x s f old) =
        ((k.flags width x (s + t)).lookup f).getD old := by
      unfold flag
      split
      · rfl
      · cases f <;> rfl
    rw [flag, if_neg ht.ne', hflags, hold, flag, if_neg (Nat.add_pos_right s ht).ne']

/-! ## Results -/

/-- The value of a shift by a count that is not zero. -/
theorem toNat_value_result (k : Shift) (hle : width ≤ 8) (a : UInt64) {n : Nat} (hlt : n < 64) :
    (k.result width a n).value.toNat = k.shifted width a.toNat n := by
  cases k with
  | left =>
    show (if widthBits width ≤ n then 0 else (a <<< UInt64.ofNat n) &&& Word.mask width).toNat =
      a.toNat * 2 ^ n % 2 ^ (8 * width)
    rw [widthBits_of_le hle]
    split
    · rename_i hall
      exact (Nat.mod_eq_zero_of_dvd (Nat.dvd_mul_left_of_dvd (Nat.pow_dvd_pow 2 hall) _)).symm
    · rw [Word.toNat_and_mask _ hle, UInt64.toNat_shiftLeft, toNat_ofNat_count hlt, Nat.shiftLeft_eq,
        Nat.mod_mod_of_dvd _ (Word.two_pow_dvd hle)]
  | right => exact toNat_shiftRight_count a hlt
  | rightSigned =>
    have hdvd : (2 : Int) ^ (8 * width) ∣ 2 ^ 64 := by exact_mod_cast Word.two_pow_dvd hle
    show (Word.ofInt (Word.toInt a width >>> n) &&& Word.mask width).toNat = shifted .rightSigned width a.toNat n
    apply Int.natCast_inj.1
    rw [natCast_shifted, Word.toNat_and_mask _ hle, Int.natCast_emod, Word.toNat_ofInt, Word.toInt_eq hle,
      Int.shiftRight_eq_div_pow]
    push_cast
    exact Int.emod_emod_of_dvd _ hdvd

/-- Carry is the bit that the last of so many shifts by one drops. -/
theorem flags_result (k : Shift) (hpos : 1 ≤ width) (hle : width ≤ 8) (a : UInt64) {n : Nat} (hn : 0 < n)
    (hlt : n < 64) :
    ∃ overflow, (k.result width a n).flags =
      (.carry, k.dropped width (k.shifted width a.toNat (n - 1))) :: (.overflow, overflow) ::
        resultFlags (k.result width a n).value width := by
  cases k with
  | left =>
    refine ⟨_, congrArg (fun carry => (Flag.carry, carry) :: _) ?_⟩
    show (decide (n ≤ widthBits width) && lowBit (a >>> UInt64.ofNat (widthBits width - n))) =
      (a.toNat * 2 ^ (n - 1) % 2 ^ (8 * width)).testBit (8 * width - 1)
    rw [widthBits_of_le hle, lowBit_shiftRight a (by omega), Nat.testBit_mod_two_pow, Nat.testBit_mul_two_pow,
      show 8 * width - 1 - (n - 1) = 8 * width - n by omega]
    simp only [decide_eq_true (show 8 * width - 1 < 8 * width by omega), Bool.true_and]
    congr 1
    rw [decide_eq_decide]
    omega
  | right =>
    refine ⟨_, congrArg (fun carry => (Flag.carry, carry) :: _) ?_⟩
    show lowBit (a >>> UInt64.ofNat (n - 1)) = (a.toNat / 2 ^ (n - 1)).testBit 0
    rw [lowBit_shiftRight a (by omega), Nat.testBit_div_two_pow, Nat.zero_add]
  | rightSigned =>
    refine ⟨_, congrArg (fun carry => (Flag.carry, carry) :: _) ?_⟩
    show ((Word.toInt a width >>> (n - 1)) % 2 == 1) = (shifted .rightSigned width a.toNat (n - 1)).testBit 0
    have hdvd : (2 : Int) ∣ 2 ^ (8 * width) := dvd_pow_self 2 (by omega)
    have hlow : ((shifted .rightSigned width a.toNat (n - 1) : Nat) : Int) % 2 =
        Int.bmod a.toNat (2 ^ (8 * width)) / 2 ^ (n - 1) % 2 := by
      rw [natCast_shifted, Int.emod_emod_of_dvd _ hdvd]
    rw [Word.toInt_eq hle, Int.shiftRight_eq_div_pow, Nat.testBit_zero, Bool.eq_iff_iff, beq_iff_eq, decide_eq_true_eq]
    push_cast
    omega

/-- The flags after a shift by a count that is not zero. -/
theorem flag_result (k : Shift) (hpos : 1 ≤ width) (hle : width ≤ 8) (ha : a.toNat < 2 ^ (8 * width)) {n : Nat}
    (hn : 0 < n) (hlt : n < 64) (r : Registers) {f : Flag} (hf : f ≠ .overflow) :
    (r.withFlags (k.result width a n).flags).flag f = k.flag width a.toNat n f (r.flag f) := by
  have hvalue := toNat_value_result k hle a hlt
  obtain ⟨overflow, hflags⟩ := flags_result k hpos hle a hn hlt
  have hnodup : ((k.result width a n).flags.map (·.1)).Nodup := by
    rw [hflags]
    exact (by decide : [Flag.carry, .overflow, .zero, .sign, .parity].Nodup)
  rw [resultFlags_eq hpos hle (hvalue ▸ k.shifted_lt ha n), hvalue] at hflags
  rw [Registers.flag_withFlags r hnodup, hflags, flag, if_neg hn.ne']
  cases f with
  | overflow => exact absurd rfl hf
  | carry | zero | sign | parity | adjust | direction => rfl

/-! ## Executing -/

theorem ofMnemonic?_mnemonics (k : Shift) : ∀ name ∈ k.mnemonics, Operation.ofMnemonic? name = some k.operation := by
  cases k <;> decide +kernel

theorem toNat_maskedCount (width : Nat) (count : UInt64) :
    maskedCount width count = count.toNat % if width = 8 then 64 else 32 := by
  rw [maskedCount, countMask, UInt64.toNat_and]
  split
  · exact Nat.and_two_pow_sub_one_eq_mod _ 6
  · exact Nat.and_two_pow_sub_one_eq_mod _ 5

/-- By zero a shift does nothing, and otherwise it sets the flags of its result and stores its value. -/
theorem run_operation (k : Shift) (hdst : i.operands[0]? = some dst) (m : Machine) :
    let n := maskedCount dst.width (((i.operands[1]?).map m.operandValue).getD 1)
    k.operation.run i m = if n = 0 then .ok () m
      else Exec.finish dst (k.result dst.width (m.operandValue dst &&& Word.mask dst.width) n) m := by
  intro n
  have hshift : ∀ op, Exec.shift i op m = if n = 0 then .ok () m
      else Exec.finish dst (op dst.width (m.operandValue dst &&& Word.mask dst.width) n) m := by
    intro op
    refine (Exec.bind_of_ok (Exec.shiftOperands_eq hdst m)).trans ?_
    show (if n = 0 then pure () else Exec.finish dst _) m = _
    split <;> rfl
  cases k <;> exact hshift _

end Shift

namespace Machine

variable {k : Shift} {m m' m'' : Machine} {a b next : Address} {i j : Instruction} {o dst : Operand} {s t n : Nat}

/-- What a shift of a place by a count leaves of a machine. The place is looked at with control at the instruction that
follows. -/
structure Shifted (k : Shift) (o : Operand) (next : Address) (n : Nat) (m m' : Machine) : Prop where
  toNat_value : ((m'.withIp next).operandValue o).toNat =
    k.shifted o.width ((m.withIp next).operandValue o).toNat n
  flag : ∀ f, f ≠ .overflow →
    m'.registers.flag f = k.flag o.width ((m.withIp next).operandValue o).toNat n f (m.registers.flag f)
  address : (∀ r, o.kind = .memory r → ∀ name, r.base = some name ∨ r.index = some name → ¬ m.arch.namesFlags name) →
    (m'.withIp next).operandAddress? o = (m.withIp next).operandAddress? o
  arch : m'.arch = m.arch
  listing : m'.listing = m.listing

namespace Shifted

theorem refl (k : Shift) (ho : o.IsPlace m.arch) (hle : o.width ≤ 8) (next : Address) : Shifted k o next 0 m m where
  toNat_value := (k.shifted_zero (toNat_operandValue_lt (m := m.withIp next) ho hle)).symm
  flag _ _ := rfl
  address _ := rfl
  arch := rfl
  listing := rfl

theorem trans (hpos : 1 ≤ o.width) (h : Shifted k o next s m m') (h' : Shifted k o next t m' m'') :
    Shifted k o next (s + t) m m'' where
  toNat_value := by rw [h'.toNat_value, h.toNat_value, k.shifted_shifted hpos]
  flag f hf := by rw [h'.flag f hf, h.flag f hf, h.toNat_value, k.flag_shifted hpos]
  address hnames := (h'.address (h.arch.symm ▸ hnames)).trans (h.address hnames)
  arch := h'.arch.trans h.arch
  listing := h'.listing.trans h.listing

end Shifted

/-- Before it takes effect, a shift has shifted by zero. -/
theorem shifted_prepare (k : Shift) (ho : o.IsPlace m.arch) (hle : o.width ≤ 8) (a : Address) (i : Instruction) :
    Shifted k o i.next 0 m (m.prepare a i) := by
  have hlt := toNat_operandValue_lt (m := m.withIp i.next) ho hle
  refine ⟨?_, fun f _ => ?_, fun _ => ?_, m.arch_prepare a i, m.listing_prepare a i⟩
  · rw [withIp_prepare, operandValue_prepare_eq, k.shifted_zero hlt]
  · exact m.flag_prepare a i f
  · rw [withIp_prepare, operandAddress?_prepare_eq]

/-- What a shift by a count that is not zero does when it takes effect. -/
theorem shifted_finish (k : Shift) (ho : o.IsPlace m.arch) (hpos : 1 ≤ o.width) (hle : o.width ≤ 8) (hn : 0 < n)
    (hlt : n < 64) (hip : m.ip = m.arch.wrap next) :
    ∃ m', Exec.finish o (k.result o.width (m.operandValue o &&& Word.mask o.width) n) m = .ok () m' ∧
      Shifted k o next n m m' ∧ m'.ip = m'.arch.wrap next := by
  have hx : (m.operandValue o).toNat < 2 ^ (8 * o.width) := toNat_operandValue_lt ho hle
  have hvalue := k.toNat_value_result hle (m.operandValue o) hlt
  rw [Word.and_mask_of_lt hle hx]
  obtain ⟨m', hfinish, h⟩ := finish_at (r := k.result o.width (m.operandValue o) n) ho hle
    (hvalue ▸ k.shifted_lt hx n) hip
  refine ⟨m', hfinish, ⟨?_, fun f hf => ?_, h.address, h.arch, h.listing⟩, h.ip⟩
  · rw [h.toNat_value, hvalue, withIp_of_ip hip]
  · rw [h.flag, withIp_of_ip hip]
    exact k.flag_result hpos hle hx hn hlt m.registers hf

/-- A shift shifts its destination by its count. -/
theorem shifted_execute (k : Shift) (hi : m.listing.decode? a = some i) (hk : i.mnemonic ∈ k.mnemonics)
    (hdst : i.operands[0]? = some dst) (hplace : dst.IsPlace m.arch) (hpos : 1 ≤ dst.width) (hle : dst.width ≤ 8) :
    let p := m.prepare a i
    let n := (((i.operands[1]?).map p.operandValue).getD 1).toNat % if dst.width = 8 then 64 else 32
    ∃ m', execute a m = .ok () m' ∧ Shifted k dst i.next n m m' ∧ m'.ip = m'.arch.wrap i.next ∧ (n = 0 → m' = p) := by
  intro p n
  have harch : p.arch = m.arch := m.arch_prepare a i
  have hip : p.ip = p.arch.wrap i.next := harch ▸ m.ip_prepare a i
  have hprepare : Shifted k dst i.next 0 m p := shifted_prepare k hplace hle a i
  have hrun := (execute_of_mnemonic hi (k.ofMnemonic?_mnemonics _ hk)).trans (k.run_operation hdst p)
  have hcount : n < 64 := by
    rw [show n = Arithmetic.maskedCount dst.width _ from (Shift.toNat_maskedCount ..).symm]
    exact Arithmetic.maskedCount_lt ..
  rw [Shift.toNat_maskedCount] at hrun
  by_cases hn : n = 0
  · refine ⟨p, hrun.trans (if_pos hn), ?_, hip, fun _ => rfl⟩
    rw [hn]
    exact hprepare
  · obtain ⟨m', hfinish, hshifted, hip'⟩ :=
      shifted_finish k (harch ▸ hplace) hpos hle (Nat.pos_of_ne_zero hn) hcount hip
    refine ⟨m', (hrun.trans (if_neg hn)).trans hfinish, ?_, hip', fun h => (hn h).elim⟩
    rw [← Nat.zero_add n]
    exact hprepare.trans hpos hshifted

/-- A run of shifts by one shifts by their number. -/
theorem shifted_iterate (k : Shift) (hj : m.listing.decode? b = some j) (hk : j.mnemonic ∈ k.mnemonics)
    (hdst : j.operands[0]? = some dst) (hone : ∀ q : Machine, ((j.operands[1]?).map q.operandValue).getD 1 = 1)
    (hplace : dst.IsPlace m.arch) (hpos : 1 ≤ dst.width) (hle : dst.width ≤ 8) (n : Nat) :
    ∃ m', Exec.iterate (execute b) n m = .ok () m' ∧ Shifted k dst j.next n m m' := by
  induction n generalizing m with
  | zero => exact ⟨m, rfl, .refl k hplace hle j.next⟩
  | succ n ih =>
    obtain ⟨m', hstep, hshifted, -⟩ := shifted_execute k hj hk hdst hplace hpos hle
    rw [hone, show (1 : UInt64).toNat % (if dst.width = 8 then 64 else 32) = 1 by split <;> rfl] at hshifted
    obtain ⟨m'', hrest, hshifted'⟩ := ih (hshifted.listing.symm ▸ hj) (hshifted.arch.symm ▸ hplace)
    refine ⟨m'', ?_, ?_⟩
    · rw [Exec.iterate, hstep]
      exact hrest
    · rw [Nat.add_comm]
      exact hshifted.trans hpos hshifted'

/-- A shift by a count, of which the low five bits matter, or six if the destination has eight bytes, stores the product
or the quotient of its destination and a power of two: the product cut to the width, the quotient rounded down, of the
destination without or with its sign. The destination and the flags apart from overflow are then what so many shifts by
one leave, and a shift by zero moves on to the next instruction and does nothing else. -/
theorem execute_shift (k : Shift) (hi : m.listing.decode? a = some i) (hk : i.mnemonic ∈ k.mnemonics)
    (hdst : i.operands[0]? = some dst) (hplace : dst.IsPlace m.arch) (hpos : 1 ≤ dst.width) (hle : dst.width ≤ 8) :
    let p := m.prepare a i
    let x := (p.operandValue dst).toNat
    let n := (((i.operands[1]?).map p.operandValue).getD 1).toNat % if dst.width = 8 then 64 else 32
    ∃ m', execute a m = .ok () m' ∧
      (m'.operandValue dst).toNat = (match k with
        | .left => x * 2 ^ n % 2 ^ (8 * dst.width)
        | .right => x / 2 ^ n
        | .rightSigned => (Int.bmod x (2 ^ (8 * dst.width)) / 2 ^ n % 2 ^ (8 * dst.width)).toNat) ∧
      (n = 0 → m'.registers = m.registers.withIp i.next ∧ m'.memory = m.memory) ∧
      ∀ listing b j, listing.decode? b = some j → j.mnemonic ∈ k.mnemonics → j.next = i.next →
        j.operands[0]? = some dst → (∀ q : Machine, ((j.operands[1]?).map q.operandValue).getD 1 = 1) →
        ∃ m'', Exec.iterate (execute b) n { m with listing } = .ok () m'' ∧
          (m''.withIp i.next).operandValue dst = m'.operandValue dst ∧
          ((∀ r, dst.kind = .memory r →
              ∀ name, r.base = some name ∨ r.index = some name → ¬ m.arch.namesFlags name) →
            (m''.withIp i.next).operandAddress? dst = m'.operandAddress? dst) ∧
          ∀ f, f ≠ .overflow → m''.registers.flag f = m'.registers.flag f := by
  intro p x n
  obtain ⟨m', hrun, hshifted, hip, hzero⟩ := shifted_execute k hi hk hdst hplace hpos hle
  have hsame : m'.withIp i.next = m' := withIp_of_ip hip
  have hvalue := hshifted.toNat_value
  rw [hsame, ← m.operandValue_prepare_eq a i dst] at hvalue
  refine ⟨m', hrun, ?_, fun hn => ?_, ?_⟩
  · rw [hvalue]
    cases k <;> rfl
  · obtain rfl := hzero hn
    exact ⟨m.registers_prepare a i, m.memory_prepare a i⟩
  · intro listing b j hj hk' hnext hdst' hone
    obtain ⟨m'', hiterate, hshifted'⟩ := shifted_iterate (m := { m with listing }) k hj hk' hdst' hone hplace hpos hle n
    rw [hnext] at hshifted'
    refine ⟨m'', hiterate, ?_, fun hnames => ?_, fun f hf => ?_⟩
    · apply UInt64.toNat_inj.1
      rw [hshifted'.toNat_value, ← hsame]
      exact hshifted.toNat_value.symm
    · rw [hshifted'.address hnames, ← hsame]
      exact (hshifted.address hnames).symm
    · rw [hshifted'.flag f hf]
      exact (hshifted.flag f hf).symm

/-- A byte that is shifted further than it is wide is filled with its sign, as it is by single shifts. -/
theorem execute_sar_byte :
    let dst := Operand.ofRegister "al" 1
    let i := Instruction.of 0x1000 "sar" 3 [dst, .ofImmediate "9" 1 9]
    let j := Instruction.of 0x1000 "sar" 3 [dst, .ofImmediate "1" 1 1]
    let m := (Exec.setRegister "al" 0x80).after (Machine.fresh ((Listing.empty .x86).addInstruction i) {})
    ∃ m' m'', execute 0x1000 m = .ok () m' ∧ (m'.operandValue dst).toNat = 0xFF ∧
      Exec.iterate (execute 0x1000) 9 { m with listing := (Listing.empty .x86).addInstruction j } = .ok () m'' ∧
      m''.operandValue dst = m'.operandValue dst ∧ m''.registers.flag .carry = m'.registers.flag .carry := by
  intro dst i j m
  have hregister : dst.IsPlace .x86 := ⟨⟨(0 : Fin 24), 0, 8, false⟩, by decide +kernel, by decide, rfl⟩
  have harch : m.arch = .x86 := by decide +kernel
  have hplace : dst.IsPlace m.arch := harch ▸ hregister
  have hdst : i.operands[0]? = some dst := rfl
  obtain ⟨m', hrun, hvalue, -, hruns⟩ := execute_shift .rightSigned (m := m) (a := 0x1000) (i := i) (by decide +kernel)
    (by decide +kernel) hdst hplace (by decide) (by decide)
  have hx : (m.prepare 0x1000 i).operandValue dst = 0x80 := by decide +kernel
  have hn : (((i.operands[1]?).map (m.prepare 0x1000 i).operandValue).getD 1).toNat %
      (if dst.width = 8 then 64 else 32) = 9 := by decide
  rw [hx, hn] at hvalue
  rw [hn] at hruns
  obtain ⟨m'', hiterate, hsame, -, hflag⟩ := hruns ((Listing.empty .x86).addInstruction j) 0x1000 j
    (by decide +kernel) (by decide +kernel) rfl rfl fun q => rfl
  rw [operandValue_withIp (by decide +kernel)] at hsame
  exact ⟨m', m'', hrun, hvalue.trans (by decide), hiterate, hsame, hflag .carry (by decide)⟩

end Machine
end PathReplay
