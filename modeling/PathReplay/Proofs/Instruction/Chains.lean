import Mathlib.Data.Nat.Digits.Lemmas
import PathReplay.Graph.Replay
import PathReplay.Proofs.Instruction.Sums
import PathReplay.Proofs.Machine.Frames

/-!
# Sums and differences of numbers of many words

* `Chain`, `Chain.Carries` : additions with carry and subtractions with borrow, and what one of them or many make of
  numbers and a carry; `Carries.append` : the higher limbs go on where the lower ones leave off; `Carries.leaves` : with
  no carry at first, this is the sum or the difference below the bound;
* `Limb`, `Limb.Fits`, `Limb.MissedBy` : an instruction on two limbs, and what leaves these and their addresses alone;
* `execute_limb`, `execute_other` : one instruction of a chain, and one in between;
* `Machine.number`, `Summed`, `executeAll_limbs` : the numbers that limbs make up, and a run of instructions on them;
* `executeAll_chain` : so a chain leaves the sum or the difference of two numbers, and tells whether it fits.
-/

namespace PathReplay

/-! ## Carries -/

/-- Additions that hand on a carry, and subtractions that hand on a borrow. -/
inductive Chain where
  | addition
  | subtraction

namespace Chain

variable {c : Chain} {bound bound' x x' y y' r r' : Nat} {carry carry' carry'' first : Bool}

/-- The instruction for a limb. That for the first one takes no carry. -/
def instruction (c : Chain) (first : Bool) : AddSub :=
  match c, first with
  | addition, true => .add
  | addition, false => .adc
  | subtraction, true => .sub
  | subtraction, false => .sbb

/-- What is left below a bound of a number, another one and a carry, and the carry out of that. -/
def Carries (c : Chain) (bound x y : Nat) (carry : Bool) (r : Nat) (carry' : Bool) : Prop :=
  match c with
  | addition => r + bound * carry'.toNat = x + y + carry.toNat
  | subtraction => r + y + carry.toNat = x + bound * carry'.toNat

/-- The higher limbs take the carry of the lower ones. -/
theorem Carries.append (h : c.Carries bound x y carry r carry') (h' : c.Carries bound' x' y' carry' r' carry'') :
    c.Carries (bound * bound') (x + bound * x') (y + bound * y') carry (r + bound * r') carry'' := by
  cases c with
  | addition =>
    have hlow : r + bound * carry'.toNat = x + y + carry.toNat := h
    have hhigh : bound * (r' + bound' * carry''.toNat) = bound * (x' + y' + carry'.toNat) := congrArg (bound * ·) h'
    show r + bound * r' + bound * bound' * carry''.toNat = x + bound * x' + (y + bound * y') + carry.toNat
    simp only [Nat.mul_add] at hhigh
    rw [Nat.mul_assoc]
    omega
  | subtraction =>
    have hlow : r + y + carry.toNat = x + bound * carry'.toNat := h
    have hhigh : bound * (r' + y' + carry'.toNat) = bound * (x' + bound' * carry''.toNat) := congrArg (bound * ·) h'
    show r + bound * r' + (y + bound * y') + carry.toNat = x + bound * x' + bound * bound' * carry''.toNat
    simp only [Nat.mul_add] at hhigh
    rw [Nat.mul_assoc]
    omega

/-- The remainder of a sum or a difference, with the flag that tells that there was more. -/
def Leaves (c : Chain) (bound x y r : Nat) (carry : Bool) : Prop :=
  match c with
  | addition => r = (x + y) % bound ∧ (carry = true ↔ bound ≤ x + y)
  | subtraction => (r : Int) = ((x : Int) - y) % bound ∧ (carry = true ↔ x < y)

theorem Carries.leaves (h : c.Carries bound x y false r carry) (hr : r < bound) : c.Leaves bound x y r carry := by
  cases c with
  | addition =>
    have hsum : r + bound * carry.toNat = x + y := h
    cases carry with
    | false =>
      rw [Bool.toNat_false, Nat.mul_zero, Nat.add_zero] at hsum
      exact ⟨by rw [← hsum, Nat.mod_eq_of_lt hr], by simp; omega⟩
    | true =>
      rw [Bool.toNat_true, Nat.mul_one] at hsum
      exact ⟨by rw [← hsum, Nat.add_mod_right, Nat.mod_eq_of_lt hr], by simp; omega⟩
  | subtraction =>
    have hdifference : r + y = x + bound * carry.toNat := h
    have hmod : (r : Int) % bound = r := Int.emod_eq_of_lt (by omega) (by omega)
    cases carry with
    | false =>
      rw [Bool.toNat_false, Nat.mul_zero, Nat.add_zero] at hdifference
      exact ⟨by rw [← hmod]; congr 1; omega, by simp; omega⟩
    | true =>
      rw [Bool.toNat_true, Nat.mul_one] at hdifference
      exact ⟨by rw [← hmod, ← Int.sub_emod_right]; congr 1; omega, by simp; omega⟩

/-- The integer that an instruction computes goes beyond the bound, or below zero, once at most. -/
theorem carries_of_exact {e : Int} (he : e = (c.instruction first).exact x y carry.toNat) (hx : x < bound)
    (hy : y < bound) (hr : (r : Int) = e % bound) (hcarry : carry' = true ↔ ¬ (0 ≤ e ∧ e < bound)) :
    c.Carries bound x y (!first && carry) r carry' := by
  have hone : (!first && carry).toNat ≤ 1 := Bool.toNat_le _
  have hout : bound * carry'.toNat = if 0 ≤ e ∧ e < bound then 0 else bound := by
    split
    · rename_i hin
      rw [Bool.eq_false_iff.2 fun htrue => hcarry.1 htrue hin, Bool.toNat_false, Nat.mul_zero]
    · rename_i hout
      rw [hcarry.2 hout, Bool.toNat_true, Nat.mul_one]
  cases c with
  | addition =>
    have he : e = x + y + (!first && carry).toNat := by
      rw [he]
      cases first <;> simp [instruction, AddSub.exact]
    have hcases := Arithmetic.emod_cases (e := e) (n := bound) (by omega) (by omega)
    show r + bound * carry'.toNat = x + y + (!first && carry).toNat
    rw [hout]
    split <;> omega
  | subtraction =>
    have he : e = x - y - (!first && carry).toNat := by
      rw [he]
      cases first <;> simp [instruction, AddSub.exact]
    have hcases := Arithmetic.emod_cases (e := e) (n := bound) (by omega) (by omega)
    show r + y + (!first && carry).toNat = x + bound * carry'.toNat
    rw [hout]
    split <;> omega

end Chain

/-! ## Limbs -/

/-- An instruction on two limbs, and where they lie. -/
structure Limb where
  address : Address
  instruction : Instruction
  dst : Operand
  src : Operand
  target : Location
  source : Location

namespace Limb

/-- The registers that the addresses of the two limbs are made of. -/
def addressNames (l : Limb) : List String := l.dst.addressNames ++ l.src.addressNames

/-- An instruction with that mnemonic is decoded at the address. Its operands are two places of `width` bytes, the
addresses of which have no flag in them, and they are located where the limbs lie. -/
structure Fits (l : Limb) (k : AddSub) (width : Nat) (m : Machine) : Prop where
  decoded : m.listing.decode? l.address = some l.instruction
  mnemonic : l.instruction.mnemonic = k.mnemonic
  first : l.instruction.operands[0]? = some l.dst
  second : l.instruction.operands[1]? = some l.src
  dst_place : l.dst.IsPlace m.arch
  src_place : l.src.IsPlace m.arch
  dst_width : l.dst.width = width
  src_width : l.src.width = width
  flags : ∀ name ∈ l.addressNames, ¬ m.arch.namesFlags name
  target : (m.withIp l.instruction.next).location? l.dst = some l.target
  source : (m.withIp l.instruction.next).location? l.src = some l.source

/-- A value of `written` bytes in the location lies apart from both limbs, which have `width`, and from the registers
that their addresses are made of. -/
structure MissedBy (l : Limb) (arch : Arch) (loc : Location) (written width : Nat) : Prop where
  target : loc.Misses arch written l.target width
  source : loc.Misses arch written l.source width
  addresses : ∀ name ∈ l.addressNames, ¬ loc.Meets arch name

variable {c : Chain} {k : AddSub} {m m' : Machine} {l : Limb} {loc : Location} {width width' : Nat}

theorem Fits.target_isGeneral (h : l.Fits k width m) : l.target.IsGeneral m.arch :=
  Machine.isGeneral_of_location? (m := m.withIp _) h.dst_place h.target

theorem Fits.source_isGeneral (h : l.Fits k width m) : l.source.IsGeneral m.arch :=
  Machine.isGeneral_of_location? (m := m.withIp _) h.src_place h.source

/-- An instruction on limbs stays one when something else is written. -/
theorem Fits.of_touched (h : l.Fits k width m) (htouched : Machine.Touched loc width' m m')
    (hnames : ∀ name ∈ l.addressNames, ¬ loc.Meets m.arch name) : l.Fits k width m' where
  decoded := by rw [htouched.listing, h.decoded]
  mnemonic := h.mnemonic
  first := h.first
  second := h.second
  dst_place := by rw [htouched.arch]; exact h.dst_place
  src_place := by rw [htouched.arch]; exact h.src_place
  dst_width := h.dst_width
  src_width := h.src_width
  flags := by rw [htouched.arch]; exact h.flags
  target := by
    rw [htouched.location? _ fun name hname => ⟨h.flags name ?_, hnames name ?_⟩, h.target]
    all_goals exact List.mem_append_left _ hname
  source := by
    rw [htouched.location? _ fun name hname => ⟨h.flags name ?_, hnames name ?_⟩, h.source]
    all_goals exact List.mem_append_right _ hname

end Limb

namespace Machine

open Arithmetic

variable {c : Chain} {m m' : Machine} {a : Address} {i : Instruction} {dst src : Operand} {k : AddSub} {first : Bool}
  {l : Limb} {loc : Location} {width : Nat}

/-- The instruction for a limb leaves its part of the result, and the carry. -/
theorem execute_limb (hl : l.Fits (c.instruction first) width m) (hpos : 1 ≤ width) (hle : width ≤ 8) :
    ∃ m', execute l.address m = .ok () m' ∧ Touched l.target width m m' ∧
      c.Carries (2 ^ (8 * width)) (m.contents l.target width).toNat (m.contents l.source width).toNat
        (!first && m.registers.flag .carry) (m'.contents l.target width).toNat (m'.registers.flag .carry) := by
  have hinstruction : c.instruction first ≠ .cmp ∧ (c.instruction first).keepsCarry = false := by
    cases c <;> cases first <;> exact ⟨by decide, rfl⟩
  obtain rfl := hl.dst_width
  have hx := operandValue_prepare_eq_contents hl.dst_place hl.target l.address
  have hy := operandValue_prepare_eq_contents hl.src_place hl.source l.address
  have hx_lt : (m.contents l.target l.dst.width).toNat < 2 ^ (8 * l.dst.width) :=
    toNat_contents_lt_of_place (m := m.withIp _) hl.dst_place hle hl.target rfl
  have hy_lt : (m.contents l.source l.src.width).toNat < 2 ^ (8 * l.src.width) :=
    toNat_contents_lt_of_place (m := m.withIp _) hl.src_place (hl.src_width ▸ hle) hl.source rfl
  rw [hl.src_width] at hy hy_lt
  obtain ⟨r, hrun, hvalue, hcarry⟩ := execute_eq_store_result (c.instruction first) hl.decoded hl.mnemonic hl.first
    (fun _ => hl.second) hinstruction.1 hl.dst_place hpos hle
  obtain ⟨m', hstore, htouched, hkept, hholds⟩ := store_touched hl.dst_place
    (fun name hname => hl.flags name (List.mem_append_left _ hname)) hl.target l.address r.flags r.value
  have hbound : (2 : Int) ^ (8 * l.dst.width) = (2 ^ (8 * l.dst.width) : Nat) := by push_cast; rfl
  rw [hx, hy, hl.src_width, hbound, Int.bmod_emod,
    Int.emod_eq_of_lt (Int.natCast_nonneg _) (Int.ofNat_lt.2 hy_lt)] at hvalue hcarry
  rw [if_neg (by simp [hinstruction.2])] at hcarry
  have hvalue_lt : r.value.toNat < 2 ^ (8 * l.dst.width) := by
    rw [← Int.ofNat_lt, hvalue]
    exact Int.emod_lt_of_pos _ (Int.natCast_pos.2 (Nat.two_pow_pos _))
  refine ⟨m', hrun.trans hstore, htouched, Chain.carries_of_exact rfl hx_lt hy_lt ?_ ?_⟩
  · rw [hholds hle, Nat.mod_eq_of_lt hvalue_lt, hvalue]
  · rw [hkept, hcarry]

/-- The instruction at the address increments, decrements, moves or loads an address. Its destination is a place that
has no flag in its address and lies apart from the limbs and from the registers that their addresses are made of. -/
def LeavesLimbs (m : Machine) (width : Nat) (limbs : List Limb) (a : Address) : Prop :=
  ∃ (i : Instruction) (dst : Operand) (loc : Location), m.listing.decode? a = some i ∧ i.operands[0]? = some dst ∧
    (i.mnemonic = "inc" ∨ i.mnemonic = "dec" ∨ (i.mnemonic = "mov" ∨ i.mnemonic = "lea") ∧ 1 < i.operands.length) ∧
    dst.IsPlace m.arch ∧ (∀ name ∈ dst.addressNames, ¬ m.arch.namesFlags name) ∧
    (m.withIp i.next).location? dst = some loc ∧ ∀ l ∈ limbs, l.MissedBy m.arch loc dst.width width

/-- Such an instruction ends by storing something in its destination, and keeps the carry. -/
theorem execute_eq_store_keeping (hi : m.listing.decode? a = some i) (hdst : i.operands[0]? = some dst)
    (hk : i.mnemonic = "inc" ∨ i.mnemonic = "dec" ∨
      (i.mnemonic = "mov" ∨ i.mnemonic = "lea") ∧ 1 < i.operands.length) :
    let p := m.prepare a i
    ∃ fs v, execute a m = Exec.store dst v (p.withRegisters (p.registers.withFlags fs)) ∧
      (p.registers.withFlags fs).flag .carry = m.registers.flag .carry := by
  intro p
  have hcarry : p.registers.flag .carry = m.registers.flag .carry := m.flag_prepare a i .carry
  have hoperand : Exec.operand i 0 = pure dst := by rw [Exec.operand, hdst]
  have hkeeping : ∀ r : Result, (p.registers.withFlags r.keepingCarry.flags).flag .carry = m.registers.flag .carry := by
    intro r
    refine (Registers.flag_withFlags_of_notMem (fun e he => ?_) _).trans hcarry
    simpa using (List.mem_filter.1 he).2
  rcases hk with hinc | hdec | ⟨hmove, hlength⟩
  · have hsource : AddSub.inc.hasSource = true → i.operands[1]? = some dst := fun h => absurd h Bool.false_ne_true
    have hrun := AddSub.run_operation .inc hdst hsource p
    exact ⟨_, _, (execute_of_name hi hinc (AddSub.ofMnemonic?_mnemonic .inc)).trans hrun, hkeeping _⟩
  · have hsource : AddSub.dec.hasSource = true → i.operands[1]? = some dst := fun h => absurd h Bool.false_ne_true
    have hrun := AddSub.run_operation .dec hdst hsource p
    exact ⟨_, _, (execute_of_name hi hdec (AddSub.ofMnemonic?_mnemonic .dec)).trans hrun, hkeeping _⟩
  · have hsecond : Exec.operand i 1 = pure i.operands[1] := by
      rw [Exec.operand, List.getElem?_eq_getElem hlength]
    rcases hmove with hmov | hlea
    · refine ⟨[], p.operandValue i.operands[1], (execute_of_name hi hmov rfl).trans ?_, hcarry⟩
      show Exec.move i p = _
      rw [Exec.move, hoperand, hsecond]
      rfl
    · refine ⟨[], (p.operandAddress? i.operands[1]).getD 0 &&& Word.mask dst.width,
        (execute_of_name hi hlea rfl).trans ?_, hcarry⟩
      show Exec.loadAddress i p = _
      rw [Exec.loadAddress, hoperand, hsecond]
      rfl

/-- An instruction in between keeps the carry and leaves the limbs alone. -/
theorem execute_other {limbs : List Limb} (h : m.LeavesLimbs width limbs a) :
    ∃ m' loc written, execute a m = .ok () m' ∧ Touched loc written m m' ∧
      m'.registers.flag .carry = m.registers.flag .carry ∧ ∀ l ∈ limbs, l.MissedBy m.arch loc written width := by
  obtain ⟨i, dst, loc, hi, hdst, hk, hplace, hflags, hloc, hmissed⟩ := h
  obtain ⟨fs, v, hrun, hcarry⟩ := execute_eq_store_keeping hi hdst hk
  obtain ⟨m', hstore, htouched, hkept, -⟩ := store_touched hplace hflags hloc a fs v
  exact ⟨m', loc, dst.width, hrun.trans hstore, htouched, (hkept _).trans hcarry, hmissed⟩

end Machine

/-! ## Runs -/

inductive Step where
  | limb (l : Limb)
  | other (a : Address)

namespace Step

def address : Step → Address
  | limb l => l.address
  | other a => a

def limbs : List Step → List Limb
  | [] => []
  | limb l :: rest => l :: limbs rest
  | other _ :: rest => limbs rest

/-- The other instructions, when control comes to them, leave the limbs alone. -/
def LeaveLimbs (width : Nat) (all : List Limb) : Machine → List Step → Prop
  | _, [] => True
  | m, limb l :: rest => LeaveLimbs width all ((Machine.execute l.address).after m) rest
  | m, other a :: rest =>
    m.LeavesLimbs width all a ∧ LeaveLimbs width all ((Machine.execute a).after m) rest

end Step

namespace Machine

variable {c : Chain} {k : AddSub} {m m' m₁ : Machine} {l : Limb} {limbs all : List Limb} {loc : Location}
  {locs : List Location} {width written : Nat} {carry : Bool}

/-- The number that the limbs at some locations make up, the lowest first. -/
def number (m : Machine) (width : Nat) (locs : List Location) : Nat :=
  Nat.ofDigits (2 ^ (8 * width)) (locs.map fun loc => (m.contents loc width).toNat)

theorem number_cons (m : Machine) (width : Nat) (loc : Location) (locs : List Location) :
    m.number width (loc :: locs) = (m.contents loc width).toNat + 2 ^ (8 * width) * m.number width locs :=
  Nat.ofDigits_cons

theorem number_congr (h : ∀ loc ∈ locs, m'.contents loc width = m.contents loc width) :
    m'.number width locs = m.number width locs := by
  unfold number
  rw [List.map_congr_left fun loc hloc => congrArg UInt64.toNat (h loc hloc)]

theorem number_lt (hpos : 1 ≤ width) (h : ∀ loc ∈ locs, (m.contents loc width).toNat < 2 ^ (8 * width)) :
    m.number width locs < 2 ^ (8 * width * locs.length) := by
  have hbase : 1 < 2 ^ (8 * width) := Nat.one_lt_two_pow (by omega)
  have hlt := Nat.ofDigits_lt_base_pow_length hbase (l := locs.map fun loc => (m.contents loc width).toNat) (by simpa)
  rwa [List.length_map, ← Nat.pow_mul] at hlt

/-- The limbs that something else leaves alone keep their numbers. -/
theorem Touched.number (h : Touched loc written m m') (hfits : ∀ l ∈ limbs, l.Fits k width m)
    (hmissed : ∀ l ∈ limbs, l.MissedBy m.arch loc written width) :
    m'.number width (limbs.map Limb.target) = m.number width (limbs.map Limb.target) ∧
      m'.number width (limbs.map Limb.source) = m.number width (limbs.map Limb.source) := by
  constructor
  · refine number_congr fun loc' hloc' => ?_
    obtain ⟨l, hl, rfl⟩ := List.mem_map.1 hloc'
    exact h.contents (hfits l hl).target_isGeneral (hmissed l hl).target
  · refine number_congr fun loc' hloc' => ?_
    obtain ⟨l, hl, rfl⟩ := List.mem_map.1 hloc'
    exact h.contents (hfits l hl).source_isGeneral (hmissed l hl).source

/-- What the instructions on some of the limbs make of their numbers and a carry. The results of the others stay. -/
structure Summed (c : Chain) (width : Nat) (all limbs : List Limb) (carry : Bool) (m m' : Machine) : Prop where
  arch : m'.arch = m.arch
  carries : c.Carries (2 ^ (8 * width * limbs.length)) (m.number width (limbs.map Limb.target))
    (m.number width (limbs.map Limb.source)) carry (m'.number width (limbs.map Limb.target)) (m'.registers.flag .carry)
  kept : ∀ l ∈ all, l.target.IsGeneral m.arch → (∀ l' ∈ limbs, l'.target.Misses m.arch width l.target width) →
    m'.contents l.target width = m.contents l.target width

/-- The instruction on the lowest limbs, and those on the others with the carry that it hands on. -/
theorem Summed.cons (hle : width ≤ 8) (hl : l.Fits k width m) (hmem : l ∈ all)
    (hfits : ∀ l' ∈ limbs, l'.Fits (c.instruction false) width m)
    (hmissed : ∀ l' ∈ limbs, l'.MissedBy m.arch l.target width width) (htouched : Touched l.target width m m₁)
    (hcarries : c.Carries (2 ^ (8 * width)) (m.contents l.target width).toNat (m.contents l.source width).toNat carry
      (m₁.contents l.target width).toNat (m₁.registers.flag .carry))
    (hrest : Summed c width all limbs (m₁.registers.flag .carry) m₁ m') :
    Summed c width all (l :: limbs) carry m m' := by
  obtain ⟨harch, hcarries', hkept⟩ := hrest
  rw [htouched.arch] at hkept
  obtain ⟨htargets, hsources⟩ := htouched.number hfits hmissed
  refine ⟨harch.trans htouched.arch, ?_, fun l' hl' hgeneral hmisses => ?_⟩
  · have hdone : m'.contents l.target width = m₁.contents l.target width :=
      hkept l hmem hl.target_isGeneral fun l' hl' => (hmissed l' hl').target.symm hle
    have hbound : 2 ^ (8 * width * (l :: limbs).length) = 2 ^ (8 * width) * 2 ^ (8 * width * limbs.length) := by
      rw [← Nat.pow_add, List.length_cons, Nat.mul_succ, Nat.add_comm]
    rw [hbound, List.map_cons, List.map_cons, number_cons, number_cons, number_cons, hdone]
    rw [htargets, hsources] at hcarries'
    exact hcarries.append hcarries'
  · rw [hkept l' hl' hgeneral fun l'' hl'' => hmisses l'' (List.mem_cons_of_mem l hl''),
      htouched.contents hgeneral (hmisses l List.mem_cons_self)]

theorem executeAll_cons {a : Address} (h : execute a m = .ok () m₁) (rest : List Address) :
    executeAll (a :: rest) m = executeAll rest m₁ := by
  rw [executeAll, h]

/-- From one limb to the next the carry flag hands on what is left over, whatever is executed in between. -/
theorem executeAll_limbs (hpos : 1 ≤ width) (hle : width ≤ 8) {steps : List Step}
    (hfits : ∀ l ∈ Step.limbs steps, l.Fits (c.instruction false) width m) (hsub : Step.limbs steps ⊆ all)
    (hspares : (Step.limbs steps).Pairwise fun l l' => l'.MissedBy m.arch l.target width width)
    (hothers : Step.LeaveLimbs width all m steps) :
    ∃ m', executeAll (steps.map Step.address) m = .ok m' ∧
      Summed c width all (Step.limbs steps) (m.registers.flag .carry) m m' := by
  -- the carry that goes into the limbs left is the flag as the machine has it by then
  induction steps generalizing m with
  | nil => exact ⟨m, rfl, rfl, by cases c <;> simp [Chain.Carries, number, Step.limbs], fun _ _ _ _ => rfl⟩
  | cons step rest ih =>
    cases step with
    | limb l =>
      obtain ⟨hmissed, hspares⟩ := List.pairwise_cons.1 hspares
      obtain ⟨hl, hfits⟩ := List.forall_mem_cons.1 hfits
      obtain ⟨hmem, hsub⟩ := List.cons_subset.1 hsub
      obtain ⟨m₁, hrun, htouched, hcarries⟩ := execute_limb hl hpos hle
      have hothers : Step.LeaveLimbs width all ((execute l.address).after m) rest := hothers
      rw [Exec.after, hrun] at hothers
      obtain ⟨m', hall, hsummed⟩ := ih (m := m₁)
        (fun l' hl' => (hfits l' hl').of_touched htouched (hmissed l' hl').addresses) hsub
        (htouched.arch.symm ▸ hspares) hothers
      exact ⟨m', (executeAll_cons hrun _).trans hall, hsummed.cons hle hl hmem hfits hmissed htouched hcarries⟩
    | other a =>
      obtain ⟨hleaves, hothers⟩ := hothers
      obtain ⟨m₁, loc, written, hrun, htouched, hcarry, hmissed⟩ := execute_other hleaves
      rw [Exec.after, hrun] at hothers
      obtain ⟨m', hall, harch, hcarries, hkept⟩ := ih (m := m₁)
        (fun l hl => (hfits l hl).of_touched htouched (hmissed l (hsub hl)).addresses) hsub
        (htouched.arch.symm ▸ hspares) hothers
      have hfits : ∀ l ∈ Step.limbs rest, l.Fits (c.instruction false) width m := hfits
      obtain ⟨htargets, hsources⟩ := htouched.number hfits fun l hl => hmissed l (hsub hl)
      rw [htargets, hsources, hcarry] at hcarries
      rw [htouched.arch] at hkept
      refine ⟨m', (executeAll_cons hrun _).trans hall, harch.trans htouched.arch, hcarries,
        fun l hl hgeneral hmisses => ?_⟩
      rw [hkept l hl hgeneral hmisses, htouched.contents hgeneral (hmissed l hl).target]

/-- Additions with carry and subtractions with borrow of numbers of many limbs. The limbs are general registers or
words in memory. The first instruction takes no carry and each of the others takes that of the one before; what one of
them writes lies apart from the limbs of those after it and from the registers that their addresses are made of. In
between, registers and memory apart from all these may be incremented, decremented, moved to or loaded with an address.
In the end the limbs of the first number are those of the sum or the difference, and the carry flag tells whether they
have no room for it. -/
theorem executeAll_chain (c : Chain) (first : Limb) (rest : List Step) (hpos : 1 ≤ width) (hle : width ≤ 8)
    (hfirst : first.Fits (c.instruction true) width m)
    (hrest : ∀ l ∈ Step.limbs rest, l.Fits (c.instruction false) width m)
    (hspares : (first :: Step.limbs rest).Pairwise fun l l' => l'.MissedBy m.arch l.target width width)
    (hothers : Step.LeaveLimbs width (first :: Step.limbs rest) m (.limb first :: rest)) :
    let limbs := first :: Step.limbs rest
    ∃ m', executeAll (first.address :: rest.map Step.address) m = .ok m' ∧
      c.Leaves (2 ^ (8 * width * limbs.length)) (m.number width (limbs.map Limb.target))
        (m.number width (limbs.map Limb.source)) (m'.number width (limbs.map Limb.target))
        (m'.registers.flag .carry) := by
  intro limbs
  obtain ⟨hmissed, hspares⟩ := List.pairwise_cons.1 hspares
  obtain ⟨m₁, hrun, htouched, hcarries⟩ := execute_limb hfirst hpos hle
  have hothers : Step.LeaveLimbs width limbs ((execute first.address).after m) rest := hothers
  rw [Exec.after, hrun] at hothers
  obtain ⟨m', hall, hsummed⟩ := executeAll_limbs (m := m₁) hpos hle
    (fun l hl => (hrest l hl).of_touched htouched (hmissed l hl).addresses) (List.subset_cons_self first _)
    (htouched.arch.symm ▸ hspares) hothers
  have hchain := hsummed.cons hle hfirst List.mem_cons_self hrest hmissed htouched hcarries
  have hroom : ∀ loc ∈ limbs.map Limb.target, (m'.contents loc width).toNat < 2 ^ (8 * width) := by
    intro loc hloc
    obtain ⟨l, hl, rfl⟩ := List.mem_map.1 hloc
    obtain ⟨k, hfits⟩ : ∃ k, l.Fits k width m := by
      rcases List.mem_cons.1 hl with rfl | hl
      · exact ⟨_, hfirst⟩
      · exact ⟨_, hrest l hl⟩
    have hwidth := hfits.dst_width
    subst hwidth
    exact toNat_contents_lt_of_place (m := m.withIp _) hfits.dst_place hle hfits.target hchain.arch
  have hlt := number_lt hpos hroom
  rw [List.length_map] at hlt
  exact ⟨m', (executeAll_cons hrun _).trans hall, hchain.carries.leaves hlt⟩

/-- Two limbs, the lower one of the second number in memory. The carry comes through an increment in between. -/
theorem executeAll_chain_incremented :
    let register := fun name => (⟨name, 4, .register name⟩ : Operand)
    let word := Operand.ofMemory "[esi]" 4 (some "esi") 0
    let add := Instruction.of 0x1000 "add" 2 [register "eax", word]
    let inc := Instruction.of 0x1002 "inc" 1 [register "edi"]
    let adc := Instruction.of 0x1003 "adc" 2 [register "edx", register "ebx"]
    let data : Segment := ⟨".data", 0x2000, 4, some #[0x02]⟩
    let listing := [add, inc, adc].foldl Listing.addInstruction (Listing.empty .x86)
    let m := (Exec.setRegister "eax" 0xFFFFFFFF).after ((Exec.setRegister "esi" 0x2000).after
      (Machine.fresh { listing with segments := [data] } {}))
    m.number 4 [.register "eax", .register "edx"] = 0xFFFFFFFF ∧ m.number 4 [.memory 0x2000, .register "ebx"] = 2 ∧
      ∃ m', executeAll [0x1000, 0x1002, 0x1003] m = .ok m' ∧
        m'.number 4 [.register "eax", .register "edx"] = 0x100000001 ∧ m'.registers.flag .carry = false := by
  intro register word add inc adc data listing m
  have heax : Arch.x86.layout.field? (Text.lowercase "eax") = some ⟨(0 : Fin 24), 0, 32, false⟩ := by decide +kernel
  have hebx : Arch.x86.layout.field? (Text.lowercase "ebx") = some ⟨(1 : Fin 24), 0, 32, false⟩ := by decide +kernel
  have hedx : Arch.x86.layout.field? (Text.lowercase "edx") = some ⟨(3 : Fin 24), 0, 32, false⟩ := by decide +kernel
  have hesi : Arch.x86.layout.field? (Text.lowercase "esi") = some ⟨(4 : Fin 24), 0, 32, false⟩ := by decide +kernel
  have hedi : Arch.x86.layout.field? (Text.lowercase "edi") = some ⟨(5 : Fin 24), 0, 32, false⟩ := by decide +kernel
  have hA : m.number 4 [.register "eax", .register "edx"] = 0xFFFFFFFF := by decide +kernel
  have hB : m.number 4 [.memory 0x2000, .register "ebx"] = 2 := by decide +kernel
  have harch : m.arch = .x86 := by decide +kernel
  let low : Limb := ⟨0x1000, add, register "eax", word, .register "eax", .memory 0x2000⟩
  let high : Limb := ⟨0x1003, adc, register "edx", register "ebx", .register "edx", .register "ebx"⟩
  have hlow : low.Fits .add 4 m := by
    refine ⟨by decide +kernel, by decide +kernel, rfl, rfl, ?_, trivial, rfl, rfl, ?_, rfl, by decide +kernel⟩
    · exact harch ▸ ⟨_, heax, by decide, rfl⟩
    · rw [harch]
      rintro name hname ⟨f, hf, hstore⟩
      obtain rfl : name = "esi" := List.mem_singleton.1 hname
      obtain rfl := Option.some_inj.1 (hesi.symm.trans hf)
      exact absurd hstore (by decide)
  have hhigh : high.Fits .adc 4 m := by
    refine ⟨by decide +kernel, by decide +kernel, rfl, rfl, ?_, ?_, rfl, rfl, nofun, rfl, rfl⟩
    · exact harch ▸ ⟨_, hedx, by decide, rfl⟩
    · exact harch ▸ ⟨_, hebx, by decide, rfl⟩
  have hspares : [low, high].Pairwise fun l l' => l'.MissedBy m.arch l.target 4 4 := by
    rw [harch, List.pairwise_pair]
    exact ⟨Arch.not_overlap_of_store_ne heax hedx (by decide), Arch.not_overlap_of_store_ne heax hebx (by decide),
      nofun⟩
  have hothers : Step.LeaveLimbs 4 [low, high] m [.limb low, .other 0x1002, .limb high] := by
    refine ⟨⟨inc, register "edi", .register "edi", by decide +kernel, rfl, .inl (by decide +kernel), ?_, nofun, rfl,
      ?_⟩, trivial⟩
    all_goals rw [show ((execute low.address).after m).arch = .x86 by decide +kernel]
    · exact ⟨_, hedi, by decide, rfl⟩
    · rw [List.forall_mem_cons, List.forall_mem_singleton]
      refine ⟨⟨Arch.not_overlap_of_store_ne hedi heax (by decide), fun _ _ h => h, fun name hname => ?_⟩,
        Arch.not_overlap_of_store_ne hedi hedx (by decide), Arch.not_overlap_of_store_ne hedi hebx (by decide), nofun⟩
      obtain rfl : name = "esi" := List.mem_singleton.1 hname
      exact Arch.not_overlap_of_store_ne hedi hesi (by decide)
  obtain ⟨m', hall, hvalue, hcarry⟩ := executeAll_chain .addition low [.other 0x1002, .limb high] (by decide)
    (by decide) hlow (List.forall_mem_singleton.2 hhigh) hspares hothers
  have hlimbs : low :: Step.limbs [.other 0x1002, .limb high] = [low, high] := rfl
  rw [hlimbs, show m.number 4 ([low, high].map Limb.target) = 0xFFFFFFFF from hA,
    show m.number 4 ([low, high].map Limb.source) = 2 from hB] at hvalue hcarry
  have hsum : (0xFFFFFFFF + 2) % 2 ^ (8 * 4 * [low, high].length) = 0x100000001 := by decide
  have hfits : ¬ 2 ^ (8 * 4 * [low, high].length) ≤ 0xFFFFFFFF + 2 := by decide
  exact ⟨hA, hB, m', hall, hvalue.trans hsum, Bool.eq_false_iff.2 fun h => hfits (hcarry.1 h)⟩

end Machine
end PathReplay
