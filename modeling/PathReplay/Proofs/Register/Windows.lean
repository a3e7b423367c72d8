import Mathlib.Algebra.Group.Nat.Defs
import PathReplay.Register.File

/-!
# Registers as windows

* `Field.read_write_self`, `Field.read_write_of_ne`, `Field.write_write`, `Field.write_read` : a window gives back what
  was written to it, cut to its width, whatever is written to other stores; the last write counts;
* `toNat_wrap` : an address cut to the pointer width is its remainder modulo `2 ^ (8 * pointerSize)`;
* `name_of_field?` : the names under which the stores of the two pointers are reached;
* `ip_withIp`, `sp_withSp`, `withIp_of_ip` and so on : the two pointers, which lie in stores of their own;
* `get_writeField` : the contents of a register that is no window of the store written to.
-/

namespace PathReplay

namespace Field

variable {n : Nat} {f g : Field n}

theorem read_write_of_ne (h : g.store ≠ f.store) (s : Stores n) (v : BitVec 128) :
    g.read (f.write s v) = g.read s := by
  rw [read, read, getElem_write_ne f s v h]

/-- What was written is read back, cut to the width. -/
theorem read_write_self (hfit : f.offset + f.bits ≤ 128) (s : Stores n) (v : BitVec 128) :
    f.read (f.write s v) = v &&& Word.maskBits f.bits := by
  apply BitVec.eq_of_getLsbD_eq
  intro j hj
  rw [getLsbD_read, getElem_write_self, BitVec.getLsbD_and, getLsbD_maskBits]
  by_cases hbit : j < f.bits
  · rw [getLsbD_put _ _ _ _ (by omega), if_pos (by omega), Nat.add_sub_cancel_left]
    simp [hbit, hj]
  · simp [hbit]

theorem put_put (f : Field n) (old v w : BitVec 128) : f.put (f.put old v) w = f.put old w := by
  apply BitVec.eq_of_getLsbD_eq
  intro k hk
  rw [getLsbD_put _ _ _ _ hk, getLsbD_put _ _ _ _ hk, getLsbD_put _ _ _ _ hk]
  split
  · rfl
  · cases f.zeroExtends <;> rfl

/-- The last write to a window counts. -/
theorem write_write (f : Field n) (s : Stores n) (v w : BitVec 128) :
    f.write (f.write s v) w = f.write s w := by
  have hput : f.put (f.write s v)[f.store] w = f.put s[f.store] w := by rw [getElem_write_self, put_put]
  rw [write, hput, write, write]
  exact Vector.set_set ..

/-- Writing a window's own contents changes nothing. -/
theorem write_read (h : f.zeroExtends = false) (s : Stores n) : f.write s (f.read s) = s := by
  have hput : f.put s[f.store] (f.read s) = s[f.store] := by
    apply BitVec.eq_of_getLsbD_eq
    intro k hk
    rw [getLsbD_put _ _ _ _ hk, h]
    split
    · rw [getLsbD_read, show f.offset + (k - f.offset) = k by omega]
      simp only [Bool.and_eq_right_iff_imp, decide_eq_true_eq]
      omega
    · rfl
  rw [write, hput]
  exact Vector.set_getElem_self ..

end Field

theorem Word.toNat_and_maskBits (v : BitVec 128) (bits : Nat) :
    (v &&& maskBits bits).toNat = v.toNat % 2 ^ bits := by
  apply Nat.eq_of_testBit_eq
  intro j
  rw [BitVec.testBit_toNat, BitVec.getLsbD_and, Field.getLsbD_maskBits, Nat.testBit_mod_two_pow, BitVec.testBit_toNat]
  by_cases hj : j < 128
  · simp [hj, Bool.and_comm]
  · simp [BitVec.getLsbD_of_ge v j (by omega)]

theorem Field.toNat_read {n : Nat} (f : Field n) (s : Stores n) :
    (f.read s).toNat = (s.get f.store).toNat / 2 ^ f.offset % 2 ^ f.bits := by
  rw [read, Word.toNat_and_maskBits, BitVec.toNat_ushiftRight, Nat.shiftRight_eq_div_pow]
  rfl

/-! ## Pointers -/

namespace Arch

theorem toNat_wrap (arch : Arch) (a : Address) : (arch.wrap a).toNat = a.toNat % 2 ^ (8 * arch.pointerSize) := by
  have hmask : arch.pointerMask.toNat = 2 ^ (8 * arch.pointerSize) - 1 := by cases arch <;> rfl
  rw [wrap, UInt64.toNat_and, hmask, Nat.and_two_pow_sub_one_eq_mod]

theorem wrap_of_lt {arch : Arch} {a : Address} (h : a.toNat < 2 ^ (8 * arch.pointerSize)) : arch.wrap a = a := by
  apply UInt64.toNat_inj.1
  rw [toNat_wrap, Nat.mod_eq_of_lt h]

theorem wrap_wrap (arch : Arch) (a : Address) : arch.wrap (arch.wrap a) = arch.wrap a := by
  apply UInt64.toNat_inj.1
  rw [toNat_wrap, toNat_wrap, Nat.mod_mod]

/-- Pointers add up modulo the pointer width, wherever they are cut. -/
theorem wrap_add (arch : Arch) (a b : Address) : arch.wrap (arch.wrap a + b) = arch.wrap (a + b) := by
  apply UInt64.toNat_inj.1
  simp only [toNat_wrap, UInt64.toNat_add]
  cases arch <;> simp only [pointerSize] <;> omega

theorem wrap_sub (arch : Arch) (a b : Address) : arch.wrap (arch.wrap a - b) = arch.wrap (a - b) := by
  rw [UInt64.sub_eq_add_neg, UInt64.sub_eq_add_neg, wrap_add]

theorem bits_instructionField (arch : Arch) : arch.instructionField.bits = 8 * arch.pointerSize := by
  cases arch <;> rfl

theorem bits_stackField (arch : Arch) : arch.stackField.bits = 8 * arch.pointerSize := by
  cases arch <;> rfl

theorem zeroExtends_stackField (arch : Arch) : arch.stackField.zeroExtends = false := by
  cases arch <;> rfl

theorem zeroExtends_instructionField (arch : Arch) : arch.instructionField.zeroExtends = false := by
  cases arch <;> rfl

theorem store_stackField_ne (arch : Arch) : arch.stackField.store ≠ arch.instructionField.store := by
  cases arch <;> decide

end Arch

namespace Layout

theorem mem_fields_of_field? {n : Nat} {l : Layout n} {name : String} {f : Field n} (h : l.field? name = some f) :
    (name, f) ∈ l.fields := by
  obtain ⟨front, back, hfields, -⟩ := List.lookup_eq_some_iff.1 h
  simp [hfields]

theorem name_of_mem_fields : ∀ arch : Arch, ∀ e ∈ arch.layout.fields,
    (e.2.store = arch.stackField.store → e.1 ∈ ["esp", "sp", "rsp", "spl"]) ∧
      (e.2.store = arch.instructionField.store → e.1 ∈ ["eip", "ip", "rip"])
  | .x86 => by decide +kernel
  | .x86_64 => by decide +kernel

/-- Few names reach the stores of the two pointers. -/
theorem name_of_field? {arch : Arch} {name : String} {f : Field arch.stores} (h : arch.layout.field? name = some f) :
    (f.store = arch.stackField.store → name ∈ ["esp", "sp", "rsp", "spl"]) ∧
      (f.store = arch.instructionField.store → name ∈ ["eip", "ip", "rip"]) :=
  name_of_mem_fields arch (name, f) (mem_fields_of_field? h)

end Layout

namespace Registers

variable {r : Registers} {f g : Field r.arch.stores}

theorem wordAt_writeField_of_ne (h : g.store ≠ f.store) (v : BitVec 128) :
    (r.writeField f v).wordAt g = r.wordAt g :=
  congrArg (fun v : BitVec 128 => UInt64.ofNat v.toNat) (Field.read_write_of_ne h r.stores v)

theorem toNat_wordAt_writeField (hfit : f.offset + f.bits ≤ 128) (v : UInt64) :
    ((r.writeField f (v.toBitVec.setWidth 128)).wordAt f).toNat = v.toNat % 2 ^ f.bits := by
  have hv := v.toNat_lt
  have hlt : v.toNat % 2 ^ f.bits < 2 ^ 64 := Nat.lt_of_le_of_lt (Nat.mod_le _ _) hv
  have hread : f.read (r.writeField f (v.toBitVec.setWidth 128)).stores = _ := Field.read_write_self hfit r.stores _
  show (UInt64.ofNat (f.read (r.writeField f _).stores).toNat).toNat = _
  rw [hread, UInt64.toNat_ofNat', Word.toNat_and_maskBits, BitVec.toNat_setWidth, UInt64.toNat_toBitVec,
    Nat.mod_eq_of_lt (a := v.toNat) (by omega), Nat.mod_eq_of_lt hlt]

theorem toNat_readField_lt (r : Registers) (f : Field r.arch.stores) : (r.readField f).toNat < 2 ^ f.bits := by
  rw [readField, Field.toNat_read]
  exact Nat.mod_lt _ (Nat.two_pow_pos _)

theorem toNat_wordAt (h : f.bits ≤ 64) : (r.wordAt f).toNat = (r.readField f).toNat := by
  have hlt := Nat.lt_of_lt_of_le (r.toNat_readField_lt f) (Nat.pow_le_pow_right (by decide) h)
  rw [wordAt, UInt64.toNat_ofNat', Nat.mod_eq_of_lt hlt]

theorem toNat_wordAt_lt (h : f.bits ≤ 64) : (r.wordAt f).toNat < 2 ^ f.bits := by
  rw [toNat_wordAt h]
  exact r.toNat_readField_lt f

/-! ## The two pointers -/

theorem ip_withIp (r : Registers) (a : Address) : (r.withIp a).ip = r.arch.wrap a := by
  apply UInt64.toNat_inj.1
  rw [Arch.toNat_wrap, ← Arch.bits_instructionField]
  exact toNat_wordAt_writeField (by cases r.arch <;> decide) a

theorem sp_withSp (r : Registers) (a : Address) : (r.withSp a).sp = r.arch.wrap a := by
  apply UInt64.toNat_inj.1
  rw [Arch.toNat_wrap, ← Arch.bits_stackField]
  exact toNat_wordAt_writeField (by cases r.arch <;> decide) a

theorem sp_withIp (r : Registers) (a : Address) : (r.withIp a).sp = r.sp :=
  wordAt_writeField_of_ne r.arch.store_stackField_ne _

theorem ip_withSp (r : Registers) (a : Address) : (r.withSp a).ip = r.ip :=
  wordAt_writeField_of_ne r.arch.store_stackField_ne.symm _

/-- Where control was before it moved does not show. -/
theorem withIp_withIp (r : Registers) (a b : Address) : (r.withIp a).withIp b = r.withIp b :=
  congrArg (fun stores => { r with stores }) (Field.write_write r.arch.instructionField r.stores _ _)

/-- The stack pointer lies within the pointer width. -/
theorem toNat_sp_lt (r : Registers) : r.sp.toNat < 2 ^ (8 * r.arch.pointerSize) := by
  rw [← Arch.bits_stackField]
  exact toNat_wordAt_lt (by rw [Arch.bits_stackField]; cases r.arch <;> decide)

theorem toNat_ip_lt (r : Registers) : r.ip.toNat < 2 ^ (8 * r.arch.pointerSize) := by
  rw [← Arch.bits_instructionField]
  exact toNat_wordAt_lt (by rw [Arch.bits_instructionField]; cases r.arch <;> decide)

theorem wrap_sp (r : Registers) : r.arch.wrap r.sp = r.sp := Arch.wrap_of_lt r.toNat_sp_lt

theorem wrap_ip (r : Registers) : r.arch.wrap r.ip = r.ip := Arch.wrap_of_lt r.toNat_ip_lt

/-- Writing the contents of a narrow window back changes nothing. -/
theorem writeField_wordAt (hbits : f.bits ≤ 64) (hextends : f.zeroExtends = false) :
    r.writeField f ((r.wordAt f).toBitVec.setWidth 128) = r := by
  have hread : (r.wordAt f).toBitVec.setWidth 128 = r.readField f := by
    apply BitVec.eq_of_toNat_eq
    rw [BitVec.toNat_setWidth, UInt64.toNat_toBitVec, toNat_wordAt hbits, Nat.mod_eq_of_lt (BitVec.isLt _)]
  rw [hread]
  exact congrArg (fun stores => { r with stores }) (Field.write_read hextends r.stores)

theorem withSp_sp (r : Registers) : r.withSp r.sp = r :=
  writeField_wordAt (by rw [Arch.bits_stackField]; cases r.arch <;> decide) (Arch.zeroExtends_stackField r.arch)

/-- Moving control to where it is changes nothing. -/
theorem withIp_of_ip {a : Address} (h : r.ip = r.arch.wrap a) : r.withIp a = r := by
  have hsame : ∀ r : Registers, r.withIp r.ip = r := fun r =>
    writeField_wordAt (by rw [Arch.bits_instructionField]; cases r.arch <;> decide)
      (Arch.zeroExtends_instructionField r.arch)
  calc r.withIp a = (r.withIp a).withIp (r.withIp a).ip := (hsame _).symm
    _ = (r.withIp a).withIp r.ip := by rw [ip_withIp, h]
    _ = r := by rw [withIp_withIp, hsame]

/-! ## Registers by name -/

theorem setWide_of_field? {name : String} (h : r.field? (Text.lowercase name) = some f) (v : BitVec 128) :
    r.setWide name v = .ok (r.writeField f v) := by
  simp [setWide, h]

theorem arch_of_setWide {r' : Registers} {name : String} {v : BitVec 128} (h : r.setWide name v = .ok r') :
    r'.arch = r.arch := by
  rw [setWide] at h
  split at h
  · cases h
    rfl
  · split at h
    · cases h
    · cases hword : r.float.setWord (Text.lowercase name) (UInt64.ofNat v.toNat) with
      | ok float =>
        rw [hword] at h
        cases h
        rfl
      | error e =>
        rw [hword] at h
        cases h

theorem getWide_of_field? {name : String} (h : r.field? (Text.lowercase name) = some f) :
    r.getWide name = .ok (r.readField f) := by
  simp [getWide, h]

theorem get_of_field? {name : String} (h : r.field? (Text.lowercase name) = some f) :
    r.get name = .ok (r.wordAt f) := by
  rw [get, getWide_of_field? h]
  rfl

theorem getWide_writeField {name : String}
    (h : ∀ g ∈ r.field? (Text.lowercase name), g.store ≠ f.store) (v : BitVec 128) :
    (r.writeField f v).getWide name = r.getWide name := by
  unfold getWide
  dsimp only
  rw [show (r.writeField f v).field? (Text.lowercase name) = r.field? (Text.lowercase name) from rfl]
  cases hfield : r.field? (Text.lowercase name) with
  | some g => exact congrArg Except.ok (Field.read_write_of_ne (h g hfield) r.stores v)
  | none => rfl

theorem get_writeField {name : String}
    (h : ∀ g ∈ r.field? (Text.lowercase name), g.store ≠ f.store) (v : BitVec 128) :
    (r.writeField f v).get name = r.get name := by
  rw [get, get, getWide_writeField h]

end Registers

end PathReplay
