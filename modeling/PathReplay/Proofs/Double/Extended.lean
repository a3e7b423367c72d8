import PathReplay.Double.Extended
import PathReplay.Double.Rounding
import PathReplay.Proofs.Machine.Places
import Mathlib.Data.Rat.Cast.Order
import Mathlib.Tactic.Positivity
import Mathlib.Tactic.Ring

/-!
# Doubles in extended precision

* `Double.value`, `Extended.value` : the numbers that finite patterns stand for;
* `Double.toNat_bits`, `Double.ext_fields` : a pattern is its three fields;
* `Extended.ofDouble_encodes` : what zeros, subnormal, normal and all other numbers become;
* `Extended.ofBytes_toBytes` : the ten bytes have the three fields back;
* `Extended.ofDouble_exact` : nothing is lost.
-/

namespace PathReplay

/-! ## Doubles -/

namespace Double

variable {x y : Double}

/-- The number that a finite pattern stands for. -/
def value (x : Double) : ℚ := (if x.negative then -1 else 1) * x.significand * 2 ^ x.scale

theorem toNat_bits (x : Double) :
    x.bits.toNat = x.negative.toNat * 2 ^ 63 + x.exponent * 2 ^ 52 + x.fraction := by
  have hlt := x.bits.toNat_lt
  unfold negative exponent fraction
  rw [Nat.testBit_eq_decide_div_mod_eq]
  by_cases h : x.bits.toNat / 2 ^ 63 % 2 = 1
  · rw [decide_eq_true h, Bool.toNat_true]
    omega
  · rw [decide_eq_false h, Bool.toNat_false]
    omega

theorem ext_fields (hnegative : x.negative = y.negative) (hexponent : x.exponent = y.exponent)
    (hfraction : x.fraction = y.fraction) : x = y := by
  have hbits : x.bits = y.bits := by
    rw [← UInt64.toNat_inj, toNat_bits, toNat_bits, hnegative, hexponent, hfraction]
  cases x
  cases y
  exact congrArg Double.mk hbits

theorem isFinite_iff : x.isFinite = true ↔ x.exponent ≠ 2047 := by simp [isFinite]

theorem isNaN_iff : x.isNaN = true ↔ x.exponent = 2047 ∧ x.fraction ≠ 0 := by simp [isNaN]

theorem isZero_iff : x.isZero = true ↔ x.exponent = 0 ∧ x.fraction = 0 := by simp [isZero]

end Double

namespace Extended

variable {x y : Double} {e : Extended}

/-- The number that the three fields stand for, computed exactly. -/
def value (e : Extended) : ℚ := (if e.negative then -1 else 1) * e.mantissa.toNat * 2 ^ ((e.exponent : ℤ) - 16383 - 63)

/-! ## Mantissas -/

/-- A fraction below the explicit top bit. -/
theorem toNat_topped {f : Nat} (h : f < 2 ^ 52) :
    ((0x8000000000000000 : UInt64) ||| UInt64.ofNat (f <<< 11)).toNat = 2 ^ 63 + f * 2 ^ 11 := by
  have hshift : (UInt64.ofNat (f <<< 11)).toNat = f * 2 ^ 11 := by
    rw [UInt64.toNat_ofNat', Nat.shiftLeft_eq]
    omega
  rw [UInt64.toNat_or, hshift, show (0x8000000000000000 : UInt64).toNat = 2 ^ 63 * 1 by decide,
    ← Nat.two_pow_add_eq_or_of_lt (by omega), Nat.mul_one]

/-- A fraction that is moved up until its highest bit is on top. -/
theorem toNat_renormalized {f : Nat} (hpos : f ≠ 0) (h : f < 2 ^ 52) :
    (UInt64.ofNat (f <<< (leadingShift f + 11))).toNat = f * 2 ^ (63 - f.log2) ∧
      2 ^ 63 ≤ f * 2 ^ (63 - f.log2) := by
  have hlog : f.log2 < 52 := (Nat.log2_lt hpos).2 h
  have hlow : 2 ^ f.log2 ≤ f := Nat.log2_self_le hpos
  have hhigh : f < 2 ^ (f.log2 + 1) := Nat.lt_log2_self
  have hcount : leadingShift f + 11 = 63 - f.log2 := by
    unfold leadingShift
    omega
  have hbelow : f * 2 ^ (63 - f.log2) < 2 ^ 64 := by
    calc f * 2 ^ (63 - f.log2) < 2 ^ (f.log2 + 1) * 2 ^ (63 - f.log2) :=
          Nat.mul_lt_mul_of_pos_right hhigh (Nat.two_pow_pos _)
      _ = 2 ^ 64 := by rw [← Nat.pow_add, show f.log2 + 1 + (63 - f.log2) = 64 by omega]
  constructor
  · rw [hcount, UInt64.toNat_ofNat', Nat.shiftLeft_eq, Nat.mod_eq_of_lt hbelow]
  · calc 2 ^ 63 = 2 ^ f.log2 * 2 ^ (63 - f.log2) := by
          rw [← Nat.pow_add, show f.log2 + (63 - f.log2) = 63 by omega]
      _ ≤ f * 2 ^ (63 - f.log2) := Nat.mul_le_mul_right _ hlow

/-! ## Encoding -/

inductive Encodes (x : Double) (e : Extended) : Prop where
  | zero (he : x.exponent = 0) (hf : x.fraction = 0) (hexponent : e.exponent = 0) (hmantissa : e.mantissa = 0)
  | subnormal (he : x.exponent = 0) (hf : x.fraction ≠ 0) (hexponent : e.exponent = 15309 + x.fraction.log2)
      (hmantissa : e.mantissa.toNat = x.fraction * 2 ^ (63 - x.fraction.log2))
  | normal (he : 0 < x.exponent) (hfinite : x.exponent < 2047) (hexponent : e.exponent = x.exponent + 15360)
      (hmantissa : e.mantissa.toNat = 2 ^ 63 + x.fraction * 2 ^ 11)
  | special (he : x.exponent = 2047) (hexponent : e.exponent = 0x7FFF)
      (hmantissa : e.mantissa.toNat = 2 ^ 63 + x.fraction * 2 ^ 11)

theorem ofDouble_negative (x : Double) : (ofDouble x).negative = x.negative := by
  unfold ofDouble
  dsimp only
  split
  · rfl
  · split
    · rfl
    · split <;> rfl

theorem ofDouble_encodes (x : Double) : Encodes x (ofDouble x) := by
  have hf := x.fraction_lt
  have he := x.exponent_lt
  unfold ofDouble
  dsimp only
  split
  case isTrue hzero =>
    obtain ⟨he, hf⟩ := Double.isZero_iff.1 hzero
    exact .zero he hf rfl rfl
  case isFalse hzero =>
    rw [Double.isZero_iff] at hzero
    split
    case isTrue hspecial => exact .special hspecial rfl (toNat_topped hf)
    case isFalse hfinite =>
      split
      case isTrue hnone =>
        have hpos : x.fraction ≠ 0 := fun h => hzero ⟨hnone, h⟩
        have hlog : x.fraction.log2 < 52 := (Nat.log2_lt hpos).2 hf
        refine .subnormal hnone hpos ?_ (toNat_renormalized hpos hf).1
        show 15361 - leadingShift x.fraction = _
        unfold leadingShift
        omega
      case isFalse hsome => exact .normal (by omega) (by omega) rfl (toNat_topped hf)

theorem Encodes.exponent_lt (h : Encodes x e) : e.exponent < 0x8000 := by
  have hf := x.fraction_lt
  cases h with
  | subnormal he hne hexponent =>
    have hlog : x.fraction.log2 < 52 := (Nat.log2_lt hne).2 hf
    omega
  | _ => omega

/-- The mantissa is the significand, moved up, and the exponent makes up for it. -/
theorem Encodes.exists_shift (h : Encodes x e) (hfinite : x.isFinite = true) :
    ∃ k : Nat, e.mantissa.toNat = x.significand * 2 ^ k ∧ (k : ℤ) + (e.exponent - 16383 - 63) = x.scale := by
  have hf := x.fraction_lt
  cases h with
  | zero he hzero hexponent hmantissa =>
    refine ⟨15372, ?_, ?_⟩
    · rw [hmantissa, Double.significand, if_pos he, hzero, Nat.zero_mul]
      rfl
    · rw [Double.scale, he, hexponent]
      rfl
  | subnormal he hne hexponent hmantissa =>
    have hlog : x.fraction.log2 < 52 := (Nat.log2_lt hne).2 hf
    refine ⟨63 - x.fraction.log2, ?_, ?_⟩
    · rw [hmantissa, Double.significand, if_pos he]
    · rw [Double.scale, he, hexponent]
      omega
  | normal he hbelow hexponent hmantissa =>
    refine ⟨11, ?_, ?_⟩
    · rw [hmantissa, Double.significand, if_neg (by omega)]
      omega
    · rw [Double.scale, hexponent]
      omega
  | special he => exact absurd he (Double.isFinite_iff.1 hfinite)

theorem Encodes.value_eq (h : Encodes x e) (hnegative : e.negative = x.negative) (hfinite : x.isFinite = true) :
    e.value = x.value := by
  obtain ⟨k, hmantissa, hscale⟩ := h.exists_shift hfinite
  rw [value, Double.value, hnegative, hmantissa, ← hscale, zpow_add₀ (by norm_num), zpow_natCast]
  push_cast
  ring

/-- The explicit top bit is there, but for the zeros. -/
theorem Encodes.top_bit (h : Encodes x e) (hvalue : x.value ≠ 0) : 2 ^ 63 ≤ e.mantissa.toNat := by
  have hf := x.fraction_lt
  cases h with
  | zero he hzero =>
    refine absurd ?_ hvalue
    rw [Double.value, Double.significand, if_pos he, hzero, Nat.cast_zero, mul_zero, zero_mul]
  | subnormal he hne hexponent hmantissa => exact hmantissa ▸ (toNat_renormalized hne hf).2
  | normal | special => omega

/-! ## Bytes -/

theorem signExponent_lt (e : Extended) : e.signExponent < 2 ^ 16 := by
  unfold signExponent
  split <;> omega

/-- The ten bytes have the three fields back. -/
theorem ofBytes_toBytes (h : e.exponent < 0x8000) : ofBytes e.toBytes = e := by
  have hmantissa : (e.toBytes).take 8 = Word.toBytes e.mantissa 8 := by
    rw [toBytes, List.take_append_of_le_length (by simp), List.take_of_length_le (by simp)]
  have htop : ((e.toBytes).drop 8).take 2 = Word.toBytes (UInt64.ofNat e.signExponent) 2 := by
    rw [toBytes, List.drop_append_of_le_length (by simp), List.drop_of_length_le (by simp), List.nil_append,
      List.take_of_length_le (by simp)]
  have hword : (Word.ofBytes (Word.toBytes (UInt64.ofNat e.signExponent) 2)).toNat = e.signExponent := by
    have hlt := e.signExponent_lt
    rw [Word.toNat_ofBytes_toBytes _ (by decide), UInt64.toNat_ofNat']
    omega
  have hfirst : Word.ofBytes (Word.toBytes e.mantissa 8) = e.mantissa := by
    have hlt := e.mantissa.toNat_lt
    rw [← UInt64.toNat_inj, Word.toNat_ofBytes_toBytes _ (by decide)]
    omega
  have hsign : e.signExponent.testBit 15 = e.negative := by
    unfold signExponent
    rw [Nat.testBit_eq_decide_div_mod_eq]
    cases e.negative <;> simp
  have hexponent : e.signExponent % 0x8000 = e.exponent := by
    unfold signExponent
    split <;> omega
  unfold ofBytes
  dsimp only
  rw [hmantissa, htop, hword, hfirst, hsign, hexponent]

/-! ## Nothing is lost -/

/-- The fields of a double are seen from what becomes of them. -/
theorem Encodes.eq (hx : Encodes x e) (hy : Encodes y e) (hnegative : x.negative = y.negative) : x = y := by
  have hfx := x.fraction_lt
  have hfy := y.fraction_lt
  have hlog : ∀ {f : Nat}, f ≠ 0 → f < 2 ^ 52 → f.log2 < 52 := fun hne h => (Nat.log2_lt hne).2 h
  cases hx with
  | zero he hf hexponent =>
    cases hy with
    | zero he' hf' => exact Double.ext_fields hnegative (he.trans he'.symm) (hf.trans hf'.symm)
    | _ => omega
  | subnormal he hf hexponent hmantissa =>
    have := hlog hf hfx
    cases hy with
    | subnormal he' hf' hexponent' hmantissa' =>
      have hlogs : x.fraction.log2 = y.fraction.log2 := by omega
      rw [hmantissa, hlogs] at hmantissa'
      refine Double.ext_fields hnegative (he.trans he'.symm) ?_
      exact Nat.eq_of_mul_eq_mul_right (Nat.two_pow_pos _) hmantissa'
    | _ => omega
  | normal he hfinite hexponent hmantissa =>
    cases hy with
    | normal => exact Double.ext_fields hnegative (by omega) (by omega)
    | subnormal he' hf' =>
      have := hlog hf' hfy
      omega
    | _ => omega
  | special he hexponent hmantissa =>
    cases hy with
    | special => exact Double.ext_fields hnegative (by omega) (by omega)
    | subnormal he' hf' =>
      have := hlog hf' hfy
      omega
    | _ => omega

theorem toBytes_ofDouble_injective : Function.Injective fun x => (ofDouble x).toBytes := by
  intro x y h
  have hx := ofDouble_encodes x
  have hy := ofDouble_encodes y
  have hsame : ofDouble x = ofDouble y := by
    rw [← ofBytes_toBytes hx.exponent_lt, ← ofBytes_toBytes hy.exponent_lt]
    exact congrArg ofBytes h
  rw [← hsame] at hy
  refine hx.eq hy ?_
  rw [← ofDouble_negative x, ← ofDouble_negative y, hsame]

/-! ## Infinities and NaNs -/

theorem shiftLeft_one_eq_zero_iff (v : UInt64) : v <<< 1 = 0 ↔ v.toNat % 2 ^ 63 = 0 := by
  rw [← UInt64.toNat_inj, UInt64.toNat_shiftLeft, show (1 : UInt64).toNat % 64 = 1 from rfl, Nat.shiftLeft_eq,
    show (0 : UInt64).toNat = 0 from rfl]
  omega

theorem toDouble_of_special (hexponent : e.exponent = 0x7FFF) : e.toDouble =
    let magnitude := if e.mantissa.toNat % 2 ^ 63 = 0 then Double.infinity else Double.nan
    if e.negative then magnitude.neg else magnitude := by
  unfold toDouble
  simp only [hexponent, shiftLeft_one_eq_zero_iff]
  rfl

theorem Encodes.toDouble_infinite (h : Encodes x e) (hnegative : e.negative = x.negative) (he : x.exponent = 2047)
    (hf : x.fraction = 0) : e.exponent = 0x7FFF ∧ e.mantissa = 0x8000000000000000 ∧ e.toDouble = x := by
  cases h with
  | special _ hexponent hmantissa =>
    rw [hf, Nat.zero_mul, Nat.add_zero] at hmantissa
    refine ⟨hexponent, UInt64.toNat_inj.1 hmantissa, ?_⟩
    rw [toDouble_of_special hexponent, if_pos (show e.mantissa.toNat % 2 ^ 63 = 0 by omega), hnegative]
    have hfields : ∀ z : Double, z.negative = x.negative → z.exponent = 2047 → z.fraction = 0 → z = x :=
      fun z hz hz' hz'' => Double.ext_fields hz (hz'.trans he.symm) (hz''.trans hf.symm)
    cases hsign : x.negative <;> refine hfields _ (.trans ?_ hsign.symm) ?_ ?_ <;> decide
  | _ => omega

theorem Encodes.toDouble_nan (h : Encodes x e) (hnan : x.isNaN = true) :
    e.exponent = 0x7FFF ∧ e.mantissa.toNat % 2 ^ 63 ≠ 0 ∧ e.toDouble.isNaN = true := by
  obtain ⟨he, hf⟩ := Double.isNaN_iff.1 hnan
  have hlt := x.fraction_lt
  cases h with
  | special _ hexponent hmantissa =>
    have hlow : e.mantissa.toNat % 2 ^ 63 ≠ 0 := by omega
    refine ⟨hexponent, hlow, ?_⟩
    rw [toDouble_of_special hexponent, if_neg hlow]
    cases e.negative <;> decide
  | _ => omega

/-- A double is kept in its ten bytes as it is. A finite one keeps its sign and its value, with the explicit top bit of
the mantissa set unless it is zero, infinities and NaNs are read back as such, and no two doubles have the same bytes. -/
theorem ofDouble_exact :
    (∀ x : Double,
      let e := ofBytes (ofDouble x).toBytes
      e = ofDouble x ∧ e.negative = x.negative ∧ e.exponent < 2 ^ 15 ∧
        (x.isFinite = true → e.value = x.value ∧ (x.value ≠ 0 → 2 ^ 63 ≤ e.mantissa.toNat)) ∧
        (x.exponent = 2047 ∧ x.fraction = 0 →
          e.exponent = 0x7FFF ∧ e.mantissa.toNat = 2 ^ 63 ∧ e.toDouble = x) ∧
        (x.isNaN = true → e.exponent = 0x7FFF ∧ e.mantissa.toNat % 2 ^ 63 ≠ 0 ∧ e.toDouble.isNaN = true)) ∧
      Function.Injective fun x => (ofDouble x).toBytes := by
  refine ⟨fun x => ?_, toBytes_ofDouble_injective⟩
  have hencodes := ofDouble_encodes x
  have hnegative := ofDouble_negative x
  dsimp only
  rw [ofBytes_toBytes hencodes.exponent_lt]
  refine ⟨rfl, hnegative, hencodes.exponent_lt, fun hfinite => ⟨hencodes.value_eq hnegative hfinite, hencodes.top_bit⟩,
    fun ⟨he, hf⟩ => ?_, hencodes.toDouble_nan⟩
  obtain ⟨hexponent, hmantissa, hback⟩ := hencodes.toDouble_infinite hnegative he hf
  exact ⟨hexponent, hmantissa ▸ rfl, hback⟩

/-- The least positive double keeps its value, and its single bit is moved to the top. -/
theorem ofDouble_least :
    let e := ofBytes (ofDouble ⟨1⟩).toBytes
    e.value = 2 ^ (-1074 : ℤ) ∧ e = ⟨false, 15309, 0x8000000000000000⟩ := by
  have hbytes : ofBytes (ofDouble ⟨1⟩).toBytes = ⟨false, 15309, 0x8000000000000000⟩ := by decide +kernel
  obtain ⟨-, -, -, hfinite, -⟩ := ofDouble_exact.1 ⟨1⟩
  refine ⟨((hfinite (by decide)).1).trans ?_, hbytes⟩
  rw [Double.value, show Double.negative ⟨1⟩ = false by decide, show Double.significand ⟨1⟩ = 1 by decide,
    show Double.scale ⟨1⟩ = -1074 by decide]
  norm_num

end Extended
end PathReplay
