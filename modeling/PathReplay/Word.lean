/-!
# Words of a given width

A value travels as a 64-bit word together with a width in bytes, and these functions give the pair
its meaning: `Word.mask` and `maskBits` (the bits that a width covers), `signBit`, `signExtend` and
`toInt` (two's complement), `evenParity`, and the little-endian bytes of a word (`toBytes`,
`ofBytes`). A width of eight bytes or more covers the whole word.
-/

namespace PathReplay

/-- A location in the emulated address space. Address arithmetic wraps at `2 ^ 64`. -/
abbrev Address := UInt64

/-- A run of memory contents, lowest address first. -/
abbrev Bytes := List UInt8

namespace Word

/-- The low `8 * width` bits. -/
def mask (width : Nat) : UInt64 :=
  if 8 ≤ width then 0xFFFFFFFFFFFFFFFF else UInt64.ofNat ((1 <<< (8 * width)) - 1)

theorem mask_of_le {width : Nat} (h : 8 ≤ width) : mask width = 0xFFFFFFFFFFFFFFFF := if_pos h

theorem toNat_mask {width : Nat} (h : width ≤ 8) : (mask width).toNat = (1 <<< (8 * width)) - 1 := by
  have : width = 0 ∨ width = 1 ∨ width = 2 ∨ width = 3 ∨ width = 4 ∨ width = 5 ∨ width = 6 ∨
      width = 7 ∨ width = 8 := by omega
  rcases this with rfl | rfl | rfl | rfl | rfl | rfl | rfl | rfl | rfl <;> rfl

/-- The low `bits` bits of a 128-bit store. -/
def maskBits (bits : Nat) : BitVec 128 := BitVec.allOnes 128 >>> (128 - bits)

/-- The width whose top bit is the sign: at least one byte and at most eight. -/
def signWidth (width : Nat) : Nat := max 1 (min width 8)

theorem signWidth_of_mem {width : Nat} (h : 1 ≤ width) (h' : width ≤ 8) : signWidth width = width := by
  unfold signWidth; omega

def signBit (value : UInt64) (width : Nat) : Bool :=
  value.toNat.testBit (8 * signWidth width - 1)

/-- The value's low `width` bytes, with every higher bit equal to their sign bit. -/
def signExtend (value : UInt64) (width : Nat) : UInt64 :=
  let low := value &&& mask width
  if signBit low width then low ||| ~~~(mask width) else low

/-- The value's low `width` bytes in two's complement. -/
def toInt (value : UInt64) (width : Nat) : Int :=
  (signExtend value width).toInt64.toInt

/-- Whether the low byte has an even number of ones. -/
def evenParity (value : UInt64) : Bool :=
  ((List.range 8).countP value.toNat.testBit) % 2 == 0

theorem toNat_max (a b : UInt64) : (max a b).toNat = max a.toNat b.toNat := by
  show (if a ≤ b then b else a).toNat = _
  split <;> rename_i h <;> rw [UInt64.le_iff_toNat_le] at h <;> omega

theorem toNat_min (a b : UInt64) : (min a b).toNat = min a.toNat b.toNat := by
  show (if a ≤ b then a else b).toNat = _
  split <;> rename_i h <;> rw [UInt64.le_iff_toNat_le] at h <;> omega

instance lawfulOrderMax : Std.LawfulOrderMax UInt64 := by
  refine .of_max_le_iff (fun a b c => ?_) fun a b => ?_
  · simp only [UInt64.le_iff_toNat_le, toNat_max]
    omega
  · show (if a ≤ b then b else a) = a ∨ (if a ≤ b then b else a) = b
    split
    · exact .inr rfl
    · exact .inl rfl

def saturatingAdd (a b : UInt64) : UInt64 :=
  if a.toNat + b.toNat < UInt64.size then a + b else 0xFFFFFFFFFFFFFFFF

theorem toNat_saturatingAdd (a b : UInt64) :
    (saturatingAdd a b).toNat = min (a.toNat + b.toNat) (UInt64.size - 1) := by
  unfold saturatingAdd
  split
  · rw [UInt64.toNat_add, Nat.mod_eq_of_lt (by assumption)]; omega
  · have : (0xFFFFFFFFFFFFFFFF : UInt64).toNat = UInt64.size - 1 := rfl
    omega

/-- The address `n` bytes on, at most the largest address. -/
def advance (a : Address) (n : Nat) : Address :=
  if a.toNat + n < UInt64.size then a + UInt64.ofNat n else 0xFFFFFFFFFFFFFFFF

theorem toNat_advance (a : Address) (n : Nat) :
    (advance a n).toNat = min (a.toNat + n) (UInt64.size - 1) := by
  unfold advance
  split
  · rename_i h
    have hn : n % 2 ^ 64 = n := Nat.mod_eq_of_lt (Nat.lt_of_le_of_lt (Nat.le_add_left _ _) h)
    rw [UInt64.toNat_add, UInt64.toNat_ofNat', hn, Nat.mod_eq_of_lt h]
    omega
  · have : (0xFFFFFFFFFFFFFFFF : UInt64).toNat = UInt64.size - 1 := rfl
    omega

def saturatingMul (a b : UInt64) : UInt64 :=
  if a.toNat * b.toNat < UInt64.size then a * b else 0xFFFFFFFFFFFFFFFF

theorem toNat_saturatingMul (a b : UInt64) :
    (saturatingMul a b).toNat = min (a.toNat * b.toNat) (UInt64.size - 1) := by
  unfold saturatingMul
  split
  · rw [UInt64.toNat_mul, Nat.mod_eq_of_lt (by assumption)]; omega
  · have : (0xFFFFFFFFFFFFFFFF : UInt64).toNat = UInt64.size - 1 := rfl
    omega

/-- The word whose little-endian bytes are given. -/
def ofBytes : Bytes → UInt64
  | [] => 0
  | b :: rest => b.toUInt64 ||| (ofBytes rest <<< 8)

/-- The low `n` bytes of a word, least significant first. -/
def toBytes (value : UInt64) : Nat → Bytes
  | 0 => []
  | n + 1 => value.toUInt8 :: toBytes (value >>> 8) n

@[simp] theorem length_toBytes (value : UInt64) (n : Nat) : (toBytes value n).length = n := by
  induction n generalizing value with
  | zero => rfl
  | succ n ih => simp [toBytes, ih]

def ofInt (i : Int) : UInt64 := UInt64.ofInt i

end Word
end PathReplay
