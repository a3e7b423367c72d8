import PathReplay.Instruction.Arithmetic

/-!
# Shifts and rotates

A count is first cut to five bits, or six for eight-byte operands; `count` below is what is left, and it is
not zero. Operands of more than eight bytes are shifted as words: what would move by 64 bits or more moves by
the rest modulo 64. A rotate takes the remainder of its count by the operand's width in bits. An operand may have
no bits, and the program ends at that remainder: `Instruction.Aborts` says for which instructions. The rotates
below are total and give nothing there.
-/

namespace PathReplay.Arithmetic

/-- The bits of a count that matter for an operand. -/
def countMask (width : Nat) : UInt64 := if width = 8 then 0x3F else 0x1F

def maskedCount (width : Nat) (count : UInt64) : Nat := (count &&& countMask width).toNat

theorem maskedCount_lt (width : Nat) (count : UInt64) : maskedCount width count < 64 := by
  have h : (countMask width).toNat ≤ 63 := by unfold countMask; split <;> decide
  have := Nat.and_le_right (n := count.toNat) (m := (countMask width).toNat)
  simp only [maskedCount, UInt64.toNat_and]; omega

/-- An operand's width in bits, as a 32-bit number. -/
def widthBits (width : Nat) : Nat := width * 8 % UInt32.size

theorem widthBits_of_le {width : Nat} (h : width ≤ 8) : widthBits width = 8 * width := by
  simp only [widthBits, UInt32.size]; omega

def lowBit (value : UInt64) : Bool := value.toNat % 2 == 1

def shiftLeft (width : Nat) (a : UInt64) (count : Nat) : Result :=
  let bits := widthBits width
  let value := if bits ≤ count then 0 else (a <<< UInt64.ofNat count) &&& Word.mask width
  let carry := decide (count ≤ bits) && lowBit (a >>> UInt64.ofNat (bits - count))
  { value
    flags := (.carry, carry) :: (.overflow, Word.signBit value width != carry) ::
      resultFlags value width }

/-- The shift to the right that brings in zeros. -/
def shiftRight (width : Nat) (a : UInt64) (count : Nat) : Result :=
  let value := a >>> UInt64.ofNat count
  { value
    flags := (.carry, lowBit (a >>> UInt64.ofNat (count - 1))) ::
      (.overflow, Word.signBit a width) :: resultFlags value width }

/-- The shift to the right that brings in the sign. -/
def shiftRightSigned (width : Nat) (a : UInt64) (count : Nat) : Result :=
  let i := Word.toInt a width
  let value := Word.ofInt (i >>> count) &&& Word.mask width
  { value
    flags := (.carry, (i >>> (count - 1)) % 2 == 1) :: (.overflow, false) :: resultFlags value width }

/-- The rotate to the left. A count that is a multiple of the width in bits has no effect at all. -/
def rotateLeft? (width : Nat) (a : UInt64) (count : Nat) : Option Result :=
  let bits := widthBits width
  let count := count % bits
  -- By no bits there is no remainder: the program has ended, and nothing is relied on here.
  if bits = 0 ∨ count = 0 then none
  else
    let value := ((a <<< UInt64.ofNat count) ||| (a >>> UInt64.ofNat (bits - count))) &&& Word.mask width
    let carry := lowBit value
    some { value, flags := [(.carry, carry), (.overflow, Word.signBit value width != carry)] }

/-- The rotate to the right. A count that is a multiple of the width in bits has no effect at all. -/
def rotateRight? (width : Nat) (a : UInt64) (count : Nat) : Option Result :=
  let bits := widthBits width
  let count := count % bits
  -- As for the rotate to the left.
  if bits = 0 ∨ count = 0 then none
  else
    let value := ((a >>> UInt64.ofNat count) ||| (a <<< UInt64.ofNat (bits - count))) &&& Word.mask width
    let carry := Word.signBit value width
    some { value, flags := [(.carry, carry), (.overflow, carry != Word.signBit (value <<< 1) width)] }

end PathReplay.Arithmetic
