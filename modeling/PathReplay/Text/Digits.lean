/-!
# Reading numbers from text

`Digits.value?` reads a run of digits in a given base, of any length and with any number of leading
zeros; `Digits.word?` allows one plus sign in front and refuses what does not fit 64 bits.
-/

namespace PathReplay.Digits

/-- The value of one digit in a base up to 36, in either case. -/
def digit? (base : Nat) (c : Char) : Option Nat :=
  let d := if c.isDigit then c.toNat - '0'.toNat
    else if c.isLower then c.toNat - 'a'.toNat + 10
    else if c.isUpper then c.toNat - 'A'.toNat + 10
    else base
  if d < base then some d else none

theorem digit?_lt {base : Nat} {c : Char} {d : Nat} (h : digit? base c = some d) : d < base := by
  simp only [digit?] at h
  generalize (if c.isDigit then _ else _ : Nat) = v at h
  by_cases hv : v < base
  · rw [if_pos hv] at h; cases h; exact hv
  · rw [if_neg hv] at h; cases h

/-- The value of the digits `cs` after digits of value `n`. -/
def valueFrom? (base : Nat) (n : Nat) : List Char → Option Nat
  | [] => some n
  | c :: cs => (digit? base c).bind fun d => valueFrom? base (base * n + d) cs

/-- The value of a nonempty run of digits. -/
def value? (base : Nat) (cs : List Char) : Option Nat :=
  if cs.isEmpty then none else valueFrom? base 0 cs

/-- A 64-bit number: digits, with at most one plus sign in front. -/
def word? (base : Nat) (cs : List Char) : Option UInt64 :=
  let ds := match cs with
    | '+' :: ds => ds
    | _ => cs
  (value? base ds).bind fun n => if n < UInt64.size then some (UInt64.ofNat n) else none

end PathReplay.Digits
