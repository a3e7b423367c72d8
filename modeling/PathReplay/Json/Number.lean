import PathReplay.Double.Rounding
import PathReplay.Text.Digits

/-!
# Number literals

The grammar of JSON numbers: an optional minus sign, an integer part without leading zeros, and an optional
fraction and exponent. `NumberLiteral.read?` takes the longest such literal off a text. A literal is an
integer if it has neither fraction nor exponent and is not minus zero. In double precision a literal is its
`significand`, at most 64 bits, times a power of ten, each rounded before they are multiplied:
`NumberLiteral.isFinite` says whether that stays below infinity.
-/

namespace PathReplay

/-- The parts of a number literal. The fraction and the exponent's digits are empty if absent. -/
structure NumberLiteral where
  negative : Bool
  whole : List Char
  fraction : List Char
  exponent : List Char
  /-- The exponent has a minus sign. -/
  shrinks : Bool
  /-- Neither fraction nor exponent. -/
  isPlain : Bool

namespace NumberLiteral

/-- The digits at the front of a text and what follows them. -/
def digits (s : List Char) : List Char × List Char := (s.takeWhile Char.isDigit, s.dropWhile Char.isDigit)

theorem digits_append (s : List Char) : (digits s).1 ++ (digits s).2 = s := List.takeWhile_append_dropWhile

/-- The integer part: a zero, or digits that do not start with one. -/
def whole? (s : List Char) : Option (List Char × List Char) :=
  let (ds, rest) := digits s
  match ds with
  | [] => none
  | ['0'] => some (ds, rest)
  | '0' :: _ => none
  | _ => some (ds, rest)

/-- The digits after a point, if one stands in front. -/
def fraction? (s : List Char) : Option (List Char × List Char) :=
  match s with
  | '.' :: rest =>
    let (ds, rest) := digits rest
    if ds.isEmpty then none else some (ds, rest)
  | _ => some ([], s)

/-- A text without a sign in front of it, and whether that sign is a minus. -/
def unsigned (s : List Char) : Bool × List Char :=
  match s with
  | '-' :: rest => (true, rest)
  | '+' :: rest => (false, rest)
  | _ => (false, s)

theorem length_unsigned_le (s : List Char) : (unsigned s).2.length ≤ s.length := by
  unfold unsigned; split <;> simp

/-- Digits after an optional sign, and whether the sign is a minus. -/
def signedDigits? (s : List Char) : Option ((Bool × List Char) × List Char) :=
  let (ds, rest) := digits (unsigned s).2
  if ds.isEmpty then none else some (((unsigned s).1, ds), rest)

/-- The digits of an exponent, if its letter stands in front, and whether it is negative. -/
def exponent? (s : List Char) : Option ((Bool × List Char) × List Char) :=
  match s with
  | 'e' :: rest => signedDigits? rest
  | 'E' :: rest => signedDigits? rest
  | _ => some ((false, []), s)

/-- A text without a minus sign in front of it, and whether there is one. -/
def minus (s : List Char) : Bool × List Char :=
  match s with
  | '-' :: rest => (true, rest)
  | _ => (false, s)

theorem length_minus_le (s : List Char) : (minus s).2.length ≤ s.length := by
  unfold minus; split <;> simp

def read? (s : List Char) : Option (NumberLiteral × List Char) := do
  let (whole, rest) ← whole? (minus s).2
  let (fraction, rest) ← fraction? rest
  let ((shrinks, exponent), rest) ← exponent? rest
  return ({ negative := (minus s).1, whole, fraction, exponent, shrinks,
            isPlain := fraction.isEmpty && exponent.isEmpty }, rest)

theorem length_digits_le {s ds r : List Char} (h : digits s = (ds, r)) : r.length + ds.length = s.length := by
  have := congrArg List.length (digits_append s)
  simp only [h, List.length_append] at this
  omega

theorem length_whole?_lt {s ds r : List Char} (h : whole? s = some (ds, r)) : r.length < s.length := by
  simp only [whole?] at h
  generalize hd : digits s = d at h
  obtain ⟨xs, rest⟩ := d
  have hl := length_digits_le hd
  cases xs with
  | nil => cases h
  | cons x more =>
    rw [List.length_cons] at hl
    obtain rfl : rest = r := by split at h <;> simp_all
    omega

theorem length_fraction?_le {s ds r : List Char} (h : fraction? s = some (ds, r)) :
    r.length ≤ s.length := by
  unfold fraction? at h
  split at h
  · next rest =>
    generalize hd : digits rest = d at h
    obtain ⟨xs, t⟩ := d
    have hl := length_digits_le hd
    simp only at h
    split at h
    · cases h
    · cases h; simp only [List.length_cons]; omega
  · cases h; exact Nat.le_refl _

theorem length_exponent?_le {s r : List Char} {e : Bool × List Char} (h : exponent? s = some (e, r)) :
    r.length ≤ s.length := by
  have signed : ∀ rest : List Char, ∀ e r, signedDigits? rest = some (e, r) → r.length ≤ rest.length := by
    intro rest e r h
    unfold signedDigits? at h
    generalize hd : digits (unsigned rest).2 = d at h
    obtain ⟨xs, t⟩ := d
    have hl := length_digits_le hd
    have hu := length_unsigned_le rest
    simp only at h
    split at h
    · cases h
    · cases h; omega
  unfold exponent? at h
  split at h
  · exact Nat.le_succ_of_le (signed _ _ _ h)
  · exact Nat.le_succ_of_le (signed _ _ _ h)
  · cases h; exact Nat.le_refl _

/-- A literal takes at least one character. -/
theorem length_read?_lt {s r : List Char} {n : NumberLiteral} (h : read? s = some (n, r)) :
    r.length < s.length := by
  simp only [read?, Option.bind_eq_bind, Option.bind_eq_some_iff, Prod.exists, Option.pure_def,
    Option.some.injEq, Prod.mk.injEq] at h
  obtain ⟨w, r1, h1, f, r2, h2, sh, ex, r3, h3, -, rfl⟩ := h
  have a := length_whole?_lt h1
  have b := length_fraction?_le h2
  have c := length_exponent?_le h3
  have := length_minus_le s
  omega

def integer? (n : NumberLiteral) : Option Int :=
  if n.isPlain then
    (Digits.value? 10 n.whole).bind fun m =>
      if n.negative then if m = 0 then none else some (-(m : Int)) else some (m : Int)
  else none

def toList (n : NumberLiteral) : List Char :=
  (if n.negative then ['-'] else []) ++ n.whole ++
    (if n.fraction.isEmpty then [] else '.' :: n.fraction) ++
    (if n.exponent.isEmpty then [] else 'e' :: (if n.shrinks then ['-'] else []) ++ n.exponent)

/-! ## Double precision -/

/-- The magnitude from which a number counts as infinite in double precision. -/
def infiniteFrom : Nat := (1 <<< 1024) - (1 <<< 970)

/-- Digits appended to a number for as long as it fits 64 bits, and the digits that are left. -/
def appendDigits (n : Nat) : List Char → Nat × List Char
  | [] => (n, [])
  | c :: cs =>
    let m := 10 * n + (c.toNat - '0'.toNat)
    if m < 0x10000000000000000 then appendDigits m cs else (n, c :: cs)

/-- The digits of the integer part that the significand takes, and those left. -/
def wholeDigits (n : NumberLiteral) : Nat × List Char := appendDigits 0 n.whole

/-- The digits of both parts that the significand takes, and those left of the fraction. -/
def allDigits (n : NumberLiteral) : Nat × List Char := appendDigits n.wholeDigits.1 n.fraction

/-- The literal's digits without the point, as many of either part as fit 64 bits. -/
def significand (n : NumberLiteral) : Nat := n.allDigits.1

/-- The power of ten by which the significand is scaled. -/
def scale (n : NumberLiteral) : Int :=
  let e : Int := ((Digits.value? 10 n.exponent).getD 0 : Nat)
  n.wholeDigits.2.length + n.allDigits.2.length - n.fraction.length + (if n.shrinks then -e else e)

/-- A number rounded to the 53 bits of a double precision significand. -/
def roundedToDouble (n : Nat) : Nat :=
  let excess := n.log2 - 52
  Double.shiftRightEven n excess <<< excess

/-- The largest power of ten in double precision. -/
def maxScale : Nat := 308

/-- Whether the literal is finite in double precision: the product of its rounded significand and the rounded
power of ten does not reach the range in which a number becomes infinite. -/
def isFinite (n : NumberLiteral) : Bool :=
  n.significand = 0 ∨ n.scale < 0 ∨
    (n.scale ≤ maxScale ∧
      roundedToDouble n.significand * roundedToDouble (Nat.pow 10 n.scale.toNat) < infiniteFrom)

end NumberLiteral
end PathReplay
