/-!
# Hexadecimal text

`Hex.lower` is the plain `0x` form of a value, `Hex.upper` the digits in capitals, `Hex.address` the
form of an address in a listing (at least eight capital digits), `Hex.fixed` a form of fixed length,
and `Hex.bytes` the two digits of each byte of a run.
-/

namespace PathReplay.Hex

/-- The hexadecimal digits of a number, most significant first, without leading zeros. -/
def digits (n : Nat) : List Char := Nat.toDigits 16 n

/-- Zeros in front, up to `width` digits. -/
def padded (width : Nat) (ds : List Char) : List Char :=
  List.replicate (width - ds.length) '0' ++ ds

/-- `0x` and the lowercase digits. -/
def lower (n : Nat) : String := "0x" ++ String.ofList (digits n)

/-- `0x` and the capital digits. -/
def upper (n : Nat) : String := "0x" ++ String.ofList ((digits n).map Char.toUpper)

/-- `0x` and at least eight capital digits. -/
def address (x : UInt64) : String :=
  "0x" ++ String.ofList (padded 8 ((digits x.toNat).map Char.toUpper))

/-- `0x` and at least `width` lowercase digits. -/
def fixed (width n : Nat) : String := "0x" ++ String.ofList (padded width (digits n))

/-- Two lowercase digits a byte. -/
def bytes (data : List UInt8) : String :=
  String.ofList (data.flatMap fun b => padded 2 (digits b.toNat))

end PathReplay.Hex
