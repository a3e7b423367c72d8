import PathReplay.Word
import PathReplay.Json.Value
import Std.Data.ExtTreeMap

/-!
# Decoding JSON

A decoder takes a value of the library's types out of a document, or refuses it. A record may be written as
an object, in which names that are not its own are ignored and none of its own may be repeated, or as the
array of its values in order, which may stop early. `Json.fields?` brings both to one form.
-/

namespace PathReplay

abbrev Decoder (α : Type) := Json → Option α

namespace Decoder

variable {α β : Type}

def integerIn (lo hi : Int) : Decoder Int
  | .integer i => if lo ≤ i ∧ i ≤ hi then some i else none
  | _ => none

/-- An unsigned 64-bit number. -/
def word : Decoder UInt64 := fun j => (integerIn 0 0xFFFFFFFFFFFFFFFF j).map fun i => UInt64.ofNat i.toNat

/-- An unsigned 8-bit number. -/
def byte : Decoder UInt8 := fun j => (integerIn 0 255 j).map fun i => UInt8.ofNat i.toNat

/-- A signed 64-bit number. -/
def signed : Decoder Int64 := fun j => (integerIn (-0x8000000000000000) 0x7FFFFFFFFFFFFFFF j).map Int64.ofInt

def text : Decoder String
  | .string t => t
  | _ => none

def list (d : Decoder α) : Decoder (List α)
  | .array items => items.mapM d
  | _ => none

def optional (d : Decoder α) : Decoder (Option α)
  | .null => some none
  | j => (d j).map some

/-- The word that a text writes in decimal, as a number of a document would be. -/
def decimalWord (s : String) : Option UInt64 :=
  match NumberLiteral.read? s.toList with
  | some (n, []) => (n.integer?).bind fun i => word (.integer i)
  | _ => none

/-- A key of an address map: a decimal number, written without escapes. -/
def addressKey (name : MemberName) : Option Address :=
  if name.isPlain then name.text.bind decimalWord else none

def members (key : MemberName → Option β) (d : Decoder α) : Decoder (List (β × α))
  | .object ms => ms.mapM fun (name, value) => do return (← key name, ← d value)
  | _ => none

/-- A map by address. Of repeated keys the last counts. -/
def addressMap (d : Decoder α) : Decoder (Std.ExtTreeMap Address α compare) := fun j =>
  (members addressKey d j).map fun entries => entries.foldl (fun m (k, v) => m.insert k v) ∅

/-- A map by name. Of repeated keys the last counts. -/
def nameMap (d : Decoder α) : Decoder (Std.ExtTreeMap String α compare) := fun j =>
  (members MemberName.text d j).map fun entries => entries.foldl (fun m (k, v) => m.insert k v) ∅

theorem text_text (s : String) : text (.text s) = some s := rfl

theorem word_word (x : UInt64) : word (.word x) = some x := by
  have h := x.toNat_lt
  simp only [word, Json.word, integerIn]
  rw [if_pos (by omega)]
  simp

theorem byte_byte (x : UInt8) : byte (.integer x.toNat) = some x := by
  have h := x.toNat_lt
  simp only [byte, integerIn]
  rw [if_pos (by omega)]
  simp

theorem list_list (d : Decoder α) (e : α → Json) (xs : List α) (h : ∀ x, d (e x) = some x) :
    list d (.list e xs) = some xs := by
  have : (xs.map e).mapM d = some xs := by
    induction xs with
    | nil => rfl
    | cons x xs ih => simp [List.mapM_cons, h, ih]
  simpa [list, Json.list] using this

end Decoder

namespace Json

/-- A record's values: one for each of its names, if there is one, and whether it was written as an
array. -/
structure Fields where
  values : List (Option Json)
  ordered : Bool

/-- A value that a list of values brings, or none past its end. -/
def itemAt (items : List Json) (i : Nat) : Option Json := items[i]?

/-- The values of a record with the given names. -/
def fields? (names : List String) : Json → Option Fields
  | .array items =>
    if items.length ≤ names.length then some ⟨(List.range names.length).map (itemAt items), true⟩
    else none
  | .object members =>
    if members.all (fun m => m.1.text.isSome) ∧
        names.all (fun name => (membersNamed members name).length ≤ 1) then
      some ⟨names.map fun name => (membersNamed members name).head?, false⟩
    else none
  | _ => none

end Json

namespace Decoder

variable {α : Type}

def required (d : Decoder α) (v : Option Json) : Option α := v.bind d

def withDefault (d : Decoder α) (default : α) (v : Option Json) : Option α :=
  match v with
  | some j => d j
  | none => some default

end Decoder
end PathReplay
