import PathReplay.Json.Number

/-!
# JSON values

A JSON document as a tree. An object is the list of its members as they stand in the text, repeated names
included, each under a `MemberName` that knows whether it is written with escapes. An integer literal that
fits 64 bits, with or without a sign, is an `integer`; every other number is a `real`, which is kept as it
is written. A string literal that names half of a surrogate pair is well formed but has no text: it is
`string none`.
-/

namespace PathReplay

/-- The name of a member: its text, if it has one, and whether it is written without escapes. -/
structure MemberName where
  text : Option String
  isPlain : Bool
deriving DecidableEq

def MemberName.plain (s : String) : MemberName := ⟨some s, true⟩

inductive Json where
  | null
  | bool (value : Bool)
  | integer (value : Int)
  | real (literal : NumberLiteral)
  | string (text : Option String)
  | array (items : List Json)
  | object (members : List (MemberName × Json))
deriving Inhabited

namespace Json

def text (s : String) : Json := string (some s)

def word (x : UInt64) : Json := integer x.toNat

def count (n : Nat) : Json := integer n

def record (members : List (String × Json)) : Json :=
  object (members.map fun (name, value) => (.plain name, value))

def optional {α : Type} (encode : α → Json) : Option α → Json
  | some x => encode x
  | none => null

def list {α : Type} (encode : α → Json) (xs : List α) : Json := array (xs.map encode)

def ofLiteral (n : NumberLiteral) : Json :=
  match n.integer? with
  | some i => if -0x8000000000000000 ≤ i ∧ i < 0x10000000000000000 then integer i else real n
  | none => real n

mutual

/-- How deep arrays and objects are nested. -/
def depth : Json → Nat
  | array items => itemsDepth items + 1
  | object members => membersDepth members + 1
  | _ => 0

def itemsDepth : List Json → Nat
  | [] => 0
  | x :: rest => max (depth x) (itemsDepth rest)

def membersDepth : List (MemberName × Json) → Nat
  | [] => 0
  | (_, x) :: rest => max (depth x) (membersDepth rest)

end

mutual

/-- Whether every string has a text and every number is finite in double precision. -/
def isRepresentable : Json → Bool
  | real n => n.isFinite
  | string t => t.isSome
  | array items => itemsRepresentable items
  | object members => membersRepresentable members
  | _ => true

def itemsRepresentable : List Json → Bool
  | [] => true
  | x :: rest => isRepresentable x && itemsRepresentable rest

def membersRepresentable : List (MemberName × Json) → Bool
  | [] => true
  | (name, x) :: rest => name.text.isSome && isRepresentable x && membersRepresentable rest

end

def membersNamed (members : List (MemberName × Json)) (name : String) : List Json :=
  members.filterMap fun (n, value) => if n.text = some name then some value else none

/-- The last member of a name, for objects in which a later member replaces an earlier one. -/
def member? (j : Json) (name : String) : Option Json :=
  match j with
  | object members => (membersNamed members name).getLast?
  | _ => none

end Json
end PathReplay
