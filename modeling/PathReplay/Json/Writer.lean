import PathReplay.Json.Value
import PathReplay.Text.Hex

/-!
# Writing JSON

`Json.render` writes a document without blanks. A quote, a backslash and the control characters of a string
are escaped, by a letter where there is one and else by four digits; everything else stands as it is. A string
without a text is written as half of a surrogate pair, as it was read.

Printing and reading text is the part of a JSON library: `Json.render` and `Json.parse?` stand in for one, and
what is proved of exports takes any two that are faithful to each other.
-/

namespace PathReplay.Json

/-- The characters that are escaped by a letter, each with its letter. -/
def letterEscapes : List (Char × Char) :=
  [('"', '"'), ('\\', '\\'), ('\x08', 'b'), ('\t', 't'), ('\n', 'n'), ('\x0c', 'f'), ('\r', 'r')]

def escaped (c : Char) : List Char :=
  match letterEscapes.lookup c with
  | some letter => ['\\', letter]
  | none => if c.toNat < 0x20 then '\\' :: 'u' :: Hex.padded 4 (Hex.digits c.toNat) else [c]

def stringLiteral : Option String → List Char
  | some s => '"' :: s.toList.flatMap escaped ++ ['"']
  | none => ['"', '\\', 'u', 'd', '8', '0', '0', '"']

mutual

/-- The text of a value, in front of `rest`. -/
def renderOnto (rest : List Char) : Json → List Char
  | null => 'n' :: 'u' :: 'l' :: 'l' :: rest
  | bool true => 't' :: 'r' :: 'u' :: 'e' :: rest
  | bool false => 'f' :: 'a' :: 'l' :: 's' :: 'e' :: rest
  | integer i => (toString i).toList ++ rest
  | real n => n.toList ++ rest
  | string t => stringLiteral t ++ rest
  | array items => '[' :: renderItems (']' :: rest) items
  | object members => '\x7b' :: renderMembers ('\x7d' :: rest) members

def renderItems (rest : List Char) : List Json → List Char
  | [] => rest
  | [x] => renderOnto rest x
  | x :: y :: more => renderOnto (',' :: renderItems rest (y :: more)) x

def renderMembers (rest : List Char) : List (MemberName × Json) → List Char
  | [] => rest
  | [(name, x)] => stringLiteral name.text ++ ':' :: renderOnto rest x
  | (name, x) :: m :: more =>
    stringLiteral name.text ++ ':' :: renderOnto (',' :: renderMembers rest (m :: more)) x

end

def render (j : Json) : String := String.ofList (renderOnto [] j)

end PathReplay.Json
