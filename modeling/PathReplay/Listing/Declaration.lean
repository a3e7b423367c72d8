import PathReplay.Listing.Function
import PathReplay.Text.Blank

/-!
# Declarations in C

How an argument and a function are declared: a type, then a name, with a space between them unless the type
ends in an asterisk. `Declaration.parse?` reads an argument back. It splits one byte after the last blank or
asterisk, so a text whose last such character takes several bytes of UTF-8 has no reading.
-/

namespace PathReplay

/-- A blank or an asterisk: what may stand between a type and a name. -/
def isSeparator (c : Char) : Bool := Text.isBlank c || c == '*'

/-- A pointer type touches the name that follows it, another type does not. -/
def separatorAfter (typeName : String) : String :=
  if typeName.toList.getLast? = some '*' then "" else " "

/-- A text in front of its last separator, that separator, and what follows it. -/
def splitLast (cs : List Char) : Option (List Char × Char × List Char) :=
  match cs.reverse.dropWhile (fun c => !isSeparator c) with
  | [] => none
  | sep :: before => some (before.reverse, sep, (cs.reverse.takeWhile fun c => !isSeparator c).reverse)

/-- The three parts make up the text. -/
theorem append_of_splitLast {cs before after : List Char} {sep : Char}
    (h : splitLast cs = some (before, sep, after)) : before ++ sep :: after = cs := by
  unfold splitLast at h
  split at h
  · cases h
  · next s b heq =>
    cases h
    have := List.takeWhile_append_dropWhile (p := fun c => !isSeparator c) (l := cs.reverse)
    rw [heq] at this
    have := congrArg List.reverse this
    simpa using this

namespace Declaration

/-- The name of an argument that has none: its position. -/
def positional (position : Nat) : String := "a" ++ toString position

/-- The declaration in a text such as `char *buf`. A text without a separable name is a bare type. -/
def parse? (text : String) (position : Nat) : Option Declaration :=
  let cs := Text.trimmed text.toList
  let bare : Declaration := ⟨String.ofList cs, positional position⟩
  match splitLast cs with
  | none => some bare
  | some (before, sep, after) =>
    if sep.utf8Size = 1 then
      if after.isEmpty then some bare
      else some ⟨String.ofList (Text.trimmedRight (before ++ [sep])), String.ofList after⟩
    else none

/-- The type and the name with a space between. -/
def render (d : Declaration) : String := d.typeName ++ " " ++ d.name

/-- The argument as it stands in a function's declaration. -/
def inline (d : Declaration) : String := d.typeName ++ separatorAfter d.typeName ++ d.name

end Declaration
end PathReplay
