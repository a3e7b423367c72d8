import PathReplay.Text.Blank

/-!
# Decorated names of library functions

An import is often listed under a decorated name: `__imp_` or `j_` in front of it, or underscores.
`undecorated` strips decorations for as long as there is one.
-/

namespace PathReplay.LibC

/-- The name without one decoration in front. -/
def dropDecoration : List Char → List Char
  | '_' :: '_' :: 'i' :: 'm' :: 'p' :: '_' :: rest => rest
  | 'j' :: '_' :: rest => rest
  | cs => cs

/-- The name without one decoration and without the underscores after it. -/
def stripOnce (cs : List Char) : List Char := (dropDecoration cs).dropWhile (· == '_')

def strip (cs : List Char) : List Char :=
  if (stripOnce cs).length < cs.length then strip (stripOnce cs) else cs
termination_by cs.length

def undecorated (name : String) : String := String.ofList (strip name.toList)

/-- The bare name in lower case, under which library functions are looked up. -/
def bareName (name : String) : String := Text.lowercase (undecorated name)

end PathReplay.LibC
