/-!
# Blank characters and trimming

`isBlank` is the Unicode property `White_Space`. `trimmed` drops blanks from both ends of a text and
`trimmedRight` from its end.
-/

namespace PathReplay.Text

/-- The Unicode property `White_Space`. -/
def isBlank (c : Char) : Bool :=
  let n := c.toNat
  (9 ≤ n && n ≤ 13) || n == 0x20 || n == 0x85 || n == 0xA0 || n == 0x1680 ||
    (0x2000 ≤ n && n ≤ 0x200A) || n == 0x2028 || n == 0x2029 || n == 0x202F || n == 0x205F ||
    n == 0x3000

def trimmedRight (cs : List Char) : List Char := (cs.reverse.dropWhile isBlank).reverse

/-- The text without the blanks at its start and its end. -/
def trimmed (cs : List Char) : List Char := trimmedRight (cs.dropWhile isBlank)

theorem trimmedRight_eq_self {cs : List Char} (h : ∀ c, cs.getLast? = some c → isBlank c = false) :
    trimmedRight cs = cs := by
  unfold trimmedRight
  rcases List.eq_nil_or_concat cs with rfl | ⟨l, c, rfl⟩
  · rfl
  · simp [h c (by simp)]

/-- Letters `A` to `Z` in lower case, every other character as it is. -/
def lowercase (s : String) : String := s.map Char.toLower

end PathReplay.Text
