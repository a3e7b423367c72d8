import PathReplay.Register.File

/-!
# Conditions

The conditions of conditional jumps, moves and sets. `Condition.ofSuffix?` knows each under all its
spellings, `Condition.holds` evaluates one on the flags.
-/

namespace PathReplay

inductive Condition where
  | overflow
  | notOverflow
  | below
  | aboveOrEqual
  | equal
  | notEqual
  | belowOrEqual
  | above
  | sign
  | notSign
  | parity
  | notParity
  | less
  | greaterOrEqual
  | lessOrEqual
  | greater
deriving DecidableEq, Repr

namespace Condition

def suffixes : List (String × Condition) :=
  [("o", .overflow), ("no", .notOverflow), ("b", .below), ("c", .below), ("nae", .below),
   ("ae", .aboveOrEqual), ("nb", .aboveOrEqual), ("nc", .aboveOrEqual), ("e", .equal), ("z", .equal),
   ("ne", .notEqual), ("nz", .notEqual), ("be", .belowOrEqual), ("na", .belowOrEqual), ("a", .above),
   ("nbe", .above), ("s", .sign), ("ns", .notSign), ("p", .parity), ("pe", .parity),
   ("np", .notParity), ("po", .notParity), ("l", .less), ("nge", .less), ("ge", .greaterOrEqual),
   ("nl", .greaterOrEqual), ("le", .lessOrEqual), ("ng", .lessOrEqual), ("g", .greater),
   ("nle", .greater)]

def ofSuffix? (s : String) : Option Condition := suffixes.lookup s

/-- Whether a condition holds for the flags as `f` gives them. -/
def eval (f : Flag → Bool) : Condition → Bool
  | overflow => f .overflow
  | notOverflow => !f .overflow
  | below => f .carry
  | aboveOrEqual => !f .carry
  | equal => f .zero
  | notEqual => !f .zero
  | belowOrEqual => f .carry || f .zero
  | above => !f .carry && !f .zero
  | sign => f .sign
  | notSign => !f .sign
  | parity => f .parity
  | notParity => !f .parity
  | less => f .sign != f .overflow
  | greaterOrEqual => f .sign == f .overflow
  | lessOrEqual => f .zero || f .sign != f .overflow
  | greater => !f .zero && f .sign == f .overflow

def holds (c : Condition) (r : Registers) : Bool := c.eval r.flag

end Condition
end PathReplay
