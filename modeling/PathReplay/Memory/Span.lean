import PathReplay.Word

/-!
# Spans of addresses

A span `(lo, hi)` holds the addresses from `lo` up to, but not including, `hi`. `Span.merged` sorts spans
and joins those that touch or overlap.
-/

namespace PathReplay

/-- The addresses from the first up to, but not including, the second. -/
abbrev Span := Address × Address

namespace Span

def Holds (s : Span) (a : Address) : Prop := s.1 ≤ a ∧ a < s.2

instance (s : Span) (a : Address) : Decidable (s.Holds a) := inferInstanceAs (Decidable (_ ∧ _))

/-- The order by start, then by end. -/
def le (s t : Span) : Bool := s.1 < t.1 || (s.1 == t.1 && s.2 ≤ t.2)

/-- Joins a span with the sorted spans that come after it. -/
def join (s : Span) : List Span → List Span
  | [] => [s]
  | t :: rest => if t.1 ≤ s.2 then join (s.1, max s.2 t.2) rest else s :: join t rest

/-- The spans in order, joined where they touch. -/
def merged (spans : List Span) : List Span :=
  match spans.mergeSort le with
  | [] => []
  | s :: rest => join s rest

end Span
end PathReplay
