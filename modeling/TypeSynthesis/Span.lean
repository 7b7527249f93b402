/-!
# Positions in the text being compiled

* `Span`: a line and a column, both counted from one; line `0` means unknown;
* `Span.text`: `line:column`, or `?` for an unknown position.
-/

namespace TypeSynthesis

/-- A position in the text being compiled. -/
structure Span where
  line : Nat := 0
  column : Nat := 0
  deriving DecidableEq, Repr, Inhabited

namespace Span

/-- The position of a form that has none. -/
def unknown : Span := {}

/-- Whether the position is unknown. -/
def isUnknown (s : Span) : Bool := s.line == 0

/-- The position as messages show it. -/
def text (s : Span) : String := if s.isUnknown then "?" else s!"{s.line}:{s.column}"

@[simp] theorem text_unknown : unknown.text = "?" := rfl

end Span

end TypeSynthesis
