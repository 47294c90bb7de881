/-!
# Source positions

Where a piece of source text starts and how long it is. Positions are for messages and line tables
only; nothing that is computed depends on them.
-/

namespace ScriptEngine

/-- The start and length of a piece of source text. Line zero means that the position is unknown. -/
structure Span where
  /-- Line number, counted from one. -/
  line : UInt32
  /-- Column number, counted from one. -/
  col : UInt32
  /-- Length of the text. -/
  len : UInt32
  deriving DecidableEq, Repr

namespace Span

/-- The span of a piece of text that has no known position. -/
def none : Span := ⟨0, 0, 0⟩

instance : Inhabited Span := ⟨none⟩

/-- The empty span at a position. -/
def point (line col : UInt32) : Span := ⟨line, col, 0⟩

/-- Whether the span carries no position. -/
def isUnknown (s : Span) : Bool := s.line == 0

/-- The smallest span over two spans of one line. An unknown span adds nothing; for spans on
different lines the first position is kept and the lengths are added. -/
def cover (a b : Span) : Span :=
  if a.isUnknown then b
  else if b.isUnknown then a
  else if a.line != b.line then ⟨a.line, a.col, a.len + b.len⟩
  else
    let start := min a.col b.col
    let stop := max (a.col + a.len) (b.col + b.len)
    ⟨a.line, start, stop - start⟩

/-- Line and column, whether known or not. -/
def position (s : Span) : String :=
  s!"{s.line}:{s.col}"

/-- Line and column as messages show them. -/
def toText (s : Span) : String :=
  if s.isUnknown then "<unknown>" else s.position

end Span

end ScriptEngine
