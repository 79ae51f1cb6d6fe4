/-!
Positions in schema text. Lines and columns count from zero, the end is
exclusive, and a tab advances the column to the next multiple of eight.
A declaration carries its span and the comments attached to it.

Main definitions: `Span`, `Span.join`, `Spanned`, `Comments`, `Declaration`.
-/

namespace ProtoSchema

/-- A range of schema text: zero-based lines and columns, end exclusive. -/
structure Span where
  startLine : Nat := 0
  startCol : Nat := 0
  endLine : Nat := 0
  endCol : Nat := 0
  deriving DecidableEq, Repr, Inhabited

namespace Span

/-- The span from the start of `a` to the end of `b`. -/
def join (a b : Span) : Span := ⟨a.startLine, a.startCol, b.endLine, b.endCol⟩

def toLocation (s : Span) : List Int :=
  if s.startLine = s.endLine then [s.startLine, s.startCol, s.endCol]
  else [s.startLine, s.startCol, s.endLine, s.endCol]

end Span

/-- A value with the span of the text it was read from. -/
structure Spanned (α : Type) where
  value : α
  span : Span
  deriving DecidableEq, Repr, Inhabited

/-- Comments attached to a declaration: the one right before it, the one right
after it on its last line, and those before it separated by blank lines. -/
structure Comments where
  leading : Option String := none
  trailing : Option String := none
  detached : List String := []
  deriving DecidableEq, Repr, Inhabited

/-- The span and comments of a statement. -/
structure Declaration where
  span : Span := {}
  comments : Comments := {}
  deriving DecidableEq, Repr, Inhabited

def advanceCol (col : Nat) (c : Char) : Nat :=
  if c = '\t' then col + 8 - col % 8 else col + 1

def advancePos : Nat × Nat → List Char → Nat × Nat
  | pos, [] => pos
  | (line, col), c :: cs =>
    if c = '\n' then advancePos (line + 1, 0) cs else advancePos (line, advanceCol col c) cs

end ProtoSchema
