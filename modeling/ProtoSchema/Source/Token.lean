import ProtoSchema.Source.Span
import ProtoSchema.Number.Binary64

/-!
Tokens of schema text and the error that stops reading it. Comments are not
tokens: they ride on the token next to them as leading, trailing or detached
comments.

Main definitions: `TokenKind`, `Token`, `ParseError`.
-/

namespace ProtoSchema

/-- What a token is. -/
inductive TokenKind where
  | ident (name : String)
  | int (value : Nat)
  | float (value : Binary64)
  | str (bytes : List UInt8)
  | symbol (c : Char)
  deriving DecidableEq, Repr, Inhabited

/-- A token, its span, its text as written, and the comments that ride on it. -/
structure Token where
  kind : TokenKind
  span : Span
  text : String
  leading : Option String := none
  trailing : Option String := none
  detached : List String := []
  deriving Repr, Inhabited

/-- The first problem found in schema text, at a span of it. -/
structure ParseError where
  span : Span
  message : String
  deriving DecidableEq, Repr, Inhabited

namespace ParseError

def atColumn (line col : Nat) (message : String) : ParseError :=
  ⟨⟨line, col, line, col + 1⟩, message⟩

def fuelMessage : String := "Out of fuel."

def rangeMessage : String := "Out of token range."

def display (e : ParseError) : String :=
  toString (e.span.startLine + 1) ++ ":" ++ toString (e.span.startCol + 1) ++ ": " ++ e.message

end ParseError

end ProtoSchema
