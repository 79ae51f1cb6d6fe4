import ProtoSchema.Source.Lexer
import ProtoSchema.Source.Ast

/-!
The reading machine of the schema parser: it reads the token array and the
file's language version, moves a position along the tokens, and stops at the
first error. Each helper either consumes the tokens it names or fails with the
error the grammar gives for that place.

Main definitions: `Parser`, `Parser.next`, `Parser.expectSymbol`,
`Parser.ident`, `Parser.typeName`, `Parser.unsignedInt`, `Parser.stringLit`,
`Parser.decl`.
-/

namespace ProtoSchema

/-- What the parser reads: the tokens, and the version in force, which the version
statement sets for the rest of the file. -/
structure ParserInput where
  tokens : Array Token
  dialect : Dialect := .proto2

/-- A parsing step: reads the tokens, moves along them (the state is the index of the next
token), or stops at the first error. -/
abbrev Parser := ReaderT ParserInput (StateT Nat (Except ParseError))

namespace Parser

def peekAt (n : Nat) : Parser (Option Token) := do
  let input ← read
  let pos ← get
  return input.tokens[pos + n]?

def peek : Parser (Option Token) := peekAt 0

def remaining : Parser Nat := do
  let input ← read
  let pos ← get
  return input.tokens.size - pos

def isSymbolAt (n : Nat) (c : Char) : Parser Bool := do
  match ← peekAt n with
  | some ⟨.symbol s, _, _, _, _, _⟩ => return s == c
  | _ => return false

def isIdentAt (n : Nat) : Parser Bool := do
  match ← peekAt n with
  | some ⟨.ident _, _, _, _, _, _⟩ => return true
  | _ => return false

def isKeywordAt (n : Nat) (kw : String) : Parser Bool := do
  match ← peekAt n with
  | some ⟨.ident s, _, _, _, _, _⟩ => return s == kw
  | _ => return false

def isSymbol (c : Char) : Parser Bool := isSymbolAt 0 c

def isKeyword (kw : String) : Parser Bool := isKeywordAt 0 kw

def errorHere (message : String) : Parser ParseError := do
  let tokens := (← read).tokens
  let pos ← get
  let span := match tokens[pos]? with
    | some tok => tok.span
    | none => match tokens.back? with
      | some t => ⟨t.span.endLine, t.span.endCol, t.span.endLine, t.span.endCol⟩
      | none => {}
  return ⟨span, message⟩

def failHere {α : Type} (message : String) : Parser α := do
  throw (← errorHere message)

def outOfFuel {α : Type} : Parser α := failHere ParseError.fuelMessage

def failAt {α : Type} (span : Span) (message : String) : Parser α :=
  throw ⟨span, message⟩

def bump : Parser Unit := modify (· + 1)

/-- Take the next token. -/
def next : Parser Token := do
  match ← peek with
  | some tok =>
    bump
    return tok
  | none => failHere "Unexpected end of file."

/-- Take the symbol `c`. -/
def expectSymbol (c : Char) : Parser Token := do
  if ← isSymbol c then next else failHere ("Expected \"" ++ String.ofList [c] ++ "\".")

def expectKeyword (kw : String) : Parser Token := do
  if ← isKeyword kw then next else failHere ("Expected \"" ++ kw ++ "\".")

def eatSymbol (c : Char) : Parser Bool := do
  if ← isSymbol c then
    bump
    return true
  else return false

/-- Take an identifier; `what` names it in the error. -/
def ident (what : String) : Parser (Spanned String) := do
  match ← peek with
  | some ⟨.ident name, span, _, _, _, _⟩ =>
    bump
    return ⟨name, span⟩
  | _ => failHere ("Expected " ++ what ++ ".")

def identTail (what : String) : Nat → Spanned String → Parser (Spanned String)
  | 0, _ => outOfFuel
  | fuel + 1, acc => do
    if (← isSymbol '.') && (← isIdentAt 1) then
      bump
      let part ← ident what
      identTail what fuel ⟨acc.value ++ "." ++ part.value, acc.span.join part.span⟩
    else return acc

def fullIdent (what : String) : Parser (Spanned String) := do
  let first ← ident what
  identTail what ((← remaining) + 1) first

/-- A type name: a dotted name, fully qualified when it starts with a dot. -/
def typeName : Parser (Spanned String) := do
  if ← isSymbol '.' then
    let dot ← next
    let rest ← fullIdent "type name"
    return ⟨"." ++ rest.value, dot.span.join rest.span⟩
  else fullIdent "type name"

def int64Max : Nat := Nat.pow 2 63 - 1

/-- An integer literal that fits a signed 64-bit integer. -/
def unsignedInt (what : String) : Parser (Spanned Int) := do
  match ← peek with
  | some ⟨.int v, span, _, _, _, _⟩ =>
    if v > int64Max then failAt span "Integer out of range."
    else
      bump
      return ⟨v, span⟩
  | _ => failHere ("Expected " ++ what ++ ".")

def signedInt (what : String) : Parser (Spanned Int) := do
  if ← isSymbol '-' then
    let minus ← next
    let m ← unsignedInt what
    return ⟨-m.value, minus.span.join m.span⟩
  else unsignedInt what

def stringTail : Nat → Spanned (List UInt8) → Parser (Spanned (List UInt8))
  | 0, _ => outOfFuel
  | fuel + 1, acc => do
    match ← peek with
    | some ⟨.str more, span, _, _, _, _⟩ =>
      bump
      stringTail fuel ⟨acc.value ++ more, acc.span.join span⟩
    | _ => return acc

/-- A string literal; adjacent literals concatenate. -/
def stringLit (what : String) : Parser (Spanned (List UInt8)) := do
  match ← peek with
  | some ⟨.str first, span, _, _, _, _⟩ =>
    bump
    stringTail ((← remaining) + 1) ⟨first, span⟩
  | _ => failHere ("Expected " ++ what ++ ".")

def utf8String (what : String) : Parser (Spanned String) := do
  let lit ← stringLit what
  match Utf8.decode? lit.value with
  | some s => return ⟨s, lit.span⟩
  | none => failAt lit.span "String literal is not valid UTF-8."

def declTokens (start : Nat) : Parser (Token × Token) := do
  let tokens := (← read).tokens
  let pos ← get
  match tokens[start]?, tokens[max (pos - 1) start]? with
  | some first, some last => return (first, last)
  | _, _ => failHere ParseError.rangeMessage

/-- The declaration of the tokens from `start` to the last one taken: their span,
the first token's leading and detached comments and the last token's trailing one. -/
def decl (start : Nat) : Parser Declaration := do
  let (first, last) ← declTokens start
  return ⟨first.span.join last.span, ⟨first.leading, last.trailing, first.detached⟩⟩

def bareDecl (start : Nat) : Parser Declaration := do
  let (first, last) ← declTokens start
  return ⟨first.span.join last.span, {}⟩

def pos : Parser Nat := get

def dialect : Parser Dialect := return (← read).dialect

end Parser

end ProtoSchema
