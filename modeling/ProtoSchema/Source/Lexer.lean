import ProtoSchema.Source.Token
import ProtoSchema.Text.Characters
import ProtoSchema.Text.Utf8

/-!
Reading schema text into tokens. Blanks (Unicode White_Space) and comments
separate tokens; a token is, by the first rule that matches, an identifier,
a float literal, a hex, octal or decimal integer, a quoted string, or one of
the symbols `{}[]()<>;,.=-+:/`.

Comments are attached as they are met: the first comment after a token that
starts on that token's last line trails it; of the comments before the next
token, the last one leads it if it ends on the line just above (or on the
same line), and the others are detached. Consecutive line comments on
consecutive lines merge into one, except that a comment sharing a line with
the token before it stands alone.

Main definition: `tokenize`.
-/

namespace ProtoSchema

namespace Lexer

/-- A comment waiting to be attached, with the lines it starts and ends on. -/
structure RawComment where
  text : String
  startLine : Nat
  endLine : Nat
  isLine : Bool
  deriving Repr, Inhabited

/-- The reader's place in the text, with the tokens read and comments not yet attached. -/
structure State where
  rest : List Char
  line : Nat := 0
  col : Nat := 0
  tokens : Array Token := #[]
  pending : List RawComment := []
  deriving Inhabited

def State.skip (st : State) (consumed : List Char) : State :=
  let (line, col) := advancePos (st.line, st.col) consumed
  { st with rest := st.rest.drop consumed.length, line, col }

def State.fail (st : State) (message : String) : ParseError :=
  ParseError.atColumn st.line st.col message

def splitAtClose : List Char → Option (List Char × List Char)
  | [] => none
  | '*' :: '/' :: rest => some ([], rest)
  | c :: rest => (splitAtClose rest).map fun (body, after) => (c :: body, after)

def addLineComment (pending : List RawComment) (text : String) (line : Nat)
    (prevEnd : Option Nat) : List RawComment :=
  match pending.getLast? with
  | some last =>
    if last.isLine ∧ last.endLine + 1 = line ∧ some last.startLine ≠ prevEnd then
      pending.dropLast ++ [{ last with text := last.text ++ text, endLine := line }]
    else pending ++ [⟨text, line, line, true⟩]
  | none => [⟨text, line, line, true⟩]

def skipTrivia (prevEnd : Option Nat) : Nat → State → Except ParseError State
  | 0, st => .error (st.fail ParseError.fuelMessage)
  | fuel + 1, st =>
    match st.rest with
    | c :: _ =>
      if isBlank c then skipTrivia prevEnd fuel (st.skip (st.rest.takeWhile isBlank))
      else match st.rest with
        | '/' :: '/' :: after =>
          let body := after.takeWhile (· ≠ '\n')
          let pending := addLineComment st.pending (String.ofList (body ++ ['\n'])) st.line prevEnd
          skipTrivia prevEnd fuel { st.skip ('/' :: '/' :: body) with pending }
        | '/' :: '*' :: after =>
          match splitAtClose after with
          | none => .error (st.fail "End-of-file inside block comment.")
          | some (body, _) =>
            let st' := st.skip ('/' :: '*' :: body ++ ['*', '/'])
            let comment : RawComment := ⟨String.ofList body, st.line, st'.line, false⟩
            skipTrivia prevEnd fuel { st' with pending := st.pending ++ [comment] }
        | _ => .ok st
    | [] => .ok st

def isIdentStart (c : Char) : Bool := c.isAlpha || c == '_'

def isIdentCont (c : Char) : Bool := c.isAlphanum || c == '_'

def isHexDigit (c : Char) : Bool :=
  c.isDigit || ('a' ≤ c && c ≤ 'f') || ('A' ≤ c && c ≤ 'F')

def hexValue (c : Char) : Nat :=
  if c.isDigit then c.toNat - 48
  else if 'a' ≤ c ∧ c ≤ 'f' then c.toNat - 87
  else c.toNat - 55

def digitsValue (base : Nat) (ds : List Char) : Nat :=
  ds.foldl (fun acc d => acc * base + hexValue d) 0

def exponentPrefix : List Char → Option (List Char)
  | e :: rest =>
    if e = 'e' ∨ e = 'E' then
      let (sign, afterSign) := match rest with
        | s :: r => if s = '+' ∨ s = '-' then ([s], r) else ([], rest)
        | [] => ([], [])
      let ds := afterSign.takeWhile Char.isDigit
      if ds.isEmpty then none else some (e :: sign ++ ds)
    else none
  | [] => none

def optExponent (cs : List Char) : List Char := (exponentPrefix cs).getD []

def floatPrefix (cs : List Char) : Option (List Char) :=
  let ds := cs.takeWhile Char.isDigit
  let afterDs := cs.drop ds.length
  match afterDs with
  | '.' :: frac =>
    if ds.isEmpty then
      let fs := frac.takeWhile Char.isDigit
      if fs.isEmpty then none
      else some ('.' :: fs ++ optExponent (frac.drop fs.length))
    else
      let fs := frac.takeWhile Char.isDigit
      some (ds ++ '.' :: fs ++ optExponent (frac.drop fs.length))
  | _ =>
    if ds.isEmpty then none
    else (exponentPrefix afterDs).map (ds ++ ·)

def exponentValue (ex : List Char) : Int :=
  match ex.drop 1 with
  | '-' :: ds => -(digitsValue 10 ds : Int)
  | '+' :: ds => digitsValue 10 ds
  | ds => digitsValue 10 ds

def floatValue (text : List Char) : Binary64 :=
  let intPart := text.takeWhile Char.isDigit
  let afterInt := text.drop intPart.length
  let (frac, ex) := match afterInt with
    | '.' :: r => (r.takeWhile Char.isDigit, r.dropWhile Char.isDigit)
    | r => ([], r)
  let e := (if ex.isEmpty then 0 else exponentValue ex) - frac.length
  Binary64.ofDecimal false (digitsValue 10 (intPart ++ frac)) e

def touchesIdent : List Char → Bool
  | c :: _ => isIdentStart c
  | [] => false

def takeDigits (ok : Char → Bool) (n : Nat) (cs : List Char) : List Char :=
  (cs.takeWhile ok).take n

def byteWidth (c : Char) : Nat :=
  if c.toNat < 0x80 then 1 else if c.toNat < 0x800 then 2 else if c.toNat < 0x10000 then 3 else 4

def takeBytes : Nat → List Char → Option (List Char)
  | 0, _ => some []
  | _ + 1, [] => none
  | n + 1, c :: cs =>
    if byteWidth c > n + 1 then none
    else (takeBytes (n + 1 - byteWidth c) cs).map (c :: ·)
termination_by n => n
decreasing_by simp only [byteWidth]; split <;> (try split) <;> (try split) <;> omega

def unicodeDigitsValue (ds : List Char) : Option Nat :=
  let body := match ds with
    | '+' :: r => r
    | r => r
  if body.isEmpty || !body.all isHexDigit then none else some (digitsValue 16 body)

def isScalar (n : Nat) : Bool := n < 0xd800 || (0xe000 ≤ n && n ≤ 0x10ffff)

def stringBody (q : Char) : Nat → List Char → List UInt8 → Except String (List UInt8 × List Char)
  | 0, _, _ => .error ParseError.fuelMessage
  | _ + 1, [], _ => .error "Unexpected end of string."
  | fuel + 1, c :: rest, acc =>
    if c = '\n' then .error "String literals cannot cross line boundaries."
    else if c = q then .ok (acc.reverse, rest)
    else if c ≠ '\\' then stringBody q fuel rest ((Utf8.encodeChar c).reverse ++ acc)
    else match rest with
      | [] => .error "Unexpected end of string."
      | e :: more =>
        let simple (b : Nat) := stringBody q fuel more (b.toUInt8 :: acc)
        if e = 'a' then simple 7
        else if e = 'b' then simple 8
        else if e = 'f' then simple 12
        else if e = 'n' then simple 10
        else if e = 'r' then simple 13
        else if e = 't' then simple 9
        else if e = 'v' then simple 11
        else if e = '\\' ∨ e = '\x27' ∨ e = '"' ∨ e = '?' then simple e.toNat
        else if '0' ≤ e ∧ e ≤ '7' then
          let ds := takeDigits (fun d => '0' ≤ d && d ≤ '7') 2 more
          let v := digitsValue 8 (e :: ds)
          stringBody q fuel (more.drop ds.length) ((v % 256).toUInt8 :: acc)
        else if e = 'x' ∨ e = 'X' then
          let ds := takeDigits isHexDigit 2 more
          if ds.isEmpty then .error "Expected hex digits for escape sequence."
          else stringBody q fuel (more.drop ds.length) ((digitsValue 16 ds).toUInt8 :: acc)
        else if e = 'u' ∨ e = 'U' then
          let width := if e = 'u' then 4 else 8
          match takeBytes width more with
          | none => .error "Expected hex digits for escape sequence."
          | some ds =>
            match unicodeDigitsValue ds with
            | some v =>
              if isScalar v then
                stringBody q fuel (more.drop ds.length)
                  ((Utf8.encodeChar (Char.ofNat v)).reverse ++ acc)
              else .error "Invalid unicode escape sequence."
            | none => .error "Invalid unicode escape sequence."
        else .error "Invalid escape sequence in string literal."

def consumedBefore (cs rest : List Char) : List Char := cs.take (cs.length - rest.length)

def symbols : List Char := "\x7b\x7d[]()<>;,.=-+:/".toList

def lexToken (cs : List Char) : Except String (TokenKind × List Char) :=
  let needSpace := "Need space between number and identifier."
  match cs with
  | [] => .error "Unexpected end of file."
  | c :: rest =>
    if isIdentStart c then
      let name := c :: rest.takeWhile isIdentCont
      .ok (.ident (String.ofList name), name)
    else match floatPrefix cs with
    | some text =>
      if touchesIdent (cs.drop text.length) then .error needSpace
      else .ok (.float (floatValue text), text)
    | none =>
      let hex : Option (List Char) := match cs with
        | '0' :: x :: more =>
          if (x = 'x' ∨ x = 'X') ∧ !(more.takeWhile isHexDigit).isEmpty then
            some ('0' :: x :: more.takeWhile isHexDigit)
          else none
        | _ => none
      match hex with
      | some text =>
        if touchesIdent (cs.drop text.length) then .error needSpace
        else
          let v := digitsValue 16 (text.drop 2)
          if v ≥ Nat.pow 2 64 then .error "Integer literal is too large."
          else .ok (.int v, text)
      | none =>
        let ds := cs.takeWhile Char.isDigit
        if !ds.isEmpty then
          if touchesIdent (cs.drop ds.length) then .error needSpace
          else if ds.length > 1 ∧ ds.head? = some '0' then
            let oct := ds.drop 1
            let v := digitsValue 8 oct
            if oct.any (fun d => d = '8' || d = '9') || v ≥ Nat.pow 2 64 then
              .error ("Invalid octal literal \"" ++ String.ofList ds ++ "\".")
            else .ok (.int v, ds)
          else
            let v := digitsValue 10 ds
            if v ≥ Nat.pow 2 64 then .error "Integer literal is too large."
            else .ok (.int v, ds)
        else if c = '"' ∨ c = '\x27' then
          match stringBody c (rest.length + 1) rest [] with
          | .ok (bytes, after) => .ok (.str bytes, consumedBefore cs after)
          | .error msg => .error msg
        else if symbols.contains c then .ok (.symbol c, [c])
        else .error ("Unexpected character \x27" ++ String.ofList [c] ++ "\x27.")

def attach (tokens : Array Token) (pending : List RawComment) (next : Option Nat) :
    Array Token × Option String × List String :=
  match pending with
  | [] => (tokens, none, [])
  | first :: more =>
    let (tokens, comments) := match tokens.back? with
      | some prev =>
        if first.startLine = prev.span.endLine then
          (tokens.pop.push { prev with trailing := some first.text }, more)
        else (tokens, pending)
      | none => (tokens, pending)
    match next, comments.getLast? with
    | some line, some last =>
      if last.endLine + 1 ≥ line then
        (tokens, some last.text, comments.dropLast.map (·.text))
      else (tokens, none, comments.map (·.text))
    | _, _ => (tokens, none, [])

def run : Nat → State → Except ParseError (Array Token)
  | 0, st => .error (st.fail ParseError.fuelMessage)
  | fuel + 1, st => do
    let prevEnd := st.tokens.back?.map (·.span.endLine)
    let st ← skipTrivia prevEnd (st.rest.length + 1) st
    match st.rest with
    | [] => return (attach st.tokens st.pending none).1
    | _ =>
      match lexToken st.rest with
      | .error msg => throw (st.fail msg)
      | .ok (kind, consumed) =>
        let st' := st.skip consumed
        let (tokens, leading, detached) := attach st.tokens st.pending (some st.line)
        let tok : Token := {
          kind, text := String.ofList consumed, leading, detached,
          span := ⟨st.line, st.col, st'.line, st'.col⟩ }
        run fuel { st' with tokens := tokens.push tok, pending := [] }

end Lexer

/-- The tokens of a schema text, given by its characters, and the span from its first token to
its last. -/
def tokenize (cs : List Char) : Except ParseError (Array Token × Span) := do
  let tokens ← Lexer.run (cs.length + 1) { rest := cs }
  let span := match tokens[0]?, tokens.back? with
    | some first, some last => first.span.join last.span
    | _, _ => {}
  return (tokens, span)

end ProtoSchema
