import ProtoSchema.Source.Parser.Basic

/-!
Options in schema text: `option name = value;` statements and bracketed
`[name = value, ...]` lists. A name is dotted parts, each a plain identifier
or a parenthesised type name; a value is a signed number, `-inf`, `-nan`, a
string, a dotted identifier, or a braced text-format message kept as its
tokens joined by spaces.

Main definitions: `Parser.optionValue`, `Parser.optionBody`,
`Parser.optionStatement`, `Parser.compactOptions`.
-/

namespace ProtoSchema

namespace Parser

def optionNameParts : Nat → List OptionNamePart → Parser (List OptionNamePart)
  | 0, _ => outOfFuel
  | fuel + 1, acc => do
    let part ← if ← isSymbol '(' then do
        let open_ ← next
        let name ← typeName
        let close ← expectSymbol ')'
        pure (OptionNamePart.mk name.value true (open_.span.join close.span))
      else do
        let name ← ident "option name"
        pure (OptionNamePart.mk name.value false name.span)
    if ← eatSymbol '.' then optionNameParts fuel (part :: acc)
    else return (part :: acc).reverse

def aggregateTokens : Nat → Nat → List String → Parser (List String × Token)
  | 0, _, _ => outOfFuel
  | fuel + 1, depth, acc => do
    let t ← next
    match t.kind with
    | .symbol c =>
      if c = '\x7b' ∨ c = '<' then aggregateTokens fuel (depth + 1) (t.text :: acc)
      else if c = '\x7d' ∨ c = '>' then
        if depth ≤ 1 then return (acc.reverse, t)
        else aggregateTokens fuel (depth - 1) (t.text :: acc)
      else aggregateTokens fuel depth (t.text :: acc)
    | _ => aggregateTokens fuel depth (t.text :: acc)

/-- An option value. -/
def optionValue : Parser (Spanned OptionValue) := do
  let some tok ← peek | failHere "Expected option value."
  match tok.kind with
  | .symbol '-' =>
    bump
    let n ← next
    let span := tok.span.join n.span
    match n.kind with
    | .int m => return ⟨.int true m, span⟩
    | .float v => return ⟨.float v.neg, span⟩
    | .ident "inf" => return ⟨.float Binary64.inf.neg, span⟩
    | .ident "nan" => return ⟨.float Binary64.nan, span⟩
    | _ => failAt n.span "Expected number."
  | .int m =>
    bump
    return ⟨.int false m, tok.span⟩
  | .float v =>
    bump
    return ⟨.float v, tok.span⟩
  | .str _ =>
    let lit ← stringLit "string"
    return ⟨.str lit.value, lit.span⟩
  | .ident _ =>
    let name ← fullIdent "option value"
    return ⟨.ident name.value, name.span⟩
  | .symbol '\x7b' =>
    let open_ ← next
    let (parts, close) ← aggregateTokens ((← remaining) + 1) 1 []
    return ⟨.aggregate (" ".intercalate parts), open_.span.join close.span⟩
  | _ => failHere "Expected option value."

/-- `name = value`. -/
def optionBody : Parser (List OptionNamePart × Spanned OptionValue) := do
  let parts ← optionNameParts ((← remaining) + 1) []
  let _ ← expectSymbol '='
  let value ← optionValue
  return (parts, value)

/-- `option name = value;`. -/
def optionStatement : Parser OptionDecl := do
  let start ← pos
  let _ ← expectKeyword "option"
  let (name, value) ← optionBody
  let _ ← expectSymbol ';'
  return ⟨name, value, ← decl start⟩

def compactEntries : Nat → List OptionDecl → Parser (List OptionDecl)
  | 0, _ => outOfFuel
  | fuel + 1, acc => do
    let start ← pos
    let (name, value) ← optionBody
    let o : OptionDecl := ⟨name, value, ← bareDecl start⟩
    if ← eatSymbol ',' then compactEntries fuel (o :: acc)
    else
      let _ ← expectSymbol ']'
      return (o :: acc).reverse

/-- A bracketed option list, or none if no `[` follows. -/
def compactOptions : Parser (List OptionDecl) := do
  if ← eatSymbol '[' then compactEntries ((← remaining) + 1) [] else return []

end Parser

end ProtoSchema
