import ProtoSchema.Source.Parser.Message

/-!
Schema files: an optional version statement first, then package, import,
option, message, enum, service and extend statements in any order, with
stray semicolons allowed. Reading stops at the first error.

Main definitions: `parseSchema`, from text to `SchemaFile`, and `parseSchemaChars`, from the
characters of a text.
-/

namespace ProtoSchema

namespace Parser

def methodType : Parser MethodType := do
  let _ ← expectSymbol '('
  let stream ← if (← isKeyword "stream") && ((← isIdentAt 1) || (← isSymbolAt 1 '.')) then
      pure (some (← next).span)
    else pure none
  let name ← typeName
  let _ ← expectSymbol ')'
  return ⟨stream, name⟩

def methodOptions : Nat → List OptionDecl → Parser (List OptionDecl)
  | 0, _ => outOfFuel
  | fuel + 1, acc => do
    if ← eatSymbol '\x7d' then return acc.reverse
    if (← peek).isNone then
      failHere "Reached end of input in method options (missing \x27\x7d\x27)."
    if ← eatSymbol ';' then return ← methodOptions fuel acc
    if ← isKeyword "option" then return ← methodOptions fuel ((← optionStatement) :: acc)
    failHere "Expected \"option\" or \"\x7d\"."

def method : Parser Method := do
  let start ← pos
  let _ ← expectKeyword "rpc"
  let name ← ident "method name"
  let input ← methodType
  let _ ← expectKeyword "returns"
  let output ← methodType
  let options ← if ← eatSymbol '\x7b' then do
      let os ← methodOptions ((← remaining) + 1) []
      let _ ← eatSymbol ';'
      pure os
    else do
      let _ ← expectSymbol ';'
      pure []
  return ⟨name, input, output, options, ← decl start⟩

def serviceBody : Nat → List ServiceElement → Parser (List ServiceElement)
  | 0, _ => outOfFuel
  | fuel + 1, acc => do
    if ← eatSymbol '\x7d' then return acc.reverse
    if (← peek).isNone then
      failHere "Reached end of input in service definition (missing \x27\x7d\x27)."
    if ← eatSymbol ';' then return ← serviceBody fuel acc
    if ← isKeyword "option" then return ← serviceBody fuel (.option (← optionStatement) :: acc)
    if ← isKeyword "rpc" then return ← serviceBody fuel (.method (← method) :: acc)
    failHere "Expected \"rpc\", \"option\" or \"\x7d\"."

def service : Parser Service := do
  let start ← pos
  let _ ← expectKeyword "service"
  let name ← ident "service name"
  let _ ← expectSymbol '\x7b'
  let body ← serviceBody ((← remaining) + 1) []
  return ⟨name, body, ← decl start⟩

def importStatement : Parser Import := do
  let start ← pos
  let _ ← expectKeyword "import"
  let kind ← if ← isKeyword "public" then do
      bump
      pure ImportKind.exported
    else if ← isKeyword "weak" then do
      bump
      pure ImportKind.weak
    else pure ImportKind.normal
  let path ← utf8String "a string naming the file to import"
  let _ ← expectSymbol ';'
  return ⟨path, kind, ← decl start⟩

def dialectStatement : Parser (Option (Dialect × Declaration)) := do
  if !(← isKeyword "syntax") then return none
  let start ← pos
  bump
  let _ ← expectSymbol '='
  let value ← utf8String "syntax identifier"
  let d ← if value.value = "proto2" then pure Dialect.proto2
    else if value.value = "proto3" then pure Dialect.proto3
    else failAt value.span ("Unrecognized syntax identifier \"" ++ value.value ++
      "\".  This parser only recognizes \"proto2\" and \"proto3\".")
  let _ ← expectSymbol ';'
  return some (d, ← decl start)

def topLevel : Nat → SchemaFile → Parser SchemaFile
  | 0, _ => outOfFuel
  | fuel + 1, file => do
    let some tok ← peek | return file
    match tok.kind with
    | .symbol ';' =>
      bump
      topLevel fuel file
    | .ident "package" =>
      if file.package.isSome then failHere "Multiple package definitions."
      let start ← pos
      bump
      let name ← fullIdent "package name"
      let _ ← expectSymbol ';'
      topLevel fuel { file with package := some ⟨name, ← decl start⟩ }
    | .ident "import" =>
      let i ← importStatement
      topLevel fuel { file with imports := file.imports ++ [i] }
    | .ident "option" =>
      let o ← optionStatement
      topLevel fuel { file with options := file.options ++ [o] }
    | .ident "message" =>
      let m ← message (← fuelForRest)
      topLevel fuel { file with messages := file.messages ++ [m] }
    | .ident "enum" =>
      let e ← enum
      topLevel fuel { file with enums := file.enums ++ [e] }
    | .ident "service" =>
      let s ← service
      topLevel fuel { file with services := file.services ++ [s] }
    | .ident "extend" =>
      let e ← extend (← fuelForRest)
      topLevel fuel { file with extendBlocks := file.extendBlocks ++ [e] }
    | .ident "syntax" => failHere "syntax statement must be the first statement in the file."
    | _ => failHere "Expected top-level statement (e.g. \"message\")."

def schemaFile (span : Span) : Parser SchemaFile := do
  let empty : SchemaFile := {
    dialect := .proto2, dialectDecl := none, package := none, imports := [], options := [],
    messages := [], enums := [], services := [], extendBlocks := [], span }
  match ← dialectStatement with
  | some (d, decl) =>
    withReader (fun input => { input with dialect := d }) do
      topLevel ((← remaining) + 1) { empty with dialect := d, dialectDecl := some decl }
  | none => topLevel ((← remaining) + 1) empty

end Parser

/-- Read a schema file given by its characters, or the first error in it. -/
def parseSchemaChars (cs : List Char) : Except ParseError SchemaFile := do
  let (tokens, span) ← tokenize cs
  let (file, _) ← ((Parser.schemaFile span).run { tokens }).run 0
  return file

/-- Read a schema file, or the first error in it. -/
def parseSchema (text : String) : Except ParseError SchemaFile := parseSchemaChars text.toList

end ProtoSchema
