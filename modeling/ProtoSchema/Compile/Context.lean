import ProtoSchema.SymbolTable.Basic
import ProtoSchema.Source.Ast
import ProtoSchema.Descriptor.Basic
import ProtoSchema.Descriptor.FieldType
import ProtoSchema.Annotation

/-!
What compiling one file into a descriptor reads and writes. It reads the
parsed files, the symbol table, which files the compiled file can see, and
whether source info is wanted; it writes annotations and source locations.
Names are resolved here, with the error texts of a failed resolution.

Main definitions: `CompileContext`, `CompileM`, `CompileM.resolve`,
`CompileM.resolveMessage`, `CompileM.fieldType` and `sortLocations`.
-/

namespace ProtoSchema

/-- What compiling a file reads. -/
structure CompileContext where
  files : Array ParsedFile
  table : SymbolTable
  /-- The compiled file. -/
  file : ParsedFile
  /-- The files whose names the compiled file may use. -/
  visible : List Nat
  proto3 : Bool
  sourceInfo : Bool
  deriving Inhabited

/-- What compiling a file writes. -/
structure CompileState where
  annotations : Array Annotation := #[]
  locations : Array SourceLocation := #[]
  deriving Inhabited

/-- Compiling a file. -/
abbrev CompileM := ReaderT CompileContext (StateM CompileState)

/-- A resolved field type: its type, its full name with a leading dot when it
names a message or enum, and the symbol it names. -/
structure ResolvedType where
  type : FieldType
  typeName : Option String
  symbol : Option Symbol
  deriving Inhabited

/-- Source locations in source order; one that starts where another does and has
a shorter path, its parent, comes first. The sort is stable. -/
def sortLocations (ls : List SourceLocation) : List SourceLocation :=
  let key (l : SourceLocation) : Int × Int × Nat := (l.span.headD 0, (l.span.drop 1).headD 0, l.path.length)
  ls.mergeSort fun a b =>
    let (a0, a1, a2) := key a
    let (b0, b1, b2) := key b
    a0 < b0 || (a0 = b0 && (a1 < b1 || (a1 = b1 && a2 ≤ b2)))

namespace CompileM

def report (span : Span) (message : String) : CompileM Unit := do
  let path := (← read).file.path
  modify fun s => { s with annotations := s.annotations.push ( Annotation.atSpan path .compile message span) }

def locate (path : List Int) (span : Span) (comments : Option Comments := none) : CompileM Unit := do
  if (← read).sourceInfo then
    let loc : SourceLocation := match comments with
      | some c => { path, span := span.toLocation, leadingComments := c.leading,
                    trailingComments := c.trailing, leadingDetachedComments := c.detached }
      | none => { path, span := span.toLocation }
    modify fun s => { s with locations := s.locations.push loc }

def locateDecl (path : List Int) (d : Declaration) : CompileM Unit := locate path d.span (some d.comments)

def notImportedMessage (fullName definedIn fileName : String) : String :=
  "\"" ++ fullName ++ "\" seems to be defined in \"" ++ definedIn ++ "\", which is not imported by \"" ++
    fileName ++ "\".  To use it here, please add the necessary import."

/-- Resolve `name` from inside the element `relativeTo`, reporting a failure at its span. -/
def resolve (name : Spanned String) (relativeTo : String) (typesOnly : Bool) :
    CompileM (Option (String × Symbol)) := do
  let ctx ← read
  match ctx.table.lookup name.value relativeTo typesOnly (some ctx.visible) with
  | .found full s => return some (full, s)
  | .notImported full file =>
    let definedIn := (ctx.files[file]?.map (·.name)).getD ""
    report name.span (notImportedMessage full definedIn ctx.file.name)
    return none
  | .notFound (some resolved) =>
    report name.span ("\"" ++ name.value ++ "\" is resolved to \"" ++ resolved ++
      "\", which is not defined. The innermost scope is searched first in name resolution. " ++
      "Consider using a leading \x27.\x27(i.e., \"." ++ name.value ++
      "\") to start from the outermost scope.")
    return none
  | .notFound none =>
    report name.span ("\"" ++ name.value ++ "\" is not defined.")
    return none

/-- Resolve a name that must be a message; the full name has no leading dot. -/
def resolveMessage (name : Spanned String) (relativeTo : String) :
    CompileM (Option (String × Symbol)) := do
  match ← resolve name relativeTo true with
  | none => return none
  | some (full, s) =>
    if s.kind = .message then return some (full, s)
    report name.span ("\"" ++ name.value ++ "\" is not a message type.")
    return none

/-- Resolve the type of a field: a scalar keyword, a message or an enum. -/
def fieldType (ty : Spanned String) (relativeTo : String) : CompileM (Option ResolvedType) := do
  if isScalarTypeName ty.value then
    return (FieldType.ofScalar? ty.value).map fun t => ⟨t, none, none⟩
  match ← resolve ty relativeTo true with
  | none => return none
  | some (full, s) =>
    match s.kind with
    | .message => return some ⟨.message, some ("." ++ full), some s⟩
    | .enum => return some ⟨.enum, some ("." ++ full), some s⟩
    | _ =>
      report ty.span ("\"" ++ ty.value ++ "\" is not a type.")
      return none

end CompileM

end ProtoSchema
