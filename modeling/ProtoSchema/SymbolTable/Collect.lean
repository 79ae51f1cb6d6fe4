import ProtoSchema.SymbolTable.Basic
import ProtoSchema.Source.Ast

/-!
Filling the symbol table from parsed files, in dependency order. A file
declares its package and each package around it, then its messages (with
their fields, map entry messages, groups, oneofs and everything nested),
enums with their values, services with their methods, and extensions. Enum
values are siblings of their enum. A name declared twice is a conflict,
reported on the second declaration; a package may be declared by many files.

Main definitions: `Collected.add` and `SymbolTable.build`.
-/

namespace ProtoSchema

def extensionRangeEnd : Int := 536870912

def NumberRange.bounds (r : NumberRange) : Int × Int :=
  let start := r.start.value
  match r.stop with
  | none => (start, wrapInt64 (start + 1))
  | some ⟨none, _⟩ => (start, extensionRangeEnd)
  | some ⟨some stop, _⟩ => (start, wrapInt64 (stop + 1))

def extensionRangesOf (body : List MessageElement) : List (Int × Int) :=
  body.flatMap fun
    | .extensions r => r.ranges.map NumberRange.bounds
    | _ => []

/-- A symbol table being filled, and the conflicts found so far. -/
structure Collected where
  table : SymbolTable := {}
  conflicts : Array Conflict := #[]
  deriving Inhabited

def conflictMessage (existing : Symbol) (kind : SymbolKind) (file : Nat) (other scope name full : String) :
    String :=
  let base :=
    if existing.kind = .package || kind = .package then
      "\"" ++ full ++ "\" is already defined (as something other than a package) in file \"" ++ other ++
        "\"."
    else if existing.file = file then
      if scope.isEmpty then "\"" ++ name ++ "\" is already defined."
      else "\"" ++ name ++ "\" is already defined in \"" ++ scope ++ "\"."
    else "\"" ++ full ++ "\" is already defined in file \"" ++ other ++ "\"."
  if kind = .enumValue && existing.kind = .enumValue then
    let parent := if scope.isEmpty then "global scope" else scope
    base ++ " Note that enum values use C++ scoping rules, meaning that enum values are siblings " ++
      "of their type, not children of it.  Therefore, \"" ++ name ++ "\" must be unique within " ++
      parent ++ ", not just within the enum."
  else base

namespace Collected

/-- Declare `name` in `scope` from file `file`; `names` are the file names, for messages. -/
def add (c : Collected) (names : Array String) (file : Nat) (scope name : String) (kind : SymbolKind)
    (span : Span) (info : SymbolInfo) : Collected :=
  let full := qualify scope name
  match c.table.symbols.get? full with
  | none => { c with table := ⟨c.table.symbols.insert full ⟨kind, file, info⟩⟩ }
  | some existing =>
    if existing.kind = .package && kind = .package then
      match existing.info with
      | .package files =>
        if files.contains file then c
        else { c with table := ⟨c.table.symbols.insert full { existing with info := .package (files ++ [file]) }⟩ }
      | _ => c
    else
      let other := names[existing.file]?.getD ""
      let conflict : Conflict := ⟨file, span, conflictMessage existing kind file other scope name full⟩
      { c with conflicts := c.conflicts.push conflict }

def addEnum (c : Collected) (names : Array String) (file : Nat) (scope : String) (e : Enum) :
    Collected :=
  let values := e.body.filterMap fun
    | .value v => some v
    | _ => none
  let c := c.add names file scope e.name.value .enum e.name.span (.enum (values.map (·.name.value)))
  values.foldl (fun c v => c.add names file scope v.name.value .enumValue v.name.span .none) c

mutual

def addMessage (names : Array String) (file : Nat) (scope : String) :
    Message → Collected → Collected
  | .mk name body _, c =>
    let c := c.add names file scope name.value .message name.span (.message (extensionRangesOf body))
    addBody names file (qualify scope name.value) body c

def addBody (names : Array String) (file : Nat) (full : String) :
    List MessageElement → Collected → Collected
  | [], c => c
  | e :: rest, c => addBody names file full rest (addElement names file full e c)

def addElement (names : Array String) (file : Nat) (full : String) :
    MessageElement → Collected → Collected
  | .field f, c => c.add names file full f.name.value .field f.name.span .none
  | .map m, c =>
    let c := c.add names file full m.name.value .field m.name.span .none
    c.add names file full (mapEntryName m.name.value) .message m.name.span (.message [])
  | .group g, c => addGroup names file full none g c
  | .oneof (.mk name body _), c =>
    addOneof names file full body (c.add names file full name.value .oneof name.span .none)
  | .message m, c => addMessage names file full m c
  | .enum e, c => c.addEnum names file full e
  | .extend (.mk extendee body _), c => addExtend names file full extendee.value body c
  | .extensions _, c => c
  | .reserved _, c => c
  | .option _, c => c

def addGroup (names : Array String) (file : Nat) (scope : String) (extendee : Option String) :
    Group → Collected → Collected
  | .mk _ _ name number _ body _, c =>
    let fieldName := groupFieldName name.value
    let (kind, info) := match extendee with
      | some x => (SymbolKind.extension, SymbolInfo.extension x (qualify scope fieldName) number.value)
      | none => (SymbolKind.field, SymbolInfo.none)
    let c := c.add names file scope fieldName kind name.span info
    let c := c.add names file scope name.value .message name.span (.message (extensionRangesOf body))
    addBody names file (qualify scope name.value) body c

def addOneof (names : Array String) (file : Nat) (full : String) :
    List OneofElement → Collected → Collected
  | [], c => c
  | .field f :: rest, c => addOneof names file full rest (c.add names file full f.name.value .field f.name.span .none)
  | .group g :: rest, c => addOneof names file full rest (addGroup names file full none g c)
  | .option _ :: rest, c => addOneof names file full rest c

def addExtend (names : Array String) (file : Nat) (scope extendee : String) :
    List ExtendElement → Collected → Collected
  | [], c => c
  | .field f :: rest, c =>
    addExtend names file scope extendee rest
      (c.add names file scope f.name.value .extension f.name.span
        (.extension extendee (qualify scope f.name.value) f.number.value))
  | .group g :: rest, c => addExtend names file scope extendee rest (addGroup names file scope (some extendee) g c)

end

def addPackage (c : Collected) (names : Array String) (file : Nat) (p : Package) : Collected × String :=
  ((p.name.value.toList.splitOn '.').map String.ofList).foldl (fun (c, scope) part =>
    (c.add names file scope part .package p.name.span (.package [file]), qualify scope part)) (c, "")

def addFile (c : Collected) (names : Array String) (file : Nat) (s : SchemaFile) : Collected :=
  let (c, scope) := match s.package with
    | some p => c.addPackage names file p
    | none => (c, "")
  let c := s.messages.foldl (fun c m => addMessage names file scope m c) c
  let c := s.enums.foldl (fun c e => c.addEnum names file scope e) c
  let c := s.services.foldl (fun c svc =>
    let c := c.add names file scope svc.name.value .service svc.name.span .none
    let full := qualify scope svc.name.value
    svc.body.foldl (fun c el => match el with
      | .method m => c.add names file full m.name.value .method m.name.span .none
      | .option _ => c) c) c
  s.extendBlocks.foldl (fun c x => match x with
    | .mk extendee body _ => addExtend names file scope extendee.value body c) c

end Collected

/-- The symbol table of the files at indices `order`, declared in that order, and
the conflicts found. -/
def SymbolTable.build (files : Array ParsedFile) (order : List Nat) : SymbolTable × List Conflict :=
  let names := files.map (·.name)
  let c := order.foldl (fun c i => match files[i]? with
    | some f => c.addFile names i f.schema
    | none => c) ({} : Collected)
  (c.table, c.conflicts.toList)

end ProtoSchema
