import Std.Data.HashMap
import ProtoSchema.Source.Span

/-!
The symbol table of a build: every name the parsed files declare, by its
full dotted name, with what kind of thing it names and which file declares
it. Name lookup searches the innermost enclosing scope first; a compound
name commits to the first scope whose leading part names an aggregate (a
package, message, enum or service), and a name can only be used where the
file that declares it is visible.

Main definitions: `SymbolKind`, `Symbol`, `SymbolTable`, `SymbolTable.lookup`
and the naming rules `qualify`, `mapEntryName`, `jsonName` and
`groupFieldName`.
-/

namespace ProtoSchema

/-- What a name stands for. -/
inductive SymbolKind where
  | package
  | message
  | enum
  | enumValue
  | service
  | method
  | field
  | oneof
  | extension
  deriving DecidableEq, Repr, Inhabited

namespace SymbolKind

def isAggregate : SymbolKind → Bool
  | .package | .message | .enum | .service => true
  | _ => false

def isType : SymbolKind → Bool
  | .message | .enum => true
  | _ => false

end SymbolKind

/-- What the table keeps about a name beyond its kind. -/
inductive SymbolInfo where
  | none
  /-- Every file declaring this package or a package inside it. -/
  | package (files : List Nat)
  /-- The extension ranges, start inclusive and end exclusive. -/
  | message (extensionRanges : List (Int × Int))
  /-- The value names, in order. -/
  | enum (values : List String)
  /-- The extended message as written, the scope to resolve it from, and the field number. -/
  | extension (extendee : String) (scope : String) (number : Int)
  deriving Repr, Inhabited

/-- A declared name: its kind, the index of the file declaring it, and its information. -/
structure Symbol where
  kind : SymbolKind
  file : Nat
  info : SymbolInfo
  deriving Repr, Inhabited

/-- A name declared twice: the file and span of the second declaration, and the message. -/
structure Conflict where
  file : Nat
  span : Span
  message : String
  deriving Repr, Inhabited

/-- The outcome of a lookup. -/
inductive Lookup where
  | found (fullName : String) (symbol : Symbol)
  /-- Declared, but in a file the referring file cannot see. -/
  | notImported (fullName : String) (file : Nat)
  /-- Not declared; `hint` is the full name a compound name committed to. -/
  | notFound (hint : Option String)
  deriving Repr, Inhabited

/-- The declared names of a build by full name. -/
structure SymbolTable where
  symbols : Std.HashMap String Symbol := {}
  deriving Inhabited

/-- A name inside a scope; the empty scope is the top level. -/
def qualify (scope name : String) : String :=
  if scope.isEmpty then name else scope ++ "." ++ name

def asciiUpper (c : Char) : Char :=
  if 'a' ≤ c ∧ c ≤ 'z' then Char.ofNat (c.toNat - 32) else c

def asciiLower (c : Char) : Char :=
  if 'A' ≤ c ∧ c ≤ 'Z' then Char.ofNat (c.toNat + 32) else c

def camelGo : Bool → List Char → List Char
  | _, [] => []
  | upper, c :: rest =>
    if c = '_' then camelGo true rest
    else (if upper then asciiUpper c else c) :: camelGo false rest

/-- The entry message name of a map field: `foo_bar` gives `FooBarEntry`. -/
def mapEntryName (field : String) : String := String.ofList (camelGo true field.toList) ++ "Entry"

/-- The JSON name of a field: `foo_bar_baz` gives `fooBarBaz`. -/
def jsonName (field : String) : String := String.ofList (camelGo false field.toList)

/-- The field name of a group: its type name in lower case. -/
def groupFieldName (group : String) : String := String.map asciiLower group

def dotParts (n : String) : List String := (n.toList.splitOn '.').map String.ofList

def enclosingScopes (relativeTo : String) : List String :=
  let parts := dotParts relativeTo
  ((List.range (parts.length - 1)).reverse.map fun k => ".".intercalate (parts.take (k + 1))).filter
    (· ≠ "")

namespace SymbolTable

def isVisible (s : Symbol) (visible : List Nat) : Bool :=
  match s.info with
  | .package files => files.any visible.contains
  | _ => visible.contains s.file

def find (t : SymbolTable) (fullName : String) (visible : Option (List Nat))
    (hidden : Option (String × Nat)) : Option Symbol × Option (String × Nat) :=
  match t.symbols.get? fullName with
  | none => (none, hidden)
  | some s =>
    match visible with
    | none => (some s, hidden)
    | some vs =>
      if isVisible s vs then (some s, hidden)
      else if s.kind ≠ .package && hidden.isNone then (none, some (fullName, s.file))
      else (none, hidden)

def missing (hidden : Option (String × Nat)) (hint : Option String) : Lookup :=
  match hidden with
  | some (name, file) => .notImported name file
  | none => .notFound hint

def searchScopes (t : SymbolTable) (name first : String) (compound typesOnly : Bool)
    (visible : Option (List Nat)) : List String → Option (String × Nat) → Lookup
  | [], hidden =>
    match t.find name visible hidden with
    | (some s, _) => .found name s
    | (none, hidden) => missing hidden none
  | scope :: rest, hidden =>
    let candidate := scope ++ "." ++ first
    match t.find candidate visible hidden with
    | (none, hidden) => searchScopes t name first compound typesOnly visible rest hidden
    | (some s, hidden) =>
      if compound then
        if s.kind.isAggregate then
          let full := scope ++ "." ++ name
          match t.find full visible hidden with
          | (some s', _) => .found full s'
          | (none, hidden) => missing hidden (some full)
        else searchScopes t name first compound typesOnly visible rest hidden
      else if !typesOnly || s.kind.isType then .found candidate s
      else searchScopes t name first compound typesOnly visible rest hidden

/-- Resolve `name` as written inside the element of full name `relativeTo`. A
leading dot makes the name absolute. With `typesOnly`, a simple name that finds
something other than a type keeps searching outward. -/
def lookup (t : SymbolTable) (name relativeTo : String) (typesOnly : Bool)
    (visible : Option (List Nat)) : Lookup :=
  if name.startsWith "." then
    let absolute := (name.drop 1).toString
    match t.find absolute visible none with
    | (some s, _) => .found absolute s
    | (none, hidden) => missing hidden none
  else
    let first := ((dotParts name).head?).getD name
    searchScopes t name first (first.length < name.length) typesOnly visible
      (enclosingScopes relativeTo) none

end SymbolTable

end ProtoSchema
