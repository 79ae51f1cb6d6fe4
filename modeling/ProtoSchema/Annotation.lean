import ProtoSchema.Text.Characters
import ProtoSchema.Source.Span

/-!
Annotations: the non-fatal problems a build reports, each tied to a file and
optionally to a range in it. Lines and columns count from one; a zero line
means the whole file.

Main definitions: `Annotation.sortAndDedup`, which orders annotations by
path, start, message, end and kind and drops adjacent repeats, and the two
printed forms `Annotation.toText` and `Annotation.toJsonLine`.
-/

namespace ProtoSchema

/-- The coarse cause of an annotation, in its sort order. -/
inductive AnnotationKind where
  /-- Malformed source text. -/
  | parse
  /-- Missing, failed, repeated or cyclic imports. -/
  | dependency
  /-- Name resolution and descriptor validation. -/
  | compile
  deriving Repr, DecidableEq, Inhabited

namespace AnnotationKind

def rank : AnnotationKind → Nat
  | .parse => 0
  | .dependency => 1
  | .compile => 2

def name : AnnotationKind → String
  | .parse => "SYNTAX"
  | .dependency => "IMPORT"
  | .compile => "COMPILE"

end AnnotationKind

/-- How serious an annotation is. -/
inductive Severity where
  | error
  | warning
  deriving Repr, DecidableEq, Inhabited

def Severity.name : Severity → String
  | .error => "error"
  | .warning => "warning"

/-- A problem in one file, at a range of it or (line zero) at the whole file. -/
structure Annotation where
  path : String
  startLine : Nat := 0
  startColumn : Nat := 0
  endLine : Nat := 0
  endColumn : Nat := 0
  kind : AnnotationKind
  message : String
  severity : Severity := .error
  deriving Repr, DecidableEq, Inhabited

def Annotation.whole (path : String) (kind : AnnotationKind) (message : String) : Annotation :=
  { path, kind, message }

def Annotation.atSpan (path : String) (kind : AnnotationKind) (message : String) (s : Span) :
    Annotation :=
  { path, kind, message, startLine := s.startLine + 1, startColumn := s.startCol + 1,
    endLine := s.endLine + 1, endColumn := s.endCol + 1 }

/-- The two printed forms of a list of annotations. -/
inductive ErrorFormat where
  | text
  | json
  deriving Repr, DecidableEq, Inhabited

namespace ErrorFormat

def name : ErrorFormat → String
  | .text => "text"
  | .json => "json"

def ofString (s : String) : Except String ErrorFormat :=
  if s = "text" then .ok .text
  else if s = "json" then .ok .json
  else .error ("unknown error format " ++ Quoted.quote s ++ " (expected \"text\" or \"json\")")

end ErrorFormat

namespace Annotation

def cmpChars : List Char → List Char → Ordering
  | [], [] => .eq
  | [], _ :: _ => .lt
  | _ :: _, [] => .gt
  | c :: cs, d :: ds => (compare c.toNat d.toNat).then (cmpChars cs ds)

def cmpStr (a b : String) : Ordering := cmpChars a.toList b.toList

def cmp (a b : Annotation) : Ordering :=
  (cmpStr a.path b.path).then <|
  (compare a.startLine b.startLine).then <|
  (compare a.startColumn b.startColumn).then <|
  (cmpStr a.message b.message).then <|
  (compare a.endLine b.endLine).then <|
  (compare a.endColumn b.endColumn).then <|
  compare a.kind.rank b.kind.rank

def dedupAdjacent : List Annotation → List Annotation
  | [] => []
  | [a] => [a]
  | a :: b :: rest =>
    if a = b then dedupAdjacent (b :: rest) else a :: dedupAdjacent (b :: rest)

/-- Sort stably by `cmp` and drop adjacent repeats. -/
def sortAndDedup (xs : List Annotation) : List Annotation :=
  dedupAdjacent (xs.mergeSort (fun a b => cmp a b != .gt))

/-- One line of the text form: `path:message`, or `path:line:column:message`
when the annotation has a position. -/
def toText (a : Annotation) : String :=
  if a.startLine = 0 then a.path ++ ":" ++ a.message
  else a.path ++ ":" ++ toString a.startLine ++ ":" ++ toString a.startColumn ++ ":" ++ a.message

/-- One line of the JSON form: an object with the fields in declaration order. -/
def toJsonLine (a : Annotation) : String :=
  "\x7b\"path\":" ++ Json.quote a.path ++
  ",\"start_line\":" ++ toString a.startLine ++
  ",\"start_column\":" ++ toString a.startColumn ++
  ",\"end_line\":" ++ toString a.endLine ++
  ",\"end_column\":" ++ toString a.endColumn ++
  ",\"kind\":" ++ Json.quote a.kind.name ++
  ",\"message\":" ++ Json.quote a.message ++
  ",\"severity\":" ++ Json.quote a.severity.name ++ "\x7d"

def print (fmt : ErrorFormat) (xs : List Annotation) : String :=
  String.join (xs.map fun a => (match fmt with
    | .text => a.toText
    | .json => a.toJsonLine) ++ "\n")

end Annotation

end ProtoSchema
