/-!
Bucket paths: slash-separated, relative to the bucket root, compared only in
normalized form. The normalized form resolves `.` and `..`, collapses repeated
slashes and drops trailing ones; the root itself is written `"."`.

Main definitions: `Path.normalize`, `Path.join`, `Path.isUnder`,
`Path.relativeTo` and `Path.ext`.
-/

namespace ProtoSchema

/-- Why a text is not a bucket path. Each case keeps the text as given. -/
inductive PathError where
  | absolute (path : String)
  | outsideRoot (path : String)
  | notNormalized (path : String)
  deriving Repr, DecidableEq, Inhabited

namespace PathError

def message : PathError → String
  | .absolute p => p ++ ": expected a relative path"
  | .outsideRoot p => p ++ ": path is outside the bucket root"
  | .notNormalized p => p ++ ": path is not in normalized form"

end PathError

namespace Path

def splitSlash : List Char → List (List Char)
  | [] => [[]]
  | c :: rest =>
    if c = '/' then [] :: splitSlash rest
    else match splitSlash rest with
      | [] => [[c]]
      | seg :: segs => (c :: seg) :: segs

def segments (s : String) : List String :=
  (splitSlash s.toList).map String.ofList

def resolveSegments : List String → List String → Option (List String)
  | acc, [] => some acc
  | acc, seg :: rest =>
    if seg = "" ∨ seg = "." then resolveSegments acc rest
    else if seg = ".." then
      match acc with
      | [] => none
      | _ :: acc' => resolveSegments acc' rest
    else resolveSegments (seg :: acc) rest

def ofSegments : List String → String
  | [] => "."
  | segs => "/".intercalate segs

/-- The normalized form of a path, or why it has none. -/
def normalize (s : String) : Except PathError String :=
  if s.startsWith "/" then .error (.absolute s)
  else match resolveSegments [] (segments s) with
    | none => .error (.outsideRoot s)
    | some acc => .ok (ofSegments acc.reverse)

/-- The normalized form of `path` read from inside the directory `dir`. -/
def join (dir path : String) : Except PathError String :=
  if dir = "" ∨ dir = "." then normalize path
  else normalize (dir ++ "/" ++ path)

/-- Whether `path` is `dir` or lies below it, on segment boundaries; both are
taken to be normalized. -/
def isUnder (path dir : String) : Bool :=
  dir == "." || path == dir || path.startsWith (dir ++ "/")

/-- `path` with the directory `dir` taken off its front, when it lies strictly below it. -/
def relativeTo (path dir : String) : Option String :=
  if dir = "." then
    if path = "." then none else some path
  else if path.startsWith (dir ++ "/") then
    some (String.ofList (path.toList.drop (dir.length + 1)))
  else none

def baseName (cs : List Char) : List Char :=
  (cs.reverse.takeWhile (· ≠ '/')).reverse

/-- The file extension of a path, dot included: the text from the last dot of
its last segment, unless that dot opens the segment; otherwise empty. -/
def ext (s : String) : String :=
  let base := baseName s.toList
  let tail := (base.reverse.takeWhile (· ≠ '.')).reverse
  if tail.length < base.length ∧ tail.length + 1 < base.length then
    String.ofList ('.' :: tail)
  else ""

end Path

end ProtoSchema
