import ProtoSchema.Bucket
import ProtoSchema.Config

/-!
File sets: which schema files a build compiles. Every `.proto` file under a
root is taken, unless it lies under an exclude or, when explicit paths are
given, outside all of them. A file is known by its bucket path and by its
name relative to its root; names are what imports refer to, and two files
of one name are refused. Roots must not contain one another, nor excludes;
an exclude must lie strictly inside a root, and an explicit path inside a
root and name something present.

Main definitions: `FileSetOptions`, `FileSet`, `FileSet.resolve` and
`FileSet.nameForPath`.
-/

namespace ProtoSchema

def schemaExtension : String := ".proto"

/-- What to resolve a file set from. -/
structure FileSetOptions where
  /-- Root directories; none means the whole bucket. -/
  roots : List String := []
  /-- Directories or files to leave out. -/
  excludes : List String := []
  /-- Bucket paths to narrow the set to; none means every file under the roots. -/
  paths : List String := []
  deriving Repr, Inhabited

def FileSetOptions.ofConfig (cfg : BuildConfig) : FileSetOptions :=
  { roots := cfg.roots, excludes := cfg.excludes }

/-- One file to compile. -/
structure FileRef where
  /-- The normalized root the file was found under. -/
  root : String
  /-- The name relative to the root, as imports write it. -/
  name : String
  /-- The bucket path. -/
  path : String
  deriving DecidableEq, Repr, Inhabited

/-- A resolved file set: normalized roots, files sorted by bucket path, and the
normalized explicit paths. -/
structure FileSet where
  roots : List String := []
  files : List FileRef := []
  explicit : List String := []
  deriving DecidableEq, Repr, Inhabited

/-- Why a file set cannot be resolved. -/
inductive FileSetError where
  | path (cause : PathError)
  | bucket (cause : BucketError)
  | overlappingRoots (first second : String)
  | overlappingExcludes (first second : String)
  | excludeIsRoot (path : String)
  | excludeOutsideRoots (path : String)
  | pathOutsideRoots (path : String)
  | pathNotFound (path : String)
  | duplicateName (name first second : String)
  deriving Repr, Inhabited

namespace FileSetError

def message : FileSetError → String
  | .path e => e.message
  | .bucket e => e.message
  | .overlappingRoots a b => "roots " ++ a ++ " and " ++ b ++ " overlap"
  | .overlappingExcludes a b => "excludes " ++ a ++ " and " ++ b ++ " overlap"
  | .excludeIsRoot p => "exclude " ++ p ++ " is equal to a root"
  | .excludeOutsideRoots p => "exclude " ++ p ++ " is not contained in any root"
  | .pathOutsideRoots p => "path " ++ p ++ " is not contained in any root"
  | .pathNotFound p => "path " ++ p ++ " does not exist"
  | .duplicateName n a b => n ++ " is contained in multiple roots: " ++ a ++ " and " ++ b

end FileSetError

namespace FileSet

def normalizeAll (ps : List String) : Except FileSetError (List String) :=
  ps.mapM fun p => (Path.normalize p).mapError .path

def overlap? : List String → Option (String × String)
  | [] => none
  | a :: rest =>
    match rest.find? fun b => Path.isUnder a b || Path.isUnder b a with
    | some b => some (a, b)
    | none => overlap? rest

def ofBucket {α : Type} (r : Except BucketError α) : Except FileSetError α := r.mapError .bucket

def checkExcludes (roots excludes : List String) : Except FileSetError Unit :=
  excludes.forM fun e => do
    if roots.contains e then throw (.excludeIsRoot e)
    if !roots.any (Path.isUnder e) then throw (.excludeOutsideRoots e)

def checkExplicit (bucket : Bucket) (roots explicit : List String) : Except FileSetError Unit :=
  explicit.forM fun t => do
    if !roots.any (Path.isUnder t) then throw (.pathOutsideRoots t)
    if !(← ofBucket (bucket.contains t)) && (← ofBucket (bucket.list t)).isEmpty then
      throw (.pathNotFound t)

def filesUnder (bucket : Bucket) (excludes explicit : List String) (root : String) :
    Except FileSetError (List FileRef) := do
  let paths ← ofBucket (bucket.list root)
  return paths.filterMap fun p =>
    if Path.ext p ≠ schemaExtension then none
    else if excludes.any (Path.isUnder p) then none
    else if !explicit.isEmpty && !explicit.any (Path.isUnder p) then none
    else (Path.relativeTo p root).map fun name => { root, name, path := p }

def duplicate? : List FileRef → List FileRef → Option (FileRef × FileRef)
  | _, [] => none
  | seen, f :: rest =>
    match seen.find? (·.name = f.name) with
    | some g => some (g, f)
    | none => duplicate? (f :: seen) rest

/-- Resolve the files a build compiles. -/
def resolve (bucket : Bucket) (options : FileSetOptions) : Except FileSetError FileSet := do
  let roots ← normalizeAll options.roots
  let roots := if roots.isEmpty then ["."] else roots
  let excludes ← normalizeAll options.excludes
  let explicit ← normalizeAll options.paths
  if let some (a, b) := overlap? roots then throw (.overlappingRoots a b)
  if let some (a, b) := overlap? excludes then throw (.overlappingExcludes a b)
  checkExcludes roots excludes
  checkExplicit bucket roots explicit
  let found ← roots.flatMapM (filesUnder bucket excludes explicit)
  let files := found.mergeSort fun a b => decide (a.path ≤ b.path)
  if let some (g, f) := duplicate? [] files then throw (.duplicateName f.name g.path f.path)
  return { roots, files, explicit }

/-- The name of a bucket path relative to the first root it lies under. -/
def nameForPath (fs : FileSet) (p : String) : Option String :=
  fs.roots.findSome? (Path.relativeTo p)

end FileSet

end ProtoSchema
