import ProtoSchema.Path

/-!
An in-memory bucket: files keyed by normalized path, kept sorted by path so
that listing returns paths in order. Every path handed in is normalized first,
so two spellings of one file address the same entry.

Main definitions: `Bucket.insert`, `Bucket.get`, `Bucket.contains`, `Bucket.list`.
-/

namespace ProtoSchema

/-- Why a bucket read failed. -/
inductive BucketError where
  /-- No file at this normalized path. -/
  | notFound (path : String)
  | path (err : PathError)
  deriving Repr, DecidableEq, Inhabited

namespace BucketError

def message : BucketError → String
  | .notFound p => p ++ ": file does not exist"
  | .path e => e.message

end BucketError

/-- Files keyed by normalized path, in increasing path order. -/
structure Bucket where
  entries : List (String × List UInt8) := []
  deriving DecidableEq, Inhabited

namespace Bucket

def insertSorted (p : String) (bytes : List UInt8) :
    List (String × List UInt8) → List (String × List UInt8)
  | [] => [(p, bytes)]
  | (q, b) :: rest =>
    if p < q then (p, bytes) :: (q, b) :: rest
    else if p = q then (p, bytes) :: rest
    else (q, b) :: insertSorted p bytes rest

/-- Add or replace the file at `path`. -/
def insert (bucket : Bucket) (path : String) (bytes : List UInt8) : Except PathError Bucket := do
  let p ← Path.normalize path
  return ⟨insertSorted p bytes bucket.entries⟩

def ofFiles (files : List (String × List UInt8)) : Except PathError Bucket :=
  files.foldlM (fun b (p, bytes) => b.insert p bytes) {}

def size (bucket : Bucket) : Nat := bucket.entries.length

def find? (bucket : Bucket) (p : String) : Option (List UInt8) :=
  (bucket.entries.find? (·.1 == p)).map (·.2)

/-- The contents of the file at `path`. -/
def get (bucket : Bucket) (path : String) : Except BucketError (List UInt8) :=
  match Path.normalize path with
  | .error e => .error (.path e)
  | .ok p =>
    match bucket.find? p with
    | some bytes => .ok bytes
    | none => .error (.notFound p)

/-- Whether a file is stored at `path`. -/
def contains (bucket : Bucket) (path : String) : Except BucketError Bool :=
  match Path.normalize path with
  | .error e => .error (.path e)
  | .ok p => .ok (bucket.entries.any (·.1 == p))

/-- Every stored path at or below `prefix`, in increasing order. -/
def list (bucket : Bucket) (pfx : String) : Except BucketError (List String) :=
  match Path.normalize pfx with
  | .error e => .error (.path e)
  | .ok p => .ok ((bucket.entries.map (·.1)).filter (Path.isUnder · p))

end Bucket

end ProtoSchema
