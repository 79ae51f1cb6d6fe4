import ProtoSchema.Image.Basic

/-!
New images from old ones: the requested files alone, the import closure of
chosen names, and the plain descriptor sequence. None of them changes the
order of the files that remain.

Main definitions: `Image.withoutImports`, `Image.withNames`,
`Image.importNames` and `Image.descriptors`.
-/

namespace ProtoSchema

namespace Image

/-- The descriptors in image order, without marks. -/
def descriptors (img : Image) : List FileDescriptor := img.files.map ImageFile.descriptor

def insertName (name : String) : List String → List String
  | [] => [name]
  | n :: rest =>
    if name < n then name :: n :: rest
    else if name = n then n :: rest
    else n :: insertName name rest

/-- The names of the files present only as imports, sorted. -/
def importNames (img : Image) : List String :=
  (img.files.filter (·.isImport)).foldr (fun f acc => insertName f.name acc) []

/-- Only the requested files, in their order. The result need not be closed. -/
def withoutImports (img : Image) : Image := ⟨img.files.filter (!·.isImport)⟩

def reach (img : Image) : Nat → List String → List String → List String
  | 0, _, seen => seen
  | _ + 1, [], seen => seen
  | fuel + 1, name :: stack, seen =>
    if seen.contains name then reach img fuel stack seen
    else reach img fuel ((img.file? name).elim [] ImageFile.imports ++ stack) (name :: seen)

def closure (img : Image) (targets : List String) : List String :=
  let imports := img.files.foldl (fun n f => n + f.imports.length) 0
  reach img (targets.length + imports + 1) targets []

def targetsOf (img : Image) (allowNotFound : Bool) : List String → Except ImageError (List String)
  | [] => .ok []
  | raw :: rest => do
    let name := match Path.normalize raw with
      | .ok n => n
      | .error _ => raw
    if (img.position? name).isSome then
      return insertName name (← targetsOf img allowNotFound rest)
    else if allowNotFound then targetsOf img allowNotFound rest
    else throw (.notPresent name)

/-- The import closure of `names` within the image: the named files become
requested, the files reached only through imports become imports, and the
order is kept. The result is closed if the image is. -/
def withNames (img : Image) (allowNotFound : Bool) (names : List String) :
    Except ImageError Image := do
  let targets ← targetsOf img allowNotFound names
  let reached := img.closure targets
  let files := (img.files.filter fun f => reached.contains f.name).map fun f =>
    { f with isImport := !targets.contains f.name }
  validate img.isClosed files

end Image

end ProtoSchema
