import ProtoSchema.Descriptor.Compare
import ProtoSchema.Path
import ProtoSchema.Text.Characters
import ProtoSchema.Wire.Varint

/-!
Images: the compiled files of a build as a sequence of descriptors, each
marked as requested or present only because something imports it. A valid
image names every file once, in normalized form, and lists every import of
a file before the file; a closed image also holds every import.

Main definitions: `ImageFile`, `Image`, `ImageError`, and the checked
constructors `Image.ofFiles` (closed) and `Image.ofFilesOpen`.
-/

namespace ProtoSchema

/-- One compiled file of an image, with its marks. -/
structure ImageFile where
  descriptor : FileDescriptor
  /-- Present only because another file imports it. -/
  isImport : Bool
  /-- The file had no version statement. -/
  syntaxUnspecified : Bool := false
  deriving Inhabited

namespace ImageFile

def name (f : ImageFile) : String := f.descriptor.name.getD ""

def imports (f : ImageFile) : List String := f.descriptor.dependency

end ImageFile

/-- Why a sequence of files is not a valid image, or bytes are not an image. -/
inductive ImageError where
  | unnamedFile
  | invalidName (name : String) (cause : PathError)
  | duplicateFile (name : String)
  | missingImport (file dependency : String)
  | outOfOrder (file dependency : String)
  | notPresent (name : String)
  | decode (cause : WireError)
  deriving Repr, Inhabited

namespace ImageError

def message : ImageError → String
  | .unnamedFile => "image file has no name"
  | .invalidName name cause => "invalid image file name " ++ Quoted.quote name ++ ": " ++ cause.message
  | .duplicateFile name => "duplicate file in image: " ++ name
  | .missingImport file dep => file ++ " imports " ++ dep ++ ", which is not present in the Image"
  | .outOfOrder file dep =>
    file ++ " imports " ++ dep ++ ", which does not appear before it in the Image"
  | .notPresent name => name ++ " is not present in the Image"
  | .decode _ => "failed to decode image"

end ImageError

/-- A sequence of compiled files in image order. -/
structure Image where
  files : List ImageFile := []
  deriving Inhabited

namespace Image

def names (img : Image) : List String := img.files.map ImageFile.name

def size (img : Image) : Nat := img.files.length

def position? (img : Image) (name : String) : Option Nat := img.names.idxOf? name

def file? (img : Image) (name : String) : Option ImageFile := img.files.find? (·.name == name)

def isClosed (img : Image) : Bool :=
  img.files.all fun f => f.imports.all fun dep => (img.position? dep).isSome

def checkName (seen : List String) (name : String) : Except ImageError Unit := do
  if name.isEmpty then throw .unnamedFile
  match Path.normalize name with
  | .error cause => throw (.invalidName name cause)
  | .ok n => if n ≠ name then throw (.invalidName name (.notNormalized name))
  if seen.contains name then throw (.duplicateFile name)

def checkNames : List String → List String → Except ImageError Unit
  | _, [] => .ok ()
  | seen, name :: rest => do
    checkName seen name
    checkNames (seen ++ [name]) rest

def checkImports (names : List String) (closed : Bool) (i : Nat) (f : ImageFile) :
    Except ImageError Unit :=
  f.imports.forM fun dep =>
    match names.idxOf? dep with
    | some j => if j < i then .ok () else .error (.outOfOrder f.name dep)
    | none => if closed then .error (.missingImport f.name dep) else .ok ()

def validate (closed : Bool) (files : List ImageFile) : Except ImageError Image := do
  let names := files.map ImageFile.name
  checkNames [] names
  (files.zipIdx.forM fun (f, i) => checkImports names closed i f)
  return ⟨files⟩

def sameAs (a b : Image) : Bool :=
  sameList (fun f g => f.descriptor.sameAs g.descriptor && f.isImport == g.isImport &&
    f.syntaxUnspecified == g.syntaxUnspecified) a.files b.files

/-- A closed image of the files. -/
def ofFiles (files : List ImageFile) : Except ImageError Image := validate true files

/-- An image of the files whose imports may be absent. -/
def ofFilesOpen (files : List ImageFile) : Except ImageError Image := validate false files

end Image

end ProtoSchema
