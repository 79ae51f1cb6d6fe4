import ProtoSchema.Build.Graph
import ProtoSchema.Build.WellKnown
import ProtoSchema.Compile.File
import ProtoSchema.SymbolTable.Collect
import ProtoSchema.FileSet
import ProtoSchema.Image.Transform
import ProtoSchema.Source.Parser.File

/-!
A build: from a file set to an image and annotations. The requested files
are read and parsed, then their imports not yet seen, wave after wave; each
imported file is found under the roots in order, else among the embedded
well-known files. Then the import graph is checked and ordered, the symbol
table filled from the healthy files in that order, and each healthy file
compiled. A file with any error is left out of the image, and so is every
file that imports it; every other file is still built. The image lists the
files in order, those not requested marked as imports.

Main definitions: `BuildError`, `BuildResult` and `runBuild`.
-/

namespace ProtoSchema

/-- Why a build stops without a result. -/
inductive BuildError where
  | cancelled
  | bucket (cause : BucketError)
  | fileSet (cause : FileSetError)
  /-- The assembled files broke an image rule. -/
  | image (cause : ImageError)
  deriving Repr, Inhabited

def BuildError.message : BuildError → String
  | .cancelled => "build cancelled"
  | .bucket e => e.message
  | .fileSet e => e.message
  | .image e => "internal error: " ++ e.message

/-- The outcome of a build: the image and the sorted annotations. -/
structure BuildResult where
  image : Image
  annotations : List Annotation
  deriving Inhabited

/-- Where the text of a file to parse comes from: a bucket path, or the lines of an embedded
file. -/
inductive SourceOrigin where
  | bucket (name path : String)
  | embedded (name : String) (lines : List String)
  deriving DecidableEq, Repr, Inhabited

/-- A file after reading: parsed, or failed with its annotation. -/
inductive Loaded where
  | parsed (file : ParsedFile)
  | failed (name : String) ( annotation : Annotation)
  deriving Inhabited

def locateImport (bucket : Bucket) (roots : List String) (name : String) : Option SourceOrigin :=
  if !Path.isNormalized name then none
  else
    let found := roots.findSome? fun root =>
      match Path.join root name with
      | .ok candidate =>
        match bucket.contains candidate with
        | .ok true => some candidate
        | _ => none
      | .error _ => none
    match found with
    | some path => some (.bucket name path)
    | none => (WellKnown.source? name).map (.embedded name)

def parseText (name path : String) (cs : List Char) : Loaded :=
  match parseSchemaChars cs with
  | .ok schema => .parsed ⟨name, path, schema⟩
  | .error e => .failed name ( Annotation.atSpan path .parse e.message e.span)

def loadSource (bucket : Bucket) : SourceOrigin → Except BuildError Loaded
  | .bucket name path => do
    let bytes ← (bucket.get path).mapError .bucket
    match Utf8.decodeChars? bytes with
    | none => return .failed name ( Annotation.whole path .parse "file is not valid UTF-8")
    | some cs => return parseText name path cs
  | .embedded name lines => return parseText name name (WellKnown.chars lines)

/-- The files parsed so far, the names that failed, their annotations, and the names seen. -/
structure Parsing where
  files : Array ParsedFile := #[]
  failed : List String := []
  annotations : Array Annotation := #[]
  seen : List String := []
  deriving Inhabited

def parseWaves (bucket : Bucket) (roots : List String) : Nat → List SourceOrigin → Parsing →
    Except BuildError Parsing
  | 0, _, p => .ok p
  | _ + 1, [], p => .ok p
  | fuel + 1, wave, p => do
    let loaded ← wave.mapM (loadSource bucket)
    let firstNew := p.files.size
    let p := loaded.foldl (fun p l => match l with
      | .parsed f => { p with files := p.files.push f }
      | .failed name a => { p with failed := name :: p.failed, annotations := p.annotations.push a }) p
    let newFiles := (p.files.toList.drop firstNew)
    let (next, seen) := newFiles.foldl (fun (next, seen) f =>
      f.schema.imports.foldl (fun (next, seen) imp =>
        let name := imp.path.value
        if seen.contains name then (next, seen)
        else match locateImport bucket roots name with
          | some s => (next ++ [s], name :: seen)
          | none => (next, name :: seen)) (next, seen)) (([] : List SourceOrigin), p.seen)
    parseWaves bucket roots fuel next { p with seen }

def parseAll (bucket : Bucket) (fs : FileSet) : Except BuildError Parsing :=
  let (wave, seen) := fs.files.foldl (fun (wave, seen) f =>
    if seen.contains f.name then (wave, seen) else (wave ++ [SourceOrigin.bucket f.name f.path], f.name :: seen))
    (([] : List SourceOrigin), ([] : List String))
  parseWaves bucket fs.roots (bucket.size + WellKnown.files.length + fs.files.length + 2) wave { seen }

def compileAll (files : Array ParsedFile) (table : SymbolTable) (sourceInfo : Bool) (order : List Nat)
    (g : ImportGraph) : ImportGraph × Array (Option FileDescriptor) :=
  order.foldl (fun (g, out) i =>
    if g.isBroken i then (g, out)
    else
      let (g, broken) := g.markBrokenImports files i
      if broken then (g, out)
      else match files[i]? with
        | none => (g, out)
        | some file =>
          let ctx : CompileContext := {
            files, table, file, visible := g.visibleFiles files i,
            proto3 := file.schema.dialect = .proto3, sourceInfo }
          let (fd, found) := compileFile ctx
          if found.isEmpty then (g, out.set! i (some fd))
          else ({ g with annotations := g.annotations ++ found.toArray, broken := g.broken.set! i true }, out))
    (g, Array.replicate files.size none)

/-- Build the file set: the image of every file that compiled cleanly, and the
annotations, sorted. Without `includeImports` the image holds the requested files only. -/
def runBuild (bucket : Bucket) (fs : FileSet) (includeImports includeSourceInfo cancelled : Bool) :
    Except BuildError BuildResult := do
  if cancelled then throw .cancelled
  let p ← parseAll bucket fs
  let files := p.files
  let g := ImportGraph.ofFiles files p.failed
  let g := { g with annotations := p.annotations ++ g.annotations }
  let requested := fs.files.filterMap fun f => fileIndex? files f.name
  let (order, g) := g.order files requested
  let g := g.propagate files order
  let healthy := order.filter fun i => !g.isBroken i
  let (table, conflicts) := SymbolTable.build files healthy
  let g := conflicts.foldl (fun g c =>
    let path := (files[c.file]?.map (·.path)).getD ""
    let g := { g with annotations := g.annotations.push ( Annotation.atSpan path .compile c.message c.span) }
    g.markBroken c.file) g
  let g := g.propagate files order
  let (g, descriptors) := compileAll files table includeSourceInfo order g
  let imageFiles := order.filterMap fun i =>
    if g.isBroken i then none
    else match descriptors.getD i none, files[i]? with
      | some d, some f =>
        some { descriptor := d, isImport := !requested.contains i,
               syntaxUnspecified := f.schema.dialectDecl.isNone }
      | _, _ => none
  let image ← (Image.ofFiles imageFiles).mapError .image
  let image := if includeImports then image else image.withoutImports
  return { image, annotations := Annotation.sortAndDedup g.annotations.toList }

end ProtoSchema
