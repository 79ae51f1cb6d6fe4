import ProtoSchema.Source.Ast
import ProtoSchema.Annotation
import ProtoSchema.Path

/-!
The import graph of a build. Each import statement of a parsed file points
at the parsed file of its name, if there is one. An import listed twice, one
whose name is not normalized, and one with no parsed file are errors of the
importing file, which is then broken. Files are ordered depth first from the
requested files, each after its imports; an import cycle is an error of the
file that closes it and breaks every file on it. A file importing a broken
file is broken too.

Main definitions: `ImportGraph`, `ImportGraph.ofFiles`, `ImportGraph.order`,
`ImportGraph.markBrokenImports` and `ImportGraph.propagate`.
-/

namespace ProtoSchema

/-- The import graph and what is known to be broken. -/
structure ImportGraph where
  /-- Per file, per import statement: the index of the imported file, if parsed. -/
  deps : Array (List (Option Nat))
  broken : Array Bool
  annotations : Array Annotation
  deriving Inhabited

def Path.isNormalized (name : String) : Bool :=
  match Path.normalize name with
  | .ok n => n == name
  | .error _ => false

def fileIndex? (files : Array ParsedFile) (name : String) : Option Nat :=
  files.findIdx? (·.name == name)

namespace ImportGraph

def importError (g : ImportGraph) (file : ParsedFile) (imp : Import) (message : String) : ImportGraph :=
  { g with annotations := g.annotations.push ( Annotation.atSpan file.path .dependency message imp.path.span) }

def markBroken (g : ImportGraph) (i : Nat) : ImportGraph := { g with broken := g.broken.set! i true }

def isBroken (g : ImportGraph) (i : Nat) : Bool := g.broken.getD i false

def checkImports (files : Array ParsedFile) (failed : List String) (g : ImportGraph) (i : Nat) :
    ImportGraph :=
  match files[i]? with
  | none => g
  | some file =>
    let (g, _, targets) := file.schema.imports.foldl (fun (g, seen, targets) imp =>
      let name := imp.path.value
      let target := fileIndex? files name
      let g :=
        if seen.contains name then
          (g.importError file imp ("Import \"" ++ name ++ "\" was listed twice.")).markBroken i
        else if !Path.isNormalized name then
          (g.importError file imp ("Import \"" ++ name ++ "\" is not a normalized relative path.")).markBroken i
        else if target.isNone then
          let message := if failed.contains name then "Import \"" ++ name ++ "\" was not found or had errors."
            else "import \"" ++ name ++ "\": file does not exist"
          (g.importError file imp message).markBroken i
        else g
      (g, name :: seen, targets ++ [target])) (g, ([] : List String), ([] : List (Option Nat)))
    { g with deps := g.deps.push targets }

/-- The import graph of the parsed files, with the errors of their import statements. -/
def ofFiles (files : Array ParsedFile) (failed : List String) : ImportGraph :=
  (List.range files.size).foldl (checkImports files failed)
    { deps := #[], broken := Array.replicate files.size false, annotations := #[] }

/-- Report each import of file `i` that points at a broken file, and break `i` if there is
one. The answer says whether `i` is broken. -/
def markBrokenImports (files : Array ParsedFile) (g : ImportGraph) (i : Nat) : ImportGraph × Bool :=
  match files[i]? with
  | none => (g, g.isBroken i)
  | some file =>
    let g := (file.schema.imports.zip (g.deps.getD i [])).foldl (fun g (imp, target) =>
      match target with
      | some t =>
        if g.isBroken t then
          (g.importError file imp ("Import \"" ++ imp.path.value ++ "\" was not found or had errors.")).markBroken i
        else g
      | none => g) g
    (g, g.isBroken i)

/-- Break every file that imports a broken one; `order` puts imports first, so one pass
suffices. -/
def propagate (files : Array ParsedFile) (order : List Nat) (g : ImportGraph) : ImportGraph :=
  order.foldl (fun g i => if g.isBroken i then g else (markBrokenImports files g i).1) g

/-- How far the depth-first walk has got with a file. -/
inductive Mark where
  | fresh
  | active
  | done
  deriving DecidableEq, Repr, Inhabited

/-- The state of the depth-first walk. -/
structure Walk where
  marks : Array Mark
  order : Array Nat
  graph : ImportGraph
  deriving Inhabited

def reportCycle (files : Array ParsedFile) (w : Walk) (stack : List Nat) (file next target : Nat) : Walk :=
  let path := stack.reverse
  let cycle := path.drop (path.idxOf target)
  let names := (cycle ++ [target]).map fun f => (files[f]?.map (·.name)).getD ""
  match files[file]? with
  | none => w
  | some pf =>
    match pf.schema.imports[next]? with
    | none => w
    | some imp =>
      let g := w.graph.importError pf imp ("File recursively imports itself: " ++ " -> ".intercalate names)
      { w with graph := cycle.foldl markBroken g }

def walk (files : Array ParsedFile) : Nat → List (Nat × Nat) → Walk → Walk
  | 0, _, w => w
  | _ + 1, [], w => w
  | fuel + 1, (file, next) :: below, w =>
    match (w.graph.deps.getD file [])[next]? with
    | none => walk files fuel below { w with marks := w.marks.set! file .done, order := w.order.push file }
    | some none => walk files fuel ((file, next + 1) :: below) w
    | some (some t) =>
      let stack := (file, next + 1) :: below
      match w.marks.getD t .done with
      | .fresh => walk files fuel ((t, 0) :: stack) { w with marks := w.marks.set! t .active }
      | .active => walk files fuel stack (reportCycle files w (stack.map (·.1)) file next t)
      | .done => walk files fuel stack w

def importCount (g : ImportGraph) : Nat := g.deps.foldl (fun n d => n + d.length) 0

/-- The files reachable from `roots` (in that order), each after its imports, with the
cycles of imports reported. -/
def order (files : Array ParsedFile) (roots : List Nat) (g : ImportGraph) : List Nat × ImportGraph :=
  let fuel := 2 * files.size + g.importCount + 2
  let w := roots.foldl (fun w r =>
    if w.marks.getD r .done ≠ .fresh then w
    else walk files fuel [(r, 0)] { w with marks := w.marks.set! r .active })
    { marks := Array.replicate files.size .fresh, order := #[], graph := g }
  (w.order.toList, w.graph)

def visibleFiles (files : Array ParsedFile) (g : ImportGraph) (i : Nat) : List Nat :=
  let publicTargets (d : Nat) : List Nat :=
    match files[d]? with
    | none => []
    | some f => ((f.schema.imports.zip (g.deps.getD d [])).filterMap fun (imp, t) =>
        if imp.kind = .exported then t else none)
  let rec go : Nat → List Nat → List Nat → List Nat
    | 0, _, seen => seen
    | _ + 1, [], seen => seen
    | fuel + 1, d :: stack, seen =>
      if seen.contains d then go fuel stack seen
      else go fuel (publicTargets d ++ stack) (seen ++ [d])
  let fuel := g.importCount + files.size + 2
  go fuel ((g.deps.getD i []).filterMap id) [i]

end ImportGraph

end ProtoSchema
