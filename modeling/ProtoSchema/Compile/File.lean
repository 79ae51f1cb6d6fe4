import ProtoSchema.Compile.Message

/-!
Compiling a parsed file into its descriptor: name, package, imports (public
and weak ones also by index), options, messages, enums, services with their
methods, and extensions, with source info when it is wanted. A proto2 file
leaves the version unset.

Main definitions: `CompileM.service`, `CompileM.file` and `compileFile`.
-/

namespace ProtoSchema

namespace CompileM

def method (path : List Int) (service : String) (m : Method) : CompileM MethodDescriptor := do
  let full := qualify service m.name.value
  locateDecl path m.decl
  locate (path ++ [1]) m.name.span
  if let some s := m.input.stream then locate (path ++ [5]) s
  locate (path ++ [2]) m.input.name.span
  if let some s := m.output.stream then locate (path ++ [6]) s
  locate (path ++ [3]) m.output.name.span
  let input ← resolveMessage m.input.name full
  let output ← resolveMessage m.output.name full
  let options ← interpretOptions methodOptions (path ++ [4]) full m.options
  return { name := some m.name.value, inputType := input.map fun (n, _) => "." ++ n,
           outputType := output.map fun (n, _) => "." ++ n, options := options,
           clientStreaming := m.input.stream.map fun _ => true,
           serverStreaming := m.output.stream.map fun _ => true }

/-- A service at `path` in the package `scope`. -/
def service (path : List Int) (scope : String) (s : Service) : CompileM ServiceDescriptor := do
  let full := qualify scope s.name.value
  locateDecl path s.decl
  locate (path ++ [1]) s.name.span
  let (methods, decls) ← s.body.foldlM (fun (ms, ds) el => match el with
    | .method m => do
      let d ← method (path ++ [2, (ms.size : Int)]) full m
      return (ms.push d, ds)
    | .option o => return (ms, ds.push o)) ((#[] : Array MethodDescriptor), (#[] : Array OptionDecl))
  let options ← interpretOptions serviceOptions (path ++ [3]) full decls.toList
  return { name := some s.name.value, method := methods.toList, options := options }

def imports (is : List Import) : CompileM (List String × List Int × List Int) := do
  let (deps, pub, weak) ← is.zipIdx.foldlM (fun (deps, pub, weak) (i, k) => do
    locateDecl [3, (k : Int)] i.decl
    match i.kind with
    | .exported =>
      locate [10, (pub.size : Int)] i.decl.span
      return (deps.push i.path.value, pub.push (k : Int), weak)
    | .weak =>
      locate [11, (weak.size : Int)] i.decl.span
      return (deps.push i.path.value, pub, weak.push (k : Int))
    | .normal => return (deps.push i.path.value, pub, weak))
    ((#[] : Array String), (#[] : Array Int), (#[] : Array Int))
  return (deps.toList, pub.toList, weak.toList)

/-- The descriptor of the compiled file. -/
def file : CompileM FileDescriptor := do
  let ctx ← read
  let s := ctx.file.schema
  let package := (s.package.map (·.name.value)).getD ""
  locate [] s.span
  if let some d := s.dialectDecl then locateDecl [12] d
  if let some p := s.package then locateDecl [2] p.decl
  let (dependency, publicDependency, weakDependency) ← imports s.imports
  let options ← interpretOptions fileOptions [8] package s.options
  let messages ← s.messages.foldlM (fun (acc : Array MessageDescriptor) m => do
    return acc.push (← message [4, (acc.size : Int)] package m)) #[]
  let enums ← s.enums.foldlM (fun (acc : Array EnumDescriptor) e => do
    return acc.push (← enumeration [5, (acc.size : Int)] package e)) #[]
  let services ← s.services.foldlM (fun (acc : Array ServiceDescriptor) svc => do
    return acc.push (← service [6, (acc.size : Int)] package svc)) #[]
  let (extensions, messages) ← s.extendBlocks.foldlM (fun acc x => extendBlock [7] [4] package x acc)
    ((#[] : Array FieldDescriptor), messages)
  let locations := (← get).locations.toList
  return { name := some ctx.file.name, package := s.package.map (·.name.value),
           dependency, messageType := messages.toList, enumType := enums.toList,
           service := services.toList, extension := extensions.toList, options := options,
           sourceCodeInfo := if ctx.sourceInfo then some (sortLocations locations) else none,
           publicDependency, weakDependency,
           dialect := if ctx.proto3 then some "proto3" else none }

end CompileM

/-- Compile a parsed file: its descriptor and the annotations found. -/
def compileFile (ctx : CompileContext) : FileDescriptor × List Annotation :=
  let (fd, st) := (CompileM.file.run ctx).run {}
  (fd, st.annotations.toList)

end ProtoSchema
