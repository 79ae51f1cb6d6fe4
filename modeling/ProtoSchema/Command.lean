import ProtoSchema.Build.Run
import ProtoSchema.Image.Wire

/-!
The command line of the image builder, as data. `build` compiles the schema
files of an input directory into an image (or a plain descriptor set) and
reports the annotations; `ls-files` lists the names of the files a build would
compile. Reading the arguments and running a command are pure: the caller
loads the input directory into a bucket, reads a configuration file if one is
named, and carries out the `Outcome` (what to print, what to write, the exit
status).

Main definitions: `Command`, `Command.parse`, `Command.run` and `Outcome`.
-/

namespace ProtoSchema

def annotationsExitCode : UInt8 := 100

/-- Where the input files and the file set options come from. -/
structure InputArgs where
  /-- The directory holding the sources. -/
  input : String := "."
  /-- A configuration file path or inline configuration text. -/
  config : Option String := none
  /-- Files or directories to narrow the build to, relative to the input. -/
  paths : List String := []
  deriving Repr, Inhabited

/-- The settings of the `build` command. -/
structure BuildArgs where
  input : InputArgs := {}
  /-- Where to write the result: a file, or `-` for standard output; nothing when absent. -/
  output : Option String := none
  asDescriptorSet : Bool := false
  excludeImports : Bool := false
  excludeSourceInfo : Bool := false
  errorFormat : ErrorFormat := .text
  deriving Repr, Inhabited

/-- A command line, read. -/
inductive Command where
  | build (args : BuildArgs)
  | listFiles (args : InputArgs)
  | help
  | version
  deriving Repr, Inhabited

def usageText : String := String.intercalate "\n" [
  "Build protobuf Images from .proto sources",
  "",
  "Usage: protoimage [OPTIONS] <COMMAND>",
  "",
  "Commands:",
  "  build     Compile the input into an Image",
  "  ls-files  Print the root-relative path of every file in the file set",
  "  help      Print this message or the help of the given subcommand(s)",
  "",
  "Options:",
  "  -v, --verbose  Log at debug level (overridden by PROTOIMAGE_LOG)",
  "  -h, --help     Print help",
  "  -V, --version  Print version",
  ""]

def versionText : String := "protoimage 0.6.0\n"

/-- What running a command asks of the caller, in this order: write `written`,
print `stdout` and `stderr`, and exit with `exitCode`. -/
structure Outcome where
  stdout : List UInt8 := []
  stderr : String := ""
  /-- A file to write: its path and bytes. -/
  written : Option (String × List UInt8) := none
  exitCode : UInt8 := 0
  deriving Inhabited

namespace Outcome

def failure (message : String) (cause : Option String := none) : Outcome :=
  let text := match cause with
    | none => "Error: " ++ message ++ "\n"
    | some c => "Error: " ++ message ++ "\n\nCaused by:\n    " ++ c ++ "\n"
  { stderr := text, exitCode := 1 }

def usageError (message : String) : Outcome :=
  { stderr := "error: " ++ message ++ "\n\nFor more information, try \x27--help\x27.\n", exitCode := 2 }

def printed (text : String) : Outcome := { stdout := text.toUTF8.toList }

end Outcome

namespace Command

def optionValue (name : String) (inline : Option String) (rest : List String) :
    Except String (String × List String) :=
  match inline, rest with
  | some v, _ => .ok (v, rest)
  | none, v :: rest => .ok (v, rest)
  | none, [] => .error ("a value is required for \x27" ++ name ++ "\x27 but none was supplied")

def splitInline (arg : String) : String × Option String :=
  match arg.splitOn "=" with
  | name :: v :: more => if name.startsWith "--" then (name, some ("=".intercalate (v :: more))) else (arg, none)
  | _ => (arg, none)

def buildArgs : Nat → List String → Bool → BuildArgs → Except String BuildArgs
  | 0, _, _, b => .ok b
  | _ + 1, [], _, b => .ok b
  | fuel + 1, arg :: rest, seen, b =>
    let (name, inline) := splitInline arg
    if name = "--config" then do
      let (v, rest) ← optionValue "--config <CONFIG>" inline rest
      buildArgs fuel rest seen { b with input := { b.input with config := some v } }
    else if name = "--path" then do
      let (v, rest) ← optionValue "--path <PATHS>" inline rest
      buildArgs fuel rest seen { b with input := { b.input with paths := b.input.paths ++ [v] } }
    else if name = "-o" || name = "--output" then do
      let (v, rest) ← optionValue "--output <OUTPUT>" inline rest
      buildArgs fuel rest seen { b with output := some v }
    else if name = "--error-format" then do
      let (v, rest) ← optionValue "--error-format <ERROR_FORMAT>" inline rest
      match ErrorFormat.ofString v with
      | .ok f => buildArgs fuel rest seen { b with errorFormat := f }
      | .error e => .error ("invalid value \x27" ++ v ++ "\x27 for \x27--error-format <ERROR_FORMAT>\x27: " ++ e)
    else if arg = "--as-file-descriptor-set" then buildArgs fuel rest seen { b with asDescriptorSet := true }
    else if arg = "--exclude-imports" then buildArgs fuel rest seen { b with excludeImports := true }
    else if arg = "--exclude-source-info" then buildArgs fuel rest seen { b with excludeSourceInfo := true }
    else if arg = "-v" || arg = "--verbose" then buildArgs fuel rest seen b
    else if arg.startsWith "-" && arg != "-" then .error ("unexpected argument \x27" ++ arg ++ "\x27 found")
    else if seen then .error ("unexpected argument \x27" ++ arg ++ "\x27 found")
    else buildArgs fuel rest true { b with input := { b.input with input := arg } }

def listArgs (args : List String) : Except String InputArgs := do
  let b ← buildArgs (args.length + 1) args false {}
  if b.output.isSome || b.asDescriptorSet || b.excludeImports || b.excludeSourceInfo then
    .error "unexpected argument found"
  return b.input

/-- Read a command line (without the program name). -/
def parse (args : List String) : Except String Command :=
  match args.filter (fun a => a != "-v" && a != "--verbose") with
  | [] => .error "\x27protoimage\x27 requires a subcommand but one was not provided"
  | "build" :: rest =>
    if rest.contains "-h" || rest.contains "--help" then .ok .help
    else (buildArgs (rest.length + 1) rest false {}).map .build
  | "ls-files" :: rest =>
    if rest.contains "-h" || rest.contains "--help" then .ok .help
    else (listArgs rest).map .listFiles
  | "help" :: _ => .ok .help
  | "-h" :: _ => .ok .help
  | "--help" :: _ => .ok .help
  | "-V" :: _ => .ok .version
  | "--version" :: _ => .ok .version
  | other :: _ => .error ("unrecognized subcommand \x27" ++ other ++ "\x27")

end Command

/-- Where a build configuration comes from. -/
inductive ConfigSource where
  /-- The configuration file of the input directory, if it has one. -/
  | bucket
  /-- A configuration file named on the command line, with its text. -/
  | file (path text : String)
  /-- Configuration text given on the command line. -/
  | inline (text : String)
  deriving Repr, Inhabited

def InputArgs.options (args : InputArgs) (bucket : Bucket) (source : ConfigSource) :
    Except (String × String) FileSetOptions := do
  let cfg ← match source with
    | .bucket => (BuildConfig.ofBucket bucket).mapError fun e => ("failed to load " ++ configFileName, e.message)
    | .file path text => (BuildConfig.ofYaml text).mapError fun e => ("invalid config " ++ path, e.message)
    | .inline text => (BuildConfig.ofYaml text).mapError fun e => ("invalid inline config", e.message)
  return { FileSetOptions.ofConfig cfg with paths := args.paths }

/-- Build and report: annotations go to standard error with the annotations
status, and nothing is written; otherwise the image or descriptor set is written
where `output` says. -/
def BuildArgs.run (b : BuildArgs) (bucket : Bucket) (source : ConfigSource) : Outcome :=
  match b.input.options bucket source with
  | .error (context, cause) => .failure context (some cause)
  | .ok opts =>
    match FileSet.resolve bucket opts with
    | .error e => .failure e.message
    | .ok fs =>
      match runBuild bucket fs (!b.excludeImports) (!b.excludeSourceInfo) false with
      | .error e => .failure e.message
      | .ok r =>
        if !r.annotations.isEmpty then
          { stderr := Annotation.print b.errorFormat r.annotations, exitCode := annotationsExitCode }
        else
          let bytes := if b.asDescriptorSet then encodeDescriptorSet r.image.descriptors
            else r.image.encode
          match b.output with
          | none => {}
          | some "-" => { stdout := bytes }
          | some path =>
            { written := some (path, bytes),
              stderr := "wrote " ++ path ++ " (" ++ toString r.image.size ++ " files)\n" }

def InputArgs.listFiles (args : InputArgs) (bucket : Bucket) (source : ConfigSource) : Outcome :=
  match args.options bucket source with
  | .error (context, cause) => .failure context (some cause)
  | .ok opts =>
    match FileSet.resolve bucket opts with
    | .error e => .failure e.message
    | .ok fs => .printed (String.join (fs.files.map (·.name ++ "\n")))

/-- Run a command on the loaded input. -/
def Command.run (bucket : Bucket) (source : ConfigSource) : Command → Outcome
  | .build b => b.run bucket source
  | .listFiles a => a.listFiles bucket source
  | .help => .printed usageText
  | .version => .printed versionText

def Command.input? : Command → Option InputArgs
  | .build b => some b.input
  | .listFiles a => some a
  | _ => none

end ProtoSchema
