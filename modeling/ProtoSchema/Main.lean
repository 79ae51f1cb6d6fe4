import ProtoSchema.Command

/-!
The program: reads the command line, loads the input directory into a bucket,
reads a configuration file when one is named, runs the command and carries
out its outcome. Every decision is made by `Command.run`; this layer only
reads and writes.
-/

namespace ProtoSchema.Main

/-- The files under a directory, depth first, as paths relative to the input
joined with `/`; `rel` is the prefix of the directory itself. -/
partial def collect (dir : String) (rel : String) : IO (List (String × List UInt8)) := do
  let here ← IO.FS.realPath dir
  let mut found : List (String × List UInt8) := []
  for entry in ← here.readDir do
    let path := entry.path
    let name := rel ++ entry.fileName
    if ← path.isDir then
      found := found ++ (← collect path.toString (name ++ "/"))
    else
      let info ← path.metadata
      if info.type == .file then
        found := found ++ [(name, (← IO.FS.readBinFile path).toList)]
  return found

def loadInput (dir : String) : IO (Except String Bucket) := do
  match ← EIO.toBaseIO (collect dir "") with
  | .error e => return .error (toString e)
  | .ok files =>
    match Bucket.ofFiles files with
    | .ok b => return .ok b
    | .error e => return .error e.message

def configSource (args : InputArgs) : IO ConfigSource := do
  match args.config with
  | none => return .bucket
  | some c =>
    match ← EIO.toBaseIO (IO.FS.readFile c) with
    | .ok text => return .file c text
    | .error _ => return .inline c

def perform (o : Outcome) : IO UInt32 := do
  if let some (path, bytes) := o.written then
    match ← EIO.toBaseIO (IO.FS.writeBinFile path (ByteArray.mk bytes.toArray)) with
    | .ok () => pure ()
    | .error e =>
      IO.eprint ("Error: failed to write " ++ path ++ "\n\nCaused by:\n    " ++ toString e ++ "\n")
      return 1
  let out ← IO.getStdout
  out.write (ByteArray.mk o.stdout.toArray)
  out.flush
  IO.eprint o.stderr
  return o.exitCode.toUInt32

end ProtoSchema.Main

open ProtoSchema in
def main (args : List String) : IO UInt32 := do
  match Command.parse args with
  | .error message => Main.perform (Outcome.usageError message)
  | .ok cmd =>
    match cmd.input? with
    | none => Main.perform (cmd.run {} .bucket)
    | some input =>
      match ← Main.loadInput input.input with
      | .error cause =>
        Main.perform (Outcome.failure ("failed to open input " ++ input.input) (some cause))
      | .ok bucket => Main.perform (cmd.run bucket (← Main.configSource input))
