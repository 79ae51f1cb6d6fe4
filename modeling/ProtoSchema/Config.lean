import ProtoSchema.Yaml.Document
import ProtoSchema.Bucket
import ProtoSchema.Text.Characters
import ProtoSchema.Text.Utf8

/-!
Build configuration: an optional version, which must be `v1`, and a build
section naming the roots to search for schema files and the paths to leave
out. It is read from a YAML document whose only keys are `version` and
`build`, the build section's only keys `roots` and `excludes`. Either
record may also be left empty. An empty text is the default configuration, and no roots
means the one root `.`.

Main definitions: `BuildConfig`, `BuildConfig.ofYaml` and
`BuildConfig.ofBucket`.
-/

namespace ProtoSchema

def configFileName : String := "protoimage.yaml"

/-- A build configuration. -/
structure BuildConfig where
  version : Option String := none
  roots : List String := ["."]
  excludes : List String := []
  deriving DecidableEq, Repr, Inhabited

/-- Why a configuration cannot be read. -/
inductive ConfigError where
  /-- The text is not a YAML document of the configuration's shape. -/
  | yaml (reason : String)
  | unsupportedVersion (version : String)
  | bucket (cause : BucketError)
  deriving Repr, Inhabited

namespace ConfigError

def message : ConfigError → String
  | .yaml reason => "invalid config: " ++ reason
  | .unsupportedVersion v => "unsupported config version " ++ Quoted.quote v
  | .bucket e => e.message

end ConfigError

namespace BuildConfig

open Yaml

def isNullWord (t : String) : Bool := t = "~" || t = "null" || t = "Null" || t = "NULL"

def nullTag : List UInt8 := "tag:yaml.org,2002:null".toUTF8.toList

def nodeStart (d : Document) (i : Nat) : Except String Nat :=
  match d.items[i]? with
  | some (.alias id) =>
    match d.anchors.lookup id with
    | some q => .ok q
    | none => .error "unresolved alias"
  | some _ => .ok i
  | none => .error "unexpected end of document"

def node {α : Type} (d : Document) (read : Nat → Except String (α × Nat)) (i : Nat) :
    Except String (α × Nat) := do
  let q ← nodeStart d i
  let (a, next) ← read q
  return (a, if q = i then next else i + 1)

def text (d : Document) : Nat → Except String (String × Nat) :=
  node d fun q => match d.items[q]? with
    | some (.scalar _ t _) => .ok (t, q + 1)
    | _ => .error "expected a string"

def optionalText (d : Document) : Nat → Except String (Option String × Nat) :=
  node d fun q => match d.items[q]? with
    | some (.scalar tag t style) =>
      if style ≠ .plain then .ok (some t, q + 1)
      else match tag with
        | some tg =>
          if tg = nullTag then
            if isNullWord t then .ok (none, q + 1) else .error "expected null"
          else .ok (some t, q + 1)
        | none => .ok (if t.isEmpty || isNullWord t then none else some t, q + 1)
    | _ => .error "expected a string"

def textItems (d : Document) : Nat → List String → Nat → Except String (List String × Nat)
  | 0, _, _ => .error "unexpected end of document"
  | n + 1, acc, j =>
    match d.items[j]? with
    | some .sequenceEnd => .ok (acc.reverse, j + 1)
    | _ => do
      let (t, j) ← text d j
      textItems d n (t :: acc) j

def textList (d : Document) : Nat → Except String (List String × Nat) :=
  node d fun q => match d.items[q]? with
    | some (.sequenceStart _) => textItems d d.items.size [] (q + 1)
    | some (.scalar _ "" .plain) => .ok ([], q + 1)
    | _ => .error "expected a sequence"

abbrev FieldReader (α : Type) := α → Nat → Except String (α × Nat)

def mapFields {α : Type} (d : Document) (field : String → Option (FieldReader α)) :
    Nat → List String → α → Nat → Except String (α × Nat)
  | 0, _, _, _ => .error "unexpected end of document"
  | n + 1, seen, a, j =>
    match d.items[j]? with
    | some .mappingEnd => .ok (a, j + 1)
    | _ => do
      let (name, j) ← text d j
      match field name with
      | none => throw ("unknown field " ++ name)
      | some read =>
        if seen.contains name then throw ("duplicate field " ++ name)
        let (a, j) ← read a j
        mapFields d field n (name :: seen) a j

def record {α : Type} (d : Document) (fields : List (String × FieldReader α)) (init : α) :
    Nat → Except String (α × Nat) :=
  node d fun q => match d.items[q]? with
    | some (.mappingStart _) => mapFields d (fields.lookup ·) d.items.size [] init (q + 1)
    | some (.scalar _ "" .plain) => .ok (init, q + 1)
    | some .void => .ok (init, q + 1)
    | _ => .error "expected a mapping"

def buildSection (d : Document) : Nat → Except String ((List String × List String) × Nat) :=
  record d [("roots", fun (_, ex) j => do
      let (roots, j) ← textList d j
      return ((roots, ex), j)),
    ("excludes", fun (roots, _) j => do
      let (ex, j) ← textList d j
      return ((roots, ex), j))] (["."], [])

def ofDocument (d : Document) : Except String BuildConfig := do
  let (cfg, _) ← record d [("version", fun (c : BuildConfig) j => do
      let (v, j) ← optionalText d j
      return ({ c with version := v }, j)),
    ("build", fun c j => do
      let ((roots, excludes), j) ← buildSection d j
      return ({ c with roots, excludes }, j))] {} 0
  return cfg

/-- Read a configuration from YAML text. Blank text is the default; a version other
than `v1` is refused; no roots means the root `.`. -/
def ofYaml (text : String) : Except ConfigError BuildConfig := do
  if text.toList.all ProtoSchema.isBlank then return {}
  let cfg ← match Document.ofText text >>= ofDocument with
    | .ok c => pure c
    | .error reason => throw (.yaml reason)
  if let some v := cfg.version then
    if v ≠ "v1" then throw (.unsupportedVersion v)
  return if cfg.roots.isEmpty then { cfg with roots := ["."] } else cfg

/-- Read the configuration file at the bucket root, or the defaults when there is none. -/
def ofBucket (bucket : Bucket) : Except ConfigError BuildConfig :=
  match bucket.get configFileName with
  | .ok bytes => ofYaml (Utf8.decodeLossy bytes)
  | .error (.notFound _) => .ok {}
  | .error e => .error (.bucket e)

end BuildConfig

end ProtoSchema
