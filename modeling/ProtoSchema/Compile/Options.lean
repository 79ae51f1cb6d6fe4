import ProtoSchema.Compile.Context
import ProtoSchema.Text.Utf8

/-!
Option statements. A standard option (`java_package`, `deprecated`,
`packed`, …) sets a typed field of the options message of its element; its
value must have the field's kind. A custom option (`(acme.meta).owner = "x"`)
must name an extension of that options message, resolved from the element's
scope; it is kept uninterpreted, its first name part replaced by the
extension's full name. An element with option statements has an options
message even when every statement failed.

Main definitions: `OptionsSchema`, the schemas `fileOptions` …
`methodOptions`, and `CompileM.interpretOptions`.
-/

namespace ProtoSchema

/-- How the options message of one kind of element takes option statements. -/
structure OptionsSchema (α : Type) where
  /-- The full name of the options message. -/
  fullName : String
  /-- Set the standard option of a name: its field number and the new message,
  `none` when there is no such option, or the error for a value of the wrong kind. -/
  set : α → String → OptionValue → Except String (Option (α × Int))
  /-- Add an uninterpreted option. -/
  addUninterpreted : α → UninterpretedOption → α

def boolOption (name : String) : OptionValue → Except String Bool
  | .ident "true" => .ok true
  | .ident "false" => .ok false
  | _ => .error ("Value must be \"true\" or \"false\" for boolean option \"" ++ name ++ "\".")

def stringOption (name : String) : OptionValue → Except String String
  | .str bs =>
    match Utf8.decode? bs with
    | some s => .ok s
    | none => .error ("Value for string option \"" ++ name ++ "\" is not valid UTF-8.")
  | _ => .error ("Value must be quoted string for string option \"" ++ name ++ "\".")

def enumOption (name enumName : String) (values : List (String × Int)) :
    OptionValue → Except String Int
  | .ident id =>
    match values.find? (·.1 = id) with
    | some (_, n) => .ok n
    | none => .error ("Enum type \"" ++ enumName ++ "\" has no value named \"" ++ id ++
        "\" for option \"" ++ name ++ "\".")
  | _ => .error ("Value must be identifier for enum-valued option \"" ++ name ++ "\".")

def setWith {α β : Type} (read : OptionValue → Except String β) (v : OptionValue) (number : Int)
    (put : β → α) : Except String (Option (α × Int)) := do
  return some (put (← read v), number)

/-- File options. -/
def fileOptions : OptionsSchema FileOptions where
  fullName := "google.protobuf.FileOptions"
  set o name v :=
    let str := setWith (stringOption name) v
    let bool := setWith (boolOption name) v
    match name with
    | "java_package" => str 1 fun x => { o with javaPackage := some x }
    | "java_outer_classname" => str 8 fun x => { o with javaOuterClassname := some x }
    | "optimize_for" =>
      setWith (enumOption name "google.protobuf.FileOptions.OptimizeMode"
        [("SPEED", 1), ("CODE_SIZE", 2), ("LITE_RUNTIME", 3)]) v 9 fun x => { o with optimizeFor := some x }
    | "java_multiple_files" => bool 10 fun x => { o with javaMultipleFiles := some x }
    | "go_package" => str 11 fun x => { o with goPackage := some x }
    | "cc_generic_services" => bool 16 fun x => { o with ccGenericServices := some x }
    | "java_generic_services" => bool 17 fun x => { o with javaGenericServices := some x }
    | "py_generic_services" => bool 18 fun x => { o with pyGenericServices := some x }
    | "java_generate_equals_and_hash" => bool 20 fun x => { o with javaGenerateEqualsAndHash := some x }
    | "deprecated" => bool 23 fun x => { o with deprecated := some x }
    | "java_string_check_utf8" => bool 27 fun x => { o with javaStringCheckUtf8 := some x }
    | "cc_enable_arenas" => bool 31 fun x => { o with ccEnableArenas := some x }
    | "objc_class_prefix" => str 36 fun x => { o with objcClassPrefix := some x }
    | "csharp_namespace" => str 37 fun x => { o with csharpNamespace := some x }
    | "swift_prefix" => str 39 fun x => { o with swiftPrefix := some x }
    | "php_class_prefix" => str 40 fun x => { o with phpClassPrefix := some x }
    | "php_namespace" => str 41 fun x => { o with phpNamespace := some x }
    | "php_generic_services" => bool 42 fun x => { o with phpGenericServices := some x }
    | "php_metadata_namespace" => str 44 fun x => { o with phpMetadataNamespace := some x }
    | "ruby_package" => str 45 fun x => { o with rubyPackage := some x }
    | _ => .ok none
  addUninterpreted o u := { o with uninterpretedOption := o.uninterpretedOption ++ [u] }

def messageOptions : OptionsSchema MessageOptions where
  fullName := "google.protobuf.MessageOptions"
  set o name v :=
    let bool := setWith (boolOption name) v
    match name with
    | "message_set_wire_format" => bool 1 fun x => { o with messageSetWireFormat := some x }
    | "no_standard_descriptor_accessor" => bool 2 fun x => { o with noStandardDescriptorAccessor := some x }
    | "deprecated" => bool 3 fun x => { o with deprecated := some x }
    | "map_entry" => bool 7 fun x => { o with mapEntry := some x }
    | _ => .ok none
  addUninterpreted o u := { o with uninterpretedOption := o.uninterpretedOption ++ [u] }

def fieldOptions : OptionsSchema FieldOptions where
  fullName := "google.protobuf.FieldOptions"
  set o name v :=
    let bool := setWith (boolOption name) v
    match name with
    | "ctype" =>
      setWith (enumOption name "google.protobuf.FieldOptions.CType"
        [("STRING", 0), ("CORD", 1), ("STRING_PIECE", 2)]) v 1 fun x => { o with ctype := some x }
    | "packed" => bool 2 fun x => { o with packed := some x }
    | "deprecated" => bool 3 fun x => { o with deprecated := some x }
    | "lazy" => bool 5 fun x => { o with lazy := some x }
    | "jstype" =>
      setWith (enumOption name "google.protobuf.FieldOptions.JSType"
        [("JS_NORMAL", 0), ("JS_STRING", 1), ("JS_NUMBER", 2)]) v 6 fun x => { o with jstype := some x }
    | "weak" => bool 10 fun x => { o with weak := some x }
    | _ => .ok none
  addUninterpreted o u := { o with uninterpretedOption := o.uninterpretedOption ++ [u] }

def plainOptions (fullName : String) : OptionsSchema PlainOptions where
  fullName := fullName
  set _ _ _ := .ok none
  addUninterpreted o u := { o with uninterpretedOption := o.uninterpretedOption ++ [u] }

def oneofOptions : OptionsSchema PlainOptions := plainOptions "google.protobuf.OneofOptions"

def extensionRangeOptions : OptionsSchema PlainOptions :=
  plainOptions "google.protobuf.ExtensionRangeOptions"

def enumOptions : OptionsSchema EnumOptions where
  fullName := "google.protobuf.EnumOptions"
  set o name v :=
    let bool := setWith (boolOption name) v
    match name with
    | "allow_alias" => bool 2 fun x => { o with allowAlias := some x }
    | "deprecated" => bool 3 fun x => { o with deprecated := some x }
    | _ => .ok none
  addUninterpreted o u := { o with uninterpretedOption := o.uninterpretedOption ++ [u] }

def enumValueOptions : OptionsSchema EnumValueOptions where
  fullName := "google.protobuf.EnumValueOptions"
  set o name v :=
    match name with
    | "deprecated" => setWith (boolOption name) v 1 fun x => { o with deprecated := some x }
    | _ => .ok none
  addUninterpreted o u := { o with uninterpretedOption := o.uninterpretedOption ++ [u] }

def serviceOptions : OptionsSchema ServiceOptions where
  fullName := "google.protobuf.ServiceOptions"
  set o name v :=
    match name with
    | "deprecated" => setWith (boolOption name) v 33 fun x => { o with deprecated := some x }
    | _ => .ok none
  addUninterpreted o u := { o with uninterpretedOption := o.uninterpretedOption ++ [u] }

/-- Method options. -/
def methodOptions : OptionsSchema MethodOptions where
  fullName := "google.protobuf.MethodOptions"
  set o name v :=
    match name with
    | "deprecated" => setWith (boolOption name) v 33 fun x => { o with deprecated := some x }
    | "idempotency_level" =>
      setWith (enumOption name "google.protobuf.MethodOptions.IdempotencyLevel"
        [("IDEMPOTENCY_UNKNOWN", 0), ("NO_SIDE_EFFECTS", 1), ("IDEMPOTENT", 2)]) v 34
        fun x => { o with idempotencyLevel := some x }
    | _ => .ok none
  addUninterpreted o u := { o with uninterpretedOption := o.uninterpretedOption ++ [u] }

def wrapInt32 (n : Int) : Int := (n + Int.pow 2 31) % Int.pow 2 32 - Int.pow 2 31

def uninterpretedOf (parts : List NamePart) : OptionValue → UninterpretedOption
  | .ident id => { name := parts, identifierValue := some id }
  | .int false m => { name := parts, positiveIntValue := some m }
  | .int true m =>
    if m ≤ Nat.pow 2 63 then { name := parts, negativeIntValue := some (-(m : Int)) }
    else { name := parts, doubleValue := some (Binary64.ofNat m).neg }
  | .float v => { name := parts, doubleValue := some v }
  | .str bs => { name := parts, stringValue := some bs }
  | .aggregate t => { name := parts, aggregateValue := some t }

namespace CompileM

def resolveCustomOption (optionsName scope : String) (decl : OptionDecl) (first : OptionNamePart) :
    CompileM (Option (String × Int)) := do
  let ctx ← read
  match ctx.table.lookup first.name (qualify scope "option") false (some ctx.visible) with
  | .notImported full file =>
    let definedIn := (ctx.files[file]?.map (·.name)).getD ""
    report first.span (notImportedMessage full definedIn ctx.file.name)
    return none
  | .notFound _ =>
    report first.span ("Option \"" ++ decl.nameText ++ "\" unknown. Ensure that your proto " ++
      "definition file imports the proto which defines the option.")
    return none
  | .found full s =>
    match s.info with
    | .extension extendee extensionScope number =>
      match ctx.table.lookup extendee extensionScope true none with
      | .found extendeeFull _ =>
        if extendeeFull ≠ optionsName then
          let short := ((optionsName.splitOn ".").getLast?).getD optionsName
          report first.span ("\"" ++ full ++ "\" is not a field or extension of message \"" ++ short ++ "\".")
          return none
        return some (full, wrapInt32 number)
      | _ => return none
    | _ =>
      let what := if s.kind = .field then "a regular field" else "not an extension"
      report first.span ("Option \"(" ++ full ++ ")\" is " ++ what ++ "; custom options must be extensions.")
      return none

def interpretOne {α : Type} (schema : OptionsSchema α) (path : List Int) (scope : String)
    (o : α) (seen : List String) (decl : OptionDecl) : CompileM (α × List String) := do
  match decl.name with
  | [] => return (o, seen)
  | first :: rest =>
    let nameText := decl.nameText
    if !first.isExtension then
      if !rest.isEmpty then
        report decl.nameSpan ("Option \"" ++ first.name ++ "\" is not a message type.")
        return (o, seen)
      match schema.set o first.name decl.value.value with
      | .ok (some (o', number)) =>
        if seen.contains nameText then
          report decl.nameSpan ("Option \"" ++ nameText ++ "\" was already set.")
          return (o', seen)
        locateDecl (path ++ [number]) decl.decl
        return (o', nameText :: seen)
      | .ok none =>
        report decl.nameSpan ("Option \"" ++ nameText ++ "\" unknown.")
        return (o, seen)
      | .error message =>
        report decl.value.span message
        return (o, seen)
    else
      match ← resolveCustomOption schema.fullName scope decl first with
      | none => return (o, seen)
      | some (full, number) =>
        if rest.isEmpty && seen.contains full then
          report decl.nameSpan ("Option \"" ++ nameText ++ "\" was already set.")
          return (o, seen)
        let seen := if rest.isEmpty then full :: seen else seen
        let parts := ⟨full, true⟩ :: rest.map fun p => ⟨p.name, p.isExtension⟩
        locateDecl (path ++ [number]) decl.decl
        return (schema.addUninterpreted o (uninterpretedOf parts decl.value.value), seen)

/-- Interpret the option statements of the element of full name `scope` into its options
message, recording locations under `path`; `none` when there are no statements. -/
def interpretOptions {α : Type} [Inhabited α] (schema : OptionsSchema α) (path : List Int)
    (scope : String) (decls : List OptionDecl) : CompileM (Option α) := do
  if decls.isEmpty then return none
  let (o, _) ← decls.foldlM (fun (o, seen) d => interpretOne schema path scope o seen d)
    ((default : α), ([] : List String))
  return some o

end CompileM

end ProtoSchema
