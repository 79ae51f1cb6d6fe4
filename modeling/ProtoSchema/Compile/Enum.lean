import ProtoSchema.Compile.Field

/-!
Enums: their values with 32-bit numbers and options, reserved ranges (both
ends included) and names, and options. An enum needs a value; in proto3 the
first value is zero; two values share a number only under
`allow_alias = true`, which then must be used; no value may use a reserved
number or name.

Main definition: `CompileM.enumeration`.
-/

namespace ProtoSchema

namespace CompileM

/-- What an enum body builds: the descriptor parts and the spans of the value names. -/
structure EnumBuild where
  values : Array EnumValueDescriptor := #[]
  spans : Array Span := #[]
  reservedRanges : Array ReservedRange := #[]
  reservedNames : Array String := #[]
  optionDecls : Array OptionDecl := #[]
  deriving Inhabited

def enumElement (path : List Int) (scope : String) (b : EnumBuild) : EnumElement → CompileM EnumBuild
  | .value v => do
    let vpath := path ++ [2, (b.values.size : Int)]
    locateDecl vpath v.decl
    locate (vpath ++ [1]) v.name.span
    locate (vpath ++ [2]) v.number.span
    let n := v.number.value
    let number ← if -(Int.pow 2 31) ≤ n ∧ n < Int.pow 2 31 then pure n else do
      report v.number.span "Integer out of range."
      pure 0
    let options ← interpretOptions enumValueOptions (vpath ++ [3]) (qualify scope v.name.value) v.options
    return { b with values := b.values.push { name := some v.name.value, number := some number, options },
                    spans := b.spans.push v.name.span }
  | .reserved ⟨.ranges rs, decl⟩ => do
    locateDecl (path ++ [4]) decl
    rs.foldlM (fun b r => do
      rangeLocations (path ++ [4, (b.reservedRanges.size : Int)]) r
      let start := r.start.value
      let stop := match r.stop with
        | none => start
        | some ⟨none, _⟩ => Int.pow 2 31 - 1
        | some ⟨some e, _⟩ => e
      if stop < start then report r.span "Reserved range end number must be greater than start number."
      let range : ReservedRange := { start := some (clampInt32 start), stop := some (clampInt32 stop) }
      return { b with reservedRanges := b.reservedRanges.push range }) b
  | .reserved ⟨.names ns, decl⟩ => do
    locateDecl (path ++ [5]) decl
    ns.foldlM (fun b n => do
      locate (path ++ [5, (b.reservedNames.size : Int)]) n.span
      return { b with reservedNames := b.reservedNames.push n.value }) b
  | .option o => return { b with optionDecls := b.optionDecls.push o }

def validateEnum (full : String) (name : Spanned String) (e : EnumDescriptor) (spans : List Span) :
    CompileM Unit := do
  match e.value, spans with
  | [], _ => report name.span "Enums must contain at least one value."
  | first :: _, firstSpan :: _ =>
    if (← read).proto3 && first.number.getD 0 ≠ 0 then
      report firstSpan "The first enum value must be zero in proto3."
    let allowAlias := (e.options.bind (·.allowAlias)) = some true
    let (_, aliased) ← (e.value.zip spans).foldlM (fun (byNumber, aliased) (v, span) => do
      let number := v.number.getD 0
      let vname := v.name.getD ""
      let (byNumber, aliased) ← match byNumber.find? (·.1 = number) with
        | some (_, firstName) => do
          if !allowAlias then
            report span ("\"" ++ vname ++ "\" uses the same enum value as \"" ++ firstName ++
              "\". If this is intended, set \x27option allow_alias = true;\x27 to the enum definition.")
          pure (byNumber, true)
        | none => pure (byNumber ++ [(number, vname)], aliased)
      if e.reservedRange.any fun r => r.start.getD 0 ≤ number && number ≤ r.stop.getD 0 then
        report span ("Enum value \"" ++ vname ++ "\" uses reserved number " ++ toString number ++ ".")
      if e.reservedName.contains vname then
        report span ("Enum value \"" ++ vname ++ "\" is reserved.")
      return (byNumber, aliased)) (([] : List (Int × String)), false)
    if allowAlias && !aliased then
      report name.span ("\"" ++ full ++ "\" declares support for enum aliases but no enum values share " ++
        "field numbers. Please remove the unnecessary \x27option allow_alias = true;\x27 declaration.")
  | _ :: _, [] => pure ()

/-- An enum at `path` declared in `scope`. -/
def enumeration (path : List Int) (scope : String) (e : Enum) : CompileM EnumDescriptor := do
  let full := qualify scope e.name.value
  locateDecl path e.decl
  locate (path ++ [1]) e.name.span
  let b ← e.body.foldlM (enumElement path scope) {}
  let options ← interpretOptions enumOptions (path ++ [3]) full b.optionDecls.toList
  let out : EnumDescriptor := {
    name := some e.name.value, value := b.values.toList, options := options,
    reservedRange := b.reservedRanges.toList, reservedName := b.reservedNames.toList }
  validateEnum full e.name out b.spans.toList
  return out

end CompileM

end ProtoSchema
