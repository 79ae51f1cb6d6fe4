import ProtoSchema.Source.Ast
import ProtoSchema.Descriptor.FieldType
import ProtoSchema.Number.Decimal
import ProtoSchema.Text.Utf8

/-!
Default values of fields as descriptors hold them: as text. Integers are
checked against the range of their type and written in decimal; floating
values are written by `shortestG`; booleans and enum values as their names;
strings as they are; bytes with C escapes (`\n`, `\"`, `\377`, …).

Main definitions: `defaultValueText` and `cEscape`.
-/

namespace ProtoSchema

def signedDefault (bits : Nat) : OptionValue → Except String String
  | .int true m =>
    if m > Nat.pow 2 (bits - 1) then .error "Integer out of range."
    else .ok (toString (wrapInt64 (-(m : Int))))
  | .int false m =>
    if m > Nat.pow 2 (bits - 1) - 1 then .error "Integer out of range." else .ok (toString m)
  | _ => .error "Expected integer."

def unsignedDefault (bits : Nat) : OptionValue → Except String String
  | .int true _ => .error "Unsigned field can\x27t have negative default value."
  | .int false m => if m > Nat.pow 2 bits - 1 then .error "Integer out of range." else .ok (toString m)
  | _ => .error "Expected integer."

def octalEscape (b : Nat) : List Char :=
  ['\\', Char.ofNat (48 + b / 64 % 8), Char.ofNat (48 + b / 8 % 8), Char.ofNat (48 + b % 8)]

def cEscapeByte (b : UInt8) : List Char :=
  match b.toNat with
  | 10 => ['\\', 'n']
  | 13 => ['\\', 'r']
  | 9 => ['\\', 't']
  | 34 => ['\\', '"']
  | 39 => ['\\', '\x27']
  | 92 => ['\\', '\\']
  | n => if 0x20 ≤ n ∧ n ≤ 0x7e then [Char.ofNat n] else octalEscape n

/-- The C-escaped text of bytes. -/
def cEscape (bs : List UInt8) : String := String.ofList (bs.flatMap cEscapeByte)

/-- The default value text of a field of type `ty` written as `value`; `enumValues`
are the value names of the field's enum type, when known. -/
def defaultValueText (ty : FieldType) (value : OptionValue) (enumValues : Option (List String)) :
    Except String String :=
  match ty with
  | .int32 | .sint32 | .sfixed32 => signedDefault 32 value
  | .int64 | .sint64 | .sfixed64 => signedDefault 64 value
  | .uint32 | .fixed32 => unsignedDefault 32 value
  | .uint64 | .fixed64 => unsignedDefault 64 value
  | .float | .double =>
    match value with
    | .int negative m =>
      let v := Binary64.ofNat m
      .ok (shortestG (if negative then v.neg else v))
    | .float v => .ok (shortestG v)
    | .ident "inf" => .ok "inf"
    | .ident "nan" => .ok "nan"
    | _ => .error "Expected number."
  | .bool =>
    match value with
    | .ident "true" => .ok "true"
    | .ident "false" => .ok "false"
    | _ => .error "Expected \"true\" or \"false\"."
  | .string =>
    match value with
    | .str bs =>
      match Utf8.decode? bs with
      | some s => .ok s
      | none => .error "String default value is not valid UTF-8."
    | _ => .error "Expected string."
  | .bytes =>
    match value with
    | .str bs => .ok (cEscape bs)
    | _ => .error "Expected string."
  | .enum =>
    match value with
    | .ident id =>
      if enumValues.all (·.contains id) then .ok id
      else .error ("Enum type has no value named \"" ++ id ++ "\".")
    | _ => .error "Default value for an enum field must be an identifier."
  | .message | .group => .error "Messages can\x27t have default values."

end ProtoSchema
