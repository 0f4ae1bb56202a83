import Mathlib.Algebra.Group.Int.Defs
import GrpcWebnext.HttpRule.Template
import GrpcWebnext.Transcode

/-!
# Request messages from the URL

`build_message` lays path variables and query parameters over the message read from the body.
-/

namespace GrpcWebnext
namespace HttpRule
open ProstReflect

inductive Kind (MessageDescriptor EnumDescriptor : Type) where
  | double | float
  | int32 | sint32 | sfixed32
  | int64 | sint64 | sfixed64
  | uint32 | fixed32
  | uint64 | fixed64
  | bool | string | bytes
  | message (desc : MessageDescriptor)
  | enum (desc : EnumDescriptor)

/-- The scalars of `Value` that `coerce` makes. -/
inductive Scalar (F32 F64 : Type) where
  | bool (b : Bool)
  | i32 (n : Int)
  | i64 (n : Int)
  | u32 (n : Nat)
  | u64 (n : Nat)
  | f32 (x : F32)
  | f64 (x : F64)
  | string (s : String)
  | enumNumber (n : Int)

/-- What the REST bindings call of `prost_reflect` on top of the transcoder. `get_field_mut` is
`getField`, what is done to the value, and `setField`. Then the parsing of floats and the `Debug`
text of a `str`. -/
class DynamicReflect [ProstReflect] where
  FieldDescriptor : Type
  EnumDescriptor : Type
  ExtensionDescriptor : Type
  Value : Type
  F32 : Type
  F64 : Type
  descriptor : DynamicMessage → MessageDescriptor
  getFieldByName : MessageDescriptor → String → Option FieldDescriptor
  name : FieldDescriptor → String
  kind : FieldDescriptor → Kind MessageDescriptor EnumDescriptor
  isList : FieldDescriptor → Bool
  enumValues : EnumDescriptor → List (String × Int)
  getField : DynamicMessage → FieldDescriptor → Value
  setField : DynamicMessage → FieldDescriptor → Value → DynamicMessage
  ofScalar : Scalar F32 F64 → Value
  ofMessage : DynamicMessage → Value
  ofList : List Value → Value
  asStr : Value → Option String
  asMessage : Value → Option DynamicMessage
  asList : Value → Option (List Value)
  getExtensionByName : DescriptorPool → String → Option ExtensionDescriptor
  /-- the services by full name; their methods by name, input and options -/
  services : DescriptorPool → List (String × List (String × MessageDescriptor × DynamicMessage))
  hasExtension : DynamicMessage → ExtensionDescriptor → Bool
  getExtension : DynamicMessage → ExtensionDescriptor → Value
  parseF32 : String → Option F32
  parseF64 : String → Option F64
  debug : String → String

open DynamicReflect

inductive Fault where
  | panic (p : Panic)
  | error (e : TranscodeError)
  deriving DecidableEq

/-! ### Values from text -/

/-- `str::parse` of a signed integer. -/
def parseSigned (bits : Nat) (s : String) : Option Int :=
  let signed (negative : Bool) (digits : List Char) : Option Int :=
    let magnitude := Nat.ofDigitChars 10 digits 0
    let n : Int := if negative then -magnitude else magnitude
    if digits ≠ [] ∧ digits.all Char.isDigit = true ∧ -2 ^ (bits - 1) ≤ n ∧ n < 2 ^ (bits - 1) then some n
    else none
  match s.toList with
  | '+' :: digits => signed false digits
  | '-' :: digits => signed true digits
  | digits => signed false digits

section

variable [ProstReflect] [DynamicReflect]

def coerce (field : FieldDescriptor) (raw : String) : Except TranscodeError Value :=
  let num (ok : Option (Scalar F32 F64)) : Except TranscodeError Value :=
    match ok with
    | some value => .ok (ofScalar value)
    | none => .error (.http s!"invalid value for {name field}: {debug raw}")
  match kind field with
  | .string => .ok (ofScalar (.string raw))
  | .bool =>
    if raw = "true" ∨ raw = "1" then .ok (ofScalar (.bool true))
    else if raw = "false" ∨ raw = "0" then .ok (ofScalar (.bool false))
    else .error (.http s!"invalid bool: {debug raw}")
  | .int32 | .sint32 | .sfixed32 => num ((parseSigned 32 raw).map .i32)
  | .int64 | .sint64 | .sfixed64 => num ((parseSigned 64 raw).map .i64)
  | .uint32 | .fixed32 => num ((Metadata.parseUnsigned 32 raw).map .u32)
  | .uint64 | .fixed64 => num ((Metadata.parseUnsigned 64 raw).map .u64)
  | .float => num ((parseF32 raw).map .f32)
  | .double => num ((parseF64 raw).map .f64)
  | .enum e =>
    match parseSigned 32 raw with
    | some n => .ok (ofScalar (.enumNumber n))
    | none =>
      match (enumValues e).find? (fun v => v.1 = raw) with
      | some v => .ok (ofScalar (.enumNumber v.2))
      | none => .error (.http s!"unknown enum value: {debug raw}")
  | .bytes => .error (.http "bytes fields cannot bind from path/query")
  | .message _ => .error (.http "cannot bind a scalar to a message field")

/-- `set_by_path`; it indexes the path, which is never empty here. -/
def setByPath (msg : DynamicMessage) (path : List String) (raw : String) : Except Fault DynamicMessage :=
  match path with
  | [] => .error (.panic .index)
  | first :: rest =>
    match getFieldByName (descriptor msg) first with
    | none => .error (.error (.http s!"unknown field: {first}"))
    | some field =>
      match rest with
      | [] => do
        let value ← (coerce field raw).mapError .error
        if isList field then
          let held := getField msg field
          .ok (setField msg field (match asList held with
            | some list => ofList (list ++ [value])
            | none => held))
        else .ok (setField msg field value)
      | second :: deeper =>
        match asMessage (getField msg field) with
        | none => .error (.error (.http s!"field {first} is not a message"))
        | some sub => do
          let sub ← setByPath sub (second :: deeper) raw
          .ok (setField msg field (ofMessage sub))

/-- `deserialize_message`, which is `json_to_proto` once more. -/
def deserializeMessage (desc : MessageDescriptor) (json : Bytes) : Except TranscodeError DynamicMessage :=
  Transcoder.jsonToProto desc json

def setMessageField (msg : DynamicMessage) (field : String) (json : Bytes) :
    Except TranscodeError DynamicMessage :=
  match getFieldByName (descriptor msg) field with
  | none => .error (.http s!"unknown body field: {field}")
  | some desc =>
    match kind desc with
    | .message md => do
      let sub ← deserializeMessage md json
      .ok (setField msg desc (ofMessage sub))
    | _ => .error (.http s!"body field {field} must be a message")

end

/-! ### The query -/

def decodeQuery (s : List Char) : Except Panic String :=
  percentDecode (String.ofList (s.map fun c => if c = '+' then ' ' else c))

def parsePair (pair : List Char) : Except Panic (String × String) :=
  let (k, v) := (splitAtFirst '=' pair).getD (pair, [])
  do pure (← decodeQuery k, ← decodeQuery v)

def parseQuery (query : String) : Except Panic (List (String × String)) :=
  ((query.toList.splitOn '&').filter fun p => !p.isEmpty).mapM parsePair

/-! ### Bindings -/

inductive BodyRule where
  | wildcard
  | field (name : String)
  | none
  deriving DecidableEq

variable [ProstReflect] [DynamicReflect]

structure Binding where
  httpMethod : String
  segments : List Segment
  body : BodyRule
  grpcMethod : String
  input : MessageDescriptor

def buildMessage (binding : Binding) (vars : List PathVar) (query : Option String) (body : Bytes) :
    Except Fault Bytes := do
  let msg ← match binding.body with
    | .wildcard => (deserializeMessage binding.input body).mapError .error
    | .none => .ok (new binding.input)
    | .field field =>
      let msg := new binding.input
      if body.isEmpty then .ok msg else (setMessageField msg field body).mapError .error
  let msg ← vars.foldlM (fun msg var => setByPath msg var.1 var.2) msg
  -- The query binds what a wildcard body does not carry and the path has not set.
  let msg ← match binding.body, query with
    | .wildcard, _ | _, none => .ok msg
    | _, some query => do
      let params ← (parseQuery query).mapError .panic
      params.foldlM (fun msg param =>
        let path := fieldPath param.1.toList
        if vars.any (fun var => var.1 = path) then .ok msg else setByPath msg path param.2) msg
  .ok (encodeToVec msg)

end HttpRule
end GrpcWebnext
