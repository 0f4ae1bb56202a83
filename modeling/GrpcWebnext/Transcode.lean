import GrpcWebnext.Lib.Except
import GrpcWebnext.Lib.Utf8
import GrpcWebnext.Pb

/-!
# JSON transcoding

`Transcoder` over the part of `prost_reflect` it calls. A descriptor pool is known by its
services and their methods; messages of a descriptor are opaque.
-/

namespace GrpcWebnext

/-- The `prost_reflect` and `serde_json` calls of the transcoder. Parsing a message from JSON
text returns the text behind the value, for the caller's `de.end()`. -/
class ProstReflect where
  DescriptorPool : Type
  MessageDescriptor : Type
  DynamicMessage : Type
  /-- the methods of a service by full name: name, input and output -/
  getServiceByName : DescriptorPool → String →
    Option (List (String × MessageDescriptor × MessageDescriptor))
  new : MessageDescriptor → DynamicMessage
  deserialize : MessageDescriptor → Bytes → Except String (DynamicMessage × Bytes)
  finish : Bytes → Except String Unit
  encodeToVec : DynamicMessage → Bytes
  decode : MessageDescriptor → Bytes → Except String DynamicMessage
  serialize : DynamicMessage → Except String Bytes

inductive TranscodeError where
  | descriptor (e : String)
  | unknownMethod (path : String)
  | json (e : String)
  | decode (e : String)
  | http (e : String)
  deriving DecidableEq

def TranscodeError.toString : TranscodeError → String
  | .descriptor e => s!"failed to load descriptor set: {e}"
  | .unknownMethod path => s!"unknown method: {path}"
  | .json e => s!"json error: {e}"
  | .decode e => s!"protobuf decode error: {e}"
  | .http e => s!"http transcoding: {e}"

variable [ProstReflect]

structure Transcoder where
  pool : ProstReflect.DescriptorPool

namespace Transcoder
open ProstReflect

omit [ProstReflect] in
def splitOnce (path : String) : Option (String × String) :=
  let cs := path.toList.dropWhile (· = '/')
  match cs.dropWhile (· ≠ '/') with
  | '/' :: method => some (String.ofList (cs.takeWhile (· ≠ '/')), String.ofList method)
  | _ => none

def ioTypes (tc : Transcoder) (path : String) :
    Except TranscodeError (MessageDescriptor × MessageDescriptor) :=
  match splitOnce path with
  | none => .error (.unknownMethod path)
  | some (service, method) =>
    match getServiceByName tc.pool service with
    | none => .error (.unknownMethod path)
    | some methods =>
      match methods.find? (fun m => m.1 = method) with
      | none => .error (.unknownMethod path)
      | some m => .ok m.2

def hasMethod (tc : Transcoder) (path : String) : Bool := (tc.ioTypes path).isOk

theorem hasMethod_iff (tc : Transcoder) (path : String) :
    tc.hasMethod path = true ↔ ∃ service method methods io, splitOnce path = some (service, method) ∧
      getServiceByName tc.pool service = some methods ∧ (method, io) ∈ methods := by
  unfold hasMethod ioTypes
  cases splitOnce path with
  | none => simp [Except.isOk, Except.toBool]
  | some names =>
    obtain ⟨service, method⟩ := names
    cases found : getServiceByName tc.pool service with
    | none => simp [Except.isOk, Except.toBool, found]
    | some methods =>
      cases named : methods.find? (fun m => m.1 = method) with
      | none =>
        have absent := List.find?_eq_none.mp named
        simp only [found, named, Except.isOk, Except.toBool, Bool.false_eq_true, false_iff]
        rintro ⟨_, _, _, io, ⟨⟩, same, member⟩
        obtain rfl := Option.some.inj (found.symm.trans same)
        exact absent _ member (by simp)
      | some m =>
        have same : m.1 = method := by simpa using List.find?_some named
        simp only [found, named, Except.isOk, Except.toBool, true_iff]
        exact ⟨service, method, methods, m.2, rfl, found, same ▸ List.mem_of_find?_eq_some named⟩

def jsonToProto (desc : MessageDescriptor) (json : Bytes) : Except TranscodeError DynamicMessage :=
  if json.isEmpty then .ok (new desc)
  else do
    let (msg, rest) ← (deserialize desc json).mapError .json
    (finish rest).mapError .json
    pure msg

def protoToJson (desc : MessageDescriptor) (proto : Bytes) : Except TranscodeError Bytes := do
  let msg ← (decode desc proto).mapError .decode
  (serialize msg).mapError .json

/-- `request_json_to_proto`: empty input is the default message. -/
def requestJsonToProto (tc : Transcoder) (path : String) (json : Bytes) :
    Except TranscodeError Bytes := do
  let (input, _) ← tc.ioTypes path
  pure (encodeToVec (← jsonToProto input json))

def responseProtoToJson (tc : Transcoder) (path : String) (proto : Bytes) :
    Except TranscodeError Bytes := do
  let (_, output) ← tc.ioTypes path
  protoToJson output proto

theorem responseProtoToJson_ok {tc : Transcoder} {path : String} {proto json : Bytes}
    (converted : tc.responseProtoToJson path proto = .ok json) : ∃ msg, serialize msg = .ok json := by
  unfold responseProtoToJson at converted
  cases types : tc.ioTypes path with
  | error e => simp [types, bind, Except.bind] at converted
  | ok io =>
    simp only [types, protoToJson, bind, Except.bind] at converted
    cases decoded : decode io.2 proto with
    | error e =>
      rw [decoded] at converted
      cases converted
    | ok msg =>
      rw [decoded] at converted
      refine ⟨msg, ?_⟩
      change (serialize msg).mapError TranscodeError.json = .ok json at converted
      cases text : serialize msg with
      | error e =>
        rw [text] at converted
        cases converted
      | ok written =>
        rw [text] at converted
        cases converted
        rfl

end Transcoder

/-- A route resolved from an annotation URL, by its three methods: the gRPC method it maps to,
whether it takes a body, and the request message it builds from a payload. -/
structure WsBinding where
  grpcMethod : String
  hasBody : Bool
  buildMessage : Bytes → Except TranscodeError Bytes

def flagJson : Bytes := Utf8.encode "\x7b\"on\":true\x7d"

/-- A schema with the service `flag.Flags`, its method `Get` and one message type, which has
the single field `bool on = 1`. The concrete runs below use it. -/
abbrev flagSchema : ProstReflect where
  DescriptorPool := Unit
  MessageDescriptor := Unit
  DynamicMessage := Bool
  getServiceByName _ service := if service = "flag.Flags" then some [("Get", (), ())] else none
  new _ := false
  deserialize _ json :=
    if json = flagJson then .ok (true, [])
    else if json = [123, 125] then .ok (false, [])
    else .error "expected a map"
  finish rest := if rest.isEmpty then .ok () else .error "trailing characters"
  encodeToVec on := if on then [8, 1] else []
  decode _ proto :=
    if proto = [8, 1] then .ok true
    else if proto = [] then .ok false
    else .error "buffer underflow"
  serialize on := .ok (if on then flagJson else [123, 125])

end GrpcWebnext
