import GrpcWebnext.Bytes

/-!
# Protocol messages

The messages of `grpc_webnext.proto`. Their protobuf encoding is prost's, and `Prost` stands
for the part of it that the Fetch response body depends on.
-/

namespace GrpcWebnext

inductive Code where
  | ok | cancelled | unknown | invalidArgument | deadlineExceeded | notFound | alreadyExists
  | permissionDenied | resourceExhausted | failedPrecondition | aborted | outOfRange
  | unimplemented | internal | unavailable | dataLoss | unauthenticated
  deriving DecidableEq, Repr

def Code.toNat : Code → Nat
  | .ok => 0
  | .cancelled => 1
  | .unknown => 2
  | .invalidArgument => 3
  | .deadlineExceeded => 4
  | .notFound => 5
  | .alreadyExists => 6
  | .permissionDenied => 7
  | .resourceExhausted => 8
  | .failedPrecondition => 9
  | .aborted => 10
  | .outOfRange => 11
  | .unimplemented => 12
  | .internal => 13
  | .unavailable => 14
  | .dataLoss => 15
  | .unauthenticated => 16

theorem Code.toNat_lt (code : Code) : code.toNat < 17 := by cases code <;> decide

/-- `tonic::Status`, as far as it is read here. -/
structure Status where
  code : Code
  message : String
  deriving DecidableEq

inductive MetadatumValue where
  | asciiValue (s : String)
  | binValue (b : Bytes)
  deriving DecidableEq

structure Metadatum where
  key : String
  value : Option MetadatumValue
  deriving DecidableEq

structure Subscribe where
  method : String
  headers : List Metadatum
  timeoutMillis : UInt32
  initialPayload : Bytes
  json : Bool
  deriving DecidableEq

structure Header where
  headers : List Metadatum
  deriving DecidableEq

structure Message where
  payload : Bytes
  deriving DecidableEq

structure Trailer where
  statusCode : Nat
  statusMessage : String
  trailers : List Metadatum
  deriving DecidableEq

structure Reset where
  statusCode : Nat
  statusMessage : String
  deriving DecidableEq

inductive Kind where
  | subscribe (sub : Subscribe)
  | message (msg : Message)
  | halfClose
  | trailer (trailer : Trailer)
  | reset (reset : Reset)
  | header (header : Header)
  deriving DecidableEq

structure Frame where
  kind : Option Kind
  deriving DecidableEq

def Frame.status? (frame : Frame) : Option Nat :=
  match frame.kind with
  | some (.trailer t) => some t.statusCode
  | some (.reset r) => some r.statusCode
  | _ => none

class Prost where
  encodeTrailer : Trailer → Bytes
  decodeTrailer : Bytes → Option Trailer

end GrpcWebnext
