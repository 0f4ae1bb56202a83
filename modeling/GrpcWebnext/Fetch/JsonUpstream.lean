import GrpcWebnext.Backend
import GrpcWebnext.Fetch.Request
import GrpcWebnext.Metadata
import GrpcWebnext.GrpcFraming
import GrpcWebnext.Transcode

/-!
# Unary calls over Fetch, JSON codec

`json_upstream` buffers the whole response, renders its first message as JSON and puts the
status in headers.
-/

namespace GrpcWebnext
namespace Fetch
open Metadata

structure HttpResponse where
  status : Nat
  headers : HeaderMap
  body : Bytes
  deriving DecidableEq

inductive JsonCt where
  | sdk | plain
  deriving DecidableEq

def JsonCt.value : JsonCt → HeaderValue
  | .sdk => ⟨Utf8.encode "application/grpc-webnext+json", by decide⟩
  | .plain => ⟨Utf8.encode "application/json", by decide⟩

/-- `json_fetch_response`: bare JSON body, status in `grpc-status` and `grpc-message`. -/
def jsonFetchResponse (contentType : JsonCt) (message : Bytes) (statusCode : Nat)
    (statusMessage : String) (initial trailing : HeaderMap) : HttpResponse :=
  let headers : HeaderMap :=
    [(.contentType, contentType.value), (.grpcStatus, HeaderValue.ofNat statusCode)]
  let headers :=
    if statusMessage.isEmpty then headers
    else match HeaderValue.fromStr (percentEncode statusMessage) with
      | some v => headers.append .grpcMessage v
      | none => headers
  let headers := mergeMetadataIntoHeaders initial headers
  let headers := mergeMetadataIntoHeaders trailing headers
  ⟨200, headers, if statusCode = 0 then message else []⟩

def webnextError (contentType : JsonCt) (code : Code) (message : String) : HttpResponse :=
  jsonFetchResponse contentType [] code.toNat message [] []

/-! ### The reported status -/

def HttpResponse.grpcStatus (r : HttpResponse) : Option Nat :=
  (r.headers.get .grpcStatus).bind parseStatus

theorem jsonFetchResponse_grpcStatus (ct : JsonCt) (m : Bytes) {code : Nat} (small : code < 2 ^ 32)
    (message : String) (initial trailing : HeaderMap) :
    (jsonFetchResponse ct m code message initial trailing).grpcStatus = some code := by
  have denied : isDenied .grpcStatus = true := by decide
  have read : parseStatus (HeaderValue.ofNat code) = some code := by
    simp [parseStatus, HeaderValue.toStr_ofNat, parseUnsigned_repr small]
  have different : (HeaderName.contentType = HeaderName.grpcStatus) = False := by decide
  have message_ : (HeaderName.grpcMessage = HeaderName.grpcStatus) = False := by decide
  unfold jsonFetchResponse HttpResponse.grpcStatus
  simp only [get_merge_denied _ _ denied]
  split
  · simp [HeaderMap.get, HeaderMap.getAll_cons, different, read]
  · split <;> simp [HeaderMap.get, HeaderMap.getAll_append, HeaderMap.getAll_cons, different, message_, read]

theorem webnextError_grpcStatus (ct : JsonCt) (code : Code) (message : String) :
    (webnextError ct code message).grpcStatus = some code.toNat :=
  jsonFetchResponse_grpcStatus ct [] (Nat.lt_trans code.toNat_lt (by decide)) message [] []

/-! ### The response -/

/-- The trailers of `body.collect()`: a later block extends an earlier one. -/
def collectTrailers (held : Option HeaderMap) : List (Nat × BodyFrame) → Option HeaderMap
  | [] => held
  | (_, .data _) :: rest => collectTrailers held rest
  | (_, .trailers t) :: rest =>
    collectTrailers (some (match held with | some current => current.extend t | none => t)) rest

variable [ProstReflect]

def renderJson (tc : Transcoder) (grpcPath : String) (respCt : JsonCt) (respHeaders : HeaderMap)
    (frames : List (Nat × BodyFrame)) : HttpResponse :=
  let trailerHeaders := (collectTrailers none frames).getD []
  let outMessage := (GrpcFraming.deframeAll (Arrivals.bytes frames)).head?.getD []
  let status := readStatus trailerHeaders respHeaders
  if status.1 = 0 ∧ outMessage ≠ [] then
    match tc.responseProtoToJson (pathOf grpcPath) outMessage with
    | .ok j => jsonFetchResponse respCt j status.1 status.2 respHeaders trailerHeaders
    | .error e => webnextError respCt .internal s!"bad json response: {e.toString}"
  else jsonFetchResponse respCt [] status.1 status.2 respHeaders trailerHeaders

/-- `json_upstream` for a call dispatched at time 0: the response and when it is sent, `none`
while the backend has not answered and no deadline bounds it. -/
def jsonUpstream (tc : Transcoder) (grpcPath : String) (respCt : JsonCt) (deadline : Option Nat)
    (call : Call) : Option (Nat × HttpResponse) :=
  let expired := webnextError respCt .deadlineExceeded "deadline exceeded"
  match call with
  | some (ready, answer) =>
    if inTime deadline 0 ready then
      match answer with
      | .error e => some (ready, webnextError respCt .unavailable s!"upstream: {e}")
      | .ok resp =>
        -- One timeout covers the call and the collection of its body.
        let seen := arrivals deadline ready resp.body
        match seen.halt with
        | .eof now => some (now, renderJson tc grpcPath respCt resp.headers seen.frames)
        | .error now e => some (now, webnextError respCt .unavailable s!"upstream body: {e}")
        | .timeout now => some (now, expired)
        | .pending => none
    else some (deadline.getD 0, expired)
  | none => deadline.map fun d => (d, expired)

structure HttpCall where
  grpcMethod : String
  message : Bytes

inductive JsonFetch where
  | respond (response : HttpResponse)
  | text (response : TextResponse)
  | upstream (grpcPath : String) (message : Bytes) (respCt : JsonCt)
  deriving DecidableEq

/-- `json_fetch` behind the collected body; `rest` is what the REST bindings made of it and
`pq` the request's path and query. -/
def jsonFetch [UriParser] (tc : Transcoder) (rest : Except TranscodeError (Option HttpCall))
    (sdkJson allowImplicitCodec : Bool) (pq : String) (body : Bytes) : JsonFetch :=
  let respCt := if sdkJson then JsonCt.sdk else .plain
  match rest with
  | .ok (some call) =>
    if UriParser.pathAndQuery call.grpcMethod then .upstream call.grpcMethod call.message .plain
    else .respond (webnextError .plain .internal "bad transcoded method path")
  | .error e => .respond (webnextError .plain .invalidArgument s!"bad REST request: {e.toString}")
  | .ok none =>
    if !sdkJson && !allowImplicitCodec then
      .text ⟨415, "this gRPC method path requires content-type application/grpc-webnext+json (or set allow_implicit_codec to accept plain JSON here)"⟩
    else if !tc.hasMethod (pathOf pq) then
      .respond (webnextError respCt .unimplemented s!"no such method: {pathOf pq}")
    else match tc.requestJsonToProto (pathOf pq) body with
      | .ok proto => .upstream pq proto respCt
      | .error e => .respond (webnextError respCt .invalidArgument s!"bad json request: {e.toString}")

end Fetch
end GrpcWebnext
