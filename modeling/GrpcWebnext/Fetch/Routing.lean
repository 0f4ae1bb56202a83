import Mathlib.Data.List.TakeWhile
import GrpcWebnext.FirstLoad
import GrpcWebnext.Fetch.JsonUpstream
import GrpcWebnext.Fetch.UnaryProto
import GrpcWebnext.HttpRule.Router

/-!
# Routing

`handle` takes every request to one of the surfaces: the admin endpoint, a WebSocket, the binary
codec, the passthrough, or JSON. Where a schema is asked for, the request may wait for it.
-/

namespace GrpcWebnext
namespace Fetch
open HttpRule Schema

/-- `PathAndQuery`, at its question mark. -/
structure PathAndQuery where
  path : String
  query : Option String
  wf : '?' ∉ path.toList

def PathAndQuery.text (pq : PathAndQuery) : String :=
  match pq.query with
  | some query => pq.path ++ "?" ++ query
  | none => pq.path

theorem PathAndQuery.pathOf_text (pq : PathAndQuery) : pathOf pq.text = pq.path := by
  have kept : ∀ c ∈ pq.path.toList, decide (c ≠ '?') = true := by
    intro c member
    exact decide_eq_true fun same => pq.wf (same ▸ member)
  unfold pathOf text
  cases pq.query with
  | none => rw [List.takeWhile_eq_self_iff.mpr kept, String.ofList_toList]
  | some query =>
    rw [String.toList_append, String.toList_append, List.append_assoc, List.takeWhile_append_of_pos kept]
    simp

structure Request where
  method : String
  /-- `None` for a target without a path -/
  uri : Option PathAndQuery
  headers : HeaderMap
  body : Body

def Request.path (req : Request) : String := (req.uri.map PathAndQuery.path).getD ""
def Request.query (req : Request) : Option String := req.uri.bind PathAndQuery.query

def Request.contentType (req : Request) : String := ((req.headers.get .contentType).bind HeaderValue.toStr).getD ""

/-- What is called of `hyper_tungstenite`, by the headers it reads, and `h2ts_server`'s constant. -/
class Upgrader where
  isUpgradeRequest : HeaderMap → Bool
  upgrade : HeaderMap → Except String Unit
  DEFAULT_SUBPROTOCOL : String

section

variable [ProstReflect]

/-- The part of `Runtime` that routing reads. -/
structure Runtime where
  adminReloadPath : Option String
  maxMessageBytes : Nat
  allowImplicitCodec : Bool
  schema : Schema.Inner

/-- `WsParams`: the codec is `some true` for JSON. -/
structure RouteParams where
  codec : Option Bool
  method : Option String
  annotation : Option Route

inductive Handled where
  | adminReload (method : String)
  | text (response : TextResponse)
  /-- `h2ts::serve` -/
  | tunnel
  | websocket (echo : Option String) (reject : Option Status) (params : RouteParams)
  /-- the call that `unary_proto` dispatches -/
  | proto (pathAndQuery : String) (body : Body)
  | json (outcome : JsonFetch)
  | passthrough
  /-- the body of the request stays pending -/
  | pending
  | panicked (panic : Panic)

/-- The head of `unary_proto`. -/
def unaryProto (rt : Runtime) (req : Request) : Handled :=
  match req.uri with
  | none => .text ⟨400, "missing method path"⟩
  | some pq =>
    match frameUpstreamRequest rt.maxMessageBytes [] req.body with
    | .pending => .pending
    | .rejected response => .text response
    | .forwarded body => .proto pq.text body

end

/-! ### JSON -/

inductive Collected where
  | pending
  | rejected (response : HttpResponse)
  | collected (body : Bytes)

def collectBounded (max : Nat) (buf : Bytes) : Body → Collected
  | [] => .pending
  | .data data :: rest =>
    if buf.length + data.length > max then
      .rejected (webnextError .sdk .resourceExhausted "request message exceeds size limit")
    else collectBounded max (buf ++ data) rest
  | .trailers _ :: rest => collectBounded max buf rest
  | .error e :: _ => .rejected (webnextError .sdk .internal s!"read body: {e}")
  | .eof :: _ => .collected buf

variable [ProstReflect] [DynamicReflect]

/-- The router that `from_file_descriptor_set` compiles of the pool. -/
def routerOf (tc : Transcoder) : HttpRouter := .fromPool tc.pool

/-- `match_ws` of a schema that was resolved. -/
def annotationOf (resolved : Except Status Transcoder) (path : String) (query : Option String) :
    Except Panic (Option Route) :=
  match resolved with
  | .ok tc => (routerOf tc).matchWs path query
  | .error _ => .ok none

def annotationFor (rt : Runtime) (s : Snapshots) (req : Request) : Waited (Except Panic (Option Route)) :=
  (transcoderAnyAwait rt.schema s).map fun resolved => annotationOf resolved req.path req.query

/-- `json_fetch`, up to the call it dispatches. -/
def jsonRequest [UriParser] (rt : Runtime) (s : Snapshots) (req : Request) (sdkJson : Bool) : Waited Handled :=
  let respCt := if sdkJson then JsonCt.sdk else .plain
  (transcoderAnyAwait rt.schema s).map fun resolved =>
    match resolved, req.uri with
    | .error status, _ => .json (.respond (webnextError .sdk status.code status.message))
    | .ok _, none => .json (.respond (webnextError respCt .internal "missing request path"))
    | .ok tc, some pq =>
      match collectBounded rt.maxMessageBytes [] req.body with
      | .pending => .pending
      | .rejected response => .json (.respond response)
      | .collected body =>
        let fetch (rest : Except TranscodeError (Option HttpCall)) :=
          Handled.json (jsonFetch tc rest sdkJson rt.allowImplicitCodec pq.text body)
        match (routerOf tc).transcode req.method pq.path pq.query body with
        | .error (.panic p) => .panicked p
        | .error (.error e) => fetch (.error e)
        | .ok rest => fetch (.ok rest)

/-! ### WebSocket upgrades -/

def WS_SUBPROTOCOL : String := "grpc-webnext"
def WS_SUBPROTOCOL_JSON : String := "grpc-webnext+json"
def WS_SUBPROTOCOL_PROTO : String := "grpc-webnext+proto"

def secWebsocketProtocol : HeaderName := ⟨"sec-websocket-protocol", by decide⟩

/-- `ws_subprotocols`. The text of a header has no white space but blanks and tabs. -/
def wsSubprotocols (headers : HeaderMap) : List String :=
  match (headers.get secWebsocketProtocol).bind HeaderValue.toStr with
  | none => []
  | some s =>
    let tokens := (s.toList.splitOn ',').map (trimMatches fun c => c = ' ' ∨ c = '\t')
    (tokens.filter fun t => !t.isEmpty).map String.ofList

/-- The codec, and whether one of grpc-webnext's own subprotocols asked for it. -/
def offeredCodec (offered : List String) : Option Bool × Bool :=
  if offered.contains WS_SUBPROTOCOL_PROTO then (some false, true)
  else if offered.contains WS_SUBPROTOCOL_JSON then (some true, true)
  else if offered.contains "application/json" then (some true, false)
  else (none, false)

def codecReject (rt : Runtime) (annotated : Bool) (codec : Option Bool) (explicit : Bool) : Option Status :=
  if annotated then
    if codec = some false then
      some ⟨.failedPrecondition, "REST WebSocket routes are JSON: use a blank, application/json, or grpc-webnext+json subprotocol"⟩
    else none
  else if explicit then none
  else if !rt.allowImplicitCodec then
    some ⟨.unimplemented, "this websocket requires a grpc-webnext+proto or grpc-webnext+json subprotocol"⟩
  else none

def routeParams (found : Option Route) (codec : Option Bool) (path : String) : RouteParams :=
  match found with
  | some route => ⟨some true, some route.grpcMethod, some route⟩
  | none => ⟨codec, some path, none⟩

def withRoute (next : Option Route → Handled) : Except Panic (Option Route) → Handled
  | .error p => .panicked p
  | .ok found => next found

variable [Upgrader]

def upgradeRoute (rt : Runtime) (req : Request) (found : Option Route) : Handled :=
  let offered := wsSubprotocols req.headers
  let (codec, explicit) := offeredCodec offered
  let echo := [WS_SUBPROTOCOL_PROTO, WS_SUBPROTOCOL_JSON, WS_SUBPROTOCOL, "application/json"].find? offered.contains
  match Upgrader.upgrade req.headers with
  | .ok () => .websocket echo (codecReject rt found.isSome codec explicit) (routeParams found codec req.path)
  | .error e => .text ⟨400, s!"upgrade failed: {e}"⟩

def handleWsUpgrade (rt : Runtime) (s : Snapshots) (req : Request) : Waited Handled :=
  if (wsSubprotocols req.headers).contains Upgrader.DEFAULT_SUBPROTOCOL then ⟨[], .tunnel⟩
  else (annotationFor rt s req).map (withRoute (upgradeRoute rt req))

/-! ### The entry -/

def protoRoute (rt : Runtime) (req : Request) (found : Option Route) : Handled :=
  match found with
  | some _ =>
    .text ⟨415, "REST-annotated endpoints are JSON-only; use application/json or application/grpc-webnext+json"⟩
  | none => unaryProto rt req

/-- The branch of `content_type == CT_PROTO`. -/
def handleProto (rt : Runtime) (s : Snapshots) (req : Request) : Waited Handled :=
  (annotationFor rt s req).map (withRoute (protoRoute rt req))

def handle [UriParser] (rt : Runtime) (s : Snapshots) (req : Request) : Waited Handled :=
  if rt.adminReloadPath = some req.path then ⟨[], .adminReload req.method⟩
  else if Upgrader.isUpgradeRequest req.headers then handleWsUpgrade rt s req
  else if req.contentType = "application/grpc-webnext+proto" then handleProto rt s req
  else if req.contentType = "application/grpc-webnext+json" then jsonRequest rt s req true
  else if req.contentType.startsWith "application/grpc" then ⟨[], .passthrough⟩
  else if req.contentType = "application/json" ∨ req.contentType = "" then jsonRequest rt s req false
  else ⟨[], .text ⟨415, s!"unsupported content-type: {req.contentType}"⟩⟩

/-! ### Behind the admin endpoint -/

section

variable [UriParser] {rt : Runtime} {req : Request} (s : Snapshots) (admin : rt.adminReloadPath ≠ some req.path)
include admin

theorem handle_upgrade (asks : Upgrader.isUpgradeRequest req.headers = true) :
    handle rt s req = handleWsUpgrade rt s req := by
  simp [handle, admin, asks]

theorem handle_proto (plain : Upgrader.isUpgradeRequest req.headers = false)
    (proto : req.contentType = "application/grpc-webnext+proto") : handle rt s req = handleProto rt s req := by
  simp [handle, admin, plain, proto]

theorem handle_json (plain : Upgrader.isUpgradeRequest req.headers = false)
    (json : req.contentType = "application/grpc-webnext+json") : handle rt s req = jsonRequest rt s req true := by
  simp [handle, admin, plain, json]

end

abbrev headerUpgrader : Upgrader where
  isUpgradeRequest headers := headers.containsKey ⟨"upgrade", by decide⟩
  upgrade headers :=
    if headers.containsKey ⟨"sec-websocket-key", by decide⟩ then .ok () else .error "missing key"
  DEFAULT_SUBPROTOCOL := "h2ts"

omit [ProstReflect] [DynamicReflect] [Upgrader] in
theorem getFlags_path : '?' ∉ "/flag.Flags/Get".toList := by decide

def getFlags : Request where
  method := "POST"
  uri := some ⟨"/flag.Flags/Get", none, getFlags_path⟩
  headers := [(.contentType, CT_PROTO)]
  body := [.data [0, 0, 0, 0], .eof]

end Fetch
end GrpcWebnext
