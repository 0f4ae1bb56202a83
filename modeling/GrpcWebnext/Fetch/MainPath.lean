import GrpcWebnext.Fetch.Routing
import GrpcWebnext.Ws.SingleCall

/-!
# Main paths under annotations

What a request to the main path of a method is taken for, when any templates are annotated in the
pool. A binding is looked up before the main path, and a template of captures alone accepts it.
-/

namespace GrpcWebnext
namespace Fetch
open HttpRule Schema

section

variable [ProstReflect]

/-- The call of a `+json` request to a main path, with the message that its body holds. -/
def mainJson (rt : Runtime) (tc : Transcoder) (target : PathAndQuery) (body : Body) : Handled :=
  match collectBounded rt.maxMessageBytes [] body with
  | .pending => .pending
  | .rejected response => .json (.respond response)
  | .collected json =>
    .json (match tc.requestJsonToProto target.path json with
      | .ok message => .upstream target.text message .sdk
      | .error e => .respond (webnextError .sdk .invalidArgument s!"bad json request: {e.toString}"))

variable [DynamicReflect] [Upgrader] [UriParser]

/-- The requests with an explicit codec reach the method of their path, with their own message. -/
structure MainPath [SerdeJson] (rt : Runtime) (s : Snapshots) (tc : Transcoder) (target : PathAndQuery) : Prop where
  proto : ∀ req : Request, req.uri = some target → Upgrader.isUpgradeRequest req.headers = false →
    req.contentType = "application/grpc-webnext+proto" → (handle rt s req).value = unaryProto rt req
  json : ∀ req : Request, req.uri = some target → Upgrader.isUpgradeRequest req.headers = false →
    req.contentType = "application/grpc-webnext+json" → req.method = "POST" →
      (handle rt s req).value = mainJson rt tc target req.body
  websocket : ∀ (req : Request) (codec : Bool), req.uri = some target →
    Upgrader.isUpgradeRequest req.headers = true → Upgrader.upgrade req.headers = .ok () →
    Upgrader.DEFAULT_SUBPROTOCOL ∉ wsSubprotocols req.headers →
    offeredCodec (wsSubprotocols req.headers) = (some codec, true) →
      ∃ echo, (handle rt s req).value = .websocket echo none ⟨some codec, some target.path, none⟩
  /-- what the connection dispatches then -/
  calls : ∀ codec ls conn, Ws.Run (.upgrade rt.maxMessageBytes rt.schema none (some codec) target.path) ls conn →
    ∀ call ∈ conn.calls, call.pathAndQuery = target.path

omit [ProstReflect] [DynamicReflect] [Upgrader] [UriParser] in
theorem contentType_proto : ((HeaderMap.get [(.contentType, CT_PROTO)] .contentType).bind HeaderValue.toStr).getD "" =
    "application/grpc-webnext+proto" := by
  decide

omit [Upgrader] [UriParser] in
theorem annotation_resolved {rt : Runtime} {s : Snapshots} {tc : Transcoder} {req : Request}
    (resolved : (transcoderAnyAwait rt.schema s).value = .ok tc) :
    (annotationFor rt s req).value = (routerOf tc).matchWs req.path req.query := by
  simp [annotationFor, Waited.map, resolved, annotationOf]

omit [Upgrader] in
theorem jsonRequest_free {rt : Runtime} {s : Snapshots} {tc : Transcoder} {target : PathAndQuery} {req : Request}
    (resolved : (transcoderAnyAwait rt.schema s).value = .ok tc) (known : tc.hasMethod target.path = true)
    (free : (routerOf tc).Free target.path) (uri : req.uri = some target) :
    (jsonRequest rt s req true).value = mainJson rt tc target req.body := by
  simp only [jsonRequest, Waited.map, resolved, uri, mainJson]
  cases collectBounded rt.maxMessageBytes [] req.body with
  | pending => rfl
  | rejected response => rfl
  | collected json =>
    simp only [free.transcode, jsonFetch, PathAndQuery.pathOf_text, known]
    cases tc.requestJsonToProto target.path json <;> rfl

/-- The main path of a method stays its own exactly if it is not the admin path and no template of
the schema accepts it. -/
theorem main_path_iff [SerdeJson] (rt : Runtime) (s : Snapshots) {tc : Transcoder} {target : PathAndQuery}
    (resolved : (transcoderAnyAwait rt.schema s).value = .ok tc) (known : tc.hasMethod target.path = true)
    (plain : Upgrader.isUpgradeRequest [(.contentType, CT_PROTO)] = false) :
    MainPath rt s tc target ↔ rt.adminReloadPath ≠ some target.path ∧ (routerOf tc).Free target.path := by
  constructor
  · intro main
    let req : Request := ⟨"POST", some target, [(.contentType, CT_PROTO)], []⟩
    have proto : req.contentType = "application/grpc-webnext+proto" := contentType_proto
    have dispatched : (handle rt s req).value = .pending := main.proto req rfl plain proto
    have admin : rt.adminReloadPath ≠ some target.path := by
      intro admin
      simp [handle, req, Request.path, admin] at dispatched
    refine ⟨admin, ?_⟩
    have matched : (annotationFor rt s req).value = (routerOf tc).matchWs target.path target.query :=
      annotation_resolved resolved
    have looked : withRoute (protoRoute rt req) ((routerOf tc).matchWs target.path target.query) = .pending := by
      have routed : handle rt s req = handleProto rt s req := handle_proto s admin plain proto
      rw [← dispatched, ← matched, routed]
      rfl
    rw [← (routerOf tc).matchWs_none_iff target.path target.query]
    cases found : (routerOf tc).matchWs target.path target.query with
    | error p => simp [found, withRoute] at looked
    | ok route =>
      cases route with
      | none => rfl
      | some route => simp [found, withRoute, protoRoute] at looked
  · rintro ⟨admin, free⟩
    have path : ∀ req : Request, req.uri = some target → req.path = target.path := by
      intro req uri
      simp [Request.path, uri]
    have unannotated : ∀ req : Request, req.uri = some target → (annotationFor rt s req).value = .ok none := by
      intro req uri
      rw [annotation_resolved resolved, HttpRouter.matchWs_none_iff, path req uri]
      exact free
    refine ⟨?_, ?_, ?_, ?_⟩
    · intro req uri plain proto
      rw [handle_proto s (by rwa [path req uri]) plain proto]
      simp [handleProto, Waited.map, unannotated req uri, withRoute, protoRoute]
    · intro req uri plain json _
      rw [handle_json s (by rwa [path req uri]) plain json, jsonRequest_free resolved known free uri]
    · intro req codec uri asks completes tunnel offers
      rw [handle_upgrade s (by rwa [path req uri]) asks]
      simp [handleWsUpgrade, tunnel, Waited.map, unannotated req uri, withRoute, upgradeRoute, completes, offers,
        codecReject, routeParams, path req uri]
    · intro codec ls conn run
      exact (Ws.SingleCall.Run.routed run).calls

end

attribute [local instance] aliasSchema aliasReflect headerUpgrader slashUris Ws.flagTexts

def annotatedServer (template : String) : Runtime := ⟨none, 4, false, .bundled ⟨some template⟩⟩

def getPath : PathAndQuery := ⟨"/flag.Flags/Get", none, getFlags_path⟩

theorem main_path_rest : MainPath (annotatedServer "/v1/flags/{name}") ⟨none, []⟩ ⟨some "/v1/flags/{name}"⟩ getPath ↔
    (annotatedServer "/v1/flags/{name}").adminReloadPath ≠ some getPath.path ∧
      (routerOf ⟨some "/v1/flags/{name}"⟩).Free getPath.path :=
  main_path_iff (annotatedServer "/v1/flags/{name}") ⟨none, []⟩ rfl (by decide) rfl

/-- Two captures accept every main path. -/
theorem main_path_captured : ¬MainPath (annotatedServer "/{shelf}/{book}") ⟨none, []⟩ ⟨some "/{shelf}/{book}"⟩ getPath := by
  intro main
  have dispatched := main.proto getFlags rfl rfl (by decide)
  have rejected : ((handle (annotatedServer "/{shelf}/{book}") ⟨none, []⟩ getFlags).value matches .text _) = true := by
    decide +kernel
  rw [dispatched] at rejected
  exact absurd rejected (by decide)

end Fetch
end GrpcWebnext
