import GrpcWebnext.Fetch.Routing

/-!
# Binary requests and the schema

The binary codec needs no descriptors, but `handle` looks up an annotation for every binary request
before it goes on. What the request meets there depends on the schema source and its loads.
-/

namespace GrpcWebnext
namespace Fetch
open HttpRule Schema

section

variable [ProstReflect] [Upgrader]

/-- A `+proto` request, or an upgrade that offers `grpc-webnext+proto`. -/
inductive Binary (req : Request) : Prop where
  | fetch : Upgrader.isUpgradeRequest req.headers = false →
      req.contentType = "application/grpc-webnext+proto" → Binary req
  | upgrade : Upgrader.isUpgradeRequest req.headers = true → Upgrader.upgrade req.headers = .ok () →
      WS_SUBPROTOCOL_PROTO ∈ wsSubprotocols req.headers → Binary req

def binaryRoute (rt : Runtime) (req : Request) (found : Option Route) : Handled :=
  if Upgrader.isUpgradeRequest req.headers then upgradeRoute rt req found else protoRoute rt req found

/-- The admin endpoint and an h2ts tunnel look up no annotation. -/
def Consults (rt : Runtime) (req : Request) : Prop :=
  rt.adminReloadPath ≠ some req.path ∧
    (Upgrader.isUpgradeRequest req.headers = true →
      Upgrader.DEFAULT_SUBPROTOCOL ∉ wsSubprotocols req.headers)

/-! ### The rejection differs from the dispatch -/

omit [Upgrader] in
theorem unaryProto_status {rt : Runtime} {req : Request} {response : TextResponse}
    (answered : unaryProto rt req = .text response) : response.status = 400 ∨ response.status = 413 := by
  unfold unaryProto at answered
  split at answered
  · cases answered
    exact .inl rfl
  · have spec := frameUpstreamRequest_spec rt.maxMessageBytes [] req.body
    split at answered
    · cases answered
    · rename_i rejected
      cases answered
      rw [rejected] at spec
      obtain ⟨_, _, same⟩ | ⟨_, _, _, same⟩ | ⟨_, _, _, same⟩ | ⟨_, _, _, same, _⟩ := spec
      · cases same
      · cases same
        exact .inl rfl
      · cases same
        exact .inr rfl
      · cases same
    · cases answered

theorem binaryRoute_none_iff (rt : Runtime) {req : Request} (binary : Binary req) (found : Option Route) :
    binaryRoute rt req found = binaryRoute rt req none ↔ found = none := by
  refine ⟨fun same => ?_, fun none => by rw [none]⟩
  cases found with
  | none => rfl
  | some route =>
    unfold binaryRoute at same
    cases binary with
    | fetch plain _ =>
      simp only [plain, Bool.false_eq_true, ↓reduceIte, protoRoute] at same
      rcases unaryProto_status same.symm with bad | large
      · exact absurd bad (by decide)
      · exact absurd large (by decide)
    | upgrade asks completes offers =>
      have codec : offeredCodec (wsSubprotocols req.headers) = (some false, true) := by simp [offeredCodec, offers]
      simp [asks, upgradeRoute, completes, codec, codecReject] at same

/-! ### The look-up -/

section

omit [Upgrader]
variable [DynamicReflect]

theorem annotation_of_known {rt : Runtime} {s : Snapshots} (req : Request)
    (known : rt.schema = .reflection → s.current ≠ none) :
    annotationFor rt s req = ⟨[], annotationOf (transcoderAny rt.schema s.current) req.path req.query⟩ := by
  unfold annotationFor
  cases current : s.current with
  | some tc =>
    rw [transcoderAnyAwait_loaded rt.schema (by simp [current]), current]
    rfl
  | none =>
    cases schema : rt.schema with
    | reflection => exact absurd current (known schema)
    | none | bundled tc | reflectionOrBundled bundle => simp [transcoderAnyAwait, Waited.map, current]

theorem annotationOf_first {schema : Inner} {tc : Transcoder} {path : String} (query : Option String)
    (free : (routerOf tc).Free path) (source : schema ≠ .reflection)
    (bundles : ∀ bundle, schema = .reflectionOrBundled bundle → (routerOf bundle).Free path) :
    annotationOf (transcoderAny schema (some tc)) path query =
      annotationOf (transcoderAny schema none) path query := by
  cases schema with
  | reflection => exact absurd rfl source
  | none => rfl
  | bundled tc => rfl
  | reflectionOrBundled bundle =>
    have without := ((routerOf tc).matchWs_none_iff path query).mpr free
    have fallback := ((routerOf bundle).matchWs_none_iff path query).mpr (bundles bundle rfl)
    simp [transcoderAny, annotationOf, without, fallback]

end

variable [DynamicReflect] [UriParser]

theorem handle_binary {rt : Runtime} {req : Request} (binary : Binary req) (consults : Consults rt req)
    (s : Snapshots) :
    handle rt s req = (annotationFor rt s req).map (withRoute (binaryRoute rt req)) := by
  obtain ⟨admin, tunnel⟩ := consults
  cases binary with
  | fetch plain proto =>
    have route : binaryRoute rt req = protoRoute rt req := by
      funext found
      simp [binaryRoute, plain]
    rw [route, handle_proto s admin plain proto, handleProto]
  | upgrade asks _ _ =>
    have route : binaryRoute rt req = upgradeRoute rt req := by
      funext found
      simp [binaryRoute, asks]
    rw [route, handle_upgrade s admin asks]
    simp [handleWsUpgrade, tunnel asks]

theorem handle_unconsulted {rt : Runtime} {req : Request} (binary : Binary req) (alone : ¬Consults rt req)
    (s t : Snapshots) : (handle rt s req).waits = [] ∧ handle rt s req = handle rt t req := by
  by_cases admin : rt.adminReloadPath = some req.path
  · simp [handle, admin]
  · cases binary with
    | fetch plain proto => exact absurd ⟨admin, by simp [plain]⟩ alone
    | upgrade asks _ _ =>
      have tunnel : Upgrader.DEFAULT_SUBPROTOCOL ∈ wsSubprotocols req.headers := by
        by_contra absent
        exact alone ⟨admin, fun _ => absent⟩
      rw [handle_upgrade s admin asks, handle_upgrade t admin asks]
      simp [handleWsUpgrade, tunnel]

/-! ### The property -/

/-- A binary request goes on at once, and a snapshot that annotates another URL makes no difference. -/
structure Proceeds (rt : Runtime) (s : Snapshots) (tc : Transcoder) (req : Request) : Prop where
  waits : (handle rt s req).waits = []
  /-- to its dispatch, or to the rejection if a schema that is loaded annotates the URL -/
  handled : Consults rt req → ∃ found,
    annotationOf (transcoderAny rt.schema s.current) req.path req.query = .ok found ∧
      (handle rt s req).value = binaryRoute rt req found
  unaware : s.current = none → handle rt { s with current := some tc } req = handle rt s req

/-- The look-up does not panic, and before the first snapshot it neither waits nor finds a bundled
annotation. -/
structure Settled (rt : Runtime) (s : Snapshots) (req : Request) : Prop where
  found : ∃ found, annotationOf (transcoderAny rt.schema s.current) req.path req.query = .ok found
  source : s.current = none → rt.schema ≠ .reflection
  bundle : s.current = none → ∀ bundle, rt.schema = .reflectionOrBundled bundle → (routerOf bundle).Free req.path

/-- Binary requests are independent of the descriptors exactly where the look-up is settled. -/
theorem binary_proceeds_iff (rt : Runtime) (s : Snapshots) {tc : Transcoder} {req : Request}
    (binary : Binary req) (free : (routerOf tc).Free req.path) :
    Proceeds rt s tc req ↔ (Consults rt req → Settled rt s req) := by
  constructor
  · intro proceeds consults
    obtain ⟨waits, handled, unaware⟩ := proceeds
    obtain ⟨found, looked, value⟩ := handled consults
    rw [handle_binary binary consults] at waits
    have source : rt.schema = .reflection → s.current ≠ none := (transcoderAnyAwait_waits_iff rt.schema s).mp waits
    refine ⟨⟨found, looked⟩, fun unloaded reflection => source reflection unloaded, ?_⟩
    intro unloaded bundle schema
    have same := congrArg Waited.value (unaware unloaded)
    rw [value, handle_binary binary consults, annotation_of_known req (by simp [schema])] at same
    have without : (routerOf tc).matchWs req.path req.query = .ok none :=
      ((routerOf tc).matchWs_none_iff req.path req.query).mpr free
    simp only [schema, transcoderAny, Option.getD_some, annotationOf, without, Waited.map, withRoute] at same
    obtain rfl := (binaryRoute_none_iff rt binary found).mp same.symm
    simp only [schema, transcoderAny, unloaded, Option.getD_none, annotationOf] at looked
    exact ((routerOf bundle).matchWs_none_iff req.path req.query).mp looked
  · intro settled
    by_cases consults : Consults rt req
    · obtain ⟨⟨found, looked⟩, source, bundles⟩ := settled consults
      have known : rt.schema = .reflection → s.current ≠ none := fun reflection unloaded =>
        source unloaded reflection
      have here : handle rt s req = ⟨[], binaryRoute rt req found⟩ := by
        rw [handle_binary binary consults, annotation_of_known req known, looked]
        rfl
      refine ⟨by rw [here], fun _ => ⟨found, looked, by rw [here]⟩, ?_⟩
      intro unloaded
      rw [here, handle_binary binary consults, annotation_of_known req (by simp)]
      rw [unloaded] at looked
      simp only [annotationOf_first req.query free (source unloaded) (bundles unloaded), looked, Waited.map,
        withRoute]
    · have alone := handle_unconsulted binary consults
      exact ⟨(alone s s).1, fun asks => absurd asks consults, fun _ => (alone _ s).2⟩

end

attribute [local instance] aliasSchema aliasReflect headerUpgrader slashUris

def reflectingProxy : Runtime := ⟨none, 4, false, .reflection⟩

theorem binary_proceeds_loaded : Proceeds reflectingProxy ⟨some ⟨none⟩, []⟩ ⟨none⟩ getFlags ↔
    (Consults reflectingProxy getFlags → Settled reflectingProxy ⟨some ⟨none⟩, []⟩ getFlags) :=
  binary_proceeds_iff reflectingProxy ⟨some ⟨none⟩, []⟩ (.fetch rfl (by decide)) nofun

/-- With an upstream that has no reflection service, every binary call waits for ten seconds. -/
theorem first_load_delays : ¬Proceeds reflectingProxy ⟨none, []⟩ ⟨none⟩ getFlags := by
  intro proceeds
  have waited : (handle reflectingProxy ⟨none, []⟩ getFlags).waits = [FIRST_LOAD_WAIT] := by decide
  exact absurd (waited.symm.trans proceeds.waits) (by decide)

end Fetch
end GrpcWebnext
