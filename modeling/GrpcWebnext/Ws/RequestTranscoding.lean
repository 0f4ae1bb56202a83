import GrpcWebnext.Fetch.JsonUpstream
import GrpcWebnext.Ws.RunStream

/-!
# JSON requests

What a JSON stream puts into the request body, next to what `json_fetch` does with the same
payload.
-/

namespace GrpcWebnext
namespace Ws

/-- A JSON stream past the resolution of its transcoder, which only yields one that knows the
method. -/
structure JsonStream [ProstReflect] where
  tc : Transcoder
  pathAndQuery : String
  ann : Option WsBinding
  known : tc.hasMethod (pathOf pathAndQuery) = true

variable [ProstReflect]

namespace JsonStream

def methodPath (s : JsonStream) : String := pathOf s.pathAndQuery

def transcode (s : JsonStream) (payload : Bytes) : Except TranscodeError Bytes :=
  transcodeRequest s.ann (some s.tc) s.methodPath payload

def body (s : JsonStream) (payloads : List Bytes) : List Bytes :=
  requestBody s.ann (some s.tc) s.methodPath payloads

/-- `HttpRouter::transcode` for a request that matches the route's binding. -/
def rest (s : JsonStream) (payload : Bytes) : Except TranscodeError (Option Fetch.HttpCall) :=
  match s.ann with
  | some ann => do
    let message ← ann.buildMessage payload
    pure (some ⟨ann.grpcMethod, message⟩)
  | none => pure none

def fetch [UriParser] (s : JsonStream) (payload : Bytes) : Fetch.JsonFetch :=
  Fetch.jsonFetch s.tc (s.rest payload) true false s.pathAndQuery payload

/-- Every frame of the body is the transcoding of the payload in its place. -/
def Faithful (s : JsonStream) (payloads : List Bytes) : Prop :=
  ∀ (i : Nat) (f : Bytes), (s.body payloads)[i]? = some f →
    ∃ p m, payloads[i]? = some p ∧ s.transcode p = .ok m ∧ f = GrpcFraming.frame m

def FetchRejects [UriParser] (s : JsonStream) (payloads : List Bytes) : Prop :=
  ∀ p ∈ payloads, ∀ e, s.transcode p = .error e →
    ∃ ct message, s.fetch p = .respond (Fetch.webnextError ct .invalidArgument message)

/-- The method is known on both paths, so a payload is what `json_fetch` can refuse. -/
theorem fetch_rejects [UriParser] (s : JsonStream) (payloads : List Bytes) :
    s.FetchRejects payloads := by
  intro p _ e failed
  unfold transcode transcodeRequest at failed
  unfold fetch rest Fetch.jsonFetch
  cases route : s.ann with
  | some ann =>
    simp only [route] at failed
    simp only [failed]
    exact ⟨_, _, rfl⟩
  | none =>
    simp only [route] at failed
    unfold methodPath at failed
    have known := s.known
    simp only [pure, Except.pure, known, failed, Bool.not_true, Bool.false_and, Bool.false_eq_true,
      ↓reduceIte]
    exact ⟨_, _, rfl⟩

theorem faithful_iff (s : JsonStream) (payloads : List Bytes) :
    s.Faithful payloads ↔ ∀ p ∈ payloads, ∃ m, s.transcode p = .ok m := by
  constructor
  · intro faithful p member
    obtain ⟨i, found⟩ := List.mem_iff_getElem?.mp member
    have sent : (s.body payloads)[i]? = some (requestFrame s.ann (some s.tc) s.methodPath p) := by
      simp [body, requestBody, List.getElem?_map, found]
    obtain ⟨q, m, at_, transcoded, _⟩ := faithful i _ sent
    obtain rfl : p = q := Option.some.inj (found.symm.trans at_)
    exact ⟨m, transcoded⟩
  · intro all i f sent
    simp only [body, requestBody, List.getElem?_map, Option.map_eq_some_iff] at sent
    obtain ⟨p, found, rfl⟩ := sent
    obtain ⟨m, transcoded⟩ := all p (List.mem_of_getElem? found)
    refine ⟨p, m, found, transcoded, ?_⟩
    unfold transcode at transcoded
    simp [requestFrame, transcoded, Except.toOption]

/-- A JSON stream keeps to its payloads exactly when each of them has a transcoding; another
reaches the backend as the empty message, while `json_fetch` refuses it. -/
theorem request_body_faithful_iff [UriParser] (s : JsonStream) (payloads : List Bytes) :
    (s.Faithful payloads ∧ s.FetchRejects payloads) ↔ ∀ p ∈ payloads, ∃ m, s.transcode p = .ok m := by
  constructor
  · intro both
    exact (s.faithful_iff payloads).mp both.1
  · intro all
    exact ⟨(s.faithful_iff payloads).mpr all, s.fetch_rejects payloads⟩

def flagStream : @JsonStream flagSchema :=
  letI := flagSchema
  ⟨⟨()⟩, "/flag.Flags/Get", none, by decide⟩

omit [ProstReflect] in
/-- The payload `true` is no JSON object. It reaches the backend as the default message. -/
theorem bad_payload_becomes_default :
    @body flagSchema flagStream [[116, 114, 117, 101]] = [GrpcFraming.frame []] ∧
    ¬@Faithful flagSchema flagStream [[116, 114, 117, 101]] := by
  have sent : @body flagSchema flagStream [[116, 114, 117, 101]] = [GrpcFraming.frame []] := rfl
  have refused : @transcode flagSchema flagStream [116, 114, 117, 101] =
      .error (.json "expected a map") := rfl
  refine ⟨sent, ?_⟩
  intro faithful
  obtain ⟨p, m, found, transcoded, _⟩ := faithful 0 (GrpcFraming.frame []) (by rw [sent]; rfl)
  obtain rfl : [116, 114, 117, 101] = p := Option.some.inj found
  rw [refused] at transcoded
  cases transcoded

end JsonStream
end Ws
end GrpcWebnext
