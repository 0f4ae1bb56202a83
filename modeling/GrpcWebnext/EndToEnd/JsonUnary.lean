import GrpcWebnext.Client.ReceivedHeaders
import GrpcWebnext.EndToEnd.FetchUnary
import GrpcWebnext.Fetch.MainPath
import GrpcWebnext.GrpcMessage

/-!
# A unary JSON call over Fetch from end to end

`FetchTransport.unary` in the JSON codec, and the server between it and the backend. The message is the body,
and the status rides in headers.
-/

namespace GrpcWebnext
namespace EndToEnd
namespace JsonUnary
open Client JsNumeral
open Client.Responses (FetchResponse Headers Solid received fromHeaders fetchUnary decodeURIComponent)
open Client.Calls (UnaryResponse)
open Fetch (HttpResponse jsonFetchResponse mainJson collectBounded jsonUpstream webnextError)
open GrpcFraming (deframeAll)
open Metadata (percentEncode)
open HttpRule (DynamicReflect)

/-! ### What a call is to come to -/

structure Settled where
  code : Nat
  details : String
  body : Bytes := []
  initial : HeaderMap := []
  trailing : HeaderMap := []
  deriving DecidableEq

def Settled.of (code : Code) (details : String) : Settled := { code := code.toNat, details }

def Settled.response (s : Settled) : HttpResponse := jsonFetchResponse .sdk s.body s.code s.details s.initial s.trailing

theorem Settled.of_code (code : Code) (details : String) : (Settled.of code details).code < 2 ^ 32 :=
  Nat.lt_trans code.toNat_lt (by decide)

@[simp] theorem Settled.of_response (code : Code) (details : String) :
    (Settled.of code details).response = webnextError .sdk code details := rfl

section

variable [ProstReflect]

/-- Of a response that came whole. -/
def answer (tc : Transcoder) (path : String) (headers : HeaderMap) (frames : List (Nat × BodyFrame)) : Settled :=
  let trailers := (Fetch.collectTrailers none frames).getD []
  let message := (deframeAll (Arrivals.bytes frames)).headD []
  let (code, details) := Metadata.readStatus trailers headers
  if code = 0 ∧ message ≠ [] then
    match tc.responseProtoToJson path message with
    | .ok body => ⟨code, details, body, headers, trailers⟩
    | .error e => .of .internal s!"bad json response: {e.toString}"
  else ⟨code, details, [], headers, trailers⟩

/-- Of a call at the backend. One deadline bounds the call and its body. -/
def settled (tc : Transcoder) (path : String) (deadline : Option Nat) : Call → Option Settled
  | none => deadline.map fun _ => .of .deadlineExceeded "deadline exceeded"
  | some (ready, answered) =>
    if inTime deadline 0 ready then
      match answered with
      | .error e => some (.of .unavailable s!"upstream: {e}")
      | .ok resp =>
        let seen := arrivals deadline ready resp.body
        match seen.halt with
        | .eof _ => some (answer tc path resp.headers seen.frames)
        | .error _ e => some (.of .unavailable s!"upstream body: {e}")
        | .timeout _ => some (.of .deadlineExceeded "deadline exceeded")
        | .pending => none
    else some (.of .deadlineExceeded "deadline exceeded")

/-- Of a whole upload of `json`. -/
def outcome (limit : Nat) (tc : Transcoder) (path : String) (deadline : Option Nat) (json : Bytes) (call : Call) :
    Option Settled :=
  if limit < json.length then some (.of .resourceExhausted "request message exceeds size limit")
  else match tc.requestJsonToProto path json with
    | .error e => some (.of .invalidArgument s!"bad json request: {e.toString}")
    | .ok _ => settled tc path deadline call

/-! ### What the server makes of it -/

theorem renderJson_eq (tc : Transcoder) (pq : String) (headers : HeaderMap) (frames : List (Nat × BodyFrame)) :
    Fetch.renderJson tc pq .sdk headers frames = (answer tc (pathOf pq) headers frames).response := by
  unfold Fetch.renderJson answer
  rw [List.headD_eq_head?_getD]
  simp only []
  split
  · cases tc.responseProtoToJson (pathOf pq) ((deframeAll (Arrivals.bytes frames)).head?.getD []) with
    | ok body => rfl
    | error e => exact (Settled.of_response _ _).symm
  · rfl

theorem jsonUpstream_eq (tc : Transcoder) (pq : String) (deadline : Option Nat) (call : Call) :
    (jsonUpstream tc pq .sdk deadline call).map Prod.snd =
      (settled tc (pathOf pq) deadline call).map Settled.response := by
  rcases call with _ | ⟨ready, answered⟩
  · cases deadline <;> simp only [jsonUpstream, settled, Option.map_none, Option.map_some, Settled.of_response]
  by_cases ontime : inTime deadline 0 ready = true
  · cases answered with
    | error e => simp only [jsonUpstream, settled, if_pos ontime, Option.map_some, Settled.of_response]
    | ok resp =>
      simp only [jsonUpstream, settled, if_pos ontime]
      cases (arrivals deadline ready resp.body).halt with
      | eof now => simp only [Option.map_some, renderJson_eq]
      | error now e => simp only [Option.map_some, Settled.of_response]
      | timeout now => simp only [Option.map_some, Settled.of_response]
      | pending => rfl
  · simp only [jsonUpstream, settled, if_neg ontime, Option.map_some, Settled.of_response]

theorem answer_code (tc : Transcoder) (path : String) (headers : HeaderMap) (frames : List (Nat × BodyFrame)) :
    (answer tc path headers frames).code < 2 ^ 32 := by
  have status := Metadata.readStatus_lt ((Fetch.collectTrailers none frames).getD []) headers
  unfold answer
  simp only []
  split
  · cases tc.responseProtoToJson path ((deframeAll (Arrivals.bytes frames)).headD []) with
    | ok body => exact status
    | error e => exact Settled.of_code _ _
  · exact status

theorem settled_code {tc : Transcoder} {path : String} {deadline : Option Nat} {call : Call} {s : Settled}
    (comes : settled tc path deadline call = some s) : s.code < 2 ^ 32 := by
  rcases call with _ | ⟨ready, answered⟩
  · obtain ⟨_, _, rfl⟩ := Option.map_eq_some_iff.mp comes
    exact Settled.of_code _ _
  by_cases ontime : inTime deadline 0 ready = true
  · cases answered with
    | error e =>
      simp only [settled, if_pos ontime, Option.some.injEq] at comes
      exact comes ▸ Settled.of_code _ _
    | ok resp =>
      simp only [settled, if_pos ontime] at comes
      cases halt : (arrivals deadline ready resp.body).halt with
      | eof now =>
        simp only [halt, Option.some.injEq] at comes
        exact comes ▸ answer_code tc path resp.headers _
      | error now e =>
        simp only [halt, Option.some.injEq] at comes
        exact comes ▸ Settled.of_code _ _
      | timeout now =>
        simp only [halt, Option.some.injEq] at comes
        exact comes ▸ Settled.of_code _ _
      | pending =>
        simp only [halt] at comes
        cases comes
  · simp only [settled, if_neg ontime, Option.some.injEq] at comes
    exact comes ▸ Settled.of_code _ _

end

/-- The upload in any chunks. -/
theorem collectBounded_chunks {max : Nat} {buf : Bytes} (room : buf.length ≤ max) (chunks : List Bytes) :
    collectBounded max buf (chunks.map .data ++ [.eof]) =
      if max < buf.length + chunks.flatten.length then
        .rejected (webnextError .sdk .resourceExhausted "request message exceeds size limit")
      else .collected (buf ++ chunks.flatten) := by
  induction chunks generalizing buf with
  | nil =>
    rw [if_neg (by simpa using room), List.flatten_nil, List.append_nil]
    rfl
  | cons chunk chunks ih =>
    show (if buf.length + chunk.length > max then _ else collectBounded max (buf ++ chunk) (chunks.map .data ++ [.eof])) = _
    rw [List.flatten_cons, List.length_append]
    by_cases large : buf.length + chunk.length > max
    · rw [if_pos large, if_pos (by omega)]
    · rw [if_neg large, ih (by rw [List.length_append]; omega), List.length_append, Nat.add_assoc, List.append_assoc]

/-! ### What the client makes of it -/

/-- What becomes of the headers on the way into the `Headers` of the browser: a single value arrives as its
text, but for blanks around it. -/
structure Carries (carry : HeaderMap → Headers) : Prop where
  one : ∀ h name v text, h.getAll name = [v] → v.toStr = some text → Solid text → (carry h).get name.name = some text
  none : ∀ h name, h.getAll name = [] → (carry h).get name.name = none

def arrived (carry : HeaderMap → Headers) (response : HttpResponse) : FetchResponse :=
  ⟨response.status, carry response.headers, none, some response.body⟩

theorem status_header (s : Settled) : s.response.headers.getAll .grpcStatus = [HeaderValue.ofNat s.code] := by
  have denied : Metadata.isDenied .grpcStatus = true := by decide
  have type_ : (HeaderName.contentType = HeaderName.grpcStatus) = False := by decide
  have message_ : (HeaderName.grpcMessage = HeaderName.grpcStatus) = False := by decide
  unfold Settled.response jsonFetchResponse
  simp only [Metadata.getAll_merge, denied, if_true, List.append_nil]
  split
  · simp [HeaderMap.getAll_cons, type_]
  · split <;> simp [HeaderMap.getAll_append, HeaderMap.getAll_cons, type_, message_]

theorem message_header (s : Settled) : s.response.headers.getAll .grpcMessage =
    if s.details.isEmpty then [] else (HeaderValue.fromStr (percentEncode s.details)).toList := by
  have denied : Metadata.isDenied .grpcMessage = true := by decide
  have type_ : (HeaderName.contentType = HeaderName.grpcMessage) = False := by decide
  have status_ : (HeaderName.grpcStatus = HeaderName.grpcMessage) = False := by decide
  unfold Settled.response jsonFetchResponse
  simp only [Metadata.getAll_merge, denied, if_true, List.append_nil]
  split
  · simp [HeaderMap.getAll_cons, type_, status_]
  · cases HeaderValue.fromStr (percentEncode s.details) <;>
      simp [HeaderMap.getAll_append, HeaderMap.getAll_cons, type_, status_]

theorem solid_repr (n : Nat) : Solid n.repr := by
  apply Responses.Solid.of_mem
  intro c member
  have digit := HeaderValue.repr_digit member
  constructor <;> rintro rfl <;> exact absurd digit (by decide)

theorem hexDigit_solid {n : Nat} (small : n < 16) :
    Char.ofNat (Percent.hexDigit n).toNat ≠ ' ' ∧ Char.ofNat (Percent.hexDigit n).toNat ≠ '\t' := by
  have all : ∀ n : Fin 16, Char.ofNat (Percent.hexDigit n).toNat ≠ ' ' ∧ Char.ofNat (Percent.hexDigit n).toNat ≠ '\t' := by
    decide
  exact all ⟨n, small⟩

theorem encodeText_solid (kept : Percent.Kept) {c : Char} (solid : c ≠ ' ' ∧ c ≠ '\t') {d : Char}
    (member : d ∈ kept.encodeText [c]) : d ≠ ' ' ∧ d ≠ '\t' := by
  rcases GrpcMessage.encodeText_char kept c with ⟨stays, _⟩ | escaped
  · rw [stays, List.mem_singleton] at member
    rwa [member]
  · rw [escaped] at member
    obtain ⟨b, _, inside⟩ := List.mem_flatMap.mp member
    have byte := b.toNat_lt
    simp only [GrpcMessage.escapeChars, List.mem_cons, List.not_mem_nil, or_false] at inside
    rcases inside with rfl | rfl | rfl
    · decide
    · exact hexDigit_solid (by omega)
    · exact hexDigit_solid (by omega)

theorem solid_encodeText (kept : Percent.Kept) {text : String} (solid : Solid text) :
    Solid (String.ofList (kept.encodeText text.toList)) := by
  have some_ (c : Char) : kept.encodeText [c] ≠ [] := fun empty =>
    absurd ((kept.encodeText_eq_nil_iff [c]).mp empty) (List.cons_ne_nil c [])
  have join (first second : List Char) : kept.encodeText (first ++ second) = kept.encodeText first ++ kept.encodeText second := by
    simp only [Percent.Kept.encodeText, Percent.Kept.encode, List.flatMap_append, List.map_append]
  unfold Solid at *
  rw [String.toList_ofList]
  generalize text.toList = cs at solid
  obtain ⟨front, back⟩ := solid
  constructor
  · intro d first
    cases cs with
    | nil => cases first
    | cons c rest =>
      rw [GrpcMessage.encodeText_cons, List.head?_append_of_ne_nil _ (some_ c)] at first
      exact encodeText_solid _ (front c rfl) (List.mem_of_mem_head? first)
  · intro d last
    rcases List.eq_nil_or_concat cs with rfl | ⟨init, c, rfl⟩
    · cases last
    · rw [List.concat_eq_append] at last back
      rw [join, List.getLast?_append_of_ne_nil _ (some_ c)] at last
      exact encodeText_solid _ (back c (by simp)) (List.mem_of_getLast? last)

theorem received_carries : Carries received :=
  ⟨fun _ _ _ _ single reads solid => Responses.received_one single reads solid, fun _ _ absent => Responses.received_none absent⟩

section

variable [JsString]

def Settled.read (maxMessageBytes : Nat) (carry : HeaderMap → Headers) (s : Settled) : Option (UnaryResponse Value) :=
  if maxMessageBytes < s.response.body.length then none
  else (fromHeaders (carry s.response.headers)).map fun md => ⟨s.response.body, md, ⟨.finite s.code, s.details, md⟩⟩

theorem fetchUnary_read {carry : HeaderMap → Headers} (carries : Carries carry) {maxMessageBytes : Nat} {s : Settled}
    (small : s.code < 2 ^ 32) (solid : Solid s.details) :
    fetchUnary maxMessageBytes (arrived carry s.response) = s.read maxMessageBytes carry := by
  have ok : ¬¬(200 ≤ 200 ∧ 200 ≤ 299) := by decide
  have code : (carry s.response.headers).get "grpc-status" = some s.code.repr :=
    carries.one _ .grpcStatus _ _ (status_header s) (HeaderValue.toStr_ofNat s.code) (solid_repr s.code)
  have details : decodeURIComponent (((carry s.response.headers).get "grpc-message").getD "") = some s.details := by
    have header := message_header s
    by_cases empty : s.details.isEmpty = true
    · rw [if_pos empty] at header
      rw [show (carry s.response.headers).get "grpc-message" = none from carries.none _ .grpcMessage header,
        String.isEmpty_iff.mp empty]
      rfl
    · obtain ⟨v, made, text⟩ := GrpcMessage.percentEncode_headerValue s.details
      rw [if_neg empty, made] at header
      rw [show (carry s.response.headers).get "grpc-message" = some (percentEncode s.details) from
        carries.one _ .grpcMessage v _ header text (solid_encodeText GrpcMessage.unescaped solid)]
      exact GrpcMessage.decodeURIComponent_percentEncode s.details
  have status : s.response.status = 200 := rfl
  simp only [fetchUnary, arrived, status, if_neg ok, Settled.read, Option.bind_eq_bind, Option.bind_some, code, details,
    Option.getD_some, number_repr (Nat.lt_trans small (by decide))]
  by_cases large : maxMessageBytes < s.response.body.length
  · rw [if_pos large, if_pos large]
  · rw [if_neg large, if_neg large]
    cases fromHeaders (carry s.response.headers) <;> rfl

/-! ### The call -/

section

variable [ProstReflect] [DynamicReflect] [Fetch.Upgrader] [UriParser]

/-- What `unary` comes to: none while it waits. -/
def exchange (maxMessageBytes : Nat) (carry : HeaderMap → Headers) (tc : Transcoder) (deadline : Option Nat) (call : Call) :
    Fetch.Handled → Option (Option (UnaryResponse Value))
  | .json (.respond response) => some (fetchUnary maxMessageBytes (arrived carry response))
  | .json (.upstream pq _ respCt) =>
    (jsonUpstream tc pq respCt deadline call).map fun sent => fetchUnary maxMessageBytes (arrived carry sent.2)
  | .json (.text response) | .text response => some (fetchUnary maxMessageBytes
      ⟨response.status, carry [], some response.message, some (Utf8.encode response.message)⟩)
  | _ => none

end

end

attribute [local instance] HttpRule.aliasSchema HttpRule.aliasReflect Fetch.headerUpgrader slashUris BinaryMetadata.asciiLower

def getFlag : Fetch.Request where
  method := "POST"
  uri := some Fetch.getPath
  headers := [(.contentType, Fetch.JsonCt.sdk.value)]
  body := [flagJson.take 4, flagJson.drop 4].map .data ++ [.eof]

def raised : Call :=
  some (2, .ok ⟨200, [], [(3, .data [0, 0, 0, 0]), (4, .data [2, 8, 1]),
    (4, .trailers [(.grpcStatus, HeaderValue.ofNat 0)]), (4, .eof)]⟩)

def flagServer : Fetch.Runtime := ⟨none, 64, false, .bundled ⟨some "/v1/flags/{name}"⟩⟩

theorem getPath_free : (Fetch.routerOf ⟨some "/v1/flags/{name}"⟩).Free Fetch.getPath.path := by
  have all : ((Fetch.routerOf ⟨some "/v1/flags/{name}"⟩).bindings.all fun b =>
      (HttpRule.matchSegments b.segments Fetch.getPath.path).toOption.map Option.isNone = some true) = true := by
    decide +kernel
  intro b member
  have own := List.all_eq_true.mp all b member
  cases found : HttpRule.matchSegments b.segments Fetch.getPath.path with
  | error p => simp [found, Except.toOption] at own
  | ok vars => simpa [found, Except.toOption] using own

end JsonUnary
end EndToEnd
end GrpcWebnext
