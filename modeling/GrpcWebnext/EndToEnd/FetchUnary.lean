import GrpcWebnext.Client.FetchFrame
import GrpcWebnext.Client.Responses
import GrpcWebnext.StreamedResponse

/-!
# A unary call over Fetch from end to end

`FetchTransport.unary` in the binary codec, and the server between it and the backend. The bodies are cut into
chunks in any way, on both sides of the server.
-/

namespace GrpcWebnext
namespace EndToEnd
namespace FetchUnary
open Client JsNumeral
open Client.Responses (FetchResponse Headers fromHeaders)
open Client.Calls (UnaryResponse)
open GrpcFraming (deframeAll)
open StreamedResponse (bodyBytes endTrailer)

/-- `encodeFetchRequestBody` -/
def encodeFetchRequestBody (message : Bytes) : Bytes := putU32 message.length ++ message

/-! ### What arrives -/

/-- The body holds no second block behind its first. -/
theorem not_holds {body message m tb : Bytes} {limit : Nat} (small : message.length < 2 ^ 32)
    (inside : body <+: putU32 message.length ++ message) : ¬Holds body limit m tb := by
  intro holds
  have long := holds.blocks.length_le
  have short := inside.length_le
  simp only [List.length_append, putU32_length] at long short
  have first : putU32 m.length ++ m <+: putU32 message.length ++ message :=
    (List.prefix_append _ _).trans (holds.blocks.trans inside)
  have same : m.length = message.length := by
    obtain ⟨more, whole⟩ := first
    have read := congrArg getU32 whole
    rwa [List.append_assoc, getU32_putU32 holds.small, getU32_putU32 small] at read
  omega

/-- A prefix of a frame, behind its flag. -/
theorem drop_flag {body message : Bytes} (inside : body <+: GrpcFraming.frame message) :
    body.drop 1 <+: putU32 message.length ++ message := by
  obtain ⟨more, whole⟩ := inside
  cases body with
  | nil => exact List.nil_prefix
  | cons flag rest =>
    have tail := congrArg List.tail whole
    exact ⟨more, tail⟩

theorem deframeAll_frame {message : Bytes} (small : message.length < 2 ^ 32) :
    deframeAll (GrpcFraming.frame message) = [message] := by
  have next : GrpcFraming.grpc.next (GrpcFraming.frame message) = some (message, []) := by
    simpa using GrpcFraming.next_frame small []
  rw [GrpcFraming.deframeAll_eq, LengthPrefix.Format.drain_some next, LengthPrefix.Format.drain_nil]

section

variable [JsString]

/-- `FetchTransport.unary` in the binary codec, behind the request: `none` if it rejects. -/
def fetchUnary (decode : Bytes → Option Trailer) (maxMessageBytes : Nat) (res : FetchResponse) :
    Option (UnaryResponse Value) :=
  if ¬(200 ≤ res.status ∧ res.status ≤ 299) then
    some ⟨[], .empty, ⟨.finite 14, "HTTP " ++ res.status.repr ++ ": " ++ res.text.getD "", Metadata.empty⟩⟩
  else do
    let body ← res.body
    if maxMessageBytes < body.length then none
    else do
      let (message, trailer) ← (decodeFetchResponseBody decode (.ofBytes body) maxMessageBytes).toOption
      let headers ← fromHeaders res.headers
      pure ⟨message.bytes, headers,
        ⟨.finite trailer.statusCode, trailer.statusMessage, .fromMetadatumList trailer.trailers⟩⟩

/-- A body that was cut behind the first block or in it is no response. -/
theorem fetchUnary_breaks {decode : Bytes → Option Trailer} {maxMessageBytes : Nat} {headers : Headers} {body message : Bytes} (small : message.length < 2 ^ 32)
    (inside : body <+: putU32 message.length ++ message) :
    fetchUnary decode maxMessageBytes ⟨200, headers, none, some body⟩ = none := by
  have ok : ¬¬(200 ≤ 200 ∧ 200 ≤ 299) := by decide
  simp only [fetchUnary, if_neg ok, Option.bind_eq_bind, Option.bind_some]
  split
  · rfl
  · have none_ : (decodeFetchResponseBody decode (.ofBytes body) maxMessageBytes).toOption = none := by
      cases read : decodeFetchResponseBody decode (.ofBytes body) maxMessageBytes with
      | error => rfl
      | ok got =>
        obtain ⟨view, trailer⟩ := got
        obtain ⟨tb, holds, _⟩ := (decodeFetchResponseBody_eq_ok_iff decode).mp ⟨view, rfl, read⟩
        rw [Uint8Array.bytes_ofBytes] at holds
        exact absurd holds (not_holds small inside)
    rw [none_]
    rfl

/-! ### What a call is to come to -/

/-- Of a call at the backend, once all that it caused has happened: no end, a response that breaks off, or a response
with a message and a trailer. -/
inductive Verdict where
  | waits
  | breaks
  | answers (headers : HeaderMap) (message : Bytes) (trailer : Trailer)
  deriving DecidableEq

def Verdict.status (code : Code) (text : String) : Verdict :=
  .answers [(.contentType, Fetch.CT_PROTO)] [] ⟨code.toNat, text, []⟩

/-- What of a response arrived in time. -/
def Seen (deadline : Option Nat) (ready : Nat) (resp : Response) : Arrivals :=
  arrivals (deadline.map (ready + ·)) ready resp.body

def responseHeaders (resp : Response) : HeaderMap :=
  if resp.headers.containsKey .grpcStatus then [(.contentType, Fetch.CT_PROTO)]
  else Metadata.mergeMetadataIntoHeaders resp.headers [(.contentType, Fetch.CT_PROTO)]

/-- A deadline turns into a status as long as no byte of the message has gone out. -/
def streamVerdict (resp : Response) (seen : Arrivals) : Verdict :=
  let trailer := endTrailer resp.headers (Arrivals.lastTrailers [] seen.frames)
  match seen.halt with
  | .pending => .waits
  | .error _ _ => .breaks
  | .eof _ => .answers (responseHeaders resp) ((deframeAll (Arrivals.bytes seen.frames)).headD []) trailer
  | .timeout _ =>
    if 1 < (Arrivals.bytes seen.frames).length then .breaks
    else .answers (responseHeaders resp) [] ⟨Code.deadlineExceeded.toNat, "deadline exceeded", trailer.trailers⟩

def verdict (deadline : Option Nat) : Call → Verdict
  | none => if deadline.isSome then .status .deadlineExceeded "deadline exceeded" else .waits
  | some (ready, answer) =>
    if inTime deadline 0 ready then
      match answer with
      | .error e => .status .unavailable s!"upstream: {e}"
      | .ok resp => streamVerdict resp (Seen deadline ready resp)
    else .status .deadlineExceeded "deadline exceeded"

/-- At most one message was seen, and a whole one if the body ended. -/
def Single (seen : Arrivals) : Prop :=
  ∃ message : Bytes, message.length < 2 ^ 32 ∧ Arrivals.bytes seen.frames <+: GrpcFraming.frame message ∧
    ∀ now, seen.halt = .eof now → Arrivals.bytes seen.frames = [] ∨ Arrivals.bytes seen.frames = GrpcFraming.frame message

def Unary (deadline : Option Nat) (call : Call) : Prop :=
  ∀ ready resp, call = some (ready, .ok resp) → Single (Seen deadline ready resp)

/-! ### What the client makes of it -/

variable [Prost]

/-- What of a response has arrived at the client when it has ended. `carry` is what becomes of its headers on the
way into the `Headers` of the browser. -/
def arrived (carry : HeaderMap → Headers) (response : Fetch.UnaryResponse) : Option FetchResponse :=
  match response.ending with
  | .pending => none
  | .failed _ => some ⟨200, carry response.headers, none, none⟩
  | .complete => some ⟨200, carry response.headers, none, some (bodyBytes response.chunks)⟩
  | .truncated => some ⟨200, carry response.headers, none, some (bodyBytes response.chunks)⟩

def Verdict.settle (maxMessageBytes : Nat) (carry : HeaderMap → Headers) : Verdict → Option (Option (UnaryResponse Value))
  | .waits => none
  | .breaks => some none
  | .answers headers message trailer => some (
      if maxMessageBytes < (Framing.encodeResponseBody message trailer).length then none
      else (fromHeaders (carry headers)).map fun md =>
        ⟨message, md, ⟨.finite trailer.statusCode, trailer.statusMessage, .fromMetadatumList trailer.trailers⟩⟩)

section

variable {decode : Bytes → Option Trailer} {maxMessageBytes : Nat} {carry : HeaderMap → Headers}

theorem fetchUnary_answers {headers : HeaderMap} {message : Bytes} {trailer : Trailer}
    (small : message.length < 2 ^ 32) (smallTrailer : (Prost.encodeTrailer trailer).length < 2 ^ 32)
    (roundTrip : decode (Prost.encodeTrailer trailer) = some trailer) :
    some (fetchUnary decode maxMessageBytes ⟨200, carry headers, none, some (Framing.encodeResponseBody message trailer)⟩) =
      (Verdict.answers headers message trailer).settle maxMessageBytes carry := by
  have ok : ¬¬(200 ≤ 200 ∧ 200 ≤ 299) := by decide
  simp only [fetchUnary, Verdict.settle, if_neg ok, Option.bind_eq_bind, Option.bind_some]
  by_cases large : maxMessageBytes < (Framing.encodeResponseBody message trailer).length
  · rw [if_pos large, if_pos large]
  · rw [if_neg large, if_neg large]
    have holds : Holds (Framing.encodeResponseBody message trailer) maxMessageBytes message (Prost.encodeTrailer trailer) :=
      ⟨Nat.le_of_not_lt large, small, smallTrailer, List.prefix_rfl⟩
    obtain ⟨view, read, decoded⟩ := (decodeFetchResponseBody_eq_ok_iff decode).mpr
      ⟨_, (Uint8Array.bytes_ofBytes (Framing.encodeResponseBody message trailer)).symm ▸ holds, roundTrip⟩
    rw [decoded, ← read]
    cases fromHeaders (carry headers) <;> rfl

theorem settles_status (now : Nat) (code : Code) (text : String)
    (smallTrailer : (Prost.encodeTrailer ⟨code.toNat, text, []⟩).length < 2 ^ 32)
    (roundTrip : decode (Prost.encodeTrailer ⟨code.toNat, text, []⟩) = some ⟨code.toNat, text, []⟩) :
    (arrived carry (Fetch.fetchStatus now code text)).map (fetchUnary decode maxMessageBytes) =
      (Verdict.status code text).settle maxMessageBytes carry := by
  rw [Verdict.status, ← fetchUnary_answers (by decide) smallTrailer roundTrip]
  simp [arrived, Fetch.fetchStatus, bodyBytes, Fetch.Chunk.bytes, Framing.encodeResponseBody, Framing.EMPTY_MESSAGE_BLOCK,
    putU32]

theorem stream_settles {resp : Response} {seen : Arrivals} (single : Single seen)
    (readable : ∀ headers message trailer, streamVerdict resp seen = .answers headers message trailer →
      decode (Prost.encodeTrailer trailer) = some trailer ∧ (Prost.encodeTrailer trailer).length < 2 ^ 32) :
    (arrived carry ⟨responseHeaders resp, (Fetch.unaryStream resp.headers seen.halt {} seen.frames).1,
        (Fetch.unaryStream resp.headers seen.halt {} seen.frames).2⟩).map (fetchUnary decode maxMessageBytes) =
      (streamVerdict resp seen).settle maxMessageBytes carry := by
  obtain ⟨message, small, inside, whole⟩ := single
  obtain ⟨frames, halt⟩ := seen
  cases halt with
  | pending =>
    rw [Fetch.unaryStream_eq]
    rfl
  | error now e =>
    rw [Fetch.unaryStream_eq]
    rfl
  | eof now =>
    obtain ⟨sent, framed, read, short⟩ : ∃ sent : Option Bytes,
        Arrivals.bytes frames = (sent.map GrpcFraming.frame).getD [] ∧
          (deframeAll (Arrivals.bytes frames)).headD [] = sent.getD [] ∧ (sent.getD []).length < 2 ^ 32 := by
      rcases whole now rfl with empty | framed
      · exact ⟨none, empty, by rw [empty]; rfl, by decide⟩
      · exact ⟨some message, framed, by rw [framed, deframeAll_frame small]; rfl, small⟩
    obtain ⟨blocks, complete⟩ := StreamedResponse.unaryStream_blocks resp.headers now framed
    obtain ⟨roundTrip, smallTrailer⟩ := readable _ _ _ rfl
    rw [arrived, complete, streamVerdict, read, ← fetchUnary_answers short smallTrailer roundTrip, ← blocks]
    rfl
  | timeout now =>
    have sent := StreamedResponse.bodyBytes_forwarded (Fetch.UnaryLoop.skip {}) frames
    have behind : (Arrivals.bytes frames).drop 1 <+: putU32 message.length ++ message := drop_flag inside
    rw [Fetch.unaryStream_eq]
    by_cases out : 1 < (Arrivals.bytes frames).length
    · have ends : streamVerdict resp ⟨frames, .timeout now⟩ = .breaks := if_pos out
      have cut : Fetch.unaryFinish resp.headers (Fetch.UnaryLoop.read {} frames) true now = ([], .truncated) := by
        simp [Fetch.unaryFinish, Fetch.UnaryLoop.read, out]
      rw [ends, Fetch.unaryStream, cut]
      simp only [arrived, List.append_nil, sent, Option.map_some]
      rw [fetchUnary_breaks small behind]
      rfl
    · have ends : streamVerdict resp ⟨frames, .timeout now⟩ = .answers (responseHeaders resp) [] _ := if_neg out
      obtain ⟨roundTrip, smallTrailer⟩ := readable _ _ _ ends
      rw [ends, ← fetchUnary_answers (by decide) smallTrailer roundTrip]
      have empty : (Arrivals.bytes frames).drop 1 = [] := List.drop_eq_nil_of_le (by omega)
      have blocks : bodyBytes (Fetch.unaryFinish resp.headers (Fetch.UnaryLoop.read {} frames) true now).1 =
            Framing.encodeResponseBody [] ⟨Code.deadlineExceeded.toNat, "deadline exceeded",
              (endTrailer resp.headers (Arrivals.lastTrailers [] frames)).trailers⟩ ∧
          (Fetch.unaryFinish resp.headers (Fetch.UnaryLoop.read {} frames) true now).2 = .complete := by
        simp [Fetch.unaryFinish, Fetch.UnaryLoop.read, out, bodyBytes, Fetch.Chunk.bytes, Framing.encodeResponseBody,
          Framing.EMPTY_MESSAGE_BLOCK, putU32, endTrailer]
      rw [Fetch.unaryStream, arrived, blocks.2]
      simp only [StreamedResponse.bodyBytes_append, sent, empty, List.nil_append, blocks.1, Option.map_some]

/-- The client reads the response of `unary_proto` as the call is to come to. -/
theorem response_settles {deadline : Option Nat} {call : Call} (unary : Unary deadline call)
    (readable : ∀ headers message trailer, verdict deadline call = .answers headers message trailer →
      decode (Prost.encodeTrailer trailer) = some trailer ∧ (Prost.encodeTrailer trailer).length < 2 ^ 32) :
    ((Fetch.unaryProtoResponse deadline call).bind (arrived carry)).map (fetchUnary decode maxMessageBytes) =
      (verdict deadline call).settle maxMessageBytes carry := by
  have status {now : Nat} {code : Code} {text : String} (ends : verdict deadline call = .status code text) :
      (arrived carry (Fetch.fetchStatus now code text)).map (fetchUnary decode maxMessageBytes) =
        (verdict deadline call).settle maxMessageBytes carry := by
    obtain ⟨roundTrip, small⟩ := readable _ _ _ ends
    rw [ends]
    exact settles_status now code text small roundTrip
  rcases call with _ | ⟨ready, answer⟩
  · cases deadline with
    | none => rfl
    | some d => exact status rfl
  by_cases ontime : inTime deadline 0 ready = true
  · cases answer with
    | error e =>
      simp only [Fetch.unaryProtoResponse, if_pos ontime, Option.bind_some]
      exact status (if_pos ontime)
    | ok resp =>
      have ends : verdict deadline (some (ready, .ok resp)) = streamVerdict resp (Seen deadline ready resp) := if_pos ontime
      rw [ends] at readable ⊢
      rw [← stream_settles (unary ready resp rfl) readable]
      simp only [Fetch.unaryProtoResponse, if_pos ontime, Option.bind_some]
      rfl
  · simp only [Fetch.unaryProtoResponse, if_neg ontime, Option.bind_some]
    exact status (if_neg ontime)

/-! ### The call -/

/-- What `unary` comes to when the body `upload` is sent: none while it waits. -/
def exchange (decode : Bytes → Option Trailer) (maxMessageBytes limit : Nat) (carry : HeaderMap → Headers)
    (deadline : Option Nat) (upload : Body) (call : Call) : Option (Option (UnaryResponse Value)) :=
  match Fetch.frameUpstreamRequest limit [] upload with
  | .pending => none
  | .rejected text => some (fetchUnary decode maxMessageBytes
      ⟨text.status, carry [], some text.message, some (Utf8.encode text.message)⟩)
  | .forwarded _ => ((Fetch.unaryProtoResponse deadline call).bind (arrived carry)).map (fetchUnary decode maxMessageBytes)

/-- A message within the limit reaches the backend as one gRPC frame, however its upload was cut, and the client
resolves with what the backend answered, or rejects where the answer broke off or does not fit; at no time has the
backend more than the beginning of that frame. -/
theorem unary_call (limit : Nat) {message : Bytes} (small : message.length < 2 ^ 32) {upload : Body}
    (inside : upload.bytes <+: encodeFetchRequestBody message) {deadline : Option Nat} {call : Call}
    (unary : Unary deadline call)
    (readable : ∀ headers message trailer, verdict deadline call = .answers headers message trailer →
      decode (Prost.encodeTrailer trailer) = some trailer ∧ (Prost.encodeTrailer trailer).length < 2 ^ 32) :
    (∀ out, Fetch.frameUpstreamRequest limit [] upload = .forwarded out → out.bytes <+: GrpcFraming.frame message) ∧
    (upload.bytes = encodeFetchRequestBody message →
      if message.length ≤ limit then
        (∃ out, Fetch.frameUpstreamRequest limit [] upload = .forwarded out ∧ deframeAll out.bytes = [message]) ∧
          exchange decode maxMessageBytes limit carry deadline upload call =
            (verdict deadline call).settle maxMessageBytes carry
      else ∃ text, exchange decode maxMessageBytes limit carry deadline upload call =
        some (some ⟨[], .empty, ⟨.finite 14, "HTTP 413: " ++ text, .empty⟩⟩)) := by
  have spec := Fetch.frameUpstreamRequest_spec limit [] upload
  simp only [List.nil_append, List.cons_append] at spec
  refine ⟨?_, ?_⟩
  · intro out forwarded
    rcases spec with ⟨_, _, same⟩ | ⟨_, _, _, same⟩ | ⟨_, _, _, same⟩ | ⟨_, _, _, same, bytes⟩
    · cases same.symm.trans forwarded
    · cases same.symm.trans forwarded
    · cases same.symm.trans forwarded
    · cases same.symm.trans forwarded
      rw [bytes]
      exact (List.prefix_cons_inj 0).mpr inside
  · intro whole
    have declared : getU32 upload.bytes = message.length := by rw [whole, encodeFetchRequestBody, getU32_putU32 small]
    have full : 4 ≤ upload.bytes.length := by rw [whole, encodeFetchRequestBody, List.length_append, putU32_length]; omega
    rw [declared] at spec
    by_cases fits : message.length ≤ limit
    · rw [if_pos fits]
      obtain ⟨_, _, out, forwarded, bytes⟩ := ((spec.resolve_left fun h => by omega).resolve_left fun h => by omega).resolve_left
        fun h => by omega
      have framed : out.bytes = GrpcFraming.frame message := by
        rw [bytes, whole]
        rfl
      refine ⟨⟨out, forwarded, framed ▸ deframeAll_frame small⟩, ?_⟩
      rw [exchange, forwarded]
      exact response_settles unary readable
    · rw [if_neg fits]
      obtain ⟨_, _, text, rejected⟩ := ((spec.resolve_left fun h => by omega).resolve_left fun h => by omega).resolve_right
        fun h => by omega
      have failed : ¬(200 ≤ 413 ∧ 413 ≤ 299) := by decide
      have lead : "HTTP " ++ Nat.repr 413 ++ ": " = "HTTP 413: " := by decide +kernel
      refine ⟨text, ?_⟩
      simp only [exchange, rejected, fetchUnary, if_pos failed, Option.getD_some, lead]

end

end

/-! ### A call that fails behind its message -/

attribute [local instance] goneTrailers BinaryMetadata.asciiLower

def gone : Call :=
  some (0, .ok ⟨200, [], [(0, .data [0]), (0, .data [0, 0, 0, 1, 7]),
    (1, .trailers [(.grpcStatus, HeaderValue.ofNat 5), (.grpcMessage, ⟨Utf8.encode "gone", by decide⟩)]), (1, .eof)]⟩)

theorem unary_call_gone : ∃ response, exchange goneTrailers.decodeTrailer 64 4 (fun _ => {}) none
    [.data [0, 0], .data [0, 1, 9], .eof] gone = some (some response) ∧ response.message = [7] ∧
      response.status.code = .finite 5 ∧ response.status.details = "gone" := by
  have ends : verdict none gone = .answers [(.contentType, Fetch.CT_PROTO)] [7] ⟨5, "gone", []⟩ := by decide +kernel
  have single : Unary none gone := by
    intro ready resp same
    cases same
    exact ⟨[7], by decide, List.prefix_rfl, fun _ _ => .inr rfl⟩
  have readable : ∀ headers message trailer, verdict none gone = .answers headers message trailer →
      Prost.decodeTrailer (Prost.encodeTrailer trailer) = some trailer ∧ (Prost.encodeTrailer trailer).length < 2 ^ 32 := by
    intro headers message trailer same
    cases ends.symm.trans same
    exact ⟨by decide, by decide⟩
  have call := (@unary_call _ _ goneTrailers.decodeTrailer 64 (fun _ => {}) 4 [9] (by decide)
    [.data [0, 0], .data [0, 1, 9], .eof] (by decide) none gone single readable).2 rfl
  rw [if_pos (by decide), ends] at call
  exact ⟨_, call.2, rfl, rfl, rfl⟩

end FetchUnary
end EndToEnd
end GrpcWebnext
