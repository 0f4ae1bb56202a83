import GrpcWebnext.EndToEnd.JsonUnary
import GrpcWebnext.OutcomeParity

/-!
# One answer on every transport

What a client is told of one unary call: over Fetch in both codecs, over a WebSocket and over h2ts, where the
client reads the backend's own header blocks.
-/

namespace GrpcWebnext
namespace EndToEnd
namespace OneAnswer
open Client JsNumeral OutcomeParity
open Client.Responses (FetchResponse H2Response Headers Record Solid h2tsUnary statusFromResponse metadataFromRecord
  decodeGrpcMessage decodeFrom decodeURIComponent)
open Client.Calls (UnaryResponse)
open JsonUnary (Carries Settled)
open FetchUnary (Verdict verdict responseHeaders)
open Percent (Kept)

/-! ### The end of a call -/

/-- The status of a call in one header block, its text escaped in some way. -/
structure Reports (h : HeaderMap) (code : Nat) (text : String) : Prop where
  small : code < 2 ^ 32
  status : h.getAll .grpcStatus = [HeaderValue.ofNat code]
  message : h.getAll .grpcMessage = [] ∧ text = "" ∨ ∃ (kept : Kept) (v : HeaderValue),
    h.getAll .grpcMessage = [v] ∧ v.toStr = some (String.ofList (kept.encodeText text.toList))

/-- In the trailers, or in the headers of a response without any. -/
inductive Ends (headers : HeaderMap) : Option HeaderMap → Nat → String → Prop where
  | trailers {t : HeaderMap} {code : Nat} {text : String} (reports : Reports t code text)
    (status : headers.getAll .grpcStatus = []) (message : headers.getAll .grpcMessage = []) :
    Ends headers (some t) code text
  | headers {code : Nat} {text : String} (reports : Reports headers code text) : Ends headers none code text

theorem percentDecode_encodeText (kept : Kept) (text : String) :
    Metadata.percentDecode (String.ofList (kept.encodeText text.toList)) = text := by
  have ascii : ∀ b ∈ kept.encode (Utf8.encode text), b.toNat < 128 := fun b member =>
    UInt8.lt_iff_toNat_lt.mp (kept.encode_ascii member)
  have bytes : Utf8.encode (String.ofList (kept.encodeText text.toList)) = kept.encode (Utf8.encode text) :=
    Utf8.encode_ascii ascii
  rw [Metadata.percentDecode, bytes, GrpcMessage.percentDecodeBytes_encode, Utf8.lossy_encode, String.ofList_toList]

theorem decodeURIComponent_encodeText (kept : Kept) (text : String) :
    decodeURIComponent (String.ofList (kept.encodeText text.toList)) = some text := by
  rw [decodeURIComponent, String.toList_ofList, GrpcMessage.decodeFrom_encodeText kept text.toList _ (Nat.le_refl _),
    Option.map_some, String.ofList_toList]

theorem parseStatus_ofNat {code : Nat} (small : code < 2 ^ 32) :
    Metadata.parseStatus (HeaderValue.ofNat code) = some code := by
  simp [Metadata.parseStatus, HeaderValue.toStr_ofNat, Metadata.parseUnsigned_repr small]

theorem Reports.readStatus {trailers headers h : HeaderMap} {code : Nat} {text : String} (reports : Reports h code text)
    (same : ∀ name ∈ [HeaderName.grpcStatus, .grpcMessage], Metadata.statusHeader trailers headers name = h.get name) :
    Metadata.readStatus trailers headers = (code, text) := by
  obtain ⟨small, status, message⟩ := reports
  have read : Metadata.statusHeader trailers headers .grpcStatus = some (HeaderValue.ofNat code) := by
    rw [same _ (by simp), HeaderMap.get, status]
    rfl
  rw [Metadata.readStatus, read, Option.bind_some, parseStatus_ofNat small, same .grpcMessage (by simp), HeaderMap.get]
  rcases message with ⟨none, rfl⟩ | ⟨kept, v, one, sent⟩
  · rw [none]
    rfl
  · rw [one, List.head?_cons, Option.bind_some, sent, Option.map_some, percentDecode_encodeText]
    rfl

theorem Ends.readStatus {headers : HeaderMap} {block : Option HeaderMap} {code : Nat} {text : String}
    (ends : Ends headers block code text) : Metadata.readStatus (block.getD []) headers = (code, text) := by
  cases ends with
  | trailers reports status message =>
    apply reports.readStatus
    intro name member
    have absent : headers.get name = none := by
      simp only [List.mem_cons, List.not_mem_nil, or_false] at member
      rcases member with rfl | rfl
      · rw [HeaderMap.get, status]
        rfl
      · rw [HeaderMap.get, message]
        rfl
    rw [Metadata.statusHeader, absent, Option.or_none]
    rfl
  | headers reports => exact reports.readStatus fun _ _ => rfl

/-! ### Trailer blocks -/

def blocks : List (Nat × BodyFrame) → List HeaderMap
  | [] => []
  | (_, .data _) :: rest => blocks rest
  | (_, .trailers t) :: rest => t :: blocks rest

theorem lastTrailers_blocks (held : HeaderMap) (frames : List (Nat × BodyFrame)) :
    Arrivals.lastTrailers held frames = ((blocks frames).getLast?).getD held := by
  induction frames generalizing held with
  | nil => rfl
  | cons frame frames ih =>
    obtain ⟨now, data | t⟩ := frame
    · exact ih held
    · rw [Arrivals.lastTrailers, ih, blocks, List.getLast?_cons]
      rfl

theorem collectTrailers_none {frames : List (Nat × BodyFrame)} (none : blocks frames = []) (held : Option HeaderMap) :
    Fetch.collectTrailers held frames = held := by
  induction frames with
  | nil => rfl
  | cons frame frames ih =>
    obtain ⟨now, data | t⟩ := frame
    · exact ih none
    · cases none

theorem collectTrailers_one {frames : List (Nat × BodyFrame)} {block : Option HeaderMap} (one : blocks frames = block.toList) :
    Fetch.collectTrailers none frames = block := by
  induction frames with
  | nil =>
    cases block with
    | none => rfl
    | some t => cases one
  | cons frame frames ih =>
    obtain ⟨now, data | t⟩ := frame
    · exact ih one
    · cases block with
      | none => cases one
      | some t' =>
        obtain ⟨rfl, rest⟩ := List.cons.inj one
        exact collectTrailers_none rest _

/-! ### The four clients -/

section

variable {deadline : Option Nat} (c : Completed deadline) {block : Option HeaderMap} {code : Nat} {text : String}

theorem completed_status (one : blocks c.frames = block.toList) (ends : Ends c.resp.headers block code text) :
    (c.code, c.statusMessage) = (code, text) := by
  have last : c.trailers = block.getD [] := by
    rw [Completed.trailers, lastTrailers_blocks, one]
    cases block <;> rfl
  rw [Completed.code, Completed.statusMessage, last]
  exact ends.readStatus

theorem completed_unary : FetchUnary.Unary deadline c.call := by
  intro ready resp same
  cases same
  rw [FetchUnary.Single, FetchUnary.Seen, c.seen_unary]
  cases sent : c.message with
  | none =>
    have framed := c.framed
    rw [sent] at framed
    exact ⟨[], by decide, framed ▸ List.nil_prefix, fun _ _ => .inl framed⟩
  | some m =>
    have framed := c.framed
    rw [sent] at framed
    exact ⟨m, c.small m sent, framed ▸ List.prefix_rfl, fun _ _ => .inr framed⟩

theorem completed_verdict : verdict deadline c.call =
    .answers (responseHeaders c.resp) (c.message.getD []) ⟨c.code, c.statusMessage, Metadata.metadataToVec c.trailing⟩ := by
  have deframed := c.deframed
  have ended := c.ended
  rw [Completed.frames] at deframed
  rw [Completed.call, verdict, if_pos c.ontime]
  show FetchUnary.streamVerdict c.resp (FetchUnary.Seen deadline c.ready c.resp) = _
  rw [FetchUnary.Seen, c.seen_unary, FetchUnary.streamVerdict]
  simp only [ended, deframed]
  cases c.message <;> rfl

/-- What `json_upstream` settles the call as, when the message is rendered as `json`. -/
def rendering (block : Option HeaderMap) (code : Nat) (text : String) (json : Bytes) : Settled :=
  ⟨code, text, if code = 0 ∧ c.message.getD [] ≠ [] then json else [], c.resp.headers, block.getD []⟩

theorem completed_settled [ProstReflect] (tc : Transcoder) (path : String) (one : blocks c.frames = block.toList)
    (ends : Ends c.resp.headers block code text) {json : Bytes}
    (rendered : code = 0 → c.message.getD [] ≠ [] → tc.responseProtoToJson path (c.message.getD []) = .ok json) :
    JsonUnary.settled tc path deadline c.call = some (rendering c block code text json) := by
  have deframed : (GrpcFraming.deframeAll (Arrivals.bytes c.frames)).headD [] = c.message.getD [] := by
    rw [c.deframed]
    cases c.message <;> rfl
  have trailers : (Fetch.collectTrailers none c.frames).getD [] = block.getD [] := by
    rw [collectTrailers_one one]
  have ended := c.ended
  have answered : JsonUnary.settled tc path deadline c.call = some (JsonUnary.answer tc path c.resp.headers c.frames) := by
    simp only [Completed.call, JsonUnary.settled, if_pos c.ontime, ended]
    rfl
  rw [answered, JsonUnary.answer, rendering]
  simp only [deframed, trailers, ends.readStatus]
  by_cases sends : code = 0 ∧ c.message.getD [] ≠ []
  · rw [if_pos sends, if_pos sends, rendered sends.1 sends.2]
  · rw [if_neg sends, if_neg sends]

/-- The call as it comes out of the tunnel. -/
def tunnelled (record : HeaderMap → Record) (block : Option HeaderMap) : H2Response :=
  ⟨c.resp.status, record c.resp.headers, some (Arrivals.bytes c.frames), block.map record⟩

/-- A client that is told `message` and a status, if it can read the metadata. -/
def told (message : Bytes) (code : Nat) (text : String) (initial trailing : Option Metadata) :
    Option (UnaryResponse Value) := do
  let headers ← initial
  let metadata ← trailing
  pure ⟨message, headers, ⟨.finite code, text, metadata⟩⟩

theorem Reports.read {record : HeaderMap → Record} (records : Carries fun h => ⟨record h⟩) (solid : Solid text)
    {h : HeaderMap} (reports : Reports h code text) :
    Responses.readStatus (some (record h)) = some (.finite code, text) := by
  obtain ⟨small, status, message⟩ := reports
  have raw : (record h).lookup "grpc-status" = some code.repr :=
    records.one h .grpcStatus _ _ status (HeaderValue.toStr_ofNat code) (JsonUnary.solid_repr code)
  have details : decodeGrpcMessage (((record h).lookup "grpc-message").getD "") = text := by
    rcases message with ⟨none, rfl⟩ | ⟨kept, v, one, sent⟩
    · rw [show (record h).lookup "grpc-message" = .none from records.none h .grpcMessage none]
      rfl
    · rw [show (record h).lookup "grpc-message" = some _ from
        records.one h .grpcMessage v _ one sent (JsonUnary.solid_encodeText kept solid), Option.getD_some, decodeGrpcMessage,
        decodeURIComponent_encodeText]
      rfl
  rw [Responses.readStatus]
  simp only [Option.bind_eq_bind, Option.bind_some, raw, details, parseInt_repr (Nat.lt_trans small (by decide))]
  rfl

section

variable [JsString]

theorem tunnelled_told {record : HeaderMap → Record} (records : Carries fun h => ⟨record h⟩) (solid : Solid text)
    (ends : Ends c.resp.headers block code text) :
    h2tsUnary (tunnelled c record block) = told (c.message.getD []) code text
      (metadataFromRecord (record c.resp.headers)) (metadataFromRecord (record (block.getD c.resp.headers))) := by
  have pushed : (GrpcFrameParser.push {} (Arrivals.bytes c.frames)).1.head?.getD [] = c.message.getD [] := by
    have start : (({} : GrpcFrameParser).buf.bytes) = [] := Uint8Array.bytes_ofBytes []
    have deframed := c.deframed
    rw [GrpcFraming.deframeAll_eq] at deframed
    rw [(GrpcFrameParser.push_eq {} _).1, start, List.nil_append, deframed]
    cases c.message <;> rfl
  have status : statusFromResponse (tunnelled c record block) =
      (metadataFromRecord (record (block.getD c.resp.headers))).map fun md => ⟨.finite code, text, md⟩ := by
    cases ends with
    | @trailers t _ _ reports =>
      simp only [statusFromResponse, tunnelled, Option.map_some, reports.read records solid, Option.some_or,
        Option.isSome_some, if_true, Option.getD_some]
      cases metadataFromRecord (record t) <;> rfl
    | headers reports =>
      have none_ : Responses.readStatus none = none := rfl
      simp only [statusFromResponse, tunnelled, Option.map_none, reports.read records solid, none_, Option.none_or,
        Option.isSome_none, Bool.false_eq_true, if_false, Option.getD_some, Option.getD_none]
      cases metadataFromRecord (record c.resp.headers) <;> rfl
  rw [h2tsUnary, status, told]
  simp only [tunnelled, Option.bind_eq_bind, Option.bind_some, pushed]
  cases metadataFromRecord (record (block.getD c.resp.headers)) <;> rfl

end

end

/-! ### A call that fails behind its message -/

attribute [local instance] goneTrailers BinaryMetadata.asciiLower flagSchema

theorem gone_wf : (Utf8.encode "gone").all headerValueByte = true := by decide

def gone : HeaderMap := [(.grpcStatus, HeaderValue.ofNat 5), (.grpcMessage, ⟨Utf8.encode "gone", gone_wf⟩)]

def goneCall : Completed none where
  ready := 0
  resp := ⟨200, [], [(0, .data [0]), (0, .data [0, 0, 0, 1, 7]), (1, .trailers gone), (1, .eof)]⟩
  ontime := inTime_now
  finish := 1
  ended := rfl
  message := some [7]
  small := by simp
  framed := rfl

theorem gone_ends : Ends goneCall.resp.headers (some gone) 5 "gone" :=
  .trailers ⟨by decide, rfl, .inr ⟨GrpcMessage.unescaped, ⟨Utf8.encode "gone", gone_wf⟩, rfl, by decide +kernel⟩⟩ rfl rfl

end OneAnswer
end EndToEnd
end GrpcWebnext
