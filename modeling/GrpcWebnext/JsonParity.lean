import GrpcWebnext.Fetch.JsonUpstream
import GrpcWebnext.JsonToClient
import GrpcWebnext.Ws.RunStream

/-!
# One message as JSON

The body of a unary JSON response next to the `Message` frame of a JSON stream, when the backend
answers both with the same message.
-/

namespace GrpcWebnext
namespace JsonParity
open Metadata

/-- A call answered in time with one gRPC frame of `m` and status 0. -/
structure OneMessage (deadline : Option Nat) (m : Bytes) where
  ready : Nat
  resp : Response
  ontime : inTime deadline 0 ready = true
  small : m.length < 2 ^ 32
  finish : Nat
  ended : (arrivals deadline ready resp.body).halt = .eof finish
  framed : Arrivals.bytes (arrivals deadline ready resp.body).frames = GrpcFraming.frame m
  success : (readStatus ((Fetch.collectTrailers none (arrivals deadline ready resp.body).frames).getD [])
    resp.headers).1 = 0

namespace OneMessage

variable {deadline : Option Nat} {m : Bytes}

def call (answer : OneMessage deadline m) : Call := some (answer.ready, .ok answer.resp)

def frames (answer : OneMessage deadline m) : List (Nat × BodyFrame) :=
  (arrivals deadline answer.ready answer.resp.body).frames

theorem deframed (answer : OneMessage deadline m) :
    GrpcFraming.deframeAll (Arrivals.bytes answer.frames) = [m] := by
  have next : GrpcFraming.grpc.next (GrpcFraming.frame m) = some (m, []) := by
    simpa using GrpcFraming.next_frame answer.small []
  rw [frames, answer.framed, GrpcFraming.deframeAll_eq, LengthPrefix.Format.drain_some next,
    LengthPrefix.Format.drain_nil]

end OneMessage

open Json Client Ws
open JsNumber (toNumber)
open SerdeText (document)

/-! ### Texts that serde_json keeps -/

section

variable [JsNumber] [SerdeText]

/-- serde_json writes the number as the same number to JavaScript. -/
def SameNumeral (n : String) : Prop := ∃ n₁, SerdeText.numeral n = some n₁ ∧ toNumber n₁ = toNumber n

/-- A text that serde_json can read, and in which it keeps each number that counts. -/
def Readable (t : Document) : Prop :=
  t.Within 128 ∧ t.Numbers (fun n => (SerdeText.numeral n).isSome) ∧ t.canonical.Numbers SameNumeral

theorem same_value_iff {json : Bytes} {t : Document} (held : document json = some t) (lawful : Rewrites 128 t) :
    parse (SerdeText.write ((SerdeJson.fromSlice json).getD SerdeJson.null)) = parse t ↔ Readable t := by
  have numerals : (fun n => ((SerdeText.numeral n).map Tree.num).map (Tree.bind fun n => .num (toNumber n)) =
      some (.num (toNumber n))) = SameNumeral := by
    funext n
    unfold SameNumeral
    cases SerdeText.numeral n <;> simp [Tree.bind]
  rw [parse, JsonToClient.reread_iff _ held lawful, numerals, Readable]

end

/-! ### The two responses -/

section

variable [ProstReflect]

variable {tc : Transcoder} {pathAndQuery : String} {deadline : Option Nat} {m json : Bytes}

/-- `json_upstream` takes a message of no bytes for no message. -/
theorem jsonUpstream_oneMessage (respCt : Fetch.JsonCt) (answer : OneMessage deadline m)
    (converted : tc.responseProtoToJson (pathOf pathAndQuery) m = .ok json) :
    ∃ response, Fetch.jsonUpstream tc pathAndQuery respCt deadline answer.call =
        some (answer.finish, response) ∧
      response.grpcStatus = some 0 ∧ response.body = if m = [] then [] else json := by
  obtain ⟨ready, resp, ontime, small, finish, ended, framed, success⟩ := answer
  have deframed := OneMessage.deframed ⟨ready, resp, ontime, small, finish, ended, framed, success⟩
  simp only [OneMessage.frames] at deframed
  refine ⟨Fetch.renderJson tc pathAndQuery respCt resp.headers (arrivals deadline ready resp.body).frames,
    by simp [Fetch.jsonUpstream, OneMessage.call, ontime, ended], ?_⟩
  by_cases empty : m = []
  · simp [Fetch.renderJson, deframed, success, empty, Fetch.jsonFetchResponse_grpcStatus]
    rfl
  · simp [Fetch.renderJson, deframed, success, empty, converted, Fetch.jsonFetchResponse_grpcStatus]
    rfl

def messageValues [SerdeJson] (sent : List Frame) : List SerdeJson.Value :=
  sent.filterMap fun frame => match Ws.toTung frame true with
    | .text jf => jf.message
    | _ => none

/-- A text that serde_json cannot read goes into the frame as `null`. -/
theorem runStream_oneMessage [SerdeJson] (answer : OneMessage deadline m)
    (converted : tc.responseProtoToJson (pathOf pathAndQuery) m = .ok json) :
    messageValues (runStream (some tc) (pathOf pathAndQuery) deadline answer.call).sent =
      [(SerdeJson.fromSlice json).getD SerdeJson.null] := by
  have deframed := answer.deframed
  simp only [OneMessage.frames] at deframed
  rw [OneMessage.call, Ws.runStream_sent _ _ answer.ontime]
  simp [deframed, Ws.messageFrames, Ws.responsePayload, converted, answer.ended, messageValues, Ws.headerFrame,
    Ws.endFrames, Ws.trailerFrame, Ws.toTung, Ws.protoFrameToJson]

variable [JsNumber] [SerdeText]

/-- The unary body is `json`, which JavaScript parses, and as the one value that the stream sends. -/
def SameJson (tc : Transcoder) (pathAndQuery : String) (respCt : Fetch.JsonCt) (deadline : Option Nat)
    (call : Call) (json : Bytes) : Prop :=
  ∃ now response t value, Fetch.jsonUpstream tc pathAndQuery respCt deadline call = some (now, response) ∧
    response.grpcStatus = some 0 ∧ response.body = json ∧ document response.body = some t ∧
    messageValues (runStream (some tc) (pathOf pathAndQuery) deadline call).sent = [value] ∧
    parse (SerdeText.write value) = parse t

/-- Both paths show the same JSON exactly when the message has bytes and serde_json keeps its text. -/
theorem json_parity_iff (emptyText : document [] = none)
    (jsonText : ∀ (msg : ProstReflect.DynamicMessage) (text : Bytes), ProstReflect.serialize msg = .ok text →
      ∃ t, document text = some t ∧ Rewrites 128 t)
    (respCt : Fetch.JsonCt) (answer : OneMessage deadline m)
    (converted : tc.responseProtoToJson (pathOf pathAndQuery) m = .ok json) :
    SameJson tc pathAndQuery respCt deadline answer.call json ↔
      m ≠ [] ∧ ∃ t, document json = some t ∧ Readable t := by
  obtain ⟨msg, text⟩ := Transcoder.responseProtoToJson_ok converted
  obtain ⟨t, held, lawful⟩ := jsonText msg json text
  obtain ⟨response, sent, status, body⟩ := jsonUpstream_oneMessage respCt answer converted
  have shown := runStream_oneMessage answer converted
  constructor
  · rintro ⟨now, response', t', value, sent', _, same, held', shown', agree⟩
    cases sent.symm.trans sent'
    rw [same] at held' body
    obtain rfl := Option.some.inj (held'.symm.trans held)
    cases shown.symm.trans shown'
    refine ⟨?_, t', held, (same_value_iff held lawful).mp agree⟩
    rintro rfl
    rw [body, if_pos rfl, emptyText] at held
    cases held
  · rintro ⟨nonempty, t', held', readable⟩
    obtain rfl := Option.some.inj (held'.symm.trans held)
    rw [if_neg nonempty] at body
    exact ⟨_, response, t', _, sent, status, body, body ▸ held, shown, (same_value_iff held lawful).mpr readable⟩

end

def flagAnswer (m : Bytes) (small : m.length < 2 ^ 32) : OneMessage none m where
  ready := 0
  resp := ⟨200, [], [(0, .data (GrpcFraming.frame m)), (1, .trailers [(.grpcStatus, HeaderValue.ofNat 0)]), (1, .eof)]⟩
  ontime := inTime_now
  small := small
  finish := 1
  ended := rfl
  framed := List.append_nil _
  success := rfl

def flagDocument : Option Bool → Document
  | none => .null
  | some true => Ws.object [("on", .bool true)]
  | some false => Ws.object []

abbrev flagDocuments : SerdeText where
  toSerdeJson := Ws.flagTexts
  document text := (Ws.flagTexts.fromSlice text).map flagDocument
  read limit t := if 1 < limit then [none, some true, some false].find? fun v => flagDocument v = t else none
  write := flagDocument
  numeral _ := none
  document_toVec v := by rcases v with _ | _ | _ <;> decide
  fromSlice_eq b := by
    have kept : ∀ v, (some (flagDocument v)).bind (fun t =>
        if 1 < 128 then [none, some true, some false].find? fun v => flagDocument v = t else none) = some v := by
      rintro (_ | _ | _) <;> rfl
    cases held : Ws.flagTexts.fromSlice b with
    | none => rfl
    | some v => exact (kept v).symm
  write_null := rfl

section

attribute [local instance] flagSchema flagDocuments wholeNumbers

theorem flagTexts_serialize (on : Bool) (text : Bytes) (serialized : flagSchema.serialize on = .ok text) :
    ∃ t, document text = some t ∧ Rewrites 128 t := by
  cases on <;> cases serialized
  · exact ⟨flagDocument (some false), rfl, by unfold Rewrites; decide +kernel⟩
  · exact ⟨flagDocument (some true), rfl, by unfold Rewrites; decide +kernel⟩

theorem flagDocument_readable : Readable (flagDocument (some true)) :=
  ⟨⟨by decide, rfl, trivial, trivial⟩, ⟨trivial, trivial⟩, ⟨trivial, trivial⟩⟩

theorem json_parity_set :
    SameJson ⟨()⟩ "/flag.Flags/Get" .sdk none (flagAnswer [8, 1] (by decide)).call flagJson := by
  have converted : (⟨()⟩ : Transcoder).responseProtoToJson (pathOf "/flag.Flags/Get") [8, 1] = .ok flagJson := rfl
  have parity := json_parity_iff rfl flagTexts_serialize .sdk (flagAnswer [8, 1] (by decide)) converted
  exact parity.mpr ⟨List.cons_ne_nil _ _, flagDocument (some true), rfl, flagDocument_readable⟩

/-- The message of defaults has the JSON form of two braces; its unary body is empty. -/
theorem default_message_lost :
    ¬SameJson ⟨()⟩ "/flag.Flags/Get" .sdk none (flagAnswer [] (by decide)).call [123, 125] := by
  rintro ⟨now, response, t, value, sent, _, same, _⟩
  have body : (Fetch.jsonUpstream ⟨()⟩ "/flag.Flags/Get" .sdk none (flagAnswer [] (by decide)).call).map (·.2.body) =
      some [] := rfl
  rw [sent] at body
  simp only [Option.map_some, Option.some.injEq] at body
  rw [same] at body
  cases body

end

end JsonParity
end GrpcWebnext
