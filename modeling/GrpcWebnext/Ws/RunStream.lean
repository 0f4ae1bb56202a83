import GrpcWebnext.Backend
import GrpcWebnext.GrpcFraming
import GrpcWebnext.Metadata
import GrpcWebnext.Transcode
import GrpcWebnext.Ws.Frames

/-!
# One stream of a WebSocket

`run_stream`: the mapped request body, the pump from response body to frames, and the pump on
a clock that starts when the call is dispatched. A JSON stream is one with a transcoder.
-/

namespace GrpcWebnext
namespace Ws
open Metadata

section

variable [ProstReflect]

/-! ### The request body -/

/-- What the body stream makes of one payload, before it drops an error. -/
def transcodeRequest (ann : Option WsBinding) (tc : Option Transcoder) (path : String)
    (payload : Bytes) : Except TranscodeError Bytes :=
  match ann, tc with
  | some ann, _ => ann.buildMessage payload
  | none, some tc => tc.requestJsonToProto path payload
  | none, none => .ok payload

/-- One data frame of the request body; `unwrap_or_default` puts an empty message for an error. -/
def requestFrame (ann : Option WsBinding) (tc : Option Transcoder) (path : String)
    (payload : Bytes) : Bytes :=
  GrpcFraming.frame ((transcodeRequest ann tc path payload).toOption.getD [])

def requestBody (ann : Option WsBinding) (tc : Option Transcoder) (path : String)
    (payloads : List Bytes) : List Bytes :=
  payloads.map (requestFrame ann tc path)

def DEADLINE_GRACE : Nat := 500 * 10 ^ 6

def CT_GRPC : HeaderValue := ⟨Utf8.encode "application/grpc", by decide⟩

def requestHeaders (headers : HeaderMap) (timeout : Option Nat) : HeaderMap :=
  let headers := (headers.append .contentType CT_GRPC).append .te ⟨Utf8.encode "trailers", by decide⟩
  match timeout with
  | some d => headers.append .grpcTimeout (formatGrpcTimeout (d + DEADLINE_GRACE))
  | none => headers

/-! ### The pump -/

structure Pump where
  deframer : GrpcFraming.Deframer := {}
  trailers : HeaderMap := []
  deriving DecidableEq

def headerFrame (respHeaders : HeaderMap) : Frame := ⟨some (.header ⟨metadataToVec respHeaders⟩)⟩

def responsePayload (tc : Option Transcoder) (path : String) (msg : Bytes) :
    Except TranscodeError Bytes :=
  match tc with
  | some tc => tc.responseProtoToJson path msg
  | none => .ok msg

/-- The frames for the messages that one push completes. A message without a JSON form ends
the pump with a `Reset`, which is the second result then. -/
def messageFrames (tc : Option Transcoder) (path : String) : List Bytes → List Frame × Option Frame
  | [] => ([], none)
  | msg :: rest =>
    match responsePayload tc path msg with
    | .error e => ([], some (resetFrame .internal s!"json encode: {e.toString}"))
    | .ok payload =>
      let later := messageFrames tc path rest
      (⟨some (.message ⟨payload⟩)⟩ :: later.1, later.2)

theorem messageFrames_messages (tc : Option Transcoder) (path : String) (msgs : List Bytes) :
    ∀ frame ∈ (messageFrames tc path msgs).1, frame.status? = none := by
  induction msgs with
  | nil => nofun
  | cons msg rest ih =>
    simp only [messageFrames]
    split
    · nofun
    · exact List.forall_mem_cons.mpr ⟨rfl, ih⟩

theorem messageFrames_reset (tc : Option Transcoder) (path : String) (msgs : List Bytes) :
    ∀ reset ∈ (messageFrames tc path msgs).2, reset.status?.isSome := by
  induction msgs with
  | nil => nofun
  | cons msg rest ih =>
    simp only [messageFrames]
    split
    · rintro _ ⟨⟩
      rfl
    · exact ih

/-- One turn of the pump's loop: frames to send, then its last frame or its next state. -/
def pumpFrame (tc : Option Transcoder) (path : String) (st : Pump) :
    BodyFrame → List Frame × Except Frame Pump
  | .data data =>
    let drained := (st.deframer.push data).drain
    let out := messageFrames tc path drained.1
    match out.2 with
    | some reset => (out.1, .error reset)
    | none => (out.1, .ok { st with deframer := drained.2 })
  | .trailers t => ([], .ok { st with trailers := t })

theorem pumpFrame_messages (tc : Option Transcoder) (path : String) (st : Pump) (frame : BodyFrame) :
    (∀ f ∈ (pumpFrame tc path st frame).1, f.status? = none) ∧
      ∀ reset, (pumpFrame tc path st frame).2 = .error reset → reset.status?.isSome := by
  cases frame with
  | trailers t => exact ⟨nofun, nofun⟩
  | data data =>
    have messages := messageFrames_messages tc path (st.deframer.push data).drain.1
    have reset := messageFrames_reset tc path (st.deframer.push data).drain.1
    simp only [pumpFrame]
    split
    · rename_i found
      refine ⟨messages, ?_⟩
      rintro _ ⟨⟩
      exact reset _ found
    · exact ⟨messages, nofun⟩

def trailerFrame (respHeaders trailers : HeaderMap) : Frame :=
  let status := readStatus trailers respHeaders
  ⟨some (.trailer ⟨status.1, status.2, metadataToVec trailers⟩)⟩

def unavailableFrame (e : BoxError) : Frame := resetFrame .unavailable s!"upstream: {e}"

def deadlineFrame : Frame :=
  ⟨some (.trailer ⟨Code.deadlineExceeded.toNat, "deadline exceeded", []⟩)⟩

/-! ### The pump on a clock -/

/-- What a stream sends: its frames, and when it closes the socket behind them. -/
structure StreamRun where
  frames : List (Nat × Frame)
  closed : Option Nat
  deriving DecidableEq

def StreamRun.last (now : Nat) (frame : Frame) : StreamRun := ⟨[(now, frame)], some now⟩

def StreamRun.after (sent : List (Nat × Frame)) (later : StreamRun) : StreamRun :=
  ⟨sent ++ later.frames, later.closed⟩

/-- The pump over the body frames in time. A body error leaves the loop as the end does. -/
def pumpBody (tc : Option Transcoder) (path : String) (respHeaders : HeaderMap) (halt : Halt)
    (st : Pump) : List (Nat × BodyFrame) → StreamRun
  | [] =>
    match halt with
    | .eof now => .last now (trailerFrame respHeaders st.trailers)
    | .error now _ => .last now (trailerFrame respHeaders st.trailers)
    | .timeout now => .last now deadlineFrame
    | .pending => ⟨[], none⟩
  | (now, frame) :: rest =>
    let turn := pumpFrame tc path st frame
    match turn.2 with
    | .error reset => .after (turn.1.map (now, ·)) (.last now reset)
    | .ok st => .after (turn.1.map (now, ·)) (pumpBody tc path respHeaders halt st rest)

/-- The pump of a call dispatched at time 0, under one timeout. -/
def runStream (tc : Option Transcoder) (path : String) (timeout : Option Nat) (call : Call) :
    StreamRun :=
  match call with
  | some (ready, answer) =>
    if inTime timeout 0 ready then
      match answer with
      | .error e => .last ready (unavailableFrame e)
      | .ok resp =>
        let seen := arrivals timeout ready resp.body
        .after [(ready, headerFrame resp.headers)] (pumpBody tc path resp.headers seen.halt {} seen.frames)
    else .last (timeout.getD 0) deadlineFrame
  | none =>
    match timeout with
    | some d => .last d deadlineFrame
    | none => ⟨[], none⟩

theorem pumpBody_le (tc : Option Transcoder) (path : String) (respHeaders : HeaderMap)
    {halt : Halt} {d : Nat}
    (stopped : ∀ t ∈ halt.time, t ≤ d) (st : Pump) {frames : List (Nat × BodyFrame)}
    (handed : ∀ f ∈ frames, f.1 ≤ d) :
    ∀ e ∈ (pumpBody tc path respHeaders halt st frames).frames, e.1 ≤ d := by
  induction frames generalizing st with
  | nil => cases halt <;> simp_all [pumpBody, StreamRun.last, Halt.time]
  | cons frame rest ih =>
    obtain ⟨now, frame⟩ := frame
    obtain ⟨here, handed⟩ := List.forall_mem_cons.mp handed
    have sent : ∀ e ∈ (pumpFrame tc path st frame).1.map (now, ·), e.1 ≤ d := by
      intro e member
      obtain ⟨_, _, rfl⟩ := List.mem_map.mp member
      exact here
    simp only [pumpBody]
    cases (pumpFrame tc path st frame).2 with
    | error reset =>
      refine List.forall_mem_append.mpr ⟨sent, ?_⟩
      simpa [StreamRun.last] using here
    | ok st => exact List.forall_mem_append.mpr ⟨sent, ih st handed⟩

/-! ### What a stream sends -/

def StreamRun.sent (run : StreamRun) : List Frame := run.frames.map Prod.snd

omit [ProstReflect] in
@[simp] theorem StreamRun.sent_last (now : Nat) (frame : Frame) :
    (StreamRun.last now frame).sent = [frame] := rfl

omit [ProstReflect] in
@[simp] theorem StreamRun.sent_after (now : Nat) (frames : List Frame) (later : StreamRun) :
    (StreamRun.after (frames.map (now, ·)) later).sent = frames ++ later.sent := by
  simp [StreamRun.after, StreamRun.sent, Function.comp_def]

def endFrames (respHeaders trailers : HeaderMap) : Halt → List Frame
  | .eof _ => [trailerFrame respHeaders trailers]
  | .error _ _ => [trailerFrame respHeaders trailers]
  | .timeout _ => [deadlineFrame]
  | .pending => []

theorem messageFrames_append (tc : Option Transcoder) (path : String) (a b : List Bytes) :
    messageFrames tc path (a ++ b) =
      match (messageFrames tc path a).2 with
      | some reset => ((messageFrames tc path a).1, some reset)
      | none => ((messageFrames tc path a).1 ++ (messageFrames tc path b).1, (messageFrames tc path b).2) := by
  induction a with
  | nil => simp [messageFrames]
  | cons msg rest ih =>
    simp only [List.cons_append, messageFrames]
    cases converted : responsePayload tc path msg with
    | error e => rfl
    | ok payload =>
      simp only [ih]
      cases (messageFrames tc path rest).2 <;> rfl

/-- The messages in the bytes of the body, however they were cut into data frames, and then the
`Reset` or what ends the loop. -/
theorem pumpBody_sent (tc : Option Transcoder) (path : String) (respHeaders : HeaderMap) (halt : Halt)
    (st : Pump) (drained : GrpcFraming.grpc.next st.deframer.buf = none)
    (frames : List (Nat × BodyFrame)) :
    (pumpBody tc path respHeaders halt st frames).sent =
      let out := messageFrames tc path
        (GrpcFraming.grpc.drain (st.deframer.buf ++ Arrivals.bytes frames)).1
      match out.2 with
      | some reset => out.1 ++ [reset]
      | none => out.1 ++ endFrames respHeaders (Arrivals.lastTrailers st.trailers frames) halt := by
  induction frames generalizing st with
  | nil =>
    simp only [Arrivals.bytes, List.append_nil, LengthPrefix.Format.drain_none drained, messageFrames]
    cases halt <;> rfl
  | cons frame rest ih =>
    obtain ⟨now, frame⟩ := frame
    cases frame with
    | trailers t =>
      simp only [pumpBody, pumpFrame, StreamRun.sent_after, List.nil_append]
      exact ih { st with trailers := t } drained
    | data data =>
      simp only [pumpBody, pumpFrame, Arrivals.bytes, GrpcFraming.Deframer.push, GrpcFraming.drain_eq]
      rw [← List.append_assoc, LengthPrefix.Format.drain_append _ (st.deframer.buf ++ data),
        messageFrames_append]
      cases (messageFrames tc path (GrpcFraming.grpc.drain (st.deframer.buf ++ data)).1).2 with
      | some reset => simp only [StreamRun.sent_after, StreamRun.sent_last]
      | none =>
        simp only [StreamRun.sent_after]
        rw [ih ⟨⟨_⟩, st.trailers⟩ (LengthPrefix.Format.next_drain_rest _ _)]
        simp only [Arrivals.lastTrailers]
        split <;> simp [*]

theorem runStream_sent (tc : Option Transcoder) (path : String) {timeout : Option Nat} {ready : Nat}
    (ontime : inTime timeout 0 ready = true) (resp : Response) :
    (runStream tc path timeout (some (ready, .ok resp))).sent =
      let seen := arrivals timeout ready resp.body
      let out := messageFrames tc path (GrpcFraming.deframeAll (Arrivals.bytes seen.frames))
      headerFrame resp.headers :: match out.2 with
      | some reset => out.1 ++ [reset]
      | none => out.1 ++ endFrames resp.headers (Arrivals.lastTrailers [] seen.frames) seen.halt := by
  have pumped := pumpBody_sent tc path resp.headers (arrivals timeout ready resp.body).halt {} rfl
    (arrivals timeout ready resp.body).frames
  simp only [List.nil_append, ← GrpcFraming.deframeAll_eq] at pumped
  simp only [runStream, ontime, ↓reduceIte]
  exact congrArg (headerFrame resp.headers :: ·) pumped

end

/-- The JSON texts of the messages of `flagSchema`: an object by its field, or `null`. -/
abbrev flagTexts : SerdeJson where
  Value := Option Bool
  null := none
  toVec
    | none => Utf8.encode "null"
    | some on => if on then flagJson else [123, 125]
  fromSlice text :=
    if text = flagJson then some (some true)
    else if text = [123, 125] then some (some false)
    else if text = Utf8.encode "null" then some none
    else none

end Ws
end GrpcWebnext
