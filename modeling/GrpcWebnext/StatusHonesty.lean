import GrpcWebnext.Fetch.UnaryProto
import GrpcWebnext.Fetch.JsonUpstream
import GrpcWebnext.Ws.RunStream

/-!
# Reported status

When the three response paths report status 0, and what a response must carry for that.
-/

namespace GrpcWebnext
namespace StatusHonesty
open Metadata

/-- The status that the `grpc-status` header spells; `none` if it is missing or unparsable. -/
def carried (trailers headers : HeaderMap) : Option Nat :=
  (statusHeader trailers headers .grpcStatus).bind parseStatus

theorem readStatus_zero_iff (trailers headers : HeaderMap) :
    (readStatus trailers headers).1 = 0 ↔ carried trailers headers ∈ [none, some 0] := by
  unfold readStatus carried
  cases (statusHeader trailers headers .grpcStatus).bind parseStatus <;> simp

/-- What a reader gets of the body when one deadline covers the call and the body, as in
`json_upstream` and `run_stream`. -/
def callSeen (deadline : Option Nat) (ready : Nat) (resp : Response) : Arrivals :=
  arrivals deadline ready resp.body

/-- What `unary_proto` reads: the deadline starts again when the head has arrived. -/
def unarySeen (deadline : Option Nat) (ready : Nat) (resp : Response) : Arrivals :=
  arrivals (deadline.map (ready + ·)) ready resp.body

def Ended (seen : Arrivals) : Prop := ∃ now, seen.halt = .eof now

def Failed (seen : Arrivals) : Prop := ∃ now e, seen.halt = .error now e

/-- A report of 0 that `reached` describes is well founded if it always finds a status, and finds
status 0 at the end of a body only. -/
theorem honest_iff {answer : Option (Nat × Response)} {reports : Prop}
    {reached ended : Nat → Response → Prop} {status : Nat → Response → Option Nat}
    (reports_iff : reports ↔ ∃ ready resp, answer = some (ready, resp) ∧ reached ready resp ∧
      status ready resp ∈ [none, some 0]) :
    (reports → ∃ ready resp, answer = some (ready, resp) ∧ ended ready resp ∧ status ready resp = some 0) ↔
      ∀ ready resp, answer = some (ready, resp) → reached ready resp →
        status ready resp ≠ none ∧ (status ready resp = some 0 → ended ready resp) := by
  rw [reports_iff]
  constructor
  · intro honest ready resp found here
    have same : status ready resp ∈ [none, some 0] → ended ready resp ∧ status ready resp = some 0 := by
      intro zero
      obtain ⟨_, _, found', success⟩ := honest ⟨ready, resp, found, here, zero⟩
      rw [found] at found'
      cases found'
      exact success
    constructor
    · intro missing
      have := (same (by simp [missing])).2
      simp [missing] at this
    · intro zero
      exact (same (by simp [zero])).1
  · intro stated reported
    obtain ⟨ready, resp, found, here, zero⟩ := reported
    obtain ⟨present, atEnd⟩ := stated ready resp found here
    have zero : status ready resp = some 0 := by simpa [present] using zero
    exact ⟨ready, resp, found, atEnd zero, zero⟩

/-! ### unary_proto -/

def chunksReport (chunks : List (Nat × Fetch.Chunk)) (code : Nat) : Prop :=
  ∃ e ∈ chunks, ∃ trailer, e.2 = .trailer trailer ∧ trailer.statusCode = code

def unaryReports (deadline : Option Nat) (call : Call) (code : Nat) : Prop :=
  ∃ response, Fetch.unaryProtoResponse deadline call = some response ∧ chunksReport response.chunks code

theorem chunksReport_append (a b : List (Nat × Fetch.Chunk)) (code : Nat) :
    chunksReport (a ++ b) code ↔ chunksReport a code ∨ chunksReport b code := by
  simp only [chunksReport, List.mem_append, or_and_right, exists_or]

theorem chunksReport_messages (sent : List (Nat × Bytes)) (code : Nat) :
    ¬chunksReport (sent.map Fetch.messageChunk) code := by
  intro reported
  obtain ⟨e, member, trailer, isTrailer, _⟩ := reported
  obtain ⟨_, _, rfl⟩ := List.mem_map.mp member
  cases isTrailer

theorem fetchStatus_reports (now : Nat) (code : Code) (message : String) :
    chunksReport (Fetch.fetchStatus now code message).chunks 0 ↔ code = .ok := by
  unfold chunksReport Fetch.fetchStatus
  cases code <;> simp [Code.toNat]

theorem unaryFinish_reports (respHeaders : HeaderMap) (st : Fetch.UnaryLoop) (timedOut : Bool)
    (now : Nat) :
    chunksReport (Fetch.unaryFinish respHeaders st timedOut now).1 0 ↔
      timedOut = false ∧ carried st.trailerHeaders respHeaders ∈ [none, some 0] := by
  rw [← readStatus_zero_iff]
  unfold chunksReport Fetch.unaryFinish
  cases timedOut <;> cases st.sawMessage <;> simp [Code.toNat]

theorem unaryStream_reports (respHeaders : HeaderMap) (seen : Arrivals) :
    chunksReport (Fetch.unaryStream respHeaders seen.halt {} seen.frames).1 0 ↔
      Ended seen ∧ carried (Arrivals.lastTrailers [] seen.frames) respHeaders ∈ [none, some 0] := by
  rw [Fetch.unaryStream_eq]
  simp only [chunksReport_append, chunksReport_messages, false_or, Ended]
  cases seen.halt with
  | eof now | timeout now => simp [Fetch.unaryStream, unaryFinish_reports, Fetch.UnaryLoop.read]
  | error now e => simp [Fetch.unaryStream, chunksReport]
  | pending => simp [Fetch.unaryStream, chunksReport]

theorem unary_reports_iff (deadline : Option Nat) (call : Call) :
    unaryReports deadline call 0 ↔
      ∃ ready resp, answered deadline call = some (ready, resp) ∧ Ended (unarySeen deadline ready resp) ∧
        carried (Arrivals.lastTrailers [] (unarySeen deadline ready resp).frames) resp.headers ∈
          [none, some 0] := by
  unfold unaryReports Fetch.unaryProtoResponse
  match call with
  | none => cases deadline <;> simp [answered, fetchStatus_reports]
  | some (ready, .error e) =>
    cases ontime : inTime deadline 0 ready <;> simp [answered, ontime, fetchStatus_reports]
  | some (ready, .ok resp) =>
    cases ontime : inTime deadline 0 ready with
    | false => simp [answered, ontime, fetchStatus_reports]
    | true => simp [answered, ontime, unaryStream_reports, unarySeen]

/-! ### json_upstream -/

theorem webnextError_reports (respCt : Fetch.JsonCt) (code : Code) (message : String) :
    (Fetch.webnextError respCt code message).grpcStatus = some 0 ↔ code = .ok := by
  rw [Fetch.webnextError_grpcStatus]
  cases code <;> simp [Code.toNat]

section Json

variable [ProstReflect] (tc : Transcoder) (grpcPath : String)

/-- The first message of a collected body has no JSON form. -/
def Unrenderable (seen : Arrivals) : Prop :=
  ∃ m ∈ (GrpcFraming.deframeAll (Arrivals.bytes seen.frames)).head?, m ≠ [] ∧
    ∃ e, tc.responseProtoToJson (pathOf grpcPath) m = .error e

def jsonReports (respCt : Fetch.JsonCt) (deadline : Option Nat) (call : Call) (code : Nat) : Prop :=
  ∃ e, Fetch.jsonUpstream tc grpcPath respCt deadline call = some e ∧ e.2.grpcStatus = some code

theorem renderJson_reports (respCt : Fetch.JsonCt) (respHeaders : HeaderMap) (seen : Arrivals) :
    (Fetch.renderJson tc grpcPath respCt respHeaders seen.frames).grpcStatus = some 0 ↔
      ¬Unrenderable tc grpcPath seen ∧
        carried ((Fetch.collectTrailers none seen.frames).getD []) respHeaders ∈ [none, some 0] := by
  rw [← readStatus_zero_iff]
  have small := readStatus_lt ((Fetch.collectTrailers none seen.frames).getD []) respHeaders
  unfold Fetch.renderJson Unrenderable
  cases (GrpcFraming.deframeAll (Arrivals.bytes seen.frames)).head? with
  | none =>
    simp only [Option.getD_none, ne_eq, not_true_eq_false, and_false, ↓reduceIte]
    rw [Fetch.jsonFetchResponse_grpcStatus _ _ small]
    simp
  | some m =>
    by_cases rendered : (readStatus ((Fetch.collectTrailers none seen.frames).getD []) respHeaders).1 = 0 ∧ m ≠ []
    · cases converted : tc.responseProtoToJson (pathOf grpcPath) m with
      | ok j => simp [rendered, converted, Fetch.jsonFetchResponse_grpcStatus]
      | error e => simp [rendered, converted, webnextError_reports]
    · simp only [Option.getD_some, rendered, ↓reduceIte]
      rw [Fetch.jsonFetchResponse_grpcStatus _ _ small]
      simp only [Option.some.injEq, Option.mem_def]
      constructor
      · intro zero
        refine ⟨?_, zero⟩
        intro unrenderable
        obtain ⟨_, rfl, nonempty, _⟩ := unrenderable
        exact rendered ⟨zero, nonempty⟩
      · exact And.right

theorem json_reports_iff (respCt : Fetch.JsonCt) (deadline : Option Nat) (call : Call) :
    jsonReports tc grpcPath respCt deadline call 0 ↔
      ∃ ready resp, answered deadline call = some (ready, resp) ∧
        (Ended (callSeen deadline ready resp) ∧ ¬Unrenderable tc grpcPath (callSeen deadline ready resp)) ∧
        carried ((Fetch.collectTrailers none (callSeen deadline ready resp).frames).getD []) resp.headers ∈
          [none, some 0] := by
  unfold jsonReports Fetch.jsonUpstream
  match call with
  | none => cases deadline <;> simp [answered, webnextError_reports]
  | some (ready, .error e) =>
    cases ontime : inTime deadline 0 ready <;> simp [answered, ontime, webnextError_reports]
  | some (ready, .ok resp) =>
    cases ontime : inTime deadline 0 ready with
    | false => simp [answered, ontime, webnextError_reports]
    | true =>
      have rendered := renderJson_reports tc grpcPath respCt resp.headers (callSeen deadline ready resp)
      simp only [callSeen] at rendered
      simp only [answered, ontime, ↓reduceIte, Option.some.injEq, Prod.mk.injEq, callSeen, Ended]
      cases halt : (arrivals deadline ready resp.body).halt with
      | eof now => simp [halt, rendered]
      | error now e | timeout now => simp [halt, webnextError_reports]
      | pending => simp [halt]

end Json

/-! ### run_stream -/

theorem endFrames_status (respHeaders trailers : HeaderMap) (seen : Arrivals) :
    (∃ frame ∈ Ws.endFrames respHeaders trailers seen.halt, frame.status? = some 0) ↔
      (Ended seen ∨ Failed seen) ∧ carried trailers respHeaders ∈ [none, some 0] := by
  rw [← readStatus_zero_iff]
  unfold Ended Failed
  cases seen.halt <;> simp [Ws.endFrames, Frame.status?, Ws.trailerFrame, Ws.deadlineFrame, Code.toNat]

section Stream

variable [ProstReflect] (tc : Option Transcoder) (path : String)

def streamReports (timeout : Option Nat) (call : Call) (code : Nat) : Prop :=
  ∃ frame ∈ (Ws.runStream tc path timeout call).sent, frame.status? = some code

/-- Every message of the body that the pump reads has a form in the stream's codec. -/
def Renderable (seen : Arrivals) : Prop :=
  ∀ m ∈ GrpcFraming.deframeAll (Arrivals.bytes seen.frames), ∃ payload, Ws.responsePayload tc path m = .ok payload

theorem messageFrames_status (msgs : List Bytes) :
    (∀ frame ∈ (Ws.messageFrames tc path msgs).1, frame.status? = none) ∧
    ((Ws.messageFrames tc path msgs).2 = none ↔ ∀ m ∈ msgs, ∃ payload, Ws.responsePayload tc path m = .ok payload) ∧
    (∀ reset ∈ (Ws.messageFrames tc path msgs).2, reset.status? = some Code.internal.toNat) := by
  induction msgs with
  | nil => simp [Ws.messageFrames]
  | cons msg rest ih =>
    obtain ⟨quiet, all, reset⟩ := ih
    simp only [Ws.messageFrames]
    cases converted : Ws.responsePayload tc path msg with
    | error e => simp [converted, Frame.status?, Ws.resetFrame]
    | ok payload =>
      refine ⟨?_, ?_, reset⟩
      · simp only [List.mem_cons, forall_eq_or_imp]
        exact ⟨rfl, quiet⟩
      · simpa [converted] using all

theorem runStream_status {timeout : Option Nat} {ready : Nat} (ontime : inTime timeout 0 ready = true)
    (resp : Response) :
    streamReports tc path timeout (some (ready, .ok resp)) 0 ↔
      ((Ended (callSeen timeout ready resp) ∨ Failed (callSeen timeout ready resp)) ∧
          Renderable tc path (callSeen timeout ready resp)) ∧
        carried (Arrivals.lastTrailers [] (callSeen timeout ready resp).frames) resp.headers ∈ [none, some 0] := by
  unfold streamReports callSeen
  rw [Ws.runStream_sent tc path ontime]
  generalize arrivals timeout ready resp.body = seen
  obtain ⟨quiet, all, failed⟩ := messageFrames_status tc path (GrpcFraming.deframeAll (Arrivals.bytes seen.frames))
  have ends := endFrames_status resp.headers (Arrivals.lastTrailers [] seen.frames) seen
  have header : (Ws.headerFrame resp.headers).status? ≠ some 0 := by simp [Frame.status?, Ws.headerFrame]
  simp only [List.exists_mem_cons_iff, header, false_or]
  cases stopped : (Ws.messageFrames tc path (GrpcFraming.deframeAll (Arrivals.bytes seen.frames))).2 with
  | some reset =>
    have internal := failed reset stopped
    have unrendered : ¬Renderable tc path seen := by
      unfold Renderable
      rw [← all, stopped]
      simp
    simp only [unrendered, and_false, false_and, iff_false, List.mem_append, List.mem_singleton]
    intro reported
    obtain ⟨frame, sent | rfl, zero⟩ := reported
    · simp [quiet frame sent] at zero
    · simp [internal, Code.toNat] at zero
  | none =>
    have rendered : Renderable tc path seen := all.mp stopped
    simp only [rendered, and_true, ← ends, List.mem_append]
    constructor
    · intro reported
      obtain ⟨frame, sent | last, zero⟩ := reported
      · simp [quiet frame sent] at zero
      · exact ⟨frame, last, zero⟩
    · intro reported
      obtain ⟨frame, last, zero⟩ := reported
      exact ⟨frame, .inr last, zero⟩

theorem stream_reports_iff (timeout : Option Nat) (call : Call) :
    streamReports tc path timeout call 0 ↔
      ∃ ready resp, answered timeout call = some (ready, resp) ∧
        ((Ended (callSeen timeout ready resp) ∨ Failed (callSeen timeout ready resp)) ∧
          Renderable tc path (callSeen timeout ready resp)) ∧
        carried (Arrivals.lastTrailers [] (callSeen timeout ready resp).frames) resp.headers ∈ [none, some 0] := by
  match call with
  | none =>
    cases timeout <;>
      simp [streamReports, answered, Ws.runStream, Ws.StreamRun.sent, Ws.StreamRun.last, Ws.deadlineFrame,
        Frame.status?, Code.toNat]
  | some (ready, .error e) =>
    cases ontime : inTime timeout 0 ready <;>
      simp [streamReports, answered, ontime, Ws.runStream, Ws.deadlineFrame, Ws.unavailableFrame, Ws.resetFrame,
        Frame.status?, Code.toNat]
  | some (ready, .ok resp) =>
    cases ontime : inTime timeout 0 ready with
    | false =>
      simp [streamReports, answered, ontime, Ws.runStream, Ws.deadlineFrame, Frame.status?, Code.toNat]
    | true => simp [answered, ontime, runStream_status tc path ontime]

end Stream

/-! ### Honest reports -/

theorem ended_not_failed {seen : Arrivals} (ended : Ended seen) : ¬Failed seen := by
  obtain ⟨now, halt⟩ := ended
  intro failure
  obtain ⟨now', e, failed⟩ := failure
  rw [halt] at failed
  cases failed

section Honest

variable [ProstReflect] (tc : Transcoder) (grpcPath : String) (respCt : Fetch.JsonCt)
  (streamTc : Option Transcoder) (path : String) (deadline : Option Nat) (call : Call)

/-- `unary_proto` reports 0 only for a body that ended and a status that says 0. -/
def UnaryHonest : Prop :=
  unaryReports deadline call 0 → ∃ ready resp, answered deadline call = some (ready, resp) ∧
    Ended (unarySeen deadline ready resp) ∧
    carried (Arrivals.lastTrailers [] (unarySeen deadline ready resp).frames) resp.headers = some 0

def JsonHonest : Prop :=
  jsonReports tc grpcPath respCt deadline call 0 → ∃ ready resp, answered deadline call = some (ready, resp) ∧
    Ended (callSeen deadline ready resp) ∧
    carried ((Fetch.collectTrailers none (callSeen deadline ready resp).frames).getD []) resp.headers = some 0

def StreamHonest : Prop :=
  streamReports streamTc path deadline call 0 → ∃ ready resp, answered deadline call = some (ready, resp) ∧
    Ended (callSeen deadline ready resp) ∧
    carried (Arrivals.lastTrailers [] (callSeen deadline ready resp).frames) resp.headers = some 0

/-- A body that ends comes with a status. -/
def UnaryStated : Prop :=
  ∀ ready resp, answered deadline call = some (ready, resp) → Ended (unarySeen deadline ready resp) →
    carried (Arrivals.lastTrailers [] (unarySeen deadline ready resp).frames) resp.headers ≠ none

/-- A body that ends comes with a status, unless its message has no JSON form. -/
def JsonStated : Prop :=
  ∀ ready resp, answered deadline call = some (ready, resp) → Ended (callSeen deadline ready resp) →
    ¬Unrenderable tc grpcPath (callSeen deadline ready resp) →
    carried ((Fetch.collectTrailers none (callSeen deadline ready resp).frames).getD []) resp.headers ≠ none

/-- A body whose messages are all sent comes with a status when it stops, and with another than 0
when it stops by an error. -/
def StreamStated : Prop :=
  ∀ ready resp, answered deadline call = some (ready, resp) →
    Renderable streamTc path (callSeen deadline ready resp) →
    (Ended (callSeen deadline ready resp) ∨ Failed (callSeen deadline ready resp) →
      carried (Arrivals.lastTrailers [] (callSeen deadline ready resp).frames) resp.headers ≠ none) ∧
    (Failed (callSeen deadline ready resp) →
      carried (Arrivals.lastTrailers [] (callSeen deadline ready resp).frames) resp.headers ≠ some 0)

omit [ProstReflect] in
theorem unary_honest_iff : UnaryHonest deadline call ↔ UnaryStated deadline call := by
  rw [UnaryHonest, honest_iff (unary_reports_iff deadline call)]
  constructor
  · intro stated ready resp found ended
    exact (stated ready resp found ended).1
  · intro stated ready resp found ended
    exact ⟨stated ready resp found ended, fun _ => ended⟩

theorem json_honest_iff :
    JsonHonest tc grpcPath respCt deadline call ↔ JsonStated tc grpcPath deadline call := by
  rw [JsonHonest, honest_iff (json_reports_iff tc grpcPath respCt deadline call)]
  constructor
  · intro stated ready resp found ended renderable
    exact (stated ready resp found ⟨ended, renderable⟩).1
  · intro stated ready resp found reached
    obtain ⟨ended, renderable⟩ := reached
    exact ⟨stated ready resp found ended renderable, fun _ => ended⟩

theorem stream_honest_iff :
    StreamHonest streamTc path deadline call ↔ StreamStated streamTc path deadline call := by
  rw [StreamHonest, honest_iff (stream_reports_iff streamTc path deadline call)]
  constructor
  · intro stated ready resp found renderable
    refine ⟨fun stopped => (stated ready resp found ⟨stopped, renderable⟩).1, ?_⟩
    intro failed zero
    exact ended_not_failed ((stated ready resp found ⟨.inr failed, renderable⟩).2 zero) failed
  · intro stated ready resp found reached
    obtain ⟨stopped, renderable⟩ := reached
    obtain ⟨present, broken⟩ := stated ready resp found renderable
    exact ⟨present stopped, fun zero => stopped.resolve_right fun failed => broken failed zero⟩

/-- Each path reports 0 honestly exactly for the responses that come with a status, and on a
WebSocket with another status than 0 when the body breaks. -/
theorem reported_status_honest_iff :
    (UnaryHonest deadline call ↔ UnaryStated deadline call) ∧
    (JsonHonest tc grpcPath respCt deadline call ↔ JsonStated tc grpcPath deadline call) ∧
    (StreamHonest streamTc path deadline call ↔ StreamStated streamTc path deadline call) :=
  ⟨unary_honest_iff deadline call, json_honest_iff tc grpcPath respCt deadline call,
    stream_honest_iff streamTc path deadline call⟩

end Honest

/-- A backend that breaks off its body without a status is reported as `OK` on a WebSocket, and
one that just ends it on every path. -/
theorem broken_body_reports_ok :
    letI := flagSchema
    ¬StreamHonest none "/flag.Flags/Get" none (some (0, .ok ⟨200, [], [(1, .error "connection reset")]⟩)) ∧
    ¬UnaryHonest none (some (0, .ok ⟨200, [], [(1, .eof)]⟩)) ∧
    ¬JsonHonest ⟨()⟩ "/flag.Flags/Get" .sdk none (some (0, .ok ⟨200, [], [(1, .eof)]⟩)) ∧
    ¬StreamHonest none "/flag.Flags/Get" none (some (0, .ok ⟨200, [], [(1, .eof)]⟩)) := by
  have silent : carried [] [] ≠ some 0 := by decide
  refine ⟨?_, ?_, ?_, ?_⟩
  · intro honest
    obtain ⟨ready, resp, found, _, zero⟩ := honest ⟨Ws.trailerFrame [] [], by decide, rfl⟩
    cases found
    exact silent zero
  · intro honest
    obtain ⟨ready, resp, found, _, zero⟩ := honest
      ⟨_, rfl, (1, .trailer ⟨0, "", []⟩), by decide, ⟨0, "", []⟩, rfl, rfl⟩
    cases found
    exact silent zero
  · intro honest
    have reports := (@json_reports_iff flagSchema (@Transcoder.mk flagSchema ()) "/flag.Flags/Get" .sdk none
      (some (0, .ok ⟨200, [], [(1, .eof)]⟩))).mpr ⟨0, _, rfl, ⟨⟨1, rfl⟩, ?_⟩, by decide⟩
    · obtain ⟨ready, resp, found, _, zero⟩ := honest reports
      cases found
      exact silent zero
    · intro unrenderable
      obtain ⟨m, member, _⟩ := unrenderable
      cases member
  · intro honest
    obtain ⟨ready, resp, found, _, zero⟩ := honest ⟨Ws.trailerFrame [] [], by decide, rfl⟩
    cases found
    exact silent zero

end StatusHonesty
end GrpcWebnext
