import GrpcWebnext.Fetch.UnaryProto
import GrpcWebnext.Fetch.JsonUpstream
import GrpcWebnext.Ws.RunStream

/-!
# Deadlines

What each response path sends later than the deadline after the call was dispatched.
`json_upstream` and `run_stream` put one timeout around the call; `unary_proto` puts one
around the head and another around the body.
-/

namespace GrpcWebnext
namespace Deadlines
open Metadata Fetch

/-- What may be sent at `now`: after the deadline no message bytes and no status but
`DEADLINE_EXCEEDED`. -/
def Allowed (d now : Nat) (message : Bool) (status : Option Nat) : Prop :=
  now ≤ d ∨ message = false ∧ ∀ code ∈ status, code = Code.deadlineExceeded.toNat

/-! ### A deadline on the bytes behind the flag byte -/

theorem forwarded_time {skip : Nat} {frames : List (Nat × BodyFrame)} {e : Nat × Bytes}
    (member : e ∈ forwarded skip frames) : ∃ f ∈ frames, f.1 = e.1 := by
  induction frames generalizing skip with
  | nil => cases member
  | cons frame rest ih =>
    obtain ⟨now, frame⟩ := frame
    have later : ∀ skip, e ∈ forwarded skip rest → ∃ f ∈ (now, frame) :: rest, f.1 = e.1 := by
      intro skip member
      obtain ⟨f, found, same⟩ := ih member
      exact ⟨f, List.mem_cons_of_mem _ found, same⟩
    cases frame with
    | trailers t => exact later _ member
    | data data =>
      simp only [forwarded] at member
      split at member
      · exact later _ member
      · rcases List.mem_cons.mp member with rfl | member
        · exact ⟨_, List.mem_cons_self, rfl⟩
        · exact later _ member

theorem forwarded_cut (d skip : Nat) {frames : List (Nat × BodyFrame)}
    (sorted : frames.Pairwise (·.1 ≤ ·.1)) :
    forwarded skip (frames.filter (·.1 ≤ d)) = (forwarded skip frames).filter (·.1 ≤ d) := by
  induction frames generalizing skip with
  | nil => rfl
  | cons frame rest ih =>
    obtain ⟨now, frame⟩ := frame
    obtain ⟨after, ordered⟩ := List.pairwise_cons.mp sorted
    by_cases early : now ≤ d
    · cases frame with
      | trailers t => simp [forwarded, early, ih skip ordered]
      | data data =>
        simp only [List.filter_cons, early, decide_true, ↓reduceIte, forwarded, ih _ ordered]
        split
        · rfl
        · simp [early]
    · have none : rest.filter (·.1 ≤ d) = [] := by
        simp only [List.filter_eq_nil_iff, decide_eq_true_eq]
        intro f member
        have := after f member
        omega
      have late : (forwarded skip ((now, frame) :: rest)).filter (·.1 ≤ d) = [] := by
        simp only [List.filter_eq_nil_iff, decide_eq_true_eq]
        intro e member
        obtain ⟨f, found, same⟩ := forwarded_time member
        rcases List.mem_cons.mp found with rfl | found
        · omega
        · have := after f found
          omega
      simp [early, none, late, forwarded]

/-! ### unary_proto -/

def chunkAllowed (d : Nat) (e : Nat × Chunk) : Prop :=
  match e.2 with
  | .message _ => Allowed d e.1 true none
  | .emptyBlock => Allowed d e.1 false none
  | .trailer t => Allowed d e.1 false (some t.statusCode)

def UnaryBounded (d : Nat) (call : Call) : Prop :=
  ∀ response, unaryProtoResponse (some d) call = some response → ∀ e ∈ response.chunks, chunkAllowed d e

def schedule (ready : Nat) (resp : Response) : Arrivals := arrivals none ready resp.body

/-- Between the deadline and its second start, a backend sends nothing behind the flag byte and
does not end the body, unless with `DEADLINE_EXCEEDED`. -/
def QuietAfter (d : Nat) (call : Call) : Prop :=
  ∀ ready resp, answered (some d) call = some (ready, resp) →
    (∀ e ∈ forwarded 1 (schedule ready resp).frames, e.1 ≤ d ∨ ready + d < e.1) ∧
    ∀ now, (schedule ready resp).halt = .eof now → now ≤ d ∨ ready + d < now ∨
      (readStatus (Arrivals.lastTrailers [] (schedule ready resp).frames) resp.headers).1 =
        Code.deadlineExceeded.toNat

theorem unaryFinish_allowed (d : Nat) (respHeaders : HeaderMap) (st : UnaryLoop) (timedOut : Bool)
    (now : Nat) :
    (∀ e ∈ (unaryFinish respHeaders st timedOut now).1, chunkAllowed d e) ↔
      timedOut = false → now ≤ d ∨
        (readStatus st.trailerHeaders respHeaders).1 = Code.deadlineExceeded.toNat := by
  unfold unaryFinish
  cases timedOut <;> cases st.sawMessage <;> simp [List.forall_mem_cons, chunkAllowed, Allowed, -List.mem_cons]

theorem unaryStream_allowed (d : Nat) (respHeaders : HeaderMap) (seen : Arrivals) :
    (∀ e ∈ (unaryStream respHeaders seen.halt {} seen.frames).1, chunkAllowed d e) ↔
      (∀ e ∈ forwarded 1 seen.frames, e.1 ≤ d) ∧
        ∀ now, seen.halt = .eof now → now ≤ d ∨
          (readStatus (Arrivals.lastTrailers [] seen.frames) respHeaders).1 = Code.deadlineExceeded.toNat := by
  rw [unaryStream_eq]
  simp only [List.forall_mem_append, List.forall_mem_map]
  refine and_congr ?_ ?_
  · simp [messageChunk, chunkAllowed, Allowed]
  · cases seen.halt with
    | eof now => simp only [unaryStream, unaryFinish_allowed, UnaryLoop.read, Halt.eof.injEq, forall_eq', true_imp_iff]
    | timeout now => simp only [unaryStream, unaryFinish_allowed, reduceCtorEq, false_imp_iff, implies_true]
    | error now e => simp [unaryStream]
    | pending => simp [unaryStream]

theorem cut_window (d ready : Nat) (respHeaders : HeaderMap) {seen : Arrivals}
    (sorted : seen.frames.Pairwise (·.1 ≤ ·.1))
    (before : ∀ t ∈ seen.halt.time, ∀ f ∈ seen.frames, f.1 ≤ t) :
    ((∀ e ∈ forwarded 1 (seen.cut (ready + d)).frames, e.1 ≤ d) ∧
      ∀ now, (seen.cut (ready + d)).halt = .eof now → now ≤ d ∨
        (readStatus (Arrivals.lastTrailers [] (seen.cut (ready + d)).frames) respHeaders).1 =
          Code.deadlineExceeded.toNat) ↔
    (∀ e ∈ forwarded 1 seen.frames, e.1 ≤ d ∨ ready + d < e.1) ∧
      ∀ now, seen.halt = .eof now → now ≤ d ∨ ready + d < now ∨
        (readStatus (Arrivals.lastTrailers [] seen.frames) respHeaders).1 = Code.deadlineExceeded.toNat := by
  refine and_congr ?_ (forall_congr' fun now => ?_)
  · simp only [Arrivals.cut, forwarded_cut _ _ sorted, List.mem_filter, decide_eq_true_eq]
    apply forall_congr'
    intro e
    constructor
    · intro bounded member
      by_cases early : e.1 ≤ ready + d
      · exact .inl (bounded ⟨member, early⟩)
      · exact .inr (Nat.lt_of_not_le early)
    · intro quiet kept
      obtain ⟨member, early⟩ := kept
      exact (quiet member).resolve_right (Nat.not_lt.mpr early)
  · rw [Arrivals.cut_eof_iff]
    -- A body that ends in the window has lost no frame to the cut.
    have whole : seen.halt = .eof now → now ≤ ready + d → (seen.cut (ready + d)).frames = seen.frames := by
      intro halt early
      have all := before now (by simp [halt, Halt.time])
      apply List.filter_eq_self.mpr
      intro f member
      simpa using Nat.le_trans (all f member) early
    constructor
    · intro bounded halt
      by_cases early : now ≤ ready + d
      · rw [whole halt early] at bounded
        exact (bounded ⟨halt, early⟩).imp_right .inr
      · exact .inr (.inl (Nat.lt_of_not_le early))
    · intro quiet kept
      obtain ⟨halt, early⟩ := kept
      rw [whole halt early]
      exact (quiet halt).imp_right fun rest => rest.resolve_left (Nat.not_lt.mpr early)

theorem fetchStatus_allowed {d now : Nat} (fine : now ≤ d) (code : Code) (message : String) :
    ∀ e ∈ (fetchStatus now code message).chunks, chunkAllowed d e := by
  simp [fetchStatus, chunkAllowed, Allowed, List.forall_mem_cons, -List.mem_cons, fine]

theorem inTime_start (d ready : Nat) : inTime (some d) 0 ready = true ↔ ready ≤ d := by
  simp only [inTime, Bool.or_eq_true, decide_eq_true_eq]
  omega

theorem unary_bounded_iff (d : Nat) (call : Call) : UnaryBounded d call ↔ QuietAfter d call := by
  unfold UnaryBounded QuietAfter unaryProtoResponse
  have expired := fetchStatus_allowed (Nat.le_refl d) .deadlineExceeded "deadline exceeded"
  match call with
  | none => simpa [answered] using expired
  | some (ready, .error e) =>
    cases ontime : inTime (some d) 0 ready with
    | false => simpa [answered, ontime] using expired
    | true =>
      have early := (inTime_start d ready).mp ontime
      simpa [answered, ontime] using fetchStatus_allowed early .unavailable s!"upstream: {e}"
  | some (ready, .ok resp) =>
    cases ontime : inTime (some d) 0 ready with
    | false => simpa [answered, ontime] using expired
    | true =>
      obtain ⟨_, sorted, before⟩ := arrivals_ordered ready resp.body
      have window := cut_window d ready resp.headers sorted fun t halted => (before t halted).2
      rw [← unaryStream_allowed, ← arrivals_cut (Nat.le_add_right ready d)] at window
      simp only [answered, ontime, ↓reduceIte, Option.some.injEq, forall_eq', Option.map_some]
      refine window.trans ⟨?_, fun quiet => quiet ready resp rfl⟩
      rintro quiet _ _ ⟨⟩
      exact quiet

/-! ### json_upstream and run_stream -/

section Whole

variable [ProstReflect]

/-- A JSON response is sent at once. -/
def JsonBounded (tc : Transcoder) (grpcPath : String) (respCt : JsonCt) (d : Nat) (call : Call) : Prop :=
  ∀ e, jsonUpstream tc grpcPath respCt (some d) call = some e →
    Allowed d e.1 (!e.2.body.isEmpty) e.2.grpcStatus

def StreamBounded (tc : Option Transcoder) (path : String) (d : Nat) (call : Call) : Prop :=
  ∀ e ∈ (Ws.runStream tc path (some d) call).frames, Allowed d e.1 (e.2.kind matches some (.message _)) e.2.status?

theorem json_bounded (tc : Transcoder) (grpcPath : String) (respCt : JsonCt) (d : Nat) (call : Call) :
    JsonBounded tc grpcPath respCt d call := by
  intro e sent
  left
  match call with
  | none =>
    cases sent
    exact Nat.le_refl d
  | some (ready, answer) =>
    cases ontime : inTime (some d) 0 ready with
    | false =>
      simp only [jsonUpstream, ontime, Bool.false_eq_true, ↓reduceIte] at sent
      cases sent
      exact Nat.le_refl d
    | true =>
      have early := (inTime_start d ready).mp ontime
      cases answer with
      | error e =>
        simp only [jsonUpstream, ontime, ↓reduceIte] at sent
        cases sent
        exact early
      | ok resp =>
        have stopped := (arrivals_le early resp.body).2
        simp only [jsonUpstream, ontime, ↓reduceIte] at sent
        cases halt : (arrivals (some d) ready resp.body).halt with
        | eof now | error now e | timeout now =>
          rw [halt] at sent
          cases sent
          exact stopped now (by simp [halt, Halt.time])
        | pending =>
          rw [halt] at sent
          cases sent

theorem stream_bounded (tc : Option Transcoder) (path : String) (d : Nat) (call : Call) :
    StreamBounded tc path d call := by
  intro e sent
  left
  match call with
  | none =>
    obtain rfl := List.mem_singleton.mp sent
    exact Nat.le_refl d
  | some (ready, answer) =>
    cases ontime : inTime (some d) 0 ready with
    | false =>
      simp only [Ws.runStream, ontime, Bool.false_eq_true, ↓reduceIte] at sent
      obtain rfl := List.mem_singleton.mp sent
      exact Nat.le_refl d
    | true =>
      have early := (inTime_start d ready).mp ontime
      cases answer with
      | error e =>
        simp only [Ws.runStream, ontime, ↓reduceIte] at sent
        obtain rfl := List.mem_singleton.mp sent
        exact early
      | ok resp =>
        obtain ⟨handed, stopped⟩ := arrivals_le early resp.body
        simp only [Ws.runStream, ontime, ↓reduceIte, Ws.StreamRun.after] at sent
        rcases List.mem_append.mp sent with header | sent
        · obtain rfl := List.mem_singleton.mp header
          exact early
        · exact Ws.pumpBody_le tc path resp.headers stopped {} handed e sent

/-- The deadline bounds the call on every path exactly when no answer of the backend falls between
it and the second deadline of `unary_proto`. -/
theorem deadline_bounds_iff (tc : Transcoder) (grpcPath : String) (respCt : JsonCt)
    (streamTc : Option Transcoder) (path : String) (d : Nat) (call : Call) :
    (UnaryBounded d call ∧ JsonBounded tc grpcPath respCt d call ∧ StreamBounded streamTc path d call) ↔
      QuietAfter d call := by
  rw [unary_bounded_iff]
  constructor
  · exact And.left
  · intro quiet
    exact ⟨quiet, json_bounded tc grpcPath respCt d call, stream_bounded streamTc path d call⟩

end Whole

/-- A head after 50 ms of a deadline of 60 ms, and the end of the body 50 ms later. -/
theorem late_status_sent :
    ¬UnaryBounded 60 (some (50, .ok ⟨200, [], [(100, .trailers [(.grpcStatus, HeaderValue.ofNat 0)]), (100, .eof)]⟩)) := by
  intro bounded
  have late := bounded _ rfl (100, .trailer ⟨0, "", []⟩) (by decide)
  exact absurd late (by unfold chunkAllowed Allowed; decide)

end Deadlines
end GrpcWebnext
