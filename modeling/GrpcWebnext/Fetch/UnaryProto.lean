import GrpcWebnext.Backend
import GrpcWebnext.Metadata
import GrpcWebnext.Framing

/-!
# Unary calls over Fetch, binary codec

`unary_proto` from the dispatch of the call on: establish the response under the deadline,
then stream the message block and append the trailer block.
-/

namespace GrpcWebnext
namespace Fetch
open Metadata

inductive Chunk where
  /-- bytes of the message block, as they come out of the gRPC frame -/
  | message (bytes : Bytes)
  | emptyBlock
  | trailer (trailer : Trailer)
  deriving DecidableEq

def Chunk.bytes [Prost] : Chunk → Bytes
  | .message b => b
  | .emptyBlock => Framing.EMPTY_MESSAGE_BLOCK
  | .trailer t => Framing.encodeTrailerBlock t

inductive StreamEnd where
  | complete
  /-- the deadline fired inside the message block -/
  | truncated
  | failed (e : BoxError)
  | pending
  deriving DecidableEq

structure UnaryResponse where
  headers : HeaderMap
  chunks : List (Nat × Chunk)
  ending : StreamEnd
  deriving DecidableEq

def CT_PROTO : HeaderValue := ⟨Utf8.encode "application/grpc-webnext+proto", by decide⟩

def fetchStatus (now : Nat) (code : Code) (message : String) : UnaryResponse :=
  ⟨[(.contentType, CT_PROTO)],
    [(now, .emptyBlock), (now, .trailer ⟨code.toNat, message, []⟩)], .complete⟩

structure UnaryLoop where
  skip : Nat := 1
  sawMessage : Bool := false
  trailerHeaders : HeaderMap := []
  deriving DecidableEq

/-- After the loop: a truncated body stays truncated, else the trailer block follows. -/
def unaryFinish (respHeaders : HeaderMap) (st : UnaryLoop) (timedOut : Bool) (now : Nat) :
    List (Nat × Chunk) × StreamEnd :=
  if timedOut && st.sawMessage then ([], .truncated)
  else
    let empty := if st.sawMessage then [] else [(now, Chunk.emptyBlock)]
    let status := if timedOut then (Code.deadlineExceeded.toNat, "deadline exceeded")
      else readStatus st.trailerHeaders respHeaders
    let trailing := if st.trailerHeaders.isEmpty && respHeaders.containsKey .grpcStatus then respHeaders
      else st.trailerHeaders
    (empty ++ [(now, .trailer ⟨status.1, status.2, metadataToVec trailing⟩)], .complete)

def unaryStream (respHeaders : HeaderMap) (halt : Halt) (st : UnaryLoop) :
    List (Nat × BodyFrame) → List (Nat × Chunk) × StreamEnd
  | [] =>
    match halt with
    | .eof now => unaryFinish respHeaders st false now
    | .timeout now => unaryFinish respHeaders st true now
    | .error _ e => ([], .failed s!"upstream body: {e}")
    | .pending => ([], .pending)
  | (now, .data data) :: rest =>
    -- The flag byte is dropped, wherever the first chunks end.
    let kept := data.drop st.skip
    let skip := st.skip - data.length
    if kept.isEmpty then unaryStream respHeaders halt { st with skip } rest
    else
      let later := unaryStream respHeaders halt { st with skip, sawMessage := true } rest
      ((now, .message kept) :: later.1, later.2)
  | (_, .trailers t) :: rest => unaryStream respHeaders halt { st with trailerHeaders := t } rest

/-- What `unary_proto` answers to a call dispatched at time 0; `none` while the backend has
not answered and no deadline bounds it. -/
def unaryProtoResponse (deadline : Option Nat) (call : Call) : Option UnaryResponse :=
  match call with
  | some (ready, answer) =>
    if inTime deadline 0 ready then
      match answer with
      | .error e => some (fetchStatus ready .unavailable s!"upstream: {e}")
      | .ok resp =>
        let trailersOnly := resp.headers.containsKey .grpcStatus
        let headers : HeaderMap := [(.contentType, CT_PROTO)]
        let headers := if trailersOnly then headers else mergeMetadataIntoHeaders resp.headers headers
        -- The body's deadline is counted from the arrival of the head.
        let deadlineAt := deadline.map (ready + ·)
        let seen := arrivals deadlineAt ready resp.body
        let stream := unaryStream resp.headers seen.halt {} seen.frames
        some ⟨headers, stream.1, stream.2⟩
    else some (fetchStatus (deadline.getD 0) .deadlineExceeded "deadline exceeded")
  | none => deadline.map fun d => fetchStatus d .deadlineExceeded "deadline exceeded"

/-! ### What the stream yields -/

def forwarded (skip : Nat) : List (Nat × BodyFrame) → List (Nat × Bytes)
  | [] => []
  | (now, .data data) :: rest =>
    let later := forwarded (skip - data.length) rest
    if (data.drop skip).isEmpty then later else (now, data.drop skip) :: later
  | (_, .trailers _) :: rest => forwarded skip rest

def UnaryLoop.read (st : UnaryLoop) (frames : List (Nat × BodyFrame)) : UnaryLoop where
  skip := st.skip - (Arrivals.bytes frames).length
  sawMessage := st.sawMessage || decide (st.skip < (Arrivals.bytes frames).length)
  trailerHeaders := Arrivals.lastTrailers st.trailerHeaders frames

def messageChunk (e : Nat × Bytes) : Nat × Chunk := (e.1, .message e.2)

theorem forwarded_bytes (skip : Nat) (frames : List (Nat × BodyFrame)) :
    ((forwarded skip frames).map Prod.snd).flatten = (Arrivals.bytes frames).drop skip := by
  induction frames generalizing skip with
  | nil => simp [forwarded, Arrivals.bytes]
  | cons frame rest ih =>
    obtain ⟨now, frame⟩ := frame
    cases frame with
    | trailers t => exact ih skip
    | data data =>
      simp only [forwarded, Arrivals.bytes, List.drop_append]
      split
      · rename_i empty
        rw [ih, List.isEmpty_iff.mp empty, List.nil_append]
      · rw [List.map_cons, List.flatten_cons, ih]

/-- The stream forwards the bytes behind the flag byte and then ends as its last turn does. -/
theorem unaryStream_eq (respHeaders : HeaderMap) (halt : Halt) (st : UnaryLoop)
    (frames : List (Nat × BodyFrame)) :
    unaryStream respHeaders halt st frames =
      let last := unaryStream respHeaders halt (st.read frames) []
      ((forwarded st.skip frames).map messageChunk ++ last.1, last.2) := by
  induction frames generalizing st with
  | nil => cases st; simp [UnaryLoop.read, forwarded, Arrivals.bytes, Arrivals.lastTrailers]
  | cons frame rest ih =>
    obtain ⟨now, frame⟩ := frame
    cases frame with
    | trailers t => exact ih { st with trailerHeaders := t }
    | data data =>
      have read : ∀ saw, (st.sawMessage || decide (st.skip < data.length)) = saw →
          UnaryLoop.read ⟨st.skip - data.length, saw, st.trailerHeaders⟩ rest =
            st.read ((now, .data data) :: rest) := by
        rintro saw rfl
        simp only [UnaryLoop.read, Arrivals.bytes, Arrivals.lastTrailers, List.length_append,
          UnaryLoop.mk.injEq, Nat.sub_sub, Bool.or_assoc, ← Bool.decide_or, true_and, and_true]
        congr 1
        simp only [decide_eq_decide]
        omega
      simp only [unaryStream, forwarded]
      split
      · rename_i empty
        have short : data.length ≤ st.skip := by simpa using empty
        rw [ih, read _ (by simp [Nat.not_lt.mpr short])]
        rfl
      · rename_i nonempty
        have long : st.skip < data.length := by simpa using nonempty
        rw [ih, read _ (by simp [long])]
        rfl

end Fetch
end GrpcWebnext
