import GrpcWebnext.Fetch.UnaryProto
import GrpcWebnext.GrpcFraming

/-!
# The streamed response body

`unary_proto` streams its response and never holds a message. What it sends for a backend body of
at most one gRPC frame is what the buffering encoder `encode_response_body` makes of the message.
-/

namespace GrpcWebnext
namespace StreamedResponse
open Metadata

def endTrailer (respHeaders trailers : HeaderMap) : Trailer :=
  let status := readStatus trailers respHeaders
  let trailing := if trailers.isEmpty && respHeaders.containsKey .grpcStatus then respHeaders else trailers
  ⟨status.1, status.2, metadataToVec trailing⟩

def bodyBytes [Prost] (chunks : List (Nat × Fetch.Chunk)) : Bytes := (chunks.map (·.2.bytes)).flatten

theorem bodyBytes_append [Prost] (a b : List (Nat × Fetch.Chunk)) :
    bodyBytes (a ++ b) = bodyBytes a ++ bodyBytes b := by
  simp [bodyBytes]

theorem bodyBytes_forwarded [Prost] (skip : Nat) (frames : List (Nat × BodyFrame)) :
    bodyBytes ((Fetch.forwarded skip frames).map Fetch.messageChunk) = (Arrivals.bytes frames).drop skip := by
  rw [← Fetch.forwarded_bytes, bodyBytes, List.map_map]
  rfl

theorem unaryFinish_bytes [Prost] (respHeaders : HeaderMap) (st : Fetch.UnaryLoop) (now : Nat) :
    bodyBytes (Fetch.unaryFinish respHeaders st false now).1 =
        (if st.sawMessage then [] else Framing.EMPTY_MESSAGE_BLOCK) ++
          Framing.encodeTrailerBlock (endTrailer respHeaders st.trailerHeaders) ∧
      (Fetch.unaryFinish respHeaders st false now).2 = .complete := by
  cases saw : st.sawMessage <;> simp [Fetch.unaryFinish, saw, bodyBytes, Fetch.Chunk.bytes, endTrailer]

/-- The stream over a body of no frame or one: the two blocks, however the frame was cut. -/
theorem unaryStream_blocks [Prost] (respHeaders : HeaderMap) (now : Nat) {frames : List (Nat × BodyFrame)}
    {message : Option Bytes} (framed : Arrivals.bytes frames = (message.map GrpcFraming.frame).getD []) :
    bodyBytes (Fetch.unaryStream respHeaders (.eof now) {} frames).1 =
        Framing.encodeResponseBody (message.getD []) (endTrailer respHeaders (Arrivals.lastTrailers [] frames)) ∧
      (Fetch.unaryStream respHeaders (.eof now) {} frames).2 = .complete := by
  obtain ⟨blocks, complete⟩ := unaryFinish_bytes respHeaders (Fetch.UnaryLoop.read {} frames) now
  rw [Fetch.unaryStream_eq]
  refine ⟨?_, complete⟩
  rw [bodyBytes_append, bodyBytes_forwarded, Fetch.unaryStream, blocks]
  simp only [Fetch.UnaryLoop.read, framed, Framing.encodeResponseBody]
  cases message with
  | none => rfl
  | some m => simp [GrpcFraming.frame]

/-- The chunks of a call that completes are the encoder's bytes; a client decodes its message and
trailer from them. -/
theorem streamed_response [Prost] {deadline : Option Nat} {ready finish : Nat} {resp : Response}
    {message : Option Bytes} (ontime : inTime deadline 0 ready = true)
    (ended : (arrivals (deadline.map (ready + ·)) ready resp.body).halt = .eof finish)
    (small : ∀ m ∈ message, m.length < 2 ^ 32)
    (framed : Arrivals.bytes (arrivals (deadline.map (ready + ·)) ready resp.body).frames =
      (message.map GrpcFraming.frame).getD []) :
    ∃ response trailer, Fetch.unaryProtoResponse deadline (some (ready, .ok resp)) = some response ∧
      trailer = endTrailer resp.headers
        (Arrivals.lastTrailers [] (arrivals (deadline.map (ready + ·)) ready resp.body).frames) ∧
      response.ending = .complete ∧
      bodyBytes response.chunks = Framing.encodeResponseBody (message.getD []) trailer ∧
      (Prost.decodeTrailer (Prost.encodeTrailer trailer) = some trailer →
        (Prost.encodeTrailer trailer).length < 2 ^ 32 →
        ∀ limit, (bodyBytes response.chunks).length ≤ limit →
          Framing.decodeResponseBody (bodyBytes response.chunks) limit = .ok (message.getD [], trailer)) := by
  obtain ⟨body, complete⟩ := unaryStream_blocks resp.headers finish framed
  have short : (message.getD []).length < 2 ^ 32 := by
    cases held : message with
    | none => simp
    | some m => exact small m held
  simp only [Fetch.unaryProtoResponse, ontime, ↓reduceIte, ended]
  refine ⟨_, _, rfl, rfl, complete, body, ?_⟩
  intro roundTrip shortTrailer limit fits
  rw [body] at fits ⊢
  exact Framing.decodeResponseBody_encode roundTrip short shortTrailer fits

abbrev blankTrailers : Prost := ⟨fun _ => [], fun _ => some ⟨0, "", []⟩⟩

theorem streamed_response_cut :
    ∃ response trailer, @Fetch.unaryProtoResponse none (some (0, .ok ⟨200, [],
        [(0, .data [0]), (0, .data []), (0, .data [0, 0, 0]), (0, .data [1, 7]), (1, .eof)]⟩)) = some response ∧
      trailer = endTrailer [] [] ∧
      response.ending = .complete ∧
      @bodyBytes blankTrailers response.chunks = @Framing.encodeResponseBody blankTrailers [7] trailer ∧
      (@Prost.decodeTrailer blankTrailers (@Prost.encodeTrailer blankTrailers trailer) = some trailer →
        (@Prost.encodeTrailer blankTrailers trailer).length < 2 ^ 32 →
        ∀ limit, (@bodyBytes blankTrailers response.chunks).length ≤ limit →
          @Framing.decodeResponseBody blankTrailers (@bodyBytes blankTrailers response.chunks) limit =
            .ok ([7], trailer)) :=
  @streamed_response blankTrailers none 0 1 ⟨200, [],
    [(0, .data [0]), (0, .data []), (0, .data [0, 0, 0]), (0, .data [1, 7]), (1, .eof)]⟩ (some [7]) rfl rfl
    (by simp) rfl

end StreamedResponse
end GrpcWebnext
