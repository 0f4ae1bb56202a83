import GrpcWebnext.Client.GrpcFrameParser
import GrpcWebnext.Fetch.Request

/-!
# Incremental de-framing

The `Deframer` of the server and the `GrpcFrameParser` of the client cut a stream of gRPC frames
that arrives in chunks. What they return does not depend on the chunks.
-/

namespace GrpcWebnext
namespace Deframing
open GrpcFraming Client

/-- Chunk after chunk, drained each time: the messages of every chunk, and the de-framer behind
the last one. -/
def feedDeframer (d : Deframer) : List Bytes → List (List Bytes) × Deframer
  | [] => ([], d)
  | chunk :: rest =>
    let drained := (d.push chunk).drain
    let later := feedDeframer drained.2 rest
    (drained.1 :: later.1, later.2)

def feedParser (p : GrpcFrameParser) : List Bytes → List (List Bytes) × GrpcFrameParser
  | [] => ([], p)
  | chunk :: rest =>
    let pushed := p.push chunk
    let later := feedParser pushed.2 rest
    (pushed.1 :: later.1, later.2)

theorem feedDeframer_eq (d : Deframer) (chunks : List Bytes) :
    feedDeframer d chunks = ((grpc.feed d.buf chunks).1, ⟨(grpc.feed d.buf chunks).2⟩) := by
  induction chunks generalizing d with
  | nil => rfl
  | cons chunk rest ih =>
    simp only [feedDeframer, LengthPrefix.Format.feed, drain_eq, Deframer.push]
    rw [ih]

theorem feedParser_eq (p : GrpcFrameParser) (chunks : List Bytes) :
    (feedParser p chunks).1 = (grpc.feed p.buf.bytes chunks).1 ∧
      (feedParser p chunks).2.buf.bytes = (grpc.feed p.buf.bytes chunks).2 := by
  induction chunks generalizing p with
  | nil => exact ⟨rfl, rfl⟩
  | cons chunk rest ih =>
    obtain ⟨messages, kept⟩ := p.push_eq chunk
    obtain ⟨later, last⟩ := ih (p.push chunk).2
    rw [kept] at later last
    simp only [feedParser, LengthPrefix.Format.feed, messages, later, last, and_self]

theorem drain_frames {messages : List Bytes} (small : ∀ m ∈ messages, m.length < 2 ^ 32) {fragment : Bytes}
    (incomplete : ¬Fetch.HoldsFrame fragment) :
    grpc.drain ((messages.map frame).flatten ++ fragment) = (messages, fragment) := by
  induction messages with
  | nil => exact LengthPrefix.Format.drain_none ((Fetch.next_eq_none_iff fragment).mpr incomplete)
  | cons m rest ih =>
    obtain ⟨first, small⟩ := List.forall_mem_cons.mp small
    rw [List.map_cons, List.flatten_cons, List.append_assoc,
      LengthPrefix.Format.drain_some (next_frame first _), ih small]

/-- Frames and an incomplete rest, in any chunks: both de-framers return the messages, chunk for
chunk the same ones, and keep the rest. -/
theorem incremental_deframing {messages chunks : List Bytes} {fragment : Bytes}
    (small : ∀ m ∈ messages, m.length < 2 ^ 32) (incomplete : ¬Fetch.HoldsFrame fragment)
    (split : chunks.flatten = (messages.map frame).flatten ++ fragment) :
    ((feedDeframer {} chunks).1.flatten = messages ∧ (feedDeframer {} chunks).2.buf = fragment) ∧
    deframeAll chunks.flatten = messages ∧
    (feedParser {} chunks).1 = (feedDeframer {} chunks).1 ∧
    (feedParser {} chunks).2.buf.bytes = fragment := by
  have whole := drain_frames small incomplete
  have nothing : grpc.next [] = none := by decide
  have fed := grpc.feed_eq chunks nothing
  rw [List.nil_append, split, whole] at fed
  obtain ⟨returned, kept⟩ := Prod.mk.inj fed
  obtain ⟨parsed, left⟩ := feedParser_eq {} chunks
  refine ⟨?_, ?_, ?_, ?_⟩
  · rw [feedDeframer_eq]
    exact ⟨returned, kept⟩
  · rw [deframeAll_eq, split, whole]
  · rw [feedDeframer_eq]
    exact parsed
  · exact left.trans kept

/-- An empty message and one of a single byte, cut inside both headers. -/
theorem incremental_deframing_split :
    ((feedDeframer {} [[0, 0], [0, 0, 0, 0, 0, 0], [0, 1, 7, 0]]).1.flatten = [[], [7]] ∧
      (feedDeframer {} [[0, 0], [0, 0, 0, 0, 0, 0], [0, 1, 7, 0]]).2.buf = [0]) ∧
    deframeAll [[0, 0], [0, 0, 0, 0, 0, 0], [0, 1, 7, 0]].flatten = [[], [7]] ∧
    (feedParser {} [[0, 0], [0, 0, 0, 0, 0, 0], [0, 1, 7, 0]]).1 =
      (feedDeframer {} [[0, 0], [0, 0, 0, 0, 0, 0], [0, 1, 7, 0]]).1 ∧
    (feedParser {} [[0, 0], [0, 0, 0, 0, 0, 0], [0, 1, 7, 0]]).2.buf.bytes = [0] :=
  incremental_deframing (by decide) (by simp [Fetch.HoldsFrame]) (by decide)

end Deframing
end GrpcWebnext
