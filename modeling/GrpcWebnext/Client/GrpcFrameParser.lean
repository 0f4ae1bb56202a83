import GrpcWebnext.GrpcFraming

/-!
# The client's gRPC frame parser

`GrpcFrameParser` of `h2ts-transport.ts`, over views of array buffers: what a chunk leaves unread
stays a view of the merged buffer, and the next chunk is copied behind it.
-/

namespace GrpcWebnext
namespace Client

structure Uint8Array where
  buffer : Bytes
  byteOffset : Nat
  byteLength : Nat
  within : byteOffset + byteLength ≤ buffer.length

namespace Uint8Array

def bytes (a : Uint8Array) : Bytes := (a.buffer.drop a.byteOffset).take a.byteLength

def ofBytes (b : Bytes) : Uint8Array := ⟨b, 0, b.length, by simp⟩

def subarray (a : Uint8Array) (start : Nat) : Uint8Array where
  buffer := a.buffer
  byteOffset := a.byteOffset + min start a.byteLength
  byteLength := a.byteLength - start
  within := by have := a.within; omega

def slice (a : Uint8Array) (start stop : Nat) : Bytes := (a.bytes.take stop).drop start

theorem length_bytes (a : Uint8Array) : a.bytes.length = a.byteLength := by
  have := a.within
  simp only [bytes, List.length_take, List.length_drop]
  omega

theorem bytes_ofBytes (b : Bytes) : (ofBytes b).bytes = b := by simp [bytes, ofBytes]

theorem bytes_subarray (a : Uint8Array) (start : Nat) : (a.subarray start).bytes = a.bytes.drop start := by
  simp only [bytes, subarray, List.drop_take, List.drop_drop]
  by_cases inside : start ≤ a.byteLength
  · rw [Nat.min_eq_left inside]
  · rw [Nat.sub_eq_zero_of_le (by omega), List.take_zero, List.take_zero]

end Uint8Array

/-- `new DataView(buf.buffer, buf.byteOffset + offset, 5).getUint32(1, false)`. -/
def frameLength (buf : Uint8Array) (offset : Nat) : Nat :=
  getU32 ((buf.buffer.drop (buf.byteOffset + offset)).drop 1)

structure GrpcFrameParser where
  buf : Uint8Array := .ofBytes []

/-- The loop of `push`: the messages from `offset` on, and the offset behind them. -/
def GrpcFrameParser.scan (buf : Uint8Array) (offset : Nat) : List Bytes × Nat :=
  if buf.byteLength - offset < 5 then ([], offset)
  else
    let len := frameLength buf offset
    if buf.byteLength - offset - 5 < len then ([], offset)
    else
      let later := scan buf (offset + (5 + len))
      (buf.slice (offset + 5) (offset + 5 + len) :: later.1, later.2)
termination_by buf.byteLength - offset

def GrpcFrameParser.push (p : GrpcFrameParser) (chunk : Bytes) : List Bytes × GrpcFrameParser :=
  let buf := if chunk.length > 0 then .ofBytes (p.buf.bytes ++ chunk) else p.buf
  let scanned := scan buf 0
  (scanned.1, ⟨buf.subarray scanned.2⟩)

namespace GrpcFrameParser
open GrpcFraming

theorem frameLength_eq {buf : Uint8Array} {offset : Nat} (header : 5 ≤ buf.byteLength - offset) :
    frameLength buf offset = getU32 ((buf.bytes.drop offset).take 5).tail := by
  have within := buf.within
  simp only [frameLength, Uint8Array.bytes, List.drop_take, List.take_take, List.drop_drop]
  rw [Nat.min_eq_left header]
  generalize rest_eq : buf.buffer.drop (buf.byteOffset + offset) = rest
  have long : 5 ≤ rest.length := by rw [← rest_eq, List.length_drop]; omega
  rw [← List.drop_drop, rest_eq]
  match rest, long with
  | a :: b :: c :: d :: e :: _, _ => rfl

theorem scan_eq (buf : Uint8Array) (offset : Nat) :
    (scan buf offset).1 = (grpc.drain (buf.bytes.drop offset)).1 ∧
      buf.bytes.drop (scan buf offset).2 = (grpc.drain (buf.bytes.drop offset)).2 := by
  have length := buf.length_bytes
  fun_induction scan buf offset with
  | case1 offset short =>
    have none : grpc.next (buf.bytes.drop offset) = none := if_pos (by simp [grpc, length, short])
    rw [LengthPrefix.Format.drain_none none]
    exact ⟨rfl, rfl⟩
  | case2 offset header len short =>
    have none : grpc.next (buf.bytes.drop offset) = none := by
      simp only [LengthPrefix.Format.next, grpc, List.length_drop, length]
      rw [if_neg header, ← frameLength_eq (by omega), if_pos (by omega)]
    rw [LengthPrefix.Format.drain_none none]
    exact ⟨rfl, rfl⟩
  | case3 offset header len fits later ih =>
    have found : grpc.next (buf.bytes.drop offset) =
        some (buf.slice (offset + 5) (offset + 5 + len), buf.bytes.drop (offset + (5 + len))) := by
      simp only [LengthPrefix.Format.next, grpc, List.length_drop, length]
      rw [if_neg header, ← frameLength_eq (by omega), if_neg (by omega)]
      simp only [Uint8Array.slice, List.drop_drop, List.drop_take, Nat.add_sub_cancel_left, len]
    rw [LengthPrefix.Format.drain_some found]
    exact ⟨by rw [ih.1], ih.2⟩

theorem push_eq (p : GrpcFrameParser) (chunk : Bytes) :
    (p.push chunk).1 = (grpc.drain (p.buf.bytes ++ chunk)).1 ∧
      (p.push chunk).2.buf.bytes = (grpc.drain (p.buf.bytes ++ chunk)).2 := by
  have merged : (if chunk.length > 0 then Uint8Array.ofBytes (p.buf.bytes ++ chunk) else p.buf).bytes =
      p.buf.bytes ++ chunk := by
    split
    · exact Uint8Array.bytes_ofBytes _
    · rename_i empty
      rw [List.eq_nil_of_length_eq_zero (by omega : chunk.length = 0), List.append_nil]
  have scanned := scan_eq (if chunk.length > 0 then .ofBytes (p.buf.bytes ++ chunk) else p.buf) 0
  rw [merged, List.drop_zero] at scanned
  refine ⟨scanned.1, ?_⟩
  simp only [push, Uint8Array.bytes_subarray, merged]
  exact scanned.2

end GrpcFrameParser
end Client
end GrpcWebnext
