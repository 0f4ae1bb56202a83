import GrpcWebnext.Bytes
import GrpcWebnext.Lib.LengthPrefix

/-!
# gRPC message framing

One flag byte, a big-endian `u32` length, the message. The de-framer is the length-prefixed
format `grpc` of `LengthPrefix`.
-/

namespace GrpcWebnext
namespace GrpcFraming

def HEADER_LEN : Nat := 5

def frame (message : Bytes) : Bytes := 0 :: putU32 message.length ++ message

structure Deframer where
  buf : Bytes := []
  deriving DecidableEq

def Deframer.push (d : Deframer) (chunk : Bytes) : Deframer := ⟨d.buf ++ chunk⟩

def Deframer.nextMessage (d : Deframer) : Option (Bytes × Deframer) :=
  if d.buf.length < HEADER_LEN then none
  else
    let len := fromBeBytes (d.buf.getD 1 0) (d.buf.getD 2 0) (d.buf.getD 3 0) (d.buf.getD 4 0)
    if d.buf.length < HEADER_LEN + len then none
    else
      let advanced := d.buf.drop HEADER_LEN
      some (advanced.take len, ⟨advanced.drop len⟩)

/-- The loop `while let Some(m) = d.next_message()`. Each turn takes at least the header, so
`fuel` is never short when it is the buffer's length. -/
def Deframer.drainFuel : Nat → Deframer → List Bytes × Deframer
  | 0, d => ([], d)
  | fuel + 1, d =>
    match d.nextMessage with
    | none => ([], d)
    | some (m, rest) =>
      let tail := drainFuel fuel rest
      (m :: tail.1, tail.2)

def Deframer.drain (d : Deframer) : List Bytes × Deframer := d.drainFuel d.buf.length

def deframeAll (body : Bytes) : List Bytes := (Deframer.push {} body).drain.1

/-- The header of a gRPC frame declares the length in its last four bytes. -/
def grpc : LengthPrefix.Format UInt8 where
  header := 5
  header_pos := by decide
  declared h := getU32 h.tail

theorem nextMessage_eq (d : Deframer) :
    d.nextMessage = (grpc.next d.buf).map fun r => (r.1, ⟨r.2⟩) := by
  obtain ⟨buf⟩ := d
  match buf with
  | [] | [_] | [_, _] | [_, _, _] | [_, _, _, _] => rfl
  | a :: b :: c :: e :: f :: rest =>
    simp only [Deframer.nextMessage, LengthPrefix.Format.next, grpc, HEADER_LEN]
    simp only [List.getD_cons_succ, List.getD_cons_zero, List.take_succ_cons, List.take_zero,
      List.tail_cons, getU32]
    have header : ¬(a :: b :: c :: e :: f :: rest).length < 5 := by simp
    simp only [header, ↓reduceIte]
    by_cases short : (a :: b :: c :: e :: f :: rest).length < 5 + fromBeBytes b c e f
    · simp only [short, ↓reduceIte, Option.map_none]
    · simp only [short, ↓reduceIte, Option.map_some, ← List.drop_drop]

theorem drainFuel_eq (fuel : Nat) (d : Deframer) :
    d.drainFuel fuel = ((grpc.drainFuel fuel d.buf).1, ⟨(grpc.drainFuel fuel d.buf).2⟩) := by
  induction fuel generalizing d with
  | zero => rfl
  | succ fuel ih =>
    simp only [Deframer.drainFuel, LengthPrefix.Format.drainFuel, nextMessage_eq]
    cases grpc.next d.buf with
    | none => rfl
    | some r => simp [ih]

theorem drain_eq (d : Deframer) : d.drain = ((grpc.drain d.buf).1, ⟨(grpc.drain d.buf).2⟩) :=
  drainFuel_eq _ _

theorem deframeAll_eq (body : Bytes) : deframeAll body = (grpc.drain body).1 := by
  simp [deframeAll, drain_eq, Deframer.push]

theorem next_frame {m : Bytes} (small : m.length < 2 ^ 32) (rest : Bytes) :
    grpc.next (frame m ++ rest) = some (m, rest) :=
  LengthPrefix.Format.next_eq_some.mpr
    ⟨0 :: putU32 m.length, rfl, (getU32_putU32 small []).symm, by simp [frame]⟩

end GrpcFraming
end GrpcWebnext
