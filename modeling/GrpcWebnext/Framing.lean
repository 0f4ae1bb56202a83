import GrpcWebnext.Pb

/-!
# Fetch response framing

Two length-prefixed blocks: the message, then the encoded `Trailer`.
-/

namespace GrpcWebnext
namespace Framing

def LEN_PREFIX : Nat := 4

inductive FetchError where
  | tooLarge (limit : Nat)
  | truncated (expected had : Nat)
  | decode
  deriving DecidableEq

def takeBlock (body : Bytes) : Except FetchError (Bytes × Bytes) :=
  if body.length < LEN_PREFIX then .error (.truncated LEN_PREFIX body.length)
  else
    let len := getU32 body
    let body := body.drop LEN_PREFIX
    if body.length < len then .error (.truncated len body.length)
    else .ok (body.take len, body.drop len)

theorem takeBlock_block {m : Bytes} (small : m.length < 2 ^ 32) (rest : Bytes) :
    takeBlock (putU32 m.length ++ m ++ rest) = .ok (m, rest) := by
  have read : getU32 (putU32 m.length ++ m ++ rest) = m.length := by
    rw [List.append_assoc]; exact getU32_putU32 small _
  have dropped : (putU32 m.length ++ m ++ rest).drop LEN_PREFIX = m ++ rest := by
    rw [List.append_assoc]; exact List.drop_left' rfl
  unfold takeBlock
  simp only [read, dropped]
  rw [if_neg (by simp [LEN_PREFIX]), if_neg (by simp)]
  simp

variable [Prost]

def encodeTrailerBlock (trailer : Trailer) : Bytes :=
  let encoded := Prost.encodeTrailer trailer
  putU32 encoded.length ++ encoded

def encodeResponseBody (message : Bytes) (trailer : Trailer) : Bytes :=
  putU32 message.length ++ message ++ encodeTrailerBlock trailer

def EMPTY_MESSAGE_BLOCK : Bytes := [0, 0, 0, 0]

def decodeResponseBody (body : Bytes) (limit : Nat) : Except FetchError (Bytes × Trailer) := do
  if body.length > limit then .error (.tooLarge limit)
  let (message, body) ← takeBlock body
  let (trailerBytes, _) ← takeBlock body
  match Prost.decodeTrailer trailerBytes with
  | some trailer => pure (message, trailer)
  | none => .error .decode

theorem decodeResponseBody_encode {m : Bytes} {t : Trailer} {limit : Nat}
    (roundTrip : Prost.decodeTrailer (Prost.encodeTrailer t) = some t) (small : m.length < 2 ^ 32)
    (smallTrailer : (Prost.encodeTrailer t).length < 2 ^ 32)
    (fits : (encodeResponseBody m t).length ≤ limit) :
    decodeResponseBody (encodeResponseBody m t) limit = .ok (m, t) := by
  have second : takeBlock (encodeTrailerBlock t) = .ok (Prost.encodeTrailer t, []) := by
    simpa [encodeTrailerBlock] using takeBlock_block smallTrailer []
  unfold decodeResponseBody
  rw [if_neg (Nat.not_lt.mpr fits), encodeResponseBody, takeBlock_block small]
  simp only [bind, Except.bind, second, roundTrip]
  rfl

end Framing
end GrpcWebnext
