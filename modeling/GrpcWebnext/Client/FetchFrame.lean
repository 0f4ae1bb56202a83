import GrpcWebnext.Client.GrpcFrameParser
import GrpcWebnext.Fetch.Request
import GrpcWebnext.Framing
import GrpcWebnext.Lib.Except

/-!
# Fetch response bodies on both sides

`decode_response_body` of the server crate and `decodeFetchResponseBody` of `frame.ts` cut a body into
the same two blocks. Neither takes a body that was cut short.
-/

namespace GrpcWebnext
namespace Client

/-! ### `frame.ts` -/

inductive FrameError where
  | range (message : String)
  /-- thrown by `Trailer.decode` -/
  | decode
  deriving DecidableEq

/-- `a.subarray(start, stop)` -/
def Uint8Array.span (a : Uint8Array) (start stop : Nat) : Uint8Array where
  buffer := a.buffer
  byteOffset := a.byteOffset + min start a.byteLength
  byteLength := min stop a.byteLength - start
  within := by have := a.within; omega

/-- `view.getUint32(offset, false)`, of a view of the whole array. -/
def Uint8Array.getUint32 (a : Uint8Array) (offset : Nat) : Nat := getU32 (a.buffer.drop (a.byteOffset + offset))

/-- `takeBlock`: the bytes of the block, and the offset behind it. -/
def takeBlock (body : Uint8Array) (offset : Nat) : Except FrameError (Uint8Array × Nat) :=
  if offset + 4 > body.byteLength then .error (.range "truncated response: missing length prefix")
  else
    let len := body.getUint32 offset
    let start := offset + 4
    let stop := start + len
    if stop > body.byteLength then .error (.range s!"truncated response: expected {len} bytes")
    else .ok (body.span start stop, stop)

/-- `decode` is `Trailer.decode`, with what it reads. -/
def decodeFetchResponseBody {τ : Type} (decode : Bytes → Option τ) (body : Uint8Array) (limit : Nat) :
    Except FrameError (Uint8Array × τ) := do
  if body.byteLength > limit then .error (.range s!"response body exceeds size limit ({limit} bytes)")
  let (message, offset) ← takeBlock body 0
  let (trailerBlock, _) ← takeBlock body offset
  match decode trailerBlock.bytes with
  | some trailer => pure (message, trailer)
  | none => .error .decode

/-! ### One block -/

theorem putU32_fromBeBytes (a b c d : UInt8) : putU32 (fromBeBytes a b c d) = [a, b, c, d] := by
  have ha := a.toNat_lt
  have hb := b.toNat_lt
  have hc := c.toNat_lt
  have hd := d.toNat_lt
  simp only [putU32, fromBeBytes, List.cons.injEq, and_true, ← UInt8.toNat_inj, Nat.toUInt8, UInt8.toNat_ofNat']
  omega

theorem getU32_lt (b : Bytes) : getU32 b < 2 ^ 32 := by
  unfold getU32
  split
  · rename_i a b c d _
    have ha := a.toNat_lt
    have hb := b.toNat_lt
    have hc := c.toNat_lt
    have hd := d.toNat_lt
    unfold fromBeBytes
    omega
  · decide

theorem putU32_getU32 {b : Bytes} (full : 4 ≤ b.length) : putU32 (getU32 b) ++ b.drop 4 = b := by
  match b, full with
  | a :: b :: c :: d :: rest, _ =>
    rw [getU32, putU32_fromBeBytes]
    rfl

/-- A body whose first block is `m`. -/
theorem takeBlock_eq_ok_iff {body m rest : Bytes} :
    Framing.takeBlock body = .ok (m, rest) ↔ m.length < 2 ^ 32 ∧ body = putU32 m.length ++ m ++ rest := by
  constructor
  · intro taken
    unfold Framing.takeBlock at taken
    by_cases short : body.length < Framing.LEN_PREFIX
    · rw [if_pos short] at taken
      cases taken
    · have full : 4 ≤ body.length := Nat.le_of_not_lt short
      rw [if_neg short] at taken
      dsimp only [Framing.LEN_PREFIX] at taken
      by_cases less : (body.drop 4).length < getU32 body
      · rw [if_pos less] at taken
        cases taken
      · rw [if_neg less] at taken
        obtain ⟨rfl, rfl⟩ := Prod.mk.inj (Except.ok.inj taken)
        have length : ((body.drop 4).take (getU32 body)).length = getU32 body := by
          rw [List.length_take]
          omega
        show ((body.drop 4).take (getU32 body)).length < 2 ^ 32 ∧ body = putU32 ((body.drop 4).take (getU32 body)).length ++
          (body.drop 4).take (getU32 body) ++ (body.drop 4).drop (getU32 body)
        rw [length, List.append_assoc, List.take_append_drop]
        exact ⟨getU32_lt body, (putU32_getU32 full).symm⟩
  · rintro ⟨small, rfl⟩
    exact Framing.takeBlock_block small rest

/-- A block that was cut short is never read. -/
theorem takeBlock_cut {m cut : Bytes} (small : m.length < 2 ^ 32) (inside : cut <+: putU32 m.length ++ m)
    (proper : cut.length < 4 + m.length) : ∃ expected had, Framing.takeBlock cut = .error (.truncated expected had) := by
  unfold Framing.takeBlock
  by_cases short : cut.length < Framing.LEN_PREFIX
  · rw [if_pos short]
    exact ⟨_, _, rfl⟩
  · have full : 4 ≤ cut.length := Nat.le_of_not_lt short
    obtain ⟨more, whole⟩ := inside
    have declared : getU32 cut = m.length := by
      rw [← Fetch.getU32_append full more, whole, getU32_putU32 small]
    have less : (cut.drop Framing.LEN_PREFIX).length < getU32 cut := by
      rw [declared, List.length_drop, Framing.LEN_PREFIX]
      omega
    rw [if_neg short]
    simp only [less, ↓reduceIte]
    exact ⟨_, _, rfl⟩

theorem bytes_span (a : Uint8Array) (start len : Nat) :
    (a.span start (start + len)).bytes = (a.bytes.drop start).take len := by
  simp only [Uint8Array.bytes, Uint8Array.span, List.drop_take, List.take_take, List.drop_drop]
  by_cases inside : start ≤ a.byteLength
  · rw [Nat.min_eq_left inside]
    congr 1
    omega
  · rw [show min (start + len) a.byteLength - start = 0 by omega, show min len (a.byteLength - start) = 0 by omega,
      List.take_zero, List.take_zero]

theorem getUint32_eq {a : Uint8Array} {offset : Nat} (inside : offset + 4 ≤ a.byteLength) :
    a.getUint32 offset = getU32 (a.bytes.drop offset) := by
  have block : 4 ≤ a.byteLength - offset := by omega
  rw [Uint8Array.getUint32, Uint8Array.bytes, List.drop_take, List.drop_drop, getU32_take block]

/-- The client's block at an offset is the server's block of what is left there. -/
theorem takeBlock_eq (body : Uint8Array) (offset : Nat) :
    (∃ m rest view, Framing.takeBlock (body.bytes.drop offset) = .ok (m, rest) ∧ view.bytes = m ∧
      takeBlock body offset = .ok (view, offset + 4 + m.length) ∧
      body.bytes.drop (offset + 4 + m.length) = rest) ∨
    (∃ expected had message, Framing.takeBlock (body.bytes.drop offset) = .error (.truncated expected had) ∧
      takeBlock body offset = .error (.range message)) := by
  have left : (body.bytes.drop offset).length = body.byteLength - offset := by rw [List.length_drop, body.length_bytes]
  by_cases short : offset + 4 > body.byteLength
  · have short' : (body.bytes.drop offset).length < Framing.LEN_PREFIX := by
      rw [left, Framing.LEN_PREFIX]
      omega
    exact .inr ⟨_, _, _, if_pos short', if_pos short⟩
  · have full : ¬(body.bytes.drop offset).length < Framing.LEN_PREFIX := by
      rw [left, Framing.LEN_PREFIX]
      omega
    have length := getUint32_eq (Nat.le_of_not_lt short)
    unfold takeBlock Framing.takeBlock
    rw [if_neg short, if_neg full]
    dsimp only [Framing.LEN_PREFIX]
    rw [length, List.drop_drop, List.drop_drop, List.length_drop, body.length_bytes]
    generalize getU32 (body.bytes.drop offset) = len
    by_cases less : offset + 4 + len > body.byteLength
    · rw [if_pos less, if_pos (by omega)]
      exact .inr ⟨_, _, _, rfl, rfl⟩
    · have taken : ((body.bytes.drop (offset + 4)).take len).length = len := by
        rw [List.length_take, List.length_drop, body.length_bytes]
        omega
      rw [if_neg less, if_neg (by omega)]
      refine .inl ⟨_, _, _, rfl, bytes_span body (offset + 4) len, ?_, ?_⟩
      · rw [taken]
      · rw [taken]

theorem takeBlock_ok_iff {body : Uint8Array} {offset : Nat} {m rest : Bytes} :
    (∃ view stop, takeBlock body offset = .ok (view, stop) ∧ view.bytes = m ∧ body.bytes.drop stop = rest) ↔
      Framing.takeBlock (body.bytes.drop offset) = .ok (m, rest) := by
  rcases takeBlock_eq body offset with ⟨m', rest', view, server, rfl, client, behind⟩ | ⟨_, _, _, server, client⟩
  · rw [server, client]
    constructor
    · rintro ⟨_, _, ⟨⟩, rfl, rfl⟩
      rw [behind]
    · rintro ⟨⟩
      exact ⟨view, _, rfl, rfl, behind⟩
  · rw [server, client]
    exact iff_of_false (by rintro ⟨_, _, ⟨⟩, _⟩) nofun

/-! ### Both blocks -/

/-- The body holds a message block and a trailer block, within the limit. -/
structure Holds (body : Bytes) (limit : Nat) (message trailerBytes : Bytes) : Prop where
  fits : body.length ≤ limit
  small : message.length < 2 ^ 32
  smallTrailer : trailerBytes.length < 2 ^ 32
  blocks : putU32 message.length ++ message ++ (putU32 trailerBytes.length ++ trailerBytes) <+: body

theorem holds_iff {body message trailerBytes : Bytes} {limit : Nat} :
    Holds body limit message trailerBytes ↔ body.length ≤ limit ∧ ∃ rest rest',
      Framing.takeBlock body = .ok (message, rest) ∧ Framing.takeBlock rest = .ok (trailerBytes, rest') := by
  simp only [takeBlock_eq_ok_iff]
  constructor
  · rintro ⟨fits, small, smallTrailer, rest', rfl⟩
    exact ⟨fits, _, rest', ⟨small, List.append_assoc _ _ _⟩, smallTrailer, rfl⟩
  · rintro ⟨fits, rest, rest', ⟨small, rfl⟩, smallTrailer, rfl⟩
    exact ⟨fits, small, smallTrailer, rest', List.append_assoc _ _ _⟩

theorem Holds.of_cut {cut body m tb : Bytes} {limit : Nat} (holds : Holds cut limit m tb) (inside : cut <+: body) :
    Holds body body.length m tb :=
  ⟨Nat.le_refl _, holds.small, holds.smallTrailer, holds.blocks.trans inside⟩

theorem decodeResponseBody_eq_ok_iff [Prost] {body message : Bytes} {limit : Nat} {trailer : Trailer} :
    Framing.decodeResponseBody body limit = .ok (message, trailer) ↔
      ∃ trailerBytes, Holds body limit message trailerBytes ∧ Prost.decodeTrailer trailerBytes = some trailer := by
  simp only [holds_iff]
  unfold Framing.decodeResponseBody
  by_cases large : body.length > limit
  · rw [if_pos large]
    refine iff_of_false nofun ?_
    rintro ⟨_, ⟨fits, _⟩, _⟩
    exact absurd fits (Nat.not_le.mpr large)
  · rw [if_neg large]
    constructor
    · intro done
      obtain ⟨⟨m, rest⟩, first, done⟩ := Except.bind_ok done
      obtain ⟨⟨tb, rest'⟩, second, done⟩ := Except.bind_ok done
      cases read : Prost.decodeTrailer tb with
      | none =>
        simp only [read] at done
        cases done
      | some t =>
        simp only [read] at done
        cases done
        exact ⟨tb, ⟨Nat.le_of_not_lt large, rest, rest', first, second⟩, read⟩
    · rintro ⟨tb, ⟨_, rest, rest', first, second⟩, read⟩
      refine Except.bind_ok_iff.mpr ⟨_, first, Except.bind_ok_iff.mpr ⟨_, second, ?_⟩⟩
      simp only [read]
      rfl

theorem decodeFetchResponseBody_eq_ok_iff {τ : Type} (decode : Bytes → Option τ) {body : Uint8Array} {message : Bytes}
    {limit : Nat} {trailer : τ} :
    (∃ view, view.bytes = message ∧ decodeFetchResponseBody decode body limit = .ok (view, trailer)) ↔
      ∃ trailerBytes, Holds body.bytes limit message trailerBytes ∧ decode trailerBytes = some trailer := by
  simp only [holds_iff, body.length_bytes]
  unfold decodeFetchResponseBody
  by_cases large : body.byteLength > limit
  · rw [if_pos large]
    refine iff_of_false (by rintro ⟨_, _, ⟨⟩⟩) ?_
    rintro ⟨_, ⟨fits, _⟩, _⟩
    exact absurd fits (Nat.not_le.mpr large)
  · rw [if_neg large]
    have start : Framing.takeBlock (body.bytes.drop 0) = Framing.takeBlock body.bytes := by rw [List.drop_zero]
    constructor
    · rintro ⟨view, rfl, done⟩
      obtain ⟨⟨m, stop⟩, first, done⟩ := Except.bind_ok done
      obtain ⟨⟨tb, stop'⟩, second, done⟩ := Except.bind_ok done
      have server := takeBlock_ok_iff.mp ⟨m, stop, first, rfl, rfl⟩
      have server' := takeBlock_ok_iff.mp ⟨tb, stop', second, rfl, rfl⟩
      cases read : decode tb.bytes with
      | none =>
        simp only [read] at done
        cases done
      | some t =>
        simp only [read] at done
        cases done
        exact ⟨tb.bytes, ⟨Nat.le_of_not_lt large, _, _, start.symm.trans server, server'⟩, read⟩
    · rintro ⟨_, ⟨_, rest, rest', first, second⟩, read⟩
      obtain ⟨view, stop, client, rfl, rfl⟩ := takeBlock_ok_iff.mpr (start.trans first)
      obtain ⟨view', stop', client', rfl, _⟩ := takeBlock_ok_iff.mpr second
      refine ⟨view, rfl, Except.bind_ok_iff.mpr ⟨_, client, Except.bind_ok_iff.mpr ⟨_, client', ?_⟩⟩⟩
      simp only [read]
      rfl

/-! ### Cut bodies -/

section

variable [Prost]

theorem decodeResponseBody_cut {m cut : Bytes} {t : Trailer} {limit : Nat} (small : m.length < 2 ^ 32)
    (smallTrailer : (Prost.encodeTrailer t).length < 2 ^ 32) (inside : cut <+: Framing.encodeResponseBody m t)
    (proper : cut ≠ Framing.encodeResponseBody m t) (fits : cut.length ≤ limit) :
    ∃ expected had, Framing.decodeResponseBody cut limit = .error (.truncated expected had) := by
  unfold Framing.decodeResponseBody
  rw [if_neg (Nat.not_lt.mpr fits)]
  by_cases first : cut.length < 4 + m.length
  · have message : cut <+: putU32 m.length ++ m :=
      List.prefix_of_prefix_length_le inside (List.prefix_append _ _)
        (by rw [List.length_append, putU32_length]; omega)
    obtain ⟨expected, had, short⟩ := takeBlock_cut small message first
    rw [short]
    exact ⟨expected, had, rfl⟩
  · have message : putU32 m.length ++ m <+: cut :=
      List.prefix_of_prefix_length_le (List.prefix_append _ _) inside
        (by rw [List.length_append, putU32_length]; omega)
    obtain ⟨cut, rfl⟩ := message
    have trailer : cut <+: Framing.encodeTrailerBlock t := (List.prefix_append_right_inj _).mp inside
    have less : cut.length < (Framing.encodeTrailerBlock t).length := by
      refine Nat.lt_of_le_of_ne trailer.length_le fun same => proper ?_
      rw [trailer.eq_of_length same]
      rfl
    rw [Framing.encodeTrailerBlock, List.length_append, putU32_length] at less
    obtain ⟨expected, had, short⟩ := takeBlock_cut smallTrailer trailer less
    rw [takeBlock_eq_ok_iff.mpr ⟨small, rfl⟩]
    refine ⟨expected, had, ?_⟩
    simp only [bind, Except.bind, short]

/-- Both decoders read a body by the blocks it holds, and read the same. -/
structure SameReading {τ : Type} (decode : Bytes → Option τ) (body : Uint8Array) (limit : Nat) : Prop where
  server : ∀ message trailer, Framing.decodeResponseBody body.bytes limit = .ok (message, trailer) ↔
    ∃ trailerBytes, Holds body.bytes limit message trailerBytes ∧ Prost.decodeTrailer trailerBytes = some trailer
  client : ∀ message trailer,
    (∃ view, view.bytes = message ∧ decodeFetchResponseBody decode body limit = .ok (view, trailer)) ↔
      ∃ trailerBytes, Holds body.bytes limit message trailerBytes ∧ decode trailerBytes = some trailer
  unique : ∀ message trailerBytes message' trailerBytes', Holds body.bytes limit message trailerBytes →
    Holds body.bytes limit message' trailerBytes' → message = message' ∧ trailerBytes = trailerBytes'

theorem sameReading {τ : Type} (decode : Bytes → Option τ) (body : Uint8Array) (limit : Nat) :
    SameReading decode body limit where
  server _ _ := decodeResponseBody_eq_ok_iff
  client _ _ := decodeFetchResponseBody_eq_ok_iff decode
  unique message trailerBytes message' trailerBytes' holds holds' := by
    obtain ⟨_, rest, _, first, second⟩ := holds_iff.mp holds
    obtain ⟨_, rest', _, first', second'⟩ := holds_iff.mp holds'
    rw [first] at first'
    cases first'
    rw [second] at second'
    cases second'
    exact ⟨rfl, rfl⟩

/-- A whole body is read back; under a smaller limit it is too large, and cut short it is truncated. The
client reads the same bodies. -/
theorem fetch_body_uncut {τ : Type} {decode : Bytes → Option τ} {m : Bytes} {t : Trailer} {read : τ}
    (roundTrip : Prost.decodeTrailer (Prost.encodeTrailer t) = some t)
    (clientReads : decode (Prost.encodeTrailer t) = some read) (small : m.length < 2 ^ 32)
    (smallTrailer : (Prost.encodeTrailer t).length < 2 ^ 32) :
    (∀ limit, (Framing.encodeResponseBody m t).length ≤ limit →
      Framing.decodeResponseBody (Framing.encodeResponseBody m t) limit = .ok (m, t)) ∧
    (∀ limit, limit < (Framing.encodeResponseBody m t).length →
      Framing.decodeResponseBody (Framing.encodeResponseBody m t) limit = .error (.tooLarge limit)) ∧
    (∀ limit cut, cut <+: Framing.encodeResponseBody m t → cut ≠ Framing.encodeResponseBody m t →
      cut.length ≤ limit → ∃ expected had, Framing.decodeResponseBody cut limit = .error (.truncated expected had)) ∧
    (∀ (cut : Uint8Array) (limit : Nat), cut.bytes <+: Framing.encodeResponseBody m t →
      ((∃ got, decodeFetchResponseBody decode cut limit = .ok got) ↔
        ∃ got, Framing.decodeResponseBody cut.bytes limit = .ok got)) ∧
    ∀ (body : Uint8Array) (limit : Nat), SameReading decode body limit := by
  refine ⟨fun limit fits => Framing.decodeResponseBody_encode roundTrip small smallTrailer fits, fun limit large => ?_,
    fun limit cut inside proper fits => decodeResponseBody_cut small smallTrailer inside proper fits, ?_,
    sameReading decode⟩
  · unfold Framing.decodeResponseBody
    rw [if_pos large]
    rfl
  · intro cut limit inside
    have whole : Holds (Framing.encodeResponseBody m t) (Framing.encodeResponseBody m t).length m (Prost.encodeTrailer t) :=
      ⟨Nat.le_refl _, small, smallTrailer, List.prefix_refl _⟩
    have same : ∀ message trailerBytes, Holds cut.bytes limit message trailerBytes → trailerBytes = Prost.encodeTrailer t :=
      fun message trailerBytes holds =>
        ((sameReading decode (.ofBytes (Framing.encodeResponseBody m t)) _).unique message trailerBytes m _
          (by rw [Uint8Array.bytes_ofBytes]; exact holds.of_cut inside) (by rwa [Uint8Array.bytes_ofBytes])).2
    constructor
    · rintro ⟨⟨view, got⟩, decoded⟩
      obtain ⟨trailerBytes, holds, _⟩ := (decodeFetchResponseBody_eq_ok_iff decode).mp ⟨view, rfl, decoded⟩
      obtain rfl := same _ _ holds
      exact ⟨(view.bytes, t), decodeResponseBody_eq_ok_iff.mpr ⟨_, holds, roundTrip⟩⟩
    · rintro ⟨⟨message, got⟩, decoded⟩
      obtain ⟨trailerBytes, holds, _⟩ := decodeResponseBody_eq_ok_iff.mp decoded
      obtain rfl := same _ _ holds
      obtain ⟨view, _, found⟩ := (decodeFetchResponseBody_eq_ok_iff decode).mpr ⟨_, holds, clientReads⟩
      exact ⟨(view, read), found⟩

end

/-- A trailer with `NOT_FOUND` and the message `gone`, as prost and the client know it. -/
abbrev goneTrailers : Prost where
  encodeTrailer t := if t = ⟨5, "gone", []⟩ then [8, 5, 18, 4, 103, 111, 110, 101] else []
  decodeTrailer bytes := if bytes = [8, 5, 18, 4, 103, 111, 110, 101] then some ⟨5, "gone", []⟩ else some ⟨0, "", []⟩

theorem fetch_body_uncut_gone :
    @Framing.decodeResponseBody goneTrailers [0, 0, 0, 1, 7, 0, 0, 0, 8, 8, 5, 18, 4, 103, 111, 110, 101] 17 =
      .ok ([7], ⟨5, "gone", []⟩) ∧
    ∃ expected had, @Framing.decodeResponseBody goneTrailers [0, 0, 0, 1, 7, 0, 0, 0, 8, 8] 17 =
      .error (.truncated expected had) := by
  have uncut := @fetch_body_uncut goneTrailers Trailer (goneTrailers.decodeTrailer) [7] ⟨5, "gone", []⟩ ⟨5, "gone", []⟩
    (by decide) (by decide) (by decide) (by decide)
  exact ⟨uncut.1 17 (by decide), uncut.2.2.1 17 _ (by decide) (by decide) (by decide)⟩

end Client
end GrpcWebnext
