import GrpcWebnext.Client.SingleStream
import GrpcWebnext.HttpRule.Template
import GrpcWebnext.Ws.Frames

/-!
# The status in a close frame

A rejected handshake is told by a private close code, `4000` and the gRPC code, and a reason of at most
123 bytes, and read back by `statusForClose`.
-/

namespace GrpcWebnext
namespace Ws
open HttpRule (Panic)
open Client.SingleStream (CloseEvent statusForClose)

/-! ### The server -/

/-- The loop of `truncate_utf8`: the last boundary up to `stop`. -/
def truncateEnd (bytes : Bytes) : Nat → Nat
  | 0 => 0
  | stop + 1 => if Utf8.isBoundary bytes (stop + 1) then stop + 1 else truncateEnd bytes stop

/-- `&s[..stop]` -/
def sliceTo (s : String) (stop : Nat) : Except Panic String :=
  if Utf8.isBoundary (Utf8.encode s) stop then .ok (String.ofList (Utf8.lossy ((Utf8.encode s).take stop)))
  else .error .charBoundary

def truncateUtf8 (s : String) (max : Nat) : Except Panic String :=
  if (Utf8.encode s).length ≤ max then .ok s else sliceTo s (truncateEnd (Utf8.encode s) max)

def closeForStatus {Value : Type} (status : Status) : Except Panic (TungMessage Value) := do
  let reason ← truncateUtf8 status.message 123
  pure (.close (4000 + status.code.toNat) reason)

/-! ### Truncation -/

/-- Of the texts that `s` begins with, `p` is the longest of at most `max` bytes. -/
structure LongestPrefix (s : String) (max : Nat) (p : String) : Prop where
  begins : p.toList <+: s.toList
  fits : (Utf8.encode p).length ≤ max
  longest : ∀ q : String, q.toList <+: s.toList → (Utf8.encode q).length ≤ max → q.toList <+: p.toList

theorem encode_ofList (cs : List Char) : Utf8.encode (String.ofList cs) = cs.flatMap String.utf8EncodeChar := by
  rw [Utf8.encode, String.toList_ofList]

theorem truncateEnd_le (bytes : Bytes) (stop : Nat) : truncateEnd bytes stop ≤ stop := by
  fun_induction truncateEnd bytes stop with
  | case1 => exact Nat.le_refl 0
  | case2 stop => exact Nat.le_refl _
  | case3 stop _ ih => exact Nat.le_succ_of_le ih

theorem truncateEnd_boundary {bytes : Bytes} (start : Utf8.isBoundary bytes 0 = true) (stop : Nat) :
    Utf8.isBoundary bytes (truncateEnd bytes stop) = true := by
  fun_induction truncateEnd bytes stop with
  | case1 => exact start
  | case2 stop here => exact here
  | case3 stop _ ih => exact ih

theorem truncateEnd_greatest {bytes : Bytes} {i stop : Nat} (boundary : Utf8.isBoundary bytes i = true)
    (within : i ≤ stop) : i ≤ truncateEnd bytes stop := by
  fun_induction truncateEnd bytes stop with
  | case1 => exact within
  | case2 stop here => exact within
  | case3 stop inside ih =>
    rcases Nat.lt_or_eq_of_le within with less | rfl
    · exact ih (Nat.le_of_lt_succ less)
    · exact absurd boundary inside

/-- Of two texts that one begins with, the one of fewer bytes begins the other. -/
theorem prefix_of_bytes_le {cs pre other : List Char} (begins : pre <+: cs) (begins' : other <+: cs)
    (fewer : (other.flatMap String.utf8EncodeChar).length ≤ (pre.flatMap String.utf8EncodeChar).length) :
    other <+: pre := by
  rcases List.prefix_or_prefix_of_prefix begins' begins with shorter | ⟨more, rfl⟩
  · exact shorter
  · have none : more = [] := by
      cases more with
      | nil => rfl
      | cons c more =>
        obtain ⟨lead, tail, shape⟩ := Utf8.shape c
        rw [List.flatMap_append, List.flatMap_cons, shape.bytes, List.length_append, List.cons_append,
          List.length_cons] at fewer
        omega
    exact ⟨[], by rw [none, List.append_nil, List.append_nil]⟩

theorem truncateUtf8_longest (s : String) (max : Nat) :
    ∃ p, truncateUtf8 s max = .ok p ∧ LongestPrefix s max p := by
  unfold truncateUtf8
  split
  · rename_i short
    exact ⟨s, rfl, List.prefix_refl _, short, fun q begins _ => begins⟩
  · have boundaries : ∀ i, Utf8.isBoundary (Utf8.encode s) i = true ↔
        ∃ pre post, s.toList = pre ++ post ∧ (pre.flatMap String.utf8EncodeChar).length = i :=
      Utf8.isBoundary_iff s.toList
    have boundary := truncateEnd_boundary ((boundaries 0).mpr ⟨[], s.toList, rfl, rfl⟩) max
    obtain ⟨pre, post, whole, length⟩ := (boundaries _).mp boundary
    have taken : (Utf8.encode s).take (truncateEnd (Utf8.encode s) max) = pre.flatMap String.utf8EncodeChar := by
      rw [← length, Utf8.encode, whole, List.flatMap_append, List.take_left]
    have begins : pre <+: s.toList := ⟨post, whole.symm⟩
    refine ⟨String.ofList pre, ?_, ?_, ?_, ?_⟩
    · rw [sliceTo, if_pos boundary, taken, Utf8.lossy_flatMap]
    · rwa [String.toList_ofList]
    · rw [encode_ofList, length]
      exact truncateEnd_le _ max
    · intro q begins' fits
      obtain ⟨after, cut⟩ := begins'
      -- The end of `q` is a boundary, so it does not lie behind that of the slice.
      have before := truncateEnd_greatest ((boundaries _).mpr ⟨q.toList, after, cut.symm, rfl⟩) fits
      rw [← length] at before
      rw [String.toList_ofList]
      exact prefix_of_bytes_le begins ⟨after, cut⟩ before

/-! ### The round trip -/

theorem statusForClose_private (code : Code) (reason : String) :
    statusForClose (some ⟨4000 + code.toNat, reason⟩) = ⟨code.toNat, reason⟩ := by
  have small := code.toNat_lt
  have range : 4000 ≤ 4000 + code.toNat ∧ 4000 + code.toNat ≤ 4000 + 16 := by omega
  rw [statusForClose, if_pos range, Nat.add_sub_cancel_left]

theorem statusForClose_other {event : CloseEvent} (outside : ¬(4000 ≤ event.code ∧ event.code ≤ 4016)) :
    statusForClose (some event) = statusForClose none :=
  if_neg outside

/-- A rejection is read back with its code and the longest part of its message that fits the frame, and
nothing is read out of any close code that stands for none. -/
theorem close_status_round_trip {Value : Type} :
    (∀ (code : Code) (message : String), ∃ close reason,
        (closeForStatus ⟨code, message⟩ : Except Panic (TungMessage Value)) = .ok (.close close reason) ∧
          statusForClose (some ⟨close, reason⟩) = ⟨code.toNat, reason⟩ ∧ LongestPrefix message 123 reason) ∧
      ∀ event : CloseEvent, ¬(4000 ≤ event.code ∧ event.code ≤ 4016) →
        statusForClose (some event) = ⟨14, "websocket closed"⟩ := by
  refine ⟨?_, fun event outside => statusForClose_other outside⟩
  intro code message
  obtain ⟨reason, truncated, longest⟩ := truncateUtf8_longest message 123
  refine ⟨4000 + code.toNat, reason, ?_, statusForClose_private code reason, longest⟩
  rw [closeForStatus, truncated]
  rfl

example : truncateUtf8 "é€" 4 = .ok "é" := by decide

end Ws
end GrpcWebnext
