import GrpcWebnext.Backend
import GrpcWebnext.GrpcFraming

/-!
# The Fetch request body

`frame_upstream_request` turns a length-prefixed `+proto` body into a gRPC request body. It
reads the first length prefix and streams whatever follows.
-/

namespace GrpcWebnext
namespace Fetch

structure TextResponse where
  status : Nat
  message : String
  deriving DecidableEq

inductive Upstream where
  /-- the client's body stays pending before the length prefix is complete -/
  | pending
  | rejected (response : TextResponse)
  | forwarded (body : Body)
  deriving DecidableEq

def forwardRest : Body → Body
  | [] => []
  | .data d :: rest => .data d :: forwardRest rest
  | .trailers _ :: rest => forwardRest rest
  | .error e :: _ => [.error s!"read body: {e}"]
  | .eof :: _ => [.eof]

def frameLead (max : Nat) (lead : Bytes) (body : Body) : Upstream :=
  if lead.length < 4 then .rejected ⟨400, "request body missing length prefix"⟩
  else
    let declared := getU32 lead
    if declared > max then .rejected ⟨413, "request message exceeds size limit"⟩
    else .forwarded (.data [0] :: .data lead :: forwardRest body)

/-- `frame_upstream_request`, with the loop `while lead.len() < LEN_PREFIX`. -/
def frameUpstreamRequest (max : Nat) (lead : Bytes) (body : Body) : Upstream :=
  if lead.length < 4 then
    match body with
    | [] => .pending
    | .data d :: rest => frameUpstreamRequest max (lead ++ d) rest
    | .trailers _ :: rest => frameUpstreamRequest max lead rest
    | .error e :: _ => .rejected ⟨400, s!"read body: {e}"⟩
    | .eof :: rest => frameLead max lead rest
  else frameLead max lead body

theorem bytes_forwardRest (body : Body) : (forwardRest body).bytes = body.bytes := by
  induction body with
  | nil => rfl
  | cons event rest ih => cases event <;> simp [forwardRest, Body.bytes, ih]

theorem getU32_append {lead : Bytes} (full : 4 ≤ lead.length) (more : Bytes) :
    getU32 (lead ++ more) = getU32 lead := by
  match lead, full with
  | a :: b :: c :: d :: rest, _ => rfl

theorem frameLead_full (max : Nat) {lead : Bytes} (body : Body) (full : 4 ≤ lead.length) :
    (max < getU32 (lead ++ body.bytes) ∧
      frameLead max lead body = .rejected ⟨413, "request message exceeds size limit"⟩) ∨
    (getU32 (lead ++ body.bytes) ≤ max ∧
      ∃ out, frameLead max lead body = .forwarded out ∧ out.bytes = 0 :: lead ++ body.bytes) := by
  rw [getU32_append full]
  unfold frameLead
  rw [if_neg (by omega)]
  by_cases excess : getU32 lead > max
  · exact .inl ⟨excess, if_pos excess⟩
  · refine .inr ⟨by omega, _, if_neg excess, ?_⟩
    simp [Body.bytes, bytes_forwardRest]

/-- What the function does is decided by the bytes that arrive, not by their chunks. -/
theorem frameUpstreamRequest_spec (max : Nat) (lead : Bytes) (body : Body) :
    (lead ++ body.bytes).length < 4 ∧ body.stops = false ∧
        frameUpstreamRequest max lead body = .pending ∨
    (lead ++ body.bytes).length < 4 ∧ body.stops = true ∧
        (∃ message, frameUpstreamRequest max lead body = .rejected ⟨400, message⟩) ∨
    4 ≤ (lead ++ body.bytes).length ∧ max < getU32 (lead ++ body.bytes) ∧
        (∃ message, frameUpstreamRequest max lead body = .rejected ⟨413, message⟩) ∨
    4 ≤ (lead ++ body.bytes).length ∧ getU32 (lead ++ body.bytes) ≤ max ∧
        ∃ out, frameUpstreamRequest max lead body = .forwarded out ∧
          out.bytes = 0 :: lead ++ body.bytes := by
  fun_induction frameUpstreamRequest max lead body with
  | case1 lead short => simp [Body.bytes, Body.stops, short]
  | case2 lead short d rest ih => simpa [Body.bytes, Body.stops] using ih
  | case3 lead short t rest ih => simpa [Body.bytes, Body.stops] using ih
  | case4 lead short e rest => simp [Body.bytes, Body.stops, short]
  | case5 lead short rest =>
    have rejected : frameLead max lead rest = .rejected ⟨400, "request body missing length prefix"⟩ :=
      if_pos short
    simp [Body.bytes, Body.stops, short, rejected]
  | case6 body lead full =>
    have long : 4 ≤ (lead ++ Body.bytes body).length := by simp only [List.length_append]; omega
    have enough : 4 ≤ lead.length := by omega
    rcases frameLead_full max body enough with ⟨excess, rejected⟩ | ⟨fits, forwarded⟩
    · exact .inr (.inr (.inl ⟨long, excess, _, rejected⟩))
    · exact .inr (.inr (.inr ⟨long, fits, forwarded⟩))

/-! ### The size limit -/

open GrpcFraming

/-- The limit holds on a request: it is rejected for a missing prefix or for its declared
length, or what is forwarded reads as at most one gRPC message, of at most `max` bytes. -/
structure WithinLimit (max : Nat) (body : Body) : Prop where
  answered : frameUpstreamRequest max [] body = .pending → body.stops = false
  missing : body.bytes.length < 4 → body.stops = true →
    ∃ message, frameUpstreamRequest max [] body = .rejected ⟨400, message⟩
  tooLarge : 4 ≤ body.bytes.length → max < getU32 body.bytes →
    ∃ message, frameUpstreamRequest max [] body = .rejected ⟨413, message⟩
  forwarded : ∀ out, frameUpstreamRequest max [] body = .forwarded out →
    (deframeAll out.bytes).length ≤ 1 ∧ ∀ m ∈ deframeAll out.bytes, m.length ≤ max

/-- `b` begins with a complete gRPC frame. -/
def HoldsFrame (b : Bytes) : Prop := 5 ≤ b.length ∧ 5 + getU32 b.tail ≤ b.length

theorem getU32_take_four (b : Bytes) (full : 4 ≤ b.length) : getU32 (b.take 4) = getU32 b := by
  match b, full with
  | a :: b :: c :: d :: rest, _ => rfl

theorem next_eq_none_iff (b : Bytes) : grpc.next b = none ↔ ¬HoldsFrame b := by
  by_cases header : 5 ≤ b.length
  · have declared : getU32 (b.take 5).tail = getU32 b.tail := by
      have taken : (b.take 5).tail = b.tail.take 4 := by cases b <;> simp
      rw [taken, getU32_take_four _ (by simp; omega)]
    simp only [LengthPrefix.Format.next, grpc, HoldsFrame, declared, header, true_and]
    rw [if_neg (by omega)]
    simp
  · simp [LengthPrefix.Format.next, grpc, HoldsFrame, header, Nat.lt_of_not_le header]

theorem deframeAll_flag (b : Bytes) (full : 4 ≤ b.length) :
    deframeAll (0 :: b) =
      if b.length < 4 + getU32 b then []
      else (b.drop 4).take (getU32 b) :: (grpc.drain (b.drop (4 + getU32 b))).1 := by
  rw [deframeAll_eq]
  by_cases short : b.length < 4 + getU32 b
  · rw [if_pos short, LengthPrefix.Format.drain_eq_nil_iff, next_eq_none_iff]
    simp only [HoldsFrame, List.length_cons, List.tail_cons]
    omega
  · have found : grpc.next (0 :: b) = some ((b.drop 4).take (getU32 b), b.drop (4 + getU32 b)) := by
      refine LengthPrefix.Format.next_eq_some.mpr ⟨0 :: b.take 4, by simp [grpc, full], ?_, ?_⟩
      · simp only [grpc, List.tail_cons, getU32_take_four b full, List.length_take, List.length_drop]
        omega
      · rw [List.cons_append, List.cons_append, List.append_assoc, ← List.drop_drop,
          List.take_append_drop, List.take_append_drop]
    rw [if_neg short, LengthPrefix.Format.drain_some found]

/-- One message, and nothing that parses behind it. -/
theorem one_message_iff (b : Bytes) (full : 4 ≤ b.length) :
    (deframeAll (0 :: b)).length ≤ 1 ↔ ¬HoldsFrame (b.drop (4 + getU32 b)) := by
  rw [deframeAll_flag b full, ← next_eq_none_iff, ← LengthPrefix.Format.drain_eq_nil_iff]
  by_cases short : b.length < 4 + getU32 b
  · have rest : b.drop (4 + getU32 b) = [] := List.drop_eq_nil_of_le (by omega)
    rw [if_pos short, rest, LengthPrefix.Format.drain_nil]
    simp
  · rw [if_neg short, List.length_cons, ← List.length_eq_zero_iff]
    omega

theorem one_message_length {b : Bytes} (full : 4 ≤ b.length)
    (one : (deframeAll (0 :: b)).length ≤ 1) : ∀ m ∈ deframeAll (0 :: b), m.length ≤ getU32 b := by
  intro m member
  rw [deframeAll_flag b full] at one member
  split at member
  · simp at member
  next room =>
    rw [if_neg room, List.length_cons] at one
    have rest : (grpc.drain (b.drop (4 + getU32 b))).1 = [] := by
      apply List.eq_nil_of_length_eq_zero
      omega
    rw [rest] at member
    obtain rfl := List.mem_singleton.mp member
    simp only [List.length_take]
    omega

/-- The limit holds exactly when no complete frame follows the block that was checked. -/
theorem withinLimit_iff (max : Nat) (body : Body) :
    WithinLimit max body ↔
      ¬(4 ≤ body.bytes.length ∧ getU32 body.bytes ≤ max ∧
        HoldsFrame (body.bytes.drop (4 + getU32 body.bytes))) := by
  have spec := frameUpstreamRequest_spec max [] body
  simp only [List.nil_append, List.cons_append] at spec
  rcases spec with ⟨short, stays, result⟩ | ⟨short, stops, _, result⟩ | ⟨full, excess, _, result⟩ |
    ⟨full, fits, out, result, bytes⟩
  · have limit : WithinLimit max body := {
      answered := fun _ => stays
      missing := fun _ stops => by simp [stays] at stops
      tooLarge := fun full => by omega
      forwarded := fun _ passed => by simp [result] at passed }
    simp only [limit, true_iff]
    omega
  · have limit : WithinLimit max body := {
      answered := fun pending => by simp [result] at pending
      missing := fun _ _ => ⟨_, result⟩
      tooLarge := fun full => by omega
      forwarded := fun _ passed => by simp [result] at passed }
    simp only [limit, true_iff]
    omega
  · have limit : WithinLimit max body := {
      answered := fun pending => by simp [result] at pending
      missing := fun short => by omega
      tooLarge := fun _ _ => ⟨_, result⟩
      forwarded := fun _ passed => by simp [result] at passed }
    simp only [limit, true_iff]
    omega
  · have one := one_message_iff body.bytes full
    simp only [full, fits, true_and, ← one]
    constructor
    · intro limit
      simpa only [bytes] using (limit.forwarded out result).1
    · intro single
      exact {
        answered := fun pending => by simp [result] at pending
        missing := fun short => by omega
        tooLarge := fun _ excess => by omega
        forwarded := fun out' passed => by
          obtain rfl : out = out' := by simpa [result] using passed
          rw [bytes]
          exact ⟨single, fun m member =>
            Nat.le_trans (one_message_length full single m member) fits⟩ }

/-- A zero-length block followed by a second frame: five bytes get past a limit of four. -/
theorem second_frame_passes :
    ¬WithinLimit 4 [.data [0, 0, 0, 0], .data [0, 0, 0, 0, 5, 1, 2, 3, 4, 5], .eof] := by
  intro limit
  have passed : frameUpstreamRequest 4 [] [.data [0, 0, 0, 0], .data [0, 0, 0, 0, 5, 1, 2, 3, 4, 5], .eof] =
      .forwarded [.data [0], .data [0, 0, 0, 0], .data [0, 0, 0, 0, 5, 1, 2, 3, 4, 5], .eof] := by decide
  have one := (limit.forwarded _ passed).1
  exact absurd one (by decide)

end Fetch
end GrpcWebnext
