import GrpcWebnext.Client.Calls
import GrpcWebnext.Deframing
import GrpcWebnext.H2ts
import GrpcWebnext.Ws.ResponseStream

/-!
# A stream over the tunnel

`H2tsTransport.startStream` against an in-process backend. HTTP/2 carries each body as bytes in order, cut
as it likes; the server's body is guarded by `GrpcSizeLimit`.
-/

namespace GrpcWebnext
namespace EndToEnd
namespace Tunnel
open GrpcFraming H2ts Transition

/-! ### The request -/

/-- The request body that `startStream` pushes into. -/
structure Sink where
  queue : List Bytes := []
  bodyClosed : Bool := false
  /-- HTTP/2 has given the body up -/
  released : Bool := false

def encodeMessage (message : Bytes) : Bytes := 0 :: putU32 message.length ++ message

/-- `enqueue` throws where the body is given up. -/
def Sink.send (sink : Sink) (message : Bytes) : Sink :=
  if sink.bodyClosed ∨ sink.released then sink else { sink with queue := sink.queue ++ [encodeMessage message] }

def Sink.closeBody (sink : Sink) : Sink := { sink with bodyClosed := true }

/-- `polled` is what the inner body returned, and `wire` what is on its way to it. -/
structure State where
  sink : Sink := {}
  wire : Bytes := []
  polled : Body := []

inductive Label where
  | send (message : Bytes)
  | halfClose
  | cancel
  /-- HTTP/2 takes a chunk of the body -/
  | take
  | release
  /-- a DATA frame of so many bytes -/
  | data (n : Nat)
  | finish
  | broken (e : BoxError)

inductive Step : State → Label → State → Prop where
  | send (s : State) (message : Bytes) : Step s (.send message) { s with sink := s.sink.send message }
  | halfClose (s : State) : Step s .halfClose { s with sink := s.sink.closeBody }
  | cancel (s : State) : Step s .cancel { s with sink := s.sink.closeBody }
  | take {s : State} {chunk : Bytes} {later : List Bytes} : s.sink.queue = chunk :: later →
      Step s .take { s with sink := { s.sink with queue := later }, wire := s.wire ++ chunk }
  | release (s : State) : Step s .release { s with sink := { s.sink with queue := [], released := true } }
  | data {s : State} {n : Nat} : n ≤ s.wire.length → s.polled.stops = false →
      Step s (.data n) { s with wire := s.wire.drop n, polled := s.polled ++ [.data (s.wire.take n)] }
  | finish {s : State} : s.sink.bodyClosed = true → s.sink.released = false → s.sink.queue = [] → s.wire = [] →
      s.polled.stops = false → Step s .finish { s with polled := s.polled ++ [.eof] }
  | broken {s : State} (e : BoxError) : s.polled.stops = false →
      Step s (.broken e) { s with polled := s.polled ++ [.error e] }

/-- The application ends the body. -/
def Label.closes : Label → Bool
  | .halfClose | .cancel => true
  | _ => false

def Label.ends : Label → Bool
  | .release => true
  | l => l.closes

def Label.message : Label → Option Bytes
  | .send message => some message
  | _ => none

/-- The messages sent before the body ended. -/
def sent (ls : List Label) : List Bytes := (ls.takeWhile fun l => !l.ends).filterMap Label.message

def frames (messages : List Bytes) : Bytes := (messages.map frame).flatten

/-- What the backend reads of the body. -/
def State.results (max : Nat) (s : State) : List (Except InspectError BodyEvent) := polls (.new max) s.polled

def received (results : List (Except InspectError BodyEvent)) : Body := results.filterMap Except.toOption

/-! ### What is on its way -/

theorem sent_append_singleton (ls : List Label) (l : Label) :
    sent (ls ++ [l]) = sent ls ++ if ls.any Label.ends then [] else l.message.toList := by
  rw [sent, Client.SingleStream.takeWhile_append_singleton]
  by_cases finished : ls.any Label.ends = true
  · rw [if_pos finished, if_pos finished, List.append_nil]
    rfl
  · rw [if_neg finished, if_neg finished]
    have goes : ∀ b ∈ ls, b.ends = false := by simpa using finished
    have whole : (ls.takeWhile fun b => !b.ends) = ls :=
      List.takeWhile_eq_self_iff.mpr fun b member => by simp [goes b member]
    rw [sent, whole]
    cases l <;> simp [Label.ends, Label.closes, Label.message]

theorem frames_append (first second : List Bytes) : frames (first ++ second) = frames first ++ frames second := by
  rw [frames, List.map_append, List.flatten_append]
  rfl

theorem stops_of_append {first later : Body} (goes : (first ++ later).stops = false) : first.stops = false := by
  induction first with
  | nil => rfl
  | cons event rest ih =>
    cases event with
    | data _ => exact ih goes
    | trailers _ => exact ih goes
    | error _ => cases goes
    | eof => cases goes

theorem stops_of_eof {body : Body} (ended : .eof ∈ body) : body.stops = true := by
  induction body with
  | nil => cases ended
  | cons event rest ih =>
    cases event with
    | data _ => exact ih ((List.mem_cons.mp ended).resolve_left nofun)
    | trailers _ => exact ih ((List.mem_cons.mp ended).resolve_left nofun)
    | error _ => rfl
    | eof => rfl

/-- What is on its way is what was sent, in order. -/
structure Carries (ls : List Label) (s : State) : Prop where
  begins : s.polled.bytes ++ s.wire <+: frames (sent ls)
  whole : s.sink.released = false → s.polled.bytes ++ s.wire ++ s.sink.queue.flatten = frames (sent ls)
  dropped : s.sink.released = true → s.sink.queue = []
  finished : (s.sink.bodyClosed || s.sink.released) = ls.any Label.ends
  closed : s.sink.bodyClosed = true → ∃ l ∈ ls, l.closes = true
  ended : .eof ∈ s.polled → s.polled.bytes = frames (sent ls) ∧ s.sink.bodyClosed = true
  last : Body.stops s.polled.dropLast = false

theorem Carries.start : Carries [] {} where
  begins := List.prefix_rfl
  whole _ := rfl
  dropped _ := rfl
  finished := rfl
  closed := nofun
  ended := nofun
  last := rfl

theorem Carries.later {ls : List Label} {s : State} (carries : Carries ls s) (l : Label)
    (closed : s.sink.bodyClosed = true) : ∃ l' ∈ ls ++ [l], l'.closes = true := by
  obtain ⟨l', member, closes⟩ := carries.closed closed
  exact ⟨l', List.mem_append_left _ member, closes⟩

theorem Carries.send {ls : List Label} {s : State} (carries : Carries ls s) (message : Bytes) :
    Carries (ls ++ [.send message]) { s with sink := s.sink.send message } := by
  have same : (ls ++ [Label.send message]).any Label.ends = ls.any Label.ends := by
    simp [Label.ends, Label.closes]
  by_cases finished : s.sink.bodyClosed = true ∨ s.sink.released = true
  · have ended : ls.any Label.ends = true := by
      rw [← carries.finished, Bool.or_eq_true]
      exact finished
    have kept : sent (ls ++ [.send message]) = sent ls := by
      rw [sent_append_singleton, if_pos ended, List.append_nil]
    have sink : s.sink.send message = s.sink := if_pos finished
    have later := carries.later (.send message)
    obtain ⟨begins, whole, dropped, finished, _, eof, last⟩ := carries
    rw [sink]
    exact ⟨kept ▸ begins, kept ▸ whole, dropped, finished.trans same.symm, later, kept ▸ eof, last⟩
  · have goes : ¬ls.any Label.ends = true := by
      rw [← carries.finished, Bool.or_eq_true]
      exact finished
    have grown : frames (sent (ls ++ [.send message])) = frames (sent ls) ++ frame message := by
      rw [sent_append_singleton, if_neg goes, frames_append]
      simp [Label.message, frames]
    have sink : s.sink.send message = { s.sink with queue := s.sink.queue ++ [encodeMessage message] } := if_neg finished
    obtain ⟨open_, held⟩ := not_or.mp finished
    rw [sink]
    refine ⟨?_, ?_, ?_, carries.finished.trans same.symm, carries.later _, ?_, carries.last⟩
    · rw [grown]
      exact carries.begins.trans (List.prefix_append _ _)
    · intro here
      rw [grown, ← carries.whole here, List.flatten_append, ← List.append_assoc]
      simp [encodeMessage, frame]
    · exact fun released => absurd released held
    · exact fun eof => absurd (carries.ended eof).2 open_

theorem Carries.close {ls : List Label} {s : State} (carries : Carries ls s) {l : Label} (closes : l.closes = true)
    (silent : l.message = none) : Carries (ls ++ [l]) { s with sink := s.sink.closeBody } := by
  have kept : sent (ls ++ [l]) = sent ls := by
    rw [sent_append_singleton, silent]
    simp
  have ends : l.ends = true := by cases l <;> first | rfl | cases closes
  obtain ⟨begins, whole, dropped, finished, _, eof, last⟩ := carries
  refine ⟨kept ▸ begins, kept ▸ whole, dropped, ?_, ?_, ?_, last⟩
  · simp [Sink.closeBody, ends]
  · exact fun _ => ⟨l, List.mem_append_right _ List.mem_cons_self, closes⟩
  · exact fun ended => ⟨kept ▸ (eof ended).1, rfl⟩

/-- A step of HTTP/2 that polls the body. -/
theorem Carries.poll {ls : List Label} {s : State} (carries : Carries ls s) {l : Label} (quiet : l.ends = false)
    (silent : l.message = none) {event : BodyEvent} {wire : Bytes} (open_ : s.polled.stops = false)
    (takes : Body.bytes [event] ++ wire = s.wire)
    (ended : event = .eof → s.polled.bytes = frames (sent ls) ∧ s.sink.bodyClosed = true) :
    Carries (ls ++ [l]) { s with wire, polled := s.polled ++ [event] } := by
  have kept : sent (ls ++ [l]) = sent ls := by
    rw [sent_append_singleton, silent]
    simp
  have same : (ls ++ [l]).any Label.ends = ls.any Label.ends := by simp [quiet]
  have bytes : Body.bytes (s.polled ++ [event]) = s.polled.bytes ++ Body.bytes [event] := (Body.snoc open_ event).1
  have later := carries.later l
  obtain ⟨begins, whole, dropped, finished, _, _, _⟩ := carries
  rw [← takes, ← List.append_assoc, ← bytes] at begins whole
  refine ⟨kept ▸ begins, kept ▸ whole, dropped, finished.trans same.symm, later, ?_, by rwa [List.dropLast_concat]⟩
  intro eof
  rcases List.mem_append.mp eof with earlier | last
  · exact absurd (stops_of_eof earlier) (by simp [open_])
  · obtain rfl := List.mem_singleton.mp last
    obtain ⟨all, closed⟩ := ended rfl
    refine ⟨?_, closed⟩
    rw [kept, ← all]
    exact bytes.trans (List.append_nil _)

theorem Carries.step {ls : List Label} {s t : State} {l : Label} (carries : Carries ls s) (taken : Step s l t) :
    Carries (ls ++ [l]) t := by
  cases taken with
  | send message => exact carries.send message
  | halfClose => exact carries.close rfl rfl
  | cancel => exact carries.close rfl rfl
  | @take chunk later queued =>
    have held : s.sink.released = false := by
      by_contra gone
      have empty := carries.dropped (by simpa using gone)
      rw [empty] at queued
      cases queued
    have kept : sent (ls ++ [.take]) = sent ls := by
      rw [sent_append_singleton]
      simp [Label.message]
    have all := carries.whole held
    rw [queued, List.flatten_cons, ← List.append_assoc, List.append_assoc s.polled.bytes] at all
    refine ⟨?_, ?_, ?_, ?_, carries.later _, ?_, carries.last⟩
    · rw [kept, ← all]
      exact List.prefix_append _ _
    · exact fun _ => kept ▸ all
    · exact fun released => absurd released (by simp [held])
    · exact carries.finished.trans (by simp [Label.ends, Label.closes])
    · exact kept ▸ carries.ended
  | release =>
    have kept : sent (ls ++ [.release]) = sent ls := by
      rw [sent_append_singleton]
      simp [Label.message]
    refine ⟨kept ▸ carries.begins, ?_, fun _ => rfl, ?_, carries.later _, kept ▸ carries.ended, carries.last⟩
    · intro held
      cases held
    · simp [Label.ends]
  | @data n within open_ => exact carries.poll rfl rfl open_ (by simp [Body.bytes]) fun same => by cases same
  | finish closed held empty drained open_ =>
    have all := carries.whole held
    rw [empty, drained, List.flatten_nil, List.append_nil, List.append_nil] at all
    exact carries.poll rfl rfl open_ rfl fun _ => ⟨all, closed⟩
  | broken e open_ => exact carries.poll rfl rfl open_ rfl fun same => by cases same

theorem run_carries {ls : List Label} {s : State} (run : Transition.Run Step {} ls s) : Carries ls s :=
  run.history (Q := fun _ _ _ => True) (fun _ _ _ _ _ => trivial) (fun _ _ _ _ _ carries _ taken => carries.step taken)
    .start

/-! ### What the guard lets through -/

theorem frames_cons (message : Bytes) (later : List Bytes) : frames (message :: later) = frame message ++ frames later := by
  rw [frames, List.map_cons, List.flatten_cons]
  rfl

theorem length_frame (message : Bytes) : (frame message).length = message.length + 5 := by
  simp only [frame, List.length_append, List.length_cons, putU32_length]
  omega

/-- Bytes of a sequence of frames end within the first frame or behind it. -/
theorem cases_frames {message bytes : Bytes} {later : List Bytes} (within : bytes <+: frames (message :: later)) :
    (bytes <+: frame message ∧ bytes.length < message.length + 5) ∨
      ∃ more, bytes = frame message ++ more ∧ more <+: frames later := by
  have length := length_frame message
  rw [frames_cons] at within
  by_cases short : bytes.length < message.length + 5
  · exact .inl ⟨List.prefix_of_prefix_length_le within (List.prefix_append _ _) (by omega), short⟩
  · obtain ⟨more, rfl⟩ := List.prefix_of_prefix_length_le (List.prefix_append _ _) within (by omega)
    exact .inr ⟨more, rfl, (List.prefix_append_right_inj _).mp within⟩

theorem header_within {message bytes : Bytes} (within : bytes <+: frame message) (header : 5 ≤ bytes.length) :
    ∃ part, bytes = 0 :: putU32 message.length ++ part := by
  have front : 0 :: putU32 message.length <+: bytes :=
    List.prefix_of_prefix_length_le (List.prefix_append _ _) within header
  obtain ⟨part, same⟩ := front
  exact ⟨part, same.symm⟩

theorem drain_part {message bytes : Bytes} (small : message.length < 2 ^ 32) (within : bytes <+: frame message)
    (short : bytes.length < message.length + 5) : grpc.drain bytes = ([], bytes) := by
  by_cases header : bytes.length < 5
  · exact drain_short header
  · obtain ⟨part, rfl⟩ := header_within within (by omega)
    refine drain_header rfl ?_
    have declared : getU32 (putU32 message.length ++ []) = message.length := getU32_putU32 small []
    rw [List.append_nil] at declared
    rw [List.tail_cons, declared]
    simp only [List.length_append, List.length_cons, putU32_length] at short
    omega

/-- Behind so many bytes comes the last header byte of a message above the limit. -/
def Above (max : Nat) (messages : List Bytes) (n : Nat) : Prop :=
  ∃ before m after, messages = before ++ m :: after ∧ max < m.length ∧ n = (frames before).length + 4

theorem above_cons {max n : Nat} {message : Bytes} {later : List Bytes} :
    Above max (message :: later) n ↔
      n = 4 ∧ max < message.length ∨ ∃ n', n = message.length + 5 + n' ∧ Above max later n' := by
  constructor
  · rintro ⟨before, m, after, split, large, rfl⟩
    cases before with
    | nil =>
      obtain ⟨rfl, rfl⟩ := List.cons.inj split
      exact .inl ⟨rfl, large⟩
    | cons _ before =>
      obtain ⟨rfl, rfl⟩ := List.cons.inj split
      refine .inr ⟨(frames before).length + 4, ?_, before, m, after, rfl, large, rfl⟩
      rw [frames_cons, List.length_append, length_frame]
      omega
  · rintro (⟨rfl, large⟩ | ⟨_, rfl, before, m, after, rfl, large, rfl⟩)
    · exact ⟨[], message, later, rfl, large, rfl⟩
    · refine ⟨message :: before, m, after, rfl, large, ?_⟩
      rw [frames_cons, List.length_append, length_frame]
      omega

theorem exceeds_iff {max : Nat} {messages : List Bytes} (small : ∀ m ∈ messages, m.length < 2 ^ 32) {a : Bytes} {b : UInt8}
    (within : a ++ [b] <+: frames messages) : Exceeds max a b ↔ Above max messages a.length := by
  induction messages generalizing a with
  | nil =>
    have empty := List.prefix_nil.mp within
    simp at empty
  | cons message later ih =>
    obtain ⟨first, small⟩ := List.forall_mem_cons.mp small
    rw [above_cons]
    rcases cases_frames ((List.prefix_append a [b]).trans within) with ⟨part, short⟩ | ⟨more, rfl, _⟩
    · rw [Exceeds, drain_part first part short]
      have far : ¬∃ n', a.length = message.length + 5 + n' ∧ Above max later n' := by
        rintro ⟨n', length, _⟩
        omega
      rw [or_iff_left far]
      refine and_congr_right fun four => ?_
      have front : a ++ [b] = 0 :: putU32 message.length := by
        have header : 0 :: putU32 message.length <+: frames (message :: later) := by
          rw [frames_cons, frame, List.append_assoc]
          exact List.prefix_append _ _
        exact (List.prefix_of_prefix_length_le within header (by simp [four])).eq_of_length (by simp [four])
      have declared : getU32 (putU32 message.length ++ []) = message.length := getU32_putU32 first []
      rw [List.append_nil] at declared
      rw [front, List.tail_cons, declared]
    · have complete : (grpc.drain (frame message)).2 = [] := by
        rw [← List.append_nil (frame message), LengthPrefix.Format.drain_some (next_frame first []),
          LengthPrefix.Format.drain_nil]
      have inside : more ++ [b] <+: frames later := by
        rw [frames_cons, List.append_assoc] at within
        exact (List.prefix_append_right_inj _).mp within
      rw [Exceeds, LengthPrefix.Format.drain_complete complete, List.length_append, length_frame]
      refine (ih small inside).trans ⟨fun above => .inr ⟨_, rfl, above⟩, ?_⟩
      rintro (⟨near, _⟩ | ⟨n', same, above⟩)
      · omega
      · rwa [show more.length = n' by omega]

theorem clean_iff {max : Nat} {messages : List Bytes} (small : ∀ m ∈ messages, m.length < 2 ^ 32) {bytes : Bytes}
    (within : bytes <+: frames messages) : Clean max [] bytes ↔ ∀ n < bytes.length, ¬Above max messages n := by
  constructor
  · intro clean n inside above
    have split : bytes = bytes.take n ++ bytes[n] :: bytes.drop (n + 1) := by simp
    have front : bytes.take n ++ [bytes[n]] <+: frames messages := by
      rw [List.take_append_getElem inside]
      exact (List.take_prefix _ _).trans within
    refine clean _ _ _ split ((exceeds_iff small front).mpr ?_)
    rwa [List.length_take, Nat.min_eq_left (Nat.le_of_lt inside)]
  · rintro none a b c rfl exceeds
    have front : a ++ [b] <+: frames messages := by
      rw [List.append_cons] at within
      exact (List.prefix_append _ _).trans within
    exact none a.length (by simp) ((exceeds_iff small front).mp exceeds)

/-- What the backend deframes are the messages in front of the first above the limit. -/
theorem deframed {max : Nat} {messages : List Bytes} (small : ∀ m ∈ messages, m.length < 2 ^ 32) {bytes : Bytes}
    (within : bytes <+: frames messages) (none : ∀ n < bytes.length, ¬Above max messages n) :
    deframeAll bytes <+: messages.takeWhile fun m => m.length ≤ max := by
  rw [deframeAll_eq]
  induction messages generalizing bytes with
  | nil =>
    rw [List.prefix_nil.mp within, LengthPrefix.Format.drain_nil]
    exact List.prefix_rfl
  | cons message later ih =>
    obtain ⟨first, small⟩ := List.forall_mem_cons.mp small
    rcases cases_frames within with ⟨part, short⟩ | ⟨more, rfl, inside⟩
    · rw [drain_part first part short]
      exact List.nil_prefix
    · rw [List.length_append, length_frame] at none
      have fits : message.length ≤ max := by
        by_contra large
        exact none 4 (by omega) (above_cons.mpr (.inl ⟨rfl, by omega⟩))
      have taken : ((message :: later).takeWhile fun m => m.length ≤ max) =
          message :: later.takeWhile fun m => m.length ≤ max := List.takeWhile_cons_of_pos (decide_eq_true fits)
      rw [LengthPrefix.Format.drain_some (next_frame first more), taken, List.prefix_cons_inj]
      exact ih small inside fun n before above => none (message.length + 5 + n) (by omega)
        (above_cons.mpr (.inr ⟨n, rfl, above⟩))

theorem deframed_frames {messages : List Bytes} (small : ∀ m ∈ messages, m.length < 2 ^ 32) :
    deframeAll (frames messages) = messages := by
  have drained := Deframing.drain_frames small (show ¬Fetch.HoldsFrame [] by simp [Fetch.HoldsFrame])
  rw [List.append_nil] at drained
  rw [deframeAll_eq, frames, drained]

theorem bytes_chunks (body : Body) : body.bytes <+: (chunksOf body).flatten := by
  induction body with
  | nil => exact List.prefix_rfl
  | cons event rest ih =>
    cases event with
    | data d => exact (List.prefix_append_right_inj d).mpr ih
    | trailers _ => exact ih
    | error _ => exact List.nil_prefix
    | eof => exact List.nil_prefix

theorem chunks_bytes {body : Body} (last : Body.stops body.dropLast = false) : (chunksOf body).flatten = body.bytes := by
  induction body with
  | nil => rfl
  | cons event rest ih =>
    cases rest with
    | nil => cases event <;> simp [chunksOf, Body.bytes]
    | cons next rest =>
      cases event with
      | data d => exact congrArg (d ++ ·) (ih last)
      | trailers _ => exact ih last
      | error _ => cases last
      | eof => cases last

theorem received_ok (body : Body) : received (body.map .ok) = body := by
  rw [received, List.filterMap_map]
  exact List.filterMap_some

/-- The backend reads a beginning of the messages in front of the first above the limit, and all messages before
a clean end, which the application asked for. The guard fails the body exactly when such a message's header is in. -/
theorem requests_guarded (max : Nat) {ls : List Label} {s : State} (run : Transition.Run Step {} ls s)
    (small : ∀ m ∈ sent ls, m.length < 2 ^ 32) :
    deframeAll (received (s.results max)).bytes <+: (sent ls).takeWhile (fun m => m.length ≤ max) ∧
      (.ok .eof ∈ s.results max → (∃ l ∈ ls, l.closes = true) ∧ (∀ m ∈ sent ls, m.length ≤ max) ∧
        deframeAll (received (s.results max)).bytes = sent ls) ∧
      (∀ e, .error e ∈ s.results max ↔ e = .exceeded max ∧ ∃ n < s.polled.bytes.length, Above max (sent ls) n) := by
  have carries := run_carries run
  have within : s.polled.bytes <+: frames (sent ls) := (List.prefix_append _ _).trans carries.begins
  have chunks := chunks_bytes carries.last
  have reads := polls_spec (.new max) s.polled
  rcases inspectAll_spec (.start max) (chunksOf s.polled) with ⟨g, passed, clean⟩ | ⟨k, a, b, c, failed, split, clean, exceeds, inside⟩
  · have results : s.results max = s.polled.map .ok := reads.passed g passed
    rw [chunks] at clean
    have none := (clean_iff small within).mp clean
    rw [results, received_ok]
    refine ⟨deframed small within none, ?_, ?_⟩
    · intro ended
      have eof : .eof ∈ s.polled := by simpa using ended
      obtain ⟨all, closed⟩ := carries.ended eof
      refine ⟨carries.closed closed, ?_, all ▸ deframed_frames small⟩
      have front := deframed small within none
      rw [all, deframed_frames small] at front
      have whole := front.eq_of_length_le (List.takeWhile_prefix _).length_le
      intro m member
      rw [whole] at member
      exact of_decide_eq_true (List.mem_takeWhile_imp (p := fun m : Bytes => decide (m.length ≤ max)) member)
    · intro e
      refine iff_of_false (by simp) ?_
      rintro ⟨_, n, inside, above⟩
      exact none n inside above
  · obtain ⟨before, d, after, polled, count, results⟩ := reads.failed k _ failed
    change s.results max = _ at results
    rw [chunks] at split
    have inA : a <+: frames (sent ls) := by
      rw [split] at within
      exact (List.prefix_append _ _).trans within
    have inB : a ++ [b] <+: frames (sent ls) := by
      rw [split, List.append_cons] at within
      exact (List.prefix_append _ _).trans within
    have above : Above max (sent ls) a.length := (exceeds_iff small inB).mp exceeds
    have read : received (s.results max) = before := by
      rw [results, received, List.filterMap_append]
      exact (List.append_nil _).trans (received_ok before)
    have taken : (chunksOf s.polled).take k = chunksOf before := by
      rw [polled, chunksOf, List.filterMap_append]
      exact List.take_left' count
    have early : before.bytes.length ≤ a.length := by
      have less := inside.1
      rw [taken] at less
      exact (bytes_chunks before).length_le.trans less
    have front : before.bytes <+: frames (sent ls) := by
      refine ((bytes_chunks before).trans ?_).trans (chunks ▸ within)
      rw [← taken, ← List.take_append_drop k (chunksOf s.polled), List.flatten_append, List.take_append_drop]
      exact List.prefix_append _ _
    have goes : before.stops = false := by
      have last := carries.last
      rw [polled, List.dropLast_append_cons] at last
      exact stops_of_append last
    rw [read, results]
    refine ⟨deframed small front fun n less => (clean_iff small inA).mp clean n (by omega), ?_, ?_⟩
    · intro ended
      have eof : .eof ∈ before := by simpa using ended
      exact absurd (stops_of_eof eof) (by simp [goes])
    · intro e
      have only : (.error e : Except InspectError BodyEvent) ∈ before.map .ok ++ [.error (.exceeded max)] ↔
          e = .exceeded max := by simp
      rw [only, iff_self_and]
      exact fun _ => ⟨a.length, by simp [split], above⟩

/-- The header of a message of five bytes comes behind a whole message. -/
theorem requests_guarded_five : ∃ s, Transition.Run Step {} [.send [7], .send [1, 2, 3, 4, 5], .take, .take, .data 6, .data 5] s ∧
    deframeAll (received (s.results 4)).bytes <+: [[7]] ∧ .error (.exceeded 4) ∈ s.results 4 := by
  have run : Transition.Run Step {} [.send [7], .send [1, 2, 3, 4, 5], .take, .take, .data 6, .data 5] _ :=
    .cons (.send _ _) (.cons (.send _ _) (.cons (.take rfl) (.cons (.take rfl)
      (.cons (.data (by decide) rfl) (.cons (.data (by decide) rfl) (.nil _))))))
  have guarded := requests_guarded 4 run (by decide)
  exact ⟨_, run, guarded.1, (guarded.2.2 _).mpr ⟨rfl, 10, by decide, [[7]], [1, 2, 3, 4, 5], [], rfl, by decide, by decide⟩⟩

/-! ### The response -/

section

open Client Client.Calls Attempt

variable {Code Res : Type}

/-- The `try` of `startStream`, by the messages instead of the bytes that carry them. -/
def replay (handlers : StreamHandlers Code Res Bytes) (head : Option (Except String Metadata)) (received : List Bytes)
    (ending : Option (Except String (CallStatus Code))) : Act Code Res (Option (CallStatus Code)) :=
  match head with
  | none => pure none
  | some (.error e) => throw e
  | some (.ok headers) => do
    handlers.onHeaders headers
    received.forM handlers.onMessage
    match ending with
    | none => pure none
    | some (.error e) => throw e
    | some (.ok status) => pure (some status)

theorem receive_eq (handlers : StreamHandlers Code Res Bytes) (parser : GrpcFrameParser) (chunks : List Bytes) :
    Calls.receive handlers parser chunks = (grpc.feed parser.buf.bytes chunks).1.flatten.forM handlers.onMessage := by
  induction chunks generalizing parser with
  | nil => rfl
  | cons chunk chunks ih =>
    obtain ⟨pushed, left⟩ := parser.push_eq chunk
    show (parser.push chunk).1.forM handlers.onMessage >>= (fun _ => Calls.receive handlers (parser.push chunk).2 chunks) = _
    rw [ih, left, pushed]
    simp only [LengthPrefix.Format.feed, List.flatten_cons]
    exact List.forM_append.symm

theorem deframed_within {messages : List Bytes} (small : ∀ m ∈ messages, m.length < 2 ^ 32) {bytes : Bytes}
    (within : bytes <+: frames messages) : deframeAll bytes <+: messages := by
  obtain ⟨more, whole⟩ := within
  have drained := grpc.drain_append bytes more
  have all := deframed_frames small
  rw [deframeAll_eq] at all ⊢
  rw [whole] at drained
  rw [← all, drained]
  exact List.prefix_append _ _

theorem streamed_eq (handlers : StreamHandlers Code Res Bytes) (t : Transcript Code) :
    streamed handlers t = replay handlers t.head (deframeAll t.chunks.flatten) t.ending := by
  obtain ⟨head, chunks, ending⟩ := t
  have nothing : grpc.next [] = none := by decide
  have fed := congrArg Prod.fst (grpc.feed_eq chunks nothing)
  rw [List.nil_append, ← deframeAll_eq] at fed
  change (grpc.feed [] chunks).1.flatten = _ at fed
  have start : (({} : GrpcFrameParser).buf.bytes) = [] := Uint8Array.bytes_ofBytes []
  have received : Calls.receive handlers {} chunks = (deframeAll chunks.flatten).forM handlers.onMessage := by
    rw [receive_eq, start, fed]
  match head with
  | none => rfl
  | some (.error e) => rfl
  | some (.ok headers) =>
    rcases ending with _ | _ | _ <;> simp only [streamed, replay, received]

variable [StatusCode Code]

/-- `startStream`, by the messages of the response. -/
def hear (app : Application Code Res) (handlers : StreamHandlers Code Res Bytes) (head : Option (Except String Metadata))
    (received : List Bytes) (ending : Option (Except String (CallStatus Code))) : Act Code Res Unit :=
  reporting (replay handlers head received ending) handlers.onStatus
    fun e c => abortOrUnknown (app.aborted c.told) (app.cancelled c.told) e

/-- However HTTP/2 cuts the response, and whatever the handlers do, the client goes on as if it were handed the
backend's messages one by one. -/
theorem responses_heard (app : Application Code Res) (handlers : StreamHandlers Code Res Bytes) {answers : List Bytes}
    (small : ∀ m ∈ answers, m.length < 2 ^ 32) (t : Transcript Code) (within : t.chunks.flatten <+: frames answers) :
    ∃ heard, heard <+: answers ∧ (t.chunks.flatten = frames answers → heard = answers) ∧
      startStream app handlers t = hear app handlers t.head heard t.ending := by
  refine ⟨deframeAll t.chunks.flatten, deframed_within small within, ?_, ?_⟩
  · intro whole
    rw [whole, deframed_frames small]
  · rw [startStream, streamed_eq]
    rfl

def listener : Application Nat Bytes := ⟨fun _ _ => none, fun _ => none, fun _ => false⟩

/-- Two messages, cut inside both headers. -/
def twice : Transcript Nat := ⟨some (.ok .empty), [[0, 0], [0, 0, 1, 7, 0, 0], [0, 0, 0]], some (.ok ⟨0, "", .empty⟩)⟩

theorem responses_heard_twice :
    letI : StatusCode Nat := ⟨id, (· == 0)⟩
    startStream listener (streamHandlers listener .ok) twice =
      hear listener (streamHandlers listener .ok) twice.head [[7], []] twice.ending := by
  let _ : StatusCode Nat := ⟨id, (· == 0)⟩
  have small : ∀ m ∈ ([[7], []] : List Bytes), m.length < 2 ^ 32 := by decide
  obtain ⟨heard, _, whole, same⟩ := responses_heard listener (streamHandlers listener .ok) small twice (by decide)
  rw [whole (by decide)] at same
  exact same

end

end Tunnel
end EndToEnd
end GrpcWebnext
