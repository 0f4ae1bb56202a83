import GrpcWebnext.Ws.Backpressure

/-!
# Keepalive

The read loop with a clock. Its deadline moves when it takes a message from the socket, not when the
message arrives there, and between two messages it may wait in `handle_frame` for as long as the
channels make it.
-/

namespace GrpcWebnext
namespace Ws
open SerdeJson

namespace Keepalive

/-- `max_silence`: one ping interval and the timeout; `none` when keepalive is off. -/
def maxSilence (wsKeepalive : Option Nat) (wsKeepaliveTimeout : Nat) : Option Nat :=
  wsKeepalive.map (· + wsKeepaliveTimeout)

section

variable [ProstReflect] [SerdeJson]

structure Timed where
  conn : Conn
  now : Nat := 0
  deadline : Option Nat
  /-- the messages that were not read yet, with the time of their arrival -/
  socket : List (Nat × Inbound Value) := []
  /-- when messages arrived, whether they were read or not -/
  arrived : List Nat := []

def Timed.initial (cfg : Config) (silence : Option Nat) : Timed :=
  { conn := .initial cfg, deadline := silence.map (0 + ·) }

inductive Event where
  | arrive (msg : Inbound Value)
  | pass (time : Nat)
  /-- the branch of `ws_stream.next()` -/
  | incoming
  /-- the branch of `sleep_until(deadline)` -/
  | silence
  | conn (l : Label)

variable [UriParser]

/-- `select!` takes any branch that is ready; the loop comes to it when it waits for nothing else. -/
def Timed.step (cfg : Config) (silence : Option Nat) (s : Timed) : Event → Option Timed
  | .arrive msg => some { s with socket := s.socket ++ [(s.now, msg)], arrived := s.arrived ++ [s.now] }
  | .pass time => some { s with now := s.now + time }
  | .incoming =>
    match s.socket with
    | (_, msg) :: rest =>
      (s.conn.read cfg msg).map fun conn =>
        { s with
          conn
          socket := rest
          deadline := match silence with
            | some d => some (s.now + d)
            | none => s.deadline }
    | [] => none
  | .silence =>
    match s.deadline with
    | some deadline =>
      if deadline ≤ s.now && s.conn.reader matches .ready then some { s with conn := s.conn.leave } else none
    | none => none
  | .conn l =>
    match l with
    | .read _ => none
    | l => (s.conn.step cfg l).map fun conn => { s with conn }

def TimedStep (cfg : Config) (silence : Option Nat) (s : Timed) (e : Event) (t : Timed) : Prop :=
  s.step cfg silence e = some t

abbrev TimedRun (cfg : Config) (silence : Option Nat) (es : List Event) (t : Timed) : Prop :=
  Transition.Run (TimedStep cfg silence) (.initial cfg silence) es t

theorem TimedStep.incoming {cfg : Config} {silence : Option Nat} {s t : Timed}
    (taken : TimedStep cfg silence s .incoming t) :
    ∃ first rest conn, s.socket = first :: rest ∧ s.conn.read cfg first.2 = some conn ∧
      t = { s with conn, socket := rest, deadline := (silence.map (s.now + ·)).or s.deadline } := by
  simp only [TimedStep, Timed.step] at taken
  split at taken
  · rename_i at_ msg rest socket
    obtain ⟨conn, read, rfl⟩ := Option.map_eq_some_iff.mp taken
    refine ⟨(at_, msg), rest, conn, socket, read, ?_⟩
    cases silence with
    | none => rfl
    | some d => rfl
  · cases taken

theorem TimedStep.silence {cfg : Config} {silence : Option Nat} {s t : Timed}
    (taken : TimedStep cfg silence s .silence t) :
    ∃ deadline, s.deadline = some deadline ∧ deadline ≤ s.now ∧ Step cfg s.conn .leave s.conn.leave ∧
      t = { s with conn := s.conn.leave } := by
  simp only [TimedStep, Timed.step] at taken
  split at taken
  · rename_i deadline set
    obtain ⟨both, ⟨⟩⟩ := Option.ite_none_right_eq_some.mp taken
    obtain ⟨past, ready⟩ := Bool.and_eq_true_iff.mp both
    exact ⟨deadline, set, of_decide_eq_true past, if_pos ready, rfl⟩
  · cases taken

theorem TimedStep.conn {cfg : Config} {silence : Option Nat} {s t : Timed} {l : Label}
    (taken : TimedStep cfg silence s (.conn l) t) :
    ∃ conn, Step cfg s.conn l conn ∧ t = { s with conn } := by
  cases l with
  | read msg => cases taken
  | writerDied =>
    cases taken
    exact ⟨_, rfl, rfl⟩
  | _ =>
    obtain ⟨conn, moved, rfl⟩ := Option.map_eq_some_iff.mp taken
    exact ⟨conn, moved, rfl⟩

/-! ### The connection behind the clock -/

theorem Timed.step_conn {cfg : Config} {silence : Option Nat} {s t : Timed} {e : Event}
    (taken : TimedStep cfg silence s e t) : ∃ ls, Transition.Run (Step cfg) s.conn ls t.conn := by
  cases e with
  | arrive msg => cases taken; exact ⟨[], .nil _⟩
  | pass time => cases taken; exact ⟨[], .nil _⟩
  | incoming =>
    obtain ⟨first, rest, conn, _, read, rfl⟩ := taken.incoming
    exact ⟨[.read first.2], .single read⟩
  | silence =>
    obtain ⟨_, _, _, left, rfl⟩ := taken.silence
    exact ⟨[.leave], .single left⟩
  | conn l =>
    obtain ⟨conn, moved, rfl⟩ := taken.conn
    exact ⟨[l], .single moved⟩

/-- Under the clock, a connection does nothing that it could not do without. -/
theorem TimedRun.conn {cfg : Config} {silence : Option Nat} {es : List Event} {s : Timed}
    (run : TimedRun cfg silence es s) : ∃ ls, Run cfg ls s.conn := by
  refine run.invariant (P := fun s => ∃ ls, Run cfg ls s.conn) ?_ ⟨[], .nil _⟩
  rintro s e t ⟨ls, before⟩ taken
  obtain ⟨more, after⟩ := Timed.step_conn taken
  exact ⟨ls ++ more, before.append after⟩

/-- The events of a connection whose messages are read as they arrive. -/
def eventsOf : Label → List Event
  | .read msg => [.arrive msg, .incoming]
  | l => [.conn l]

/-- Every run of a connection is one under the clock, in no time. -/
theorem TimedRun.of_run {cfg : Config} {silence : Option Nat} {ls : List Label} {s : Conn} (run : Run cfg ls s) :
    ∃ arrived, TimedRun cfg silence (ls.flatMap eventsOf)
      { conn := s, deadline := silence.map (0 + ·), arrived } := by
  refine run.history (Q := fun _ _ _ => True)
    (P := fun ls s => ∃ arrived, TimedRun cfg silence (ls.flatMap eventsOf)
      { conn := s, deadline := silence.map (0 + ·), arrived }) (fun _ _ _ _ _ => trivial) ?_ ⟨[], .nil _⟩
  rintro pre u l v _ ⟨arrived, before⟩ _ taken
  rw [List.flatMap_append, List.flatMap_singleton]
  cases l with
  | read msg =>
    refine ⟨arrived ++ [0], before.append (.cons rfl (.single ?_))⟩
    have read : u.read cfg msg = some v := taken
    cases silence <;> simp [TimedStep, Timed.step, read]
  | writerDied =>
    cases taken
    exact ⟨arrived, before.append (.single rfl)⟩
  | _ =>
    refine ⟨arrived, before.append (.single ?_)⟩
    exact Option.map_eq_some_iff.mpr ⟨v, taken, rfl⟩

/-! ### Silence -/

/-- No message arrived for as long as the server waits. -/
def Silent (d : Nat) (s : Timed) : Prop := ∀ a ∈ s.arrived, a + d ≤ s.now

/-- None of the messages that arrived lately still waits to be read. -/
def ReadUp (d : Nat) (s : Timed) : Prop := ∀ m ∈ s.socket, m.1 + d ≤ s.now

/-- Every message that was read moved the deadline behind it. -/
structure Armed (d : Nat) (s : Timed) : Prop where
  unread : ∀ m ∈ s.socket, m.1 ∈ s.arrived
  past : ∀ a ∈ s.arrived, a ≤ s.now
  covered : ∃ deadline, s.deadline = some deadline ∧ ∀ a ∈ s.arrived, a + d ≤ deadline ∨ ∃ m ∈ s.socket, m.1 = a

theorem Armed.step {cfg : Config} {d : Nat} {s t : Timed} {e : Event} (armed : Armed d s)
    (taken : TimedStep cfg (some d) s e t) : Armed d t := by
  obtain ⟨unread, past, deadline, set, covered⟩ := armed
  cases e with
  | arrive msg =>
    cases taken
    refine ⟨?_, ?_, deadline, set, ?_⟩
    · intro m member
      rcases List.mem_append.mp member with older | fresh
      · exact List.mem_append_left _ (unread m older)
      · simp [List.mem_singleton.mp fresh]
    · intro a member
      rcases List.mem_append.mp member with older | fresh
      · exact past a older
      · exact Nat.le_of_eq (List.mem_singleton.mp fresh)
    · intro a member
      rcases List.mem_append.mp member with older | fresh
      · rcases covered a older with early | ⟨m, waits, same⟩
        · exact .inl early
        · exact .inr ⟨m, List.mem_append_left _ waits, same⟩
      · exact .inr ⟨(s.now, msg), by simp, (List.mem_singleton.mp fresh).symm⟩
  | pass time =>
    cases taken
    exact ⟨unread, fun a member => Nat.le_add_right_of_le (past a member), deadline, set, covered⟩
  | incoming =>
    obtain ⟨first, rest, conn, socket, _, rfl⟩ := taken.incoming
    refine ⟨fun m member => unread m (by rw [socket]; exact List.mem_cons_of_mem _ member), past, s.now + d, rfl, ?_⟩
    intro a member
    exact .inl (Nat.add_le_add_right (past a member) d)
  | silence =>
    obtain ⟨_, _, _, _, rfl⟩ := taken.silence
    exact ⟨unread, past, deadline, set, covered⟩
  | conn l =>
    obtain ⟨conn, _, rfl⟩ := taken.conn
    exact ⟨unread, past, deadline, set, covered⟩

theorem Armed.of_run {cfg : Config} {d : Nat} {es : List Event} {s : Timed} (run : TimedRun cfg (some d) es s) :
    Armed d s :=
  run.invariant (fun _ _ _ armed taken => armed.step taken) ⟨nofun, nofun, 0 + d, rfl, nofun⟩

/-- When the keepalive branch is taken, the deadline is over for all messages that were read. -/
theorem Armed.silent_iff {cfg : Config} {d : Nat} {s t : Timed} (armed : Armed d s)
    (taken : TimedStep cfg (some d) s .silence t) : Silent d s ↔ ReadUp d s := by
  obtain ⟨unread, _, deadline, set, covered⟩ := armed
  obtain ⟨_, set', past, _⟩ := taken.silence
  obtain rfl := Option.some.inj (set.symm.trans set')
  constructor
  · intro silent m member
    exact silent m.1 (unread m member)
  · intro readUp a member
    rcases covered a member with early | ⟨m, waits, rfl⟩
    · exact Nat.le_trans early past
    · exact readUp m waits

theorem timedStep_functional {cfg : Config} {silence : Option Nat} (s : Timed) (e : Event) (t t' : Timed)
    (first : TimedStep cfg silence s e t) (second : TimedStep cfg silence s e t') : t = t' :=
  Option.some.inj (first.symm.trans second)

/-- Along a run, keepalive ends the connection only behind silence at the socket exactly if every
message that arrived lately was read when it does. -/
theorem keepalive_iff (cfg : Config) (wsKeepalive : Option Nat) (wsKeepaliveTimeout : Nat) {es : List Event}
    {s : Timed} (run : TimedRun cfg (maxSilence wsKeepalive wsKeepaliveTimeout) es s) :
    (∀ pre u, pre ++ [.silence] <+: es → TimedRun cfg (maxSilence wsKeepalive wsKeepaliveTimeout) pre u →
        ∀ d ∈ maxSilence wsKeepalive wsKeepaliveTimeout, Silent d u) ↔
      ∀ pre u, pre ++ [.silence] <+: es → TimedRun cfg (maxSilence wsKeepalive wsKeepaliveTimeout) pre u →
        ∀ d ∈ maxSilence wsKeepalive wsKeepaliveTimeout, ReadUp d u := by
  generalize maxSilence wsKeepalive wsKeepaliveTimeout = silence at run ⊢
  have here : ∀ pre u, pre ++ [.silence] <+: es → TimedRun cfg silence pre u →
      ∀ d ∈ silence, (Silent d u ↔ ReadUp d u) := by
    rintro pre u ⟨post, rfl⟩ before d rfl
    obtain ⟨v, through, _⟩ := run.split
    obtain ⟨u', before', last⟩ := through.split
    obtain rfl := before.unique timedStep_functional before'
    cases last with | cons taken stop
    exact (Armed.of_run before).silent_iff taken
  constructor
  · intro silent pre u within before d set
    exact (here pre u within before d set).mp (silent pre u within before d set)
  · intro readUp pre u within before d set
    exact (here pre u within before d set).mpr (readUp pre u within before d set)

end

attribute [local instance] flagSchema flagTexts slashUris

def idlePeer : List Event := [.pass 20, .arrive .control, .incoming, .pass 150, .silence]

theorem keepalive_iff_idle : ∃ s : Timed, TimedRun plainRoute (maxSilence (some 50) 100) idlePeer s ∧
    ((∀ pre u, pre ++ [.silence] <+: idlePeer → TimedRun plainRoute (maxSilence (some 50) 100) pre u →
        ∀ d ∈ maxSilence (some 50) 100, Silent d u) ↔
      ∀ pre u, pre ++ [.silence] <+: idlePeer → TimedRun plainRoute (maxSilence (some 50) 100) pre u →
        ∀ d ∈ maxSilence (some 50) 100, ReadUp d u) := by
  have run : TimedRun plainRoute (maxSilence (some 50) 100) idlePeer _ :=
    .cons rfl (.cons rfl (.cons rfl (.cons rfl (.cons rfl (.nil _)))))
  exact ⟨_, run, keepalive_iff plainRoute (some 50) 100 run⟩

def blockedPeer : List Event :=
  Backpressure.blockedRun.flatMap eventsOf ++
    [.pass 300, .arrive .control, .pass 40, .conn (.task 0 .deliver), .conn .resume]

/-- Both branches are ready, and the keepalive branch drops a peer that was heard 40 units ago. -/
theorem live_peer_dropped : ∃ s t : Timed, TimedRun plainRoute (maxSilence (some 50) 100) blockedPeer s ∧
    TimedStep plainRoute (maxSilence (some 50) 100) s .silence t ∧ ¬Silent 150 s := by
  obtain ⟨arrived, waits⟩ : ∃ arrived, TimedRun plainRoute (some 150) (Backpressure.blockedRun.flatMap eventsOf)
      { conn := Backpressure.blocked, deadline := some 150, arrived } :=
    TimedRun.of_run Backpressure.blocked_reached
  refine ⟨_, _, waits.append (.cons rfl (.cons rfl (.cons rfl (.cons rfl (.cons rfl (.nil _)))))), rfl, ?_⟩
  intro silent
  have late : 300 + 150 ≤ 340 := silent 300 (List.mem_append_right _ (List.mem_singleton_self _))
  exact absurd late (by decide)

end Keepalive
end Ws
end GrpcWebnext
