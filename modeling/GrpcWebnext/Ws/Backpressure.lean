import GrpcWebnext.Ws.RequestChannel

/-!
# The read loop under backpressure

`handle_frame` waits until the request channel takes a message and until the outbound channel takes
a reset, and the read loop reads nothing meanwhile. What it has to wait for before it comes to a
cancel is counted here over the unread messages.
-/

namespace GrpcWebnext
namespace Ws
open SerdeJson Transition

namespace Backpressure

section

variable [ProstReflect]

def fedTask (task : Task) (payload : Bytes) : Task :=
  if task.receiver then { task with requests := task.requests ++ [payload] } else task

theorem fedTask_json (task : Task) (payload : Bytes) : (fedTask task payload).json = task.json := by
  unfold fedTask
  split <;> rfl

variable [SerdeJson]

/-! ### What comes before the cancel -/

/-- The payloads that the read loop has to feed before it drops the stream. -/
def feeds (cfg : Config) (json : Bool) : Bool → List (Inbound Value) → Nat
  | _, [] => 0
  | reqTx, msg :: rest =>
    match cue cfg json msg with
    | .feed _ => (if reqTx then 1 else 0) + feeds cfg json reqTx rest
    | .halfClose => feeds cfg json false rest
    | .ignore => feeds cfg json reqTx rest
    | .duplicate => feeds cfg json reqTx rest
    | _ => 0

/-- The resets that it has to send before it drops the stream. -/
def resets (cfg : Config) (json : Bool) : List (Inbound Value) → Nat
  | [] => 0
  | msg :: rest =>
    match cue cfg json msg with
    | .duplicate => 1 + resets cfg json rest
    | .oversized => 1
    | .cancel => 0
    | .leave => 0
    | _ => resets cfg json rest

def feedsAt (cfg : Config) (json reqTx : Bool) (reader : Reader) (unread : List (Inbound Value)) : Nat :=
  match reader with
  | .feeding _ => 1 + feeds cfg json reqTx unread
  | .resetting _ _ true => 0
  | .dropping => 0
  | _ => feeds cfg json reqTx unread

def resetsAt (cfg : Config) (json : Bool) (reader : Reader) (unread : List (Inbound Value)) : Nat :=
  match reader with
  | .resetting _ _ drop => 1 + (if drop then 0 else resets cfg json unread)
  | .dropping => 0
  | _ => resets cfg json unread

/-- The request channel takes `fed` more payloads and the outbound channel `sent` more messages. -/
def Room (s : Conn) (task : Task) (fed sent : Nat) : Prop :=
  (task.receiver = true → fed ≤ requestCapacity - task.requests.length) ∧
    (s.writer = true → sent ≤ s.written + outboundCapacity - s.outbound.length)

/-! ### Behind a wait -/

def sentReset (s : Conn) (reset : Frame) (json drop : Bool) : Conn :=
  { s with
    outbound := s.outbound ++ s.sent (toTung reset json)
    reader := if drop then .dropping else .ready }

def fed (s : Conn) (i : Nat) (task : Task) (payload : Bytes) : Conn :=
  { s with reader := .ready, tasks := s.tasks.set i (fedTask task payload) }

theorem room_zero (s : Conn) (task : Task) : Room s task 0 0 := ⟨fun _ => Nat.zero_le _, fun _ => Nat.zero_le _⟩

theorem resume_resetting {s : Conn} {reset : Frame} {json drop : Bool} (waits : s.reader = .resetting reset json drop)
    (room : s.writer = true → s.outbound.length < s.written + outboundCapacity) :
    s.resume = some (sentReset s reset json drop) := by
  simp only [Conn.resume, waits, Conn.put, sentReset, Conn.sent]
  cases alive : s.writer with
  | false => simp [alive]
  | true => simp [room alive]

theorem resume_feeding {s : Conn} {i : Nat} {payload : Bytes} {task : Task} (waits : s.reader = .feeding payload)
    (held : s.stream = some ⟨i, true⟩) (found : s.tasks[i]? = some task)
    (room : task.receiver = true → task.requests.length < requestCapacity) :
    s.resume = some (fed s i task payload) := by
  have channel : (s.stream.bind fun st => (s.tasks[st.task]?).map (st.task, ·)) = some (i, task) := by
    simp [held, found]
  simp only [Conn.resume, waits, channel, fed, fedTask]
  cases receives : task.receiver with
  | false =>
    obtain ⟨within, rfl⟩ := List.getElem?_eq_some_iff.mp found
    simp
  | true => simp [room receives]

theorem room_sentReset {s : Conn} {task : Task} {fed sent : Nat} (reset : Frame) (json drop : Bool) :
    (s.writer = true → s.outbound.length < s.written + outboundCapacity) ∧
        Room (sentReset s reset json drop) task fed sent ↔ Room s task fed (1 + sent) := by
  unfold Room sentReset Conn.sent
  cases s.writer with
  | false => simp
  | true =>
    simp only [true_implies, ↓reduceIte, List.length_append, List.length_singleton]
    rw [and_left_comm]
    apply and_congr_right
    intro _
    omega

theorem room_fed {s : Conn} {task : Task} {more sent : Nat} (i : Nat) (payload : Bytes) :
    (task.receiver = true → task.requests.length < requestCapacity) ∧
        Room (fed s i task payload) (fedTask task payload) more sent ↔ Room s task (1 + more) sent := by
  unfold Room fed fedTask
  cases receives : task.receiver with
  | false => simp [receives]
  | true =>
    simp only [↓reduceIte, true_implies, List.length_append, List.length_singleton]
    rw [← and_assoc]
    apply and_congr_left
    intro _
    omega

def Aborted (i : Nat) (at_ : Conn × List (Inbound Value)) : Prop :=
  ∃ task, at_.1.tasks[i]? = some task ∧ task.aborted = true

theorem running_of_held {s : Conn} {st : StreamState} (sound : s.Sound) (held : s.stream = some st)
    (unread : List (Inbound Value)) : ¬Aborted st.task (s, unread) := by
  rintro ⟨task, found, stopped⟩
  obtain ⟨_, task', same, _, live⟩ := sound.held st held
  obtain rfl := Option.some.inj (found.symm.trans same)
  rw [live] at stopped
  cases stopped

/-! ### The read loop on its own -/

variable [UriParser]

/-- A step of the read loop, with the messages it has yet to read. -/
inductive LoopStep (cfg : Config) : Conn × List (Inbound Value) → Conn × List (Inbound Value) → Prop where
  | read {s t : Conn} {msg : Inbound Value} {rest : List (Inbound Value)} :
      Step cfg s (.read msg) t → LoopStep cfg (s, msg :: rest) (t, rest)
  | resume {s t : Conn} {unread : List (Inbound Value)} :
      Step cfg s .resume t → LoopStep cfg (s, unread) (t, unread)

/-- The read loop comes to abort task `i` by its own steps. -/
def Cancels (cfg : Config) (i : Nat) (s : Conn) (unread : List (Inbound Value)) : Prop :=
  Reaches (LoopStep cfg) (Aborted i) (s, unread)

theorem cancels_read {cfg : Config} {i : Nat} {s t : Conn} {msg : Inbound Value} {rest : List (Inbound Value)}
    (taken : s.read cfg msg = some t) (running : ¬Aborted i (s, msg :: rest)) :
    Cancels cfg i s (msg :: rest) ↔ Cancels cfg i t rest := by
  apply reaches_iff_of_only (.read taken) _ running
  rintro _ (other | other)
  · rw [step_functional _ _ _ _ other taken]
  · simp [Step, Conn.step, Conn.resume, Conn.read_ready taken] at other

theorem cancels_resume {cfg : Config} {i : Nat} {s t : Conn} {unread : List (Inbound Value)}
    (waits : s.reader ≠ .ready) (taken : s.resume = some t) (running : ¬Aborted i (s, unread)) :
    Cancels cfg i s unread ↔ Cancels cfg i t unread := by
  apply reaches_iff_of_only (.resume taken) _ running
  rintro _ (other | other)
  · exact absurd (Conn.read_ready other) waits
  · obtain rfl := Option.some.inj (taken.symm.trans other)
    rfl

theorem not_cancels_stuck {cfg : Config} {i : Nat} {s : Conn} {unread : List (Inbound Value)}
    (waits : s.reader ≠ .ready) (stuck : s.resume = none) (running : ¬Aborted i (s, unread)) :
    ¬Cancels cfg i s unread := by
  apply not_reaches_of_stuck _ running
  rintro _ (other | other)
  · exact waits (Conn.read_ready other)
  · cases stuck.symm.trans other

theorem cancels_dropStream (cfg : Config) {s : Conn} {st : StreamState} {task : Task}
    (held : s.stream = some st) (found : s.tasks[st.task]? = some task) (reader : Reader)
    (unread : List (Inbound Value)) : Cancels cfg st.task { s.dropStream with reader } unread := by
  refine .here ⟨{ task with aborted := true }, ?_, rfl⟩
  show s.dropStream.tasks[st.task]? = _
  rw [Conn.dropStream_getElem, found, held]
  simp

theorem cancels_dropping (cfg : Config) {s : Conn} {st : StreamState} {task : Task}
    (waits : s.reader = .dropping) (held : s.stream = some st) (found : s.tasks[st.task]? = some task)
    (unread : List (Inbound Value)) : Cancels cfg st.task s unread := by
  obtain ⟨t, path, aborted⟩ := cancels_dropStream cfg held found .ready unread
  refine ⟨t, .head (.resume ?_) path, aborted⟩
  simp [Step, Conn.step, Conn.resume, waits]

/-! ### Waiting for a channel -/

theorem cancels_resetting {cfg : Config} {i : Nat} {s : Conn} {unread : List (Inbound Value)} {reset : Frame}
    {json drop : Bool} {task : Task} {fed sent : Nat} (waits : s.reader = .resetting reset json drop)
    (running : ¬Aborted i (s, unread))
    (behind : s.resume = some (sentReset s reset json drop) →
      (Cancels cfg i (sentReset s reset json drop) unread ↔ Room (sentReset s reset json drop) task fed sent)) :
    Cancels cfg i s unread ↔ Room s task fed (1 + sent) := by
  have busy : s.reader ≠ .ready := by rw [waits]; nofun
  rw [← room_sentReset reset json drop]
  by_cases room : s.writer = true → s.outbound.length < s.written + outboundCapacity
  · have taken := resume_resetting waits room
    rw [cancels_resume busy taken running, behind taken]
    exact (and_iff_right room).symm
  · have stuck : s.resume = none := by
      obtain ⟨alive, full⟩ := Classical.not_imp.mp room
      simp [Conn.resume, waits, Conn.put, alive, full]
    exact iff_of_false (not_cancels_stuck busy stuck running) (fun both => room both.1)

theorem cancels_feeding {cfg : Config} {i : Nat} {s : Conn} {unread : List (Inbound Value)} {payload : Bytes}
    {task : Task} {more sent : Nat} (waits : s.reader = .feeding payload) (held : s.stream = some ⟨i, true⟩)
    (found : s.tasks[i]? = some task) (running : ¬Aborted i (s, unread))
    (behind : s.resume = some (fed s i task payload) →
      (Cancels cfg i (fed s i task payload) unread ↔ Room (fed s i task payload) (fedTask task payload) more sent)) :
    Cancels cfg i s unread ↔ Room s task (1 + more) sent := by
  have busy : s.reader ≠ .ready := by rw [waits]; nofun
  rw [← room_fed i payload]
  by_cases room : task.receiver = true → task.requests.length < requestCapacity
  · have taken := resume_feeding waits held found room
    rw [cancels_resume busy taken running, behind taken]
    exact (and_iff_right room).symm
  · have stuck : s.resume = none := by
      obtain ⟨receives, full⟩ := Classical.not_imp.mp room
      simp [Conn.resume, waits, held, found, receives, full]
    exact iff_of_false (not_cancels_stuck busy stuck running) (fun both => room both.1)

/-! ### Up to the cancel -/

/-- The message drops the stream when the read loop comes to it. -/
def Cancelling (cfg : Config) (json : Bool) (msg : Inbound Value) : Prop :=
  cue cfg json msg = .cancel ∨ cue cfg json msg = .leave

/-- A read loop that is ready gets to the cancel exactly if the channels take all that comes before. -/
theorem cancels_ready {cfg : Config} {unread : List (Inbound Value)} {s : Conn} {st : StreamState} {task : Task}
    (sound : s.Sound) (ready : s.reader = .ready) (held : s.stream = some st)
    (found : s.tasks[st.task]? = some task) (last : ∃ msg ∈ unread, Cancelling cfg task.json msg) :
    Cancels cfg st.task s unread ↔
      Room s task (feeds cfg task.json st.reqTx unread) (resets cfg task.json unread) := by
  induction unread generalizing s st task with
  | nil =>
    obtain ⟨_, member, _⟩ := last
    cases member
  | cons msg rest ih =>
    obtain ⟨opened, task', same, codec, _⟩ := sound.held st held
    obtain rfl := Option.some.inj (found.symm.trans same)
    have taken := Conn.read_open cfg ready codec opened held msg
    have after := sound.step (show Step cfg _ (.read msg) _ from taken)
    rw [cancels_read taken (running_of_held sound held _)]
    have later : cue cfg task.json msg ≠ .cancel → cue cfg task.json msg ≠ .leave →
        ∃ msg ∈ rest, Cancelling cfg task.json msg := by
      intro stays stays'
      obtain ⟨msg', member, cancels⟩ := last
      rcases List.mem_cons.mp member with rfl | member
      · exact absurd cancels (not_or.mpr ⟨stays, stays'⟩)
      · exact ⟨msg', member, cancels⟩
    cases seen : cue cfg task.json msg with
    | ignore =>
      rw [seen] at later
      simp only [feeds, resets, seen]
      exact ih sound ready held found (later nofun nofun)
    | duplicate =>
      rw [seen] at later after
      simp only [feeds, resets, seen]
      apply cancels_resetting (s := s.onCue task.json st .duplicate) rfl (running_of_held after held rest)
      intro resumed
      exact ih (after.step (show Step cfg _ .resume _ from resumed)) rfl held found (later nofun nofun)
    | feed payload =>
      rw [seen] at later after
      obtain ⟨i, reqTx⟩ := st
      cases reqTx with
      | false =>
        simp only [feeds, resets, seen, Bool.false_eq_true, ↓reduceIte, Nat.zero_add]
        exact ih sound ready held found (later nofun nofun)
      | true =>
        simp only [feeds, resets, seen, ↓reduceIte]
        apply cancels_feeding (s := s.onCue task.json ⟨i, true⟩ (.feed payload)) rfl held found
          (running_of_held after held rest)
        intro resumed
        rw [← fedTask_json task payload]
        refine ih (after.step (show Step cfg _ .resume _ from resumed)) rfl held ?_ ?_
        · exact List.getElem?_set_self (List.getElem?_eq_some_iff.mp found).1
        · rw [fedTask_json]
          exact later nofun nofun
    | oversized =>
      rw [seen] at after
      simp only [feeds, resets, seen]
      show _ ↔ Room s task 0 (1 + 0)
      apply cancels_resetting (s := s.onCue task.json st .oversized) rfl (running_of_held after held rest)
      intro _
      have dropped := cancels_dropping cfg (s := sentReset (s.onCue task.json st .oversized) sizeReset task.json true)
        rfl held found rest
      exact iff_of_true dropped (room_zero _ _)
    | halfClose =>
      rw [seen] at later after
      simp only [feeds, resets, seen]
      exact ih (s := s.onCue task.json st .halfClose) after ready rfl found (later nofun nofun)
    | cancel =>
      simp only [feeds, resets, seen]
      exact iff_of_true (cancels_dropStream cfg held found s.dropStream.reader rest) (room_zero _ _)
    | leave =>
      simp only [feeds, resets, seen]
      exact iff_of_true (cancels_dropStream cfg held found .ended rest) (room_zero _ _)

/-- On a connection with an open stream, whose unread messages end with a `Reset` or a `Close`, the
read loop gets to the abort of the task by its own steps exactly if the channels have room for what
it has to feed and to send before. -/
theorem cancels_iff (cfg : Config) {ls : List Label} {s : Conn} {st : StreamState} {task : Task}
    {unread : List (Inbound Value)} {last : Inbound Value} (run : Run cfg ls s) (held : s.stream = some st)
    (found : s.tasks[st.task]? = some task)
    (cancels : last = .close ∨ ∃ reset json, (s.decode cfg last).2 = some (⟨some (.reset reset)⟩, json)) :
    Cancels cfg st.task s (unread ++ [last]) ↔
      Room s task (feedsAt cfg task.json st.reqTx s.reader (unread ++ [last]))
        (resetsAt cfg task.json s.reader (unread ++ [last])) := by
  have sound := Run.sound run
  obtain ⟨opened, task', same, codec, _⟩ := sound.held st held
  obtain rfl := Option.some.inj (found.symm.trans same)
  have ends : ∃ msg ∈ unread ++ [last], Cancelling cfg task.json msg := by
    refine ⟨last, by simp, ?_⟩
    rcases cancels with rfl | ⟨reset, json, decoded⟩
    · exact .inr rfl
    · rw [Conn.decode_locked cfg codec opened] at decoded
      obtain ⟨_, framed, ⟨⟩⟩ := Option.map_eq_some_iff.mp decoded
      refine .inl ?_
      cases last with
      | close => cases framed
      | control => cases framed
      | binary data | text data => simp [cue, framed, kindCue]
  have running := running_of_held sound held (unread ++ [last])
  cases waits : s.reader with
  | ready => exact cancels_ready sound waits held found ends
  | feeding payload =>
    obtain ⟨i, owner⟩ := sound.feeding_stream waits
    obtain rfl := Option.some.inj (held.symm.trans owner)
    apply cancels_feeding waits held found running
    intro resumed
    rw [← fedTask_json task payload] at ends ⊢
    refine cancels_ready (sound.step (show Step cfg _ .resume _ from resumed)) rfl held ?_ ends
    exact List.getElem?_set_self (List.getElem?_eq_some_iff.mp found).1
  | resetting reset json drop =>
    cases drop with
    | true =>
      apply cancels_resetting waits running
      intro _
      have dropped := cancels_dropping cfg (s := sentReset s reset json true) rfl held found (unread ++ [last])
      exact iff_of_true dropped (room_zero _ _)
    | false =>
      apply cancels_resetting waits running
      intro resumed
      exact cancels_ready (sound.step (show Step cfg _ .resume _ from resumed)) rfl held found ends
  | dropping => exact iff_of_true (cancels_dropping cfg waits held found _) (room_zero _ _)
  | ended =>
    have fits := sound.fits
    rw [waits] at fits
    cases held.symm.trans fits

end

attribute [local instance] flagSchema flagTexts slashUris

def messageFrame : Inbound SerdeJson.Value := .binary (some ⟨some (.message ⟨[7]⟩)⟩)

def cancelFrame : Inbound SerdeJson.Value := .binary (some ⟨some (.reset ⟨1, ""⟩)⟩)

def filled (n : Nat) : Conn :=
  let task : Task := { openTask plainRoute ⟨"/flag.Flags/Set", [], 0, [], false⟩ false with
    pc := .calling
    called := true
    requests := List.replicate n [7] }
  { Conn.initial plainRoute with
    opened := true
    stream := some ⟨0, true⟩
    tasks := [task]
    calls := [task.dispatch] }

def fillRun : Nat → List Label
  | 0 => [.read (.binary (some subscribeFrame)), .task 0 .begin]
  | n + 1 => fillRun n ++ [.read messageFrame, .resume]

theorem filled_reached {n : Nat} (fits : n ≤ requestCapacity) : Run plainRoute (fillRun n) (filled n) := by
  induction n with
  | zero => exact .cons rfl (.cons rfl (.nil _))
  | succ n ih =>
    have before := ih (Nat.le_of_succ_le fits)
    have fed : Step plainRoute { filled n with reader := .feeding [7] } .resume (filled (n + 1)) := by
      have room : n < requestCapacity := fits
      simp [Step, Conn.step, Conn.resume, filled, openTask, room, List.replicate_succ', Task.dispatch, Conn.initial]
    exact before.append (.cons rfl (.single fed))

theorem cancels_iff_empty :
    Cancels plainRoute 0 (filled 0) ([messageFrame] ++ [cancelFrame]) ↔
      Room (filled 0) ((filled 0).tasks[0]) (feedsAt plainRoute false true .ready ([messageFrame] ++ [cancelFrame]))
        (resetsAt plainRoute false .ready ([messageFrame] ++ [cancelFrame])) :=
  cancels_iff plainRoute (filled_reached (Nat.zero_le _)) rfl rfl (.inr ⟨⟨1, ""⟩, false, rfl⟩)

def blocked : Conn := { filled 16 with reader := .feeding [7] }

def blockedRun : List Label := fillRun 16 ++ [.read messageFrame]

theorem blocked_reached : Run plainRoute blockedRun blocked :=
  (filled_reached (Nat.le_refl 16)).append (.single rfl)

/-- While the backend does not read, the `Reset` behind the payload is never read either. -/
theorem reset_stuck :
    Run plainRoute blockedRun blocked ∧ blocked.stream = some ⟨0, true⟩ ∧
      (blocked.decode plainRoute cancelFrame).2 = some (⟨some (.reset ⟨1, ""⟩)⟩, false) ∧
      ¬Cancels plainRoute 0 blocked [cancelFrame] := by
  refine ⟨blocked_reached, rfl, rfl, ?_⟩
  exact not_cancels_stuck nofun rfl (running_of_held (Run.sound blocked_reached) rfl _)

end Backpressure
end Ws
end GrpcWebnext
