import GrpcWebnext.Ws.Connection

/-!
# The request channel

What each step of a connection does to the request side of its streams: which messages the read
loop puts into the channel of the open stream, what the backend takes out of it, and who holds the
sender.
-/

namespace GrpcWebnext
namespace Ws
open Metadata SerdeJson

section

variable [ProstReflect]

/-! ### A step of a task -/

/-- The call of the task is dispatched: the backend gets the request body. -/
def TaskEvent.Dispatches (cfg : Config) (t : Task) : TaskEvent → Prop
  | .begin => True
  | .resolve current => ∃ tc, Schema.transcoder cfg.schema current t.methodPath = .ok tc
  | _ => False

/-- What a step of a task does to its side of the request channel; `sender` tells whether the read
loop still holds the other side. -/
structure Task.Advances (cfg : Config) (sender : Bool) (event : TaskEvent) (t t' : Task) : Prop where
  json : t'.json = t.json
  aborted : t'.aborted = t.aborted
  transcoder : t.json = false → t'.transcoder = t.transcoder
  receiver : t'.receiver = true → t.receiver = true
  dispatched : event.Dispatches cfg t → t'.called = true ∧ t'.receiver = t.receiver
  called : ¬event.Dispatches cfg t → t'.called = t.called
  body : t'.requests = t.requests ∧ t'.delivered = t.delivered ∧ t'.bodyEnded = t.bodyEnded ∨
    (∃ payload, t.receiver = true ∧ t.requests = payload :: t'.requests ∧
      t'.delivered = t.delivered ++ [requestFrame cfg.params.ann t.transcoder t.methodPath payload] ∧
      t'.bodyEnded = t.bodyEnded) ∨
    t.receiver = true ∧ t.called = true ∧ t.requests = [] ∧ sender = false ∧ t' = { t with bodyEnded := true }

theorem Task.Advanced.advances {cfg : Config} {t t' : Task} {sender : Bool} {event : TaskEvent}
    {call : Option Dispatch} (advanced : t.Advanced cfg sender event t' call) :
    t.Advances cfg sender event t' := by
  cases advanced with
  | begun =>
    exact ⟨rfl, rfl, fun _ => rfl, id, fun _ => ⟨rfl, rfl⟩, fun held => absurd trivial held, .inl ⟨rfl, rfl, rfl⟩⟩
  | resolved json _ known =>
    have dispatches : (TaskEvent.resolve _).Dispatches cfg t := ⟨_, known⟩
    exact ⟨rfl, rfl, fun binary => absurd json (by simp [binary]), id, fun _ => ⟨rfl, rfl⟩,
      fun held => absurd dispatches held, .inl ⟨rfl, rfl, rfl⟩⟩
  | refused _ _ unknown =>
    refine ⟨rfl, rfl, fun _ => rfl, id, ?_, fun _ => rfl, .inl ⟨rfl, rfl, rfl⟩⟩
    rintro ⟨tc, known⟩
    cases unknown.symm.trans known
  | answered | failed | pumped | expired =>
    exact ⟨rfl, rfl, fun _ => rfl, id, nofun, fun _ => rfl, .inl ⟨rfl, rfl, rfl⟩⟩
  | killed =>
    exact ⟨rfl, rfl, fun _ => rfl, fun held => (Bool.and_eq_true_iff.mp held).1, nofun, fun _ => rfl,
      .inl ⟨rfl, rfl, rfl⟩⟩
  | delivered queue receiver _ =>
    exact ⟨rfl, rfl, fun _ => rfl, id, nofun, fun _ => rfl, .inr (.inl ⟨_, receiver, queue, rfl, rfl⟩)⟩
  | bodyEnded receiver called empty released =>
    exact ⟨rfl, rfl, fun _ => rfl, id, nofun, fun _ => rfl, .inr (.inr ⟨receiver, called, empty, released, rfl⟩)⟩
  | bodyDropped => exact ⟨rfl, rfl, fun _ => rfl, nofun, nofun, fun _ => rfl, .inl ⟨rfl, rfl, rfl⟩⟩

theorem Task.moveTo_advances (cfg : Config) (t : Task) (sender : Bool) (pc : Pc) :
    t.Advances cfg sender .send (t.moveTo pc) := by
  cases pc with
  | done =>
    exact ⟨rfl, rfl, fun _ => rfl, fun held => (Bool.and_eq_true_iff.mp held).1, nofun, fun _ => rfl,
      .inl ⟨rfl, rfl, rfl⟩⟩
  | _ => exact ⟨rfl, rfl, fun _ => rfl, id, nofun, fun _ => rfl, .inl ⟨rfl, rfl, rfl⟩⟩

variable [SerdeJson]

/-! ### An inbound message on an open stream -/

/-- The frame of a message on a connection whose codec is locked and whose stream was opened. -/
def frameOf (cfg : Config) (json : Bool) : Inbound Value → Option Frame
  | .binary data => if json then none else (decodeBinary data cfg.methodUrl true).1
  | .text text => if json then (decodeText text cfg.methodUrl true).1 else none
  | .close => none
  | .control => none

theorem Conn.decode_locked (cfg : Config) {s : Conn} {json : Bool} (codec : s.codec = some json)
    (opened : s.opened = true) (msg : Inbound Value) :
    s.decode cfg msg = (s, (frameOf cfg json msg).map (·, json)) := by
  obtain ⟨_, _⟩ := s
  subst codec opened
  cases msg with
  | binary data => cases json <;> simp [Conn.decode, frameOf, decodeBinary_opened]
  | text text => cases json <;> simp [Conn.decode, frameOf, decodeText_opened]
  | close => rfl
  | control => rfl

theorem Conn.decode_codec {cfg : Config} {s : Conn} {msg : Inbound Value} {frame : Frame} {json : Bool}
    (decoded : (s.decode cfg msg).2 = some (frame, json)) : (s.decode cfg msg).1.codec = some json := by
  have passes := s.decode_some decoded
  generalize (s.decode cfg msg).1 = t at passes ⊢
  cases passes with
  | binary => rfl
  | text => rfl

/-- What the read loop makes of a message while a stream is open. -/
inductive Cue where
  | ignore
  | duplicate
  | feed (payload : Bytes)
  | oversized
  | halfClose
  | cancel
  | leave

def kindCue (cfg : Config) : Option Kind → Cue
  | some (.subscribe _) => .duplicate
  | some (.message m) => if m.payload.length > cfg.maxMessageBytes then .oversized else .feed m.payload
  | some .halfClose => .halfClose
  | some (.reset _) => .cancel
  | _ => .ignore

def cue (cfg : Config) (json : Bool) (msg : Inbound Value) : Cue :=
  match msg with
  | .close => .leave
  | msg => kindCue cfg ((frameOf cfg json msg).bind Frame.kind)

theorem cue_origin (cfg : Config) (json : Bool) (msg : Inbound Value) :
    match cue cfg json msg with
    | .halfClose => frameOf cfg json msg = some ⟨some .halfClose⟩
    | .cancel => ∃ r, frameOf cfg json msg = some ⟨some (.reset r)⟩
    | .leave => msg = .close
    | _ => True := by
  cases msg with
  | close => rfl
  | control => trivial
  | binary data | text data =>
    simp only [cue]
    rcases frameOf cfg json _ with _ | ⟨_ | kind⟩
    · trivial
    · trivial
    · cases kind with
      | message m => by_cases large : m.payload.length > cfg.maxMessageBytes <;> simp [kindCue, large]
      | reset r => exact ⟨r, rfl⟩
      | _ => trivial

def Conn.onCue (s : Conn) (json : Bool) (st : StreamState) : Cue → Conn
  | .ignore => s
  | .duplicate => { s with reader := .resetting (resetFrame .invalidArgument "stream already open") json false }
  | .feed payload => if st.reqTx then { s with reader := .feeding payload } else s
  | .oversized => { s with reader := .resetting sizeReset json true }
  | .halfClose => { s with stream := some { st with reqTx := false } }
  | .cancel => s.dropStream
  | .leave => s.leave

def Conn.sender (s : Conn) (i : Nat) : Bool := s.stream.any fun st => st.task = i && st.reqTx

theorem Conn.stepTask_advances {cfg : Config} {s t : Conn} {i : Nat} {event : TaskEvent}
    (taken : s.stepTask cfg i event = some t) :
    ∃ task task', s.tasks[i]? = some task ∧ task.Advances cfg (s.sender i) event task' ∧
      t.tasks = s.tasks.set i task' ∧ t.stream = s.stream ∧ t.reader = s.reader ∧
      t.codec = s.codec ∧ t.opened = s.opened := by
  obtain ⟨task, found, ⟨msg, next, rfl, waits, rfl⟩ | ⟨task', call, advanced, rfl⟩⟩ := Conn.stepTask_inv taken
  · exact ⟨task, _, found, task.moveTo_advances cfg _ _, rfl, rfl, rfl, rfl, rfl⟩
  · exact ⟨task, task', found, advanced.advances, rfl, rfl, rfl, rfl, rfl⟩

theorem Conn.dropStream_stream (s : Conn) : s.dropStream.stream = none := by
  unfold Conn.dropStream
  cases held : s.stream with
  | none => exact held
  | some st => rfl

theorem Conn.dropStream_length (s : Conn) : s.dropStream.tasks.length = s.tasks.length := by
  unfold Conn.dropStream
  split
  · simp
  · rfl

theorem Conn.dropStream_locked (s : Conn) : s.dropStream.codec = s.codec ∧ s.dropStream.opened = s.opened := by
  unfold Conn.dropStream
  split <;> exact ⟨rfl, rfl⟩

theorem Conn.dropStream_getElem (s : Conn) (i : Nat) :
    s.dropStream.tasks[i]? = (s.tasks[i]?).map fun task =>
      if s.stream.any (fun st => st.task = i) then { task with aborted := true } else task := by
  unfold Conn.dropStream
  cases s.stream with
  | none => cases s.tasks[i]? <;> rfl
  | some st =>
    rw [List.getElem?_modify]
    by_cases here : st.task = i <;> cases s.tasks[i]? <;> simp [here]

def openTask (cfg : Config) (sub : Subscribe) (json : Bool) : Task :=
  let first := if sub.initialPayload.isEmpty then [] else [sub.initialPayload]
  { pathAndQuery := sub.method
    headers := metadataVecToMetadata sub.headers
    timeout := grpcTimeoutFromMillis sub.timeoutMillis
    json
    requests := if cfg.params.ann.any fun ann => !ann.hasBody then first ++ [[]] else first }

theorem Conn.openStream_tasks (cfg : Config) (s : Conn) (sub : Subscribe) (json : Bool) :
    (s.openStream cfg sub json).tasks = s.tasks ++ [openTask cfg sub json] := rfl

/-! ### What a step does to the stream -/

/-- `l` is a `HalfClose` for the stream of task `i`. -/
def HalfCloses (cfg : Config) (i : Nat) (s : Conn) (l : Label) : Prop :=
  ∃ msg json st, l = .read msg ∧ (s.decode cfg msg).2 = some (⟨some .halfClose⟩, json) ∧
    s.stream = some st ∧ st.task = i

/-- The read loop drops the stream, and with it the sender. -/
def Drops (cfg : Config) (s : Conn) : Label → Prop
  | .read msg => msg = .close ∨ ∃ reset json, (s.decode cfg msg).2 = some (⟨some (.reset reset)⟩, json)
  | .resume => s.reader = .dropping
  | .leave => True
  | _ => False

/-- What a step does to the stream and its request channel. -/
inductive Turn (cfg : Config) (s : Conn) : Label → Conn → Prop where
  | quiet {l : Label} {t : Conn} : t.tasks = s.tasks → t.stream = s.stream → Turn cfg s l t
  | opened {msg : Inbound Value} {sub : Subscribe} {json : Bool} {t : Conn} :
      s.stream = none → (s.decode cfg msg).2 = some (⟨some (.subscribe sub)⟩, json) →
      t = (s.decode cfg msg).1.openStream cfg sub json → Turn cfg s (.read msg) t
  | fed {st : StreamState} {task : Task} {payload : Bytes} {t : Conn} :
      s.reader = .feeding payload → s.stream = some st → s.tasks[st.task]? = some task → task.receiver = true →
      t.tasks = s.tasks.set st.task { task with requests := task.requests ++ [payload] } →
      t.stream = s.stream → Turn cfg s .resume t
  | released {l : Label} {st : StreamState} {t : Conn} :
      s.stream = some st → HalfCloses cfg st.task s l → t.tasks = s.tasks →
      t.stream = some { st with reqTx := false } → Turn cfg s l t
  | dropped {l : Label} {t : Conn} :
      Drops cfg s l → t.tasks = s.dropStream.tasks → t.stream = none → Turn cfg s l t
  | advanced {i : Nat} {event : TaskEvent} {task task' : Task} {t : Conn} :
      s.tasks[i]? = some task → task.Advances cfg (s.sender i) event task' → t.tasks = s.tasks.set i task' →
      t.stream = s.stream → Turn cfg s (.task i event) t

theorem Conn.resume_turn {cfg : Config} {s t : Conn} (taken : s.resume = some t) :
    Turn cfg s .resume t := by
  cases Conn.resume_some taken with
  | discarded => exact .quiet rfl rfl
  | fed waits held found receives => exact .fed waits held found receives rfl rfl
  | reset _ put =>
    obtain rfl := Conn.put_eq put
    exact .quiet rfl rfl
  | dropped waits => exact .dropped waits rfl s.dropStream_stream

/-- The read loop feeds the sender of the stream, and ends without a stream. -/
def Reader.Fits (stream : Option StreamState) : Reader → Prop
  | .feeding _ => ∃ i, stream = some ⟨i, true⟩
  | .ended => stream = none
  | _ => True

/-- The open stream belongs to a running task, and the codec is locked. -/
structure Conn.Sound (s : Conn) : Prop where
  held : ∀ st, s.stream = some st → s.opened = true ∧
    ∃ task, s.tasks[st.task]? = some task ∧ s.codec = some task.json ∧ task.aborted = false
  fits : s.reader.Fits s.stream

theorem Conn.Sound.sender_stopped {s : Conn} {i : Nat} {task : Task} (sound : s.Sound)
    (found : s.tasks[i]? = some task) (stopped : task.aborted = true) : s.sender i = false := by
  unfold Conn.sender
  cases held : s.stream with
  | none => rfl
  | some st =>
    obtain ⟨_, task', same, _, running⟩ := sound.held st held
    by_cases own : st.task = i
    · subst own
      obtain rfl := Option.some.inj (found.symm.trans same)
      exact absurd stopped (by simp [running])
    · simp [own]

theorem Conn.Sound.feeding_stream {s : Conn} {payload : Bytes} (sound : s.Sound)
    (waits : s.reader = .feeding payload) : ∃ i, s.stream = some ⟨i, true⟩ := by
  have fits := sound.fits
  rwa [waits] at fits

theorem Conn.Sound.initial (cfg : Config) : (Conn.initial cfg).Sound where
  held _ held := nomatch held
  fits := trivial

variable [UriParser]

theorem Conn.handleFrame_open {cfg : Config} {s : Conn} {st : StreamState} (held : s.stream = some st)
    (frame : Frame) (json : Bool) :
    s.handleFrame cfg frame json = s.onCue json st (kindCue cfg frame.kind) := by
  obtain ⟨kind⟩ := frame
  obtain ⟨i, reqTx⟩ := st
  match kind with
  | some (.subscribe sub) => simp [Conn.handleFrame, Conn.rejection, held, kindCue, Conn.onCue]
  | some (.message m) =>
    by_cases large : m.payload.length > cfg.maxMessageBytes
    · simp [Conn.handleFrame, Conn.rejection, large, kindCue, Conn.onCue]
    · cases reqTx <;> simp [Conn.handleFrame, Conn.rejection, large, held, kindCue, Conn.onCue]
  | some .halfClose => simp [Conn.handleFrame, Conn.rejection, held, kindCue, Conn.onCue]
  | some (.reset r) => simp [Conn.handleFrame, Conn.rejection, kindCue, Conn.onCue]
  | some (.header h) => simp [Conn.handleFrame, Conn.rejection, kindCue, Conn.onCue]
  | some (.trailer t) => simp [Conn.handleFrame, Conn.rejection, kindCue, Conn.onCue]
  | none => simp [Conn.handleFrame, Conn.rejection, kindCue, Conn.onCue]

theorem Conn.read_open (cfg : Config) {s : Conn} {json : Bool} {st : StreamState} (ready : s.reader = .ready)
    (codec : s.codec = some json) (opened : s.opened = true) (held : s.stream = some st) (msg : Inbound Value) :
    s.read cfg msg = some (s.onCue json st (cue cfg json msg)) := by
  have decoded := Conn.decode_locked cfg codec opened msg
  cases msg with
  | close => simp [Conn.read, ready, cue, Conn.onCue]
  | control => simp [Conn.read, ready, decoded, frameOf, cue, kindCue, Conn.onCue]
  | binary data | text data =>
    simp only [Conn.read, ready, decoded, cue]
    cases framed : frameOf cfg json _ with
    | none => simp [kindCue, Conn.onCue]
    | some frame => simp [s.handleFrame_open held frame json]

theorem Conn.read_idle {cfg : Config} {s t : Conn} {msg : Inbound Value} (idle : s.stream = none)
    (taken : s.read cfg msg = some t) :
    s.reader = .ready ∧
      (t.tasks = s.tasks ∧ t.stream = none ∨
        ∃ sub json, (s.decode cfg msg).2 = some (⟨some (.subscribe sub)⟩, json) ∧
          s.rejection cfg ⟨some (.subscribe sub)⟩ = none ∧
          t = (s.decode cfg msg).1.openStream cfg sub json) := by
  obtain ⟨ready, reads⟩ := Conn.read_some taken
  refine ⟨ready, ?_⟩
  obtain ⟨codec, opened, eq, _⟩ := s.decode_eq cfg msg
  cases reads with
  | left =>
    left
    simp [Conn.leave, Conn.dropStream, idle]
  | skipped =>
    left
    simp [eq, idle]
  | @handled _ frame json decoded =>
    unfold Conn.handleFrame
    rw [s.rejection_decode cfg]
    split
    · left
      simp [eq, idle]
    · rename_i accepted
      split
      · rename_i sub kind
        right
        have whole : frame = ⟨some (.subscribe sub)⟩ := by rw [← kind]
        exact ⟨sub, json, whole ▸ decoded, whole ▸ accepted, rfl⟩
      all_goals
        left
        simp [eq, idle, Conn.dropStream]

theorem Conn.read_ready {cfg : Config} {s t : Conn} {msg : Inbound Value} (taken : s.read cfg msg = some t) :
    s.reader = .ready := (Conn.read_some taken).1

theorem Conn.Sound.read_frame {cfg : Config} {s t : Conn} {msg : Inbound Value} {st : StreamState} {frame : Frame}
    {json : Bool} (sound : s.Sound) (held : s.stream = some st) (taken : s.read cfg msg = some t)
    (decoded : (s.decode cfg msg).2 = some (frame, json)) : t = s.onCue json st (kindCue cfg frame.kind) := by
  obtain ⟨opened, task, _, codec, _⟩ := sound.held st held
  have next := Conn.read_open cfg (Conn.read_ready taken) codec opened held msg
  rw [Conn.decode_locked cfg codec opened] at decoded
  obtain ⟨_, framed, ⟨⟩⟩ := Option.map_eq_some_iff.mp decoded
  have seen : cue cfg task.json msg = kindCue cfg frame.kind := by
    cases msg with
    | close => cases framed
    | control => cases framed
    | binary data | text data => simp [cue, framed]
  rw [seen] at next
  exact (Option.some.inj (next.symm.trans taken)).symm

theorem Conn.Sound.read_turn {cfg : Config} {s t : Conn} {msg : Inbound Value} (sound : s.Sound)
    (taken : s.read cfg msg = some t) : Turn cfg s (.read msg) t := by
  cases held : s.stream with
  | none =>
    obtain ⟨_, ⟨tasks, stream⟩ | ⟨sub, json, decoded, _, opens⟩⟩ := Conn.read_idle held taken
    · exact .quiet tasks (stream.trans held.symm)
    · exact .opened held decoded opens
  | some st =>
    obtain ⟨opened, task, found, codec, _⟩ := sound.held st held
    have next := Conn.read_open cfg (Conn.read_ready taken) codec opened held msg
    obtain rfl := Option.some.inj (next.symm.trans taken)
    have decoded := Conn.decode_locked cfg codec opened msg
    have origin := cue_origin cfg task.json msg
    cases seen : cue cfg task.json msg with
    | ignore => exact .quiet rfl rfl
    | duplicate => exact .quiet rfl rfl
    | oversized => exact .quiet rfl rfl
    | feed payload =>
      simp only [Conn.onCue]
      split
      · exact .quiet rfl rfl
      · exact .quiet rfl rfl
    | halfClose =>
      rw [seen] at origin
      exact .released held ⟨msg, task.json, st, rfl, by rw [decoded, origin]; rfl, held, rfl⟩ rfl rfl
    | cancel =>
      rw [seen] at origin
      obtain ⟨reset, frame⟩ := origin
      exact .dropped (.inr ⟨reset, task.json, by rw [decoded, frame]; rfl⟩) rfl s.dropStream_stream
    | leave =>
      rw [seen] at origin
      exact .dropped (.inl origin) rfl s.dropStream_stream

theorem Conn.Sound.step_turn {cfg : Config} {s t : Conn} {l : Label} (sound : s.Sound)
    (taken : Step cfg s l t) : Turn cfg s l t := by
  cases l with
  | read msg => exact sound.read_turn taken
  | resume => exact Conn.resume_turn taken
  | leave =>
    obtain ⟨_, ⟨⟩⟩ := Option.ite_none_right_eq_some.mp taken
    exact .dropped trivial rfl s.dropStream_stream
  | task i event =>
    obtain ⟨task, task', found, advances, tasks, stream, _⟩ := Conn.stepTask_advances taken
    exact .advanced found advances tasks stream
  | write =>
    obtain ⟨_, ⟨⟩⟩ := Option.ite_none_right_eq_some.mp taken
    exact .quiet rfl rfl
  | writerDied =>
    cases taken
    exact .quiet rfl rfl

/-- The read loop feeds a task and aborts it. -/
def Task.Kept (t t' : Task) : Prop := ∃ requests aborted, t' = { t with requests, aborted }

theorem Conn.Sound.step_tasks {cfg : Config} {s t : Conn} {l : Label} (sound : s.Sound) (taken : Step cfg s l t)
    (other : ∀ i event, l ≠ .task i event) :
    s.tasks.length ≤ t.tasks.length ∧ ∀ (i : Nat) (task' : Task), t.tasks[i]? = some task' →
      (∃ task, s.tasks[i]? = some task ∧ task.Kept task') ∨
        i = s.tasks.length ∧ ∃ msg sub json, l = .read msg ∧
          (s.decode cfg msg).2 = some (⟨some (.subscribe sub)⟩, json) ∧ task' = openTask cfg sub json := by
  cases sound.step_turn taken with
  | quiet tasks | released _ _ tasks =>
    rw [tasks]
    exact ⟨Nat.le_refl _, fun i task' found => .inl ⟨task', found, _, _, rfl⟩⟩
  | opened idle decoded opens =>
    rename_i msg sub json
    obtain ⟨_, _, same, _⟩ := s.decode_eq cfg msg
    have tasks : t.tasks = s.tasks ++ [openTask cfg sub json] := by rw [opens, Conn.openStream_tasks, same]
    refine ⟨by simp [tasks], ?_⟩
    intro i task' found
    rw [tasks, List.getElem?_append] at found
    split at found
    · exact .inl ⟨task', found, _, _, rfl⟩
    · obtain ⟨last, rfl⟩ := List.getElem?_eq_some_iff.mp found
      rw [List.length_singleton] at last
      exact .inr ⟨by omega, msg, sub, json, rfl, decoded, List.getElem_singleton last⟩
  | fed waits held found receives tasks =>
    refine ⟨by simp [tasks], ?_⟩
    intro i task' after
    rw [tasks] at after
    rcases found_set after with ⟨rfl, rfl⟩ | still
    · exact .inl ⟨_, found, _, _, rfl⟩
    · exact .inl ⟨task', still, _, _, rfl⟩
  | dropped drops tasks =>
    refine ⟨by simp [tasks, s.dropStream_length], ?_⟩
    intro i task' after
    rw [tasks, s.dropStream_getElem] at after
    obtain ⟨task, here, rfl⟩ := Option.map_eq_some_iff.mp after
    left
    refine ⟨task, here, ?_⟩
    split
    · exact ⟨_, _, rfl⟩
    · exact ⟨_, _, rfl⟩
  | advanced found advances tasks => exact absurd rfl (other _ _)

/-- Only the decoder of an inbound message touches the codec lock and the `opened` flag. -/
def Conn.locks (cfg : Config) (s : Conn) : Label → Conn
  | .read msg => (s.decode cfg msg).1
  | _ => s

theorem Conn.handleFrame_locked (cfg : Config) (s : Conn) (frame : Frame) (json : Bool) :
    (s.handleFrame cfg frame json).codec = s.codec ∧ (s.handleFrame cfg frame json).opened = s.opened := by
  unfold Conn.handleFrame
  split
  · exact ⟨rfl, rfl⟩
  · split
    · exact ⟨rfl, rfl⟩
    · split <;> exact ⟨rfl, rfl⟩
    · exact ⟨rfl, rfl⟩
    · exact s.dropStream_locked
    · exact ⟨rfl, rfl⟩

theorem Conn.step_locked {cfg : Config} {s t : Conn} {l : Label} (taken : Step cfg s l t) :
    t.codec = (s.locks cfg l).codec ∧ t.opened = (s.locks cfg l).opened := by
  cases l with
  | read msg =>
    simp only [Step, Conn.step, Conn.read] at taken
    split at taken
    case h_1 => cases taken; exact s.dropStream_locked
    case h_2 =>
      cases taken
      split
      · exact Conn.handleFrame_locked cfg _ _ _
      · exact ⟨rfl, rfl⟩
    case h_3 => cases taken
  | resume =>
    simp only [Step, Conn.step, Conn.resume] at taken
    split at taken
    case h_1 =>
      split at taken
      · split at taken
        · cases taken; exact ⟨rfl, rfl⟩
        · obtain ⟨_, ⟨⟩⟩ := Option.ite_none_right_eq_some.mp taken
          exact ⟨rfl, rfl⟩
      · cases taken; exact ⟨rfl, rfl⟩
    case h_2 =>
      obtain ⟨s', put, rfl⟩ := Option.map_eq_some_iff.mp taken
      obtain rfl := Conn.put_eq put
      exact ⟨rfl, rfl⟩
    case h_3 => cases taken; exact s.dropStream_locked
    case h_4 => cases taken
  | leave =>
    obtain ⟨_, ⟨⟩⟩ := Option.ite_none_right_eq_some.mp taken
    exact s.dropStream_locked
  | task i event =>
    obtain ⟨_, _, _, _, _, _, _, codec, opened⟩ := Conn.stepTask_advances taken
    exact ⟨codec, opened⟩
  | write =>
    obtain ⟨_, ⟨⟩⟩ := Option.ite_none_right_eq_some.mp taken
    exact ⟨rfl, rfl⟩
  | writerDied => cases taken; exact ⟨rfl, rfl⟩

theorem Conn.Sound.locked {cfg : Config} {s t : Conn} {l : Label} {st : StreamState} (sound : s.Sound)
    (held : s.stream = some st) (taken : Step cfg s l t) : t.codec = s.codec ∧ t.opened = s.opened := by
  obtain ⟨opened, task, _, codec, _⟩ := sound.held st held
  have after := Conn.step_locked taken
  cases l with
  | read msg =>
    rw [Conn.locks, Conn.decode_locked cfg codec opened msg] at after
    exact after
  | _ => exact after

theorem Conn.handleFrame_fits {cfg : Config} {s : Conn} (frame : Frame) (json : Bool)
    (ready : s.reader = .ready) :
    (s.handleFrame cfg frame json).reader.Fits (s.handleFrame cfg frame json).stream := by
  unfold Conn.handleFrame
  split
  · trivial
  · split
    · simp [Conn.openStream, ready, Reader.Fits]
    · split
      · rename_i i held
        exact ⟨i, held⟩
      · simp [ready, Reader.Fits]
    · simp [ready, Reader.Fits]
    · simp [s.dropStream_reader, ready, Reader.Fits]
    · simp [ready, Reader.Fits]

theorem Conn.step_fits {cfg : Config} {s t : Conn} {l : Label} (fits : s.reader.Fits s.stream)
    (taken : Step cfg s l t) : t.reader.Fits t.stream := by
  cases l with
  | read msg =>
    have ready := Conn.read_ready taken
    simp only [Step, Conn.step, Conn.read] at taken
    split at taken
    case h_1 => cases taken; exact s.dropStream_stream
    case h_2 msg _ _ _ _ =>
      cases taken
      obtain ⟨_, _, eq, _⟩ := s.decode_eq cfg msg
      have here : (s.decode cfg msg).1.reader = .ready := by rw [eq]; exact ready
      split
      · exact Conn.handleFrame_fits _ _ here
      · rw [here]; trivial
    case h_3 => cases taken
  | resume =>
    simp only [Step, Conn.step, Conn.resume] at taken
    split at taken
    case h_1 =>
      split at taken
      · split at taken
        · cases taken; trivial
        · obtain ⟨_, ⟨⟩⟩ := Option.ite_none_right_eq_some.mp taken
          trivial
      · cases taken; trivial
    case h_2 =>
      obtain ⟨s', put, rfl⟩ := Option.map_eq_some_iff.mp taken
      dsimp only
      split <;> trivial
    case h_3 => cases taken; trivial
    case h_4 => cases taken
  | leave =>
    obtain ⟨_, ⟨⟩⟩ := Option.ite_none_right_eq_some.mp taken
    exact s.dropStream_stream
  | task i event =>
    obtain ⟨_, _, _, _, _, stream, reader, _⟩ := Conn.stepTask_advances taken
    rw [stream, reader]
    exact fits
  | write =>
    obtain ⟨_, ⟨⟩⟩ := Option.ite_none_right_eq_some.mp taken
    exact fits
  | writerDied => cases taken; exact fits

theorem Conn.Sound.step {cfg : Config} {s t : Conn} {l : Label} (sound : s.Sound) (taken : Step cfg s l t) :
    t.Sound where
  held st after := by
    cases sound.step_turn taken with
    | quiet tasks stream =>
      have held := stream.symm.trans after
      obtain ⟨codec, opened⟩ := sound.locked held taken
      rw [codec, opened, tasks]
      exact sound.held st held
    | opened idle decoded opens =>
      rename_i msg sub json
      subst opens
      obtain rfl := Option.some.inj after
      refine ⟨(Conn.decode_subscribe decoded).2.1, openTask cfg sub json, ?_, Conn.decode_codec decoded, rfl⟩
      rw [Conn.openStream_tasks, List.getElem?_concat_length]
    | fed _ held found receives tasks stream =>
      obtain rfl := Option.some.inj (held.symm.trans (stream.symm.trans after))
      obtain ⟨codec, opened⟩ := sound.locked held taken
      obtain ⟨before, task, here, locked, running⟩ := sound.held _ held
      obtain rfl := Option.some.inj (found.symm.trans here)
      have within := (List.getElem?_eq_some_iff.mp found).1
      rw [codec, opened, tasks]
      exact ⟨before, _, List.getElem?_set_self within, locked, running⟩
    | released held _ tasks stream =>
      obtain rfl := Option.some.inj (stream.symm.trans after)
      obtain ⟨codec, opened⟩ := sound.locked held taken
      have before := sound.held _ held
      rw [← codec, ← opened, ← tasks] at before
      exact before
    | dropped _ _ stream => cases stream.symm.trans after
    | advanced found advances tasks stream =>
      rename_i i _ task task'
      have held := stream.symm.trans after
      obtain ⟨codec, opened⟩ := sound.locked held taken
      obtain ⟨before, task₀, here, locked, running⟩ := sound.held _ held
      rw [codec, opened, tasks]
      by_cases same : i = st.task
      · subst same
        obtain rfl := Option.some.inj (found.symm.trans here)
        have within := (List.getElem?_eq_some_iff.mp found).1
        exact ⟨before, _, List.getElem?_set_self within, advances.json ▸ locked, advances.aborted ▸ running⟩
      · exact ⟨before, task₀, by rw [List.getElem?_set_ne same]; exact here, locked, running⟩
  fits := Conn.step_fits sound.fits taken

theorem Conn.Sound.drops {cfg : Config} {s t : Conn} {l : Label} {st : StreamState} (sound : s.Sound)
    (held : s.stream = some st) (drops : Drops cfg s l) (taken : Step cfg s l t) :
    t.tasks = s.dropStream.tasks ∧ t.stream = none := by
  cases l with
  | read msg =>
    rcases drops with rfl | ⟨reset, json, decoded⟩
    · have ready := Conn.read_ready taken
      simp only [Step, Conn.step, Conn.read, ready, Option.some.injEq] at taken
      subst taken
      exact ⟨rfl, s.dropStream_stream⟩
    · obtain rfl := sound.read_frame held taken decoded
      exact ⟨rfl, s.dropStream_stream⟩
  | resume =>
    have waits : s.reader = .dropping := drops
    simp only [Step, Conn.step, Conn.resume, waits, Option.some.injEq] at taken
    subst taken
    exact ⟨rfl, s.dropStream_stream⟩
  | leave =>
    obtain ⟨_, ⟨⟩⟩ := Option.ite_none_right_eq_some.mp taken
    exact ⟨rfl, s.dropStream_stream⟩
  | task | write | writerDied => exact False.elim drops

theorem Run.sound {cfg : Config} {ls : List Label} {s : Conn} (run : Run cfg ls s) : s.Sound :=
  Transition.Run.invariant (fun _ _ _ sound taken => sound.step taken) run (.initial cfg)

theorem step_functional {cfg : Config} (s : Conn) (l : Label) (t t' : Conn) (first : Step cfg s l t)
    (second : Step cfg s l t') : t = t' := Option.some.inj (first.symm.trans second)

end

attribute [local instance] flagSchema flagTexts slashUris

def plainRoute : Config := .upgrade 4 .none none (some false) "/flag.Flags/Set"

end Ws
end GrpcWebnext
