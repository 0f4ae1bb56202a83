import GrpcWebnext.Ws.RequestChannel

/-!
# One codec

A connection is pinned to a codec or locks to the type of its first message. Messages of the other
type may as well not have been sent, and nothing of that type is sent back.
-/

namespace GrpcWebnext
namespace Ws
open SerdeJson

section

variable [ProstReflect] [SerdeJson]

/-! ### What is sent -/

/-- A message in the codec, or the close of the socket. -/
def TungMessage.InCodec (json : Bool) : TungMessage Value → Prop
  | .binary _ => json = false
  | .text _ => json = true
  | .close _ _ => True

/-- `proto_frame_to_json` knows the frame: it is one that a server sends. -/
def Frame.fromServer (frame : Frame) : Prop := (protoFrameToJson frame).isSome

omit [ProstReflect] in
theorem toTung_inCodec {frame : Frame} (json : Bool) (server : Frame.fromServer frame) :
    (toTung frame json).InCodec json := by
  cases json with
  | false => rfl
  | true =>
    obtain ⟨jf, converted⟩ := Option.isSome_iff_exists.mp server
    simp [toTung, converted, TungMessage.InCodec]

/-- What a task is about to send are frames of a server. -/
def Pc.FromServer : Pc → Prop
  | .rejecting reset => Frame.fromServer reset
  | .pumping out _ _ => ∀ frame ∈ out, Frame.fromServer frame
  | .ending out terminal => (∀ frame ∈ out, Frame.fromServer frame) ∧ Frame.fromServer terminal
  | _ => True

theorem messageFrames_fromServer (tc : Option Transcoder) (path : String) (msgs : List Bytes) :
    (∀ frame ∈ (messageFrames tc path msgs).1, Frame.fromServer frame) ∧
      ∀ reset, (messageFrames tc path msgs).2 = some reset → Frame.fromServer reset := by
  induction msgs with
  | nil => simp [messageFrames]
  | cons msg rest ih =>
    simp only [messageFrames]
    split
    · refine ⟨List.forall_mem_nil _, ?_⟩
      rintro _ ⟨⟩
      rfl
    · exact ⟨List.forall_mem_cons.mpr ⟨rfl, ih.1⟩, ih.2⟩

theorem pump_fromServer (task : Task) (respHeaders : HeaderMap) (pump : Pump) (event : BodyEvent) :
    (task.pump respHeaders pump event).FromServer := by
  cases event with
  | data data =>
    obtain ⟨frames, reset⟩ := messageFrames_fromServer task.transcoder task.methodPath (pump.deframer.push data).drain.1
    cases ends : (messageFrames task.transcoder task.methodPath (pump.deframer.push data).drain.1).2 with
    | some last =>
      simp only [Task.pump, pumpFrame, ends]
      exact ⟨frames, reset last ends⟩
    | none =>
      simp only [Task.pump, pumpFrame, ends]
      exact frames
  | trailers trailers => exact List.forall_mem_nil _
  | error e => exact ⟨List.forall_mem_nil _, rfl⟩
  | eof => exact ⟨List.forall_mem_nil _, rfl⟩

theorem advance_fromServer {cfg : Config} {task task' : Task} {sender : Bool} {event : TaskEvent}
    {call : Option Dispatch} (advanced : task.Advanced cfg sender event task' call) (before : task.pc.FromServer) : task'.pc.FromServer := by
  cases advanced with
  | begun | resolved | expired => trivial
  | refused => exact Option.isSome_some
  | answered => exact List.forall_mem_singleton.mpr rfl
  | failed => exact ⟨nofun, rfl⟩
  | pumped event => exact pump_fromServer task _ _ event
  | killed =>
    rw [Task.moveTo_pc]
    trivial
  | delivered | bodyEnded | bodyDropped => exact before

omit [ProstReflect] in
theorem sending_fromServer {pc next : Pc} {json : Bool} {msg : TungMessage Value} (before : pc.FromServer)
    (waits : pc.sending json = some (msg, next)) :
    msg.InCodec json ∧ next.FromServer ∧ (pc.unsent next).FromServer := by
  unfold Pc.sending at waits
  split at waits
  case h_1 reset =>
    cases waits
    exact ⟨toTung_inCodec json before, trivial, trivial⟩
  case h_2 frame out respHeaders pump =>
    cases waits
    have later : Pc.FromServer (.pumping out respHeaders pump) := fun f member => before f (List.mem_cons_of_mem _ member)
    refine ⟨toTung_inCodec json (before frame List.mem_cons_self), later, ?_⟩
    unfold Pc.unsent
    split
    · trivial
    · trivial
    · exact later
  case h_3 frame out terminal =>
    cases waits
    have later : Pc.FromServer (.ending out terminal) :=
      ⟨fun f member => before.1 f (List.mem_cons_of_mem _ member), before.2⟩
    refine ⟨toTung_inCodec json (before.1 frame List.mem_cons_self), later, ?_⟩
    unfold Pc.unsent
    split
    · trivial
    · trivial
    · exact later
  case h_4 =>
    cases waits
    exact ⟨toTung_inCodec json before.2, trivial, trivial⟩
  case h_5 =>
    cases waits
    exact ⟨toTung_inCodec json rfl, trivial, trivial⟩
  case h_6 =>
    cases waits
    exact ⟨trivial, trivial, trivial⟩
  case h_7 => cases waits

/-- All that is sent and about to be sent is written in one codec. -/
structure Conn.Typed (json : Bool) (s : Conn) : Prop where
  tasks : ∀ (i : Nat) (task : Task), s.tasks[i]? = some task → task.json = json ∧ task.pc.FromServer
  reader : ∀ reset codec drop, s.reader = .resetting reset codec drop → codec = json ∧ Frame.fromServer reset
  outbound : ∀ msg ∈ s.outbound, msg.InCodec json

theorem Conn.Typed.dropStream {json : Bool} {s : Conn} (typed : s.Typed json) : s.dropStream.Typed json where
  tasks i task found := by
    rw [s.dropStream_getElem] at found
    obtain ⟨before, here, rfl⟩ := Option.map_eq_some_iff.mp found
    have own := typed.tasks i before here
    split <;> exact own
  reader := by
    rw [s.dropStream_reader]
    exact typed.reader
  outbound := by
    rw [s.dropStream_still.outbound, List.append_nil]
    exact typed.outbound

theorem Conn.Typed.sent {json : Bool} {s : Conn} {msg : TungMessage Value} (typed : s.Typed json)
    (own : msg.InCodec json) : Conn.Typed json { s with outbound := s.outbound ++ s.sent msg } := by
  refine ⟨typed.tasks, typed.reader, ?_⟩
  intro sent member
  rcases List.mem_append.mp member with before | now
  · exact typed.outbound sent before
  · unfold Conn.sent at now
    split at now
    · rwa [List.mem_singleton.mp now]
    · cases now

theorem Conn.Typed.set {json : Bool} {s t : Conn} (typed : s.Typed json) (i : Nat) (task' : Task)
    (own : task'.json = json ∧ task'.pc.FromServer) (tasks : t.tasks = s.tasks.set i task')
    (reader : t.reader = s.reader) (outbound : t.outbound = s.outbound) : t.Typed json where
  tasks j task found := by
    rw [tasks] at found
    rcases found_set found with ⟨_, rfl⟩ | still
    · exact own
    · exact typed.tasks j task still
  reader := reader ▸ typed.reader
  outbound := outbound ▸ typed.outbound

theorem Conn.Typed.stepTask {cfg : Config} {json : Bool} {s t : Conn} {i : Nat} {event : TaskEvent}
    (typed : s.Typed json) (taken : s.stepTask cfg i event = some t) : t.Typed json := by
  obtain ⟨task, found, ⟨msg, next, rfl, waits, rfl⟩ | ⟨task', call, advanced, rfl⟩⟩ := Conn.stepTask_inv taken
  · obtain ⟨rfl, serves⟩ := typed.tasks i task found
    obtain ⟨own, sent, unsent⟩ := sending_fromServer serves waits
    refine (typed.sent own).set i (task.moveTo (if s.writer then next else task.pc.unsent next))
      ⟨?_, ?_⟩ rfl rfl rfl
    · exact (task.moveTo_advances cfg true _).json
    · rw [Task.moveTo_pc]
      split
      · exact sent
      · exact unsent
  · obtain ⟨rfl, serves⟩ := typed.tasks i task found
    exact typed.set i task' ⟨advanced.advances.json, advance_fromServer advanced serves⟩ rfl rfl rfl

theorem Conn.Typed.decode {json : Bool} {s : Conn} (typed : s.Typed json) (cfg : Config) (msg : Inbound Value) :
    (s.decode cfg msg).1.Typed json := by
  obtain ⟨codec, opened, same, _⟩ := s.decode_eq cfg msg
  rw [same]
  exact ⟨typed.tasks, typed.reader, typed.outbound⟩

theorem Conn.Typed.resume {json : Bool} {s t : Conn} (typed : s.Typed json) (taken : s.resume = some t) :
    t.Typed json := by
  cases Conn.resume_some taken with
  | discarded => exact ⟨typed.tasks, nofun, typed.outbound⟩
  | @fed payload st task _ _ found =>
    have moved : Conn.Typed json { s with reader := .ready } := ⟨typed.tasks, nofun, typed.outbound⟩
    have own := typed.tasks st.task task found
    exact moved.set st.task { task with requests := task.requests ++ [payload] } own rfl rfl rfl
  | @reset reset codec drop s' waits put =>
    obtain ⟨rfl, server⟩ := typed.reader reset codec drop waits
    obtain rfl := Conn.put_eq put
    have sent := typed.sent (toTung_inCodec codec server)
    refine ⟨sent.tasks, ?_, sent.outbound⟩
    cases drop <;> nofun
  | dropped => exact ⟨typed.dropStream.tasks, nofun, typed.dropStream.outbound⟩

/-! ### The lock -/

/-- The codec that an inbound message is written in. -/
def Label.codec? : Label → Option Bool
  | .read (.binary _) => some false
  | .read (.text _) => some true
  | _ => none

def Label.stray (json : Bool) (l : Label) : Bool := l.codec? = some !json

/-- The codec that a connection is pinned to, or that its first binary or text message has. -/
def fixedCodec (pinned : Option Bool) (ls : List Label) : Option Bool := pinned.or (ls.findSome? Label.codec?)

theorem fixedCodec_cons (pinned : Option Bool) (l : Label) (ls : List Label) :
    fixedCodec pinned (l :: ls) = fixedCodec (pinned.or l.codec?) ls := by
  rw [fixedCodec, fixedCodec, List.findSome?_cons]
  cases pinned with
  | some json => rfl
  | none => cases l.codec? <;> rfl

/-- The frames that a step hands to `handle_frame`. -/
def framesOf (cfg : Config) (s : Conn) : Label → List (Frame × Bool)
  | .read msg => (s.decode cfg msg).2.toList
  | _ => []

theorem framesOf_codec {cfg : Config} {s : Conn} {l : Label} {e : Frame × Bool} (member : e ∈ framesOf cfg s l) :
    (s.locks cfg l).codec = some e.2 := by
  cases l with
  | read msg => exact Conn.decode_codec (Option.mem_toList.mp member)
  | _ => cases member

theorem locks_codec (cfg : Config) (s : Conn) (l : Label) : (s.locks cfg l).codec = s.codec.or l.codec? := by
  cases l with
  | read msg =>
    cases msg with
    | binary data | text text =>
      simp only [Conn.locks, Conn.decode, Label.codec?]
      split <;> cases s.codec <;> rfl
    | close | control => exact (Option.or_none).symm
  | _ => exact (Option.or_none).symm

variable [UriParser]

theorem step_codec {cfg : Config} {s t : Conn} {l : Label} (taken : Step cfg s l t) : t.codec = s.codec.or l.codec? :=
  (Conn.step_locked taken).1.trans (locks_codec cfg s l)

/-- A message of the other type is read and dropped. -/
theorem step_stray {cfg : Config} {s t : Conn} {l : Label} {json : Bool} (locked : s.codec = some json)
    (stray : l.stray json = true) (taken : Step cfg s l t) : t = s ∧ framesOf cfg s l = [] := by
  obtain other : l.codec? = some !json := of_decide_eq_true stray
  cases l with
  | read msg =>
    have ready : s.reader = .ready := Conn.read_ready taken
    have kept : s.decode cfg msg = (s, none) := by
      obtain ⟨_, _⟩ := s
      subst locked
      cases msg with
      | binary data =>
        cases json with
        | true => rfl
        | false => cases other
      | text text =>
        cases json with
        | true => cases other
        | false => rfl
      | close => cases other
      | control => cases other
    constructor
    · cases msg with
      | close => cases other
      | control => cases other
      | binary data | text text =>
        simp only [Step, Conn.step, Conn.read, ready, kept] at taken
        exact (Option.some.inj taken).symm
    · simp [framesOf, kept]
  | _ => cases other

/-! ### Two runs -/

/-- All frames that a run hands to `handle_frame`, with the codec of each. -/
def handled (cfg : Config) : Conn → List Label → List (Frame × Bool)
  | _, [] => []
  | s, l :: ls =>
    framesOf cfg s l ++
      match s.step cfg l with
      | some t => handled cfg t ls
      | none => []

theorem handled_cons {cfg : Config} {s t : Conn} {l : Label} (taken : Step cfg s l t) (ls : List Label) :
    handled cfg s (l :: ls) = framesOf cfg s l ++ handled cfg t ls := by
  rw [handled, show s.step cfg l = some t from taken]

/-- The run without the messages of the other type, and what it hands on. -/
structure Deleted (cfg : Config) (json : Bool) (s : Conn) (ls : List Label) (t : Conn) : Prop where
  run : Transition.Run (Step cfg) s (ls.filter fun l => !l.stray json) t
  frames : handled cfg s (ls.filter fun l => !l.stray json) = handled cfg s ls
  codec : ∀ e ∈ handled cfg s ls, e.2 = json

theorem run_deleted {cfg : Config} {s t : Conn} {ls : List Label} {json : Bool}
    (run : Transition.Run (Step cfg) s ls t) (fixed : fixedCodec s.codec ls = some json) : Deleted cfg json s ls t := by
  induction run with
  | nil s => exact ⟨.nil s, rfl, nofun⟩
  | cons taken rest ih =>
    rename_i s u t l ls
    rw [fixedCodec_cons, ← step_codec taken] at fixed
    obtain ⟨run, frames, codec⟩ := ih fixed
    have all := handled_cons taken ls
    cases stray : l.stray json with
    | true =>
      have locked : s.codec = some json := by
        have own : u.codec = s.codec.or (some !json) := of_decide_eq_true stray ▸ step_codec taken
        rw [own] at fixed
        cases held : s.codec with
        | none =>
          rw [held] at fixed
          cases json <;> cases fixed
        | some codec =>
          rw [held] at fixed
          exact fixed
      obtain ⟨rfl, silent⟩ := step_stray locked stray taken
      rw [silent, List.nil_append] at all
      refine ⟨?_, ?_, ?_⟩
      · simpa [stray] using run
      · simpa [stray, all] using frames
      · rwa [all]
    | false =>
      refine ⟨?_, ?_, ?_⟩
      · simpa [stray] using run.cons taken
      · rw [List.filter_cons_of_pos (by simp [stray]), handled_cons taken, all, frames]
      · rw [all]
        intro e member
        rcases List.mem_append.mp member with here | later
        · have own : u.codec = some e.2 := (Conn.step_locked taken).1.trans (framesOf_codec here)
          rw [own] at fixed
          exact Option.some.inj fixed
        · exact codec e later

/-! ### Every run -/

theorem rejection_fromServer {cfg : Config} {s : Conn} {frame reset : Frame}
    (rejected : s.rejection cfg frame = some reset) : Frame.fromServer reset := by
  unfold Conn.rejection at rejected
  split at rejected
  · split at rejected
    · cases rejected; rfl
    · split at rejected
      · cases rejected; rfl
      · obtain ⟨_, ⟨⟩⟩ := Option.ite_none_right_eq_some.mp rejected
        rfl
  · obtain ⟨_, ⟨⟩⟩ := Option.ite_none_right_eq_some.mp rejected
    rfl
  · cases rejected

theorem Conn.Typed.handleFrame {cfg : Config} {json : Bool} {s : Conn} (typed : s.Typed json) (frame : Frame) :
    (s.handleFrame cfg frame json).Typed json := by
  unfold Conn.handleFrame
  split
  · rename_i reset rejected
    refine ⟨typed.tasks, ?_, typed.outbound⟩
    rintro _ _ _ ⟨⟩
    exact ⟨rfl, rejection_fromServer rejected⟩
  · split
    · rename_i sub _
      refine ⟨?_, typed.reader, typed.outbound⟩
      intro i task found
      rw [Conn.openStream_tasks, List.getElem?_append] at found
      split at found
      · exact typed.tasks i task found
      · obtain ⟨_, rfl⟩ := List.getElem?_eq_some_iff.mp found
        rw [List.getElem_singleton]
        exact ⟨rfl, trivial⟩
    · split
      · exact ⟨typed.tasks, nofun, typed.outbound⟩
      · exact typed
    · exact ⟨typed.tasks, typed.reader, typed.outbound⟩
    · exact typed.dropStream
    · exact typed

theorem Conn.Typed.read {cfg : Config} {json : Bool} {s t : Conn} {msg : Inbound Value} (typed : s.Typed json)
    (taken : s.read cfg msg = some t) (fits : t.codec.getD json = json) : t.Typed json := by
  have decoded := typed.decode cfg msg
  cases (Conn.read_some taken).2 with
  | left => exact ⟨typed.dropStream.tasks, nofun, typed.dropStream.outbound⟩
  | skipped => exact decoded
  | @handled _ frame codec passed =>
    rw [(Conn.handleFrame_locked cfg _ frame codec).1, Conn.decode_codec passed] at fits
    obtain rfl : codec = json := fits
    exact decoded.handleFrame frame

theorem Conn.Typed.step {cfg : Config} {json : Bool} {s t : Conn} {l : Label} (typed : s.Typed json)
    (taken : Step cfg s l t) (fits : t.codec.getD json = json) : t.Typed json := by
  cases l with
  | read msg => exact typed.read taken fits
  | resume => exact typed.resume taken
  | leave =>
    obtain ⟨_, ⟨⟩⟩ := Option.ite_none_right_eq_some.mp taken
    exact ⟨typed.dropStream.tasks, nofun, typed.dropStream.outbound⟩
  | task i event => exact typed.stepTask taken
  | write =>
    obtain ⟨_, ⟨⟩⟩ := Option.ite_none_right_eq_some.mp taken
    exact ⟨typed.tasks, typed.reader, typed.outbound⟩
  | writerDied =>
    cases taken
    exact ⟨typed.tasks, typed.reader, typed.outbound⟩

omit [UriParser] in
theorem Conn.Typed.initial (json : Bool) (cfg : Config) : (Conn.initial cfg).Typed json where
  tasks i task found := by
    replace found : ([] : List Task)[i]? = some task := found
    simp at found
  reader := nofun
  outbound := nofun

theorem run_typed {cfg : Config} {s t : Conn} {ls : List Label} {json : Bool} (run : Transition.Run (Step cfg) s ls t)
    (fixed : fixedCodec s.codec ls = some json) (typed : s.Typed json) : t.Typed json := by
  induction run with
  | nil => exact typed
  | cons taken rest ih =>
    rw [fixedCodec_cons, ← step_codec taken] at fixed
    refine ih fixed (typed.step taken ?_)
    rename_i u _ _ _
    cases held : u.codec with
    | none => rfl
    | some codec =>
      rw [held] at fixed
      exact Option.some.inj fixed

/-- What the codec lock promises of a run. -/
structure SingleCodec (cfg : Config) (json : Bool) (ls : List Label) (t : Conn) : Prop
    extends Deleted cfg json (.initial cfg) ls t where
  sent : ∀ msg ∈ t.outbound, msg.InCodec json

/-- Once the codec is fixed, a run without the messages of the other type hands on the same frames and
ends in the same state, its streams and calls included; what is sent is of the fixed type. -/
theorem single_codec (cfg : Config) {ls : List Label} {t : Conn} {json : Bool} (run : Run cfg ls t)
    (fixed : fixedCodec cfg.params.codec ls = some json) : SingleCodec cfg json ls t :=
  { run_deleted run fixed with sent := (run_typed run fixed (.initial json cfg)).outbound }

end

section

attribute [local instance] flagSchema flagTexts slashUris

/-- A binary stream, with two text messages in between. -/
def mixed : List Label :=
  [.read (.binary (some subscribeFrame)), .read (.text (some {})), .task 0 .begin, .read (.text none),
    .task 0 (.answer (.ok [])), .task 0 .send]

theorem single_codec_mixed : ∃ t : Conn, t.outbound.length = 1 ∧
    SingleCodec (.upgrade 4 .none none none "/flag.Flags/Get") false mixed t :=
  ⟨_, rfl, single_codec _ (.cons rfl <| .cons rfl <| .cons rfl <| .cons rfl <| .cons rfl <| .cons rfl (.nil _)) rfl⟩

end

end Ws
end GrpcWebnext
