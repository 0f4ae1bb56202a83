import GrpcWebnext.Ws.RequestStream
import GrpcWebnext.Ws.Resources
import GrpcWebnext.Ws.ResponseStream

/-!
# The connection of a single stream

A connection whose client opens one binary stream, as `SingleStreamConn` does: it has at most one task, which
got its frames in order, and refuses little.
-/

namespace GrpcWebnext
namespace EndToEnd
open Transition SerdeJson
open Ws.RequestStream (framesOf)
open Ws.ResponseStream (Origin origin emits authored authored_snoc)

section

variable [ProstReflect]

/-- The options of a call, and the server that its URL names. -/
structure Route where
  maxMessageBytes : Nat
  schema : Schema.Inner
  codec : Option Bool
  uriPath : String
  headers : List Metadatum
  timeoutMillis : UInt32

def Route.config (r : Route) : Ws.Config := .upgrade r.maxMessageBytes r.schema none r.codec r.uriPath

def Route.openFrame (r : Route) : Frame := ⟨some (.subscribe ⟨"", r.headers, r.timeoutMillis, [], false⟩)⟩

def Route.origin (r : Route) : Origin :=
  ⟨none, pathOf r.config.methodUrl, Metadata.grpcTimeoutFromMillis r.timeoutMillis, false⟩

/-- The opening frame of the route comes first, and no other frame opens a stream. -/
def Opening (r : Route) (frames : List Frame) : Prop :=
  ∃ rest, frames <+: r.openFrame :: rest ∧ ∀ frame ∈ rest, ∀ sub, frame ≠ ⟨some (.subscribe sub)⟩

theorem Opening.first {r : Route} {frames : List Frame} {sub : Subscribe}
    (opening : Opening r (frames ++ [⟨some (.subscribe sub)⟩])) :
    frames = [] ∧ ⟨some (.subscribe sub)⟩ = r.openFrame := by
  obtain ⟨rest, within, others⟩ := opening
  cases frames with
  | nil => exact ⟨rfl, (List.cons_prefix_cons.mp within).1⟩
  | cons first frames =>
    have tail := (List.cons_prefix_cons.mp within).2
    have member : ⟨some (.subscribe sub)⟩ ∈ rest := tail.subset (List.mem_append_right _ (List.mem_singleton_self _))
    exact absurd rfl (others _ member sub)

theorem not_opening_reset {r : Route} {reset : Reset} : ¬Opening r [⟨some (.reset reset)⟩] := by
  rintro ⟨rest, within, _⟩
  cases (List.cons_prefix_cons.mp within).1

theorem origin_advanced {cfg : Ws.Config} {t t' : Ws.Task} {sender : Bool} {event : Ws.TaskEvent}
    {call : Option Ws.Dispatch} (binary : t.json = false) (advanced : t.Advanced cfg sender event t' call) :
    origin t' = origin t := by
  cases advanced with
  | resolved json => exact absurd json (by simp [binary])
  | _ => rfl

variable [UriParser]

/-- What the read loop refuses of such a client: a message above the limit, or the method of the URL. -/
def Refusal (r : Route) (frames : List Frame) (reset : Frame) : Prop :=
  reset = Ws.sizeReset ∧ (∃ payload : Bytes, ⟨some (.message ⟨payload⟩)⟩ ∈ frames ∧ payload.length > r.maxMessageBytes) ∨
    reset = Ws.resetFrame .invalidArgument "invalid method" ∧ UriParser.pathAndQuery r.config.methodUrl = false

theorem Refusal.terminal {r : Route} {frames : List Frame} {reset : Frame} (refusal : Refusal r frames reset) :
    reset.status?.isSome = true := by
  rcases refusal with ⟨rfl, _⟩ | ⟨rfl, _⟩ <;> rfl

theorem Refusal.mono {r : Route} {frames frames' : List Frame} {reset : Frame} (refusal : Refusal r frames reset)
    (grows : frames <+: frames') : Refusal r frames' reset :=
  refusal.imp_left fun ⟨eq, payload, member, large⟩ => ⟨eq, payload, grows.subset member, large⟩

theorem Refusal.behind {r : Route} {frames : List Frame} {reset : Frame} (refusal : Refusal r (r.openFrame :: frames) reset) :
    Refusal r frames reset := by
  refine refusal.imp_left fun ⟨same, payload, member, large⟩ => ⟨same, payload, ?_, large⟩
  exact (List.mem_cons.mp member).resolve_left (by simp [Route.openFrame])

variable [SerdeJson]

omit [UriParser] in
/-- A binary message passes the frame that it holds; an opening one gets the method of the URL. -/
theorem decode_frame {cfg : Ws.Config} {s : Ws.Conn} {msg : Ws.Inbound Value} {frame : Frame} {json : Bool}
    (binary : ∀ text, msg ≠ .text text) (decoded : (s.decode cfg msg).2 = some (frame, json)) :
    json = false ∧
      ((∃ sub, msg = .binary (some ⟨some (.subscribe sub)⟩) ∧ frame = ⟨some (.subscribe { sub with method := cfg.methodUrl })⟩) ∨
        msg = .binary (some frame) ∧ ∀ sub, frame ≠ ⟨some (.subscribe sub)⟩) := by
  have passes := s.decode_some decoded
  generalize (s.decode cfg msg).1 = t at passes
  cases passes with
  | @binary data _ passed =>
    refine ⟨rfl, ?_⟩
    rcases data with _ | ⟨_ | kind⟩
    · cases passed
    · cases passed
    · cases kind with
      | subscribe sub =>
        cases passed
        exact .inl ⟨sub, rfl, rfl⟩
      | _ =>
        simp only [Ws.decodeBinary] at passed
        split at passed <;> cases passed
        exact .inr ⟨rfl, fun _ same => by cases same⟩
  | text => exact absurd rfl (binary _)

omit [UriParser] in
theorem decode_subscribe {cfg : Ws.Config} {s : Ws.Conn} {msg : Ws.Inbound Value} {sub : Subscribe} {json : Bool}
    (binary : ∀ text, msg ≠ .text text)
    (decoded : (s.decode cfg msg).2 = some (⟨some (.subscribe sub)⟩, json)) :
    json = false ∧ ∃ sub', msg = .binary (some ⟨some (.subscribe sub')⟩) ∧ sub = { sub' with method := cfg.methodUrl } := by
  obtain ⟨codec, ⟨sub', holds, same⟩ | ⟨_, other⟩⟩ := decode_frame binary decoded
  · cases same
    exact ⟨codec, sub', holds, rfl⟩
  · exact absurd rfl (other sub)

omit [UriParser] in
theorem decode_other {cfg : Ws.Config} {s : Ws.Conn} {msg : Ws.Inbound Value} {frame : Frame} {json : Bool}
    (binary : ∀ text, msg ≠ .text text) (other : ∀ sub, frame ≠ ⟨some (.subscribe sub)⟩)
    (decoded : (s.decode cfg msg).2 = some (frame, json)) : json = false ∧ msg = .binary (some frame) := by
  obtain ⟨codec, ⟨_, _, same⟩ | ⟨holds, _⟩⟩ := decode_frame binary decoded
  · exact absurd same (other _)
  · exact ⟨codec, holds⟩

/-- The connection behind the frames that it read. -/
structure Served (r : Route) (frames : List Frame) (s : Ws.Conn) : Prop where
  sound : s.Sound
  codec : s.codec.getD false = false
  tasks : s.tasks = [] ∨ ∃ task, s.tasks = [task] ∧ origin task = r.origin ∧
    ∃ rest, frames = r.openFrame :: rest ∧ Ws.RequestStream.Faithful r.maxMessageBytes [] 0 rest s
  refused : ∀ reset json drop, s.reader = .resetting reset json drop → json = false ∧ Refusal r frames reset
  cancelled : (∃ reset, ⟨some (.reset reset)⟩ ∈ frames) → s.stream = none
  halfClosed : ∀ i, s.stream = some ⟨i, false⟩ → ⟨some .halfClose⟩ ∈ frames

theorem Served.initial {r : Route} (unlocked : r.codec.getD false = false) : Served r [] (.initial r.config) where
  sound := .initial r.config
  codec := unlocked
  tasks := .inl rfl
  refused := nofun
  cancelled cancels := by
    obtain ⟨_, member⟩ := cancels
    cases member
  halfClosed i held := by cases held

theorem Served.idle {r : Route} {frames : List Frame} {s : Ws.Conn} (served : Served r frames s)
    (empty : s.tasks = []) : s.stream = none := by
  cases held : s.stream with
  | none => rfl
  | some st =>
    obtain ⟨_, task, found, _⟩ := served.sound.held st held
    rw [empty] at found
    cases found

theorem Served.unopened {r : Route} {s : Ws.Conn} (served : Served r [] s) : s.tasks = [] := by
  rcases served.tasks with empty | ⟨_, _, _, _, ⟨⟩, _⟩
  exact empty

/-- A step that no task takes leaves the tasks, unless it reads the first frame. -/
theorem Served.kept {r : Route} {frames : List Frame} {s t : Ws.Conn} {l : Ws.Label}
    (served : Served r frames s) (binary : ∀ text, l ≠ .read (.text text))
    (opening : Opening r (frames ++ framesOf [l])) (taken : Ws.Step r.config s l t)
    (other : ∀ i event, l ≠ .task i event) {i : Nat} {task' : Ws.Task} (found : t.tasks[i]? = some task') :
    (∃ task, s.tasks[i]? = some task ∧ task.Kept task') ∨ frames = [] := by
  rcases (served.sound.step_tasks taken other).2 i task' found with kept | ⟨_, msg, sub, json, rfl, decoded, _⟩
  · exact .inl kept
  · obtain ⟨_, sub', rfl, _⟩ := decode_subscribe (fun text same => binary text (by rw [same])) decoded
    exact .inr (Opening.first opening).1

/-- The first frame opens the stream, or is refused. -/
theorem Served.opens {r : Route} {s t : Ws.Conn} {l : Ws.Label} (served : Served r [] s)
    (binary : ∀ text, l ≠ .read (.text text)) (opening : Opening r (framesOf [l]))
    (taken : Ws.Step r.config s l t) :
    t.tasks = [] ∨ ∃ task, t.tasks = [task] ∧ origin task = r.origin ∧
      ∃ rest, framesOf [l] = r.openFrame :: rest ∧ Ws.RequestStream.Faithful r.maxMessageBytes [] 0 rest t := by
  have empty := served.unopened
  by_cases reads : ∃ msg, l = .read msg
  · obtain ⟨msg, rfl⟩ := reads
    rcases (Ws.Conn.read_idle (served.idle empty) taken).2 with ⟨tasks, _⟩ | ⟨sub, json, decoded, accepted, opens⟩
    · exact .inl (tasks.trans empty)
    · obtain ⟨rfl, sub', rfl, whole⟩ := decode_subscribe (fun text same => binary text (by rw [same])) decoded
      have alone : Opening r ([] ++ framesOf [.read (.binary (some ⟨some (.subscribe sub')⟩))]) := opening
      have first := (Opening.first alone).2
      obtain rfl : sub' = ⟨"", r.headers, r.timeoutMillis, [], false⟩ := by
        simpa [Route.openFrame] using first
      have faithful := Ws.RequestStream.Faithful.opened r.config rfl decoded accepted taken
      obtain ⟨_, _, same, _⟩ := s.decode_eq r.config _
      right
      refine ⟨Ws.openTask r.config sub false, ?_, ?_, [], rfl, ?_⟩
      · rw [opens, Ws.Conn.openStream_tasks, same, empty]
        rfl
      · rw [whole]
        rfl
      · rw [empty, whole] at faithful
        exact faithful
  · left
    by_cases steps : ∃ i event, l = .task i event
    · obtain ⟨i, event, rfl⟩ := steps
      obtain ⟨_, _, found, _⟩ := Ws.Conn.stepTask_advances taken
      rw [empty] at found
      cases found
    · refine List.eq_nil_iff_forall_not_mem.mpr fun task' member => ?_
      obtain ⟨i, found⟩ := List.getElem?_of_mem member
      rcases (served.sound.step_tasks taken fun i event same => steps ⟨i, event, same⟩).2 i task' found with
        ⟨task, here, _⟩ | ⟨_, msg, _, _, same, _⟩
      · rw [empty] at here
        cases here
      · exact reads ⟨msg, same⟩

theorem Served.step_tasks {r : Route} {frames : List Frame} {s t : Ws.Conn} {l : Ws.Label}
    (served : Served r frames s) (binary : ∀ text, l ≠ .read (.text text))
    (opening : Opening r (frames ++ framesOf [l])) (taken : Ws.Step r.config s l t) :
    t.tasks = [] ∨ ∃ task, t.tasks = [task] ∧ origin task = r.origin ∧
      ∃ rest, frames ++ framesOf [l] = r.openFrame :: rest ∧
        Ws.RequestStream.Faithful r.maxMessageBytes [] 0 rest t := by
  cases frames with
  | nil => exact served.opens binary opening taken
  | cons first frames =>
    by_cases steps : ∃ i event, l = .task i event
    · obtain ⟨i, event, rfl⟩ := steps
      obtain ⟨task, found, moved⟩ := Ws.Conn.stepTask_inv taken
      rcases served.tasks with empty | ⟨only, tasks, same, rest, whole, faithful⟩
      · rw [empty] at found
        cases found
      · obtain ⟨rfl, rfl⟩ : i = 0 ∧ task = only := by
          rw [tasks] at found
          obtain ⟨within, rfl⟩ := List.getElem?_eq_some_iff.mp found
          rw [List.length_singleton] at within
          obtain rfl : i = 0 := by omega
          exact ⟨rfl, rfl⟩
        have json : task.json = false := congrArg Origin.json same
        obtain ⟨task', tasks', same'⟩ : ∃ task', t.tasks = [task'] ∧ origin task' = origin task := by
          rcases moved with ⟨msg, next, rfl, _, rfl⟩ | ⟨task', call, advanced, rfl⟩
          · refine ⟨_, by rw [tasks]; rfl, ?_⟩
            generalize (if s.writer then next else task.pc.unsent next) = pc
            cases pc <;> rfl
          · exact ⟨task', by rw [tasks]; rfl, origin_advanced json advanced⟩
        exact .inr ⟨task', tasks', same'.trans same, rest ++ framesOf [.task 0 event],
          by rw [whole, List.cons_append], faithful.step rfl served.sound taken⟩
    · have other : ∀ i event, l ≠ .task i event := fun i event same => steps ⟨i, event, same⟩
      have kept {i : Nat} {task' : Ws.Task} (found : t.tasks[i]? = some task') :
          ∃ task, s.tasks[i]? = some task ∧ task.Kept task' :=
        (served.kept binary opening taken other found).resolve_right nofun
      rcases served.tasks with empty | ⟨task, tasks, same, rest, whole, faithful⟩
      · left
        refine List.eq_nil_iff_forall_not_mem.mpr fun task' member => ?_
        obtain ⟨i, found⟩ := List.getElem?_of_mem member
        obtain ⟨task, here, _⟩ := kept found
        rw [empty] at here
        cases here
      · right
        have length : t.tasks.length = 1 := by
          have grows := (served.sound.step_tasks taken other).1
          rw [tasks, List.length_singleton] at grows
          by_contra more
          obtain ⟨_, here, _⟩ := kept (List.getElem?_eq_getElem (i := 1) (by omega))
          rw [tasks] at here
          cases here
        obtain ⟨task', tasks'⟩ := List.length_eq_one_iff.mp length
        obtain ⟨_, here, _, _, rfl⟩ := kept (i := 0) (by rw [tasks']; rfl)
        rw [tasks] at here
        obtain rfl := Option.some.inj here
        exact ⟨_, tasks', same, rest ++ framesOf [l], by rw [whole, List.cons_append],
          faithful.step rfl served.sound taken⟩

theorem Served.step_codec {r : Route} {frames : List Frame} {s t : Ws.Conn} {l : Ws.Label}
    (served : Served r frames s) (binary : ∀ text, l ≠ .read (.text text)) (taken : Ws.Step r.config s l t) :
    t.codec.getD false = false := by
  have codec := served.codec
  rw [(Ws.Conn.step_locked taken).1]
  cases l with
  | read msg =>
    cases msg with
    | binary data => simp [Ws.Conn.locks, Ws.Conn.decode, codec]
    | text text => exact absurd rfl (binary text)
    | close => exact codec
    | control => exact codec
  | _ => exact codec

/-- A frame that the read loop refuses. -/
theorem Served.rejects {r : Route} {frames : List Frame} {s : Ws.Conn} {msg : Ws.Inbound Value} {frame reset : Frame}
    {json : Bool} (served : Served r frames s) (binary : ∀ text, msg ≠ .text text)
    (opening : Opening r (frames ++ framesOf [.read msg]))
    (decoded : (s.decode r.config msg).2 = some (frame, json)) (rejected : s.rejection r.config frame = some reset) :
    json = false ∧ Refusal r (frames ++ framesOf [.read msg]) reset := by
  obtain ⟨kind⟩ := frame
  unfold Ws.Conn.rejection at rejected
  split at rejected
  · rename_i sub kind
    obtain rfl : _ = some (Kind.subscribe sub) := kind
    obtain ⟨rfl, sub', rfl, rfl⟩ := decode_subscribe binary decoded
    obtain ⟨rfl, first⟩ := Opening.first opening
    obtain rfl : sub' = ⟨"", r.headers, r.timeoutMillis, [], false⟩ := by simpa [Route.openFrame] using first
    refine ⟨rfl, ?_⟩
    rw [served.idle served.unopened] at rejected
    simp only [Option.isSome_none, Bool.false_eq_true, ↓reduceIte, List.length_nil, gt_iff_lt, Nat.not_lt_zero] at rejected
    split at rejected
    · rename_i invalid
      cases rejected
      exact .inr ⟨rfl, by simpa using invalid⟩
    · cases rejected
  · rename_i m kind
    obtain rfl : _ = some (Kind.message m) := kind
    obtain ⟨large, ⟨⟩⟩ := Option.ite_none_right_eq_some.mp rejected
    obtain ⟨rfl, rfl⟩ := decode_other binary (by simp) decoded
    exact ⟨rfl, .inl ⟨rfl, m.payload, List.mem_append_right _ (List.mem_singleton_self _), large⟩⟩
  · cases rejected

theorem Served.step_refused {r : Route} {frames : List Frame} {s t : Ws.Conn} {l : Ws.Label}
    (served : Served r frames s) (binary : ∀ text, l ≠ .read (.text text))
    (opening : Opening r (frames ++ framesOf [l])) (taken : Ws.Step r.config s l t) (reset : Frame) (json drop : Bool)
    (waits : t.reader = .resetting reset json drop) : json = false ∧ Refusal r (frames ++ framesOf [l]) reset := by
  have same (reader : t.reader = s.reader) : json = false ∧ Refusal r (frames ++ framesOf [l]) reset := by
    obtain ⟨binary, refusal⟩ := served.refused reset json drop (reader ▸ waits)
    exact ⟨binary, refusal.mono (List.prefix_append _ _)⟩
  cases l with
  | read msg =>
    obtain ⟨ready, reads⟩ := Ws.Conn.read_some taken
    obtain ⟨codec, opened, eq, _⟩ := s.decode_eq r.config msg
    have decoded : (s.decode r.config msg).1.reader = .ready := by rw [eq]; exact ready
    cases reads with
    | left => cases waits
    | skipped => cases decoded.symm.trans waits
    | @handled _ frame json' passed =>
      unfold Ws.Conn.handleFrame at waits
      split at waits
      · rename_i rejected
        rw [s.rejection_decode] at rejected
        cases waits
        exact served.rejects (fun text same => binary text (by rw [same])) opening passed rejected
      · split at waits
        · cases decoded.symm.trans waits
        · split at waits
          · cases waits
          · cases decoded.symm.trans waits
        · cases decoded.symm.trans waits
        · rw [Ws.Conn.dropStream_reader] at waits
          cases decoded.symm.trans waits
        · cases decoded.symm.trans waits
  | resume =>
    cases Ws.Conn.resume_some taken with
    | discarded => cases waits
    | fed => cases waits
    | @reset _ _ drop' => cases drop' <;> cases waits
    | dropped => cases waits
  | leave =>
    obtain ⟨_, ⟨⟩⟩ := Option.ite_none_right_eq_some.mp taken
    cases waits
  | task i event =>
    obtain ⟨_, _, _, _, _, _, reader, _⟩ := Ws.Conn.stepTask_advances taken
    exact same reader
  | write =>
    obtain ⟨_, ⟨⟩⟩ := Option.ite_none_right_eq_some.mp taken
    exact same rfl
  | writerDied => cases taken; exact same rfl

theorem Served.step_cancelled {r : Route} {frames : List Frame} {s t : Ws.Conn} {l : Ws.Label}
    (served : Served r frames s) (binary : ∀ text, l ≠ .read (.text text))
    (opening : Opening r (frames ++ framesOf [l])) (taken : Ws.Step r.config s l t)
    (cancelled : ∃ reset, ⟨some (.reset reset)⟩ ∈ frames ++ framesOf [l]) : t.stream = none := by
  obtain ⟨reset, member⟩ := cancelled
  have stays (idle : s.stream = none) (read : frames ≠ []) : t.stream = none := by
    cases served.sound.step_turn taken with
    | quiet _ stream => exact stream.trans idle
    | opened _ decoded _ =>
      obtain ⟨_, sub', rfl, _⟩ := decode_subscribe (fun text same => binary text (by rw [same])) decoded
      exact absurd (Opening.first opening).1 read
    | fed _ held => cases idle.symm.trans held
    | released held => cases idle.symm.trans held
    | dropped _ _ stream => exact stream
    | advanced _ _ _ stream => exact stream.trans idle
  rcases List.mem_append.mp member with earlier | here
  · exact stays (served.cancelled ⟨reset, earlier⟩) (List.ne_nil_of_mem earlier)
  obtain ⟨data, rfl⟩ : ∃ data, l = .read (.binary data) := by
    cases l with
    | read msg =>
      cases msg with
      | binary data => exact ⟨data, rfl⟩
      | _ => cases here
    | _ => cases here
  obtain rfl : data = some ⟨some (.reset reset)⟩ := by
    cases data with
    | none => cases here
    | some frame => rw [List.mem_singleton.mp here]
  cases held : s.stream with
  | none =>
    rcases List.eq_nil_or_concat frames with rfl | ⟨init, last, rfl⟩
    · exact absurd opening not_opening_reset
    · exact stays held (by simp)
  | some st =>
    obtain ⟨opened, task, _, codec, _⟩ := served.sound.held st held
    have json : task.json = false := by simpa [codec] using served.codec
    rw [json] at codec
    obtain rfl := served.sound.read_frame held taken (by rw [Ws.Conn.decode_locked _ codec opened]; rfl)
    exact s.dropStream_stream

theorem Served.step_halfClosed {r : Route} {frames : List Frame} {s t : Ws.Conn} {l : Ws.Label}
    (served : Served r frames s) (binary : ∀ text, l ≠ .read (.text text)) (taken : Ws.Step r.config s l t) (i : Nat)
    (released : t.stream = some ⟨i, false⟩) : ⟨some .halfClose⟩ ∈ frames ++ framesOf [l] := by
  have same (stream : t.stream = s.stream) : ⟨some .halfClose⟩ ∈ frames ++ framesOf [l] :=
    List.mem_append_left _ (served.halfClosed i (stream ▸ released))
  cases served.sound.step_turn taken with
  | quiet _ stream => exact same stream
  | opened _ _ opens =>
    subst opens
    cases released
  | fed _ _ _ _ _ stream => exact same stream
  | @released _ st _ held closes _ stream =>
    obtain ⟨msg, json, _, rfl, decoded, _⟩ := closes
    obtain ⟨_, rfl⟩ := decode_other (fun text same => binary text (by rw [same])) (by simp) decoded
    exact List.mem_append_right _ (List.mem_singleton_self _)
  | dropped _ _ stream => cases stream.symm.trans released
  | advanced _ _ _ stream => exact same stream

theorem Served.step {r : Route} {frames : List Frame} {s t : Ws.Conn} {l : Ws.Label}
    (served : Served r frames s) (binary : ∀ text, l ≠ .read (.text text))
    (opening : Opening r (frames ++ framesOf [l])) (taken : Ws.Step r.config s l t) :
    Served r (frames ++ framesOf [l]) t where
  sound := served.sound.step taken
  codec := served.step_codec binary taken
  tasks := served.step_tasks binary opening taken
  refused := served.step_refused binary opening taken
  cancelled := served.step_cancelled binary opening taken
  halfClosed := served.step_halfClosed binary taken

/-! ### Runs -/

/-- The only task or the read loop sent a message, the latter to refuse something. -/
def Spoken (r : Route) (frames : List Frame) (e : Option Nat × Ws.TungMessage Value) : Prop :=
  match e.1 with
  | some i => i = 0
  | none => ∃ reset, e.2 = .binary reset ∧ Refusal r frames reset

theorem Spoken.mono {r : Route} {frames : List Frame} {e : Option Nat × Ws.TungMessage Value} (spoken : Spoken r frames e)
    (more : List Frame) : Spoken r (frames ++ more) e := by
  obtain ⟨_ | i, msg⟩ := e
  · obtain ⟨reset, same, refusal⟩ := spoken
    exact ⟨reset, same, refusal.mono (List.prefix_append _ _)⟩
  · exact spoken

theorem Served.spoken {r : Route} {frames : List Frame} {s : Ws.Conn} (served : Served r frames s) (l : Ws.Label) :
    ∀ e ∈ emits s l, Spoken r frames e := by
  intro e member
  unfold emits at member
  split at member
  · split at member
    · rename_i i _ msg next waits
      obtain ⟨sent, _, rfl⟩ := List.mem_map.mp member
      obtain ⟨task, found, _⟩ := Option.bind_eq_some_iff.mp waits
      rcases served.tasks with empty | ⟨_, tasks, _⟩
      · rw [empty] at found
        cases found
      · rw [tasks] at found
        have within := (List.getElem?_eq_some_iff.mp found).1
        rw [List.length_singleton] at within
        show i = 0
        omega
    · cases member
  · split at member
    · rename_i reset json drop waits
      obtain ⟨sent, put, rfl⟩ := List.mem_map.mp member
      obtain ⟨rfl, refusal⟩ := served.refused reset json drop waits
      unfold Ws.Conn.sent at put
      split at put
      · exact ⟨reset, List.mem_singleton.mp put, refusal⟩
      · cases put
    · cases member
  · cases member

/-- A run that reads what a single-stream client sends. -/
theorem run_served {r : Route} (unlocked : r.codec.getD false = false) {ls : List Ws.Label} {s : Ws.Conn}
    (run : Ws.Run r.config ls s) (binary : ∀ text, .read (.text text) ∉ ls) (opening : Opening r (framesOf ls)) :
    Served r (framesOf ls) s ∧ ∀ e ∈ authored r.config (.initial r.config) ls, Spoken r (framesOf ls) e := by
  refine run.history (Q := fun pre _ l => (∀ text, l ≠ .read (.text text)) ∧ Opening r (framesOf (pre ++ [l])))
    (P := fun ls s => Served r (framesOf ls) s ∧
      ∀ e ∈ authored r.config (.initial r.config) ls, Spoken r (framesOf ls) e) ?_ ?_ ?_
  · intro pre l _ within _
    refine ⟨?_, ?_⟩
    · rintro text rfl
      exact binary text (within.subset (by simp))
    · obtain ⟨rest, before, others⟩ := opening
      obtain ⟨post, rfl⟩ := within
      rw [Ws.RequestStream.framesOf_append] at before
      exact ⟨rest, (List.prefix_append _ _).trans before, others⟩
  · rintro pre u l v before ⟨served, spoken⟩ ⟨binary, opening⟩ taken
    rw [Ws.RequestStream.framesOf_append] at opening ⊢
    refine ⟨served.step binary opening taken, ?_⟩
    rw [authored_snoc before taken]
    intro e member
    rcases List.mem_append.mp member with earlier | here
    · exact (spoken e earlier).mono _
    · exact (served.spoken l e here).mono _
  · exact ⟨.initial unlocked, List.forall_mem_nil _⟩

end

end EndToEnd
end GrpcWebnext
