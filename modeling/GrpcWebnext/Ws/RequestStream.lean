import Mathlib.Data.List.Infix
import Mathlib.Data.List.TakeWhile
import GrpcWebnext.GrpcFraming
import GrpcWebnext.Ws.RequestChannel

/-!
# The request stream of a binary connection

What a backend reads of the request body, against the frames that the client sent. Each payload is
in one place: the body, the channel, or the read loop that waits to feed it.
-/

namespace GrpcWebnext
namespace Ws
open SerdeJson Transition GrpcFraming

namespace RequestStream

section

/-! ### What the client sends -/

def stops (maxMessageBytes : Nat) (f : Frame) : Bool :=
  match f.kind with
  | some (.message m) => m.payload.length > maxMessageBytes
  | some .halfClose => true
  | some (.reset _) => true
  | _ => false

def payload? (f : Frame) : Option Bytes :=
  match f.kind with
  | some (.message m) => some m.payload
  | _ => none

/-- The payloads of the messages before the first frame that ends the stream. -/
def messages (maxMessageBytes : Nat) (frames : List Frame) : List Bytes :=
  (frames.takeWhile fun f => !stops maxMessageBytes f).filterMap payload?

def firstPayload (sub : Subscribe) : List Bytes :=
  if sub.initialPayload.isEmpty then [] else [sub.initialPayload]

theorem messages_stopped {maxMessageBytes : Nat} {frames : List Frame}
    (stopped : frames.any (stops maxMessageBytes) = true) (more : List Frame) :
    messages maxMessageBytes (frames ++ more) = messages maxMessageBytes frames := by
  unfold messages
  rw [List.takeWhile_append, if_neg]
  intro whole
  obtain ⟨f, member, stop⟩ := List.any_eq_true.mp stopped
  have kept := List.takeWhile_eq_self_iff.mp (List.takeWhile_sublist _ |>.eq_of_length whole) f member
  simp [stop] at kept

theorem messages_running {maxMessageBytes : Nat} {frames : List Frame}
    (running : frames.any (stops maxMessageBytes) = false) (more : List Frame) :
    messages maxMessageBytes (frames ++ more) = messages maxMessageBytes frames ++ messages maxMessageBytes more := by
  have through : ∀ f ∈ frames, (!stops maxMessageBytes f) = true := by simpa using running
  unfold messages
  rw [List.takeWhile_append_of_pos through, List.takeWhile_eq_self_iff.mpr through, List.filterMap_append]

theorem messages_single {maxMessageBytes : Nat} {f : Frame} :
    messages maxMessageBytes [f] = if stops maxMessageBytes f then [] else (payload? f).toList := by
  unfold messages
  by_cases stop : stops maxMessageBytes f = true
  · simp [stop]
  · cases payload : payload? f <;> simp [stop, payload]

/-! ### What goes through the channel -/

variable [ProstReflect]

/-- Of the payloads `all`, in order, the body read some, the channel holds some, and the read loop
waits to feed `pending`. Without a receiver the rest is lost. -/
structure Passed (all pending : List Bytes) (task : Task) : Prop where
  binary : task.json = false ∧ task.transcoder = none
  inOrder : task.delivered ++ task.requests.map frame <+: all.map frame
  whole : task.receiver = true → task.delivered ++ (task.requests ++ pending).map frame = all.map frame
  ended : task.bodyEnded = true → task.requests = [] ∧ task.delivered = all.map frame

theorem Passed.stopped {all pending : List Bytes} {task : Task} (passed : Passed all pending task) :
    Passed all pending { task with aborted := true } :=
  ⟨passed.binary, passed.inOrder, passed.whole, passed.ended⟩

theorem Passed.feed {all : List Bytes} {task : Task} (passed : Passed all [] task) (payload : Bytes)
    (reading : task.bodyEnded = false) : Passed (all ++ [payload]) [payload] task where
  binary := passed.binary
  inOrder := by
    rw [List.map_append]
    exact passed.inOrder.trans (List.prefix_append _ _)
  whole receives := by
    have whole := passed.whole receives
    rw [List.append_nil] at whole
    rw [List.map_append, List.map_append, ← List.append_assoc, whole]
  ended past := by simp [reading] at past

theorem Passed.fed {all : List Bytes} {task : Task} {payload : Bytes} (passed : Passed all [payload] task)
    (receives : task.receiver = true) (reading : task.bodyEnded = false) :
    Passed all [] { task with requests := task.requests ++ [payload] } where
  binary := passed.binary
  inOrder := by rw [passed.whole receives]
  whole _ := by rw [List.append_nil]; exact passed.whole receives
  ended past := by simp [reading] at past

theorem Passed.lost {all pending : List Bytes} {task : Task} (passed : Passed all pending task)
    (gone : task.receiver = false) : Passed all [] task where
  binary := passed.binary
  inOrder := passed.inOrder
  whole receives := by simp [gone] at receives
  ended := passed.ended

theorem requestFrame_binary (path : String) (payload : Bytes) : requestFrame none none path payload = frame payload :=
  rfl

theorem Passed.advance {cfg : Config} (plain : cfg.params.ann = none) {all pending : List Bytes} {sender : Bool}
    {event : TaskEvent} {task task' : Task} (passed : Passed all pending task)
    (advances : task.Advances cfg sender event task') (held : sender = false → pending = []) :
    Passed all pending task' := by
  have binary : task'.json = false ∧ task'.transcoder = none :=
    ⟨advances.json.trans passed.binary.1, (advances.transcoder passed.binary.1).trans passed.binary.2⟩
  rcases advances.body with ⟨requests, delivered, ended⟩ | ⟨payload, _, queue, delivered, ended⟩ |
    ⟨receives, _, empty, released, rfl⟩
  · refine ⟨binary, ?_, fun receives => ?_, fun past => ?_⟩
    · rw [requests, delivered]; exact passed.inOrder
    · rw [requests, delivered]; exact passed.whole (advances.receiver receives)
    · rw [requests, delivered]; exact passed.ended (ended.symm.trans past)
  · rw [plain, passed.binary.2, requestFrame_binary] at delivered
    have same : ∀ rest : List Bytes, task'.delivered ++ (task'.requests ++ rest).map frame =
        task.delivered ++ (task.requests ++ rest).map frame := by
      intro rest
      rw [delivered, queue]
      simp
    refine ⟨binary, ?_, fun receives => ?_, fun past => ?_⟩
    · have here := same []
      rw [List.append_nil, List.append_nil] at here
      rw [here]
      exact passed.inOrder
    · rw [same]; exact passed.whole (advances.receiver receives)
    · have empty := (passed.ended (ended.symm.trans past)).1
      cases queue.symm.trans empty
  · refine ⟨binary, passed.inOrder, passed.whole, fun _ => ⟨empty, ?_⟩⟩
    have whole := passed.whole receives
    rw [empty, held released] at whole
    simpa using whole

/-! ### Every state of a run -/

variable [SerdeJson]

/-- The frames that the binary messages of a run hold. -/
def framesOf (ls : List Label) : List Frame :=
  ls.filterMap fun l =>
    match l with
    | .read (.binary data) => data
    | _ => none

theorem framesOf_append (first second : List Label) : framesOf (first ++ second) = framesOf first ++ framesOf second :=
  List.filterMap_append

/-- What the read loop waits to feed to task `i`. -/
def pending (i : Nat) (s : Conn) : List Bytes :=
  match s.reader with
  | .feeding payload => if s.sender i then [payload] else []
  | _ => []

/-- The read loop is about to drop the stream. -/
def dropping : Reader → Bool
  | .resetting _ _ drop => drop
  | .dropping => true
  | _ => false

/-- Task `i` got the payloads of `frames` behind `first`; without its sender no more of them count. -/
structure Faithful (maxMessageBytes : Nat) (first : List Bytes) (i : Nat) (frames : List Frame) (s : Conn) : Prop where
  passed : ∃ task, s.tasks[i]? = some task ∧
    Passed (first ++ messages maxMessageBytes frames) (pending i s) task ∧
    (task.bodyEnded = true → s.sender i = false)
  running : s.sender i = true → frames.any (stops maxMessageBytes) = dropping s.reader
  past : s.sender i = false → frames.any (stops maxMessageBytes) = true ∨ s.reader = .ended

theorem Conn.sender_iff {s : Conn} {i : Nat} : s.sender i = true ↔ s.stream = some ⟨i, true⟩ := by
  unfold Conn.sender
  rcases s.stream with _ | ⟨j, reqTx⟩
  · simp
  · cases reqTx <;> simp

theorem pending_released {i : Nat} {s : Conn} (released : s.sender i = false) : pending i s = [] := by
  unfold pending
  split
  · rw [if_neg (by simp [released])]
  · rfl

theorem body_open {i : Nat} {s : Conn} {task : Task} (reading : task.bodyEnded = true → s.sender i = false)
    (sends : s.sender i = true) : task.bodyEnded = false := by
  by_contra past
  have gone := reading (Bool.of_not_eq_false past)
  exact absurd sends (by simp [gone])

theorem cue_binary (cfg : Config) (msg : Inbound Value) :
    match cue cfg false msg with
    | .feed payload => messages cfg.maxMessageBytes (framesOf [.read msg]) = [payload] ∧
        (framesOf [.read msg]).any (stops cfg.maxMessageBytes) = false
    | .oversized | .halfClose | .cancel => messages cfg.maxMessageBytes (framesOf [.read msg]) = [] ∧
        (framesOf [.read msg]).any (stops cfg.maxMessageBytes) = true
    | .ignore | .duplicate | .leave => messages cfg.maxMessageBytes (framesOf [.read msg]) = [] ∧
        (framesOf [.read msg]).any (stops cfg.maxMessageBytes) = false := by
  cases msg with
  | close => exact ⟨rfl, rfl⟩
  | control => exact ⟨rfl, rfl⟩
  | text text => simp [cue, frameOf, kindCue, framesOf, messages]
  | binary data =>
    rcases data with _ | ⟨_ | kind⟩
    · exact ⟨rfl, rfl⟩
    · exact ⟨rfl, rfl⟩
    · cases kind with
      | message m =>
        by_cases large : m.payload.length > cfg.maxMessageBytes
        · simp [cue, frameOf, decodeBinary, kindCue, large, framesOf, messages_single, stops]
        · simp [cue, frameOf, decodeBinary, kindCue, large, framesOf, messages_single, stops, payload?]
      | _ => exact ⟨rfl, rfl⟩

theorem Faithful.keeps {maxMessageBytes : Nat} {first : List Bytes} {i : Nat} {frames : List Frame} {s : Conn}
    {task : Task} (held : s.sender i = true) (found : s.tasks[i]? = some task) (reads : task.bodyEnded = false)
    (passed : Passed (first ++ messages maxMessageBytes frames) (pending i s) task)
    (running : frames.any (stops maxMessageBytes) = dropping s.reader) :
    Faithful maxMessageBytes first i frames s :=
  ⟨⟨task, found, passed, fun past => by simp [reads] at past⟩, fun _ => running, fun gone => by simp [held] at gone⟩

theorem Faithful.ends {maxMessageBytes : Nat} {first : List Bytes} {i : Nat} {frames : List Frame} {s : Conn}
    {task : Task} (gone : s.sender i = false) (found : s.tasks[i]? = some task)
    (passed : Passed (first ++ messages maxMessageBytes frames) [] task)
    (past : frames.any (stops maxMessageBytes) = true ∨ s.reader = .ended) :
    Faithful maxMessageBytes first i frames s :=
  ⟨⟨task, found, by rw [pending_released gone]; exact passed, fun _ => gone⟩, fun held => by simp [gone] at held,
    fun _ => past⟩

theorem Passed.dropStream {all : List Bytes} {i : Nat} {s : Conn} {task : Task} (passed : Passed all [] task)
    (found : s.tasks[i]? = some task) : ∃ task', s.dropStream.tasks[i]? = some task' ∧ Passed all [] task' := by
  rw [Conn.dropStream_getElem, found]
  refine ⟨_, rfl, ?_⟩
  split
  · exact passed.stopped
  · exact passed

theorem Faithful.resume {maxMessageBytes : Nat} {first : List Bytes} {i : Nat} {frames : List Frame} {s t : Conn}
    (faithful : Faithful maxMessageBytes first i frames s)
    (held : s.stream = some ⟨i, true⟩) (taken : s.resume = some t) :
    Faithful maxMessageBytes first i frames t := by
  obtain ⟨task, found, passed, reading⟩ := faithful.passed
  have sends : s.sender i = true := Conn.sender_iff.mpr held
  have running := faithful.running sends
  have reads := body_open reading sends
  cases Conn.resume_some taken with
  | @discarded payload waits lost =>
    have here : pending i s = [payload] := by simp [pending, waits, sends]
    rw [waits] at running
    rw [here] at passed
    exact .keeps sends found reads (passed.lost (lost _ task held found)) running
  | @fed payload st task' waits held' found' receives =>
    have here : pending i s = [payload] := by simp [pending, waits, sends]
    rw [waits] at running
    rw [here] at passed
    obtain rfl := Option.some.inj (held.symm.trans held')
    obtain rfl := Option.some.inj (found.symm.trans found')
    have within := (List.getElem?_eq_some_iff.mp found).1
    exact .keeps sends (List.getElem?_set_self within) reads (passed.fed receives reads) running
  | @reset reset json drop s' waits put =>
    have idle : pending i s = [] := by simp [pending, waits]
    rw [waits] at running
    rw [idle] at passed
    obtain rfl := Conn.put_eq put
    cases drop with
    | true => exact .keeps sends found reads passed running
    | false => exact .keeps sends found reads passed running
  | dropped waits =>
    have idle : pending i s = [] := by simp [pending, waits]
    rw [waits] at running
    rw [idle] at passed
    obtain ⟨task', found', passed'⟩ := passed.dropStream found
    exact .ends (by simp [Conn.sender, s.dropStream_stream]) found' passed' (.inl running)

variable [UriParser]

theorem step_ended {cfg : Config} {s t : Conn} {l : Label} (ended : s.reader = .ended) (taken : Step cfg s l t) :
    t.reader = .ended ∧ framesOf [l] = [] := by
  cases l with
  | read msg => cases ended.symm.trans (Conn.read_ready taken)
  | resume => simp [Step, Conn.step, Conn.resume, ended] at taken
  | leave => simp [Step, Conn.step, ended] at taken
  | task i event =>
    obtain ⟨_, _, _, _, _, _, reader, _⟩ := Conn.stepTask_advances taken
    exact ⟨reader.trans ended, rfl⟩
  | write =>
    obtain ⟨_, ⟨⟩⟩ := Option.ite_none_right_eq_some.mp taken
    exact ⟨ended, rfl⟩
  | writerDied => cases taken; exact ⟨ended, rfl⟩

theorem Faithful.released {cfg : Config} (plain : cfg.params.ann = none) {first : List Bytes} {i : Nat}
    {frames : List Frame} {s t : Conn} {l : Label} (sound : s.Sound)
    (faithful : Faithful cfg.maxMessageBytes first i frames s) (released : s.sender i = false)
    (taken : Step cfg s l t) : Faithful cfg.maxMessageBytes first i (frames ++ framesOf [l]) t := by
  obtain ⟨task, found, passed, _⟩ := faithful.passed
  have within := (List.getElem?_eq_some_iff.mp found).1
  rw [pending_released released] at passed
  have same : messages cfg.maxMessageBytes (frames ++ framesOf [l]) = messages cfg.maxMessageBytes frames := by
    rcases faithful.past released with stopped | ended
    · exact messages_stopped stopped _
    · rw [(step_ended ended taken).2, List.append_nil]
  have after : t.sender i = false ∧ ∃ task', t.tasks[i]? = some task' ∧
      Passed (first ++ messages cfg.maxMessageBytes frames) [] task' := by
    cases sound.step_turn taken with
    | quiet tasks stream => exact ⟨by rw [Conn.sender, stream]; exact released, task, by rw [tasks, found], passed⟩
    | opened idle decoded opens =>
      rename_i msg sub json
      obtain ⟨_, _, eq, _⟩ := s.decode_eq cfg msg
      subst opens
      rw [eq]
      refine ⟨?_, task, ?_, passed⟩
      · have other : s.tasks.length ≠ i := by omega
        simp [Conn.sender, Conn.openStream, other]
      · rw [Conn.openStream_tasks, List.getElem?_append_left within, found]
    | fed waits held _ _ tasks stream =>
      rename_i _ st _
      obtain ⟨j, owner⟩ := sound.feeding_stream waits
      obtain rfl := Option.some.inj (held.symm.trans owner)
      have other : j ≠ i := by
        rintro rfl
        rw [Conn.sender_iff.mpr owner] at released
        cases released
      exact ⟨by rw [Conn.sender, stream]; exact released, task, by rw [tasks, List.getElem?_set_ne other, found], passed⟩
    | released held _ tasks stream => exact ⟨by simp [Conn.sender, stream], task, by rw [tasks, found], passed⟩
    | dropped _ tasks stream =>
      refine ⟨by simp [Conn.sender, stream], ?_⟩
      rw [tasks]
      exact passed.dropStream found
    | advanced here advances tasks stream =>
      rename_i j event before after
      refine ⟨by rw [Conn.sender, stream]; exact released, ?_⟩
      rw [tasks]
      by_cases own : j = i
      · subst own
        obtain rfl := Option.some.inj (found.symm.trans here)
        exact ⟨after, List.getElem?_set_self within, passed.advance plain advances (fun _ => rfl)⟩
      · exact ⟨task, by rw [List.getElem?_set_ne own, found], passed⟩
  obtain ⟨gone, task', found', passed'⟩ := after
  refine .ends gone found' ?_ ?_
  · rw [same]
    exact passed'
  · rcases faithful.past released with stopped | ended
    · exact .inl (by rw [List.any_append, stopped, Bool.true_or])
    · exact .inr (step_ended ended taken).1

theorem Faithful.read {cfg : Config} {first : List Bytes} {i : Nat} {frames : List Frame} {s t : Conn}
    {msg : Inbound Value} (sound : s.Sound) (faithful : Faithful cfg.maxMessageBytes first i frames s)
    (held : s.stream = some ⟨i, true⟩) (taken : s.read cfg msg = some t) :
    Faithful cfg.maxMessageBytes first i (frames ++ framesOf [.read msg]) t := by
  obtain ⟨task, found, passed, reading⟩ := faithful.passed
  obtain ⟨opened, task', same, codec, _⟩ := sound.held _ held
  obtain rfl := Option.some.inj (found.symm.trans same)
  rw [passed.binary.1] at codec
  have ready := Conn.read_ready taken
  have sends : s.sender i = true := Conn.sender_iff.mpr held
  have running : frames.any (stops cfg.maxMessageBytes) = false := by rw [faithful.running sends, ready]; rfl
  have reads := body_open reading sends
  have idle : pending i s = [] := by simp [pending, ready]
  have more := messages_running running (framesOf [.read msg])
  have added := cue_binary cfg msg
  have next := Conn.read_open cfg ready codec opened held msg
  obtain rfl := Option.some.inj (next.symm.trans taken)
  rw [idle] at passed
  cases seen : cue cfg false msg with
  | ignore =>
    rw [seen] at added
    show Faithful cfg.maxMessageBytes first i _ s
    refine .keeps sends found reads ?_ ?_
    · rw [more, added.1, List.append_nil, idle]
      exact passed
    · rw [List.any_append, running, added.2, ready]
      rfl
  | duplicate =>
    rw [seen] at added
    refine .keeps sends found reads ?_ ?_
    · rw [more, added.1, List.append_nil]
      exact passed
    · rw [List.any_append, running, added.2]
      rfl
  | feed payload =>
    rw [seen] at added
    have here : pending i (s.onCue false ⟨i, true⟩ (.feed payload)) = [payload] := if_pos sends
    refine .keeps sends found reads ?_ ?_
    · rw [more, added.1, here, ← List.append_assoc]
      exact passed.feed payload reads
    · rw [List.any_append, running, added.2]
      rfl
  | oversized =>
    rw [seen] at added
    refine .keeps sends found reads ?_ ?_
    · rw [more, added.1, List.append_nil]
      exact passed
    · rw [List.any_append, added.2, Bool.or_true]
      rfl
  | halfClose =>
    rw [seen] at added
    refine .ends (by simp [Conn.onCue, Conn.sender]) found ?_ (.inl ?_)
    · rw [more, added.1, List.append_nil]
      exact passed
    · rw [List.any_append, added.2, Bool.or_true]
  | cancel =>
    rw [seen] at added
    obtain ⟨task', found', passed'⟩ := passed.dropStream found
    refine .ends (by simp [Conn.onCue, Conn.sender, s.dropStream_stream]) found' ?_ (.inl ?_)
    · rw [more, added.1, List.append_nil]
      exact passed'
    · rw [List.any_append, added.2, Bool.or_true]
  | leave =>
    rw [seen] at added
    obtain ⟨task', found', passed'⟩ := passed.dropStream found
    refine .ends (by simp [Conn.onCue, Conn.leave, Conn.sender, s.dropStream_stream]) found' ?_ (.inr rfl)
    rw [more, added.1, List.append_nil]
    exact passed'

theorem Faithful.step {cfg : Config} (plain : cfg.params.ann = none) {first : List Bytes} {i : Nat}
    {frames : List Frame} {s t : Conn} {l : Label} (sound : s.Sound)
    (faithful : Faithful cfg.maxMessageBytes first i frames s) (taken : Step cfg s l t) :
    Faithful cfg.maxMessageBytes first i (frames ++ framesOf [l]) t := by
  cases sends : s.sender i with
  | false => exact faithful.released plain sound sends taken
  | true =>
    have held := Conn.sender_iff.mp sends
    cases l with
    | read msg => exact faithful.read sound held taken
    | resume => exact (List.append_nil frames).symm ▸ faithful.resume held taken
    | leave =>
      obtain ⟨ready, ⟨⟩⟩ := Option.ite_none_right_eq_some.mp taken
      obtain ⟨task, found, passed, _⟩ := faithful.passed
      have idle : pending i s = [] := by
        unfold pending
        split
        · rename_i waits
          simp [waits] at ready
        · rfl
      rw [idle] at passed
      obtain ⟨task', found', passed'⟩ := passed.dropStream found
      refine .ends (by simp [Conn.leave, Conn.sender, s.dropStream_stream]) found' ?_ (.inr rfl)
      exact (List.append_nil frames).symm ▸ passed'
    | task j event =>
      obtain ⟨before, after, here, advances, tasks, stream, reader, _⟩ := Conn.stepTask_advances taken
      obtain ⟨task, found, passed, reading⟩ := faithful.passed
      have same : t.sender i = s.sender i := by rw [Conn.sender, stream]; rfl
      have waits : pending i t = pending i s := by rw [pending, reader, same]; rfl
      rw [show frames ++ framesOf [.task j event] = frames from List.append_nil frames]
      refine ⟨?_, ?_, ?_⟩
      · rw [tasks, waits, same]
        by_cases own : j = i
        · subst own
          obtain rfl := Option.some.inj (found.symm.trans here)
          refine ⟨after, List.getElem?_set_self (List.getElem?_eq_some_iff.mp found).1,
            passed.advance plain advances pending_released, fun past => ?_⟩
          rcases advances.body with ⟨_, _, ended⟩ | ⟨_, _, _, _, ended⟩ | ⟨_, _, _, released, _⟩
          · exact reading (ended.symm.trans past)
          · exact reading (ended.symm.trans past)
          · exact released
        · exact ⟨task, by rw [List.getElem?_set_ne own, found], passed, reading⟩
      · rw [same, reader]; exact faithful.running
      · rw [same, reader]; exact faithful.past
    | write =>
      obtain ⟨_, ⟨⟩⟩ := Option.ite_none_right_eq_some.mp taken
      exact (List.append_nil frames).symm ▸ ⟨faithful.passed, faithful.running, faithful.past⟩
    | writerDied =>
      cases taken
      exact (List.append_nil frames).symm ▸ ⟨faithful.passed, faithful.running, faithful.past⟩

theorem Faithful.opened (cfg : Config) (plain : cfg.params.ann = none) {s t : Conn} {msg : Inbound Value}
    {sub : Subscribe} (decoded : (s.decode cfg msg).2 = some (⟨some (.subscribe sub)⟩, false))
    (accepted : s.rejection cfg ⟨some (.subscribe sub)⟩ = none) (taken : s.read cfg msg = some t) :
    Faithful cfg.maxMessageBytes (firstPayload sub) s.tasks.length [] t := by
  have ready := Conn.read_ready taken
  obtain ⟨_, _, eq, _⟩ := s.decode_eq cfg msg
  have tasks : (s.decode cfg msg).1.tasks = s.tasks := by rw [eq]
  have waits : (s.decode cfg msg).1.reader = .ready := by rw [eq]; exact ready
  have opens : t = (s.decode cfg msg).1.openStream cfg sub false := by
    cases (Conn.read_some taken).2 with
    | left => cases decoded
    | skipped _ none_ => cases none_.symm.trans decoded
    | handled passed =>
      obtain ⟨rfl, rfl⟩ := Prod.mk.inj (Option.some.inj (passed.symm.trans decoded))
      simp only [Conn.handleFrame, s.rejection_decode cfg, accepted]
  subst opens
  have sends : ((s.decode cfg msg).1.openStream cfg sub false).sender s.tasks.length = true := by
    simp [Conn.sender, Conn.openStream, tasks, plain]
  have found : ((s.decode cfg msg).1.openStream cfg sub false).tasks[s.tasks.length]? =
      some (openTask cfg sub false) := by
    rw [Conn.openStream_tasks, tasks, List.getElem?_concat_length]
  refine .keeps sends found rfl ?_ ?_
  · have idle : pending s.tasks.length ((s.decode cfg msg).1.openStream cfg sub false) = [] := by
      simp [pending, Conn.openStream, waits]
    have requests : (openTask cfg sub false).requests = firstPayload sub := by
      simp [openTask, plain, firstPayload]
    have all : firstPayload sub ++ messages cfg.maxMessageBytes [] = firstPayload sub := List.append_nil _
    rw [idle, all]
    refine ⟨⟨rfl, rfl⟩, ?_, fun _ => ?_, fun ended => ?_⟩
    · rw [requests]
      exact List.prefix_rfl
    · rw [requests, List.append_nil]
      rfl
    · cases ended
  · simp [Conn.openStream, waits, dropping]

/-- What the backend reads of a request stream is a prefix of the framed payloads that the client put
into it, in order, each once; a body read to its end is all of it. -/
theorem request_stream (maxMessageBytes : Nat) (schema : Schema.Inner) (codec : Option Bool) (uriPath : String)
    {pre post : List Label} {msg : Inbound Value} {sub : Subscribe} {s t : Conn}
    (before : Run (.upgrade maxMessageBytes schema none codec uriPath) pre s)
    (decoded : (s.decode (.upgrade maxMessageBytes schema none codec uriPath) msg).2 =
      some (⟨some (.subscribe sub)⟩, false))
    (accepted : s.rejection (.upgrade maxMessageBytes schema none codec uriPath) ⟨some (.subscribe sub)⟩ = none)
    (run : Run (.upgrade maxMessageBytes schema none codec uriPath) (pre ++ .read msg :: post) t) :
    ∃ task, t.tasks[s.tasks.length]? = some task ∧
      task.delivered.flatten <+:
        ((firstPayload sub ++ messages maxMessageBytes (framesOf post)).map frame).flatten ∧
      (task.bodyEnded = true →
        task.delivered.flatten = ((firstPayload sub ++ messages maxMessageBytes (framesOf post)).map frame).flatten) := by
  obtain ⟨s', before', after⟩ := Transition.Run.split run
  obtain rfl := before.unique step_functional before'
  cases after with | cons taken rest
  have start := Faithful.opened (.upgrade maxMessageBytes schema none codec uriPath) rfl decoded accepted taken
  have sound := (Run.sound before).step taken
  have both := rest.history (Q := fun _ _ _ => True) (fun _ _ _ _ _ => trivial)
    (P := fun ls u => u.Sound ∧ Faithful maxMessageBytes (firstPayload sub) s.tasks.length (framesOf ls) u)
    (fun ls u l v _ kept _ taken => by
      rw [framesOf_append]
      exact ⟨kept.1.step taken, kept.2.step rfl kept.1 taken⟩)
    ⟨sound, start⟩
  obtain ⟨task, found, passed, _⟩ := both.2.passed
  refine ⟨task, found, ?_, fun past => by rw [(passed.ended past).2]⟩
  exact ((List.prefix_append task.delivered _).trans passed.inOrder).flatten

end

attribute [local instance] flagSchema flagTexts slashUris

def readToEnd : List Label :=
  [.task 0 .begin, .read (.binary (some ⟨some (.message ⟨[7]⟩)⟩)), .resume, .task 0 .deliver,
    .read (.binary (some ⟨some .halfClose⟩)), .read (.binary (some ⟨some (.message ⟨[8]⟩)⟩)), .task 0 .endBody]

theorem request_stream_read_to_end : ∃ (t : Conn) (task : Task), task.bodyEnded = true ∧
    task.delivered = [[0, 0, 0, 0, 1, 7]] ∧ t.tasks[0]? = some task ∧
      task.delivered.flatten <+: (([] ++ messages 4 (framesOf readToEnd)).map frame).flatten ∧
      (task.bodyEnded = true →
        task.delivered.flatten = (([] ++ messages 4 (framesOf readToEnd)).map frame).flatten) := by
  have run : Run (.upgrade 4 .none none (some false) "/flag.Flags/Set")
      ([] ++ .read (.binary (some subscribeFrame)) :: readToEnd) _ :=
    .cons rfl (.cons rfl (.cons rfl (.cons rfl (.cons rfl (.cons rfl (.cons rfl (.cons rfl (.nil _))))))))
  obtain ⟨task, found, fidelity⟩ := request_stream 4 .none (some false) "/flag.Flags/Set" (.nil _) rfl rfl run
  refine ⟨_, task, ?_, ?_, found, fidelity⟩
  · obtain rfl := Option.some.inj found
    rfl
  · obtain rfl := Option.some.inj found
    rfl

end RequestStream
end Ws
end GrpcWebnext
