import Mathlib.Data.List.Infix
import GrpcWebnext.Ws.RequestChannel

/-!
# The response stream of a connection

What each task puts into the outbound channel, in whatever order the parties of the connection move,
against what `runStream` makes of the same answer of the backend without a clock.
-/

namespace GrpcWebnext
open GrpcFraming

/-! ### A body so far -/

namespace Body

def lastTrailers (held : HeaderMap) : Body → HeaderMap
  | [] => held
  | .data _ :: rest => lastTrailers held rest
  | .trailers t :: rest => lastTrailers t rest
  | .error _ :: _ => held
  | .eof :: _ => held

/-- The body with all of its events there at once. -/
def timeless (body : Body) : TimedBody := body.map (0, ·)

theorem arrivals_timeless (body : Body) :
    let seen := arrivals none 0 (timeless body)
    Arrivals.bytes seen.frames = body.bytes ∧
      (∀ held, Arrivals.lastTrailers held seen.frames = body.lastTrailers held) ∧
      (if body.stops then seen.halt = .eof 0 ∨ ∃ e, seen.halt = .error 0 e else seen.halt = .pending) := by
  induction body with
  | nil => exact ⟨rfl, fun _ => rfl, rfl⟩
  | cons event rest ih =>
    obtain ⟨bytes, trailers, halt⟩ := ih
    cases event with
    | data d => exact ⟨congrArg (d ++ ·) bytes, trailers, halt⟩
    | trailers t => exact ⟨bytes, fun _ => trailers t, halt⟩
    | error e => exact ⟨rfl, fun _ => rfl, .inr ⟨e, rfl⟩⟩
    | eof => exact ⟨rfl, fun _ => rfl, .inl rfl⟩

theorem snoc {body : Body} (open_ : body.stops = false) (event : BodyEvent) :
    Body.bytes (body ++ [event]) = body.bytes ++ Body.bytes [event] ∧
      (∀ held, Body.lastTrailers held (body ++ [event]) = Body.lastTrailers (body.lastTrailers held) [event]) ∧
      Body.stops (body ++ [event]) = Body.stops [event] := by
  induction body with
  | nil => exact ⟨rfl, fun _ => rfl, rfl⟩
  | cons first rest ih =>
    cases first with
    | data d =>
      obtain ⟨bytes, trailers, stops⟩ := ih open_
      refine ⟨?_, trailers, stops⟩
      simp only [List.cons_append, Body.bytes, bytes, List.append_assoc]
    | trailers t =>
      obtain ⟨bytes, trailers, stops⟩ := ih open_
      exact ⟨bytes, fun _ => trailers t, stops⟩
    | error e => cases open_
    | eof => cases open_

end Body

namespace Ws
open SerdeJson Transition

namespace ResponseStream

section

variable [ProstReflect]

/-! ### What a stream has to send -/

/-- The call as far as the backend settled it. The pump does not look at the status of the response. -/
def settled (answer : Option (Except BoxError HeaderMap)) (body : Body) : Call :=
  answer.map fun
    | .ok headers => (0, .ok ⟨200, headers, body.timeless⟩)
    | .error e => (0, .error e)

/-- What the reply of a task depends on. -/
structure Origin where
  transcoder : Option Transcoder
  path : String
  timeout : Option Nat
  json : Bool

def origin (t : Task) : Origin := ⟨t.transcoder, t.methodPath, t.timeout, t.json⟩

def reply (o : Origin) (answer : Option (Except BoxError HeaderMap)) (body : Body) : List Frame :=
  (runStream o.transcoder o.path none (settled answer body)).sent

/-- The frames of the messages in the bytes of the body so far, and the `Reset` of one without a JSON form. -/
def messagesOf (o : Origin) (body : Body) : List Frame × Option Frame :=
  messageFrames o.transcoder o.path (grpc.drain body.bytes).1

theorem reply_answered (o : Origin) (headers : HeaderMap) (body : Body) :
    reply o (some (.ok headers)) body = headerFrame headers :: ((messagesOf o body).1 ++
      match (messagesOf o body).2 with
      | some reset => [reset]
      | none => if body.stops then [trailerFrame headers (body.lastTrailers [])] else []) := by
  obtain ⟨bytes, trailers, halt⟩ := body.arrivals_timeless
  have sent := runStream_sent o.transcoder o.path inTime_now ⟨200, headers, body.timeless⟩
  refine sent.trans (congrArg (headerFrame headers :: ·) ?_)
  simp only [bytes, trailers, deframeAll_eq]
  change (match (messagesOf o body).2 with
    | some reset => (messagesOf o body).1 ++ [reset]
    | none => (messagesOf o body).1 ++ endFrames headers (body.lastTrailers []) _) = _
  cases (messagesOf o body).2 with
  | some reset => rfl
  | none =>
    cases stops : body.stops with
    | true =>
      rw [stops, if_pos rfl] at halt
      rcases halt with halt | ⟨e, halt⟩ <;> simp [halt, endFrames]
    | false =>
      rw [stops, if_neg Bool.false_ne_true] at halt
      simp [halt, endFrames]

theorem reply_failed (o : Origin) (e : BoxError) (body : Body) :
    reply o (some (.error e)) body = [unavailableFrame e] := rfl

theorem messagesOf_progress (o : Origin) (body : Body) : ∀ frame ∈ (messagesOf o body).1, frame.status? = none :=
  messageFrames_messages _ _ _

theorem messagesOf_data {o : Origin} {body : Body} (open_ : body.stops = false)
    (clean : (messagesOf o body).2 = none) (d : Bytes) :
    let more := messageFrames o.transcoder o.path (grpc.drain ((grpc.drain body.bytes).2 ++ d)).1
    (grpc.drain (Body.bytes (body ++ [.data d]))).2 = (grpc.drain ((grpc.drain body.bytes).2 ++ d)).2 ∧
      messagesOf o (body ++ [.data d]) = ((messagesOf o body).1 ++ more.1, more.2) := by
  have bytes := (Body.snoc open_ (.data d)).1
  rw [show Body.bytes [.data d] = d from List.append_nil d] at bytes
  unfold messagesOf at clean ⊢
  rw [bytes, LengthPrefix.Format.drain_append _ body.bytes, messageFrames_append, clean]
  exact ⟨rfl, rfl⟩

/-! ### Where a stream stands -/

/-- The pump of a stream has taken in the body so far and made `all` of it. -/
structure Pumped (o : Origin) (headers : HeaderMap) (body : Body) (all : List Frame) (pump : Pump) : Prop where
  open_ : body.stops = false
  clean : (messagesOf o body).2 = none
  all : all = headerFrame headers :: (messagesOf o body).1
  rest : pump.deframer.buf = (grpc.drain body.bytes).2
  trailers : pump.trailers = body.lastTrailers []

theorem Pumped.whole {o : Origin} {headers : HeaderMap} {body : Body} {all : List Frame} {pump : Pump}
    (pumped : Pumped o headers body all pump) : reply o (some (.ok headers)) body = all := by
  rw [reply_answered, pumped.clean, pumped.open_, pumped.all]
  simp

theorem Pumped.progress {o : Origin} {headers : HeaderMap} {body : Body} {all : List Frame} {pump : Pump}
    (pumped : Pumped o headers body all pump) : ∀ frame ∈ all, frame.status? = none := by
  rw [pumped.all]
  exact List.forall_mem_cons.mpr ⟨rfl, messagesOf_progress o body⟩

/-- One event of the body: the pump goes on with more frames to send, or the reply ends with a terminal frame. -/
theorem Pumped.turn {t : Task} {headers : HeaderMap} {body : Body} {all : List Frame} {pump : Pump}
    (pumped : Pumped (origin t) headers body all pump) (event : BodyEvent) :
    (∃ out pump', t.pump headers pump event = .pumping out headers pump' ∧
        Pumped (origin t) headers (body ++ [event]) (all ++ out) pump') ∨
      ∃ out terminal, t.pump headers pump event = .ending out terminal ∧
        reply (origin t) (some (.ok headers)) (body ++ [event]) = all ++ out ++ [terminal] ∧
        (∀ frame ∈ all ++ out, frame.status? = none) ∧ terminal.status?.isSome := by
  obtain ⟨bytes, lastTrailers, stops⟩ := Body.snoc pumped.open_ event
  have over_ (pure : Body.bytes [event] = []) : messagesOf (origin t) (body ++ [event]) = messagesOf (origin t) body := by
    unfold messagesOf
    rw [bytes, pure, List.append_nil]
  have ended (pure : Body.bytes [event] = []) (stop : Body.stops [event] = true)
      (same : Body.lastTrailers (body.lastTrailers []) [event] = body.lastTrailers []) :
      reply (origin t) (some (.ok headers)) (body ++ [event]) = all ++ [] ++ [trailerFrame headers pump.trailers] := by
    rw [reply_answered, over_ pure, pumped.clean, stops, stop, lastTrailers, same, pumped.all, pumped.trailers]
    simp
  cases event with
  | data d =>
    obtain ⟨rest, messages⟩ := messagesOf_data pumped.open_ pumped.clean d
    change messagesOf (origin t) _ = (_ ++ (messageFrames t.transcoder t.methodPath _).1,
      (messageFrames t.transcoder t.methodPath _).2) at messages
    simp only [Task.pump, pumpFrame, Deframer.push, drain_eq, pumped.rest]
    cases converted : (messageFrames t.transcoder t.methodPath
        (grpc.drain ((grpc.drain body.bytes).2 ++ d)).1).2 with
    | none =>
      left
      rw [converted] at messages
      refine ⟨_, _, rfl, stops.trans rfl, by rw [messages], ?_, rest.symm, ?_⟩
      · rw [messages, pumped.all, List.cons_append]
      · rw [lastTrailers, pumped.trailers]
        rfl
    | some reset =>
      right
      rw [converted] at messages
      refine ⟨_, _, rfl, ?_, ?_, messageFrames_reset _ _ _ reset converted⟩
      · rw [reply_answered, messages, pumped.all]
        simp
      · exact List.forall_mem_append.mpr ⟨pumped.progress, messageFrames_messages _ _ _⟩
  | trailers trailers =>
    left
    refine ⟨[], { pump with trailers }, rfl, stops.trans rfl, by rw [over_ rfl, pumped.clean], ?_, ?_, ?_⟩
    · rw [over_ rfl, List.append_nil, pumped.all]
    · rw [bytes, pumped.rest]
      exact congrArg (fun b => (grpc.drain b).2) (List.append_nil body.bytes).symm
    · rw [lastTrailers]
      rfl
  | error e => exact .inr ⟨[], _, rfl, ended rfl rfl rfl, by simpa using pumped.progress, rfl⟩
  | eof => exact .inr ⟨[], _, rfl, ended rfl rfl rfl, by simpa using pumped.progress, rfl⟩

/-! ### What a task has sent -/

/-- The task is short of a terminal frame. -/
def Partial (o : Origin) (answer : Option (Except BoxError HeaderMap)) (body : Body) (frames : List Frame) : Prop :=
  frames <+: reply o answer body ∧ ∀ frame ∈ frames, frame.status? = none

/-- The frames end with the terminal frame of the reply, with the expired deadline or with the refusal of a
stream without a transcoder. -/
inductive Ended (cfg : Config) (o : Origin) (answer : Option (Except BoxError HeaderMap)) (body : Body) :
    List Frame → Prop where
  | replied {frames : List Frame} {terminal : Frame} : reply o answer body = frames ++ [terminal] →
      (∀ frame ∈ frames, frame.status? = none) → terminal.status?.isSome →
      Ended cfg o answer body (frames ++ [terminal])
  | expired {frames : List Frame} : o.timeout.isSome = true → Partial o answer body frames →
      Ended cfg o answer body (frames ++ [deadlineFrame])
  | refused {current : Option Transcoder} {status : Status} : o.json = true →
      Schema.transcoder cfg.schema current o.path = .error status →
      Ended cfg o answer body [resetFrame status.code status.message]

/-- Behind `frames`, a task at `pc` has these still to send if the channel is `alive`. -/
def Stands (cfg : Config) (alive : Bool) (o : Origin) (answer : Option (Except BoxError HeaderMap)) (body : Body)
    (frames : List Frame) : Pc → Prop
  | .start => answer = none ∧ body = [] ∧ frames = []
  | .calling => answer = none ∧ body = [] ∧ frames = []
  | .rejecting reset => frames = [] ∧ Ended cfg o answer body [reset]
  | .pumping out headers pump => answer = some (.ok headers) ∧ ∃ all, Pumped o headers body all pump ∧
      frames <+: all ∧ (alive = true → frames ++ out = all)
  | .ending out terminal => ∃ all, reply o answer body = all ++ [terminal] ∧ (∀ frame ∈ all, frame.status? = none) ∧
      terminal.status?.isSome ∧ frames <+: all ∧ (alive = true → frames ++ out = all)
  | .expired => o.timeout.isSome = true ∧ Partial o answer body frames
  | .closing => Ended cfg o answer body frames ∨ Partial o answer body frames ∧ alive = false
  | .done => Ended cfg o answer body frames ∨ Partial o answer body frames

/-- What the backend and the clock told a task. -/
def answerOf (events : List TaskEvent) : Option (Except BoxError HeaderMap) :=
  events.findSome? fun
    | .answer outcome => some outcome
    | _ => none

def bodyOf (events : List TaskEvent) : Body :=
  events.filterMap fun
    | .body event => some event
    | _ => none

def killed (events : List TaskEvent) : Bool := events.any (· matches .kill)

/-! ### The steps of a task -/

theorem answerOf_snoc {events : List TaskEvent} (waits : answerOf events = none) (event : TaskEvent) :
    answerOf (events ++ [event]) = answerOf [event] := by
  unfold answerOf at waits ⊢
  rw [List.findSome?_append, waits]
  rfl

theorem bodyOf_other (event : TaskEvent) (pumps : bodyOf [event] = []) (events : List TaskEvent) :
    bodyOf (events ++ [event]) = bodyOf events := by
  unfold bodyOf at pumps ⊢
  rw [List.filterMap_append, pumps, List.append_nil]

theorem told_other (event : TaskEvent) (answers : answerOf [event] = none) (pumps : bodyOf [event] = [])
    (events : List TaskEvent) :
    answerOf (events ++ [event]) = answerOf events ∧ bodyOf (events ++ [event]) = bodyOf events := by
  refine ⟨?_, bodyOf_other event pumps events⟩
  unfold answerOf at answers ⊢
  rw [List.findSome?_append, answers, Option.or_none]

theorem Partial.start (o : Origin) (answer : Option (Except BoxError HeaderMap)) (body : Body) :
    Partial o answer body [] := ⟨List.nil_prefix, nofun⟩

theorem Partial.within {o : Origin} {answer : Option (Except BoxError HeaderMap)} {body : Body}
    {frames all more : List Frame} (before : frames <+: all) (progress : ∀ frame ∈ all, frame.status? = none)
    (whole : reply o answer body = all ++ more) : Partial o answer body frames :=
  ⟨whole ▸ before.trans (List.prefix_append all more), fun frame member => progress frame (before.subset member)⟩

theorem Partial.shorter {o : Origin} {answer : Option (Except BoxError HeaderMap)} {body : Body}
    {frames more : List Frame} (short : Partial o answer body (frames ++ more)) : Partial o answer body frames :=
  ⟨(List.prefix_append frames more).trans short.1, fun frame member => short.2 frame (List.mem_append_left _ member)⟩

/-- The frames before a terminal one are short of it, and it is one of three. -/
theorem Ended.terminal {cfg : Config} {o : Origin} {answer : Option (Except BoxError HeaderMap)} {body : Body}
    {frames : List Frame} (ended : Ended cfg o answer body frames) :
    ∃ before terminal, frames = before ++ [terminal] ∧ Partial o answer body before ∧ terminal.status?.isSome ∧
      (reply o answer body = before ++ [terminal] ∨ o.timeout.isSome = true ∧ terminal = deadlineFrame ∨ o.json = true) := by
  cases ended with
  | replied whole progress terminal =>
    exact ⟨_, _, rfl, .within List.prefix_rfl progress whole, terminal, .inl whole⟩
  | expired bounded short => exact ⟨_, _, rfl, short, rfl, .inr (.inl ⟨bounded, rfl⟩)⟩
  | refused json => exact ⟨[], _, rfl, .start o answer body, rfl, .inr (.inr json)⟩

theorem Stands.running {cfg : Config} {alive : Bool} {o : Origin} {answer : Option (Except BoxError HeaderMap)}
    {body : Body} {frames : List Frame} {pc : Pc} (stands : Stands cfg alive o answer body frames pc)
    (running : pc.running = true) : Partial o answer body frames := by
  cases pc with
  | start | calling =>
    obtain ⟨_, _, rfl⟩ := stands
    exact .start o answer body
  | rejecting reset =>
    obtain ⟨rfl, _⟩ := stands
    exact .start o answer body
  | pumping out headers pump =>
    obtain ⟨rfl, all, pumped, before, _⟩ := stands
    exact .within before pumped.progress (pumped.whole.trans (List.append_nil all).symm)
  | ending out terminal =>
    obtain ⟨all, whole, progress, _, before, _⟩ := stands
    exact .within before progress whole
  | expired => exact stands.2
  | closing => cases running
  | done => cases running

theorem Stands.stopped {cfg : Config} {alive : Bool} {o : Origin} {answer : Option (Except BoxError HeaderMap)}
    {body : Body} {frames : List Frame} {pc : Pc} (stands : Stands cfg alive o answer body frames pc) :
    Ended cfg o answer body frames ∨ Partial o answer body frames := by
  cases running : pc.running with
  | true => exact .inr (stands.running running)
  | false =>
    cases pc with
    | closing => exact stands.imp_right And.left
    | done => exact stands
    | _ => cases running

theorem Stands.dies {cfg : Config} {alive : Bool} {o : Origin} {answer : Option (Except BoxError HeaderMap)}
    {body : Body} {frames : List Frame} {pc : Pc} (stands : Stands cfg alive o answer body frames pc) :
    Stands cfg false o answer body frames pc := by
  cases pc with
  | pumping out headers pump =>
    obtain ⟨answers, all, pumped, before, _⟩ := stands
    exact ⟨answers, all, pumped, before, nofun⟩
  | ending out terminal =>
    obtain ⟨all, whole, progress, isTerminal, before, _⟩ := stands
    exact ⟨all, whole, progress, isTerminal, before, nofun⟩
  | closing => exact stands.imp_right fun short => ⟨short.1, rfl⟩
  | _ => exact stands

variable [SerdeJson]

/-- What a task with these events put into the channel: frames, and at most a close behind a terminal one. On
a channel that is `alive` only a task that was killed ends without it. -/
structure Sent (cfg : Config) (alive : Bool) (t : Task) (events : List TaskEvent) (frames : List Frame)
    (closes : List (TungMessage Value)) : Prop where
  stands : Stands cfg alive (origin t) (answerOf events) (bodyOf events) frames t.pc
  shut : closes = [] ∨ closes = [closeNormal] ∧ t.pc = .done ∧ Ended cfg (origin t) (answerOf events) (bodyOf events) frames
  closed : t.pc = .done → alive = true → killed events = false → closes = [closeNormal]

theorem Sent.open_ {cfg : Config} {alive : Bool} {t : Task} {events : List TaskEvent} {frames : List Frame}
    {closes : List (TungMessage Value)} (sent : Sent cfg alive t events frames closes) (goes : t.pc ≠ .done) :
    closes = [] :=
  sent.shut.resolve_right fun shut => goes shut.2.1

theorem Sent.moved {cfg : Config} {alive : Bool} {t : Task} {events : List TaskEvent} {frames : List Frame}
    (stands : Stands cfg alive (origin t) (answerOf events) (bodyOf events) frames t.pc) (goes : t.pc ≠ .done) :
    Sent cfg alive t events frames [] :=
  ⟨stands, .inl rfl, fun done => absurd done goes⟩

/-- The read loop touches nothing that a task's frames depend on, and the writer may stop. -/
theorem Sent.kept {cfg : Config} {alive alive' : Bool} {t t' : Task} {events : List TaskEvent} {frames : List Frame}
    {closes : List (TungMessage Value)} (sent : Sent cfg alive t events frames closes) (kept : t.Kept t')
    (writer : alive' = alive ∨ alive' = false) : Sent cfg alive' t' events frames closes := by
  obtain ⟨requests, aborted, rfl⟩ := kept
  obtain ⟨stands, shut, closed⟩ := sent
  rcases writer with rfl | rfl
  · exact ⟨stands, shut, closed⟩
  · exact ⟨stands.dies, shut, nofun⟩

/-- The task did something on its side of the request channel. -/
theorem Sent.same {cfg : Config} {alive : Bool} {t t' : Task} {events : List TaskEvent} {event : TaskEvent}
    {frames : List Frame} {closes : List (TungMessage Value)} (sent : Sent cfg alive t events frames closes)
    (answers : answerOf (events ++ [event]) = answerOf events) (pumps : bodyOf (events ++ [event]) = bodyOf events)
    (same : (origin t', t'.pc) = (origin t, t.pc)) : Sent cfg alive t' (events ++ [event]) frames closes := by
  obtain ⟨origin_, pc⟩ := Prod.mk.inj same
  obtain ⟨stands, shut, closed⟩ := sent
  refine ⟨?_, ?_, ?_⟩
  · rw [answers, pumps, origin_, pc]
    exact stands
  · rw [answers, pumps, origin_, pc]
    exact shut
  · intro done live spared
    simp only [killed, List.any_append, Bool.or_eq_false_iff] at spared
    exact closed (pc ▸ done) live spared.1

theorem Sent.advance {cfg : Config} {alive sender : Bool} {t t' : Task} {event : TaskEvent} {call : Option Dispatch}
    {events : List TaskEvent} {frames : List Frame} {closes : List (TungMessage Value)}
    (sent : Sent cfg alive t events frames closes) (advanced : t.Advanced cfg sender event t' call) :
    Sent cfg alive t' (events ++ [event]) frames closes := by
  obtain ⟨stands, shut, closed⟩ := id sent
  cases advanced with
  | begun _ waits =>
    obtain rfl := sent.open_ (by simp [waits])
    rw [waits] at stands
    obtain ⟨answers, pumps⟩ := told_other .begin rfl rfl events
    exact .moved (by rw [answers, pumps]; exact stands) nofun
  | resolved _ waits _ =>
    obtain rfl := sent.open_ (by simp [waits])
    rw [waits] at stands
    obtain ⟨answers, pumps⟩ := told_other (.resolve _) rfl rfl events
    exact .moved (by rw [answers, pumps]; exact stands) nofun
  | refused json waits unknown =>
    obtain rfl := sent.open_ (by simp [waits])
    rw [waits] at stands
    exact .moved ⟨stands.2.2, .refused json unknown⟩ nofun
  | answered headers waits =>
    obtain rfl := sent.open_ (by simp [waits])
    rw [waits] at stands
    obtain ⟨answers, pumps, rfl⟩ := stands
    rw [← bodyOf_other (.answer (.ok headers)) rfl events] at pumps
    refine .moved ⟨answerOf_snoc answers _, [headerFrame headers], ?_, List.nil_prefix, fun _ => rfl⟩ nofun
    rw [pumps]
    exact ⟨rfl, rfl, rfl, rfl, rfl⟩
  | failed e waits =>
    obtain rfl := sent.open_ (by simp [waits])
    rw [waits] at stands
    obtain ⟨answers, pumps, rfl⟩ := stands
    refine .moved ⟨[], ?_, nofun, rfl, List.nil_prefix, fun _ => rfl⟩ nofun
    rw [answerOf_snoc answers]
    rfl
  | pumped event waits =>
    obtain rfl := sent.open_ (by simp [waits])
    rw [waits] at stands
    obtain ⟨answers, all, pumped, before, exact_⟩ := stands
    have answer : answerOf (events ++ [.body event]) = answerOf events := by
      unfold answerOf
      rw [List.findSome?_append]
      exact Option.or_none
    have grown : bodyOf (events ++ [.body event]) = bodyOf events ++ [event] := List.filterMap_append
    rcases pumped.turn event with ⟨out, pump', goes, next⟩ | ⟨out, terminal, goes, whole, progress, isTerminal⟩
    · refine .moved ?_ (by simp [goes])
      simp only [goes]
      rw [answer, grown]
      refine ⟨answers, all ++ out, next, before.trans (List.prefix_append all out), fun live => ?_⟩
      have all_ := exact_ live
      rw [List.append_nil] at all_
      rw [all_]
    · refine .moved ?_ (by simp [goes])
      simp only [goes]
      rw [answer, grown, answers]
      refine ⟨all ++ out, whole, progress, isTerminal, before.trans (List.prefix_append all out), fun live => ?_⟩
      have all_ := exact_ live
      rw [List.append_nil] at all_
      rw [all_]
  | expired bounded flying =>
    have running := Pc.running_of_inFlight flying
    obtain rfl := sent.open_ (by rintro done; rw [done] at running; cases running)
    obtain ⟨answers, pumps⟩ := told_other .expire rfl rfl events
    exact .moved ⟨bounded, by rw [answers, pumps]; exact stands.running running⟩ nofun
  | killed aborted =>
    obtain ⟨answers, pumps⟩ := told_other .kill rfl rfl events
    refine ⟨?_, ?_, ?_⟩
    · rw [answers, pumps]
      exact stands.stopped
    · rw [answers, pumps]
      exact shut.imp_right fun shut => ⟨shut.1, rfl, shut.2.2⟩
    · intro _ _ spared
      simp [ResponseStream.killed] at spared
  | delivered =>
    obtain ⟨answers, pumps⟩ := told_other .deliver rfl rfl events
    exact .same sent answers pumps rfl
  | bodyEnded =>
    obtain ⟨answers, pumps⟩ := told_other .endBody rfl rfl events
    exact .same sent answers pumps rfl
  | bodyDropped =>
    obtain ⟨answers, pumps⟩ := told_other .dropBody rfl rfl events
    exact .same sent answers pumps rfl

omit [ProstReflect] [SerdeJson] in
theorem unsent_cases (pc next : Pc) : pc.unsent next = .closing ∧ pc.running = true ∨ pc.unsent next = next := by
  unfold Pc.unsent
  split
  · exact .inl ⟨rfl, rfl⟩
  · exact .inl ⟨rfl, rfl⟩
  · exact .inr rfl

/-- A send into a closed channel leaves what was sent. -/
theorem Sent.lost {cfg : Config} {t : Task} {events : List TaskEvent} {frames : List Frame}
    {closes : List (TungMessage Value)} {msg : TungMessage Value} {next : Pc}
    (sent : Sent cfg false t events frames closes) (waits : t.pc.sending t.json = some (msg, next)) :
    Sent cfg false (t.moveTo (t.pc.unsent next)) (events ++ [.send]) frames closes := by
  have told := told_other .send rfl rfl events
  obtain rfl := sent.open_ (by rintro done; simp [done, Pc.sending] at waits)
  obtain ⟨stands, _, _⟩ := sent
  rw [← told.1, ← told.2] at stands
  rcases unsent_cases t.pc next with ⟨gone, running⟩ | same
  · rw [gone]
    exact .moved (.inr ⟨stands.running running, rfl⟩) nofun
  rw [same]
  unfold Pc.sending at waits
  split at waits
  case h_1 pc =>
    cases waits
    exact .moved (.inr ⟨stands.running (by rw [pc]; rfl), rfl⟩) nofun
  case h_2 frame out headers pump pc =>
    cases waits
    rw [pc] at stands
    obtain ⟨answers, all, pumped, before, _⟩ := stands
    exact .moved ⟨answers, all, pumped, before, nofun⟩ nofun
  case h_3 frame out terminal pc =>
    cases waits
    rw [pc] at stands
    obtain ⟨all, whole, progress, isTerminal, before, _⟩ := stands
    exact .moved ⟨all, whole, progress, isTerminal, before, nofun⟩ nofun
  case h_4 pc =>
    cases waits
    exact .moved (.inr ⟨stands.running (by rw [pc]; rfl), rfl⟩) nofun
  case h_5 pc =>
    cases waits
    exact .moved (.inr ⟨stands.running (by rw [pc]; rfl), rfl⟩) nofun
  case h_6 pc =>
    cases waits
    exact ⟨stands.stopped, .inl rfl, nofun⟩
  case h_7 => cases waits

theorem Sent.send {cfg : Config} {t : Task} {events : List TaskEvent} {frames : List Frame}
    {closes : List (TungMessage Value)} {msg : TungMessage Value} {next : Pc}
    (sent : Sent cfg true t events frames closes) (waits : t.pc.sending t.json = some (msg, next)) :
    ∃ frames' closes', frames'.map (toTung · t.json) ++ closes' = frames.map (toTung · t.json) ++ closes ++ [msg] ∧
      Sent cfg true (t.moveTo next) (events ++ [.send]) frames' closes' := by
  have told := told_other .send rfl rfl events
  obtain rfl := sent.open_ (by rintro done; simp [done, Pc.sending] at waits)
  obtain ⟨stands, _, _⟩ := sent
  unfold Pc.sending at waits
  split at waits
  case h_1 reset pc =>
    cases waits
    rw [pc] at stands
    obtain ⟨rfl, ended⟩ := stands
    refine ⟨[reset], [], rfl, .moved ?_ (by simp)⟩
    rw [told.1, told.2]
    exact .inl ended
  case h_2 frame out headers pump pc =>
    cases waits
    rw [pc] at stands
    obtain ⟨answers, all, pumped, before, exact_⟩ := stands
    have all_ := exact_ rfl
    refine ⟨frames ++ [frame], [], by simp, .moved ?_ (by simp)⟩
    rw [told.1, told.2]
    refine ⟨answers, all, pumped, ⟨out, ?_⟩, fun _ => ?_⟩ <;> rw [← all_] <;> simp
  case h_3 frame out terminal pc =>
    cases waits
    rw [pc] at stands
    obtain ⟨all, whole, progress, isTerminal, before, exact_⟩ := stands
    have all_ := exact_ rfl
    refine ⟨frames ++ [frame], [], by simp, .moved ?_ (by simp)⟩
    rw [told.1, told.2]
    refine ⟨all, whole, progress, isTerminal, ⟨out, ?_⟩, fun _ => ?_⟩ <;> rw [← all_] <;> simp
  case h_4 terminal pc =>
    cases waits
    rw [pc] at stands
    obtain ⟨all, whole, progress, isTerminal, before, exact_⟩ := stands
    have all_ := exact_ rfl
    rw [List.append_nil] at all_
    subst all_
    refine ⟨frames ++ [terminal], [], by simp, .moved ?_ (by simp)⟩
    rw [told.1, told.2]
    exact .inl (.replied whole progress isTerminal)
  case h_5 pc =>
    cases waits
    rw [pc] at stands
    obtain ⟨bounded, partial_⟩ := stands
    refine ⟨frames ++ [deadlineFrame], [], by simp, .moved ?_ (by simp)⟩
    rw [told.1, told.2]
    exact .inl (.expired bounded partial_)
  case h_6 pc =>
    cases waits
    rw [pc] at stands
    have ended := stands.resolve_right (by simp)
    refine ⟨frames, [closeNormal], by simp, ?_, ?_, fun _ _ _ => rfl⟩
    · rw [told.1, told.2]
      exact .inl ended
    · rw [told.1, told.2]
      exact .inr ⟨rfl, rfl, ended⟩
  case h_7 => cases waits

/-- What a task with these events may have put into the channel: a prefix of the frames that the pump makes of
what the backend answered so far, or frames with a terminal one last and at most the close behind it. Only a
task that was killed ends without the close while the channel is `alive`. -/
def Law (cfg : Config) (alive : Bool) (task : Task) (events : List TaskEvent) (sent : List (TungMessage Value)) : Prop :=
  ∃ frames closes, sent = frames.map (toTung · task.json) ++ closes ∧
    (closes = [] ∧ Partial (origin task) (answerOf events) (bodyOf events) frames ∨
      (closes = [] ∨ closes = [closeNormal]) ∧ Ended cfg (origin task) (answerOf events) (bodyOf events) frames) ∧
    (task.pc = .done → alive = true → killed events = false → closes = [closeNormal])

theorem Sent.law {cfg : Config} {alive : Bool} {t : Task} {events : List TaskEvent} {frames : List Frame}
    {closes : List (TungMessage Value)} (sent : Sent cfg alive t events frames closes) :
    Law cfg alive t events (frames.map (toTung · t.json) ++ closes) := by
  obtain ⟨stands, shut, closed⟩ := sent
  refine ⟨frames, closes, rfl, ?_, closed⟩
  rcases shut with rfl | ⟨rfl, _, ended⟩
  · rcases stands.stopped with ended | short
    · exact .inr ⟨.inl rfl, ended⟩
    · exact .inl ⟨rfl, short⟩
  · exact .inr ⟨.inr rfl, ended⟩

/-- The client is not done with the stream behind such a message. -/
def quiet : TungMessage Value → Bool
  | .binary frame => frame.status?.isNone
  | .text _ => true
  | .close _ _ => false

/-- A binary task sent the first messages of the reply, and what comes behind them if it is not quiet. -/
theorem Law.front {cfg : Config} {alive : Bool} {task : Task} {events : List TaskEvent}
    {said later : List (TungMessage Value)} (law : Law cfg alive task events (said ++ later)) (binary : task.json = false)
    (goes : ∀ msg ∈ said, quiet msg = true) :
    ∃ front, said = front.map .binary ∧ Partial (origin task) (answerOf events) (bodyOf events) front ∧
      ∀ msg rest, later = msg :: rest → quiet msg = false → ∃ frame, msg = .binary frame ∧
        (reply (origin task) (answerOf events) (bodyOf events) = front ++ [frame] ∨
          task.timeout.isSome = true ∧ frame = deadlineFrame) := by
  obtain ⟨frames, closes, sent, shape, _⟩ := law
  have plain : (fun frame => (toTung frame task.json : TungMessage Value)) = TungMessage.binary := by
    funext frame
    rw [binary]
    rfl
  rw [plain] at sent
  have closes_ : ∀ msg ∈ closes, quiet msg = false := by
    rcases shape with ⟨rfl, _⟩ | ⟨rfl | rfl, _⟩ <;> simp [quiet, closeNormal]
  obtain ⟨front, more, rfl, rfl, rfl⟩ : ∃ front more, frames = front ++ more ∧ said = front.map .binary ∧
      later = more.map .binary ++ closes := by
    rcases List.append_eq_append_iff.mp sent with ⟨as, framed, rfl⟩ | ⟨bs, rfl, shut⟩
    · obtain ⟨front, more, rfl, rfl, rfl⟩ := List.map_eq_append_iff.mp framed
      exact ⟨front, more, rfl, rfl, rfl⟩
    · obtain rfl : bs = [] := by
        refine List.eq_nil_iff_forall_not_mem.mpr fun msg member => ?_
        have silent := closes_ msg (shut ▸ List.mem_append_left later member)
        rw [goes msg (List.mem_append_right _ member)] at silent
        cases silent
      exact ⟨frames, [], (List.append_nil _).symm, List.append_nil _, shut.symm⟩
  have progress : ∀ frame ∈ front, frame.status? = none := fun frame member =>
    Option.isNone_iff_eq_none.mp (goes _ (List.mem_map_of_mem member))
  rcases shape with ⟨rfl, short⟩ | ⟨_, ended⟩
  · refine ⟨front, rfl, short.shorter, ?_⟩
    intro msg rest first loud
    cases more with
    | nil => cases first
    | cons frame more =>
      obtain ⟨rfl, _⟩ := List.cons.inj first
      have none_ := short.2 frame (by simp)
      simp [quiet, none_] at loud
  · obtain ⟨before, terminal, whole, short, isTerminal, origin_⟩ := ended.terminal
    rcases List.eq_nil_or_concat more with rfl | ⟨init, last, rfl⟩
    · have none_ := progress terminal (by rw [← List.append_nil front, whole]; simp)
      simp [none_] at isTerminal
    rw [List.concat_eq_append, ← List.append_assoc] at whole
    obtain ⟨rfl, same⟩ := List.append_inj' whole rfl
    obtain rfl := List.singleton_inj.mp same
    refine ⟨front, rfl, short.shorter, ?_⟩
    intro msg rest first loud
    cases init with
    | cons frame init =>
      obtain ⟨rfl, _⟩ := List.cons.inj first
      have none_ := short.2 frame (by simp)
      simp [quiet, none_] at loud
    | nil =>
      obtain ⟨rfl, _⟩ := List.cons.inj first
      rw [List.append_nil] at origin_
      refine ⟨last, rfl, origin_.imp_right fun other => other.resolve_right ?_⟩
      change ¬task.json = true
      simp [binary]

/-! ### Every run -/

/-- What a step puts into the channel, each message with the task that sends it or none for the read loop. -/
def emits (s : Conn) : Label → List (Option Nat × TungMessage Value)
  | .task i .send =>
    match (s.tasks[i]?).bind fun task => task.pc.sending task.json with
    | some (msg, _) => (s.sent msg).map (some i, ·)
    | none => []
  | .resume =>
    match s.reader with
    | .resetting reset json _ => (s.sent (toTung reset json)).map (none, ·)
    | _ => []
  | _ => []

def sentBy (i : Nat) (sent : List (Option Nat × TungMessage Value)) : List (TungMessage Value) :=
  sent.filterMap fun e => if e.1 = some i then some e.2 else none

/-- The events of task `i`. -/
def told (i : Nat) (ls : List Label) : List TaskEvent :=
  ls.filterMap fun l =>
    match l with
    | .task j event => if j = i then some event else none
    | _ => none

theorem sentBy_emits {s : Conn} {j : Nat} {event : TaskEvent} {task : Task} (found : s.tasks[j]? = some task)
    (i : Nat) : sentBy i (emits s (.task j event)) =
      if j = i then
        match event, task.pc.sending task.json with
        | .send, some (msg, _) => s.sent msg
        | _, _ => []
      else [] := by
  cases event with
  | send =>
    simp only [emits, found, Option.bind_some]
    rcases task.pc.sending task.json with _ | ⟨msg, next⟩
    · exact (ite_self _).symm
    · by_cases own : j = i <;> simp [sentBy, own]
  | _ => exact (ite_self _).symm

variable [UriParser]

/-- What is put into the outbound channel along a run, each time by whom. -/
def authored (cfg : Config) (s : Conn) (ls : List Label) : List (Option Nat × TungMessage Value) :=
  Transition.trace (Conn.step cfg) emits s ls

theorem authored_snoc {cfg : Config} {s u v : Conn} {ls : List Label} {l : Label}
    (run : Transition.Run (Step cfg) s ls u) (taken : Step cfg u l v) :
    authored cfg s (ls ++ [l]) = authored cfg s ls ++ emits u l :=
  Transition.trace_snoc run taken

theorem step_emits {cfg : Config} {s t : Conn} {l : Label} (taken : Step cfg s l t) :
    t.outbound = s.outbound ++ (emits s l).map Prod.snd := by
  cases l with
  | read msg =>
    rcases Conn.read_cases taken with ⟨still, _⟩ | ⟨_, still⟩ | ⟨_, opens, _⟩
    · exact still.outbound
    · exact still.outbound
    · exact opens.outbound.trans (List.append_nil _).symm
  | resume =>
    cases Conn.resume_some taken with
    | discarded waits => simp [emits, waits]
    | fed waits => simp [emits, waits]
    | reset waits put =>
      obtain rfl := Conn.put_eq put
      simp [emits, waits, Function.comp_def]
    | dropped waits =>
      have still := s.dropStream_still.outbound
      simpa [emits, waits] using still
  | leave =>
    obtain ⟨_, ⟨⟩⟩ := Option.ite_none_right_eq_some.mp taken
    exact s.dropStream_still.outbound
  | task i event =>
    obtain ⟨task, found, ⟨msg, next, rfl, waits, rfl⟩ | ⟨task', call, advanced, rfl⟩⟩ := Conn.stepTask_inv taken
    · simp [emits, found, waits, Function.comp_def]
    · cases event with
      | send => cases advanced
      | _ => exact (List.append_nil _).symm
  | write =>
    obtain ⟨_, ⟨⟩⟩ := Option.ite_none_right_eq_some.mp taken
    exact (List.append_nil _).symm
  | writerDied =>
    cases taken
    exact (List.append_nil _).symm

/-- The outbound channel is what the tasks and the read loop put into it. -/
theorem outbound_authored {cfg : Config} {ls : List Label} {s : Conn} (run : Run cfg ls s) :
    s.outbound = (authored cfg (.initial cfg) ls).map Prod.snd := by
  refine run.history (P := fun ls s => s.outbound = (authored cfg (.initial cfg) ls).map Prod.snd)
    (Q := fun _ _ _ => True) (fun _ _ _ _ _ => trivial) ?_ rfl
  intro pre u l v before ih _ taken
  rw [step_emits taken, authored_snoc before taken, List.map_append, ih]

theorem step_writer {cfg : Config} {s t : Conn} {l : Label} (taken : Step cfg s l t) :
    t.writer = s.writer ∨ t.writer = false := by
  cases l with
  | read msg =>
    rcases Conn.read_cases taken with ⟨still, _⟩ | ⟨_, still⟩ | ⟨_, opens, _⟩
    · exact .inl still.writer
    · exact .inl still.writer
    · exact .inl opens.writer
  | resume =>
    obtain ⟨_, still, _⟩ := Conn.resume_still taken
    exact .inl still.writer
  | leave =>
    obtain ⟨_, ⟨⟩⟩ := Option.ite_none_right_eq_some.mp taken
    exact .inl s.dropStream_still.writer
  | task i event =>
    obtain ⟨_, _, ⟨_, _, _, _, moves⟩ | ⟨_, _, _, _, moves⟩⟩ := Conn.stepTask_cases taken
    · exact .inl moves.writer
    · exact .inl moves.writer
  | write =>
    obtain ⟨_, ⟨⟩⟩ := Option.ite_none_right_eq_some.mp taken
    exact .inl rfl
  | writerDied =>
    cases taken
    exact .inr rfl

/-- Every task is where its events and what it sent put it. -/
structure Faithful (cfg : Config) (ls : List Label) (s : Conn) : Prop where
  task : ∀ i task, s.tasks[i]? = some task → ∃ frames closes,
    sentBy i (authored cfg (.initial cfg) ls) = frames.map (toTung · task.json) ++ closes ∧
      Sent cfg s.writer task (told i ls) frames closes
  fresh : ∀ i, s.tasks[i]? = none → sentBy i (authored cfg (.initial cfg) ls) = [] ∧ told i ls = []

theorem Faithful.other {cfg : Config} {ls : List Label} {s t : Conn} {l : Label} (run : Run cfg ls s)
    (faithful : Faithful cfg ls s) (taken : Step cfg s l t) (other : ∀ i event, l ≠ .task i event) :
    Faithful cfg (ls ++ [l]) t := by
  obtain ⟨grows, origins⟩ := (Run.sound run).step_tasks taken other
  have silent (i : Nat) : sentBy i (authored cfg (.initial cfg) (ls ++ [l])) =
      sentBy i (authored cfg (.initial cfg) ls) ∧ told i (ls ++ [l]) = told i ls := by
    rw [authored_snoc run taken, sentBy, List.filterMap_append, told, List.filterMap_append]
    cases l with
    | task j event => exact absurd rfl (other j event)
    | resume =>
      refine ⟨?_, List.append_nil _⟩
      cases waits : s.reader <;> simp [emits, waits, sentBy]
    | _ => exact ⟨List.append_nil _, List.append_nil _⟩
  refine ⟨?_, ?_⟩
  · intro i task' found
    rw [(silent i).1, (silent i).2]
    rcases origins i task' found with ⟨task, here, kept⟩ | ⟨rfl, msg, sub, json, rfl, _, rfl⟩
    · obtain ⟨frames, closes, sent, stands⟩ := faithful.task i task here
      refine ⟨frames, closes, ?_, stands.kept kept (step_writer taken)⟩
      obtain ⟨_, _, rfl⟩ := kept
      exact sent
    · obtain ⟨sent, events⟩ := faithful.fresh s.tasks.length (List.getElem?_eq_none (Nat.le_refl _))
      rw [sent, events]
      exact ⟨[], [], rfl, ⟨rfl, rfl, rfl⟩, .inl rfl, nofun⟩
  · intro i missing
    rw [(silent i).1, (silent i).2]
    apply faithful.fresh
    rw [List.getElem?_eq_none_iff] at missing ⊢
    omega

theorem Faithful.stepTask {cfg : Config} {ls : List Label} {s t : Conn} {j : Nat} {event : TaskEvent}
    (run : Run cfg ls s) (faithful : Faithful cfg ls s) (taken : Step cfg s (.task j event) t) :
    Faithful cfg (ls ++ [.task j event]) t := by
  have grown (i : Nat) : sentBy i (authored cfg (.initial cfg) (ls ++ [.task j event])) =
      sentBy i (authored cfg (.initial cfg) ls) ++ sentBy i (emits s (.task j event)) := by
    rw [authored_snoc run taken]
    exact List.filterMap_append
  have told_own : told j (ls ++ [.task j event]) = told j ls ++ [event] := by simp [told, List.filterMap_append]
  have told_apart {i : Nat} (apart : j ≠ i) : told i (ls ++ [.task j event]) = told i ls := by
    simp [told, List.filterMap_append, apart]
  obtain ⟨task, found, moved⟩ := Conn.stepTask_inv taken
  have within := (List.getElem?_eq_some_iff.mp found).1
  obtain ⟨task', tasks, writer, own⟩ : ∃ task', t.tasks = s.tasks.set j task' ∧ t.writer = s.writer ∧
      ∃ frames closes, sentBy j (authored cfg (.initial cfg) ls) ++ sentBy j (emits s (.task j event)) =
        frames.map (toTung · task'.json) ++ closes ∧ Sent cfg s.writer task' (told j ls ++ [event]) frames closes := by
    obtain ⟨frames, closes, sent, stands⟩ := faithful.task j task found
    rw [sentBy_emits found, if_pos rfl, sent]
    rcases moved with ⟨msg, next, rfl, waits, rfl⟩ | ⟨task', call, advanced, rfl⟩
    · refine ⟨_, rfl, rfl, ?_⟩
      have json (pc : Pc) : (task.moveTo pc).json = task.json := by cases pc <;> rfl
      simp only [waits, json]
      cases alive : s.writer with
      | true =>
        rw [alive] at stands
        obtain ⟨frames', closes', more, stands'⟩ := stands.send waits
        exact ⟨frames', closes', by simp [Conn.sent, alive, more], by simpa using stands'⟩
      | false =>
        rw [alive] at stands
        exact ⟨frames, closes, by simp [Conn.sent, alive], by simpa using stands.lost waits⟩
    · refine ⟨task', rfl, rfl, frames, closes, ?_, stands.advance advanced⟩
      rw [advanced.advances.json]
      cases advanced <;> exact List.append_nil _
  refine ⟨?_, ?_⟩
  · intro i other here
    rw [grown]
    rw [tasks] at here
    by_cases same : j = i
    · subst same
      rw [List.getElem?_set_self within] at here
      obtain rfl := Option.some.inj here
      rw [told_own, writer]
      exact own
    · rw [List.getElem?_set_ne same] at here
      obtain ⟨frames, closes, sent, stands⟩ := faithful.task i other here
      rw [told_apart same, writer, sentBy_emits found]
      exact ⟨frames, closes, by rw [if_neg same, List.append_nil, sent], stands⟩
  · intro i missing
    rw [tasks, List.getElem?_eq_none_iff, List.length_set] at missing
    have apart : j ≠ i := by omega
    obtain ⟨sent, events⟩ := faithful.fresh i (List.getElem?_eq_none missing)
    rw [grown, sent, told_apart apart, events, sentBy_emits found, if_neg apart]
    exact ⟨rfl, rfl⟩

theorem Faithful.initial (cfg : Config) : Faithful cfg [] (.initial cfg) where
  task i task found := by cases found
  fresh _ _ := ⟨rfl, rfl⟩

theorem run_faithful {cfg : Config} {ls : List Label} {s : Conn} (run : Run cfg ls s) : Faithful cfg ls s := by
  refine run.history (P := fun ls s => Faithful cfg ls s) (Q := fun _ _ _ => True) (fun _ _ _ _ _ => trivial) ?_ ?_
  · intro pre u l v before faithful _ taken
    by_cases stepped : ∃ i event, l = .task i event
    · obtain ⟨i, event, rfl⟩ := stepped
      exact faithful.stepTask before taken
    · exact faithful.other before taken fun i event same => stepped ⟨i, event, same⟩
  · exact .initial cfg

/-- In every run the channel holds what the tasks and the read loop put into it, and each task keeps its law. -/
theorem response_stream (cfg : Config) {ls : List Label} {s : Conn} (run : Run cfg ls s) :
    s.outbound = (authored cfg (.initial cfg) ls).map Prod.snd ∧
      ∀ i task, s.tasks[i]? = some task →
        Law cfg s.writer task (told i ls) (sentBy i (authored cfg (.initial cfg) ls)) := by
  refine ⟨outbound_authored run, fun i task found => ?_⟩
  obtain ⟨frames, closes, sent, stands⟩ := (run_faithful run).task i task found
  rw [sent]
  exact stands.law

end

attribute [local instance] flagSchema flagTexts slashUris

/-- A stream whose backend answers with one message in two pieces. -/
def answeredRun : List Label :=
  [.read (.binary (some subscribeFrame)), .task 0 .begin, .task 0 (.answer (.ok [])), .task 0 .send,
    .task 0 (.body (.data [0, 0, 0])), .task 0 (.body (.data [0, 1, 9])), .task 0 .send, .task 0 (.body .eof),
    .task 0 .send, .task 0 .send]

theorem response_stream_answered : ∃ s : Conn, s.pcs.length = 1 ∧ s.outbound.length = 4 ∧
    s.outbound = (authored plainRoute (.initial plainRoute) answeredRun).map Prod.snd ∧
    ∀ i task, s.tasks[i]? = some task →
      Law plainRoute s.writer task (told i answeredRun) (sentBy i (authored plainRoute (.initial plainRoute) answeredRun)) := by
  have run : Run plainRoute answeredRun _ :=
    .cons rfl (.cons rfl (.cons rfl (.cons rfl (.cons rfl (.cons rfl (.cons rfl (.cons rfl (.cons rfl (.cons rfl (.nil _))))))))))
  exact ⟨_, rfl, rfl, response_stream plainRoute run⟩

end ResponseStream
end Ws
end GrpcWebnext
