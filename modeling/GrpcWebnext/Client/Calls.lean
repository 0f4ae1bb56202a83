import GrpcWebnext.Lib.Attempt
import GrpcWebnext.Client.GrpcFrameParser
import GrpcWebnext.Client.SingleStream

/-!
# Calls

What `Client` makes of the outcome of a call: the callback of a unary or client-streaming call, and the
events of a readable stream. Listeners, callbacks and `deserialize` may throw.
-/

namespace GrpcWebnext
namespace Client
namespace Calls
open Attempt Transition

/-- The numbers that a transport reports as status codes. -/
class StatusCode (Code : Type) where
  ofNat : Nat → Code
  isZero : Code → Bool

instance [JsNumber] : StatusCode JsNumber.Number where
  ofNat := JsNumber.ofNat
  isZero := JsNumber.isZero

structure CallStatus (Code : Type) where
  code : Code
  details : String
  metadata : Metadata

structure ServiceError (Code : Type) where
  code : Code
  details : String
  metadata : Option Metadata

structure UnaryResponse (Code : Type) where
  message : Bytes
  headers : Metadata
  status : CallStatus Code

section

variable {Code Res Payload : Type}

/-- The arguments of a callback. A response may be missing. -/
abbrev Answer (Code Res : Type) : Type := Except (ServiceError Code) (Option Res)

/-- What the application is told: an event, or a call of the callback. -/
inductive Notice (Code Res : Type) where
  | metadata (md : Metadata)
  | data (message : Res)
  | status (status : CallStatus Code)
  | end_
  | error (e : ServiceError Code)
  | callback (answer : Answer Code Res)

namespace Notice

def isStatus : Notice Code Res → Bool
  | .status _ => true
  | _ => false

def isCallback : Notice Code Res → Bool
  | .callback _ => true
  | _ => false

def isTerminal : Notice Code Res → Bool
  | .status _ | .end_ | .error _ => true
  | _ => false

end Notice

/-- Why the signal of a call was aborted. -/
inductive Abort where
  | deadline
  | cancelled

/-- The application, by what it was told so far. -/
structure Application (Code Res : Type) where
  /-- the exception of the first listener that throws, or of the callback -/
  throws : List (Notice Code Res) → Notice Code Res → Option String
  /-- `ctx.signal` -/
  aborted : List (Notice Code Res) → Option Abort
  /-- the stream was cancelled by its `cancel` -/
  cancelled : List (Notice Code Res) → Bool

/-- A call, with the `last` of `makeClientStreamRequest`. -/
structure Call (Code Res : Type) where
  told : List (Notice Code Res) := []
  last : Option Res := none

abbrev Act (Code Res α : Type) : Type := ExceptT String (StateM (Call Code Res)) α

def Application.tell (app : Application Code Res) (notice : Notice Code Res) : Act Code Res Unit := do
  let c ← get
  modify fun c => { c with told := c.told ++ [notice] }
  match app.throws c.told notice with
  | some e => throw e
  | none => pure ()

/-- `deserialize`, which throws what it fails with. -/
def liftExcept {α : Type} : Except String α → Act Code Res α
  | .ok a => pure a
  | .error e => throw e

variable [StatusCode Code]

def statusToError (status : CallStatus Code) : Option (ServiceError Code) :=
  if StatusCode.isZero status.code then none else some ⟨status.code, status.details, some status.metadata⟩

def statusForAbort : Abort → CallStatus Code
  | .deadline => ⟨StatusCode.ofNat 4, "deadline exceeded", .empty⟩
  | .cancelled => ⟨StatusCode.ofNat 1, "cancelled", .empty⟩

def errorForFailure (signal : Option Abort) (e : String) : ServiceError Code :=
  match signal with
  | some abort =>
    let status : CallStatus Code := statusForAbort abort
    ⟨status.code, status.details, none⟩
  | none => ⟨StatusCode.ofNat 2, e, none⟩

/-- `abortOrUnknown`. The effective signal is aborted by the call's own, or by `cancel`. -/
def abortOrUnknown (signal : Option Abort) (cancelled : Bool) (e : String) : CallStatus Code :=
  match signal with
  | some abort => statusForAbort abort
  | none => if cancelled then ⟨StatusCode.ofNat 1, "cancelled", .empty⟩ else ⟨StatusCode.ofNat 2, e, .empty⟩

/-! ### Unary calls -/

/-- The outcome of a transport's `unary`, `none` while it is not settled. -/
abbrev Outcome (Code : Type) : Type := Option (Except String (UnaryResponse Code))

/-- The `then` of `makeUnaryRequest`, up to the callback. -/
def answered (app : Application Code Res) (deserialize : Bytes → Except String Res) (outcome : Outcome Code) :
    Act Code Res (Option (Answer Code Res)) :=
  match outcome with
  | none => pure none
  | some (.error e) => throw e
  | some (.ok res) => do
    app.tell (.metadata res.headers)
    app.tell (.status res.status)
    match statusToError res.status with
    | some err => pure (some (.error err))
    | none => do
      let message ← liftExcept (deserialize res.message)
      pure (some (.ok (some message)))

/-- `makeUnaryRequest`, behind the call of the transport. The `catch` is behind the `then`. -/
def makeUnaryRequest (app : Application Code Res) (deserialize : Bytes → Except String Res)
    (outcome : Outcome Code) : Act Code Res Unit :=
  reporting (answered app deserialize outcome) (fun answer => app.tell (.callback answer))
    fun e c => .error (errorForFailure (app.aborted c.told) e)

/-! ### Streams -/

structure StreamHandlers (Code Res Payload : Type) where
  onHeaders : Metadata → Act Code Res Unit
  onMessage : Payload → Act Code Res Unit
  onStatus : CallStatus Code → Act Code Res Unit

/-- The handlers of `makeClientStreamRequest`, which has no `onHeaders`. -/
def clientStreamHandlers (app : Application Code Res) (deserialize : Payload → Except String Res) :
    StreamHandlers Code Res Payload where
  onHeaders _ := pure ()
  onMessage bytes := do
    let message ← liftExcept (deserialize bytes)
    modify fun c => { c with last := some message }
  onStatus status := do
    let c ← get
    app.tell (.callback (match statusToError status with
      | some err => .error err
      | none => .ok c.last))

/-- The event behind a status event. -/
def final (status : CallStatus Code) : Notice Code Res :=
  match statusToError status with
  | some err => .error err
  | none => .end_

def streamHandlers (app : Application Code Res) (deserialize : Payload → Except String Res) :
    StreamHandlers Code Res Payload where
  onHeaders md := app.tell (.metadata md)
  onMessage bytes := do
    let message ← liftExcept (deserialize bytes)
    app.tell (.data message)
  onStatus status := do
    app.tell (.status status)
    app.tell (final status)

/-- What an HTTP/2 stream does: its head, or the failure of the connection or the request; the chunks of
the body; its end. `none` for what has not happened. -/
structure Transcript (Code : Type) where
  head : Option (Except String Metadata)
  chunks : List Bytes
  ending : Option (Except String (CallStatus Code))

def receive (handlers : StreamHandlers Code Res Bytes) (parser : GrpcFrameParser) : List Bytes → Act Code Res Unit
  | [] => pure ()
  | chunk :: chunks => do
    let (messages, parser) := parser.push chunk
    messages.forM handlers.onMessage
    receive handlers parser chunks

/-- The `try` of `H2tsTransport.startStream`, up to the status. -/
def streamed (handlers : StreamHandlers Code Res Bytes) (t : Transcript Code) :
    Act Code Res (Option (CallStatus Code)) :=
  match t.head with
  | none => pure none
  | some (.error e) => throw e
  | some (.ok headers) => do
    handlers.onHeaders headers
    receive handlers {} t.chunks
    match t.ending with
    | none => pure none
    | some (.error e) => throw e
    | some (.ok status) => pure (some status)

/-- `H2tsTransport.startStream`. -/
def startStream (app : Application Code Res) (handlers : StreamHandlers Code Res Bytes)
    (t : Transcript Code) : Act Code Res Unit :=
  reporting (streamed handlers t) handlers.onStatus
    fun e c => abortOrUnknown (app.aborted c.told) (app.cancelled c.told) e

end

/-- `SingleStreamConn` calls a handler from an event of its own: what is thrown ends that event. -/
def handle [JsNumber] {Res Payload : Type} (handlers : StreamHandlers JsNumber.Number Res Payload) :
    Event Payload → Act JsNumber.Number Res Unit
  | .headers md => handlers.onHeaders md
  | .message payload => handlers.onMessage payload
  | .status code details md => handlers.onStatus ⟨code, details, md⟩

def deliver [JsNumber] {Res Payload : Type} (handlers : StreamHandlers JsNumber.Number Res Payload)
    (events : List (Event Payload)) (c : Call JsNumber.Number Res) : Call JsNumber.Number Res :=
  events.foldl (fun c event => (exec (handle handlers event) c).2) c

/-! ### What is told -/

section

variable {Code Res Payload : Type}

def Call.callbacks (c : Call Code Res) : List (Notice Code Res) := c.told.filter Notice.isCallback

def Call.terminal (c : Call Code Res) : List (Notice Code Res) := c.told.filter Notice.isTerminal

/-- What `tell` leaves behind, whether it throws or not. -/
def Call.tell (c : Call Code Res) (notice : Notice Code Res) : Call Code Res :=
  { c with told := c.told ++ [notice] }

theorem callbacks_tell (c : Call Code Res) (answer : Answer Code Res) :
    (c.tell (.callback answer)).callbacks = c.callbacks ++ [.callback answer] := by
  rw [Call.callbacks, Call.tell, List.filter_append]
  rfl

theorem exec_tell (app : Application Code Res) (notice : Notice Code Res) (c : Call Code Res) :
    exec (app.tell notice) c =
      ((match app.throws c.told notice with | some e => .error e | none => .ok ()), c.tell notice) := by
  unfold Application.tell
  rw [exec_bind, exec_get]
  show exec (modify _ >>= _) c = _
  rw [exec_bind, exec_modify]
  cases app.throws c.told notice <;> rfl

theorem tell_ok_iff (app : Application Code Res) (notice : Notice Code Res) (c : Call Code Res) :
    (exec (app.tell notice) c).1 = .ok () ↔ app.throws c.told notice = none := by
  rw [exec_tell]
  cases app.throws c.told notice <;> simp

/-- The notices that meet `p` go by what `p` does not meet. -/
theorem keeps_tell (app : Application Code Res) {p : Notice Code Res → Bool} {notice : Notice Code Res}
    (other : p notice = false) : Keeps (fun c => c.told.filter p) (app.tell notice) := by
  intro c
  rw [exec_tell]
  simp [Call.tell, other]

theorem exec_liftExcept {α : Type} (x : Except String α) (c : Call Code Res) :
    exec (liftExcept x : Act Code Res α) c = (x, c) := by
  cases x <;> rfl

theorem keeps_liftExcept {α β : Type} {view : Call Code Res → β} (x : Except String α) :
    Keeps view (liftExcept x : Act Code Res α) := by
  intro c
  rw [exec_liftExcept]

variable [StatusCode Code]

theorem keeps_answered (app : Application Code Res) (deserialize : Bytes → Except String Res)
    (outcome : Outcome Code) : Keeps Call.callbacks (answered app deserialize outcome) := by
  unfold answered
  match outcome with
  | none => exact .pure _
  | some (.error e) => exact .throw e
  | some (.ok res) =>
    refine (keeps_tell app rfl).bind fun _ => (keeps_tell app rfl).bind fun _ => ?_
    cases statusToError res.status with
    | some err => exact .pure _
    | none => exact (keeps_liftExcept _).bind fun _ => .pure _

omit [StatusCode Code] in
theorem keeps_receive {β : Type} {view : Call Code Res → β} {handlers : StreamHandlers Code Res Bytes}
    (each : ∀ message, Keeps view (handlers.onMessage message)) (parser : GrpcFrameParser) (chunks : List Bytes) :
    Keeps view (receive handlers parser chunks) := by
  induction chunks generalizing parser with
  | nil => exact .pure _
  | cons chunk chunks ih =>
    show Keeps view ((parser.push chunk).1.forM handlers.onMessage >>= fun _ =>
      receive handlers (parser.push chunk).2 chunks)
    exact (Keeps.forM fun message _ => each message).bind fun _ => ih _

omit [StatusCode Code] in
theorem keeps_streamed {β : Type} {view : Call Code Res → β} {handlers : StreamHandlers Code Res Bytes}
    (headers : ∀ md, Keeps view (handlers.onHeaders md)) (each : ∀ message, Keeps view (handlers.onMessage message))
    (t : Transcript Code) : Keeps view (streamed handlers t) := by
  unfold streamed
  match t.head with
  | none => exact .pure _
  | some (.error e) => exact .throw e
  | some (.ok md) =>
    refine (headers md).bind fun _ => (keeps_receive each _ _).bind fun _ => ?_
    match t.ending with
    | none => exact .pure _
    | some (.error e) => exact .throw e
    | some (.ok status) => exact .pure _

/-! ### Callbacks -/

/-- The callback of a unary call returns when it is told of a response. -/
def CallbackReturns (app : Application Code Res) (deserialize : Bytes → Except String Res)
    (outcome : Outcome Code) : Prop :=
  ∀ answer c, exec (answered app deserialize outcome) {} = (.ok (some answer), c) →
    app.throws c.told (.callback answer) = none

omit [StatusCode Code] in
theorem callbacks_callback (app : Application Code Res) (answer : Answer Code Res) (c : Call Code Res) :
    (exec (app.tell (.callback answer)) c).2.callbacks = c.callbacks ++ [.callback answer] := by
  rw [exec_tell, callbacks_tell]

theorem callbacks_unary (app : Application Code Res) (deserialize : Bytes → Except String Res)
    (outcome : Outcome Code) :
    (exec (makeUnaryRequest app deserialize outcome) {}).2.callbacks.length ≤ 1 ↔
      CallbackReturns app deserialize outcome := by
  have once := view_once_iff _ _ (fun e c => .error (errorForFailure (app.aborted c.told) e))
    (keeps_answered app deserialize outcome) (callbacks_callback app) {}
  simp only [tell_ok_iff] at once
  exact once

/-- What the callback of a client-streaming call is told. -/
def clientAnswer (status : CallStatus Code) (last : Option Res) : Answer Code Res :=
  match statusToError status with
  | some err => .error err
  | none => .ok last

theorem exec_clientStatus (app : Application Code Res) (deserialize : Payload → Except String Res)
    (status : CallStatus Code) (c : Call Code Res) :
    exec ((clientStreamHandlers app deserialize).onStatus status) c =
      exec (app.tell (.callback (clientAnswer status c.last))) c := by
  show exec (get >>= _) c = _
  rw [exec_bind, exec_get]
  rfl

theorem keeps_clientMessage (app : Application Code Res) (deserialize : Payload → Except String Res)
    (message : Payload) : Keeps Call.callbacks ((clientStreamHandlers app deserialize).onMessage message) :=
  (keeps_liftExcept _).bind fun _ => .modify fun _ => rfl

def ClientCallbackReturns (app : Application Code Res) (deserialize : Bytes → Except String Res)
    (t : Transcript Code) : Prop :=
  ∀ status c, exec (streamed (clientStreamHandlers app deserialize) t) {} = (.ok (some status), c) →
    app.throws c.told (.callback (clientAnswer status c.last)) = none

theorem callbacks_clientStream (app : Application Code Res) (deserialize : Bytes → Except String Res)
    (t : Transcript Code) :
    (exec (startStream app (clientStreamHandlers app deserialize) t) {}).2.callbacks.length ≤ 1 ↔
      ClientCallbackReturns app deserialize t := by
  have quiet : Keeps Call.callbacks (streamed (clientStreamHandlers app deserialize) t) :=
    keeps_streamed (fun _ => .pure _) (keeps_clientMessage app deserialize) t
  have adds (status : CallStatus Code) (c : Call Code Res) :
      (exec ((clientStreamHandlers app deserialize).onStatus status) c).2.callbacks =
        c.callbacks ++ [.callback (clientAnswer status c.last)] := by
    rw [exec_clientStatus, callbacks_callback]
  have once := view_once_iff _ _ (fun e c => abortOrUnknown (app.aborted c.told) (app.cancelled c.told) e)
    quiet adds {}
  simp only [exec_clientStatus, tell_ok_iff] at once
  exact once

/-! ### Terminal notifications -/

/-- One notification at most: a status event, and behind it the event that it makes, unless a status
listener threw. -/
inductive Notified : List (Notice Code Res) → Prop where
  | none : Notified []
  | cut (status : CallStatus Code) : Notified [.status status]
  | whole (status : CallStatus Code) : Notified [.status status, final status]

/-- One notification at most, with both events. -/
def Whole (terminal : List (Notice Code Res)) : Prop :=
  terminal = [] ∨ ∃ status, terminal = [.status status, final status]

def notification (app : Application Code Res) (status : CallStatus Code) (c : Call Code Res) :
    List (Notice Code Res) :=
  match app.throws c.told (.status status) with
  | some _ => [.status status]
  | none => [.status status, final status]

theorem final_terminal (status : CallStatus Code) :
    (final status : Notice Code Res).isTerminal = true ∧ (final status : Notice Code Res).isStatus = false := by
  unfold final
  cases statusToError status <;> exact ⟨rfl, rfl⟩

theorem exec_status (app : Application Code Res) (deserialize : Payload → Except String Res)
    (status : CallStatus Code) (c : Call Code Res) :
    (exec ((streamHandlers app deserialize).onStatus status) c).2.terminal =
        c.terminal ++ notification app status c ∧
      ((exec ((streamHandlers app deserialize).onStatus status) c).1 = .ok () ↔
        app.throws c.told (.status status) = none ∧
          app.throws (c.tell (.status status)).told (final status) = none) := by
  have unfolded : (streamHandlers app deserialize).onStatus status =
      app.tell (.status status) >>= fun _ => app.tell (final status) := rfl
  rw [unfolded, exec_bind, exec_tell, notification]
  cases thrown : app.throws c.told (.status status) with
  | some e =>
    refine ⟨?_, iff_of_false nofun nofun⟩
    simp [Call.terminal, Call.tell, Notice.isTerminal]
  | none =>
    refine ⟨?_, ?_⟩
    · have first : (Notice.status status : Notice Code Res).isTerminal = true := rfl
      simp [exec_tell, Call.terminal, Call.tell, first, (final_terminal status).1]
    · simp [tell_ok_iff]

theorem keeps_event (app : Application Code Res) (deserialize : Payload → Except String Res) :
    (∀ md, Keeps Call.terminal ((streamHandlers app deserialize).onHeaders md)) ∧
      ∀ message, Keeps Call.terminal ((streamHandlers app deserialize).onMessage message) :=
  ⟨fun _ => keeps_tell app rfl, fun _ => (keeps_liftExcept _).bind fun _ => keeps_tell app rfl⟩

theorem countP_notification (app : Application Code Res) (status : CallStatus Code) (c : Call Code Res) :
    (notification app status c).countP Notice.isStatus = 1 := by
  unfold notification
  cases app.throws c.told (.status status) with
  | some e => rfl
  | none =>
    rw [List.countP_cons, List.countP_singleton, (final_terminal status).2]
    rfl

theorem Notified.once {terminal : List (Notice Code Res)} (notified : Notified terminal) :
    terminal.countP Notice.isStatus ≤ 1 := by
  cases notified with
  | none => exact Nat.zero_le 1
  | cut status => exact Nat.le_refl 1
  | whole status =>
    rw [List.countP_cons, List.countP_singleton, (final_terminal status).2]
    exact Nat.le_refl 1

theorem notified_notification (app : Application Code Res) (status : CallStatus Code) (c : Call Code Res) :
    Notified (notification app status c) := by
  unfold notification
  cases app.throws c.told (.status status) with
  | some e => exact .cut status
  | none => exact .whole status

theorem whole_notification_iff (app : Application Code Res) (status : CallStatus Code) (c : Call Code Res) :
    Whole (notification app status c) ↔ app.throws c.told (.status status) = none := by
  unfold notification
  cases app.throws c.told (.status status) with
  | some e => exact iff_of_false (by simp [Whole]) nofun
  | none => exact iff_of_true (.inr ⟨status, rfl⟩) rfl

/-- The listeners return from the events of a stream whose body came to its end. -/
def EndReturns (app : Application Code Res) (deserialize : Bytes → Except String Res) (t : Transcript Code) : Prop :=
  ∀ status c, exec (streamed (streamHandlers app deserialize) t) {} = (.ok (some status), c) →
    app.throws c.told (.status status) = none ∧ app.throws (c.tell (.status status)).told (final status) = none

/-- The status listeners return from the status of a stream that failed. -/
def FailureReturns (app : Application Code Res) (deserialize : Bytes → Except String Res)
    (t : Transcript Code) : Prop :=
  ∀ e c, exec (streamed (streamHandlers app deserialize) t) {} = (.error e, c) →
    app.throws c.told (.status (abortOrUnknown (app.aborted c.told) (app.cancelled c.told) e)) = none

theorem Whole.notified {terminal : List (Notice Code Res)} (whole : Whole terminal) : Notified terminal := by
  rcases whole with rfl | ⟨status, rfl⟩
  · exact .none
  · exact .whole status

/-- What a stream over HTTP/2 tells of its end: one notification for each report. -/
theorem terminal_startStream (app : Application Code Res) (deserialize : Bytes → Except String Res)
    (t : Transcript Code) :
    (exec (startStream app (streamHandlers app deserialize) t) {}).2.terminal =
      (reports (streamed (streamHandlers app deserialize) t) (streamHandlers app deserialize).onStatus
        (fun e c => abortOrUnknown (app.aborted c.told) (app.cancelled c.told) e) {}).flatMap
          fun r => notification app r.1 r.2 := by
  have quiet : Keeps Call.terminal (streamed (streamHandlers app deserialize) t) :=
    keeps_streamed (keeps_event app deserialize).1 (keeps_event app deserialize).2 t
  rw [startStream, view_reporting _ _ _ quiet fun status c => (exec_status app deserialize status c).1]
  rfl

theorem notified_stream (app : Application Code Res) (deserialize : Bytes → Except String Res) (t : Transcript Code) :
    Notified (exec (startStream app (streamHandlers app deserialize) t) {}).2.terminal ↔
      EndReturns app deserialize t := by
  have returns := reports_length_le_one_iff (streamed (streamHandlers app deserialize) t)
    (streamHandlers app deserialize).onStatus
    (fun e c => abortOrUnknown (app.aborted c.told) (app.cancelled c.told) e) {}
  simp only [(exec_status app deserialize _ _).2] at returns
  rw [terminal_startStream, EndReturns, ← returns]
  generalize reports _ _ _ _ = told
  constructor
  · intro notified
    have once := notified.once
    rw [List.countP_flatMap] at once
    simpa [Function.comp_def, countP_notification] using once
  · intro short
    match told, short with
    | [], _ => exact .none
    | [(status, c)], _ => simpa using notified_notification app status c

theorem whole_stream (app : Application Code Res) (deserialize : Bytes → Except String Res) (t : Transcript Code) :
    Whole (exec (startStream app (streamHandlers app deserialize) t) {}).2.terminal ↔
      EndReturns app deserialize t ∧ FailureReturns app deserialize t := by
  by_cases returns : EndReturns app deserialize t
  · rw [terminal_startStream, reports]
    cases done : exec (streamed (streamHandlers app deserialize) t) {} with
    | mk r c =>
      rcases r with e | _ | status
      · simp only [List.flatMap_singleton, whole_notification_iff]
        constructor
        · intro quiet
          refine ⟨returns, fun e' c' failed => ?_⟩
          cases done.symm.trans failed
          exact quiet
        · exact fun both => both.2 e c done
      · refine iff_of_true (.inl rfl) ⟨returns, fun e c' failed => ?_⟩
        cases done.symm.trans failed
      · have quiet := returns status c done
        have ok := (exec_status app deserialize status c).2.mpr quiet
        cases told : exec ((streamHandlers app deserialize).onStatus status) c with
        | mk r c' =>
          rw [told] at ok
          obtain rfl : r = .ok () := ok
          simp only [told, List.flatMap_singleton, whole_notification_iff]
          refine iff_of_true quiet.1 ⟨returns, fun e c' failed => ?_⟩
          cases done.symm.trans failed
  · refine iff_of_false (fun whole => ?_) fun both => returns both.1
    exact returns ((notified_stream app deserialize t).mp whole.notified)

end

/-! ### Streams on a socket -/

section

variable [JsNumber] {Message Frame Res Payload : Type}

/-- `onStatus` is the last handler that a stream on a socket calls, in every run. -/
structure CalledOnce (c : SingleStream.Conn Frame Payload) : Prop where
  last : ∀ e ∈ c.called.dropLast, SingleStream.Event.isStatus e = false
  running : c.finished = false → ∀ e ∈ c.called, SingleStream.Event.isStatus e = false

theorem CalledOnce.step {codec : SingleStream.Codec Message Frame} {c c' : SingleStream.Conn Frame Payload}
    {l : SingleStream.Label Message Payload} (once : CalledOnce c) (taken : SingleStream.Step codec c l c') :
    CalledOnce c' := by
  cases opens : l.opens with
  | true =>
    cases l with
    | opened =>
      obtain ⟨_, ⟨⟩⟩ := Option.ite_none_left_eq_some.mp taken
      exact ⟨once.last, once.running⟩
    | _ => cases opens
  | false =>
    cases ended : c.finished with
    | true =>
      obtain ⟨finished, _, _, called⟩ := SingleStream.step_finished ended opens taken
      refine ⟨called ▸ once.last, fun running => ?_⟩
      cases running.symm.trans finished
    | false =>
      have runs := SingleStream.step_running ended opens taken
      have earlier := once.running ended
      constructor
      · rw [runs.called]
        cases l.event? with
        | none => simpa using fun e member => earlier e (List.dropLast_subset _ member)
        | some e =>
          rw [Option.toList_some, List.dropLast_concat]
          exact earlier
      · intro running
        have goes : l.terminal = false := runs.finished.symm.trans running
        rw [runs.called]
        intro e member
        rcases List.mem_append.mp member with before | now
        · exact earlier e before
        · have made : l.event? = some e := Option.mem_toList.mp now
          simpa [SingleStream.Label.terminal, made] using goes

theorem run_calledOnce {codec : SingleStream.Codec Message Frame} {ls : List (SingleStream.Label Message Payload)}
    {c : SingleStream.Conn Frame Payload} (run : Run (SingleStream.Step codec) (.start codec) ls c) :
    CalledOnce c := by
  have start : CalledOnce (SingleStream.Conn.start codec : SingleStream.Conn Frame Payload) := by
    constructor <;> exact nofun
  exact run.invariant (fun _ _ _ once taken => once.step taken) start

theorem CalledOnce.cases {c : SingleStream.Conn Frame Payload} (once : CalledOnce c) :
    ∃ init, (∀ e ∈ init, SingleStream.Event.isStatus e = false) ∧
      (c.called = init ∨ ∃ code details md, c.called = init ++ [.status code details md]) := by
  rcases List.eq_nil_or_concat c.called with none_ | ⟨init, e, last⟩
  · exact ⟨[], nofun, .inl none_⟩
  · rw [List.concat_eq_append] at last
    have earlier : ∀ e ∈ init, SingleStream.Event.isStatus e = false := by
      have before := once.last
      rw [last, List.dropLast_concat] at before
      exact before
    cases e with
    | status code details md => exact ⟨init, earlier, .inr ⟨code, details, md, last⟩⟩
    | headers | message =>
      refine ⟨_, fun e member => ?_, .inl last⟩
      rcases List.mem_append.mp member with before | now
      · exact earlier e before
      · obtain rfl := List.mem_singleton.mp now
        rfl

theorem deliver_append_singleton (handlers : StreamHandlers JsNumber.Number Res Payload)
    (events : List (Event Payload)) (event : Event Payload) (c : Call JsNumber.Number Res) :
    deliver handlers (events ++ [event]) c = (exec (handle handlers event) (deliver handlers events c)).2 := by
  simp [deliver]

theorem deliver_keeps {β : Type} {view : Call JsNumber.Number Res → β}
    {handlers : StreamHandlers JsNumber.Number Res Payload} (headers : ∀ md, Keeps view (handlers.onHeaders md))
    (each : ∀ message, Keeps view (handlers.onMessage message)) {events : List (Event Payload)}
    (running : ∀ e ∈ events, SingleStream.Event.isStatus e = false) (c : Call JsNumber.Number Res) :
    view (deliver handlers events c) = view c := by
  induction events using List.reverseRecOn with
  | nil => rfl
  | append_singleton events event ih =>
    have before := ih fun e member => running e (List.mem_append_left _ member)
    rw [deliver_append_singleton, ← before]
    cases event with
    | headers md => exact headers md _
    | message payload => exact each payload _
    | status => exact nomatch running _ (List.mem_append_right _ List.mem_cons_self)

theorem callbacks_socket (app : Application JsNumber.Number Res) (deserialize : Payload → Except String Res)
    {c : SingleStream.Conn Frame Payload} (once : CalledOnce c) :
    (deliver (clientStreamHandlers app deserialize) c.called {}).callbacks.length ≤ 1 := by
  obtain ⟨init, running, called⟩ := once.cases
  have before : (deliver (clientStreamHandlers app deserialize) init {}).callbacks = [] :=
    deliver_keeps (fun _ => .pure _) (keeps_clientMessage app deserialize) running {}
  rcases called with same | ⟨code, details, md, last⟩
  · rw [same, before]
    exact Nat.zero_le 1
  · rw [last, deliver_append_singleton, handle, exec_clientStatus, exec_tell]
    rw [callbacks_tell, before]
    exact Nat.le_refl 1

theorem terminal_socket (app : Application JsNumber.Number Res) (deserialize : Payload → Except String Res)
    {c : SingleStream.Conn Frame Payload} (once : CalledOnce c) :
    Notified (deliver (streamHandlers app deserialize) c.called {}).terminal ∧
      (Whole (deliver (streamHandlers app deserialize) c.called {}).terminal ↔
        ∀ init code details md, c.called = init ++ [.status code details md] →
          app.throws (deliver (streamHandlers app deserialize) init {}).told (.status ⟨code, details, md⟩) = none) := by
  obtain ⟨init, running, called⟩ := once.cases
  have before : (deliver (streamHandlers app deserialize) init {}).terminal = [] :=
    deliver_keeps (keeps_event app deserialize).1 (keeps_event app deserialize).2 running {}
  rcases called with same | ⟨code, details, md, last⟩
  · rw [same, before]
    refine ⟨.none, iff_of_true (.inl rfl) fun init' code details md ends => ?_⟩
    have stays := running (.status code details md) (ends ▸ List.mem_append_right init' List.mem_cons_self)
    cases stays
  · rw [last, deliver_append_singleton, handle, (exec_status app deserialize _ _).1, before, List.nil_append]
    refine ⟨notified_notification app _ _, (whole_notification_iff app _ _).trans ?_⟩
    constructor
    · intro quiet init' code' details' md' same
      obtain ⟨rfl, ends⟩ := List.append_inj' same rfl
      cases ends
      exact quiet
    · intro quiet
      exact quiet init code details md rfl

/-- The callback of a call is called once at most and a stream tells of its end once at most, exactly
if the callback, or the listeners of the end, return when a response over HTTP/2 or a unary response
makes them run; on a socket of its own always. A notification is whole exactly if its status listeners
return, too. -/
theorem settles_once (app : Application JsNumber.Number Res) :
    (∀ deserialize outcome, (exec (makeUnaryRequest app deserialize outcome) {}).2.callbacks.length ≤ 1 ↔
        CallbackReturns app deserialize outcome) ∧
      (∀ deserialize t, (exec (startStream app (clientStreamHandlers app deserialize) t) {}).2.callbacks.length ≤ 1 ↔
        ClientCallbackReturns app deserialize t) ∧
      (∀ deserialize t, (Notified (exec (startStream app (streamHandlers app deserialize) t) {}).2.terminal ↔
          EndReturns app deserialize t) ∧
        (Whole (exec (startStream app (streamHandlers app deserialize) t) {}).2.terminal ↔
          EndReturns app deserialize t ∧ FailureReturns app deserialize t)) ∧
      ∀ (codec : SingleStream.Codec Message Frame) ls (c : SingleStream.Conn Frame Payload) deserialize,
        Run (SingleStream.Step codec) (.start codec) ls c →
          (deliver (clientStreamHandlers app deserialize) c.called {}).callbacks.length ≤ 1 ∧
          Notified (deliver (streamHandlers app deserialize) c.called {}).terminal ∧
          (Whole (deliver (streamHandlers app deserialize) c.called {}).terminal ↔
            ∀ init code details md, c.called = init ++ [.status code details md] →
              app.throws (deliver (streamHandlers app deserialize) init {}).told
                (.status ⟨code, details, md⟩) = none) := by
  refine ⟨callbacks_unary app, callbacks_clientStream app, ?_, ?_⟩
  · exact fun deserialize t => ⟨notified_stream app deserialize t, whole_stream app deserialize t⟩
  · intro codec ls c deserialize run
    have once := run_calledOnce run
    obtain ⟨notified, whole⟩ := terminal_socket app deserialize once
    exact ⟨callbacks_socket app deserialize once, notified, whole⟩

end

section

attribute [local instance] wholeNumbers

/-- The callback throws when it is given a response, and the status listener when the status is OK. -/
def throwing : Application JsNumber.Number Nat where
  throws
    | _, .callback (.ok _) => some "no such row"
    | _, .status ⟨some 0, _, _⟩ => some "no such trailer"
    | _, _ => none
  aborted _ := none
  cancelled _ := false

/-- The same without a status listener. -/
def throwingCallback : Application JsNumber.Number Nat where
  throws
    | _, .callback (.ok _) => some "no such row"
    | _, _ => none
  aborted _ := none
  cancelled _ := false

def okStatus : CallStatus JsNumber.Number := ⟨JsNumber.ofNat 0, "", .empty⟩

/-- A stream that ends well, without a message. -/
def okStream : Transcript JsNumber.Number := ⟨some (.ok .empty), [], some (.ok okStatus)⟩

/-- The callback of a unary and that of a client-streaming call is called twice. A readable stream has
two status events. -/
theorem settles_twice :
    (exec (makeUnaryRequest throwingCallback (fun bytes => .ok bytes.length) (some (.ok ⟨[7], .empty, okStatus⟩)))
        {}).2.callbacks.length = 2 ∧
      (exec (startStream throwingCallback
        (clientStreamHandlers throwingCallback fun bytes => .ok bytes.length) okStream) {}).2.callbacks.length = 2 ∧
      (exec (startStream throwing (streamHandlers throwing fun bytes => .ok bytes.length) okStream)
        {}).2.terminal.map Notice.isStatus = [true, true, false] :=
  ⟨rfl, rfl, rfl⟩

def unitCodec : SingleStream.Codec Unit Unit := ⟨(), fun _ => none, (), fun _ => ()⟩

/-- A stream that got its status before its socket opened. -/
def ended : SingleStream.Conn Unit Nat :=
  { pending := [()], finished := true, called := [.status (JsNumber.ofNat 0) "" .empty] }

/-- On a socket of its own the same listener leaves the status without its end, and is not called again. -/
theorem settles_once_socket :
    (deliver (clientStreamHandlers throwing fun n => .ok n) ended.called {}).callbacks.length ≤ 1 ∧
      Notified (deliver (streamHandlers throwing fun n => .ok n) ended.called {}).terminal ∧
      (deliver (streamHandlers throwing fun n => .ok n) ended.called {}).terminal = [.status okStatus] := by
  have run : Run (SingleStream.Step unitCodec) (.start unitCodec)
      [.message (some (.status (JsNumber.ofNat 0) "" .empty))] ended := .cons rfl (.nil ended)
  have settled := (settles_once throwing).2.2.2 unitCodec _ ended (fun n => .ok n) run
  exact ⟨settled.1, settled.2.1, rfl⟩

end

end Calls
end Client
end GrpcWebnext
