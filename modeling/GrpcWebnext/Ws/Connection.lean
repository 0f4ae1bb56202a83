import GrpcWebnext.Lib.Transition
import GrpcWebnext.Schema
import GrpcWebnext.Ws.RunStream

/-!
# A WebSocket connection

`serve`, `handle_frame` and `run_stream` as the parties of one connection: the read loop, one task
for each stream that was opened, and the writer at the end of the outbound channel. A step is what
one party does up to its next `await`; the peer, the backend and the schema answer as they like.
-/

namespace GrpcWebnext
namespace Ws
open Metadata

/-! ### Lists -/

theorem map_modify_same {α β : Type} {f : α → β} {g : α → α} (same : ∀ a, f (g a) = f a)
    (l : List α) (i : Nat) :
    (l.modify i g).map f = l.map f := by
  apply List.ext_getElem?
  intro j
  rw [List.getElem?_map, List.getElem?_map, List.getElem?_modify]
  by_cases here : i = j <;> cases l[j]? <;> simp [here, same]

theorem map_set_same {α β : Type} {f : α → β} {l : List α} {i : Nat} {a b : α} (found : l[i]? = some a)
    (same : f b = f a) : (l.set i b).map f = l.map f := by
  obtain ⟨within, rfl⟩ := List.getElem?_eq_some_iff.mp found
  rw [List.map_set, same, ← List.getElem_map f (h := by simpa using within), List.set_getElem_self]

/-! ### Parameters -/

structure WsParams where
  codec : Option Bool
  method : Option String
  ann : Option WsBinding

def wsParams (ann : Option WsBinding) (codec : Option Bool) (uriPath : String) : WsParams :=
  match ann with
  | some ann => ⟨some true, some ann.grpcMethod, some ann⟩
  | none => ⟨codec, some uriPath, none⟩

variable [ProstReflect] [SerdeJson]
open SerdeJson

structure Config where
  maxMessageBytes : Nat
  schema : Schema.Inner
  params : WsParams

def Config.upgrade (maxMessageBytes : Nat) (schema : Schema.Inner) (ann : Option WsBinding)
    (codec : Option Bool) (uriPath : String) : Config :=
  ⟨maxMessageBytes, schema, wsParams ann codec uriPath⟩

def Config.methodUrl (cfg : Config) : String := cfg.params.method.getD ""

def requestCapacity : Nat := 16
def outboundCapacity : Nat := 64

/-! ### State -/

/-- Where `run_stream` waits. The frames of `pumping` and `ending` are still to be sent. -/
inductive Pc where
  | start
  | rejecting (reset : Frame)
  | calling
  | pumping (out : List Frame) (respHeaders : HeaderMap) (pump : Pump)
  /-- the pump ends with this terminal frame -/
  | ending (out : List Frame) (terminal : Frame)
  | expired
  | closing
  | done

structure Task where
  pathAndQuery : String
  headers : HeaderMap
  timeout : Option Nat
  json : Bool
  transcoder : Option Transcoder := none
  pc : Pc := .start
  /-- `abort` was called; the task stops when it next yields -/
  aborted : Bool := false
  requests : List Bytes
  /-- the call was dispatched: the request body belongs to the backend -/
  called : Bool := false
  /-- the request channel still has its receiver, in the body or in the task -/
  receiver : Bool := true
  delivered : List Bytes := []
  bodyEnded : Bool := false

/-- `StreamState`: the task, and whether `req_tx` is still held. -/
structure StreamState where
  task : Nat
  reqTx : Bool

structure Dispatch where
  pathAndQuery : String
  headers : HeaderMap

/-- Where the read loop waits. -/
inductive Reader where
  | ready
  | feeding (payload : Bytes)
  | resetting (reset : Frame) (json : Bool) (drop : Bool)
  /-- behind the reset of an oversized message -/
  | dropping
  | ended

structure Conn where
  codec : Option Bool
  opened : Bool := false
  stream : Option StreamState := none
  tasks : List Task := []
  calls : List Dispatch := []
  /-- all that was put into the outbound channel -/
  outbound : List (TungMessage Value) := []
  /-- how many of them the writer has taken -/
  written : Nat := 0
  writer : Bool := true
  reader : Reader := .ready

def Conn.initial (cfg : Config) : Conn := { codec := cfg.params.codec }

def Conn.pcs (s : Conn) : List Pc := s.tasks.map Task.pc

def Conn.paths (s : Conn) : List String := s.tasks.map Task.pathAndQuery

/-- The tasks stay where they are and nothing is dispatched; `sent` is put into the channel. -/
structure Conn.Still (s : Conn) (sent : List (TungMessage Value)) (t : Conn) : Prop where
  pcs : t.pcs = s.pcs
  paths : t.paths = s.paths
  calls : t.calls = s.calls
  outbound : t.outbound = s.outbound ++ sent
  writer : t.writer = s.writer
  opened : s.opened = true → t.opened = true

theorem Conn.Still.refl (s : Conn) : s.Still [] s := ⟨rfl, rfl, rfl, (List.append_nil _).symm, rfl, id⟩

theorem Conn.Still.moved (s : Conn) (reader : Reader) : s.Still [] { s with reader } :=
  ⟨rfl, rfl, rfl, (List.append_nil _).symm, rfl, id⟩

theorem Conn.Still.trans {s t u : Conn} {a b : List (TungMessage Value)} (first : s.Still a t)
    (second : t.Still b u) : s.Still (a ++ b) u where
  pcs := second.pcs.trans first.pcs
  paths := second.paths.trans first.paths
  calls := second.calls.trans first.calls
  outbound := by rw [second.outbound, first.outbound, List.append_assoc]
  writer := second.writer.trans first.writer
  opened := second.opened ∘ first.opened

/-! ### The outbound channel -/

/-- A send into the outbound channel, done or failed; `none` while the channel is full. -/
def Conn.put (s : Conn) (msg : TungMessage Value) : Option Conn :=
  if !s.writer then some s
  else if s.outbound.length < s.written + outboundCapacity then some { s with outbound := s.outbound ++ [msg] }
  else none

def Conn.sent (s : Conn) (msg : TungMessage Value) : List (TungMessage Value) :=
  if s.writer then [msg] else []

theorem Conn.put_eq {s t : Conn} {msg : TungMessage Value} (taken : s.put msg = some t) :
    t = { s with outbound := s.outbound ++ s.sent msg } := by
  unfold Conn.put at taken
  cases alive : s.writer with
  | false =>
    obtain rfl : s = t := by simpa [alive] using taken
    simp only [Conn.sent, alive, Bool.false_eq_true, ↓reduceIte, List.append_nil]
    rw [← alive]
  | true =>
    simp only [alive, Bool.not_true, Bool.false_eq_true, ↓reduceIte] at taken
    obtain ⟨_, ⟨⟩⟩ := Option.ite_none_right_eq_some.mp taken
    simp [Conn.sent, alive]

/-! ### The tasks -/

inductive TaskEvent where
  /-- the first poll of a binary stream -/
  | begin
  /-- the transcoder of a JSON stream, with the snapshot that the schema held -/
  | resolve (current : Option Transcoder)
  | answer (outcome : Except BoxError HeaderMap)
  | body (event : BodyEvent)
  | send
  | expire
  | kill
  /-- the backend takes a data frame from the request body, sees its end, or drops it -/
  | deliver
  | endBody
  | dropBody

def Task.methodPath (t : Task) : String := pathOf t.pathAndQuery

def Task.dispatch (t : Task) : Dispatch := ⟨t.pathAndQuery, requestHeaders t.headers t.timeout⟩

def Task.pump (t : Task) (respHeaders : HeaderMap) (pump : Pump) (event : BodyEvent) : Pc :=
  let turn (frame : BodyFrame) :=
    let turn := pumpFrame t.transcoder t.methodPath pump frame
    match turn.2 with
    | .error reset => .ending turn.1 reset
    | .ok pump => .pumping turn.1 respHeaders pump
  match event with
  | .data data => turn (.data data)
  | .trailers trailers => turn (.trailers trailers)
  | .error _ => .ending [] (trailerFrame respHeaders pump.trailers)
  | .eof => .ending [] (trailerFrame respHeaders pump.trailers)

def Pc.inFlight : Pc → Bool
  | .calling => true
  | .pumping _ _ _ => true
  | .ending _ _ => true
  | _ => false

/-- A task that ends drops the request channel, unless the backend has it. -/
def Task.moveTo (t : Task) : Pc → Task
  | .done => { t with pc := .done, receiver := t.receiver && t.called }
  | pc => { t with pc }

omit [SerdeJson] in
@[simp] theorem Task.moveTo_pc (t : Task) (pc : Pc) : (t.moveTo pc).pc = pc := by cases pc <;> rfl

omit [SerdeJson] in
@[simp] theorem Task.moveTo_pathAndQuery (t : Task) (pc : Pc) :
    (t.moveTo pc).pathAndQuery = t.pathAndQuery := by
  cases pc <;> rfl

/-- What `run_stream` does at an event other than a send, and the call it dispatches. `sender`
tells whether `req_tx` is held. -/
def Task.advance (cfg : Config) (t : Task) (sender : Bool) (event : TaskEvent) :
    Option (Task × Option Dispatch) :=
  match event, t.pc with
  | .begin, .start => if t.json then none else some ({ t with pc := .calling, called := true }, some t.dispatch)
  | .resolve current, .start =>
    if !t.json then none
    else match Schema.transcoder cfg.schema current t.methodPath with
      | .ok tc => some ({ t with transcoder := some tc, pc := .calling, called := true }, some t.dispatch)
      | .error status => some ({ t with pc := .rejecting (resetFrame status.code status.message) }, none)
  | .answer (.ok headers), .calling =>
    some ({ t with pc := .pumping [headerFrame headers] headers {} }, none)
  | .answer (.error e), .calling => some ({ t with pc := .ending [] (unavailableFrame e) }, none)
  | .body event, .pumping [] respHeaders pump => some ({ t with pc := t.pump respHeaders pump event }, none)
  | .expire, pc => if t.timeout.isSome && pc.inFlight then some ({ t with pc := .expired }, none) else none
  | .kill, _ => if t.aborted then some (t.moveTo .done, none) else none
  -- The backend polls the request body on its own, also behind the end of the stream task.
  | .deliver, _ =>
    match t.requests with
    | payload :: rest =>
      if t.receiver && t.called then
        some ({ t with
          requests := rest
          delivered := t.delivered ++ [requestFrame cfg.params.ann t.transcoder t.methodPath payload] }, none)
      else none
    | [] => none
  | .endBody, _ =>
    if t.receiver && t.called && t.requests.isEmpty && !sender then some ({ t with bodyEnded := true }, none)
    else none
  | .dropBody, _ => if t.called then some ({ t with receiver := false }, none) else none
  | _, _ => none

/-- The message that a task waits to send, and where it goes on behind it. -/
def Pc.sending (json : Bool) : Pc → Option (TungMessage Value × Pc)
  | .rejecting reset => some (toTung reset json, .closing)
  | .pumping (frame :: out) respHeaders pump => some (toTung frame json, .pumping out respHeaders pump)
  | .ending (frame :: out) terminal => some (toTung frame json, .ending out terminal)
  | .ending [] terminal => some (toTung terminal json, .closing)
  | .expired => some (toTung deadlineFrame json, .closing)
  | .closing => some (closeNormal, .done)
  | _ => none

/-- Where a task goes on when the channel is closed: a `Message` that fails ends the pump. -/
def Pc.unsent (pc next : Pc) : Pc :=
  match pc with
  | .pumping (⟨some (.message _)⟩ :: _) _ _ => .closing
  | .ending (⟨some (.message _)⟩ :: _) _ => .closing
  | _ => next

def Conn.stepTask (cfg : Config) (s : Conn) (i : Nat) (event : TaskEvent) : Option Conn :=
  match s.tasks[i]? with
  | none => none
  | some t =>
    match event with
    | .send =>
      match t.pc.sending t.json with
      | none => none
      | some (msg, next) =>
        (s.put msg).map fun s' =>
          { s' with tasks := s.tasks.set i (t.moveTo (if s.writer then next else t.pc.unsent next)) }
    | event =>
      (t.advance cfg (s.stream.any fun st => st.task = i && st.reqTx) event).map fun (t', call) =>
        { s with tasks := s.tasks.set i t', calls := s.calls ++ call.toList }

def Pc.running : Pc → Bool
  | .closing => false
  | .done => false
  | _ => true

omit [ProstReflect] [SerdeJson] in
theorem Pc.running_of_inFlight {pc : Pc} (flying : pc.inFlight = true) : pc.running = true := by
  cases pc <;> first | rfl | cases flying

def Pc.TerminalLast : Pc → Prop
  | .rejecting reset => reset.status?.isSome
  | .pumping out _ _ => ∀ frame ∈ out, frame.status? = none
  | .ending out terminal => (∀ frame ∈ out, frame.status? = none) ∧ terminal.status?.isSome
  | _ => True

omit [SerdeJson] in
theorem Task.pump_cases (t : Task) (respHeaders : HeaderMap) (pump : Pump) (event : BodyEvent) :
    (t.pump respHeaders pump event).running ∧ t.pump respHeaders pump event ≠ .start ∧
      (t.pump respHeaders pump event).TerminalLast := by
  cases event with
  | data data =>
    obtain ⟨messages, reset⟩ := pumpFrame_messages t.transcoder t.methodPath pump (.data data)
    simp only [Task.pump]
    split
    · exact ⟨rfl, nofun, messages, reset _ ‹_›⟩
    · exact ⟨rfl, nofun, messages⟩
  | trailers trailers => exact ⟨rfl, nofun, nofun⟩
  | error e => exact ⟨rfl, nofun, nofun, rfl⟩
  | eof => exact ⟨rfl, nofun, nofun, rfl⟩

/-- What a task does at an event, by the branches of `advance`. -/
inductive Task.Advanced (cfg : Config) (t : Task) (sender : Bool) : TaskEvent → Task → Option Dispatch → Prop where
  | begun : t.json = false → t.pc = .start →
      t.Advanced cfg sender .begin { t with pc := .calling, called := true } (some t.dispatch)
  | resolved {current : Option Transcoder} {tc : Transcoder} : t.json = true → t.pc = .start →
      Schema.transcoder cfg.schema current t.methodPath = .ok tc →
      t.Advanced cfg sender (.resolve current) { t with transcoder := some tc, pc := .calling, called := true }
        (some t.dispatch)
  | refused {current : Option Transcoder} {status : Status} : t.json = true → t.pc = .start →
      Schema.transcoder cfg.schema current t.methodPath = .error status →
      t.Advanced cfg sender (.resolve current) { t with pc := .rejecting (resetFrame status.code status.message) } none
  | answered (headers : HeaderMap) : t.pc = .calling →
      t.Advanced cfg sender (.answer (.ok headers)) { t with pc := .pumping [headerFrame headers] headers {} } none
  | failed (e : BoxError) : t.pc = .calling →
      t.Advanced cfg sender (.answer (.error e)) { t with pc := .ending [] (unavailableFrame e) } none
  | pumped {respHeaders : HeaderMap} {pump : Pump} (event : BodyEvent) : t.pc = .pumping [] respHeaders pump →
      t.Advanced cfg sender (.body event) { t with pc := t.pump respHeaders pump event } none
  | expired : t.timeout.isSome = true → t.pc.inFlight = true →
      t.Advanced cfg sender .expire { t with pc := .expired } none
  | killed : t.aborted = true → t.Advanced cfg sender .kill (t.moveTo .done) none
  | delivered {payload : Bytes} {rest : List Bytes} : t.requests = payload :: rest → t.receiver = true → t.called = true →
      t.Advanced cfg sender .deliver
        { t with
          requests := rest
          delivered := t.delivered ++ [requestFrame cfg.params.ann t.transcoder t.methodPath payload] } none
  | bodyEnded : t.receiver = true → t.called = true → t.requests = [] → sender = false →
      t.Advanced cfg sender .endBody { t with bodyEnded := true } none
  | bodyDropped : t.called = true → t.Advanced cfg sender .dropBody { t with receiver := false } none

omit [SerdeJson] in
theorem Task.advance_inv {cfg : Config} {t t' : Task} {sender : Bool} {event : TaskEvent}
    {call : Option Dispatch} (taken : t.advance cfg sender event = some (t', call)) :
    t.Advanced cfg sender event t' call := by
  unfold Task.advance at taken
  split at taken
  case h_1 waits =>
    split at taken
    · cases taken
    · rename_i binary
      cases taken
      exact .begun (by simpa using binary) waits
  case h_2 current waits =>
    split at taken
    · cases taken
    · rename_i json
      have json : t.json = true := by simpa using json
      split at taken
      · cases taken
        exact .resolved json waits ‹_›
      · cases taken
        exact .refused json waits ‹_›
  case h_3 headers waits =>
    cases taken
    exact .answered headers waits
  case h_4 e waits =>
    cases taken
    exact .failed e waits
  case h_5 event respHeaders pump waits =>
    cases taken
    exact .pumped event waits
  case h_6 =>
    obtain ⟨flying, ⟨⟩⟩ := Option.ite_none_right_eq_some.mp taken
    obtain ⟨bounded, flying⟩ := Bool.and_eq_true_iff.mp flying
    exact .expired bounded flying
  case h_7 =>
    obtain ⟨aborted, ⟨⟩⟩ := Option.ite_none_right_eq_some.mp taken
    exact .killed aborted
  case h_8 =>
    split at taken
    · obtain ⟨held, ⟨⟩⟩ := Option.ite_none_right_eq_some.mp taken
      obtain ⟨receiver, called⟩ := Bool.and_eq_true_iff.mp held
      exact .delivered ‹_› receiver called
    · cases taken
  case h_9 =>
    obtain ⟨held, ⟨⟩⟩ := Option.ite_none_right_eq_some.mp taken
    simp only [Bool.and_eq_true, List.isEmpty_iff, Bool.not_eq_true'] at held
    obtain ⟨⟨⟨receiver, called⟩, empty⟩, released⟩ := held
    exact .bodyEnded receiver called empty released
  case h_10 =>
    obtain ⟨called, ⟨⟩⟩ := Option.ite_none_right_eq_some.mp taken
    exact .bodyDropped called
  case h_11 => cases taken

omit [SerdeJson] in
theorem Task.Advanced.cases {cfg : Config} {t t' : Task} {sender : Bool} {event : TaskEvent}
    {call : Option Dispatch} (advanced : t.Advanced cfg sender event t' call) :
    t'.pathAndQuery = t.pathAndQuery ∧
      (t'.pc = t.pc ∧ call = none ∨
        event = .kill ∧ t'.pc = .done ∧ call = none ∨
        t.pc = .start ∧ t'.pc = .calling ∧ call = some t.dispatch ∨
        t.pc.running ∧ t'.pc.running ∧ t'.pc ≠ .start ∧ t'.pc.TerminalLast ∧ call = none) := by
  cases advanced with
  | begun _ waits | resolved _ waits _ => exact ⟨rfl, .inr (.inr (.inl ⟨waits, rfl, rfl⟩))⟩
  | refused _ waits _ => exact ⟨rfl, .inr (.inr (.inr ⟨by simp [waits, Pc.running], rfl, nofun, rfl, rfl⟩))⟩
  | answered headers waits =>
    exact ⟨rfl, .inr (.inr (.inr ⟨by simp [waits, Pc.running], rfl, nofun, List.forall_mem_singleton.mpr rfl, rfl⟩))⟩
  | failed e waits =>
    exact ⟨rfl, .inr (.inr (.inr ⟨by simp [waits, Pc.running], rfl, nofun, ⟨nofun, rfl⟩, rfl⟩))⟩
  | pumped event waits =>
    obtain ⟨running, left, last⟩ := t.pump_cases _ _ event
    exact ⟨rfl, .inr (.inr (.inr ⟨by simp [waits, Pc.running], running, left, last, rfl⟩))⟩
  | expired _ flying =>
    exact ⟨rfl, .inr (.inr (.inr ⟨Pc.running_of_inFlight flying, rfl, nofun, trivial, rfl⟩))⟩
  | killed => exact ⟨rfl, .inr (.inl ⟨rfl, rfl, rfl⟩)⟩
  | delivered | bodyEnded | bodyDropped => exact ⟨rfl, .inl ⟨rfl, rfl⟩⟩

/-- Task `i` moves, dispatches `call` and puts `sent` into the channel. -/
structure Conn.Moves (s : Conn) (i : Nat) (pc : Pc) (call : Option Dispatch)
    (sent : List (TungMessage Value)) (t : Conn) : Prop where
  pcs : t.pcs = s.pcs.set i pc
  paths : t.paths = s.paths
  calls : t.calls = s.calls ++ call.toList
  outbound : t.outbound = s.outbound ++ sent
  writer : t.writer = s.writer
  reader : t.reader = s.reader
  opened : t.opened = s.opened

omit [SerdeJson] in
/-- A task of a connection behind an update is the updated one, or was there before. -/
theorem found_set {tasks : List Task} {i j : Nat} {task' other : Task}
    (found : (tasks.set i task')[j]? = some other) : j = i ∧ other = task' ∨ tasks[j]? = some other := by
  rw [List.getElem?_set] at found
  split at found
  · rename_i here
    obtain ⟨_, ⟨⟩⟩ := Option.ite_none_right_eq_some.mp found
    exact .inl ⟨here.symm, rfl⟩
  · exact .inr found

theorem Conn.stepTask_inv {cfg : Config} {s t : Conn} {i : Nat} {event : TaskEvent}
    (taken : s.stepTask cfg i event = some t) :
    ∃ task, s.tasks[i]? = some task ∧
      ((∃ msg next, event = .send ∧ task.pc.sending task.json = some (msg, next) ∧
          t = { s with
            outbound := s.outbound ++ s.sent msg
            tasks := s.tasks.set i (task.moveTo (if s.writer then next else task.pc.unsent next)) }) ∨
        ∃ task' call, task.Advanced cfg (s.stream.any fun st => st.task = i && st.reqTx) event task' call ∧
          t = { s with tasks := s.tasks.set i task', calls := s.calls ++ call.toList }) := by
  unfold Conn.stepTask at taken
  cases found : s.tasks[i]? with
  | none => simp [found] at taken
  | some task =>
    refine ⟨task, rfl, ?_⟩
    simp only [found] at taken
    split at taken
    · split at taken
      · cases taken
      · rename_i msg next waits
        obtain ⟨s', put, rfl⟩ := Option.map_eq_some_iff.mp taken
        obtain rfl := Conn.put_eq put
        exact .inl ⟨msg, next, rfl, waits, rfl⟩
    · obtain ⟨⟨task', call⟩, advanced, rfl⟩ := Option.map_eq_some_iff.mp taken
      exact .inr ⟨task', call, Task.advance_inv advanced, rfl⟩

theorem Conn.stepTask_cases {cfg : Config} {s t : Conn} {i : Nat} {event : TaskEvent}
    (taken : s.stepTask cfg i event = some t) :
    ∃ task, s.tasks[i]? = some task ∧
      ((∃ msg next, event = .send ∧ task.pc.sending task.json = some (msg, next) ∧
          s.Moves i (if s.writer then next else task.pc.unsent next) none (s.sent msg) t) ∨
        ∃ task' call sender, task.Advanced cfg sender event task' call ∧ s.Moves i task'.pc call [] t) := by
  obtain ⟨task, found, ⟨msg, next, rfl, waits, rfl⟩ | ⟨task', call, advanced, rfl⟩⟩ := Conn.stepTask_inv taken
  · refine ⟨task, found, .inl ⟨msg, next, rfl, waits, ?_⟩⟩
    refine ⟨?_, map_set_same found (by simp), (List.append_nil _).symm, rfl, rfl, rfl, rfl⟩
    rw [Conn.pcs, List.map_set, Task.moveTo_pc]
    rfl
  · refine ⟨task, found, .inr ⟨task', call, _, advanced, ?_⟩⟩
    exact ⟨List.map_set, map_set_same found advanced.cases.1, rfl, (List.append_nil _).symm, rfl, rfl, rfl⟩

/-! ### The read loop -/

def sizeReset : Frame := resetFrame .resourceExhausted "request message exceeds size limit"

def Conn.dropStream (s : Conn) : Conn :=
  match s.stream with
  | some st => { s with stream := none, tasks := s.tasks.modify st.task fun t => { t with aborted := true } }
  | none => s

/-- The codec lock and the decoder of a message, with the frame it yields. -/
def Conn.decode (cfg : Config) (s : Conn) : Inbound Value → Conn × Option (Frame × Bool)
  | .binary data =>
    let json := s.codec.getD false
    if json then ({ s with codec := some json }, none)
    else
      let decoded := decodeBinary data cfg.methodUrl s.opened
      ({ s with codec := some json, opened := decoded.2 }, decoded.1.map (·, false))
  | .text text =>
    let json := s.codec.getD true
    if !json then ({ s with codec := some json }, none)
    else
      let decoded := decodeText text cfg.methodUrl s.opened
      ({ s with codec := some json, opened := decoded.2 }, decoded.1.map (·, true))
  | .close => (s, none)
  | .control => (s, none)

/-- The branch of `handle_frame` that opens the stream. -/
def Conn.openStream (cfg : Config) (s : Conn) (sub : Subscribe) (json : Bool) : Conn :=
  let noBody := cfg.params.ann.any fun ann => !ann.hasBody
  let first := if sub.initialPayload.isEmpty then [] else [sub.initialPayload]
  let task : Task :=
    { pathAndQuery := sub.method
      headers := metadataVecToMetadata sub.headers
      timeout := grpcTimeoutFromMillis sub.timeoutMillis
      json
      requests := if noBody then first ++ [[]] else first }
  { s with tasks := s.tasks ++ [task], stream := some ⟨s.tasks.length, !noBody⟩ }

def Conn.leave (s : Conn) : Conn := { s.dropStream with reader := .ended }

def Conn.resume (s : Conn) : Option Conn :=
  match s.reader with
  | .feeding payload =>
    match s.stream.bind fun st => (s.tasks[st.task]?).map (st.task, ·) with
    | some (i, t) =>
      if !t.receiver then some { s with reader := .ready }
      else if t.requests.length < requestCapacity then
        some { s with reader := .ready, tasks := s.tasks.set i { t with requests := t.requests ++ [payload] } }
      else none
    | none => some { s with reader := .ready }
  | .resetting reset json drop =>
    (s.put (toTung reset json)).map fun s => { s with reader := if drop then .dropping else .ready }
  | .dropping => some { s.dropStream with reader := .ready }
  | _ => none

theorem Conn.dropStream_still (s : Conn) : s.Still [] s.dropStream := by
  unfold Conn.dropStream
  split
  · refine ⟨?_, ?_, rfl, (List.append_nil _).symm, rfl, id⟩
    · exact map_modify_same (f := Task.pc) (g := fun t => { t with aborted := true }) (fun _ => rfl) _ _
    · exact map_modify_same (f := Task.pathAndQuery) (g := fun t => { t with aborted := true }) (fun _ => rfl) _ _
  · exact .refl s

theorem Conn.dropStream_reader (s : Conn) : s.dropStream.reader = s.reader := by
  unfold Conn.dropStream
  split <;> rfl

theorem Conn.decode_eq (cfg : Config) (s : Conn) (msg : Inbound Value) :
    ∃ codec opened, (s.decode cfg msg).1 = { s with codec, opened } ∧
      (s.opened = true → opened = true) := by
  cases msg with
  | binary data =>
    simp only [Conn.decode]
    split
    · exact ⟨_, _, rfl, id⟩
    · exact ⟨_, _, rfl, decodeBinary_opened⟩
  | text text =>
    simp only [Conn.decode]
    split
    · exact ⟨_, _, rfl, id⟩
    · exact ⟨_, _, rfl, decodeText_opened⟩
  | close => exact ⟨_, _, rfl, id⟩
  | control => exact ⟨_, _, rfl, id⟩

/-- A message that holds a frame, in the codec that the connection has from then on. -/
inductive Conn.Decodes (cfg : Config) (s : Conn) (frame : Frame) : Inbound Value → Bool → Conn → Prop where
  | binary {data : Option Frame} :
      s.codec.getD false = false → (decodeBinary data cfg.methodUrl s.opened).1 = some frame →
      Decodes cfg s frame (.binary data) false
        { s with codec := some false, opened := (decodeBinary data cfg.methodUrl s.opened).2 }
  | text {text : Option (JsonFrame Value)} :
      s.codec.getD true = true → (decodeText text cfg.methodUrl s.opened).1 = some frame →
      Decodes cfg s frame (.text text) true
        { s with codec := some true, opened := (decodeText text cfg.methodUrl s.opened).2 }

theorem Conn.decode_some {cfg : Config} {s : Conn} {msg : Inbound Value} {frame : Frame} {json : Bool}
    (decoded : (s.decode cfg msg).2 = some (frame, json)) : s.Decodes cfg frame msg json (s.decode cfg msg).1 := by
  cases msg with
  | binary data =>
    simp only [Conn.decode] at decoded ⊢
    split at decoded
    · cases decoded
    · rename_i unlocked
      obtain ⟨frame, passed, ⟨⟩⟩ := Option.map_eq_some_iff.mp decoded
      have codec : s.codec.getD false = false := by simpa using unlocked
      rw [if_neg unlocked, codec]
      exact .binary codec passed
  | text text =>
    simp only [Conn.decode] at decoded ⊢
    split at decoded
    · cases decoded
    · rename_i unlocked
      obtain ⟨frame, passed, ⟨⟩⟩ := Option.map_eq_some_iff.mp decoded
      have codec : s.codec.getD true = true := by simpa using unlocked
      rw [if_neg unlocked, codec]
      exact .text codec passed
  | close => cases decoded
  | control => cases decoded

theorem Conn.decode_subscribe {cfg : Config} {s : Conn} {msg : Inbound Value} {sub : Subscribe}
    {json : Bool} (decoded : (s.decode cfg msg).2 = some (⟨some (.subscribe sub)⟩, json)) :
    sub.method = cfg.methodUrl ∧ (s.decode cfg msg).1.opened = true ∧
      (s.opened = false ∨ ∃ data, msg = .binary data) := by
  have passes := s.decode_some decoded
  generalize (s.decode cfg msg).1 = t at passes ⊢
  cases passes with
  | @binary data _ passed =>
    obtain ⟨method, opened⟩ := decodeBinary_subscribe passed
    exact ⟨method, opened, .inr ⟨data, rfl⟩⟩
  | text _ passed =>
    obtain ⟨method, before, opened⟩ := decodeText_subscribe passed
    exact ⟨method, opened, .inl before⟩

structure Conn.Opens (cfg : Config) (s t : Conn) : Prop where
  pcs : t.pcs = s.pcs ++ [.start]
  paths : t.paths = s.paths ++ [cfg.methodUrl]
  calls : t.calls = s.calls
  outbound : t.outbound = s.outbound
  writer : t.writer = s.writer
  opened : t.opened = true

theorem Conn.Still.opens {cfg : Config} {s t u : Conn} (still : s.Still [] t) (opens : t.Opens cfg u) :
    s.Opens cfg u where
  pcs := still.pcs ▸ opens.pcs
  paths := still.paths ▸ opens.paths
  calls := opens.calls.trans still.calls
  outbound := by rw [opens.outbound, still.outbound, List.append_nil]
  writer := opens.writer.trans still.writer
  opened := opens.opened

theorem Conn.openStream_opens {cfg : Config} {s : Conn} {sub : Subscribe} (json : Bool)
    (opened : s.opened = true)
    (method : sub.method = cfg.methodUrl) : s.Opens cfg (s.openStream cfg sub json) where
  pcs := by simp [Conn.openStream, Conn.pcs]
  paths := by simp [Conn.openStream, Conn.paths, method]
  calls := rfl
  outbound := rfl
  writer := rfl
  opened := opened

def Reader.resets : Reader → Bool
  | .resetting _ _ _ => true
  | _ => false

/-- What the read loop does when what it waits for is there. -/
inductive Conn.Resumes (s : Conn) : Conn → Prop where
  | discarded {payload : Bytes} : s.reader = .feeding payload →
      (∀ st task, s.stream = some st → s.tasks[st.task]? = some task → task.receiver = false) →
      Resumes s { s with reader := .ready }
  | fed {payload : Bytes} {st : StreamState} {task : Task} : s.reader = .feeding payload → s.stream = some st →
      s.tasks[st.task]? = some task → task.receiver = true → task.requests.length < requestCapacity →
      Resumes s { s with
        reader := .ready
        tasks := s.tasks.set st.task { task with requests := task.requests ++ [payload] } }
  | reset {reset : Frame} {json drop : Bool} {s' : Conn} : s.reader = .resetting reset json drop →
      s.put (toTung reset json) = some s' →
      Resumes s { s' with reader := if drop then .dropping else .ready }
  | dropped : s.reader = .dropping → Resumes s { s.dropStream with reader := .ready }

theorem Conn.resume_some {s t : Conn} (taken : s.resume = some t) : s.Resumes t := by
  unfold Conn.resume at taken
  split at taken
  case h_1 payload waits =>
    split at taken
    · rename_i i task found
      obtain ⟨st, held, found⟩ := Option.bind_eq_some_iff.mp found
      obtain ⟨_, found, ⟨⟩⟩ := Option.map_eq_some_iff.mp found
      split at taken
      · rename_i released
        cases taken
        refine .discarded waits ?_
        intro st' task' held' found'
        obtain rfl := Option.some.inj (held.symm.trans held')
        obtain rfl := Option.some.inj (found.symm.trans found')
        simpa using released
      · rename_i receives
        obtain ⟨room, ⟨⟩⟩ := Option.ite_none_right_eq_some.mp taken
        exact .fed waits held found (by simpa using receives) room
    · rename_i none_
      cases taken
      refine .discarded waits ?_
      intro st task held found
      simp [held, found] at none_
  case h_2 reset json drop waits =>
    obtain ⟨s', put, rfl⟩ := Option.map_eq_some_iff.mp taken
    exact .reset waits put
  case h_3 waits =>
    cases taken
    exact .dropped waits
  case h_4 => cases taken

theorem Conn.resume_still {s t : Conn} (taken : s.resume = some t) :
    ∃ sent, s.Still sent t ∧ t.reader.resets = false ∧
      (s.reader.resets = false ∨ s.writer = false → sent = []) := by
  cases Conn.resume_some taken with
  | discarded => exact ⟨[], .moved s .ready, rfl, fun _ => rfl⟩
  | fed _ _ found =>
    refine ⟨[], ⟨?_, ?_, rfl, (List.append_nil _).symm, rfl, id⟩, rfl, fun _ => rfl⟩
    · exact map_set_same found rfl
    · exact map_set_same found rfl
  | @reset reset json drop s' waits put =>
    obtain rfl := Conn.put_eq put
    refine ⟨s.sent (toTung reset json), ⟨rfl, rfl, rfl, rfl, rfl, id⟩, ?_, ?_⟩
    · cases drop <;> rfl
    · intro idle
      obtain elsewhere | gone := idle
      · simp [waits, Reader.resets] at elsewhere
      · simp [Conn.sent, gone]
  | dropped => exact ⟨[], s.dropStream_still.trans (.moved _ .ready), rfl, fun _ => rfl⟩

variable [UriParser]

def Conn.rejection (cfg : Config) (s : Conn) (frame : Frame) : Option Frame :=
  match frame.kind with
  | some (.subscribe sub) =>
    if s.stream.isSome then some (resetFrame .invalidArgument "stream already open")
    else if sub.initialPayload.length > cfg.maxMessageBytes then some sizeReset
    else if !UriParser.pathAndQuery sub.method then some (resetFrame .invalidArgument "invalid method")
    else none
  | some (.message msg) => if msg.payload.length > cfg.maxMessageBytes then some sizeReset else none
  | _ => none

/-- `handle_frame`, up to its first `await`. Only an oversized message drops the stream. -/
def Conn.handleFrame (cfg : Config) (s : Conn) (frame : Frame) (json : Bool) : Conn :=
  match s.rejection cfg frame with
  | some reset => { s with reader := .resetting reset json (frame.kind matches some (.message _)) }
  | none =>
    match frame.kind with
    | some (.subscribe sub) => s.openStream cfg sub json
    | some (.message msg) =>
      match s.stream with
      | some ⟨_, true⟩ => { s with reader := .feeding msg.payload }
      | _ => s
    | some .halfClose => { s with stream := s.stream.map fun st => { st with reqTx := false } }
    | some (.reset _) => s.dropStream
    | _ => s

def Conn.read (cfg : Config) (s : Conn) (msg : Inbound Value) : Option Conn :=
  match s.reader, msg with
  | .ready, .close => some s.leave
  | .ready, msg =>
    let decoded := s.decode cfg msg
    some (match decoded.2 with
      | some (frame, json) => decoded.1.handleFrame cfg frame json
      | none => decoded.1)
  | _, _ => none

/-- What the read loop makes of a message that it takes. -/
inductive Conn.Reads (cfg : Config) (s : Conn) : Inbound Value → Conn → Prop where
  | left : Reads cfg s .close s.leave
  | skipped {msg : Inbound Value} : msg ≠ .close → (s.decode cfg msg).2 = none →
      Reads cfg s msg (s.decode cfg msg).1
  | handled {msg : Inbound Value} {frame : Frame} {json : Bool} : (s.decode cfg msg).2 = some (frame, json) →
      Reads cfg s msg ((s.decode cfg msg).1.handleFrame cfg frame json)

theorem Conn.read_some {cfg : Config} {s t : Conn} {msg : Inbound Value} (taken : s.read cfg msg = some t) :
    s.reader = .ready ∧ s.Reads cfg msg t := by
  unfold Conn.read at taken
  split at taken
  case h_1 ready =>
    cases taken
    exact ⟨ready, .left⟩
  case h_2 ready other =>
    cases taken
    refine ⟨ready, ?_⟩
    split
    · rename_i frame json decoded
      exact .handled decoded
    · rename_i decoded
      exact .skipped other decoded
  case h_3 => cases taken

theorem Conn.rejection_decode (cfg : Config) (s : Conn) (msg : Inbound Value) (frame : Frame) :
    (s.decode cfg msg).1.rejection cfg frame = s.rejection cfg frame := by
  obtain ⟨codec, opened, decoded, _⟩ := s.decode_eq cfg msg
  rw [decoded]
  rfl

def Conn.Accepts (cfg : Config) (s : Conn) (msg : Inbound Value) : Prop :=
  ∃ sub json, (s.decode cfg msg).2 = some (⟨some (.subscribe sub)⟩, json) ∧
    s.rejection cfg ⟨some (.subscribe sub)⟩ = none

def Conn.Rejects (cfg : Config) (s : Conn) (msg : Inbound Value) : Prop :=
  ∃ frame json, (s.decode cfg msg).2 = some (frame, json) ∧ (s.rejection cfg frame).isSome

theorem Conn.handleFrame_cases (cfg : Config) (s : Conn) (frame : Frame) (json : Bool) :
    (s.rejection cfg frame).isSome ∧ s.Still [] (s.handleFrame cfg frame json) ∨
      s.rejection cfg frame = none ∧
        ((∃ sub, frame = ⟨some (.subscribe sub)⟩ ∧ s.handleFrame cfg frame json = s.openStream cfg sub json) ∨
          s.Still [] (s.handleFrame cfg frame json) ∧
            ((s.handleFrame cfg frame json).reader.resets = true → s.reader.resets = true)) := by
  unfold Conn.handleFrame
  split
  · rename_i reset rejected
    exact .inl ⟨by simp [rejected], .moved _ _⟩
  · rename_i accepted
    refine .inr ⟨accepted, ?_⟩
    split
    · rename_i sub kind
      exact .inl ⟨sub, by rw [← kind], rfl⟩
    · right
      split
      · exact ⟨.moved _ _, nofun⟩
      · exact ⟨.refl s, id⟩
    · exact .inr ⟨⟨rfl, rfl, rfl, (List.append_nil _).symm, rfl, id⟩, id⟩
    · exact .inr ⟨s.dropStream_still, by rw [s.dropStream_reader]; exact id⟩
    · exact .inr ⟨.refl s, id⟩

theorem Conn.read_cases {cfg : Config} {s t : Conn} {msg : Inbound Value}
    (taken : s.read cfg msg = some t) :
    s.Still [] t ∧ t.reader.resets = false ∨ s.Rejects cfg msg ∧ s.Still [] t ∨
      s.Accepts cfg msg ∧ s.Opens cfg t ∧ t.reader.resets = false := by
  obtain ⟨ready, reads⟩ := Conn.read_some taken
  obtain ⟨codec, opened, eq, kept⟩ := s.decode_eq cfg msg
  have before : s.Still [] (s.decode cfg msg).1 := by
    rw [eq]
    exact ⟨rfl, rfl, rfl, (List.append_nil _).symm, rfl, kept⟩
  have here : (s.decode cfg msg).1.reader.resets = false := by rw [eq, ready]; rfl
  cases reads with
  | left => exact .inl ⟨s.dropStream_still.trans (.moved _ .ended), rfl⟩
  | skipped => exact .inl ⟨before, here⟩
  | @handled _ frame json decoded =>
    have handled := (s.decode cfg msg).1.handleFrame_cases cfg frame json
    rw [s.rejection_decode cfg] at handled
    obtain ⟨rejected, still⟩ | ⟨accepted, ⟨sub, rfl, opens⟩ | ⟨still, resets⟩⟩ := handled
    · exact .inr (.inl ⟨⟨frame, json, decoded, rejected⟩, before.trans still⟩)
    · obtain ⟨method, opened, _⟩ := Conn.decode_subscribe decoded
      refine .inr (.inr ⟨⟨sub, json, decoded, accepted⟩, ?_⟩)
      rw [opens]
      exact ⟨before.opens (Conn.openStream_opens json opened method), here⟩
    · refine .inl ⟨before.trans still, ?_⟩
      by_contra set
      exact Bool.false_ne_true (here.symm.trans (resets (Bool.of_not_eq_false set)))

/-! ### Steps -/

inductive Label where
  | read (msg : Inbound Value)
  | resume
  /-- the socket ends, fails or stays silent for too long -/
  | leave
  | task (i : Nat) (event : TaskEvent)
  | write
  | writerDied

def Conn.step (cfg : Config) (s : Conn) : Label → Option Conn
  | .read msg => s.read cfg msg
  | .resume => s.resume
  | .leave => if s.reader matches .ready then some s.leave else none
  | .task i event => s.stepTask cfg i event
  | .write => if s.writer && s.written < s.outbound.length then some { s with written := s.written + 1 } else none
  | .writerDied => some { s with writer := false }

def Step (cfg : Config) (s : Conn) (l : Label) (t : Conn) : Prop := s.step cfg l = some t

abbrev Run (cfg : Config) (ls : List Label) (t : Conn) : Prop :=
  Transition.Run (Step cfg) (.initial cfg) ls t

def subscribeFrame : Frame := ⟨some (.subscribe ⟨"", [], 0, [], false⟩)⟩

end Ws
end GrpcWebnext
