import GrpcWebnext.BinaryMetadata
import GrpcWebnext.Client.SingleStream
import GrpcWebnext.EndToEnd.Connection

/-!
# A binary stream from end to end

`SingleStreamConn` and the connection that serves it, with the socket between them: each side's messages
reach the other in order, and every party moves when it likes.
-/

namespace GrpcWebnext
namespace EndToEnd
open Transition SerdeJson GrpcFraming
open Client (Event JsString JsNumber onBinaryFrame)
open Client.SingleStream (CloseEvent Codec protoCodec)
open Ws.RequestStream (framesOf messages stops)
open Ws.ResponseStream (Origin Partial origin reply answerOf bodyOf killed told quiet authored sentBy)

theorem take_grown {α : Type} {l l' : List α} (grows : l <+: l') {n : Nat} (within : n ≤ l.length) :
    l'.take n = l.take n := by
  obtain ⟨more, rfl⟩ := grows
  exact List.take_append_of_le_length within

theorem messages_grow {maxMessageBytes : Nat} {first second : List Frame} (within : first <+: second) :
    messages maxMessageBytes first <+: messages maxMessageBytes second := by
  obtain ⟨more, rfl⟩ := within
  cases stopped : first.any (stops maxMessageBytes) with
  | true => rw [Ws.RequestStream.messages_stopped stopped]
  | false =>
    rw [Ws.RequestStream.messages_running stopped]
    exact List.prefix_append _ _

section

variable [JsNumber]

abbrev Stream := Client.SingleStream.Conn Frame Bytes
abbrev Move := Client.SingleStream.Label Bytes Bytes

/-! ### The client -/

/-- The frames of a client's move while its stream runs. -/
def made (codec : Codec Bytes Frame) (move : Move) : Option Frame :=
  (move.frame? codec).or (move.reset? codec)

theorem made_eq (codec : Codec Bytes Frame) (move : Move) :
    (if move.terminal then move.reset? codec else move.frame? codec) = made codec move := by
  cases move with
  | message event =>
    simp only [made, Client.SingleStream.Label.frame?, Client.SingleStream.Label.reset?, ite_self]
    rfl
  | send m => exact (Option.or_none).symm
  | _ => rfl

/-- The frames of the moves `asked` for, behind the opening one: all of them while the stream runs. -/
structure Asked (codec : Codec Bytes Frame) (asked : List Frame) (c : Stream) : Prop where
  frames : ∃ rest, c.sent ++ c.pending = codec.openFrame :: rest ∧ rest <+: asked ∧ (c.finished = false → rest = asked)
  flushed : c.isOpen = true → c.pending = []

theorem step_isOpen {codec : Codec Bytes Frame} {c c' : Stream} {move : Move}
    (other : move.opens = false) (taken : Client.SingleStream.Step codec c move c') (open_ : c'.isOpen = true) :
    c.isOpen = true := by
  have sendRaw (frame : Frame) : (c.sendRaw frame).isOpen = c.isOpen := by
    unfold Client.SingleStream.Conn.sendRaw
    split
    · rfl
    · split <;> rfl
  have finish (c : Stream) (status : Event Bytes) : (c.finish status).isOpen = c.isOpen := by
    unfold Client.SingleStream.Conn.finish
    split <;> rfl
  have terminate (status : Client.StatusResult) : (c.terminate codec status).isOpen = c.isOpen := by
    unfold Client.SingleStream.Conn.terminate
    split
    · rfl
    · exact (finish _ _).trans (sendRaw _)
  rw [← open_]
  cases move with
  | opened => cases other
  | message event =>
    obtain ⟨_, ⟨⟩⟩ := Option.ite_none_left_eq_some.mp taken
    cases event with
    | none => rfl
    | some event =>
      simp only [Option.elim_some, Client.SingleStream.Conn.onMessage]
      split
      · rfl
      · cases event with
        | status code details md => exact (finish _ _).symm
        | _ => rfl
  | close event | error =>
    obtain ⟨_, ⟨⟩⟩ := Option.ite_none_left_eq_some.mp taken
    exact absurd open_ (by simp [Client.SingleStream.Conn.onClose, finish])
  | send m =>
    cases taken
    cases codec.encodeMessage m with
    | none => rfl
    | some frame => exact (sendRaw frame).symm
  | halfClose =>
    cases taken
    exact (sendRaw _).symm
  | cancel | abort =>
    cases taken
    exact (terminate _).symm
  | returns | throws =>
    obtain ⟨_, ⟨⟩⟩ := Option.ite_none_right_eq_some.mp taken
    rfl
  | closeTransport =>
    cases taken
    rfl


theorem Asked.step {codec : Codec Bytes Frame} {asked : List Frame} {c c' : Stream} {move : Move}
    (before : Asked codec asked c) (taken : Client.SingleStream.Step codec c move c') :
    Asked codec (asked ++ (made codec move).toList) c' := by
  obtain ⟨⟨rest, frames, within, whole⟩, flushed⟩ := before
  by_cases opens : move.opens = true
  · cases move with
    | opened =>
      obtain ⟨_, ⟨⟩⟩ := Option.ite_none_left_eq_some.mp taken
      refine ⟨⟨rest, ?_, ?_, ?_⟩, fun _ => rfl⟩
      · rw [List.append_nil]
        exact frames
      · exact within.trans (List.prefix_append _ _)
      · intro running
        exact (whole running).trans (List.append_nil asked).symm
    | _ => cases opens
  have other : move.opens = false := Bool.of_not_eq_true opens
  cases ended : c.finished with
  | true =>
    obtain ⟨finished, sent, pending, _⟩ := Client.SingleStream.step_finished ended other taken
    refine ⟨⟨rest, by rw [sent, pending, frames], within.trans (List.prefix_append _ _), ?_⟩, ?_⟩
    · intro running
      cases running.symm.trans finished
    · intro open_
      rw [pending]
      exact flushed (step_isOpen other taken open_)
  | false =>
    obtain ⟨_, ⟨sent, pending⟩, _, _⟩ := Client.SingleStream.step_running ended other taken
    rw [made_eq] at sent pending
    refine ⟨⟨rest ++ (made codec move).toList, ?_, ?_, ?_⟩, ?_⟩
    · rw [sent, pending, ← List.cons_append, ← frames]
      cases open_ : c.isOpen with
      | true => simp [flushed open_]
      | false => simp
    · rw [whole ended]
    · intro _
      rw [whole ended]
    · intro open_
      have before := step_isOpen other taken open_
      rw [pending, if_pos before, flushed before]

/-- A stream that runs calls the handler of its move, and ends with a status. -/
theorem step_called {codec : Codec Bytes Frame} {c c' : Stream} {move : Move}
    (taken : Client.SingleStream.Step codec c move c') :
    if c.finished then c'.finished = true ∧ c'.called = c.called
    else c'.finished = move.terminal ∧ c'.called = c.called ++ move.event?.toList := by
  by_cases opens : move.opens = true
  · cases move with
    | opened =>
      obtain ⟨_, ⟨⟩⟩ := Option.ite_none_left_eq_some.mp taken
      cases c.finished with
      | true => exact ⟨rfl, rfl⟩
      | false => exact ⟨rfl, (List.append_nil _).symm⟩
    | _ => cases opens
  have other : move.opens = false := Bool.of_not_eq_true opens
  cases ended : c.finished with
  | true =>
    obtain ⟨finished, _, _, called⟩ := Client.SingleStream.step_finished ended other taken
    exact ⟨finished, called⟩
  | false =>
    obtain ⟨finished, _, _, called⟩ := Client.SingleStream.step_running ended other taken
    exact ⟨finished, called⟩

theorem step_sent {codec : Codec Bytes Frame} {c c' : Stream} {move : Move}
    (taken : Client.SingleStream.Step codec c move c') : c.sent <+: c'.sent := by
  by_cases opens : move.opens = true
  · cases move with
    | opened =>
      obtain ⟨_, ⟨⟩⟩ := Option.ite_none_left_eq_some.mp taken
      exact List.prefix_append _ _
    | _ => cases opens
  have other : move.opens = false := Bool.of_not_eq_true opens
  cases ended : c.finished with
  | true =>
    obtain ⟨_, sent, _⟩ := Client.SingleStream.step_finished ended other taken
    exact sent ▸ List.prefix_rfl
  | false =>
    obtain ⟨_, ⟨sent, _⟩, _⟩ := Client.SingleStream.step_running ended other taken
    rw [sent]
    split
    · exact List.prefix_append _ _
    · exact List.prefix_rfl

theorem step_ended {codec : Codec Bytes Frame} {c c' : Stream} {move : Move} (ended : c.finished = true)
    (taken : Client.SingleStream.Step codec c move c') :
    c'.finished = true ∧ c'.sent ++ c'.pending = c.sent ++ c.pending := by
  by_cases opens : move.opens = true
  · cases move with
    | opened =>
      obtain ⟨_, ⟨⟩⟩ := Option.ite_none_left_eq_some.mp taken
      exact ⟨ended, List.append_nil _⟩
    | _ => cases opens
  obtain ⟨finished, sent, pending, _⟩ :=
    Client.SingleStream.step_finished ended (Bool.of_not_eq_true opens) taken
  exact ⟨finished, by rw [sent, pending]⟩

/-- A cancelled stream has its reset among the frames. -/
theorem step_reset {codec : Codec Bytes Frame} {c c' : Stream} {move : Move} {reset : Frame}
    (running : c.finished = false) (resets : move.reset? codec = some reset)
    (taken : Client.SingleStream.Step codec c move c') : c'.finished = true ∧ reset ∈ c'.sent ++ c'.pending := by
  obtain ⟨other, terminal⟩ : move.opens = false ∧ move.terminal = true := by
    cases move with
    | cancel => exact ⟨rfl, rfl⟩
    | abort => exact ⟨rfl, rfl⟩
    | _ => cases resets
  obtain ⟨finished, ⟨sent, pending⟩, _, _⟩ := Client.SingleStream.step_running running other taken
  rw [if_pos terminal, resets] at sent pending
  refine ⟨finished.trans terminal, ?_⟩
  rw [sent, pending]
  cases c.isOpen <;> simp

variable [ProstReflect]

def Route.client (r : Route) : Codec Bytes Frame := protoCodec r.headers r.timeoutMillis

variable [SerdeJson]

omit [JsNumber] [ProstReflect] in
theorem sentBy_owned {i : Nat} {wrote : List (Option Nat × Ws.TungMessage Value)}
    (owned : ∀ e ∈ wrote, e.1 = some i) : sentBy i wrote = wrote.map Prod.snd := by
  rw [sentBy, ← List.filterMap_eq_map]
  exact List.filterMap_congr fun e member => if_pos (owned e member)

/-! ### State -/

/-- The read loop took `taken` of the client's frames, the socket handed `handed` of the server's messages to
the client. -/
structure System where
  client : Stream
  server : Ws.Conn
  taken : Nat := 0
  handed : Nat := 0

def Route.start (r : Route) : System := { client := .start r.client, server := .initial r.config }

/-! ### Steps -/

inductive Label where
  /-- the application, the abort signal of the call or the owner of the transport -/
  | app (move : Move)
  | opened
  | toServer
  | toClient
  /-- the socket of the client fails or is closed -/
  | lost (event : Option CloseEvent)
  /-- what the server does besides reading a frame; its socket may fail or close -/
  | server (label : Ws.Label)

/-- What no socket has a part in. -/
def isLocal : Move → Bool
  | .send _ => true
  | .halfClose => true
  | .cancel => true
  | .abort _ => true
  | .returns => true
  | .throws => true
  | .closeTransport => true
  | _ => false

def carries : Ws.Label → Bool
  | .read (.binary _) => true
  | .read (.text _) => true
  | _ => false

/-! ### What is asked of a stream -/

def asked (r : Route) (ls : List Label) : List Frame :=
  ls.filterMap fun
    | .app move => made r.client move
    | _ => none

/-- What the backend and the clock told the task. -/
def events (ls : List Label) : List Ws.TaskEvent :=
  told 0 (ls.filterMap fun
    | .server label => some label
    | _ => none)

theorem asked_snoc (r : Route) (ls : List Label) (l : Label) : asked r (ls ++ [l]) = asked r ls ++ asked r [l] :=
  List.filterMap_append

theorem asked_opens_nothing (r : Route) (ls : List Label) :
    ∀ frame ∈ asked r ls, ∀ sub, frame ≠ ⟨some (.subscribe sub)⟩ := by
  intro frame member sub
  obtain ⟨l, _, asks⟩ := List.mem_filterMap.mp member
  cases l with
  | app move =>
    cases move <;> cases asks <;> simp [Route.client, protoCodec]
  | _ => cases asks

theorem events_snoc (ls : List Label) (l : Label) : events (ls ++ [l]) = events ls ++ events [l] := by
  unfold events told
  rw [List.filterMap_append, List.filterMap_append]

def lose : Option CloseEvent → Move
  | some event => .close event
  | none => .error

/-- The application cancelled the stream, its signal aborted it or its socket was lost. -/
def Gone (ls : List Label) (status : Event Bytes) : Prop :=
  ∃ move : Move, move.terminal = true ∧ move.event? = some status ∧
    (.app move ∈ ls ∨ ∃ event, .lost event ∈ ls ∧ move = lose event)

theorem Gone.later {ls : List Label} {status : Event Bytes} (gone : Gone ls status) (l : Label) :
    Gone (ls ++ [l]) status := by
  obtain ⟨move, terminal, event, origin⟩ := gone
  refine ⟨move, terminal, event, ?_⟩
  rcases origin with app | ⟨lost, member, same⟩
  · exact .inl (List.mem_append_left _ app)
  · exact .inr ⟨lost, List.mem_append_left _ member, same⟩

variable [JsString]

/-- A text message is none of a binary connection's. -/
def receive : Ws.TungMessage Value → Move
  | .binary frame => .message (onBinaryFrame frame)
  | .text _ => .message none
  | .close code reason => .close ⟨code, reason⟩

omit [ProstReflect] in
theorem made_receive (codec : Codec Bytes Frame) (msg : Ws.TungMessage Value) : made codec (receive msg) = none := by
  cases msg <;> rfl

omit [ProstReflect] in
theorem receive_terminal (msg : Ws.TungMessage Value) : (receive msg).terminal = !quiet msg := by
  cases msg with
  | binary frame =>
    obtain ⟨_ | kind⟩ := frame
    · rfl
    · cases kind <;> rfl
  | _ => rfl

/-! ### What the handlers were called for -/

def heard (msgs : List (Ws.TungMessage Value)) : List (Event Bytes) := msgs.filterMap fun msg => (receive msg).event?

omit [ProstReflect] in
theorem heard_binary (frames : List Frame) :
    heard (frames.map .binary) = frames.filterMap onBinaryFrame := by
  rw [heard, List.filterMap_map]
  rfl

/-- The handlers were called for the messages that were handed over, up to a status. -/
def Heard (ls : List Label) (s : System) : Prop :=
  s.client.finished = false ∧ s.client.called = heard (s.server.outbound.take s.handed) ∧
      (∀ msg ∈ s.server.outbound.take s.handed, (receive msg).terminal = false) ∨
    s.client.finished = true ∧ ∃ n status, n ≤ s.handed ∧
      s.client.called = heard (s.server.outbound.take n) ++ [status] ∧
      (∀ msg ∈ s.server.outbound.take n, (receive msg).terminal = false) ∧
      (Gone ls status ∨ ∃ msg, n < s.handed ∧ s.server.outbound[n]? = some msg ∧ (receive msg).terminal = true ∧
        (receive msg).event? = some status)

/-- The client moves on its own account. -/
theorem Heard.moves {r : Route} {ls : List Label} {s : System} {l : Label} {move : Move} {client : Stream}
    (heard : Heard ls s) (taken : Client.SingleStream.Step r.client s.client move client)
    (own : move.event?.isSome = true → move.terminal = true ∧
      (l = .app move ∨ ∃ event, l = .lost event ∧ move = lose event)) :
    Heard (ls ++ [l]) { s with client } := by
  have called := step_called taken
  rcases heard with ⟨running, said, goes⟩ | ⟨ended, n, status, within, said, goes, origin⟩
  · rw [running, if_neg Bool.false_ne_true] at called
    obtain ⟨finished, more⟩ := called
    cases event : move.event? with
    | none =>
      have quiet : move.terminal = false := by simp [Client.SingleStream.Label.terminal, event]
      refine .inl ⟨finished.trans quiet, ?_, goes⟩
      rw [more, event, said]
      exact List.append_nil _
    | some status =>
      obtain ⟨terminal, origin⟩ := own (by rw [event]; rfl)
      refine .inr ⟨finished.trans terminal, s.handed, status, Nat.le_refl _, ?_, goes, .inl ⟨move, terminal, event, ?_⟩⟩
      · rw [more, event, said]
        rfl
      · rcases origin with rfl | ⟨lost, rfl, same⟩
        · exact .inl (by simp)
        · exact .inr ⟨lost, by simp, same⟩
  · rw [ended, if_pos rfl] at called
    obtain ⟨finished, same⟩ := called
    exact .inr ⟨finished, n, status, within, same.trans said, goes, origin.imp_left fun gone => gone.later l⟩

/-- The server moves: what was handed over stays. -/
theorem Heard.serves {ls : List Label} {s : System} {l : Label} {server : Ws.Conn} (taken : Nat) (heard : Heard ls s)
    (within : s.handed ≤ s.server.outbound.length) (grows : s.server.outbound <+: server.outbound) :
    Heard (ls ++ [l]) { s with server, taken } := by
  rcases heard with ⟨running, said, goes⟩ | ⟨ended, n, status, before, said, goes, origin⟩
  · refine .inl ⟨running, ?_, ?_⟩
    · rw [take_grown grows within]
      exact said
    · rw [take_grown grows within]
      exact goes
  · have short : n ≤ s.server.outbound.length := Nat.le_trans before within
    refine .inr ⟨ended, n, status, before, ?_, ?_, ?_⟩
    · rw [take_grown grows short]
      exact said
    · rw [take_grown grows short]
      exact goes
    · rcases origin with gone | ⟨msg, earlier, found, terminal, event⟩
      · exact .inl (gone.later l)
      · refine .inr ⟨msg, earlier, ?_, terminal, event⟩
        obtain ⟨more, same⟩ := grows
        rw [← same, List.getElem?_append_left (List.getElem?_eq_some_iff.mp found).1]
        exact found

/-- The socket hands a message to the client. -/
theorem Heard.receives {r : Route} {ls : List Label} {s : System} {msg : Ws.TungMessage Value} {client : Stream}
    (heard : Heard ls s) (found : s.server.outbound[s.handed]? = some msg)
    (taken : Client.SingleStream.Step r.client s.client (receive msg) client) :
    Heard (ls ++ [.toClient]) { s with client, handed := s.handed + 1 } := by
  have called := step_called taken
  have grown : s.server.outbound.take (s.handed + 1) = s.server.outbound.take s.handed ++ [msg] := by
    rw [List.take_add_one, found]
    rfl
  rcases heard with ⟨running, said, goes⟩ | ⟨ended, n, status, before, said, goes, origin⟩
  · rw [running, if_neg Bool.false_ne_true] at called
    obtain ⟨finished, more⟩ := called
    cases terminal : (receive msg).terminal with
    | false =>
      refine .inl ⟨finished.trans terminal, ?_, ?_⟩
      · rw [more, said]
        dsimp only
        rw [grown, EndToEnd.heard, EndToEnd.heard, List.filterMap_append]
        cases event : (receive msg).event? <;> simp [event]
      · dsimp only
        rw [grown]
        exact List.forall_mem_append.mpr ⟨goes, List.forall_mem_singleton.mpr terminal⟩
    | true =>
      obtain ⟨status, event, _⟩ := (Option.any_eq_true _ _).mp terminal
      refine .inr ⟨finished.trans terminal, s.handed, status, Nat.le_succ _, ?_, goes,
        .inr ⟨msg, Nat.lt_succ_self _, found, terminal, event⟩⟩
      rw [more, said, event]
      rfl
  · rw [ended, if_pos rfl] at called
    obtain ⟨finished, same⟩ := called
    refine .inr ⟨finished, n, status, Nat.le_succ_of_le before, same.trans said, goes, ?_⟩
    exact origin.imp (fun gone => gone.later _) fun ⟨msg, earlier, rest⟩ => ⟨msg, Nat.lt_succ_of_lt earlier, rest⟩

variable [UriParser]

def System.step (r : Route) (s : System) : Label → Option System
  | .app move =>
    if isLocal move then (s.client.step r.client move).map fun client => { s with client } else none
  | .opened => (s.client.step r.client .opened).map fun client => { s with client }
  | .toServer =>
    match s.client.sent[s.taken]? with
    | some frame =>
      (s.server.read r.config (.binary (some frame))).map fun server => { s with server, taken := s.taken + 1 }
    | none => none
  | .toClient =>
    if s.handed < s.server.written then
      match s.server.outbound[s.handed]? with
      | some msg => (s.client.step r.client (receive msg)).map fun client => { s with client, handed := s.handed + 1 }
      | none => none
    else none
  | .lost event => (s.client.step r.client (lose event)).map fun client => { s with client }
  | .server label =>
    if carries label then none else (s.server.step r.config label).map fun server => { s with server }

def Step (r : Route) (s : System) (l : Label) (t : System) : Prop := s.step r l = some t

abbrev Run (r : Route) (ls : List Label) (t : System) : Prop := Transition.Run (Step r) r.start ls t

/-! ### Every state of a run -/

structure Tracks (r : Route) (ls : List Label) (s : System) : Prop where
  client : Asked r.client (asked r ls) s.client
  server : ∃ labels, Ws.Run r.config labels s.server ∧ (∀ text, .read (.text text) ∉ labels) ∧
    framesOf labels = s.client.sent.take s.taken ∧ told 0 labels = events ls
  taken : s.taken ≤ s.client.sent.length
  handed : s.handed ≤ s.server.outbound.length
  heard : Heard ls s

theorem Tracks.moves {r : Route} {ls : List Label} {s : System} {l : Label} {move : Move} {client : Stream}
    {handed : Nat} (tracks : Tracks r ls s) (taken : Client.SingleStream.Step r.client s.client move client)
    (requests : asked r [l] = (made r.client move).toList) (silent : events [l] = [])
    (within : handed ≤ s.server.outbound.length) (heard : Heard (ls ++ [l]) { s with client, handed }) :
    Tracks r (ls ++ [l]) { s with client, handed } := by
  obtain ⟨labels, run, binary, frames, told⟩ := tracks.server
  have grows := step_sent taken
  refine ⟨?_, ⟨labels, run, binary, ?_, ?_⟩, Nat.le_trans tracks.taken grows.length_le, within, heard⟩
  · rw [asked_snoc, requests]
    exact tracks.client.step taken
  · rw [take_grown grows tracks.taken]
    exact frames
  · rw [events_snoc, silent, List.append_nil]
    exact told

theorem Tracks.serves {r : Route} {ls : List Label} {s : System} {l : Label} {label : Ws.Label} {server : Ws.Conn}
    {taken : Nat} (tracks : Tracks r ls s) (stepped : Ws.Step r.config s.server label server)
    (binary : ∀ text, label ≠ .read (.text text)) (silent : asked r [l] = [])
    (frames : s.client.sent.take s.taken ++ framesOf [label] = s.client.sent.take taken)
    (told_ : told 0 [label] = events [l]) (within : taken ≤ s.client.sent.length) :
    Tracks r (ls ++ [l]) { s with server, taken } := by
  obtain ⟨labels, run, texts, read, told_before⟩ := tracks.server
  have grows : s.server.outbound <+: server.outbound := by
    rw [Ws.ResponseStream.step_emits stepped]
    exact List.prefix_append _ _
  refine ⟨?_, ⟨labels ++ [label], run.append (.single stepped), ?_, ?_, ?_⟩, within,
    Nat.le_trans tracks.handed grows.length_le, tracks.heard.serves taken tracks.handed grows⟩
  · rw [asked_snoc, silent, List.append_nil]
    exact tracks.client
  · intro text member
    rcases List.mem_append.mp member with earlier | here
    · exact texts text earlier
    · exact binary text (List.mem_singleton.mp here).symm
  · rw [Ws.RequestStream.framesOf_append, read, frames]
  · rw [events_snoc, ← told_before, ← told_]
    exact List.filterMap_append

theorem Tracks.step {r : Route} {ls : List Label} {s t : System} {l : Label} (tracks : Tracks r ls s)
    (taken : Step r s l t) : Tracks r (ls ++ [l]) t := by
  unfold Step System.step at taken
  cases l with
  | app move =>
    obtain ⟨own, taken⟩ := Option.ite_none_right_eq_some.mp taken
    obtain ⟨client, moved, rfl⟩ := Option.map_eq_some_iff.mp taken
    refine tracks.moves moved ?_ rfl tracks.handed (tracks.heard.moves moved ?_)
    · cases frame : made r.client move <;> simp [asked, frame]
    · intro ends
      refine ⟨?_, .inl rfl⟩
      cases move with
      | cancel => rfl
      | abort => rfl
      | message => cases own
      | close => cases own
      | error => cases own
      | _ => cases ends
  | opened =>
    obtain ⟨client, moved, rfl⟩ := Option.map_eq_some_iff.mp taken
    exact tracks.moves moved rfl rfl tracks.handed (tracks.heard.moves moved fun ends => by cases ends)
  | toServer =>
    dsimp only at taken
    split at taken
    · rename_i frame found
      obtain ⟨server, read, rfl⟩ := Option.map_eq_some_iff.mp taken
      have within := (List.getElem?_eq_some_iff.mp found).1
      have stepped : Ws.Step r.config s.server (.read (.binary (some frame))) server := read
      refine tracks.serves stepped (fun _ same => by cases same) rfl ?_ rfl within
      rw [List.take_add_one, found]
      rfl
    · cases taken
  | toClient =>
    obtain ⟨_, taken⟩ := Option.ite_none_right_eq_some.mp taken
    split at taken
    · rename_i msg found
      obtain ⟨client, moved, rfl⟩ := Option.map_eq_some_iff.mp taken
      have within := (List.getElem?_eq_some_iff.mp found).1
      refine tracks.moves moved ?_ rfl within (tracks.heard.receives found moved)
      rw [made_receive]
      rfl
    · cases taken
  | lost event =>
    obtain ⟨client, moved, rfl⟩ := Option.map_eq_some_iff.mp taken
    refine tracks.moves moved ?_ rfl tracks.handed (tracks.heard.moves moved fun _ => ⟨?_, .inr ⟨event, rfl, rfl⟩⟩)
    · cases event <;> rfl
    · cases event <;> rfl
  | server label =>
    obtain ⟨silent, taken⟩ := Option.ite_none_left_eq_some.mp taken
    obtain ⟨server, stepped, rfl⟩ := Option.map_eq_some_iff.mp taken
    refine tracks.serves stepped ?_ rfl ?_ rfl tracks.taken
    · rintro text rfl
      exact silent rfl
    · have none_ : framesOf [label] = [] := by
        cases label with
        | read msg =>
          cases msg with
          | binary => exact absurd rfl silent
          | _ => rfl
        | _ => rfl
      rw [none_, List.append_nil]

theorem Tracks.start (r : Route) : Tracks r [] r.start where
  client := ⟨⟨[], rfl, List.nil_prefix, fun _ => rfl⟩, fun held => absurd held Bool.false_ne_true⟩
  server := ⟨[], .nil _, fun _ => List.not_mem_nil, rfl, rfl⟩
  taken := Nat.zero_le _
  handed := Nat.zero_le _
  heard := .inl ⟨rfl, rfl, List.forall_mem_nil _⟩

theorem run_tracks {r : Route} {ls : List Label} {s : System} (run : Run r ls s) : Tracks r ls s :=
  run.history (Q := fun _ _ _ => True) (fun _ _ _ _ _ => trivial) (fun _ _ _ _ _ tracks _ taken => tracks.step taken)
    (.start r)

/-! ### The law of a call -/

/-- What the read loop has read of the client. -/
theorem Tracks.read {r : Route} {ls : List Label} {s : System} (tracks : Tracks r ls s) :
    ∃ rest, rest <+: asked r ls ∧ s.client.sent.take s.taken <+: r.openFrame :: rest := by
  obtain ⟨⟨rest, frames, within, _⟩, _⟩ := tracks.client
  refine ⟨rest, within, (List.take_prefix _ _).trans ?_⟩
  have before := List.prefix_append s.client.sent s.client.pending
  rw [frames] at before
  exact before

theorem Tracks.served {r : Route} (unlocked : r.codec.getD false = false) {ls : List Label} {s : System}
    (tracks : Tracks r ls s) :
    ∃ labels, Ws.Run r.config labels s.server ∧ told 0 labels = events ls ∧
      Served r (s.client.sent.take s.taken) s.server ∧
      ∀ e ∈ authored r.config (.initial r.config) labels, Spoken r (s.client.sent.take s.taken) e := by
  obtain ⟨labels, run, binary, frames, told⟩ := tracks.server
  obtain ⟨rest, within, before⟩ := tracks.read
  have opening : Opening r (framesOf labels) := by
    rw [frames]
    exact ⟨rest, before, fun frame member => asked_opens_nothing r ls frame (within.subset member)⟩
  obtain ⟨served, spoken⟩ := run_served unlocked run binary opening
  rw [frames] at served spoken
  exact ⟨labels, run, told, served, spoken⟩

/-- At most one task serves the stream. What its backend reads are the messages that the application sent before
it half-closed or cancelled, in order and each once; a task that was not told to stop reads the end of its
body behind all of them, and only once the application half-closed. -/
theorem requests_in_order (r : Route) (unlocked : r.codec.getD false = false) {ls : List Label} {s : System}
    (run : Run r ls s) :
    s.server.tasks.length ≤ 1 ∧ ∀ task ∈ s.server.tasks,
      task.delivered <+: (messages r.maxMessageBytes (asked r ls)).map frame ∧
        (task.bodyEnded = true → task.aborted = false →
          task.delivered = (messages r.maxMessageBytes (asked r ls)).map frame ∧ ⟨some .halfClose⟩ ∈ asked r ls) := by
  have tracks := run_tracks run
  obtain ⟨labels, server, _, served, _⟩ := tracks.served unlocked
  obtain ⟨rest, within, before⟩ := tracks.read
  rcases served.tasks with empty | ⟨task, tasks, _, read, whole, faithful⟩
  · rw [empty]
    exact ⟨Nat.zero_le _, List.forall_mem_nil _⟩
  rw [tasks]
  refine ⟨Nat.le_refl _, List.forall_mem_singleton.mpr ?_⟩
  rw [whole] at before
  have earlier : read <+: asked r ls := (List.cons_prefix_cons.mp before).2.trans within
  obtain ⟨task', found, passed, released⟩ := faithful.passed
  rw [tasks] at found
  obtain rfl := Option.some.inj found
  rw [List.nil_append] at passed
  refine ⟨?_, fun past running => ?_⟩
  · exact ((List.prefix_append task.delivered _).trans passed.inOrder).trans ((messages_grow earlier).map frame)
  · have gone := released past
    obtain ⟨reqTx, held⟩ := Ws.Resources.run_owned server 0 task (by rw [tasks]; rfl) running
    obtain rfl : reqTx = false := by simpa [Ws.Conn.sender, held] using gone
    have stopped : read.any (stops r.maxMessageBytes) = true := by
      refine (faithful.past gone).resolve_right fun ended => ?_
      have fits := served.sound.fits
      rw [ended] at fits
      cases fits.symm.trans held
    obtain ⟨more, same⟩ := earlier
    refine ⟨?_, ?_⟩
    · rw [(passed.ended past).2, ← same, Ws.RequestStream.messages_stopped stopped]
    · have closed := served.halfClosed 0 held
      rw [whole] at closed
      rcases List.mem_cons.mp closed with opening | member
      · cases opening
      · rw [← same]
        exact List.mem_append_left _ member

/-! ### The frames that answer -/

/-- The messages of the server up to any that ends the client's stream are the first of the reply to the
backend's task. -/
theorem Tracks.front {r : Route} (unlocked : r.codec.getD false = false) {ls : List Label} {s : System}
    (tracks : Tracks r ls s) {n : Nat} (goes : ∀ msg ∈ s.server.outbound.take n, quiet msg = true) :
    ∃ front, s.server.outbound.take n = front.map .binary ∧
      Partial r.origin (answerOf (events ls)) (bodyOf (events ls)) front ∧
      ∀ msg, s.server.outbound[n]? = some msg → quiet msg = false → ∃ frame, msg = .binary frame ∧
        (reply r.origin (answerOf (events ls)) (bodyOf (events ls)) = front ++ [frame] ∨
          r.origin.timeout.isSome = true ∧ frame = Ws.deadlineFrame ∨ Refusal r (s.client.sent.take s.taken) frame) := by
  obtain ⟨labels, run, told, served, spoken⟩ := tracks.served unlocked
  have outbound := Ws.ResponseStream.outbound_authored run
  have faithful := Ws.ResponseStream.run_faithful run
  generalize sent : authored r.config (.initial r.config) labels = wrote at spoken outbound
  have owned : ∀ e ∈ wrote.take n, e.1 = some 0 := by
    intro e member
    have said := spoken e (List.mem_of_mem_take member)
    unfold Spoken at said
    split at said
    · rename_i here
      rw [here, said]
    · obtain ⟨reset, same, refusal⟩ := said
      have silent := goes e.2 (by rw [outbound, ← List.map_take]; exact List.mem_map_of_mem member)
      have terminal := refusal.terminal
      rw [same, quiet, Option.isNone_iff_eq_none] at silent
      rw [silent] at terminal
      cases terminal
  have split : sentBy 0 wrote = s.server.outbound.take n ++ sentBy 0 (wrote.drop n) := by
    rw [outbound, ← List.map_take, ← sentBy_owned owned, sentBy, sentBy, sentBy, ← List.filterMap_append,
      List.take_append_drop]
  have behind {msg : Ws.TungMessage Value} (found : s.server.outbound[n]? = some msg) :
      (∃ rest, sentBy 0 (wrote.drop n) = msg :: rest) ∨
        ∃ reset, msg = .binary reset ∧ Refusal r (s.client.sent.take s.taken) reset := by
    rw [outbound, List.getElem?_map] at found
    obtain ⟨e, here, rfl⟩ := Option.map_eq_some_iff.mp found
    have said := spoken e (List.mem_of_getElem? here)
    have next : wrote.drop n = e :: wrote.drop (n + 1) := by
      obtain ⟨within, rfl⟩ := List.getElem?_eq_some_iff.mp here
      exact List.drop_eq_getElem_cons within
    unfold Spoken at said
    split at said
    · rename_i here
      subst said
      exact .inl ⟨sentBy 0 (wrote.drop (n + 1)), by simp [next, sentBy, here]⟩
    · exact .inr said
  rcases served.tasks with empty | ⟨task, tasks, same, _⟩
  · have none_ := (faithful.fresh 0 (by rw [empty]; rfl)).1
    rw [sent, split] at none_
    obtain ⟨short, rest⟩ := List.append_eq_nil_iff.mp none_
    refine ⟨[], short, .start _ _ _, ?_⟩
    intro msg found _
    rcases behind found with ⟨_, more⟩ | ⟨reset, same, refusal⟩
    · cases rest.symm.trans more
    · exact ⟨reset, same, .inr (.inr refusal)⟩
  · obtain ⟨frames, closes, whole, stands⟩ := faithful.task 0 task (by rw [tasks]; rfl)
    have law := stands.law
    rw [← whole, sent, split, told] at law
    have json : task.json = false := congrArg Origin.json same
    have timeout : task.timeout = r.origin.timeout := congrArg Origin.timeout same
    obtain ⟨front, said, short, next⟩ := law.front json goes
    rw [same] at short next
    refine ⟨front, said, short, ?_⟩
    intro msg found loud
    rcases behind found with ⟨rest, more⟩ | ⟨reset, same, refusal⟩
    · obtain ⟨frame, eq, origin⟩ := next msg rest more loud
      exact ⟨frame, eq, origin.imp_right fun late => .inl (timeout ▸ late)⟩
    · exact ⟨reset, same, .inr (.inr refusal)⟩

/-- What ended the client's stream behind the handlers of `frames`. -/
inductive Outcome (r : Route) (ls : List Label) (frames : List Frame) (status : Event Bytes) : Prop where
  | gone : Gone ls status → Outcome r ls frames status
  | replied {terminal : Frame} : reply r.origin (answerOf (events ls)) (bodyOf (events ls)) = frames ++ [terminal] →
      onBinaryFrame terminal = some status → Outcome r ls frames status
  | expired : r.origin.timeout.isSome = true → onBinaryFrame Ws.deadlineFrame = some status → Outcome r ls frames status
  | refused {reset : Frame} : Refusal r (asked r ls) reset → onBinaryFrame reset = some status → Outcome r ls frames status

/-- The client calls its handlers for the first frames of the reply, in order and each once. A status comes last,
and then from the application or the socket, from the reply behind all its other frames, from the deadline or from
a refusal. -/
theorem responses_in_order (r : Route) (unlocked : r.codec.getD false = false) {ls : List Label} {s : System}
    (run : Run r ls s) :
    ∃ frames, Partial r.origin (answerOf (events ls)) (bodyOf (events ls)) frames ∧
      (s.client.finished = false ∧ s.client.called = frames.filterMap onBinaryFrame ∨
        s.client.finished = true ∧ ∃ status, s.client.called = frames.filterMap onBinaryFrame ++ [status] ∧
          Outcome r ls frames status) := by
  have tracks := run_tracks run
  have quiet_ {msgs : List (Ws.TungMessage Value)} (goes : ∀ msg ∈ msgs, (receive msg).terminal = false) :
      ∀ msg ∈ msgs, quiet msg = true := by
    intro msg member
    simpa [receive_terminal] using goes msg member
  rcases tracks.heard with ⟨running, called, goes⟩ | ⟨finished, n, status, _, called, goes, origin⟩
  · obtain ⟨frames, said, short, _⟩ := tracks.front unlocked (quiet_ goes)
    refine ⟨frames, short, .inl ⟨running, ?_⟩⟩
    rw [called, said, heard_binary]
  · obtain ⟨frames, said, short, next⟩ := tracks.front unlocked (quiet_ goes)
    refine ⟨frames, short, .inr ⟨finished, status, ?_, ?_⟩⟩
    · rw [called, said, heard_binary]
    · rcases origin with gone | ⟨msg, _, found, terminal, event⟩
      · exact .gone gone
      · obtain ⟨frame, rfl, replied | ⟨bounded, rfl⟩ | refusal⟩ :=
          next msg found (by simpa [receive_terminal] using terminal)
        · exact .replied replied event
        · exact .expired bounded event
        · obtain ⟨rest, within, before⟩ := tracks.read
          exact .refused ((refusal.mono before).behind.mono within) event

/-- A stream does not hang: a task that ran to its end told the client so. -/
theorem finished_task_ends (r : Route) (unlocked : r.codec.getD false = false) {ls : List Label} {s : System}
    (run : Run r ls s) {task : Ws.Task} (here : task ∈ s.server.tasks) (done : task.pc = .done)
    (lives : killed (events ls) = false) (alive : s.server.writer = true)
    (handed : s.handed = s.server.outbound.length) : s.client.finished = true := by
  have tracks := run_tracks run
  obtain ⟨labels, server, told, served, _⟩ := tracks.served unlocked
  rcases served.tasks with empty | ⟨only, tasks, _⟩
  · rw [empty] at here
    cases here
  rw [tasks, List.mem_singleton] at here
  subst here
  obtain ⟨frames, closes, whole, _, _, closed⟩ :=
    (Ws.ResponseStream.run_faithful server).task 0 task (by rw [tasks]; rfl)
  rw [closed done alive (told ▸ lives)] at whole
  have close : Ws.closeNormal ∈ s.server.outbound := by
    have member : Ws.closeNormal ∈ sentBy 0 (authored r.config (.initial r.config) labels) :=
      whole ▸ List.mem_append_right _ (List.mem_singleton_self _)
    obtain ⟨e, earlier, own⟩ := List.mem_filterMap.mp member
    obtain ⟨_, same⟩ := Option.ite_none_right_eq_some.mp own
    rw [Ws.ResponseStream.outbound_authored server]
    exact List.mem_map.mpr ⟨e, earlier, Option.some.inj same⟩
  rcases tracks.heard with ⟨_, _, goes⟩ | ⟨finished, _⟩
  · rw [handed, List.take_length] at goes
    cases goes _ close
  · exact finished

/-! ### Cancellation -/

/-- A step of the system is a move of the client or leaves it. -/
theorem System.step_client {r : Route} {s t : System} {l : Label} (taken : Step r s l t) :
    t.client = s.client ∨ ∃ move, Client.SingleStream.Step r.client s.client move t.client := by
  unfold Step System.step at taken
  cases l with
  | app move =>
    obtain ⟨_, taken⟩ := Option.ite_none_right_eq_some.mp taken
    obtain ⟨client, moved, rfl⟩ := Option.map_eq_some_iff.mp taken
    exact .inr ⟨move, moved⟩
  | opened | lost =>
    obtain ⟨client, moved, rfl⟩ := Option.map_eq_some_iff.mp taken
    exact .inr ⟨_, moved⟩
  | toServer =>
    dsimp only at taken
    split at taken
    · obtain ⟨server, _, rfl⟩ := Option.map_eq_some_iff.mp taken
      exact .inl rfl
    · cases taken
  | toClient =>
    obtain ⟨_, taken⟩ := Option.ite_none_right_eq_some.mp taken
    split at taken
    · obtain ⟨client, moved, rfl⟩ := Option.map_eq_some_iff.mp taken
      exact .inr ⟨_, moved⟩
    · cases taken
  | server label =>
    obtain ⟨_, taken⟩ := Option.ite_none_left_eq_some.mp taken
    obtain ⟨server, _, rfl⟩ := Option.map_eq_some_iff.mp taken
    exact .inl rfl

/-- A stream that the application cancelled stops on the server once the client's frames have arrived. -/
theorem cancel_stops (r : Route) (unlocked : r.codec.getD false = false) {pre post : List Label} {u v s : System}
    {move : Move} (before : Run r pre u) (running : u.client.finished = false) (taken : Step r u (.app move) v)
    (resets : (move.reset? r.client).isSome = true) (after : Transition.Run (Step r) v post s)
    (flushed : s.client.pending = []) (arrived : s.taken = s.client.sent.length) :
    s.server.stream = none ∧ Ws.Resources.Stopped s.server := by
  obtain ⟨reset, resets⟩ := Option.isSome_iff_exists.mp resets
  obtain ⟨client, moved, whole⟩ : ∃ client, Client.SingleStream.Step r.client u.client move client ∧ v.client = client := by
    obtain ⟨_, taken⟩ := Option.ite_none_right_eq_some.mp taken
    obtain ⟨client, moved, rfl⟩ := Option.map_eq_some_iff.mp taken
    exact ⟨client, moved, rfl⟩
  obtain ⟨finished, member⟩ := step_reset running resets moved
  rw [← whole] at finished member
  have sent : s.client.finished = true ∧ reset ∈ s.client.sent ++ s.client.pending := by
    refine after.invariant (P := fun s => s.client.finished = true ∧ reset ∈ s.client.sent ++ s.client.pending) ?_
      ⟨finished, member⟩
    rintro a l b ⟨ended, member⟩ stepped
    rcases System.step_client stepped with same | ⟨move, moved⟩
    · rw [same]
      exact ⟨ended, member⟩
    · obtain ⟨ended', frames⟩ := step_ended ended moved
      exact ⟨ended', frames ▸ member⟩
  have tracks := run_tracks (before.append (.cons taken after))
  obtain ⟨labels, server, _, served, _⟩ := tracks.served unlocked
  have idle : s.server.stream = none := by
    refine served.cancelled ?_
    rw [arrived, List.take_length]
    rw [flushed, List.append_nil] at sent
    cases move with
    | cancel => exact ⟨_, Option.some.inj resets ▸ sent.2⟩
    | abort => exact ⟨_, Option.some.inj resets ▸ sent.2⟩
    | _ => cases resets
  refine ⟨idle, fun i task found => ?_⟩
  by_contra live
  obtain ⟨_, held⟩ := Ws.Resources.run_owned server i task found (Bool.of_not_eq_true live)
  cases idle.symm.trans held

end

section

attribute [local instance] flagSchema Ws.flagTexts slashUris BinaryMetadata.asciiLower Client.wholeNumbers

def plain : Route := ⟨4, .none, some false, "/flag.Flags/Set", [], 0⟩

/-- A call whose backend reads its message to the end and answers with one. -/
def echoed : List Label :=
  [.app (.send [7]), .opened, .toServer, .toServer, .server .resume, .server (.task 0 .begin),
    .server (.task 0 .deliver), .app .halfClose, .toServer, .server (.task 0 .endBody),
    .server (.task 0 (.answer (.ok []))), .server (.task 0 .send), .server .write, .toClient,
    .server (.task 0 (.body (.data [0, 0, 0, 0, 1, 9]))), .server (.task 0 .send),
    .server (.task 0 (.body .eof)), .server (.task 0 .send), .server (.task 0 .send),
    .server .write, .server .write, .server .write, .toClient, .toClient, .toClient]

theorem echoed_runs : ∃ (s : System) (task : Ws.Task), Run plain echoed s ∧ s.server.tasks = [task] ∧
    task.bodyEnded = true ∧ task.aborted = false ∧ task.pc = .done ∧ s.server.writer = true ∧
    s.handed = s.server.outbound.length ∧ s.client.called.length = 3 := by
  have run : Run plain echoed _ :=
    .cons rfl (.cons rfl (.cons rfl (.cons rfl (.cons rfl (.cons rfl (.cons rfl (.cons rfl (.cons rfl (.cons rfl
      (.cons rfl (.cons rfl (.cons rfl (.cons rfl (.cons rfl (.cons rfl (.cons rfl (.cons rfl (.cons rfl (.cons rfl
      (.cons rfl (.cons rfl (.cons rfl (.cons rfl (.cons rfl (.nil _)))))))))))))))))))))))))
  exact ⟨_, _, run, rfl, rfl, rfl, rfl, rfl, rfl, rfl⟩

theorem requests_in_order_echoed : ∃ (s : System) (task : Ws.Task), s.server.tasks = [task] ∧
    task.delivered = [[0, 0, 0, 0, 1, 7]] ∧ ⟨some .halfClose⟩ ∈ asked plain echoed := by
  obtain ⟨s, task, run, tasks, past, running, _⟩ := echoed_runs
  have whole := (requests_in_order plain rfl run).2 task (tasks ▸ List.mem_singleton_self task)
  exact ⟨s, task, tasks, (whole.2 past running).1, (whole.2 past running).2⟩

theorem responses_in_order_echoed : ∃ (s : System) (frames : List Frame), s.client.called.length = 3 ∧
    Partial plain.origin (answerOf (events echoed)) (bodyOf (events echoed)) frames ∧
      (s.client.finished = false ∧ s.client.called = frames.filterMap onBinaryFrame ∨
        s.client.finished = true ∧ ∃ status, s.client.called = frames.filterMap onBinaryFrame ++ [status] ∧
          Outcome plain echoed frames status) := by
  obtain ⟨s, _, run, _, _, _, _, _, _, called⟩ := echoed_runs
  obtain ⟨frames, told⟩ := responses_in_order plain rfl run
  exact ⟨s, frames, called, told⟩

theorem finished_task_ends_echoed : ∃ s : System, Run plain echoed s ∧ s.client.finished = true := by
  obtain ⟨s, task, run, tasks, _, _, done, alive, handed, _⟩ := echoed_runs
  have here : task ∈ s.server.tasks := tasks ▸ List.mem_singleton_self task
  exact ⟨s, run, finished_task_ends plain rfl run here done rfl alive handed⟩

/-- A call that the application cancels while its backend works. -/
theorem cancel_stops_called : ∃ s : System, s.server.tasks.length = 1 ∧ s.server.stream = none ∧
    Ws.Resources.Stopped s.server := by
  have run : Run plain [.opened, .toServer, .server (.task 0 .begin)] _ := .cons rfl (.cons rfl (.cons rfl (.nil _)))
  exact ⟨_, rfl, @cancel_stops _ _ _ _ _ plain rfl _ [.app (.send [1]), .toServer, .app .returns] _ _ _ .cancel run
    rfl rfl rfl (.cons rfl (.cons rfl (.cons rfl (.nil _)))) rfl rfl⟩

end

end EndToEnd
end GrpcWebnext
