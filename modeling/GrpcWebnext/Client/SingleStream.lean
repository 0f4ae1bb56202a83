import Mathlib.Data.List.TakeWhile
import GrpcWebnext.Lib.Transition
import GrpcWebnext.Client.WsTransport

/-!
# One stream on one socket

`SingleStreamConn` between its socket and the application: events of the socket, calls of the
application, also from within handlers, and aborts of the call's signal.
-/

namespace GrpcWebnext
namespace Client
namespace SingleStream
open Transition JsNumber
open Ws (Document)

/-! ### Lists up to a stop -/

section

variable {α β : Type}

/-- The image under `f` of what comes before the first stop, and that of the stop under `g`. -/
def upTo (stop : α → Bool) (f g : α → Option β) (l : List α) : List β :=
  (l.takeWhile fun a => !stop a).filterMap f ++ ((l.find? stop).bind g).toList

theorem takeWhile_append_singleton (stop : α → Bool) (l : List α) (a : α) :
    ((l ++ [a]).takeWhile fun a => !stop a) =
      if l.any stop then l.takeWhile fun a => !stop a else if stop a then l else l ++ [a] := by
  induction l with
  | nil => cases here : stop a <;> simp [here]
  | cons b l ih =>
    rw [List.cons_append, List.takeWhile_cons, List.takeWhile_cons, List.any_cons, ih]
    cases stop b <;> cases l.any stop <;> cases stop a <;> rfl

theorem upTo_append_singleton (stop : α → Bool) (f g : α → Option β) (l : List α) (a : α) :
    upTo stop f g (l ++ [a]) =
      upTo stop f g l ++ if l.any stop then [] else (if stop a then g a else f a).toList := by
  unfold upTo
  rw [takeWhile_append_singleton, List.find?_append]
  cases stopped : l.any stop with
  | true =>
    obtain ⟨b, found⟩ := Option.isSome_iff_exists.mp (List.find?_isSome.mpr (List.any_eq_true.mp stopped))
    simp [found]
  | false =>
    have goes : ∀ b ∈ l, stop b = false := by simpa using stopped
    have none_ : l.find? stop = none := List.find?_eq_none.mpr fun b member => by simp [goes b member]
    have whole : (l.takeWhile fun b => !stop b) = l :=
      List.takeWhile_eq_self_iff.mpr fun b member => by simp [goes b member]
    rw [none_, whole]
    cases here : stop a with
    | true => simp [here]
    | false => cases made : f a <;> simp [here, made]

theorem countP_of_dropLast {p : α → Bool} {l : List α} (none : ∀ a ∈ l.dropLast, p a = false) :
    l.countP p ≤ 1 := by
  rcases List.eq_nil_or_concat l with rfl | ⟨init, a, rfl⟩
  · exact Nat.zero_le 1
  · rw [List.concat_eq_append, List.dropLast_concat] at none
    have init_ : init.countP p = 0 := List.countP_eq_zero.mpr fun b member => by simp [none b member]
    rw [List.concat_eq_append, List.countP_append, init_]
    exact (Nat.zero_add _).trans_le List.countP_le_length

end

section

variable [JsNumber] {Message Frame Payload : Type}

/-! ### State -/

/-- What the two codecs send. `encodeMessage` throws on a message that is not JSON. -/
structure Codec (Message Frame : Type) where
  openFrame : Frame
  encodeMessage : Message → Option Frame
  encodeHalfClose : Frame
  encodeReset : StatusResult → Frame

/-- `closing` while `terminate` has called `onStatus` and is yet to close the socket. `sent` are the
frames handed to the socket, `called` the handlers. -/
structure Conn (Frame Payload : Type) where
  pending : List Frame
  isOpen : Bool := false
  finished : Bool := false
  closing : Bool := false
  closed : Bool := false
  sent : List Frame := []
  called : List (Event Payload) := []

structure CloseEvent where
  code : Nat
  reason : String

def statusForClose : Option CloseEvent → StatusResult
  | some event =>
    if 4000 ≤ event.code ∧ event.code ≤ 4000 + 16 then ⟨event.code - 4000, event.reason⟩
    else ⟨14, "websocket closed"⟩
  | none => ⟨14, "websocket closed"⟩

def statusEvent (status : StatusResult) : Event Payload := .status (ofNat status.code) status.details .empty

def Conn.sendRaw (c : Conn Frame Payload) (frame : Frame) : Conn Frame Payload :=
  if c.finished then c
  else if c.isOpen then { c with sent := c.sent ++ [frame] }
  else { c with pending := c.pending ++ [frame] }

def Conn.finish (c : Conn Frame Payload) (status : Event Payload) : Conn Frame Payload :=
  if c.finished then c else { c with finished := true, called := c.called ++ [status] }

/-- `terminate`, up to the call of `onStatus`. -/
def Conn.terminate (codec : Codec Message Frame) (c : Conn Frame Payload) (status : StatusResult) :
    Conn Frame Payload :=
  if c.finished then c
  else { (c.sendRaw (codec.encodeReset status)).finish (statusEvent status) with closing := true }

/-- `onMessage`, behind the decoding of the data. -/
def Conn.onMessage (c : Conn Frame Payload) (event : Event Payload) : Conn Frame Payload :=
  if c.finished then c
  else match event with
    | .status code details md => c.finish (.status code details md)
    | event => { c with called := c.called ++ [event] }

def Conn.onClose (c : Conn Frame Payload) (event : Option CloseEvent) : Conn Frame Payload :=
  { c with isOpen := false }.finish (statusEvent (statusForClose event))

/-! ### Steps -/

inductive Label (Message Payload : Type) where
  | opened
  /-- the handler call in the data, none if there is none or the data does not decode -/
  | message (event : Option (Event Payload))
  | close (event : CloseEvent)
  | error
  | send (message : Message)
  | halfClose
  | cancel
  | abort (status : StatusResult)
  /-- `onStatus` returns to `terminate` -/
  | returns
  | throws
  /-- `WebSocketTransport.close` -/
  | closeTransport

/-- The socket's events wait until the application's handler is done. -/
def Conn.step (codec : Codec Message Frame) (c : Conn Frame Payload) :
    Label Message Payload → Option (Conn Frame Payload)
  | .opened =>
    if c.closing then none else some { c with isOpen := true, sent := c.sent ++ c.pending, pending := [] }
  | .message event => if c.closing then none else some (event.elim c c.onMessage)
  | .close event => if c.closing then none else some (c.onClose (some event))
  | .error => if c.closing then none else some (c.onClose none)
  | .send message => some ((codec.encodeMessage message).elim c c.sendRaw)
  | .halfClose => some (c.sendRaw codec.encodeHalfClose)
  | .cancel => some (c.terminate codec ⟨1, "cancelled"⟩)
  | .abort status => some (c.terminate codec status)
  | .returns => if c.closing then some { c with closing := false, closed := true } else none
  | .throws => if c.closing then some { c with closing := false } else none
  | .closeTransport => some { c with closed := true }

def Step (codec : Codec Message Frame) (c : Conn Frame Payload) (l : Label Message Payload)
    (c' : Conn Frame Payload) : Prop :=
  c.step codec l = some c'

def Conn.start (codec : Codec Message Frame) : Conn Frame Payload :=
  ({ pending := [] } : Conn Frame Payload).sendRaw codec.openFrame

/-! ### What a stream is for -/

def Event.isStatus : Event Payload → Bool
  | .status _ _ _ => true
  | _ => false

def Label.opens : Label Message Payload → Bool
  | .opened => true
  | _ => false

/-- The handler that is called while the stream runs. -/
def Label.event? : Label Message Payload → Option (Event Payload)
  | .message event => event
  | .close event => some (statusEvent (statusForClose (some event)))
  | .error => some (statusEvent (statusForClose none))
  | .cancel => some (statusEvent ⟨1, "cancelled"⟩)
  | .abort status => some (statusEvent status)
  | _ => none

/-- The event ends a stream that runs. -/
def Label.terminal (l : Label Message Payload) : Bool := l.event?.any Event.isStatus

/-- The frame of a `send` or a `halfClose`. -/
def Label.frame? (codec : Codec Message Frame) : Label Message Payload → Option Frame
  | .send m => codec.encodeMessage m
  | .halfClose => some codec.encodeHalfClose
  | _ => none

def Label.reset? (codec : Codec Message Frame) : Label Message Payload → Option Frame
  | .cancel => some (codec.encodeReset ⟨1, "cancelled"⟩)
  | .abort status => some (codec.encodeReset status)
  | _ => none

/-- What happened before the stream ended. -/
def active (ls : List (Label Message Payload)) : List (Label Message Payload) := ls.takeWhile fun l => !l.terminal

/-- The opening frame, a frame for each call before the end, and the reset of a cancelled stream. -/
def script (codec : Codec Message Frame) (ls : List (Label Message Payload)) : List Frame :=
  codec.openFrame :: upTo Label.terminal (Label.frame? codec) (Label.reset? codec) ls

/-- The handlers before the end, and the status. -/
def played (ls : List (Label Message Payload)) : List (Event Payload) :=
  upTo Label.terminal Label.event? Label.event? ls

/-! ### Every step -/

theorem sendRaw_running {c : Conn Frame Payload} (running : c.finished = false) (frame : Frame) :
    c.sendRaw frame =
      if c.isOpen then { c with sent := c.sent ++ [frame] } else { c with pending := c.pending ++ [frame] } := by
  simp [Conn.sendRaw, running]

/-- `frames` are handed to an open socket, and wait for another. -/
def Handed (c : Conn Frame Payload) (frames : List Frame) (c' : Conn Frame Payload) : Prop :=
  c'.sent = (if c.isOpen then c.sent ++ frames else c.sent) ∧
    c'.pending = if c.isOpen then c.pending else c.pending ++ frames

theorem handed_nil {c c' : Conn Frame Payload} (sent : c'.sent = c.sent) (pending : c'.pending = c.pending) :
    Handed c [] c' := by
  simp [Handed, sent, pending]

theorem handed_sendRaw {c : Conn Frame Payload} (running : c.finished = false) (frame : Frame) :
    Handed c [frame] (c.sendRaw frame) := by
  rw [sendRaw_running running]
  unfold Handed
  split <;> simp [*]

structure Runs (codec : Codec Message Frame) (c : Conn Frame Payload) (l : Label Message Payload)
    (c' : Conn Frame Payload) : Prop where
  finished : c'.finished = l.terminal
  handed : Handed c ((if l.terminal then l.reset? codec else l.frame? codec)).toList c'
  isOpen : l.terminal = false → c'.isOpen = c.isOpen
  called : c'.called = c.called ++ l.event?.toList

theorem terminate_runs (codec : Codec Message Frame) {c : Conn Frame Payload} (running : c.finished = false)
    (status : StatusResult) :
    (c.terminate codec status).finished = true ∧ Handed c [codec.encodeReset status] (c.terminate codec status) ∧
      (c.terminate codec status).called = c.called ++ [statusEvent status] := by
  obtain ⟨sent, pending⟩ := handed_sendRaw running (codec.encodeReset status)
  have same : (c.sendRaw (codec.encodeReset status)).finished = false ∧
      (c.sendRaw (codec.encodeReset status)).called = c.called := by
    rw [sendRaw_running running]
    split <;> exact ⟨running, rfl⟩
  simp only [Conn.terminate, running, Bool.false_eq_true, ↓reduceIte, Conn.finish, same.1, same.2]
  exact ⟨trivial, ⟨sent, pending⟩, trivial⟩

theorem sendRaw_runs {codec : Codec Message Frame} {c : Conn Frame Payload} (running : c.finished = false)
    {l : Label Message Payload} {frame : Frame} (made : l.frame? codec = some frame) (quiet : l.event? = none) :
    Runs codec c l (c.sendRaw frame) := by
  have goes : l.terminal = false := by simp [Label.terminal, quiet]
  have handed := handed_sendRaw running frame
  have same : (c.sendRaw frame).finished = false ∧ (c.sendRaw frame).isOpen = c.isOpen ∧
      (c.sendRaw frame).called = c.called := by
    rw [sendRaw_running running]
    split <;> exact ⟨running, rfl, rfl⟩
  obtain ⟨finished, isOpen, called⟩ := same
  refine ⟨by rw [finished, goes], ?_, fun _ => isOpen, by rw [called, quiet]; exact (List.append_nil _).symm⟩
  rw [goes, if_neg Bool.false_ne_true, made]
  exact handed

theorem Runs.same {codec : Codec Message Frame} {c c' : Conn Frame Payload} (running : c.finished = false)
    {l : Label Message Payload} (silent : l.frame? codec = none) (quiet : l.event? = none)
    (finished : c'.finished = c.finished) (sent : c'.sent = c.sent) (pending : c'.pending = c.pending)
    (isOpen : c'.isOpen = c.isOpen) (called : c'.called = c.called) : Runs codec c l c' := by
  have goes : l.terminal = false := by simp [Label.terminal, quiet]
  refine ⟨by rw [finished, running, goes], ?_, fun _ => isOpen, by rw [called, quiet]; exact (List.append_nil _).symm⟩
  rw [goes, if_neg Bool.false_ne_true, silent]
  exact handed_nil sent pending

theorem step_running {codec : Codec Message Frame} {c c' : Conn Frame Payload} {l : Label Message Payload}
    (running : c.finished = false) (other : l.opens = false) (taken : Step codec c l c') : Runs codec c l c' := by
  cases l with
  | opened => cases other
  | message event =>
    obtain ⟨_, ⟨⟩⟩ := Option.ite_none_left_eq_some.mp taken
    cases event with
    | none => exact .same running rfl rfl rfl rfl rfl rfl rfl
    | some event =>
      simp only [Option.elim_some, Conn.onMessage, running, Bool.false_eq_true, ↓reduceIte, Conn.finish]
      cases event with
      | status code details md => exact ⟨rfl, handed_nil rfl rfl, nofun, rfl⟩
      | headers md => exact ⟨rfl, handed_nil rfl rfl, fun _ => rfl, rfl⟩
      | message payload => exact ⟨rfl, handed_nil rfl rfl, fun _ => rfl, rfl⟩
  | close event =>
    obtain ⟨_, ⟨⟩⟩ := Option.ite_none_left_eq_some.mp taken
    simp only [Conn.onClose, Conn.finish, running, Bool.false_eq_true, ↓reduceIte]
    exact ⟨rfl, handed_nil rfl rfl, nofun, rfl⟩
  | error =>
    obtain ⟨_, ⟨⟩⟩ := Option.ite_none_left_eq_some.mp taken
    simp only [Conn.onClose, Conn.finish, running, Bool.false_eq_true, ↓reduceIte]
    exact ⟨rfl, handed_nil rfl rfl, nofun, rfl⟩
  | send m =>
    cases taken
    cases made : codec.encodeMessage m with
    | none => exact .same running made rfl rfl rfl rfl rfl rfl
    | some frame => exact sendRaw_runs running made rfl
  | halfClose =>
    cases taken
    exact sendRaw_runs running rfl rfl
  | cancel =>
    cases taken
    obtain ⟨finished, handed, called⟩ := terminate_runs codec running ⟨1, "cancelled"⟩
    exact ⟨finished, handed, nofun, called⟩
  | abort status =>
    cases taken
    obtain ⟨finished, handed, called⟩ := terminate_runs codec running status
    exact ⟨finished, handed, nofun, called⟩
  | returns =>
    obtain ⟨_, ⟨⟩⟩ := Option.ite_none_right_eq_some.mp taken
    exact .same running rfl rfl rfl rfl rfl rfl rfl
  | throws =>
    obtain ⟨_, ⟨⟩⟩ := Option.ite_none_right_eq_some.mp taken
    exact .same running rfl rfl rfl rfl rfl rfl rfl
  | closeTransport =>
    cases taken
    exact .same running rfl rfl rfl rfl rfl rfl rfl

/-- Nothing but an open event touches the frames of a stream that has ended. -/
theorem step_finished {codec : Codec Message Frame} {c c' : Conn Frame Payload} {l : Label Message Payload}
    (ended : c.finished = true) (other : l.opens = false) (taken : Step codec c l c') :
    c'.finished = true ∧ c'.sent = c.sent ∧ c'.pending = c.pending ∧ c'.called = c.called := by
  cases l with
  | opened => cases other
  | message event =>
    obtain ⟨_, ⟨⟩⟩ := Option.ite_none_left_eq_some.mp taken
    cases event with
    | none => exact ⟨ended, rfl, rfl, rfl⟩
    | some event => simp [Conn.onMessage, ended]
  | close event | error =>
    obtain ⟨_, ⟨⟩⟩ := Option.ite_none_left_eq_some.mp taken
    simp [Conn.onClose, Conn.finish, ended]
  | send m =>
    cases taken
    cases codec.encodeMessage m with
    | none => exact ⟨ended, rfl, rfl, rfl⟩
    | some frame => simp [Conn.sendRaw, ended]
  | halfClose =>
    cases taken
    simp [Conn.sendRaw, ended]
  | cancel | abort =>
    cases taken
    simp [Conn.terminate, ended]
  | returns | throws =>
    obtain ⟨_, ⟨⟩⟩ := Option.ite_none_right_eq_some.mp taken
    exact ⟨ended, rfl, rfl, rfl⟩
  | closeTransport =>
    cases taken
    exact ⟨ended, rfl, rfl, rfl⟩

/-! ### Every run -/

/-- The frames of the script have been handed to the socket if it opened, else they wait. -/
structure Scripted (codec : Codec Message Frame) (ls : List (Label Message Payload)) (c : Conn Frame Payload) : Prop where
  finished : c.finished = ls.any Label.terminal
  frames : c.sent ++ c.pending = script codec ls
  flushed : (active ls).any Label.opens = true → c.pending = []
  held : (active ls).any Label.opens = false → c.sent = []
  isOpen : c.finished = false → c.isOpen = (active ls).any Label.opens
  called : c.called = played ls

/-- The socket does not open once the stream has ended, nor once it was closed. -/
def Calm (c : Conn Frame Payload) (l : Label Message Payload) : Prop :=
  l.opens = true → c.finished = false ∧ c.closed = false

theorem Calm.opens_false {c : Conn Frame Payload} {l : Label Message Payload} (calm : Calm c l)
    (ended : c.finished = true) : l.opens = false := by
  cases opens : l.opens with
  | false => rfl
  | true => cases ended.symm.trans (calm opens).1

theorem active_append_singleton (ls : List (Label Message Payload)) (l : Label Message Payload) :
    active (ls ++ [l]) = if ls.any Label.terminal then active ls else if l.terminal then ls else ls ++ [l] :=
  takeWhile_append_singleton _ ls l

theorem active_running {ls : List (Label Message Payload)} (running : ls.any Label.terminal = false) : active ls = ls :=
  List.takeWhile_eq_self_iff.mpr fun l member => by
    have goes : ∀ l ∈ ls, Label.terminal l = false := by simpa using running
    simp [goes l member]

theorem script_append_singleton (codec : Codec Message Frame) (ls : List (Label Message Payload))
    (l : Label Message Payload) :
    script codec (ls ++ [l]) = script codec ls ++
      if ls.any Label.terminal then [] else (if l.terminal then l.reset? codec else l.frame? codec).toList := by
  rw [script, script, upTo_append_singleton, List.cons_append]

theorem played_append_singleton (ls : List (Label Message Payload)) (l : Label Message Payload) :
    played (ls ++ [l]) = played ls ++ if ls.any Label.terminal then [] else l.event?.toList := by
  rw [played, played, upTo_append_singleton, ite_self]

theorem Scripted.start (codec : Codec Message Frame) :
    Scripted codec ([] : List (Label Message Payload)) (.start codec) :=
  ⟨rfl, rfl, nofun, fun _ => rfl, fun _ => rfl, rfl⟩

theorem Scripted.running {codec : Codec Message Frame} {ls : List (Label Message Payload)} {c c' : Conn Frame Payload}
    {l : Label Message Payload} (scripted : Scripted codec ls c) (goes : ls.any Label.terminal = false)
    (running : c.finished = false) (other : l.opens = false) (taken : Step codec c l c') :
    Scripted codec (ls ++ [l]) c' := by
  obtain ⟨finished, ⟨sent, pending⟩, same, called⟩ := step_running running other taken
  obtain ⟨_, frames, flushed, held, isOpen, played_⟩ := scripted
  replace isOpen := isOpen running
  rw [active_running goes] at flushed held isOpen
  have opens : (active (ls ++ [l])).any Label.opens = c.isOpen := by
    rw [active_append_singleton, goes, isOpen, if_neg Bool.false_ne_true]
    cases l.terminal <;> simp [other]
  rw [isOpen] at sent pending
  have handed : c'.sent ++ c'.pending =
      c.sent ++ c.pending ++ (if l.terminal then l.reset? codec else l.frame? codec).toList := by
    rw [sent, pending]
    cases shut : ls.any Label.opens with
    | true => simp [flushed shut]
    | false => simp [held shut]
  refine ⟨?_, ?_, ?_, ?_, ?_, ?_⟩
  · rw [finished, List.any_append, goes]
    simp
  · rw [handed, frames, script_append_singleton, goes]
    rfl
  · rw [opens, isOpen]
    intro open_
    rw [pending, if_pos open_, flushed open_]
  · rw [opens, isOpen]
    intro shut
    rw [sent, shut, held shut]
    rfl
  · intro still
    rw [opens]
    exact same (finished ▸ still)
  · rw [called, played_, played_append_singleton, goes]
    rfl

theorem Scripted.step {codec : Codec Message Frame} {ls : List (Label Message Payload)} {c c' : Conn Frame Payload}
    {l : Label Message Payload} (scripted : Scripted codec ls c) (calm : Calm c l) (taken : Step codec c l c') :
    Scripted codec (ls ++ [l]) c' := by
  cases ended : c.finished with
  | true =>
    have over_ : ls.any Label.terminal = true := scripted.finished ▸ ended
    have other := calm.opens_false ended
    obtain ⟨finished, sent, pending, called⟩ := step_finished ended other taken
    have same : active (ls ++ [l]) = active ls := by rw [active_append_singleton, if_pos over_]
    refine ⟨?_, ?_, ?_, ?_, ?_, ?_⟩
    · rw [finished, List.any_append, over_, Bool.true_or]
    · rw [sent, pending, script_append_singleton, if_pos over_, List.append_nil, scripted.frames]
    · rw [same, pending]
      exact scripted.flushed
    · rw [same, sent]
      exact scripted.held
    · intro running
      cases running.symm.trans finished
    · rw [called, played_append_singleton, if_pos over_, List.append_nil, scripted.called]
  | false =>
    have goes : ls.any Label.terminal = false := scripted.finished ▸ ended
    have before := active_running goes
    have flushed := scripted.flushed
    have held := scripted.held
    have isOpen := scripted.isOpen ended
    rw [before] at flushed held isOpen
    cases l with
    | opened =>
      obtain ⟨_, ⟨⟩⟩ := Option.ite_none_left_eq_some.mp taken
      have now : active (ls ++ [.opened]) = ls ++ [.opened] := by
        rw [active_append_singleton, goes]
        rfl
      have opens : (active (ls ++ [.opened])).any Label.opens = true := by simp [now, Label.opens]
      refine ⟨?_, ?_, fun _ => rfl, ?_, ?_, ?_⟩
      · rw [List.any_append, goes]
        exact ended
      · rw [script_append_singleton, goes, List.append_nil, ← scripted.frames]
        exact (List.append_nil _).symm
      · intro shut
        cases shut.symm.trans opens
      · intro _
        rw [opens]
      · rw [played_append_singleton, goes]
        exact scripted.called.trans (List.append_nil _).symm
    | _ => exact scripted.running goes ended rfl taken

/-! ### The law of a stream -/

/-- The status is the last handler call, the frames handed to the socket are those of the script once it
opened, and nothing more happens behind the end in a run whose steps meet `ok`. -/
structure Law (codec : Codec Message Frame) (ok : Conn Frame Payload → Label Message Payload → Prop)
    (ls : List (Label Message Payload)) (c : Conn Frame Payload) : Prop where
  once : c.called.countP Event.isStatus ≤ 1
  last : ∀ e ∈ c.called.dropLast, Event.isStatus e = false
  sent : c.sent = if (active ls).any Label.opens then script codec ls else []
  quiet : c.finished = true → ∀ more c', Run (Guarded (Step codec) ok) c more c' →
    c'.sent = c.sent ∧ c'.called = c.called

theorem played_dropLast (ls : List (Label Message Payload)) :
    ∀ e ∈ (played ls).dropLast, Event.isStatus e = false := by
  have earlier : ∀ e ∈ (active ls).filterMap Label.event?, Event.isStatus e = false := by
    intro e member
    obtain ⟨l, before, made⟩ := List.mem_filterMap.mp member
    have goes : (!l.terminal) = true := List.mem_takeWhile_imp (p := fun l => !Label.terminal l) before
    simpa [Label.terminal, made] using goes
  intro e member
  unfold played upTo at member
  generalize (ls.find? Label.terminal).bind Label.event? = status at member
  cases status with
  | none =>
    rw [Option.toList_none, List.append_nil] at member
    exact earlier e (List.dropLast_subset _ member)
  | some status =>
    rw [Option.toList_some, List.dropLast_concat] at member
    exact earlier e member

theorem run_scripted {codec : Codec Message Frame} {ls : List (Label Message Payload)} {c : Conn Frame Payload}
    (run : Run (Guarded (Step codec) Calm) (.start codec) ls c) : Scripted codec ls c :=
  run.history (Q := fun _ _ _ => True) (fun _ _ _ _ _ => trivial)
    (fun _ _ _ _ _ scripted _ taken => scripted.step taken.2 taken.1) (.start codec)

theorem run_finished {codec : Codec Message Frame} {more : List (Label Message Payload)} {c c' : Conn Frame Payload}
    (run : Run (Guarded (Step codec) Calm) c more c') (ended : c.finished = true) :
    c'.sent = c.sent ∧ c'.called = c.called := by
  have all : c'.finished = true ∧ c'.sent = c.sent ∧ c'.called = c.called := by
    refine run.invariant (P := fun d => d.finished = true ∧ d.sent = c.sent ∧ d.called = c.called) ?_ ⟨ended, rfl, rfl⟩
    rintro d l d' ⟨ended, sent, called⟩ ⟨taken, calm⟩
    have other := calm.opens_false ended
    obtain ⟨finished, sent', _, called'⟩ := step_finished ended other taken
    exact ⟨finished, sent'.trans sent, called'.trans called⟩
  exact all.2

/-- A stream keeps its law where its socket does not open behind its end. -/
theorem stream_law (codec : Codec Message Frame) {ls : List (Label Message Payload)} {c : Conn Frame Payload}
    (run : Run (Guarded (Step codec) Calm) (.start codec) ls c) : Law codec Calm ls c := by
  have scripted := run_scripted run
  have last : ∀ e ∈ c.called.dropLast, Event.isStatus e = false := scripted.called ▸ played_dropLast ls
  refine ⟨countP_of_dropLast last, last, ?_, fun ended more c' rest => run_finished rest ended⟩
  rw [← scripted.frames]
  cases opens : (active ls).any Label.opens with
  | true =>
    rw [scripted.flushed opens, List.append_nil]
    rfl
  | false => exact scripted.held opens

end

/-! ### Both codecs -/

def jsonCodec [JsString] [JsNumber] (options : CallOptions) : Codec (Option Document) Document where
  openFrame := openFrame options
  encodeMessage := Option.map encodeMessage
  encodeHalfClose := encodeHalfClose
  encodeReset := encodeReset

def protoCodec (headers : List Metadatum) (timeoutMillis : UInt32) : Codec Bytes Frame where
  openFrame := ⟨some (.subscribe ⟨"", headers, timeoutMillis, [], false⟩)⟩
  encodeMessage message := some ⟨some (.message ⟨message⟩)⟩
  encodeHalfClose := ⟨some .halfClose⟩
  encodeReset status := ⟨some (.reset ⟨status.code, status.details⟩)⟩

section

attribute [local instance] wholeNumbers

/-- A stream that is cancelled from its first message's handler. -/
def cancelled : List (Label Bytes Bytes) :=
  [.send [1], .opened, .halfClose, .message (some (.message [2])), .cancel, .send [3], .returns, .close ⟨1000, ""⟩]

theorem stream_law_cancelled : ∃ c : Conn Frame Bytes, c.sent.length = 4 ∧ Law (protoCodec [] 0) Calm cancelled c :=
  ⟨_, rfl, stream_law (protoCodec [] 0)
    (.cons ⟨rfl, nofun⟩ <| .cons ⟨rfl, fun _ => ⟨rfl, rfl⟩⟩ <| .cons ⟨rfl, nofun⟩ <| .cons ⟨rfl, nofun⟩ <|
      .cons ⟨rfl, nofun⟩ <| .cons ⟨rfl, nofun⟩ <| .cons ⟨rfl, nofun⟩ <| .cons ⟨rfl, nofun⟩ (.nil _))⟩

/-- The socket does not open once it was closed. -/
def Unclosed (c : Conn Frame Bytes) (l : Label Bytes Bytes) : Prop := l.opens = true → c.closed = false

/-- A stream cancelled before its socket opens, whose status handler throws: `terminate` does not get to
`close`. The socket opens, and it is handed the opening frame and the reset. -/
theorem thrown_status_flushes : ∃ c : Conn Frame Bytes,
    Run (Guarded (Step (protoCodec [] 0)) Unclosed) (.start (protoCodec [] 0)) [.cancel, .throws, .opened] c ∧
      c.sent.length = 2 ∧ ¬Law (protoCodec [] 0) Unclosed [.cancel, .throws, .opened] c := by
  refine ⟨_, .cons ⟨rfl, nofun⟩ (.cons ⟨rfl, nofun⟩ (.cons ⟨rfl, fun _ => rfl⟩ (.nil _))), rfl, ?_⟩
  intro law
  have handed := law.sent
  cases handed

end

end SingleStream
end Client
end GrpcWebnext
