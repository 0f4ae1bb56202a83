import GrpcWebnext.Ws.Connection

/-!
# The terminal frame and the close

What a connection puts into its outbound channel: headers and messages, one terminal frame, and a
normal close behind it. `run_stream` keeps to that order. A `Reset` from the read loop has no close,
and a task that is aborted between its terminal frame and its close leaves the close out.
-/

namespace GrpcWebnext
namespace Ws
open SerdeJson Transition

namespace Discipline

theorem running_ne_closing {pc : Pc} (running : pc.running = true) : pc ≠ .closing := by
  rintro rfl
  cases running

theorem unsent_last {pc next : Pc} (last : next.TerminalLast) : (pc.unsent next).TerminalLast := by
  unfold Pc.unsent
  split
  · trivial
  · trivial
  · exact last

section

variable [SerdeJson]

/-! ### The order of the messages -/

/-- A `Header` or a `Message`. -/
def progress : TungMessage Value → Bool
  | .binary frame => frame.status?.isNone
  | .text frame => frame.status.isNone
  | .close _ _ => false

/-- A `Trailer` or a `Reset`. -/
def terminal : TungMessage Value → Bool
  | .binary frame => frame.status?.isSome
  | .text frame => frame.status.isSome
  | .close _ _ => false

def Quiet (out : List (TungMessage Value)) : Prop := ∀ msg ∈ out, progress msg = true

def Ended (out : List (TungMessage Value)) : Prop :=
  ∃ before last, out = before ++ [last] ∧ Quiet before ∧ terminal last = true

def Closed (out : List (TungMessage Value)) : Prop :=
  ∃ before, out = before ++ [closeNormal] ∧ Ended before

theorem progress_toTung (frame : Frame) (json : Bool) :
    progress (toTung frame json) = frame.status?.isNone := by
  obtain ⟨kind⟩ := frame
  cases json with
  | false => rfl
  | true => rcases kind with _ | ⟨_ | _ | _ | _ | _ | _⟩ <;> rfl

theorem terminal_toTung (frame : Frame) (json : Bool) :
    terminal (toTung frame json) = frame.status?.isSome := by
  obtain ⟨kind⟩ := frame
  cases json with
  | false => rfl
  | true => rcases kind with _ | ⟨_ | _ | _ | _ | _ | _⟩ <;> rfl

theorem Quiet.append {out : List (TungMessage Value)} {msg : TungMessage Value} (quiet : Quiet out)
    (more : progress msg = true) : Quiet (out ++ [msg]) :=
  List.forall_mem_append.mpr ⟨quiet, List.forall_mem_singleton.mpr more⟩

theorem progress_ne_terminal {msg : TungMessage Value} (isTerminal : terminal msg = true) :
    progress msg = false := by
  cases msg with
  | binary frame => simp_all [progress, terminal]
  | text frame => simp_all [progress, terminal]
  | close => rfl

theorem Ended.not_quiet {out : List (TungMessage Value)} (ended : Ended out) : ¬Quiet out := by
  obtain ⟨before, last, rfl, _, isTerminal⟩ := ended
  intro quiet
  have one := quiet last (by simp)
  rw [progress_ne_terminal isTerminal] at one
  cases one

theorem Closed.not_quiet {out : List (TungMessage Value)} (closed : Closed out) : ¬Quiet out := by
  obtain ⟨before, rfl, _⟩ := closed
  intro quiet
  exact Bool.false_ne_true (quiet closeNormal (by simp))

/-! ### What a task sends -/

theorem sending_cases {json : Bool} {pc next : Pc} {msg : TungMessage Value} (last : pc.TerminalLast)
    (waits : pc.sending json = some (msg, next)) :
    pc.running ∧ progress msg ∧ next.running ∧ next.TerminalLast ∨
      pc.running ∧ terminal msg ∧ next = .closing ∨
        pc = .closing ∧ msg = closeNormal ∧ next = .done := by
  unfold Pc.sending at waits
  split at waits
  case h_1 reset =>
    cases waits
    exact .inr (.inl ⟨rfl, by rw [terminal_toTung]; exact last, rfl⟩)
  case h_2 frame out respHeaders pump =>
    cases waits
    obtain ⟨first, rest⟩ := List.forall_mem_cons.mp last
    exact .inl ⟨rfl, by rw [progress_toTung, first]; rfl, rfl, rest⟩
  case h_3 frame out _ =>
    cases waits
    obtain ⟨messages, end_⟩ := last
    obtain ⟨first, rest⟩ := List.forall_mem_cons.mp messages
    exact .inl ⟨rfl, by rw [progress_toTung, first]; rfl, rfl, rest, end_⟩
  case h_4 _ =>
    cases waits
    exact .inr (.inl ⟨rfl, by rw [terminal_toTung]; exact last.2, rfl⟩)
  case h_5 =>
    cases waits
    exact .inr (.inl ⟨rfl, by rw [terminal_toTung]; rfl, rfl⟩)
  case h_6 =>
    cases waits
    exact .inr (.inr ⟨rfl, rfl, rfl⟩)
  case h_7 => cases waits

/-- How far the channel is, by the newest task. -/
def Stage (out : List (TungMessage Value)) (newest : Option Pc) : Prop :=
  Quiet out ∧ newest ≠ some .closing ∨ Ended out ∧ newest = some .closing ∨ Closed out ∧ newest = some .done

theorem Stage.newest {out : List (TungMessage Value)} {newest : Option Pc} (stage : Stage out newest)
    (quiet : Quiet out) : newest ≠ some .closing := by
  obtain ⟨_, newest⟩ | ⟨ended, _⟩ | ⟨closed, _⟩ := stage
  · exact newest
  · exact absurd quiet ended.not_quiet
  · exact absurd quiet closed.not_quiet

theorem Stage.running {out : List (TungMessage Value)} {pc : Pc} (stage : Stage out (some pc))
    (running : pc.running = true) : Quiet out := by
  obtain ⟨quiet, _⟩ | ⟨_, ⟨⟩⟩ | ⟨_, ⟨⟩⟩ := stage
  · exact quiet
  · cases running
  · cases running

variable [ProstReflect]

/-- No terminal frame is out; or it is, with the close behind it or as the next message of a task. -/
def Disciplined (s : Conn) : Prop :=
  Quiet s.outbound ∨ Closed s.outbound ∨
    Ended s.outbound ∧ ∃ t ∈ s.tasks, t.pc.sending t.json = some (closeNormal, .done)

/-! ### Undisturbed steps -/

/-- While the channel is open, the read loop has no `Reset` to send, no stream is opened behind a
terminal frame, a task whose stream was replaced sends no terminal frame and nothing behind one, and
no task is lost between its terminal frame and its close. -/
def Calm [UriParser] (cfg : Config) (s : Conn) (l : Label) : Prop :=
  s.writer = true →
    match l with
    | .read msg => ¬s.Rejects cfg msg ∧ (s.Accepts cfg msg → Quiet s.outbound)
    | .task i .send =>
      i + 1 = s.tasks.length ∨
        Quiet s.outbound ∧ ∀ t ∈ s.tasks[i]?, ∀ sent ∈ t.pc.sending t.json, progress sent.1 = true
    | .task i .kill => s.pcs[i]? ≠ some .closing
    | .writerDied => .closing ∉ s.pcs
    | _ => True

/-! ### The invariant -/

structure Orderly (s : Conn) : Prop where
  last : ∀ pc ∈ s.pcs, pc.TerminalLast
  reader : s.writer = true → s.reader.resets = false
  older : s.writer = true → ∀ i, i + 1 < s.pcs.length → s.pcs[i]? ≠ some .closing
  stage : s.writer = true → Stage s.outbound s.pcs.getLast?
  /-- a closed channel keeps what it has -/
  gone : s.writer = false → Quiet s.outbound ∨ Closed s.outbound

theorem Orderly.initial (cfg : Config) : Orderly (.initial cfg) where
  last := nofun
  reader _ := rfl
  older _ _ within := absurd within (Nat.not_lt_zero _)
  stage _ := .inl ⟨nofun, nofun⟩
  gone := nofun

theorem Orderly.disciplined {s : Conn} (orderly : Orderly s) : Disciplined s := by
  cases alive : s.writer with
  | false => exact (orderly.gone alive).elim .inl (.inr ∘ .inl)
  | true =>
    obtain ⟨quiet, _⟩ | ⟨ended, newest⟩ | ⟨closed, _⟩ := orderly.stage alive
    · exact .inl quiet
    · obtain ⟨t, member, closing⟩ := List.mem_map.mp (List.mem_of_getLast? newest)
      exact .inr (.inr ⟨ended, t, member, by rw [closing]; rfl⟩)
    · exact .inr (.inl closed)

theorem Orderly.still {s t : Conn} {sent : List (TungMessage Value)} (orderly : Orderly s)
    (still : s.Still sent t) (silent : s.writer = true → sent = [] ∧ t.reader.resets = false)
    (lost : s.writer = false → sent = []) :
    Orderly t where
  last := by
    rw [still.pcs]
    exact orderly.last
  reader alive := (silent (still.writer ▸ alive)).2
  older alive := by
    rw [still.pcs]
    exact orderly.older (still.writer ▸ alive)
  stage alive := by
    have alive := still.writer ▸ alive
    rw [still.pcs, still.outbound, (silent alive).1, List.append_nil]
    exact orderly.stage alive
  gone dead := by
    have dead := still.writer ▸ dead
    rw [still.outbound, lost dead, List.append_nil]
    exact orderly.gone dead

theorem Orderly.opens {cfg : Config} {s t : Conn} (orderly : Orderly s) (opens : s.Opens cfg t)
    (ready : t.reader.resets = false) (quiet : s.writer = true → Quiet s.outbound) : Orderly t where
  last := by
    rw [opens.pcs]
    exact List.forall_mem_append.mpr ⟨orderly.last, List.forall_mem_singleton.mpr trivial⟩
  reader _ := ready
  older alive i within := by
    have alive := opens.writer ▸ alive
    rw [opens.pcs, List.length_append, List.length_singleton] at within
    rw [opens.pcs, List.getElem?_append_left (by omega)]
    rcases Nat.lt_or_ge (i + 1) s.pcs.length with before | last
    · exact orderly.older alive i before
    · have newest : s.pcs[i]? = s.pcs.getLast? := by
        rw [List.getLast?_eq_getElem?]
        congr 1
        omega
      rw [newest]
      exact (orderly.stage alive).newest (quiet alive)
  stage alive := by
    rw [opens.outbound, opens.pcs, List.getLast?_concat]
    exact .inl ⟨quiet (opens.writer ▸ alive), nofun⟩
  gone dead := by
    rw [opens.outbound]
    exact orderly.gone (opens.writer ▸ dead)

/-! ### A task -/

theorem Orderly.moves {s t : Conn} {i : Nat} {pc : Pc} {call : Option Dispatch}
    {sent : List (TungMessage Value)}
    (orderly : Orderly s) (within : i < s.pcs.length) (moves : s.Moves i pc call sent t)
    (last : pc.TerminalLast) (lost : s.writer = false → sent = [])
    (older : s.writer = true → i + 1 < s.pcs.length → pc ≠ .closing ∧ Stage (s.outbound ++ sent) s.pcs.getLast?)
    (newest : s.writer = true → i + 1 = s.pcs.length → Stage (s.outbound ++ sent) (some pc)) :
    Orderly t where
  last := by
    rw [moves.pcs]
    intro pc' member
    obtain before | rfl := List.mem_or_eq_of_mem_set member
    · exact orderly.last pc' before
    · exact last
  reader alive := by
    rw [moves.reader]
    exact orderly.reader (moves.writer ▸ alive)
  older alive j before := by
    have alive := moves.writer ▸ alive
    rw [moves.pcs, List.length_set] at before
    rw [moves.pcs]
    by_cases here : i = j
    · subst here
      rw [List.getElem?_set_self within]
      exact fun closing => (older alive before).1 (Option.some.inj closing)
    · rw [List.getElem?_set_ne here]
      exact orderly.older alive j before
  stage alive := by
    have alive := moves.writer ▸ alive
    rw [moves.pcs, moves.outbound, List.getLast?_eq_getElem?, List.length_set]
    rcases Nat.lt_or_ge (i + 1) s.pcs.length with before | behind
    · rw [List.getElem?_set_ne (by omega), ← List.getLast?_eq_getElem?]
      exact (older alive before).2
    · have position : s.pcs.length - 1 = i := by omega
      rw [position, List.getElem?_set_self within]
      exact newest alive (by omega)
  gone dead := by
    have dead := moves.writer ▸ dead
    rw [moves.outbound, lost dead, List.append_nil]
    exact orderly.gone dead

theorem newest_eq {s : Conn} {i : Nat} {task : Task} (found : s.tasks[i]? = some task)
    (newest : i + 1 = s.pcs.length) : s.pcs.getLast? = some task.pc := by
  rw [List.getLast?_eq_getElem?, ← newest]
  simp [Conn.pcs, found]

theorem Orderly.send {s t : Conn} {i : Nat} {task : Task} {next : Pc} {msg : TungMessage Value}
    (orderly : Orderly s) (found : s.tasks[i]? = some task)
    (waits : task.pc.sending task.json = some (msg, next))
    (moves : s.Moves i (if s.writer then next else task.pc.unsent next) none (s.sent msg) t)
    (calm : s.writer = true → i + 1 = s.tasks.length ∨
      Quiet s.outbound ∧ ∀ t ∈ s.tasks[i]?, ∀ sent ∈ t.pc.sending t.json, progress sent.1 = true) :
    Orderly t := by
  have here : s.pcs[i]? = some task.pc := by simp [Conn.pcs, found]
  have within : i < s.pcs.length := (List.getElem?_eq_some_iff.mp here).1
  have cases_ := sending_cases (orderly.last _ (List.mem_of_getElem? here)) waits
  have last : next.TerminalLast := by
    obtain ⟨_, _, _, last⟩ | ⟨_, _, rfl⟩ | ⟨_, _, rfl⟩ := cases_
    · exact last
    · trivial
    · trivial
  cases alive : s.writer with
  | false =>
    simp only [alive, Conn.sent, Bool.false_eq_true, ↓reduceIte] at moves
    exact orderly.moves within moves (unsent_last last) (fun _ => rfl) (by simp [alive]) (by simp [alive])
  | true =>
    simp only [alive, Conn.sent, ↓reduceIte] at moves
    have stage := orderly.stage alive
    refine orderly.moves within moves last (by simp [alive]) (fun _ before => ?_) (fun _ newest => ?_)
    · -- a task whose stream was replaced
      obtain newest | ⟨quiet, progresses⟩ := calm alive
      · simp [Conn.pcs, ← newest] at before
      · have more := progresses task found _ waits
        obtain ⟨_, _, running, _⟩ | ⟨_, isTerminal, _⟩ | ⟨closing, _, _⟩ := cases_
        · exact ⟨running_ne_closing running, .inl ⟨quiet.append more, stage.newest quiet⟩⟩
        · simp [progress_ne_terminal isTerminal] at more
        · exact absurd (closing ▸ here) (orderly.older alive i before)
    · rw [newest_eq found newest] at stage
      obtain ⟨running, more, goes, _⟩ | ⟨running, isTerminal, rfl⟩ | ⟨closing, rfl, rfl⟩ := cases_
      · exact .inl ⟨(stage.running running).append more, fun closing => running_ne_closing goes (Option.some.inj closing)⟩
      · exact .inr (.inl ⟨⟨_, _, rfl, stage.running running, isTerminal⟩, rfl⟩)
      · rw [closing] at stage
        obtain ⟨_, moved⟩ | ⟨ended, _⟩ | ⟨_, ⟨⟩⟩ := stage
        · exact absurd rfl moved
        · exact .inr (.inr ⟨⟨_, rfl, ended⟩, rfl⟩)

theorem Orderly.silent {s t : Conn} {i : Nat} {task : Task} {pc : Pc} {call : Option Dispatch}
    (orderly : Orderly s)
    (found : s.tasks[i]? = some task) (moves : s.Moves i pc call [] t) (last : pc.TerminalLast)
    (older : s.writer = true → task.pc ≠ .closing → pc ≠ .closing)
    (newest : s.writer = true → Stage s.outbound (some task.pc) → Stage s.outbound (some pc)) :
    Orderly t := by
  have here : s.pcs[i]? = some task.pc := by simp [Conn.pcs, found]
  refine orderly.moves (List.getElem?_eq_some_iff.mp here).1 moves last (fun _ => rfl) ?_ ?_
  · intro alive before
    rw [List.append_nil]
    exact ⟨older alive fun closing => orderly.older alive i before (closing ▸ here), orderly.stage alive⟩
  · intro alive behind
    rw [List.append_nil]
    exact newest alive (newest_eq found behind ▸ orderly.stage alive)

theorem Orderly.advance {cfg : Config} {s t : Conn} {i : Nat} {task task' : Task} {sender : Bool}
    {event : TaskEvent}
    {call : Option Dispatch} (orderly : Orderly s) (found : s.tasks[i]? = some task)
    (advanced : task.Advanced cfg sender event task' call)
    (moves : s.Moves i task'.pc call [] t)
    (calm : event = .kill → s.writer = true → s.pcs[i]? ≠ some .closing) : Orderly t := by
  have here : s.pcs[i]? = some task.pc := by simp [Conn.pcs, found]
  obtain ⟨_, ⟨same, _⟩ | ⟨killed, stopped, _⟩ | ⟨waits, calls, _⟩ | ⟨running, goes, _, last, _⟩⟩ :=
    advanced.cases
  · rw [same] at moves
    exact orderly.silent found moves (orderly.last _ (List.mem_of_getElem? here)) (fun _ => id) (fun _ => id)
  · rw [stopped] at moves
    apply orderly.silent found moves trivial (by simp)
    intro alive stage
    obtain ⟨quiet, _⟩ | ⟨_, closing⟩ | ⟨closed, _⟩ := stage
    · exact .inl ⟨quiet, by simp⟩
    · exact absurd (here.trans closing) (calm killed alive)
    · exact .inr (.inr ⟨closed, rfl⟩)
  · rw [calls] at moves
    apply orderly.silent found moves trivial (by simp)
    intro _ stage
    exact .inl ⟨stage.running (by rw [waits]; rfl), by simp⟩
  · apply orderly.silent found moves last (fun _ _ => running_ne_closing goes)
    intro _ stage
    exact .inl ⟨stage.running running, fun closing => running_ne_closing goes (Option.some.inj closing)⟩

/-! ### Runs -/

variable [UriParser]

theorem step_orderly (cfg : Config) (s : Conn) (l : Label) (t : Conn) (orderly : Orderly s)
    (taken : Guarded (Step cfg) (Calm cfg) s l t) : Orderly t := by
  obtain ⟨taken, calm⟩ := taken
  cases l with
  | read msg =>
    obtain ⟨still, silent⟩ | ⟨rejects, still⟩ | ⟨accepts, opens, ready⟩ := Conn.read_cases taken
    · exact orderly.still still (fun _ => ⟨rfl, silent⟩) (fun _ => rfl)
    · exact orderly.still still (fun alive => absurd rejects (calm alive).1) (fun _ => rfl)
    · exact orderly.opens opens ready fun alive => (calm alive).2 accepts
  | resume =>
    obtain ⟨sent, still, elsewhere, silent⟩ := Conn.resume_still taken
    exact orderly.still still (fun alive => ⟨silent (.inl (orderly.reader alive)), elsewhere⟩)
      (fun dead => silent (.inr dead))
  | leave =>
    obtain ⟨_, ⟨⟩⟩ := Option.ite_none_right_eq_some.mp taken
    exact orderly.still (s.dropStream_still.trans (.moved _ .ended)) (fun _ => ⟨rfl, rfl⟩) (fun _ => rfl)
  | task i event =>
    obtain ⟨task, found, ⟨msg, next, rfl, waits, moves⟩ | ⟨task', call, sender, advanced, moves⟩⟩ :=
      Conn.stepTask_cases taken
    · exact orderly.send found waits moves calm
    · apply orderly.advance found advanced moves
      rintro rfl
      exact calm
  | write =>
    obtain ⟨_, ⟨⟩⟩ := Option.ite_none_right_eq_some.mp taken
    exact ⟨orderly.last, orderly.reader, orderly.older, orderly.stage, orderly.gone⟩
  | writerDied =>
    cases taken
    refine ⟨orderly.last, nofun, nofun, nofun, fun _ => ?_⟩
    cases alive : s.writer with
    | false => exact orderly.gone alive
    | true =>
      obtain ⟨quiet, _⟩ | ⟨_, newest⟩ | ⟨closed, _⟩ := orderly.stage alive
      · exact .inl quiet
      · exact absurd (List.mem_of_getLast? newest) (calm alive)
      · exact .inr closed

/-- In a run of undisturbed steps, the channel is in order in every state. -/
theorem terminal_discipline (cfg : Config) {ls : List Label} {t : Conn}
    (run : Transition.Run (Guarded (Step cfg) (Calm cfg)) (.initial cfg) ls t) : Disciplined t :=
  (run.invariant (step_orderly cfg) (Orderly.initial cfg)).disciplined

end

attribute [local instance] flagSchema flagTexts slashUris

theorem terminal_discipline_answered : ∃ t : Conn, t.outbound.length = 3 ∧ Disciplined t := by
  refine ⟨_, ?_, @terminal_discipline _ _ _ (.upgrade 4 .none none (some false) "/flag.Flags/Get")
    [.read (.binary (some subscribeFrame)), .task 0 .begin, .task 0 (.answer (.ok [])), .task 0 .send,
      .task 0 (.body .eof), .task 0 .send, .task 0 .send] _
    (.cons ⟨rfl, fun _ => ⟨?_, fun _ => nofun⟩⟩ (.cons ⟨rfl, fun _ => trivial⟩ (.cons ⟨rfl, fun _ => trivial⟩
      (.cons ⟨rfl, fun _ => .inl rfl⟩ (.cons ⟨rfl, fun _ => trivial⟩ (.cons ⟨rfl, fun _ => .inl rfl⟩
        (.cons ⟨rfl, fun _ => .inl rfl⟩ (.nil _))))))))⟩
  · rfl
  · intro rejects
    obtain ⟨frame, json, ⟨⟩, rejected⟩ := rejects
    cases rejected

/-- An oversized message is answered with a `Reset`, and the aborted task sends no close. -/
theorem oversized_message_never_closes :
    ∃ t : Conn,
      Run (.upgrade 4 .none none (some false) "/flag.Flags/Get")
        [.read (.binary (some subscribeFrame)), .task 0 .begin,
          .read (.binary (some ⟨some (.message ⟨[1, 2, 3, 4, 5]⟩)⟩)), .resume, .resume, .task 0 .kill] t ∧
      t.outbound = [.binary sizeReset] ∧ ¬Disciplined t := by
  refine ⟨_, .cons rfl (.cons rfl (.cons rfl (.cons rfl (.cons rfl (.cons rfl (.nil _)))))), rfl, ?_⟩
  intro disciplined
  obtain quiet | ⟨before, closed, _⟩ | ⟨_, task, member, waits⟩ := disciplined
  · exact Bool.false_ne_true (quiet _ (List.mem_singleton_self _))
  · have last := congrArg List.getLast? closed
    rw [List.getLast?_concat] at last
    cases last
  · cases List.mem_singleton.mp member
    cases waits

end Discipline
end Ws
end GrpcWebnext
