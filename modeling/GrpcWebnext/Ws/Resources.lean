import GrpcWebnext.Ws.RequestChannel

/-!
# What a connection holds on to

How much waits in the channels of a connection, which of its tasks still run, and what is left of them
once the read loop has ended.
-/

namespace GrpcWebnext
namespace Ws
open SerdeJson Transition

namespace Resources

section

variable [ProstReflect]

/-! ### Bounds -/

/-- The requests of a task fit their channel, and none is larger than the limit. -/
structure Small (maxMessageBytes : Nat) (task : Task) : Prop where
  count : task.requests.length ≤ requestCapacity
  each : ∀ payload ∈ task.requests, payload.length ≤ maxMessageBytes

theorem Small.advance {maxMessageBytes : Nat} {cfg : Config} {sender : Bool} {event : TaskEvent} {task task' : Task}
    (small : Small maxMessageBytes task) (advances : task.Advances cfg sender event task') :
    Small maxMessageBytes task' := by
  rcases advances.body with ⟨requests, _⟩ | ⟨payload, _, queue, _⟩ | ⟨_, _, _, _, rfl⟩
  · exact ⟨requests ▸ small.count, requests ▸ small.each⟩
  · have count := small.count
    rw [queue, List.length_cons] at count
    refine ⟨by omega, fun payload' member => small.each payload' ?_⟩
    rw [queue]
    exact List.mem_cons_of_mem _ member
  · exact ⟨small.count, small.each⟩

variable [SerdeJson]

structure Bounded (maxMessageBytes : Nat) (s : Conn) : Prop where
  backlog : s.outbound.length ≤ s.written + outboundCapacity
  requests : ∀ (i : Nat) (task : Task), s.tasks[i]? = some task → Small maxMessageBytes task
  reading : ∀ payload, s.reader = .feeding payload → payload.length ≤ maxMessageBytes

theorem Bounded.initial (maxMessageBytes : Nat) (cfg : Config) : Bounded maxMessageBytes (.initial cfg) where
  backlog := Nat.zero_le _
  requests _ _ found := by cases found
  reading := nofun

/-- The frames that a put leaves in the channel are within its capacity. -/
theorem put_backlog {s t : Conn} {msg : TungMessage Value} (taken : s.put msg = some t)
    (before : s.outbound.length ≤ s.written + outboundCapacity) :
    t.outbound.length ≤ t.written + outboundCapacity := by
  unfold Conn.put at taken
  split at taken
  · cases taken
    exact before
  · obtain ⟨room, ⟨⟩⟩ := Option.ite_none_right_eq_some.mp taken
    change (s.outbound ++ [msg]).length ≤ s.written + outboundCapacity
    rw [List.length_append, List.length_singleton]
    omega

theorem stepTask_backlog {cfg : Config} {s t : Conn} {i : Nat} {event : TaskEvent}
    (taken : s.stepTask cfg i event = some t) (before : s.outbound.length ≤ s.written + outboundCapacity) :
    t.outbound.length ≤ t.written + outboundCapacity := by
  unfold Conn.stepTask at taken
  split at taken
  · cases taken
  · split at taken
    · split at taken
      · cases taken
      · obtain ⟨s', put, rfl⟩ := Option.map_eq_some_iff.mp taken
        have kept := put_backlog put before
        exact kept
    · obtain ⟨_, _, rfl⟩ := Option.map_eq_some_iff.mp taken
      exact before

theorem Small.dropStream {maxMessageBytes : Nat} {s : Conn}
    (small : ∀ (i : Nat) (task : Task), s.tasks[i]? = some task → Small maxMessageBytes task) :
    ∀ (i : Nat) (task : Task), s.dropStream.tasks[i]? = some task → Small maxMessageBytes task := by
  intro i task found
  rw [Conn.dropStream_getElem] at found
  obtain ⟨before, here, rfl⟩ := Option.map_eq_some_iff.mp found
  obtain ⟨count, each⟩ := small i before here
  split <;> exact ⟨count, each⟩

theorem Bounded.resume {cfg : Config} {s t : Conn} (bounded : Bounded cfg.maxMessageBytes s)
    (taken : s.resume = some t) : Bounded cfg.maxMessageBytes t := by
  obtain ⟨backlog, requests, reading⟩ := id bounded
  cases Conn.resume_some taken with
  | discarded => exact ⟨backlog, requests, nofun⟩
  | @fed payload st task waits _ found _ room =>
    refine ⟨backlog, ?_, nofun⟩
    intro i other here
    obtain ⟨_, each⟩ := requests st.task task found
    rcases found_set here with ⟨rfl, rfl⟩ | still
    · refine ⟨?_, ?_⟩
      · rw [List.length_append, List.length_singleton]
        exact room
      · exact List.forall_mem_append.mpr ⟨each, List.forall_mem_singleton.mpr (reading payload waits)⟩
    · exact requests i other still
  | @reset reset json drop s' _ put =>
    have kept := put_backlog put backlog
    obtain rfl := Conn.put_eq put
    refine ⟨kept, requests, ?_⟩
    cases drop <;> exact nofun
  | dropped =>
    refine ⟨?_, Small.dropStream requests, nofun⟩
    unfold Conn.dropStream
    split <;> exact backlog

theorem Bounded.leave {maxMessageBytes : Nat} {s : Conn} (bounded : Bounded maxMessageBytes s) :
    Bounded maxMessageBytes s.leave := by
  refine ⟨?_, Small.dropStream bounded.requests, nofun⟩
  unfold Conn.leave Conn.dropStream
  split <;> exact bounded.backlog

variable [UriParser]

theorem Small.opened {cfg : Config} {s : Conn} {sub : Subscribe} {json : Bool}
    (accepted : s.rejection cfg ⟨some (.subscribe sub)⟩ = none) : Small cfg.maxMessageBytes (openTask cfg sub json) := by
  have fits : sub.initialPayload.length ≤ cfg.maxMessageBytes := by
    simp only [Conn.rejection] at accepted
    split at accepted
    · cases accepted
    · split at accepted
      · cases accepted
      · omega
  have first (payload : Bytes) (member : payload ∈ if sub.initialPayload.isEmpty then [] else [sub.initialPayload]) :
      payload.length ≤ cfg.maxMessageBytes := by
    split at member
    · cases member
    · rw [List.mem_singleton.mp member]
      exact fits
  have count : (if sub.initialPayload.isEmpty then [] else [sub.initialPayload]).length ≤ 1 := by
    split <;> simp
  unfold openTask
  refine ⟨?_, ?_⟩
  · dsimp only
    split
    · rw [List.length_append, List.length_singleton]
      exact Nat.le_trans (Nat.add_le_add_right count 1) (by decide)
    · exact Nat.le_trans count (by decide)
  · intro payload member
    dsimp only at member
    split at member
    · rcases List.mem_append.mp member with member | member
      · exact first payload member
      · rw [List.mem_singleton.mp member]
        exact Nat.zero_le _
    · exact first payload member

theorem Bounded.handleFrame {cfg : Config} {s : Conn} (bounded : Bounded cfg.maxMessageBytes s) (frame : Frame)
    (json : Bool) : Bounded cfg.maxMessageBytes (s.handleFrame cfg frame json) := by
  obtain ⟨backlog, requests, reading⟩ := id bounded
  unfold Conn.handleFrame
  split
  · exact ⟨backlog, requests, nofun⟩
  · rename_i accepted
    split
    · rename_i sub kind
      refine ⟨backlog, ?_, reading⟩
      intro i task found
      rw [Conn.openStream_tasks, List.getElem?_append] at found
      split at found
      · exact requests i task found
      · obtain ⟨last, rfl⟩ := List.getElem?_eq_some_iff.mp found
        rw [List.length_singleton] at last
        have whole : frame = ⟨some (.subscribe sub)⟩ := by rw [← kind]
        rw [List.getElem_singleton last]
        exact .opened (whole ▸ accepted)
    · rename_i msg kind
      split
      · refine ⟨backlog, requests, ?_⟩
        rintro payload ⟨⟩
        simp only [Conn.rejection, kind] at accepted
        split at accepted
        · cases accepted
        · omega
      · exact bounded
    · exact ⟨backlog, requests, reading⟩
    · refine ⟨?_, Small.dropStream requests, ?_⟩
      · unfold Conn.dropStream
        split <;> exact backlog
      · rw [s.dropStream_reader]
        exact reading
    · exact bounded

theorem Bounded.step {cfg : Config} {s t : Conn} {l : Label} (bounded : Bounded cfg.maxMessageBytes s)
    (taken : Step cfg s l t) : Bounded cfg.maxMessageBytes t := by
  cases l with
  | read msg =>
    obtain ⟨_, reads⟩ := Conn.read_some taken
    obtain ⟨codec, opened, eq, _⟩ := s.decode_eq cfg msg
    have decoded : Bounded cfg.maxMessageBytes (s.decode cfg msg).1 := by
      rw [eq]
      exact ⟨bounded.backlog, bounded.requests, bounded.reading⟩
    cases reads with
    | left => exact bounded.leave
    | skipped => exact decoded
    | handled => exact decoded.handleFrame _ _
  | resume => exact bounded.resume taken
  | leave =>
    obtain ⟨_, ⟨⟩⟩ := Option.ite_none_right_eq_some.mp taken
    exact bounded.leave
  | task i event =>
    obtain ⟨task, task', found, advances, tasks, _, reader, _⟩ := Conn.stepTask_advances taken
    refine ⟨stepTask_backlog taken bounded.backlog, ?_, reader ▸ bounded.reading⟩
    intro j other here
    rw [tasks] at here
    rcases found_set here with ⟨rfl, rfl⟩ | still
    · exact (bounded.requests _ task found).advance advances
    · exact bounded.requests j other still
  | write =>
    obtain ⟨_, ⟨⟩⟩ := Option.ite_none_right_eq_some.mp taken
    exact ⟨Nat.le_trans bounded.backlog (by dsimp only; omega), bounded.requests, bounded.reading⟩
  | writerDied =>
    cases taken
    exact ⟨bounded.backlog, bounded.requests, bounded.reading⟩

/-! ### Running tasks -/

/-- Only the task of the open stream was not told to stop. -/
def Owned (s : Conn) : Prop :=
  ∀ (i : Nat) (task : Task), s.tasks[i]? = some task → task.aborted = false → ∃ reqTx, s.stream = some ⟨i, reqTx⟩

theorem Owned.step {cfg : Config} {s t : Conn} {l : Label} (sound : s.Sound) (owned : Owned s)
    (taken : Step cfg s l t) : Owned t := by
  intro i task found running
  cases sound.step_turn taken with
  | quiet tasks stream =>
    rw [tasks] at found
    rw [stream]
    exact owned i task found running
  | opened idle decoded opens =>
    rename_i msg sub json
    obtain ⟨_, _, same, _⟩ := s.decode_eq cfg msg
    subst opens
    rw [same, Conn.openStream_tasks, List.getElem?_append] at found
    split at found
    · obtain ⟨_, held⟩ := owned i task found running
      cases idle.symm.trans held
    · obtain ⟨last, _⟩ := List.getElem?_eq_some_iff.mp found
      rw [List.length_singleton] at last
      obtain rfl : i = s.tasks.length := by dsimp only at *; omega
      rw [same]
      exact ⟨_, rfl⟩
  | fed waits held here receives tasks stream =>
    rw [tasks] at found
    rw [stream]
    rcases found_set found with ⟨rfl, rfl⟩ | still
    · exact owned _ _ here running
    · exact owned i task still running
  | released held _ tasks stream =>
    rw [tasks] at found
    obtain ⟨_, same⟩ := owned i task found running
    obtain rfl := Option.some.inj (held.symm.trans same)
    exact ⟨false, stream⟩
  | dropped _ tasks stream =>
    rw [tasks, Conn.dropStream_getElem] at found
    obtain ⟨before, here, rfl⟩ := Option.map_eq_some_iff.mp found
    split at running
    · cases running
    · rename_i other
      obtain ⟨_, held⟩ := owned i before here running
      simp [held] at other
  | advanced here advances tasks stream =>
    rw [tasks] at found
    rw [stream]
    rcases found_set found with ⟨rfl, rfl⟩ | still
    · exact owned _ _ here (advances.aborted ▸ running)
    · exact owned i task still running

theorem run_owned {cfg : Config} {ls : List Label} {s : Conn} (run : Run cfg ls s) : Owned s := by
  have both : s.Sound ∧ Owned s :=
    Transition.Run.invariant (P := fun s => s.Sound ∧ Owned s)
      (fun _ _ _ kept taken => ⟨kept.1.step taken, kept.2.step kept.1 taken⟩) run
      ⟨.initial cfg, fun _ _ found => by cases found⟩
  exact both.2

/-! ### Behind the end of the read loop -/

def kills (n : Nat) : List Label := (List.range n).map (Label.task · .kill)

def Stopped (s : Conn) : Prop := ∀ (i : Nat) (task : Task), s.tasks[i]? = some task → task.aborted = true

theorem kill_step (cfg : Config) {s : Conn} (stopped : Stopped s) {i : Nat} (within : i < s.tasks.length) :
    ∃ t, Step cfg s (.task i .kill) t ∧ Stopped t ∧ t.pcs = s.pcs.set i .done ∧ t.outbound = s.outbound ∧
      t.calls = s.calls := by
  have found : s.tasks[i]? = some s.tasks[i] := List.getElem?_eq_getElem within
  have aborted := stopped i _ found
  refine ⟨{ s with tasks := s.tasks.set i (s.tasks[i].moveTo .done), calls := s.calls ++ [] }, ?_, ?_, ?_, rfl,
    List.append_nil _⟩
  · simp [Step, Conn.step, Conn.stepTask, found, Task.advance, aborted]
  · intro j other here
    rcases found_set here with ⟨_, rfl⟩ | still
    · exact aborted
    · exact stopped j other still
  · exact List.map_set

/-- Every task that was told to stop can stop, and sends nothing more. -/
theorem kills_run (cfg : Config) {s : Conn} (stopped : Stopped s) :
    ∀ n, n ≤ s.tasks.length → ∃ t, Transition.Run (Step cfg) s (kills n) t ∧ Stopped t ∧
      t.pcs.length = s.pcs.length ∧ (∀ i, i < n → t.pcs[i]? = some .done) ∧ t.outbound = s.outbound ∧
      t.calls = s.calls := by
  intro n
  induction n with
  | zero => exact fun _ => ⟨s, .nil s, stopped, rfl, nofun, rfl, rfl⟩
  | succ n ih =>
    intro within
    obtain ⟨t, run, stopped', length, done, outbound, calls⟩ := ih (by omega)
    have tasks : t.tasks.length = s.tasks.length := by simpa [Conn.pcs] using length
    obtain ⟨u, taken, stopped'', pcs, outbound', calls'⟩ := kill_step cfg stopped' (i := n) (by omega)
    refine ⟨u, ?_, stopped'', ?_, ?_, outbound'.trans outbound, calls'.trans calls⟩
    · rw [kills, List.range_succ, List.map_append]
      exact run.append (.single taken)
    · rw [pcs, List.length_set, length]
    · intro i before
      rw [pcs]
      by_cases last : n = i
      · subst last
        exact List.getElem?_set_self (by simp only [Conn.pcs, List.length_map]; omega)
      · rw [List.getElem?_set_ne last]
        exact done i (by omega)

/-- A read loop that has ended reads nothing more and opens no stream. -/
theorem step_ended {cfg : Config} {s t : Conn} {l : Label} (ended : s.reader = .ended)
    (taken : Step cfg s l t) : t.reader = .ended ∧ t.tasks.length = s.tasks.length := by
  cases l with
  | read msg => cases ended.symm.trans (Conn.read_ready taken)
  | resume => simp [Step, Conn.step, Conn.resume, ended] at taken
  | leave => simp [Step, Conn.step, ended] at taken
  | task i event =>
    obtain ⟨_, _, _, _, tasks, _, reader, _⟩ := Conn.stepTask_advances taken
    exact ⟨reader.trans ended, by rw [tasks, List.length_set]⟩
  | write =>
    obtain ⟨_, ⟨⟩⟩ := Option.ite_none_right_eq_some.mp taken
    exact ⟨ended, rfl⟩
  | writerDied => cases taken; exact ⟨ended, rfl⟩

/-- In every state of every run what waits is bounded, and only the task of the open stream was not told to stop. -/
theorem resources (cfg : Config) {ls : List Label} {s : Conn} (run : Run cfg ls s) :
    Bounded cfg.maxMessageBytes s ∧ Owned s :=
  ⟨Transition.Run.invariant (P := Bounded cfg.maxMessageBytes) (fun _ _ _ bounded taken => bounded.step taken) run
    (.initial _ cfg), run_owned run⟩

/-- Once the read loop has ended no stream opens, and whatever else happened, all tasks can stop where they are,
without another message or call. -/
theorem ended_stops (cfg : Config) {ls more : List Label} {s t : Conn} (run : Run cfg ls s)
    (ended : s.reader = .ended) (rest : Transition.Run (Step cfg) s more t) :
    t.tasks.length = s.tasks.length ∧ ∃ u, Transition.Run (Step cfg) t (kills t.tasks.length) u ∧
      (∀ pc ∈ u.pcs, pc = .done) ∧ u.outbound = t.outbound ∧ u.calls = t.calls := by
  have kept : t.Sound ∧ t.reader = .ended ∧ t.tasks.length = s.tasks.length := by
    refine rest.invariant (P := fun t => t.Sound ∧ t.reader = .ended ∧ t.tasks.length = s.tasks.length) ?_
      ⟨Run.sound run, ended, rfl⟩
    rintro u l v ⟨sound, ended, length⟩ taken
    obtain ⟨ended', length'⟩ := step_ended ended taken
    exact ⟨sound.step taken, ended', length'.trans length⟩
  obtain ⟨sound, ended', length⟩ := kept
  have stopped : Stopped t := by
    intro i task found
    by_contra live
    obtain ⟨reqTx, held⟩ := run_owned (run.append rest) i task found (Bool.of_not_eq_true live)
    have idle := sound.fits
    rw [ended'] at idle
    cases idle.symm.trans held
  obtain ⟨u, killed, _, pcs, done, outbound, calls⟩ := kills_run cfg stopped t.tasks.length (Nat.le_refl _)
  refine ⟨length, u, killed, ?_, outbound, calls⟩
  intro pc member
  obtain ⟨i, within, rfl⟩ := List.getElem_of_mem member
  have here := done i (by rw [pcs] at within; simpa [Conn.pcs] using within)
  rw [List.getElem?_eq_getElem within] at here
  exact Option.some.inj here

end

attribute [local instance] flagSchema flagTexts slashUris

def messageOf (payload : Bytes) : Inbound SerdeJson.Value := .binary (some ⟨some (.message ⟨payload⟩)⟩)

/-- A call, with a message behind it, that the client leaves before its answer. -/
def leftRun : List Label :=
  [.read (.binary (some subscribeFrame)), .task 0 .begin, .read (messageOf [7]), .resume, .leave]

theorem resources_left : ∃ s : Conn, s.tasks.length = 1 ∧ s.reader = .ended ∧ Bounded 4 s ∧ Owned s :=
  have run : Run plainRoute leftRun _ := .cons rfl (.cons rfl (.cons rfl (.cons rfl (.cons rfl (.nil _)))))
  ⟨_, rfl, rfl, resources plainRoute run⟩

theorem ended_stops_left : ∃ s t : Conn, t.tasks.length = s.tasks.length ∧
    ∃ u, Transition.Run (Step plainRoute) t (kills t.tasks.length) u ∧
      (∀ pc ∈ u.pcs, pc = .done) ∧ u.outbound = t.outbound ∧ u.calls = t.calls := by
  have run : Run plainRoute leftRun _ := .cons rfl (.cons rfl (.cons rfl (.cons rfl (.cons rfl (.nil _)))))
  exact ⟨_, _, @ended_stops _ _ _ plainRoute leftRun [.task 0 (.answer (.ok [])), .task 0 .send] _ _ run rfl
    (.cons rfl (.cons rfl (.nil _)))⟩

end Resources
end Ws
end GrpcWebnext
