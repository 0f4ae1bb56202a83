import GrpcWebnext.Ws.RequestChannel

/-!
# The end of the request body

The backend sees the end of a request body once the last sender of the request channel is gone. A
`HalfClose` takes the sender from the stream, but so does everything that drops the stream: a
`Reset`, an oversized message, the end of the connection. The abort that goes with it stops the
task when it next yields, and the backend may hold the body outside the task by then.
-/

namespace GrpcWebnext
namespace Ws
open SerdeJson Transition

namespace CleanEnd

section

variable [ProstReflect] [SerdeJson]

/-! ### Half-closed streams -/

theorem not_halfCloses_of_drops {cfg : Config} {s : Conn} {l : Label} (drops : Drops cfg s l) (i : Nat) :
    ¬HalfCloses cfg i s l := by
  rintro ⟨msg, json, st, rfl, decoded, _⟩
  obtain rfl | ⟨reset, json', other⟩ := drops
  · cases decoded
  · cases decoded.symm.trans other

theorem not_halfCloses_task {cfg : Config} {s : Conn} {i j : Nat} {event : TaskEvent} :
    ¬HalfCloses cfg i s (.task j event) := by
  rintro ⟨_, _, _, ⟨⟩, _⟩

variable [UriParser]

/-- A `HalfClose` was received on the stream of task `i`. -/
def HalfClosed (cfg : Config) (ls : List Label) (i : Nat) : Prop :=
  Met (Step cfg) (.initial cfg) (HalfCloses cfg i) ls

/-- A request body ends cleanly only behind a `HalfClose` of its stream. -/
def CleanEnds (cfg : Config) (ls : List Label) (s : Conn) : Prop :=
  ∀ i task, s.tasks[i]? = some task → task.bodyEnded = true → HalfClosed cfg ls i

/-- No step drops a stream whose sender is held while the backend has the request body, and no task
that was aborted hands one to the backend. -/
def Calm (cfg : Config) (ls : List Label) (s : Conn) (l : Label) : Prop :=
  (Drops cfg s l → ∀ i task, s.stream = some ⟨i, true⟩ → s.tasks[i]? = some task → task.called = true →
    task.receiver = false) ∧
  ∀ i event task, l = .task i event → s.tasks[i]? = some task → event.Dispatches cfg task →
    task.aborted = true → task.receiver = true → HalfClosed cfg ls i

/-- The backend reads request bodies, up to their ends. -/
def ReadsBody : Label → Prop
  | .task _ .deliver => True
  | .task _ .endBody => True
  | _ => False

theorem HalfClosed.snoc {cfg : Config} {ls : List Label} {s : Conn} (run : Run cfg ls s) (l : Label) (i : Nat) :
    HalfClosed cfg (ls ++ [l]) i ↔ HalfClosed cfg ls i ∨ HalfCloses cfg i s l :=
  met_append_singleton step_functional run

theorem HalfClosed.later {cfg : Config} {ls : List Label} {i : Nat} (closed : HalfClosed cfg ls i) (l : Label) :
    HalfClosed cfg (ls ++ [l]) i :=
  closed.mono (List.prefix_append ls [l])

theorem halfCloses_stream {cfg : Config} {s t : Conn} {l : Label} {i : Nat} (sound : s.Sound)
    (closes : HalfCloses cfg i s l) (taken : Step cfg s l t) : t.stream = some ⟨i, false⟩ := by
  obtain ⟨msg, json, st, rfl, decoded, held, rfl⟩ := closes
  obtain rfl := sound.read_frame held taken decoded
  rfl

theorem HalfClosed.released {cfg : Config} {ls : List Label} {s : Conn} (run : Run cfg ls s) {i : Nat}
    (closed : HalfClosed cfg ls i) : i < s.tasks.length ∧ s.stream ≠ some ⟨i, true⟩ := by
  revert i
  apply run.history (Q := fun _ _ _ => True) (fun _ _ _ _ _ => trivial)
    (P := fun ls s => ∀ {i}, HalfClosed cfg ls i → i < s.tasks.length ∧ s.stream ≠ some ⟨i, true⟩)
  · intro pre u l v before ih _ taken i closed
    have sound := Run.sound before
    rcases (HalfClosed.snoc before l i).mp closed with earlier | here
    · obtain ⟨within, released⟩ := ih earlier
      cases sound.step_turn taken with
      | quiet tasks stream => rw [tasks, stream]; exact ⟨within, released⟩
      | opened idle decoded opens =>
        obtain ⟨_, _, same, _⟩ := u.decode_eq cfg _
        subst opens
        rw [same, Conn.openStream_tasks]
        refine ⟨by simp; omega, ?_⟩
        intro held
        obtain ⟨rfl, _⟩ := StreamState.mk.inj (Option.some.inj held)
        exact Nat.lt_irrefl _ within
      | fed _ _ _ _ tasks stream => rw [tasks, stream, List.length_set]; exact ⟨within, released⟩
      | released held _ tasks stream => rw [tasks, stream]; exact ⟨within, by simp⟩
      | dropped _ tasks stream => rw [tasks, stream, Conn.dropStream_length]; exact ⟨within, nofun⟩
      | advanced _ _ tasks stream => rw [tasks, stream, List.length_set]; exact ⟨within, released⟩
    · have stream := halfCloses_stream sound here taken
      obtain ⟨_, task, found, _⟩ := (sound.step taken).held _ stream
      exact ⟨(List.getElem?_eq_some_iff.mp found).1, by rw [stream]; simp⟩
  · rintro i ⟨_, _, _, within, _⟩
    simp at within

/-! ### Calm runs -/

/-- The body of task `i` ended behind a `HalfClose`, and what a backend may still read of it has its
sender or was half-closed. A task that was stopped before its call keeps its body for itself. -/
def Held (cfg : Config) (ls : List Label) (stream : Option StreamState) (i : Nat) (task : Task) : Prop :=
  (task.bodyEnded = true → HalfClosed cfg ls i) ∧
    (task.receiver = true → task.called = true ∨ task.aborted = false →
      stream = some ⟨i, true⟩ ∨ HalfClosed cfg ls i)

def Kept (cfg : Config) (ls : List Label) (s : Conn) : Prop :=
  ∀ i task, s.tasks[i]? = some task → Held cfg ls s.stream i task

theorem Held.later {cfg : Config} {ls : List Label} {stream : Option StreamState} {i : Nat} {task : Task}
    (held : Held cfg ls stream i task) (l : Label) : Held cfg (ls ++ [l]) stream i task :=
  ⟨fun past => (held.1 past).later l,
    fun receives live => (held.2 receives live).imp_right (fun closed => closed.later l)⟩

theorem Held.apart {cfg : Config} {ls : List Label} {stream : Option StreamState} {i : Nat} {task : Task}
    (held : Held cfg ls stream i task) (other : stream ≠ some ⟨i, true⟩) (stream' : Option StreamState) :
    Held cfg ls stream' i task :=
  ⟨held.1, fun receives live => (held.2 receives live).elim (fun here => absurd here other) .inr⟩

theorem Held.stopped {cfg : Config} {ls : List Label} {stream : Option StreamState} {i : Nat} {task : Task}
    (held : Held cfg ls stream i task) : Held cfg ls stream i { task with aborted := true } :=
  ⟨held.1, fun receives live => held.2 receives (.inl (live.resolve_right (by simp)))⟩

theorem Held.advance {cfg : Config} {ls : List Label} {s : Conn} {i : Nat} {event : TaskEvent} {task task' : Task}
    (held : Held cfg ls s.stream i task) (found : s.tasks[i]? = some task)
    (advances : task.Advances cfg (s.sender i) event task') (calm : Calm cfg ls s (.task i event)) :
    Held cfg ls s.stream i task' := by
  constructor
  · intro past
    rcases advances.body with ⟨_, _, ended⟩ | ⟨_, _, _, _, ended⟩ | ⟨receives, called, _, gone, _⟩
    · exact held.1 (ended.symm.trans past)
    · exact held.1 (ended.symm.trans past)
    · rcases held.2 receives (.inl called) with here | closed
      · simp [Conn.sender, here] at gone
      · exact closed
  · intro receives live
    have before := advances.receiver receives
    rw [advances.aborted] at live
    by_cases dispatches : event.Dispatches cfg task
    · cases stopped : task.aborted with
      | false => exact held.2 before (.inr stopped)
      | true => exact .inr (calm.2 i event task rfl found dispatches stopped before)
    · rw [advances.called dispatches] at live
      exact held.2 before live

theorem Held.drop {cfg : Config} {ls : List Label} {stream : Option StreamState} {i : Nat} {task : Task}
    (held : Held cfg ls stream i task)
    (unread : stream = some ⟨i, true⟩ → task.called = true → task.receiver = false) :
    Held cfg ls none i
      (if stream.any fun st => st.task = i then { task with aborted := true } else task) := by
  by_cases own : stream = some ⟨i, true⟩
  · refine ⟨by simpa [own] using held.1, fun receives live => ?_⟩
    simp only [own, Option.any_some, decide_true, ↓reduceIte] at receives live
    have called := live.resolve_right (by simp)
    exact absurd receives (by simp [unread own called])
  · split
    · exact held.stopped.apart own none
    · exact held.apart own none

theorem Kept.openStream {cfg : Config} (body : ∀ ann ∈ cfg.params.ann, ann.hasBody = true) {ls : List Label}
    {s : Conn} (kept : ∀ i task, s.tasks[i]? = some task → ∀ stream, Held cfg ls stream i task)
    (sub : Subscribe) (json : Bool) : Kept cfg ls (s.openStream cfg sub json) := by
  intro i task found
  rw [Conn.openStream_tasks] at found
  rcases Nat.lt_or_ge i s.tasks.length with older | fresh
  · rw [List.getElem?_append_left older] at found
    exact kept i task found _
  · obtain rfl : i = s.tasks.length := by
      have := (List.getElem?_eq_some_iff.mp found).1
      simp at this
      omega
    rw [List.getElem?_concat_length] at found
    obtain rfl := Option.some.inj found
    refine ⟨nofun, fun _ _ => .inl ?_⟩
    cases ann : cfg.params.ann with
    | none => simp [Conn.openStream, ann]
    | some binding => simp [Conn.openStream, ann, body binding ann]

theorem Kept.step {cfg : Config} (body : ∀ ann ∈ cfg.params.ann, ann.hasBody = true) {ls : List Label}
    {s t : Conn} {l : Label} (run : Run cfg ls s) (kept : Kept cfg ls s) (calm : Calm cfg ls s l)
    (taken : Step cfg s l t) : Kept cfg (ls ++ [l]) t := by
  intro i task found
  cases (Run.sound run).step_turn taken with
  | quiet tasks stream =>
    rw [tasks] at found
    rw [stream]
    exact (kept i task found).later l
  | opened idle decoded opens =>
    rename_i msg sub json
    obtain ⟨_, _, same, _⟩ := s.decode_eq cfg msg
    subst opens
    rw [same] at found ⊢
    exact Kept.openStream body (fun i task found stream => ((kept i task found).later _).apart (by simp [idle]) stream)
      sub json i task found
  | fed waits held here receives tasks stream =>
    rename_i st before payload
    rw [tasks] at found
    rw [stream]
    rcases found_set found with ⟨rfl, rfl⟩ | still
    · exact (kept _ before here).later _
    · exact (kept i task still).later _
  | released held closes tasks stream =>
    rename_i st
    rw [tasks] at found
    by_cases same : st.task = i
    · subst same
      have closed : HalfClosed cfg (ls ++ [l]) st.task := (HalfClosed.snoc run l st.task).mpr (.inr closes)
      exact ⟨fun _ => closed, fun _ _ => .inr closed⟩
    · apply ((kept i task found).later l).apart
      rw [held]
      intro here
      exact same (by rw [Option.some.inj here])
  | dropped drops tasks stream =>
    rw [tasks, Conn.dropStream_getElem] at found
    obtain ⟨before, here, rfl⟩ := Option.map_eq_some_iff.mp found
    rw [stream]
    exact ((kept i before here).later l).drop fun own => calm.1 drops i before own here
  | advanced here advances tasks stream =>
    rename_i j event before after
    rw [tasks] at found
    rw [stream]
    rcases found_set found with ⟨rfl, rfl⟩ | still
    · exact ((kept _ before here).advance here advances calm).later _
    · exact (kept i task still).later _

theorem calm_of_readsBody {cfg : Config} {ls : List Label} {s : Conn} {l : Label} (reads : ReadsBody l) :
    Calm cfg ls s l := by
  constructor
  · intro drops
    cases l <;> first | exact False.elim reads | exact False.elim drops
  · rintro i event task rfl _ dispatches
    cases event <;> first | exact False.elim reads | exact False.elim dispatches

theorem Kept.initial (cfg : Config) : Kept cfg [] (.initial cfg) := by
  intro i task found
  cases found

theorem clean_of_calm {cfg : Config} (body : ∀ ann ∈ cfg.params.ann, ann.hasBody = true) {ls reads : List Label}
    {t : Conn} (calm : ∀ pre l u, pre ++ [l] <+: ls → Run cfg pre u → Calm cfg pre u l)
    (more : ∀ l ∈ reads, ReadsBody l) (run : Run cfg (ls ++ reads) t) : CleanEnds cfg (ls ++ reads) t := by
  obtain ⟨u, before, after⟩ := run.split
  have kept : Kept cfg ls u :=
    before.history calm (fun _ _ _ _ run kept calm taken => kept.step body run calm taken) (.initial cfg)
  suffices final : Kept cfg (ls ++ reads) t from fun i task found => (final i task found).1
  refine after.history (P := fun reads v => Kept cfg (ls ++ reads) v) (Q := fun _ _ l => ReadsBody l) ?_ ?_ ?_
  · intro pre l _ within _
    exact more l (within.subset (by simp))
  · intro pre v l w run kept reads taken
    rw [← List.append_assoc]
    exact kept.step body (before.append run) (calm_of_readsBody reads) taken
  · rwa [List.append_nil]

/-! ### What the backend can go on to read -/

theorem body_drains (cfg : Config) {s : Conn} {i : Nat} {task : Task} (found : s.tasks[i]? = some task)
    (called : task.called = true) (receives : task.receiver = true) (released : s.sender i = false) :
    ∃ reads t task', (∀ l ∈ reads, ReadsBody l) ∧ Transition.Run (Step cfg) s reads t ∧
      t.tasks[i]? = some task' ∧ task'.bodyEnded = true := by
  have within := (List.getElem?_eq_some_iff.mp found).1
  unfold Conn.sender at released
  induction queue : task.requests generalizing s task with
  | nil =>
    let t : Conn := { s with tasks := s.tasks.set i { task with bodyEnded := true }, calls := s.calls ++ [] }
    have taken : Step cfg s (.task i .endBody) t := by
      simp [Step, Conn.step, Conn.stepTask, found, Task.advance, called, receives, queue, released, t]
    exact ⟨[.task i .endBody], t, _, by simp [ReadsBody], .single taken, List.getElem?_set_self within, rfl⟩
  | cons payload rest ih =>
    let task' : Task :=
      { task with
        requests := rest
        delivered := task.delivered ++ [requestFrame cfg.params.ann task.transcoder task.methodPath payload] }
    let t : Conn := { s with tasks := s.tasks.set i task', calls := s.calls ++ [] }
    have taken : Step cfg s (.task i .deliver) t := by
      simp [Step, Conn.step, Conn.stepTask, found, Task.advance, called, receives, queue, t, task']
    have there : t.tasks[i]? = some task' := List.getElem?_set_self within
    obtain ⟨reads, u, task'', more, run, ended⟩ :=
      ih there called receives released (by simpa [t] using within) rfl
    refine ⟨.task i .deliver :: reads, u, task'', ?_, .cons taken run, ended⟩
    rintro l (_ | ⟨_, member⟩)
    · trivial
    · exact more l member

theorem HalfClosed.of_reads {cfg : Config} {ls reads : List Label} {s t : Conn} {i : Nat} (run : Run cfg ls s)
    (more : Transition.Run (Step cfg) s reads t) (reading : ∀ l ∈ reads, ReadsBody l)
    (closed : HalfClosed cfg (ls ++ reads) i) : HalfClosed cfg ls i := by
  revert closed
  refine more.history (P := fun reads _ => HalfClosed cfg (ls ++ reads) i → HalfClosed cfg ls i)
    (Q := fun _ _ l => ReadsBody l) ?_ ?_ ?_
  · intro pre l _ within _
    exact reading l (within.subset (by simp))
  · intro pre v l w before ih reads _ closed
    rw [← List.append_assoc] at closed
    rcases (HalfClosed.snoc (run.append before) l i).mp closed with earlier | here
    · exact ih earlier
    · cases l with
      | task j event => exact absurd here not_halfCloses_task
      | _ => cases reads
  · intro closed
    rwa [List.append_nil] at closed

theorem halfClosed_of_clean {cfg : Config} {ls : List Label} {s : Conn} {i : Nat} {task : Task} (run : Run cfg ls s)
    (clean : ∀ reads t, (∀ l ∈ reads, ReadsBody l) → Run cfg (ls ++ reads) t → CleanEnds cfg (ls ++ reads) t)
    (found : s.tasks[i]? = some task) (called : task.called = true) (receives : task.receiver = true)
    (released : s.sender i = false) : HalfClosed cfg ls i := by
  obtain ⟨reads, t, task', reading, more, there, ended⟩ := body_drains cfg found called receives released
  have closed := clean reads t reading (run.append more) i task' there ended
  exact closed.of_reads run more reading

/-- Along a run on a route that takes a body, every request body ends cleanly only behind a
`HalfClose`, whatever the backend reads next, exactly if every step is calm. -/
theorem clean_end_iff (cfg : Config) (body : ∀ ann ∈ cfg.params.ann, ann.hasBody = true) {ls : List Label}
    {s : Conn} (run : Run cfg ls s) :
    (∀ pre reads t, pre <+: ls → (∀ l ∈ reads, ReadsBody l) → Run cfg (pre ++ reads) t →
        CleanEnds cfg (pre ++ reads) t) ↔
      ∀ pre l u, pre ++ [l] <+: ls → Run cfg pre u → Calm cfg pre u l := by
  constructor
  · intro clean pre l u within before
    obtain ⟨post, rfl⟩ := within
    obtain ⟨v, through, _⟩ := Transition.Run.split run
    obtain ⟨u', before', last⟩ := through.split
    obtain rfl := before.unique step_functional before'
    cases last with | cons taken stop
    cases stop
    have sound := Run.sound before
    have closes : ∀ {i : Nat} {task : Task}, v.tasks[i]? = some task → task.called = true → task.receiver = true →
        v.sender i = false → HalfClosed cfg (pre ++ [l]) i :=
      halfClosed_of_clean through fun reads t => clean (pre ++ [l]) reads t (List.prefix_append _ post)
    constructor
    · intro drops i task held found called
      by_contra receives
      obtain ⟨tasks, gone⟩ := sound.drops held drops taken
      have there : v.tasks[i]? = some { task with aborted := true } := by
        rw [tasks, Conn.dropStream_getElem, found, held]
        simp
      have closed := closes there called (Bool.of_not_eq_false receives) (by simp [Conn.sender, gone])
      rcases (HalfClosed.snoc before l i).mp closed with earlier | here
      · exact (earlier.released before).2 held
      · exact not_halfCloses_of_drops drops i here
    · rintro i event task rfl found dispatches stopped receives
      obtain ⟨_, task', same, advances, tasks, stream, _⟩ := Conn.stepTask_advances taken
      obtain rfl := Option.some.inj (found.symm.trans same)
      obtain ⟨called, kept⟩ := advances.dispatched dispatches
      have there : v.tasks[i]? = some task' := by
        rw [tasks]
        exact List.getElem?_set_self (List.getElem?_eq_some_iff.mp found).1
      have released := (sound.step taken).sender_stopped there (advances.aborted.trans stopped)
      have closed := closes there called (kept.trans receives) released
      rcases (HalfClosed.snoc before _ i).mp closed with earlier | here
      · exact earlier
      · exact absurd here not_halfCloses_task
  · intro calm pre reads t within reading more
    exact clean_of_calm body (fun pre' l u shorter => calm pre' l u (shorter.trans within)) reading more

end

attribute [local instance] flagSchema flagTexts slashUris

def halfClosedRun : List Label :=
  [.read (.binary (some subscribeFrame)), .task 0 .begin, .read (.binary (some ⟨some .halfClose⟩)), .task 0 .endBody]

theorem clean_end_iff_half_closed : ∃ s : Conn, Run plainRoute halfClosedRun s ∧
    ((∀ pre reads t, pre <+: halfClosedRun → (∀ l ∈ reads, ReadsBody l) → Run plainRoute (pre ++ reads) t →
        CleanEnds plainRoute (pre ++ reads) t) ↔
      ∀ pre l u, pre ++ [l] <+: halfClosedRun → Run plainRoute pre u → Calm plainRoute pre u l) := by
  have run : Run plainRoute halfClosedRun _ := .cons rfl (.cons rfl (.cons rfl (.cons rfl (.nil _))))
  exact ⟨_, run, clean_end_iff plainRoute nofun run⟩

def resetRun : List Label :=
  [.read (.binary (some subscribeFrame)), .task 0 .begin, .read (.binary (some ⟨some (.reset ⟨1, ""⟩)⟩)),
    .task 0 .endBody]

/-- The client resets its stream and the backend reads on: it finds a clean end. -/
theorem reset_ends_cleanly : ∃ t : Conn, Run plainRoute resetRun t ∧ ¬CleanEnds plainRoute resetRun t := by
  have opens : Run plainRoute (resetRun.take 2) _ := .cons rfl (.cons rfl (.nil _))
  have resets : Run plainRoute (resetRun.take 3) _ := .cons rfl (.cons rfl (.cons rfl (.nil _)))
  refine ⟨_, .cons rfl (.cons rfl (.cons rfl (.cons rfl (.nil _)))), fun clean => ?_⟩
  have closed := clean 0 _ rfl rfl
  rcases (HalfClosed.snoc resets _ 0).mp closed with before | here
  · rcases (HalfClosed.snoc opens _ 0).mp before with earlier | here
    · exact (earlier.released opens).2 rfl
    · apply not_halfCloses_of_drops _ 0 here
      exact Or.inr ⟨⟨1, ""⟩, false, rfl⟩
  · exact not_halfCloses_task here

end CleanEnd
end Ws
end GrpcWebnext
