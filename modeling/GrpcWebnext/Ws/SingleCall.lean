import GrpcWebnext.Ws.Connection

/-!
# One call for each connection

A connection counts the calls that were dispatched and the tasks that have yet to dispatch theirs.
A text connection opens one stream, since `decode_text` passes one `Subscribe`. `decode_binary`
passes every `Subscribe`, and a `Reset` or an oversized message empties the slot of the stream, so
a binary connection opens as many streams as the client asks for.
-/

namespace GrpcWebnext
namespace Ws
open SerdeJson Transition

namespace SingleCall

/-! ### Lists -/

theorem countP_set_le {α : Type} {p : α → Bool} {l : List α} (i : Nat) {a : α} (fails : p a = false) :
    (l.set i a).countP p ≤ l.countP p := by
  rcases Nat.lt_or_ge i l.length with within | beyond
  · rw [List.countP_set within]
    simp [fails]
  · exact Nat.le_of_eq (congrArg (List.countP p) (List.set_eq_of_length_le beyond))

theorem countP_set_lt {α : Type} {p : α → Bool} {l : List α} {i : Nat} {a b : α} (found : l[i]? = some a)
    (holds : p a = true) (fails : p b = false) : (l.set i b).countP p + 1 = l.countP p := by
  obtain ⟨within, rfl⟩ := List.getElem?_eq_some_iff.mp found
  have counted : 0 < l.countP p := List.countP_pos_iff.mpr ⟨_, List.getElem_mem within, holds⟩
  simp only [List.countP_set within, holds, fails, ↓reduceIte, Bool.false_eq_true, Nat.add_zero]
  exact Nat.sub_add_cancel counted

/-! ### The property -/

structure OneCall [ProstReflect] [SerdeJson] (path : String) (s : Conn) : Prop where
  once : s.calls.length ≤ 1
  routed : ∀ call ∈ s.calls, call.pathAndQuery = path

def atStart : Pc → Bool
  | .start => true
  | _ => false

theorem atStart_false {pc : Pc} (left : pc ≠ .start) : atStart pc = false := by
  cases pc <;> first | rfl | exact absurd rfl left

theorem sending_leaves [SerdeJson] {json : Bool} {pc next : Pc} {msg : TungMessage Value}
    (waits : pc.sending json = some (msg, next)) : atStart next = false ∧
      atStart (pc.unsent next) = false := by
  have left : atStart next = false := by
    unfold Pc.sending at waits
    split at waits <;> cases waits <;> rfl
  refine ⟨left, ?_⟩
  unfold Pc.unsent
  split
  · rfl
  · rfl
  · exact left

theorem methodUrl_upgrade [ProstReflect] (maxMessageBytes : Nat) (schema : Schema.Inner)
    (ann : Option WsBinding) (codec : Option Bool) (uriPath : String) :
    (Config.upgrade maxMessageBytes schema ann codec uriPath).methodUrl =
      (ann.map WsBinding.grpcMethod).getD uriPath := by
  cases ann <;> rfl

section

variable [ProstReflect] [SerdeJson]

/-- A binary `Subscribe` that opens a stream finds no call dispatched and no task that still will. -/
def Calm [UriParser] (cfg : Config) (s : Conn) : Label → Prop
  | .read (.binary data) => s.Accepts cfg (.binary data) → s.calls = [] ∧ ∀ pc ∈ s.pcs, atStart pc = false
  | _ => True

/-! ### The invariant -/

structure Routed (path : String) (s : Conn) : Prop where
  tasks : ∀ p ∈ s.paths, p = path
  calls : ∀ call ∈ s.calls, call.pathAndQuery = path

structure Single (path : String) (s : Conn) : Prop where
  once : s.calls.length + s.pcs.countP atStart ≤ 1
  tasks : ∀ p ∈ s.paths, p = path
  routed : ∀ call ∈ s.calls, call.pathAndQuery = path
  /-- nothing runs before the first `Subscribe` -/
  unopened : s.opened = false → s.calls = [] ∧ s.pcs = []

theorem Single.initial (path : String) (cfg : Config) : Single path (.initial cfg) where
  once := Nat.zero_le 1
  tasks := nofun
  routed := nofun
  unopened _ := ⟨rfl, rfl⟩

theorem Single.oneCall {path : String} {s : Conn} (single : Single path s) : OneCall path s where
  once := Nat.le_of_add_right_le single.once
  routed := single.routed

theorem Single.still {path : String} {s t : Conn} {sent : List (TungMessage Value)}
    (single : Single path s) (still : s.Still sent t) : Single path t where
  once := by
    rw [still.calls, still.pcs]
    exact single.once
  tasks := by
    rw [still.paths]
    exact single.tasks
  routed := by
    rw [still.calls]
    exact single.routed
  unopened closed := by
    rw [still.calls, still.pcs]
    exact single.unopened (Bool.eq_false_iff.mpr fun was => by simp [still.opened was] at closed)

theorem Single.opens {cfg : Config} {s t : Conn} (single : Single cfg.methodUrl s)
    (opens : s.Opens cfg t)
    (idle : s.calls = [] ∧ ∀ pc ∈ s.pcs, atStart pc = false) : Single cfg.methodUrl t where
  once := by
    have none_starts : s.pcs.countP atStart = 0 :=
      List.countP_eq_zero.mpr fun pc member => by simp [idle.2 pc member]
    rw [opens.calls, opens.pcs, idle.1, List.countP_append, none_starts]
    decide
  tasks := by
    rw [opens.paths]
    exact List.forall_mem_append.mpr ⟨single.tasks, by simp⟩
  routed := by
    rw [opens.calls]
    exact single.routed
  unopened closed := by
    rw [opens.opened] at closed
    cases closed

/-! ### A task -/

theorem Single.moves {path : String} {s t : Conn} {i : Nat} {task : Task} {pc : Pc}
    {call : Option Dispatch}
    {sent : List (TungMessage Value)} (single : Single path s) (found : s.tasks[i]? = some task)
    (moves : s.Moves i pc call sent t) (routed : ∀ c ∈ call, c.pathAndQuery = path)
    (counted : call.toList.length + (s.pcs.set i pc).countP atStart ≤ s.pcs.countP atStart) :
    Single path t where
  once := by
    have once := single.once
    rw [moves.calls, moves.pcs, List.length_append]
    omega
  tasks := by
    rw [moves.paths]
    exact single.tasks
  routed := by
    rw [moves.calls]
    exact List.forall_mem_append.mpr ⟨single.routed, by simpa using routed⟩
  unopened closed := by
    rw [moves.opened] at closed
    have empty := List.map_eq_nil_iff.mp (single.unopened closed).2
    simp [empty] at found

theorem Single.stepTask {path : String} {cfg : Config} {s t : Conn} {i : Nat} {event : TaskEvent}
    (single : Single path s) (taken : s.stepTask cfg i event = some t) : Single path t := by
  obtain ⟨task, found, ⟨msg, next, _, waits, moves⟩ | ⟨task', call, sender, advanced, moves⟩⟩ :=
    Conn.stepTask_cases taken
  · have left : atStart (if s.writer then next else task.pc.unsent next) = false := by
      split
      · exact (sending_leaves waits).1
      · exact (sending_leaves waits).2
    exact single.moves found moves nofun (by simpa using countP_set_le i left)
  · have here : s.pcs[i]? = some task.pc := by simp [Conn.pcs, found]
    obtain ⟨_, ⟨same, rfl⟩ | ⟨_, stopped, rfl⟩ | ⟨waits, calls, rfl⟩ | ⟨_, _, left, _, rfl⟩⟩ := advanced.cases
    · obtain ⟨within, unmoved⟩ := List.getElem?_eq_some_iff.mp here
      apply single.moves found moves nofun
      rw [same, ← unmoved, List.set_getElem_self]
      simp
    · exact single.moves found moves nofun (by simpa using countP_set_le i (by rw [stopped]; rfl))
    · refine single.moves found moves ?_ ?_
      · rintro _ ⟨⟩
        exact single.tasks _ (List.mem_map_of_mem (List.mem_of_getElem? found))
      · have one : (s.pcs.set i task'.pc).countP atStart + 1 = s.pcs.countP atStart :=
          countP_set_lt here (by rw [waits]; rfl) (by rw [calls]; rfl)
        simp only [Option.toList_some, List.length_singleton]
        omega
    · exact single.moves found moves nofun (by simpa using countP_set_le i (atStart_false left))

/-! ### Runs -/

variable [UriParser]

theorem step_single (cfg : Config) (s : Conn) (l : Label) (t : Conn) (single : Single cfg.methodUrl s)
    (taken : Guarded (Step cfg) (Calm cfg) s l t) : Single cfg.methodUrl t := by
  obtain ⟨taken, calm⟩ := taken
  cases l with
  | read msg =>
    obtain ⟨still, _⟩ | ⟨_, still⟩ | ⟨accepts, opens, _⟩ := Conn.read_cases taken
    · exact single.still still
    · exact single.still still
    · apply single.opens opens
      obtain ⟨sub, json, decoded, _⟩ := id accepts
      obtain ⟨_, _, closed | ⟨data, rfl⟩⟩ := Conn.decode_subscribe decoded
      · obtain ⟨calls, pcs⟩ := single.unopened closed
        exact ⟨calls, by simp [pcs]⟩
      · exact calm accepts
  | resume =>
    obtain ⟨sent, still, _⟩ := Conn.resume_still taken
    exact single.still still
  | leave =>
    obtain ⟨_, ⟨⟩⟩ := Option.ite_none_right_eq_some.mp taken
    exact single.still (s.dropStream_still.trans (.moved _ .ended))
  | task i event => exact single.stepTask taken
  | write =>
    obtain ⟨_, ⟨⟩⟩ := Option.ite_none_right_eq_some.mp taken
    exact ⟨single.once, single.tasks, single.routed, single.unopened⟩
  | writerDied =>
    cases taken
    exact ⟨single.once, single.tasks, single.routed, single.unopened⟩

/-! ### Where the calls go -/

omit [UriParser] in
theorem Routed.still {path : String} {s t : Conn} {sent : List (TungMessage Value)} (routed : Routed path s)
    (still : s.Still sent t) : Routed path t :=
  ⟨still.paths ▸ routed.tasks, still.calls ▸ routed.calls⟩

omit [UriParser] in
theorem Routed.stepTask {path : String} {cfg : Config} {s t : Conn} {i : Nat} {event : TaskEvent}
    (routed : Routed path s) (taken : s.stepTask cfg i event = some t) : Routed path t := by
  obtain ⟨tasks, calls⟩ := routed
  obtain ⟨task, found, ⟨msg, next, _, _, moves⟩ | ⟨task', call, sender, advanced, moves⟩⟩ :=
    Conn.stepTask_cases taken
  · refine ⟨moves.paths ▸ tasks, ?_⟩
    rw [moves.calls, Option.toList_none, List.append_nil]
    exact calls
  · refine ⟨moves.paths ▸ tasks, ?_⟩
    rw [moves.calls]
    refine List.forall_mem_append.mpr ⟨calls, ?_⟩
    obtain ⟨_, ⟨_, rfl⟩ | ⟨_, _, rfl⟩ | ⟨_, _, rfl⟩ | ⟨_, _, _, _, rfl⟩⟩ := advanced.cases
    · nofun
    · nofun
    · intro call member
      obtain rfl := List.mem_singleton.mp member
      exact tasks _ (List.mem_map_of_mem (List.mem_of_getElem? found))
    · nofun

theorem Routed.step {cfg : Config} {s t : Conn} {l : Label} (routed : Routed cfg.methodUrl s)
    (taken : Step cfg s l t) : Routed cfg.methodUrl t := by
  cases l with
  | read msg =>
    obtain ⟨still, _⟩ | ⟨_, still⟩ | ⟨_, opens, _⟩ := Conn.read_cases taken
    · exact routed.still still
    · exact routed.still still
    · refine ⟨?_, opens.calls ▸ routed.calls⟩
      rw [opens.paths]
      exact List.forall_mem_append.mpr ⟨routed.tasks, by simp⟩
  | resume =>
    obtain ⟨sent, still, _⟩ := Conn.resume_still taken
    exact routed.still still
  | leave =>
    obtain ⟨_, ⟨⟩⟩ := Option.ite_none_right_eq_some.mp taken
    exact routed.still (s.dropStream_still.trans (.moved _ .ended))
  | task i event => exact routed.stepTask taken
  | write =>
    obtain ⟨_, ⟨⟩⟩ := Option.ite_none_right_eq_some.mp taken
    exact ⟨routed.tasks, routed.calls⟩
  | writerDied =>
    cases taken
    exact ⟨routed.tasks, routed.calls⟩

theorem Run.routed {cfg : Config} {ls : List Label} {s : Conn} (run : Run cfg ls s) :
    Routed cfg.methodUrl s :=
  run.invariant (fun _ _ _ routed taken => routed.step taken) ⟨nofun, nofun⟩

/-- Along the runs whose later `Subscribe`s find no call, a connection dispatches at most one, to the
gRPC method of its annotation or the path of its URL. -/
theorem one_call (maxMessageBytes : Nat) (schema : Schema.Inner) (ann : Option WsBinding)
    (codec : Option Bool) (uriPath : String) {ls : List Label} {t : Conn}
    (run : Transition.Run
      (Guarded (Step (.upgrade maxMessageBytes schema ann codec uriPath))
        (Calm (.upgrade maxMessageBytes schema ann codec uriPath)))
      (.initial (.upgrade maxMessageBytes schema ann codec uriPath)) ls t) :
    OneCall ((ann.map WsBinding.grpcMethod).getD uriPath) t := by
  rw [← methodUrl_upgrade maxMessageBytes schema ann codec uriPath]
  exact (run.invariant (step_single _) (Single.initial _ _)).oneCall

end

attribute [local instance] flagSchema flagTexts slashUris

theorem one_call_once : ∃ t : Conn, t.calls.length = 1 ∧ OneCall "/flag.Flags/Get" t := by
  refine ⟨_, ?_, @one_call _ _ _ 4 .none none (some false) "/flag.Flags/Get"
    [.read (.binary (some subscribeFrame)), .task 0 .begin] _
    (.cons ⟨rfl, fun _ => ⟨rfl, nofun⟩⟩ (.cons ⟨rfl, trivial⟩ (.nil _)))⟩
  rfl

/-- The client resets its stream and subscribes again. -/
theorem second_call_dispatched :
    ∃ t : Conn,
      Run (.upgrade 4 .none none (some false) "/flag.Flags/Get")
        [.read (.binary (some subscribeFrame)), .task 0 .begin,
          .read (.binary (some ⟨some (.reset ⟨1, ""⟩)⟩)), .task 0 .kill,
          .read (.binary (some subscribeFrame)), .task 1 .begin] t ∧
      ¬OneCall "/flag.Flags/Get" t := by
  refine ⟨_, .cons rfl (.cons rfl (.cons rfl (.cons rfl (.cons rfl (.cons rfl (.nil _)))))), ?_⟩
  intro one
  exact absurd one.once (by decide)

end SingleCall
end Ws
end GrpcWebnext
