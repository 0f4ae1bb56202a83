import GrpcWebnext.Lib.Except
import GrpcWebnext.Fetch.Routing
import GrpcWebnext.Ws.BodylessRoute

/-!
# Snapshots in use

Which snapshot encodes the requests of a JSON call and which one renders its responses, while loads
land at any time. `json_fetch` resolves a transcoder once and keeps it. An upgrade resolves one for
its annotation, and the stream task resolves again.
-/

namespace GrpcWebnext
namespace Schema

section

variable [ProstReflect]

inductive Origin where
  | bundle
  | load (i : Nat)
  deriving DecidableEq

/-- A transcoder as a reader got hold of it. -/
structure Held where
  origin : Origin
  tc : Transcoder

/-- `transcoder_any`, with the load that its result comes from. -/
def held (inner : Inner) (current : Option (Nat × Transcoder)) : Option Held :=
  let reflected := current.map fun (i, tc) => ⟨.load i, tc⟩
  match inner with
  | .none => none
  | .bundled tc => some ⟨.bundle, tc⟩
  | .reflection => reflected
  | .reflectionOrBundled bundle => some (reflected.getD ⟨.bundle, bundle⟩)

theorem held_tc (inner : Inner) (current : Option (Nat × Transcoder)) :
    (held inner current).map Held.tc = (transcoderAny inner (current.map Prod.snd)).toOption := by
  cases inner <;> cases current <;> rfl

theorem held_of_transcoder {inner : Inner} {current : Option (Nat × Transcoder)} {path : String} {tc : Transcoder}
    (resolved : transcoder inner (current.map Prod.snd) path = .ok tc) :
    (held inner current).map Held.tc = some tc := by
  obtain ⟨any, here, known⟩ := Except.bind_ok resolved
  split at known
  · cases known
    rw [held_tc, here]
    rfl
  · cases known

end

end Schema

open Schema Fetch HttpRule

namespace SnapshotUse

variable [ProstReflect] [DynamicReflect] [SerdeJson] [UriParser]

/-! ### Calls -/

/-- `json_fetch` behind its collected body. -/
def jsonCollected (rt : Runtime) (tc : Transcoder) (req : Request) (pq : Fetch.PathAndQuery) (sdkJson : Bool)
    (body : Bytes) : Handled :=
  let fetch (rest : Except TranscodeError (Option HttpCall)) :=
    Handled.json (jsonFetch tc rest sdkJson rt.allowImplicitCodec pq.text body)
  match (routerOf tc).transcode req.method pq.path pq.query body with
  | .error (.panic p) => .panicked p
  | .error (.error e) => fetch (.error e)
  | .ok rest => fetch (.ok rest)

omit [SerdeJson] in
theorem jsonRequest_collected (rt : Runtime) (s : Snapshots) {req : Request} {pq : Fetch.PathAndQuery} (sdkJson : Bool)
    {tc : Transcoder} {body : Bytes} (uri : req.uri = some pq)
    (resolved : (transcoderAnyAwait rt.schema s).value = .ok tc)
    (read : collectBounded rt.maxMessageBytes [] req.body = .collected body) :
    (jsonRequest rt s req sdkJson).value = jsonCollected rt tc req pq sdkJson body := by
  simp only [jsonRequest, Waited.map, resolved, uri, read]
  rfl

/-- A call of `json_fetch` that has its transcoder: the call it dispatched, and its response. -/
structure FetchCall where
  sdkJson : Bool
  snapshot : Held
  encoded : Option Handled := none
  response : Option HttpResponse := none

/-- The annotation binding of an upgrade, with the snapshot it was matched in. -/
structure Binding (req : Request) where
  snapshot : Held
  route : Route
  found : (routerOf snapshot.tc).matchWs req.path req.query = .ok (some route)
  ann : WsBinding
  serves : Ws.BodylessRoute.Serves route ann

/-- A connection behind its upgrade, and what the tasks of its streams got hold of. -/
structure Socket (req : Request) where
  binding : Option (Binding req)
  conn : Ws.Conn
  resolved : Nat → Option Held := fun _ => none

inductive Part where
  | request
  | response
  deriving DecidableEq

/-- A message was encoded or rendered with the descriptors of `held`. A socket's calls are its streams. -/
structure Use where
  call : Nat
  part : Part
  held : Held

inductive Call (req : Request) where
  | arrived
  | fetch (call : FetchCall)
  | socket (socket : Socket req)

structure World (req : Request) where
  loads : Loads Transcoder := {}
  call : Call req := .arrived
  uses : List Use := []

/-! ### Steps -/

def config (rt : Runtime) (req : Request) (binding : Option (Binding req)) : Ws.Config :=
  .upgrade rt.maxMessageBytes rt.schema (binding.map Binding.ann)
    (offeredCodec (wsSubprotocols req.headers)).1 req.path

namespace Socket

variable {req : Request}

/-- The body stream of task `i` builds from the annotation if there is one. -/
def encoder (k : Socket req) (i : Nat) : Option Held :=
  match k.binding with
  | some binding => some binding.snapshot
  | none => k.resolved i

def uses (k : Socket req) : Ws.Label → List Use
  | .task i .deliver => (k.encoder i).toList.map fun held => ⟨i, .request, held⟩
  | .task i (.body (.data _)) => (k.resolved i).toList.map fun held => ⟨i, .response, held⟩
  | _ => []

/-- The stream task resolves against what the watch channel holds. -/
def Reads (current : Option (Nat × Transcoder)) : Ws.Label → Prop
  | .task _ (.resolve snapshot) => snapshot = current.map Prod.snd
  | _ => True

def next (rt : Runtime) (current : Option (Nat × Transcoder)) (k : Socket req) (l : Ws.Label) (conn : Ws.Conn) :
    Socket req where
  binding := k.binding
  conn := conn
  resolved :=
    match l with
    | .task i (.resolve _) => fun j =>
      if j = i ∧ (conn.tasks[i]?.bind Ws.Task.transcoder).isSome then held rt.schema current else k.resolved j
    | _ => k.resolved

end Socket

inductive Label (req : Request) where
  | schema (l : Schema.Label Transcoder)
  | resolve (sdkJson : Bool)
  | encode (pq : Fetch.PathAndQuery) (body : Bytes)
  | render (headers : HeaderMap) (frames : List (Nat × BodyFrame))
  | upgrade (binding : Option (Binding req))
  | socket (l : Ws.Label)

/-- What `match_ws` finds at the upgrade. -/
def Annotates (rt : Runtime) (req : Request) (current : Option (Nat × Transcoder)) :
    Option (Binding req) → Prop
  | some binding => held rt.schema current = some binding.snapshot
  | none => ∀ h, held rt.schema current = some h → (routerOf h.tc).matchWs req.path req.query = .ok none

inductive Step (rt : Runtime) (req : Request) : World req → Label req → World req → Prop where
  | schema {w : World req} {l : Schema.Label Transcoder} {loads : Loads Transcoder} :
      Schema.Step w.loads l loads → Step rt req w (.schema l) { w with loads }
  | resolve {w : World req} {snapshot : Held} (sdkJson : Bool) :
      w.call = .arrived → held rt.schema w.loads.current = some snapshot →
      Step rt req w (.resolve sdkJson) { w with call := .fetch { sdkJson, snapshot } }
  | encode {w : World req} {f : FetchCall} {pq : Fetch.PathAndQuery} (body : Bytes) :
      w.call = .fetch f → f.encoded = none → req.uri = some pq →
      Step rt req w (.encode pq body)
        { w with
          call := .fetch { f with encoded := some (jsonCollected rt f.snapshot.tc req pq f.sdkJson body) }
          uses := w.uses ++ [⟨0, .request, f.snapshot⟩] }
  | render {w : World req} {f : FetchCall} {path : String} {message : Bytes} {ct : JsonCt} (headers : HeaderMap)
      (frames : List (Nat × BodyFrame)) :
      w.call = .fetch f → f.encoded = some (.json (.upstream path message ct)) → f.response = none →
      Step rt req w (.render headers frames)
        { w with
          call := .fetch { f with response := some (renderJson f.snapshot.tc path ct headers frames) }
          uses := w.uses ++ [⟨0, .response, f.snapshot⟩] }
  | upgrade {w : World req} {binding : Option (Binding req)} :
      w.call = .arrived → Annotates rt req w.loads.current binding →
      Step rt req w (.upgrade binding)
        { w with call := .socket { binding, conn := .initial (config rt req binding) } }
  | socket {w : World req} {k : Socket req} {l : Ws.Label} {conn : Ws.Conn} :
      w.call = .socket k → Ws.Step (config rt req k.binding) k.conn l conn → Socket.Reads w.loads.current l →
      Step rt req w (.socket l)
        { w with call := .socket (k.next rt w.loads.current l conn), uses := w.uses ++ k.uses l }

abbrev Run (rt : Runtime) (req : Request) (ls : List (Label req)) (w : World req) : Prop :=
  Transition.Run (Step rt req) {} ls w

/-- All messages of one call are encoded and rendered with the descriptors of one snapshot. -/
def OneSnapshot {req : Request} (w : World req) : Prop :=
  ∀ u ∈ w.uses, ∀ v ∈ w.uses, u.call = v.call → u.held = v.held

/-- A stream on an annotation route that gets its transcoder gets the snapshot of the annotation. -/
def Steady (rt : Runtime) (req : Request) (w : World req) : Label req → Prop
  | .socket (.task i (.resolve _)) =>
    ∀ k binding task tc, w.call = .socket k → k.binding = some binding → k.conn.tasks[i]? = some task →
      transcoder rt.schema (w.loads.current.map Prod.snd) task.methodPath = .ok tc →
      held rt.schema w.loads.current = some binding.snapshot
  | _ => True

/-! ### The transcoder of a stream -/

omit [DynamicReflect] [SerdeJson] [UriParser] in
/-- A task resolves its transcoder once, behind which it never starts again. -/
theorem advance_transcoder {cfg : Ws.Config} {task task' : Ws.Task} {sender : Bool} {event : Ws.TaskEvent}
    {call : Option Ws.Dispatch} (advanced : task.Advanced cfg sender event task' call) :
    (∃ snapshot tc, event = .resolve snapshot ∧ task.pc = .start ∧
        transcoder cfg.schema snapshot task.methodPath = .ok tc ∧ task'.transcoder = some tc ∧ task'.pc ≠ .start) ∨
      task'.transcoder = task.transcoder ∧ (task'.pc = .start → task.pc = .start) ∧
        ∀ snapshot, event = .resolve snapshot → task.pc = .start := by
  have stays : task'.pc = .start → task.pc = .start := by
    intro starts
    rcases advanced.cases.2 with ⟨same, _⟩ | ⟨_, done, _⟩ | ⟨_, calling, _⟩ | ⟨_, _, left, _⟩
    · exact same ▸ starts
    · cases starts.symm.trans done
    · cases starts.symm.trans calling
    · exact absurd starts left
  cases advanced with
  | resolved _ waits known => exact .inl ⟨_, _, rfl, waits, known, rfl, nofun⟩
  | refused _ waits _ => exact .inr ⟨rfl, stays, fun _ _ => waits⟩
  | _ => exact .inr ⟨rfl, stays, nofun⟩

omit [ProstReflect] [DynamicReflect] [UriParser] in
theorem sending_started {json : Bool} {pc next : Ws.Pc} {msg : Ws.TungMessage SerdeJson.Value}
    (waits : pc.sending json = some (msg, next)) : next ≠ .start ∧ pc.unsent next ≠ .start := by
  unfold Ws.Pc.sending at waits
  split at waits
  case h_7 => cases waits
  all_goals
    cases waits
    refine ⟨nofun, ?_⟩
    unfold Ws.Pc.unsent
    split <;> nofun

/-- No task resolves its transcoder: it is there already, or it is new. -/
def Keeps (s t : Ws.Conn) : Prop :=
  s.tasks.length ≤ t.tasks.length ∧
    ∀ (i : Nat) (task' : Ws.Task), t.tasks[i]? = some task' →
      (∃ task, s.tasks[i]? = some task ∧ task'.transcoder = task.transcoder ∧
          (task'.pc = .start → task.pc = .start)) ∨
        i = s.tasks.length ∧ task'.transcoder = none

omit [DynamicReflect] [UriParser] in
theorem Keeps.set {s t : Ws.Conn} {i : Nat} {task task' : Ws.Task} (found : s.tasks[i]? = some task)
    (tasks : t.tasks = s.tasks.set i task') (same : task'.transcoder = task.transcoder)
    (starts : task'.pc = .start → task.pc = .start) : Keeps s t := by
  refine ⟨by rw [tasks, List.length_set], ?_⟩
  intro j other at_
  rw [tasks] at at_
  rcases Ws.found_set at_ with ⟨rfl, rfl⟩ | still
  · exact .inl ⟨task, found, same, starts⟩
  · exact .inl ⟨other, still, rfl, id⟩

omit [DynamicReflect] [UriParser] in
theorem stepTask_keeps {cfg : Ws.Config} {s t : Ws.Conn} {i : Nat} {event : Ws.TaskEvent}
    (taken : s.stepTask cfg i event = some t) :
    (∃ task task' snapshot tc, event = .resolve snapshot ∧ s.tasks[i]? = some task ∧ task.pc = .start ∧
        transcoder cfg.schema snapshot task.methodPath = .ok tc ∧ t.tasks = s.tasks.set i task' ∧
        task'.transcoder = some tc ∧ task'.pc ≠ .start) ∨
      Keeps s t ∧ ∀ snapshot, event = .resolve snapshot → ∃ task, s.tasks[i]? = some task ∧ task.pc = .start := by
  obtain ⟨task, found, ⟨msg, next, rfl, waits, rfl⟩ | ⟨task', call, advanced, rfl⟩⟩ := Ws.Conn.stepTask_inv taken
  · obtain ⟨left, unsent⟩ := sending_started waits
    refine .inr ⟨Keeps.set found rfl (by cases (if s.writer then next else task.pc.unsent next) <;> rfl) ?_, nofun⟩
    rw [Ws.Task.moveTo_pc]
    intro starts
    split at starts
    · exact absurd starts left
    · exact absurd starts unsent
  · rcases advance_transcoder advanced with ⟨snapshot, tc, event, starts, resolved, got, left⟩ | ⟨same, stays, starts⟩
    · exact .inl ⟨task, task', snapshot, tc, event, found, starts, resolved, rfl, got, left⟩
    · exact .inr ⟨Keeps.set found rfl same stays, fun snapshot event => ⟨task, found, starts snapshot event⟩⟩

omit [DynamicReflect] in
theorem step_keeps {cfg : Ws.Config} {s t : Ws.Conn} {l : Ws.Label} (sound : s.Sound) (taken : Ws.Step cfg s l t)
    (other : ∀ i event, l ≠ .task i event) : Keeps s t := by
  obtain ⟨length, tasks⟩ := sound.step_tasks taken other
  refine ⟨length, ?_⟩
  intro i task' found
  rcases tasks i task' found with ⟨task, before, _, _, rfl⟩ | ⟨last, _, sub, json, _, _, rfl⟩
  · exact .inl ⟨task, before, rfl, id⟩
  · exact .inr ⟨last, rfl⟩

/-! ### Every run -/

/-- What the stream tasks of a connection hold is what was recorded of them. -/
structure Tracked {req : Request} (k : Socket req) : Prop where
  sound : k.conn.Sound
  tracked : ∀ (i : Nat) (task : Ws.Task), k.conn.tasks[i]? = some task →
    task.transcoder = (k.resolved i).map Held.tc ∧ (task.pc = .start → k.resolved i = none)
  fresh : ∀ i, k.conn.tasks.length ≤ i → k.resolved i = none

/-- Every message went through the annotation's snapshot if there is one, else through its stream's. -/
structure Kept {req : Request} (k : Socket req) (uses : List Use) : Prop extends Tracked k where
  steady : ∀ binding, k.binding = some binding → ∀ i h, k.resolved i = some h → h = binding.snapshot
  traced : ∀ u ∈ uses, k.encoder u.call = some u.held

omit [UriParser] in
theorem Tracked.upgraded {req : Request} {binding : Option (Binding req)} (cfg : Ws.Config) :
    Tracked { binding, conn := .initial cfg } where
  sound := .initial cfg
  tracked i task found := by
    replace found : ([] : List Ws.Task)[i]? = some task := found
    simp at found
  fresh _ _ := rfl

omit [UriParser] in
theorem Tracked.of_keeps {req : Request} {k k' : Socket req} (tracked : Tracked k) (sound : k'.conn.Sound)
    (keeps : Keeps k.conn k'.conn) (resolved : k'.resolved = k.resolved) : Tracked k' where
  sound := sound
  tracked i task' found := by
    rw [resolved]
    rcases keeps.2 i task' found with ⟨task, before, same, stays⟩ | ⟨rfl, none_⟩
    · obtain ⟨held, starts⟩ := tracked.tracked i task before
      exact ⟨same.trans held, starts ∘ stays⟩
    · have unset := tracked.fresh _ (Nat.le_refl _)
      rw [unset]
      exact ⟨none_, fun _ => rfl⟩
  fresh i beyond := by
    rw [resolved]
    exact tracked.fresh i (Nat.le_trans keeps.1 beyond)

section

variable {rt : Runtime} {req : Request}

omit [UriParser] in
theorem next_resolved_of_set (rt : Runtime) (current : Option (Nat × Transcoder)) {k : Socket req} {i : Nat}
    {task task' : Ws.Task} {conn : Ws.Conn} {tc : Transcoder} (found : k.conn.tasks[i]? = some task)
    (tasks : conn.tasks = k.conn.tasks.set i task') (got : task'.transcoder = some tc) :
    (k.next rt current (.task i (.resolve (current.map Prod.snd))) conn).resolved =
      fun j => if j = i then held rt.schema current else k.resolved j := by
  have here : conn.tasks[i]? = some task' := by
    rw [tasks, List.getElem?_set_self (List.getElem?_eq_some_iff.mp found).1]
  funext j
  simp [Socket.next, here, got]

omit [UriParser] in
theorem Tracked.of_set {k k' : Socket req} {i : Nat} {task task' : Ws.Task} {h : Held} (tracked : Tracked k)
    (sound : k'.conn.Sound) (found : k.conn.tasks[i]? = some task) (tasks : k'.conn.tasks = k.conn.tasks.set i task')
    (got : task'.transcoder = some h.tc) (left : task'.pc ≠ .start)
    (resolved : k'.resolved = fun j => if j = i then some h else k.resolved j) : Tracked k' where
  sound := sound
  tracked j other at_ := by
    rw [resolved]
    rw [tasks] at at_
    by_cases own : j = i
    · subst own
      rw [List.getElem?_set_self (List.getElem?_eq_some_iff.mp found).1] at at_
      obtain rfl := Option.some.inj at_
      exact ⟨by simpa using got, fun starts => absurd starts left⟩
    · rw [List.getElem?_set_ne (Ne.symm own)] at at_
      simpa [own] using tracked.tracked j other at_
  fresh j beyond := by
    rw [resolved]
    rw [tasks, List.length_set] at beyond
    have within := (List.getElem?_eq_some_iff.mp found).1
    have elsewhere : j ≠ i := by omega
    simpa [elsewhere] using tracked.fresh j beyond

omit [UriParser] in
/-- A task that starts and gets no transcoder leaves what is recorded. -/
theorem Tracked.next_resolved_of_keeps (rt : Runtime) (current : Option (Nat × Transcoder)) {k : Socket req}
    {i : Nat} {event : Ws.TaskEvent} {conn : Ws.Conn} (tracked : Tracked k) (keeps : Keeps k.conn conn)
    (starts : ∀ snapshot, event = .resolve snapshot → ∃ task, k.conn.tasks[i]? = some task ∧ task.pc = .start) :
    (k.next rt current (.task i event) conn).resolved = k.resolved := by
  cases event with
  | resolve snapshot =>
    obtain ⟨task, found, fresh⟩ := starts snapshot rfl
    have unset := (tracked.tracked i task found).2 fresh
    have none_ : conn.tasks[i]?.bind Ws.Task.transcoder = none := by
      cases after : conn.tasks[i]? with
      | none => rfl
      | some task' =>
        rcases keeps.2 i task' after with ⟨before, here, same, _⟩ | ⟨_, same⟩
        · show task'.transcoder = none
          rw [same, (tracked.tracked i before here).1, unset]
          rfl
        · exact same
    funext j
    simp [Socket.next, none_]
  | _ => rfl

/-- A stream task that gets its transcoder gets that of the snapshot in the watch channel; nothing
else changes what the tasks hold. -/
theorem Tracked.next {current : Option (Nat × Transcoder)} {k : Socket req} {l : Ws.Label} {conn : Ws.Conn}
    (tracked : Tracked k) (taken : Ws.Step (config rt req k.binding) k.conn l conn)
    (reads : Socket.Reads current l) :
    Tracked (k.next rt current l conn) ∧
      ((k.next rt current l conn).resolved = k.resolved ∨
        ∃ i task tc h, l = .task i (.resolve (current.map Prod.snd)) ∧ k.conn.tasks[i]? = some task ∧
          transcoder rt.schema (current.map Prod.snd) task.methodPath = .ok tc ∧
          held rt.schema current = some h ∧ k.resolved i = none ∧
          (k.next rt current l conn).resolved = fun j => if j = i then some h else k.resolved j) := by
  have sound : conn.Sound := tracked.sound.step taken
  by_cases task_ : ∃ i event, l = .task i event
  · obtain ⟨i, event, rfl⟩ := task_
    rcases stepTask_keeps taken with
      ⟨task, task', snapshot, tc, rfl, found, starts, resolved, tasks, got, left⟩ | ⟨keeps, starts⟩
    · obtain rfl : snapshot = current.map Prod.snd := reads
      obtain ⟨h, holds, rfl⟩ : ∃ h, held rt.schema current = some h ∧ h.tc = tc :=
        Option.map_eq_some_iff.mp (held_of_transcoder resolved)
      have unset := (tracked.tracked i task found).2 starts
      have now := next_resolved_of_set rt current found tasks got
      rw [holds] at now
      exact ⟨tracked.of_set sound found tasks got left now,
        .inr ⟨i, task, h.tc, h, rfl, found, resolved, holds, unset, now⟩⟩
    · have now := tracked.next_resolved_of_keeps rt current keeps starts
      exact ⟨tracked.of_keeps sound keeps now, .inl now⟩
  · have other : ∀ i event, l ≠ .task i event := fun i event same => task_ ⟨i, event, same⟩
    have now : (k.next rt current l conn).resolved = k.resolved := by
      cases l with
      | task i event => exact absurd rfl (other i event)
      | _ => rfl
    exact ⟨tracked.of_keeps sound (step_keeps tracked.sound taken other) now, .inl now⟩

omit [UriParser] in
theorem Kept.resolved_encoder {k : Socket req} {uses : List Use} (kept : Kept k uses) {i : Nat} {h : Held}
    (got : k.resolved i = some h) : k.encoder i = some h := by
  unfold Socket.encoder
  cases route : k.binding with
  | some binding => rw [kept.steady binding route i h got]
  | none => exact got

omit [UriParser] in
theorem Kept.uses {k : Socket req} {uses : List Use} (kept : Kept k uses) (l : Ws.Label) :
    ∀ u ∈ k.uses l, k.encoder u.call = some u.held := by
  intro u member
  unfold Socket.uses at member
  split at member
  · obtain ⟨h, encodes, rfl⟩ := List.mem_map.mp member
    exact Option.mem_toList.mp encodes
  · obtain ⟨h, renders, rfl⟩ := List.mem_map.mp member
    exact kept.resolved_encoder (Option.mem_toList.mp renders)
  · cases member

/-- What a connection takes its descriptors from, at a step that keeps to the annotation's snapshot. -/
theorem Kept.next {w : World req} {k : Socket req} {l : Ws.Label} {conn : Ws.Conn} (kept : Kept k w.uses)
    (call : w.call = .socket k) (taken : Ws.Step (config rt req k.binding) k.conn l conn)
    (reads : Socket.Reads w.loads.current l) (steady : Steady rt req w (.socket l)) :
    Kept (k.next rt w.loads.current l conn) (w.uses ++ k.uses l) := by
  obtain ⟨tracked, moved⟩ := kept.toTracked.next taken reads
  have traced : ∀ u ∈ w.uses ++ k.uses l, k.encoder u.call = some u.held := by
    intro u member
    rcases List.mem_append.mp member with before | now
    · exact kept.traced u before
    · exact kept.uses l u now
  refine { tracked with steady := ?_, traced := ?_ }
  · intro binding route i h got
    rcases moved with same | ⟨j, task, tc, h', rfl, found, resolved, holds, _, now⟩
    · exact kept.steady binding route i h (same ▸ got)
    · replace got : (if i = j then some h' else k.resolved i) = some h := congrFun now i ▸ got
      split at got
      · cases got
        exact Option.some.inj (holds.symm.trans (steady k binding task tc call route found resolved))
      · exact kept.steady binding route i h got
  · intro u member
    have before := traced u member
    unfold Socket.encoder at before ⊢
    show (match k.binding with | some binding => _ | none => _) = _
    cases route : k.binding with
    | some binding =>
      rw [route] at before
      exact before
    | none =>
      rw [route] at before
      rcases moved with same | ⟨j, _, _, h', rfl, _, _, _, unset, now⟩
      · exact same ▸ before
      · rw [now]
        have other : u.call ≠ j := by
          rintro rfl
          cases unset.symm.trans before
        simpa [other] using before

/-- The descriptors that were in use, by the state of the call. -/
def Uses (w : World req) : Prop :=
  match w.call with
  | .arrived => w.uses = []
  | .fetch f => ∀ u ∈ w.uses, u.held = f.snapshot
  | .socket k => Kept k w.uses

omit [UriParser] in
theorem Uses.one {w : World req} (uses : Uses w) : OneSnapshot w := by
  intro u member v member' same
  unfold Uses at uses
  split at uses
  · rw [uses] at member
    cases member
  · exact (uses u member).trans (uses v member').symm
  · have first := uses.traced u member
    have second := uses.traced v member'
    rw [same] at first
    exact Option.some.inj (first.symm.trans second)

omit [UriParser] in
theorem Uses.record {w : World req} {f f' : FetchCall} {u : Use} (uses : Uses w) (call : w.call = .fetch f)
    (same : f'.snapshot = f.snapshot) (held : u.held = f.snapshot) :
    Uses ({ w with call := .fetch f', uses := w.uses ++ [u] } : World req) := by
  unfold Uses at uses ⊢
  rw [call] at uses
  intro v member
  rw [same]
  rcases List.mem_append.mp member with before | now
  · exact uses v before
  · rw [List.mem_singleton.mp now, held]

theorem Uses.step {w w' : World req} {l : Label req} (uses : Uses w) (taken : Step rt req w l w')
    (steady : Steady rt req w l) : Uses w' := by
  cases taken with
  | schema loads => exact uses
  | resolve sdkJson call snapshot =>
    unfold Uses at uses ⊢
    rw [call] at uses
    simp [show w.uses = [] from uses]
  | encode body call _ _ => exact uses.record call rfl rfl
  | render headers frames call _ _ => exact uses.record call rfl rfl
  | upgrade call annotates =>
    unfold Uses at uses ⊢
    rw [call] at uses
    refine { Tracked.upgraded _ with steady := ?_, traced := ?_ }
    · intro _ _ i h unset
      cases unset
    · rw [show w.uses = [] from uses]
      intro u member
      cases member
  | socket call move reads =>
    unfold Uses at uses ⊢
    rw [call] at uses
    exact uses.next call move reads steady

/-- Where no stream of an annotation route resolves another snapshot than its upgrade did, every call
keeps to one snapshot, at whatever moments loads land. -/
theorem one_snapshot (rt : Runtime) (req : Request) {ls : List (Label req)} {w : World req}
    (run : Transition.Run (Transition.Guarded (Step rt req) (Steady rt req)) {} ls w) : OneSnapshot w := by
  have uses : Uses w :=
    run.invariant (fun _ _ _ uses taken => uses.step taken.1 taken.2) (show Uses ({} : World req) from rfl)
  exact uses.one

/-- What `uses` records of a stream task is the transcoder that the task works with. -/
theorem run_tracked {ls : List (Label req)} {w : World req} (run : Run rt req ls w) {k : Socket req}
    (call : w.call = .socket k) : Tracked k := by
  have start : ∀ k, ({} : World req).call = .socket k → Tracked k := by
    intro k arrived
    cases arrived
  refine run.invariant (P := fun w => ∀ k, w.call = .socket k → Tracked k) ?_ start k call
  intro w l w' tracked taken k' call'
  cases taken with
  | schema loads => exact tracked k' call'
  | resolve => cases call'
  | encode => cases call'
  | render => cases call'
  | upgrade =>
    cases call'
    exact .upgraded _
  | socket call move reads =>
    cases call'
    exact ((tracked _ call).next move reads).1

end

end SnapshotUse

/-! ### Reloads and the method `Get` of the flags -/

namespace SnapshotUse
open Ws.BodylessRoute (getFlagsBinding)

attribute [local instance] aliasSchema aliasReflect Ws.flagTexts slashUris

def flagsRuntime : Runtime := ⟨none, 64, true, .reflection⟩

theorem flags_path : '?' ∉ "/flags/true".toList := by decide

def flagsRequest : Request := ⟨"GET", some ⟨"/flags/true", none, flags_path⟩, [], []⟩

def annotated : Transcoder := ⟨some "/flags/{on}"⟩
def moved : Transcoder := ⟨some "/flag/{on}"⟩

def flagsRoute : Route :=
  ⟨⟨"GET", [.literal "flags", .single ["on"]], .none, "/flag.Flags/Get", .flags⟩, [(["on"], "true")], none⟩

def isFlags (route : Route) : Bool :=
  route.binding.httpMethod = "GET" ∧ route.binding.segments = [.literal "flags", .single ["on"]] ∧
    route.binding.body = .none ∧ route.binding.grpcMethod = "/flag.Flags/Get" ∧
    (route.binding.input matches .flags) ∧ route.vars = [(["on"], "true")] ∧ route.query = none

theorem isFlags_eq {route : Route} (flags : isFlags route = true) : route = flagsRoute := by
  obtain ⟨⟨httpMethod, segments, body, grpcMethod, input⟩, vars, query⟩ := route
  simp only [isFlags, decide_eq_true_eq] at flags
  obtain ⟨rfl, rfl, rfl, rfl, input_, rfl, rfl⟩ := flags
  cases input with
  | flags => rfl
  | options => cases input_
  | rule => cases input_

theorem flags_found : (routerOf annotated).matchWs flagsRequest.path flagsRequest.query = .ok (some flagsRoute) := by
  have matched :
      ((routerOf annotated).matchWs flagsRequest.path flagsRequest.query).toOption.any (·.any isFlags) = true := by
    decide +kernel
  cases found : (routerOf annotated).matchWs flagsRequest.path flagsRequest.query with
  | error p => rw [found] at matched; cases matched
  | ok route =>
    rw [found] at matched
    cases route with
    | none => cases matched
    | some route => rw [isFlags_eq matched]

theorem flags_build (payload : Bytes) : flagsRoute.build payload = .ok [8, 1] := rfl

def flagsBinding : Binding flagsRequest where
  snapshot := ⟨.load 0, annotated⟩
  route := flagsRoute
  found := flags_found
  ann := getFlagsBinding
  serves := ⟨rfl, rfl, fun payload m => by rw [flags_build]; simp [getFlagsBinding]⟩

/-- The call of the route, with what comes between its upgrade and its first frame. -/
def flagsCall (between : List (Label flagsRequest)) (snapshot : Transcoder) : List (Label flagsRequest) :=
  [.schema .refresh, .schema (.finish 0 (.ok annotated)), .upgrade (some flagsBinding)] ++ between ++
    [.socket (.read (.text (some { message := none }))), .socket (.task 0 (.resolve (some snapshot))),
      .socket (.task 0 .deliver), .socket (.task 0 (.answer (.ok []))), .socket (.task 0 .send),
      .socket (.task 0 (.body (.data (GrpcFraming.frame [8, 1]))))]

theorem flagsCall_run : ∃ w : World flagsRequest,
    Transition.Run (Transition.Guarded (Step flagsRuntime flagsRequest) (Steady flagsRuntime flagsRequest)) {}
      (flagsCall [] annotated) w ∧ w.uses.map Use.part = [.request, .response] :=
  ⟨_, .cons ⟨.schema (.refresh _ rfl), trivial⟩ <| .cons ⟨.schema (.finish _ 0 _ rfl), trivial⟩ <|
    .cons ⟨.upgrade rfl rfl, trivial⟩ <| .cons ⟨.socket rfl rfl trivial, trivial⟩ <|
    .cons ⟨.socket rfl rfl rfl, fun _ _ _ _ call route _ _ => by cases call; cases route; rfl⟩ <|
    .cons ⟨.socket rfl rfl trivial, trivial⟩ <| .cons ⟨.socket rfl rfl trivial, trivial⟩ <|
    .cons ⟨.socket rfl rfl trivial, trivial⟩ <| .cons ⟨.socket rfl rfl trivial, trivial⟩ (.nil _), rfl⟩

theorem one_snapshot_flags : ∃ w : World flagsRequest, w.uses.map Use.part = [.request, .response] ∧ OneSnapshot w := by
  obtain ⟨w, run, uses⟩ := flagsCall_run
  exact ⟨w, uses, one_snapshot flagsRuntime flagsRequest run⟩

theorem reloaded_run : ∃ w : World flagsRequest,
    Run flagsRuntime flagsRequest (flagsCall [.schema .reload, .schema (.finish 1 (.ok moved))] moved) w ∧
      w.uses = [⟨0, .request, ⟨.load 0, annotated⟩⟩, ⟨0, .response, ⟨.load 1, moved⟩⟩] :=
  ⟨_, .cons (.schema (.refresh _ rfl)) <| .cons (.schema (.finish _ 0 _ rfl)) <| .cons (.upgrade rfl rfl) <|
    .cons (.schema (.reload _)) <| .cons (.schema (.finish _ 1 _ rfl)) <| .cons (.socket rfl rfl trivial) <|
    .cons (.socket rfl rfl rfl) <| .cons (.socket rfl rfl trivial) <| .cons (.socket rfl rfl trivial) <|
    .cons (.socket rfl rfl trivial) <| .cons (.socket rfl rfl trivial) (.nil _), rfl⟩

/-- A load lands between the upgrade and the first frame: the requests are encoded with the snapshot
before it and the responses rendered with the one behind it. -/
theorem reload_splits_call : ∃ w : World flagsRequest,
    Run flagsRuntime flagsRequest (flagsCall [.schema .reload, .schema (.finish 1 (.ok moved))] moved) w ∧
      ¬OneSnapshot w := by
  obtain ⟨w, run, uses⟩ := reloaded_run
  refine ⟨w, run, ?_⟩
  intro one
  unfold OneSnapshot at one
  rw [uses] at one
  have same := one _ (List.mem_cons_self) _ (List.mem_cons_of_mem _ List.mem_cons_self) rfl
  cases congrArg Held.origin same

end SnapshotUse
end GrpcWebnext
