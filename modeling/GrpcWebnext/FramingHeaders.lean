import Mathlib.Data.List.Forall2
import GrpcWebnext.GrpcTimeout
import GrpcWebnext.Ws.RequestChannel
import GrpcWebnext.Ws.SingleCall

/-!
# Framing headers

The headers of the request that the backend gets. Client headers and `Subscribe` metadata come
first, then `content-type`, `te` and `grpc-timeout`: no client header is one of those. A binary
connection can open several streams, so each call is followed back to the `Subscribe` of its own.
-/

namespace GrpcWebnext
open Metadata

/-! ### The three builders -/

namespace Fetch

/-- The loop over the request's headers. -/
def clientHeaders (headers : HeaderMap) : HeaderMap :=
  headers.foldl (fun builder e => if !isDenied e.1 then builder.append e.1 e.2 else builder) []

theorem trailers_wf : (Utf8.encode "trailers").all headerValueByte = true := by decide

/-- The builder of both Fetch paths; `none` where the sum of two durations panics. -/
def upstreamHeaders (headers : HeaderMap) (deadline : Option Duration) : Option HeaderMap :=
  let builder := ((clientHeaders headers).append .contentType Ws.CT_GRPC).append .te ⟨Utf8.encode "trailers", trailers_wf⟩
  match deadline with
  | some d => (d.checkedAdd DEADLINE_GRACE).map fun sum => builder.append .grpcTimeout (formatGrpcTimeout sum.total)
  | none => some builder

def unaryProtoHeaders (headers : HeaderMap) : Option HeaderMap := upstreamHeaders headers (parseGrpcTimeout headers)

def jsonUpstreamHeaders (reqHeaders : HeaderMap) (deadline : Option Duration) : Option HeaderMap :=
  upstreamHeaders reqHeaders deadline

def jsonFetchHeaders (headers : HeaderMap) : Option HeaderMap :=
  jsonUpstreamHeaders headers (parseGrpcTimeout headers)

end Fetch

/-! ### What they have in common -/

/-- `headers` are those of a call with a deadline, and for the rest those of its client. -/
structure Framed (headers : HeaderMap) (deadline : Option Nat) (client : HeaderName → List HeaderValue) : Prop where
  contentType : headers.getAll .contentType = [Ws.CT_GRPC]
  te : headers.getAll .te = [⟨Utf8.encode "trailers", by decide⟩]
  grpcTimeout : headers.getAll .grpcTimeout =
    (deadline.map fun d => formatGrpcTimeout (d + Metadata.DEADLINE_GRACE.total)).toList
  denied : ∀ name, isDenied name = true → name ≠ .contentType → name ≠ .te → name ≠ .grpcTimeout →
    headers.getAll name = []
  forwarded : ∀ name, isDenied name = false → headers.getAll name = client name

theorem requestHeaders_framed {headers : HeaderMap} (clean : ∀ name, isDenied name = true → headers.getAll name = [])
    (deadline : Option Nat) : Framed (Ws.requestHeaders headers deadline) deadline headers.getAll := by
  have contentType : headers.getAll .contentType = [] := clean _ (by decide)
  have te : headers.getAll .te = [] := clean _ (by decide)
  have timeout : headers.getAll .grpcTimeout = [] := clean _ (by decide)
  have values : ∀ name, (Ws.requestHeaders headers deadline).getAll name =
      headers.getAll name ++ (if .contentType = name then [Ws.CT_GRPC] else []) ++
        (if .te = name then [⟨Utf8.encode "trailers", by decide⟩] else []) ++
        if .grpcTimeout = name then (deadline.map fun d => formatGrpcTimeout (d + Metadata.DEADLINE_GRACE.total)).toList
        else [] := by
    intro name
    unfold Ws.requestHeaders
    cases deadline with
    | none => simp [HeaderMap.getAll_append]
    | some d => simp [HeaderMap.getAll_append, total_grace, Ws.DEADLINE_GRACE]
  refine ⟨?_, ?_, ?_, ?_, ?_⟩
  · rw [values, contentType]
    simp [show (HeaderName.te = .contentType) = False by decide, show (HeaderName.grpcTimeout = .contentType) = False by decide]
  · rw [values, te]
    simp [show (HeaderName.contentType = .te) = False by decide, show (HeaderName.grpcTimeout = .te) = False by decide]
  · rw [values, timeout]
    simp [show (HeaderName.contentType = .grpcTimeout) = False by decide, show (HeaderName.te = .grpcTimeout) = False by decide]
  · intro name denied notContentType notTe notTimeout
    rw [values, clean name denied]
    simp [Ne.symm notContentType, Ne.symm notTe, Ne.symm notTimeout]
  · intro name allowed
    have other : ∀ framing, isDenied framing = true → framing ≠ name := by
      rintro framing denied rfl
      cases allowed.symm.trans denied
    rw [values]
    simp [other .contentType (by decide), other .te (by decide), other .grpcTimeout (by decide)]

/-! ### Fetch -/

namespace Fetch

theorem getAll_clientHeaders (headers : HeaderMap) (name : HeaderName) :
    (clientHeaders headers).getAll name = if isDenied name then [] else headers.getAll name := by
  have loop : clientHeaders headers = mergeMetadataIntoHeaders headers [] := by
    unfold clientHeaders mergeMetadataIntoHeaders
    congr 1
    funext builder e
    cases isDenied e.1 <;> rfl
  rw [loop, getAll_merge]
  rfl

/-- No sum of a deadline and the grace is out of range. -/
theorem upstreamHeaders_eq (headers : HeaderMap) :
    upstreamHeaders headers (parseGrpcTimeout headers) =
      some (Ws.requestHeaders (clientHeaders headers) ((parseGrpcTimeout headers).map Duration.total)) := by
  cases parsed : parseGrpcTimeout headers with
  | none => rfl
  | some d =>
    obtain ⟨sum, added, _⟩ := grace_fits parsed
    have total := Duration.checkedAdd_eq_some_iff.mp added
    simp only [upstreamHeaders, added, Option.map_some, total, total_grace]
    rfl

theorem upstreamHeaders_framed (headers : HeaderMap) :
    ∃ built, upstreamHeaders headers (parseGrpcTimeout headers) = some built ∧
      Framed built ((parseGrpcTimeout headers).map Duration.total) headers.getAll := by
  refine ⟨_, upstreamHeaders_eq headers, ?_⟩
  have clean : ∀ name, isDenied name = true → (clientHeaders headers).getAll name = [] := by
    intro name denied
    rw [getAll_clientHeaders, if_pos denied]
  have framed := requestHeaders_framed clean ((parseGrpcTimeout headers).map Duration.total)
  refine { framed with forwarded := ?_ }
  intro name allowed
  rw [framed.forwarded name allowed, getAll_clientHeaders, allowed]
  rfl

end Fetch

/-! ### WebSocket -/

namespace Ws
open SerdeJson

def valueBytes : Option MetadatumValue → Option Bytes
  | some (.asciiValue s) => some (Utf8.encode s)
  | some (.binValue b) => some b
  | none => none

/-- The value that an entry has for a header: its key is the name in some spelling, and its bytes
may stand in a header. -/
def valueFor (name : HeaderName) (m : Metadatum) : Option HeaderValue :=
  match valueBytes m.value with
  | some bytes =>
    if wf : bytes.all headerValueByte = true then
      if String.ofList (m.key.toList.map Char.toLower) = name.name then some ⟨bytes, wf⟩ else none
    else none
  | none => none

/-- The values that `Subscribe` metadata has for a header. -/
def subscribed (items : List Metadatum) (name : HeaderName) : List HeaderValue := items.filterMap (valueFor name)

theorem fromBytes_eq_some_iff {key : String} {name : HeaderName} :
    HeaderName.fromBytes key = some name ↔ String.ofList (key.toList.map Char.toLower) = name.name := by
  unfold HeaderName.fromBytes
  constructor
  · intro read
    obtain ⟨_, ⟨⟩⟩ := Option.dite_none_right_eq_some.mp read
    rfl
  · intro spelled
    obtain ⟨lower, wf⟩ := name
    obtain rfl : _ = lower := spelled
    exact dif_pos wf

theorem metadatumValue_eq (value : Option MetadatumValue) :
    metadatumValue value = (valueBytes value).bind HeaderValue.fromBytes := by
  rcases value with _ | value
  · rfl
  · cases value <;> rfl

theorem valueFor_eq (name : HeaderName) (m : Metadatum) :
    valueFor name m = if HeaderName.fromBytes m.key = some name then metadatumValue m.value else none := by
  simp only [fromBytes_eq_some_iff, metadatumValue_eq, valueFor]
  cases valueBytes m.value with
  | none => simp
  | some bytes =>
    by_cases wf : bytes.all headerValueByte = true
    · simp only [dif_pos wf, Option.bind_some, HeaderValue.fromBytes]
    · simp only [dif_neg wf, Option.bind_some, HeaderValue.fromBytes, ite_self]

theorem getAll_subscribed (items : List Metadatum) (name : HeaderName) :
    (metadataVecToMetadata items).getAll name = if isDenied name then [] else subscribed items name := by
  have entry : ∀ m, ((metadatumHeader m).bind fun e => if e.1 = name then some e.2 else none) =
      if isDenied name then none else valueFor name m := by
    intro m
    rw [valueFor_eq]
    unfold metadatumHeader
    cases parsed : HeaderName.fromBytes m.key with
    | none => simp
    | some key =>
      by_cases same : key = name
      · subst same
        cases denied : isDenied key <;> cases metadatumValue m.value <;> simp [denied]
      · cases denied : isDenied key <;> cases metadatumValue m.value <;> simp [denied, same]
  rw [getAll_metadataVec, List.filterMap_congr fun m _ => entry m]
  split
  · exact List.filterMap_eq_nil_iff.mpr fun _ _ => rfl
  · rfl

section

variable [ProstReflect] [SerdeJson]

/-- The request of a stream that a `Subscribe` opened. -/
def Requests (sub : Subscribe) (task : Task) : Prop :=
  task.headers = metadataVecToMetadata sub.headers ∧ task.timeout = grpcTimeoutFromMillis sub.timeoutMillis

omit [SerdeJson] in
theorem dispatch_framed {sub : Subscribe} {task : Task} (requests : Requests sub task) :
    Framed task.dispatch.headers (grpcTimeoutFromMillis sub.timeoutMillis) (subscribed sub.headers) := by
  obtain ⟨headers, timeout⟩ := requests
  have clean : ∀ name, isDenied name = true → task.headers.getAll name = [] := by
    intro name denied
    rw [headers, getAll_subscribed, if_pos denied]
  have framed := requestHeaders_framed clean task.timeout
  rw [← timeout]
  refine { framed with forwarded := ?_ }
  intro name allowed
  show (requestHeaders task.headers task.timeout).getAll name = _
  rw [framed.forwarded name allowed, headers, getAll_subscribed, allowed]
  rfl

/-! ### What a run opens and dispatches -/

variable [UriParser]

/-- The `Subscribe` that the read loop accepts at a step: it opens the next stream. -/
def accepted (cfg : Config) (s : Conn) : Label → List Subscribe
  | .read msg =>
    match (s.decode cfg msg).2 with
    | some (frame, _) =>
      match frame.kind, s.rejection cfg frame with
      | some (.subscribe sub), none => [sub]
      | _, _ => []
    | none => []
  | _ => []

/-- The stream whose task dispatches at a step, once for each call. -/
def dispatching (cfg : Config) (s : Conn) : Label → List Nat
  | .task i event => ((s.stepTask cfg i event).elim [] fun t => t.calls.drop s.calls.length).map fun _ => i
  | _ => []

/-- The `Subscribe` of each stream of a run. -/
def openings (cfg : Config) (ls : List Label) : List Subscribe :=
  Transition.trace (Conn.step cfg) (accepted cfg) (.initial cfg) ls

/-- The stream of each call of a run. -/
def callers (cfg : Config) (ls : List Label) : List Nat :=
  Transition.trace (Conn.step cfg) (dispatching cfg) (.initial cfg) ls

theorem openings_snoc {cfg : Config} {ls : List Label} {l : Label} {s t : Conn} (run : Run cfg ls s)
    (taken : Step cfg s l t) : openings cfg (ls ++ [l]) = openings cfg ls ++ accepted cfg s l :=
  Transition.trace_snoc run taken

theorem callers_snoc {cfg : Config} {ls : List Label} {l : Label} {s t : Conn} (run : Run cfg ls s)
    (taken : Step cfg s l t) : callers cfg (ls ++ [l]) = callers cfg ls ++ dispatching cfg s l :=
  Transition.trace_snoc run taken

theorem read_accepted {cfg : Config} {s t : Conn} {msg : Inbound Value} (taken : s.read cfg msg = some t) :
    accepted cfg s (.read msg) = [] ∧ t.pcs = s.pcs ∨
      ∃ sub json, accepted cfg s (.read msg) = [sub] ∧ t.tasks = s.tasks ++ [openTask cfg sub json] := by
  obtain ⟨_, reads⟩ := Conn.read_some taken
  obtain ⟨_, _, same, _⟩ := s.decode_eq cfg msg
  have kept : (s.decode cfg msg).1.pcs = s.pcs := by rw [same]; rfl
  cases reads with
  | left => exact .inl ⟨rfl, s.dropStream_still.pcs⟩
  | skipped _ undecoded => exact .inl ⟨by simp [accepted, undecoded], kept⟩
  | @handled _ frame json decoded =>
    have handled := (s.decode cfg msg).1.handleFrame_cases cfg frame json
    rw [s.rejection_decode cfg] at handled
    simp only [accepted, decoded]
    obtain ⟨rejected, still⟩ | ⟨passes, ⟨sub, rfl, opens⟩ | ⟨still, _⟩⟩ := handled
    · obtain ⟨reset, rejected⟩ := Option.isSome_iff_exists.mp rejected
      exact .inl ⟨by simp [rejected], still.pcs.trans kept⟩
    · refine .inr ⟨sub, json, by simp [passes], ?_⟩
      rw [opens, Conn.openStream_tasks, same]
    · refine .inl ⟨?_, still.pcs.trans kept⟩
      split
      -- An accepted `Subscribe` opens a stream, which leaves one task more.
      · rename_i sub kind _
        have opens : (s.decode cfg msg).1.handleFrame cfg frame json = (s.decode cfg msg).1.openStream cfg sub json := by
          simp only [Conn.handleFrame, s.rejection_decode cfg, passes, kind]
        have longer := congrArg List.length still.pcs
        simp [opens, Conn.openStream, Conn.pcs] at longer
      · rfl

/-- Off the tasks, a step opens the stream of the `Subscribe` that it accepts, or it keeps the streams. -/
theorem Conn.Sound.step_accepted {cfg : Config} {s t : Conn} {l : Label} (sound : s.Sound) (taken : Step cfg s l t)
    (other : ∀ i event, l ≠ .task i event) :
    (accepted cfg s l = [] ∧ t.pcs = s.pcs ∧ ∀ (i : Nat) (task' : Task), t.tasks[i]? = some task' →
        ∃ task, s.tasks[i]? = some task ∧ task.Kept task') ∨
      ∃ sub json, accepted cfg s l = [sub] ∧ t.tasks = s.tasks ++ [openTask cfg sub json] := by
  have keeps (same : t.pcs = s.pcs) (i : Nat) (task' : Task) (found : t.tasks[i]? = some task') :
      ∃ task, s.tasks[i]? = some task ∧ task.Kept task' := by
    rcases (sound.step_tasks taken other).2 i task' found with before | ⟨last, _⟩
    · exact before
    · obtain ⟨within, _⟩ := List.getElem?_eq_some_iff.mp found
      have length := congrArg List.length same
      simp only [Conn.pcs, List.length_map] at length
      omega
  cases l with
  | read msg =>
    rcases read_accepted taken with ⟨none_, same⟩ | opens
    · exact .inl ⟨none_, same, keeps same⟩
    · exact .inr opens
  | resume =>
    obtain ⟨_, still, _⟩ := Conn.resume_still taken
    exact .inl ⟨rfl, still.pcs, keeps still.pcs⟩
  | leave =>
    obtain ⟨_, ⟨⟩⟩ := Option.ite_none_right_eq_some.mp taken
    exact .inl ⟨rfl, s.dropStream_still.pcs, keeps s.dropStream_still.pcs⟩
  | task i event => exact absurd rfl (other i event)
  | write =>
    obtain ⟨_, ⟨⟩⟩ := Option.ite_none_right_eq_some.mp taken
    exact .inl ⟨rfl, rfl, keeps rfl⟩
  | writerDied =>
    cases taken
    exact .inl ⟨rfl, rfl, keeps rfl⟩

theorem step_calls {cfg : Config} {s t : Conn} {l : Label} (taken : Step cfg s l t) (other : ∀ i event, l ≠ .task i event) :
    t.calls = s.calls := by
  cases l with
  | read msg =>
    obtain ⟨still, _⟩ | ⟨_, still⟩ | ⟨_, opens, _⟩ := Conn.read_cases taken
    · exact still.calls
    · exact still.calls
    · exact opens.calls
  | resume =>
    obtain ⟨_, still, _⟩ := Conn.resume_still taken
    exact still.calls
  | leave =>
    obtain ⟨_, ⟨⟩⟩ := Option.ite_none_right_eq_some.mp taken
    exact s.dropStream_still.calls
  | task i event => exact absurd rfl (other i event)
  | write =>
    obtain ⟨_, ⟨⟩⟩ := Option.ite_none_right_eq_some.mp taken
    rfl
  | writerDied =>
    cases taken
    rfl

/-- The call has the framing headers, and for the rest what the `Subscribe` of its stream asked for. -/
def Carries (opened : List Subscribe) (i : Nat) (call : Dispatch) : Prop :=
  ∃ sub, opened[i]? = some sub ∧
    Framed call.headers (grpcTimeoutFromMillis sub.timeoutMillis) (subscribed sub.headers)

/-- Every stream has the request of its own `Subscribe`, and dispatches one call at most. -/
structure Carried (cfg : Config) (ls : List Label) (s : Conn) : Prop where
  opened : (openings cfg ls).length = s.tasks.length
  tasks : ∀ (i : Nat) (task : Task), s.tasks[i]? = some task → ∃ sub, (openings cfg ls)[i]? = some sub ∧ Requests sub task
  calls : List.Forall₂ (Carries (openings cfg ls)) (callers cfg ls) s.calls
  once : (callers cfg ls).Nodup
  started : ∀ i ∈ callers cfg ls, ∃ pc, s.pcs[i]? = some pc ∧ SingleCall.atStart pc = false

omit [SerdeJson] [UriParser] in
theorem advanced_requests {cfg : Config} {sub : Subscribe} {task task' : Task} {sender : Bool} {event : TaskEvent}
    {call : Option Dispatch} (advanced : task.Advanced cfg sender event task' call) (requests : Requests sub task) :
    Requests sub task' := by
  cases advanced with
  | _ => exact requests

omit [SerdeJson] [UriParser] in
/-- Only the start dispatches, and no task goes back to it. -/
theorem advanced_starts {cfg : Config} {task task' : Task} {sender : Bool} {event : TaskEvent}
    {call : Option Dispatch} (advanced : task.Advanced cfg sender event task' call) :
    (SingleCall.atStart task.pc = false → SingleCall.atStart task'.pc = false ∧ call = none) ∧
      (call = none ∨ SingleCall.atStart task'.pc = false ∧ call = some task.dispatch) := by
  obtain ⟨_, ⟨same, none_⟩ | ⟨_, stopped, none_⟩ | ⟨waits, calls, dispatched⟩ | ⟨_, _, left, _, none_⟩⟩ := advanced.cases
  · exact ⟨fun before => ⟨by rw [same]; exact before, none_⟩, .inl none_⟩
  · exact ⟨fun _ => ⟨by rw [stopped]; rfl, none_⟩, .inl none_⟩
  · refine ⟨?_, .inr ⟨by rw [calls]; rfl, dispatched⟩⟩
    intro before
    rw [waits] at before
    cases before
  · exact ⟨fun _ => ⟨SingleCall.atStart_false left, none_⟩, .inl none_⟩

/-- One task moves and dispatches `call`. -/
theorem Carried.moved {cfg : Config} {ls : List Label} {s t : Conn} {i : Nat} {event : TaskEvent} {task task' : Task}
    {call : Option Dispatch} (run : Run cfg ls s) (carried : Carried cfg ls s) (taken : Step cfg s (.task i event) t)
    (found : s.tasks[i]? = some task) (tasks : t.tasks = s.tasks.set i task') (calls : t.calls = s.calls ++ call.toList)
    (kept : ∀ sub, Requests sub task → Requests sub task')
    (stays : SingleCall.atStart task.pc = false → SingleCall.atStart task'.pc = false ∧ call = none)
    (starts : call = none ∨ SingleCall.atStart task'.pc = false ∧ call = some task.dispatch) :
    Carried cfg (ls ++ [.task i event]) t := by
  have opened : openings cfg (ls ++ [.task i event]) = openings cfg ls :=
    (openings_snoc run taken).trans (List.append_nil _)
  have called : callers cfg (ls ++ [.task i event]) = callers cfg ls ++ call.toList.map fun _ => i := by
    have next : s.stepTask cfg i event = some t := taken
    rw [callers_snoc run taken, dispatching, next, Option.elim_some, calls, List.drop_left]
  have here : s.pcs[i]? = some task.pc := by simp [Conn.pcs, found]
  obtain ⟨within, _⟩ := List.getElem?_eq_some_iff.mp found
  have own (member : i ∈ callers cfg ls) : SingleCall.atStart task'.pc = false ∧ call = none := by
    obtain ⟨pc, at_, started⟩ := carried.started i member
    obtain rfl := Option.some.inj (here.symm.trans at_)
    exact stays started
  have moved : t.pcs = s.pcs.set i task'.pc := by rw [Conn.pcs, tasks, List.map_set]; rfl
  refine ⟨?_, ?_, ?_, ?_, ?_⟩
  · rw [opened, tasks, List.length_set]
    exact carried.opened
  · intro j other after
    rw [opened]
    rw [tasks] at after
    rcases found_set after with ⟨rfl, rfl⟩ | still
    · obtain ⟨sub, opens, requests⟩ := carried.tasks j task found
      exact ⟨sub, opens, kept sub requests⟩
    · exact carried.tasks j other still
  · rw [opened, called, calls]
    refine List.rel_append carried.calls ?_
    rcases starts with rfl | ⟨_, rfl⟩
    · exact .nil
    · obtain ⟨sub, opens, requests⟩ := carried.tasks i task found
      exact .cons ⟨sub, opens, dispatch_framed requests⟩ .nil
  · rw [called]
    rcases starts with rfl | ⟨_, rfl⟩
    · exact (List.append_nil _).symm ▸ carried.once
    · refine List.nodup_append.mpr ⟨carried.once, List.pairwise_singleton _ i, ?_⟩
      rintro j member k last rfl
      obtain rfl := List.mem_singleton.mp last
      cases (own member).2
  · rw [called, moved]
    intro j member
    by_cases same : j = i
    · subst same
      refine ⟨task'.pc, by simp [Conn.pcs, within], ?_⟩
      rcases List.mem_append.mp member with before | last
      · exact (own before).1
      · rcases starts with rfl | ⟨left, _⟩
        · cases last
        · exact left
    · rw [List.getElem?_set_ne (Ne.symm same)]
      rcases List.mem_append.mp member with before | last
      · exact carried.started j before
      · obtain ⟨_, _, rfl⟩ := List.mem_map.mp last
        exact absurd rfl same

theorem Carried.stepTask {cfg : Config} {ls : List Label} {s t : Conn} {i : Nat} {event : TaskEvent}
    (run : Run cfg ls s) (carried : Carried cfg ls s) (taken : Step cfg s (.task i event) t) :
    Carried cfg (ls ++ [.task i event]) t := by
  obtain ⟨task, found, ⟨msg, next, rfl, waits, rfl⟩ | ⟨task', call, advanced, rfl⟩⟩ := Conn.stepTask_inv taken
  · refine carried.moved run taken found rfl ?_ ?_ ?_ (.inl rfl)
    · exact (List.append_nil _).symm
    · intro sub requests
      cases (if s.writer then next else task.pc.unsent next) <;> exact requests
    · intro _
      refine ⟨?_, rfl⟩
      rw [Task.moveTo_pc]
      split
      · exact (SingleCall.sending_leaves waits).1
      · exact (SingleCall.sending_leaves waits).2
  · obtain ⟨stays, starts⟩ := advanced_starts advanced
    exact carried.moved run taken found rfl rfl (fun sub => advanced_requests advanced) stays starts

theorem Carried.stepOther {cfg : Config} {ls : List Label} {s t : Conn} {l : Label} (run : Run cfg ls s)
    (carried : Carried cfg ls s) (taken : Step cfg s l t) (other : ∀ i event, l ≠ .task i event) :
    Carried cfg (ls ++ [l]) t := by
  have called : callers cfg (ls ++ [l]) = callers cfg ls := by
    rw [callers_snoc run taken]
    cases l with
    | task i event => exact absurd rfl (other i event)
    | _ => exact List.append_nil _
  have opened := openings_snoc run taken
  rcases (Run.sound run).step_accepted taken other with ⟨none_, same, keeps⟩ | ⟨sub, json, accepts, tasks⟩
  · rw [none_, List.append_nil] at opened
    refine ⟨?_, ?_, ?_, called ▸ carried.once, ?_⟩
    · have length := congrArg List.length same
      simp only [Conn.pcs, List.length_map] at length
      rw [opened, length]
      exact carried.opened
    · intro i task' found
      obtain ⟨task, before, _, _, rfl⟩ := keeps i task' found
      rw [opened]
      exact carried.tasks i task before
    · rw [opened, called, step_calls taken other]
      exact carried.calls
    · rw [called, same]
      exact carried.started
  · rw [accepts] at opened
    have grown {i : Nat} {sub' : Subscribe} (found : (openings cfg ls)[i]? = some sub') :
        (openings cfg (ls ++ [l]))[i]? = some sub' := by
      obtain ⟨within, _⟩ := List.getElem?_eq_some_iff.mp found
      rw [opened, List.getElem?_append_left within]
      exact found
    refine ⟨?_, ?_, ?_, called ▸ carried.once, ?_⟩
    · rw [opened, tasks, List.length_append, List.length_append, carried.opened]
      rfl
    · intro i task found
      rw [tasks, List.getElem?_append] at found
      split at found
      · obtain ⟨sub', before, requests⟩ := carried.tasks i task found
        exact ⟨sub', grown before, requests⟩
      · obtain ⟨last, rfl⟩ := List.getElem?_eq_some_iff.mp found
        rw [List.length_singleton] at last
        obtain rfl : i = s.tasks.length := by omega
        refine ⟨sub, by simp [opened, carried.opened], ?_⟩
        rw [List.getElem_singleton]
        exact ⟨rfl, rfl⟩
    · rw [called, step_calls taken other]
      refine carried.calls.imp ?_
      rintro i call ⟨sub', before, framed⟩
      exact ⟨sub', grown before, framed⟩
    · rw [called, Conn.pcs, tasks, List.map_append]
      intro i member
      obtain ⟨pc, here, started⟩ := carried.started i member
      obtain ⟨within, _⟩ := List.getElem?_eq_some_iff.mp here
      exact ⟨pc, (List.getElem?_append_left within).trans here, started⟩

theorem Run.carried {cfg : Config} {ls : List Label} {s : Conn} (run : Run cfg ls s) : Carried cfg ls s := by
  refine Transition.Run.history (P := Carried cfg) (Q := fun _ _ _ => True) run (fun _ _ _ _ _ => trivial) ?_ ?_
  · intro pre u l v before carried _ taken
    by_cases task : ∃ i event, l = .task i event
    · obtain ⟨i, event, rfl⟩ := task
      exact carried.stepTask before taken
    · exact carried.stepOther before taken fun i event same => task ⟨i, event, same⟩
  · refine ⟨rfl, ?_, .nil, .nil, nofun⟩
    intro i task found
    replace found : ([] : List Task)[i]? = some task := found
    simp at found

end

end Ws

/-- The requests of both Fetch paths, and those of every stream of a connection: its streams are those
of the accepted `Subscribe`s, and each dispatches at most one call, with the headers of its own. -/
theorem framing_headers (headers : HeaderMap) [ProstReflect] [SerdeJson] [UriParser] {cfg : Ws.Config}
    {ls : List Ws.Label} {s : Ws.Conn} (run : Ws.Run cfg ls s) :
    (∃ built, Fetch.unaryProtoHeaders headers = some built ∧
      Framed built ((parseGrpcTimeout headers).map Duration.total) headers.getAll) ∧
    (∃ built, Fetch.jsonFetchHeaders headers = some built ∧
      Framed built ((parseGrpcTimeout headers).map Duration.total) headers.getAll) ∧
    (Ws.openings cfg ls).length = s.tasks.length ∧ (Ws.callers cfg ls).Nodup ∧
    List.Forall₂ (Ws.Carries (Ws.openings cfg ls)) (Ws.callers cfg ls) s.calls := by
  obtain ⟨opened, _, calls, once, _⟩ := run.carried
  exact ⟨Fetch.upstreamHeaders_framed headers, Fetch.upstreamHeaders_framed headers, opened, once, calls⟩

section

attribute [local instance] flagSchema Ws.flagTexts slashUris

def injecting : List Metadatum :=
  [⟨"Content-Type", some (.asciiValue "text/html")⟩, ⟨"X-Id", some (.asciiValue "1")⟩, ⟨"x-id", some (.asciiValue "2")⟩]

def subscribing (headers : List Metadatum) (timeoutMillis : UInt32) : Ws.Label :=
  .read (.binary (some ⟨some (.subscribe ⟨"", headers, timeoutMillis, [], false⟩)⟩))

/-- Of three `Subscribe`s the second is a duplicate; the third comes behind the reset of the first. -/
def injectingRun : List Ws.Label :=
  [subscribing injecting 5, subscribing [] 9, .resume, .task 0 .begin,
    .read (.binary (some (Ws.resetFrame .cancelled ""))), subscribing [] 7, .task 1 .begin]

def injectingHeaders : HeaderMap := [(.te, Ws.CT_GRPC), (.grpcTimeout, formatGrpcTimeout (5 * 10 ^ 6))]

theorem framing_headers_injecting : ∃ s : Ws.Conn,
    (Ws.openings Ws.plainRoute injectingRun).map Subscribe.timeoutMillis = [5, 7] ∧
    Ws.callers Ws.plainRoute injectingRun = [0, 1] ∧
    (∃ built, Fetch.unaryProtoHeaders injectingHeaders = some built ∧
      Framed built ((parseGrpcTimeout injectingHeaders).map Duration.total) injectingHeaders.getAll) ∧
    (∃ built, Fetch.jsonFetchHeaders injectingHeaders = some built ∧
      Framed built ((parseGrpcTimeout injectingHeaders).map Duration.total) injectingHeaders.getAll) ∧
    (Ws.openings Ws.plainRoute injectingRun).length = s.tasks.length ∧
    (Ws.callers Ws.plainRoute injectingRun).Nodup ∧
    List.Forall₂ (Ws.Carries (Ws.openings Ws.plainRoute injectingRun)) (Ws.callers Ws.plainRoute injectingRun) s.calls :=
  ⟨_, rfl, rfl, framing_headers injectingHeaders
    (.cons rfl <| .cons rfl <| .cons rfl <| .cons rfl <| .cons rfl <| .cons rfl <| .cons rfl <| .nil _)⟩

end

end GrpcWebnext
