import GrpcWebnext.HttpRule.Router
import GrpcWebnext.Ws.CleanEnd

/-!
# Routes without a body

An annotation route without a body rule makes its one request from the URL: `handle_frame` puts an
empty payload into the request channel and closes it. The payload of the opening frame stands before
that one, and each payload of the channel is a frame for the backend.
-/

namespace GrpcWebnext
namespace Ws
open SerdeJson Transition HttpRule

namespace BodylessRoute

section

variable [ProstReflect] [SerdeJson]

/-! ### The opening frame -/

def Label.textFrame? : Label → Option (JsonFrame Value)
  | .read (.text frame) => frame
  | _ => none

/-- The first text frame of a connection that parses: it is the one that opens the stream. -/
def opening (ls : List Label) : Option (JsonFrame Value) := ls.findSome? Label.textFrame?

theorem opening_snoc (ls : List Label) (l : Label) :
    opening (ls ++ [l]) = (opening ls).or (Label.textFrame? l) := by
  rw [opening, List.findSome?_append]
  cases seen : Label.textFrame? l <;> simp [opening, seen]

theorem opening_append {ls : List Label} {f : JsonFrame Value} (opens : opening ls = some f) (more : List Label) :
    opening (ls ++ more) = some f := by
  rw [opening, List.findSome?_append, show ls.findSome? Label.textFrame? = some f from opens, Option.some_or]

/-- The payloads that the request channel of a bodyless route ever holds. -/
def payloads (f : JsonFrame Value) : List Bytes :=
  let first := (f.message.map toVec).getD []
  (if first.isEmpty then [] else [first]) ++ [[]]

omit [ProstReflect] in
theorem payloads_length_iff (written : ∀ v : Value, toVec v ≠ []) (f : JsonFrame Value) :
    (payloads f).length = 1 ↔ f.message = none := by
  cases carried : f.message with
  | none => simp [payloads, carried]
  | some v => simp [payloads, carried, written v]

/-! ### The request channel of the stream -/

/-- The data frame that the backend takes for a payload. -/
def urlFrame (ann : WsBinding) (payload : Bytes) : Bytes :=
  GrpcFraming.frame ((ann.buildMessage payload).toOption.getD [])

/-- The backend has taken the first of the payloads, in order; the others wait in the channel. -/
def Taken (ann : WsBinding) (f : JsonFrame Value) (task : Task) : Prop :=
  task.delivered ++ task.requests.map (urlFrame ann) = (payloads f).map (urlFrame ann) ∧
    (task.bodyEnded = true → task.requests = [])

structure Bodyless (ann : WsBinding) (ls : List Label) (s : Conn) : Prop where
  codec : s.codec = some true
  opened : s.opened = (opening ls).isSome
  released : ∀ st, s.stream = some st → st.reqTx = false
  channel : ∀ (i : Nat) (task : Task), s.tasks[i]? = some task → ∃ f, opening ls = some f ∧ Taken ann f task

/-! ### Every run -/

theorem Taken.within {ann : WsBinding} {f : JsonFrame Value} {task : Task} (taken : Taken ann f task) :
    task.delivered <+: (payloads f).map (urlFrame ann) := ⟨_, taken.1⟩

theorem Taken.ended {ann : WsBinding} {f : JsonFrame Value} {task : Task} (taken : Taken ann f task)
    (past : task.bodyEnded = true) : task.delivered = (payloads f).map (urlFrame ann) := by
  have all := taken.1
  rwa [taken.2 past, List.map_nil, List.append_nil] at all

theorem Taken.advance {cfg : Config} {ann : WsBinding} (route : cfg.params.ann = some ann) {f : JsonFrame Value}
    {sender : Bool} {event : TaskEvent} {task task' : Task} (taken : Taken ann f task)
    (advances : task.Advances cfg sender event task') : Taken ann f task' := by
  obtain ⟨all, past⟩ := taken
  rcases advances.body with ⟨requests, delivered, ended⟩ | ⟨payload, _, queue, delivered, ended⟩ | ⟨_, _, empty, _, rfl⟩
  · exact ⟨by rw [requests, delivered]; exact all, by rw [requests, ended]; exact past⟩
  · have frame : requestFrame cfg.params.ann task.transcoder task.methodPath payload = urlFrame ann payload := by
      rw [route]
      rfl
    refine ⟨?_, fun read => ?_⟩
    · rw [delivered, frame, List.append_assoc, ← all, queue]
      rfl
    · have none_ := past (ended.symm.trans read)
      rw [queue] at none_
      cases none_
  · exact ⟨all, fun _ => empty⟩

theorem Taken.dropStream {ann : WsBinding} {f : JsonFrame Value} {task : Task} (taken : Taken ann f task)
    (own : Bool) : Taken ann f (if own then { task with aborted := true } else task) := by
  cases own with
  | true => exact taken
  | false => exact taken

theorem Taken.opened {cfg : Config} {ann : WsBinding} (route : cfg.params.ann = some ann)
    (bodyless : ann.hasBody = false) (f : JsonFrame Value) :
    Taken ann f (openTask cfg (jsonOpenToSubscribe f cfg.methodUrl) true) := by
  refine ⟨?_, nofun⟩
  simp [openTask, route, bodyless, payloads, jsonOpenToSubscribe]

/-- A JSON connection opens its stream with its first text frame. -/
theorem decode_opening (cfg : Config) {ls : List Label} {s : Conn} (codec : s.codec = some true)
    (opened : s.opened = (opening ls).isSome) (msg : Inbound Value) :
    (s.decode cfg msg).1.codec = some true ∧
      (s.decode cfg msg).1.opened = (opening (ls ++ [.read msg])).isSome ∧
      ∀ sub json, (s.decode cfg msg).2 = some (⟨some (.subscribe sub)⟩, json) →
        json = true ∧ opening ls = none ∧ ∃ f, opening (ls ++ [.read msg]) = some f ∧
          sub = jsonOpenToSubscribe f cfg.methodUrl := by
  rw [opening_snoc]
  cases msg with
  | binary data =>
    simp only [Conn.decode, codec, Option.getD_some, ↓reduceIte]
    exact ⟨trivial, by simpa [Label.textFrame?] using opened, fun _ _ decoded => by cases decoded⟩
  | text frame =>
    simp only [Conn.decode, codec, Option.getD_some, Bool.not_true, Bool.false_eq_true, ↓reduceIte]
    cases frame with
    | none => exact ⟨trivial, by simpa [Label.textFrame?, decodeText] using opened, fun _ _ decoded => by cases decoded⟩
    | some f =>
      refine ⟨trivial, by simp [decodeText, Label.textFrame?]; split <;> rfl, ?_⟩
      intro sub json decoded
      obtain ⟨passed, subscribes, ⟨⟩⟩ := Option.map_eq_some_iff.mp decoded
      obtain ⟨_, closed, _⟩ := decodeText_subscribe subscribes
      have first : opening ls = none := by simpa [closed] using opened.symm
      refine ⟨rfl, first, f, by rw [first]; rfl, ?_⟩
      simpa [decodeText, closed] using subscribes.symm
  | close => exact ⟨codec, by simpa [Conn.decode, Label.textFrame?] using opened, fun _ _ decoded => by cases decoded⟩
  | control => exact ⟨codec, by simpa [Conn.decode, Label.textFrame?] using opened, fun _ _ decoded => by cases decoded⟩

theorem Bodyless.initial (maxMessageBytes : Nat) (schema : Schema.Inner) (ann : WsBinding) (codec : Option Bool)
    (uriPath : String) : Bodyless ann [] (.initial (.upgrade maxMessageBytes schema (some ann) codec uriPath)) where
  codec := rfl
  opened := rfl
  released _ held := nomatch held
  channel _ _ found := nomatch found

variable [UriParser]

theorem Bodyless.lock {cfg : Config} {ann : WsBinding} {ls : List Label} {s t : Conn} {l : Label}
    (kept : Bodyless ann ls s) (taken : Step cfg s l t) :
    t.codec = some true ∧ t.opened = (opening (ls ++ [l])).isSome := by
  have after := Conn.step_locked taken
  cases l with
  | read msg =>
    obtain ⟨codec, opened, _⟩ := decode_opening cfg kept.codec kept.opened msg
    exact ⟨after.1.trans codec, after.2.trans opened⟩
  | _ =>
    rw [opening_snoc]
    exact ⟨after.1.trans kept.codec, after.2.trans (kept.opened.trans (by simp [Label.textFrame?]))⟩

theorem Bodyless.step {cfg : Config} {ann : WsBinding} (route : cfg.params.ann = some ann)
    (bodyless : ann.hasBody = false) {ls : List Label} {s t : Conn} {l : Label} (sound : s.Sound)
    (kept : Bodyless ann ls s) (taken : Step cfg s l t) : Bodyless ann (ls ++ [l]) t := by
  obtain ⟨codec, opened⟩ := kept.lock taken
  have earlier : ∀ (i : Nat) (task : Task), s.tasks[i]? = some task →
      ∃ f, opening (ls ++ [l]) = some f ∧ Taken ann f task := by
    intro i task found
    obtain ⟨f, opens, held⟩ := kept.channel i task found
    exact ⟨f, opening_append opens [l], held⟩
  cases sound.step_turn taken with
  | quiet tasks stream => exact ⟨codec, opened, by rw [stream]; exact kept.released, by rw [tasks]; exact earlier⟩
  | opened idle decoded opens =>
    rename_i msg sub json
    obtain ⟨rfl, none_, f, opens_, rfl⟩ := (decode_opening cfg kept.codec kept.opened msg).2.2 sub json decoded
    have fresh : s.tasks = [] := by
      rw [List.eq_nil_iff_forall_not_mem]
      intro task member
      obtain ⟨i, found⟩ := List.mem_iff_getElem?.mp member
      obtain ⟨f', before, _⟩ := kept.channel i task found
      cases none_.symm.trans before
    obtain ⟨_, _, eq, _⟩ := s.decode_eq cfg msg
    subst opens
    refine ⟨codec, opened, fun st held => ?_, fun i task found => ⟨f, opens_, ?_⟩⟩
    · obtain rfl := Option.some.inj held
      simp [route, bodyless]
    · rw [Conn.openStream_tasks, eq] at found
      simp only [fresh, List.nil_append, List.getElem?_singleton] at found
      obtain ⟨_, ⟨⟩⟩ := Option.ite_none_right_eq_some.mp found
      exact .opened route bodyless f
  | fed waits held _ _ tasks stream =>
    obtain ⟨i, sends⟩ := sound.feeding_stream waits
    exact absurd (kept.released _ sends) (by simp)
  | released held _ tasks stream =>
    refine ⟨codec, opened, fun st after => ?_, by rw [tasks]; exact earlier⟩
    obtain rfl := Option.some.inj (stream.symm.trans after)
    rfl
  | dropped _ tasks stream =>
    refine ⟨codec, opened, fun st after => (nomatch stream.symm.trans after), fun i task found => ?_⟩
    rw [tasks, Conn.dropStream_getElem] at found
    obtain ⟨before, here, rfl⟩ := Option.map_eq_some_iff.mp found
    obtain ⟨f, opens, held⟩ := earlier i before here
    exact ⟨f, opens, held.dropStream _⟩
  | advanced here advances tasks stream =>
    rename_i j event before after
    refine ⟨codec, opened, by rw [stream]; exact kept.released, fun i task found => ?_⟩
    rw [tasks] at found
    rcases found_set found with ⟨_, rfl⟩ | still
    · obtain ⟨f, opens, held⟩ := earlier j before here
      exact ⟨f, opens, held.advance route advances⟩
    · exact earlier i task still

theorem Run.bodyless {maxMessageBytes : Nat} {schema : Schema.Inner} {ann : WsBinding} (bodyless : ann.hasBody = false)
    {codec : Option Bool} {uriPath : String} {ls : List Label} {s : Conn}
    (run : Run (.upgrade maxMessageBytes schema (some ann) codec uriPath) ls s) : Bodyless ann ls s :=
  run.history (Q := fun _ _ _ => True) (fun _ _ _ _ _ => trivial)
    (fun _ _ _ _ before kept _ taken => kept.step rfl bodyless (Run.sound before) taken)
    (.initial maxMessageBytes schema ann codec uriPath)

/-! ### One request -/

variable [DynamicReflect]

/-- The request body of task `i` is one frame with `m`, whatever happens from here on, and the
backend can read it to its end. -/
structure OneRequest (cfg : Config) (s : Conn) (i : Nat) (m : Bytes) : Prop where
  reads : ∀ more t (task : Task), Transition.Run (Step cfg) s more t → t.tasks[i]? = some task →
    task.delivered <+: [GrpcFraming.frame m] ∧ (task.bodyEnded = true → task.delivered = [GrpcFraming.frame m])
  ends : ∃ reads t task', (∀ l ∈ reads, CleanEnd.ReadsBody l) ∧ Transition.Run (Step cfg) s reads t ∧
    t.tasks[i]? = some task' ∧ task'.bodyEnded = true

/-- `ann` is the route of an upgrade. A panic of `build` is no answer; `ann` has some error there. -/
structure Serves (route : Route) (ann : WsBinding) : Prop where
  grpcMethod : ann.grpcMethod = route.grpcMethod
  hasBody : ann.hasBody = route.hasBody
  build : ∀ payload m, ann.buildMessage payload = .ok m ↔ route.build payload = .ok m

/-- Where the backend has the body of a bodyless route, that body is the one request that the URL
makes exactly if the opening frame carries no message and the URL makes a request. -/
theorem one_request_iff (maxMessageBytes : Nat) (schema : Schema.Inner) (codec : Option Bool) (uriPath : String)
    {route : Route} {ann : WsBinding} (serves : Serves route ann) (bodyless : route.hasBody = false)
    (written : ∀ v : Value, toVec v ≠ []) {ls : List Label} {s : Conn} {f : JsonFrame Value} {i : Nat} {task : Task}
    (run : Run (.upgrade maxMessageBytes schema (some ann) codec uriPath) ls s) (opens : opening ls = some f)
    (found : s.tasks[i]? = some task) (called : task.called = true) (receives : task.receiver = true) :
    (∃ m, route.build [] = .ok m ∧ OneRequest (.upgrade maxMessageBytes schema (some ann) codec uriPath) s i m) ↔
      f.message = none ∧ ∃ m, route.build [] = .ok m := by
  have none_ : ann.hasBody = false := serves.hasBody.trans bodyless
  have taken : ∀ more t (task : Task),
      Transition.Run (Step (.upgrade maxMessageBytes schema (some ann) codec uriPath)) s more t →
      t.tasks[i]? = some task → Taken ann f task := by
    intro more t task rest found
    obtain ⟨f', opens', taken⟩ := (Run.bodyless none_ (run.append rest)).channel i task found
    obtain rfl := Option.some.inj ((opening_append opens more).symm.trans opens')
    exact taken
  have released : s.sender i = false := by
    have closed := (Run.bodyless none_ run).released
    cases held : s.stream with
    | none => simp [Conn.sender, held]
    | some st => simp [Conn.sender, held, closed st held]
  have ends :=
    CleanEnd.body_drains (.upgrade maxMessageBytes schema (some ann) codec uriPath) found called receives released
  constructor
  · rintro ⟨m, built, one⟩
    obtain ⟨reads, t, task', _, rest, there, past⟩ := ends
    have whole := (taken reads t task' rest there).ended past
    rw [(one.reads reads t task' rest there).2 past] at whole
    refine ⟨(payloads_length_iff written f).mp ?_, m, built⟩
    simpa using (congrArg List.length whole).symm
  · rintro ⟨silent, m, built⟩
    have all : (payloads f).map (urlFrame ann) = [GrpcFraming.frame m] := by
      simp [payloads, silent, urlFrame, (serves.build [] m).mpr built, Except.toOption]
    refine ⟨m, built, fun more t task rest there => ?_, ends⟩
    have held := taken more t task rest there
    rw [← all]
    exact ⟨held.within, held.ended⟩

end

/-! ### The method `Get` of the flags, annotated without a body -/

attribute [local instance] aliasSchema aliasReflect flagTexts slashUris

def getFlags : Route := ⟨⟨"GET", [.literal "flags"], .none, "/flag.Flags/Get", .flags⟩, [(["on"], "true")], none⟩

def getFlagsBinding : WsBinding := ⟨"/flag.Flags/Get", false, fun _ => .ok [8, 1]⟩

theorem getFlags_build (payload : Bytes) : getFlags.build payload = .ok [8, 1] := rfl

theorem getFlags_serves : Serves getFlags getFlagsBinding where
  grpcMethod := rfl
  hasBody := rfl
  build payload m := by rw [getFlags_build]; simp [getFlagsBinding]

def flagsUpgrade : Config := .upgrade 64 (.bundled ⟨none⟩) (some getFlagsBinding) none "/flags"

def opensWith (message : Option (Option Bool)) : List Label :=
  [.read (.text (some { message })), .task 0 (.resolve none)]

theorem one_request_iff_silent : ∃ s : Conn, Run flagsUpgrade (opensWith none) s ∧
    ((∃ m, getFlags.build [] = .ok m ∧ OneRequest flagsUpgrade s 0 m) ↔
      (none : Option (Option Bool)) = none ∧ ∃ m, getFlags.build [] = .ok m) := by
  have run : Run flagsUpgrade (opensWith none) _ := .cons rfl (.cons rfl (.nil _))
  refine ⟨_, run, ?_⟩
  refine one_request_iff 64 (.bundled ⟨none⟩) none "/flags" getFlags_serves rfl ?_ run rfl rfl rfl rfl
  rintro (_ | _ | _) <;> decide

/-- An opening frame with the message `{}`: the backend gets the request of the URL twice. -/
theorem opening_message_doubles : ∃ s : Conn, Run flagsUpgrade (opensWith (some (some false))) s ∧
    s.tasks.map Task.called = [true] ∧
      ¬∃ m, getFlags.build [] = .ok m ∧ OneRequest flagsUpgrade s 0 m := by
  refine ⟨_, .cons rfl (.cons rfl (.nil _)), rfl, ?_⟩
  rintro ⟨m, _, one⟩
  obtain ⟨within, _⟩ := one.reads [.task 0 .deliver, .task 0 .deliver] _ _ (.cons rfl (.cons rfl (.nil _))) rfl
  exact absurd within.length_le (by simp)

end BodylessRoute
end Ws
end GrpcWebnext
