import GrpcWebnext.Http

/-!
# Bodies and backend calls

What `body.frame().await` resolves to, and a backend's answer as a schedule on a clock that
starts when the call is dispatched. Times are in nanoseconds.
-/

namespace GrpcWebnext

/-- `str::parse::<PathAndQuery>`, by the texts it accepts. A parsed value is kept as its text. -/
class UriParser where
  pathAndQuery : String → Bool

abbrev slashUris : UriParser := ⟨fun text => text.toList.head? = some '/'⟩

def pathOf (pathAndQuery : String) : String := String.ofList (pathAndQuery.toList.takeWhile (· ≠ '?'))

/-- `BoxError`, by the text it displays. -/
abbrev BoxError := String

/-- One result of `body.frame().await`: a frame, `Some(Err(_))` or `None`. -/
inductive BodyEvent where
  | data (bytes : Bytes)
  | trailers (trailers : HeaderMap)
  | error (e : BoxError)
  | eof
  deriving DecidableEq

/-- A body as the events it yields. A list that runs out before `error` or `eof` is a body
that stays pending. -/
abbrev Body := List BodyEvent

namespace Body

def bytes : Body → Bytes
  | [] => []
  | .data d :: rest => d ++ bytes rest
  | .trailers _ :: rest => bytes rest
  | .error _ :: _ => []
  | .eof :: _ => []

def stops : Body → Bool
  | [] => false
  | .data _ :: rest => stops rest
  | .trailers _ :: rest => stops rest
  | .error _ :: _ => true
  | .eof :: _ => true

end Body

/-- Body events, each with the time it becomes available. -/
abbrev TimedBody := List (Nat × BodyEvent)

structure Response where
  status : Nat
  headers : HeaderMap
  body : TimedBody
  deriving DecidableEq

/-- `Backend::call`: when it resolves and to what; `none` if it never does. -/
abbrev Call := Option (Nat × Except BoxError Response)

/-- Whether a future that is ready at `ready` resolves under a timeout at `deadline`, polled
from `now` on. The future is polled before the timer, so a tie resolves. -/
def inTime (deadline : Option Nat) (now ready : Nat) : Bool :=
  match deadline with
  | none => true
  | some d => ready ≤ now || ready ≤ d

theorem inTime_now : inTime none 0 0 = true := rfl

def answered (deadline : Option Nat) (call : Call) : Option (Nat × Response) :=
  match call with
  | some (ready, .ok resp) => if inTime deadline 0 ready then some (ready, resp) else none
  | _ => none

inductive BodyFrame where
  | data (bytes : Bytes)
  | trailers (trailers : HeaderMap)
  deriving DecidableEq

inductive Halt where
  | eof (at_ : Nat)
  | error (at_ : Nat) (e : BoxError)
  | timeout (at_ : Nat)
  | pending
  deriving DecidableEq

/-- What a reader that awaits frame after frame gets: each frame with the time it is handed
over, then the reason for stopping. -/
@[ext] structure Arrivals where
  frames : List (Nat × BodyFrame)
  halt : Halt
  deriving DecidableEq

/-- The reader's loop around `body.frame().await`, under a timeout at `deadline`. -/
def arrivals (deadline : Option Nat) (now : Nat) : TimedBody → Arrivals
  | [] =>
    match deadline with
    | none => ⟨[], .pending⟩
    | some d => ⟨[], .timeout (max now d)⟩
  | (ready, event) :: rest =>
    if inTime deadline now ready then
      let at_ := max now ready
      match event with
      | .data b =>
        let later := arrivals deadline at_ rest
        ⟨(at_, .data b) :: later.frames, later.halt⟩
      | .trailers t =>
        let later := arrivals deadline at_ rest
        ⟨(at_, .trailers t) :: later.frames, later.halt⟩
      | .error e => ⟨[], .error at_ e⟩
      | .eof => ⟨[], .eof at_⟩
    else ⟨[], .timeout (max now (deadline.getD 0))⟩

namespace Arrivals

def lastTrailers (held : HeaderMap) : List (Nat × BodyFrame) → HeaderMap
  | [] => held
  | (_, .data _) :: rest => lastTrailers held rest
  | (_, .trailers t) :: rest => lastTrailers t rest

def bytes : List (Nat × BodyFrame) → Bytes
  | [] => []
  | (_, .data b) :: rest => b ++ bytes rest
  | (_, .trailers _) :: rest => bytes rest

end Arrivals

def Halt.time : Halt → Option Nat
  | .eof now => some now
  | .error now _ => some now
  | .timeout now => some now
  | .pending => none

def Arrivals.cut (d : Nat) (seen : Arrivals) : Arrivals where
  frames := seen.frames.filter (·.1 ≤ d)
  halt := if seen.halt.time.any (· ≤ d) then seen.halt else .timeout d

theorem arrivals_ordered (now : Nat) (body : TimedBody) :
    let seen := arrivals none now body
    (∀ f ∈ seen.frames, now ≤ f.1) ∧ seen.frames.Pairwise (·.1 ≤ ·.1) ∧
      ∀ t ∈ seen.halt.time, now ≤ t ∧ ∀ f ∈ seen.frames, f.1 ≤ t := by
  induction body generalizing now with
  | nil => simp [arrivals, Halt.time]
  | cons event rest ih =>
    obtain ⟨ready, event⟩ := event
    obtain ⟨after, sorted, before⟩ := ih (max now ready)
    cases event with
    | data b | trailers b =>
      simp only [arrivals, inTime, ↓reduceIte, List.mem_cons, forall_eq_or_imp, List.pairwise_cons]
      refine ⟨⟨Nat.le_max_left _ _, ?_⟩, ⟨after, sorted⟩, ?_⟩
      · intro f member
        exact Nat.le_trans (Nat.le_max_left _ _) (after f member)
      · intro t halted
        obtain ⟨start, all⟩ := before t halted
        exact ⟨Nat.le_trans (Nat.le_max_left _ _) start, start, all⟩
    | error _ | eof =>
      refine ⟨List.forall_mem_nil _, .nil, fun t halted => ⟨?_, List.forall_mem_nil _⟩⟩
      cases halted
      exact Nat.le_max_left now ready

/-- A deadline cuts the schedule and changes nothing before it. -/
theorem arrivals_cut {d now : Nat} (start : now ≤ d) (body : TimedBody) :
    arrivals (some d) now body = (arrivals none now body).cut d := by
  induction body generalizing now with
  | nil => simp [arrivals, Arrivals.cut, Halt.time, Nat.max_eq_right start]
  | cons event rest ih =>
    obtain ⟨ready, event⟩ := event
    have unbounded : inTime none now ready = true := rfl
    by_cases ontime : max now ready ≤ d
    · have accepted : inTime (some d) now ready = true := by
        simp only [inTime, Bool.or_eq_true, decide_eq_true_eq]
        omega
      cases event with
      | data b | trailers b =>
        simp only [arrivals, accepted, unbounded, ↓reduceIte, ih ontime, Arrivals.cut, ontime, decide_true,
          List.filter_cons_of_pos]
      | error e => simp [arrivals, accepted, unbounded, Arrivals.cut, Halt.time, ontime]
      | eof => simp [arrivals, accepted, unbounded, Arrivals.cut, Halt.time, ontime]
    · have refused : inTime (some d) now ready = false := by
        simp only [inTime, Bool.or_eq_false_iff, decide_eq_false_iff_not]
        omega
      obtain ⟨after, _, before⟩ := arrivals_ordered (max now ready) rest
      have dropped : (arrivals none (max now ready) rest).frames.filter (·.1 ≤ d) = [] := by
        simp only [List.filter_eq_nil_iff, decide_eq_true_eq]
        intro f member
        have := after f member
        omega
      have late : (arrivals none (max now ready) rest).halt.time.any (· ≤ d) = false := by
        cases halted : (arrivals none (max now ready) rest).halt.time with
        | none => rfl
        | some t =>
          have := (before t halted).1
          simp only [Option.any_some, decide_eq_false_iff_not]
          omega
      cases event with
      | data b | trailers b =>
        simp [arrivals, refused, unbounded, Arrivals.cut, ontime, Nat.max_eq_right start, dropped, late]
      | error e => simp [arrivals, refused, unbounded, Arrivals.cut, Halt.time, ontime, Nat.max_eq_right start]
      | eof => simp [arrivals, refused, unbounded, Arrivals.cut, Halt.time, ontime, Nat.max_eq_right start]

theorem Arrivals.cut_eof_iff (d : Nat) (seen : Arrivals) (now : Nat) :
    (seen.cut d).halt = .eof now ↔ seen.halt = .eof now ∧ now ≤ d := by
  unfold Arrivals.cut
  cases halt : seen.halt with
  | eof t =>
    by_cases early : t ≤ d
    · simp only [Halt.time, Option.any_some, early, decide_true, ↓reduceIte, Halt.eof.injEq]
      constructor
      · rintro rfl
        exact ⟨rfl, early⟩
      · exact And.left
    · simp only [Halt.time, Option.any_some, early, decide_false, Bool.false_eq_true, ↓reduceIte, reduceCtorEq,
        false_iff, Halt.eof.injEq]
      rintro ⟨rfl, before⟩
      exact early before
  | error t e => by_cases early : t ≤ d <;> simp [Halt.time, early]
  | timeout t => by_cases early : t ≤ d <;> simp [Halt.time, early]
  | pending => simp [Halt.time]

theorem arrivals_whole {d now t : Nat} (start : now ≤ d) {body : TimedBody}
    (ended : (arrivals none now body).halt = .eof t) (fits : t ≤ d) :
    arrivals (some d) now body = arrivals none now body := by
  obtain ⟨_, _, before⟩ := arrivals_ordered now body
  have all := (before t (by simp [ended, Halt.time])).2
  have kept : (arrivals none now body).frames.filter (·.1 ≤ d) = (arrivals none now body).frames :=
    List.filter_eq_self.mpr fun f member => by simpa using Nat.le_trans (all f member) fits
  have halt : ((arrivals none now body).cut d).halt = (arrivals none now body).halt := by
    rw [ended, Arrivals.cut_eof_iff]
    exact ⟨ended, fits⟩
  rw [arrivals_cut start]
  exact Arrivals.ext kept halt

theorem arrivals_le {d now : Nat} (start : now ≤ d) (body : TimedBody) :
    (∀ f ∈ (arrivals (some d) now body).frames, f.1 ≤ d) ∧
      ∀ t ∈ (arrivals (some d) now body).halt.time, t ≤ d := by
  rw [arrivals_cut start]
  constructor
  · intro f member
    simpa using (List.mem_filter.mp member).2
  · intro t halted
    simp only [Arrivals.cut] at halted
    split at halted
    · rename_i early
      rw [Option.mem_def.mp halted] at early
      simpa using early
    · cases halted
      exact Nat.le_refl d

end GrpcWebnext
