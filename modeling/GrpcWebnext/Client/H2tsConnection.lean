import GrpcWebnext.Lib.Transition

/-!
# The connection of an h2ts transport

`H2tsTransport` opens its connection with the first call and keeps the promise of it. `conn` looks at
that promise only, so a failed attempt stays, and `close` keeps nobody from opening another one.
-/

namespace GrpcWebnext
namespace Client
namespace H2tsConnection
open Transition

/-- Where the promise of `connectWebSocket` stands, and the connection behind it. -/
inductive Phase where
  | pending
  | failed
  | live
  | gone
  deriving DecidableEq

/-- `closing` once `close` waits for the connection to close it, `late` if it was opened behind a `close`. -/
structure Attempt where
  phase : Phase := .pending
  closing : Bool := false
  late : Bool

structure H2tsTransport where
  connection : Option Nat := none
  closed : Bool := false

/-- A transport with all its attempts, and for each call the attempt it awaits and where that stood. -/
structure World where
  transport : H2tsTransport := {}
  attempts : List Attempt := []
  awaited : List (Nat × Phase) := []

namespace World

/-- `conn`, with the attempt of the promise that it returns. -/
def conn (w : World) : World × Nat :=
  match w.transport.connection with
  | some i => (w, i)
  | none =>
    let i := w.attempts.length
    ({ w with
      transport := { w.transport with connection := some i }
      attempts := w.attempts ++ [{ late := w.transport.closed }] }, i)

def phase (w : World) (i : Nat) : Phase := (w.attempts[i]?.map Attempt.phase).getD .pending

/-- What `unary` and `startStream` do first. -/
def call (w : World) : World :=
  let (w, i) := w.conn
  { w with awaited := w.awaited ++ [(i, w.phase i)] }

def close (w : World) : World :=
  if w.transport.closed then w
  else
    { w with
      transport := { closed := true, connection := none }
      attempts := match w.transport.connection with
        | some i => w.attempts.modify i fun a => { a with closing := true }
        | none => w.attempts }

/-- Attempt `i` goes on if it is as `waits` says. -/
def advance (w : World) (i : Nat) (waits : Attempt → Bool) (phase : Phase) : Option World :=
  if w.attempts[i]?.any waits then
    some { w with attempts := w.attempts.modify i fun a => { a with phase } }
  else none

end World

inductive Label where
  | call
  | close
  | succeeds (i : Nat)
  | fails (i : Nat)
  /-- the other side or the network ends a connection -/
  | drops (i : Nat)
  /-- the `then` of `close` -/
  | closes (i : Nat)

def World.step (w : World) : Label → Option World
  | .call => some w.call
  | .close => some w.close
  | .succeeds i => w.advance i (fun a => a.phase = .pending) .live
  | .fails i => w.advance i (fun a => a.phase = .pending) .failed
  | .drops i => w.advance i (fun a => a.phase = .live) .gone
  | .closes i => w.advance i (fun a => a.phase = .live && a.closing) .gone

/-- The state behind some events, none if they are not possible. -/
def after (ls : List Label) : Option World := ls.foldlM World.step {}

theorem after_append_singleton (ls : List Label) (l : Label) :
    after (ls ++ [l]) = (after ls).bind fun w => w.step l := by
  simp [after, List.foldlM_append]

/-- One live connection at most, none opened behind a `close`, and no call that awaits an attempt that
had failed before it. -/
structure Sound (w : World) : Prop where
  live : w.attempts.countP (fun a => a.phase = .live) ≤ 1
  opened : ∀ a ∈ w.attempts, a.late = false
  fresh : ∀ c ∈ w.awaited, c.2 ≠ .failed

/-- No call starts behind a `close`, nor once the attempt of the transport has failed. -/
def Allowed (w : World) : Label → Prop
  | .call => w.transport.closed = false ∧ ∀ i, w.transport.connection = some i → w.phase i ≠ .failed
  | _ => True

/-! ### Runs -/

/-- There is one attempt at most, and it is cached until `close`. -/
structure Single (w : World) : Prop extends Sound w where
  connection : w.transport.connection = if w.transport.closed ∨ w.attempts = [] then none else some 0
  one : w.attempts.length ≤ 1

theorem Single.start : Single {} where
  live := by decide
  opened := nofun
  fresh := nofun
  connection := rfl
  one := by decide

/-- What changes attempts in place, and neither whether they are late nor the transport, keeps `Single`. -/
theorem Single.modify {w : World} (single : Single w) (i : Nat) (f : Attempt → Attempt)
    (late : ∀ a, (f a).late = a.late) (transport : H2tsTransport)
    (connection : transport.connection = if transport.closed ∨ w.attempts = [] then none else some 0) :
    Single { w with transport, attempts := w.attempts.modify i f } := by
  have one : (w.attempts.modify i f).length ≤ 1 := by
    rw [List.length_modify]
    exact single.one
  have empty : w.attempts.modify i f = [] ↔ w.attempts = [] := by
    rw [← List.length_eq_zero_iff, List.length_modify, List.length_eq_zero_iff]
  refine ⟨⟨Nat.le_trans List.countP_le_length one, ?_, single.fresh⟩, ?_, one⟩
  · intro a member
    obtain ⟨j, within, rfl⟩ := List.getElem_of_mem member
    rw [List.length_modify] at within
    rw [List.getElem_modify]
    have opened := single.opened _ (List.getElem_mem within)
    split
    · exact (late _).trans opened
    · exact opened
  · simpa only [empty] using connection

theorem Single.advance {w w' : World} (single : Single w) {i : Nat} {waits : Attempt → Bool} {phase : Phase}
    (taken : w.advance i waits phase = some w') : Single w' := by
  obtain ⟨_, ⟨⟩⟩ := Option.ite_none_right_eq_some.mp taken
  exact single.modify i (fun a => { a with phase }) (fun _ => rfl) w.transport single.connection

theorem Single.close {w : World} (single : Single w) : Single w.close := by
  unfold World.close
  split
  · exact single
  · split
    · exact single.modify _ (fun a => { a with closing := true }) (fun _ => rfl) ⟨none, true⟩ (by simp)
    · exact ⟨⟨single.live, single.opened, single.fresh⟩, by simp, single.one⟩

theorem conn_cached {w : World} {i : Nat} (cached : w.transport.connection = some i) : w.conn = (w, i) := by
  rw [World.conn, cached]

theorem conn_fresh {w : World} (none_ : w.transport.connection = none) :
    w.conn = ({ w with
      transport := { w.transport with connection := some w.attempts.length }
      attempts := w.attempts ++ [{ late := w.transport.closed }] }, w.attempts.length) := by
  rw [World.conn, none_]

theorem Single.call {w : World} (single : Single w) (allowed : Allowed w .call) : Single w.call := by
  obtain ⟨still, fresh⟩ := allowed
  have cached := single.connection
  rw [still] at cached
  unfold World.call
  cases here : w.transport.connection with
  | some i =>
    rw [conn_cached here]
    refine ⟨⟨single.live, single.opened, ?_⟩, single.connection, single.one⟩
    intro c member
    rcases List.mem_append.mp member with before | now
    · exact single.fresh c before
    · obtain rfl := List.mem_singleton.mp now
      exact fresh i here
  | none =>
    have empty : w.attempts = [] := by
      rw [here] at cached
      by_contra some_
      rw [if_neg (by simpa using some_)] at cached
      cases cached
    rw [conn_fresh here]
    simp only [empty, still]
    refine ⟨⟨Nat.zero_le 1, ?_, ?_⟩, ?_, Nat.le_refl 1⟩
    · intro a member
      obtain rfl := List.mem_singleton.mp member
      rfl
    · intro c member
      rcases List.mem_append.mp member with before | now
      · exact single.fresh c before
      · obtain rfl := List.mem_singleton.mp now
        nofun
    · simp

theorem Single.needs {w : World} (single : Single w) (sound : Sound w.call) : Allowed w .call := by
  constructor
  · by_contra shut
    rw [Bool.not_eq_false] at shut
    have none_ : w.transport.connection = none := by rw [single.connection, if_pos (.inl shut)]
    have opened := sound.opened
    unfold World.call at opened
    rw [conn_fresh none_] at opened
    have late := opened { late := w.transport.closed } (List.mem_append_right _ List.mem_cons_self)
    exact nomatch shut.symm.trans late
  · intro i cached
    have fresh := sound.fresh
    unfold World.call at fresh
    rw [conn_cached cached] at fresh
    exact fresh (i, w.phase i) (List.mem_append_right _ List.mem_cons_self)

/-- The connection cache is sound along a run exactly if no call starts behind a `close`, nor once the
attempt that the transport holds has failed. -/
theorem cache_sound_iff (ls : List Label) :
    (∀ pre, pre <+: ls → ∀ w, after pre = some w → Sound w) ↔
      ∀ pre l, pre ++ [l] <+: ls → ∀ w, after pre = some w → Allowed w l := by
  apply along_prefixes_iff (P := fun pre => ∀ w, after pre = some w → Single w)
  · exact fun pre single w reached => (single w reached).toSound
  · intro pre l _ single sound w reached
    cases l with
    | call =>
      refine (single w reached).needs (sound _ ?_)
      rw [after_append_singleton, reached]
      rfl
    | close | succeeds | fails | drops | closes => trivial
  · intro pre l _ single allowed w' reached
    rw [after_append_singleton] at reached
    obtain ⟨w, before, taken⟩ := Option.bind_eq_some_iff.mp reached
    cases l with
    | call =>
      cases taken
      exact (single w before).call (allowed w before)
    | close =>
      cases taken
      exact (single w before).close
    | succeeds | fails | drops | closes => exact (single w before).advance taken
  · rintro w ⟨⟩
    exact .start

/-- The first attempt fails, and the next call awaits it, too. Behind a `close` that is still to run, the
next call opens a second connection. -/
theorem failed_attempt_kept :
    (∃ w, after [.call, .fails 0, .call] = some w ∧ w.awaited = [(0, .pending), (0, .failed)] ∧ ¬Sound w) ∧
      ∃ w, after [.call, .succeeds 0, .close, .call, .succeeds 1] = some w ∧
        w.attempts.map Attempt.phase = [.live, .live] ∧ w.attempts.map Attempt.late = [false, true] ∧ ¬Sound w := by
  refine ⟨⟨_, rfl, rfl, fun sound => ?_⟩, ⟨_, rfl, rfl, rfl, fun sound => ?_⟩⟩
  · exact sound.fresh (0, .failed) (by decide) rfl
  · exact absurd sound.live (by decide)

end H2tsConnection
end Client
end GrpcWebnext
