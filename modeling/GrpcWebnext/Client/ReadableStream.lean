import GrpcWebnext.Lib.Transition

/-!
# The async iterator of a readable stream

`ClientReadableStream`: messages wait in a buffer or go to the one `next()` in the waiter slot, and
the end of the stream settles what is in that slot.
-/

namespace GrpcWebnext
namespace Client

open Transition

variable {Res Err : Type}

/-- What the promise of a `next()` settles with. -/
inductive IteratorResult (Res Err : Type) where
  | value (m : Res)
  | done
  | rejected (e : Err)
  deriving DecidableEq, Repr

/-- The waiter is the number of the `next()` whose promise it settles. -/
structure ClientReadableStream (Res Err : Type) where
  buffer : List Res := []
  ended : Bool := false
  errored : Option Err := none
  waiter : Option Nat := none

namespace ClientReadableStream

/-- A stream, and the promise that was settled on the way. -/
abbrev Settling (Res Err : Type) : Type :=
  ClientReadableStream Res Err × Option (Nat × IteratorResult Res Err)

def push (s : ClientReadableStream Res Err) (m : Res) : Settling Res Err :=
  match s.waiter with
  | some w => ({ s with waiter := none }, some (w, .value m))
  | none => ({ s with buffer := s.buffer ++ [m] }, none)

def finish (s : ClientReadableStream Res Err) : Settling Res Err :=
  let s := { s with ended := true }
  match s.waiter with
  | some w => ({ s with waiter := none }, some (w, s.errored.elim .done .rejected))
  | none => (s, none)

def fail (s : ClientReadableStream Res Err) (e : Err) : Settling Res Err :=
  { s with errored := some e }.finish

/-- The `k`-th `next()`. A promise that is not settled at once goes to the waiter slot. -/
def next (s : ClientReadableStream Res Err) (k : Nat) :
    ClientReadableStream Res Err × Option (IteratorResult Res Err) :=
  match s.buffer with
  | m :: buffer => ({ s with buffer }, some (.value m))
  | [] =>
    match s.errored with
    | some e => (s, some (.rejected e))
    | none => if s.ended then (s, some .done) else ({ s with waiter := some k }, none)

end ClientReadableStream

/-- The listeners that the constructor registers, and the calls of the iterator. -/
inductive StreamEvent (Res Err : Type) where
  | data (m : Res)
  | end_
  | error (e : Err)
  | next

namespace StreamEvent

def message? : StreamEvent Res Err → Option Res
  | .data m => some m
  | _ => none

def error? : StreamEvent Res Err → Option Err
  | .error e => some e
  | _ => none

def closes : StreamEvent Res Err → Bool
  | .end_ | .error _ => true
  | _ => false

def reads : StreamEvent Res Err → Bool
  | .next => true
  | _ => false

end StreamEvent

/-- A stream with the promises of all `next()` calls so far. -/
structure Iteration (Res Err : Type) where
  stream : ClientReadableStream Res Err := {}
  promises : List (Option (IteratorResult Res Err)) := []

namespace Iteration

/-- A promise keeps the first thing it is settled with. -/
def settle (s : Iteration Res Err) : ClientReadableStream.Settling Res Err → Iteration Res Err
  | (stream, some (w, r)) => ⟨stream, s.promises.modify w (·.or (some r))⟩
  | (stream, none) => ⟨stream, s.promises⟩

def step (s : Iteration Res Err) : StreamEvent Res Err → Iteration Res Err
  | .data m => s.settle (s.stream.push m)
  | .end_ => s.settle s.stream.finish
  | .error e => s.settle (s.stream.fail e)
  | .next =>
    let (stream, r) := s.stream.next s.promises.length
    ⟨stream, s.promises ++ [r]⟩

end Iteration

def iterate (es : List (StreamEvent Res Err)) : Iteration Res Err :=
  es.foldl .step {}

theorem iterate_append_singleton (es : List (StreamEvent Res Err)) (e : StreamEvent Res Err) :
    iterate (es ++ [e]) = (iterate es).step e := by
  simp [iterate]

/-- What arrives empties the waiter slot. It is buffered if the slot was empty before. -/
theorem step_arrives (s : Iteration Res Err) {e : StreamEvent Res Err} (arrives : e.reads = false) :
    (s.step e).stream =
      { buffer := s.stream.buffer ++ if s.stream.waiter.isSome then [] else e.message?.toList
        ended := s.stream.ended || e.closes
        errored := e.error?.or s.stream.errored
        waiter := none } := by
  cases slot : s.stream.waiter with
  | none =>
    cases e <;> simp [Iteration.step, ClientReadableStream.push, ClientReadableStream.finish,
      ClientReadableStream.fail, Iteration.settle, slot, StreamEvent.closes, StreamEvent.message?,
      StreamEvent.error?] at arrives ⊢
    cases arrives
  | some w =>
    cases e <;> simp [Iteration.step, ClientReadableStream.push, ClientReadableStream.finish,
      ClientReadableStream.fail, Iteration.settle, slot, StreamEvent.closes,
      StreamEvent.error?] at arrives ⊢
    cases arrives

/-! ### Outcomes -/

section

variable (es : List (StreamEvent Res Err))

def messages : List Res :=
  es.filterMap StreamEvent.message?

def failure : Option Err :=
  (es.filterMap StreamEvent.error?).getLast?

def closed : Bool :=
  es.any StreamEvent.closes

def nexts : Nat :=
  es.countP StreamEvent.reads

/-- What every `next()` behind the last message gets. -/
def final : Option (IteratorResult Res Err) :=
  if closed es then some ((failure es).elim .done .rejected) else none

/-- What the `k`-th `next()` is due, if that is known already. -/
def outcome (k : Nat) : Option (IteratorResult Res Err) :=
  ((messages es)[k]?.map .value).or (final es)

/-- Every `next()` has settled with its outcome, or its outcome is not known. -/
def Fifo : Prop :=
  (iterate es).promises = (List.range (nexts es)).map (outcome es)

instance [DecidableEq Res] [DecidableEq Err] : Decidable (Fifo es) :=
  inferInstanceAs (Decidable (_ = _))

/-- Behind the end of the stream: another end, or the same error again. -/
def Repeats : StreamEvent Res Err → Prop
  | .end_ => closed es = true
  | .error e => failure es = some e
  | _ => False

/-- At most one `next()` is outstanding when something arrives, and none has run into the end of the
stream when a message or another error arrives behind it. -/
def Allowed (e : StreamEvent Res Err) : Prop :=
  e.reads = true ∨ nexts es ≤ (messages es).length + (if closed es then 0 else 1) ∨ Repeats es e

end

theorem final_of_open {es : List (StreamEvent Res Err)} (still : closed es = false) : final es = none := by
  rw [final, still]
  rfl

theorem failure_of_open {es : List (StreamEvent Res Err)} (still : closed es = false) : failure es = none := by
  have none_ : es.filterMap StreamEvent.error? = [] := by
    rw [List.filterMap_eq_nil_iff]
    intro e mem
    have stays : e.closes = false := by simpa using List.any_eq_false.mp still e mem
    cases e with
    | error e => cases stays
    | _ => rfl
  rw [failure, none_]
  rfl

theorem outcome_of_lt {es : List (StreamEvent Res Err)} {k : Nat} (within : k < (messages es).length) :
    outcome es k = some (.value (messages es)[k]) := by
  rw [outcome, List.getElem?_eq_getElem within]
  rfl

theorem outcome_of_le {es : List (StreamEvent Res Err)} {k : Nat} (beyond : (messages es).length ≤ k) :
    outcome es k = final es := by
  rw [outcome, List.getElem?_eq_none beyond]
  rfl

section

variable (es : List (StreamEvent Res Err)) (e : StreamEvent Res Err)

theorem messages_append_singleton : messages (es ++ [e]) = messages es ++ e.message?.toList := by
  rw [messages, messages, List.filterMap_append]
  cases e <;> rfl

theorem nexts_append_singleton : nexts (es ++ [e]) = nexts es + if e.reads then 1 else 0 := by
  rw [nexts, nexts, List.countP_append, List.countP_singleton]

theorem closed_append_singleton : closed (es ++ [e]) = (closed es || e.closes) := by
  simp [closed]

theorem failure_append_singleton : failure (es ++ [e]) = e.error?.or (failure es) := by
  rw [failure, failure, List.filterMap_append]
  cases e <;> simp [StreamEvent.error?]

end

/-! ### Runs -/

/-- The stream is what the events so far make of it. -/
structure Sound (es : List (StreamEvent Res Err)) : Prop where
  fifo : Fifo es
  buffer : (iterate es).stream.buffer = (messages es).drop (nexts es)
  ended : (iterate es).stream.ended = closed es
  errored : (iterate es).stream.errored = failure es
  waiter : (iterate es).stream.waiter =
    if closed es = false ∧ (messages es).length < nexts es then some (nexts es - 1) else none

theorem Sound.nil : Sound ([] : List (StreamEvent Res Err)) :=
  ⟨rfl, rfl, rfl, rfl, rfl⟩

section

variable {es : List (StreamEvent Res Err)}

theorem Sound.length (sound : Sound es) : (iterate es).promises.length = nexts es := by
  rw [sound.fifo]
  simp

theorem Sound.promise (sound : Sound es) {k : Nat} (asked : k < nexts es) :
    (iterate es).promises[k]? = some (outcome es k) := by
  rw [sound.fifo]
  simp [asked]

theorem outcome_data (es : List (StreamEvent Res Err)) (m : Res) :
    outcome (es ++ [.data m]) (messages es).length = some (.value m) := by
  simp [outcome, messages_append_singleton, StreamEvent.message?]

theorem outcome_end (es : List (StreamEvent Res Err)) :
    outcome (es ++ [.end_]) (messages es).length = some ((failure es).elim .done .rejected) := by
  rw [outcome_of_le (by simp [messages_append_singleton, StreamEvent.message?])]
  simp [final, closed_append_singleton, failure_append_singleton, StreamEvent.closes, StreamEvent.error?]

theorem outcome_error (es : List (StreamEvent Res Err)) (e : Err) :
    outcome (es ++ [.error e]) (messages es).length = some (.rejected e) := by
  rw [outcome_of_le (by simp [messages_append_singleton, StreamEvent.message?])]
  simp [final, closed_append_singleton, failure_append_singleton, StreamEvent.closes, StreamEvent.error?]

theorem outcome_append_of_lt (e : StreamEvent Res Err) {k : Nat} (within : k < (messages es).length) :
    outcome (es ++ [e]) k = outcome es k := by
  rw [outcome, outcome, messages_append_singleton, List.getElem?_append_left within,
    List.getElem?_eq_getElem within]
  rfl

/-- What arrives goes to the `next()` in the waiter slot: the outcome of the first one behind the
messages before. -/
theorem Sound.arrives (sound : Sound es) {e : StreamEvent Res Err} (arrives : e.reads = false) :
    (iterate (es ++ [e])).promises =
      match (iterate es).stream.waiter with
      | some w => (iterate es).promises.modify w (·.or (outcome (es ++ [e]) (messages es).length))
      | none => (iterate es).promises := by
  rw [iterate_append_singleton]
  cases e with
  | next => cases arrives
  | data m =>
    rw [outcome_data]
    simp only [Iteration.step, ClientReadableStream.push]
    cases (iterate es).stream.waiter <;> rfl
  | end_ =>
    rw [outcome_end, ← sound.errored]
    simp only [Iteration.step, ClientReadableStream.finish]
    cases (iterate es).stream.waiter <;> rfl
  | error e =>
    rw [outcome_error]
    simp only [Iteration.step, ClientReadableStream.fail, ClientReadableStream.finish]
    cases (iterate es).stream.waiter <;> rfl

/-- What arrives settles nothing but the `next()` in the waiter slot. -/
theorem Sound.unmoved (sound : Sound es) {e : StreamEvent Res Err} (arrives : e.reads = false)
    (fifo : Fifo (es ++ [e])) {k : Nat} (asked : k < nexts es) (other : (iterate es).stream.waiter ≠ some k) :
    outcome (es ++ [e]) k = outcome es k := by
  have after : (iterate (es ++ [e])).promises[k]? = some (outcome (es ++ [e]) k) := by
    rw [fifo, nexts_append_singleton, arrives]
    simp [asked]
  have before : (iterate (es ++ [e])).promises[k]? = some (outcome es k) := by
    rw [sound.arrives arrives, ← sound.promise asked]
    cases slot : (iterate es).stream.waiter with
    | none => rfl
    | some w =>
      have ne : w ≠ k := fun same => other (slot.trans (congrArg some same))
      simp [ne]
  exact Option.some.inj (after.symm.trans before)

theorem Sound.needs (sound : Sound es) {e : StreamEvent Res Err} (fifo : Fifo (es ++ [e])) : Allowed es e := by
  cases arrives : e.reads with
  | true => exact .inl arrives
  | false =>
    apply Or.inr
    by_cases few : nexts es ≤ (messages es).length + if closed es then 0 else 1
    · exact .inl few
    have asked : (messages es).length < nexts es := by omega
    have other : (iterate es).stream.waiter ≠ some (messages es).length := by
      rw [sound.waiter]
      split
      · rename_i waits
        simp only [waits.1] at few
        simp at few ⊢
        omega
      · nofun
    have same := sound.unmoved arrives fifo asked other
    rw [outcome_of_le (Nat.le_refl _), final] at same
    cases still : closed es with
    | false =>
      rw [still] at same
      cases e with
      | next => cases arrives
      | data m => exact nomatch (outcome_data es m).symm.trans same
      | end_ => exact nomatch (outcome_end es).symm.trans same
      | error e => exact nomatch (outcome_error es e).symm.trans same
    | true =>
      rw [still] at same
      cases e with
      | next => cases arrives
      | end_ => exact .inr still
      | data m =>
        have due := Option.some.inj ((outcome_data es m).symm.trans same)
        cases failed : failure es <;> rw [failed] at due <;> cases due
      | error e =>
        have due := Option.some.inj ((outcome_error es e).symm.trans same)
        cases failed : failure es with
        | none => rw [failed] at due; cases due
        | some e' => rw [failed] at due; cases due; exact .inr failed

/-- Where no slot is taken, what arrives changes no outcome that a `next()` has. -/
theorem outcome_same {e : StreamEvent Res Err} (arrives : e.reads = false) (allowed : Allowed es e)
    (free : ¬(closed es = false ∧ (messages es).length < nexts es)) {k : Nat} (asked : k < nexts es) :
    outcome (es ++ [e]) k = outcome es k := by
  rcases Nat.lt_or_ge k (messages es).length with within | beyond
  · exact outcome_append_of_lt e within
  have shut : closed es = true := by
    rw [← Bool.not_eq_false]
    exact fun still => free ⟨still, by omega⟩
  rcases allowed with reads | few | repeats
  · exact nomatch arrives.symm.trans reads
  · rw [if_pos shut] at few
    omega
  · cases e with
    | next | data => exact repeats.elim
    | end_ =>
      rw [outcome, outcome, messages_append_singleton, final, final, closed_append_singleton,
        failure_append_singleton, shut]
      simp [StreamEvent.message?, StreamEvent.error?]
    | error e =>
      have failed : failure es = some e := repeats
      rw [outcome, outcome, messages_append_singleton, final, final, closed_append_singleton,
        failure_append_singleton, shut, failed]
      simp [StreamEvent.message?, StreamEvent.error?]

/-- A `next()` gets its outcome at once, or takes the waiter slot. -/
theorem Sound.taken (sound : Sound es) :
    ∃ stream, (iterate es).stream.next (nexts es) = (stream, outcome es (nexts es)) ∧
      stream.buffer = (messages es).drop (nexts es + 1) ∧ stream.ended = closed es ∧ stream.errored = failure es ∧
      stream.waiter = if closed es = false ∧ (messages es).length < nexts es + 1 then some (nexts es) else none := by
  rcases Nat.lt_or_ge (nexts es) (messages es).length with within | beyond
  · have front := sound.buffer
    rw [List.drop_eq_getElem_cons within] at front
    refine ⟨{ (iterate es).stream with buffer := (messages es).drop (nexts es + 1) }, ?_, rfl, sound.ended,
      sound.errored, ?_⟩
    · simp only [ClientReadableStream.next, front, outcome_of_lt within]
    · show (iterate es).stream.waiter = _
      rw [sound.waiter, if_neg (by omega), if_neg (by omega)]
  · have empty : (iterate es).stream.buffer = [] := by rw [sound.buffer, List.drop_eq_nil_of_le beyond]
    have rest : [] = (messages es).drop (nexts es + 1) := (List.drop_eq_nil_of_le (by omega)).symm
    simp only [ClientReadableStream.next, empty, sound.errored, sound.ended, outcome_of_le beyond, final]
    cases shut : closed es with
    | false =>
      rw [failure_of_open shut]
      refine ⟨_, rfl, rest, rfl, rfl, ?_⟩
      rw [if_pos ⟨rfl, by omega⟩]
    | true =>
      have free : (iterate es).stream.waiter = none := by
        rw [sound.waiter, shut]
        rfl
      cases ended : failure es <;>
        exact ⟨_, rfl, empty.trans rest, sound.ended.trans shut, sound.errored.trans ended, free⟩

theorem Sound.next (sound : Sound es) : Sound (es ++ [.next]) := by
  have sent : messages (es ++ [.next]) = messages es := by
    simp [messages_append_singleton, StreamEvent.message?]
  have asked : nexts (es ++ [.next]) = nexts es + 1 := nexts_append_singleton es .next
  have still : closed (es ++ [.next]) = closed es := by
    simp [closed_append_singleton, StreamEvent.closes]
  have failed : failure (es ++ [.next]) = failure es := failure_append_singleton es .next
  have same : outcome (es ++ [.next]) = outcome es := by
    funext k
    rw [outcome, outcome, sent, final, final, still, failed]
  obtain ⟨stream, taken, buffer, ended, errored, waiter⟩ := sound.taken
  have stepped : iterate (es ++ [.next]) = ⟨stream, (iterate es).promises ++ [outcome es (nexts es)]⟩ := by
    rw [iterate_append_singleton, Iteration.step, sound.length, taken]
  constructor
  · rw [Fifo, stepped, same, asked, List.range_succ, List.map_append, ← sound.fifo]
    rfl
  · rw [stepped, sent, asked]
    exact buffer
  · rw [stepped, still]
    exact ended
  · rw [stepped, failed]
    exact errored
  · rw [stepped, still, sent, asked]
    exact waiter

/-- The `next()` in the waiter slot is the only one outstanding. -/
theorem Allowed.one {e : StreamEvent Res Err} (allowed : Allowed es e) (arrives : e.reads = false)
    (slot : closed es = false ∧ (messages es).length < nexts es) : nexts es = (messages es).length + 1 := by
  obtain ⟨still, waits⟩ := slot
  rcases allowed with reads | few | repeats
  · exact nomatch arrives.symm.trans reads
  · rw [if_neg (by simp [still])] at few
    omega
  · cases e with
    | next | data => exact repeats.elim
    | end_ => exact nomatch still.symm.trans repeats
    | error e => exact nomatch (failure_of_open still).symm.trans repeats

/-- A message that finds the waiter slot empty finds no `next()` that asks for it. -/
theorem Allowed.buffered {m : Res} (allowed : Allowed es (.data m))
    (free : ¬(closed es = false ∧ (messages es).length < nexts es)) : nexts es ≤ (messages es).length := by
  rcases allowed with reads | few | repeats
  · cases reads
  · split at few
    · exact few
    · rename_i still
      rw [Bool.not_eq_true] at still
      exact Nat.le_of_not_lt fun waits => free ⟨still, waits⟩
  · exact repeats.elim

theorem Sound.arrived_fifo (sound : Sound es) {e : StreamEvent Res Err} (arrives : e.reads = false)
    (allowed : Allowed es e) : Fifo (es ++ [e]) := by
  have asked : nexts (es ++ [e]) = nexts es := by rw [nexts_append_singleton, arrives]; rfl
  rw [Fifo, sound.arrives arrives, asked, sound.waiter]
  split
  · rename_i w slot
    obtain ⟨waits, ⟨⟩⟩ := Option.ite_none_right_eq_some.mp slot
    have one : nexts es = (messages es).length + 1 := allowed.one arrives waits
    have none_ : outcome es (messages es).length = none :=
      (outcome_of_le (Nat.le_refl _)).trans (final_of_open waits.1)
    rw [sound.fifo, one, Nat.add_sub_cancel]
    apply List.ext_getElem?
    intro k
    rw [List.getElem?_modify, List.getElem?_map, List.getElem?_map]
    rw [Option.map_eq_map]
    rcases Nat.lt_trichotomy k (messages es).length with before | rfl | behind
    · have ne : (messages es).length ≠ k := by omega
      rw [List.getElem?_range (by omega), Option.map_some, Option.map_some, Option.map_some, if_neg ne,
        outcome_append_of_lt e before]
    · rw [List.getElem?_range (by omega), Option.map_some, Option.map_some, Option.map_some, if_pos rfl, none_,
        Option.none_or]
    · rw [List.getElem?_eq_none (by simp; omega)]
      rfl
  · rename_i slot
    have free : ¬(closed es = false ∧ (messages es).length < nexts es) := by
      intro waits
      rw [if_pos waits] at slot
      cases slot
    rw [sound.fifo]
    apply List.map_congr_left
    intro k mem
    exact (outcome_same arrives allowed free (List.mem_range.mp mem)).symm

theorem Sound.arrived (sound : Sound es) {e : StreamEvent Res Err} (arrives : e.reads = false)
    (allowed : Allowed es e) : Sound (es ++ [e]) := by
  have asked : nexts (es ++ [e]) = nexts es := by rw [nexts_append_singleton, arrives]; rfl
  have stepped := step_arrives (iterate es) arrives
  rw [← iterate_append_singleton] at stepped
  constructor
  · exact sound.arrived_fifo arrives allowed
  · rw [stepped, asked, messages_append_singleton, sound.buffer, sound.waiter]
    by_cases slot : closed es = false ∧ (messages es).length < nexts es
    · have one := allowed.one arrives slot
      have few : (messages es ++ e.message?.toList).length ≤ nexts es := by
        rw [List.length_append, one]
        cases e.message? <;> simp
      rw [if_pos slot, List.drop_eq_nil_of_le few, List.drop_eq_nil_of_le (Nat.le_of_lt slot.2)]
      rfl
    · rw [if_neg slot]
      cases e with
      | data m => exact (List.drop_append_of_le_length (allowed.buffered slot)).symm
      | next => cases arrives
      | end_ | error => simp [StreamEvent.message?]
  · rw [stepped, sound.ended, closed_append_singleton]
  · rw [stepped, sound.errored, failure_append_singleton]
  · have free : ¬(closed (es ++ [e]) = false ∧ (messages (es ++ [e])).length < nexts es) := by
      rintro ⟨quiet, waits⟩
      obtain ⟨still, stays⟩ := Bool.or_eq_false_iff.mp ((closed_append_singleton es e).symm.trans quiet)
      cases e with
      | next => cases arrives
      | end_ | error => cases stays
      | data m =>
        have more : (messages (es ++ [.data m])).length = (messages es).length + 1 := by
          simp [messages_append_singleton, StreamEvent.message?]
        have one := allowed.one arrives ⟨still, by omega⟩
        omega
    rw [stepped, asked, if_neg free]

end

/-- The iterator is a lossless queue along a run exactly if no event comes while two `next()` calls
are outstanding, and no message and no other error behind an end that a `next()` has seen. -/
theorem fifo_iff (es : List (StreamEvent Res Err)) :
    (∀ pre, pre <+: es → Fifo pre) ↔ ∀ pre e, pre ++ [e] <+: es → Allowed pre e := by
  apply along_prefixes_iff (P := Sound)
  · exact fun _ sound => sound.fifo
  · exact fun _ _ _ sound fifo => sound.needs fifo
  · intro pre e _ sound allowed
    cases arrives : e.reads with
    | false => exact sound.arrived arrives allowed
    | true =>
      cases e with
      | next => exact sound.next
      | data | end_ | error => cases arrives
  · exact .nil

/-- Two `next()` calls ahead of the only message. -/
def twoOutstanding : List (StreamEvent Nat String) :=
  [.next, .next, .data 7, .end_]

/-- The second call took the slot of the first one, which stays pending for good. -/
theorem fifo_outstanding :
    (iterate twoOutstanding).promises = [none, some (.value 7)] ∧
      outcome twoOutstanding 0 = some (.value 7) ∧ ¬Fifo twoOutstanding := by
  decide

end Client
end GrpcWebnext
