import Mathlib.Algebra.Order.Ring.WithTop
import GrpcWebnext.GrpcTimeout
import GrpcWebnext.JsonToServer
import GrpcWebnext.Lib.BinaryFloat
import GrpcWebnext.Lib.Transition

/-!
# Deadlines of the client

A deadline becomes a timeout of `createCallContext`, which sets a timer and is written into the
`grpc-timeout` header or the open frame. The timer takes delays below 2³¹, the header eight digits.
-/

namespace GrpcWebnext
namespace Client
namespace CallDeadline
open BinaryFloat Transition
open JsNumber (numeral ofNat)
open GrpcWebnext.Metadata (Grammar)
open Ws (object)

/-! ### The call context -/

/-- The time value of a valid `Date`, and what `Date.now` gives. -/
structure TimeValue where
  millis : ℤ
  within : |millis| ≤ 8640000000000000

def TimeValue.toNumber (t : TimeValue) : Double :=
  .finite t.millis (.int (by decide) (lt_of_le_of_lt t.within (by decide)) (by decide))

inductive Deadline where
  /-- `none` is an invalid `Date` -/
  | date (time : Option TimeValue)
  | number (x : Double)

def Deadline.millis : Deadline → Double
  | date (some time) => time.toNumber
  | date none => .nan
  | number x => x

/-- `ms > 0 ? ms : 1` -/
def atLeastOne : Double → Timeout
  | .finite ms _ => if positive : 0 < ms then .finite ms positive else .finite 1 one_pos
  | .infinity false => .infinite
  | .infinity true => .finite 1 one_pos
  | .nan => .finite 1 one_pos

def resolveTimeout (deadline : Option Deadline) (now : TimeValue) : Option Timeout :=
  deadline.map fun deadline => atLeastOne (deadline.millis.sub now.toNumber)

/-- What `setTimeout` waits: a delay below 1 or above 2³¹ − 1 counts as 1, another one is truncated. -/
def setTimeout : Timeout → ℚ
  | .finite ms _ => if 1 ≤ ms ∧ ms ≤ 2147483647 then (⌊ms⌋ : ℚ) else 1
  | .infinite => 1

inductive AbortReason where
  /-- `DEADLINE_REASON` from the timer -/
  | deadline
  | user
  | cancel

/-- `elapsed` counts the milliseconds since `Date.now` was read. -/
structure CallContext where
  timeoutMillis : Option Timeout
  timer : Option ℚ
  listening : Bool
  aborted : Option AbortReason
  elapsed : ℚ := 0

/-- `userSignal` says whether the user's signal, if there is one, is aborted. -/
def createCallContext (deadline : Option Deadline) (userSignal : Option Bool) (now : TimeValue) : CallContext where
  timeoutMillis := resolveTimeout deadline now
  timer := if userSignal = some true then none else (resolveTimeout deadline now).map setTimeout
  listening := userSignal = some false
  aborted := if userSignal = some true then some .user else none

namespace CallContext

/-- `controller.abort`: only the first one counts. -/
def abort (c : CallContext) (reason : AbortReason) : CallContext := { c with aborted := c.aborted <|> some reason }

inductive Label where
  | wait (time : ℚ≥0)
  | expire
  | userAborts
  | abort
  | dispose

def step (c : CallContext) : Label → Option CallContext
  | .wait time => some { c with elapsed := c.elapsed + time }
  | .expire => if c.timer.any (· ≤ c.elapsed) then some { c.abort .deadline with timer := none } else none
  | .userAborts => some (if c.listening then { c.abort .user with listening := false } else c)
  | .abort => some (c.abort .cancel)
  | .dispose => some { c with timer := none, listening := false }

abbrev Reaches (c : CallContext) (ls : List Label) (c' : CallContext) : Prop :=
  Run (fun c l c' => c.step l = some c') c ls c'

end CallContext

/-! ### The timer -/

theorem one_le_setTimeout (timeout : Timeout) : 1 ≤ setTimeout timeout := by
  cases timeout with
  | finite ms positive =>
    rw [setTimeout]
    split
    · rename_i range
      exact_mod_cast Int.le_floor.mpr range.1
    · exact le_rfl
  | infinite => exact le_rfl

/-- The timer that is set waits `delay`, and only behind that can it have aborted. -/
structure Timed (delay : ℚ) (c : CallContext) : Prop where
  timer : ∀ t ∈ c.timer, t = delay
  aborted : c.aborted = some .deadline → delay ≤ c.elapsed

theorem Timed.abort {delay : ℚ} {c : CallContext} (timed : Timed delay c) {reason : AbortReason}
    (due : reason = .deadline → delay ≤ c.elapsed) : Timed delay (c.abort reason) := by
  refine ⟨timed.timer, ?_⟩
  cases before : c.aborted with
  | none =>
    intro now
    rw [CallContext.abort, before] at now
    exact due (Option.some.inj now)
  | some earlier =>
    intro now
    rw [CallContext.abort, before] at now
    exact timed.aborted (before.trans now)

theorem Timed.step {delay : ℚ} {c c' : CallContext} (timed : Timed delay c) {l : CallContext.Label}
    (taken : c.step l = some c') : Timed delay c' := by
  cases l with
  | wait time =>
    cases taken
    exact ⟨timed.timer, fun now => (timed.aborted now).trans (le_add_of_nonneg_right time.2)⟩
  | expire =>
    obtain ⟨due, ⟨⟩⟩ := Option.ite_none_right_eq_some.mp taken
    obtain ⟨t, set, passed⟩ := (Option.any_eq_true _ _).mp due
    obtain rfl := timed.timer t set
    exact ⟨nofun, (timed.abort fun _ => of_decide_eq_true passed).aborted⟩
  | userAborts =>
    obtain rfl := Option.some.inj taken
    split
    · have aborted : Timed delay (c.abort .user) := timed.abort nofun
      exact ⟨aborted.timer, aborted.aborted⟩
    · exact timed
  | abort =>
    cases taken
    exact timed.abort nofun
  | dispose =>
    cases taken
    exact ⟨nofun, timed.aborted⟩

/-- Without a signal of the user, nothing keeps the timer from expiring as soon as it has waited. -/
theorem expires {deadline : Deadline} {now : TimeValue} {timeout : Timeout}
    (resolved : resolveTimeout (some deadline) now = some timeout) : ∃ ls c,
      (createCallContext (some deadline) none now).Reaches ls c ∧ c.aborted = some .deadline ∧
        c.elapsed = setTimeout timeout := by
  have nonneg : 0 ≤ setTimeout timeout := zero_le_one.trans (one_le_setTimeout timeout)
  let due : CallContext :=
    { timeoutMillis := some timeout
      timer := some (setTimeout timeout)
      listening := false
      aborted := none
      elapsed := setTimeout timeout }
  have created : createCallContext (some deadline) none now = { due with elapsed := 0 } := by
    simp [createCallContext, resolved, due]
  have waits : CallContext.step { due with elapsed := 0 } (.wait ⟨setTimeout timeout, nonneg⟩) = some due := by
    simp [CallContext.step, due]
  have fires : due.step .expire = some { due with timer := none, aborted := some .deadline } := by
    simp [CallContext.step, CallContext.abort, due]
  exact ⟨_, _, by rw [created]; exact .cons waits (.single fires), rfl, rfl⟩

theorem never_early_iff {deadline : Deadline} {now : TimeValue} {timeout : Timeout}
    (resolved : resolveTimeout (some deadline) now = some timeout) (r : WithTop ℚ) :
    (∀ userSignal ls c, (createCallContext (some deadline) userSignal now).Reaches ls c →
      c.aborted = some .deadline → r ≤ c.elapsed) ↔ r ≤ setTimeout timeout := by
  constructor
  · intro never
    obtain ⟨ls, c, reached, aborted, elapsed⟩ := expires resolved
    rw [← elapsed]
    exact never none ls c reached aborted
  · intro enough userSignal ls c reached aborted
    have start : Timed (setTimeout timeout) (createCallContext (some deadline) userSignal now) := by
      unfold createCallContext
      by_cases done : userSignal = some true <;> simp [done, resolved] <;> constructor <;> simp
    have timed := reached.invariant (fun c l c' timed taken => timed.step taken) start
    exact enough.trans (WithTop.coe_le_coe.mpr (timed.aborted aborted))

/-! ### The remaining time -/

/-- The milliseconds until the deadline, 1 if it is past. -/
def remaining (deadline : Deadline) (now : TimeValue) : WithTop ℚ :=
  match deadline.millis with
  | .finite time _ => if now.millis < time then (time - now.millis : ℚ) else (1 : ℚ)
  | .infinity false => ⊤
  | .infinity true => (1 : ℚ)
  | .nan => (1 : ℚ)

theorem int_onGrid {x : ℚ} (positive : 0 < x) (small : x ≤ 99999999) (k : ℤ) : binary64.OnGrid x k :=
  .int (by decide) positive (lt_of_le_of_lt small (by norm_num [binary64])) k

theorem round_one : binary64.round 1 = 1 := by
  have unit := int_onGrid one_pos (by norm_num) 1
  rw [Int.cast_one] at unit
  exact le_antisymm (unit.round_le le_rfl) (unit.le_round le_rfl)

theorem round_le_of_le {r : ℚ} (positive : 0 < r) (small : r ≤ 99999999) : binary64.round r ≤ 99999999 := by
  exact_mod_cast (int_onGrid positive small 99999999).round_le (by exact_mod_cast small)

theorem atLeastOne_ofRat {x : ℚ} (negative : x ≤ 0) : atLeastOne (.ofRat binary64 x) = .finite 1 one_pos := by
  have rounded : ¬0 < binary64.round x := not_lt.mpr (Format.round_nonpos negative)
  unfold Datum.ofRat
  split
  · rw [atLeastOne, dif_neg rounded]
  · rename_i large
    have nonzero : x ≠ 0 := by
      rintro rfl
      norm_num [Format.round, roundHalfEven, binary64] at large
    rw [decide_eq_true (lt_of_le_of_ne negative nonzero), atLeastOne]

/-- A deadline is past, or a number ahead of the clock. -/
theorem remaining_cases {deadline : Deadline} {now : TimeValue} {r : ℚ} (left : remaining deadline now = r) :
    r = 1 ∧ resolveTimeout (some deadline) now = some (.finite 1 one_pos) ∨
      ∃ time holds, deadline.millis = .finite time holds ∧ now.millis < time ∧ r = time - now.millis := by
  unfold remaining at left
  unfold resolveTimeout
  cases given : deadline.millis with
  | infinity negative =>
    rw [given] at left
    cases negative with
    | false => exact absurd left WithTop.top_ne_coe
    | true => exact .inl ⟨(WithTop.coe_inj.mp left).symm, by rw [Option.map_some, given]; rfl⟩
  | nan =>
    rw [given] at left
    exact .inl ⟨(WithTop.coe_inj.mp left).symm, by rw [Option.map_some, given]; rfl⟩
  | finite time holds =>
    rw [given] at left
    by_cases ahead : now.millis < time
    · simp only [if_pos ahead] at left
      exact .inr ⟨time, holds, rfl, ahead, (WithTop.coe_inj.mp left).symm⟩
    · simp only [if_neg ahead] at left
      refine .inl ⟨(WithTop.coe_inj.mp left).symm, ?_⟩
      rw [Option.map_some, given]
      exact congrArg some (atLeastOne_ofRat (sub_nonpos.mpr (not_lt.mp ahead)))

/-- The timeout of a deadline in range is the remaining time, rounded to a number. -/
theorem resolveTimeout_of_remaining {deadline : Deadline} {now : TimeValue} {r : ℚ}
    (left : remaining deadline now = r) (small : r ≤ 99999999) :
    0 < r ∧ ∃ positive, resolveTimeout (some deadline) now = some (.finite (binary64.round r) positive) := by
  rcases remaining_cases left with ⟨rfl, past⟩ | ⟨time, holds, given, ahead, rfl⟩
  · exact ⟨one_pos, by rw [round_one]; exact one_pos, by simp only [past, round_one]⟩
  · have started : 0 < time - now.millis := sub_pos.mpr ahead
    obtain ⟨m, multiple⟩ := holds.sub_int_multiple (by decide) now.millis
    have positive : 0 < binary64.round (time - now.millis) := Format.round_pos multiple started
    have bound : |binary64.round (time - now.millis)| < 2 ^ binary64.top := by
      have digits : (99999999 : ℚ) < 2 ^ (27 : ℤ) := by norm_num
      have range : (2 : ℚ) ^ (27 : ℤ) ≤ 2 ^ binary64.top := zpow_le_zpow_right₀ one_le_two (by decide)
      rw [abs_of_pos positive]
      exact (round_le_of_le started small).trans_lt (digits.trans_le range)
    refine ⟨started, positive, ?_⟩
    rw [resolveTimeout, Option.map_some, given]
    show some (atLeastOne (.ofRat binary64 (time - now.millis))) = _
    rw [Datum.ofRat, dif_pos bound, atLeastOne, dif_pos positive]

/-- From 1970 on, the clock leaves a difference that is a number itself. -/
theorem round_remaining {deadline : Deadline} {now : TimeValue} {r : ℚ} (left : remaining deadline now = r)
    (small : r ≤ 99999999) (later : 0 ≤ now.millis) : binary64.round r = r := by
  rcases remaining_cases left with ⟨rfl, _⟩ | ⟨time, holds, _, ahead, rfl⟩
  · exact round_one
  · exact Format.round_eq (holds.sub_int (by decide) later ahead (lt_of_le_of_lt small (by norm_num [binary64])))

theorem le_setTimeout_iff {r : ℚ} (started : 0 < r) (small : r ≤ 99999999) (positive : 0 < binary64.round r) :
    r ≤ setTimeout (.finite (binary64.round r) positive) ↔ r ≤ 1 ∨ binary64.round r = ⌈r⌉ := by
  by_cases short : r ≤ 1
  · exact iff_of_true (short.trans (one_le_setTimeout _)) (.inl short)
  · have unit := int_onGrid started small
    have one : 1 ≤ binary64.round r := by
      exact_mod_cast (unit 1).le_round (by exact_mod_cast (not_le.mp short).le)
    have range : 1 ≤ binary64.round r ∧ binary64.round r ≤ 2147483647 :=
      ⟨one, (round_le_of_le started small).trans (by norm_num)⟩
    rw [setTimeout, if_pos range, or_iff_right short]
    constructor
    · intro waits
      apply le_antisymm ((unit ⌈r⌉).round_le (Int.le_ceil r))
      exact (Int.cast_le.mpr (Int.ceil_le.mpr waits)).trans (Int.floor_le _)
    · intro whole
      rw [whole, Int.floor_intCast]
      exact Int.le_ceil r

theorem ceil_round {r : ℚ} (started : 0 < r) (small : r ≤ 99999999) (positive : 0 < binary64.round r)
    (whole : r ≤ 1 ∨ binary64.round r = ⌈r⌉) : ⌈r⌉₊ = ⌈binary64.round r⌉₊ := by
  rcases whole with short | whole
  · have rounded : binary64.round r ≤ 1 := by
      exact_mod_cast (int_onGrid started small 1).round_le (by exact_mod_cast short)
    have one : ∀ x : ℚ, 0 < x → x ≤ 1 → ⌈x⌉₊ = 1 := fun x positive short =>
      (Nat.ceil_eq_iff one_ne_zero).mpr ⟨by simpa using positive, by exact_mod_cast short⟩
    rw [one r started short, one _ positive rounded]
  · rw [whole, ← Int.natCast_ceil_eq_ceil started.le]
    exact_mod_cast (Nat.ceil_natCast (R := ℚ) ⌈r⌉₊).symm

/-! ### What is sent -/

section

variable [JsNumber]

/-- The value of the `grpc-timeout` header. -/
def grpcTimeout (timeout : Timeout) : String := (numeral timeout.ceil).getD "Infinity" ++ "m"

/-- The headers of `FetchTransport.unary`, from those of the metadata. -/
def fetchHeaders (contentType : String) (headers : List (String × String)) (timeoutMillis : Option Timeout) :
    List (String × String) :=
  let headers := InsertionMap.set "content-type" contentType headers
  match timeoutMillis with
  | some timeout => InsertionMap.set "grpc-timeout" (grpcTimeout timeout) headers
  | none => headers

/-- `buildHeaders` of `H2tsTransport`, from the headers of the metadata. -/
def buildHeaders (headers : List (String × String)) (timeoutMillis : Option Timeout) : List (String × String) :=
  [("content-type", "application/grpc+proto"), ("te", "trailers")] ++
    (timeoutMillis.map fun timeout => ("grpc-timeout", grpcTimeout timeout)).toList ++
    headers.filter fun header => header.1 ≠ "content-type" ∧ header.1 ≠ "te" ∧ header.1 ≠ "grpc-timeout"

/-- The `Subscribe` of `sendOpen`, as it is handed to the encoder. -/
structure OpenSubscribe where
  method : String := ""
  headers : List Metadatum
  timeoutMillis : JsNumber.Number
  initialPayload : Bytes := []
  json : Bool := false

def openSubscribe (options : CallOptions) : OpenSubscribe where
  headers := options.metadata.toMetadatumList
  timeoutMillis := (options.timeoutMillis.map Timeout.ceil).getD (ofNat 0)

/-! ### What they stand for -/

/-- The remaining time is `n` whole milliseconds, rounded up. -/
def Whole (r : WithTop ℚ) (n : ℕ) : Prop := ∃ q : ℚ, r = q ∧ ⌈q⌉₊ = n

/-- The timeout is sent as the whole milliseconds of `r`, in either header and either open frame. -/
structure Rendered (r : WithTop ℚ) (timeoutMillis : Option Timeout) : Prop where
  fetch : ∀ contentType headers, ∃ text n, Whole r n ∧ Grammar text n .milli ∧
    InsertionMap.get "grpc-timeout" (fetchHeaders contentType headers timeoutMillis) = some text
  h2ts : ∀ headers, ∃ text n, Whole r n ∧ Grammar text n .milli ∧
    (buildHeaders headers timeoutMillis).filter (fun header => header.1 = "grpc-timeout") = [("grpc-timeout", text)]
  subscribe : ∀ md, ∃ n, Whole r n ∧ n < 2 ^ 32 ∧ (openSubscribe ⟨md, timeoutMillis⟩).timeoutMillis = ofNat n
  json : ∀ md, ∃ n members, Whole r n ∧ n < 2 ^ 32 ∧ (∀ m ∈ members, m.1 ≠ "timeoutMillis") ∧
    openFrame ⟨md, timeoutMillis⟩ = object (members ++ [("timeoutMillis", .num n.repr)])

/-- The timer never fires before the deadline, and what is sent is the remaining time. -/
structure Faithful (deadline : Deadline) (now : TimeValue) : Prop where
  timer : ∀ userSignal ls c, (createCallContext (some deadline) userSignal now).Reaches ls c →
    c.aborted = some .deadline → remaining deadline now ≤ c.elapsed
  rendered : ∀ userSignal,
    Rendered (remaining deadline now) (createCallContext (some deadline) userSignal now).timeoutMillis

/-- At most eight digits, and nothing for the timer to truncate. On a clock before 1970 the difference may
be rounded to the next millisecond. -/
def InRange (deadline : Deadline) (now : TimeValue) : Prop :=
  ∃ r : ℚ, remaining deadline now = r ∧ r ≤ 99999999 ∧
    (r ≤ 1 ∨ (∃ n : ℤ, r = n) ∨ now.millis < 0 ∧ binary64.round r = ⌈r⌉)

/-! ### Rendering -/

theorem grpcTimeout_grammar {ms : ℚ} (positive : 0 < ms) (small : ⌈ms⌉₊ < 10 ^ 8) :
    Grammar (grpcTimeout (.finite ms positive)) ⌈ms⌉₊ .milli := by
  have digits : numeral (Timeout.ceil (.finite ms positive)) = some ⌈ms⌉₊.repr :=
    JsNumber.numeral_ofNat (by omega)
  have text : grpcTimeout (.finite ms positive) = String.ofList (Nat.toDigits 10 ⌈ms⌉₊ ++ ['m']) := by
    rw [grpcTimeout, digits, Option.getD_some, Nat.repr_eq_ofList_toDigits]
    exact String.ofList_append.symm
  rw [text]
  exact .of_lt small

theorem openFrame_some (md : Metadata) (timeout : Timeout) : ∃ members : List (String × Ws.Document),
    (∀ m ∈ members, m.1 ≠ "timeoutMillis") ∧
      openFrame ⟨md, some timeout⟩ = object (members ++ [("timeoutMillis", stringify (.num timeout.ceil))]) := by
  unfold openFrame
  rw [JsonToServer.stringify_jsObject, List.map_append]
  refine ⟨_, ?_, rfl⟩
  intro m member
  split at member
  · cases member
  · obtain rfl := List.mem_singleton.mp member
    exact (by decide : "metadata" ≠ "timeoutMillis")

theorem Rendered.of_lt {r : WithTop ℚ} {ms : ℚ} {positive : 0 < ms} (whole : Whole r ⌈ms⌉₊)
    (small : ⌈ms⌉₊ < 10 ^ 8) : Rendered r (some (.finite ms positive)) where
  fetch contentType headers := by
    refine ⟨_, _, whole, grpcTimeout_grammar positive small, ?_⟩
    rw [fetchHeaders, InsertionMap.get_set, if_pos rfl]
  h2ts headers := by
    refine ⟨_, _, whole, grpcTimeout_grammar positive small, ?_⟩
    have others : (headers.filter fun header => header.1 ≠ "content-type" ∧ header.1 ≠ "te" ∧
        header.1 ≠ "grpc-timeout").filter (fun header => header.1 = "grpc-timeout") = [] := by
      simp only [List.filter_filter, List.filter_eq_nil_iff]
      intro header _
      simpa using fun named _ _ => named
    rw [buildHeaders, List.filter_append, others, List.append_nil]
    rfl
  subscribe md := ⟨_, whole, by omega, rfl⟩
  json md := by
    obtain ⟨members, others, written⟩ := openFrame_some md (.finite ms positive)
    refine ⟨_, members, whole, by omega, others, ?_⟩
    have digits : numeral (Timeout.ceil (.finite ms positive)) = some ⌈ms⌉₊.repr :=
      JsNumber.numeral_ofNat (by omega)
    rw [written, stringify, Json.Tree.bind, digits]

theorem Rendered.lt {r : WithTop ℚ} {timeoutMillis : Option Timeout} (rendered : Rendered r timeoutMillis) :
    ∃ q : ℚ, r = q ∧ q ≤ 99999999 := by
  obtain ⟨_, n, ⟨q, left, rfl⟩, grammar, _⟩ := rendered.h2ts []
  have digits : ⌈q⌉₊ ≤ 99999999 := Nat.le_of_lt_succ grammar.lt
  exact ⟨q, left, by exact_mod_cast Nat.ceil_le.mp digits⟩

/-- A deadline is rendered faithfully exactly if at most 99 999 999 ms remain, in whole milliseconds or
at most one. -/
theorem deadline_faithful_iff (deadline : Deadline) (now : TimeValue) :
    Faithful deadline now ↔ InRange deadline now := by
  have exact_ (r : ℚ) (left : remaining deadline now = r) (small : r ≤ 99999999) :
      binary64.round r = ⌈r⌉ ↔ (∃ n : ℤ, r = n) ∨ now.millis < 0 ∧ binary64.round r = ⌈r⌉ := by
    constructor
    · intro whole
      by_cases earlier : now.millis < 0
      · exact .inr ⟨earlier, whole⟩
      · exact .inl ⟨⌈r⌉, (round_remaining left small (not_lt.mp earlier)).symm.trans whole⟩
    · rintro (⟨n, rfl⟩ | ⟨_, whole⟩)
      · obtain ⟨started, _⟩ := resolveTimeout_of_remaining left small
        have unit := int_onGrid started small n
        rw [Int.ceil_intCast]
        exact le_antisymm (unit.round_le le_rfl) (unit.le_round le_rfl)
      · exact whole
  constructor
  · intro faithful
    obtain ⟨r, left, small⟩ := (faithful.rendered none).lt
    obtain ⟨started, positive, resolved⟩ := resolveTimeout_of_remaining left small
    have waits := (never_early_iff resolved _).mp faithful.timer
    rw [left, WithTop.coe_le_coe, le_setTimeout_iff started small] at waits
    exact ⟨r, left, small, waits.imp_right (exact_ r left small).mp⟩
  · rintro ⟨r, left, small, range⟩
    obtain ⟨started, positive, resolved⟩ := resolveTimeout_of_remaining left small
    have whole := range.imp_right (exact_ r left small).mpr
    constructor
    · rw [never_early_iff resolved, left, WithTop.coe_le_coe, le_setTimeout_iff started small]
      exact whole
    · intro _
      have same := ceil_round started small positive whole
      have digits : ⌈binary64.round r⌉₊ < 10 ^ 8 := by
        rw [← same]
        exact Nat.lt_succ_of_le (Nat.ceil_le.mpr (by exact_mod_cast small))
      show Rendered _ (resolveTimeout (some deadline) now)
      rw [resolved]
      exact .of_lt ⟨r, left, same⟩ digits

end

/-! ### The slips -/

def epoch : TimeValue := ⟨0, by decide⟩

def inThirtyDays : Deadline := .date (some ⟨2592000000, by decide⟩)

theorem thirtyDays_pos : (0 : ℚ) < 2592000000 := by norm_num

theorem thirtyDays_resolved : resolveTimeout (some inThirtyDays) epoch = some (.finite 2592000000 thirtyDays_pos) := by
  have holds : binary64.Holds (2592000000 : ℤ) := .int (by decide) (by decide) (by decide)
  have left : ((2592000000 : ℤ) : ℚ) - ((0 : ℤ) : ℚ) = (2592000000 : ℤ) := by norm_num
  show some (atLeastOne (.ofRat binary64 (((2592000000 : ℤ) : ℚ) - ((0 : ℤ) : ℚ)))) = _
  rw [left, Datum.ofRat_of_holds holds, atLeastOne, dif_pos (by exact_mod_cast thirtyDays_pos)]
  simp only [Int.cast_ofNat]

attribute [local instance] wholeNumbers

/-- Thirty days are more than a timer takes: it may expire after a millisecond. The header has ten digits. -/
theorem thirty_days_early :
    remaining inThirtyDays epoch = (2592000000 : ℚ) ∧
    (∃ ls c, (createCallContext (some inThirtyDays) none epoch).Reaches ls c ∧ c.aborted = some .deadline ∧
      c.elapsed = 1) ∧
    (resolveTimeout (some inThirtyDays) epoch).map grpcTimeout = some "2592000000m" ∧
    ¬Faithful inThirtyDays epoch := by
  have left : remaining inThirtyDays epoch = (2592000000 : ℚ) := by
    simp [remaining, inThirtyDays, Deadline.millis, TimeValue.toNumber, epoch]
  have waits : setTimeout (.finite 2592000000 thirtyDays_pos) = 1 := by
    rw [setTimeout, if_neg (by norm_num)]
  have early := expires thirtyDays_resolved
  rw [waits] at early
  refine ⟨left, early, ?_, ?_⟩
  · rw [thirtyDays_resolved, Option.map_some, grpcTimeout, Timeout.ceil, Nat.ceil_ofNat]
    decide +kernel
  · intro faithful
    obtain ⟨ls, c, reached, aborted, elapsed⟩ := early
    have never := faithful.timer none ls c reached aborted
    rw [left, elapsed, WithTop.coe_le_coe] at never
    norm_num at never

end CallDeadline
end Client
end GrpcWebnext
