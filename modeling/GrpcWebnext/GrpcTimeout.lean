import Mathlib.Data.List.Basic
import GrpcWebnext.Lib.Duration
import GrpcWebnext.Metadata

/-!
# The `grpc-timeout` header

`parse_grpc_timeout` and the arithmetic that `unary_proto` and `run_stream` do with what it returns. The
header that is forwarded is later than the deadline, but may have too many digits.
-/

namespace GrpcWebnext
namespace Metadata

/-! ### Parsing -/

def parseU64 (s : String) : Option UInt64 := (parseUnsigned 64 s).map Nat.toUInt64

def checkedMul (a b : UInt64) : Option UInt64 := if a.toNat * b.toNat < 2 ^ 64 then some (a * b) else none

/-- The text is ASCII, so the split in front of its last byte is on a character boundary. -/
def parseTimeout (raw : String) : Option Duration := do
  let unit ← raw.toList.getLast?
  let n ← parseU64 (String.ofList raw.toList.dropLast)
  match unit with
  | 'H' => (checkedMul n 3600).map .fromSecs
  | 'M' => (checkedMul n 60).map .fromSecs
  | 'S' => some (.fromSecs n)
  | 'm' => some (.fromMillis n)
  | 'u' => some (.fromMicros n)
  | 'n' => some (.fromNanos n)
  | _ => none

def parseGrpcTimeout (headers : HeaderMap) : Option Duration := do
  let value ← headers.get .grpcTimeout
  parseTimeout (← value.toStr)

inductive TimeUnit where
  | hour | minute | second | milli | micro | nano
  deriving DecidableEq

namespace TimeUnit

def letter : TimeUnit → Char
  | hour => 'H'
  | minute => 'M'
  | second => 'S'
  | milli => 'm'
  | micro => 'u'
  | nano => 'n'

def nanos : TimeUnit → Nat
  | hour => 3600 * 10 ^ 9
  | minute => 60 * 10 ^ 9
  | second => 10 ^ 9
  | milli => 10 ^ 6
  | micro => 10 ^ 3
  | nano => 1

end TimeUnit

/-- `raw` is a numeral of 64 bits and a unit. -/
structure Writes (raw : String) (n : Nat) (unit : TimeUnit) : Prop where
  value : ∃ value, raw.toList = value ++ [unit.letter] ∧ parseUnsigned 64 (String.ofList value) = some n

theorem checkedMul_secs {n k : UInt64} {nanos : Nat} (unit : k.toNat * 10 ^ 9 = nanos) {d : Duration} :
    (checkedMul n k).map .fromSecs = some d ↔ d.total = n.toNat * nanos := by
  subst unit
  unfold checkedMul
  by_cases small : n.toNat * k.toNat < 2 ^ 64
  · have product : (n * k).toNat = n.toNat * k.toNat := by
      rw [UInt64.toNat_mul, Nat.mod_eq_of_lt small]
    rw [if_pos small, Option.map_some, Option.some.injEq, ← Duration.total_inj, Duration.total_fromSecs, product,
      Nat.mul_assoc]
    exact eq_comm
  · rw [if_neg small]
    refine iff_of_false nofun fun exact => small ?_
    have bound := d.total_lt
    rw [exact, ← Nat.mul_assoc] at bound
    exact Nat.lt_of_mul_lt_mul_right bound

theorem some_eq_iff_total {d d' : Duration} {nanos : Nat} (total : d'.total = nanos) :
    some d' = some d ↔ d.total = nanos := by
  rw [Option.some.injEq, ← Duration.total_inj, total]
  exact eq_comm

theorem parseTimeout_append (value : List Char) (unit : TimeUnit) (d : Duration) :
    parseTimeout (String.ofList (value ++ [unit.letter])) = some d ↔
      ∃ n, parseUnsigned 64 (String.ofList value) = some n ∧ d.total = n * unit.nanos := by
  unfold parseTimeout parseU64
  rw [String.toList_ofList, List.getLast?_concat, List.dropLast_concat]
  cases parsed : parseUnsigned 64 (String.ofList value) with
  | none => exact iff_of_false nofun (by rintro ⟨_, ⟨⟩, _⟩)
  | some n =>
    have small : n.toUInt64.toNat = n := by
      rw [Nat.toUInt64, UInt64.toNat_ofNat', Nat.mod_eq_of_lt (parseUnsigned_lt parsed)]
    simp only [Option.bind_eq_bind, Option.bind_some, Option.map_some, Option.some.injEq, exists_eq_left']
    generalize n.toUInt64 = m at small
    subst small
    cases unit with
    | hour =>
      simp only [TimeUnit.letter, TimeUnit.nanos]
      exact checkedMul_secs rfl
    | minute =>
      simp only [TimeUnit.letter, TimeUnit.nanos]
      exact checkedMul_secs rfl
    | second =>
      simp only [TimeUnit.letter, TimeUnit.nanos]
      exact some_eq_iff_total (Duration.total_fromSecs m)
    | milli =>
      simp only [TimeUnit.letter, TimeUnit.nanos]
      exact some_eq_iff_total (Duration.total_fromMillis m)
    | micro =>
      simp only [TimeUnit.letter, TimeUnit.nanos]
      exact some_eq_iff_total (Duration.total_fromMicros m)
    | nano =>
      simp only [TimeUnit.letter, TimeUnit.nanos]
      exact some_eq_iff_total ((Duration.total_fromNanos m).trans (Nat.mul_one _).symm)

theorem parseTimeout_eq_some_iff {raw : String} {d : Duration} :
    parseTimeout raw = some d ↔ ∃ n unit, Writes raw n unit ∧ d.total = n * unit.nanos := by
  constructor
  · intro parsed
    have known : ∃ value, ∃ unit : TimeUnit, raw.toList = value ++ [unit.letter] := by
      obtain ⟨letter, last, rest⟩ := Option.bind_eq_some_iff.mp parsed
      obtain ⟨n, _, unit⟩ := Option.bind_eq_some_iff.mp rest
      have text : raw.toList = raw.toList.dropLast ++ [letter] := (List.dropLast_append_getLast? _ last).symm
      split at unit
      · exact ⟨_, .hour, text⟩
      · exact ⟨_, .minute, text⟩
      · exact ⟨_, .second, text⟩
      · exact ⟨_, .milli, text⟩
      · exact ⟨_, .micro, text⟩
      · exact ⟨_, .nano, text⟩
      · cases unit
    obtain ⟨value, unit, text⟩ := known
    rw [← String.ofList_toList (s := raw), text] at parsed
    obtain ⟨n, number, total⟩ := (parseTimeout_append value unit d).mp parsed
    exact ⟨n, unit, ⟨value, text, number⟩, total⟩
  · rintro ⟨n, unit, ⟨value, text, number⟩, total⟩
    rw [← String.ofList_toList (s := raw), text]
    exact (parseTimeout_append value unit d).mpr ⟨n, number, total⟩

theorem parseGrpcTimeout_eq_some_iff {headers : HeaderMap} {d : Duration} :
    parseGrpcTimeout headers = some d ↔
      ∃ text n unit, (headers.get .grpcTimeout).bind HeaderValue.toStr = some text ∧ Writes text n unit ∧
        d.total = n * unit.nanos := by
  have bound : parseGrpcTimeout headers = ((headers.get .grpcTimeout).bind HeaderValue.toStr).bind parseTimeout := by
    unfold parseGrpcTimeout
    cases headers.get .grpcTimeout <;> rfl
  rw [bound, Option.bind_eq_some_iff]
  simp only [parseTimeout_eq_some_iff, exists_and_left]

/-! ### The header that is forwarded -/

def DEADLINE_GRACE : Duration := .fromMillis 500

theorem total_grace : DEADLINE_GRACE.total = 500 * 10 ^ 6 := Duration.total_fromMillis 500

/-- A value of the gRPC grammar: one to eight digits and a unit. -/
structure Grammar (text : String) (n : Nat) (unit : TimeUnit) : Prop where
  value : ∃ digits, text.toList = digits ++ [unit.letter] ∧ 1 ≤ digits.length ∧ digits.length ≤ 8 ∧
    digits.all Char.isDigit = true ∧ Nat.ofDigitChars 10 digits 0 = n

/-- The whole milliseconds that are written. -/
def millis (nanos : Nat) : Nat := min (nanos / 10 ^ 6) (2 ^ 64 - 1)

theorem letter_inj {u v : TimeUnit} (same : u.letter = v.letter) : u = v := by
  cases u <;> cases v <;> first | rfl | exact absurd same (by decide)

theorem toStr_formatGrpcTimeout (nanos : Nat) : (formatGrpcTimeout nanos).toStr =
    some (String.ofList (Nat.toDigits 10 (millis nanos) ++ [TimeUnit.milli.letter])) := by
  have visible : (HeaderValue.ofNat (millis nanos)).bytes.all visibleAscii = true := HeaderValue.visible_repr _
  have text := HeaderValue.toStr_ofNat (millis nanos)
  rw [HeaderValue.toStr, if_pos visible, Option.some.injEq] at text
  have digits := congrArg String.toList text
  rw [String.toList_ofList, Nat.toList_repr] at digits
  have all : (formatGrpcTimeout nanos).bytes.all visibleAscii = true := by
    rw [formatGrpcTimeout, List.all_append, Bool.and_eq_true]
    exact ⟨visible, by decide⟩
  rw [HeaderValue.toStr, if_pos all, Option.some.injEq, formatGrpcTimeout, List.map_append]
  exact congrArg (fun cs => String.ofList (cs ++ ['m'])) digits

theorem parseUnsigned_digits {k : Nat} (small : k < 2 ^ 64) :
    parseUnsigned 64 (String.ofList (Nat.toDigits 10 k)) = some k := by
  rw [← Nat.repr_eq_ofList_toDigits, parseUnsigned_repr small]

/-- The header is parsed to the milliseconds that it writes. -/
theorem parse_format (nanos : Nat) (d : Duration) :
    parseGrpcTimeout [(.grpcTimeout, formatGrpcTimeout nanos)] = some d ↔ d.total = millis nanos * 10 ^ 6 := by
  have small : millis nanos < 2 ^ 64 := by
    unfold millis
    omega
  have only : HeaderMap.get [(.grpcTimeout, formatGrpcTimeout nanos)] .grpcTimeout = some (formatGrpcTimeout nanos) := by
    rw [HeaderMap.get, HeaderMap.getAll_cons, if_pos rfl, List.head?_cons]
  rw [parseGrpcTimeout, only, Option.bind_eq_bind, Option.bind_some, toStr_formatGrpcTimeout, Option.bind_eq_bind,
    Option.bind_some, parseTimeout_append, parseUnsigned_digits small]
  simp only [Option.some.injEq, exists_eq_left', TimeUnit.nanos]

theorem ofDigitChars_lt {digits : List Char} (all : digits.all Char.isDigit = true) :
    Nat.ofDigitChars 10 digits 0 < 10 ^ digits.length := by
  induction digits with
  | nil => decide
  | cons c rest ih =>
    rw [List.all_cons, Bool.and_eq_true] at all
    have digit : c.toNat - '0'.toNat ≤ 9 := by
      have range := HeaderValue.isDigit_iff.mp all.1
      show c.toNat - 48 ≤ 9
      omega
    rw [Nat.ofDigitChars_cons, Nat.ofDigitChars_eq_ofDigitChars_zero, List.length_cons]
    calc 10 ^ rest.length * (10 * 0 + (c.toNat - '0'.toNat)) + Nat.ofDigitChars 10 rest 0
        ≤ 10 ^ rest.length * 9 + Nat.ofDigitChars 10 rest 0 :=
          Nat.add_le_add_right (Nat.mul_le_mul_left _ (by omega)) _
      _ < 10 ^ rest.length * 9 + 10 ^ rest.length := Nat.add_lt_add_left (ih all.2) _
      _ = 10 ^ (rest.length + 1) := by omega

theorem Grammar.lt {text : String} {n : Nat} {unit : TimeUnit} (grammar : Grammar text n unit) : n < 10 ^ 8 := by
  obtain ⟨digits, _, _, most, all, rfl⟩ := grammar
  exact Nat.lt_of_lt_of_le (ofDigitChars_lt all) (Nat.pow_le_pow_right (by decide) most)

theorem Grammar.of_lt {k : Nat} (small : k < 10 ^ 8) :
    Grammar (String.ofList (Nat.toDigits 10 k ++ [TimeUnit.milli.letter])) k .milli := by
  have most : (Nat.toDigits 10 k).length ≤ 8 := (Nat.length_toDigits_le_iff (by decide) (by decide)).mpr small
  have all : (Nat.toDigits 10 k).all Char.isDigit = true :=
    List.all_eq_true.mpr fun c member => Nat.isDigit_of_mem_toDigits (by decide) (by decide) member
  exact ⟨_, String.toList_ofList, Nat.length_toDigits_pos, most, all, Nat.ofDigitChars_ten_toDigits⟩

theorem grammar_format_iff (k : Nat) :
    (∃ n unit, Grammar (String.ofList (Nat.toDigits 10 k ++ [TimeUnit.milli.letter])) n unit) ↔ k < 10 ^ 8 := by
  constructor
  · rintro ⟨n, unit, digits, text, _, most, _⟩
    rw [String.toList_ofList] at text
    rw [← Nat.length_toDigits_le_iff (by decide) (by decide)]
    rwa [(List.append_inj' text rfl).1]
  · exact fun small => ⟨k, .milli, .of_lt small⟩

/-- The header for `d` is a value of the grammar, and parsed again a deadline behind `d` and at most
the grace later. -/
def Backstop (d : Duration) : Prop :=
  ∃ sum text d', d.checkedAdd DEADLINE_GRACE = some sum ∧ (formatGrpcTimeout sum.total).toStr = some text ∧
    (∃ n unit, Grammar text n unit) ∧ parseGrpcTimeout [(.grpcTimeout, formatGrpcTimeout sum.total)] = some d' ∧
    d.total < d'.total ∧ d'.total ≤ sum.total

theorem backstop_iff_lt (d : Duration) : Backstop d ↔ d.total < 99999500 * 10 ^ 6 := by
  constructor
  · rintro ⟨sum, text, d', added, written, grammar, _⟩
    have exact := Duration.checkedAdd_eq_some_iff.mp added
    rw [toStr_formatGrpcTimeout, Option.some.injEq] at written
    rw [← written, grammar_format_iff, exact, total_grace, millis] at grammar
    omega
  · intro small
    have room : d.total + DEADLINE_GRACE.total < 2 ^ 64 * 10 ^ 9 := by
      rw [total_grace]
      omega
    obtain ⟨sum, added, exact⟩ := Duration.checkedAdd_of_lt room
    rw [total_grace] at exact
    have few : millis sum.total < 10 ^ 8 := by
      unfold millis
      omega
    obtain ⟨d', parsed⟩ : ∃ d' : Duration, d'.total = millis sum.total * 10 ^ 6 := by
      refine ⟨.fromMillis (millis sum.total).toUInt64, ?_⟩
      rw [Duration.total_fromMillis, Nat.toUInt64, UInt64.toNat_ofNat', Nat.mod_eq_of_lt (by omega)]
    have count : millis sum.total = (d.total + 500 * 10 ^ 6) / 10 ^ 6 := by
      unfold millis
      omega
    have grammar := (grammar_format_iff (millis sum.total)).mpr few
    have again := (parse_format sum.total d').mpr parsed
    have later : d.total < d'.total := by omega
    have most : d'.total ≤ sum.total := by omega
    exact ⟨sum, _, d', added, toStr_formatGrpcTimeout sum.total, grammar, again, later, most⟩

theorem Grammar.writes {text : String} {n n' : Nat} {unit unit' : TimeUnit} (grammar : Grammar text n unit)
    (writes : Writes text n' unit') : n' = n ∧ unit' = unit := by
  obtain ⟨digits, text_eq, some, _, all, rfl⟩ := grammar
  obtain ⟨value, text_eq', number⟩ := writes
  obtain ⟨rfl, last⟩ := List.append_inj' (text_eq'.symm.trans text_eq) rfl
  refine ⟨?_, letter_inj (List.cons.inj last).1⟩
  have plain : ∀ rest, value ≠ '+' :: rest := by
    rintro rest rfl
    exact absurd (List.all_eq_true.mp all '+' List.mem_cons_self) (by decide)
  rw [parseUnsigned, String.toList_ofList] at number
  split at number
  · exact absurd rfl (plain _)
  · obtain ⟨_, same⟩ := Option.ite_none_right_eq_some.mp number
    exact (Option.some.inj same).symm

/-- The forwarded header is a later backstop exactly for deadlines below 99999.5 seconds: from there on it
has nine digits. -/
theorem forwarded_deadline_iff (headers : HeaderMap) (m : UInt32) (d : Duration) :
    (∀ (text : String) (n : Nat) (unit : TimeUnit),
      (headers.get .grpcTimeout).bind HeaderValue.toStr = some text → Grammar text n unit →
      parseGrpcTimeout headers = some d → (Backstop d ↔ n * unit.nanos < 99999500 * 10 ^ 6)) ∧
    (grpcTimeoutFromMillis m = some d.total → (Backstop d ↔ m.toNat < 99999500)) := by
  constructor
  · intro text n unit header grammar parsed
    obtain ⟨text', n', unit', header', writes, total⟩ := parseGrpcTimeout_eq_some_iff.mp parsed
    rw [header, Option.some.injEq] at header'
    subst header'
    obtain ⟨rfl, rfl⟩ := grammar.writes writes
    rw [backstop_iff_lt, total]
  · intro timeout
    rw [grpcTimeoutFromMillis, Option.ite_none_left_eq_some, Option.some.injEq] at timeout
    rw [backstop_iff_lt, ← timeout.2]
    omega

def hundredThousandSeconds : HeaderValue := ⟨Utf8.encode "100000S", by decide⟩

/-- `100000S` is forwarded as `100000500m`. -/
theorem nine_digits_forwarded : Grammar "100000S" 100000 .second ∧
    ∃ d, parseGrpcTimeout [(.grpcTimeout, hundredThousandSeconds)] = some d ∧ ¬Backstop d ∧
      ∃ sum, d.checkedAdd DEADLINE_GRACE = some sum ∧ (formatGrpcTimeout sum.total).toStr = some "100000500m" := by
  refine ⟨⟨['1', '0', '0', '0', '0', '0'], by decide⟩, .fromSecs 100000, by decide, ?_,
    ⟨100000, 500000000, by decide, by decide⟩, ?_, ?_⟩
  · rw [backstop_iff_lt]
    decide
  · rw [Duration.checkedAdd_eq_some_iff]
    decide
  · rw [toStr_formatGrpcTimeout]
    decide

/-! ### Overflow -/

inductive TimePanic where
  /-- `overflow when adding durations` -/
  | duration
  /-- `overflow when adding duration to instant` -/
  | instant
  deriving DecidableEq

/-- What `unary_proto` computes with the deadline: the header it forwards and, when the head of the
response is there, the deadline of the body. -/
def unaryProtoTimes (headers : HeaderMap) (now : Instant) : Except TimePanic (Option (HeaderValue × Instant)) :=
  (parseGrpcTimeout headers).elim (.ok none) fun d =>
    (d.checkedAdd DEADLINE_GRACE).elim (.error .duration) fun sum =>
      (now.checkedAdd d).elim (.error .instant) fun deadlineAt =>
        .ok (some (formatGrpcTimeout sum.total, deadlineAt))

/-- A deadline of whole seconds leaves room for the grace, and so does one of fewer than 2⁶⁴ milliseconds. -/
theorem grace_fits {headers : HeaderMap} {d : Duration} (parsed : parseGrpcTimeout headers = some d) :
    ∃ sum, d.checkedAdd DEADLINE_GRACE = some sum ∧ sum.total / 10 ^ 6 < 2 ^ 128 := by
  obtain ⟨text, n, unit, _, ⟨value, _, number⟩, total⟩ := parseGrpcTimeout_eq_some_iff.mp parsed
  have small := parseUnsigned_lt number
  have bound := d.total_lt
  have room : d.total + DEADLINE_GRACE.total < 2 ^ 64 * 10 ^ 9 := by
    rw [total_grace]
    cases unit <;> simp only [TimeUnit.nanos] at total <;> omega
  obtain ⟨sum, added, _⟩ := Duration.checkedAdd_of_lt room
  have range := sum.total_lt
  exact ⟨sum, added, by omega⟩

theorem unaryProtoTimes_eq {headers : HeaderMap} {now : Instant} {d sum : Duration}
    (parsed : parseGrpcTimeout headers = some d) (added : d.checkedAdd DEADLINE_GRACE = some sum) :
    unaryProtoTimes headers now = (now.checkedAdd d).elim (.error .instant) fun deadlineAt =>
      .ok (some (formatGrpcTimeout sum.total, deadlineAt)) := by
  rw [unaryProtoTimes, parsed, Option.elim_some, added, Option.elim_some]

/-- The grace and the milliseconds stay in range for every header. The sum with the clock does exactly if
the deadline is below 2⁶³ seconds on the clock. -/
theorem time_arithmetic_iff (headers : HeaderMap) (now : Instant) :
    (∀ d, parseGrpcTimeout headers = some d →
      ∃ sum, d.checkedAdd DEADLINE_GRACE = some sum ∧ sum.total / 10 ^ 6 < 2 ^ 128) ∧
    ((∃ times, unaryProtoTimes headers now = .ok times) ↔
      ∀ text n unit, (headers.get .grpcTimeout).bind HeaderValue.toStr = some text → Writes text n unit →
        n * unit.nanos < 2 ^ 64 * 10 ^ 9 → now.total + (n * unit.nanos : Nat) < 2 ^ 63 * 10 ^ 9) := by
  refine ⟨fun d parsed => grace_fits parsed, ?_⟩
  cases parsed : parseGrpcTimeout headers with
  | none =>
    have nothing : unaryProtoTimes headers now = .ok none := by
      rw [unaryProtoTimes, parsed, Option.elim_none]
    refine iff_of_true ⟨none, nothing⟩ fun text n unit header writes small => ?_
    obtain ⟨d, total⟩ := Duration.exists_total small
    rw [parseGrpcTimeout_eq_some_iff.mpr ⟨text, n, unit, header, writes, total⟩] at parsed
    cases parsed
  | some d =>
    obtain ⟨sum, added, _⟩ := grace_fits parsed
    have clock : (∀ text n unit, (headers.get .grpcTimeout).bind HeaderValue.toStr = some text → Writes text n unit →
        n * unit.nanos < 2 ^ 64 * 10 ^ 9 → now.total + (n * unit.nanos : Nat) < 2 ^ 63 * 10 ^ 9) ↔
          now.total + d.total < 2 ^ 63 * 10 ^ 9 := by
      constructor
      · intro all
        obtain ⟨text, n, unit, header, writes, total⟩ := parseGrpcTimeout_eq_some_iff.mp parsed
        have small := d.total_lt
        rw [total] at small ⊢
        exact all text n unit header writes small
      · intro below text n unit header writes small
        obtain ⟨d', total⟩ := Duration.exists_total small
        rw [parseGrpcTimeout_eq_some_iff.mpr ⟨text, n, unit, header, writes, total⟩] at parsed
        rwa [← total, Option.some.inj parsed]
    rw [clock, ← Instant.checkedAdd_isSome_iff, unaryProtoTimes_eq parsed added]
    cases now.checkedAdd d with
    | none => exact iff_of_false (by rintro ⟨_, ⟨⟩⟩) nofun
    | some deadlineAt => exact iff_of_true ⟨_, rfl⟩ rfl

def longestTimeout : HeaderValue := ⟨Utf8.encode "18446744073709551615S", by decide⟩

/-- `18446744073709551615S`: the grace still fits, the clock does not. -/
theorem clock_overflows : ∃ now, unaryProtoTimes [(.grpcTimeout, longestTimeout)] now = .error .instant :=
  ⟨⟨1, 0, by decide, by decide, by decide⟩, by decide⟩

end Metadata
end GrpcWebnext
