import Mathlib.Algebra.Order.Field.Basic
import Mathlib.Algebra.Order.Field.Rat
import Mathlib.Data.List.Induction
import Mathlib.Data.List.TakeWhile
import Mathlib.Tactic.Linarith
import Mathlib.Tactic.NormNum

/-!
# JavaScript numerals

`parseInt` in base ten and the conversion `Number` of a text, as far as the values tell apart: what is
zero, what is finite, and which number it is before it is rounded to a double.
-/

namespace JsNumeral

/-- A number, up to the sign of zero and of infinity. A finite value stands for the double next to it. -/
inductive Value where
  | nan
  | infinite
  | finite (q : ℚ)
  deriving DecidableEq

/-- What lies beyond the doubles is infinite, and what is next to zero is zero. -/
def Value.round (q : ℚ) : Value :=
  if 2 ^ 1024 - 2 ^ 970 ≤ |q| then .infinite
  else if |q| ≤ 1 / 2 ^ 1075 then .finite 0
  else .finite q

def Value.isFinite : Value → Bool
  | .finite _ => true
  | _ => false

/-- White space and line terminators. -/
def blank (c : Char) : Bool :=
  c.toNat ∈ [9, 10, 11, 12, 13, 32, 0xA0, 0x1680, 0x2028, 0x2029, 0x202F, 0x205F, 0x3000, 0xFEFF] ||
    0x2000 ≤ c.toNat && c.toNat ≤ 0x200A

def isDigit (c : Char) : Bool := '0' ≤ c && c ≤ '9'

def digitValue (c : Char) : Nat := c.toNat - 48

def decimal (digits : List Char) : Nat := digits.foldl (fun n c => 10 * n + digitValue c) 0

def sign : List Char → Bool × List Char
  | '-' :: rest => (true, rest)
  | '+' :: rest => (false, rest)
  | rest => (false, rest)

def signed (negative : Bool) (q : ℚ) : ℚ := if negative then -q else q

/-- `parseInt(text, 10)`: the digits at the front, behind blanks and a sign. -/
def parseInt (text : String) : Value :=
  let (negative, rest) := sign (text.toList.dropWhile blank)
  match rest.takeWhile isDigit with
  | [] => .nan
  | digits => .round (signed negative (decimal digits))

theorem round_natCast_eq_zero_iff (negative : Bool) (n : Nat) :
    Value.round (signed negative n) = .finite 0 ↔ n = 0 := by
  have size : |signed negative (n : ℚ)| = n := by
    cases negative
    · exact Nat.abs_cast n
    · exact (abs_neg _).trans (Nat.abs_cast n)
  unfold Value.round
  rw [size]
  cases n with
  | zero =>
    have huge : (2 : ℚ) ^ 970 < 2 ^ 1024 := pow_lt_pow_right₀ (by norm_num) (by norm_num)
    refine iff_of_true ?_ rfl
    rw [if_neg (by simpa using huge), if_pos (by simp)]
  | succ n =>
    have large : ¬((n + 1 : ℕ) : ℚ) ≤ 1 / 2 ^ 1075 := by
      have one : (1 : ℚ) ≤ (n + 1 : ℕ) := by exact_mod_cast Nat.le_add_left 1 n
      have tiny : (1 : ℚ) / 2 ^ 1075 < 1 := by
        rw [div_lt_one (by positivity)]
        exact one_lt_pow₀ (by norm_num) (by norm_num)
      exact not_le.mpr (tiny.trans_le one)
    refine iff_of_false ?_ (Nat.succ_ne_zero n)
    rw [if_neg large]
    split
    · nofun
    · intro zero
      have value : signed negative ((n + 1 : ℕ) : ℚ) = 0 := Value.finite.inj zero
      rw [value, abs_zero] at size
      exact Nat.succ_ne_zero n (by exact_mod_cast size.symm)

theorem decimal_eq_zero_iff {digits : List Char} (all : ∀ c ∈ digits, isDigit c = true) :
    decimal digits = 0 ↔ ∀ c ∈ digits, c = '0' := by
  induction digits using List.reverseRecOn with
  | nil => simp [decimal]
  | append_singleton digits c ih =>
    have digit : isDigit c = true := all c (by simp)
    have zero : digitValue c = 0 ↔ c = '0' := by
      constructor
      · intro value
        have low : 48 ≤ c.toNat := by
          have first : '0' ≤ c := by
            rw [isDigit, Bool.and_eq_true, decide_eq_true_eq] at digit
            exact digit.1
          exact first
        have same : c.toNat = '0'.toNat := by
          rw [digitValue] at value
          show c.toNat = 48
          omega
        exact Char.toNat_inj.mp same
      · rintro rfl
        rfl
    have step : decimal (digits ++ [c]) = 10 * decimal digits + digitValue c := by simp [decimal]
    rw [step, List.forall_mem_append, List.forall_mem_singleton, ← ih fun d member => all d (by simp [member]), ← zero]
    omega

/-- The digits that `parseInt` reads. -/
def leadingDigits (text : String) : List Char := (sign (text.toList.dropWhile blank)).2.takeWhile isDigit

/-- `parseInt` reads zero in zeros at the front, whatever follows them. -/
theorem parseInt_eq_zero_iff {text : String} :
    parseInt text = .finite 0 ↔ leadingDigits text ≠ [] ∧ ∀ c ∈ leadingDigits text, c = '0' := by
  have digits : ∀ c ∈ leadingDigits text, isDigit c = true := fun c member => List.mem_takeWhile_imp member
  rw [← decimal_eq_zero_iff digits]
  unfold parseInt
  show (match leadingDigits text with
    | [] => Value.nan
    | digits => Value.round (signed _ (decimal digits))) = _ ↔ _
  cases leadingDigits text with
  | nil => simp
  | cons c rest => simpa using round_natCast_eq_zero_iff _ _

/-! ### Conversion of a whole text -/

def radix : Char → Option Nat
  | 'x' | 'X' => some 16
  | 'o' | 'O' => some 8
  | 'b' | 'B' => some 2
  | _ => none

def radixDigit (base : Nat) (c : Char) : Option Nat :=
  let value :=
    if isDigit c then digitValue c
    else if 'a' ≤ c ∧ c ≤ 'f' then c.toNat - 87
    else if 'A' ≤ c ∧ c ≤ 'F' then c.toNat - 55
    else base
  if value < base then some value else none

def exponent : List Char → Option Int
  | [] => some 0
  | c :: rest =>
    if c = 'e' ∨ c = 'E' then
      let (negative, digits) := sign rest
      if digits ≠ [] ∧ digits.all isDigit then
        some (if negative then -(decimal digits : Int) else (decimal digits : Int))
      else none
    else none

/-- A decimal literal without its sign: its digits, and the power of ten that they count. -/
def literal (text : List Char) : Option (Nat × Int) :=
  let whole := text.takeWhile isDigit
  let (fraction, rest) :=
    match text.dropWhile isDigit with
    | '.' :: rest => (rest.takeWhile isDigit, rest.dropWhile isDigit)
    | rest => ([], rest)
  if whole = [] ∧ fraction = [] then none
  else do pure (decimal (whole ++ fraction), (← exponent rest) - fraction.length)

/-- `Number(text)`. A blank text is zero. -/
def number (text : String) : Value :=
  let trimmed := ((text.toList.dropWhile blank).reverse.dropWhile blank).reverse
  let decimalValue :=
    let (negative, unsigned) := sign trimmed
    if unsigned = "Infinity".toList then .infinite
    else match literal unsigned with
      | some (digits, power) => .round (signed negative (digits * (10 : ℚ) ^ power))
      | none => .nan
  match trimmed with
  | [] => .finite 0
  | '0' :: c :: digits =>
    match radix c with
    | some base =>
      match digits with
      | [] => .nan
      | digits =>
        match digits.mapM (radixDigit base) with
        | some values => .round (values.foldl (fun n d => base * n + d) 0 : Nat)
        | none => .nan
    | none => decimalValue
  | _ => decimalValue

/-! ### Natural numbers -/

theorem round_natCast {n : Nat} (small : n < 2 ^ 53) : Value.round n = .finite n := by
  have size : |(n : ℚ)| = n := Nat.abs_cast n
  have below : (n : ℚ) < 2 ^ 53 := by exact_mod_cast small
  have room (p : ℚ) (large : 2 ^ 53 ≤ p) : (n : ℚ) < p * 2 ^ 54 - p := by
    linarith
  have inside : ¬(2 : ℚ) ^ 1024 - 2 ^ 970 ≤ n := by
    rw [show 1024 = 970 + 54 from rfl, pow_add, not_le]
    exact room _ (pow_le_pow_right₀ (by norm_num) (by norm_num))
  unfold Value.round
  rw [size, if_neg inside, ite_eq_right_iff]
  intro tiny
  cases n with
  | zero => rfl
  | succ n =>
    have one : (1 : ℚ) ≤ (n + 1 : ℕ) := by exact_mod_cast Nat.le_add_left 1 n
    have less : (1 : ℚ) / 2 ^ 1075 < 1 := by
      rw [div_lt_one (by positivity)]
      exact one_lt_pow₀ (by norm_num) (by norm_num)
    exact absurd tiny (not_le.mpr (less.trans_le one))

theorem isDigit_of_isDigit {c : Char} (digit : c.isDigit = true) : isDigit c = true := by
  rw [Char.isDigit, Bool.and_eq_true, decide_eq_true_eq, decide_eq_true_eq] at digit
  rw [isDigit, Bool.and_eq_true, decide_eq_true_eq, decide_eq_true_eq]
  exact digit

theorem isDigit_range {c : Char} (digit : isDigit c = true) : 48 ≤ c.toNat ∧ c.toNat ≤ 57 := by
  rw [isDigit, Bool.and_eq_true, decide_eq_true_eq, decide_eq_true_eq] at digit
  exact digit

theorem blank_of_isDigit {c : Char} (digit : isDigit c = true) : blank c = false := by
  have range := isDigit_range digit
  simp only [blank, Bool.or_eq_false_iff, Bool.and_eq_false_iff, decide_eq_false_iff_not]
  simp
  omega

theorem radix_of_isDigit {c : Char} (digit : isDigit c = true) : radix c = none := by
  have range := isDigit_range digit
  unfold radix
  split <;> first | rfl | (revert range; decide)

theorem dropWhile_blank {digits : List Char} (all : ∀ c ∈ digits, isDigit c = true) : digits.dropWhile blank = digits := by
  cases digits with
  | nil => rfl
  | cons c rest => exact List.dropWhile_cons_of_neg (by simp [blank_of_isDigit (all c List.mem_cons_self)])

theorem sign_digits {digits : List Char} (all : ∀ c ∈ digits, isDigit c = true) : sign digits = (false, digits) := by
  unfold sign
  split
  · exact absurd (all '-' List.mem_cons_self) (by decide)
  · exact absurd (all '+' List.mem_cons_self) (by decide)
  · rfl

theorem repr_digits (n : Nat) : n.repr.toList ≠ [] ∧ (∀ c ∈ n.repr.toList, isDigit c = true) ∧ decimal n.repr.toList = n := by
  rw [Nat.toList_repr]
  refine ⟨Nat.toDigits_ne_nil, fun c member => ?_, Nat.ofDigitChars_ten_toDigits⟩
  exact isDigit_of_isDigit (Nat.isDigit_of_mem_toDigits (by decide) (by decide) member)

/-- `parseInt` reads the text of a whole number as that number. -/
theorem parseInt_repr {n : Nat} (small : n < 2 ^ 53) : parseInt n.repr = .finite n := by
  obtain ⟨nonempty, digits, value⟩ := repr_digits n
  unfold parseInt
  generalize n.repr.toList = ds at digits value nonempty ⊢
  simp only [dropWhile_blank digits, sign_digits digits, List.takeWhile_eq_self_iff.mpr digits]
  cases ds with
  | nil => exact absurd rfl nonempty
  | cons d rest =>
    show Value.round (decimal (d :: rest)) = _
    rw [value, round_natCast small]

/-- So does `Number`. -/
theorem number_repr {n : Nat} (small : n < 2 ^ 53) : number n.repr = .finite n := by
  obtain ⟨nonempty, digits, value⟩ := repr_digits n
  unfold number
  generalize n.repr.toList = ds at digits value nonempty ⊢
  have trimmed : ((ds.dropWhile blank).reverse.dropWhile blank).reverse = ds := by
    rw [dropWhile_blank digits, dropWhile_blank fun c member => digits c (List.mem_reverse.mp member), List.reverse_reverse]
  have finite : ds ≠ "Infinity".toList := by
    rintro rfl
    exact absurd (digits 'I' (by decide)) (by decide)
  have taken : ds.takeWhile isDigit = ds := List.takeWhile_eq_self_iff.mpr digits
  have left : ds.dropWhile isDigit = [] := List.dropWhile_eq_nil_iff.mpr digits
  have read : literal ds = some (n, 0) := by
    simp [literal, taken, left, nonempty, value, exponent]
  have decimalValue : Value.round (signed false (n * (10 : ℚ) ^ (0 : ℤ))) = .finite n := by
    show Value.round ((n : ℚ) * 10 ^ (0 : ℤ)) = _
    rw [zpow_zero, mul_one, round_natCast small]
  simp only [trimmed, sign_digits digits, if_neg finite, read, decimalValue]
  split
  · exact absurd rfl nonempty
  · rw [radix_of_isDigit (digits _ (List.mem_cons_of_mem _ List.mem_cons_self))]
  · rfl

end JsNumeral
