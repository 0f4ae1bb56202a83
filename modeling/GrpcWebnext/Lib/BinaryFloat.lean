import Mathlib.Algebra.Order.Field.Power
import Mathlib.Algebra.Order.Floor.Ring
import Mathlib.Algebra.Ring.Int.Parity
import Mathlib.Data.Int.Log
import Mathlib.Data.Rat.Floor
import Mathlib.Tactic.Linarith
import Mathlib.Tactic.Positivity

/-!
# Binary floating point

The numbers of a binary format and rounding to the nearest of them, ties to even. Rounding keeps the
numbers of the format, and passes no multiple of the unit that it rounds to.
-/

namespace BinaryFloat

/-- Significands have `precision` bits, exponents start at `least`, and `2 ^ top` bounds all numbers. -/
structure Format where
  precision : ℕ
  least : ℤ
  top : ℤ
  precision_pos : 0 < precision

def binary64 : Format := ⟨53, -1074, 1024, by decide⟩

namespace Format

variable (F : Format)

def Holds (x : ℚ) : Prop := |x| < 2 ^ F.top ∧ ∃ m e : ℤ, |m| < 2 ^ F.precision ∧ F.least ≤ e ∧ x = m * 2 ^ e

/-- The exponent of the unit that `x` is rounded to. -/
def exponent (x : ℚ) : ℤ := max (Int.log 2 |x| + 1 - F.precision) F.least

end Format

def roundHalfEven (x : ℚ) : ℤ :=
  if Int.fract x < 1 / 2 ∨ Int.fract x = 1 / 2 ∧ Even ⌊x⌋ then ⌊x⌋ else ⌊x⌋ + 1

theorem roundHalfEven_le {x : ℚ} {k : ℤ} (below : x ≤ k) : roundHalfEven x ≤ k := by
  have floor : ⌊x⌋ ≤ k := Int.cast_le.mp ((Int.floor_le x).trans below)
  unfold roundHalfEven
  split
  · exact floor
  · rename_i up
    have apart : ⌊x⌋ ≠ k := by
      rintro rfl
      have whole : Int.fract x = 0 := sub_eq_zero.mpr (le_antisymm below (Int.floor_le x))
      exact up (.inl (by rw [whole]; norm_num))
    omega

theorem le_roundHalfEven {x : ℚ} {k : ℤ} (above : k ≤ x) : k ≤ roundHalfEven x := by
  have floor : k ≤ ⌊x⌋ := Int.le_floor.mpr above
  unfold roundHalfEven
  split <;> omega

namespace Format

variable (F : Format)

def round (x : ℚ) : ℚ := roundHalfEven (x / 2 ^ F.exponent x) * 2 ^ F.exponent x

variable {F} {x y : ℚ}

/-! ### Multiples of the unit -/

def OnGrid (F : Format) (x y : ℚ) : Prop := ∃ n : ℤ, y = n * 2 ^ F.exponent x

theorem OnGrid.of_le {m e : ℤ} (above : F.exponent x ≤ e) : F.OnGrid x (m * 2 ^ e) := by
  obtain ⟨k, rfl⟩ := Int.le.dest above
  refine ⟨m * 2 ^ k, ?_⟩
  rw [zpow_add₀ two_ne_zero, zpow_natCast]
  push_cast
  ring

theorem OnGrid.round_le (unit : F.OnGrid x y) (below : x ≤ y) : F.round x ≤ y := by
  obtain ⟨n, rfl⟩ := unit
  have positive : (0 : ℚ) < 2 ^ F.exponent x := by positivity
  have scaled : roundHalfEven (x / 2 ^ F.exponent x) ≤ n := roundHalfEven_le ((div_le_iff₀ positive).mpr below)
  exact mul_le_mul_of_nonneg_right (Int.cast_le.mpr scaled) positive.le

theorem OnGrid.le_round (unit : F.OnGrid x y) (above : y ≤ x) : y ≤ F.round x := by
  obtain ⟨n, rfl⟩ := unit
  have positive : (0 : ℚ) < 2 ^ F.exponent x := by positivity
  have scaled : n ≤ roundHalfEven (x / 2 ^ F.exponent x) := le_roundHalfEven ((le_div_iff₀ positive).mpr above)
  exact mul_le_mul_of_nonneg_right (Int.cast_le.mpr scaled) positive.le

theorem round_nonpos (negative : x ≤ 0) : F.round x ≤ 0 :=
  OnGrid.round_le ⟨0, by simp⟩ negative

/-- A positive multiple of the least number is not rounded to 0. -/
theorem round_pos {m : ℤ} (multiple : x = m * 2 ^ F.least) (positive : 0 < x) : 0 < F.round x := by
  have one : F.OnGrid x (2 ^ F.exponent x) := ⟨1, by simp⟩
  have unit : (0 : ℚ) < 2 ^ F.exponent x := by positivity
  refine unit.trans_le (one.le_round ?_)
  rcases max_choice (Int.log 2 |x| + 1 - F.precision) F.least with normal | subnormal
  · have less : F.exponent x ≤ Int.log 2 |x| := by
      have precise := F.precision_pos
      rw [exponent, normal]
      omega
    calc (2 : ℚ) ^ F.exponent x ≤ 2 ^ Int.log 2 |x| := zpow_le_zpow_right₀ one_le_two less
      _ ≤ |x| := Int.zpow_log_le_self one_lt_two (abs_pos.mpr positive.ne')
      _ = x := abs_of_pos positive
  · have least : (0 : ℚ) < 2 ^ F.least := by positivity
    have first : (1 : ℤ) ≤ m := by
      rw [multiple] at positive
      exact Int.cast_pos.mp (pos_of_mul_pos_left positive least.le)
    rw [exponent, subnormal, multiple]
    exact le_mul_of_one_le_left least.le (by exact_mod_cast first)

/-! ### Exact results -/

theorem exponent_le {e : ℤ} (least : F.least ≤ e) (nonzero : x ≠ 0) (small : |x| < 2 ^ (F.precision + e)) :
    F.exponent x ≤ e := by
  have log : Int.log 2 |x| < F.precision + e :=
    (Int.lt_zpow_iff_log_lt one_lt_two (abs_pos.mpr nonzero)).mp (by exact_mod_cast small)
  exact max_le (by omega) least

theorem round_eq (holds : F.Holds x) : F.round x = x := by
  obtain ⟨_, m, e, small, least, rfl⟩ := holds
  by_cases zero : (m * 2 ^ e : ℚ) = 0
  · rw [zero]
    exact le_antisymm (round_nonpos le_rfl) (OnGrid.le_round ⟨0, by simp⟩ le_rfl)
  · have bound : |(m * 2 ^ e : ℚ)| < 2 ^ (F.precision + e) := by
      have positive : (0 : ℚ) < 2 ^ e := by positivity
      rw [abs_mul, abs_of_pos positive, zpow_add₀ two_ne_zero, zpow_natCast]
      exact mul_lt_mul_of_pos_right (by exact_mod_cast small) positive
    have unit : F.OnGrid (m * 2 ^ e) (m * 2 ^ e) := .of_le (exponent_le least zero bound)
    exact le_antisymm (unit.round_le le_rfl) (unit.le_round le_rfl)

/-- Below `2 ^ precision`, every integer is a multiple of the unit. -/
theorem OnGrid.int (least : F.least ≤ 0) (positive : 0 < x) (small : x < 2 ^ F.precision) (k : ℤ) : F.OnGrid x k := by
  have bound : |x| < 2 ^ ((F.precision : ℤ) + 0) := by
    rwa [abs_of_pos positive, add_zero, zpow_natCast]
  have unit : F.OnGrid x (k * 2 ^ (0 : ℤ)) := .of_le (exponent_le least positive.ne' bound)
  rwa [zpow_zero, mul_one] at unit

theorem Holds.int (least : F.least ≤ 0) {k : ℤ} (small : |k| < 2 ^ F.precision) (bound : (F.precision : ℤ) ≤ F.top) :
    F.Holds k := by
  refine ⟨?_, k, 0, small, least, by simp⟩
  calc |(k : ℚ)| < 2 ^ F.precision := by exact_mod_cast small
    _ = 2 ^ (F.precision : ℤ) := (zpow_natCast _ _).symm
    _ ≤ 2 ^ F.top := zpow_le_zpow_right₀ one_le_two bound

/-- What an integer leaves of a larger number, it leaves exactly. -/
theorem Holds.sub_int (holds : F.Holds x) (least : F.least ≤ 0) {k : ℤ} (nonneg : 0 ≤ k) (less : k < x)
    (small : x - k < 2 ^ F.precision) : F.Holds (x - k) := by
  have start : (0 : ℚ) ≤ k := by exact_mod_cast nonneg
  have positive : 0 < x - k := sub_pos.mpr less
  obtain ⟨range, m, e, significand, above, shape⟩ := holds
  refine ⟨?_, ?_⟩
  · rw [abs_of_pos positive]
    rw [abs_of_pos (start.trans_lt less)] at range
    linarith
  · rcases Int.le_total 0 e with whole | fraction
    · obtain ⟨j, rfl⟩ := Int.eq_ofNat_of_zero_le whole
      have exact_ : x - k = ((m * 2 ^ j - k : ℤ) : ℚ) := by
        rw [shape, zpow_natCast]
        push_cast
        rfl
      refine ⟨m * 2 ^ j - k, 0, ?_, least, by rw [exact_]; simp⟩
      rw [exact_] at small positive
      rw [abs_of_pos (Int.cast_pos.mp positive)]
      exact_mod_cast small
    · obtain ⟨j, rfl⟩ := Int.exists_eq_neg_ofNat fraction
      have unit : (0 : ℚ) < 2 ^ (-(j : ℤ)) := by positivity
      have inverse : (2 : ℚ) ^ j * 2 ^ (-(j : ℤ)) = 1 := by
        rw [zpow_neg, zpow_natCast]
        exact mul_inv_cancel₀ (by positivity)
      have exact_ : x - k = ((m - k * 2 ^ j : ℤ) : ℚ) * 2 ^ (-(j : ℤ)) := by
        push_cast
        rw [sub_mul, mul_assoc, inverse, mul_one, shape]
      refine ⟨m - k * 2 ^ j, -j, ?_, above, exact_⟩
      have first : 0 < m - k * 2 ^ j := by
        rw [exact_] at positive
        exact Int.cast_pos.mp (pos_of_mul_pos_left positive unit.le)
      have most : m ≤ |m| := le_abs_self m
      have taken : 0 ≤ k * 2 ^ j := by positivity
      rw [abs_of_pos first]
      omega

/-- The difference to an integer is no finer than the least number. -/
theorem Holds.sub_int_multiple (holds : F.Holds x) (least : F.least ≤ 0) (k : ℤ) :
    ∃ m : ℤ, x - k = m * 2 ^ F.least := by
  obtain ⟨_, m, e, _, above, rfl⟩ := holds
  obtain ⟨i, fine⟩ := Int.le.dest above
  obtain ⟨j, zero⟩ := Int.le.dest least
  have inverse : (2 : ℚ) ^ j * 2 ^ F.least = 1 := by
    rw [← zpow_natCast, ← zpow_add₀ two_ne_zero, add_comm, zero, zpow_zero]
  refine ⟨m * 2 ^ i - k * 2 ^ j, ?_⟩
  push_cast
  rw [← fine, zpow_add₀ two_ne_zero, zpow_natCast, sub_mul, mul_assoc (k : ℚ), inverse]
  ring

/-! ### Rounded numbers -/

theorem abs_round_le (F : Format) (x : ℚ) : |roundHalfEven (x / 2 ^ F.exponent x)| ≤ 2 ^ F.precision := by
  have unit : (0 : ℚ) < 2 ^ F.exponent x := by positivity
  have bound : |x / 2 ^ F.exponent x| ≤ ((2 ^ F.precision : ℤ) : ℚ) := by
    rw [abs_div, abs_of_pos unit, div_le_iff₀ unit]
    push_cast
    rw [← zpow_natCast, ← zpow_add₀ two_ne_zero]
    refine (Int.lt_zpow_succ_log_self one_lt_two |x|).le.trans ?_
    have above : Int.log 2 |x| + 1 ≤ F.precision + F.exponent x := by
      have most := le_max_left (Int.log 2 |x| + 1 - F.precision) F.least
      unfold exponent
      omega
    exact_mod_cast zpow_le_zpow_right₀ (one_le_two (α := ℚ)) above
  obtain ⟨low, high⟩ := abs_le.mp bound
  exact abs_le.mpr ⟨le_roundHalfEven (by exact_mod_cast low), roundHalfEven_le high⟩

theorem holds_round (small : |F.round x| < 2 ^ F.top) : F.Holds (F.round x) := by
  refine ⟨small, ?_⟩
  have least : F.least ≤ F.exponent x := le_max_right _ _
  rcases (F.abs_round_le x).lt_or_eq with inner | outer
  · exact ⟨_, _, inner, least, rfl⟩
  · -- the significand was rounded up to the next power of 2
    obtain ⟨p, precision⟩ := Nat.exists_eq_add_of_lt F.precision_pos
    rw [zero_add] at precision
    obtain ⟨m, even⟩ : (2 : ℤ) ∣ roundHalfEven (x / 2 ^ F.exponent x) := by
      rw [← dvd_abs, outer, precision]
      exact dvd_pow_self 2 (Nat.succ_ne_zero p)
    refine ⟨m, F.exponent x + 1, ?_, by omega, ?_⟩
    · rw [even, abs_mul, abs_two] at outer
      have positive : (0 : ℤ) < 2 ^ F.precision := by positivity
      omega
    · rw [round, even, zpow_add₀ two_ne_zero]
      push_cast
      ring

end Format

/-! ### Arithmetic -/

/-- A number of the format, an infinity, or no number. The sign of a zero is left out. -/
inductive Datum (F : Format) where
  | finite (x : ℚ) (holds : F.Holds x)
  | infinity (negative : Bool)
  | nan

namespace Datum

variable {F : Format}

def ofRat (F : Format) (x : ℚ) : Datum F :=
  if small : |F.round x| < 2 ^ F.top then .finite (F.round x) (F.holds_round small) else .infinity (decide (x < 0))

theorem ofRat_of_holds {x : ℚ} (holds : F.Holds x) : ofRat F x = .finite x holds := by
  have exact_ : F.round x = x := Format.round_eq holds
  have small : |F.round x| < 2 ^ F.top := by
    rw [exact_]
    exact holds.1
  rw [ofRat, dif_pos small]
  simp only [exact_]

def sub : Datum F → Datum F → Datum F
  | finite x _, finite y _ => ofRat F (x - y)
  | infinity s, infinity t => if s = t then nan else infinity s
  | infinity s, finite _ _ => infinity s
  | finite _ _, infinity s => infinity (!s)
  | nan, _ => nan
  | _, nan => nan

end Datum

abbrev Double := Datum binary64

end BinaryFloat
