import Mathlib.Algebra.Group.Int.Defs
import Mathlib.Algebra.Group.Nat.Defs

/-!
# Durations and instants

A duration is a 64-bit number of seconds and the nanoseconds below one second; an instant counts its
seconds in a signed 64-bit number. Sums are checked, and compared with the exact sum of nanoseconds.
-/

structure Duration where
  secs : Nat
  nanos : Nat
  secs_lt : secs < 2 ^ 64
  nanos_lt : nanos < 10 ^ 9
  deriving DecidableEq

namespace Duration

/-- The duration in nanoseconds. -/
def total (d : Duration) : Nat := d.secs * 10 ^ 9 + d.nanos

theorem total_inj {a b : Duration} : a.total = b.total ↔ a = b := by
  constructor
  · intro same
    obtain ⟨s, n, _, small⟩ := a
    obtain ⟨s', n', _, small'⟩ := b
    simp only [total] at same
    obtain rfl : s = s' := by omega
    obtain rfl : n = n' := by omega
    rfl
  · rintro rfl
    rfl

theorem total_lt (d : Duration) : d.total < 2 ^ 64 * 10 ^ 9 := by
  have secs := d.secs_lt
  have nanos := d.nanos_lt
  unfold total
  omega

theorem exists_total {n : Nat} (small : n < 2 ^ 64 * 10 ^ 9) : ∃ d : Duration, d.total = n :=
  ⟨⟨n / 10 ^ 9, n % 10 ^ 9, by omega, Nat.mod_lt _ (by decide)⟩, Nat.div_add_mod' _ _⟩

def fromSecs (n : UInt64) : Duration := ⟨n.toNat, 0, n.toNat_lt, by decide⟩

/-- `n` units, of which `k` make a second, a divisor of a billion. -/
def fromUnits (k : Nat) (pos : 0 < k) (divides : k * (10 ^ 9 / k) = 10 ^ 9) (n : UInt64) : Duration where
  secs := n.toNat / k
  nanos := n.toNat % k * (10 ^ 9 / k)
  secs_lt := Nat.lt_of_le_of_lt (Nat.div_le_self _ _) n.toNat_lt
  nanos_lt := by
    have less := Nat.mod_lt n.toNat pos
    have some : 0 < 10 ^ 9 / k := Nat.pos_of_ne_zero fun none => by rw [none] at divides; cases divides
    calc n.toNat % k * (10 ^ 9 / k) < k * (10 ^ 9 / k) := Nat.mul_lt_mul_of_pos_right less some
      _ = 10 ^ 9 := divides

def fromMillis : UInt64 → Duration := fromUnits (10 ^ 3) (by decide) (by decide)

def fromMicros : UInt64 → Duration := fromUnits (10 ^ 6) (by decide) (by decide)

def fromNanos : UInt64 → Duration := fromUnits (10 ^ 9) (by decide) (by decide)

@[simp] theorem total_fromSecs (n : UInt64) : (fromSecs n).total = n.toNat * 10 ^ 9 := Nat.add_zero _

theorem total_fromUnits {k : Nat} (pos : 0 < k) (divides : k * (10 ^ 9 / k) = 10 ^ 9) (n : UInt64) :
    (fromUnits k pos divides n).total = n.toNat * (10 ^ 9 / k) := by
  show n.toNat / k * 10 ^ 9 + n.toNat % k * (10 ^ 9 / k) = n.toNat * (10 ^ 9 / k)
  calc n.toNat / k * 10 ^ 9 + n.toNat % k * (10 ^ 9 / k)
      = n.toNat / k * (k * (10 ^ 9 / k)) + n.toNat % k * (10 ^ 9 / k) := by rw [divides]
    _ = (k * (n.toNat / k) + n.toNat % k) * (10 ^ 9 / k) := by
        rw [← Nat.mul_assoc, Nat.mul_comm (n.toNat / k) k, Nat.add_mul]
    _ = n.toNat * (10 ^ 9 / k) := by rw [Nat.div_add_mod]

@[simp] theorem total_fromMillis (n : UInt64) : (fromMillis n).total = n.toNat * 10 ^ 6 := total_fromUnits _ _ n

@[simp] theorem total_fromMicros (n : UInt64) : (fromMicros n).total = n.toNat * 10 ^ 3 := total_fromUnits _ _ n

@[simp] theorem total_fromNanos (n : UInt64) : (fromNanos n).total = n.toNat :=
  (total_fromUnits _ _ n).trans (Nat.mul_one _)

/-! ### Checked sums -/

/-- The seconds first, then a carry of the nanoseconds. -/
def checkedAdd (a b : Duration) : Option Duration :=
  if below : a.nanos + b.nanos < 10 ^ 9 then
    if small : a.secs + b.secs < 2 ^ 64 then some ⟨a.secs + b.secs, a.nanos + b.nanos, small, below⟩ else none
  else
    if small : a.secs + b.secs + 1 < 2 ^ 64 then
      some ⟨a.secs + b.secs + 1, a.nanos + b.nanos - 10 ^ 9, small, by have := a.nanos_lt; have := b.nanos_lt; omega⟩
    else none

/-- The sum is exact, and there is one exactly if it is in range. -/
theorem checkedAdd_eq_some_iff {a b c : Duration} : a.checkedAdd b = some c ↔ c.total = a.total + b.total := by
  have ha := a.nanos_lt
  have hb := b.nanos_lt
  have hc := c.nanos_lt
  have small := c.secs_lt
  unfold checkedAdd
  constructor
  · intro sum
    split at sum
    · split at sum
      · cases sum
        simp only [total]
        omega
      · cases sum
    · split at sum
      · cases sum
        simp only [total]
        omega
      · cases sum
  · intro exact
    obtain ⟨s, n, _, _⟩ := c
    simp only [total] at exact hc small
    split
    · rw [dif_pos (by omega), Option.some.injEq, Duration.mk.injEq]
      omega
    · rw [dif_pos (by omega), Option.some.injEq, Duration.mk.injEq]
      omega

theorem checkedAdd_of_lt {a b : Duration} (small : a.total + b.total < 2 ^ 64 * 10 ^ 9) :
    ∃ c, a.checkedAdd b = some c ∧ c.total = a.total + b.total := by
  obtain ⟨c, exact⟩ := exists_total small
  exact ⟨c, checkedAdd_eq_some_iff.mpr exact, exact⟩

end Duration

structure Instant where
  secs : Int
  nanos : Nat
  secs_ge : -2 ^ 63 ≤ secs
  secs_lt : secs < 2 ^ 63
  nanos_lt : nanos < 10 ^ 9
  deriving DecidableEq

namespace Instant

def total (t : Instant) : Int := t.secs * 10 ^ 9 + t.nanos

def checkedAdd (t : Instant) (d : Duration) : Option Instant :=
  if below : t.nanos + d.nanos < 10 ^ 9 then
    if small : t.secs + d.secs < 2 ^ 63 then
      some ⟨t.secs + d.secs, t.nanos + d.nanos, by have := t.secs_ge; omega, small, below⟩
    else none
  else
    if small : t.secs + d.secs + 1 < 2 ^ 63 then
      some ⟨t.secs + d.secs + 1, t.nanos + d.nanos - 10 ^ 9, by have := t.secs_ge; omega, small,
        by have := t.nanos_lt; have := d.nanos_lt; omega⟩
    else none

theorem checkedAdd_isSome_iff (t : Instant) (d : Duration) :
    (t.checkedAdd d).isSome = true ↔ t.total + d.total < 2 ^ 63 * 10 ^ 9 := by
  have nanos := t.nanos_lt
  have nanos' := d.nanos_lt
  unfold checkedAdd total Duration.total
  split
  · split
    · exact iff_of_true rfl (by omega)
    · exact iff_of_false nofun (by omega)
  · split
    · exact iff_of_true rfl (by omega)
    · exact iff_of_false nofun (by omega)

end Instant
