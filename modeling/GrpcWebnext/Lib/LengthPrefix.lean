import Mathlib.Data.List.Basic

/-!
# Length-prefixed streams

A stream of messages, each behind a header of fixed size that declares how many symbols
follow. `drain` cuts a buffer into its complete messages and the incomplete rest, and
`drain_append` shows that the cut does not depend on how the buffer was filled.
-/

namespace LengthPrefix

variable {α : Type}

/-- A header of `header` symbols and the payload length it declares. -/
structure Format (α : Type) where
  header : Nat
  header_pos : 0 < header
  declared : List α → Nat

/-- The first complete message of the buffer and what follows it. -/
def Format.next (F : Format α) (buf : List α) : Option (List α × List α) :=
  if buf.length < F.header then none
  else
    let n := F.declared (buf.take F.header)
    if buf.length < F.header + n then none
    else some ((buf.drop F.header).take n, buf.drop (F.header + n))

theorem Format.next_eq_some {F : Format α} {buf m rest : List α} :
    F.next buf = some (m, rest) ↔
      ∃ h, h.length = F.header ∧ m.length = F.declared h ∧ buf = h ++ m ++ rest := by
  constructor
  · intro found
    simp only [Format.next] at found
    split at found
    · cases found
    split at found
    · cases found
    simp only [Option.some.injEq, Prod.mk.injEq] at found
    obtain ⟨rfl, rfl⟩ := found
    refine ⟨buf.take F.header, by simp; omega, by simp; omega, ?_⟩
    rw [List.append_assoc, ← List.drop_drop, List.take_append_drop, List.take_append_drop]
  · intro found
    obtain ⟨h, hlen, mlen, rfl⟩ := found
    have taken : (h ++ m ++ rest).take F.header = h := by
      rw [List.append_assoc, ← hlen, List.take_left']; rfl
    have dropped : (h ++ m ++ rest).drop F.header = m ++ rest := by
      rw [List.append_assoc, ← hlen, List.drop_left']; rfl
    simp only [Format.next, taken, ← mlen]
    rw [if_neg (by simp; omega), if_neg (by simp; omega), ← List.drop_drop, dropped]
    simp

theorem Format.next_append {F : Format α} {buf m rest : List α} (found : F.next buf = some (m, rest))
    (more : List α) : F.next (buf ++ more) = some (m, rest ++ more) := by
  obtain ⟨h, hlen, mlen, rfl⟩ := next_eq_some.mp found
  exact next_eq_some.mpr ⟨h, hlen, mlen, by simp⟩

theorem Format.next_length {F : Format α} {buf m rest : List α} (found : F.next buf = some (m, rest)) :
    rest.length < buf.length := by
  obtain ⟨h, hlen, _, rfl⟩ := next_eq_some.mp found
  have := F.header_pos
  simp only [List.length_append]
  omega

/-- At most `fuel` messages; a buffer never holds more than it has symbols. -/
def Format.drainFuel (F : Format α) : Nat → List α → List (List α) × List α
  | 0, buf => ([], buf)
  | fuel + 1, buf =>
    match F.next buf with
    | none => ([], buf)
    | some (m, rest) =>
      let tail := drainFuel F fuel rest
      (m :: tail.1, tail.2)

/-- The complete messages of the buffer, in order, and the incomplete rest. -/
def Format.drain (F : Format α) (buf : List α) : List (List α) × List α :=
  F.drainFuel buf.length buf

theorem Format.drainFuel_enough (F : Format α) (fuel : Nat) (buf : List α) (enough : buf.length ≤ fuel) :
    F.drainFuel fuel buf = F.drain buf := by
  have general : ∀ (n fuel : Nat) (buf : List α), buf.length ≤ fuel → buf.length ≤ n →
      F.drainFuel fuel buf = F.drainFuel n buf := by
    intro n
    induction n with
    | zero =>
      intro fuel buf _ hn
      obtain rfl := List.length_eq_zero_iff.mp (Nat.le_zero.mp hn)
      have none : F.next [] = none := by simp [Format.next, F.header_pos]
      cases fuel <;> simp [Format.drainFuel, none]
    | succ n ih =>
      intro fuel buf hf hn
      cases found : F.next buf with
      | none => cases fuel <;> simp [Format.drainFuel, found]
      | some r =>
        have shorter := Format.next_length found
        cases fuel with
        | zero => omega
        | succ fuel => simp only [Format.drainFuel, found]; rw [ih fuel r.2 (by omega) (by omega)]
  exact general _ _ _ enough (Nat.le_refl _)

theorem Format.drain_none {F : Format α} {buf : List α} (none : F.next buf = none) :
    F.drain buf = ([], buf) := by
  unfold Format.drain
  cases buf.length <;> simp [Format.drainFuel, none]

theorem Format.drain_some {F : Format α} {buf m rest : List α} (found : F.next buf = some (m, rest)) :
    F.drain buf = (m :: (F.drain rest).1, (F.drain rest).2) := by
  have shorter := Format.next_length found
  obtain ⟨n, hn⟩ : ∃ n, buf.length = n + 1 := ⟨buf.length - 1, by omega⟩
  rw [Format.drain, hn, Format.drainFuel, found]
  simp only [F.drainFuel_enough n rest (by omega)]

theorem Format.drain_nil (F : Format α) : F.drain [] = ([], []) :=
  Format.drain_none (by simp [Format.next, F.header_pos])

theorem Format.drain_eq_nil_iff {F : Format α} {buf : List α} :
    (F.drain buf).1 = [] ↔ F.next buf = none := by
  cases found : F.next buf with
  | none => simp [Format.drain_none found]
  | some r => simp [Format.drain_some found]

theorem Format.drain_induct (F : Format α) {P : List α → Prop}
    (none : ∀ buf, F.next buf = none → P buf)
    (some : ∀ buf m rest, F.next buf = some (m, rest) → P rest → P buf) (buf : List α) : P buf := by
  induction hn : buf.length using Nat.strongRecOn generalizing buf with
  | ind n ih =>
    cases found : F.next buf with
    | none => exact none buf found
    | some r => exact some buf r.1 r.2 found (ih _ (hn ▸ Format.next_length found) _ rfl)

/-- Draining again after the rest grew continues where the first drain stopped. -/
theorem Format.drain_append (F : Format α) (a b : List α) :
    F.drain (a ++ b) =
      ((F.drain a).1 ++ (F.drain ((F.drain a).2 ++ b)).1, (F.drain ((F.drain a).2 ++ b)).2) := by
  induction a using Format.drain_induct F with
  | none buf found => simp [Format.drain_none found]
  | some buf m rest found ih =>
    rw [Format.drain_some (Format.next_append found b), Format.drain_some found, ih]
    simp

theorem Format.next_drain_rest (F : Format α) (buf : List α) : F.next (F.drain buf).2 = none := by
  induction buf using Format.drain_induct F with
  | none buf found => rw [Format.drain_none found]; exact found
  | some buf m rest found ih => rw [Format.drain_some found]; exact ih

/-- A buffer is its complete messages with their headers, and the rest. -/
theorem Format.drain_split (F : Format α) (buf : List α) :
    ∃ before, buf = before ++ (F.drain buf).2 ∧ (F.drain before).2 = [] := by
  induction buf using Format.drain_induct F with
  | none buf found =>
    rw [Format.drain_none found]
    exact ⟨[], rfl, by rw [Format.drain_nil]⟩
  | some buf m rest found ih =>
    obtain ⟨before, split, complete⟩ := ih
    obtain ⟨h, hlen, mlen, rfl⟩ := Format.next_eq_some.mp found
    have first : F.next (h ++ m ++ before) = some (m, before) :=
      Format.next_eq_some.mpr ⟨h, hlen, mlen, rfl⟩
    refine ⟨h ++ m ++ before, ?_, ?_⟩
    · rw [Format.drain_some found, List.append_assoc (h ++ m)]
      exact congrArg (h ++ m ++ ·) split
    · rw [Format.drain_some first]
      exact complete

/-- What follows a complete stream is drained on its own. -/
theorem Format.drain_complete {F : Format α} {before : List α} (complete : (F.drain before).2 = [])
    (more : List α) : (F.drain (before ++ more)).2 = (F.drain more).2 := by
  rw [F.drain_append before more, complete, List.nil_append]

/-- Chunk after chunk: the messages that each of them completes, and what stays in the buffer. -/
def Format.feed (F : Format α) (buf : List α) : List (List α) → List (List (List α)) × List α
  | [] => ([], buf)
  | chunk :: rest =>
    let drained := F.drain (buf ++ chunk)
    let later := F.feed drained.2 rest
    (drained.1 :: later.1, later.2)

theorem Format.feed_eq (F : Format α) (chunks : List (List α)) {buf : List α} (drained : F.next buf = none) :
    ((F.feed buf chunks).1.flatten, (F.feed buf chunks).2) = F.drain (buf ++ chunks.flatten) := by
  induction chunks generalizing buf with
  | nil => simp [Format.feed, Format.drain_none drained]
  | cons chunk rest ih =>
    have later := ih (F.next_drain_rest (buf ++ chunk))
    rw [List.flatten_cons, ← List.append_assoc, F.drain_append (buf ++ chunk), ← later]
    simp only [Format.feed, List.flatten_cons]

end LengthPrefix
