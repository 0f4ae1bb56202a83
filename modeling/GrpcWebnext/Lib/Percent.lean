import GrpcWebnext.Lib.Utf8

/-!
# Percent-encoding

A percent sign and two hex digits stand for one byte. `decode` reads these escapes from left to
right and leaves all other bytes as they are; `encode` writes each byte as itself or as an escape.
-/

namespace Percent

def digit (b : UInt8) : Option Nat :=
  if 48 ≤ b && b ≤ 57 then some (b.toNat - 48)
  else if 65 ≤ b && b ≤ 70 then some (b.toNat - 55)
  else if 97 ≤ b && b ≤ 102 then some (b.toNat - 87)
  else none

/-- The byte that two hex digits stand for. -/
def escape (a b : UInt8) : Option UInt8 := do pure (Nat.toUInt8 (16 * (← digit a) + (← digit b)))

def decode : List UInt8 → List UInt8
  | [] => []
  | c :: rest =>
    if c = 37 then
      match rest with
      | a :: b :: rest' =>
        match escape a b with
        | some byte => byte :: decode rest'
        | none => c :: decode (a :: b :: rest')
      | short => c :: decode short
    else c :: decode rest
termination_by structural bytes => bytes

def hexDigit (n : Nat) : UInt8 := if n < 10 then 48 + n.toUInt8 else 55 + n.toUInt8

/-- What an encoder writes as itself. -/
structure Kept where
  keeps : UInt8 → Bool
  ascii : ∀ b, keeps b = true → b < 128
  percent : keeps 37 = false

def Kept.encode (kept : Kept) (bytes : List UInt8) : List UInt8 :=
  bytes.flatMap fun b => if kept.keeps b then [b] else [37, hexDigit (b.toNat / 16), hexDigit (b.toNat % 16)]

/-- The text of an encoding, whose bytes are ASCII. -/
def Kept.encodeText (kept : Kept) (text : List Char) : List Char :=
  (kept.encode (text.flatMap String.utf8EncodeChar)).map fun b => Char.ofNat b.toNat

/-! ### Escapes -/

theorem digit_hexDigit {n : Nat} (small : n < 16) : digit (hexDigit n) = some n := by
  have all : ∀ n : Fin 16, digit (hexDigit n) = some n.val := by decide
  exact all ⟨n, small⟩

theorem escape_hexDigits (b : UInt8) : escape (hexDigit (b.toNat / 16)) (hexDigit (b.toNat % 16)) = some b := by
  have small := b.toNat_lt
  simp only [escape, digit_hexDigit (show b.toNat / 16 < 16 by omega), digit_hexDigit (show b.toNat % 16 < 16 by omega),
    bind, Option.bind, pure]
  rw [Nat.div_add_mod]
  simp [Nat.toUInt8]

theorem digit_ascii {b : UInt8} {n : Nat} (read : digit b = some n) : b < 128 ∧ b ≠ 37 := by
  apply Utf8.forall_byte (P := fun b _ => (digit b).isSome = true → b < 128 ∧ b ≠ 37) (by decide +kernel) b
  rw [read]
  rfl

theorem digit_lt {b : UInt8} {n : Nat} (read : digit b = some n) : n < 16 := by
  unfold digit at read
  split at read
  · rename_i range
    simp only [Bool.and_eq_true, decide_eq_true_eq, UInt8.le_iff_toNat_le, UInt8.reduceToNat] at range
    cases read
    omega
  · split at read
    · rename_i range
      simp only [Bool.and_eq_true, decide_eq_true_eq, UInt8.le_iff_toNat_le, UInt8.reduceToNat] at range
      cases read
      omega
    · obtain ⟨range, ⟨⟩⟩ := Option.ite_none_right_eq_some.mp read
      simp only [Bool.and_eq_true, decide_eq_true_eq, UInt8.le_iff_toNat_le, UInt8.reduceToNat] at range
      omega

theorem escape_digits {a b byte : UInt8} (read : escape a b = some byte) :
    (∃ h, digit a = some h) ∧ ∃ l, digit b = some l := by
  unfold escape at read
  obtain ⟨h, high, read⟩ := Option.bind_eq_some_iff.mp read
  obtain ⟨l, low, _⟩ := Option.bind_eq_some_iff.mp read
  exact ⟨⟨h, high⟩, l, low⟩

/-! ### Decoding what was encoded -/

theorem decode_cons_ne {c : UInt8} (other : c ≠ 37) (rest : List UInt8) : decode (c :: rest) = c :: decode rest := by
  rw [decode.eq_def]
  simp [other]

theorem decode_escape {a b byte : UInt8} (read : escape a b = some byte) (rest : List UInt8) :
    decode (37 :: a :: b :: rest) = byte :: decode rest := by
  rw [decode.eq_def]
  simp [read]

theorem decode_percent {a b : UInt8} (unread : escape a b = none) (rest : List UInt8) :
    decode (37 :: a :: b :: rest) = 37 :: decode (a :: b :: rest) := by
  rw [decode.eq_def]
  simp [unread]

theorem decode_short {rest : List UInt8} (short : ∀ a b more, rest = a :: b :: more → False) :
    decode (37 :: rest) = 37 :: decode rest := by
  match rest with
  | [] => rfl
  | [_] => rw [decode.eq_def]; rfl
  | a :: b :: more => exact (short a b more rfl).elim

/-! ### The text of an encoding -/

theorem hexDigit_range {n : Nat} (small : n < 16) : hexDigit n < 128 ∧ hexDigit n ≠ 47 ∧ hexDigit n ≠ 37 ∧ hexDigit n ≠ 43 := by
  have all : ∀ n : Fin 16, hexDigit n < 128 ∧ hexDigit n ≠ 47 ∧ hexDigit n ≠ 37 ∧ hexDigit n ≠ 43 := by decide
  exact all ⟨n, small⟩

/-- A byte of an encoding is kept, or stands in an escape. -/
theorem Kept.mem_encode {kept : Kept} {bytes : List UInt8} {b : UInt8} (member : b ∈ kept.encode bytes) :
    kept.keeps b = true ∨ b = 37 ∨ ∃ n, n < 16 ∧ b = hexDigit n := by
  obtain ⟨c, _, here⟩ := List.mem_flatMap.mp member
  have small := c.toNat_lt
  split at here
  · obtain rfl := List.mem_singleton.mp here
    exact .inl ‹_›
  · simp only [List.mem_cons, List.not_mem_nil, or_false] at here
    rcases here with rfl | rfl | rfl
    · exact .inr (.inl rfl)
    · exact .inr (.inr ⟨c.toNat / 16, by omega, rfl⟩)
    · exact .inr (.inr ⟨c.toNat % 16, by omega, rfl⟩)

theorem Kept.encode_ascii {kept : Kept} {bytes : List UInt8} {b : UInt8} (member : b ∈ kept.encode bytes) : b < 128 := by
  rcases kept.mem_encode member with keeps | rfl | ⟨n, small, rfl⟩
  · exact kept.ascii b keeps
  · decide
  · exact (hexDigit_range small).1

theorem Kept.encodeText_slash {kept : Kept} (slash : kept.keeps 47 = false) (text : List Char) :
    '/' ∉ kept.encodeText text := by
  intro member
  obtain ⟨b, inside, same⟩ := List.mem_map.mp member
  have small := UInt8.lt_iff_toNat_lt.mp (kept.encode_ascii inside)
  have value : b.toNat = 47 := by
    have back := congrArg Char.toNat same
    rwa [Utf8.toNat_ofNat_ascii small] at back
  obtain rfl : b = 47 := UInt8.toNat_inj.mp value
  rcases kept.mem_encode inside with keeps | percent | ⟨n, digit, same⟩
  · exact absurd keeps (by simp [slash])
  · exact absurd percent (by decide)
  · exact (hexDigit_range digit).2.1 same.symm

theorem Kept.encodeText_eq_nil_iff (kept : Kept) (text : List Char) : kept.encodeText text = [] ↔ text = [] := by
  constructor
  · intro none
    cases text with
    | nil => rfl
    | cons c text =>
      obtain ⟨lead, tail, shape⟩ := Utf8.shape c
      rw [Kept.encodeText, List.flatMap_cons, shape.bytes, Kept.encode, List.cons_append, List.flatMap_cons] at none
      split at none <;> cases none
  · rintro rfl
    rfl

end Percent
