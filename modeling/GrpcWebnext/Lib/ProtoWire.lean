import Mathlib.Algebra.GroupWithZero.Nat
import Mathlib.Data.List.Basic

/-!
# The protobuf wire format

A message is a sequence of fields: a tag, which is a varint of the number and the wire type, and a value.
Groups are not read.
-/

namespace ProtoWire

/-! ### Varints -/

/-- `bytes` stands for `n`: seven bits a byte, the lowest first, and a high bit on all but the last. -/
inductive Varint : Nat → List UInt8 → Prop where
  | last {b : UInt8} : b.toNat < 128 → Varint b.toNat [b]
  | more {b : UInt8} {n : Nat} {bytes : List UInt8} : 128 ≤ b.toNat → Varint n bytes →
      Varint (b.toNat % 128 + 128 * n) (b :: bytes)

/-- Every other varint of the number is longer. -/
structure Shortest (n : Nat) (bytes : List UInt8) : Prop where
  stands : Varint n bytes
  least : ∀ {other}, Varint n other → other = bytes ∨ bytes.length < other.length

theorem toNat_toUInt8 {n : Nat} (small : n < 256) : n.toUInt8.toNat = n := UInt8.toNat_ofNat_of_lt' small

theorem Varint.low {n : Nat} (small : n < 128) : Varint n [n.toUInt8] := by
  have value : n.toUInt8.toNat = n := toNat_toUInt8 (by omega)
  have here : Varint n.toUInt8.toNat [n.toUInt8] := .last (by omega)
  rwa [value] at here

theorem Varint.high {n : Nat} {bytes : List UInt8} (later : Varint (n / 128) bytes) :
    Varint n ((n % 128 + 128).toUInt8 :: bytes) := by
  have value : (n % 128 + 128).toUInt8.toNat = n % 128 + 128 := toNat_toUInt8 (by omega)
  have here : Varint ((n % 128 + 128).toUInt8.toNat % 128 + 128 * (n / 128)) ((n % 128 + 128).toUInt8 :: bytes) :=
    .more (by omega) later
  rwa [value, show (n % 128 + 128) % 128 + 128 * (n / 128) = n by omega] at here

theorem Varint.ne_nil {n : Nat} {bytes : List UInt8} (stands : Varint n bytes) : bytes ≠ [] := by
  cases stands <;> exact List.cons_ne_nil _ _

theorem Shortest.low {n : Nat} (small : n < 128) : Shortest n [n.toUInt8] where
  stands := .low small
  least {other} stands := by
    cases stands with
    | @last b => exact .inl (by rw [Nat.toUInt8, UInt8.ofNat_toNat])
    | more _ later => exact .inr (Nat.succ_lt_succ (List.length_pos_iff.mpr later.ne_nil))

theorem Shortest.high {n : Nat} {bytes : List UInt8} (large : 128 ≤ n) (later : Shortest (n / 128) bytes) :
    Shortest n ((n % 128 + 128).toUInt8 :: bytes) where
  stands := .high later.stands
  least {other} stands := by
    cases stands with
    | last low => omega
    | @more b m rest set stands =>
      have small := b.toNat_lt
      have first : ((b.toNat % 128 + 128 * m) % 128 + 128).toUInt8 = b := by
        apply UInt8.toNat_inj.mp
        rw [toNat_toUInt8 (by omega)]
        omega
      rw [first]
      rw [show (b.toNat % 128 + 128 * m) / 128 = m by omega] at later
      rcases later.least stands with rfl | longer
      · exact .inl rfl
      · exact .inr (Nat.succ_lt_succ longer)

/-- A number of `k` groups of seven bits has a varint of so many bytes. -/
theorem Varint.exists_short (k n : Nat) (small : n < 128 ^ (k + 1)) :
    ∃ bytes, Varint n bytes ∧ bytes.length ≤ k + 1 := by
  induction k generalizing n with
  | zero => exact ⟨_, .low small, Nat.le_refl _⟩
  | succ k ih =>
    rw [Nat.pow_succ, Nat.mul_comm] at small
    obtain ⟨bytes, stands, length⟩ := ih (n / 128) (Nat.div_lt_of_lt_mul small)
    exact ⟨_, .high stands, Nat.succ_le_succ length⟩

theorem Shortest.length_le {n : Nat} {bytes : List UInt8} (short : Shortest n bytes) (small : n < 2 ^ 64) :
    bytes.length ≤ 10 := by
  obtain ⟨other, stands, length⟩ := Varint.exists_short 9 n (Nat.lt_of_lt_of_le small (by decide))
  rcases short.least stands with rfl | longer
  · exact length
  · omega

/-- A varint of at most `limit` bytes, and what follows it. -/
def readVarint : Nat → List UInt8 → Option (Nat × List UInt8)
  | 0, _ => none
  | _, [] => none
  | limit + 1, b :: rest =>
    if b.toNat < 128 then some (b.toNat, rest)
    else (readVarint limit rest).map fun read => (b.toNat % 128 + 128 * read.1, read.2)

/-- A varint of 64 bits. -/
def varint64 (bytes : List UInt8) : Option (Nat × List UInt8) :=
  (readVarint 10 bytes).filter fun read => read.1 < 2 ^ 64

theorem Varint.read {n limit : Nat} {bytes : List UInt8} (stands : Varint n bytes) (fits : bytes.length ≤ limit)
    (rest : List UInt8) : readVarint limit (bytes ++ rest) = some (n, rest) := by
  induction stands generalizing limit with
  | last low =>
    obtain ⟨limit, rfl⟩ := Nat.exists_eq_add_of_le' fits
    exact if_pos low
  | @more b n bytes high _ ih =>
    obtain ⟨limit, rfl⟩ := Nat.exists_eq_add_of_le' (Nat.le_trans (Nat.le_add_left 1 bytes.length) fits)
    rw [List.cons_append, readVarint, if_neg (Nat.not_lt.mpr high), ih (Nat.le_of_succ_le_succ fits)]
    rfl

theorem Shortest.read {n : Nat} {bytes : List UInt8} (short : Shortest n bytes) (small : n < 2 ^ 64)
    (rest : List UInt8) : varint64 (bytes ++ rest) = some (n, rest) := by
  rw [varint64, short.stands.read (short.length_le small) rest, Option.filter_some,
    if_pos (decide_eq_true small)]

/-! ### Fields -/

inductive Value where
  | varint (n : Nat)
  | fixed64 (bytes : List UInt8)
  | lengthDelimited (bytes : List UInt8)
  | fixed32 (bytes : List UInt8)
  deriving DecidableEq

structure Field where
  number : Nat
  value : Value
  deriving DecidableEq

def splitAt (n : Nat) (bytes : List UInt8) : Option (List UInt8 × List UInt8) :=
  if n ≤ bytes.length then some (bytes.take n, bytes.drop n) else none

def readValue (wireType : Nat) (bytes : List UInt8) : Option (Value × List UInt8) :=
  match wireType with
  | 0 => (varint64 bytes).map fun read => (.varint read.1, read.2)
  | 1 => (splitAt 8 bytes).map fun read => (.fixed64 read.1, read.2)
  | 2 => do
    let (len, rest) ← varint64 bytes
    let (payload, rest) ← splitAt len rest
    pure (.lengthDelimited payload, rest)
  | 5 => (splitAt 4 bytes).map fun read => (.fixed32 read.1, read.2)
  | _ => none

def readField (bytes : List UInt8) : Option (Field × List UInt8) := do
  let (tag, rest) ← varint64 bytes
  if tag / 8 = 0 ∨ 2 ^ 32 ≤ tag then none
  let (value, rest) ← readValue (tag % 8) rest
  pure (⟨tag / 8, value⟩, rest)

/-- The fields of a whole message. -/
inductive Reads : List UInt8 → List Field → Prop where
  | nil : Reads [] []
  | cons {bytes rest : List UInt8} {field : Field} {fields : List Field} : bytes ≠ [] →
      readField bytes = some (field, rest) → Reads rest fields → Reads bytes (field :: fields)

/-- A message is read in one way at most. -/
theorem Reads.unique {bytes : List UInt8} {fields other : List Field} (first : Reads bytes fields)
    (second : Reads bytes other) : fields = other := by
  induction first generalizing other with
  | nil =>
    cases second with
    | nil => rfl
    | cons some_ => exact absurd rfl some_
  | cons some_ read _ ih =>
    cases second with
    | nil => exact absurd rfl some_
    | cons _ read' later =>
      cases read.symm.trans read'
      rw [ih later]

/-- A length-delimited field, from the varints of its tag and its length. -/
theorem readField_lengthDelimited {number : Nat} {tag length payload : List UInt8} (positive : 0 < number)
    (small : number < 2 ^ 29) (tagged : Shortest (number * 8 + 2) tag) (fits : payload.length < 2 ^ 64)
    (measured : Shortest payload.length length) (rest : List UInt8) :
    readField (tag ++ (length ++ (payload ++ rest))) = some (⟨number, .lengthDelimited payload⟩, rest) := by
  have whole : splitAt payload.length (payload ++ rest) = some (payload, rest) := by
    rw [splitAt, if_pos (by simp), List.take_left, List.drop_left]
  have value : readValue 2 (length ++ (payload ++ rest)) = some (.lengthDelimited payload, rest) := by
    simp only [readValue, measured.read fits, Option.bind_eq_bind, Option.bind_some, whole]
    rfl
  have accepted : ¬(number = 0 ∨ 2 ^ 32 ≤ number * 8 + 2) := by omega
  simp only [readField, tagged.read (show number * 8 + 2 < 2 ^ 64 by omega), Option.bind_eq_bind, Option.bind_some,
    show (number * 8 + 2) % 8 = 2 by omega, value, show (number * 8 + 2) / 8 = number by omega, if_neg accepted]
  rfl

example : readField [0x0A, 3, 1, 2, 3, 0x10] = some (⟨1, .lengthDelimited [1, 2, 3]⟩, [0x10]) := by decide

end ProtoWire
