import Mathlib.Algebra.GroupWithZero.Nat
import Mathlib.Data.List.Basic

/-!
# Messages of tagged fields

A message is written as a sequence of fields, each a tag and what its wire type calls for. A reader goes by the
tag, skips a field that it does not know, and stops where the message is to end.
-/

namespace TaggedFields

/-- A writer, by what each call appends, and a reader of what is left. `join` closes a nested message. A text
decoder may drop a byte order mark: `kept` are the strings that it reads as they were. -/
class Wire where
  uint32 : UInt32 → List UInt8
  bool : Bool → List UInt8
  string : String → List UInt8
  bytes : List UInt8 → List UInt8
  join : List UInt8 → List UInt8
  readUint32 : List UInt8 → Option (UInt32 × List UInt8)
  readBool : List UInt8 → Option (Bool × List UInt8)
  readString : List UInt8 → Option (String × List UInt8)
  readBytes : List UInt8 → Option (List UInt8 × List UInt8)
  skip : Nat → List UInt8 → Option (List UInt8)
  uint32_read : ∀ n rest, readUint32 (uint32 n ++ rest) = some (n, rest)
  bool_read : ∀ b rest, readBool (bool b ++ rest) = some (b, rest)
  kept : String → Prop
  string_read : ∀ s rest, kept s → (string s).length < 2 ^ 32 → readString (string s ++ rest) = some (s, rest)
  bytes_read : ∀ b rest, (bytes b).length < 2 ^ 32 → readBytes (bytes b ++ rest) = some (b, rest)
  join_read : ∀ body rest, (join body).length < 2 ^ 32 →
    readUint32 (join body ++ rest) = some (UInt32.ofNat body.length, body ++ rest)
  length_join : ∀ body, body.length ≤ (join body).length
  uint32_progress : ∀ input n rest, readUint32 input = some (n, rest) → rest.length < input.length
  skip_uint32 : ∀ n rest, skip 0 (uint32 n ++ rest) = some rest
  skip_join : ∀ body rest, (join body).length < 2 ^ 32 → skip 2 (join body ++ rest) = some rest

/-- The cases of a reader's switch: what a tag does to the message and to what is left. -/
abbrev Fields (M : Type) : Type := UInt32 → Option (M → List UInt8 → Option (M × List UInt8))

/-- A case that reads one value. -/
def field {M α : Type} (read : List UInt8 → Option (α × List UInt8)) (set : α → M → M) (m : M) (input : List UInt8) :
    Option (M × List UInt8) := do
  let (value, rest) ← read input
  pure (set value m, rest)

section

variable [Wire] {M : Type}
open Wire

theorem uint32_ne_nil (n : UInt32) : uint32 n ≠ [] := by
  intro empty
  have shorter := uint32_progress _ _ _ (uint32_read n [])
  simp [empty] at shorter

/-- The loop of a reader, until no more than `stop` is left. Each turn reads a byte at least, so there are as many
turns as bytes at most. -/
def decodeFrom (fields : Fields M) (stop : Int) : Nat → M → List UInt8 → Option (M × List UInt8)
  | fuel, m, input =>
    if (input.length : Int) ≤ stop then some (m, input)
    else
      match fuel with
      | 0 => none
      | fuel + 1 => do
        let (tag, rest) ← readUint32 input
        match fields tag with
        | some read => do
          let (m, rest) ← read m rest
          decodeFrom fields stop fuel m rest
        | none =>
          if tag.toNat % 8 = 4 ∨ tag = 0 then some (m, rest)
          else do
            let rest ← skip (tag.toNat % 8) rest
            decodeFrom fields stop fuel m rest

/-- A message of the given length at the front of the input. The length may be a lie. -/
def decode (fields : Fields M) (base : M) (input : List UInt8) (length : Nat) : Option (M × List UInt8) :=
  decodeFrom fields (input.length - length) input.length base input

def nested (fields : Fields M) (base : M) (input : List UInt8) : Option (M × List UInt8) := do
  let (length, rest) ← readUint32 input
  decode fields base rest length.toNat

/-! ### What is written -/

/-- The bytes are a sequence of fields, which together change a message as the function does. -/
inductive Writes (fields : Fields M) : List UInt8 → (M → M) → Prop where
  | nil : Writes fields [] id
  | known {tag : UInt32} {body rest : List UInt8} {read : M → List UInt8 → Option (M × List UInt8)} {apply later : M → M} :
      fields tag = some read → (∀ m more, read m (body ++ more) = some (apply m, more)) → Writes fields rest later →
      Writes fields (uint32 tag ++ body ++ rest) (later ∘ apply)
  | unknown {tag : UInt32} {body rest : List UInt8} {later : M → M} :
      fields tag = none → tag.toNat % 8 ≠ 4 → tag ≠ 0 → (∀ more, skip (tag.toNat % 8) (body ++ more) = some more) →
      Writes fields rest later → Writes fields (uint32 tag ++ body ++ rest) later

namespace Writes

variable {fields : Fields M} {first second : List UInt8} {f g : M → M}

theorem append (writes : Writes fields first f) (later : Writes fields second g) :
    Writes fields (first ++ second) (g ∘ f) := by
  induction writes with
  | nil => exact later
  | @known _ _ _ _ apply later here reads _ ih =>
    rw [List.append_assoc]
    show Writes fields _ ((g ∘ later) ∘ apply)
    exact .known here reads ih
  | unknown here group zero skips _ ih =>
    rw [List.append_assoc]
    exact .unknown here group zero skips ih

theorem as (writes : Writes fields first f) (same : ∀ m, f m = g m) : Writes fields first g :=
  funext same ▸ writes

theorem one {tag : UInt32} {body : List UInt8} {read : M → List UInt8 → Option (M × List UInt8)} {apply : M → M}
    (here : fields tag = some read) (reads : ∀ m more, read m (body ++ more) = some (apply m, more)) :
    Writes fields (uint32 tag ++ body) apply := by
  rw [← List.append_nil (uint32 tag ++ body)]
  show Writes fields _ (id ∘ apply)
  exact .known here reads .nil

theorem field {α : Type} {tag : UInt32} {body : List UInt8} {read : List UInt8 → Option (α × List UInt8)}
    (set : α → M → M) (value : α) (here : fields tag = some (TaggedFields.field read set))
    (reads : ∀ more, read (body ++ more) = some (value, more)) : Writes fields (uint32 tag ++ body) (set value) := by
  refine one here fun m more => ?_
  rw [TaggedFields.field, reads]
  rfl

/-- A field that is written only if it differs from its default. -/
theorem guarded {p : Prop} [Decidable p] (writes : p → Writes fields first f) :
    Writes fields (if p then first else []) (if p then f else id) := by
  split
  · rename_i holds
    exact writes holds
  · exact .nil

theorem option {α : Type} {write : α → List UInt8} {apply : α → M → M} {value : Option α}
    (writes : ∀ a ∈ value, Writes fields (write a) (apply a)) :
    Writes fields (value.elim [] write) (value.elim id apply) := by
  cases value with
  | none => exact .nil
  | some a => exact writes a rfl

theorem repeated {α : Type} {write : α → List UInt8} {apply : α → M → M} {values : List α}
    (writes : ∀ a ∈ values, Writes fields (write a) (apply a)) :
    Writes fields (values.flatMap write) fun m => values.foldl (fun m a => apply a m) m := by
  induction values with
  | nil => exact .nil
  | cons a values ih =>
    rw [List.flatMap_cons]
    exact (writes a List.mem_cons_self).append (ih fun b member => writes b (List.mem_cons_of_mem a member))

/-- A reader that has fuel for the bytes of the fields reads all of them. -/
theorem decodeFrom (writes : Writes fields first f) {fuel : Nat} (enough : first.length ≤ fuel) (m : M)
    (more : List UInt8) :
    TaggedFields.decodeFrom fields more.length fuel m (first ++ more) = some (f m, more) := by
  have goes (tag : UInt32) (rest : List UInt8) : ¬((uint32 tag ++ rest ++ more).length : Int) ≤ more.length := by
    have some_ := List.length_pos_iff.mpr (uint32_ne_nil tag)
    simp only [List.length_append]
    omega
  have shorter {tag : UInt32} {body rest : List UInt8} {fuel : Nat} (enough : (uint32 tag ++ body ++ rest).length ≤ fuel) :
      ∃ fuel', fuel = fuel' + 1 ∧ rest.length ≤ fuel' := by
    have some_ := List.length_pos_iff.mpr (uint32_ne_nil tag)
    simp only [List.length_append] at enough
    exact ⟨fuel - 1, by omega, by omega⟩
  induction writes generalizing fuel m with
  | nil =>
    unfold TaggedFields.decodeFrom
    rw [List.nil_append, if_pos (Int.le_refl _)]
    rfl
  | @known tag body rest read apply later here reads _ ih =>
    obtain ⟨fuel', rfl, left⟩ := shorter enough
    have far := goes tag (body ++ rest)
    rw [← List.append_assoc] at far
    unfold TaggedFields.decodeFrom
    rw [if_neg far, List.append_assoc, List.append_assoc, uint32_read]
    simp only [Option.bind_eq_bind, Option.bind_some, here, reads]
    exact ih left (apply m)
  | @unknown tag body rest later here group zero skips _ ih =>
    obtain ⟨fuel', rfl, left⟩ := shorter enough
    have far := goes tag (body ++ rest)
    rw [← List.append_assoc] at far
    unfold TaggedFields.decodeFrom
    rw [if_neg far, List.append_assoc, List.append_assoc, uint32_read]
    simp only [Option.bind_eq_bind, Option.bind_some, here, group, zero, or_self, if_false, skips]
    exact ih left m

theorem decode (writes : Writes fields first f) (base : M) (more : List UInt8) :
    TaggedFields.decode fields base (first ++ more) first.length = some (f base, more) := by
  have stop : ((first ++ more).length : Int) - first.length = more.length := by
    rw [List.length_append]
    omega
  rw [TaggedFields.decode, stop]
  exact writes.decodeFrom (by rw [List.length_append]; omega) base more

theorem nested (writes : Writes fields first f) (small : (join first).length < 2 ^ 32) (base : M) (more : List UInt8) :
    TaggedFields.nested fields base (join first ++ more) = some (f base, more) := by
  have short := length_join first
  have length : (UInt32.ofNat first.length).toNat = first.length := UInt32.toNat_ofNat_of_lt' (by rw [UInt32.size]; omega)
  rw [TaggedFields.nested, join_read first more small]
  simp only [Option.bind_eq_bind, Option.bind_some, length]
  exact writes.decode base more

theorem message {N : Type} {inner : Fields N} {base value : N} {change : N → N} {tag : UInt32} {body : List UInt8}
    (set : N → M → M) (here : fields tag = some (TaggedFields.field (TaggedFields.nested inner base) set))
    (writes : Writes inner body change) (whole : change base = value) (small : (join body).length < 2 ^ 32) :
    Writes fields (uint32 tag ++ join body) (set value) :=
  .field set value here fun more => whole ▸ writes.nested small base more

end Writes

/-- A sequence of fields that no case of the switch is for. -/
inductive Unknown (fields : Fields M) : List UInt8 → Prop where
  | nil : Unknown fields []
  | cons {tag : UInt32} {body rest : List UInt8} : fields tag = none → tag.toNat % 8 ≠ 4 → tag ≠ 0 →
      (∀ more, skip (tag.toNat % 8) (body ++ more) = some more) → Unknown fields rest →
      Unknown fields (uint32 tag ++ body ++ rest)

theorem Unknown.writes {fields : Fields M} {bytes : List UInt8} (unknown : Unknown fields bytes) :
    Writes fields bytes id := by
  induction unknown with
  | nil => exact .nil
  | cons here group zero skips _ ih => exact .unknown here group zero skips ih

theorem Unknown.joined {fields : Fields M} {tag : UInt32} (body : List UInt8) (here : fields tag = none)
    (wire : tag.toNat % 8 = 2) (small : (join body).length < 2 ^ 32) : Unknown fields (uint32 tag ++ join body) := by
  have nonzero : tag ≠ 0 := by
    rintro rfl
    exact absurd wire (by decide)
  rw [← List.append_nil (uint32 tag ++ join body)]
  exact .cons here (by omega) nonzero (fun more => wire ▸ skip_join body more small) .nil

end

end TaggedFields
