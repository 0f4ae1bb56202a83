import GrpcWebnext.Client.Responses
import GrpcWebnext.HttpRule.Expansion

/-!
# Status messages

A status message is percent-encoded in `grpc-message`. The decoder of `metadata.rs`, which is lossy, and
the one of JavaScript, which throws, both give it back.
-/

namespace GrpcWebnext
namespace GrpcMessage
open Percent Client.Responses
open Metadata (percentEncode percentKept)

/-! ### The encoder -/

theorem percentKept_visible {b : UInt8} (keeps : percentKept b = true) : 32 ≤ b.toNat ∧ b.toNat ≤ 122 ∧ b ≠ 37 := by
  revert keeps
  apply Utf8.forall_byte (P := fun b n => percentKept b = true → 32 ≤ n ∧ n ≤ 122 ∧ b ≠ 37)
  decide +kernel

theorem percentKept_ascii (b : UInt8) (keeps : percentKept b = true) : b < 128 := by
  have visible := percentKept_visible keeps
  rw [UInt8.lt_iff_toNat_lt]
  show b.toNat < 128
  omega

theorem percentKept_percent : percentKept 37 = false := rfl

/-- The bytes that `percent_encode` writes as they are. -/
def unescaped : Kept := ⟨percentKept, percentKept_ascii, percentKept_percent⟩

theorem percentEncode_eq (s : String) : percentEncode s = String.ofList (unescaped.encodeText s.toList) := rfl

theorem encode_visible {bytes : Bytes} {b : UInt8} (member : b ∈ unescaped.encode bytes) :
    32 ≤ b.toNat ∧ b.toNat ≤ 122 := by
  rcases Kept.mem_encode member with keeps | rfl | ⟨n, small, rfl⟩
  · have visible := percentKept_visible keeps
    exact ⟨visible.1, visible.2.1⟩
  · decide
  · have all : ∀ n : Fin 16, 32 ≤ (hexDigit n).toNat ∧ (hexDigit n).toNat ≤ 122 := by decide
    exact all ⟨n, small⟩

theorem encode_percentEncode (s : String) :
    Utf8.encode (percentEncode s) = unescaped.encode (Utf8.encode s) := by
  rw [percentEncode_eq, Kept.encodeText]
  apply Utf8.encode_ascii
  intro b member
  have visible := encode_visible member
  omega

theorem percentEncode_visible {s : String} {c : Char} (member : c ∈ (percentEncode s).toList) :
    32 ≤ c.toNat ∧ c.toNat ≤ 122 := by
  rw [percentEncode_eq, String.toList_ofList, Kept.encodeText] at member
  obtain ⟨b, inside, rfl⟩ := List.mem_map.mp member
  have visible := encode_visible inside
  rw [Utf8.toNat_ofNat_ascii (by omega)]
  exact visible

/-- `HeaderValue::from_str` takes an encoded message, and `to_str` gives it back. -/
theorem percentEncode_headerValue (s : String) :
    ∃ v, HeaderValue.fromStr (percentEncode s) = some v ∧ v.toStr = some (percentEncode s) := by
  have visible : (unescaped.encode (Utf8.encode s)).all visibleAscii = true := by
    rw [List.all_eq_true]
    intro b member
    have range := encode_visible member
    rw [← UInt8.ofNat_toNat (x := b)]
    exact visibleAscii_toUInt8 range.1 (by omega)
  have accepted : (unescaped.encode (Utf8.encode s)).all headerValueByte = true := by
    rw [List.all_eq_true] at visible ⊢
    exact fun b member => headerValueByte_of_visible (visible b member)
  refine ⟨⟨unescaped.encode (Utf8.encode s), accepted⟩, ?_, ?_⟩
  · rw [HeaderValue.fromStr, encode_percentEncode, HeaderValue.fromBytes, dif_pos accepted]
  · rw [HeaderValue.toStr, if_pos visible]
    rfl

/-! ### The lossy decoder -/

theorem percentDecodeBytes_encode (kept : Kept) (bytes : Bytes) :
    Metadata.percentDecodeBytes (kept.encode bytes) = bytes := by
  have ascii : ∀ b ∈ kept.encode bytes, b.toNat < 128 := fun b member =>
    UInt8.lt_iff_toNat_lt.mp (kept.encode_ascii member)
  have scanned := HttpRule.percentDecodeBytes_ascii ascii
  rw [HttpRule.percentDecodeBytes_encode] at scanned
  exact (Except.ok.inj scanned).symm

theorem percentDecode_percentEncode (s : String) : Metadata.percentDecode (percentEncode s) = s := by
  rw [Metadata.percentDecode, encode_percentEncode, percentDecodeBytes_encode, Utf8.lossy_encode,
    String.ofList_toList]

/-! ### The throwing decoder -/

def escapeChars (b : UInt8) : List Char :=
  ['%', Char.ofNat (hexDigit (b.toNat / 16)).toNat, Char.ofNat (hexDigit (b.toNat % 16)).toNat]

theorem octet_escapeChars (b : UInt8) (rest : List Char) : octet (escapeChars b ++ rest) = some (b, rest) := by
  have small := b.toNat_lt
  have high := UInt8.lt_iff_toNat_lt.mp (hexDigit_range (show b.toNat / 16 < 16 by omega)).1
  have low := UInt8.lt_iff_toNat_lt.mp (hexDigit_range (show b.toNat % 16 < 16 by omega)).1
  have back : ∀ d : UInt8, d.toNat.toUInt8 = d := fun d => UInt8.ofNat_toNat
  show octet ('%' :: Char.ofNat _ :: Char.ofNat _ :: rest) = _
  rw [octet, Utf8.toNat_ofNat_ascii high, Utf8.toNat_ofNat_ascii low, if_pos ⟨high, low⟩, back, back,
    escape_hexDigits, Option.map_some]

theorem octets_escapeChars (bytes : Bytes) (rest : List Char) :
    octets bytes.length (bytes.flatMap escapeChars ++ rest) = some (bytes, rest) := by
  induction bytes with
  | nil => rfl
  | cons b bytes ih =>
    rw [List.length_cons, List.flatMap_cons, List.append_assoc, octets, octet_escapeChars]
    simp only [Option.bind_eq_bind, Option.bind_some, ih]
    rfl

theorem scalar_encodeChar (c : Char) : scalar (String.utf8EncodeChar c) = some c := by
  have read := Utf8.lossy_encodeChar c []
  rw [List.append_nil] at read
  rw [scalar, read]
  exact if_pos rfl

theorem encodeText_cons (kept : Kept) (c : Char) (text : List Char) :
    kept.encodeText (c :: text) = kept.encodeText [c] ++ kept.encodeText text := by
  simp only [Kept.encodeText, Kept.encode, List.flatMap_cons, List.flatMap_nil, List.append_nil,
    List.flatMap_append, List.map_append]

/-- A character stays, or all its bytes are escaped. -/
theorem encodeText_char (kept : Kept) (c : Char) :
    kept.encodeText [c] = [c] ∧ c ≠ '%' ∨ kept.encodeText [c] = (String.utf8EncodeChar c).flatMap escapeChars := by
  obtain ⟨lead, tail, shape⟩ := Utf8.shape c
  have each : ∀ bytes : Bytes, (∀ b ∈ bytes, kept.keeps b = false) →
      (kept.encode bytes).map (fun b => Char.ofNat b.toNat) = bytes.flatMap escapeChars := by
    intro bytes none
    rw [Kept.encode, List.map_flatMap]
    apply List.flatMap_congr
    intro b member
    rw [none b member]
    rfl
  have wide : ∀ b : UInt8, 128 ≤ b.toNat → kept.keeps b = false := by
    intro b high
    rw [← Bool.not_eq_true]
    intro keeps
    exact absurd (UInt8.lt_iff_toNat_lt.mp (kept.ascii b keeps)) (Nat.not_lt.mpr high)
  rw [Kept.encodeText, List.flatMap_singleton, shape.bytes]
  by_cases keeps : kept.keeps lead = true
  · have alone : tail = [] := by
      by_contra long
      exact absurd (wide lead (shape.wide long)) (by simp [keeps])
    obtain ⟨_, same⟩ := shape.alone alone
    left
    subst alone
    rw [Kept.encode, List.flatMap_singleton, if_pos keeps, List.map_singleton, ← same]
    refine ⟨rfl, ?_⟩
    rintro rfl
    have lead_eq : [37] = [lead] := shape.bytes
    cases lead_eq
    exact absurd keeps (by simp [kept.percent])
  · right
    apply each
    intro b member
    rcases List.mem_cons.mp member with rfl | inside
    · simpa using keeps
    · apply wide
      have continues := shape.continues b inside
      rw [Utf8.continuation_eq, decide_eq_true_eq] at continues
      exact continues.1

theorem decodeFrom_encodeText (kept : Kept) (text : List Char) (fuel : Nat)
    (enough : (kept.encodeText text).length ≤ fuel) : decodeFrom fuel (kept.encodeText text) = some text := by
  induction text generalizing fuel with
  | nil => cases fuel <;> rfl
  | cons c text ih =>
    rw [encodeText_cons, List.length_append] at enough
    rw [encodeText_cons]
    rcases encodeText_char kept c with ⟨stays, plain⟩ | escaped
    · rw [stays, List.length_singleton] at enough
      obtain ⟨fuel, rfl⟩ := Nat.exists_eq_add_of_le' (show 1 ≤ fuel by omega)
      rw [stays, List.singleton_append, decodeFrom, if_neg plain, ih fuel (by omega)]
      rfl
    · obtain ⟨lead, tail, shape⟩ := Utf8.shape c
      have first : octet (kept.encodeText [c] ++ kept.encodeText text) =
          some (lead, tail.flatMap escapeChars ++ kept.encodeText text) := by
        rw [escaped, shape.bytes, List.flatMap_cons, List.append_assoc, octet_escapeChars]
      have all : octets (Utf8.width lead) (kept.encodeText [c] ++ kept.encodeText text) =
          some (String.utf8EncodeChar c, kept.encodeText text) := by
        rw [escaped, shape.width, ← octets_escapeChars, shape.bytes, List.length_cons]
      have front : ∃ more, kept.encodeText [c] ++ kept.encodeText text = '%' :: more := by
        rw [escaped, shape.bytes, List.flatMap_cons]
        exact ⟨_, rfl⟩
      have some_ : 1 ≤ (kept.encodeText [c]).length := by
        rw [escaped, shape.bytes, List.flatMap_cons]
        exact Nat.succ_pos _
      obtain ⟨fuel, rfl⟩ := Nat.exists_eq_add_of_le' (show 1 ≤ fuel by omega)
      obtain ⟨more, front⟩ := front
      rw [front] at first all ⊢
      rw [decodeFrom, if_pos rfl, first]
      simp only [Option.bind_eq_bind, Option.bind_some, all, scalar_encodeChar, ih fuel (by omega)]
      rfl

theorem decodeURIComponent_percentEncode (s : String) : decodeURIComponent (percentEncode s) = some s := by
  rw [decodeURIComponent, percentEncode_eq, String.toList_ofList,
    decodeFrom_encodeText unescaped s.toList _ (Nat.le_refl _), Option.map_some, String.ofList_toList]

/-- A message is a legal header value when encoded, and both decoders give it back. -/
theorem grpc_message_survives (m : String) :
    (∀ c ∈ (percentEncode m).toList, 32 ≤ c.toNat ∧ c.toNat ≤ 126) ∧
      (∃ v, HeaderValue.fromStr (percentEncode m) = some v ∧ v.toStr = some (percentEncode m)) ∧
      Metadata.percentDecode (percentEncode m) = m ∧ decodeURIComponent (percentEncode m) = some m := by
  refine ⟨?_, percentEncode_headerValue m, percentDecode_percentEncode m, decodeURIComponent_percentEncode m⟩
  intro c member
  have visible := percentEncode_visible member
  exact ⟨visible.1, by omega⟩

example : percentEncode "50% é" = "50%25 %C3%A9" := by decide

end GrpcMessage
end GrpcWebnext
