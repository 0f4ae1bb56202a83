import GrpcWebnext.Client.Metadata
import GrpcWebnext.Lib.Base64
import Mathlib.Data.List.Basic

/-!
# Binary metadata

A binary value on its way between the TypeScript client and a backend, which carries it as base64
text: through `metadata_vec_to_metadata` in a `Subscribe`, and through `metadata_to_vec` in a
`Header`, a `Trailer` or a trailer block.
-/

namespace GrpcWebnext
namespace BinaryMetadata
open Metadata

/-! ### Names -/

theorem toLower_of_range {c : Char} (other : ¬(65 ≤ c.toNat ∧ c.toNat ≤ 90)) : c.toLower = c :=
  dif_neg other

theorem toLower_toLower (c : Char) : c.toLower.toLower = c.toLower := by
  by_cases upper : 65 ≤ c.toNat ∧ c.toNat ≤ 90
  · apply toLower_of_range
    have lowered : c.toLower.toNat = c.toNat + 32 := by
      have shape : c.toLower = ⟨c.val + 32, _⟩ := dif_pos upper
      rw [shape]
      show (c.val + 32).toNat = c.val.toNat + 32
      have size : c.val.toNat ≤ 90 := upper.2
      rw [UInt32.toNat_add]
      exact Nat.mod_eq_of_lt (by simp; omega)
    omega
  · rw [toLower_of_range upper, toLower_of_range upper]

/-- No capital letter is accepted. -/
theorem headerNameChar_range {c : Char} (accepted : headerNameChar c = true) :
    c.toNat < 65 ∨ 90 < c.toNat ∧ c.toNat < 128 := by
  have symbols : ("!#$%&'*+-.^_`|~".toList.all fun c => c.toNat < 65 ∨ 90 < c.toNat ∧ c.toNat < 128) = true := by
    decide
  simp only [headerNameChar, Bool.or_eq_true, List.contains_iff_mem] at accepted
  rcases accepted with (lower | digit) | symbol
  · have lower := HeaderValue.isLower_iff.mp lower
    omega
  · have digit := HeaderValue.isDigit_iff.mp digit
    omega
  · exact of_decide_eq_true (List.all_eq_true.mp symbols c symbol)

theorem headerNameChar_lower {c : Char} (accepted : headerNameChar c = true) : c.toLower = c := by
  have range := headerNameChar_range accepted
  apply toLower_of_range
  omega

theorem headerName_lowered (name : HeaderName) :
    name.name.toList.map Char.toLower = name.name.toList := by
  have accepted := List.all_eq_true.mp name.wf.2.2
  conv => rhs; rw [← List.map_id name.name.toList]
  exact List.map_congr_left fun c member => headerNameChar_lower (accepted c member)

theorem fromBytes_eq_some {key : String} (lowered : key.toList.map Char.toLower = key.toList)
    {name : HeaderName} :
    HeaderName.fromBytes key = some name ↔ name.name = key := by
  unfold HeaderName.fromBytes
  simp only [lowered, String.ofList_toList]
  constructor
  · intro made
    split at made
    · cases made
      rfl
    · cases made
  · rintro rfl
    rw [dif_pos name.wf]

theorem entry_value {m : Metadatum} (lowered : m.key.toList.map Char.toLower = m.key.toList)
    (name : HeaderName) :
    ((metadatumHeader m).bind fun e => if e.1 = name then some e.2 else none) =
      if name.name = m.key ∧ isDenied name = false then metadatumValue m.value else none := by
  have found : ∀ n, HeaderName.fromBytes m.key = some n ↔ n.name = m.key := fun _ => fromBytes_eq_some lowered
  unfold metadatumHeader
  by_cases named : name.name = m.key
  · rw [(found name).mpr named]
    cases denied : isDenied name <;> cases metadatumValue m.value <;> simp [bind, pure, denied, named]
  · simp only [named, false_and, ↓reduceIte]
    cases made : HeaderName.fromBytes m.key with
    | none => rfl
    | some n =>
      have other : n ≠ name := by
        rintro rfl
        exact named ((found n).mp made)
      cases denied : isDenied n <;> cases metadatumValue m.value <;> simp [bind, pure, denied, other]

theorem headerNameChar_ascii {c : Char} (accepted : headerNameChar c = true) : c.toNat < 128 := by
  have range := headerNameChar_range accepted
  omega

theorem symbol_accepted (n : Nat) : headerValueByte (Base64.symbol n) = true := by
  have small : ∀ n : Fin 64, headerValueByte (Base64.symbol n) = true := by decide
  by_cases within : n < 64
  · exact small ⟨n, within⟩
  · have last : Base64.symbol n = 47 := by
      unfold Base64.symbol
      rw [if_neg (by omega), if_neg (by omega), if_neg (by omega), if_neg (by omega)]
    rw [last]
    decide

theorem encode_accepted (pad : Bool) (b : Bytes) : (Base64.encode pad b).all headerValueByte = true := by
  have padding : headerValueByte Base64.padding = true := by decide
  fun_induction Base64.encode pad b with
  | case1 => rfl
  | case2 a => cases pad <;> simp [symbol_accepted, padding]
  | case3 a b => cases pad <;> simp [symbol_accepted, padding]
  | case4 a b c rest ih => simpa [symbol_accepted] using ih

theorem toMetadatum_key (key : String) (value : Client.MetadataValue) :
    (Client.Metadata.toMetadatum key value).key = key := by
  cases value <;> rfl

section

variable [Client.JsString]

/-! ### To the backend -/

theorem getAll_toMetadatumList (md : Client.Metadata) {key : String} {name : HeaderName}
    (named : name.name = Client.Metadata.normalizeKey key) :
    (metadataVecToMetadata md.toMetadatumList).getAll name =
      if isDenied name then []
      else (md.get key).filterMap fun value => metadatumValue (Client.Metadata.toMetadatum name.name value).value := by
  have entry : ∀ (k : String) (values : List Client.MetadataValue), k.toList.map Char.toLower = k.toList →
      ((values.map (Client.Metadata.toMetadatum k)).filterMap fun m =>
        (metadatumHeader m).bind fun e => if e.1 = name then some e.2 else none) =
      values.filterMap fun value => if name.name = k ∧ isDenied name = false then
        metadatumValue (Client.Metadata.toMetadatum k value).value else none := by
    intro k values lowered
    rw [List.filterMap_map]
    apply List.filterMap_congr
    intro value _
    have lowered : (Client.Metadata.toMetadatum k value).key.toList.map Char.toLower =
        (Client.Metadata.toMetadatum k value).key.toList := by rw [toMetadatum_key, lowered]
    simpa [toMetadatum_key] using entry_value lowered name
  rw [getAll_metadataVec, Client.Metadata.toMetadatumList,
    InsertionMap.filterMap_get md.distinct (Client.Metadata.normalizeKey key)]
  · rw [Client.Metadata.get]
    cases InsertionMap.get (Client.Metadata.normalizeKey key) md.map with
    | none => simp
    | some values =>
      simp only [← named, entry _ _ (headerName_lowered name), true_and]
      cases isDenied name <;> simp
  · intro e member other
    rw [entry _ _ (md.lowered e member)]
    simp [named, Ne.symm other]

/-- The backend gets one value under the key, the base64 text of `b`. -/
def ToBackend (before : Client.Metadata) (key : String) (b : Bytes) : Prop :=
  ∃ name v, name.name = Client.Metadata.normalizeKey key ∧
    (metadataVecToMetadata (before.set key (.bytes b)).toMetadatumList).getAll name = [v] ∧ Base64.Text b v.bytes

def Forwarded (key : String) : Prop :=
  ∃ name : HeaderName, name.name = Client.Metadata.normalizeKey key ∧ isDenied name = false

theorem toBackend_iff (before : Client.Metadata) (key : String) (b : Bytes) :
    ToBackend before key b ↔ b = [] ∧ Forwarded key := by
  have got : (before.set key (.bytes b)).get key = [.bytes b] := by
    simp [Client.Metadata.set, Client.Metadata.put, Client.Metadata.get, InsertionMap.get_set]
  -- The value of the header is `b` itself, so it has to be its own base64 text.
  have raw : ∀ v, HeaderValue.fromBytes b = some v → v.bytes = b := by
    intro v made
    unfold HeaderValue.fromBytes at made
    split at made
    · cases made
      rfl
    · cases made
  constructor
  · intro reaches
    obtain ⟨name, v, named, held, text⟩ := reaches
    rw [getAll_toMetadatumList _ named, got] at held
    cases denied : isDenied name with
    | true => simp [denied] at held
    | false =>
      simp only [denied, Bool.false_eq_true, ↓reduceIte, Client.Metadata.toMetadatum, metadatumValue,
        List.filterMap_cons, List.filterMap_nil] at held
      cases made : HeaderValue.fromBytes b with
      | none => simp [made] at held
      | some v' =>
        simp only [made, List.cons.injEq, and_true] at held
        subst held
        rw [raw v' made] at text
        exact ⟨Base64.text_self_iff.mp text, name, named, denied⟩
  · intro condition
    obtain ⟨rfl, name, named, forwarded⟩ := condition
    refine ⟨name, ⟨[], rfl⟩, named, ?_, Base64.text_self_iff.mpr rfl⟩
    rw [getAll_toMetadatumList _ named, got]
    simp [forwarded, Client.Metadata.toMetadatum, metadatumValue, HeaderValue.fromBytes]

/-! ### To the client -/

/-- The client reads `b` under the key from headers or trailers whose one value is base64 of `b`. -/
def ToClient (key : String) (b : Bytes) : Prop :=
  ∀ (name : HeaderName) (v : HeaderValue) (received : HeaderMap), name.name = Client.Metadata.normalizeKey key →
    Base64.Text b v.bytes → received.getAll name = [v] →
      (Client.Metadata.fromMetadatumList (metadataToVec received)).get key = [.bytes b]

theorem normalizeKey_name (name : HeaderName) : Client.Metadata.normalizeKey name.name = name.name := by
  have accepted := List.all_eq_true.mp name.wf.2.2
  rw [Client.Metadata.normalizeKey,
    Client.JsString.toLowerCase_ascii _ fun c member => headerNameChar_ascii (accepted c member),
    headerName_lowered, String.ofList_toList]

theorem get_metadataToVec (received : HeaderMap) {key : String} {name : HeaderName}
    (named : name.name = Client.Metadata.normalizeKey key) :
    (Client.Metadata.fromMetadatumList (metadataToVec received)).get key =
      (valuesOf (metadataToVec received) name).map Client.Metadata.ofMetadatumValue := by
  rw [Client.Metadata.get_fromMetadatumList]
  congr 1
  apply List.filterMap_congr
  intro m member
  obtain ⟨e, _, made⟩ := List.mem_filterMap.mp member
  have keyed : m.key = e.1.name := by
    rw [headerMetadatum_eq] at made
    split at made
    · cases made
    · obtain ⟨_, _, rfl⟩ := Option.map_eq_some_iff.mp made
      rfl
  rw [keyed, normalizeKey_name, ← named]

theorem toClient_iff {key : String} (binary : "-bin".toList.isSuffixOf (Client.Metadata.normalizeKey key).toList = true)
    (b : Bytes) :
    ToClient key b ↔
      ∀ name : HeaderName, name.name = Client.Metadata.normalizeKey key →
        b = [] ∧ isDenied name = false := by
  have read : ∀ (name : HeaderName) (v : HeaderValue) (received : HeaderMap),
      name.name = Client.Metadata.normalizeKey key → received.getAll name = [v] →
      (Client.Metadata.fromMetadatumList (metadataToVec received)).get key =
        if isDenied name then [] else [.bytes v.bytes] := by
    intro name v received named held
    rw [← named] at binary
    have entry : entryValue name v = some (.binValue v.bytes) := if_pos binary
    rw [get_metadataToVec received named, valuesOf_metadataToVec, held, List.filterMap_cons, entry]
    cases isDenied name <;> rfl
  constructor
  · intro survives name named
    have held : HeaderMap.getAll [(name, ⟨Base64.encode true b, encode_accepted true b⟩)] name =
        [⟨Base64.encode true b, encode_accepted true b⟩] := by simp [HeaderMap.getAll_cons]
    have arrived := survives name _ _ named ⟨true, rfl⟩ held
    rw [read name _ _ named held] at arrived
    cases denied : isDenied name with
    | true => simp [denied] at arrived
    | false =>
      simp only [denied, Bool.false_eq_true, ↓reduceIte, List.cons.injEq, Client.MetadataValue.bytes.injEq,
        and_true] at arrived
      exact ⟨Base64.text_self_iff.mp ⟨true, arrived.symm⟩, rfl⟩
  · intro empty name v received named text held
    obtain ⟨rfl, forwarded⟩ := empty name named
    obtain ⟨pad, blank⟩ := text
    rw [read name v received named held, forwarded, blank]
    cases pad <;> rfl

/-- A binary value survives exactly when it is empty and its key is forwarded: the server never
puts a value into base64 nor takes one out of it. -/
theorem binary_metadata_iff {key : String}
    (binary : "-bin".toList.isSuffixOf (Client.Metadata.normalizeKey key).toList = true) (b : Bytes) :
    (∀ before, ToBackend before key b ↔ b = [] ∧ Forwarded key) ∧
    (ToClient key b ↔
      ∀ name : HeaderName, name.name = Client.Metadata.normalizeKey key →
        b = [] ∧ isDenied name = false) :=
  ⟨fun before => toBackend_iff before key b, toClient_iff binary b⟩

end

abbrev asciiLower : Client.JsString where
  toLowerCase s := String.ofList (s.toList.map Char.toLower)
  toLowerCase_ascii _ _ := rfl
  toLowerCase_toLower s := by
    simp only [String.toList_ofList, List.map_map, Function.comp_def, toLower_toLower]

theorem binary_metadata_empty :
    (∀ before, @ToBackend asciiLower before "x-blob-bin" [] ↔ ([] : Bytes) = [] ∧ @Forwarded asciiLower "x-blob-bin") ∧
    (@ToClient asciiLower "x-blob-bin" [] ↔
      ∀ name : HeaderName, name.name = @Client.Metadata.normalizeKey asciiLower "x-blob-bin" →
        ([] : Bytes) = [] ∧ isDenied name = false) :=
  @binary_metadata_iff asciiLower "x-blob-bin" (by decide) []

/-- The value of the `metadata-roundtrip` case reaches neither side. -/
theorem binary_value_lost :
    ¬@ToBackend asciiLower Client.Metadata.empty "x-blob-bin" [1, 2, 3, 4] ∧
    ¬@ToClient asciiLower "x-blob-bin" [1, 2, 3, 4] := by
  constructor
  · intro survives
    have empty := (@toBackend_iff asciiLower _ _ _).mp survives
    exact absurd empty.1 (by decide)
  · intro survives
    have empty := (@toClient_iff asciiLower "x-blob-bin" (by decide) _).mp survives ⟨"x-blob-bin", by decide⟩ rfl
    exact absurd empty.1 (by decide)

end BinaryMetadata
end GrpcWebnext
