import Mathlib.Data.List.Induction
import GrpcWebnext.Http
import GrpcWebnext.Pb

/-!
# Metadata

HTTP headers to gRPC metadata and back, the metadata of frames, and the gRPC status of a
response. `MetadataMap` is a header map under another name, so both are `HeaderMap` here.
-/

namespace GrpcWebnext
namespace Metadata

def DENY : List String :=
  ["host", "connection", "content-length", "content-type", "keep-alive", "proxy-connection",
    "transfer-encoding", "te", "upgrade", "grpc-timeout", "grpc-status", "grpc-message",
    "grpc-status-details-bin", "grpc-encoding", "grpc-accept-encoding"]

def isDenied (name : HeaderName) : Bool := DENY.contains name.name

def mergeMetadataIntoHeaders (md headers : HeaderMap) : HeaderMap :=
  md.foldl (fun headers e => if isDenied e.1 then headers else headers.append e.1 e.2) headers

/-- The value of one frame entry as a header value; a value the header cannot hold is dropped. -/
def metadatumValue : Option MetadatumValue → Option HeaderValue
  | some (.asciiValue s) => HeaderValue.fromStr s
  | some (.binValue b) => HeaderValue.fromBytes b
  | none => none

def metadatumHeader (m : Metadatum) : Option (HeaderName × HeaderValue) := do
  let name ← HeaderName.fromBytes m.key
  if isDenied name then none
  let value ← metadatumValue m.value
  pure (name, value)

def metadataVecToMetadata (items : List Metadatum) : HeaderMap :=
  items.foldl (fun headers m =>
    match metadatumHeader m with
    | some (name, value) => headers.append name value
    | none => headers) []

def headerMetadatum (e : HeaderName × HeaderValue) : Option Metadatum :=
  if isDenied e.1 then none
  else
    let key := e.1.name
    if "-bin".toList.isSuffixOf key.toList then some ⟨key, some (.binValue e.2.bytes)⟩
    else e.2.toStr.map fun s => ⟨key, some (.asciiValue s)⟩

def metadataToVec (md : HeaderMap) : List Metadatum := md.filterMap headerMetadatum

/-- `str::parse` of an unsigned integer of `bits` bits: an optional plus sign, then digits. -/
def parseUnsigned (bits : Nat) (s : String) : Option Nat :=
  let digits := match s.toList with
    | '+' :: rest => rest
    | cs => cs
  if digits ≠ [] ∧ digits.all Char.isDigit = true ∧ Nat.ofDigitChars 10 digits 0 < 2 ^ bits then
    some (Nat.ofDigitChars 10 digits 0)
  else none

/-- `format_grpc_timeout` of a duration in nanoseconds: whole milliseconds, at most `u64::MAX`. -/
def formatGrpcTimeout (nanos : Nat) : HeaderValue where
  bytes := (HeaderValue.ofNat (min (nanos / 10 ^ 6) (2 ^ 64 - 1))).bytes ++ [109]
  wf := by
    rw [List.all_append, (HeaderValue.ofNat _).wf]
    decide

def grpcTimeoutFromMillis (millis : UInt32) : Option Nat :=
  if millis = 0 then none else some (millis.toNat * 10 ^ 6)

def hexDigit (b : UInt8) : Option Nat :=
  if 48 ≤ b && b ≤ 57 then some (b.toNat - 48)
  else if 65 ≤ b && b ≤ 70 then some (b.toNat - 55)
  else if 97 ≤ b && b ≤ 102 then some (b.toNat - 87)
  else none

/-- `u8::from_str_radix(_, 16)` of two characters; it takes a plus sign for the first. -/
def fromHex (a b : UInt8) : Option UInt8 :=
  if a = 43 then (hexDigit b).map Nat.toUInt8
  else do pure (Nat.toUInt8 (16 * (← hexDigit a) + (← hexDigit b)))

def percentDecodeBytes : Bytes → Bytes
  | [] => []
  | c :: rest =>
    if c = 37 then
      match rest with
      | a :: b :: rest' =>
        match fromHex a b with
        | some byte => byte :: percentDecodeBytes rest'
        | none => c :: percentDecodeBytes (a :: b :: rest')
      | short => c :: percentDecodeBytes short
    else c :: percentDecodeBytes rest
termination_by structural bytes => bytes

/-- `percent_decode` of a header's text. The text is ASCII, so no slice of it is off a boundary. -/
def percentDecode (s : String) : String :=
  String.ofList (Utf8.lossy (percentDecodeBytes (Utf8.encode s)))

def percentKept (b : UInt8) : Bool :=
  48 ≤ b && b ≤ 57 || 65 ≤ b && b ≤ 90 || 97 ≤ b && b ≤ 122 ||
    [32, 45, 95, 46, 47, 58].contains b

def hexUpper (n : Nat) : UInt8 := if n < 10 then 48 + n.toUInt8 else 55 + n.toUInt8

def percentEncodeBytes (bytes : Bytes) : Bytes :=
  bytes.flatMap fun b => if percentKept b then [b] else [37, hexUpper (b.toNat / 16), hexUpper (b.toNat % 16)]

/-- `percent_encode`: every byte of the result is ASCII. -/
def percentEncode (s : String) : String :=
  String.ofList ((percentEncodeBytes (Utf8.encode s)).map fun b => Char.ofNat b.toNat)

/-- The header `read_status` consults: the trailers', else the headers'. -/
def statusHeader (trailers headers : HeaderMap) (name : HeaderName) : Option HeaderValue :=
  (trailers.get name).or (headers.get name)

def parseStatus (v : HeaderValue) : Option Nat := v.toStr.bind (parseUnsigned 32)

/-- `read_status`: the code and message of a response from its trailers, else its headers. -/
def readStatus (trailers headers : HeaderMap) : Nat × String :=
  let code := ((statusHeader trailers headers .grpcStatus).bind parseStatus).getD 0
  let message := (((statusHeader trailers headers .grpcMessage).bind HeaderValue.toStr).map percentDecode).getD ""
  (code, message)

/-! ### Lemmas -/

theorem getAll_merge (md headers : HeaderMap) (name : HeaderName) :
    (mergeMetadataIntoHeaders md headers).getAll name =
      headers.getAll name ++ if isDenied name then [] else md.getAll name := by
  unfold mergeMetadataIntoHeaders
  induction md generalizing headers with
  | nil => simp
  | cons e md ih =>
    rw [List.foldl_cons, ih, HeaderMap.getAll_cons]
    by_cases same : e.1 = name
    · subst same
      cases isDenied e.1 <;> simp [HeaderMap.getAll_append]
    · cases isDenied e.1 <;> simp [HeaderMap.getAll_append, same]

theorem getAll_metadataVec (items : List Metadatum) (name : HeaderName) :
    (metadataVecToMetadata items).getAll name =
      items.filterMap fun m => (metadatumHeader m).bind fun e => if e.1 = name then some e.2 else none := by
  unfold metadataVecToMetadata
  induction items using List.reverseRecOn with
  | nil => rfl
  | append_singleton items m ih =>
    rw [List.foldl_append, List.filterMap_append, ← ih, List.foldl_cons, List.foldl_nil]
    cases held : metadatumHeader m with
    | none => simp [held]
    | some e => by_cases same : e.1 = name <;> simp [HeaderMap.getAll_append, held, same]

theorem get_merge_denied (md headers : HeaderMap) {name : HeaderName} (denied : isDenied name = true) :
    (mergeMetadataIntoHeaders md headers).get name = headers.get name := by
  simp [HeaderMap.get, getAll_merge, denied]

def entryValue (name : HeaderName) (v : HeaderValue) : Option MetadatumValue :=
  if "-bin".toList.isSuffixOf name.name.toList then some (.binValue v.bytes) else v.toStr.map .asciiValue

theorem headerMetadatum_eq (e : HeaderName × HeaderValue) :
    headerMetadatum e =
      if isDenied e.1 then none else (entryValue e.1 e.2).map fun value => ⟨e.1.name, some value⟩ := by
  unfold headerMetadatum entryValue
  dsimp only
  split
  · rfl
  · split
    · rfl
    · cases e.2.toStr <;> rfl

def valuesOf (entries : List Metadatum) (name : HeaderName) : List MetadatumValue :=
  entries.filterMap fun e => if e.key = name.name then e.value else none

theorem valuesOf_metadataToVec (md : HeaderMap) (name : HeaderName) :
    valuesOf (metadataToVec md) name =
      if isDenied name then [] else (md.getAll name).filterMap (entryValue name) := by
  induction md with
  | nil => simp [metadataToVec, valuesOf]
  | cons e md ih =>
    have tail : valuesOf (metadataToVec (e :: md)) name =
        valuesOf (headerMetadatum e).toList name ++ valuesOf (metadataToVec md) name := by
      simp only [metadataToVec, valuesOf, List.filterMap_cons]
      cases headerMetadatum e with
      | none => rfl
      | some m => rw [← List.filterMap_append]; rfl
    rw [tail, ih, headerMetadatum_eq, HeaderMap.getAll_cons]
    by_cases same : e.1 = name
    · subst same
      cases isDenied e.1 <;> cases entry : entryValue e.1 e.2 <;> simp [valuesOf, entry]
    · have other : e.1.name ≠ name.name := by
        intro names
        obtain ⟨⟨n, _⟩, _⟩ := e
        obtain ⟨m, _⟩ := name
        cases names
        exact same rfl
      cases isDenied e.1 <;> cases entryValue e.1 e.2 <;> simp [valuesOf, other, same]

theorem parseUnsigned_repr_eq (bits n : Nat) :
    parseUnsigned bits n.repr = if n < 2 ^ bits then some n else none := by
  have digits : n.repr.toList = Nat.toDigits 10 n := Nat.toList_repr
  have all : ∀ c ∈ Nat.toDigits 10 n, c.isDigit = true := fun c h =>
    Nat.isDigit_of_mem_toDigits (by decide) (by decide) h
  have nonempty : Nat.toDigits 10 n ≠ [] := by
    intro empty
    have := Nat.length_toDigits_pos (b := 10) (n := n)
    simp [empty] at this
  have unsigned : (match n.repr.toList with | '+' :: rest => rest | cs => cs) = Nat.toDigits 10 n := by
    rw [digits]
    split
    · rename_i rest plus
      have := all '+' (by rw [plus]; exact List.mem_cons_self)
      exact absurd this (by decide)
    · rfl
  have allDigits : (Nat.toDigits 10 n).all Char.isDigit = true := List.all_eq_true.mpr all
  unfold parseUnsigned
  simp only [unsigned, Nat.ofDigitChars_ten_toDigits, ne_eq, nonempty, not_false_eq_true, allDigits, true_and]

theorem parseUnsigned_repr {bits n : Nat} (small : n < 2 ^ bits) : parseUnsigned bits n.repr = some n := by
  rw [parseUnsigned_repr_eq, if_pos small]

theorem parseUnsigned_repr_large {bits n : Nat} (large : 2 ^ bits ≤ n) : parseUnsigned bits n.repr = none := by
  rw [parseUnsigned_repr_eq, if_neg (Nat.not_lt.mpr large)]

theorem parseUnsigned_lt {bits n : Nat} {s : String} (parsed : parseUnsigned bits s = some n) :
    n < 2 ^ bits := by
  simp only [parseUnsigned, Option.ite_none_right_eq_some, Option.some.injEq] at parsed
  obtain ⟨⟨_, _, small⟩, rfl⟩ := parsed
  exact small

theorem parseStatus_lt {v : HeaderValue} {code : Nat} (parsed : parseStatus v = some code) :
    code < 2 ^ 32 := by
  obtain ⟨s, _, parsed⟩ := Option.bind_eq_some_iff.mp parsed
  exact parseUnsigned_lt parsed

theorem readStatus_lt (trailers headers : HeaderMap) : (readStatus trailers headers).1 < 2 ^ 32 := by
  unfold readStatus
  cases found : (statusHeader trailers headers .grpcStatus).bind parseStatus with
  | none => simp
  | some code =>
    obtain ⟨v, _, parsed⟩ := Option.bind_eq_some_iff.mp found
    simpa using parseStatus_lt parsed

end Metadata
end GrpcWebnext
