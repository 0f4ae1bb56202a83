import GrpcWebnext.Lib.Except
import GrpcWebnext.Lib.JsNumeral
import GrpcWebnext.Lib.Percent
import GrpcWebnext.Lib.Utf8
import GrpcWebnext.BinaryMetadata
import GrpcWebnext.Client.Calls

/-!
# Unary responses

What `H2tsTransport` and the JSON codec of `FetchTransport` read in a response, and which responses a
unary call reports as a success.
-/

namespace GrpcWebnext
namespace Client
namespace Responses
open Attempt Calls JsNumeral

instance : StatusCode Value where
  ofNat n := .finite n
  isZero code := code = .finite 0

/-! ### Texts -/

/-- One `%XX`. -/
def octet : List Char → Option (UInt8 × List Char)
  | '%' :: a :: b :: rest =>
    if a.toNat < 128 ∧ b.toNat < 128 then (Percent.escape a.toNat.toUInt8 b.toNat.toUInt8).map fun byte => (byte, rest)
    else none
  | _ => none

def octets : Nat → List Char → Option (Bytes × List Char)
  | 0, rest => some ([], rest)
  | n + 1, text => do
    let (byte, rest) ← octet text
    let (bytes, rest) ← octets n rest
    pure (byte :: bytes, rest)

/-- The character of a well-formed UTF-8 sequence. -/
def scalar (bytes : Bytes) : Option Char :=
  match Utf8.lossy bytes with
  | [c] => if String.utf8EncodeChar c = bytes then some c else none
  | _ => none

/-- `fuel` bounds the characters left. -/
def decodeFrom : Nat → List Char → Option (List Char)
  | 0, _ => some []
  | _, [] => some []
  | fuel + 1, c :: rest =>
    if c = '%' then do
      let (lead, _) ← octet (c :: rest)
      let (bytes, rest) ← octets (Utf8.width lead) (c :: rest)
      let decoded ← scalar bytes
      pure (decoded :: (← decodeFrom fuel rest))
    else do pure (c :: (← decodeFrom fuel rest))

/-- `none` for a `URIError`. -/
def decodeURIComponent (text : String) : Option String :=
  (decodeFrom text.toList.length text.toList).map String.ofList

def sextet (c : Char) : Option Nat :=
  if 'A' ≤ c ∧ c ≤ 'Z' then some (c.toNat - 65)
  else if 'a' ≤ c ∧ c ≤ 'z' then some (c.toNat - 71)
  else if '0' ≤ c ∧ c ≤ '9' then some (c.toNat + 4)
  else if c = '+' then some 62
  else if c = '/' then some 63
  else none

def ofSextets : List Nat → Bytes
  | a :: b :: c :: d :: rest =>
    (a * 4 + b / 16).toUInt8 :: (b % 16 * 16 + c / 4).toUInt8 :: (c % 4 * 64 + d).toUInt8 :: ofSextets rest
  | [a, b, c] => [(a * 4 + b / 16).toUInt8, (b % 16 * 16 + c / 4).toUInt8]
  | [a, b] => [(a * 4 + b / 16).toUInt8]
  | _ => []

/-- `atob`: blanks do not count, and the padding may be missing. -/
def atob (text : String) : Option Bytes :=
  let data := text.toList.filter fun c => c.toNat ∉ [9, 10, 12, 13, 32]
  let data :=
    if data.length % 4 = 0 then
      match data.reverse with
      | '=' :: '=' :: rest => rest.reverse
      | '=' :: rest => rest.reverse
      | _ => data
    else data
  if data.length % 4 = 1 then none else (data.mapM sextet).map ofSextets

/-! ### Headers -/

/-- `Headers`, as `forEach` shows them: names in order, the values of one name joined. -/
structure Headers where
  entries : List (String × String) := []

def Headers.get (h : Headers) (name : String) : Option String := h.entries.lookup name

def tokenChar (c : Char) : Bool := c.isAlphanum || c ∈ "!#$%&'*+-.^_`|~".toList

/-- A value behind the blanks at its ends, if it is one. -/
def headerValue (text : String) : Option String :=
  let outer (c : Char) : Bool := c.toNat ∈ [9, 10, 13, 32]
  let value := ((text.toList.dropWhile outer).reverse.dropWhile outer).reverse
  if value.all fun c => c.toNat < 256 && c.toNat ∉ [0, 10, 13] then some (String.ofList value) else none

def insertEntry (name value : String) : List (String × String) → List (String × String)
  | [] => [(name, value)]
  | entry :: rest =>
    if entry.1 = name then (name, entry.2 ++ ", " ++ value) :: rest
    else if name < entry.1 then (name, value) :: entry :: rest
    else entry :: insertEntry name value rest

/-- `none` for a `TypeError`. -/
def Headers.append (h : Headers) (name value : String) : Option Headers :=
  if name ≠ "" ∧ name.toList.all tokenChar then
    (headerValue value).map fun value => ⟨insertEntry (String.ofList (name.toList.map Char.toLower)) value h.entries⟩
  else none

section

variable [JsString]

def fromHeaders (h : Headers) : Option Metadata :=
  h.entries.foldlM (fun md e =>
    if "-bin".toList.isSuffixOf e.1.toList then (atob e.2).map fun bytes => md.add e.1 (.bytes bytes)
    else some (md.add e.1 (.text e.2))) .empty

/-- Names and values of a header block, each name once. -/
abbrev Record : Type := List (String × String)

def CONTROL_HEADERS : List String := ["grpc-status", "grpc-message", "grpc-status-details-bin"]

def metadataFromRecord (record : Record) : Option Metadata := do
  let headers ← record.foldlM (fun (h : Headers) e =>
    if e.1 ∈ CONTROL_HEADERS ∨ e.1.toList.head? = some ':' then some h else h.append e.1 e.2) {}
  fromHeaders headers

/-! ### HTTP/2 -/

/-- A response with what arrived of it: `body` is none if it breaks off, `trailers` if there are none. -/
structure H2Response where
  status : Nat
  headers : Record
  body : Option Bytes
  trailers : Option Record

def decodeGrpcMessage (value : String) : String := (decodeURIComponent value).getD value

/-- The code and message in a header block that has a `grpc-status`. -/
def readStatus (source : Option Record) : Option (Value × String) := do
  let record ← source
  let raw ← record.lookup "grpc-status"
  let code := parseInt raw
  pure (if code.isFinite then code else .finite 2, decodeGrpcMessage ((record.lookup "grpc-message").getD ""))

def httpToStatus (status : Nat) : Nat :=
  if status = 400 then 13
  else if status = 401 then 16
  else if status = 403 then 7
  else if status = 404 then 12
  else if status ∈ [429, 502, 503, 504] then 14
  else 2

def statusFromResponse (res : H2Response) : Option (CallStatus Value) :=
  let fromTrailers := readStatus res.trailers
  match fromTrailers.or (readStatus (some res.headers)) with
  | some raw => do
    let source := if fromTrailers.isSome then res.trailers else some res.headers
    let metadata ← metadataFromRecord (source.getD [])
    pure ⟨raw.1, raw.2, metadata⟩
  | none =>
    if res.status = 200 then some ⟨.finite 0, "", .empty⟩
    else some ⟨.finite (httpToStatus res.status), "HTTP " ++ res.status.repr, .empty⟩

/-- `H2tsTransport.unary`, behind the request. `none` where it throws. -/
def h2tsUnary (res : H2Response) : Option (UnaryResponse Value) := do
  let body ← res.body
  let messages := (GrpcFrameParser.push {} body).1
  let headers ← metadataFromRecord res.headers
  let status ← statusFromResponse res
  pure ⟨messages.head?.getD [], headers, status⟩

/-! ### Fetch -/

/-- `text` is what `response.text()` gives, `body` what `arrayBuffer()` does: none if it rejects. -/
structure FetchResponse where
  status : Nat
  headers : Headers
  text : Option String
  body : Option Bytes

/-- `FetchTransport.unary` in the JSON codec, behind the request. -/
def fetchUnary (maxMessageBytes : Nat) (res : FetchResponse) : Option (UnaryResponse Value) :=
  if ¬(200 ≤ res.status ∧ res.status ≤ 299) then
    some ⟨[], .empty, ⟨.finite 14, "HTTP " ++ res.status.repr ++ ": " ++ res.text.getD "", .empty⟩⟩
  else do
    let body ← res.body
    if maxMessageBytes < body.length then none
    else do
      let code := number ((res.headers.get "grpc-status").getD "0")
      let details ← decodeURIComponent ((res.headers.get "grpc-message").getD "")
      let metadata ← fromHeaders res.headers
      pure ⟨body, metadata, ⟨code, details, metadata⟩⟩

/-- The `deserialize` of `methodCodec` in the JSON codec: `JSON.parse` behind the `TextDecoder`, and the
message's `fromJSON`. -/
def jsonDeserialize {Json Res : Type} (parse : Bytes → Except String Json) (fromJSON : Json → Except String Res)
    (bytes : Bytes) : Except String Res :=
  parse bytes >>= fromJSON

/-! ### Reported success -/

section

variable {Res : Type}

/-- Some application has its callback called with a response. `text` is what a transport that throws
is reported with. -/
def Succeeds (deserialize : Bytes → Except String Res) (response : Option (UnaryResponse Value)) : Prop :=
  ∃ (app : Application Value Res) (text : String) (value : Option Res),
    Notice.callback (.ok value) ∈
      (exec (makeUnaryRequest app deserialize (some (response.elim (.error text) .ok))) {}).2.told

/-- Listeners and a callback that return. -/
def quiet : Application Value Res := ⟨fun _ _ => none, fun _ => none, fun _ => false⟩

omit [JsString] in
theorem answered_ok {app : Application Value Res} {deserialize : Bytes → Except String Res}
    {res : UnaryResponse Value} {value : Option Res} {c : Calls.Call Value Res}
    (done : exec (Calls.answered app deserialize (some (.ok res))) {} = (.ok (some (.ok value)), c)) :
    res.status.code = .finite 0 ∧ ∃ value, deserialize res.message = .ok value := by
  obtain ⟨_, _, _, done⟩ := exec_bind_ok done
  obtain ⟨_, t, _, done⟩ := exec_bind_ok done
  unfold statusToError at done
  split at done
  · cases done
  · rename_i zero
    obtain ⟨message, u, read, _⟩ := exec_bind_ok done
    refine ⟨?_, ?_⟩
    · have isZero : StatusCode.isZero res.status.code = true := by
        cases here : StatusCode.isZero res.status.code with
        | true => rfl
        | false => simp [here] at zero
      exact of_decide_eq_true isZero
    · cases here : deserialize res.message with
      | ok value => exact ⟨value, rfl⟩
      | error e =>
        rw [here] at read
        cases read

omit [JsString] in
theorem mem_callbacks {app : Application Value Res} {deserialize : Bytes → Except String Res}
    {outcome : Outcome Value} {value : Option Res}
    (called : Notice.callback (.ok value) ∈ (exec (makeUnaryRequest app deserialize outcome) {}).2.told) :
    ∃ c, exec (Calls.answered app deserialize outcome) {} = (.ok (some (.ok value)), c) := by
  have among := List.mem_filter.mpr ⟨called, (rfl : Notice.isCallback (.callback (.ok value)) = true)⟩
  have view := view_reporting _ _ (fun e c => .error (errorForFailure (app.aborted c.told) e))
    (keeps_answered app deserialize outcome) (callbacks_callback app) {}
  rw [show (exec (makeUnaryRequest app deserialize outcome) {}).2.told.filter Notice.isCallback = _ from view,
    show Calls.Call.callbacks {} = [] from rfl, List.nil_append] at among
  obtain ⟨⟨answer, c⟩, reported, same⟩ := List.mem_flatMap.mp among
  cases List.mem_singleton.mp same
  rcases mem_reports _ _ _ reported with done | ⟨e, failed⟩
  · exact ⟨c, done⟩
  · cases failed

omit [JsString] in
theorem succeeds_iff {deserialize : Bytes → Except String Res} {response : Option (UnaryResponse Value)} :
    Succeeds deserialize response ↔
      ∃ res, response = some res ∧ res.status.code = .finite 0 ∧ ∃ value, deserialize res.message = .ok value := by
  constructor
  · rintro ⟨app, text, value, called⟩
    obtain ⟨c, done⟩ := mem_callbacks called
    cases response with
    | none => cases done
    | some res => exact ⟨res, rfl, answered_ok done⟩
  · rintro ⟨res, rfl, zero, value, read⟩
    refine ⟨quiet, "", some value, ?_⟩
    have isZero : StatusCode.isZero res.status.code = true := decide_eq_true zero
    simp [makeUnaryRequest, reporting, Calls.answered, exec_tryCatch, exec_bind, exec_tell, quiet, statusToError, isZero,
      read, exec_liftExcept, Calls.Call.tell]

end

/-! ### What the peer sent -/

/-- `grpc-status: 0`. -/
def Zero (text : String) : Prop := text.toList ≠ [] ∧ ∀ c ∈ text.toList, c = '0'

/-- The status that counts: that of the trailers, else that of the headers. -/
def H2Response.sent (res : H2Response) : Option String :=
  (res.trailers.bind fun record => record.lookup "grpc-status").or (res.headers.lookup "grpc-status")

def FetchResponse.sent (res : FetchResponse) : Option String := res.headers.get "grpc-status"

/-- The body holds a complete message. -/
def H2Response.Complete (res : H2Response) : Prop :=
  ∃ body head message rest, res.body = some body ∧ body = head ++ message ++ rest ∧ head.length = 5 ∧
    message.length = getU32 head.tail

/-- The first message of the body, empty if there is none. -/
def H2Response.message (res : H2Response) : Bytes :=
  (res.body.bind fun body => (GrpcFraming.grpc.drain body).1.head?).getD []

/-- The body is a JSON text. -/
def FetchResponse.Complete {Json : Type} (parse : Bytes → Except String Json) (res : FetchResponse) : Prop :=
  ∃ body json, res.body = some body ∧ parse body = .ok json

/-- The block that the status came in. -/
def H2Response.source (res : H2Response) : Record :=
  match res.trailers with
  | some trailers => if (trailers.lookup "grpc-status").isSome then trailers else res.headers
  | none => res.headers

/-- Nothing but the status and the framing stands against a success. -/
structure H2Response.Readable {Res : Type} (deserialize : Bytes → Except String Res) (res : H2Response) : Prop where
  arrived : res.body ≠ none
  headers : metadataFromRecord res.headers ≠ none
  trailing : res.sent ≠ none → metadataFromRecord res.source ≠ none
  message : ∃ value, deserialize res.message = .ok value

/-- The status that `H2tsTransport` takes for OK: a missing one at HTTP 200, or one that begins with zeros. -/
def H2Response.ReadsZero (res : H2Response) : Prop :=
  match res.sent with
  | none => res.status = 200
  | some text => leadingDigits text ≠ [] ∧ ∀ c ∈ leadingDigits text, c = '0'

omit [JsString] in
theorem readStatus_eq (source : Option Record) :
    readStatus source = (source.bind fun record => record.lookup "grpc-status").map fun raw =>
      (if (parseInt raw).isFinite then parseInt raw else .finite 2,
        decodeGrpcMessage (((source.getD []).lookup "grpc-message").getD "")) := by
  cases source with
  | none => rfl
  | some record => cases here : record.lookup "grpc-status" <;> simp [readStatus, here]

omit [JsString] in
theorem httpToStatus_ne_zero (status : Nat) : httpToStatus status ≠ 0 := by
  unfold httpToStatus
  repeat' split
  all_goals decide

omit [JsString] in
theorem code_eq_zero_iff (raw : String) :
    (if (parseInt raw).isFinite then parseInt raw else .finite 2) = .finite 0 ↔
      leadingDigits raw ≠ [] ∧ ∀ c ∈ leadingDigits raw, c = '0' := by
  rw [← parseInt_eq_zero_iff]
  cases parseInt raw with
  | finite q => simp [Value.isFinite]
  | nan | infinite => simp [Value.isFinite]

theorem statusFromResponse_sent {res : H2Response} {raw : String} (sent : res.sent = some raw) :
    ∃ details, statusFromResponse res = (metadataFromRecord res.source).map fun md =>
      ⟨if (parseInt raw).isFinite then parseInt raw else .finite 2, details, md⟩ := by
  unfold statusFromResponse H2Response.source
  unfold H2Response.sent at sent
  rw [readStatus_eq, readStatus_eq]
  cases trailers : res.trailers with
  | none =>
    rw [trailers] at sent
    replace sent : res.headers.lookup "grpc-status" = some raw := sent
    simp only [Option.bind_none, Option.map_none, Option.none_or, Option.bind_some, sent, Option.map_some]
    exact ⟨_, Option.map_eq_bind.symm⟩
  | some record =>
    cases first : record.lookup "grpc-status" with
    | some raw' =>
      rw [trailers, Option.bind_some, first, Option.some_or] at sent
      obtain rfl := Option.some.inj sent
      simp only [Option.bind_some, first, Option.map_some, Option.some_or]
      exact ⟨_, Option.map_eq_bind.symm⟩
    | none =>
      rw [trailers, Option.bind_some, first, Option.none_or] at sent
      simp only [Option.bind_some, first, Option.map_none, Option.none_or, sent, Option.map_some]
      exact ⟨_, Option.map_eq_bind.symm⟩

theorem statusFromResponse_missing {res : H2Response} (sent : res.sent = none) :
    statusFromResponse res =
      if res.status = 200 then some ⟨.finite 0, "", .empty⟩
      else some ⟨.finite (httpToStatus res.status), "HTTP " ++ res.status.repr, .empty⟩ := by
  obtain ⟨trailers, headers⟩ := Option.or_eq_none_iff.mp sent
  unfold statusFromResponse
  rw [readStatus_eq, readStatus_eq, trailers, Option.bind_some, headers]
  rfl

theorem statusFromResponse_zero_iff (res : H2Response) :
    (∃ status, statusFromResponse res = some status ∧ status.code = .finite 0) ↔
      (res.sent ≠ none → metadataFromRecord res.source ≠ none) ∧ res.ReadsZero := by
  unfold H2Response.ReadsZero
  cases sent : res.sent with
  | some raw =>
    obtain ⟨details, read⟩ := statusFromResponse_sent sent
    show _ ↔ _ ∧ (leadingDigits raw ≠ [] ∧ ∀ c ∈ leadingDigits raw, c = '0')
    rw [read, ← code_eq_zero_iff]
    cases metadataFromRecord res.source with
    | none => simp
    | some md => simp
  | none =>
    rw [statusFromResponse_missing sent]
    by_cases ok : res.status = 200
    · rw [if_pos ok]
      exact iff_of_true ⟨_, rfl, rfl⟩ ⟨nofun, ok⟩
    · rw [if_neg ok]
      refine iff_of_false ?_ fun both => ok both.2
      rintro ⟨_, ⟨⟩, zero⟩
      have value : (httpToStatus res.status : ℚ) = 0 := Value.finite.inj zero
      exact httpToStatus_ne_zero res.status (by exact_mod_cast value)

theorem h2ts_succeeds_iff {Res : Type} (deserialize : Bytes → Except String Res) (res : H2Response) :
    Succeeds deserialize (h2tsUnary res) ↔ res.Readable deserialize ∧ res.ReadsZero := by
  rw [succeeds_iff]
  constructor
  · rintro ⟨response, made, zero, value, read⟩
    obtain ⟨body, arrived, made⟩ := Option.bind_eq_some_iff.mp made
    obtain ⟨headers, listed, made⟩ := Option.bind_eq_some_iff.mp made
    obtain ⟨status, stated, ⟨⟩⟩ := Option.bind_eq_some_iff.mp made
    obtain ⟨trailing, reads⟩ := (statusFromResponse_zero_iff res).mp ⟨status, stated, zero⟩
    refine ⟨⟨?_, ?_, trailing, value, ?_⟩, reads⟩
    · rw [arrived]
      nofun
    · rw [listed]
      nofun
    · rw [H2Response.message, arrived, Option.bind_some, ← read, (GrpcFrameParser.push_eq _ _).1]
      rfl
  · rintro ⟨⟨arrived, headers, trailing, value, read⟩, reads⟩
    obtain ⟨body, here⟩ := Option.ne_none_iff_exists'.mp arrived
    obtain ⟨md, listed⟩ := Option.ne_none_iff_exists'.mp headers
    obtain ⟨status, stated, zero⟩ := (statusFromResponse_zero_iff res).mpr ⟨trailing, reads⟩
    refine ⟨⟨res.message, md, status⟩, ?_, zero, value, read⟩
    simp only [h2tsUnary, here, listed, stated, H2Response.message, (GrpcFrameParser.push_eq _ _).1]
    rfl

/-- Nothing but the status stands against a success. -/
structure FetchResponse.Readable {Json Res : Type} (parse : Bytes → Except String Json)
    (fromJSON : Json → Except String Res) (maxMessageBytes : Nat) (res : FetchResponse) : Prop where
  ok : 200 ≤ res.status ∧ res.status ≤ 299
  details : decodeURIComponent ((res.headers.get "grpc-message").getD "") ≠ none
  metadata : fromHeaders res.headers ≠ none
  message : ∃ body value, res.body = some body ∧ body.length ≤ maxMessageBytes ∧
    jsonDeserialize parse fromJSON body = .ok value

theorem fetch_succeeds_iff {Json Res : Type} (parse : Bytes → Except String Json)
    (fromJSON : Json → Except String Res) (maxMessageBytes : Nat) (res : FetchResponse) :
    Succeeds (jsonDeserialize parse fromJSON) (fetchUnary maxMessageBytes res) ↔
      res.Readable parse fromJSON maxMessageBytes ∧ ∀ raw, res.sent = some raw → number raw = .finite 0 := by
  have code : number (res.sent.getD "0") = .finite 0 ↔ ∀ raw, res.sent = some raw → number raw = .finite 0 := by
    cases res.sent with
    | none => exact iff_of_true (by decide +kernel) nofun
    | some raw => simp
  rw [succeeds_iff, ← code]
  unfold fetchUnary FetchResponse.sent
  constructor
  · rintro ⟨response, made, zero, value, read⟩
    split at made
    · cases made
      exact absurd (Value.finite.inj zero) (by norm_num)
    · rename_i ok
      obtain ⟨body, arrived, made⟩ := Option.bind_eq_some_iff.mp made
      obtain ⟨small, made⟩ := Option.ite_none_left_eq_some.mp made
      obtain ⟨details, decoded, made⟩ := Option.bind_eq_some_iff.mp made
      obtain ⟨md, listed, ⟨⟩⟩ := Option.bind_eq_some_iff.mp made
      refine ⟨⟨not_not.mp ok, ?_, ?_, body, value, arrived, Nat.le_of_not_lt small, read⟩, zero⟩
      · rw [decoded]
        nofun
      · rw [listed]
        nofun
  · rintro ⟨⟨ok, details, metadata, body, value, arrived, small, read⟩, zero⟩
    obtain ⟨text, decoded⟩ := Option.ne_none_iff_exists'.mp details
    obtain ⟨md, listed⟩ := Option.ne_none_iff_exists'.mp metadata
    rw [if_neg (not_not.mpr ok)]
    refine ⟨⟨body, md, ⟨number ((res.headers.get "grpc-status").getD "0"), text, md⟩⟩, ?_, zero, value, read⟩
    simp only [arrived, decoded, listed, Option.bind_eq_bind, Option.bind_some, if_neg (Nat.not_lt.mpr small)]
    rfl

/-! ### Honest successes -/

def Explicit (sent : Option String) : Prop := ∃ raw, sent = some raw ∧ Zero raw

/-- How a response over HTTP/2 comes to read as OK without being one. -/
inductive H2Response.Slips (res : H2Response) : Prop where
  | missing : res.sent = none → res.status = 200 → res.Slips
  | malformed {raw : String} : res.sent = some raw → ¬Zero raw → res.ReadsZero → res.Slips
  | incomplete : res.ReadsZero → ¬res.Complete → res.Slips

/-- How a JSON response comes to read as OK without being one. -/
inductive FetchResponse.Slips (res : FetchResponse) : Prop where
  | missing : res.sent = none → res.Slips
  | malformed {raw : String} : res.sent = some raw → ¬Zero raw → number raw = .finite 0 → res.Slips

theorem h2ts_honest_iff {Res : Type} (deserialize : Bytes → Except String Res) (res : H2Response) :
    (Succeeds deserialize (h2tsUnary res) → Explicit res.sent ∧ res.Complete) ↔
      ¬(res.Readable deserialize ∧ res.Slips) := by
  rw [h2ts_succeeds_iff]
  constructor
  · rintro honest ⟨readable, slips⟩
    cases slips with
    | missing sent ok =>
      have zero : res.ReadsZero := by
        rw [H2Response.ReadsZero, sent]
        exact ok
      obtain ⟨⟨raw, some_, _⟩, _⟩ := honest ⟨readable, zero⟩
      cases sent.symm.trans some_
    | malformed sent other zero =>
      obtain ⟨⟨raw, some_, exact_⟩, _⟩ := honest ⟨readable, zero⟩
      obtain rfl := Option.some.inj (sent.symm.trans some_)
      exact other exact_
    | incomplete zero cut => exact cut (honest ⟨readable, zero⟩).2
  · rintro good ⟨readable, zero⟩
    constructor
    · cases sent : res.sent with
      | none =>
        have ok : res.status = 200 := by
          rw [H2Response.ReadsZero, sent] at zero
          exact zero
        exact absurd ⟨readable, .missing sent ok⟩ good
      | some raw =>
        by_contra other
        exact good ⟨readable, .malformed sent (fun exact_ => other ⟨raw, rfl, exact_⟩) zero⟩
    · by_contra cut
      exact good ⟨readable, .incomplete zero cut⟩

theorem fetch_honest_iff {Json Res : Type} (parse : Bytes → Except String Json)
    (fromJSON : Json → Except String Res) (maxMessageBytes : Nat) (res : FetchResponse) :
    (Succeeds (jsonDeserialize parse fromJSON) (fetchUnary maxMessageBytes res) →
        Explicit res.sent ∧ res.Complete parse) ↔
      ¬(res.Readable parse fromJSON maxMessageBytes ∧ res.Slips) := by
  rw [fetch_succeeds_iff]
  constructor
  · rintro honest ⟨readable, slips⟩
    cases slips with
    | missing sent =>
      have zero : ∀ raw, res.sent = some raw → number raw = .finite 0 := by
        rw [sent]
        exact nofun
      obtain ⟨⟨raw, some_, _⟩, _⟩ := honest ⟨readable, zero⟩
      cases sent.symm.trans some_
    | malformed sent other zero =>
      have only : ∀ raw, res.sent = some raw → number raw = .finite 0 := by
        intro raw some_
        obtain rfl := Option.some.inj (sent.symm.trans some_)
        exact zero
      obtain ⟨⟨raw, some_, exact_⟩, _⟩ := honest ⟨readable, only⟩
      obtain rfl := Option.some.inj (sent.symm.trans some_)
      exact other exact_
  · rintro good ⟨readable, zero⟩
    constructor
    · cases sent : res.sent with
      | none => exact absurd ⟨readable, .missing sent⟩ good
      | some raw =>
        by_contra other
        exact good ⟨readable, .malformed sent (fun exact_ => other ⟨raw, rfl, exact_⟩) (zero raw sent)⟩
    · obtain ⟨body, value, arrived, _, read⟩ := readable.message
      obtain ⟨json, parsed, _⟩ := Except.bind_ok read
      exact ⟨body, json, arrived, parsed⟩

/-- A success is what the peer sent, over HTTP/2 and in JSON, exactly if the status is not read out of
one that is missing or malformed, nor the message out of a body that holds none. -/
theorem success_honest_iff {Res : Type} :
    (∀ (deserialize : Bytes → Except String Res) res,
        (Succeeds deserialize (h2tsUnary res) → Explicit res.sent ∧ res.Complete) ↔
          ¬(res.Readable deserialize ∧ res.Slips)) ∧
      ∀ {Json : Type} (parse : Bytes → Except String Json) (fromJSON : Json → Except String Res) maxMessageBytes res,
        (Succeeds (jsonDeserialize parse fromJSON) (fetchUnary maxMessageBytes res) →
            Explicit res.sent ∧ res.Complete parse) ↔
          ¬(res.Readable parse fromJSON maxMessageBytes ∧ res.Slips) :=
  ⟨h2ts_honest_iff, fetch_honest_iff⟩

end

section

attribute [local instance] BinaryMetadata.asciiLower

/-- What an intermediary may answer on its own: HTTP 200 without a gRPC status or a body. -/
def bareResponse : H2Response := ⟨200, [], some [], none⟩

/-- `{}` without a gRPC status. -/
def bareJson : FetchResponse := ⟨200, {}, none, some [123, 125]⟩

/-- A message type whose fields all have defaults reads the empty message. -/
theorem bare_succeeds :
    (Succeeds (fun _ => .ok ()) (h2tsUnary bareResponse) ∧ bareResponse.sent = none ∧ ¬bareResponse.Complete) ∧
      Succeeds (jsonDeserialize (fun _ => .ok ()) fun _ => .ok ()) (fetchUnary 4194304 bareJson) ∧
      ¬Explicit bareJson.sent := by
  refine ⟨⟨?_, rfl, ?_⟩, ?_, ?_⟩
  · exact (h2ts_succeeds_iff _ _).mpr ⟨⟨nofun, nofun, fun sent => absurd rfl sent, (), rfl⟩, rfl⟩
  · rintro ⟨body, head, message, rest, ⟨⟩, cut, header, _⟩
    have none_ := congrArg List.length cut
    simp [header] at none_
    omega
  · exact (fetch_succeeds_iff _ _ _ _).mpr ⟨⟨by decide, nofun, nofun, [123, 125], (), rfl, by decide, rfl⟩, nofun⟩
  · rintro ⟨raw, ⟨⟩, _⟩

end

end Responses
end Client
end GrpcWebnext
