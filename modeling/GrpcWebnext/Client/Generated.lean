import GrpcWebnext.Client.WsTransport
import GrpcWebnext.Lib.TaggedFields
import GrpcWebnext.Lib.Utf8
import GrpcWebnext.Reflect.FileSet

/-!
# The generated frame codec

What `protoc-gen-ts_proto` made of `grpc_webnext.proto`, over a writer and a reader of the wire format. A message
holds what was read last of a field, and a frame may hold several kinds.
-/

namespace GrpcWebnext
namespace Client
namespace Generated
open TaggedFields TaggedFields.Wire

/-! ### Messages -/

structure Metadatum where
  key : String := ""
  asciiValue : Option String := none
  binValue : Option Bytes := none
  deriving DecidableEq

/-- `writer.uint32` throws for a number that is no `UInt32`. -/
structure Subscribe where
  method : String := ""
  headers : List Metadatum := []
  timeoutMillis : UInt32 := 0
  initialPayload : Bytes := []
  json : Bool := false
  deriving DecidableEq

structure Header where
  headers : List Metadatum := []
  deriving DecidableEq

structure Message where
  payload : Bytes := []
  deriving DecidableEq

structure HalfClose where
  deriving DecidableEq

structure Trailer where
  statusCode : UInt32 := 0
  statusMessage : String := ""
  trailers : List Metadatum := []
  deriving DecidableEq

structure Reset where
  statusCode : UInt32 := 0
  statusMessage : String := ""
  deriving DecidableEq

structure Frame where
  subscribe : Option Subscribe := none
  message : Option Message := none
  halfClose : Option HalfClose := none
  trailer : Option Trailer := none
  reset : Option Reset := none
  header : Option Header := none
  deriving DecidableEq

theorem length_le_flatMap {α β : Type} (f : α → List β) {a : α} {values : List α} (member : a ∈ values) :
    (f a).length ≤ (values.flatMap f).length := by
  rw [List.flatMap_def]
  exact (List.sublist_flatten_of_mem (List.mem_map_of_mem member)).length_le

/-! ### One message over another -/

/-- `m` read into a message that holds `before`. -/
def Metadatum.over (m before : Metadatum) : Metadatum where
  key := if m.key ≠ "" then m.key else before.key
  asciiValue := m.asciiValue.or before.asciiValue
  binValue := m.binValue.or before.binValue

def Subscribe.over (m before : Subscribe) : Subscribe where
  method := if m.method ≠ "" then m.method else before.method
  headers := before.headers ++ m.headers
  timeoutMillis := if m.timeoutMillis ≠ 0 then m.timeoutMillis else before.timeoutMillis
  initialPayload := if m.initialPayload.length ≠ 0 then m.initialPayload else before.initialPayload
  json := if m.json ≠ false then m.json else before.json

def Trailer.over (m before : Trailer) : Trailer where
  statusCode := if m.statusCode ≠ 0 then m.statusCode else before.statusCode
  statusMessage := if m.statusMessage ≠ "" then m.statusMessage else before.statusMessage
  trailers := before.trailers ++ m.trailers

def Reset.over (m before : Reset) : Reset where
  statusCode := if m.statusCode ≠ 0 then m.statusCode else before.statusCode
  statusMessage := if m.statusMessage ≠ "" then m.statusMessage else before.statusMessage

/-- A kind is replaced, not merged. -/
def Frame.over (m before : Frame) : Frame where
  subscribe := m.subscribe.or before.subscribe
  message := m.message.or before.message
  halfClose := m.halfClose.or before.halfClose
  trailer := m.trailer.or before.trailer
  reset := m.reset.or before.reset
  header := m.header.or before.header

theorem Metadatum.over_base (m : Metadatum) : m.over {} = m := by
  obtain ⟨key, ascii, bin⟩ := m
  simp [Metadatum.over]

theorem Subscribe.over_base (m : Subscribe) : m.over {} = m := by
  obtain ⟨method, headers, timeoutMillis, initialPayload, json⟩ := m
  simp only [Subscribe.over, List.nil_append, Subscribe.mk.injEq, true_and, ite_eq_left_iff, ne_eq, Decidable.not_not]
  refine ⟨Eq.symm, Eq.symm, ?_, Eq.symm⟩
  exact fun empty => (List.length_eq_zero_iff.mp empty).symm

theorem Message.over_base (m : Message) : (if m.payload.length ≠ 0 then m else {}) = m := by
  obtain ⟨payload⟩ := m
  rw [ite_eq_left_iff, not_not]
  exact fun empty => congrArg Message.mk (List.length_eq_zero_iff.mp empty).symm

theorem Trailer.over_base (m : Trailer) : m.over {} = m := by
  obtain ⟨statusCode, statusMessage, trailers⟩ := m
  simp only [Trailer.over, List.nil_append, Trailer.mk.injEq, and_true, ite_eq_left_iff, ne_eq, Decidable.not_not]
  exact ⟨Eq.symm, Eq.symm⟩

theorem Reset.over_base (m : Reset) : m.over {} = m := by
  obtain ⟨statusCode, statusMessage⟩ := m
  simp only [Reset.over, Reset.mk.injEq, ite_eq_left_iff, ne_eq, Decidable.not_not]
  exact ⟨Eq.symm, Eq.symm⟩

theorem Frame.over_base (m : Frame) : m.over {} = m := by
  simp [Frame.over]

/-! ### The strings of a message -/

def Metadatum.strings (m : Metadatum) : List String := m.key :: m.asciiValue.toList

def Subscribe.strings (m : Subscribe) : List String := m.method :: m.headers.flatMap Metadatum.strings

def Header.strings (m : Header) : List String := m.headers.flatMap Metadatum.strings

def Trailer.strings (m : Trailer) : List String := m.statusMessage :: m.trailers.flatMap Metadatum.strings

def Reset.strings (m : Reset) : List String := [m.statusMessage]

def Frame.strings (m : Frame) : List String :=
  m.subscribe.elim [] Subscribe.strings ++ m.trailer.elim [] Trailer.strings ++ m.reset.elim [] Reset.strings ++
    m.header.elim [] Header.strings

/-! ### A wire of varints -/

def readLength (input : Bytes) : Option (UInt32 × Bytes) :=
  (ProtoWire.readVarint 10 input).map fun read => (UInt32.ofNat read.1, read.2)

def readBlock (input : Bytes) : Option (Bytes × Bytes) := do
  let (length, rest) ← readLength input
  ProtoWire.splitAt length.toNat rest

/-- A byte order mark in front is dropped. -/
def textDecoder (b : Bytes) : String :=
  match Utf8.lossy b with
  | '\uFEFF' :: cs => String.ofList cs
  | cs => String.ofList cs

theorem readVarint_shorter {limit n : Nat} {input rest : Bytes}
    (read : ProtoWire.readVarint limit input = some (n, rest)) : rest.length < input.length := by
  fun_induction ProtoWire.readVarint limit input generalizing n with
  | case1 => cases read
  | case2 => cases read
  | case3 limit b bytes low =>
    obtain ⟨rfl, rfl⟩ := Prod.mk.inj (Option.some.inj read)
    exact Nat.lt_succ_self _
  | case4 limit b bytes high ih =>
    obtain ⟨⟨m, later⟩, here, same⟩ := Option.map_eq_some_iff.mp read
    obtain ⟨rfl, rfl⟩ := Prod.mk.inj same
    exact Nat.lt_succ_of_lt (ih here)

theorem varint_low {n : Nat} (small : n < 128) : Reflect.varint n = [n.toUInt8] := by
  rw [Reflect.varint, if_pos small]

theorem readVarint_varint {n : Nat} (small : n < 2 ^ 32) (rest : Bytes) :
    ProtoWire.readVarint 10 (Reflect.varint n ++ rest) = some (n, rest) := by
  have shortest := Reflect.varint_shortest n
  exact shortest.stands.read (shortest.length_le (by omega)) rest

theorem readLength_varint {n : Nat} (small : n < 2 ^ 32) (rest : Bytes) :
    readLength (Reflect.varint n ++ rest) = some (UInt32.ofNat n, rest) := by
  rw [readLength, readVarint_varint small]
  rfl

theorem readBlock_varint (body rest : Bytes) (small : (Reflect.varint body.length ++ body).length < 2 ^ 32) :
    readBlock (Reflect.varint body.length ++ body ++ rest) = some (body, rest) := by
  rw [List.length_append] at small
  have short : body.length < 2 ^ 32 := by omega
  have length : (UInt32.ofNat body.length).toNat = body.length := UInt32.toNat_ofNat_of_lt' short
  rw [readBlock, List.append_assoc, readLength_varint short]
  simp only [Option.bind_eq_bind, Option.bind_some, length]
  rw [ProtoWire.splitAt, if_pos (by simp), List.take_left, List.drop_left]

theorem textDecoder_encode {s : String} (unmarked : s.toList.head? ≠ some '\uFEFF') :
    textDecoder (Utf8.encode s) = s := by
  rw [textDecoder, Utf8.lossy_encode]
  split
  · rename_i cs same
    exact absurd (congrArg List.head? same) unmarked
  · exact String.ofList_toList

/-- A writer of shortest varints, and a reader of whatever is a varint. -/
abbrev varintWire : Wire where
  uint32 n := Reflect.varint n.toNat
  bool b := Reflect.varint b.toNat
  string s := Reflect.varint (Utf8.encode s).length ++ Utf8.encode s
  bytes b := Reflect.varint b.length ++ b
  join body := Reflect.varint body.length ++ body
  readUint32 := readLength
  readBool input := (ProtoWire.readVarint 10 input).map fun read => (read.1 != 0, read.2)
  readString input := (readBlock input).map fun read => (textDecoder read.1, read.2)
  readBytes := readBlock
  skip
    | 0, input => (ProtoWire.readVarint 10 input).map Prod.snd
    | 1, input => (ProtoWire.splitAt 8 input).map Prod.snd
    | 2, input => (readBlock input).map Prod.snd
    | 5, input => (ProtoWire.splitAt 4 input).map Prod.snd
    | _, _ => none
  kept s := s.toList.head? ≠ some '\uFEFF'
  uint32_read n rest := by
    rw [readLength_varint n.toNat_lt, UInt32.ofNat_toNat]
  bool_read b rest := by
    rw [readVarint_varint (by cases b <;> decide)]
    cases b <;> rfl
  string_read s rest plain small := by
    rw [readBlock_varint _ _ small, Option.map_some, textDecoder_encode plain]
  bytes_read b rest small := readBlock_varint b rest small
  join_read body rest small := by
    rw [List.length_append] at small
    rw [List.append_assoc, readLength_varint (by omega)]
  length_join body := by
    rw [List.length_append]
    omega
  uint32_progress input n rest read := by
    obtain ⟨⟨m, later⟩, here, same⟩ := Option.map_eq_some_iff.mp read
    obtain ⟨rfl, rfl⟩ := Prod.mk.inj same
    exact readVarint_shorter here
  skip_uint32 n rest := by
    show (ProtoWire.readVarint 10 (Reflect.varint n.toNat ++ rest)).map Prod.snd = _
    rw [readVarint_varint n.toNat_lt]
    rfl
  skip_join body rest small := by
    show (readBlock (Reflect.varint body.length ++ body ++ rest)).map Prod.snd = _
    rw [readBlock_varint body rest small]
    rfl

section

variable [Wire]

/-! ### `encode` -/

def Metadatum.encode (m : Metadatum) : Bytes :=
  (if m.key ≠ "" then uint32 10 ++ string m.key else []) ++
    m.asciiValue.elim [] (fun s => uint32 18 ++ string s) ++
    m.binValue.elim [] (fun b => uint32 26 ++ bytes b)

def Subscribe.encode (m : Subscribe) : Bytes :=
  (if m.method ≠ "" then uint32 10 ++ string m.method else []) ++
    m.headers.flatMap (fun v => uint32 18 ++ join v.encode) ++
    (if m.timeoutMillis ≠ 0 then uint32 24 ++ uint32 m.timeoutMillis else []) ++
    (if m.initialPayload.length ≠ 0 then uint32 34 ++ bytes m.initialPayload else []) ++
    (if m.json ≠ false then uint32 40 ++ bool m.json else [])

def Header.encode (m : Header) : Bytes := m.headers.flatMap fun v => uint32 10 ++ join v.encode

def Message.encode (m : Message) : Bytes := if m.payload.length ≠ 0 then uint32 10 ++ bytes m.payload else []

def HalfClose.encode (_ : HalfClose) : Bytes := []

def Trailer.encode (m : Trailer) : Bytes :=
  (if m.statusCode ≠ 0 then uint32 8 ++ uint32 m.statusCode else []) ++
    (if m.statusMessage ≠ "" then uint32 18 ++ string m.statusMessage else []) ++
    m.trailers.flatMap (fun v => uint32 26 ++ join v.encode)

def Reset.encode (m : Reset) : Bytes :=
  (if m.statusCode ≠ 0 then uint32 8 ++ uint32 m.statusCode else []) ++
    (if m.statusMessage ≠ "" then uint32 18 ++ string m.statusMessage else [])

def Frame.encode (m : Frame) : Bytes :=
  m.subscribe.elim [] (fun v => uint32 10 ++ join v.encode) ++
    m.message.elim [] (fun v => uint32 18 ++ join v.encode) ++
    m.halfClose.elim [] (fun v => uint32 26 ++ join v.encode) ++
    m.trailer.elim [] (fun v => uint32 34 ++ join v.encode) ++
    m.reset.elim [] (fun v => uint32 42 ++ join v.encode) ++
    m.header.elim [] (fun v => uint32 66 ++ join v.encode)

/-! ### `decode` -/

def Metadatum.fields : Fields Metadatum
  | 10 => some (field readString fun key m => { m with key })
  | 18 => some (field readString fun s m => { m with asciiValue := some s })
  | 26 => some (field readBytes fun b m => { m with binValue := some b })
  | _ => none

def Subscribe.fields : Fields Subscribe
  | 10 => some (field readString fun method m => { m with method })
  | 18 => some (field (nested Metadatum.fields {}) fun v m => { m with headers := m.headers ++ [v] })
  | 24 => some (field readUint32 fun timeoutMillis m => { m with timeoutMillis })
  | 34 => some (field readBytes fun initialPayload m => { m with initialPayload })
  | 40 => some (field readBool fun json m => { m with json })
  | _ => none

def Header.fields : Fields Header
  | 10 => some (field (nested Metadatum.fields {}) fun v m => { m with headers := m.headers ++ [v] })
  | _ => none

def Message.fields : Fields Message
  | 10 => some (field readBytes fun payload _ => { payload })
  | _ => none

def HalfClose.fields : Fields HalfClose
  | _ => none

def Trailer.fields : Fields Trailer
  | 8 => some (field readUint32 fun statusCode m => { m with statusCode })
  | 18 => some (field readString fun statusMessage m => { m with statusMessage })
  | 26 => some (field (nested Metadatum.fields {}) fun v m => { m with trailers := m.trailers ++ [v] })
  | _ => none

def Reset.fields : Fields Reset
  | 8 => some (field readUint32 fun statusCode m => { m with statusCode })
  | 18 => some (field readString fun statusMessage m => { m with statusMessage })
  | _ => none

def Frame.fields : Fields Frame
  | 10 => some (field (nested Subscribe.fields {}) fun v m => { m with subscribe := some v })
  | 18 => some (field (nested Message.fields {}) fun v m => { m with message := some v })
  | 26 => some (field (nested HalfClose.fields {}) fun v m => { m with halfClose := some v })
  | 34 => some (field (nested Trailer.fields {}) fun v m => { m with trailer := some v })
  | 42 => some (field (nested Reset.fields {}) fun v m => { m with reset := some v })
  | 66 => some (field (nested Header.fields {}) fun v m => { m with header := some v })
  | _ => none

def encodeFrame (frame : Frame) : Bytes := frame.encode

/-- `none` if the reader throws. -/
def decodeFrame (bytes : Bytes) : Option Frame := (decode Frame.fields {} bytes bytes.length).map Prod.fst

/-- `Trailer.decode` of a whole block. -/
def decodeTrailer (bytes : Bytes) : Option Trailer := (decode Trailer.fields {} bytes bytes.length).map Prod.fst

/-! ### What is written is read -/

theorem Metadatum.writes {m : Metadatum} (plain : ∀ s ∈ m.strings, kept s) (small : m.encode.length < 2 ^ 32) :
    Writes Metadatum.fields m.encode m.over := by
  simp only [Metadatum.encode, List.length_append] at small
  have key : Writes Metadatum.fields (if m.key ≠ "" then uint32 10 ++ string m.key else [])
      (if m.key ≠ "" then fun x => { x with key := m.key } else id) := by
    refine .guarded fun given => .field (fun key (x : Metadatum) => { x with key }) m.key rfl
      fun more => string_read _ _ (plain _ List.mem_cons_self) ?_
    rw [if_pos given, List.length_append] at small
    omega
  have ascii : Writes Metadatum.fields (m.asciiValue.elim [] fun s => uint32 18 ++ string s)
      (m.asciiValue.elim id fun s x => { x with asciiValue := some s }) := by
    refine .option fun s given => .field (fun s (x : Metadatum) => { x with asciiValue := some s }) s rfl
      fun more => string_read _ _ (plain _ (List.mem_cons_of_mem _ (Option.mem_toList.mpr given))) ?_
    rw [given, Option.elim_some, List.length_append] at small
    omega
  have bin : Writes Metadatum.fields (m.binValue.elim [] fun b => uint32 26 ++ bytes b)
      (m.binValue.elim id fun b x => { x with binValue := some b }) := by
    refine .option fun b given => .field (fun b (x : Metadatum) => { x with binValue := some b }) b rfl
      fun more => bytes_read _ _ ?_
    rw [given, Option.elim_some, List.length_append] at small
    omega
  refine ((key.append ascii).append bin).as fun x => ?_
  obtain ⟨k, a, b⟩ := m
  by_cases none_ : k = "" <;> cases a <;> cases b <;> simp [Metadatum.over, none_]

/-- The entries of a message, each put behind those before it. -/
theorem writes_metadata {M : Type} (fields : Fields M) (tag : UInt32) (put : List Metadatum → M → M)
    (values : List Metadatum) (here : fields tag = some (field (nested Metadatum.fields {}) fun v => put [v]))
    (nil : ∀ m, put [] m = m) (cons : ∀ v later m, put later (put [v] m) = put (v :: later) m)
    (plain : ∀ s ∈ values.flatMap Metadatum.strings, kept s)
    (small : (values.flatMap fun v => uint32 tag ++ join v.encode).length < 2 ^ 32) :
    Writes fields (values.flatMap fun v => uint32 tag ++ join v.encode) (put values) := by
  have each : Writes fields (values.flatMap fun v => uint32 tag ++ join v.encode)
      fun m => values.foldl (fun m v => put [v] m) m := by
    refine .repeated fun v member => ?_
    have within := length_le_flatMap (fun v : Metadatum => uint32 tag ++ join v.encode) member
    rw [List.length_append] at within
    have shorter := length_join v.encode
    have own : ∀ s ∈ v.strings, kept s := fun s inside => plain s (List.mem_flatMap.mpr ⟨v, member, inside⟩)
    exact .message (fun v => put [v]) here (Metadatum.writes own (by omega)) v.over_base (by omega)
  refine each.as fun m => ?_
  clear small each plain
  induction values generalizing m with
  | nil => exact (nil m).symm
  | cons v values ih => exact (ih (put [v] m)).trans (cons v values m)

theorem Subscribe.writes {m : Subscribe} (plain : ∀ s ∈ m.strings, kept s) (small : m.encode.length < 2 ^ 32) :
    Writes Subscribe.fields m.encode m.over := by
  simp only [Subscribe.encode, List.length_append] at small
  have method : Writes Subscribe.fields (if m.method ≠ "" then uint32 10 ++ string m.method else [])
      (if m.method ≠ "" then fun x => { x with method := m.method } else id) := by
    refine .guarded fun given => .field (fun method (x : Subscribe) => { x with method }) m.method rfl
      fun more => string_read _ _ (plain _ List.mem_cons_self) ?_
    rw [if_pos given, List.length_append] at small
    omega
  have headers := writes_metadata Subscribe.fields 18 (fun values x => { x with headers := x.headers ++ values }) m.headers
    rfl (by simp) (by simp) (fun s inside => plain s (List.mem_cons_of_mem _ inside)) (by omega)
  have timeout : Writes Subscribe.fields (if m.timeoutMillis ≠ 0 then uint32 24 ++ uint32 m.timeoutMillis else [])
      (if m.timeoutMillis ≠ 0 then fun x => { x with timeoutMillis := m.timeoutMillis } else id) :=
    .guarded fun _ => .field (fun timeoutMillis (x : Subscribe) => { x with timeoutMillis }) m.timeoutMillis rfl
      fun more => uint32_read _ _
  have payload : Writes Subscribe.fields
      (if m.initialPayload.length ≠ 0 then uint32 34 ++ bytes m.initialPayload else [])
      (if m.initialPayload.length ≠ 0 then fun x => { x with initialPayload := m.initialPayload } else id) := by
    refine .guarded fun given => .field (fun initialPayload (x : Subscribe) => { x with initialPayload }) m.initialPayload
      rfl fun more => bytes_read _ _ ?_
    rw [if_pos given, List.length_append] at small
    omega
  have json : Writes Subscribe.fields (if m.json ≠ false then uint32 40 ++ bool m.json else [])
      (if m.json ≠ false then fun x => { x with json := m.json } else id) :=
    .guarded fun _ => .field (fun json (x : Subscribe) => { x with json }) m.json rfl fun more => bool_read _ _
  refine ((((method.append headers).append timeout).append payload).append json).as fun x => ?_
  clear small
  by_cases noMethod : m.method = "" <;> by_cases noTimeout : m.timeoutMillis = 0 <;>
    by_cases noPayload : m.initialPayload = [] <;> cases noJson : m.json <;>
    simp [Subscribe.over, noMethod, noTimeout, noPayload, noJson]

theorem Header.writes {m : Header} (plain : ∀ s ∈ m.strings, kept s) (small : m.encode.length < 2 ^ 32) :
    Writes Header.fields m.encode fun before => ⟨before.headers ++ m.headers⟩ :=
  writes_metadata Header.fields 10 (fun values before => ⟨before.headers ++ values⟩) m.headers rfl (by simp) (by simp)
    plain small

theorem Message.writes {m : Message} (small : m.encode.length < 2 ^ 32) :
    Writes Message.fields m.encode fun before => if m.payload.length ≠ 0 then m else before := by
  unfold Message.encode at small ⊢
  refine (Writes.guarded fun given => .field (fun payload (_ : Message) => { payload }) m.payload rfl
    fun more => bytes_read _ _ ?_).as fun x => ?_
  · rw [if_pos given, List.length_append] at small
    omega
  · split <;> rfl

/-- The two fields of a status, in the same places in both messages that carry one. -/
theorem writes_status {M : Type} (fields : Fields M) (code : UInt32) (message : String) (setCode : UInt32 → M → M)
    (setMessage : String → M → M) (hasCode : fields 8 = some (field readUint32 setCode))
    (hasMessage : fields 18 = some (field readString setMessage)) (plain : kept message)
    (small : (if message ≠ "" then uint32 18 ++ string message else []).length < 2 ^ 32) :
    Writes fields ((if code ≠ 0 then uint32 8 ++ uint32 code else []) ++
        (if message ≠ "" then uint32 18 ++ string message else []))
      ((if message ≠ "" then setMessage message else id) ∘ (if code ≠ 0 then setCode code else id)) := by
  refine (Writes.guarded fun _ => .field setCode code hasCode fun more => uint32_read _ _).append
    (.guarded fun given => .field setMessage message hasMessage fun more => string_read _ _ plain ?_)
  rw [if_pos given, List.length_append] at small
  omega

theorem Trailer.writes {m : Trailer} (plain : ∀ s ∈ m.strings, kept s) (small : m.encode.length < 2 ^ 32) :
    Writes Trailer.fields m.encode m.over := by
  simp only [Trailer.encode, List.length_append] at small
  have status := writes_status Trailer.fields m.statusCode m.statusMessage (fun statusCode x => { x with statusCode })
    (fun statusMessage x => { x with statusMessage }) rfl rfl (plain _ List.mem_cons_self) (by omega)
  have trailers := writes_metadata Trailer.fields 26 (fun values x => { x with trailers := x.trailers ++ values })
    m.trailers rfl (by simp) (by simp) (fun s inside => plain s (List.mem_cons_of_mem _ inside)) (by omega)
  refine (status.append trailers).as fun x => ?_
  clear small
  by_cases noCode : m.statusCode = 0 <;> by_cases noMessage : m.statusMessage = "" <;>
    simp [Trailer.over, noCode, noMessage]

theorem Reset.writes {m : Reset} (plain : ∀ s ∈ m.strings, kept s) (small : m.encode.length < 2 ^ 32) :
    Writes Reset.fields m.encode m.over := by
  simp only [Reset.encode, List.length_append] at small
  have status := writes_status Reset.fields m.statusCode m.statusMessage (fun statusCode x => { x with statusCode })
    (fun statusMessage x => { x with statusMessage }) rfl rfl (plain _ List.mem_cons_self) (by omega)
  refine status.as fun x => ?_
  clear small
  by_cases noCode : m.statusCode = 0 <;> by_cases noMessage : m.statusMessage = "" <;>
    simp [Reset.over, noCode, noMessage]

/-- A kind of a frame, which is a message of its own. -/
theorem writes_kind {N : Type} (inner : Fields N) (base : N) (write : N → Bytes) (change : N → N → N) (tag : UInt32)
    (set : N → Frame → Frame) (value : Option N)
    (here : Frame.fields tag = some (field (nested inner base) set))
    (writes : ∀ v ∈ value, (write v).length < 2 ^ 32 → Writes inner (write v) (change v))
    (whole : ∀ v, change v base = v)
    (small : (value.elim [] fun v => uint32 tag ++ join (write v)).length < 2 ^ 32) :
    Writes Frame.fields (value.elim [] fun v => uint32 tag ++ join (write v)) (value.elim id set) := by
  refine .option fun v given => ?_
  rw [given, Option.elim_some, List.length_append] at small
  have shorter := length_join (write v)
  exact .message set here (writes v given (by omega)) (whole v) (by omega)

theorem Frame.writes {m : Frame} (plain : ∀ s ∈ m.strings, kept s) (small : m.encode.length < 2 ^ 32) :
    Writes Frame.fields m.encode m.over := by
  simp only [Frame.encode, List.length_append] at small
  simp only [Frame.strings, List.forall_mem_append] at plain
  obtain ⟨⟨⟨inSubscribe, inTrailer⟩, inReset⟩, inHeader⟩ := plain
  have subscribe := writes_kind Subscribe.fields {} Subscribe.encode Subscribe.over 10
    (fun v x => { x with subscribe := some v }) m.subscribe rfl
    (fun v given => Subscribe.writes (by rw [given] at inSubscribe; exact inSubscribe)) Subscribe.over_base (by omega)
  have message := writes_kind Message.fields {} Message.encode
    (fun v before => if v.payload.length ≠ 0 then v else before) 18 (fun v x => { x with message := some v }) m.message rfl
    (fun v _ => Message.writes) Message.over_base (by omega)
  have halfClose := writes_kind HalfClose.fields {} HalfClose.encode (fun _ => id) 26
    (fun v x => { x with halfClose := some v }) m.halfClose rfl (fun v _ _ => .nil) (fun _ => rfl) (by omega)
  have trailer := writes_kind Trailer.fields {} Trailer.encode Trailer.over 34
    (fun v x => { x with trailer := some v }) m.trailer rfl
    (fun v given => Trailer.writes (by rw [given] at inTrailer; exact inTrailer)) Trailer.over_base (by omega)
  have reset := writes_kind Reset.fields {} Reset.encode Reset.over 42
    (fun v x => { x with reset := some v }) m.reset rfl
    (fun v given => Reset.writes (by rw [given] at inReset; exact inReset)) Reset.over_base (by omega)
  have header := writes_kind Header.fields {} Header.encode (fun v before => ⟨before.headers ++ v.headers⟩) 66
    (fun v x => { x with header := some v }) m.header rfl
    (fun v given => Header.writes (by rw [given] at inHeader; exact inHeader)) (fun _ => rfl) (by omega)
  refine (((((subscribe.append message).append halfClose).append trailer).append reset).append header).as fun x => ?_
  clear small subscribe message halfClose trailer reset header inSubscribe inTrailer inReset inHeader
  obtain ⟨subscribe, message, halfClose, trailer, reset, header⟩ := m
  simp only [Frame.over, Function.comp_apply]
  cases subscribe <;> cases message <;> cases halfClose <;> cases trailer <;> cases reset <;> cases header <;> rfl

theorem decodeTrailer_encode {m : Trailer} (plain : ∀ s ∈ m.strings, kept s) (small : m.encode.length < 2 ^ 32) :
    decodeTrailer m.encode = some m := by
  have read := (Trailer.writes plain small).decode {} []
  rw [List.append_nil] at read
  rw [decodeTrailer, read, Trailer.over_base]
  rfl

theorem decodeFrame_writes {bytes : Bytes} {change : Frame → Frame} (writes : Writes Frame.fields bytes change) :
    decodeFrame bytes = some (change {}) := by
  have read := writes.decode {} []
  rw [List.append_nil] at read
  rw [decodeFrame, read]
  rfl

def subscribeFrame : Frame where
  subscribe := some { headers := [{ key := "k", asciiValue := some "v" }], timeoutMillis := 50 }

def resetFrame : Frame where
  reset := some { statusCode := 1, statusMessage := "cancelled" }

end

section

variable [JsString]

def fromMetadatumList (items : List Metadatum) : Client.Metadata :=
  items.foldl (fun md m => match m.binValue, m.asciiValue with
    | some b, _ => md.add m.key (.bytes b)
    | none, some s => md.add m.key (.text s)
    | none, none => md) .empty

def ofMetadatum (m : GrpcWebnext.Metadatum) : Metadatum :=
  match m.value with
  | some (.asciiValue s) => { key := m.key, asciiValue := some s }
  | some (.binValue b) => { key := m.key, binValue := some b }
  | none => { key := m.key }

theorem fromMetadatumList_ofMetadatum (items : List GrpcWebnext.Metadatum) :
    fromMetadatumList (items.map ofMetadatum) = Client.Metadata.fromMetadatumList items := by
  rw [fromMetadatumList, List.foldl_map, Client.Metadata.fromMetadatumList]
  congr 1
  funext md m
  obtain ⟨key, value⟩ := m
  cases value with
  | none => rfl
  | some value => cases value <;> rfl

variable [JsNumber]
open JsNumber

/-- The handler that `onMessage` calls for a decoded frame. -/
def onFrame (frame : Frame) : Option (Event Bytes) :=
  match frame.header, frame.message, frame.trailer, frame.reset with
  | some h, _, _, _ => some (.headers (fromMetadatumList h.headers))
  | none, some m, _, _ => some (.message m.payload)
  | none, none, some t, _ =>
    some (.status (ofNat t.statusCode.toNat) t.statusMessage (fromMetadatumList t.trailers))
  | none, none, none, some r => some (.status (ofNat r.statusCode.toNat) r.statusMessage .empty)
  | none, none, none, none => none

/-- A frame of one kind, as the generated code holds it. -/
def ofFrame (frame : GrpcWebnext.Frame) : Frame :=
  match frame.kind with
  | some (.subscribe s) =>
    { subscribe := some ⟨s.method, s.headers.map ofMetadatum, s.timeoutMillis, s.initialPayload, s.json⟩ }
  | some (.message msg) => { message := some ⟨msg.payload⟩ }
  | some .halfClose => { halfClose := some {} }
  | some (.trailer t) => { trailer := some ⟨.ofNat t.statusCode, t.statusMessage, t.trailers.map ofMetadatum⟩ }
  | some (.reset r) => { reset := some ⟨.ofNat r.statusCode, r.statusMessage⟩ }
  | some (.header h) => { header := some ⟨h.headers.map ofMetadatum⟩ }
  | none => {}

theorem onFrame_ofFrame (frame : GrpcWebnext.Frame) (codes : ∀ code ∈ frame.status?, code < 2 ^ 32) :
    onFrame (ofFrame frame) = onBinaryFrame frame := by
  have code {n : Nat} (small : n < 2 ^ 32) : (UInt32.ofNat n).toNat = n := UInt32.toNat_ofNat_of_lt' small
  obtain ⟨kind⟩ := frame
  match kind with
  | none => rfl
  | some (.subscribe _) => rfl
  | some (.message _) => rfl
  | some .halfClose => rfl
  | some (.trailer t) =>
    show some (Event.status (ofNat (UInt32.ofNat t.statusCode).toNat) _ (fromMetadatumList (t.trailers.map ofMetadatum))) = _
    rw [code (codes _ rfl), fromMetadatumList_ofMetadatum]
    rfl
  | some (.reset r) =>
    show some (Event.status (ofNat (UInt32.ofNat r.statusCode).toNat) _ _) = _
    rw [code (codes _ rfl)]
    rfl
  | some (.header h) =>
    show some (Event.headers (fromMetadatumList (h.headers.map ofMetadatum))) = _
    rw [fromMetadatumList_ofMetadatum]
    rfl

variable [Wire]

/-- Whatever fields of a later version stand about a frame of one kind, its bytes call the handler of that kind. -/
theorem onFrame_decodeFrame (frame : GrpcWebnext.Frame) (codes : ∀ code ∈ frame.status?, code < 2 ^ 32)
    (plain : ∀ s ∈ (ofFrame frame).strings, kept s) (small : (encodeFrame (ofFrame frame)).length < 2 ^ 32)
    {before after : Bytes} (newer : Unknown Frame.fields before ∧ Unknown Frame.fields after) :
    (decodeFrame (before ++ encodeFrame (ofFrame frame) ++ after)).map onFrame = some (onBinaryFrame frame) := by
  have own : Writes Frame.fields (encodeFrame (ofFrame frame)) _ := Frame.writes plain small
  rw [decodeFrame_writes ((newer.1.writes.append own).append newer.2.writes), Option.map_some]
  show some (onFrame ((ofFrame frame).over {})) = _
  rw [Frame.over_base, onFrame_ofFrame frame codes]

end

end Generated
end Client
end GrpcWebnext
