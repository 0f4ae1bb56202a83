import GrpcWebnext.Pb

/-!
# WebSocket frames

The JSON frame format and its conversions, and the decoding and encoding of WebSocket
messages. prost and serde parse the bytes of a message, so an inbound message stands here
with what they made of it.
-/

namespace GrpcWebnext

/-- `serde_json`: JSON values, by their conversions to and from text. -/
class SerdeJson where
  Value : Type
  null : Value
  toVec : Value → Bytes
  fromSlice : Bytes → Option Value

namespace Ws

/-- `BTreeMap<String, String>`: strictly ascending keys. -/
abbrev JsonMeta := List (String × String)

def JsonMeta.insert (k v : String) : JsonMeta → JsonMeta
  | [] => [(k, v)]
  | e :: rest =>
    if k < e.1 then (k, v) :: e :: rest
    else if k = e.1 then (k, v) :: rest
    else e :: insert k v rest

structure JsonStatus where
  code : Nat
  message : String
  deriving DecidableEq

structure JsonFrame (Value : Type) where
  metadata : Option JsonMeta := none
  timeoutMillis : Option UInt32 := none
  message : Option Value := none
  halfClose : Option Bool := none
  status : Option JsonStatus := none

/-- A WebSocket message from the client: `none` is a binary or text message that does not
parse, `control` a ping or pong. -/
inductive Inbound (Value : Type) where
  | binary (frame : Option Frame)
  | text (frame : Option (JsonFrame Value))
  | close
  | control

/-- A WebSocket message to the client, before its bytes are written. -/
inductive TungMessage (Value : Type) where
  | binary (frame : Frame)
  | text (frame : JsonFrame Value)
  | close (code : Nat) (reason : String)

/-- `meta_vec_to_json`: the ASCII entries, the last of a key; `none` if there are none. -/
def metaVecToJson (items : List Metadatum) : Option JsonMeta :=
  let map := items.foldl (fun (map : JsonMeta) m =>
    match m.value with
    | some (.asciiValue s) => map.insert m.key s
    | _ => map) []
  if map.isEmpty then none else some map

def jsonToMetaVec (md : Option JsonMeta) : List Metadatum :=
  (md.getD []).map fun e => ⟨e.1, some (.asciiValue e.2)⟩

variable [SerdeJson]
open SerdeJson

def jsonOpenToSubscribe (f : JsonFrame Value) (method : String) : Subscribe where
  method
  headers := jsonToMetaVec f.metadata
  timeoutMillis := f.timeoutMillis.getD 0
  initialPayload := (f.message.map toVec).getD []
  json := true

def jsonFrameToProto (f : JsonFrame Value) : Frame :=
  match f.status with
  | some status => ⟨some (.reset ⟨status.code, status.message⟩)⟩
  | none =>
    if f.halfClose = some true then ⟨some .halfClose⟩
    else match f.message with
      | some message => ⟨some (.message ⟨toVec message⟩)⟩
      | none => ⟨some .halfClose⟩

/-- `proto_frame_to_json`: the JSON form of a server frame, `none` for client kinds. -/
def protoFrameToJson (frame : Frame) : Option (JsonFrame Value) :=
  match frame.kind with
  | some (.message m) => some { message := some ((fromSlice m.payload).getD null) }
  | some (.header h) => some { metadata := some ((metaVecToJson h.headers).getD []) }
  | some (.trailer t) =>
    some { status := some ⟨t.statusCode, t.statusMessage⟩, metadata := metaVecToJson t.trailers }
  | some (.reset r) => some { status := some ⟨r.statusCode, r.statusMessage⟩ }
  | _ => none

/-- `decode_binary`: the method comes from the URL; nothing passes before a `Subscribe`. The
flag is `opened` afterwards. -/
def decodeBinary (data : Option Frame) (methodUrl : String) (opened : Bool) : Option Frame × Bool :=
  match data with
  | none => (none, opened)
  | some frame =>
    match frame.kind with
    | none => (none, opened)
    | some (.subscribe s) => (some ⟨some (.subscribe { s with method := methodUrl })⟩, true)
    | some kind => if opened then (some ⟨some kind⟩, opened) else (none, opened)

omit [SerdeJson] in
theorem decodeBinary_opened {data : Option Frame} {methodUrl : String} {opened : Bool}
    (before : opened = true) :
    (decodeBinary data methodUrl opened).2 = true := by
  unfold decodeBinary
  split
  · exact before
  · split
    · exact before
    · rfl
    · split <;> exact before

omit [SerdeJson] in
theorem decodeBinary_subscribe {data : Option Frame} {methodUrl : String} {opened : Bool}
    {sub : Subscribe}
    (passed : (decodeBinary data methodUrl opened).1 = some ⟨some (.subscribe sub)⟩) :
    sub.method = methodUrl ∧ (decodeBinary data methodUrl opened).2 = true := by
  unfold decodeBinary at passed ⊢
  split at passed
  · cases passed
  · split at passed
    · cases passed
    · cases passed
      simp [*]
    · split at passed
      · cases passed
        simp_all
      · cases passed

/-- `decode_text`: the first frame opens the stream, whatever it carries. -/
def decodeText (text : Option (JsonFrame Value)) (methodUrl : String) (opened : Bool) :
    Option Frame × Bool :=
  match text with
  | none => (none, opened)
  | some jf =>
    if opened then (some (jsonFrameToProto jf), true)
    else (some ⟨some (.subscribe (jsonOpenToSubscribe jf methodUrl))⟩, true)

theorem decodeText_opened {text : Option (JsonFrame Value)} {methodUrl : String} {opened : Bool}
    (before : opened = true) : (decodeText text methodUrl opened).2 = true := by
  unfold decodeText
  split
  · exact before
  · split <;> rfl

theorem jsonFrameToProto_ne_subscribe (f : JsonFrame Value) (sub : Subscribe) :
    jsonFrameToProto f ≠ ⟨some (.subscribe sub)⟩ := by
  unfold jsonFrameToProto
  split
  · nofun
  · split
    · nofun
    · split <;> nofun

theorem decodeText_subscribe {text : Option (JsonFrame Value)} {methodUrl : String} {opened : Bool}
    {sub : Subscribe}
    (passed : (decodeText text methodUrl opened).1 = some ⟨some (.subscribe sub)⟩) :
    sub.method = methodUrl ∧ opened = false ∧ (decodeText text methodUrl opened).2 = true := by
  unfold decodeText at passed ⊢
  split at passed
  · cases passed
  · split at passed
    · exact absurd (Option.some.inj passed) (jsonFrameToProto_ne_subscribe _ sub)
    · cases passed
      simp_all [jsonOpenToSubscribe]

/-- `to_tung`: a frame in the connection codec. -/
def toTung (frame : Frame) (json : Bool) : TungMessage Value :=
  if json then
    match protoFrameToJson frame with
    | some jf => .text jf
    | none => .binary frame
  else .binary frame

def closeNormal : TungMessage Value := .close 1000 ""

def resetFrame (code : Code) (message : String) : Frame := ⟨some (.reset ⟨code.toNat, message⟩)⟩

end Ws
end GrpcWebnext
