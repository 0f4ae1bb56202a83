import GrpcWebnext.Client.WsTransport

/-!
# JSON frames to the server

What `decode_text` makes of the texts that a JSON `SingleStreamConn` sends. The kind of a text is read
from the fields that are present, and a field that is `null` is not.
-/

namespace GrpcWebnext
namespace JsonToServer
open Json Client Ws

section

variable [JsNumber]
open JsNumber (toNumber ofNat)

/-! ### The client's texts -/

def emitted (options : CallOptions) (ops : List Operation) : List Document :=
  (ops.foldl StreamConn.apply (.start options)).sent

/-- The operations that a call takes; it is finished behind the first `cancel`. -/
def untilCancel : List Operation → List Operation
  | [] => []
  | .cancel :: _ => [.cancel]
  | op :: ops => op :: untilCancel ops

def textOf : Operation → Document
  | .send message => encodeMessage message
  | .halfClose => encodeHalfClose
  | .cancel => encodeReset ⟨1, "cancelled"⟩

theorem apply_finished (sent : List Document) (ops : List Operation) :
    ops.foldl StreamConn.apply ⟨sent, true⟩ = ⟨sent, true⟩ := by
  induction ops with
  | nil => rfl
  | cons op ops ih => cases op <;> exact ih

theorem apply_sent (sent : List Document) (ops : List Operation) :
    (ops.foldl StreamConn.apply ⟨sent, false⟩).sent = sent ++ (untilCancel ops).map textOf := by
  induction ops generalizing sent with
  | nil => simp [untilCancel]
  | cons op ops ih =>
    have one : ∀ frame, sent ++ frame :: (untilCancel ops).map textOf =
        (sent ++ [frame]) ++ (untilCancel ops).map textOf := by simp
    cases op with
    | cancel =>
      have ended : StreamConn.apply ⟨sent, false⟩ .cancel = ⟨sent ++ [textOf .cancel], true⟩ := rfl
      rw [List.foldl_cons, ended, apply_finished]
      rfl
    | send message => exact (ih _).trans (one _).symm
    | halfClose => exact (ih _).trans (one _).symm

theorem emitted_eq (options : CallOptions) (ops : List Operation) :
    emitted options ops = openFrame options :: (untilCancel ops).map textOf :=
  apply_sent [openFrame options] ops

theorem stringify_jsObject (l : List (String × JsValue)) :
    stringify (jsObject l) = object (l.map fun m => (m.1, stringify m.2)) := by
  have members : ∀ f : JsNumber.Number → Document,
      (Tree.ofMembers (l.map fun m => (Text.ofString m.1, m.2))).bind f =
        Tree.ofMembers ((l.map fun m => (m.1, m.2.bind f)).map fun m => (Text.ofString m.1, m.2)) := by
    intro f
    induction l with
    | nil => rfl
    | cons m l ih => simp only [List.map_cons, Tree.ofMembers, Tree.bind, ih]
  simp only [stringify, jsObject, Tree.bind, members]
  rfl

/-! ### What they mean -/

variable [SerdeText]
open SerdeText (document)
open SerdeJson (toVec)

/-- `decode_text` along the texts of a connection. -/
def decodeTexts (methodUrl : String) : Bool → List Document → List (Option Frame)
  | _, [] => []
  | opened, t :: rest =>
    let decoded := decodeText (decodeJsonFrame t) methodUrl opened
    decoded.1 :: decodeTexts methodUrl decoded.2 rest

/-- The milliseconds of a timeout, 0 for no deadline. -/
def Timeout.Is : Option Timeout → Nat → Prop
  | none, millis => millis = 0
  | some (.finite timeout _), millis => millis = ⌈timeout⌉₊
  | some .infinite, millis => millis = 0

/-- A `Subscribe` with the metadata and the timeout of the call. -/
def Opens (methodUrl : String) (options : CallOptions) (frame : Option Frame) : Prop :=
  ∃ sub : Subscribe, frame = some ⟨some (.subscribe sub)⟩ ∧ sub.method = methodUrl ∧ sub.initialPayload = [] ∧
    sub.headers.Perm options.metadata.toMetadatumList ∧ Timeout.Is options.timeoutMillis sub.timeoutMillis.toNat

/-- The frame of an operation. A message has the value that JavaScript reads from both texts. -/
def Means : Operation → Option Frame → Prop
  | .send message, frame => ∃ payload t, frame = some ⟨some (.message ⟨payload⟩)⟩ ∧
      document payload = some t ∧ parse t = parse message
  | .halfClose, frame => frame = some ⟨some .halfClose⟩
  | .cancel, frame => frame = some ⟨some (.reset ⟨1, "cancelled"⟩)⟩

structure SameMeaning (methodUrl : String) (options : CallOptions) (ops : List Operation)
    (frames : List (Option Frame)) : Prop where
  opens : ∃ first rest, frames = first :: rest ∧ Opens methodUrl options first ∧
    List.Forall₂ Means (untilCancel ops) rest

/-- `JSON.stringify` writes the number as a numeral that serde_json reads as the same number. -/
def CarriedNumeral (n : String) : Prop :=
  ∃ n₁ n₂, JsNumber.numeral (toNumber n) = some n₁ ∧ SerdeText.numeral n₁ = some n₂ ∧ toNumber n₂ = toNumber n

def Carried (message : Document) : Prop :=
  message ≠ .null ∧ message.canonical.Within 127 ∧ message.canonical.Numbers CarriedNumeral

/-- A `u32` holds the milliseconds, rounded up. -/
def Timeout.Fits : Timeout → Prop
  | .finite millis _ => ⌈millis⌉₊ < 2 ^ 32
  | .infinite => True

/-! ### Decoding -/

omit [JsNumber] in
theorem decodeTexts_opened (methodUrl : String) (texts : List Document) :
    decodeTexts methodUrl true texts =
      texts.map fun t => (decodeText (decodeJsonFrame t) methodUrl true).1 := by
  induction texts with
  | nil => rfl
  | cons t texts ih => rw [decodeTexts, decodeText_opened rfl, ih, List.map_cons]

/-! ### The open frame -/

def asciiMetadatum (e : String × String) : Metadatum := ⟨e.1, some (.asciiValue e.2)⟩

omit [JsNumber] [SerdeText] in
theorem metaToJson_nodup (md : Client.Metadata) : ((metaToJson md).map Prod.fst).Nodup := by
  have kept : ((metaToJson md).map Prod.fst).Sublist (md.map.map Prod.fst) := by
    unfold metaToJson Metadata.getMap
    generalize md.map = entries
    induction entries with
    | nil => exact .slnil
    | cons e entries ih =>
      obtain ⟨key, values⟩ := e
      cases values with
      | nil => exact ih.cons key
      | cons value values =>
        by_cases proto : key = "__proto__"
        · simpa [proto] using ih.cons "__proto__"
        · cases value with
          | text s => simpa [proto] using ih
          | bytes b => simpa [proto] using ih.cons key
  exact kept.nodup md.distinct

omit [JsNumber] [SerdeText] in
/-- With a single text for each key, the frame holds every entry but that of `__proto__`. -/
theorem metaToJson_single {md : Client.Metadata} (single : ∀ e ∈ md.map, ∃ s, e.2 = [.text s]) :
    (metaToJson md).map asciiMetadatum = md.toMetadatumList.filter fun m => m.key ≠ "__proto__" := by
  unfold metaToJson Metadata.getMap Metadata.toMetadatumList
  generalize md.map = entries at single
  induction entries with
  | nil => rfl
  | cons e entries ih =>
    obtain ⟨key, values⟩ := e
    obtain ⟨s, rfl⟩ := single _ List.mem_cons_self
    have rest := ih fun e member => single e (List.mem_cons_of_mem _ member)
    by_cases proto : key = "__proto__"
    · simpa [proto, Metadata.toMetadatum] using rest
    · simpa [proto, Metadata.toMetadatum, asciiMetadatum] using rest

omit [JsNumber] [SerdeText] in
theorem metaToJson_perm_iff {md : Client.Metadata} (single : ∀ e ∈ md.map, ∃ s, e.2 = [.text s]) :
    ((metaToJson md).map asciiMetadatum).Perm md.toMetadatumList ↔ "__proto__" ∉ md.map.map Prod.fst := by
  rw [metaToJson_single single]
  have keys : "__proto__" ∉ md.map.map Prod.fst ↔ ∀ m ∈ md.toMetadatumList, m.key ≠ "__proto__" := by
    unfold Metadata.toMetadatumList
    constructor
    · intro absent m member same
      obtain ⟨e, held, member⟩ := List.mem_flatMap.mp member
      obtain ⟨s, only⟩ := single e held
      rw [only] at member
      obtain rfl := List.mem_singleton.mp member
      exact absent (List.mem_map.mpr ⟨e, held, same⟩)
    · intro others present
      obtain ⟨e, held, named⟩ := List.mem_map.mp present
      obtain ⟨s, only⟩ := single e held
      refine others (Metadata.toMetadatum e.1 (.text s)) (List.mem_flatMap.mpr ⟨e, held, ?_⟩) named
      rw [only]
      exact List.mem_singleton_self _
  rw [keys]
  constructor
  · intro perm
    have whole := List.length_filter_eq_length_iff.mp perm.length_eq
    exact fun m member => of_decide_eq_true (whole m member)
  · intro others
    rw [List.filter_eq_self.mpr fun m member => decide_eq_true (others m member)]

def openMeta (md : Client.Metadata) : Option JsonMeta :=
  if (metaToJson md).isEmpty then none
  else some ((metaToJson md).foldl (fun map e => JsonMeta.insert e.1 e.2 map) [])

omit [JsNumber] [SerdeText] in
theorem openMeta_perm (md : Client.Metadata) :
    (jsonToMetaVec (openMeta md)).Perm ((metaToJson md).map asciiMetadatum) := by
  unfold openMeta
  cases held : metaToJson md with
  | nil => exact .refl _
  | cons e rest =>
    have distinct := metaToJson_nodup md
    rw [held] at distinct
    exact (foldl_insert_perm [] distinct).map asciiMetadatum

theorem decode_openFrame (options : CallOptions) :
    decodeJsonFrame (openFrame options) =
      (Ws.optional readU32 (options.timeoutMillis.map fun timeout => stringify (.num timeout.ceil))).map fun millis =>
        { metadata := openMeta options.metadata, timeoutMillis := millis.map Nat.toUInt32 } := by
  have written : ∀ l : List (String × String),
      stringify (jsObject (l.map fun e => (e.1, jsString e.2))) = object (l.map fun e => (e.1, strDocument e.2)) := by
    intro l
    rw [stringify_jsObject, List.map_map]
    rfl
  have metadata : ∀ l : List (String × String),
      Ws.optional readMeta (some (stringify (jsObject (l.map fun e => (e.1, jsString e.2))))) =
        some (some (l.foldl (fun map e => JsonMeta.insert e.1 e.2 map) [])) := by
    intro l
    rw [written, optional_some (object_ne_null _), readMeta_object]
    rfl
  unfold openFrame openMeta
  rw [stringify_jsObject]
  cases (metaToJson options.metadata).isEmpty <;> cases options.timeoutMillis
  all_goals
    rw [decodeJsonFrame_object (by simp)]
    simp [List.lookup_cons, metadata, Option.map_eq_bind]

omit [SerdeText] in
/-- Where the timeout does not fit, the text cannot be read, or its `null` is no timeout. -/
theorem timeout_fits_iff (timeout : Option Timeout) :
    (∃ millis, Ws.optional readU32 (timeout.map fun timeout => stringify (.num timeout.ceil)) = some millis ∧
      Timeout.Is timeout ((millis.map Nat.toUInt32).getD 0).toNat) ↔ ∀ t ∈ timeout, Timeout.Fits t := by
  cases timeout with
  | none => simp [Timeout.Is]
  | some timeout =>
    cases timeout with
    | infinite => simp [Timeout.Is, Timeout.Fits, Timeout.ceil, stringify, Tree.bind, JsNumber.numeral_infinity]
    | finite millis positive =>
      have started : 0 < ⌈millis⌉₊ := Nat.ceil_pos.mpr positive
      simp only [Option.map_some, Option.mem_def, Option.some.injEq, forall_eq', Timeout.Fits, Timeout.ceil,
        stringify, Tree.bind]
      by_cases fits : ⌈millis⌉₊ < 2 ^ 32
      · have small : ⌈millis⌉₊ ≤ 2 ^ 53 := by omega
        have read : Metadata.parseUnsigned 32 ⌈millis⌉₊.repr = some ⌈millis⌉₊ := Metadata.parseUnsigned_repr fits
        rw [JsNumber.numeral_ofNat small]
        simp [Ws.optional, readU32, read, Timeout.Is]
      · cases numeral : JsNumber.numeral (ofNat ⌈millis⌉₊) with
        | none => simp [Timeout.Is]; omega
        | some n =>
          have unread := JsNumber.numeral_large (not_lt.mp fits) numeral
          simp [Ws.optional, readU32, unread]; omega

theorem opens_iff (methodUrl : String) {options : CallOptions}
    (single : ∀ e ∈ options.metadata.map, ∃ s, e.2 = [.text s]) :
    Opens methodUrl options (decodeText (decodeJsonFrame (openFrame options)) methodUrl false).1 ↔
      "__proto__" ∉ options.metadata.map.map Prod.fst ∧ ∀ t ∈ options.timeoutMillis, Timeout.Fits t := by
  have headers : (jsonToMetaVec (openMeta options.metadata)).Perm options.metadata.toMetadatumList ↔
      "__proto__" ∉ options.metadata.map.map Prod.fst := by
    rw [← metaToJson_perm_iff single]
    exact (openMeta_perm options.metadata).congr_left _
  rw [← headers, ← timeout_fits_iff, decode_openFrame]
  cases read : Ws.optional readU32 (options.timeoutMillis.map fun timeout => stringify (.num timeout.ceil)) with
  | none => simp [Opens, decodeText]
  | some millis => simp [Opens, decodeText, jsonOpenToSubscribe]

/-! ### Later frames -/

/-- Only a number can turn into `null`. -/
theorem stringify_parse_ne_null {message : Document} (carried : Carried message) :
    stringify (parse message) ≠ .null := by
  obtain ⟨present, _, numbers⟩ := carried
  rw [stringify_parse]
  cases message with
  | null => exact absurd rfl present
  | num n =>
    obtain ⟨n₁, _, spelled, _⟩ := numbers
    simp [Tree.canonical, Tree.bind, respell, spelled]
  | _ =>
    intro null
    cases null

def rereadNumeral (n : String) : Option Document := (respell n).rewrite (fun n => (SerdeText.numeral n).map .num) 1

theorem rereadNumeral_scalar (n : String) : ((rereadNumeral n).getD .null).Scalar := by
  unfold rereadNumeral respell
  cases JsNumber.numeral (toNumber n) with
  | none => trivial
  | some n₁ => cases read : SerdeText.numeral n₁ <;> simp [Tree.rewrite, read, Tree.Scalar]

theorem rereadNumeral_carried_iff (n : String) :
    (rereadNumeral n).map (Tree.bind fun n => .num (toNumber n)) = some (.num (toNumber n)) ↔ CarriedNumeral n := by
  unfold rereadNumeral respell CarriedNumeral
  cases JsNumber.numeral (toNumber n) with
  | none => simp [Tree.rewrite, Tree.bind]
  | some n₁ => cases read : SerdeText.numeral n₁ <;> simp [Tree.rewrite, Tree.bind, read]

theorem reread_message_iff {message : Document} (lawful : Rewrites 127 (stringify (parse message))) :
    ((SerdeText.read 127 (stringify (parse message))).map SerdeText.write).map parse = some (parse message) ↔
      message.canonical.Within 127 ∧ message.canonical.Numbers CarriedNumeral := by
  have carried : (fun n => (rereadNumeral n).map (Tree.bind fun n => .num (toNumber n)) =
      some (.num (toNumber n))) = CarriedNumeral := funext fun n => propext (rereadNumeral_carried_iff n)
  have readable : ∀ n, CarriedNumeral n → (rereadNumeral n).isSome := by
    intro n kept
    obtain ⟨v, held, _⟩ := Option.map_eq_some_iff.mp ((rereadNumeral_carried_iff n).mpr kept)
    simp [held]
  have read := Tree.reread_iff (g := fun n => .num (toNumber n)) (h := fun n => .num (toNumber n))
    rereadNumeral_scalar 127 message.canonical
  have parsed : parse ∘ Tree.canonical = fun t : Document => t.canonical.bind fun n => .num (toNumber n) := by
    funext t
    simp [parse]
  rw [Tree.canonical_canonical, carried] at read
  rw [lawful, stringify_parse, Tree.rewrite_bind respell_scalar, Option.map_map, parsed]
  refine read.trans ⟨?_, ?_⟩
  · rintro ⟨within, _, kept⟩
    exact ⟨within, kept⟩
  · rintro ⟨within, kept⟩
    exact ⟨within, kept.imp readable, kept⟩

theorem decode_message (message : Document) :
    decodeJsonFrame (encodeMessage message) =
      (Ws.optional (SerdeText.read 127) (some (stringify (parse message)))).map fun message => { message } := by
  rw [encodeMessage, stringify_jsObject, decodeJsonFrame_object (by simp)]
  simp [List.lookup_cons, Option.map_eq_bind]

theorem means_send_iff (methodUrl : String) {message : Document}
    (lawful : Rewrites 127 (stringify (parse message))) :
    Means (.send message) (decodeText (decodeJsonFrame (encodeMessage message)) methodUrl true).1 ↔
      Carried message := by
  rw [decode_message]
  by_cases null : stringify (parse message) = .null
  · have lost : ¬Carried message := fun carried => stringify_parse_ne_null carried null
    simp [null, lost, Means, decodeText, jsonFrameToProto]
  · have present : message ≠ .null := by
      rintro rfl
      exact null rfl
    rw [Carried, and_iff_right present, ← reread_message_iff lawful, optional_some null]
    cases SerdeText.read 127 (stringify (parse message)) with
    | none => simp [Means, decodeText]
    | some v => simp [Means, decodeText, jsonFrameToProto, SerdeText.document_toVec]

theorem decode_reset (status : StatusResult) (small : status.code < 2 ^ 32) :
    decodeJsonFrame (encodeReset status) = some { status := some ⟨status.code, status.details⟩ } := by
  have code : stringify (.num (ofNat status.code)) = .num status.code.repr := by
    have exact : status.code ≤ 2 ^ 53 := by omega
    simp [stringify, Tree.bind, JsNumber.numeral_ofNat exact]
  have details : stringify (jsString status.details) = strDocument status.details := rfl
  rw [encodeReset, stringify_jsObject, decodeJsonFrame_object (by simp)]
  simp [List.lookup_cons, stringify_jsObject, code, details, optional_some (object_ne_null _),
    readJsonStatus_object small]

theorem means_iff (methodUrl : String) {op : Operation}
    (lawful : ∀ m, op = .send m → Rewrites 127 (stringify (parse m))) :
    Means op (decodeText (decodeJsonFrame (textOf op)) methodUrl true).1 ↔ ∀ m, op = .send m → Carried m := by
  cases op with
  | send message => simpa [textOf] using means_send_iff methodUrl (lawful message rfl)
  | halfClose =>
    have decoded : decodeJsonFrame encodeHalfClose = some { halfClose := some true } := by
      rw [encodeHalfClose, stringify_jsObject, decodeJsonFrame_object (by simp)]
      rfl
    simp [Means, textOf, decoded, decodeText, jsonFrameToProto]
  | cancel =>
    have decoded := decode_reset ⟨1, "cancelled"⟩ (by decide)
    simp [Means, textOf, decoded, decodeText, jsonFrameToProto]

/-! ### Connections -/

omit [JsNumber] [SerdeText] in
theorem mem_untilCancel {op : Operation} {ops : List Operation} (member : op ∈ untilCancel ops) : op ∈ ops := by
  induction ops with
  | nil => exact member
  | cons first ops ih =>
    cases first with
    | cancel => exact List.mem_of_mem_take (i := 1) member
    | send | halfClose =>
      rcases List.mem_cons.mp member with rfl | member
      · exact List.mem_cons_self
      · exact List.mem_cons_of_mem _ (ih member)

omit [JsNumber] in
theorem opens_opened {methodUrl : String} {options : CallOptions} {t : Document} {opened : Bool}
    (opens : Opens methodUrl options (decodeText (decodeJsonFrame t) methodUrl opened).1) :
    (decodeText (decodeJsonFrame t) methodUrl opened).2 = true := by
  obtain ⟨_, decoded, _⟩ := opens
  unfold decodeText at decoded ⊢
  split at decoded
  · cases decoded
  · split <;> rfl

/-- The server makes of the texts what the call is about exactly if the open frame holds all of the
metadata and a timeout of 32 bits, and no message is `null` or changes on its way through the two readers. -/
theorem json_to_server_iff (methodUrl : String) (options : CallOptions) (ops : List Operation)
    (single : ∀ e ∈ options.metadata.map, ∃ s, e.2 = [.text s])
    (lawful : ∀ m, .send m ∈ ops → Rewrites 127 (stringify (parse m))) :
    SameMeaning methodUrl options ops (decodeTexts methodUrl false (emitted options ops)) ↔
      "__proto__" ∉ options.metadata.map.map Prod.fst ∧ (∀ t ∈ options.timeoutMillis, Timeout.Fits t) ∧
        ∀ m, .send m ∈ untilCancel ops → Carried m := by
  have later : List.Forall₂ Means (untilCancel ops) (decodeTexts methodUrl true ((untilCancel ops).map textOf)) ↔
      ∀ m, .send m ∈ untilCancel ops → Carried m := by
    rw [decodeTexts_opened, List.forall₂_map_right_iff, List.forall₂_map_right_iff, List.forall₂_same]
    have each : ∀ op ∈ untilCancel ops, (Means op (decodeText (decodeJsonFrame (textOf op)) methodUrl true).1 ↔
        ∀ m, op = .send m → Carried m) := fun op member =>
      means_iff methodUrl fun m same => lawful m (same ▸ mem_untilCancel member)
    exact ⟨fun all m member => (each _ member).mp (all _ member) m rfl,
      fun all op member => (each op member).mpr fun m same => all m (same ▸ member)⟩
  rw [← and_assoc, ← opens_iff methodUrl single, ← later, emitted_eq, decodeTexts]
  constructor
  · rintro ⟨first, rest, frames, opens, means⟩
    obtain ⟨rfl, rfl⟩ := List.cons.inj frames
    rw [opens_opened opens] at means
    exact ⟨opens, means⟩
  · rintro ⟨opens, means⟩
    rw [opens_opened opens]
    exact ⟨_, _, rfl, opens, means⟩

end

/-! ### Two calls -/

section

attribute [local instance] wholeNumbers sampleTexts

def numberedCall : CallOptions where
  metadata := ⟨[("x-id", [.text "7"])], by decide, by decide⟩
  timeoutMillis := some (.finite (3 / 2) (by norm_num))

/-- A call of one and a half milliseconds that sends `7` and `true`, and is cancelled. -/
theorem numbered_call_same :
    SameMeaning "/flag.Flags/Get" numberedCall [.send (.num "7"), .send (.bool true), .halfClose, .cancel]
      (decodeTexts "/flag.Flags/Get" false
        (emitted numberedCall [.send (.num "7"), .send (.bool true), .halfClose, .cancel])) := by
  refine (json_to_server_iff _ numberedCall _ ?_ ?_).mpr ⟨by decide, ?_, ?_⟩
  · intro e member
    obtain rfl := List.mem_singleton.mp member
    exact ⟨"7", rfl⟩
  · intro m member
    obtain rfl | rfl : m = .num "7" ∨ m = .bool true := by simpa using member
    · have seven : stringify (parse (.num "7")) = .num "7" := by decide +kernel
      rw [seven]
      unfold Rewrites
      decide +kernel
    · rfl
  · rintro _ ⟨⟩
    have rounded : ⌈(3 / 2 : ℚ)⌉₊ ≤ 2 := Nat.ceil_le.mpr (by norm_num)
    exact Nat.lt_of_le_of_lt rounded (by decide)
  · intro m member
    obtain rfl | rfl : m = .num "7" ∨ m = .bool true := by simpa [untilCancel] using member
    · exact ⟨nofun, trivial, "7", "7", by decide +kernel, by decide +kernel, rfl⟩
    · exact ⟨nofun, trivial, trivial⟩

def plainCall : CallOptions where
  metadata := Client.Metadata.empty
  timeoutMillis := none

/-- The message `null` ends the request side. -/
theorem null_message_closes :
    decodeTexts "/flag.Flags/Get" false (emitted plainCall [.send .null]) =
      [some ⟨some (.subscribe ⟨"/flag.Flags/Get", [], 0, [], true⟩)⟩, some ⟨some .halfClose⟩] ∧
    ¬SameMeaning "/flag.Flags/Get" plainCall [.send .null]
      (decodeTexts "/flag.Flags/Get" false (emitted plainCall [.send .null])) := by
  have decoded : decodeTexts "/flag.Flags/Get" false (emitted plainCall [.send .null]) =
      [some ⟨some (.subscribe ⟨"/flag.Flags/Get", [], 0, [], true⟩)⟩, some ⟨some .halfClose⟩] := rfl
  refine ⟨decoded, ?_⟩
  rw [decoded]
  rintro ⟨_, _, frames, _, means⟩
  obtain ⟨rfl, rfl⟩ := List.cons.inj frames
  obtain ⟨⟨_, _, message, _⟩, _⟩ := List.forall₂_cons.mp means
  cases message

end

end JsonToServer
end GrpcWebnext
