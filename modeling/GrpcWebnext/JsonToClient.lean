import GrpcWebnext.BinaryMetadata
import GrpcWebnext.Client.WsTransport

/-!
# JSON frames to the client

A server frame calls the same handler in either codec. Only a message may differ: the binary frame has
its payload as it is, the JSON frame what serde_json reads of it, and `null` where it reads nothing.
-/

namespace GrpcWebnext
namespace JsonToClient
open Json Client Ws

section

variable [JsString] [JsNumber] [SerdeText]
open JsNumber (toNumber)
open SerdeText (document)
open SerdeJson (Value)

def onText : TungMessage Value → Option (Event Document)
  | .text frame => onJsonFrame (encodeJsonFrame frame)
  | _ => none

/-- The handlers are given the same values; a payload is the value that JavaScript reads from it. -/
def SameEvent : Option (Event Bytes) → Option (Event Document) → Prop
  | some (.headers md), some (.headers md') => ∀ key, md.get key = md'.get key
  | some (.message payload), some (.message text) => ∃ t, document payload = some t ∧ parse text = parse t
  | some (.status code details md), some (.status code' details' md') =>
    code = code' ∧ details = details' ∧ ∀ key, md.get key = md'.get key
  | _, _ => False

/-- ASCII metadata with one value for each key. -/
structure Single (items : List Metadatum) : Prop where
  ascii : ∀ m ∈ items, ∃ s, m.value = some (.asciiValue s)
  distinct : (items.map fun m => Metadata.normalizeKey m.key).Nodup

/-- A frame to the client, with JSON for a message. -/
def FromServer (frame : Frame) : Prop :=
  match frame.kind with
  | some (.header h) => Single h.headers
  | some (.message m) => ∃ t, document m.payload = some t
  | some (.trailer t) => t.statusCode < 2 ^ 32 ∧ Single t.trailers
  | some (.reset r) => r.statusCode < 2 ^ 32
  | _ => False

/-- serde_json reads the number, and writes it as the same number to JavaScript. -/
def KeptNumeral (n : String) : Prop :=
  ∃ n₁, SerdeText.numeral n = some n₁ ∧ toNumber n₁ = toNumber n ∧ (JsNumber.numeral (toNumber n)).isSome

/-- A payload that serde_json can read, and in which each number that counts is kept. -/
def Kept (t : Document) : Prop :=
  t.Within 128 ∧ t.Numbers (fun n => (SerdeText.numeral n).isSome) ∧ t.canonical.Numbers KeptNumeral

/-! ### Metadata -/

def entries (items : List Metadatum) : List (String × String) :=
  items.map fun m => (m.key, match m.value with
    | some (.asciiValue s) => s
    | _ => "")

omit [JsNumber] [SerdeText] in
theorem entries_distinct {items : List Metadatum} (single : Single items) :
    ((entries items).map fun e => Metadata.normalizeKey e.1).Nodup := by
  rw [entries, List.map_map]
  exact single.distinct

omit [JsNumber] [SerdeText] in
theorem metaVecToJson_perm {items : List Metadatum} (single : Single items) :
    ((metaVecToJson items).getD []).Perm (entries items) := by
  have folded : ∀ map : JsonMeta, items.foldl (fun (map : JsonMeta) m => match m.value with
      | some (.asciiValue s) => map.insert m.key s
      | _ => map) map = (entries items).foldl (fun map e => JsonMeta.insert e.1 e.2 map) map := by
    have ascii := single.ascii
    clear single
    induction items with
    | nil => intro map; rfl
    | cons m items ih =>
      intro map
      obtain ⟨⟨s, text⟩, later⟩ := List.forall_mem_cons.mp ascii
      simp only [entries, List.map_cons, List.foldl_cons, text]
      exact ih later _
  have keys : ((entries items).map Prod.fst).Nodup := by
    apply List.Nodup.of_map Metadata.normalizeKey
    rw [List.map_map]
    exact entries_distinct single
  have perm : ((entries items).foldl (fun map e => JsonMeta.insert e.1 e.2 map) []).Perm (entries items) :=
    foldl_insert_perm [] keys
  have written : metaVecToJson items =
      let map := (entries items).foldl (fun map e => JsonMeta.insert e.1 e.2 map) []
      if map.isEmpty then none else some map :=
    congrArg (fun map : JsonMeta => if map.isEmpty then none else some map) (folded [])
  rw [written]
  dsimp only
  split
  · rename_i none
    rwa [List.isEmpty_iff.mp none] at perm
  · exact perm

omit [JsNumber] [SerdeText] in
theorem filter_perm {l l' : List (String × String)} (perm : l.Perm l')
    (distinct : (l.map fun e => Metadata.normalizeKey e.1).Nodup) (key : String) :
    (l.filter fun e => Metadata.normalizeKey e.1 = key) = l'.filter fun e => Metadata.normalizeKey e.1 = key := by
  have kept := perm.filter fun e => Metadata.normalizeKey e.1 = key
  have unique := (List.filter_sublist (p := fun e => decide (Metadata.normalizeKey e.1 = key)) (l := l)).map
    (fun e => Metadata.normalizeKey e.1) |>.nodup distinct
  match held : l.filter fun e => Metadata.normalizeKey e.1 = key with
  | [] =>
    rw [held] at kept
    exact held.trans kept.symm.eq_nil.symm
  | [e] =>
    rw [held] at kept
    exact held.trans (List.perm_singleton.mp kept.symm).symm
  | e :: e' :: rest =>
    have same : ∀ other ∈ e :: e' :: rest, Metadata.normalizeKey other.1 = key := by
      intro other member
      rw [← held] at member
      exact of_decide_eq_true (List.mem_filter.mp member).2
    rw [held] at unique
    simp [same e, same e'] at unique

omit [JsNumber] [SerdeText] in
theorem get_fromMetadatumList {items : List Metadatum} (ascii : ∀ m ∈ items, ∃ s, m.value = some (.asciiValue s))
    (key : String) :
    (Metadata.fromMetadatumList items).get key =
      ((entries items).filter fun e => Metadata.normalizeKey e.1 = Metadata.normalizeKey key).map fun e => .text e.2 := by
  rw [Metadata.get_fromMetadatumList]
  induction items with
  | nil => rfl
  | cons m items ih =>
    obtain ⟨⟨s, text⟩, later⟩ := List.forall_mem_cons.mp ascii
    have rest := ih later
    by_cases same : Metadata.normalizeKey m.key = Metadata.normalizeKey key
    · simpa [entries, text, same, Metadata.ofMetadatumValue] using rest
    · simpa [entries, text, same] using rest

omit [JsNumber] [SerdeText] in
theorem same_metadata {items : List Metadatum} (single : Single items) {record : List (String × String)}
    (perm : record.Perm (entries items)) (key : String) :
    (Metadata.fromMetadatumList items).get key = (jsonToMeta record).get key := by
  have distinct := (perm.map fun e => Metadata.normalizeKey e.1).nodup_iff.mpr (entries_distinct single)
  rw [get_fromMetadatumList single.ascii, get_jsonToMeta distinct, filter_perm perm distinct]

/-! ### Frames -/

omit [SerdeText] in
theorem asRecord_entries {items : List Metadatum} (single : Single items) {md : JsonMeta} (perm : md.Perm (entries items)) :
    ∃ record, asRecord (some (parse (writeMeta md))) = some record ∧ record.Perm (entries items) := by
  have distinct : (md.map Prod.fst).Nodup := by
    apply List.Nodup.of_map Metadata.normalizeKey
    rw [List.map_map]
    exact (perm.map fun e => Metadata.normalizeKey e.1).nodup_iff.mpr (entries_distinct single)
  obtain ⟨record, read, same⟩ := asRecord_writeMeta distinct
  exact ⟨record, read, same.trans perm⟩

omit [SerdeText] in
theorem asRecord_header {items : List Metadatum} (single : Single items) :
    ∃ record, asRecord (some (parse (writeMeta ((metaVecToJson items).getD [])))) = some record ∧
      record.Perm (entries items) :=
  asRecord_entries single (metaVecToJson_perm single)

omit [SerdeText] in
theorem asRecord_trailers {items : List Metadatum} (single : Single items) :
    ∃ record, asRecord ((metaVecToJson items).map fun md => parse (writeMeta md)) = some record ∧
      record.Perm (entries items) := by
  have perm := metaVecToJson_perm single
  cases held : metaVecToJson items with
  | none =>
    rw [held] at perm
    exact ⟨[], rfl, perm⟩
  | some md =>
    rw [held] at perm
    exact asRecord_entries single perm

omit [JsString] [SerdeText] in
theorem status_code {code : Nat} (small : code < 2 ^ 32) : JsNumber.ofNat code = toNumber code.repr := by
  have exact : code ≤ 2 ^ 53 := by omega
  exact (JsNumber.toNumber_numeral (JsNumber.numeral_ofNat exact)).symm

omit [JsString] [SerdeText] in
theorem status_fields (status : JsonStatus) :
    property (parse (writeStatus status)) "code" = some (.num (toNumber status.code.repr)) ∧
      detailsOf (parse (writeStatus status)) = some status.message := by
  unfold writeStatus detailsOf
  by_cases empty : status.message.isEmpty
  · have none : status.message = "" := String.isEmpty_iff.mp empty
    rw [property_parse_object (by simp [empty]), property_parse_object (by simp [empty])]
    simp [List.lookup_cons, none, parse, Tree.canonical, Tree.bind]
  · rw [property_parse_object (by simp [empty]), property_parse_object (by simp [empty])]
    simp [List.lookup_cons, empty, strDocument, parse, Tree.canonical, Tree.bind]

omit [JsString] in
theorem frame_fields (metadata : Option JsonMeta) (message : Option Value) (status : Option JsonStatus) :
    property (parse (encodeJsonFrame { metadata, message, status })) "status" =
        status.map (fun status => parse (writeStatus status)) ∧
      property (parse (encodeJsonFrame { metadata, message, status })) "message" =
        message.map (fun v => parse (SerdeText.write v)) ∧
      property (parse (encodeJsonFrame { metadata, message, status })) "metadata" =
        metadata.map fun md => parse (writeMeta md) := by
  unfold encodeJsonFrame
  refine ⟨?_, ?_, ?_⟩
  all_goals
    rw [property_parse_object]
    · cases metadata <;> cases message <;> cases status <;> rfl
    · cases metadata <;> cases message <;> cases status <;> simp

theorem onJsonFrame_status (status : JsonStatus) (metadata : Option JsonMeta) :
    onJsonFrame (encodeJsonFrame { status := some status, metadata }) =
      (asRecord (metadata.map fun md => parse (writeMeta md))).map fun record =>
        .status (toNumber status.code.repr) status.message (jsonToMeta record) := by
  obtain ⟨held, _, record⟩ := frame_fields metadata none (some status)
  obtain ⟨code, details⟩ := status_fields status
  have taken : (some (parse (writeStatus status))).filter truthy = some (parse (writeStatus status)) := rfl
  unfold onJsonFrame
  simp only [held, record, Option.map_some, taken, code, details]
  cases asRecord (metadata.map fun md => parse (writeMeta md)) <;> rfl

theorem onJsonFrame_message (v : Value) :
    onJsonFrame (encodeJsonFrame { message := some v }) = some (.message (stringify (parse (SerdeText.write v)))) := by
  obtain ⟨absent, held, _⟩ := frame_fields none (some v) none
  unfold onJsonFrame
  simp [absent, held]

theorem onJsonFrame_headers (md : JsonMeta) :
    onJsonFrame (encodeJsonFrame ({ metadata := some md } : JsonFrame Value)) =
      (asRecord (some (parse (writeMeta md)))).map fun record => .headers (jsonToMeta record) := by
  obtain ⟨absent, none, held⟩ := frame_fields (some md) none none
  have taken : (some (parse (writeMeta md))).filter truthy = some (parse (writeMeta md)) := rfl
  unfold onJsonFrame
  simp [absent, none, held, taken]

/-! ### Messages -/

def deliver (n : String) : JsValue := (respell n).bind fun n => .num (toNumber n)

omit [JsString] [SerdeText] in
theorem parse_stringify_parse (t : Document) : parse (stringify (parse t)) = t.canonical.bind deliver := by
  rw [stringify_parse, parse, Tree.canonical_bind respell_scalar, Tree.canonical_canonical, Tree.bind_bind]
  rfl

omit [JsString] in
theorem deliver_kept_iff (n : String) :
    ((SerdeText.numeral n).map Tree.num).map (Tree.bind deliver) = some (.num (toNumber n)) ↔ KeptNumeral n := by
  unfold KeptNumeral
  cases SerdeText.numeral n with
  | none => simp
  | some n₁ =>
    have one : ((some n₁).map Tree.num).map (Tree.bind deliver) = some (deliver n₁) := rfl
    simp only [one, Option.some.injEq, exists_eq_left']
    unfold deliver respell
    cases spelled : JsNumber.numeral (toNumber n₁) with
    | none =>
      refine iff_of_false nofun ?_
      rintro ⟨same, finite⟩
      rw [← same, spelled] at finite
      cases finite
    | some n₂ =>
      have back : toNumber n₂ = toNumber n₁ := JsNumber.toNumber_numeral spelled
      simp only [Tree.bind, back, Tree.num.injEq]
      refine ⟨fun same => ⟨same, ?_⟩, And.left⟩
      rw [← same, spelled]
      rfl

omit [JsString] in
/-- What serde_json makes of a payload is the value of the payload to a reader of numbers. -/
theorem reread_iff (g : String → JsValue) {payload : Bytes} {t : Document} (held : document payload = some t)
    (lawful : Rewrites 128 t) :
    (SerdeText.write ((SerdeJson.fromSlice payload).getD SerdeJson.null)).canonical.bind g = parse t ↔
      t.Within 128 ∧ t.Numbers (fun n => (SerdeText.numeral n).isSome) ∧
        t.canonical.Numbers fun n => ((SerdeText.numeral n).map Tree.num).map (Tree.bind g) = some (.num (toNumber n)) := by
  have scalar : ∀ n, (((SerdeText.numeral n).map Tree.num).getD Tree.null).Scalar := by
    intro n
    cases SerdeText.numeral n <;> trivial
  have reread := Tree.reread_iff (g := g) (h := fun n => .num (toNumber n)) scalar 128 t
  simp only [Option.isSome_map] at reread
  rw [← reread, SerdeText.fromSlice_eq, held, Option.bind_some]
  unfold Rewrites at lawful
  cases read : SerdeText.read 128 t with
  | none =>
    rw [read] at lawful
    have unread := Option.map_eq_none_iff.mp lawful.symm
    rw [unread, Option.getD_none, SerdeText.write_null]
    refine iff_of_false ?_ nofun
    -- nothing but `null` parses as `null`, and that can be read
    cases t with
    | null => cases unread
    | _ => nofun
  | some v =>
    rw [read] at lawful
    obtain ⟨t', rewritten, written⟩ := Option.map_eq_some_iff.mp lawful.symm
    rw [rewritten, Option.getD_some, ← written, Tree.canonical_canonical, Option.map_some, Option.some.injEq]
    exact Iff.rfl

omit [JsString] in
/-- What the client is given is the value of the payload exactly if serde_json keeps it. -/
theorem delivered_iff {payload : Bytes} {t : Document} (held : document payload = some t) (lawful : Rewrites 128 t) :
    parse (stringify (parse (SerdeText.write ((SerdeJson.fromSlice payload).getD SerdeJson.null)))) = parse t ↔ Kept t := by
  have numerals : (fun n => ((SerdeText.numeral n).map Tree.num).map (Tree.bind deliver) = some (.num (toNumber n))) =
      KeptNumeral := funext fun n => propext (deliver_kept_iff n)
  rw [parse_stringify_parse, reread_iff deliver held lawful, numerals, Kept]

theorem onText_toTung {frame : Frame} {jf : JsonFrame Value} (json : protoFrameToJson frame = some jf) :
    onText (toTung frame true) = onJsonFrame (encodeJsonFrame jf) := by
  simp only [toTung, json, ↓reduceIte, onText]

theorem onText_message (payload : Bytes) :
    onText (toTung ⟨some (.message ⟨payload⟩)⟩ true) =
      some (.message (stringify (parse (SerdeText.write ((SerdeJson.fromSlice payload).getD SerdeJson.null))))) := by
  rw [onText_toTung rfl, onJsonFrame_message]

/-- Both codecs call the same handler with the same values, but for messages that serde_json cannot read
or changes. -/
theorem json_to_client_iff (frame : Frame) (server : FromServer frame)
    (lawful : ∀ m t, frame.kind = some (.message m) → document m.payload = some t → Rewrites 128 t) :
    SameEvent (onBinaryFrame frame) (onText (toTung frame true)) ↔
      ∀ m t, frame.kind = some (.message m) → document m.payload = some t → Kept t := by
  obtain ⟨kind⟩ := frame
  match kind with
  | some (.message m) =>
    obtain ⟨t, held⟩ := server
    have delivered := delivered_iff held (lawful m t rfl held)
    rw [onText_message]
    constructor
    · rintro ⟨_, again, same⟩ _ _ ⟨⟩ found
      obtain rfl := Option.some.inj (again.symm.trans held)
      obtain rfl := Option.some.inj (found.symm.trans held)
      exact delivered.mp same
    · intro kept
      exact ⟨t, held, delivered.mpr (kept m t rfl held)⟩
  | some (.header h) =>
    obtain ⟨record, read, perm⟩ := asRecord_header server
    have text : onText (toTung ⟨some (.header h)⟩ true) = some (.headers (jsonToMeta record)) := by
      rw [onText_toTung rfl, onJsonFrame_headers, read]
      rfl
    rw [text]
    exact iff_of_true (same_metadata server perm) nofun
  | some (.trailer t) =>
    obtain ⟨small, single⟩ := server
    obtain ⟨record, read, perm⟩ := asRecord_trailers single
    have text : onText (toTung ⟨some (.trailer t)⟩ true) =
        some (.status (toNumber t.statusCode.repr) t.statusMessage (jsonToMeta record)) := by
      rw [onText_toTung rfl, onJsonFrame_status, read]
      rfl
    rw [text]
    exact iff_of_true ⟨status_code small, rfl, same_metadata single perm⟩ nofun
  | some (.reset r) =>
    have text : onText (toTung ⟨some (.reset r)⟩ true) =
        some (.status (toNumber r.statusCode.repr) r.statusMessage (jsonToMeta [])) := by
      rw [onText_toTung rfl, onJsonFrame_status]
      rfl
    rw [text]
    exact iff_of_true ⟨status_code server, rfl, fun _ => rfl⟩ nofun
  | some (.subscribe _) | some .halfClose | none => exact server.elim

end

/-! ### Two messages -/

section

attribute [local instance] BinaryMetadata.asciiLower wholeNumbers sampleTexts

theorem digit_message_same :
    SameEvent (onBinaryFrame ⟨some (.message ⟨[55]⟩)⟩) (onText (toTung ⟨some (.message ⟨[55]⟩)⟩ true)) := by
  have held : SerdeText.document [55] = some (.num "7") := by decide +kernel
  refine (json_to_client_iff ⟨some (.message ⟨[55]⟩)⟩ ⟨_, held⟩ ?_).mpr ?_
  · rintro m t ⟨⟩ found
    obtain rfl := Option.some.inj (found.symm.trans held)
    unfold Rewrites
    decide +kernel
  · rintro m t ⟨⟩ found
    obtain rfl := Option.some.inj (found.symm.trans held)
    have numeral : SerdeText.numeral "7" = some "7" := by decide +kernel
    refine ⟨trivial, ?_, "7", numeral, rfl, by decide +kernel⟩
    exact Option.isSome_of_eq_some numeral

/-- 128 arrays in each other arrive as `null`. -/
theorem deep_message_nulled :
    onText (toTung ⟨some (.message ⟨Sample.brackets 127⟩)⟩ true) = some (.message .null) ∧
      ¬SameEvent (onBinaryFrame ⟨some (.message ⟨Sample.brackets 127⟩)⟩)
        (onText (toTung ⟨some (.message ⟨Sample.brackets 127⟩)⟩ true)) := by
  have held : SerdeText.document (Sample.brackets 127) = some (Sample.nest 127) := by decide +kernel
  have unread : SerdeJson.fromSlice (Sample.brackets 127) = none :=
    calc SerdeJson.fromSlice (Sample.brackets 127)
      _ = (SerdeText.document (Sample.brackets 127)).bind (SerdeText.read 128) := SerdeText.fromSlice_eq _
      _ = SerdeText.read 128 (Sample.nest 127) := by rw [held, Option.bind_some]
      _ = none := Sample.read_deep (Nat.le_refl 128)
  have text : onText (toTung ⟨some (.message ⟨Sample.brackets 127⟩)⟩ true) = some (.message .null) := by
    rw [onText_message, unread]
    rfl
  refine ⟨text, ?_⟩
  rw [text]
  rintro ⟨t, found, same⟩
  obtain rfl := Option.some.inj (found.symm.trans held)
  cases same

end

end JsonToClient
end GrpcWebnext
