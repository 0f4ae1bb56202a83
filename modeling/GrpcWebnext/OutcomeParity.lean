import GrpcWebnext.Client.FetchFrame
import GrpcWebnext.Client.ReceivedHeaders
import GrpcWebnext.StreamedResponse
import GrpcWebnext.Ws.RunStream

/-!
# One outcome on two transports

A unary binary call that completes, as the TypeScript client decodes it from the HTTP response of
`unary_proto` and from the frames of `run_stream`.
-/

namespace GrpcWebnext
namespace OutcomeParity
open Metadata
open Client.Responses (Solid received receivedText joinedText readEntry fromHeaders)

/-- What a client ends up with. -/
structure Outcome where
  initial : Client.Metadata
  messages : List Bytes
  code : Nat
  message : String
  trailing : Client.Metadata

/-- An empty message block beside an error stands for no message. -/
def blockMessages (block : Bytes) (code : Nat) : List Bytes :=
  if block = [] ∧ code ≠ 0 then [] else [block]

def headerEntries (sent : List Frame) : List Metadatum :=
  sent.flatMap fun frame => match frame.kind with
    | some (.header h) => h.headers
    | _ => []

def messagePayloads (sent : List Frame) : List Bytes :=
  sent.filterMap fun frame => match frame.kind with
    | some (.message m) => some m.payload
    | _ => none

def trailer? (sent : List Frame) : Option Trailer :=
  sent.findSome? fun frame => match frame.kind with
    | some (.trailer t) => some t
    | _ => none

section

variable [Client.JsString]

/-- By key, and as to initial metadata under some keys only. -/
structure Outcome.Same (keys : String → Prop) (a b : Outcome) : Prop where
  initial : ∀ key, keys key → a.initial.get key = b.initial.get key
  messages : a.messages = b.messages
  code : a.code = b.code
  message : a.message = b.message
  trailing : ∀ key, a.trailing.get key = b.trailing.get key

/-! ### The decoders -/

/-- An HTTP response: its headers as metadata, its body as a message and a trailer block. -/
def decodeFetch [Prost] (response : Fetch.UnaryResponse) : Option Outcome :=
  let body := (response.chunks.map (·.2.bytes)).flatten
  match response.ending with
  | .complete => do
    let (block, trailer) ←
      (Client.decodeFetchResponseBody Prost.decodeTrailer (.ofBytes body) body.length).toOption
    let initial ← fromHeaders (received response.headers)
    pure ⟨initial, blockMessages block.bytes trailer.statusCode, trailer.statusCode, trailer.statusMessage,
      .fromMetadatumList trailer.trailers⟩
  | _ => none

def decodeFrames (sent : List Frame) : Option Outcome :=
  (trailer? sent).map fun trailer =>
    ⟨.fromMetadatumList (headerEntries sent), messagePayloads sent, trailer.statusCode, trailer.statusMessage,
      .fromMetadatumList trailer.trailers⟩

end

/-! ### Completed calls -/

/-- A unary call that completes in time, with no message or with one. -/
structure Completed (deadline : Option Nat) where
  ready : Nat
  resp : Response
  ontime : inTime deadline 0 ready = true
  finish : Nat
  ended : (arrivals deadline ready resp.body).halt = .eof finish
  message : Option Bytes
  small : ∀ m ∈ message, m.length < 2 ^ 32
  framed : Arrivals.bytes (arrivals deadline ready resp.body).frames = (message.map GrpcFraming.frame).getD []

namespace Completed

variable {deadline : Option Nat} (c : Completed deadline)

def call : Call := some (c.ready, .ok c.resp)

def frames : List (Nat × BodyFrame) := (arrivals deadline c.ready c.resp.body).frames

def trailers : HeaderMap := Arrivals.lastTrailers [] c.frames

def code : Nat := (readStatus c.trailers c.resp.headers).1

def statusMessage : String := (readStatus c.trailers c.resp.headers).2

def trailersOnly : Bool := c.resp.headers.containsKey .grpcStatus

/-- The metadata that `unary_proto` puts in the trailer block. -/
def trailing : HeaderMap := if c.trailers.isEmpty && c.trailersOnly then c.resp.headers else c.trailers

def trailer : Trailer := ⟨c.code, c.statusMessage, metadataToVec c.trailing⟩

/-- The second deadline of `unary_proto` does not fire either. -/
theorem seen_unary : arrivals (deadline.map (c.ready + ·)) c.ready c.resp.body =
    arrivals deadline c.ready c.resp.body := by
  cases deadline with
  | none => rfl
  | some d =>
    have early : c.ready ≤ d := by
      have := c.ontime
      simp only [inTime, Bool.or_eq_true, decide_eq_true_eq] at this
      omega
    have ended := c.ended
    rw [arrivals_cut early, Arrivals.cut_eof_iff] at ended
    obtain ⟨ended, fits⟩ := ended
    rw [arrivals_whole early ended fits]
    exact arrivals_whole (Nat.le_add_right c.ready d) ended (by omega)

theorem deframed : GrpcFraming.deframeAll (Arrivals.bytes c.frames) = c.message.toList := by
  rw [frames, c.framed]
  cases sent : c.message with
  | none => exact GrpcFraming.deframeAll_eq [] ▸ congrArg Prod.fst (LengthPrefix.Format.drain_nil _)
  | some m =>
    have next : GrpcFraming.grpc.next (GrpcFraming.frame m) = some (m, []) := by
      simpa using GrpcFraming.next_frame (c.small m sent) []
    simp [GrpcFraming.deframeAll_eq, LengthPrefix.Format.drain_some next, LengthPrefix.Format.drain_nil]

end Completed

/-! ### One name on both paths -/

/-- One value at most, and one that is the same in a `Headers` object and in a `Header` frame. -/
def Alike (name : HeaderName) (values : List HeaderValue) : Prop :=
  values = [] ∨ ∃ v, values = [v] ∧
    if "-bin".toList.isSuffixOf name.name.toList then v.bytes = [] else ∃ text, v.toStr = some text ∧ Solid text

/-- The entry of a name is read, and as the values of the frame. -/
structure ReadsAs (name : HeaderName) (values : List HeaderValue) : Prop where
  readable : ∀ all ∈ joinedText values, (readEntry (name.name, all)).isSome
  same : ((joinedText values).bind fun all => readEntry (name.name, all)).toList =
    (values.filterMap (entryValue name)).map Client.Metadata.ofMetadatumValue

section

variable {name : HeaderName}

theorem entries_binary (binary : "-bin".toList.isSuffixOf name.name.toList = true) (values : List HeaderValue) :
    (values.filterMap (entryValue name)).map Client.Metadata.ofMetadatumValue = values.map fun v => .bytes v.bytes := by
  have each : entryValue name = fun v => some (.binValue v.bytes) := funext fun v => if_pos binary
  rw [each, List.filterMap_eq_map', List.map_map]
  rfl

theorem entries_text (plain : ¬"-bin".toList.isSuffixOf name.name.toList = true) (values : List HeaderValue) :
    (values.filterMap (entryValue name)).map Client.Metadata.ofMetadatumValue =
      (values.filterMap HeaderValue.toStr).map .text := by
  have each : entryValue name = fun v => v.toStr.map .asciiValue := funext fun v => if_neg plain
  rw [each, List.map_filterMap, List.map_filterMap]
  simp only [Option.map_map]
  rfl

theorem readsAs_binary (binary : "-bin".toList.isSuffixOf name.name.toList = true) (v : HeaderValue) :
    ReadsAs name [v] ↔ v.bytes = [] := by
  have one : joinedText [v] = some (receivedText v) := Client.Responses.joinedText_cons v []
  constructor
  · rintro ⟨-, same⟩
    rw [one, Option.bind_some, Client.Responses.readEntry_binary binary, entries_binary binary] at same
    cases read : Client.Responses.atob (receivedText v) with
    | none => simp [read] at same
    | some bytes =>
      obtain rfl : bytes = v.bytes := by simpa [read] using same
      -- The text is shorter than the value, and its bytes are fewer still.
      have short := (Client.Responses.atob_spec read).1
      have fits := Client.Responses.length_receivedText v
      exact List.eq_nil_of_length_eq_zero (by omega)
  · intro empty
    have read : readEntry (name.name, receivedText v) = some (.bytes v.bytes) := by
      rw [Client.Responses.readEntry_binary binary, Client.Responses.receivedText_empty empty, empty]
      rfl
    refine ⟨fun all held => ?_, ?_⟩
    · rw [one] at held
      rw [← Option.some.inj held, read]
      rfl
    · rw [one, Option.bind_some, read, entries_binary binary]
      rfl

theorem readsAs_text (plain : ¬"-bin".toList.isSuffixOf name.name.toList = true) (v : HeaderValue) :
    ReadsAs name [v] ↔ ∃ text, v.toStr = some text ∧ Solid text := by
  have one : joinedText [v] = some (receivedText v) := Client.Responses.joinedText_cons v []
  constructor
  · rintro ⟨-, same⟩
    rw [one, Option.bind_some, Client.Responses.readEntry_text plain, entries_text plain] at same
    cases reads : v.toStr with
    | none => simp [reads] at same
    | some text =>
      refine ⟨text, rfl, (Client.Responses.receivedText_eq_iff reads).mp ?_⟩
      simpa [reads] using same
  · rintro ⟨text, reads, solid⟩
    refine ⟨fun all _ => ?_, ?_⟩
    · rw [Client.Responses.readEntry_text plain]
      rfl
    · rw [one, Option.bind_some, Client.Responses.readEntry_text plain, entries_text plain,
        (Client.Responses.receivedText_eq_iff reads).mpr solid, List.filterMap_cons, reads]
      rfl

theorem not_readsAs (v w : HeaderValue) (rest : List HeaderValue) : ¬ReadsAs name (v :: w :: rest) := by
  rintro ⟨readable, same⟩
  have joins := Client.Responses.joinedText_cons v (w :: rest)
  obtain ⟨all, made⟩ := Client.Responses.joined_some ((w :: rest).map receivedText) (receivedText v)
  obtain ⟨first, later⟩ := Client.Responses.subset_joined made
  have inside : ∀ u ∈ v :: w :: rest, (receivedText u).toList ⊆ all.toList :=
    List.forall_mem_cons.mpr ⟨first, fun u member => (later _ (List.mem_map_of_mem member)).1⟩
  have comma : ',' ∈ all.toList := (later _ (List.mem_map_of_mem List.mem_cons_self)).2
  rw [made] at joins
  rw [joins, Option.bind_some] at same
  by_cases binary : "-bin".toList.isSuffixOf name.name.toList = true
  · replace readable := readable all joins
    rw [Client.Responses.readEntry_binary binary, Client.Responses.atob_comma comma] at readable
    cases readable
  · -- Just one of the values has a text, and that is the joined one.
    rw [Client.Responses.readEntry_text binary, entries_text binary, Option.toList_some] at same
    obtain ⟨s, texts, own⟩ := List.map_eq_singleton_iff.mp same.symm
    obtain rfl := Client.MetadataValue.text.inj own
    have unread : ¬∀ u ∈ v :: w :: rest, u.toStr.isSome := by
      intro each
      have long := List.filterMap_length_eq_length.mpr each
      rw [texts] at long
      simp at long
    push Not at unread
    obtain ⟨u, member, unread⟩ := unread
    obtain ⟨b, held, high⟩ := Client.Responses.toStr_eq_none (Option.not_isSome_iff_eq_none.mp unread)
    obtain ⟨t, _, reads⟩ := List.mem_filterMap.mp (texts ▸ List.mem_singleton_self s)
    have among := inside u member (Client.Responses.mem_receivedText held (by simp; omega))
    have range := (Client.Responses.toStr_ascii reads).2 _ among
    rw [← Char.toNat_inj, Client.Responses.toNat_ofNat_byte] at range
    have tab : '\t'.toNat = 9 := rfl
    omega

end

theorem readsAs_iff (name : HeaderName) (values : List HeaderValue) : ReadsAs name values ↔ Alike name values := by
  match values with
  | [] => exact iff_of_true ⟨nofun, rfl⟩ (.inl rfl)
  | [v] =>
    have one {alike : HeaderValue → Prop} : ([v] = [] ∨ ∃ u, [v] = [u] ∧ alike u) ↔ alike v := by simp
    rw [Alike, one]
    by_cases binary : "-bin".toList.isSuffixOf name.name.toList = true
    · rw [if_pos binary, readsAs_binary binary]
    · rw [if_neg binary, readsAs_text binary]
  | v :: w :: rest => exact iff_of_false (not_readsAs v w rest) (by simp [Alike])

/-! ### Initial metadata -/

/-- What the HTTP response of a call has beside its metadata. -/
def own : HeaderMap := [(.contentType, Fetch.CT_PROTO)]

theorem denied_contentType : isDenied .contentType = true := by decide

theorem ne_contentType {name : HeaderName} (allowed : isDenied name = false) : name ≠ .contentType := by
  rintro rfl
  cases allowed.symm.trans denied_contentType

theorem getAll_own {name : HeaderName} (other : name ≠ .contentType) (h : HeaderMap) :
    (mergeMetadataIntoHeaders h own).getAll name = if isDenied name then [] else h.getAll name := by
  rw [getAll_merge, own, HeaderMap.getAll_cons, if_neg (Ne.symm other), HeaderMap.getAll_nil, List.nil_append]

theorem getAll_contentType (h : HeaderMap) : (mergeMetadataIntoHeaders h own).getAll .contentType = [Fetch.CT_PROTO] := by
  rw [getAll_merge, denied_contentType, if_pos rfl, List.append_nil]
  rfl

section

variable [Client.JsString]

/-- As a `Header` or a `Trailer` frame brings it. -/
def frameMetadata (h : HeaderMap) : Client.Metadata := .fromMetadatumList (metadataToVec h)

theorem get_frameMetadata (h : HeaderMap) {key : String} {name : HeaderName}
    (named : name.name = Client.Metadata.normalizeKey key) :
    (frameMetadata h).get key =
      if isDenied name then [] else ((h.getAll name).filterMap (entryValue name)).map Client.Metadata.ofMetadatumValue := by
  rw [frameMetadata, BinaryMetadata.get_metadataToVec h named, valuesOf_metadataToVec]
  cases isDenied name <;> rfl

theorem get_frameMetadata_unnamed (h : HeaderMap) {key : String}
    (unnamed : ∀ name : HeaderName, name.name ≠ Client.Metadata.normalizeKey key) : (frameMetadata h).get key = [] := by
  rw [frameMetadata, Client.Metadata.get_fromMetadatumList, List.map_eq_nil_iff, List.filterMap_eq_nil_iff]
  intro m member
  obtain ⟨e, _, made⟩ := List.mem_filterMap.mp member
  rw [headerMetadatum_eq] at made
  split at made
  · cases made
  · obtain ⟨value, _, rfl⟩ := Option.map_eq_some_iff.mp made
    show (if Client.Metadata.normalizeKey e.1.name = Client.Metadata.normalizeKey key then some value else none) = none
    rw [BinaryMetadata.normalizeKey_name, if_neg (unnamed e.1)]

/-- The browser's metadata has the content type, which no frame has. -/
theorem content_type_differs (h frame : HeaderMap) {md : Client.Metadata}
    (read : fromHeaders (received (mergeMetadataIntoHeaders h own)) = some md) :
    md.get "content-type" ≠ (frameMetadata frame).get "content-type" := by
  have named : HeaderName.contentType.name = Client.Metadata.normalizeKey "content-type" :=
    (BinaryMetadata.normalizeKey_name .contentType).symm
  rw [Client.Responses.get_fromHeaders_name read named, get_frameMetadata frame named, denied_contentType, if_pos rfl,
    getAll_contentType, Client.Responses.joinedText_cons, List.map_nil, List.foldl_nil, Option.bind_some,
    Client.Responses.readEntry_text (by decide)]
  exact List.cons_ne_nil _ _

theorem readable_iff (h : HeaderMap) :
    (∃ md, fromHeaders (received (mergeMetadataIntoHeaders h own)) = some md) ↔
      ∀ name, isDenied name = false → ∀ all ∈ joinedText (h.getAll name), (readEntry (name.name, all)).isSome := by
  rw [Client.Responses.fromHeaders_received_iff]
  constructor
  · intro readable name allowed
    have entry := readable name
    rwa [getAll_own (ne_contentType allowed), allowed, if_neg Bool.false_ne_true] at entry
  · intro readable name all
    by_cases type_ : name = .contentType
    · subst type_
      intro _
      rw [Client.Responses.readEntry_text (by decide)]
      rfl
    · rw [getAll_own type_]
      cases allowed : isDenied name with
      | true => nofun
      | false => exact readable name allowed all

/-- Under every key but the content type. -/
def Shared (key : String) : Prop := Client.Metadata.normalizeKey key ≠ "content-type"

theorem shared_name {name : HeaderName} (allowed : isDenied name = false) : Shared name.name := by
  intro same
  rw [BinaryMetadata.normalizeKey_name] at same
  obtain ⟨key, wf⟩ := name
  subst same
  exact ne_contentType allowed rfl

theorem initial_iff (h : HeaderMap) :
    (∃ md, fromHeaders (received (mergeMetadataIntoHeaders h own)) = some md ∧
        ∀ key, Shared key → md.get key = (frameMetadata h).get key) ↔
      ∀ name, isDenied name = false → Alike name (h.getAll name) := by
  simp only [← readsAs_iff]
  constructor
  · rintro ⟨md, read, same⟩ name allowed
    refine ⟨(readable_iff h).mp ⟨md, read⟩ name allowed, ?_⟩
    have named := (BinaryMetadata.normalizeKey_name name).symm
    have held := same name.name (shared_name allowed)
    rwa [Client.Responses.get_fromHeaders_name read named, get_frameMetadata h named,
      getAll_own (ne_contentType allowed), allowed, if_neg Bool.false_ne_true, if_neg Bool.false_ne_true] at held
  · intro alike
    obtain ⟨md, read⟩ := (readable_iff h).mpr fun name allowed => (alike name allowed).readable
    refine ⟨md, read, fun key shared => ?_⟩
    by_cases named : ∃ name : HeaderName, name.name = Client.Metadata.normalizeKey key
    · obtain ⟨name, named⟩ := named
      have other : name ≠ .contentType := by
        rintro rfl
        exact shared named.symm
      rw [Client.Responses.get_fromHeaders_name read named, get_frameMetadata h named, getAll_own other]
      cases allowed : isDenied name with
      | true => rfl
      | false => exact (alike name allowed).same
    · have unnamed := not_exists.mp named
      rw [Client.Responses.get_fromHeaders_unnamed read unnamed, get_frameMetadata_unnamed h unnamed]

theorem frameMetadata_nil_iff (h : HeaderMap) :
    (∀ key, Shared key → (frameMetadata h).get key = []) ↔ metadataToVec h = [] := by
  constructor
  · intro none
    apply List.eq_nil_iff_forall_not_mem.mpr
    intro entry member
    obtain ⟨e, inside, made⟩ := List.mem_filterMap.mp member
    rw [headerMetadatum_eq] at made
    cases allowed : isDenied e.1 with
    | true =>
      rw [if_pos allowed] at made
      cases made
    | false =>
      rw [allowed, if_neg Bool.false_ne_true] at made
      obtain ⟨value, read, rfl⟩ := Option.map_eq_some_iff.mp made
      have held := none e.1.name (shared_name allowed)
      rw [get_frameMetadata h (BinaryMetadata.normalizeKey_name e.1).symm, allowed, if_neg Bool.false_ne_true,
        List.map_eq_nil_iff, List.filterMap_eq_nil_iff] at held
      have among : e.2 ∈ h.getAll e.1 := List.mem_filterMap.mpr ⟨e, inside, if_pos rfl⟩
      cases read.symm.trans (held e.2 among)
  · intro none key _
    rw [frameMetadata, none]
    rfl

end

/-! ### The two outcomes -/

section Outcomes

variable {deadline : Option Nat} (c : Completed deadline)

theorem messages_iff : blockMessages (c.message.getD []) c.code = c.message.toList ↔
    (c.message = none → c.code ≠ 0) ∧ (c.message = some [] → c.code = 0) := by
  unfold blockMessages
  by_cases zero : c.code = 0 <;> match c.message with
  | none => simp [zero]
  | some [] => simp [zero]
  | some (b :: m) => simp [zero]

theorem stream_blocks [Prost] :
    StreamedResponse.bodyBytes (Fetch.unaryStream c.resp.headers (.eof c.finish) {} c.frames).1 =
        Framing.encodeResponseBody (c.message.getD []) c.trailer ∧
      (Fetch.unaryStream c.resp.headers (.eof c.finish) {} c.frames).2 = .complete :=
  StreamedResponse.unaryStream_blocks c.resp.headers c.finish c.framed

/-- The headers that `unary_proto` sends on. -/
def passedOn : HeaderMap := if c.trailersOnly then [] else c.resp.headers

theorem merged_passedOn :
    (if c.resp.headers.containsKey .grpcStatus then [(HeaderName.contentType, Fetch.CT_PROTO)]
      else mergeMetadataIntoHeaders c.resp.headers [(HeaderName.contentType, Fetch.CT_PROTO)]) =
      mergeMetadataIntoHeaders (passedOn c) own := by
  unfold passedOn Completed.trailersOnly
  split <;> rfl

variable [Client.JsString]

def fetchOutcome (initial : Client.Metadata) : Outcome where
  initial
  messages := blockMessages (c.message.getD []) c.code
  code := c.code
  message := c.statusMessage
  trailing := frameMetadata c.trailing

def streamOutcome : Outcome where
  initial := frameMetadata c.resp.headers
  messages := c.message.toList
  code := c.code
  message := c.statusMessage
  trailing := frameMetadata c.trailers

theorem decode_runStream [ProstReflect] (path : String) :
    decodeFrames (Ws.runStream none path deadline c.call).sent = some (streamOutcome c) := by
  have messages : ∀ msgs : List Bytes, Ws.messageFrames none path msgs =
      (msgs.map fun m => ⟨some (.message ⟨m⟩)⟩, none) := by
    intro msgs
    induction msgs with
    | nil => rfl
    | cons m rest ih => simp [Ws.messageFrames, Ws.responsePayload, ih]
  rw [Completed.call, Ws.runStream_sent _ _ c.ontime]
  have deframed := c.deframed
  have ended := c.ended
  simp only [Completed.frames] at deframed
  simp only [deframed, messages, ended]
  unfold decodeFrames
  cases held : c.message <;>
    simp [held, trailer?, headerEntries, messagePayloads, Ws.headerFrame, Ws.endFrames, Ws.trailerFrame, streamOutcome,
      frameMetadata, Completed.code, Completed.statusMessage, Completed.trailers, Completed.frames]

theorem trailing_same (bare : c.trailersOnly = true → metadataToVec c.resp.headers = []) :
    frameMetadata c.trailing = frameMetadata c.trailers := by
  unfold Completed.trailing
  split
  · rename_i both
    simp only [Bool.and_eq_true, List.isEmpty_iff] at both
    rw [both.1, frameMetadata, bare both.2]
    rfl
  · rfl

theorem passedOn_iff :
    (∃ md, fromHeaders (received (mergeMetadataIntoHeaders (passedOn c) own)) = some md ∧
        ∀ key, Shared key → md.get key = (frameMetadata c.resp.headers).get key) ↔
      (c.trailersOnly = true → metadataToVec c.resp.headers = []) ∧
      (c.trailersOnly = false → ∀ name, isDenied name = false → Alike name (c.resp.headers.getAll name)) := by
  unfold passedOn
  cases c.trailersOnly with
  | false => simpa using initial_iff c.resp.headers
  | true =>
    -- Nothing is passed on, and read as nothing.
    obtain ⟨md, read, empty⟩ := (initial_iff []).mpr fun _ _ => .inl rfl
    have none (key : String) (shared : Shared key) : md.get key = [] := empty key shared
    rw [if_pos rfl]
    simp only [forall_const, Bool.true_eq_false, false_imp_iff, and_true, ← frameMetadata_nil_iff, read, Option.some.injEq,
      exists_eq_left']
    exact forall₂_congr fun key shared => by rw [none key shared, eq_comm]

theorem same_iff :
    (∃ md, fromHeaders (received (mergeMetadataIntoHeaders (passedOn c) own)) = some md ∧
        (fetchOutcome c md).Same Shared (streamOutcome c)) ↔
      (c.trailersOnly = true → metadataToVec c.resp.headers = []) ∧
      (c.trailersOnly = false → ∀ name, isDenied name = false → Alike name (c.resp.headers.getAll name)) ∧
      (c.message = none → c.code ≠ 0) ∧ (c.message = some [] → c.code = 0) := by
  rw [← messages_iff, ← and_assoc, ← passedOn_iff]
  constructor
  · rintro ⟨md, read, same⟩
    exact ⟨⟨md, read, same.initial⟩, same.messages⟩
  · rintro ⟨⟨md, read, initial⟩, messages⟩
    have bare := ((passedOn_iff c).mp ⟨md, read, initial⟩).1
    exact ⟨md, read, initial, messages, rfl, rfl, fun key => congrArg (·.get key) (trailing_same c bare)⟩

variable [Prost]

theorem decode_unaryProto
    (roundTrip : Prost.decodeTrailer (Prost.encodeTrailer c.trailer) = some c.trailer)
    (short : (Prost.encodeTrailer c.trailer).length < 2 ^ 32) :
    ∃ response, Fetch.unaryProtoResponse deadline c.call = some response ∧
      decodeFetch response =
        (fromHeaders (received (mergeMetadataIntoHeaders (passedOn c) own))).map (fetchOutcome c) := by
  obtain ⟨body, complete⟩ := stream_blocks c
  unfold StreamedResponse.bodyBytes at body
  have small : (c.message.getD []).length < 2 ^ 32 := by
    cases sent : c.message with
    | none => simp
    | some m => exact c.small m sent
  have holds : Client.Holds (Framing.encodeResponseBody (c.message.getD []) c.trailer)
      (Framing.encodeResponseBody (c.message.getD []) c.trailer).length (c.message.getD []) (Prost.encodeTrailer c.trailer) :=
    ⟨Nat.le_refl _, small, short, List.prefix_rfl⟩
  rw [← Client.Uint8Array.bytes_ofBytes (Framing.encodeResponseBody _ _)] at holds
  obtain ⟨view, read, decoded⟩ := (Client.decodeFetchResponseBody_eq_ok_iff Prost.decodeTrailer).mpr ⟨_, holds, roundTrip⟩
  rw [Client.Uint8Array.bytes_ofBytes] at decoded
  simp only [Completed.call, Fetch.unaryProtoResponse, c.ontime, ↓reduceIte, c.seen_unary]
  refine ⟨_, rfl, ?_⟩
  have seen : (arrivals deadline c.ready c.resp.body).frames = c.frames := rfl
  rw [c.ended, seen]
  unfold decodeFetch
  simp only [body, complete]
  rw [decoded, merged_passedOn c]
  show (fromHeaders (received (mergeMetadataIntoHeaders (passedOn c) own))).bind _ = _
  cases fromHeaders (received (mergeMetadataIntoHeaders (passedOn c) own)) with
  | none => rfl
  | some md => simp only [Option.bind_some, Option.map_some, read, fetchOutcome, frameMetadata, Completed.trailer]; rfl

/-- As far as `keys` of the initial metadata count. -/
def SameOutcome [ProstReflect] (path : String) (keys : String → Prop) : Prop :=
  ∃ response fetched streamed, Fetch.unaryProtoResponse deadline c.call = some response ∧
    decodeFetch response = some fetched ∧
    decodeFrames (Ws.runStream none path deadline c.call).sent = some streamed ∧ fetched.Same keys streamed

theorem sameOutcome_iff [ProstReflect]
    (roundTrip : Prost.decodeTrailer (Prost.encodeTrailer c.trailer) = some c.trailer)
    (short : (Prost.encodeTrailer c.trailer).length < 2 ^ 32) (path : String) (keys : String → Prop) :
    SameOutcome c path keys ↔
      ∃ md, fromHeaders (received (mergeMetadataIntoHeaders (passedOn c) own)) = some md ∧
        (fetchOutcome c md).Same keys (streamOutcome c) := by
  obtain ⟨response, sent, decoded⟩ := decode_unaryProto c roundTrip short
  unfold SameOutcome
  simp only [sent, decode_runStream, decoded, Option.some.injEq, exists_and_left, exists_eq_left', Option.map_eq_some_iff]
  constructor
  · rintro ⟨_, ⟨md, read, rfl⟩, same⟩
    exact ⟨md, read, same⟩
  · rintro ⟨md, read, same⟩
    exact ⟨_, ⟨md, read, rfl⟩, same⟩

/-- The content type of the HTTP response is metadata on Fetch only. Under all other keys the transports agree exactly
when a trailers-only response has no metadata, any other has one value of a name at most, empty if it is binary and
else a text with no blanks at its ends, an `OK` has a message, and an empty message has an `OK`. -/
theorem outcome_parity_iff [ProstReflect]
    (roundTrip : Prost.decodeTrailer (Prost.encodeTrailer c.trailer) = some c.trailer)
    (short : (Prost.encodeTrailer c.trailer).length < 2 ^ 32) (path : String) :
    ¬SameOutcome c path (fun _ => True) ∧
    (SameOutcome c path Shared ↔
      (c.trailersOnly = true → metadataToVec c.resp.headers = []) ∧
      (c.trailersOnly = false → ∀ name, isDenied name = false → Alike name (c.resp.headers.getAll name)) ∧
      (c.message = none → c.code ≠ 0) ∧ (c.message = some [] → c.code = 0)) := by
  have outcomes := sameOutcome_iff c roundTrip short path
  refine ⟨fun agree => ?_, (outcomes Shared).trans (same_iff c)⟩
  obtain ⟨md, read, same⟩ := (outcomes _).mp agree
  exact content_type_differs _ _ read (same.initial "content-type" trivial)

end Outcomes

/-! ### Two responses -/

def xDetail : HeaderName := ⟨"x-detail", by decide⟩

def denied : HeaderValue := ⟨Utf8.encode "denied", by decide⟩

abbrev twoTrailers : Prost where
  encodeTrailer t :=
    if t = ⟨0, "", []⟩ then []
    else [8, 5, 26, 18, 10, 8] ++ Utf8.encode "x-detail" ++ [18, 6] ++ Utf8.encode "denied"
  decodeTrailer bytes :=
    if bytes = [] then some ⟨0, "", []⟩ else some ⟨5, "", [⟨"x-detail", some (.asciiValue "denied")⟩]⟩

def answeredCall : Completed none where
  ready := 0
  resp := ⟨200, [], [(0, .data [0, 0, 0, 0, 2, 8, 1]), (1, .trailers [(.grpcStatus, HeaderValue.ofNat 0)]), (1, .eof)]⟩
  ontime := inTime_now
  finish := 1
  ended := rfl
  message := some [8, 1]
  small := by simp
  framed := rfl

def failedCall : Completed none where
  ready := 0
  resp := ⟨200, [(.grpcStatus, HeaderValue.ofNat 5), (xDetail, denied)], [(0, .eof)]⟩
  ontime := inTime_now
  finish := 0
  ended := rfl
  message := none
  small := nofun
  framed := rfl

section

attribute [local instance] BinaryMetadata.asciiLower twoTrailers flagSchema

theorem outcome_parity_answered :
    ¬SameOutcome answeredCall "/flag.Flags/Get" (fun _ => True) ∧ SameOutcome answeredCall "/flag.Flags/Get" Shared := by
  obtain ⟨never, agree⟩ := outcome_parity_iff answeredCall (by decide) (by decide) "/flag.Flags/Get"
  refine ⟨never, agree.mpr ⟨fun _ => rfl, fun _ _ _ => .inl rfl, nofun, nofun⟩⟩

/-- The metadata of the error is trailing on Fetch, initial on the WebSocket. -/
theorem trailers_only_differs : ¬SameOutcome failedCall "/flag.Flags/Get" Shared := by
  intro agree
  obtain ⟨md, read, same⟩ := (sameOutcome_iff failedCall (by decide) (by decide) "/flag.Flags/Get" Shared).mp agree
  have bare := ((same_iff failedCall).mp ⟨md, read, same⟩).1 rfl
  exact absurd bare (by decide)

end

end OutcomeParity
end GrpcWebnext
