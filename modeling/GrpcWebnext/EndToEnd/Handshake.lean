import GrpcWebnext.Fetch.MainPath

/-!
# The WebSocket handshake

The subprotocols that a client offers and what the server makes of them: its echo, the codec of the connection
and its refusals.
-/

namespace GrpcWebnext
namespace EndToEnd
namespace Handshake
open Fetch HttpRule Schema

/-! ### The list of subprotocols -/

/-- A subprotocol has no white space and no comma. -/
def Token (token : String) : Prop := token ≠ "" ∧ ∀ c ∈ token.toList, c ≠ ',' ∧ c ≠ ' ' ∧ c ≠ '\t'

theorem Token.toList_ne_nil {token : String} (own : Token token) : token.toList ≠ [] := fun empty =>
  own.1 (String.toList_eq_nil_iff.mp empty)

def Blanks (text : List Char) : Prop := ∀ c ∈ text, c = ' ' ∨ c = '\t'

/-- What stands between the commas: a token with blanks around it, or none. -/
inductive Listed : List (List Char) → List String → Prop where
  | nil : Listed [] []
  | blank {piece : List Char} {pieces : List (List Char)} {tokens : List String} (blanks : Blanks piece)
    (rest : Listed pieces tokens) : Listed (piece :: pieces) tokens
  | token {before after : List Char} {token : String} {pieces : List (List Char)} {tokens : List String}
    (front : Blanks before) (own : Token token) (back : Blanks after) (rest : Listed pieces tokens) :
    Listed ((before ++ token.toList ++ after) :: pieces) (token :: tokens)

def outer (c : Char) : Bool := c = ' ' ∨ c = '\t'

theorem dropWhile_outer {blanks : List Char} (all : Blanks blanks) (rest : List Char) :
    (blanks ++ rest).dropWhile outer = rest.dropWhile outer :=
  List.dropWhile_append_of_pos fun c member => decide_eq_true (all c member)

theorem trim_token {before after : List Char} {token : String} (front : Blanks before) (own : Token token)
    (back : Blanks after) : trimMatches outer (before ++ token.toList ++ after) = token.toList := by
  have keeps : ∀ cs : List Char, cs ≠ [] → (∀ c ∈ cs, c ≠ ',' ∧ c ≠ ' ' ∧ c ≠ '\t') → ∀ rest : List Char,
      (cs ++ rest).dropWhile outer = cs ++ rest := by
    intro cs some_ plain rest
    cases cs with
    | nil => exact absurd rfl some_
    | cons c cs =>
      obtain ⟨_, blank, tab⟩ := plain c List.mem_cons_self
      exact List.dropWhile_cons_of_neg (by simp [outer, blank, tab])
  have some_ := own.toList_ne_nil
  have back' : Blanks after.reverse := fun c member => back c (List.mem_reverse.mp member)
  have solid := keeps token.toList.reverse (by simpa using some_) (fun c member => own.2 c (List.mem_reverse.mp member)) []
  rw [List.append_nil] at solid
  rw [trimMatches, List.append_assoc, dropWhile_outer front, keeps _ some_ own.2, List.reverse_append,
    dropWhile_outer back', solid, List.reverse_reverse]

theorem trim_blanks {piece : List Char} (blanks : Blanks piece) : trimMatches outer piece = [] := by
  have dropped : piece.dropWhile outer = [] :=
    List.dropWhile_eq_nil_iff.mpr fun c member => decide_eq_true (blanks c member)
  rw [trimMatches, dropped]
  rfl

theorem Listed.comma {pieces : List (List Char)} {tokens : List String} (listed : Listed pieces tokens) :
    ∀ piece ∈ pieces, ',' ∉ piece := by
  have blank : ∀ {text : List Char}, Blanks text → ',' ∉ text := by
    intro text all member
    rcases all _ member with same | same <;> exact absurd same (by decide)
  induction listed with
  | nil => exact fun _ member => nomatch member
  | blank blanks _ ih => exact List.forall_mem_cons.mpr ⟨blank blanks, ih⟩
  | token front own back _ ih =>
    refine List.forall_mem_cons.mpr ⟨?_, ih⟩
    intro member
    rcases List.mem_append.mp member with member | member
    · rcases List.mem_append.mp member with member | member
      · exact blank front member
      · exact (own.2 _ member).1 rfl
    · exact blank back member

theorem Listed.trimmed {pieces : List (List Char)} {tokens : List String} (listed : Listed pieces tokens) :
    (((pieces.map (trimMatches outer)).filter fun t => !t.isEmpty).map String.ofList) = tokens := by
  induction listed with
  | nil => rfl
  | blank blanks _ ih =>
    rw [List.map_cons, trim_blanks blanks, List.filter_cons_of_neg (by simp), ih]
  | @token _ _ token _ _ front own back _ ih =>
    rw [List.map_cons, trim_token front own back, List.filter_cons_of_pos (by simpa using own.toList_ne_nil), List.map_cons, ih,
      String.ofList_toList]

/-- The tokens of a list come back in order, however it is spaced. -/
theorem wsSubprotocols_listed {headers : HeaderMap} {v : HeaderValue} {text : String} {pieces : List (List Char)}
    {tokens : List String} (header : headers.get secWebsocketProtocol = some v) (reads : v.toStr = some text)
    (written : text.toList = [','].intercalate pieces) (listed : Listed pieces tokens) :
    wsSubprotocols headers = tokens := by
  simp only [wsSubprotocols, header, Option.bind_some, reads, written]
  by_cases empty : pieces = []
  · subst empty
    cases listed
    rfl
  · rw [List.splitOn_intercalate _ listed.comma empty]
    exact listed.trimmed

/-! ### The negotiation -/

/-- The codec that a subprotocol names. -/
def codecOf (subprotocol : String) : Option Bool :=
  if subprotocol = WS_SUBPROTOCOL_PROTO then some false
  else if subprotocol = WS_SUBPROTOCOL_JSON ∨ subprotocol = "application/json" then some true
  else none

theorem find_offered {candidates offered : List String} {p : String} (found : candidates.find? offered.contains = some p) :
    p ∈ candidates ∧ p ∈ offered :=
  ⟨List.mem_of_find?_eq_some found, by simpa using List.find?_some found⟩

/-- Of two codecs the echo names the one that is used, and without a codec it names none. -/
theorem echo_codec {offered : List String} {p : String} {codec : Bool}
    (echo : [WS_SUBPROTOCOL_PROTO, WS_SUBPROTOCOL_JSON, WS_SUBPROTOCOL, "application/json"].find? offered.contains = some p)
    (names : codecOf p = some codec) : (offeredCodec offered).1 = some codec := by
  unfold offeredCodec
  by_cases proto : WS_SUBPROTOCOL_PROTO ∈ offered
  · simp [proto] at echo
    subst echo
    cases names
    simp [proto]
  by_cases json : WS_SUBPROTOCOL_JSON ∈ offered
  · simp [proto, json] at echo
    subst echo
    cases names
    simp [proto, json]
  obtain ⟨candidate, member⟩ := find_offered echo
  simp only [List.mem_cons, List.not_mem_nil, or_false] at candidate
  rcases candidate with rfl | rfl | rfl | rfl
  · exact absurd member proto
  · exact absurd member json
  · cases names
  · cases names
    simp [proto, json, member]

theorem binary_offered {offered : List String} (binary : (offeredCodec offered).1 = some false) :
    WS_SUBPROTOCOL_PROTO ∈ offered := by
  by_contra absent
  unfold offeredCodec at binary
  rw [if_neg (by simpa using absent)] at binary
  by_cases json : WS_SUBPROTOCOL_JSON ∈ offered
  · simp [json] at binary
  by_cases plain : "application/json" ∈ offered
  · simp [json, plain] at binary
  · simp [json, plain] at binary

section

variable [ProstReflect]

/-- The connections that are accepted. -/
def Accepts (rt : Runtime) (offered : List String) (annotated : Bool) : Prop :=
  if annotated then WS_SUBPROTOCOL_PROTO ∉ offered
  else WS_SUBPROTOCOL_PROTO ∈ offered ∨ WS_SUBPROTOCOL_JSON ∈ offered ∨ rt.allowImplicitCodec = true

theorem codecReject_none_iff (rt : Runtime) (offered : List String) (annotated : Bool) :
    codecReject rt annotated (offeredCodec offered).1 (offeredCodec offered).2 = none ↔ Accepts rt offered annotated := by
  unfold codecReject Accepts offeredCodec
  by_cases proto : WS_SUBPROTOCOL_PROTO ∈ offered
  · cases annotated <;> simp [proto]
  by_cases json : WS_SUBPROTOCOL_JSON ∈ offered
  · cases annotated <;> simp [proto, json]
  by_cases plain : "application/json" ∈ offered
  · cases annotated <;> simp [proto, json, plain]
  · cases annotated <;> simp [proto, json, plain]

/-- What a connection promises of its `echo`, its `reject` and its `params`. -/
structure Negotiated (rt : Runtime) (offered : List String) (annotated : Bool) (echo : Option String)
    (reject : Option Status) (params : RouteParams) : Prop where
  echoed : ∀ p ∈ echo, p ∈ offered
  accepted : reject = none ↔ Accepts rt offered annotated
  codec : reject = none → ∀ p ∈ echo, ∀ codec ∈ codecOf p, params.codec = some codec

theorem negotiates (rt : Runtime) (offered : List String) (found : Option HttpRule.Route) (path : String) :
    Negotiated rt offered found.isSome
      ([WS_SUBPROTOCOL_PROTO, WS_SUBPROTOCOL_JSON, WS_SUBPROTOCOL, "application/json"].find? offered.contains)
      (codecReject rt found.isSome (offeredCodec offered).1 (offeredCodec offered).2)
      (routeParams found (offeredCodec offered).1 path) where
  echoed p echo := (find_offered echo).2
  accepted := codecReject_none_iff rt offered found.isSome
  codec := by
    intro accepted p echo codec names
    have used := echo_codec echo names
    cases found with
    | none => exact used
    | some route =>
      have unbinary : WS_SUBPROTOCOL_PROTO ∉ offered := (codecReject_none_iff rt offered true).mp accepted
      cases codec with
      | true => rfl
      | false => exact absurd (binary_offered used) unbinary

/-! ### The handshake -/

/-- The subprotocols of a `SingleStreamConn`. -/
def offer (json : Bool) : List String := [WS_SUBPROTOCOL, if json then WS_SUBPROTOCOL_JSON else WS_SUBPROTOCOL_PROTO]

variable [DynamicReflect] [Upgrader] [UriParser]

/-- However a client spaces the list of its subprotocols, the server reads each of them. It echoes one of them, and never
one of a codec that the connection does not have; the SDK gets the codec that it asks for, except on a route that is
annotated, which takes JSON alone. -/
theorem handshake (rt : Runtime) (s : Snapshots) {req : Request} (asks : Upgrader.isUpgradeRequest req.headers = true)
    (completes : Upgrader.upgrade req.headers = .ok ()) (admin : rt.adminReloadPath ≠ some req.path) {v : HeaderValue}
    {text : String} {pieces : List (List Char)} {tokens : List String}
    (header : req.headers.get secWebsocketProtocol = some v) (reads : v.toStr = some text)
    (written : text.toList = [','].intercalate pieces) (listed : Listed pieces tokens)
    (frames : Upgrader.DEFAULT_SUBPROTOCOL ∉ tokens) {found : Option HttpRule.Route}
    (route : (annotationFor rt s req).value = .ok found) :
    (∃ echo reject params, (handle rt s req).value = .websocket echo reject params ∧
      Negotiated rt tokens found.isSome echo reject params) ∧
    ∀ json, tokens = offer json → ∃ echo reject params, (handle rt s req).value = .websocket echo reject params ∧
      (reject = none ↔ found = none ∨ json = true) ∧ echo = some (if json then WS_SUBPROTOCOL_JSON else WS_SUBPROTOCOL_PROTO) ∧
      (reject = none → params.codec = some json) ∧ (found = none → params.method = some req.path) := by
  have offered := wsSubprotocols_listed header reads written listed
  have upgraded : (handle rt s req).value = .websocket
      ([WS_SUBPROTOCOL_PROTO, WS_SUBPROTOCOL_JSON, WS_SUBPROTOCOL, "application/json"].find? tokens.contains)
      (codecReject rt found.isSome (offeredCodec tokens).1 (offeredCodec tokens).2)
      (routeParams found (offeredCodec tokens).1 req.path) := by
    rw [handle_upgrade s admin asks, handleWsUpgrade, offered, if_neg (by simpa using frames)]
    show withRoute (upgradeRoute rt req) (annotationFor rt s req).value = _
    rw [route]
    simp only [withRoute, upgradeRoute, completes, offered]
  have agreed := negotiates rt tokens found req.path
  refine ⟨⟨_, _, _, upgraded, agreed⟩, ?_⟩
  rintro json rfl
  refine ⟨_, _, _, upgraded, ?_, ?_, ?_, ?_⟩
  · rw [agreed.accepted]
    cases found <;> cases json <;> simp [Accepts, offer, WS_SUBPROTOCOL, WS_SUBPROTOCOL_JSON, WS_SUBPROTOCOL_PROTO]
  · cases json <;> decide
  · intro accepted
    refine agreed.codec accepted (if json then WS_SUBPROTOCOL_JSON else WS_SUBPROTOCOL_PROTO) ?_ json ?_
    · cases json <;> decide
    · cases json <;> decide
  · rintro rfl
    rfl

end

attribute [local instance] aliasSchema aliasReflect headerUpgrader slashUris

theorem binaryOffer_wf : (Utf8.encode "grpc-webnext, grpc-webnext+proto").all headerValueByte = true := by decide +kernel

def binaryOffer : HeaderValue := ⟨Utf8.encode "grpc-webnext, grpc-webnext+proto", binaryOffer_wf⟩

theorem upgrade_wf : "upgrade".toList ≠ [] ∧ "upgrade".toList.length ≤ 65535 ∧
    "upgrade".toList.all headerNameChar = true := by decide

theorem key_wf : "sec-websocket-key".toList ≠ [] ∧ "sec-websocket-key".toList.length ≤ 65535 ∧
    "sec-websocket-key".toList.all headerNameChar = true := by decide

def openFlags : Fetch.Request where
  method := "GET"
  uri := some getPath
  headers := [(⟨"upgrade", upgrade_wf⟩, binaryOffer), (⟨"sec-websocket-key", key_wf⟩, binaryOffer),
    (secWebsocketProtocol, binaryOffer)]
  body := []

theorem Token.of_all {token : String} (some_ : token ≠ "")
    (all : (token.toList.all fun c => c ≠ ',' && c ≠ ' ' && c ≠ '\t') = true) : Token token := by
  refine ⟨some_, fun c member => ?_⟩
  simpa [and_assoc] using List.all_eq_true.mp all c member

theorem offer_token (json : Bool) : ∀ p ∈ offer json, Token p := by
  have own : Token WS_SUBPROTOCOL ∧ Token WS_SUBPROTOCOL_JSON ∧ Token WS_SUBPROTOCOL_PROTO :=
    ⟨.of_all (by decide) (by decide), .of_all (by decide) (by decide), .of_all (by decide) (by decide)⟩
  intro p member
  simp only [offer, List.mem_cons, List.not_mem_nil, or_false] at member
  rcases member with rfl | rfl
  · exact own.1
  · cases json
    · exact own.2.2
    · exact own.2.1

theorem offer_listed (json : Bool) : ∃ pieces, Listed pieces (offer json) ∧
    [','].intercalate pieces = (WS_SUBPROTOCOL ++ ", " ++ if json then WS_SUBPROTOCOL_JSON else WS_SUBPROTOCOL_PROTO).toList := by
  refine ⟨_, @Listed.token [] [] _ _ _ nofun (offer_token json _ List.mem_cons_self) nofun
    (@Listed.token [' '] [] _ _ _ (by simp [Blanks])
      (offer_token json _ (List.mem_cons_of_mem _ List.mem_cons_self)) nofun .nil), ?_⟩
  cases json <;> decide

theorem handshake_binary : ∃ params,
    (handle (annotatedServer "/v1/flags/{name}") ⟨none, []⟩ openFlags).value =
      .websocket (some WS_SUBPROTOCOL_PROTO) none params ∧ params.codec = some false := by
  obtain ⟨pieces, listed, written⟩ := offer_listed false
  obtain ⟨_, sdk⟩ := handshake (annotatedServer "/v1/flags/{name}") ⟨none, []⟩
    (show Upgrader.isUpgradeRequest openFlags.headers = true by decide) (by decide) nofun
    (show openFlags.headers.get secWebsocketProtocol = some binaryOffer by decide)
    (show binaryOffer.toStr = some "grpc-webnext, grpc-webnext+proto" by decide +kernel) written.symm listed (by decide)
    (show (annotationFor (annotatedServer "/v1/flags/{name}") ⟨none, []⟩ openFlags).value = .ok none from rfl)
  obtain ⟨echo, reject, params, upgraded, accepted, rfl, codec, _⟩ := sdk false rfl
  have taken := accepted.mpr (.inl rfl)
  subst taken
  exact ⟨params, upgraded, codec rfl⟩

end Handshake
end EndToEnd
end GrpcWebnext
