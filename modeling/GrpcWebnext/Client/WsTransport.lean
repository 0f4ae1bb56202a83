import Mathlib.Algebra.Order.Floor.Semiring
import Mathlib.Data.Rat.Floor
import GrpcWebnext.Client.Metadata
import GrpcWebnext.Ws.JsonText

/-!
# The client's JSON stream

`SingleStreamConn` with the JSON codec: the texts that it sends, and the handlers that a server frame
calls in either codec.
-/

namespace GrpcWebnext
namespace Client
open Json
open Ws (Document JsonFrame)

/-- JavaScript's numbers, up to the sign of zero, and their texts. `numeral` is `Number::toString` of a
finite number. -/
class JsNumber where
  Number : Type
  toNumber : String → Number
  numeral : Number → Option String
  ofNat : Nat → Number
  infinity : Number
  isZero : Number → Bool
  toNumber_numeral : ∀ {x n}, numeral x = some n → toNumber n = x
  numeral_ofNat : ∀ {n}, n ≤ 2 ^ 53 → numeral (ofNat n) = some n.repr
  numeral_large : ∀ {n s}, 2 ^ 32 ≤ n → numeral (ofNat n) = some s → Metadata.parseUnsigned 32 s = none
  numeral_infinity : numeral infinity = none

abbrev wholeNumbers : JsNumber where
  Number := Option Nat
  toNumber := Metadata.parseUnsigned 64
  numeral x := (x.filter fun n => n < 2 ^ 64).map Nat.repr
  ofNat := some
  infinity := none
  isZero x := x = some 0
  toNumber_numeral spelled := by
    obtain ⟨n, held, rfl⟩ := Option.map_eq_some_iff.mp spelled
    obtain ⟨rfl, small⟩ := Option.filter_eq_some_iff.mp held
    exact Metadata.parseUnsigned_repr (of_decide_eq_true small)
  numeral_ofNat small := by
    simp [Option.filter]
    omega
  numeral_large large spelled := by
    obtain ⟨n, held, rfl⟩ := Option.map_eq_some_iff.mp spelled
    obtain ⟨same, _⟩ := Option.filter_eq_some_iff.mp held
    obtain rfl := Option.some.inj same
    exact Metadata.parseUnsigned_repr_large large
  numeral_infinity := rfl

variable [JsString] [JsNumber]
open JsNumber

abbrev JsValue := Tree Number .value

/-- `JSON.parse`. The order of properties, which nothing here observes, is that of the names. -/
def parse (t : Document) : JsValue := t.canonical.bind fun n => .num (toNumber n)

/-- `JSON.stringify`: what is no finite number is `null`. -/
def stringify (v : JsValue) : Document :=
  v.bind fun x => match numeral x with
    | some n => .num n
    | none => .null

def jsString (s : String) : JsValue := .str (Text.ofString s)

def jsObject (members : List (String × JsValue)) : JsValue :=
  .obj (Tree.ofMembers (members.map fun m => (Text.ofString m.1, m.2)))

/-! ### Calls -/

inductive Timeout where
  | finite (millis : ℚ) (positive : 0 < millis)
  | infinite

structure CallOptions where
  metadata : Metadata
  timeoutMillis : Option Timeout

def Timeout.ceil : Timeout → Number
  | .finite millis _ => ofNat ⌈millis⌉₊
  | .infinite => infinity

/-- `getMap`: the first value of each key. An assignment to `__proto__` sets no property. -/
def Metadata.getMap (md : Metadata) : List (String × MetadataValue) :=
  md.map.filterMap fun e => match e.2 with
    | value :: _ => if e.1 = "__proto__" then none else some (e.1, value)
    | [] => none

def metaToJson (md : Metadata) : List (String × String) :=
  md.getMap.filterMap fun e => match e.2 with
    | .text s => some (e.1, s)
    | .bytes _ => none

/-- `sendOpen`, in the JSON codec. -/
def openFrame (options : CallOptions) : Document :=
  let metadata := metaToJson options.metadata
  stringify (jsObject (
    (if metadata.isEmpty then []
      else [("metadata", jsObject (metadata.map fun e => (e.1, jsString e.2)))]) ++
    (options.timeoutMillis.map fun timeout => ("timeoutMillis", Tree.num timeout.ceil)).toList))

def encodeMessage (message : Document) : Document := stringify (jsObject [("message", parse message)])

def encodeHalfClose : Document := stringify (jsObject [("halfClose", .bool true)])

structure StatusResult where
  code : Nat
  details : String

def encodeReset (status : StatusResult) : Document :=
  stringify (jsObject
    [("status", jsObject [("code", .num (ofNat status.code)), ("message", jsString status.details)])])

/-- `SingleStreamConn`, by the texts that it sent or holds until the socket is open. -/
structure StreamConn where
  sent : List Document
  finished : Bool := false

def StreamConn.sendRaw (c : StreamConn) (frame : Document) : StreamConn :=
  if c.finished then c else { c with sent := c.sent ++ [frame] }

def StreamConn.terminate (c : StreamConn) (status : StatusResult) : StreamConn :=
  if c.finished then c else { c.sendRaw (encodeReset status) with finished := true }

def StreamConn.start (options : CallOptions) : StreamConn := ({ sent := [] } : StreamConn).sendRaw (openFrame options)

inductive Operation where
  | send (message : Document)
  | halfClose
  | cancel

def StreamConn.apply (c : StreamConn) : Operation → StreamConn
  | .send message => c.sendRaw (encodeMessage message)
  | .halfClose => c.sendRaw encodeHalfClose
  | .cancel => c.terminate ⟨1, "cancelled"⟩

/-! ### Server frames -/

/-- The handler that is called, by what it is given. -/
inductive Event (Payload : Type) where
  | headers (md : Metadata)
  | message (payload : Payload)
  | status (code : Number) (details : String) (md : Metadata)

/-- `onMessage`, behind the decoding of a binary frame. -/
def onBinaryFrame (frame : Frame) : Option (Event Bytes) :=
  match frame.kind with
  | some (.header h) => some (.headers (.fromMetadatumList h.headers))
  | some (.message m) => some (.message m.payload)
  | some (.trailer t) => some (.status (ofNat t.statusCode) t.statusMessage (.fromMetadatumList t.trailers))
  | some (.reset r) => some (.status (ofNat r.statusCode) r.statusMessage .empty)
  | _ => none

def jsonToMeta (obj : List (String × String)) : Metadata := obj.foldl (fun md e => md.set e.1 (.text e.2)) .empty

/-- A property, `none` for `undefined`. -/
def property (v : JsValue) (name : String) : Option JsValue :=
  match v with
  | .obj members => (members.toMembers.find? fun m => m.1 = Text.ofString name).map Prod.snd
  | _ => none

def truthy : JsValue → Bool
  | .null => false
  | .bool b => b
  | .num x => !isZero x
  | .str s => !s.isEmpty
  | _ => true

def asEntry (m : Text × JsValue) : Option (String × String) :=
  match m.2 with
  | .str s => do pure (← m.1.toString, ← s.toString)
  | _ => none

/-- A `Record<string, string>`, `{}` for `undefined` and `null`. -/
def asRecord : Option JsValue → Option (List (String × String))
  | none => some []
  | some .null => some []
  | some (.obj members) => members.toMembers.mapM asEntry
  | some _ => none

def asNumber : JsValue → Option Number
  | .num x => some x
  | _ => none

/-- `status.message ?? ""`. -/
def detailsOf (status : JsValue) : Option String :=
  match property status "message" with
  | none => some ""
  | some .null => some ""
  | some (.str s) => s.toString
  | some _ => none

/-- `onJsonFrame`. The parsed frame is `any` there; here a field of another type than the client declares
calls nothing. -/
def onJsonFrame (text : Document) : Option (Event Document) :=
  let jf := parse text
  match (property jf "status").filter truthy with
  | some status => do
    let code ← property status "code"
    pure (.status (← asNumber code) (← detailsOf status) (jsonToMeta (← asRecord (property jf "metadata"))))
  | none =>
    match property jf "message" with
    | some message => some (.message (stringify message))
    | none =>
      match (property jf "metadata").filter truthy with
      | some md => (asRecord (some md)).map fun record => .headers (jsonToMeta record)
      | none => none

/-! ### Numbers -/

def respell (n : String) : Document :=
  match JsNumber.numeral (toNumber n) with
  | some n => .num n
  | none => .null

omit [JsString] in
theorem respell_scalar (n : String) : (respell n).Scalar := by
  unfold respell
  split <;> trivial

omit [JsString] in
theorem stringify_parse (message : Document) : stringify (parse message) = message.canonical.bind respell :=
  Tree.bind_bind _ _ _

/-! ### Objects -/

omit [JsString] in
theorem parse_object {l : List (String × Document)} (distinct : (l.map Prod.fst).Nodup) :
    ∃ members, parse (Ws.object l) = .obj members ∧
      members.toMembers.Perm (l.map fun m => (Text.ofString m.1, parse m.2)) := by
  have names : ((l.map fun m => (Text.ofString m.1, m.2)).map Prod.fst).Nodup := by
    rw [List.map_map]
    have apart := distinct.map (f := Text.ofString) fun _ _ same => Text.ofString_inj.mp same
    rwa [List.map_map] at apart
  refine ⟨_, rfl, ?_⟩
  rw [Tree.toMembers_bind]
  have canonical := (Tree.canonical_ofMembers names).map fun m => (m.1, m.2.bind fun n => .num (toNumber n))
  rw [List.map_map, List.map_map] at canonical
  exact canonical

omit [JsString] in
theorem property_parse_object {l : List (String × Document)} (distinct : (l.map Prod.fst).Nodup) (name : String) :
    property (parse (Ws.object l)) name = (l.lookup name).map parse := by
  obtain ⟨members, parsed, perm⟩ := parse_object distinct
  have named : (members.toMembers.filter fun m => m.1 = Text.ofString name).Perm
      ((l.lookup name).toList.map fun t => (Text.ofString name, parse t)) := by
    have kept := perm.filter fun m => m.1 = Text.ofString name
    rw [List.filter_map] at kept
    have keys : ((fun m : Text × JsValue => decide (m.1 = Text.ofString name)) ∘
        fun m : String × Document => (Text.ofString m.1, parse m.2)) = fun m => decide (m.1 = name) := by
      funext m
      simp [Text.ofString_inj]
    rw [keys, Ws.filter_named distinct name, List.map_map] at kept
    exact kept
  rw [parsed, property, ← List.head?_filter]
  cases held : l.lookup name with
  | none =>
    rw [held] at named
    rw [named.eq_nil]
    rfl
  | some t =>
    rw [held] at named
    rw [List.perm_singleton.mp named]
    rfl

omit [JsString] in
theorem asRecord_writeMeta {md : Ws.JsonMeta} (distinct : (md.map Prod.fst).Nodup) :
    ∃ record, asRecord (some (parse (Ws.writeMeta md))) = some record ∧ record.Perm md := by
  have names : ((md.map fun e => (e.1, Ws.strDocument e.2)).map Prod.fst).Nodup := by
    rwa [List.map_map]
  obtain ⟨members, parsed, perm⟩ := parse_object names
  have entries : ∀ e : String × String, asEntry (Text.ofString e.1, parse (Ws.strDocument e.2)) = some e := by
    intro e
    simp [asEntry, Ws.strDocument, parse, Tree.canonical, Tree.bind]
  have whole : ∀ ms : List (Text × JsValue), (∀ m ∈ ms, (asEntry m).isSome) →
      ms.mapM asEntry = some (ms.filterMap asEntry) := by
    intro ms
    induction ms with
    | nil => intro _; rfl
    | cons m ms ih =>
      intro all
      obtain ⟨here, later⟩ := List.forall_mem_cons.mp all
      obtain ⟨e, read⟩ := Option.isSome_iff_exists.mp here
      rw [List.mapM_cons, ih later, List.filterMap_cons_some read, read]
      rfl
  have kept := perm.filterMap asEntry
  rw [List.map_map, List.filterMap_map] at kept
  have back : (asEntry ∘ ((fun m : String × Document => (Text.ofString m.1, parse m.2)) ∘
      fun e : String × String => (e.1, Ws.strDocument e.2))) = some := funext entries
  rw [back, List.filterMap_some] at kept
  refine ⟨_, ?_, kept⟩
  rw [Ws.writeMeta, parsed]
  refine whole _ fun m member => ?_
  obtain ⟨_, written, rfl⟩ := List.mem_map.mp (perm.mem_iff.mp member)
  obtain ⟨e, _, rfl⟩ := List.mem_map.mp written
  rw [entries e]
  rfl

omit [JsNumber] in
theorem get_jsonToMeta {l : List (String × String)} (distinct : (l.map fun e => Metadata.normalizeKey e.1).Nodup)
    (key : String) :
    (jsonToMeta l).get key =
      (l.filter fun e => Metadata.normalizeKey e.1 = Metadata.normalizeKey key).map fun e => .text e.2 := by
  have general : ∀ md : Metadata, (l.foldl (fun md e => md.set e.1 (.text e.2)) md).get key =
      if (l.filter fun e => Metadata.normalizeKey e.1 = Metadata.normalizeKey key).isEmpty then md.get key
      else (l.filter fun e => Metadata.normalizeKey e.1 = Metadata.normalizeKey key).map fun e => .text e.2 := by
    induction l with
    | nil => intro md; rfl
    | cons e l ih =>
      intro md
      obtain ⟨absent, distinct⟩ := List.nodup_cons.mp distinct
      rw [List.foldl_cons, ih distinct]
      by_cases same : Metadata.normalizeKey e.1 = Metadata.normalizeKey key
      · have others : (l.filter fun e => Metadata.normalizeKey e.1 = Metadata.normalizeKey key) = [] := by
          apply List.filter_eq_nil_iff.mpr
          intro other member held
          exact absent (List.mem_map.mpr ⟨other, member, (of_decide_eq_true held).trans same.symm⟩)
        simp [same, others, Metadata.get_set]
      · rw [Metadata.get_set, if_neg same, List.filter_cons_of_neg (by simpa using same)]
  rw [jsonToMeta, general]
  split
  · rename_i none
    rw [List.isEmpty_iff.mp none]
    rfl
  · rfl

end Client
end GrpcWebnext
