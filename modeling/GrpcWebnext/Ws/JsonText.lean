import GrpcWebnext.Lib.Json
import GrpcWebnext.Metadata
import GrpcWebnext.Ws.Frames

/-!
# The texts of JSON frames

A JSON text stands as its document: the tree that the grammar makes of it, with members as they stand
and numbers as they are spelled. `JsonFrame` is read and written as serde derives it.
-/

namespace GrpcWebnext
namespace Ws
open Json Metadata

abbrev Document := Tree String .value

/-- `serde_json` on documents. `read` is given the depth that is left, and `numeral` is a number as
it is written again, if it can be read. -/
class SerdeText extends SerdeJson where
  document : Bytes → Option Document
  read : Nat → Document → Option Value
  write : Value → Document
  numeral : String → Option String
  document_toVec : ∀ v, document (toVec v) = some (write v)
  fromSlice_eq : ∀ b, fromSlice b = (document b).bind (read 128)
  write_null : write null = .null

section

variable [SerdeText]
open SerdeText SerdeJson

/-- What serde_json documents of a `Value`: its limit, and that it is written as it was read, an object
from a `BTreeMap`. -/
def Rewrites (limit : Nat) (t : Document) : Prop :=
  (read limit t).map write = (t.rewrite (fun n => (numeral n).map .num) limit).map Tree.canonical

/-! ### Reading -/

def readString : Document → Option String
  | .str s => s.toString
  | _ => none

def readBool : Document → Option Bool
  | .bool b => some b
  | _ => none

/-- A `u32`: no sign, no fraction, no exponent. -/
def readU32 : Document → Option Nat
  | .num n => parseUnsigned 32 n
  | _ => none

def readMeta : Document → Option JsonMeta
  | .obj members =>
    members.toMembers.foldlM (fun (map : JsonMeta) m => do pure (map.insert (← m.1.toString) (← readString m.2))) []
  | _ => none

/-- An `Option`: a field that is missing or `null` is `None`. -/
def optional {α : Type} (read : Document → Option α) : Option Document → Option (Option α)
  | none => some none
  | some .null => some none
  | some t => (read t).map some

omit [SerdeText] in
@[simp] theorem optional_none {α : Type} (read : Document → Option α) : Ws.optional read none = some none := rfl

omit [SerdeText] in
@[simp] theorem optional_null {α : Type} (read : Document → Option α) : Ws.optional read (some .null) = some none := rfl

omit [SerdeText] in
theorem optional_some {α : Type} {read : Document → Option α} {t : Document} (present : t ≠ .null) :
    Ws.optional read (some t) = (read t).map some := by
  cases t <;> first | rfl | cases present rfl

/-- The fields of a struct, by name or by position. A field that comes twice is an error, another name
is passed over. -/
def structFields (names : List String) : Document → Option (List (Option Document))
  | .obj members =>
    if members.toMembers.all fun m => m.1.toString.isSome then
      names.mapM fun name =>
        match members.toMembers.filter fun m => m.1 = Text.ofString name with
        | [] => some none
        | [m] => some (some m.2)
        | _ => none
    else none
  | .arr items =>
    if items.toItems.length ≤ names.length then some (names.zipIdx.map fun n => items.toItems[n.2]?) else none
  | _ => none

def readJsonStatus (t : Document) : Option JsonStatus := do
  match ← structFields ["code", "message"] t with
  | [some code, message] =>
    let message ← match message with
      | some message => readString message
      | none => some ""
    pure ⟨← readU32 code, message⟩
  | _ => none

/-- `decode_json_frame`. The frame is one of the containers that the limit counts. -/
def decodeJsonFrame (t : Document) : Option (JsonFrame Value) := do
  match ← structFields ["metadata", "timeoutMillis", "message", "halfClose", "status"] t with
  | [metadata, timeoutMillis, message, halfClose, status] =>
    let metadata ← optional readMeta metadata
    let timeoutMillis ← optional readU32 timeoutMillis
    let message ← optional (read 127) message
    let halfClose ← optional readBool halfClose
    let status ← optional readJsonStatus status
    pure { metadata, timeoutMillis := timeoutMillis.map Nat.toUInt32, message, halfClose, status }
  | _ => none

/-! ### Writing -/

def strDocument (s : String) : Document := .str (Text.ofString s)

def object (members : List (String × Document)) : Document :=
  .obj (Tree.ofMembers (members.map fun m => (Text.ofString m.1, m.2)))

def writeMeta (md : JsonMeta) : Document := object (md.map fun e => (e.1, strDocument e.2))

def writeStatus (status : JsonStatus) : Document :=
  object (("code", .num status.code.repr) ::
    if status.message.isEmpty then [] else [("message", strDocument status.message)])

/-- `encode_json_frame`: a field that is `None` is left out. -/
def encodeJsonFrame (f : JsonFrame Value) : Document :=
  object ((f.metadata.map fun md => ("metadata", writeMeta md)).toList ++
    (f.timeoutMillis.map fun t => ("timeoutMillis", Tree.num t.toNat.repr)).toList ++
    (f.message.map fun v => ("message", write v)).toList ++
    (f.halfClose.map fun b => ("halfClose", Tree.bool b)).toList ++
    (f.status.map fun status => ("status", writeStatus status)).toList)

end

/-! ### Objects -/

theorem object_ne_null (l : List (String × Document)) : object l ≠ .null := nofun

theorem toMembers_object (l : List (String × Document)) :
    (Tree.ofMembers (l.map fun m => (Text.ofString m.1, m.2))).toMembers =
      l.map fun m => (Text.ofString m.1, m.2) :=
  Tree.toMembers_ofMembers _

theorem filter_named {l : List (String × Document)} (distinct : (l.map Prod.fst).Nodup) (name : String) :
    l.filter (fun m => m.1 = name) = (l.lookup name).toList.map (name, ·) := by
  induction l with
  | nil => rfl
  | cons m l ih =>
    obtain ⟨key, value⟩ := m
    obtain ⟨absent, unique⟩ := List.nodup_cons.mp distinct
    by_cases same : key = name
    · subst same
      have others : l.filter (fun m => m.1 = key) = [] := by
        apply List.filter_eq_nil_iff.mpr
        intro m member found
        exact absent (List.mem_map.mpr ⟨m, member, of_decide_eq_true found⟩)
      simp [others]
    · have different : (name == key) = false := beq_false_of_ne (Ne.symm same)
      simp only [List.filter_cons, same, decide_false, Bool.false_eq_true, ↓reduceIte, List.lookup_cons, different,
        ih unique]

/-- An object with distinct names has these fields. -/
theorem structFields_object (names : List String) {l : List (String × Document)}
    (distinct : (l.map Prod.fst).Nodup) :
    structFields names (object l) = some (names.map fun name => l.lookup name) := by
  have named : ∀ name, (l.map fun m => (Text.ofString m.1, m.2)).filter (fun m => m.1 = Text.ofString name) =
      (l.lookup name).toList.map (Text.ofString name, ·) := by
    intro name
    rw [List.filter_map]
    have keys : ((fun m : Text × Document => decide (m.1 = Text.ofString name)) ∘
        fun m : String × Document => (Text.ofString m.1, m.2)) = fun m => decide (m.1 = name) := by
      funext m
      simp [Text.ofString_inj]
    rw [keys, filter_named distinct name, List.map_map]
    rfl
  have whole : ((l.map fun m => (Text.ofString m.1, m.2)).all fun m => m.1.toString.isSome) = true := by
    simp [List.all_map]
  simp only [structFields, object, toMembers_object]
  rw [if_pos whole]
  induction names with
  | nil => rfl
  | cons name names ih =>
    rw [List.mapM_cons, ih, named name, List.map_cons]
    cases held : l.lookup name <;> simp

theorem readJsonStatus_object {code : Nat} (small : code < 2 ^ 32) (message : String) :
    readJsonStatus (object [("code", .num code.repr), ("message", strDocument message)]) = some ⟨code, message⟩ := by
  rw [readJsonStatus, structFields_object _ (by simp)]
  simp [List.lookup_cons, readU32, parseUnsigned_repr small, strDocument, readString]

theorem decodeJsonFrame_object [SerdeText] {l : List (String × Document)} (distinct : (l.map Prod.fst).Nodup) :
    decodeJsonFrame (object l) = (do
      let metadata ← optional readMeta (l.lookup "metadata")
      let timeoutMillis ← optional readU32 (l.lookup "timeoutMillis")
      let message ← optional (SerdeText.read 127) (l.lookup "message")
      let halfClose ← optional readBool (l.lookup "halfClose")
      let status ← optional readJsonStatus (l.lookup "status")
      pure { metadata, timeoutMillis := timeoutMillis.map Nat.toUInt32, message, halfClose, status }) := by
  rw [decodeJsonFrame, structFields_object _ distinct]
  rfl

/-! ### Metadata -/

theorem JsonMeta.insert_perm {k v : String} {m : JsonMeta} (fresh : k ∉ m.map Prod.fst) :
    (m.insert k v).Perm ((k, v) :: m) := by
  induction m with
  | nil => exact .refl _
  | cons e m ih =>
    obtain ⟨other, fresh⟩ := not_or.mp (fun here => fresh (List.mem_cons.mpr here))
    unfold JsonMeta.insert
    rw [if_neg other]
    split
    · exact .refl _
    · exact (List.Perm.cons e (ih fresh)).trans (.swap (k, v) e m)

theorem foldl_insert_perm {l : List (String × String)} (m : JsonMeta)
    (distinct : ((m ++ l).map Prod.fst).Nodup) :
    (l.foldl (fun map e => JsonMeta.insert e.1 e.2 map) m).Perm (m ++ l) := by
  induction l generalizing m with
  | nil => simp
  | cons e l ih =>
    have middle : (m ++ e :: l).Perm (e :: m ++ l) := List.perm_middle
    have apart := (middle.map Prod.fst).nodup distinct
    have fresh : e.1 ∉ m.map Prod.fst := by
      intro member
      rw [List.cons_append, List.map_cons, List.nodup_cons, List.map_append] at apart
      exact apart.1 (List.mem_append_left _ member)
    have inserted : (JsonMeta.insert e.1 e.2 m ++ l).Perm (e :: m ++ l) := (JsonMeta.insert_perm fresh).append_right l
    rw [List.foldl_cons]
    exact ((ih _ ((inserted.map Prod.fst).symm.nodup apart)).trans inserted).trans middle.symm

theorem readMeta_object (l : List (String × String)) :
    readMeta (object (l.map fun e => (e.1, strDocument e.2))) =
      some (l.foldl (fun map e => JsonMeta.insert e.1 e.2 map) []) := by
  have general : ∀ m : JsonMeta, ((l.map fun e => (e.1, strDocument e.2)).map fun m => (Text.ofString m.1, m.2)).foldlM
      (fun (map : JsonMeta) m => do pure (map.insert (← m.1.toString) (← readString m.2))) m =
        some (l.foldl (fun map e => JsonMeta.insert e.1 e.2 map) m) := by
    induction l with
    | nil => intro m; rfl
    | cons e l ih =>
      intro m
      simp only [List.map_cons, List.foldlM_cons, List.foldl_cons]
      rw [← ih (JsonMeta.insert e.1 e.2 m)]
      simp [strDocument, readString]
  simp only [readMeta, object, toMembers_object]
  exact general []

/-! ### Sample texts -/

/-- `null`, the booleans, the digits, and arrays in each other, one more than `depth`. -/
inductive Sample where
  | null
  | bool (b : Bool)
  | digit (d : Fin 10)
  | nested (depth : Fin 127)
  deriving DecidableEq

namespace Sample

def nest : Nat → Document
  | 0 => .arr .nil
  | depth + 1 => .arr (.cons (nest depth) .nil)

def brackets (depth : Nat) : Bytes := List.replicate (depth + 1) 91 ++ List.replicate (depth + 1) 93

def write : Sample → Document
  | null => .null
  | bool b => .bool b
  | digit d => .num d.val.repr
  | nested depth => nest depth.val

def toVec : Sample → Bytes
  | null => [110, 117, 108, 108]
  | bool true => [116, 114, 117, 101]
  | bool false => [102, 97, 108, 115, 101]
  | digit d => [48 + d.val.toUInt8]
  | nested depth => brackets depth.val

def scalars : List Sample := null :: bool true :: bool false :: (List.finRange 10).map digit

def document (b : Bytes) : Option Document :=
  if b = brackets (b.length / 2 - 1) then some (nest (b.length / 2 - 1))
  else (scalars.find? fun v => v.toVec = b).map write

def read (limit : Nat) (t : Document) : Option Sample :=
  (scalars ++ ((List.finRange 127).filter fun depth => depth.val + 1 < limit).map nested).find? fun v => v.write = t

theorem nest_inj {m n : Nat} (same : nest m = nest n) : m = n := by
  induction m generalizing n with
  | zero =>
    cases n with
    | zero => rfl
    | succ n => cases same
  | succ m ih =>
    cases n with
    | zero => cases same
    | succ n =>
      simp only [nest, Tree.arr.injEq, Tree.cons.injEq, and_true] at same
      rw [ih same]

theorem read_deep {limit depth : Nat} (deep : limit ≤ depth + 1) : read limit (nest depth) = none := by
  have array : ∃ items, nest depth = .arr items := by
    cases depth <;> exact ⟨_, rfl⟩
  refine List.find?_eq_none.mpr fun v member written => ?_
  have written : v.write = nest depth := of_decide_eq_true written
  rcases List.mem_append.mp member with scalar | nested
  · obtain ⟨items, array⟩ := array
    rw [array] at written
    cases v <;> simp [scalars, write] at scalar written
  · obtain ⟨d, kept, rfl⟩ := List.mem_map.mp nested
    have shallow := of_decide_eq_true (List.mem_filter.mp kept).2
    have same := nest_inj written
    omega

end Sample

abbrev sampleTexts : SerdeText where
  Value := Sample
  null := .null
  toVec := Sample.toVec
  write := Sample.write
  document := Sample.document
  read := Sample.read
  fromSlice b := (Sample.document b).bind (Sample.read 128)
  numeral n := if ((List.finRange 10).map fun d => d.val.repr).contains n then some n else none
  document_toVec v := by
    cases v with
    | null => rfl
    | bool b => cases b <;> rfl
    | digit d =>
      have digits : ∀ d, Sample.document (Sample.digit d).toVec = some (.num d.val.repr) := by decide +kernel
      exact digits d
    | nested depth =>
      have half : (Sample.brackets depth.val).length / 2 - 1 = depth.val := by
        simp [Sample.brackets]
        omega
      simp only [Sample.document, Sample.toVec, half, ↓reduceIte]
      rfl
  fromSlice_eq _ := rfl
  write_null := rfl

end Ws
end GrpcWebnext
