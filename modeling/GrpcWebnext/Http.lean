import GrpcWebnext.Bytes
import GrpcWebnext.Lib.Utf8

/-!
# HTTP headers

The `http` crate's header names, values and map, as far as the metadata code uses them. A
name or a value that the crate would refuse cannot be built.
-/

namespace GrpcWebnext

/-- The characters of a stored name: RFC 9110 token characters, letters in lower case. -/
def headerNameChar (c : Char) : Bool :=
  c.isLower || c.isDigit || "!#$%&'*+-.^_`|~".toList.contains c

/-- `HeaderName`: a nonempty token of at most `u16::MAX` bytes, in lower case. -/
structure HeaderName where
  name : String
  wf : name.toList ≠ [] ∧ name.toList.length ≤ 65535 ∧ name.toList.all headerNameChar = true
  deriving DecidableEq

namespace HeaderName

/-- `HeaderName::from_bytes`: ASCII letters are lowered, any other character stays or is refused. -/
def fromBytes (key : String) : Option HeaderName :=
  let lower := String.ofList (key.toList.map Char.toLower)
  if wf : lower.toList ≠ [] ∧ lower.toList.length ≤ 65535 ∧ lower.toList.all headerNameChar = true then
    some ⟨lower, wf⟩
  else none

def contentType : HeaderName := ⟨"content-type", by decide⟩
def te : HeaderName := ⟨"te", by decide⟩
def grpcTimeout : HeaderName := ⟨"grpc-timeout", by decide⟩
def grpcStatus : HeaderName := ⟨"grpc-status", by decide⟩
def grpcMessage : HeaderName := ⟨"grpc-message", by decide⟩

end HeaderName

/-- The bytes `HeaderValue` accepts: no control character but the tab. -/
def headerValueByte (b : UInt8) : Bool := 32 ≤ b && b != 127 || b == 9

def visibleAscii (b : UInt8) : Bool := 32 ≤ b && b < 127 || b == 9

theorem toNat_toUInt8_ascii {n : Nat} (small : n < 127) : n.toUInt8.toNat = n := by
  simp [Nat.toUInt8]
  omega

theorem visibleAscii_toUInt8 {n : Nat} (lo : 32 ≤ n) (hi : n < 127) : visibleAscii n.toUInt8 = true := by
  simp [visibleAscii, UInt8.le_iff_toNat_le, UInt8.lt_iff_toNat_lt, toNat_toUInt8_ascii hi, lo, hi]

theorem headerValueByte_of_visible {b : UInt8} (visible : visibleAscii b = true) :
    headerValueByte b = true := by
  simp only [visibleAscii, headerValueByte, Bool.or_eq_true, Bool.and_eq_true, decide_eq_true_eq,
    beq_iff_eq, bne_iff_ne] at visible ⊢
  rcases visible with ⟨lo, hi⟩ | tab
  · exact .inl ⟨lo, fun same => absurd (same ▸ hi) (by decide)⟩
  · exact .inr tab

structure HeaderValue where
  bytes : Bytes
  wf : bytes.all headerValueByte = true
  deriving DecidableEq

namespace HeaderValue

def fromBytes (b : Bytes) : Option HeaderValue :=
  if wf : b.all headerValueByte = true then some ⟨b, wf⟩ else none

def fromStr (s : String) : Option HeaderValue := fromBytes (Utf8.encode s)

def toStr (v : HeaderValue) : Option String :=
  if v.bytes.all visibleAscii then some (String.ofList (v.bytes.map fun b => Char.ofNat b.toNat)) else none

theorem isDigit_iff {c : Char} : c.isDigit = true ↔ 48 ≤ c.toNat ∧ c.toNat ≤ 57 := by
  simp only [Char.isDigit, Bool.and_eq_true, decide_eq_true_eq]
  exact Iff.rfl

theorem isLower_iff {c : Char} : c.isLower = true ↔ 97 ≤ c.toNat ∧ c.toNat ≤ 122 := by
  rw [show c.isLower = (decide (c.val ≥ 'a'.val) && decide (c.val ≤ 'z'.val)) from rfl, Bool.and_eq_true,
    decide_eq_true_eq, decide_eq_true_eq]
  exact Iff.rfl

theorem isUpper_iff {c : Char} : c.isUpper = true ↔ 65 ≤ c.toNat ∧ c.toNat ≤ 90 := by
  rw [show c.isUpper = decide (c.val ≥ 'A'.val ∧ c.val ≤ 'Z'.val) from rfl, decide_eq_true_eq]
  exact Iff.rfl

theorem repr_digit {n : Nat} {c : Char} (member : c ∈ n.repr.toList) : 48 ≤ c.toNat ∧ c.toNat ≤ 57 :=
  isDigit_iff.mp (Nat.isDigit_of_mem_toDigits (by decide) (by decide) (Nat.toList_repr (n := n) ▸ member))

theorem visible_repr (n : Nat) :
    (n.repr.toList.map fun c => c.toNat.toUInt8).all visibleAscii = true := by
  simp only [List.all_map, List.all_eq_true, Function.comp_apply]
  intro c member
  have digit := repr_digit member
  exact visibleAscii_toUInt8 (by omega) (by omega)

def ofNat (n : Nat) : HeaderValue where
  bytes := n.repr.toList.map fun c => c.toNat.toUInt8
  wf := List.all_eq_true.mpr fun _ member =>
    headerValueByte_of_visible (List.all_eq_true.mp (visible_repr n) _ member)

theorem toStr_ofNat (n : Nat) : (ofNat n).toStr = some n.repr := by
  have back : ∀ c ∈ n.repr.toList, Char.ofNat c.toNat.toUInt8.toNat = c := by
    intro c member
    have digit := repr_digit member
    rw [toNat_toUInt8_ascii (by omega), Char.ofNat_toNat]
  have visible : (ofNat n).bytes.all visibleAscii = true := visible_repr n
  unfold toStr
  rw [if_pos visible, Option.some.injEq]
  simp only [ofNat, List.map_map]
  conv => rhs; rw [← String.ofList_toList (s := n.repr)]
  rw [List.map_congr_left (g := id) (by simpa using back), List.map_id]

end HeaderValue

/-- `HeaderMap`, as its iterator gives it: every value with its name, the values of one name
next to each other in the order they were appended. -/
abbrev HeaderMap := List (HeaderName × HeaderValue)

namespace HeaderMap

def getAll (m : HeaderMap) (name : HeaderName) : List HeaderValue :=
  m.filterMap fun e => if e.1 = name then some e.2 else none

def get (m : HeaderMap) (name : HeaderName) : Option HeaderValue := (m.getAll name).head?

def containsKey (m : HeaderMap) (name : HeaderName) : Bool := m.any fun e => e.1 = name

def append : HeaderMap → HeaderName → HeaderValue → HeaderMap
  | [], n, v => [(n, v)]
  | e :: m, n, v =>
    if e.1 = n ∧ containsKey m n = false then e :: (n, v) :: m else e :: append m n v

def insert (m : HeaderMap) (n : HeaderName) (v : HeaderValue) : HeaderMap :=
  match m with
  | [] => [(n, v)]
  | e :: m => if e.1 = n then (n, v) :: m.filter (fun e => e.1 ≠ n) else e :: insert m n v

/-- `extend` with another map: each of its names replaces the values held under that name.
`seen` are the names of the other map met so far. -/
def extendFrom (seen : List HeaderName) (m : HeaderMap) : HeaderMap → HeaderMap
  | [] => m
  | (n, v) :: other =>
    if n ∈ seen then extendFrom seen (m.append n v) other
    else extendFrom (n :: seen) (m.insert n v) other

def extend (m other : HeaderMap) : HeaderMap := extendFrom [] m other

@[simp] theorem getAll_nil (name : HeaderName) : getAll [] name = [] := rfl

theorem getAll_cons (e : HeaderName × HeaderValue) (m : HeaderMap) (name : HeaderName) :
    getAll (e :: m) name = if e.1 = name then e.2 :: getAll m name else getAll m name := by
  simp only [getAll, List.filterMap_cons]
  split <;> simp_all

theorem getAll_eq_nil_iff {m : HeaderMap} {name : HeaderName} :
    getAll m name = [] ↔ containsKey m name = false := by
  induction m with
  | nil => simp [containsKey]
  | cons e m ih =>
    rw [getAll_cons]
    by_cases same : e.1 = name
    · simp [same, containsKey]
    · simpa [same, containsKey] using ih

theorem getAll_append (m : HeaderMap) (n : HeaderName) (v : HeaderValue) (name : HeaderName) :
    getAll (append m n v) name = getAll m name ++ if n = name then [v] else [] := by
  induction m with
  | nil => by_cases same : n = name <;> simp [append, getAll_cons, same]
  | cons e m ih =>
    unfold append
    split
    · rename_i last
      obtain ⟨here, absent⟩ := last
      have none := getAll_eq_nil_iff.mpr absent
      by_cases same : n = name
      · subst same
        simp [getAll_cons, here, none]
      · simp [getAll_cons, here, same]
    · rw [getAll_cons, getAll_cons, ih]
      split <;> simp

end HeaderMap

end GrpcWebnext
