import GrpcWebnext.Backend
import GrpcWebnext.GrpcFraming
import GrpcWebnext.Pb

/-!
# The size limit of the h2ts path

`GrpcSizeLimit` walks the request body of a tunnelled call, chunk by chunk, and fails it at the first
gRPC header that declares more than the limit. It keeps its own parse state beside the de-framer's.
-/

namespace GrpcWebnext
namespace H2ts
open GrpcFraming

inductive InspectError where
  | status (status : Status)
  /-- the panic of an index behind the end of `len_buf` -/
  | index
  deriving DecidableEq

def InspectError.exceeded (max : Nat) : InspectError :=
  .status ⟨.resourceExhausted, s!"request message exceeds size limit ({max} bytes)"⟩

structure GrpcSizeLimit where
  max : Nat
  headerSeen : Nat := 0
  lenBuf : Bytes := [0, 0, 0, 0]
  bodyRemaining : Nat := 0
  deriving DecidableEq

namespace GrpcSizeLimit

def new (max : Nat) : GrpcSizeLimit := { max }

/-- A header byte: the first is the flag, the others go to `len_buf`. -/
def header (g : GrpcSizeLimit) (b : UInt8) : GrpcSizeLimit × Except InspectError Unit :=
  if 1 ≤ g.headerSeen ∧ g.lenBuf.length ≤ g.headerSeen - 1 then (g, .error .index)
  else
    let seen := { g with
      lenBuf := if 1 ≤ g.headerSeen then g.lenBuf.set (g.headerSeen - 1) b else g.lenBuf
      headerSeen := g.headerSeen + 1 }
    if seen.headerSeen = 5 then
      if getU32 seen.lenBuf > g.max then (seen, .error (.exceeded g.max))
      else ({ seen with bodyRemaining := getU32 seen.lenBuf }, .ok ())
    else (seen, .ok ())

/-- What a turn takes of `available` payload bytes. -/
def payload (g : GrpcSizeLimit) (available : Nat) : GrpcSizeLimit × Nat :=
  let take := min g.bodyRemaining available
  let left := g.bodyRemaining - take
  ({ g with bodyRemaining := left, headerSeen := if left = 0 then 0 else g.headerSeen }, take)

/-- One turn of the loop, at a byte and those behind it: what is left of them. -/
def turn (g : GrpcSizeLimit) (b : UInt8) (rest : Bytes) : GrpcSizeLimit × Except InspectError Bytes :=
  if g.headerSeen < 5 then
    let (g, result) := g.header b
    (g, result.map fun _ => rest)
  else
    let (g, take) := g.payload (rest.length + 1)
    (g, .ok ((b :: rest).drop take))

/-- The loop, for a number of turns; `none` if they do not suffice. -/
def walk : Nat → GrpcSizeLimit → Bytes → Option (GrpcSizeLimit × Except InspectError Unit)
  | 0, _, _ => none
  | _ + 1, g, [] => some (g, .ok ())
  | turns + 1, g, b :: rest =>
    match g.turn b rest with
    | (g, .ok left) => walk turns g left
    | (g, .error e) => some (g, .error e)

/-- `inspect`. A turn takes a byte or begins a header, so twice the length is enough. -/
def inspect (g : GrpcSizeLimit) (data : Bytes) : Option (GrpcSizeLimit × Except InspectError Unit) :=
  walk (2 * data.length + 2) g data

end GrpcSizeLimit

/-! ### The specification -/

/-- Behind complete frames stands a header that declares more than `max`. -/
structure Oversized (max : Nat) (stream before head : Bytes) : Prop where
  within : before ++ head <+: stream
  frames : (Deframer.push {} before).drain.2 = {}
  header : head.length = 5
  exceeds : max < getU32 head.tail

structure FirstOversized (max : Nat) (stream before head : Bytes) : Prop extends Oversized max stream before head where
  first : ∀ before' head', Oversized max stream before' head' → before.length ≤ before'.length

/-- The byte at position `n` arrives with chunk `k`. -/
def InChunk (chunks : List Bytes) (k n : Nat) : Prop :=
  (chunks.take k).flatten.length ≤ n ∧ n < (chunks.take (k + 1)).flatten.length

/-- How `inspect` fares on chunk after chunk. -/
inductive Inspected where
  | passed (g : GrpcSizeLimit)
  | failed (chunk : Nat) (e : InspectError)
  | diverged (chunk : Nat)
  deriving DecidableEq

def Inspected.later : Inspected → Inspected
  | .passed g => .passed g
  | .failed k e => .failed (k + 1) e
  | .diverged k => .diverged (k + 1)

def inspectAll (g : GrpcSizeLimit) : List Bytes → Inspected
  | [] => .passed g
  | chunk :: rest =>
    match g.inspect chunk with
    | some (g, .ok ()) => (inspectAll g rest).later
    | some (_, .error e) => .failed 0 e
    | none => .diverged 0

/-! ### Where a header ends -/

/-- `b` is the fifth header byte behind `before`, of a header that declares more than `max`. -/
def Exceeds (max : Nat) (before : Bytes) (b : UInt8) : Prop :=
  (grpc.drain before).2.length = 4 ∧ max < getU32 ((grpc.drain before).2 ++ [b]).tail

/-- No header that ends in `more` declares more than `max`. -/
def Clean (max : Nat) (before more : Bytes) : Prop := ∀ a b c, more = a ++ b :: c → ¬Exceeds max (before ++ a) b

theorem Clean.nil (max : Nat) (before : Bytes) : Clean max before [] := by
  intro a b c none
  cases a <;> cases none

theorem Clean.append {max : Nat} {before x y : Bytes} (first : Clean max before x) (later : Clean max (before ++ x) y) :
    Clean max before (x ++ y) := by
  intro a b c split
  rcases List.append_eq_append_iff.mp split with ⟨a', rfl, there⟩ | ⟨c', here, cut⟩
  · rw [← List.append_assoc]
    exact later a' b c there
  · cases c' with
    | nil =>
      rw [List.append_nil] at here
      subst here
      have at_start := later [] b c cut.symm
      rwa [List.append_nil] at at_start
    | cons b' c' =>
      obtain ⟨rfl, _⟩ := List.cons.inj cut
      exact first a b c' here

/-! ### One turn -/

/-- The state behind the bytes of `before`. -/
structure Tracks (max : Nat) (before : Bytes) (g : GrpcSizeLimit) : Prop where
  limit : g.max = max
  buffer : g.lenBuf.length = 4
  /-- inside a header, in front of one, or inside a payload -/
  position : (g.headerSeen < 5 ∧ (grpc.drain before).2.length = g.headerSeen ∧
      g.lenBuf.take (g.headerSeen - 1) = (grpc.drain before).2.tail) ∨
    (g.headerSeen = 5 ∧ g.bodyRemaining = 0 ∧ (grpc.drain before).2 = []) ∨
    (g.headerSeen = 5 ∧ 0 < g.bodyRemaining ∧ ∃ head part, (grpc.drain before).2 = head ++ part ∧
      head.length = 5 ∧ part.length + g.bodyRemaining = getU32 head.tail)

theorem Tracks.start (max : Nat) : Tracks max [] (.new max) where
  limit := rfl
  buffer := rfl
  position := by
    rw [LengthPrefix.Format.drain_nil]
    exact .inl ⟨Nat.zero_lt_succ 4, rfl, rfl⟩

/-- More bytes behind an incomplete rest. -/
theorem drain_more (before more : Bytes) :
    (grpc.drain (before ++ more)).2 = (grpc.drain ((grpc.drain before).2 ++ more)).2 := by
  rw [grpc.drain_append before more]

theorem drain_short {rest : Bytes} (short : rest.length < 5) : grpc.drain rest = ([], rest) := by
  refine LengthPrefix.Format.drain_none ?_
  rw [LengthPrefix.Format.next]
  exact if_pos short

theorem drain_header {head part : Bytes} (header : head.length = 5) (less : part.length < getU32 head.tail) :
    grpc.drain (head ++ part) = ([], head ++ part) := by
  refine LengthPrefix.Format.drain_none ?_
  have taken : (head ++ part).take grpc.header = head := List.take_left' header
  have declared : grpc.declared head = getU32 head.tail := rfl
  simp only [LengthPrefix.Format.next, taken, declared]
  rw [if_neg (by simp [grpc, header]), if_pos (by simp [grpc, header, less])]

theorem drain_frame {head part : Bytes} (header : head.length = 5) (full : part.length = getU32 head.tail) :
    (grpc.drain (head ++ part)).2 = [] := by
  have found : grpc.next (head ++ part) = some (part, []) :=
    LengthPrefix.Format.next_eq_some.mpr ⟨head, header, full, (List.append_nil _).symm⟩
  rw [LengthPrefix.Format.drain_some found, LengthPrefix.Format.drain_nil]

theorem take_set {buf : Bytes} {i : Nat} (within : i < buf.length) (b : UInt8) :
    (buf.set i b).take (i + 1) = buf.take i ++ [b] := by
  rw [List.take_add_one, List.take_set_of_le (Nat.le_refl i), List.getElem?_set_self within, Option.toList_some]

/-- What `len_buf` holds behind one more header byte. -/
theorem lenBuf_more {g : GrpcSizeLimit} {rest : Bytes} (buffer : g.lenBuf.length = 4) (inHeader : g.headerSeen < 5)
    (seen : rest.length = g.headerSeen) (kept : g.lenBuf.take (g.headerSeen - 1) = rest.tail) (b : UInt8) :
    (if 1 ≤ g.headerSeen then g.lenBuf.set (g.headerSeen - 1) b else g.lenBuf).take g.headerSeen = (rest ++ [b]).tail := by
  cases rest with
  | nil =>
    have start : g.headerSeen = 0 := seen.symm
    rw [start]
    rfl
  | cons c rest =>
    obtain ⟨k, behind⟩ : ∃ k, g.headerSeen = k + 1 := ⟨rest.length, seen.symm⟩
    rw [behind] at kept inHeader ⊢
    rw [if_pos (Nat.le_add_left 1 k), Nat.add_sub_cancel, take_set (by omega)]
    exact congrArg (· ++ [b]) kept

theorem header_spec {max : Nat} {before : Bytes} {g : GrpcSizeLimit} (tracks : Tracks max before g)
    (inHeader : g.headerSeen < 5) (b : UInt8) :
    (Exceeds max before b ∧ (g.header b).2 = .error (.exceeded max)) ∨
    (¬Exceeds max before b ∧ (g.header b).2 = .ok () ∧ Tracks max (before ++ [b]) (g.header b).1) := by
  obtain ⟨limit, buffer, position⟩ := tracks
  obtain ⟨seen, kept⟩ : (grpc.drain before).2.length = g.headerSeen ∧
      g.lenBuf.take (g.headerSeen - 1) = (grpc.drain before).2.tail := by
    rcases position with ⟨_, seen, kept⟩ | ⟨full, _⟩ | ⟨full, _⟩
    · exact ⟨seen, kept⟩
    · omega
    · omega
  have more := drain_more before [b]
  have held := lenBuf_more buffer inHeader seen kept b
  unfold Exceeds GrpcSizeLimit.header
  generalize (grpc.drain before).2 = rest at seen held more
  have inRange : ¬(1 ≤ g.headerSeen ∧ g.lenBuf.length ≤ g.headerSeen - 1) := by omega
  have size : (if 1 ≤ g.headerSeen then g.lenBuf.set (g.headerSeen - 1) b else g.lenBuf).length = 4 := by
    split
    · rw [List.length_set, buffer]
    · exact buffer
  simp only [inRange, ↓reduceIte]
  generalize (if 1 ≤ g.headerSeen then g.lenBuf.set (g.headerSeen - 1) b else g.lenBuf) = buf at held size
  have grown : (rest ++ [b]).length = g.headerSeen + 1 := by rw [List.length_append, seen, List.length_singleton]
  by_cases last : g.headerSeen + 1 = 5
  · have whole : buf = (rest ++ [b]).tail := by
      rw [← held, List.take_of_length_le (by omega)]
    have four : rest.length = 4 := by omega
    rw [if_pos last, whole, limit]
    by_cases excess : getU32 (rest ++ [b]).tail > max
    · rw [if_pos excess]
      exact .inl ⟨⟨four, excess⟩, rfl⟩
    · rw [if_neg excess]
      refine .inr ⟨fun exceeds => excess exceeds.2, rfl, rfl, whole ▸ size, .inr ?_⟩
      rw [more]
      by_cases empty : getU32 (rest ++ [b]).tail = 0
      · refine .inl ⟨last, empty, ?_⟩
        rw [← List.append_nil (rest ++ [b])]
        exact drain_frame (grown.trans last) empty.symm
      · have some : 0 < getU32 (rest ++ [b]).tail := Nat.pos_of_ne_zero empty
        refine .inr ⟨last, some, rest ++ [b], [], ?_, grown.trans last, Nat.zero_add _⟩
        have begun : grpc.drain (rest ++ [b] ++ []) = ([], rest ++ [b] ++ []) := drain_header (grown.trans last) some
        rw [List.append_nil] at begun
        rw [begun, List.append_nil]
  · rw [if_neg last]
    refine .inr ⟨fun exceeds => last (by omega), rfl, limit, size, .inl ⟨?_, ?_, ?_⟩⟩
    · show g.headerSeen + 1 < 5
      omega
    · rw [more, drain_short (by omega)]
      exact grown
    · rw [more, drain_short (by omega)]
      exact held

theorem payload_spec {max : Nat} {before : Bytes} {g : GrpcSizeLimit} (tracks : Tracks max before g)
    (inPayload : ¬g.headerSeen < 5) (data : Bytes) :
    Clean max before (data.take (g.payload data.length).2) ∧
      Tracks max (before ++ data.take (g.payload data.length).2) (g.payload data.length).1 := by
  obtain ⟨limit, buffer, position⟩ := tracks
  rcases position with ⟨inHeader, _⟩ | ⟨full, done, none⟩ | ⟨full, some, head, part, rest, header, declared⟩
  · exact absurd inHeader inPayload
  · have nothing : (g.payload data.length).2 = 0 := by simp [GrpcSizeLimit.payload, done]
    have cleared : (g.payload data.length).1 = { g with headerSeen := 0 } := by
      simp [GrpcSizeLimit.payload, done]
    rw [nothing, cleared, List.take_zero, List.append_nil]
    refine ⟨.nil max before, limit, buffer, .inl ⟨Nat.zero_lt_succ 4, ?_, ?_⟩⟩
    · rw [none]
      rfl
    · rw [none]
      rfl
  · have more := fun taken : Bytes => drain_more before taken
    rw [rest] at more
    have long : ∀ taken : Bytes, taken.length < g.bodyRemaining →
        (grpc.drain (before ++ taken)).2 = head ++ (part ++ taken) := by
      intro taken less
      rw [more, List.append_assoc, drain_header header (by rw [List.length_append]; omega)]
    constructor
    · intro a b c split exceeds
      have lengths := congrArg List.length split
      simp only [GrpcSizeLimit.payload, List.length_take, List.length_append, List.length_cons] at lengths
      have four := exceeds.1
      rw [long a (by omega), List.length_append] at four
      omega
    · refine ⟨limit, buffer, ?_⟩
      simp only [GrpcSizeLimit.payload]
      by_cases last : g.bodyRemaining ≤ data.length
      · have all : min g.bodyRemaining data.length = g.bodyRemaining := Nat.min_eq_left last
        have ended : (grpc.drain (before ++ data.take g.bodyRemaining)).2 = [] := by
          rw [more, List.append_assoc]
          refine drain_frame header ?_
          rw [List.length_append, List.length_take, all]
          exact declared
        rw [all, Nat.sub_self, if_pos rfl, ended]
        exact .inl ⟨Nat.zero_lt_succ 4, rfl, rfl⟩
      · have all : min g.bodyRemaining data.length = data.length := Nat.min_eq_right (by omega)
        rw [all, List.take_length, if_neg (by omega), long data (by omega)]
        refine .inr (.inr ⟨full, by omega, head, part ++ data, rfl, header, ?_⟩)
        rw [List.length_append]
        omega

/-- A turn that takes no byte begins a header. -/
def owes (g : GrpcSizeLimit) : Nat := if g.headerSeen < 5 ∨ 0 < g.bodyRemaining then 0 else 1

theorem turn_spec {max : Nat} {before : Bytes} {g : GrpcSizeLimit} (tracks : Tracks max before g) (b : UInt8)
    (rest : Bytes) :
    (∃ g', g.turn b rest = (g', .error (.exceeded max)) ∧ Exceeds max before b) ∨
    ∃ g' taken left, g.turn b rest = (g', .ok left) ∧ b :: rest = taken ++ left ∧ Clean max before taken ∧
      Tracks max (before ++ taken) g' ∧ 2 * left.length + owes g' < 2 * (b :: rest).length + owes g := by
  by_cases inHeader : g.headerSeen < 5
  · rcases header_spec tracks inHeader b with ⟨exceeds, failed⟩ | ⟨within, read, tracks'⟩
    · refine .inl ⟨(g.header b).1, ?_, exceeds⟩
      rw [GrpcSizeLimit.turn, if_pos inHeader]
      show ((g.header b).1, (g.header b).2.map fun _ => rest) = _
      rw [failed]
      rfl
    · refine .inr ⟨(g.header b).1, [b], rest, ?_, rfl, ?_, tracks', ?_⟩
      · rw [GrpcSizeLimit.turn, if_pos inHeader]
        show ((g.header b).1, (g.header b).2.map fun _ => rest) = _
        rw [read]
        rfl
      · intro a b' c split
        cases a with
        | nil =>
          obtain ⟨rfl, _⟩ := List.cons.inj split
          rwa [List.append_nil]
        | cons _ a => cases a <;> cases (List.cons.inj split).2
      · have most : owes (g.header b).1 ≤ 1 := by
          unfold owes
          split <;> decide
        rw [List.length_cons]
        omega
  · obtain ⟨clean, tracks'⟩ := payload_spec tracks inHeader (b :: rest)
    refine .inr ⟨_, _, (b :: rest).drop (g.payload (b :: rest).length).2, ?_, (List.take_append_drop _ _).symm, clean,
      tracks', ?_⟩
    · rw [GrpcSizeLimit.turn, if_neg inHeader]
      rfl
    · rw [List.length_drop, List.length_cons]
      unfold owes
      simp only [GrpcSizeLimit.payload, inHeader, false_or]
      split <;> split <;> split <;> omega

theorem walk_spec {max : Nat} (turns : Nat) {before data : Bytes} {g : GrpcSizeLimit} (tracks : Tracks max before g)
    (enough : 2 * data.length + owes g < turns) :
    (∃ g', g.walk turns data = some (g', .ok ()) ∧ Clean max before data ∧ Tracks max (before ++ data) g') ∨
    ∃ g' a b c, g.walk turns data = some (g', .error (.exceeded max)) ∧ data = a ++ b :: c ∧ Clean max before a ∧
      Exceeds max (before ++ a) b := by
  induction turns generalizing before data g with
  | zero => omega
  | succ turns ih =>
    cases data with
    | nil => exact .inl ⟨g, rfl, .nil max before, by rwa [List.append_nil]⟩
    | cons b rest =>
      rcases turn_spec tracks b rest with ⟨g', failed, exceeds⟩ | ⟨g', taken, left, took, split, clean, tracks', less⟩
      · refine .inr ⟨g', [], b, rest, ?_, rfl, .nil max before, by rwa [List.append_nil]⟩
        rw [GrpcSizeLimit.walk, failed]
      · have remains : 2 * left.length + owes g' < turns := by omega
        rw [GrpcSizeLimit.walk, took, split]
        rcases ih tracks' remains with ⟨g'', walked, later, tracks''⟩ | ⟨g'', a, c, d, walked, later, none, exceeds⟩
        · refine .inl ⟨g'', walked, clean.append later, ?_⟩
          rwa [← List.append_assoc]
        · refine .inr ⟨g'', taken ++ a, c, d, walked, ?_, clean.append none, ?_⟩
          · rw [later, List.append_assoc]
          · rwa [← List.append_assoc]

theorem inspect_spec {max : Nat} {before : Bytes} {g : GrpcSizeLimit} (tracks : Tracks max before g) (data : Bytes) :
    (∃ g', g.inspect data = some (g', .ok ()) ∧ Clean max before data ∧ Tracks max (before ++ data) g') ∨
    ∃ g' a b c, g.inspect data = some (g', .error (.exceeded max)) ∧ data = a ++ b :: c ∧ Clean max before a ∧
      Exceeds max (before ++ a) b := by
  refine walk_spec _ tracks ?_
  unfold owes
  split <;> omega

/-! ### Chunk after chunk -/

theorem inspectAll_spec {max : Nat} {before : Bytes} {g : GrpcSizeLimit} (tracks : Tracks max before g)
    (chunks : List Bytes) :
    (∃ g', inspectAll g chunks = .passed g' ∧ Clean max before chunks.flatten) ∨
    ∃ k a b c, inspectAll g chunks = .failed k (.exceeded max) ∧ chunks.flatten = a ++ b :: c ∧ Clean max before a ∧
      Exceeds max (before ++ a) b ∧ InChunk chunks k a.length := by
  induction chunks generalizing before g with
  | nil => exact .inl ⟨g, rfl, .nil max before⟩
  | cons chunk rest ih =>
    rcases inspect_spec tracks chunk with ⟨g', inspected, clean, tracks'⟩ | ⟨g', a, b, c, failed, split, clean, exceeds⟩
    · rcases ih tracks' with ⟨g'', passed, later⟩ | ⟨k, a, b, c, failed, split, later, exceeds, inside⟩
      · refine .inl ⟨g'', ?_, clean.append later⟩
        rw [inspectAll, inspected]
        exact congrArg Inspected.later passed
      · refine .inr ⟨k + 1, chunk ++ a, b, c, ?_, ?_, clean.append later, ?_, ?_⟩
        · rw [inspectAll, inspected]
          exact congrArg Inspected.later failed
        · rw [List.flatten_cons, split, List.append_assoc]
        · rwa [← List.append_assoc]
        · obtain ⟨behind, within⟩ := inside
          simp only [InChunk, List.take_succ_cons, List.flatten_cons, List.length_append]
          omega
    · refine .inr ⟨0, a, b, c ++ rest.flatten, ?_, ?_, clean, exceeds, ?_⟩
      · rw [inspectAll, failed]
      · rw [List.flatten_cons, split, List.append_assoc, List.cons_append]
      · simp [InChunk, split]

theorem Oversized.ends {max : Nat} {stream before head : Bytes} (big : Oversized max stream before head) :
    ∃ h b c, head = h ++ [b] ∧ h.length = 4 ∧ stream = (before ++ h) ++ b :: c ∧ Exceeds max (before ++ h) b := by
  obtain ⟨⟨c, rfl⟩, frames, header, exceeds⟩ := big
  have complete : (grpc.drain before).2 = [] := by
    rw [drain_eq] at frames
    exact congrArg Deframer.buf frames
  rcases List.eq_nil_or_concat head with rfl | ⟨h, b, rfl⟩
  · cases header
  · rw [List.concat_eq_append] at *
    have four : h.length = 4 := by
      rw [List.length_append, List.length_singleton] at header
      omega
    have rest : (grpc.drain (before ++ h)).2 = h := by
      rw [LengthPrefix.Format.drain_complete complete, drain_short (by omega)]
    refine ⟨h, b, c, rfl, four, by simp, ?_⟩
    rw [Exceeds, rest]
    exact ⟨four, exceeds⟩

theorem Exceeds.oversized {max : Nat} {a c : Bytes} {b : UInt8} (exceeds : Exceeds max a b) :
    ∃ before head, Oversized max (a ++ b :: c) before head ∧ a.length = before.length + 4 := by
  obtain ⟨four, excess⟩ := exceeds
  obtain ⟨before, split, complete⟩ := grpc.drain_split a
  refine ⟨before, (grpc.drain a).2 ++ [b], ⟨⟨c, ?_⟩, ?_, ?_, excess⟩, ?_⟩
  · rw [← List.append_assoc before, ← split, List.append_assoc, List.singleton_append]
  · rw [drain_eq]
    exact congrArg Deframer.mk complete
  · rw [List.length_append, four, List.length_singleton]
  · rw [← four, ← List.length_append, ← split]

/-- `inspect` fails first on the chunk with the fifth byte of the first header that declares more than
the limit, and never if there is none. -/
theorem size_guard (max : Nat) (chunks : List Bytes) :
    (∀ before head, FirstOversized max chunks.flatten before head → ∃ k, InChunk chunks k (before.length + 4) ∧
      inspectAll (.new max) chunks = .failed k (.exceeded max)) ∧
    ((∀ before head, ¬Oversized max chunks.flatten before head) → ∃ g, inspectAll (.new max) chunks = .passed g) := by
  rcases inspectAll_spec (.start max) chunks with ⟨g, passed, clean⟩ | ⟨k, a, b, c, failed, split, clean, exceeds, inside⟩
  · refine ⟨fun before head big => ?_, fun _ => ⟨g, passed⟩⟩
    obtain ⟨h, b, c, _, _, split, exceeds⟩ := big.toOversized.ends
    exact absurd exceeds (clean (before ++ h) b c split)
  · rw [List.nil_append] at exceeds
    obtain ⟨before', head', big', length'⟩ := exceeds.oversized (c := c)
    rw [← split] at big'
    refine ⟨fun before head big => ⟨k, ?_, failed⟩, fun none => absurd big' (none before' head')⟩
    have least := big.first before' head' big'
    obtain ⟨h, b', c', rfl, four, there, exceeds'⟩ := big.toOversized.ends
    have same : before.length + 4 = a.length := by
      refine Nat.le_antisymm (by omega) (Nat.le_of_not_lt fun less => ?_)
      rw [split] at there
      rcases List.append_eq_append_iff.mp there with ⟨a', rest, _⟩ | ⟨a', rest, behind⟩
      · have lengths := congrArg List.length rest
        simp only [List.length_append] at lengths
        omega
      · cases a' with
        | nil =>
          rw [List.append_nil] at rest
          have lengths := congrArg List.length rest
          rw [List.length_append] at lengths
          omega
        | cons d a' =>
          obtain ⟨rfl, _⟩ := List.cons.inj behind
          exact clean (before ++ h) _ a' rest exceeds'
    rwa [same]

/-- An empty message, then a header for nine bytes that the third and the fifth chunk bring. -/
example : inspectAll (.new 4) [[0, 0, 0], [0, 0, 0], [], [0, 0], [9, 1]] = .failed 4 (.exceeded 4) := by decide

/-! ### Behind a failure -/

/-- What `inspect` relies on and leaves, whatever it returns. -/
structure Sound (max : Nat) (g : GrpcSizeLimit) : Prop where
  limit : g.max = max
  buffer : g.lenBuf.length = 4
  seen : g.headerSeen ≤ 5

theorem Sound.start (max : Nat) : Sound max (.new max) := ⟨rfl, rfl, Nat.zero_le 5⟩

section

variable {max : Nat} {g : GrpcSizeLimit} (sound : Sound max g)

include sound

theorem Sound.header (inHeader : g.headerSeen < 5) (b : UInt8) :
    Sound max (g.header b).1 ∧ ((g.header b).2 = .ok () ∨ (g.header b).2 = .error (.exceeded max)) := by
  obtain ⟨limit, buffer, _⟩ := sound
  have inRange : ¬(1 ≤ g.headerSeen ∧ g.lenBuf.length ≤ g.headerSeen - 1) := by omega
  have size : (if 1 ≤ g.headerSeen then g.lenBuf.set (g.headerSeen - 1) b else g.lenBuf).length = 4 := by
    split
    · rw [List.length_set, buffer]
    · exact buffer
  simp only [GrpcSizeLimit.header, if_neg inRange]
  generalize (if 1 ≤ g.headerSeen then g.lenBuf.set (g.headerSeen - 1) b else g.lenBuf) = buf at size
  split
  · split
    · exact ⟨⟨limit, size, inHeader⟩, .inr (by rw [limit])⟩
    · exact ⟨⟨limit, size, inHeader⟩, .inl rfl⟩
  · exact ⟨⟨limit, size, inHeader⟩, .inl rfl⟩

theorem Sound.turn (b : UInt8) (rest : Bytes) :
    ∃ g', Sound max g' ∧ (g.turn b rest = (g', .error (.exceeded max)) ∨
      ∃ left, g.turn b rest = (g', .ok left) ∧ 2 * left.length + owes g' < 2 * (b :: rest).length + owes g) := by
  by_cases inHeader : g.headerSeen < 5
  · obtain ⟨sound', result⟩ := sound.header inHeader b
    have read : g.turn b rest = ((g.header b).1, (g.header b).2.map fun _ => rest) := by
      rw [GrpcSizeLimit.turn, if_pos inHeader]
    refine ⟨_, sound', ?_⟩
    rw [read]
    rcases result with done | failed
    · have most : owes (g.header b).1 ≤ 1 := by
        unfold owes
        split <;> decide
      rw [done]
      refine .inr ⟨rest, rfl, ?_⟩
      rw [List.length_cons]
      omega
    · rw [failed]
      exact .inl rfl
  · refine ⟨(g.payload (rest.length + 1)).1, ⟨sound.limit, sound.buffer, ?_⟩,
      .inr ⟨(b :: rest).drop (g.payload (rest.length + 1)).2, ?_, ?_⟩⟩
    · simp only [GrpcSizeLimit.payload]
      split
      · exact Nat.zero_le 5
      · exact sound.seen
    · rw [GrpcSizeLimit.turn, if_neg inHeader]
    · rw [List.length_drop, List.length_cons]
      unfold owes
      simp only [GrpcSizeLimit.payload, inHeader, false_or]
      split <;> split <;> split <;> omega

theorem Sound.walk (turns : Nat) {data : Bytes} (enough : 2 * data.length + owes g < turns) :
    ∃ g' result, g.walk turns data = some (g', result) ∧ Sound max g' ∧
      (result = .ok () ∨ result = .error (.exceeded max)) := by
  induction turns generalizing data g with
  | zero => omega
  | succ turns ih =>
    cases data with
    | nil => exact ⟨g, .ok (), rfl, sound, .inl rfl⟩
    | cons b rest =>
      obtain ⟨g', sound', failed | ⟨left, took, less⟩⟩ := sound.turn b rest
      · refine ⟨g', .error (.exceeded max), ?_, sound', .inr rfl⟩
        rw [GrpcSizeLimit.walk, failed]
      · have smaller : 2 * left.length + owes g' < turns := by omega
        obtain ⟨g'', result, walked, kept⟩ := ih sound' smaller
        refine ⟨g'', result, ?_, kept⟩
        rw [GrpcSizeLimit.walk, took]
        exact walked

theorem Sound.inspect (data : Bytes) :
    ∃ g' result, g.inspect data = some (g', result) ∧ Sound max g' ∧
      (result = .ok () ∨ result = .error (.exceeded max)) := by
  refine sound.walk _ ?_
  unfold owes
  split <;> omega

end

/-- The results of `inspect` on chunk after chunk, also behind one that failed; `none` if a call does not end. -/
def inspectEach (g : GrpcSizeLimit) : List Bytes → Option (List (Except InspectError Unit))
  | [] => some []
  | chunk :: rest => do
    let (g, result) ← g.inspect chunk
    pure (result :: (← inspectEach g rest))

/-- Every call of `inspect` ends, and none indexes out of range, however often it failed before. -/
theorem inspectEach_ends (max : Nat) (chunks : List Bytes) :
    ∃ results, inspectEach (.new max) chunks = some results ∧ results.length = chunks.length ∧
      ∀ result ∈ results, result = .ok () ∨ result = .error (.exceeded max) := by
  have each : ∀ {g : GrpcSizeLimit}, Sound max g → ∃ results, inspectEach g chunks = some results ∧
      results.length = chunks.length ∧ ∀ result ∈ results, result = .ok () ∨ result = .error (.exceeded max) := by
    induction chunks with
    | nil => exact fun _ => ⟨[], rfl, rfl, List.forall_mem_nil _⟩
    | cons chunk rest ih =>
      intro g sound
      obtain ⟨g', result, inspected, sound', own⟩ := sound.inspect chunk
      obtain ⟨results, later, count, others⟩ := ih sound'
      refine ⟨result :: results, ?_, congrArg (· + 1) count, List.forall_mem_cons.mpr ⟨own, others⟩⟩
      rw [inspectEach, inspected]
      simp only [Option.bind_eq_bind, Option.bind_some, later]
      rfl
  exact each (.start max)

/-! ### What the inner service reads -/

/-- `poll_frame`, at a frame of the inner body. -/
def GrpcSizeLimit.pollFrame (g : GrpcSizeLimit) (event : BodyEvent) :
    Option (GrpcSizeLimit × Except InspectError BodyEvent) :=
  match event with
  | .data d => (g.inspect d).map fun (g, result) => (g, result.map fun _ => event)
  | event => some (g, .ok event)

/-- The results of polling to the end or to the guard's error. -/
def polls (g : GrpcSizeLimit) : Body → List (Except InspectError BodyEvent)
  | [] => []
  | event :: rest =>
    match g.pollFrame event with
    | some (g, .ok event) => .ok event :: polls g rest
    | some (_, .error e) => [.error e]
    | none => []

def chunksOf (body : Body) : List Bytes := body.filterMap fun | .data d => some d | _ => none

/-- Polling returns the frames up to the chunk that fails, or all of them. -/
structure PollsAs (g : GrpcSizeLimit) (body : Body) : Prop where
  passed : ∀ g', inspectAll g (chunksOf body) = .passed g' → polls g body = body.map .ok
  failed : ∀ k e, inspectAll g (chunksOf body) = .failed k e → ∃ before d after, body = before ++ .data d :: after ∧
    (chunksOf before).length = k ∧ polls g body = before.map .ok ++ [.error e]

theorem PollsAs.skip {g : GrpcSizeLimit} {rest : Body} (reads : PollsAs g rest) {event : BodyEvent}
    (other : ∀ body, chunksOf (event :: body) = chunksOf body) (polled : g.pollFrame event = some (g, .ok event)) :
    PollsAs g (event :: rest) where
  passed g' passed := by
    rw [other] at passed
    rw [polls, polled, List.map_cons]
    exact congrArg _ (reads.passed g' passed)
  failed k e failed := by
    rw [other] at failed
    obtain ⟨before, d, after, split, count, read⟩ := reads.failed k e failed
    refine ⟨event :: before, d, after, congrArg _ split, (congrArg List.length (other before)).trans count, ?_⟩
    rw [polls, polled, List.map_cons, List.cons_append]
    exact congrArg _ read

theorem PollsAs.data {g : GrpcSizeLimit} {rest : Body} (reads : ∀ g, PollsAs g rest) (d : Bytes) :
    PollsAs g (.data d :: rest) := by
  have chunks : ∀ body, chunksOf (.data d :: body) = d :: chunksOf body := fun _ => rfl
  have polled : g.pollFrame (.data d) =
      (g.inspect d).map fun (g, result) => (g, result.map fun _ => .data d) := rfl
  cases inspected : g.inspect d with
  | none => constructor <;> simp [chunks, inspectAll, inspected]
  | some found =>
    obtain ⟨g', result⟩ := found
    rw [inspected] at polled
    cases result with
    | error e =>
      refine ⟨by simp [chunks, inspectAll, inspected], fun k e' failed => ?_⟩
      rw [chunks, inspectAll, inspected] at failed
      cases failed
      refine ⟨[], d, rest, rfl, rfl, ?_⟩
      rw [polls, polled]
      rfl
    | ok =>
      have later : polls g (.data d :: rest) = .ok (.data d) :: polls g' rest := by
        rw [polls, polled]
        rfl
      have run : inspectAll g (chunksOf (.data d :: rest)) = (inspectAll g' (chunksOf rest)).later := by
        rw [chunks, inspectAll, inspected]
      constructor
      · intro g'' passed
        rw [run] at passed
        cases whole : inspectAll g' (chunksOf rest) with
        | passed last => rw [later, (reads g').passed last whole, List.map_cons]
        | failed k e =>
          rw [whole] at passed
          cases passed
        | diverged k =>
          rw [whole] at passed
          cases passed
      · intro k e failed
        rw [run] at failed
        cases whole : inspectAll g' (chunksOf rest) with
        | passed last =>
          rw [whole] at failed
          cases failed
        | failed k' e' =>
          rw [whole] at failed
          cases failed
          obtain ⟨before, d', after, split, count, read⟩ := (reads g').failed k' e whole
          refine ⟨.data d :: before, d', after, congrArg _ split, ?_, ?_⟩
          · rw [chunks, List.length_cons, count]
          · rw [later, read, List.map_cons, List.cons_append]
        | diverged k' =>
          rw [whole] at failed
          cases failed

theorem polls_spec (g : GrpcSizeLimit) (body : Body) : PollsAs g body := by
  induction body generalizing g with
  | nil => exact ⟨fun _ _ => rfl, nofun⟩
  | cons event rest ih =>
    cases event with
    | data d => exact .data ih d
    | trailers t => exact (ih g).skip (fun _ => rfl) rfl
    | error e => exact (ih g).skip (fun _ => rfl) rfl
    | eof => exact (ih g).skip (fun _ => rfl) rfl

end H2ts
end GrpcWebnext
