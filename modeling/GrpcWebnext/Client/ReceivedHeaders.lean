import Mathlib.Data.List.DropRight
import GrpcWebnext.Client.HeaderMetadata

/-!
# The headers of a response

What the `Headers` object of a browser holds of a response, and what `fromHeaders` reads in it. A value
arrives without the blanks at its ends, and the values of one name as one.
-/

namespace GrpcWebnext
namespace Client
namespace Responses

/-! ### Blanks -/

def blank (c : Char) : Bool := c.toNat ∈ [9, 10, 13, 32]

def trim (cs : List Char) : List Char := (cs.dropWhile blank).rdropWhile blank

theorem headerValue_eq (text : String) :
    headerValue text =
      if (trim text.toList).all fun c => c.toNat < 256 && c.toNat ∉ [0, 10, 13] then some (String.ofList (trim text.toList))
      else none := rfl

theorem trim_subset (cs : List Char) : trim cs ⊆ cs :=
  List.Subset.trans (List.rdropWhile_prefix blank _).subset (List.dropWhile_suffix blank).subset

theorem length_trim (cs : List Char) : (trim cs).length ≤ cs.length :=
  Nat.le_trans (List.rdropWhile_prefix blank _).length_le (List.dropWhile_suffix blank).length_le

theorem mem_trim {cs : List Char} {c : Char} (member : c ∈ cs) (inner : blank c = false) : c ∈ trim cs := by
  have stays : ∀ l : List Char, c ∈ l → c ∈ l.dropWhile blank := by
    intro l member
    rw [← List.takeWhile_append_dropWhile (p := blank) (l := l)] at member
    rcases List.mem_append.mp member with taken | kept
    · rw [List.mem_takeWhile_imp taken] at inner
      cases inner
    · exact kept
  have left := stays cs member
  rw [trim, List.rdropWhile, List.mem_reverse]
  exact stays _ (List.mem_reverse.mpr left)

theorem trim_eq_self_iff (cs : List Char) :
    trim cs = cs ↔ (∀ c ∈ cs.head?, blank c = false) ∧ ∀ c ∈ cs.getLast?, blank c = false := by
  have front : cs.dropWhile blank = cs ↔ ∀ c ∈ cs.head?, blank c = false := by
    cases cs with
    | nil => simp
    | cons c cs =>
      rw [List.dropWhile_eq_self_iff]
      simp
  have back : cs.rdropWhile blank = cs ↔ ∀ c ∈ cs.getLast?, blank c = false := by
    rw [List.rdropWhile_eq_self_iff]
    simp only [Bool.not_eq_true]
    constructor
    · intro last c member
      obtain ⟨some_, rfl⟩ := List.mem_getLast?_eq_getLast member
      exact last some_
    · intro last some_
      exact last _ (List.getLast?_eq_some_getLast some_)
  rw [← front, ← back]
  constructor
  · intro same
    have left : cs.dropWhile blank = cs := by
      apply (List.dropWhile_suffix blank).eq_of_length_le
      rw [← congrArg List.length same]
      exact (List.rdropWhile_prefix blank _).length_le
    refine ⟨left, ?_⟩
    rwa [trim, left] at same
  · rintro ⟨left, right⟩
    rw [trim, left, right]

/-! ### One value -/

/-- A value of the response as `Headers` holds it, byte by byte and without the blanks around it. -/
def receivedText (v : HeaderValue) : String :=
  (headerValue (String.ofList (v.bytes.map fun b => Char.ofNat b.toNat))).getD ""

/-- Nothing to trim. -/
def Solid (text : String) : Prop :=
  (∀ c ∈ text.toList.head?, c ≠ ' ' ∧ c ≠ '\t') ∧ ∀ c ∈ text.toList.getLast?, c ≠ ' ' ∧ c ≠ '\t'

theorem Solid.of_mem {text : String} (none : ∀ c ∈ text.toList, c ≠ ' ' ∧ c ≠ '\t') : Solid text :=
  ⟨fun c first => none c (List.mem_of_mem_head? first), fun c last => none c (List.mem_of_getLast? last)⟩

theorem toNat_ofNat_byte (b : UInt8) : (Char.ofNat b.toNat).toNat = b.toNat := by
  have small := b.toNat_lt
  have valid : b.toNat.isValidChar := .inl (by omega)
  rw [Char.ofNat, dif_pos valid]
  rfl

theorem toList_receivedText (v : HeaderValue) :
    (receivedText v).toList = trim (v.bytes.map fun b => Char.ofNat b.toNat) := by
  have legal : (trim (v.bytes.map fun b => Char.ofNat b.toNat)).all
      (fun c => c.toNat < 256 && c.toNat ∉ [0, 10, 13]) = true := by
    rw [List.all_eq_true]
    intro c member
    obtain ⟨b, inside, rfl⟩ := List.mem_map.mp (trim_subset _ member)
    have small := b.toNat_lt
    have byte := List.all_eq_true.mp v.wf b inside
    simp only [headerValueByte, Bool.or_eq_true, Bool.and_eq_true, decide_eq_true_eq, bne_iff_ne, beq_iff_eq,
      UInt8.le_iff_toNat_le] at byte
    simp only [toNat_ofNat_byte, List.mem_cons, List.not_mem_nil, or_false, Bool.and_eq_true, decide_eq_true_eq]
    rcases byte with range | rfl
    · have low : 32 ≤ b.toNat := range.1
      omega
    · decide
  rw [receivedText, headerValue_eq, String.toList_ofList, if_pos legal, Option.getD_some, String.toList_ofList]

theorem receivedText_empty {v : HeaderValue} (empty : v.bytes = []) : receivedText v = "" := by
  rw [← String.toList_inj, toList_receivedText, empty]
  rfl

theorem length_receivedText (v : HeaderValue) : (receivedText v).toList.length ≤ v.bytes.length := by
  rw [toList_receivedText]
  exact Nat.le_trans (length_trim _) (Nat.le_of_eq (List.length_map _))

theorem mem_receivedText {v : HeaderValue} {b : UInt8} (member : b ∈ v.bytes) (inner : b.toNat ∉ [9, 10, 13, 32]) :
    Char.ofNat b.toNat ∈ (receivedText v).toList := by
  rw [toList_receivedText]
  apply mem_trim (List.mem_map_of_mem member)
  rw [blank, toNat_ofNat_byte]
  exact decide_eq_false inner

/-- A value without a text holds a byte outside ASCII. -/
theorem toStr_eq_none {v : HeaderValue} (unread : v.toStr = none) : ∃ b ∈ v.bytes, 127 < b.toNat := by
  unfold HeaderValue.toStr at unread
  split at unread
  · cases unread
  · rename_i hidden
    rw [List.all_eq_true] at hidden
    push Not at hidden
    obtain ⟨b, member, hidden⟩ := hidden
    have byte := List.all_eq_true.mp v.wf b member
    refine ⟨b, member, ?_⟩
    simp only [headerValueByte, visibleAscii, Bool.or_eq_true, Bool.and_eq_true, decide_eq_true_eq, bne_iff_ne,
      beq_iff_eq, ne_eq, ← UInt8.toNat_inj, UInt8.le_iff_toNat_le, UInt8.lt_iff_toNat_lt, UInt8.reduceToNat] at byte hidden
    omega

theorem toStr_ascii {v : HeaderValue} {text : String} (reads : v.toStr = some text) :
    text.toList = v.bytes.map (fun b => Char.ofNat b.toNat) ∧ ∀ c ∈ text.toList, c = '\t' ∨ 32 ≤ c.toNat ∧ c.toNat < 127 := by
  unfold HeaderValue.toStr at reads
  split at reads
  · rename_i visible
    cases reads
    rw [String.toList_ofList]
    refine ⟨rfl, fun c member => ?_⟩
    obtain ⟨b, inside, rfl⟩ := List.mem_map.mp member
    have byte := List.all_eq_true.mp visible b inside
    simp only [visibleAscii, Bool.or_eq_true, Bool.and_eq_true, decide_eq_true_eq, beq_iff_eq, UInt8.le_iff_toNat_le,
      UInt8.lt_iff_toNat_lt] at byte
    rw [toNat_ofNat_byte]
    rcases byte with range | rfl
    · exact .inr range
    · exact .inl rfl
  · cases reads

theorem receivedText_eq_iff {v : HeaderValue} {text : String} (reads : v.toStr = some text) :
    receivedText v = text ↔ Solid text := by
  obtain ⟨chars, ascii⟩ := toStr_ascii reads
  have blanks : ∀ c ∈ text.toList, blank c = false ↔ c ≠ ' ' ∧ c ≠ '\t' := by
    intro c member
    have space : c = ' ' ↔ c.toNat = 32 := Char.toNat_inj.symm
    have tab : c = '\t' ↔ c.toNat = 9 := Char.toNat_inj.symm
    have range := ascii c member
    simp only [blank, List.mem_cons, List.not_mem_nil, or_false, decide_eq_false_iff_not, ne_eq, space, tab] at range ⊢
    omega
  rw [← String.toList_inj, toList_receivedText, ← chars, trim_eq_self_iff, Solid]
  constructor
  · rintro ⟨front, back⟩
    exact ⟨fun c first => (blanks c (List.mem_of_mem_head? first)).mp (front c first),
      fun c last => (blanks c (List.mem_of_getLast? last)).mp (back c last)⟩
  · rintro ⟨front, back⟩
    exact ⟨fun c first => (blanks c (List.mem_of_mem_head? first)).mpr (front c first),
      fun c last => (blanks c (List.mem_of_getLast? last)).mpr (back c last)⟩

/-! ### All values -/

/-- The text that stands for all values of a name. -/
def joinedText (values : List HeaderValue) : Option String := (values.map receivedText).foldl joined none

theorem joinedText_cons (v : HeaderValue) (values : List HeaderValue) :
    joinedText (v :: values) = (values.map receivedText).foldl joined (some (receivedText v)) := by
  have first (text : String) : joined none text = some text := rfl
  rw [joinedText, List.map_cons, List.foldl_cons, first]

def received (h : HeaderMap) : Headers :=
  ⟨h.foldl (fun entries e => insertEntry e.1.name (receivedText e.2) entries) []⟩

theorem received_get (h : HeaderMap) (name : HeaderName) :
    InsertionMap.get name.name (received h).entries = joinedText (h.getAll name) := by
  have each (h : HeaderMap) (entries : List (String × String)) (sorted : Sorted entries) :
      InsertionMap.get name.name (h.foldl (fun entries e => insertEntry e.1.name (receivedText e.2) entries) entries) =
        ((h.getAll name).map receivedText).foldl joined (InsertionMap.get name.name entries) := by
    induction h generalizing entries with
    | nil => rfl
    | cons e h ih =>
      rw [List.foldl_cons, ih _ (sorted.insertEntry _ _), get_insertEntry sorted, HeaderMap.getAll_cons]
      by_cases same : e.1 = name
      · rw [if_pos (congrArg HeaderName.name same).symm, if_pos same, same]
        rfl
      · have other : name.name ≠ e.1.name := by
          obtain ⟨key, wf⟩ := name
          obtain ⟨⟨key', wf'⟩, v⟩ := e
          rintro rfl
          exact same rfl
        rw [if_neg other, if_neg same]
  exact each h [] List.Pairwise.nil

theorem received_entries (h : HeaderMap) :
    Sorted (received h).entries ∧ ∀ e ∈ (received h).entries, ∃ name v, (name, v) ∈ h ∧ e.1 = name.name := by
  have each (more : HeaderMap) (entries : List (String × String)) (sorted : Sorted entries)
      (named : ∀ e ∈ entries, ∃ name v, (name, v) ∈ h ∧ e.1 = name.name) (inside : more ⊆ h) :
      Sorted (more.foldl (fun entries e => insertEntry e.1.name (receivedText e.2) entries) entries) ∧
        ∀ e ∈ more.foldl (fun entries e => insertEntry e.1.name (receivedText e.2) entries) entries,
          ∃ name v, (name, v) ∈ h ∧ e.1 = name.name := by
    induction more generalizing entries with
    | nil => exact ⟨sorted, named⟩
    | cons e more ih =>
      obtain ⟨first, inside⟩ := List.cons_subset.mp inside
      refine ih _ (sorted.insertEntry _ _) (fun e' member => ?_) inside
      rcases mem_insertEntry member with own | held
      · exact ⟨e.1, e.2, first, own⟩
      · exact named e' held
  exact each h [] List.Pairwise.nil (List.forall_mem_nil _) (List.Subset.refl h)

theorem get_lookup (key : String) (entries : List (String × String)) : entries.lookup key = InsertionMap.get key entries := by
  induction entries with
  | nil => rfl
  | cons e entries ih =>
    rw [List.lookup_cons, InsertionMap.get, ih]
    by_cases same : e.1 = key
    · simp [same]
    · rw [if_neg same, beq_false_of_ne (Ne.symm same)]

theorem received_one {h : HeaderMap} {name : HeaderName} {v : HeaderValue} {text : String} (single : h.getAll name = [v])
    (reads : v.toStr = some text) (solid : Solid text) : (received h).get name.name = some text := by
  rw [Headers.get, get_lookup, received_get, single, joinedText_cons, (receivedText_eq_iff reads).mpr solid]
  rfl

theorem received_none {h : HeaderMap} {name : HeaderName} (absent : h.getAll name = []) :
    (received h).get name.name = none := by
  rw [Headers.get, get_lookup, received_get, absent]
  rfl

/-! ### Joined values -/

theorem subset_joined {texts : List String} {text all : String} (joins : texts.foldl joined (some text) = some all) :
    text.toList ⊆ all.toList ∧ ∀ t ∈ texts, t.toList ⊆ all.toList ∧ ',' ∈ all.toList := by
  induction texts generalizing text with
  | nil =>
    cases joins
    exact ⟨List.Subset.refl _, List.forall_mem_nil _⟩
  | cons t texts ih =>
    obtain ⟨held, rest⟩ := ih joins
    rw [Option.map_some, Option.getD_some, String.toList_append, String.toList_append] at held
    obtain ⟨front, back⟩ := List.append_subset.mp held
    obtain ⟨first, comma⟩ := List.append_subset.mp front
    exact ⟨first, List.forall_mem_cons.mpr ⟨⟨back, comma (by decide)⟩, rest⟩⟩

/-! ### What `atob` takes -/

theorem length_ofSextets (groups : List Nat) : 4 * (ofSextets groups).length ≤ 3 * groups.length := by
  fun_induction ofSextets groups <;> grind

theorem unpad_spec (data : List Char) : ∃ pads, data = unpad data ++ List.replicate pads '=' := by
  have back : data = data.reverse.reverse := data.reverse_reverse.symm
  unfold unpad
  split
  · rename_i rest same
    refine ⟨2, ?_⟩
    rw [back, same]
    simp
  · rename_i rest _ same
    refine ⟨1, ?_⟩
    rw [back, same]
    simp
  · exact ⟨0, (List.append_nil data).symm⟩

theorem digits_spec (text : String) :
    ∃ pads, (text.toList.filter fun c => c.toNat ∉ [9, 10, 12, 13, 32]) = digits text ++ List.replicate pads '=' := by
  unfold digits
  dsimp only
  split
  · exact unpad_spec _
  · exact ⟨0, (List.append_nil _).symm⟩

theorem mapM_sextet_spec {core : List Char} {groups : List Nat} (read : core.mapM sextet = some groups) :
    groups.length = core.length ∧ ∀ c ∈ core, (sextet c).isSome := by
  induction core generalizing groups with
  | nil =>
    cases read
    exact ⟨rfl, List.forall_mem_nil _⟩
  | cons c core ih =>
    rw [List.mapM_cons] at read
    obtain ⟨n, here, read⟩ := Option.bind_eq_some_iff.mp read
    obtain ⟨more, later, done⟩ := Option.bind_eq_some_iff.mp read
    cases done
    obtain ⟨long, all⟩ := ih later
    exact ⟨congrArg Nat.succ long, List.forall_mem_cons.mpr ⟨Option.isSome_of_eq_some here, all⟩⟩

theorem atob_spec {text : String} {bytes : Bytes} (read : atob text = some bytes) :
    4 * bytes.length ≤ 3 * text.toList.length ∧
      ∀ c ∈ text.toList, c.toNat ∈ [9, 10, 12, 13, 32] ∨ c = '=' ∨ (sextet c).isSome := by
  rw [atob_digits] at read
  obtain ⟨groups, sextets, rfl⟩ := Option.map_eq_some_iff.mp (Option.ite_none_left_eq_some.mp read).2
  obtain ⟨long, all⟩ := mapM_sextet_spec sextets
  obtain ⟨pads, cut⟩ := digits_spec text
  refine ⟨?_, fun c member => ?_⟩
  · have few := List.length_filter_le (fun c : Char => c.toNat ∉ [9, 10, 12, 13, 32]) text.toList
    rw [cut, List.length_append, List.length_replicate] at few
    have fits := length_ofSextets groups
    omega
  · by_cases space : c.toNat ∈ [9, 10, 12, 13, 32]
    · exact .inl space
    · have kept : c ∈ text.toList.filter fun c => c.toNat ∉ [9, 10, 12, 13, 32] :=
        List.mem_filter.mpr ⟨member, decide_eq_true space⟩
      rw [cut] at kept
      rcases List.mem_append.mp kept with inside | pad
      · exact .inr (.inr (all c inside))
      · exact .inr (.inl (List.eq_of_mem_replicate pad))

theorem atob_comma {text : String} (comma : ',' ∈ text.toList) : atob text = none := by
  cases read : atob text with
  | none => rfl
  | some bytes => exact absurd ((atob_spec read).2 ',' comma) (by decide)

/-! ### What is read -/

theorem readEntry_binary {name : String} (binary : "-bin".toList.isSuffixOf name.toList = true) (text : String) :
    readEntry (name, text) = (atob text).map .bytes := if_pos binary

theorem readEntry_text {name : String} (plain : ¬"-bin".toList.isSuffixOf name.toList = true) (text : String) :
    readEntry (name, text) = some (.text text) := if_neg plain

section

variable [JsString]

theorem received_normal (h : HeaderMap) : ∀ e ∈ (received h).entries, Metadata.normalizeKey e.1 = e.1 := by
  intro e member
  obtain ⟨name, _, _, named⟩ := (received_entries h).2 e member
  rw [named]
  exact BinaryMetadata.normalizeKey_name name

theorem fromHeaders_isSome_iff (h : Headers) : (∃ md, fromHeaders h = some md) ↔ ∀ e ∈ h.entries, (readEntry e).isSome := by
  rw [fromHeaders_eq]
  constructor
  · rintro ⟨md, read⟩
    exact (foldlM_readEntry read).1
  · exact fun all => foldlM_readEntry_isSome all .empty

theorem fromHeaders_received_iff (h : HeaderMap) :
    (∃ md, fromHeaders (received h) = some md) ↔
      ∀ name, ∀ all ∈ joinedText (h.getAll name), (readEntry (name.name, all)).isSome := by
  obtain ⟨sorted, named⟩ := received_entries h
  rw [fromHeaders_isSome_iff]
  constructor
  · intro readable name all held
    rw [← received_get] at held
    exact readable _ ((InsertionMap.get_eq_some_iff sorted.nodup name.name all).mp held)
  · intro readable e member
    obtain ⟨name, _, _, own⟩ := named e member
    have held := (InsertionMap.get_eq_some_iff sorted.nodup e.1 e.2).mpr member
    rw [own, received_get] at held
    have entry := readable name e.2 held
    rwa [← own] at entry

theorem get_fromHeaders_received {h : HeaderMap} {md : Metadata} (read : fromHeaders (received h) = some md) (key : String) :
    md.get key = ((InsertionMap.get (Metadata.normalizeKey key) (received h).entries).bind fun text =>
      readEntry (Metadata.normalizeKey key, text)).toList := by
  rw [fromHeaders_eq] at read
  rw [(foldlM_readEntry read).2, filterMap_readUnder (received_entries h).1 (received_normal h)]
  rfl

theorem get_fromHeaders_name {h : HeaderMap} {md : Metadata} (read : fromHeaders (received h) = some md) {key : String}
    {name : HeaderName} (named : name.name = Metadata.normalizeKey key) :
    md.get key = ((joinedText (h.getAll name)).bind fun text => readEntry (name.name, text)).toList := by
  rw [get_fromHeaders_received read, ← named, received_get]

theorem get_fromHeaders_unnamed {h : HeaderMap} {md : Metadata} (read : fromHeaders (received h) = some md) {key : String}
    (unnamed : ∀ name : HeaderName, name.name ≠ Metadata.normalizeKey key) : md.get key = [] := by
  have absent : InsertionMap.get (Metadata.normalizeKey key) (received h).entries = none := by
    apply InsertionMap.get_eq_none
    intro member
    obtain ⟨e, inside, own⟩ := List.mem_map.mp member
    obtain ⟨name, _, _, named⟩ := (received_entries h).2 e inside
    exact unnamed name (named.symm.trans own)
  rw [get_fromHeaders_received read, absent]
  rfl

end

end Responses
end Client
end GrpcWebnext
