import Mathlib.Data.String.Basic
import GrpcWebnext.Client.Responses

/-!
# Metadata in headers

`toHeaders` and `fromHeaders` of the client's `Metadata`. A `Headers` object joins the values of one name,
so that at most one value of a key comes back.
-/

namespace GrpcWebnext
namespace Client
namespace Responses

/-! ### The encoder -/

/-- `btoa` of the bytes. -/
def base64 (bytes : Bytes) : String := String.ofList ((Base64.encode true bytes).map fun b => Char.ofNat b.toNat)

def headerText : MetadataValue → String
  | .text s => s
  | .bytes b => base64 b

/-- `none` for a `TypeError`. -/
def toHeaders (md : Metadata) : Option Headers :=
  md.map.foldlM (fun h e => e.2.foldlM (fun h value => h.append e.1 (headerText value)) h) {}

/-! ### base64 -/

theorem symbol_facts {n : Nat} (small : n < 64) :
    (32 < (Char.ofNat (Base64.symbol n).toNat).toNat ∧ (Char.ofNat (Base64.symbol n).toNat).toNat < 128) ∧
      Char.ofNat (Base64.symbol n).toNat ≠ '=' ∧ sextet (Char.ofNat (Base64.symbol n).toNat) = some n := by
  have all : ∀ n : Fin 64,
      (32 < (Char.ofNat (Base64.symbol n).toNat).toNat ∧ (Char.ofNat (Base64.symbol n).toNat).toNat < 128) ∧
        Char.ofNat (Base64.symbol n).toNat ≠ '=' ∧ sextet (Char.ofNat (Base64.symbol n).toNat) = some n.val := by
    decide +kernel
  exact all ⟨n, small⟩

def symbolChars (groups : List Nat) : List Char := groups.map fun n => Char.ofNat (Base64.symbol n).toNat

theorem toList_base64 (bytes : Bytes) :
    (base64 bytes).toList = symbolChars (Base64.sextets bytes) ++ List.replicate (Base64.missing bytes) '=' := by
  rw [base64, String.toList_ofList, Base64.encode_eq, if_pos rfl, List.map_append, List.map_map, List.map_replicate]
  rfl

theorem base64_solid {bytes : Bytes} {c : Char} (member : c ∈ (base64 bytes).toList) :
    32 < c.toNat ∧ c.toNat < 128 := by
  rw [toList_base64] at member
  rcases List.mem_append.mp member with inside | pad
  · obtain ⟨n, among, rfl⟩ := List.mem_map.mp inside
    exact (symbol_facts (Base64.sextets_lt among)).1
  · rw [List.eq_of_mem_replicate pad]
    decide

theorem mapM_sextet {groups : List Nat} (small : ∀ n ∈ groups, n < 64) :
    (symbolChars groups).mapM sextet = some groups := by
  induction groups with
  | nil => rfl
  | cons n groups ih =>
    obtain ⟨here, later⟩ := List.forall_mem_cons.mp small
    rw [symbolChars, List.map_cons, List.mapM_cons, (symbol_facts here).2.2, ← symbolChars, ih later]
    rfl

theorem ofSextets_sextets (bytes : Bytes) : ofSextets (Base64.sextets bytes) = bytes := by
  have back : ∀ (b : UInt8) (n : Nat), n = b.toNat → n.toUInt8 = b := by
    rintro b n rfl
    exact UInt8.ofNat_toNat
  fun_induction Base64.sextets bytes with
  | case1 => rfl
  | case2 a =>
    have small := a.toNat_lt
    rw [ofSextets, back a _ (by omega)]
  | case3 a b =>
    have small := a.toNat_lt
    have small' := b.toNat_lt
    rw [ofSextets, back a _ (by omega), back b _ (by omega)]
  | case4 a b c rest ih =>
    have small := a.toNat_lt
    have small' := b.toNat_lt
    have small'' := c.toNat_lt
    rw [ofSextets, back a _ (by omega), back b _ (by omega), back c _ (by omega), ih]

/-- What `atob` does to a text of whole groups. -/
def unpad (data : List Char) : List Char :=
  match data.reverse with
  | '=' :: '=' :: rest => rest.reverse
  | '=' :: rest => rest.reverse
  | _ => data

theorem unpad_append {core : List Char} (plain : '=' ∉ core) {pads : Nat} (few : pads < 3) :
    unpad (core ++ List.replicate pads '=') = core := by
  have last : ∀ rest, core.reverse ≠ '=' :: rest := by
    intro rest same
    apply plain
    rw [← List.mem_reverse, same]
    exact List.mem_cons_self
  unfold unpad
  rw [List.reverse_append, List.reverse_replicate]
  match pads, few with
  | 0, _ =>
    rw [List.replicate_zero, List.nil_append, List.append_nil]
    split
    · rename_i rest same
      exact absurd same (last _)
    · rename_i rest _ same
      exact absurd same (last _)
    · rfl
  | 1, _ =>
    show (match '=' :: core.reverse with | '=' :: '=' :: rest => rest.reverse | '=' :: rest => rest.reverse | _ => _) = _
    split
    · rename_i rest same
      exact absurd (List.cons.inj same).2 (last _)
    · rename_i rest _ same
      rw [← (List.cons.inj same).2, List.reverse_reverse]
    · rename_i other
      exact (other _ rfl).elim
  | 2, _ => exact List.reverse_reverse core

/-- The digits that `atob` reads, without blanks and padding. -/
def digits (text : String) : List Char :=
  let data := text.toList.filter fun c => c.toNat ∉ [9, 10, 12, 13, 32]
  if data.length % 4 = 0 then unpad data else data

theorem atob_digits (text : String) :
    atob text = if (digits text).length % 4 = 1 then none else ((digits text).mapM sextet).map ofSextets := rfl

theorem atob_eq (text : String) {data : List Char}
    (solid : (text.toList.filter fun c => c.toNat ∉ [9, 10, 12, 13, 32]) = data) (whole : data.length % 4 = 0) :
    atob text = if (unpad data).length % 4 = 1 then none else ((unpad data).mapM sextet).map ofSextets := by
  have same : digits text = unpad data := by
    simp only [digits, solid, if_pos whole]
  rw [atob_digits, same]

theorem atob_base64 (bytes : Bytes) : atob (base64 bytes) = some bytes := by
  have small : ∀ n ∈ Base64.sextets bytes, n < 64 := fun n member => Base64.sextets_lt member
  have fits := Base64.length_sextets bytes
  have few : Base64.missing bytes < 3 := Nat.mod_lt _ (by decide)
  have plain : '=' ∉ symbolChars (Base64.sextets bytes) := by
    intro member
    obtain ⟨n, inside, same⟩ := List.mem_map.mp member
    exact (symbol_facts (small n inside)).2.1 same
  have long : (symbolChars (Base64.sextets bytes)).length = (Base64.sextets bytes).length := List.length_map _
  have solid : ((base64 bytes).toList.filter fun c => c.toNat ∉ [9, 10, 12, 13, 32]) =
      symbolChars (Base64.sextets bytes) ++ List.replicate (Base64.missing bytes) '=' := by
    rw [← toList_base64]
    apply List.filter_eq_self.mpr
    intro c member
    have range := base64_solid member
    simp only [List.mem_cons, List.not_mem_nil, or_false, decide_eq_true_eq]
    omega
  rw [atob_eq (base64 bytes) solid (by rw [List.length_append, List.length_replicate, long, fits]),
    unpad_append plain few, if_neg (by rw [long]; omega), mapM_sextet small, Option.map_some, ofSextets_sextets]

theorem headerValue_base64 (bytes : Bytes) : headerValue (base64 bytes) = some (base64 bytes) := by
  have stays : ∀ cs : List Char, (∀ c ∈ cs, 32 < c.toNat) →
      cs.dropWhile (fun c => decide (c.toNat ∈ [9, 10, 13, 32])) = cs := by
    intro cs solid
    cases cs with
    | nil => rfl
    | cons c cs =>
      have high := solid c List.mem_cons_self
      apply List.dropWhile_cons_of_neg
      simp only [List.mem_cons, List.not_mem_nil, or_false, decide_eq_true_eq]
      omega
  have solid : ∀ c ∈ (base64 bytes).toList, 32 < c.toNat := fun c member => (base64_solid member).1
  have legal : (base64 bytes).toList.all (fun c => c.toNat < 256 && c.toNat ∉ [0, 10, 13]) = true := by
    rw [List.all_eq_true]
    intro c member
    have range := base64_solid member
    simp only [List.mem_cons, List.not_mem_nil, or_false, Bool.and_eq_true, decide_eq_true_eq]
    omega
  unfold headerValue
  dsimp only
  rw [stays _ solid, stays _ (fun c member => solid c (List.mem_reverse.mp member)), List.reverse_reverse,
    if_pos legal, String.ofList_toList]

/-! ### Entries of a `Headers` object -/

/-- The value of a name behind one that is appended. -/
def joined (held : Option String) (value : String) : Option String :=
  some ((held.map fun old => old ++ ", " ++ value).getD value)

theorem joined_some (texts : List String) (text : String) : ∃ all, texts.foldl joined (some text) = some all := by
  induction texts generalizing text with
  | nil => exact ⟨text, rfl⟩
  | cons t texts ih => exact ih _

def Sorted (entries : List (String × String)) : Prop := entries.Pairwise fun a b => a.1 < b.1

theorem mem_insertEntry {name value : String} {entries : List (String × String)} {e : String × String}
    (member : e ∈ insertEntry name value entries) : e.1 = name ∨ e ∈ entries := by
  fun_induction insertEntry name value entries with
  | case1 => exact .inl (congrArg Prod.fst (List.mem_singleton.mp member))
  | case2 entry rest same =>
    rcases List.mem_cons.mp member with rfl | later
    · exact .inl rfl
    · exact .inr (List.mem_cons_of_mem entry later)
  | case3 entry rest other less =>
    rcases List.mem_cons.mp member with rfl | later
    · exact .inl rfl
    · exact .inr later
  | case4 entry rest other more ih =>
    rcases List.mem_cons.mp member with rfl | later
    · exact .inr List.mem_cons_self
    · exact (ih later).imp_right (List.mem_cons_of_mem entry)

theorem Sorted.insertEntry {entries : List (String × String)} (sorted : Sorted entries) (name value : String) :
    Sorted (insertEntry name value entries) := by
  fun_induction Responses.insertEntry name value entries with
  | case1 => exact List.pairwise_singleton _ _
  | case2 entry rest same =>
    obtain ⟨first, later⟩ := List.pairwise_cons.mp sorted
    refine List.pairwise_cons.mpr ⟨fun e member => ?_, later⟩
    rw [← same]
    exact first e member
  | case3 entry rest other less =>
    refine List.pairwise_cons.mpr ⟨fun e member => ?_, sorted⟩
    rcases List.mem_cons.mp member with rfl | later
    · exact less
    · exact String.lt_trans less ((List.pairwise_cons.mp sorted).1 e later)
  | case4 entry rest other more ih =>
    obtain ⟨first, later⟩ := List.pairwise_cons.mp sorted
    refine List.pairwise_cons.mpr ⟨fun e member => ?_, ih later⟩
    rcases mem_insertEntry member with rfl | inside
    · exact lt_of_le_of_ne (not_lt.mp more) other
    · exact first e inside

theorem get_insertEntry {entries : List (String × String)} (sorted : Sorted entries) (name value key : String) :
    InsertionMap.get key (insertEntry name value entries) =
      if key = name then joined (InsertionMap.get name entries) value else InsertionMap.get key entries := by
  fun_induction insertEntry name value entries with
  | case1 =>
    simp only [InsertionMap.get, eq_comm (a := name)]
    rfl
  | case2 entry rest same =>
    subst same
    simp only [InsertionMap.get, eq_comm (a := entry.1) (b := key), ↓reduceIte]
    split <;> rfl
  | case3 entry rest other less =>
    have absent : InsertionMap.get name (entry :: rest) = none := by
      apply InsertionMap.get_eq_none
      intro member
      obtain ⟨e, inside, rfl⟩ := List.mem_map.mp member
      rcases List.mem_cons.mp inside with rfl | later
      · exact other rfl
      · exact lt_asymm less ((List.pairwise_cons.mp sorted).1 e later)
    rw [absent, InsertionMap.get]
    simp only [eq_comm (a := name)]
    rfl
  | case4 entry rest other more ih =>
    rw [InsertionMap.get, ih (List.pairwise_cons.mp sorted).2, InsertionMap.get, InsertionMap.get, if_neg other]
    by_cases own : entry.1 = key
    · subst own
      simp [other]
    · simp [own]

theorem Sorted.nodup {entries : List (String × String)} (sorted : Sorted entries) :
    (entries.map Prod.fst).Nodup := by
  rw [List.Nodup, List.pairwise_map]
  exact sorted.imp fun less => ne_of_lt less

/-! ### What is appended -/

/-- A header name as `Headers` takes it. -/
def Token (name : String) : Prop := name ≠ "" ∧ name.toList.all tokenChar = true

def Lowered (name : String) : Prop := name.toList.map Char.toLower = name.toList

theorem Token.ascii {name : String} (token : Token name) : ∀ c ∈ name.toList, c.toNat < 128 := by
  intro c member
  have symbols : ("!#$%&'*+-.^_`|~".toList.all fun c => c.toNat < 128) = true := by decide
  have accepted := List.all_eq_true.mp token.2 c member
  rw [tokenChar, Bool.or_eq_true] at accepted
  rcases accepted with letter | symbol
  · rw [show c.isAlphanum = (c.isUpper || c.isLower || c.isDigit) from rfl, Bool.or_eq_true, Bool.or_eq_true] at letter
    rcases letter with (upper | lower) | digit
    · have range := HeaderValue.isUpper_iff.mp upper
      omega
    · have range := HeaderValue.isLower_iff.mp lower
      omega
    · have range := HeaderValue.isDigit_iff.mp digit
      omega
  · exact of_decide_eq_true (List.all_eq_true.mp symbols c (of_decide_eq_true symbol))

theorem append_eq (h : Headers) {name : String} (lowered : Lowered name) (value : String) (h' : Headers) :
    h.append name value = some h' ↔
      Token name ∧ ∃ text, headerValue value = some text ∧ h' = ⟨insertEntry name text h.entries⟩ := by
  rw [Headers.append, lowered, String.ofList_toList, Option.ite_none_right_eq_some, Option.map_eq_some_iff]
  simp only [Token, eq_comm (a := h')]

/-- The keys and values of a map, one after the other. -/
def items (map : List (String × List MetadataValue)) : List (String × MetadataValue) :=
  map.flatMap fun e => e.2.map fun value => (e.1, value)

def appendItem (h : Headers) (item : String × MetadataValue) : Option Headers :=
  h.append item.1 (headerText item.2)

theorem toHeaders_eq (md : Metadata) : toHeaders md = (items md.map).foldlM appendItem {} := by
  have each : ∀ (map : List (String × List MetadataValue)) (h : Headers),
      map.foldlM (fun h e => e.2.foldlM (fun h value => h.append e.1 (headerText value)) h) h =
        (items map).foldlM appendItem h := by
    intro map
    induction map with
    | nil => exact fun h => rfl
    | cons e map ih =>
      intro h
      rw [List.foldlM_cons, items, List.flatMap_cons, List.foldlM_append, List.foldlM_map]
      exact bind_congr ih
  exact each md.map {}

/-- The texts that the values of a name are sent as. -/
def textOf (name : String) (item : String × MetadataValue) : Option String :=
  if item.1 = name then headerValue (headerText item.2) else none

theorem foldlM_appendItem {list : List (String × MetadataValue)} (lowered : ∀ item ∈ list, Lowered item.1)
    {h h' : Headers} (sorted : Sorted h.entries) (done : list.foldlM appendItem h = some h') :
    Sorted h'.entries ∧ (∀ item ∈ list, Token item.1 ∧ (headerValue (headerText item.2)).isSome) ∧
      ∀ name, InsertionMap.get name h'.entries =
        (list.filterMap (textOf name)).foldl joined (InsertionMap.get name h.entries) := by
  induction list generalizing h with
  | nil =>
    cases done
    exact ⟨sorted, List.forall_mem_nil _, fun _ => rfl⟩
  | cons item list ih =>
    obtain ⟨own, lowered⟩ := List.forall_mem_cons.mp lowered
    rw [List.foldlM_cons] at done
    obtain ⟨mid, appended, done⟩ := Option.bind_eq_some_iff.mp done
    obtain ⟨token, text, sent, rfl⟩ := (append_eq h own _ mid).mp appended
    obtain ⟨sorted', accepted, held⟩ := ih lowered (sorted.insertEntry item.1 text) done
    refine ⟨sorted', List.forall_mem_cons.mpr ⟨⟨token, by simp [sent]⟩, accepted⟩, fun name => ?_⟩
    rw [held, get_insertEntry sorted, List.filterMap_cons, textOf]
    by_cases same : item.1 = name
    · subst same
      simp [sent]
    · simp [same, Ne.symm same]

theorem foldlM_appendItem_isSome {list : List (String × MetadataValue)} (lowered : ∀ item ∈ list, Lowered item.1)
    (accepted : ∀ item ∈ list, Token item.1 ∧ (headerValue (headerText item.2)).isSome) (h : Headers) :
    ∃ h', list.foldlM appendItem h = some h' := by
  induction list generalizing h with
  | nil => exact ⟨h, rfl⟩
  | cons item list ih =>
    obtain ⟨own, lowered⟩ := List.forall_mem_cons.mp lowered
    obtain ⟨⟨token, sent⟩, accepted⟩ := List.forall_mem_cons.mp accepted
    obtain ⟨text, sent⟩ := Option.isSome_iff_exists.mp sent
    obtain ⟨h', done⟩ := ih lowered accepted ⟨insertEntry item.1 text h.entries⟩
    refine ⟨h', ?_⟩
    rw [List.foldlM_cons, appendItem, (append_eq h own _ _).mpr ⟨token, text, sent, rfl⟩]
    exact done

theorem items_textOf {md : Metadata} (name : String) :
    (items md.map).filterMap (textOf name) =
      ((InsertionMap.get name md.map).getD []).filterMap fun value => headerValue (headerText value) := by
  have own : ∀ values : List MetadataValue, (values.map fun value => (name, value)).filterMap (textOf name) =
      values.filterMap fun value => headerValue (headerText value) := by
    intro values
    rw [List.filterMap_map]
    apply List.filterMap_congr
    intro value _
    exact if_pos rfl
  rw [items, InsertionMap.filterMap_get md.distinct name]
  · cases InsertionMap.get name md.map with
    | none => rfl
    | some values => exact own values
  · intro e _ other
    rw [List.filterMap_eq_nil_iff]
    intro item member
    obtain ⟨value, _, rfl⟩ := List.mem_map.mp member
    exact if_neg other

theorem mem_items {map : List (String × List MetadataValue)} {item : String × MetadataValue} :
    item ∈ items map ↔ ∃ values, (item.1, values) ∈ map ∧ item.2 ∈ values := by
  obtain ⟨name, value⟩ := item
  simp [items]

/-- What `toHeaders` returns holds under each name the joined texts of its values. -/
structure Collected (md : Metadata) (h : Headers) : Prop where
  sorted : Sorted h.entries
  accepted : ∀ {name values value}, (name, values) ∈ md.map → value ∈ values →
    Token name ∧ (headerValue (headerText value)).isSome
  held : ∀ name, InsertionMap.get name h.entries =
    (((InsertionMap.get name md.map).getD []).filterMap fun value => headerValue (headerText value)).foldl joined none

theorem items_lowered (md : Metadata) : ∀ item ∈ items md.map, Lowered item.1 := by
  intro item member
  obtain ⟨values, listed, _⟩ := mem_items.mp member
  exact md.lowered _ listed

theorem toHeaders_collected {md : Metadata} {h : Headers} (made : toHeaders md = some h) : Collected md h := by
  rw [toHeaders_eq] at made
  obtain ⟨sorted, accepted, held⟩ := foldlM_appendItem (items_lowered md) List.Pairwise.nil made
  refine ⟨sorted, fun {name values value} listed among => ?_, fun name => ?_⟩
  · exact accepted (name, value) (mem_items.mpr ⟨values, listed, among⟩)
  · rw [held, items_textOf]
    rfl

theorem Collected.origin {md : Metadata} {h : Headers} (collected : Collected md h) {e : String × String} (member : e ∈ h.entries) :
    ∃ values value, (e.1, values) ∈ md.map ∧ value ∈ values := by
  have found := (InsertionMap.get_eq_some_iff collected.sorted.nodup e.1 e.2).mpr member
  rw [collected.held] at found
  cases listed : InsertionMap.get e.1 md.map with
  | none =>
    rw [listed] at found
    cases found
  | some values =>
    rw [listed] at found
    cases values with
    | nil => cases found
    | cons value values =>
      exact ⟨value :: values, value, (InsertionMap.get_eq_some_iff md.distinct _ _).mp listed, List.mem_cons_self⟩

/-! ### What is read -/

def readEntry (e : String × String) : Option MetadataValue :=
  if "-bin".toList.isSuffixOf e.1.toList then (atob e.2).map .bytes else some (.text e.2)

/-- A header of this name gives this value back. -/
def Carries (name : String) : MetadataValue → Prop
  | .text s => Token name ∧ ¬"-bin".toList.isSuffixOf name.toList ∧ headerValue s = some s
  | .bytes _ => Token name ∧ "-bin".toList.isSuffixOf name.toList

theorem carries_iff (name : String) (value : MetadataValue) :
    Carries name value ↔
      Token name ∧ ∃ text, headerValue (headerText value) = some text ∧ readEntry (name, text) = some value := by
  cases value with
  | text s =>
    unfold Carries readEntry
    refine and_congr_right fun _ => ?_
    constructor
    · rintro ⟨ascii, kept⟩
      exact ⟨s, kept, if_neg ascii⟩
    · rintro ⟨text, sent, read⟩
      split at read
      · obtain ⟨_, _, ⟨⟩⟩ := Option.map_eq_some_iff.mp read
      · rename_i ascii
        cases read
        exact ⟨ascii, sent⟩
  | bytes b =>
    unfold Carries readEntry
    refine and_congr_right fun _ => ?_
    constructor
    · intro binary
      refine ⟨base64 b, headerValue_base64 b, ?_⟩
      rw [if_pos binary, atob_base64, Option.map_some]
    · rintro ⟨text, _, read⟩
      split at read
      · assumption
      · cases read

section

variable [JsString]

theorem normalizeKey_token {name : String} (token : Token name) (lowered : Lowered name) :
    Metadata.normalizeKey name = name := by
  rw [Metadata.normalizeKey, JsString.toLowerCase_ascii name token.ascii, lowered, String.ofList_toList]

theorem fromHeaders_eq (h : Headers) :
    fromHeaders h = h.entries.foldlM (fun md e => (readEntry e).map (md.add e.1)) .empty := by
  have each : (fun (md : Metadata) (e : String × String) =>
      if "-bin".toList.isSuffixOf e.1.toList then (atob e.2).map fun bytes => md.add e.1 (.bytes bytes)
      else some (md.add e.1 (.text e.2))) = fun md e => (readEntry e).map (md.add e.1) := by
    funext md e
    unfold readEntry
    split
    · rw [Option.map_map]
      rfl
    · rfl
  rw [fromHeaders, each]

def readUnder (key : String) (e : String × String) : Option MetadataValue :=
  if Metadata.normalizeKey e.1 = Metadata.normalizeKey key then readEntry e else none

theorem foldlM_readEntry {entries : List (String × String)} {md md' : Metadata}
    (done : entries.foldlM (fun md e => (readEntry e).map (md.add e.1)) md = some md') :
    (∀ e ∈ entries, (readEntry e).isSome) ∧ ∀ key, md'.get key = md.get key ++ entries.filterMap (readUnder key) := by
  induction entries generalizing md with
  | nil =>
    cases done
    exact ⟨List.forall_mem_nil _, fun key => (List.append_nil _).symm⟩
  | cons e entries ih =>
    rw [List.foldlM_cons] at done
    obtain ⟨mid, added, done⟩ := Option.bind_eq_some_iff.mp done
    obtain ⟨value, read, rfl⟩ := Option.map_eq_some_iff.mp added
    obtain ⟨all, held⟩ := ih done
    refine ⟨List.forall_mem_cons.mpr ⟨by simp [read], all⟩, fun key => ?_⟩
    rw [held, Metadata.get_add, List.filterMap_cons, readUnder]
    by_cases same : Metadata.normalizeKey e.1 = Metadata.normalizeKey key
    · simp [same, read]
    · simp [same]

theorem foldlM_readEntry_isSome {entries : List (String × String)} (all : ∀ e ∈ entries, (readEntry e).isSome)
    (md : Metadata) : ∃ md', entries.foldlM (fun md e => (readEntry e).map (md.add e.1)) md = some md' := by
  induction entries generalizing md with
  | nil => exact ⟨md, rfl⟩
  | cons e entries ih =>
    obtain ⟨here, all⟩ := List.forall_mem_cons.mp all
    obtain ⟨value, read⟩ := Option.isSome_iff_exists.mp here
    obtain ⟨md', done⟩ := ih all (md.add e.1 value)
    refine ⟨md', ?_⟩
    rw [List.foldlM_cons, read]
    exact done

/-- Of all entries only that of the name is read under a key. -/
theorem filterMap_readUnder {entries : List (String × String)} (sorted : Sorted entries)
    (normal : ∀ e ∈ entries, Metadata.normalizeKey e.1 = e.1) (key : String) :
    entries.filterMap (readUnder key) = ((InsertionMap.get (Metadata.normalizeKey key) entries).bind fun text =>
      readEntry (Metadata.normalizeKey key, text)).toList := by
  have under : entries.filterMap (readUnder key) = (entries.flatMap fun e => [e]).filterMap fun e =>
      if e.1 = Metadata.normalizeKey key then readEntry e else none := by
    rw [List.flatMap_singleton']
    apply List.filterMap_congr
    intro e member
    rw [readUnder, normal e member]
  rw [under, InsertionMap.filterMap_get sorted.nodup (Metadata.normalizeKey key)]
  · cases InsertionMap.get (Metadata.normalizeKey key) entries with
    | none => rfl
    | some text =>
      simp only [List.filterMap_cons, ↓reduceIte, List.filterMap_nil, Option.bind_some]
      cases readEntry (Metadata.normalizeKey key, text) <;> rfl
  · intro e _ other
    rw [List.filterMap_cons, if_neg other, List.filterMap_nil]

namespace Collected

variable {md : Metadata} {h : Headers}

theorem normal (collected : Collected md h) {e : String × String} (member : e ∈ h.entries) :
    Metadata.normalizeKey e.1 = e.1 := by
  obtain ⟨values, value, listed, among⟩ := collected.origin member
  exact normalizeKey_token (collected.accepted listed among).1 (md.lowered _ listed)

theorem read (collected : Collected md h) (key : String) :
    h.entries.filterMap (readUnder key) = ((InsertionMap.get (Metadata.normalizeKey key) h.entries).bind fun text =>
      readEntry (Metadata.normalizeKey key, text)).toList :=
  filterMap_readUnder collected.sorted (fun _ member => collected.normal member) key

end Collected

/-! ### The round trip -/

/-- The conversions return, with all values of every key. -/
def RoundTrips (md : Metadata) : Prop :=
  ∃ h md', toHeaders md = some h ∧ fromHeaders h = some md' ∧ ∀ key, md'.get key = md.get key

theorem RoundTrips.carries {md : Metadata} (back : RoundTrips md) {name : String} {values : List MetadataValue}
    (listed : (name, values) ∈ md.map) : values = [] ∨ ∃ value, values = [value] ∧ Carries name value := by
  obtain ⟨h, md', made, read, same⟩ := back
  cases values with
  | nil => exact .inl rfl
  | cons value values =>
    right
    have collected := toHeaders_collected made
    obtain ⟨token, sent⟩ := collected.accepted listed List.mem_cons_self
    obtain ⟨text, sent⟩ := Option.isSome_iff_exists.mp sent
    have normal := normalizeKey_token token (md.lowered _ listed)
    have found := (InsertionMap.get_eq_some_iff md.distinct name _).mpr listed
    have held := collected.held name
    rw [found, Option.getD_some, List.filterMap_cons, sent] at held
    replace held : InsertionMap.get name h.entries =
      (values.filterMap fun value => headerValue (headerText value)).foldl joined (some text) := held
    obtain ⟨all, one⟩ := joined_some (values.filterMap fun value => headerValue (headerText value)) text
    -- The key has one entry, so one value is read for it.
    rw [fromHeaders_eq] at read
    have got := (foldlM_readEntry read).2 name
    rw [same, collected.read, normal, held, one, Metadata.get, normal, found] at got
    replace got : value :: values = (readEntry (name, all)).toList := got
    cases entry : readEntry (name, all) with
    | none =>
      rw [entry] at got
      cases got
    | some value' =>
      rw [entry] at got
      cases got
      cases one
      exact ⟨value, rfl, (carries_iff name value).mpr ⟨token, text, sent, entry⟩⟩

theorem roundTrips_of_carries {md : Metadata}
    (carries : ∀ {name values}, (name, values) ∈ md.map → values = [] ∨ ∃ value, values = [value] ∧ Carries name value) :
    RoundTrips md := by
  have accepted : ∀ item ∈ items md.map, Token item.1 ∧ (headerValue (headerText item.2)).isSome := by
    intro item member
    obtain ⟨values, listed, among⟩ := mem_items.mp member
    rcases carries listed with rfl | ⟨value, rfl, carried⟩
    · cases among
    · obtain ⟨token, text, sent, _⟩ := (carries_iff _ _).mp carried
      rw [List.mem_singleton.mp among, sent]
      exact ⟨token, rfl⟩
  obtain ⟨h, made⟩ := foldlM_appendItem_isSome (items_lowered md) accepted {}
  rw [← toHeaders_eq] at made
  have collected := toHeaders_collected made
  -- The entry of a key is the text of its value.
  have entry : ∀ name, ((InsertionMap.get name h.entries).bind fun text => readEntry (name, text)).toList =
      (InsertionMap.get name md.map).getD [] := by
    intro name
    rw [collected.held]
    cases found : InsertionMap.get name md.map with
    | none => rfl
    | some values =>
      rcases carries ((InsertionMap.get_eq_some_iff md.distinct name values).mp found) with rfl | ⟨value, rfl, carried⟩
      · rfl
      · obtain ⟨_, text, sent, read⟩ := (carries_iff _ _).mp carried
        simp [sent, joined, read]
  have all : ∀ e ∈ h.entries, (readEntry e).isSome := by
    intro e member
    obtain ⟨values, value, listed, among⟩ := collected.origin member
    have held := (InsertionMap.get_eq_some_iff collected.sorted.nodup e.1 e.2).mpr member
    have one := entry e.1
    rw [held, (InsertionMap.get_eq_some_iff md.distinct e.1 values).mpr listed] at one
    replace one : (readEntry e).toList = values := one
    cases read : readEntry e with
    | none =>
      rw [read] at one
      rw [← one] at among
      cases among
    | some => rfl
  obtain ⟨md', read⟩ := foldlM_readEntry_isSome all .empty
  refine ⟨h, md', made, (fromHeaders_eq h).trans read, fun key => ?_⟩
  rw [(foldlM_readEntry read).2, collected.read, entry]
  rfl

/-- Metadata come back out of headers exactly if no key has two values and each that has one is a header
name, with bytes if it ends in `-bin`, else with a text that a header keeps as it is. -/
theorem headers_round_trip_iff (md : Metadata) :
    RoundTrips md ↔
      ∀ name values, (name, values) ∈ md.map → values = [] ∨ ∃ value, values = [value] ∧ Carries name value :=
  ⟨fun back _ _ listed => back.carries listed, fun carries => roundTrips_of_carries fun listed => carries _ _ listed⟩

end

section

attribute [local instance] BinaryMetadata.asciiLower

def twoTexts : Metadata := (Metadata.empty.add "k" (.text "a")).add "k" (.text "b")

def twoBytes : Metadata := (Metadata.empty.add "k-bin" (.bytes [1])).add "k-bin" (.bytes [2])

theorem eq_some_of_entries {made : Option Headers} {entries : List (String × String)}
    (same : made.map Headers.entries = some entries) : made = some ⟨entries⟩ := by
  obtain ⟨⟨_⟩, rfl, rfl⟩ := Option.map_eq_some_iff.mp same
  rfl

/-- Two values of a key come back as one, and two binary ones make `fromHeaders` throw. -/
theorem two_values_joined :
    ¬RoundTrips twoTexts ∧ ¬RoundTrips twoBytes ∧
      (∃ h md', toHeaders twoTexts = some h ∧ fromHeaders h = some md' ∧ md'.get "k" = [.text "a, b"]) ∧
      ∃ h, toHeaders twoBytes = some h ∧ fromHeaders h = none := by
  have texts : toHeaders twoTexts = some ⟨[("k", "a, b")]⟩ := eq_some_of_entries (by decide +kernel)
  have bytes : toHeaders twoBytes = some ⟨[("k-bin", "AQ==, Ag==")]⟩ := eq_some_of_entries (by decide +kernel)
  have read : fromHeaders ⟨[("k", "a, b")]⟩ = some (Metadata.empty.add "k" (.text "a, b")) := rfl
  have throws : fromHeaders ⟨[("k-bin", "AQ==, Ag==")]⟩ = none := rfl
  refine ⟨?_, ?_, ⟨_, _, texts, read, rfl⟩, _, bytes, throws⟩
  · rintro ⟨h, md', made, back, same⟩
    cases texts.symm.trans made
    cases read.symm.trans back
    have one : [MetadataValue.text "a, b"] = [.text "a", .text "b"] := same "k"
    exact absurd (congrArg List.length one) (by decide)
  · rintro ⟨h, md', made, back, -⟩
    cases bytes.symm.trans made
    cases throws.symm.trans back

end

end Responses
end Client
end GrpcWebnext
