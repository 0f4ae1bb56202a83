import GrpcWebnext.HttpRule.Language

/-!
# Templates with values

A template is expanded with the percent-encoded values of its captures. Matching the path gives the
values back, but for a rest value with empty components.
-/

namespace GrpcWebnext
namespace HttpRule
open Segments Percent

/-! ### Expansion -/

/-- A part of a template with the value of its capture. -/
inductive FilledPart where
  | literal (lit : List Char)
  | single (field : List Char) (star : Bool) (value : String) (nonempty : value ≠ "")

def FilledPart.part : FilledPart → Part
  | .literal lit => .literal lit
  | .single field star _ _ => .single field star

def FilledPart.var? : FilledPart → Option PathVar
  | .literal _ => none
  | .single field _ value _ => some (fieldPath field, value)

/-- The component of a path that a part is expanded to. -/
def FilledPart.expand (kept : Kept) : FilledPart → List Char
  | .literal lit => lit
  | .single _ _ value _ => kept.encodeText value.toList

/-- A template with a value for each capture, not empty but for the final one. -/
structure Filled where
  parts : List FilledPart
  final : Option (List Char × String)
  parts_wf : ∀ part ∈ parts, part.part.WellFormed
  final_wf : ∀ rest ∈ final, '=' ∉ rest.1

namespace Filled

def template (filled : Filled) : Template where
  parts := filled.parts.map FilledPart.part
  final := filled.final.map Prod.fst
  parts_wf part member := by
    obtain ⟨p, inside, rfl⟩ := List.mem_map.mp member
    exact filled.parts_wf p inside
  final_wf field set := by
    obtain ⟨rest, held, rfl⟩ := Option.map_eq_some_iff.mp set
    exact filled.final_wf rest held

def vars (filled : Filled) : List PathVar :=
  filled.parts.filterMap FilledPart.var? ++ filled.final.toList.map fun rest => (fieldPath rest.1, rest.2)

/-- A rest value is encoded component by component. -/
def expandRest (kept : Kept) (value : String) : List Char :=
  ['/'].intercalate ((value.toList.splitOn '/').map kept.encodeText)

def expand (filled : Filled) (kept : Kept) : String :=
  String.ofList ('/' :: ['/'].intercalate (filled.parts.map (FilledPart.expand kept) ++
    filled.final.toList.map fun rest => expandRest kept rest.2))

end Filled

/-! ### Decoding a value -/

theorem percentDecodeBytes_plain {c : UInt8} (other : c ≠ 37) (rest : Bytes) :
    percentDecodeBytes (c :: rest) = (c :: ·) <$> percentDecodeBytes rest := by
  rw [percentDecodeBytes.eq_def]
  simp only [other, ↓reduceIte]

theorem isCharBoundary_ascii {bytes : Bytes} (ascii : ∀ b ∈ bytes, b < 128) : isCharBoundary bytes = true := by
  cases bytes with
  | nil => rfl
  | cons b bytes =>
    have small := UInt8.lt_iff_toNat_lt.mp (ascii b List.mem_cons_self)
    rw [isCharBoundary, Utf8.continuation_eq, Bool.not_eq_true', decide_eq_false_iff_not]
    intro high
    exact absurd small (Nat.not_lt.mpr high.1)

theorem percentDecodeBytes_escape {a b byte : UInt8} {rest : Bytes} (read : Metadata.fromHex a b = some byte)
    (ascii : ∀ c ∈ a :: b :: rest, c < 128) :
    percentDecodeBytes (37 :: a :: b :: rest) = (byte :: ·) <$> percentDecodeBytes rest := by
  have later : ∀ c ∈ rest, c < 128 := fun c member => ascii c (List.mem_cons_of_mem a (List.mem_cons_of_mem b member))
  rw [percentDecodeBytes.eq_def]
  simp only [↓reduceIte, isCharBoundary_ascii ascii, isCharBoundary_ascii later, Bool.and_self, read]

theorem percentDecodeBytes_encode (kept : Kept) (bytes : Bytes) : percentDecodeBytes (kept.encode bytes) = .ok bytes := by
  induction bytes with
  | nil => rfl
  | cons b bytes ih =>
    have ascii : ∀ c ∈ kept.encode (b :: bytes), c < 128 := fun c member => kept.encode_ascii member
    rw [Kept.encode, List.flatMap_cons, ← Kept.encode] at ascii ⊢
    by_cases keeps : kept.keeps b = true
    · have other : b ≠ 37 := by
        rintro rfl
        exact absurd keeps (by simp [kept.percent])
      rw [if_pos keeps, List.singleton_append, percentDecodeBytes_plain other, ih]
      rfl
    · rw [if_neg keeps] at ascii ⊢
      have small := b.toNat_lt
      have digit := hexDigit_range (show b.toNat / 16 < 16 by omega)
      have read : Metadata.fromHex (hexDigit (b.toNat / 16)) (hexDigit (b.toNat % 16)) = some b := by
        rw [fromHex_eq, if_neg digit.2.2.2, escape_hexDigits]
      have step : percentDecodeBytes (37 :: hexDigit (b.toNat / 16) :: hexDigit (b.toNat % 16) :: kept.encode bytes) =
          (b :: ·) <$> percentDecodeBytes (kept.encode bytes) :=
        percentDecodeBytes_escape read fun c member => ascii c (List.mem_cons_of_mem 37 member)
      rw [ih] at step
      exact step

theorem percentDecode_encodeText (kept : Kept) (text : List Char) :
    percentDecode (String.ofList (kept.encodeText text)) = .ok (String.ofList text) := by
  have ascii : ∀ b ∈ kept.encode (text.flatMap String.utf8EncodeChar), b.toNat < 128 := fun b member =>
    UInt8.lt_iff_toNat_lt.mp (kept.encode_ascii member)
  unfold percentDecode Kept.encodeText
  rw [Utf8.encode_ascii ascii, percentDecodeBytes_encode]
  exact congrArg (fun cs => Except.ok (String.ofList cs)) (Utf8.lossy_flatMap text)

/-! ### Matching an expanded path -/

/-- The loop returns the captures of an alignment if it can decode what they take. -/
theorem matchFrom_accepts {decode : String → String} {parts : List String} (template : List Segment) {i : Nat}
    (within : i ≤ parts.length) {captures : List Capture} (accepted : Accepts template (parts.drop i) captures)
    (returns : ∀ capture ∈ captures, ∀ part ∈ capture.2, percentDecode part = .ok (decode part)) (vars : List PathVar) :
    matchFrom parts template i vars = .ok (some (vars ++ captures.map (Capture.var decode))) := by
  induction template generalizing i captures vars with
  | nil =>
    generalize remaining : parts.drop i = left at accepted
    cases accepted
    have done : i = parts.length := Nat.le_antisymm within (List.drop_eq_nil_iff.mp remaining)
    rw [matchFrom, if_pos done, List.map_nil, List.append_nil]
  | cons segment template ih =>
    cases here : parts[i]? with
    | none =>
      rw [drop_of_none here] at accepted
      cases accepted with
      | rest accepted =>
        rename_i field captures
        have later := ih (Nat.le_refl parts.length) (by rwa [List.drop_length])
          (List.forall_mem_cons.mp returns).2 (vars ++ [(field, "/".intercalate [])])
        rw [matchFrom, if_pos within, drop_of_none here]
        refine later.trans ?_
        simp [Capture.var]
    | some part =>
      have less := (List.getElem?_eq_some_iff.mp here).1
      have remaining := drop_of_some here
      rw [remaining] at accepted
      cases accepted with
      | literal accepted =>
        rw [matchFrom, if_pos here]
        exact ih less accepted returns vars
      | single accepted =>
        rename_i field captures
        obtain ⟨value, returns⟩ := List.forall_mem_cons.mp returns
        unfold matchFrom
        simp only [here, value part List.mem_cons_self]
        refine (ih less accepted returns _).trans ?_
        simp [Capture.var]
      | rest accepted =>
        rename_i field captures
        obtain ⟨values, returns⟩ := List.forall_mem_cons.mp returns
        have later := ih (Nat.le_refl parts.length) (by rwa [List.drop_length]) returns
          (vars ++ [(field, "/".intercalate ((part :: parts.drop (i + 1)).map decode))])
        rw [matchFrom, if_pos within, remaining, mapM_decode values]
        refine later.trans ?_
        simp [Capture.var]

/-- What `percent_decode` returns, where it does. -/
def decoded (part : String) : String := (percentDecode part).toOption.getD ""

theorem decoded_encodeText (kept : Kept) (text : List Char) :
    decoded (String.ofList (kept.encodeText text)) = String.ofList text := by
  rw [decoded, percentDecode_encodeText]
  rfl

theorem segments_expandRest {kept : Kept} (slash : kept.keeps 47 = false) (value : String) :
    segments '/' (Filled.expandRest kept value) = (segments '/' value.toList).map kept.encodeText := by
  have piece : ∀ p : List Char, segments '/' (kept.encodeText p) = if p = [] then [] else [kept.encodeText p] := by
    intro p
    by_cases none : p = []
    · subst none
      rfl
    · rw [if_neg none, segments_piece (kept.encodeText_slash slash p) (mt (kept.encodeText_eq_nil_iff p).mp none)]
  rw [Filled.expandRest, segments_intercalate, List.flatMap_map, segments]
  induction value.toList.splitOn '/' with
  | nil => rfl
  | cons p pieces ih =>
    rw [List.flatMap_cons, ih, piece]
    cases p <;> rfl

/-- The capture of a part. -/
def FilledPart.capture? (kept : Kept) : FilledPart → Option Capture
  | .literal _ => none
  | .single field _ value _ => some (fieldPath field, [String.ofList (kept.encodeText value.toList)])

namespace Filled

def captures (filled : Filled) (kept : Kept) : List Capture :=
  filled.parts.filterMap (FilledPart.capture? kept) ++ filled.final.toList.map fun rest =>
    (fieldPath rest.1, (segments '/' (expandRest kept rest.2)).map String.ofList)

variable {filled : Filled} {t : String} {kept : Kept}

theorem segments_part (spells : filled.template.Spells t) (slash : kept.keeps 47 = false) {part : FilledPart}
    (member : part ∈ filled.parts) : segments '/' (part.expand kept) = [part.expand kept] := by
  cases part with
  | literal lit =>
    have text : lit ∈ segments '/' t.toList := by
      rw [spells.components]
      refine List.mem_append_left _ (List.mem_map.mpr ⟨.literal lit, ?_, rfl⟩)
      exact List.mem_map.mpr ⟨.literal lit, member, rfl⟩
    exact segments_piece (mem_segments text).1 (mem_segments text).2
  | single field star value nonempty =>
    refine segments_piece (kept.encodeText_slash slash _) (mt (kept.encodeText_eq_nil_iff _).mp ?_)
    exact fun none => nonempty (String.toList_eq_nil_iff.mp none)

theorem comps_expand (spells : filled.template.Spells t) (slash : kept.keeps 47 = false) :
    comps (filled.expand kept) = (filled.parts.map fun part => String.ofList (part.expand kept)) ++
      filled.final.toList.flatMap fun rest => (segments '/' (expandRest kept rest.2)).map String.ofList := by
  have parts : (filled.parts.map (FilledPart.expand kept)).flatMap (segments '/') =
      filled.parts.map (FilledPart.expand kept) := by
    rw [List.flatMap_map]
    exact (List.flatMap_congr fun part member => segments_part spells slash member).trans List.map_eq_flatMap.symm
  unfold comps expand
  rw [String.toList_ofList, ← List.nil_append ('/' :: _), segments_append_sep, segments_nil, List.nil_append,
    segments_intercalate, List.flatMap_append, parts, List.map_append, List.map_map]
  cases filled.final <;> simp

theorem accepts_parts (kept : Kept) (parts : List FilledPart) {template : List Segment} {rest : List String}
    {captures : List Capture} (accepted : Accepts template rest captures) :
    Accepts (parts.map (Part.segment ∘ FilledPart.part) ++ template)
      ((parts.map fun part => String.ofList (part.expand kept)) ++ rest)
      (parts.filterMap (FilledPart.capture? kept) ++ captures) := by
  induction parts with
  | nil => exact accepted
  | cons part parts ih =>
    cases part with
    | literal lit => exact .literal ih
    | single field star value nonempty => exact .single ih

theorem accepts_expand (spells : filled.template.Spells t) (slash : kept.keeps 47 = false) :
    Accepts filled.template.segments (comps (filled.expand kept)) (filled.captures kept) := by
  rw [comps_expand spells slash, Template.segments, captures]
  have parts : filled.template.parts.map Part.segment = filled.parts.map (Part.segment ∘ FilledPart.part) :=
    List.map_map
  have final : filled.template.final = filled.final.map Prod.fst := rfl
  rw [parts, final]
  apply accepts_parts
  cases filled.final with
  | none => exact .nil
  | some rest =>
    simp only [Option.map_some, Option.toList_some, List.map_cons, List.map_nil, List.flatMap_cons, List.flatMap_nil,
      List.append_nil]
    exact .rest .nil

/-- Every part that a capture takes is decoded. -/
theorem captures_return (slash : kept.keeps 47 = false) {capture : Capture} (member : capture ∈ filled.captures kept)
    {part : String} (inside : part ∈ capture.2) : percentDecode part = .ok (decoded part) := by
  have encoded : ∃ text, part = String.ofList (kept.encodeText text) := by
    rcases List.mem_append.mp member with single | final
    · obtain ⟨filledPart, _, captured⟩ := List.mem_filterMap.mp single
      cases filledPart with
      | literal lit => cases captured
      | single field star value nonempty =>
        cases captured
        exact ⟨value.toList, List.mem_singleton.mp inside⟩
    · obtain ⟨rest, _, rfl⟩ := List.mem_map.mp final
      rw [segments_expandRest slash, List.map_map] at inside
      obtain ⟨text, _, rfl⟩ := List.mem_map.mp inside
      exact ⟨text, rfl⟩
  obtain ⟨text, rfl⟩ := encoded
  rw [decoded_encodeText, percentDecode_encodeText]

/-- What is left of a rest value: its components that are not empty, joined again. -/
def rejoined (value : String) : String := "/".intercalate ((segments '/' value.toList).map String.ofList)

theorem rejoined_eq_iff (value : String) :
    rejoined value = value ↔ value = "" ∨ [] ∉ value.toList.splitOn '/' := by
  have text : (rejoined value).toList = ['/'].intercalate (segments '/' value.toList) := by
    rw [rejoined, String.toList_intercalate, List.map_map]
    exact congrArg _ ((List.map_congr_left fun s _ => String.toList_ofList).trans (List.map_id _))
  rw [← String.toList_inj, text, intercalate_segments_iff, String.toList_eq_nil_iff]

theorem vars_captures (slash : kept.keeps 47 = false) : (filled.captures kept).map (Capture.var decoded) =
    filled.parts.filterMap FilledPart.var? ++
      filled.final.toList.map fun rest => (fieldPath rest.1, rejoined rest.2) := by
  rw [captures, List.map_append, List.map_filterMap, List.map_map]
  congr 1
  · refine List.filterMap_congr fun part _ => ?_
    cases part with
    | literal lit => rfl
    | single field star value nonempty =>
      simp [FilledPart.capture?, FilledPart.var?, Capture.var, decoded_encodeText]
  · refine List.map_congr_left fun rest _ => ?_
    show (fieldPath rest.1, "/".intercalate (((segments '/' (expandRest kept rest.2)).map String.ofList).map decoded)) = _
    rw [segments_expandRest slash, List.map_map, List.map_map]
    simp [rejoined, Function.comp_def, decoded_encodeText]

theorem matched (slash : kept.keeps 47 = false) (spells : filled.template.Spells t) :
    matchSegments (parseTemplate t) (filled.expand kept) = .ok (some (filled.parts.filterMap FilledPart.var? ++
      filled.final.toList.map fun rest => (fieldPath rest.1, rejoined rest.2))) := by
  rw [filled.template.parse spells, matchSegments, components_eq, ← vars_captures slash]
  exact matchFrom_accepts _ (Nat.zero_le _) (accepts_expand spells slash)
    (fun capture member part inside => captures_return slash member inside) []

/-- Matching an expanded template returns the values that were put in exactly if the rest value is empty
or has no leading, trailing or doubled slash. -/
theorem captures_return_iff (slash : kept.keeps 47 = false) (spells : filled.template.Spells t) :
    matchSegments (parseTemplate t) (filled.expand kept) = .ok (some filled.vars) ↔
      ∀ rest ∈ filled.final, rest.2 = "" ∨ [] ∉ rest.2.toList.splitOn '/' := by
  rw [matched slash spells, Except.ok.injEq, Option.some.injEq, vars, List.append_cancel_left_eq]
  cases filled.final with
  | none => simp
  | some rest => simp [rejoined_eq_iff]

end Filled

/-! ### A key with a doubled slash -/

/-- An encoder that keeps letters and digits. -/
def alphanumeric : Kept where
  keeps b := 48 ≤ b && b ≤ 57 || 65 ≤ b && b ≤ 90 || 97 ≤ b && b ≤ 122
  ascii b keeps := by
    simp only [Bool.or_eq_true, Bool.and_eq_true, decide_eq_true_eq, UInt8.le_iff_toNat_le, UInt8.reduceToNat] at keeps
    refine UInt8.lt_iff_toNat_lt.mpr ?_
    show b.toNat < 128
    omega
  percent := by decide

/-- `/v1/{book=*}/{page=**}` with a book and a page. -/
def bookPage (book page : String) (nonempty : book ≠ "") : Filled where
  parts := [.literal ['v', '1'], .single ['b', 'o', 'o', 'k'] true book nonempty]
  final := some (['p', 'a', 'g', 'e'], page)
  parts_wf part member := by
    rcases List.mem_cons.mp member with rfl | member
    · intro inner braces
      cases braces
    · obtain rfl := List.mem_singleton.mp member
      show '=' ∉ ['b', 'o', 'o', 'k']
      decide
  final_wf rest set := by
    obtain rfl := Option.some.inj set
    show '=' ∉ ['p', 'a', 'g', 'e']
    decide

theorem bookPage_spells (book page : String) (nonempty : book ≠ "") :
    (bookPage book page nonempty).template.Spells "/v1/{book=*}/{page=**}" := ⟨by decide, rfl⟩

theorem captures_return_path : matchSegments (parseTemplate "/v1/{book=*}/{page=**}")
    ((bookPage "a/b" "c d/€" (by decide)).expand alphanumeric) =
      .ok (some [(["book"], "a/b"), (["page"], "c d/€")]) := by
  have slash : alphanumeric.keeps 47 = false := by decide
  refine (Filled.captures_return_iff slash (bookPage_spells "a/b" "c d/€" (by decide))).mpr fun rest set => ?_
  obtain rfl := Option.some.inj set
  exact .inr (by decide)

/-- The key `a//b` comes back as `a/b`. -/
theorem doubled_slash_lost :
    matchSegments (parseTemplate "/v1/{book=*}/{page=**}") ((bookPage "x" "a//b" (by decide)).expand alphanumeric) ≠
      .ok (some (bookPage "x" "a//b" (by decide)).vars) ∧
    matchSegments (parseTemplate "/v1/{book=*}/{page=**}") ((bookPage "x" "a//b" (by decide)).expand alphanumeric) =
      .ok (some [(["book"], "x"), (["page"], "a/b")]) := by
  have slash : alphanumeric.keeps 47 = false := by decide
  rw [Filled.matched slash (bookPage_spells "x" "a//b" (by decide))]
  refine ⟨fun same => ?_, rfl⟩
  have pages := congrArg (List.map Prod.snd) (Option.some.inj (Except.ok.inj same))
  exact absurd pages (by decide)

end HttpRule
end GrpcWebnext
