import GrpcWebnext.HttpRule.PercentDecoding
import GrpcWebnext.HttpRule.Router
import GrpcWebnext.Lib.Segments

/-!
# The language of a template

A template accepts the paths whose components align with its segments. `match_segments` decides this
and returns the captures; `match_request` returns the first binding that accepts.
-/

namespace GrpcWebnext
namespace HttpRule
open Segments

/-! ### The specification -/

/-- The non-empty components of a path. -/
def comps (path : String) : List String := (segments '/' path.toList).map String.ofList

/-- A field with the components that its segment takes. -/
abbrev Capture := List String × List String

/-- Components that align with the segments of a template, and what is captured. -/
inductive Accepts : List Segment → List String → List Capture → Prop where
  | nil : Accepts [] [] []
  | literal {lit : String} {template : List Segment} {parts : List String} {captures : List Capture} :
      Accepts template parts captures → Accepts (.literal lit :: template) (lit :: parts) captures
  | single {field : List String} {part : String} {template : List Segment} {parts : List String}
      {captures : List Capture} : Accepts template parts captures →
      Accepts (.single field :: template) (part :: parts) ((field, [part]) :: captures)
  /-- the rest takes all that remains -/
  | rest {field parts : List String} {template : List Segment} {captures : List Capture} :
      Accepts template [] captures → Accepts (.rest field :: template) parts ((field, parts) :: captures)

def Capture.var (decode : String → String) (capture : Capture) : PathVar :=
  (capture.1, "/".intercalate (capture.2.map decode))

/-- A part of a template before its final capture. -/
inductive Part where
  | literal (lit : List Char)
  | single (field : List Char) (star : Bool)

def Part.text : Part → List Char
  | .literal lit => lit
  | .single field false => '{' :: field ++ ['}']
  | .single field true => '{' :: field ++ ['=', '*', '}']

def Part.segment : Part → Segment
  | .literal lit => .literal (String.ofList lit)
  | .single field _ => .single (fieldPath field)

/-- A literal is not in braces, and the text of a field has no equals sign. -/
def Part.WellFormed : Part → Prop
  | .literal lit => ∀ inner, lit ≠ '{' :: inner ++ ['}']
  | .single field _ => '=' ∉ field

/-- A template of literals, single captures and an optional final `{f=**}`. -/
structure Template where
  parts : List Part
  final : Option (List Char)
  parts_wf : ∀ part ∈ parts, part.WellFormed
  final_wf : ∀ field ∈ final, '=' ∉ field

namespace Template

def texts (template : Template) : List (List Char) :=
  template.parts.map Part.text ++ template.final.toList.map fun field => '{' :: field ++ ['=', '*', '*', '}']

def segments (template : Template) : List Segment :=
  template.parts.map Part.segment ++ template.final.toList.map fun field => .rest (fieldPath field)

/-- `t` writes the template: its components are the template's texts. -/
structure Spells (template : Template) (t : String) : Prop where
  noVerb : ':' ∉ t.toList
  components : Segments.segments '/' t.toList = template.texts

end Template

/-! ### Parsing -/

theorem components_eq (path : List Char) : components path = segments '/' path := by
  unfold components trimMatches
  have same : (fun c : Char => decide (c = '/')) = (· == '/') := by
    funext c
    exact (Bool.beq_eq_decide_eq c '/').symm
  rw [same]
  exact (segments_rdropWhile '/' _).trans (segments_dropWhile '/' path)

theorem strip_braces (inner : List Char) : strip ('{' :: inner ++ ['}']) = some inner := by
  simp [strip]

theorem strip_eq_some {seg inner : List Char} (stripped : strip seg = some inner) : seg = '{' :: inner ++ ['}'] := by
  unfold strip at stripped
  split at stripped
  · rename_i s
    obtain ⟨last, ⟨⟩⟩ := Option.ite_none_right_eq_some.mp stripped
    rw [List.cons_append, List.dropLast_append_getLast? _ last]
  · cases stripped

theorem splitAtFirst_none {sep : Char} {s : List Char} (absent : sep ∉ s) : splitAtFirst sep s = none := by
  have all : s.dropWhile (· ≠ sep) = [] := by
    rw [List.dropWhile_eq_nil_iff]
    intro c member
    exact decide_eq_true fun same => absent (same ▸ member)
  unfold splitAtFirst
  rw [all]

theorem splitAtFirst_append {sep : Char} {s : List Char} (absent : sep ∉ s) (after : List Char) :
    splitAtFirst sep (s ++ sep :: after) = some (s, after) := by
  have kept : ∀ c ∈ s, decide (c ≠ sep) = true := fun c member => decide_eq_true fun same => absent (same ▸ member)
  unfold splitAtFirst
  rw [List.dropWhile_append_of_pos kept, List.takeWhile_append_of_pos kept]
  simp

theorem parseSegment_text {part : Part} (wf : part.WellFormed) : parseSegment part.text = part.segment := by
  unfold parseSegment
  cases part with
  | literal lit =>
    cases stripped : strip lit with
    | none => simp [Part.text, stripped, Part.segment]
    | some inner => exact absurd (strip_eq_some stripped) (wf inner)
  | single field star =>
    cases star with
    | false =>
      rw [Part.text, strip_braces]
      simp only [splitAtFirst_none wf, Option.getD_none, List.cons.injEq, reduceCtorEq, and_false, ↓reduceIte]
      rfl
    | true =>
      have braces : Part.text (.single field true) = '{' :: (field ++ ['=', '*']) ++ ['}'] := by simp [Part.text]
      rw [braces, strip_braces]
      simp only [splitAtFirst_append wf, Option.getD_some, List.cons.injEq, reduceCtorEq, and_false, ↓reduceIte]
      rfl

theorem parseSegment_final {field : List Char} (wf : '=' ∉ field) :
    parseSegment ('{' :: field ++ ['=', '*', '*', '}']) = .rest (fieldPath field) := by
  have braces : '{' :: field ++ ['=', '*', '*', '}'] = '{' :: (field ++ ['=', '*', '*']) ++ ['}'] := by simp
  unfold parseSegment
  rw [braces, strip_braces]
  simp only [splitAtFirst_append wf, Option.getD_some, ↓reduceIte]

theorem Template.parse {template : Template} {t : String} (spells : template.Spells t) :
    parseTemplate t = template.segments := by
  have whole : t.toList.takeWhile (· ≠ ':') = t.toList := by
    rw [List.takeWhile_eq_self_iff]
    intro c member
    exact decide_eq_true fun same => spells.noVerb (same ▸ member)
  have parts : template.parts.map (parseSegment ∘ Part.text) = template.parts.map Part.segment :=
    List.map_congr_left fun part member => parseSegment_text (template.parts_wf part member)
  have final : template.final.toList.map (parseSegment ∘ fun field => '{' :: field ++ ['=', '*', '*', '}']) =
      template.final.toList.map fun field => .rest (fieldPath field) :=
    List.map_congr_left fun field member => parseSegment_final (template.final_wf field (by simpa using member))
  rw [parseTemplate, whole, components_eq, spells.components, Template.texts, List.map_append, List.map_map,
    List.map_map, parts, final]
  rfl

/-! ### Matching -/

/-- What the loop of `match_segments` returns: the captures of the components it has not read yet. -/
def Aligned (decode : String → String) (template : List Segment) (parts : List String) (vars : List PathVar)
    (result : Except Panic (Option (List PathVar))) : Prop :=
  ∃ found, result = .ok found ∧ ∀ all, found = some all ↔
    ∃ captures, Accepts template parts captures ∧ all = vars ++ captures.map (Capture.var decode)

theorem not_aligned {decode : String → String} {template : List Segment} {parts : List String} {vars : List PathVar}
    (refused : ∀ captures, ¬Accepts template parts captures) : Aligned decode template parts vars (.ok none) := by
  refine ⟨none, rfl, fun all => ?_⟩
  constructor
  · nofun
  · rintro ⟨captures, accepted, _⟩
    exact absurd accepted (refused captures)

namespace Aligned

variable {decode : String → String} {template : List Segment} {part : String} {parts : List String}
  {vars : List PathVar} {result : Except Panic (Option (List PathVar))}

theorem nil (vars : List PathVar) : Aligned decode [] [] vars (.ok (some vars)) := by
  refine ⟨some vars, rfl, fun all => ?_⟩
  rw [Option.some.injEq]
  constructor
  · rintro rfl
    exact ⟨[], .nil, (List.append_nil _).symm⟩
  · rintro ⟨_, ⟨⟩, rfl⟩
    exact (List.append_nil _).symm

theorem literal (later : Aligned decode template parts vars result) (lit : String) :
    Aligned decode (.literal lit :: template) (lit :: parts) vars result := by
  obtain ⟨found, matched, all⟩ := later
  refine ⟨found, matched, fun vs => (all vs).trans ?_⟩
  constructor
  · rintro ⟨captures, accepted, same⟩
    exact ⟨captures, .literal accepted, same⟩
  · rintro ⟨captures, ⟨⟩, same⟩
    exact ⟨captures, ‹_›, same⟩

theorem single {field : List String} (later : Aligned decode template parts (vars ++ [(field, decode part)]) result) :
    Aligned decode (.single field :: template) (part :: parts) vars result := by
  obtain ⟨found, matched, all⟩ := later
  refine ⟨found, matched, fun vs => (all vs).trans ?_⟩
  constructor
  · rintro ⟨captures, accepted, rfl⟩
    exact ⟨_, .single accepted, by simp [Capture.var]⟩
  · rintro ⟨captures, ⟨⟩, rfl⟩
    exact ⟨_, ‹_›, by simp [Capture.var]⟩

theorem rest {field : List String}
    (later : Aligned decode template [] (vars ++ [(field, "/".intercalate (parts.map decode))]) result) :
    Aligned decode (.rest field :: template) parts vars result := by
  obtain ⟨found, matched, all⟩ := later
  refine ⟨found, matched, fun vs => (all vs).trans ?_⟩
  constructor
  · rintro ⟨captures, accepted, rfl⟩
    exact ⟨_, .rest accepted, by simp [Capture.var]⟩
  · rintro ⟨captures, ⟨⟩, rfl⟩
    exact ⟨_, ‹_›, by simp [Capture.var]⟩

end Aligned

theorem mapM_decode {decode : String → String} {parts : List String}
    (returns : ∀ part ∈ parts, percentDecode part = .ok (decode part)) :
    parts.mapM percentDecode = .ok (parts.map decode) := by
  induction parts with
  | nil => rfl
  | cons part parts ih =>
    obtain ⟨here, later⟩ := List.forall_mem_cons.mp returns
    rw [List.mapM_cons, here, ih later]
    rfl

theorem drop_of_none {parts : List String} {i : Nat} (here : parts[i]? = none) : parts.drop i = [] :=
  List.drop_eq_nil_of_le (List.getElem?_eq_none_iff.mp here)

theorem drop_of_some {parts : List String} {i : Nat} {part : String} (here : parts[i]? = some part) :
    parts.drop i = part :: parts.drop (i + 1) := by
  obtain ⟨within, rfl⟩ := List.getElem?_eq_some_iff.mp here
  exact List.drop_eq_getElem_cons within

theorem matchFrom_aligned {decode : String → String} {parts : List String}
    (returns : ∀ part ∈ parts, percentDecode part = .ok (decode part)) (template : List Segment) {i : Nat}
    (within : i ≤ parts.length) (vars : List PathVar) :
    Aligned decode template (parts.drop i) vars (matchFrom parts template i vars) := by
  induction template generalizing i vars with
  | nil =>
    unfold matchFrom
    split
    · rename_i done
      rw [drop_of_none (List.getElem?_eq_none (Nat.le_of_eq done.symm))]
      exact .nil vars
    · rename_i remains
      apply not_aligned
      intro captures accepted
      have less : i < parts.length := by omega
      rw [List.drop_eq_getElem_cons less] at accepted
      cases accepted
  | cons segment template ih =>
    cases segment with
    | literal lit =>
      unfold matchFrom
      split
      · rename_i here
        have later := ih (List.getElem?_eq_some_iff.mp here).1 vars
        rw [drop_of_some here]
        exact later.literal lit
      · rename_i other
        apply not_aligned
        intro captures accepted
        cases here : parts[i]? with
        | none =>
          rw [drop_of_none here] at accepted
          cases accepted
        | some part =>
          rw [drop_of_some here] at accepted
          cases accepted
          exact other here
    | single field =>
      unfold matchFrom
      cases here : parts[i]? with
      | none =>
        apply not_aligned
        rw [drop_of_none here]
        nofun
      | some part =>
        have value := returns part (List.mem_of_getElem? here)
        have later := ih (List.getElem?_eq_some_iff.mp here).1 (vars ++ [(field, decode part)])
        rw [drop_of_some here]
        simp only [value]
        exact later.single
    | rest field =>
      have values := mapM_decode fun part member => returns part (List.mem_of_mem_drop (i := i) member)
      have later := ih (Nat.le_refl parts.length) (vars ++ [(field, "/".intercalate ((parts.drop i).map decode))])
      rw [List.drop_length] at later
      unfold matchFrom
      rw [if_pos within, values]
      exact later.rest

theorem matchSegments_aligned {decode : String → String} {path : String}
    (returns : ∀ part ∈ comps path, percentDecode part = .ok (decode part)) (template : List Segment) :
    Aligned decode template (comps path) [] (matchSegments template path) := by
  unfold matchSegments
  rw [components_eq]
  exact matchFrom_aligned returns template (Nat.zero_le _) []

/-! ### No index out of range -/

theorem mapM_error {parts : List String} {panic : Panic} (panics : parts.mapM percentDecode = .error panic) :
    panic = .charBoundary := by
  induction parts with
  | nil => cases panics
  | cons part parts ih =>
    rw [List.mapM_cons] at panics
    cases here : percentDecode part with
    | error p =>
      rw [here] at panics
      cases panics
      exact percentDecode_error here
    | ok value =>
      cases later : parts.mapM percentDecode with
      | error p =>
        rw [here, later] at panics
        cases panics
        exact ih later
      | ok values =>
        rw [here, later] at panics
        cases panics

theorem matchFrom_error {parts : List String} {template : List Segment} {i : Nat} {vars : List PathVar} {panic : Panic}
    (within : i ≤ parts.length) (panics : matchFrom parts template i vars = .error panic) : panic = .charBoundary := by
  induction template generalizing i vars with
  | nil => cases panics
  | cons segment template ih =>
    unfold matchFrom at panics
    cases segment with
    | literal lit =>
      dsimp only at panics
      split at panics
      · rename_i here
        exact ih (List.getElem?_eq_some_iff.mp here).1 panics
      · cases panics
    | single field =>
      dsimp only at panics
      split at panics
      · cases panics
      · rename_i part here
        cases decoded : percentDecode part with
        | error p =>
          rw [decoded] at panics
          cases panics
          exact percentDecode_error decoded
        | ok value =>
          rw [decoded] at panics
          exact ih (List.getElem?_eq_some_iff.mp here).1 panics
    | rest field =>
      dsimp only at panics
      rw [if_pos within] at panics
      cases decoded : (parts.drop i).mapM percentDecode with
      | error p =>
        rw [decoded] at panics
        cases panics
        exact mapM_error decoded
      | ok values =>
        rw [decoded] at panics
        exact ih (Nat.le_refl _) panics

/-! ### The first binding that accepts -/

/-- The same letters, but for the case of the ASCII ones. -/
def SameVerb (a b : String) : Prop := a.toList.map Char.toUpper = b.toList.map Char.toUpper

def IsUpper (verb : String) : Prop := verb.toList.map Char.toUpper = verb.toList

theorem toUpper_toUpper (c : Char) : c.toUpper.toUpper = c.toUpper := by
  have upper : ¬('a'.val ≤ c.toUpper.val ∧ c.toUpper.val ≤ 'z'.val) := by
    delta Char.toUpper
    split <;> grind [UInt32.toNat_add]
  exact dif_neg upper

theorem isUpper_map (verb : String) : IsUpper (String.ofList (verb.toList.map Char.toUpper)) := by
  rw [IsUpper, String.toList_ofList, List.map_map]
  exact List.map_congr_left fun c _ => toUpper_toUpper c

theorem sameVerb_iff {method verb : String} (upper : IsUpper verb) :
    SameVerb method verb ↔ verb = String.ofList (method.toList.map Char.toUpper) := by
  rw [SameVerb, upper]
  constructor
  · intro same
    rw [same, String.ofList_toList]
  · rintro rfl
    rw [String.toList_ofList]

section

variable [ProstReflect] [DynamicReflect]

omit [ProstReflect] [DynamicReflect] in
theorem pattern_verb {o : Option String} {verb : String} {found : String × String}
    (set : (match o with | some s => if s ≠ "" then some (verb, s) else none | none => none) = some found) :
    found.1 = verb := by
  cases o with
  | none => cases set
  | some s =>
    obtain ⟨_, ⟨⟩⟩ := Option.ite_none_right_eq_some.mp set
    rfl

theorem verbAndPath_upper {rule : ProstReflect.DynamicMessage} {found : String × String}
    (set : verbAndPath rule = some found) : IsUpper found.1 := by
  unfold verbAndPath at set
  simp only [Option.orElse_eq_orElse, Option.orElse_eq_or, Option.or_eq_some_iff] at set
  rcases set with get | ⟨_, put | ⟨_, post | ⟨_, delete | ⟨_, patch | ⟨_, custom⟩⟩⟩⟩⟩
  · rw [pattern_verb get]; rfl
  · rw [pattern_verb put]; rfl
  · rw [pattern_verb post]; rfl
  · rw [pattern_verb delete]; rfl
  · rw [pattern_verb patch]; rfl
  · split at custom
    · obtain ⟨_, ⟨⟩⟩ := Option.ite_none_right_eq_some.mp custom
      exact isUpper_map _
    · cases custom

theorem pushBinding_upper {rule : ProstReflect.DynamicMessage} {grpcMethod : String}
    {input : ProstReflect.MessageDescriptor} : ∀ b ∈ pushBinding rule grpcMethod input, IsUpper b.httpMethod := by
  intro b member
  unfold pushBinding at member
  split at member
  · cases member
  · rename_i set
    obtain rfl := List.mem_singleton.mp member
    exact verbAndPath_upper set

theorem fromPool_upper (pool : ProstReflect.DescriptorPool) :
    ∀ b ∈ (HttpRouter.fromPool pool).bindings, IsUpper b.httpMethod := by
  intro b member
  unfold HttpRouter.fromPool at member
  split at member
  · cases member
  · obtain ⟨service, _, member⟩ := List.mem_flatMap.mp member
    obtain ⟨⟨methodName, input, opts⟩, _, member⟩ := List.mem_flatMap.mp member
    dsimp only at member
    split at member
    · split at member
      · rcases List.mem_append.mp member with top | additional
        · exact pushBinding_upper b top
        · obtain ⟨m, _, pushed⟩ := List.mem_flatMap.mp additional
          exact pushBinding_upper b pushed
      · cases member
    · cases member

/-- The first binding that is asked for and whose template accepts the path, with its variables. -/
structure FirstAccepting (decode : String → String) (asked : Binding → Prop) (path : String) (bindings : List Binding)
    (found : Option (Binding × List PathVar)) : Prop where
  isSome : ∀ b vars, found = some (b, vars) ↔ ∃ before after captures, bindings = before ++ b :: after ∧ asked b ∧
    Accepts b.segments (comps path) captures ∧ vars = captures.map (Capture.var decode) ∧
    ∀ earlier ∈ before, asked earlier → ∀ captures, ¬Accepts earlier.segments (comps path) captures
  isNone : found = none ↔ ∀ b ∈ bindings, asked b → ∀ captures, ¬Accepts b.segments (comps path) captures

omit [DynamicReflect] in
theorem FirstAccepting.here {decode : String → String} {asked : Binding → Prop} {path : String} {b : Binding}
    {captures : List Capture} (bindings : List Binding) (ask : asked b)
    (accepted : Accepts b.segments (comps path) captures)
    (unique : ∀ captures', Accepts b.segments (comps path) captures' →
      captures'.map (Capture.var decode) = captures.map (Capture.var decode)) :
    FirstAccepting decode asked path (b :: bindings) (some (b, captures.map (Capture.var decode))) where
  isSome b' vars := by
    constructor
    · rintro ⟨⟩
      exact ⟨[], bindings, captures, rfl, ask, accepted, rfl, nofun⟩
    · rintro ⟨before, after, captures', split, _, accepted', rfl, refused⟩
      cases before with
      | nil =>
        obtain ⟨rfl, _⟩ := List.cons.inj split
        rw [unique captures' accepted']
      | cons first before =>
        obtain ⟨rfl, _⟩ := List.cons.inj split
        exact absurd accepted (refused b List.mem_cons_self ask captures)
  isNone := by
    refine iff_of_false nofun fun refused => ?_
    exact refused b List.mem_cons_self ask captures accepted

omit [DynamicReflect] in
theorem FirstAccepting.later {decode : String → String} {asked : Binding → Prop} {path : String} {b : Binding}
    {bindings : List Binding} {found : Option (Binding × List PathVar)}
    (first : FirstAccepting decode asked path bindings found)
    (refused : asked b → ∀ captures, ¬Accepts b.segments (comps path) captures) :
    FirstAccepting decode asked path (b :: bindings) found where
  isSome b' vars := by
    rw [first.isSome]
    constructor
    · rintro ⟨before, after, captures, rfl, ask, accepted, same, none⟩
      exact ⟨b :: before, after, captures, rfl, ask, accepted, same, List.forall_mem_cons.mpr ⟨refused, none⟩⟩
    · rintro ⟨before, after, captures, split, ask, accepted, same, none⟩
      cases before with
      | nil =>
        obtain ⟨rfl, _⟩ := List.cons.inj split
        exact absurd accepted (refused ask captures)
      | cons _ before =>
        obtain ⟨rfl, rest⟩ := List.cons.inj split
        exact ⟨before, after, captures, rest, ask, accepted, same, (List.forall_mem_cons.mp none).2⟩
  isNone := by
    rw [first.isNone, List.forall_mem_cons]
    exact (and_iff_right refused).symm

omit [DynamicReflect] in
theorem firstMatch_first {decode : String → String} {path : String}
    (returns : ∀ part ∈ comps path, percentDecode part = .ok (decode part)) {wanted : Binding → Bool}
    {asked : Binding → Prop} {bindings : List Binding} (same : ∀ b ∈ bindings, wanted b = true ↔ asked b) :
    ∃ found, HttpRouter.firstMatch wanted path bindings = .ok found ∧
      FirstAccepting decode asked path bindings found := by
  induction bindings with
  | nil =>
    refine ⟨none, rfl, fun b vars => ⟨nofun, ?_⟩, iff_of_true rfl nofun⟩
    rintro ⟨before, _, _, split, _⟩
    cases before <;> cases split
  | cons b bindings ih =>
    obtain ⟨here, same⟩ := List.forall_mem_cons.mp same
    obtain ⟨found, matched, first⟩ := ih same
    unfold HttpRouter.firstMatch
    by_cases ask : wanted b = true
    · rw [if_pos ask]
      obtain ⟨vars, decided, all⟩ := matchSegments_aligned returns b.segments
      rw [decided]
      cases vars with
      | none =>
        refine ⟨found, matched, first.later fun _ captures accepted => ?_⟩
        cases (all _).mpr ⟨captures, accepted, rfl⟩
      | some vars =>
        obtain ⟨captures, accepted, rfl⟩ := (all vars).mp rfl
        refine ⟨_, rfl, .here bindings (here.mp ask) accepted fun captures' accepted' => ?_⟩
        have again := (all _).mpr ⟨captures', accepted', rfl⟩
        exact (Option.some.inj again).symm
    · rw [if_neg ask]
      exact ⟨found, matched, first.later fun wanted => absurd (here.mpr wanted) ask⟩

/-- `match_segments` accepts exactly the paths that align with the template and returns their captures,
it never indexes out of range, and `match_request` returns the first binding of the verb that accepts. -/
theorem routes_language {decode : String → String} {path : String}
    (returns : ∀ part ∈ comps path, percentDecode part = .ok (decode part)) :
    (∀ (template : Template) (t : String), template.Spells t →
      Aligned decode template.segments (comps path) [] (matchSegments (parseTemplate t) path)) ∧
    (∀ (segments : List Segment) (any : String) (panic : Panic), matchSegments segments any = .error panic →
      panic = .charBoundary) ∧
    ∀ (pool : ProstReflect.DescriptorPool) (method : String), ∃ found,
      (HttpRouter.fromPool pool).matchRequest method path = .ok found ∧
        FirstAccepting decode (fun b => SameVerb method b.httpMethod) path (HttpRouter.fromPool pool).bindings found := by
  refine ⟨fun template t spells => ?_, fun segments any panic => matchFrom_error (Nat.zero_le _),
    fun pool method => firstMatch_first returns fun b member => ?_⟩
  · rw [template.parse spells]
    exact matchSegments_aligned returns _
  · rw [decide_eq_true_iff]
    exact (sameVerb_iff (fromPool_upper pool b member)).symm

end

attribute [local instance] aliasSchema aliasReflect

/-- `/v1/{book=*}/{page=**}` -/
def bookTemplate : Template where
  parts := [.literal ['v', '1'], .single ['b', 'o', 'o', 'k'] true]
  final := some ['p', 'a', 'g', 'e']
  parts_wf part member := by
    rcases List.mem_cons.mp member with rfl | member
    · intro inner braces
      cases braces
    · obtain rfl := List.mem_singleton.mp member
      show '=' ∉ ['b', 'o', 'o', 'k']
      decide
  final_wf field set := by
    obtain rfl := Option.some.inj set
    decide

theorem bookTemplate_spells : bookTemplate.Spells "/v1/{book=*}/{page=**}" := ⟨by decide, by decide⟩

theorem routes_language_books : matchSegments (parseTemplate "/v1/{book=*}/{page=**}") "/v1/moby/1/2" =
    .ok (some [(["book"], "moby"), (["page"], "1/2")]) := by
  have parts : comps "/v1/moby/1/2" = ["v1", "moby", "1", "2"] := by decide
  have returns : ∀ part ∈ comps "/v1/moby/1/2", percentDecode part = .ok (id part) := by
    rw [parts]
    decide
  obtain ⟨found, matched, all⟩ := (routes_language returns).1 bookTemplate _ bookTemplate_spells
  rw [matched, (all _).mpr ⟨_, .literal (.single (.rest .nil)), rfl⟩]
  decide

end HttpRule
end GrpcWebnext
