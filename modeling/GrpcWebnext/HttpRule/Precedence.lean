import GrpcWebnext.HttpRule.Message
import GrpcWebnext.Lib.Record

/-!
# Path variables against query parameters

The query is laid over a message that already has its path variables. A parameter is left out where
its field path is that of a variable; another path may still lead to a member of a oneof on the way to
the variable's field, and so clear it.
-/

namespace GrpcWebnext
namespace HttpRule
open ProstReflect DynamicReflect

/-! ### Messages -/

/-- What `prost_reflect` says of oneofs and presence. `sameOneof` compares what `containing_oneof`
returns for two fields, `isValidFor` is `is_valid_for_field`. -/
class FieldPresence [ProstReflect] [DynamicReflect] where
  sameOneof : FieldDescriptor → FieldDescriptor → Bool
  supportsPresence : FieldDescriptor → Bool
  defaultValue : FieldDescriptor → Value
  isValidFor : Value → FieldDescriptor → Prop
  hasField : DynamicMessage → FieldDescriptor → Bool

open FieldPresence

/-- The kinds of fields that a scalar may stand in. -/
def Scalar.fits {F32 F64 MessageDescriptor EnumDescriptor : Type} :
    Scalar F32 F64 → Kind MessageDescriptor EnumDescriptor → Prop
  | .bool _, kind => kind = .bool
  | .i32 _, kind => kind = .int32 ∨ kind = .sint32 ∨ kind = .sfixed32
  | .i64 _, kind => kind = .int64 ∨ kind = .sint64 ∨ kind = .sfixed64
  | .u32 _, kind => kind = .uint32 ∨ kind = .fixed32
  | .u64 _, kind => kind = .uint64 ∨ kind = .fixed64
  | .f32 _, kind => kind = .float
  | .f64 _, kind => kind = .double
  | .string _, kind => kind = .string
  | .enumNumber _, kind => ∃ e, kind = .enum e

section

variable [ProstReflect] [DynamicReflect]

theorem coerce_fits {field : FieldDescriptor} {raw : String} {value : Value}
    (coerced : coerce field raw = .ok value) : ∃ s, s.fits (kind field) ∧ value = ofScalar s := by
  unfold coerce at coerced
  cases k : kind field with
  | message md => simp [k] at coerced
  | bytes => simp [k] at coerced
  | string =>
    simp only [k, Except.ok.injEq] at coerced
    exact ⟨.string raw, rfl, coerced.symm⟩
  | bool =>
    simp only [k] at coerced
    split at coerced
    · exact ⟨.bool true, rfl, (Except.ok.inj coerced).symm⟩
    · split at coerced
      · exact ⟨.bool false, rfl, (Except.ok.inj coerced).symm⟩
      · cases coerced
  | enum e =>
    simp only [k] at coerced
    split at coerced
    · exact ⟨.enumNumber _, ⟨e, rfl⟩, (Except.ok.inj coerced).symm⟩
    · split at coerced
      · exact ⟨.enumNumber _, ⟨e, rfl⟩, (Except.ok.inj coerced).symm⟩
      · cases coerced
  | int32 | sint32 | sfixed32 | int64 | sint64 | sfixed64 | uint32 | fixed32 | uint64 | fixed64 | float | double =>
    simp only [k] at coerced
    split at coerced
    · rename_i s parsed
      obtain ⟨n, _, rfl⟩ := Option.map_eq_some_iff.mp parsed
      exact ⟨_, by simp [Scalar.fits], (Except.ok.inj coerced).symm⟩
    · cases coerced

variable [FieldPresence]

/-- The messages of a schema, with the field that a nested message stands in. -/
def messages : Records MessageDescriptor FieldDescriptor DynamicMessage Value where
  schema := descriptor
  field := getFieldByName
  nested f :=
    match kind f with
    | .message md => some md
    | _ => none
  sameOneof := sameOneof
  presence := supportsPresence
  has := hasField
  get := getField
  set := setField
  default := defaultValue
  record? := asMessage
  ofRecord := ofMessage
  fits f v := isValidFor v f

/-- What the merge relies on of `prost_reflect`. -/
structure ReflectLaws : Prop where
  records : messages.Lawful
  scalar_valid : ∀ {f : FieldDescriptor} {s : Scalar F32 F64}, isList f = false → s.fits (kind f) →
    isValidFor (ofScalar s) f
  descriptor_new : ∀ md, descriptor (new md) = md
  descriptor_deserialize : ∀ {md json m rest}, deserialize md json = .ok (m, rest) → descriptor m = md
  encode_decode : ∀ m, ∃ m', decode (descriptor m) (encodeToVec m) = .ok m' ∧ descriptor m' = descriptor m ∧
    ∀ f, messages.Owns m f → getField m' f = getField m f ∧ hasField m' f = hasField m f

theorem nested_of_coerce {field : FieldDescriptor} {raw : String} {value : Value}
    (coerced : coerce field raw = .ok value) : messages.nested field = none := by
  obtain ⟨s, fits, _⟩ := coerce_fits coerced
  change (match kind field with | .message md => some md | _ => none) = none
  cases k : kind field with
  | message md => cases s <;> simp [Scalar.fits, k] at fits
  | _ => rfl

theorem setByPath_writes (laws : messages.Lawful) {msg msg' : DynamicMessage} {path : List String} {raw : String}
    (done : setByPath msg path raw = .ok msg') :
    ∃ value, messages.Writes msg path value msg' ∧
      ∀ f, messages.leaf (descriptor msg) path = some f → isList f = false → coerce f raw = .ok value := by
  induction path generalizing msg msg' with
  | nil => cases done
  | cons first rest ih =>
    cases found : getFieldByName (descriptor msg) first with
    | none => simp [setByPath, found] at done
    | some field =>
      cases rest with
      | nil =>
        cases coerced : coerce field raw with
        | error e => simp [setByPath, found, coerced, Except.mapError, bind, Except.bind] at done
        | ok value =>
          have plain := nested_of_coerce coerced
          simp only [setByPath, found, coerced, Except.mapError, bind, Except.bind] at done
          split at done
          · rename_i list
            cases done
            refine ⟨_, .here found plain, fun f target single => ?_⟩
            obtain rfl : field = f := Option.some.inj (found.symm.trans target)
            cases list.symm.trans single
          · cases done
            refine ⟨value, .here found plain, fun f target _ => ?_⟩
            obtain rfl : field = f := Option.some.inj (found.symm.trans target)
            exact coerced
      | cons second deeper =>
        cases held : asMessage (getField msg field) with
        | none => simp [setByPath, found, held] at done
        | some sub =>
          cases inner : setByPath sub (second :: deeper) raw with
          | error e => simp [setByPath, found, held, inner, bind, Except.bind] at done
          | ok sub' =>
            simp only [setByPath, found, held, inner, bind, Except.bind, Except.ok.injEq] at done
            subst done
            obtain ⟨value, written, coerced⟩ := ih inner
            refine ⟨value, .inside found held written, fun f target single => coerced f ?_ single⟩
            obtain ⟨_, ahead, deep⟩ := Option.bind_eq_some_iff.mp target
            obtain ⟨_, same, nested⟩ := Option.bind_eq_some_iff.mp ahead
            obtain rfl := Option.some.inj (found.symm.trans same)
            obtain rfl := Option.some.inj ((laws.nested_get ⟨first, found⟩ held).symm.trans nested)
            exact deep

/-! ### The three passes -/

/-- The field paths that the query parameters of a request set, in their order. -/
def queryPaths (binding : Binding) (vars : List PathVar) (query : Option String) : List (List String) :=
  match binding.body, query with
  | .wildcard, _ | _, none => []
  | _, some query =>
    match parseQuery query with
    | .ok params =>
      (params.map fun param => fieldPath param.1.toList).filter fun path => !vars.any fun var => var.1 = path
    | .error _ => []

theorem valueAt_setAll (laws : messages.Lawful) {Item : Type} (skip : Item → Bool) (path : Item → List String)
    (raw : Item → String) {p : List String} {f : FieldDescriptor} (plain : messages.nested f = none)
    {items : List Item} (others : ∀ item ∈ items, skip item = false → path item ≠ p) {msg msg' : DynamicMessage}
    (target : messages.leaf (descriptor msg) p = some f)
    (done : items.foldlM (fun msg item => if skip item then .ok msg else setByPath msg (path item) (raw item)) msg =
      .ok msg') :
    descriptor msg' = descriptor msg ∧ messages.valueAt msg' p =
      ((items.filter fun item => !skip item).map path).foldl (messages.after (descriptor msg) f p)
        (messages.valueAt msg p) := by
  induction items generalizing msg with
  | nil =>
    cases done
    exact ⟨rfl, rfl⟩
  | cons item items ih =>
    rw [List.forall_mem_cons] at others
    rw [List.foldlM_cons] at done
    cases skipped : skip item with
    | true =>
      rw [if_pos skipped] at done
      rw [List.filter_cons_of_neg (by simp [skipped])]
      exact ih others.2 target done
    | false =>
      rw [if_neg (by simp [skipped])] at done
      rw [List.filter_cons_of_pos (by simp [skipped])]
      cases set_ : setByPath msg (path item) (raw item) with
      | error e =>
        rw [set_] at done
        cases done
      | ok next =>
        rw [set_] at done
        obtain ⟨value, written, _⟩ := setByPath_writes laws set_
        have same : descriptor next = descriptor msg := written.schema laws
        rw [← same] at target
        obtain ⟨kept, value⟩ := ih others.2 target done
        refine ⟨kept.trans same, ?_⟩
        rw [value, same, List.map_cons, List.foldl_cons]
        rw [same] at target
        rw [Records.valueAt_write_other laws written target plain (others.1 skipped)]
        rfl

def startMessage (binding : Binding) (body : Bytes) : Except Fault DynamicMessage :=
  match binding.body with
  | .wildcard => (deserializeMessage binding.input body).mapError .error
  | .none => .ok (new binding.input)
  | .field field =>
    if body.isEmpty then .ok (new binding.input)
    else (setMessageField (new binding.input) field body).mapError .error

def layQuery (binding : Binding) (vars : List PathVar) (query : Option String) (msg : DynamicMessage) :
    Except Fault DynamicMessage :=
  match binding.body, query with
  | .wildcard, _ | _, none => .ok msg
  | _, some query => do
    let params ← (parseQuery query).mapError .panic
    params.foldlM (fun msg param =>
      if vars.any fun var => var.1 = fieldPath param.1.toList then .ok msg
      else setByPath msg (fieldPath param.1.toList) param.2) msg

omit [FieldPresence] in
theorem buildMessage_eq (binding : Binding) (vars : List PathVar) (query : Option String) (body : Bytes) :
    buildMessage binding vars query body = (do
      let msg ← startMessage binding body
      let msg ← vars.foldlM (fun msg var => setByPath msg var.1 var.2) msg
      let msg ← layQuery binding vars query msg
      .ok (encodeToVec msg)) := by
  unfold buildMessage startMessage layQuery
  cases binding.body with
  | wildcard => rfl
  | none =>
    cases query with
    | none => rfl
    | some query => simp only [bind_assoc]
  | field field =>
    cases query with
    | none => by_cases empty : body.isEmpty = true <;> simp only [empty, Bool.false_eq_true, ↓reduceIte]
    | some query =>
      by_cases empty : body.isEmpty = true <;>
        simp only [empty, Bool.false_eq_true, ↓reduceIte, bind_assoc]

omit [FieldPresence] in
theorem layQuery_sets {binding : Binding} {vars : List PathVar} {query : Option String} {msg msg' : DynamicMessage}
    (done : layQuery binding vars query msg = .ok msg') :
    ∃ params : List (String × String),
      params.foldlM (fun msg param =>
        if vars.any fun var => var.1 = fieldPath param.1.toList then .ok msg
        else setByPath msg (fieldPath param.1.toList) param.2) msg = .ok msg' ∧
      queryPaths binding vars query =
        (params.filter fun param => !vars.any fun var => var.1 = fieldPath param.1.toList).map fun param =>
          fieldPath param.1.toList := by
  unfold layQuery at done
  unfold queryPaths
  split at done
  · exact ⟨[], done, by simp [*]⟩
  · exact ⟨[], done, by simp⟩
  · rename_i query wild
    obtain ⟨params, parsed, set_⟩ := Except.bind_ok done
    refine ⟨params, set_, ?_⟩
    simp only [Except.mapError_ok parsed]
    rw [List.filter_map]
    rfl

theorem deserializeMessage_descriptor (laws : ReflectLaws) {md : MessageDescriptor} {json : Bytes}
    {msg : DynamicMessage} (done : deserializeMessage md json = .ok msg) : descriptor msg = md := by
  unfold deserializeMessage Transcoder.jsonToProto at done
  split at done
  · cases done
    exact laws.descriptor_new md
  · obtain ⟨⟨m, rest⟩, parsed, done⟩ := Except.bind_ok done
    obtain ⟨_, _, ⟨⟩⟩ := Except.bind_ok done
    exact laws.descriptor_deserialize (Except.mapError_ok parsed)

theorem startMessage_descriptor (laws : ReflectLaws) {binding : Binding} {body : Bytes} {msg : DynamicMessage}
    (done : startMessage binding body = .ok msg) : descriptor msg = binding.input := by
  unfold startMessage at done
  split at done
  · exact deserializeMessage_descriptor laws (Except.mapError_ok done)
  · cases done
    exact laws.descriptor_new _
  · rename_i field _
    split at done
    · cases done
      exact laws.descriptor_new _
    · have set_ := Except.mapError_ok done
      unfold setMessageField at set_
      split at set_
      · cases set_
      · rename_i desc found
        split at set_
        · obtain ⟨sub, _, ⟨⟩⟩ := Except.bind_ok set_
          exact (laws.records.schema_set ⟨field, found⟩).trans (laws.descriptor_new _)
        · cases set_

/-! ### What the message has for a variable -/

theorem valueAt_setVars (laws : messages.Lawful) {p : List String} {f : FieldDescriptor}
    (plain : messages.nested f = none) {vars : List PathVar} (others : ∀ w ∈ vars, w.1 ≠ p)
    {msg msg' : DynamicMessage} (target : messages.leaf (descriptor msg) p = some f)
    (done : vars.foldlM (fun msg var => setByPath msg var.1 var.2) msg = .ok msg') :
    descriptor msg' = descriptor msg ∧ messages.valueAt msg' p =
      (vars.map Prod.fst).foldl (messages.after (descriptor msg) f p) (messages.valueAt msg p) := by
  have set_ := valueAt_setAll laws (fun _ => false) Prod.fst Prod.snd plain (fun w member _ => others w member) target
    (by simpa using done)
  simpa using set_

theorem setVars_descriptor (laws : messages.Lawful) {vars : List PathVar} {msg msg' : DynamicMessage}
    (done : vars.foldlM (fun msg var => setByPath msg var.1 var.2) msg = .ok msg') :
    descriptor msg' = descriptor msg := by
  induction vars generalizing msg with
  | nil =>
    cases done
    rfl
  | cons w vars ih =>
    rw [List.foldlM_cons] at done
    obtain ⟨next, set_, rest⟩ := Except.bind_ok done
    obtain ⟨_, written, _⟩ := setByPath_writes laws set_
    exact (ih rest).trans (written.schema laws)

/-- The message that `build_message` encodes has, at the path of a captured variable with a singular
scalar field of its own, the value of the captured text exactly if that value survives the query. -/
theorem path_variable_wins_iff (laws : ReflectLaws) {binding : Binding} {before later : List PathVar} {v : PathVar}
    {query : Option String} {body bytes : Bytes}
    (built : buildMessage binding (before ++ v :: later) query body = .ok bytes) {f : FieldDescriptor}
    (target : messages.leaf binding.input v.1 = some f) (singular : isList f = false)
    (apart : ∀ w ∈ before ++ later, w.1 ≠ v.1 ∧ messages.clashes binding.input v.1 w.1 = false) :
    ∃ value, coerce f v.2 = .ok value ∧
      ((∃ msg, decode binding.input bytes = .ok msg ∧ messages.valueAt msg v.1 = some value) ↔
        messages.Survives binding.input f v.1 value (queryPaths binding (before ++ v :: later) query)) := by
  rw [buildMessage_eq] at built
  obtain ⟨start, started, built⟩ := Except.bind_ok built
  obtain ⟨laid, varsSet, built⟩ := Except.bind_ok built
  obtain ⟨final, queried, encoded⟩ := Except.bind_ok built
  obtain rfl : encodeToVec final = bytes := Except.ok.inj encoded
  rw [List.foldlM_append] at varsSet
  obtain ⟨first, beforeSet, varsSet⟩ := Except.bind_ok varsSet
  rw [List.foldlM_cons] at varsSet
  obtain ⟨second, hereSet, laterSet⟩ := Except.bind_ok varsSet
  have firstInput : descriptor first = binding.input :=
    (setVars_descriptor laws.records beforeSet).trans (startMessage_descriptor laws started)
  obtain ⟨value, written, given⟩ := setByPath_writes laws.records hereSet
  rw [firstInput] at given
  have coerced : coerce f v.2 = .ok value := given f target singular
  have plain := nested_of_coerce coerced
  have secondInput : descriptor second = binding.input := (written.schema laws.records).trans firstInput
  have laidOut : messages.valueAt second v.1 = some value := by
    obtain ⟨s, fits, rfl⟩ := coerce_fits coerced
    have leaf : messages.leaf (messages.schema first) v.1 = some f := by
      rw [← target, ← firstInput]
      rfl
    exact Records.valueAt_write laws.records written leaf (laws.scalar_valid singular fits)
  obtain ⟨laidInput, laidValue⟩ := valueAt_setVars laws.records plain
    (fun w member => (apart w (List.mem_append_right _ member)).1) (secondInput ▸ target) laterSet
  rw [secondInput] at laidInput laidValue
  have untouched : messages.valueAt laid v.1 = some value := by
    rw [laidValue, laidOut, Records.after_foldl_iff]
    refine .inl fun q member => ?_
    obtain ⟨w, there, rfl⟩ := List.mem_map.mp member
    exact (apart w (List.mem_append_right _ there)).2
  obtain ⟨params, paramsSet, paths⟩ := layQuery_sets queried
  have others : ∀ param ∈ params,
      ((before ++ v :: later).any fun var => var.1 = fieldPath param.1.toList) = false →
      fieldPath param.1.toList ≠ v.1 := by
    intro param _ taken clash
    simp [clash] at taken
  obtain ⟨finalInput, finalValue⟩ := valueAt_setAll laws.records
    (fun param : String × String => (before ++ v :: later).any fun var => var.1 = fieldPath param.1.toList)
    (fun param => fieldPath param.1.toList) Prod.snd plain others (laidInput ▸ target) paramsSet
  rw [laidInput] at finalInput
  rw [laidInput, untouched, ← paths] at finalValue
  obtain ⟨msg, decoded, schema, fields⟩ := laws.encode_decode final
  rw [finalInput] at decoded
  have same : messages.valueAt msg v.1 = messages.valueAt final v.1 := Records.valueAt_congr schema fields v.1
  refine ⟨value, coerced, ?_⟩
  rw [← Records.after_foldl_iff, ← finalValue]
  constructor
  · rintro ⟨msg', decoded', has⟩
    obtain rfl := Except.ok.inj (decoded.symm.trans decoded')
    exact same.symm.trans has
  · intro has
    exact ⟨msg, decoded, same.trans has⟩

end

/-! ### A message with one oneof -/

/-- `oneof state { bool on = 1; bool off = 2; }` -/
inductive SwitchMessage where
  | unset
  | on (b : Bool)
  | off (b : Bool)

inductive SwitchField where
  | on | off

inductive SwitchValue where
  | bool (b : Bool)
  | message (m : SwitchMessage)
  | other

abbrev switchSchema : ProstReflect where
  DescriptorPool := Unit
  MessageDescriptor := Unit
  DynamicMessage := SwitchMessage
  getServiceByName _ _ := none
  new _ := .unset
  deserialize _ json := if json = [123, 125] then .ok (.unset, []) else .error "expected a map"
  finish rest := if rest.isEmpty then .ok () else .error "trailing characters"
  encodeToVec
    | .unset => []
    | .on b => [8, if b then 1 else 0]
    | .off b => [16, if b then 1 else 0]
  decode _ proto :=
    match proto with
    | [] => .ok .unset
    | [8, b] => .ok (.on (b ≠ 0))
    | [16, b] => .ok (.off (b ≠ 0))
    | _ => .error "buffer underflow"
  serialize _ := .ok [123, 125]

attribute [local instance] switchSchema in
abbrev switchReflect : DynamicReflect where
  FieldDescriptor := SwitchField
  EnumDescriptor := Unit
  ExtensionDescriptor := Unit
  Value := SwitchValue
  F32 := Unit
  F64 := Unit
  descriptor _ := ()
  getFieldByName _ field := if field = "on" then some .on else if field = "off" then some .off else none
  name
    | .on => "on"
    | .off => "off"
  kind _ := .bool
  isList _ := false
  enumValues _ := []
  getField
    | .on b, .on => .bool b
    | .off b, .off => .bool b
    | _, _ => .bool false
  setField
    | _, .on, .bool b => .on b
    | _, .off, .bool b => .off b
    | _, _, _ => .unset
  ofScalar
    | .bool b => .bool b
    | _ => .other
  ofMessage := .message
  ofList _ := .other
  asStr _ := none
  asMessage
    | .message m => some m
    | _ => none
  asList _ := none
  getExtensionByName _ _ := none
  services _ := []
  hasExtension _ _ := false
  getExtension _ _ := .other
  parseF32 _ := none
  parseF64 _ := none
  debug s := "\"" ++ s ++ "\""

attribute [local instance] switchSchema switchReflect in
abbrev switchPresence : FieldPresence where
  sameOneof _ _ := true
  supportsPresence _ := true
  defaultValue _ := .bool false
  isValidFor v _ := ∃ b, v = .bool b
  hasField
    | .on _, .on => true
    | .off _, .off => true
    | _, _ => false

attribute [local instance] switchSchema switchReflect switchPresence

theorem switch_getField (m : SwitchMessage) (f : SwitchField) : ∃ b, getField m f = SwitchValue.bool b := by
  cases m <;> cases f <;> exact ⟨_, rfl⟩

theorem switch_flat {m s : SwitchMessage} {f : SwitchField} (held : asMessage (getField m f) = some s) : False := by
  obtain ⟨b, value⟩ := switch_getField m f
  rw [value] at held
  cases held

theorem switch_lawful : messages.Lawful where
  field_inj {S a b f} first second := by
    change (if a = "on" then some SwitchField.on else if a = "off" then some .off else none) = some f at first
    change (if b = "on" then some SwitchField.on else if b = "off" then some .off else none) = some f at second
    grind
  nested_get _ held := (switch_flat held).elim
  nested_presence _ _ := rfl
  oneof_presence _ _ := rfl
  record_ofRecord _ := rfl
  fits_record _ held _ := (switch_flat held).elim
  schema_set _ := rfl
  get_set {r f v} _ fits := by
    obtain ⟨b, rfl⟩ := fits
    cases f <;> rfl
  has_set {r f v} _ fits _ := by
    obtain ⟨b, rfl⟩ := fits
    cases f <;> rfl
  other _ _ _ apart := nomatch apart
  cleared {r f g v} _ _ different _ := by
    cases f <;> cases g <;> first | exact absurd rfl different | (cases v <;> rfl)
  absent {r f} _ missing := by
    cases r <;> cases f <;> first | rfl | cases missing
  blank held _ := nomatch held

theorem switch_laws : ReflectLaws where
  records := switch_lawful
  scalar_valid {f s} _ fits := by
    cases s <;> first | exact ⟨_, rfl⟩ | (simp [Scalar.fits, kind] at fits)
  descriptor_new _ := rfl
  descriptor_deserialize _ := rfl
  encode_decode m := by
    refine ⟨m, ?_, rfl, fun f _ => ⟨rfl, rfl⟩⟩
    rcases m with _ | (_ | _) | (_ | _) <;> rfl

def setSwitch : Binding := ⟨"GET", [.literal "switch", .single ["on"]], .none, "/switch.Switch/Set", ()⟩

theorem path_variable_wins_iff_same_path :
    buildMessage setSwitch [(["on"], "true")] (some "on=false") [] = .ok [8, 1] ∧
      ∃ value, coerce SwitchField.on "true" = .ok value ∧
        ((∃ msg, decode setSwitch.input [8, 1] = .ok msg ∧ messages.valueAt msg ["on"] = some value) ↔
          messages.Survives setSwitch.input SwitchField.on ["on"] value
            (queryPaths setSwitch [(["on"], "true")] (some "on=false"))) := by
  have built : buildMessage setSwitch ([] ++ (["on"], "true") :: []) (some "on=false") [] = .ok [8, 1] := by
    decide +kernel
  exact ⟨built, path_variable_wins_iff switch_laws built rfl rfl (by simp)⟩

/-- `GET /switch/true?off=true`: the query takes the switch of the path away. -/
theorem sibling_clears :
    buildMessage setSwitch [(["on"], "true")] (some "off=true") [] = .ok [16, 1] ∧
      matchSegments setSwitch.segments "/switch/true" = .ok (some [(["on"], "true")]) ∧
      coerce SwitchField.on "true" = .ok (SwitchValue.bool true) ∧
      ¬∃ msg, decode setSwitch.input [16, 1] = .ok msg ∧
        messages.valueAt msg ["on"] = some (SwitchValue.bool true) := by
  refine ⟨by decide +kernel, by decide +kernel, rfl, ?_⟩
  rintro ⟨msg, ⟨⟩, has⟩
  cases has

end HttpRule
end GrpcWebnext
