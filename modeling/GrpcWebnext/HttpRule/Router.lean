import GrpcWebnext.Fetch.JsonUpstream
import GrpcWebnext.HttpRule.Message

/-!
# The table of HTTP bindings

`HttpRouter` is compiled from the `google.api.http` options of a pool and matched in the order of
its bindings: by path for an upgrade, by verb and path for a REST request.
-/

namespace GrpcWebnext
namespace HttpRule
open ProstReflect DynamicReflect

def HTTP_EXT : String := "google.api.http"

section

variable [ProstReflect] [DynamicReflect]

/-! ### Compiling -/

/-- `rule.get_field_by_name(_)`: a field that is not set has its default value. -/
def fieldNamed (msg : DynamicMessage) (field : String) : Option Value :=
  (getFieldByName (descriptor msg) field).map (getField msg)

def strNamed (msg : DynamicMessage) (field : String) : Option String := (fieldNamed msg field).bind asStr

/-- `verb_and_path`, from the first pattern that is not empty. -/
def verbAndPath (rule : DynamicMessage) : Option (String × String) :=
  let pattern (field verb : String) : Option (String × String) :=
    match strNamed rule field with
    | some s => if s ≠ "" then some (verb, s) else none
    | none => none
  let custom : Option (String × String) :=
    match (fieldNamed rule "custom").bind asMessage with
    | some m =>
      let kind := (strNamed m "kind").getD ""
      let path := (strNamed m "path").getD ""
      if kind ≠ "" then some (String.ofList (kind.toList.map Char.toUpper), path) else none
    | none => none
  pattern "get" "GET" <|> pattern "put" "PUT" <|> pattern "post" "POST" <|> pattern "delete" "DELETE" <|>
    pattern "patch" "PATCH" <|> custom

def bodyRule (rule : DynamicMessage) : BodyRule :=
  match (strNamed rule "body").getD "" with
  | "" => .none
  | "*" => .wildcard
  | field => .field field

def pushBinding (rule : DynamicMessage) (grpcMethod : String) (input : MessageDescriptor) : List Binding :=
  match verbAndPath rule with
  | none => []
  | some (httpMethod, template) => [⟨httpMethod, parseTemplate template, bodyRule rule, grpcMethod, input⟩]

/-- `collect_rule`: the top rule and one level of `additional_bindings`. -/
def collectRule (rule : DynamicMessage) (grpcMethod : String) (input : MessageDescriptor) : List Binding :=
  let items := ((fieldNamed rule "additional_bindings").bind asList).getD []
  pushBinding rule grpcMethod input ++
    (items.filterMap asMessage).flatMap fun m => pushBinding m grpcMethod input

structure HttpRouter where
  bindings : List Binding

namespace HttpRouter

def fromPool (pool : DescriptorPool) : HttpRouter :=
  match getExtensionByName pool HTTP_EXT with
  | none => ⟨[]⟩
  | some ext =>
    ⟨(services pool).flatMap fun service => service.2.flatMap fun method =>
      let (methodName, input, opts) := method
      if hasExtension opts ext then
        match asMessage (getExtension opts ext) with
        | some rule => collectRule rule s!"/{service.1}/{methodName}" input
        | none => []
      else []⟩

/-! ### Matching -/

/-- The first binding that is asked for and whose template matches the path. -/
def firstMatch (wanted : Binding → Bool) (path : String) :
    List Binding → Except Panic (Option (Binding × List PathVar))
  | [] => .ok none
  | b :: bindings =>
    if wanted b then do
      match ← matchSegments b.segments path with
      | some vars => pure (some (b, vars))
      | none => firstMatch wanted path bindings
    else firstMatch wanted path bindings

def matchRequest (router : HttpRouter) (method path : String) :
    Except Panic (Option (Binding × List PathVar)) :=
  let want := String.ofList (method.toList.map Char.toUpper)
  firstMatch (fun b => b.httpMethod = want) path router.bindings

end HttpRouter

/-- `WsBinding` with what its methods read. -/
structure Route where
  binding : Binding
  vars : List PathVar
  query : Option String

namespace Route

def grpcMethod (route : Route) : String := route.binding.grpcMethod

def hasBody (route : Route) : Bool := route.binding.body ≠ .none

def build (route : Route) (body : Bytes) : Except Fault Bytes :=
  buildMessage route.binding route.vars route.query body

end Route

namespace HttpRouter

/-- `match_ws`: an upgrade is always a GET, so no verb is compared. -/
def matchWs (router : HttpRouter) (path : String) (query : Option String) : Except Panic (Option Route) := do
  let found ← firstMatch (fun _ => true) path router.bindings
  pure (found.map fun (binding, vars) => ⟨binding, vars, query⟩)

def transcode (router : HttpRouter) (method path : String) (query : Option String) (body : Bytes) :
    Except Fault (Option Fetch.HttpCall) := do
  match ← (router.matchRequest method path).mapError .panic with
  | none => pure none
  | some (binding, vars) =>
    let message ← buildMessage binding vars query body
    pure (some ⟨binding.grpcMethod, message⟩)

/-! ### Paths that no template accepts -/

/-- No template of the table accepts the path, and none panics on it. -/
def Free (router : HttpRouter) (path : String) : Prop :=
  ∀ b ∈ router.bindings, matchSegments b.segments path = .ok none

omit [DynamicReflect] in
theorem firstMatch_none_iff (wanted : Binding → Bool) (path : String) (bindings : List Binding) :
    firstMatch wanted path bindings = .ok none ↔
      ∀ b ∈ bindings, wanted b = true → matchSegments b.segments path = .ok none := by
  induction bindings with
  | nil => simp [firstMatch]
  | cons b bindings ih =>
    unfold firstMatch
    rw [List.forall_mem_cons]
    by_cases asked : wanted b = true
    · rw [if_pos asked]
      cases here : matchSegments b.segments path with
      | error p => simp [asked, bind, Except.bind]
      | ok found =>
        cases found with
        | some vars => simp [asked, bind, Except.bind, pure, Except.pure]
        | none => simpa [asked, bind, Except.bind] using ih
    · rw [if_neg asked]
      simpa [asked] using ih

omit [DynamicReflect] in
theorem matchWs_none_iff (router : HttpRouter) (path : String) (query : Option String) :
    router.matchWs path query = .ok none ↔ router.Free path := by
  have all := firstMatch_none_iff (fun _ => true) path router.bindings
  simp only [true_implies] at all
  rw [Free, ← all, matchWs]
  cases firstMatch (fun _ => true) path router.bindings with
  | error p => simp [bind, Except.bind]
  | ok found => cases found <;> simp [bind, Except.bind, pure, Except.pure]

theorem Free.transcode {router : HttpRouter} {path : String} (free : router.Free path) (method : String)
    (query : Option String) (body : Bytes) : router.transcode method path query body = .ok none := by
  have unmatched : router.matchRequest method path = .ok none :=
    (firstMatch_none_iff _ path router.bindings).mpr fun b member _ => free b member
  unfold HttpRouter.transcode
  rw [unmatched]
  rfl

end HttpRouter

end

/-! ### A schema with one binding -/

inductive AliasDescriptor where
  | flags | options | rule

/-- A `flag.Flag`, the options of a method, or an `HttpRule` with its `get`. -/
inductive AliasMessage where
  | flags (on : Bool)
  | options (rule : Option String)
  | rule (get : String)

inductive AliasValue where
  | bool (on : Bool)
  | str (s : String)
  | message (m : AliasMessage)
  | other

/-- The service `flag.Flags` once more. A pool is known by the template that its method `Get` is
annotated with, as a `get`. -/
abbrev aliasSchema : ProstReflect where
  DescriptorPool := Option String
  MessageDescriptor := AliasDescriptor
  DynamicMessage := AliasMessage
  getServiceByName _ service := if service = "flag.Flags" then some [("Get", .flags, .flags)] else none
  new
    | .flags => .flags false
    | .options => .options none
    | .rule => .rule ""
  deserialize _ json :=
    if json = flagJson then .ok (.flags true, [])
    else if json = [123, 125] then .ok (.flags false, [])
    else .error "expected a map"
  finish rest := if rest.isEmpty then .ok () else .error "trailing characters"
  encodeToVec
    | .flags true => [8, 1]
    | _ => []
  decode _ proto :=
    if proto = [8, 1] then .ok (.flags true)
    else if proto = [] then .ok (.flags false)
    else .error "buffer underflow"
  serialize
    | .flags true => .ok flagJson
    | _ => .ok [123, 125]

attribute [local instance] aliasSchema in
abbrev aliasReflect : DynamicReflect where
  FieldDescriptor := String
  EnumDescriptor := Unit
  ExtensionDescriptor := Unit
  Value := AliasValue
  F32 := Unit
  F64 := Unit
  descriptor
    | .flags _ => .flags
    | .options _ => .options
    | .rule _ => .rule
  getFieldByName
    | .flags, field => if field = "on" then some field else none
    | .options, _ => none
    | .rule, field => if ["get", "put", "post", "delete", "patch", "body"].contains field then some field else none
  name := id
  kind field := if field = "on" then .bool else .string
  isList _ := false
  enumValues _ := []
  getField
    | .rule get, field => .str (if field = "get" then get else "")
    | .flags on, _ => .bool on
    | .options _, _ => .other
  setField
    | .flags _, _, .bool on => .flags on
    | .rule _, _, .str get => .rule get
    | m, _, _ => m
  ofScalar
    | .bool on => .bool on
    | .string s => .str s
    | _ => .other
  ofMessage := .message
  ofList _ := .other
  asStr
    | .str s => some s
    | _ => none
  asMessage
    | .message m => some m
    | _ => none
  asList _ := none
  getExtensionByName pool ext := if pool.isSome ∧ ext = HTTP_EXT then some () else none
  services pool := [("flag.Flags", [("Get", .flags, .options pool)])]
  hasExtension
    | .options rule, _ => rule.isSome
    | _, _ => false
  getExtension
    | .options (some get), _ => .message (.rule get)
    | _, _ => .other
  parseF32 _ := none
  parseF64 _ := none
  debug s := "\"" ++ s ++ "\""

end HttpRule
end GrpcWebnext
