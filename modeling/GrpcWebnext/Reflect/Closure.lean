import Mathlib.Data.List.Perm.Subperm
import GrpcWebnext.Reflect

/-!
# The closure that a fetch walks

`reflection_driver` against a server that answers each request in its turn, with the file that was
asked for and whatever else of its files it likes. The driver awaits the response head before it has
sent a request, and some servers write the head with their first response.
-/

namespace GrpcWebnext
namespace Reflect
open DescriptorFiles

section

variable [ProstReflect] [DescriptorFiles]

/-! ### Servers -/

/-- `name` is that of a file which the request asks for. -/
def Asks (graph : FileMap) : MessageRequest → String → Prop
  | .fileContainingSymbol symbol, name =>
    ∃ f fd methods, lookup graph name = some f ∧ decodeFile f.bytes = .ok fd ∧ (symbol, methods) ∈ fd.services
  | .fileByFilename asked, name => name = asked
  | .listServices, _ => False

def Answers (graph : FileMap) (req : MessageRequest) (resp : MessageResponse) : Prop :=
  ∃ raws, resp = .fileDescriptorResponse raws ∧ (∀ raw ∈ raws, ∃ name f, lookup graph name = some f ∧ f.bytes = raw) ∧
    ∃ name f, Asks graph req name ∧ lookup graph name = some f ∧ f.bytes ∈ raws

/-- The loop of a fetch whose head is there is at `w`, behind `n` responses. -/
inductive Reached (ex : Exchange) (symbol : String) : Nat → Walk → Prop where
  | sent {sent : List MessageRequest} : send ex [] (.fileContainingSymbol symbol) = .ok sent →
      Reached ex symbol 0 { sent, pending := 1 }
  | took {n : Nat} {w w' : Walk} {resp : MessageResponse} : Reached ex symbol n w → 0 < w.pending →
      ex.responses[n]? = some resp → onResponse ex w resp = .ok w' → Reached ex symbol (n + 1) w'

/-- The server accepts the call, with the first request at the latest, takes the requests for all files of its
graph, and answers each in its turn. -/
structure Conforms (graph : FileMap) (ex : Exchange) (symbol : String) : Prop where
  accepts : ex.head [.fileContainingSymbol symbol] = some (.ok ())
  early : ∀ head ∈ ex.head [], head = .ok ()
  takes : graph.length < ex.sends
  answers : ∀ {n w req}, Reached ex symbol n w → w.sent[n]? = some req →
    ∃ resp, ex.responses[n]? = some resp ∧ Answers graph req resp

/-! ### The invariant of the loop -/

/-- What was asked for stays asked for, what was fetched stays fetched. -/
structure Later (w w' : Walk) : Prop where
  sent : w.sent <+: w'.sent
  files : ∀ name, (lookup w.files name).isSome → (lookup w'.files name).isSome

omit [ProstReflect] [DescriptorFiles] in
theorem Later.refl (w : Walk) : Later w w := ⟨List.prefix_rfl, fun _ => id⟩

omit [ProstReflect] [DescriptorFiles] in
theorem Later.trans {w w' w'' : Walk} (first : Later w w') (second : Later w' w'') : Later w w'' :=
  ⟨first.sent.trans second.sent, fun name there => second.files name (first.files name there)⟩

/-- Of all imports of a fetched file each was fetched or asked for, and all requests but the pending
ones were answered. -/
structure Kept (graph : FileMap) (symbol : String) (n : Nat) (w : Walk) : Prop where
  files : ∀ {name f}, lookup w.files name = some f → lookup graph name = some f
  sent : w.sent = .fileContainingSymbol symbol :: w.requested.reverse.map .fileByFilename
  distinct : w.requested.Nodup
  inside : ∀ dep ∈ w.requested, (lookup graph dep).isSome
  counted : w.sent.length = n + w.pending
  chased : ∀ {name f dep}, lookup w.files name = some f → dep ∈ f.deps →
    (lookup w.files dep).isSome ∨ .fileByFilename dep ∈ w.sent

namespace Kept

variable {graph : FileMap} {ex : Exchange} {symbol : String} {n : Nat} {w : Walk}

omit [ProstReflect] [DescriptorFiles] in
theorem requested_le (kept : Kept graph symbol n w) (names : List String) (distinct : (names ++ w.requested).Nodup)
    (inside : ∀ name ∈ names, (lookup graph name).isSome) : names.length + w.requested.length ≤ graph.length := by
  have known : names ++ w.requested ⊆ graph.map Prod.fst := by
    intro name member
    rw [← InsertionMap.get_isSome_iff]
    rcases List.mem_append.mp member with fresh | old
    · exact inside name fresh
    · exact kept.inside name old
  have le := (List.subperm_of_subset distinct known).length_le
  rwa [List.length_append, List.length_map] at le

omit [ProstReflect] [DescriptorFiles] in
theorem sent_length (kept : Kept graph symbol n w) : w.sent.length = w.requested.length + 1 := by
  rw [kept.sent, List.length_cons, List.length_map, List.length_reverse]

omit [ProstReflect] [DescriptorFiles] in
theorem mem_sent_iff (kept : Kept graph symbol n w) (dep : String) :
    MessageRequest.fileByFilename dep ∈ w.sent ↔ dep ∈ w.requested := by
  rw [kept.sent]
  simp

omit [ProstReflect] [DescriptorFiles] in
theorem answered_le (kept : Kept graph symbol n w) : n + w.pending ≤ graph.length + 1 := by
  have le := kept.requested_le [] kept.distinct nofun
  have counted := kept.counted
  rw [kept.sent_length] at counted
  simp only [List.length_nil] at le
  omega

omit [ProstReflect] [DescriptorFiles] in
/-- A dependency is asked for unless it was fetched or asked for before. -/
theorem chase (kept : Kept graph symbol n w) (takes : graph.length < ex.sends) {dep : String}
    (there : (lookup graph dep).isSome) :
    ∃ w', Reflect.chase ex w dep = .ok w' ∧ Kept graph symbol n w' ∧ w'.files = w.files ∧ w.sent <+: w'.sent ∧
      ((lookup w.files dep).isSome ∨ .fileByFilename dep ∈ w'.sent) := by
  unfold Reflect.chase
  split
  · rename_i missing
    simp only [Bool.and_eq_true, Option.isNone_iff_eq_none, Bool.not_eq_true', List.contains_eq_mem,
      decide_eq_false_iff_not] at missing
    obtain ⟨_, fresh⟩ := missing
    have distinct : (dep :: w.requested).Nodup := List.nodup_cons.mpr ⟨fresh, kept.distinct⟩
    have room : w.sent.length < ex.sends := by
      have le := kept.requested_le [dep] distinct (by simpa using there)
      rw [kept.sent_length]
      simp only [List.length_singleton] at le
      omega
    have sends : send ex w.sent (.fileByFilename dep) = .ok (w.sent ++ [.fileByFilename dep]) := if_pos room
    rw [sends]
    refine ⟨_, rfl, ⟨kept.files, ?_, distinct, ?_, ?_, ?_⟩, rfl, List.prefix_append _ _,
      .inr (List.mem_append_right _ (List.mem_singleton_self _))⟩
    · show w.sent ++ [MessageRequest.fileByFilename dep] = _
      rw [kept.sent, List.reverse_cons, List.map_append, List.cons_append]
      rfl
    · exact List.forall_mem_cons.mpr ⟨there, kept.inside⟩
    · show (w.sent ++ [MessageRequest.fileByFilename dep]).length = n + (w.pending + 1)
      rw [List.length_append, kept.counted]
      rfl
    · intro name f dep' found imported
      exact (kept.chased found imported).imp_right (List.mem_append_left _)
  · rename_i here
    simp only [Bool.and_eq_true, Option.isNone_iff_eq_none, Bool.not_eq_true', List.contains_eq_mem,
      decide_eq_false_iff_not, not_and, not_not] at here
    refine ⟨w, rfl, kept, rfl, List.prefix_rfl, ?_⟩
    cases found : InsertionMap.get dep w.files with
    | none => exact .inr ((kept.mem_sent_iff dep).mpr (here found))
    | some f => exact .inl (by rw [lookup, found]; rfl)

omit [ProstReflect] [DescriptorFiles] in
theorem chaseAll (kept : Kept graph symbol n w) (takes : graph.length < ex.sends) {deps : List String}
    (there : ∀ dep ∈ deps, (lookup graph dep).isSome) :
    ∃ w', deps.foldlM (Reflect.chase ex) w = .ok w' ∧ Kept graph symbol n w' ∧ w'.files = w.files ∧
      w.sent <+: w'.sent ∧ ∀ dep ∈ deps, (lookup w.files dep).isSome ∨ .fileByFilename dep ∈ w'.sent := by
  induction deps generalizing w with
  | nil => exact ⟨w, rfl, kept, rfl, List.prefix_rfl, nofun⟩
  | cons dep deps ih =>
    obtain ⟨here, later⟩ := List.forall_mem_cons.mp there
    obtain ⟨next, first, kept', same, more, asked⟩ := kept.chase takes here
    obtain ⟨w', rest, kept'', same', more', all⟩ := ih kept' later
    refine ⟨w', ?_, kept'', same'.trans same, more.trans more', ?_⟩
    · rw [List.foldlM_cons, first]
      exact rest
    · rw [same] at all
      exact List.forall_mem_cons.mpr ⟨asked.imp_right (more'.subset ·), all⟩

theorem takeFile (kept : Kept graph symbol n w) (takes : graph.length < ex.sends) (parsed : Parsed graph)
    (closed : (lookup graph).Closed) {name : String} {f : RawFile} (held : lookup graph name = some f) :
    ∃ w', Reflect.takeFile ex w f.bytes = .ok w' ∧ Kept graph symbol n w' ∧ Later w w' ∧
      (lookup w'.files name).isSome := by
  obtain ⟨next, chased, kept', same, more, all⟩ := kept.chaseAll takes fun dep imported => closed name f dep held imported
  have found : ∀ other, lookup (InsertionMap.set name f next.files) other =
      if name = other then some f else lookup next.files other := InsertionMap.get_set name f next.files
  have stays : ∀ other, (lookup next.files other).isSome → (lookup (InsertionMap.set name f next.files) other).isSome := by
    intro other there
    rw [found]
    split
    · rfl
    · exact there
  refine ⟨{ next with files := InsertionMap.set name f next.files }, ?_,
    ⟨?_, kept'.sent, kept'.distinct, kept'.inside, kept'.counted, ?_⟩, ⟨more, ?_⟩, ?_⟩
  · unfold Reflect.takeFile
    rw [parsed.read held]
    show (do let w ← f.deps.foldlM (Reflect.chase ex) w; _) = _
    rw [chased]
    rfl
  · intro other g there
    rw [found] at there
    split at there
    · rename_i own
      exact own ▸ held.trans there
    · exact kept'.files there
  · intro other g dep there imported
    rw [found] at there
    split at there
    · obtain rfl := Option.some.inj there
      have asked := all dep imported
      rw [← same] at asked
      exact asked.imp_left (stays dep)
    · exact (kept'.chased there imported).imp_left (stays dep)
  · intro other there
    rw [← same] at there
    exact stays other there
  · rw [found, if_pos rfl]
    rfl

theorem takeFiles (kept : Kept graph symbol n w) (takes : graph.length < ex.sends) (parsed : Parsed graph)
    (closed : (lookup graph).Closed) {raws : List Bytes}
    (inside : ∀ raw ∈ raws, ∃ name f, lookup graph name = some f ∧ f.bytes = raw) :
    ∃ w', raws.foldlM (Reflect.takeFile ex) w = .ok w' ∧ Kept graph symbol n w' ∧ Later w w' ∧
      ∀ name f, lookup graph name = some f → f.bytes ∈ raws → (lookup w'.files name).isSome := by
  induction raws generalizing w with
  | nil => exact ⟨w, rfl, kept, .refl w, nofun⟩
  | cons raw raws ih =>
    obtain ⟨⟨name, f, held, rfl⟩, rest⟩ := List.forall_mem_cons.mp inside
    obtain ⟨next, first, kept', later, taken⟩ := kept.takeFile takes parsed closed held
    obtain ⟨w', others, kept'', later', all⟩ := ih kept' rest
    refine ⟨w', ?_, kept'', later.trans later', ?_⟩
    · rw [List.foldlM_cons, first]
      exact others
    · intro other g there member
      rcases List.mem_cons.mp member with same | member
      · -- The bytes of a file tell its name.
        have read := parsed.read there
        rw [same, parsed.read held] at read
        obtain ⟨rfl, _⟩ := Prod.mk.inj (Except.ok.inj read)
        exact later'.files name taken
      · exact all other g there member

theorem respond (kept : Kept graph symbol n w) (takes : graph.length < ex.sends) (parsed : Parsed graph)
    (closed : (lookup graph).Closed) (waits : 0 < w.pending) {req : MessageRequest} {resp : MessageResponse}
    (answers : Answers graph req resp) :
    ∃ w', onResponse ex w resp = .ok w' ∧ Kept graph symbol (n + 1) w' ∧ Later w w' ∧
      ∃ name, Asks graph req name ∧ (lookup w'.files name).isSome := by
  obtain ⟨raws, rfl, inside, name, f, asks, held, member⟩ := answers
  have counted : w.sent.length = n + 1 + (w.pending - 1) := by
    have counted := kept.counted
    omega
  have start : Kept graph symbol (n + 1) { w with pending := w.pending - 1 } :=
    ⟨kept.files, kept.sent, kept.distinct, kept.inside, counted, kept.chased⟩
  obtain ⟨w', taken, kept', later, all⟩ := start.takeFiles takes parsed closed inside
  exact ⟨w', taken, kept', ⟨later.sent, later.files⟩, name, asks, all name f held member⟩

end Kept

/-! ### The loop -/

variable {graph : FileMap} {ex : Exchange} {symbol : String}

/-- The files that the first `n` requests asked for were fetched. -/
def Answered (graph : FileMap) (n : Nat) (w : Walk) : Prop :=
  ∀ i req, i < n → w.sent[i]? = some req → ∃ name, Asks graph req name ∧ (lookup w.files name).isSome

theorem Answered.later {n : Nat} {w w' : Walk} (answered : Answered graph n w) (long : n ≤ w.sent.length)
    (later : Later w w') : Answered graph n w' := by
  intro i req within sent
  have here : w.sent[i]? = some req := by
    obtain ⟨more, eq⟩ := later.sent
    rwa [← eq, List.getElem?_append_left (by omega)] at sent
  obtain ⟨name, asks, there⟩ := answered i req within here
  exact ⟨name, asks, later.files name there⟩

section

variable (parsed : Parsed graph) (closed : (lookup graph).Closed) (conforms : Conforms graph ex symbol)

include parsed closed conforms

/-- A response that is taken leads on. -/
theorem Reached.step {n : Nat} {w : Walk} (reached : Reached ex symbol n w) (kept : Kept graph symbol n w)
    (answered : Answered graph n w) (waits : 0 < w.pending) :
    ∃ resp w', ex.responses[n]? = some resp ∧ onResponse ex w resp = .ok w' ∧ Kept graph symbol (n + 1) w' ∧
      Answered graph (n + 1) w' := by
  have counted := kept.counted
  obtain ⟨req, asked⟩ : ∃ req, w.sent[n]? = some req := ⟨_, List.getElem?_eq_getElem (by omega)⟩
  obtain ⟨resp, given, answers⟩ := conforms.answers reached asked
  obtain ⟨w', taken, kept', later, name, asks, there⟩ := kept.respond conforms.takes parsed closed waits answers
  refine ⟨resp, w', given, taken, kept', fun i other within sent => ?_⟩
  rcases Nat.lt_succ_iff_lt_or_eq.mp within with before | rfl
  · exact answered.later (by omega) later i other before sent
  · obtain ⟨more, eq⟩ := later.sent
    rw [← eq, List.getElem?_append_left (by omega), asked] at sent
    obtain rfl := Option.some.inj sent
    exact ⟨name, asks, there⟩

theorem Reached.kept {n : Nat} {w : Walk} (reached : Reached ex symbol n w) :
    Kept graph symbol n w ∧ Answered graph n w := by
  induction reached with
  | sent sends =>
    unfold send at sends
    split at sends
    · cases sends
      exact ⟨⟨nofun, rfl, List.nodup_nil, nofun, rfl, nofun⟩, nofun⟩
    · cases sends
  | took reached waits given taken ih =>
    obtain ⟨kept, answered⟩ := ih
    obtain ⟨resp, w', given', taken', kept', answered'⟩ := Reached.step parsed closed conforms reached kept answered waits
    obtain rfl := Option.some.inj (given.symm.trans given')
    obtain rfl := Except.ok.inj (taken.symm.trans taken')
    exact ⟨kept', answered'⟩

/-- There are at most one request for each file and one more, and a response to each of them. -/
theorem Reached.drains (left : Nat) {n : Nat} {w : Walk} (reached : Reached ex symbol n w)
    (enough : graph.length + 1 ≤ n + left) :
    ∃ m w', Reached ex symbol m w' ∧ w'.pending = 0 ∧ drive ex (ex.responses.drop n) w = some (.ok w'.files) := by
  induction left generalizing n w with
  | zero =>
    have bound := (Reached.kept parsed closed conforms reached).1.answered_le
    have done : w.pending = 0 := by omega
    refine ⟨n, w, reached, done, ?_⟩
    unfold drive
    rw [if_pos done]
  | succ left ih =>
    obtain ⟨kept, answered⟩ := Reached.kept parsed closed conforms reached
    by_cases done : w.pending = 0
    · refine ⟨n, w, reached, done, ?_⟩
      unfold drive
      rw [if_pos done]
    · have waits : 0 < w.pending := Nat.pos_of_ne_zero done
      obtain ⟨resp, w', given, taken, _, _⟩ := Reached.step parsed closed conforms reached kept answered waits
      obtain ⟨m, last, reached', none_, drained⟩ := ih (.took reached waits given taken) (by omega)
      refine ⟨m, last, reached', none_, ?_⟩
      obtain ⟨within, rfl⟩ := List.getElem?_eq_some_iff.mp given
      rw [List.drop_eq_getElem_cons within]
      unfold drive
      rw [if_neg done]
      show Awaited.andThen (some (onResponse ex w ex.responses[n])) (drive ex (ex.responses.drop (n + 1))) = _
      rw [taken]
      exact drained

theorem Reached.complete {n : Nat} {w : Walk} (reached : Reached ex symbol n w) (done : w.pending = 0) :
    (lookup w.files).Complete symbol := by
  obtain ⟨kept, answered⟩ := Reached.kept parsed closed conforms reached
  have counted := kept.counted
  have all : ∀ req ∈ w.sent, ∃ name, Asks graph req name ∧ (lookup w.files name).isSome := by
    intro req member
    obtain ⟨i, within, rfl⟩ := List.mem_iff_getElem.mp member
    exact answered i _ (by omega) (List.getElem?_eq_getElem within)
  refine ⟨fun name f dep found imported => ?_, ?_⟩
  · rcases kept.chased found imported with there | asked
    · exact there
    · obtain ⟨_, rfl, there⟩ := all _ asked
      exact there
  · obtain ⟨name, ⟨f, fd, methods, held, decoded, declared⟩, there⟩ :=
      all (.fileContainingSymbol symbol) (by rw [kept.sent]; exact List.mem_cons_self)
    obtain ⟨g, found⟩ := Option.isSome_iff_exists.mp there
    obtain rfl := Option.some.inj (held.symm.trans (kept.files found))
    exact ⟨name, f, fd, methods, found, decoded, declared⟩

end

/-- The loop ends with nothing pending, and the fetch returns the file of the symbol with all that it leads to. No
file is asked for twice, and a response is counted off only where one is pending. -/
structure FetchesClosure (graph : FileMap) (ex : Exchange) (symbol : String) : Prop where
  returns : ∃ n w, Reached ex symbol n w ∧ w.pending = 0 ∧ fetch ex symbol = some (.ok w.files) ∧
    (lookup w.files).Complete symbol ∧ ∀ name f, lookup w.files name = some f → lookup graph name = some f
  bounded : ∀ n w, Reached ex symbol n w →
    (∀ name, w.sent.count (.fileByFilename name) ≤ 1) ∧ w.sent.length = n + w.pending ∧ n ≤ graph.length + 1

/-- A conforming server is fetched from exactly if its response head does not wait for a request. -/
theorem fetch_closure_iff (parsed : Parsed graph) (closed : (lookup graph).Closed) (conforms : Conforms graph ex symbol) :
    FetchesClosure graph ex symbol ↔ (ex.head []).isSome := by
  constructor
  · rintro ⟨⟨n, w, _, _, returned, _⟩, _⟩
    obtain ⟨_, head, _⟩ := Awaited.andThen_ok returned
    rw [head]
    rfl
  · intro there
    obtain ⟨head, here⟩ := Option.isSome_iff_exists.mp there
    obtain rfl := conforms.early head here
    constructor
    · have sends : send ex [] (.fileContainingSymbol symbol) = .ok [.fileContainingSymbol symbol] :=
        if_pos (Nat.lt_of_le_of_lt (Nat.zero_le _) conforms.takes)
      have start := Reached.sent sends
      obtain ⟨n, w, reached, done, drained⟩ := Reached.drains parsed closed conforms (graph.length + 1) start (by omega)
      refine ⟨n, w, reached, done, ?_, Reached.complete parsed closed conforms reached done, ?_⟩
      · rw [List.drop_zero] at drained
        unfold fetch
        rw [here, sends]
        exact drained
      · intro name f found
        exact (Reached.kept parsed closed conforms reached).1.files found
    · intro n w reached
      obtain ⟨kept, _⟩ := Reached.kept parsed closed conforms reached
      refine ⟨fun name => ?_, kept.counted, by have bound := kept.answered_le; omega⟩
      have distinct : w.sent.Nodup := by
        rw [kept.sent, List.nodup_cons]
        constructor
        · simp
        · exact (List.nodup_reverse.mpr kept.distinct).map fun _ _ => MessageRequest.fileByFilename.inj
      exact List.nodup_iff_count_le_one.mp distinct _

end

/-! ### A file and its import -/

attribute [local instance] threeSchema threeFiles

def importing : FileMap := [("b.proto", ⟨[2], ["c.proto"]⟩), ("c.proto", ⟨[3], []⟩)]

/-- Each file is sent when it is asked for. -/
def oneByOne (head : List MessageRequest → Awaited Status Unit) : Exchange :=
  { answers [.fileDescriptorResponse [[2]], .fileDescriptorResponse [[3]]] with head }

/-- Its head comes with the first response. -/
def lateHead (sent : List MessageRequest) : Awaited Status Unit := if sent = [] then none else some (.ok ())

theorem importing_parsed : Parsed importing where
  distinct := by decide
  read {name f} found := by
    simp only [lookup, importing, InsertionMap.get] at found
    split at found
    · rename_i own
      cases found
      exact own ▸ rfl
    · obtain ⟨own, ⟨⟩⟩ := Option.ite_none_right_eq_some.mp found
      exact own ▸ rfl

theorem importing_closed : (lookup importing).Closed := by
  intro name f dep found imported
  simp only [lookup, importing, InsertionMap.get] at found
  split at found
  · cases found
    obtain rfl := List.mem_singleton.mp imported
    rfl
  · obtain ⟨_, ⟨⟩⟩ := Option.ite_none_right_eq_some.mp found
    cases imported

/-- The walk of the fetch, behind each response. -/
def steps : List Walk :=
  [{ sent := [.fileContainingSymbol "b.B"], pending := 1 },
    { sent := [.fileContainingSymbol "b.B", .fileByFilename "c.proto"], files := [("b.proto", ⟨[2], ["c.proto"]⟩)]
      requested := ["c.proto"], pending := 1 },
    { sent := [.fileContainingSymbol "b.B", .fileByFilename "c.proto"], files := importing
      requested := ["c.proto"], pending := 0 }]

theorem oneByOne_reached {head : List MessageRequest → Awaited Status Unit} {n : Nat} {w : Walk}
    (reached : Reached (oneByOne head) "b.B" n w) : steps[n]? = some w := by
  induction reached with
  | sent sends =>
    cases sends
    rfl
  | @took n w w' resp _ waits given taken ih =>
    match n with
    | 0 =>
      cases ih
      cases given
      cases taken
      rfl
    | 1 =>
      cases ih
      cases given
      cases taken
      rfl
    | n + 2 => cases given

theorem oneByOne_conforms {head : List MessageRequest → Awaited Status Unit}
    (accepts : head [.fileContainingSymbol "b.B"] = some (.ok ())) (early : ∀ h ∈ head [], h = .ok ()) :
    Conforms importing (oneByOne head) "b.B" where
  accepts
  early
  takes := by show 2 < 16; decide
  answers {n w req} reached asked := by
    have walk := oneByOne_reached reached
    match n with
    | 0 =>
      cases walk
      cases asked
      exact ⟨_, rfl, _, rfl, by simpa using ⟨"b.proto", _, rfl, rfl⟩, "b.proto", _,
        ⟨_, _, ["Get"], rfl, rfl, List.mem_cons_self⟩, rfl, List.mem_cons_self⟩
    | 1 =>
      cases walk
      cases asked
      exact ⟨_, rfl, _, rfl, by simpa using ⟨"c.proto", _, rfl, rfl⟩, "c.proto", _, rfl, rfl, List.mem_cons_self⟩
    | 2 =>
      cases walk
      cases asked
    | n + 3 => cases walk

theorem fetch_closure_importing : FetchesClosure importing (oneByOne fun _ => some (.ok ())) "b.B" :=
  (fetch_closure_iff importing_parsed importing_closed
    (oneByOne_conforms rfl fun _ here => (Option.some.inj here).symm)).mpr rfl

/-- The server waits for a request to send its head with, and the driver for the head to send its request. -/
theorem late_head_waits :
    Parsed importing ∧ (lookup importing).Closed ∧ Conforms importing (oneByOne lateHead) "b.B" ∧
      fetch (oneByOne lateHead) "b.B" = none ∧ ¬FetchesClosure importing (oneByOne lateHead) "b.B" := by
  have waits : fetch (oneByOne lateHead) "b.B" = none := rfl
  refine ⟨importing_parsed, importing_closed, oneByOne_conforms rfl nofun, waits, ?_⟩
  rintro ⟨⟨n, w, _, _, returned, _⟩, _⟩
  cases waits.symm.trans returned

end Reflect
end GrpcWebnext
