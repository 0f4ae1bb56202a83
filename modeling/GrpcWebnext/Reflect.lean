import Mathlib.Data.List.Induction
import GrpcWebnext.Lib.InsertionMap
import GrpcWebnext.Lib.PostOrder
import GrpcWebnext.Transcode

/-!
# Descriptors from upstream reflection

`load_all` fetches the files of each service that the upstream lists, lays the fetched maps over each
other and builds one pool of all files. A fetch walks the imports: each response is asked for by one
request, and what a response imports is asked for in turn.
-/

namespace GrpcWebnext
namespace Reflect
open ProstReflect

/-! ### Files -/

structure RawFile where
  bytes : Bytes
  deps : List String
  deriving DecidableEq

/-- A file as `prost` decodes it, with the full names of its services and their methods. -/
structure FileDescriptorProto where
  name : String
  dependency : List String
  services : List (String × List String)

/-- The decoders of a `FileDescriptorProto` and of a serialized `FileDescriptorSet`. -/
class DescriptorFiles [ProstReflect] where
  decodeFile : Bytes → Except String FileDescriptorProto
  decodePool : Bytes → Except String DescriptorPool

open DescriptorFiles

/-- `HashMap<String, RawFile>` -/
abbrev FileMap := List (String × RawFile)

section

variable [ProstReflect] [DescriptorFiles]

def fileMeta (raw : Bytes) : Except Status (String × List String) :=
  match decodeFile raw with
  | .error e => .error ⟨.internal, s!"bad descriptor: {e}"⟩
  | .ok fd => .ok (fd.name, fd.dependency)

/-! ### One stream -/

inductive MessageRequest where
  | listServices
  | fileContainingSymbol (symbol : String)
  | fileByFilename (name : String)
  deriving DecidableEq

inductive MessageResponse where
  | fileDescriptorResponse (files : List Bytes)
  | listServicesResponse (services : List String)
  | errorResponse (code : Int) (message : String)
  | other

/-- What the upstream does with one reflection call: its response head, which may wait for requests, how
many requests are sent before their receiver is gone, its responses, and how these end, if they do. -/
structure Exchange where
  head : List MessageRequest → Awaited Status Unit
  sends : Nat
  responses : List MessageResponse
  ending : Awaited Status Unit

/-- `Code::from` of an `i32`. -/
def codeFrom : Int → Code
  | 0 => .ok
  | 1 => .cancelled
  | 2 => .unknown
  | 3 => .invalidArgument
  | 4 => .deadlineExceeded
  | 5 => .notFound
  | 6 => .alreadyExists
  | 7 => .permissionDenied
  | 8 => .resourceExhausted
  | 9 => .failedPrecondition
  | 10 => .aborted
  | 11 => .outOfRange
  | 12 => .unimplemented
  | 13 => .internal
  | 14 => .unavailable
  | 15 => .dataLoss
  | 16 => .unauthenticated
  | _ => .unknown

structure Walk where
  sent : List MessageRequest
  files : FileMap := []
  requested : List String := []
  pending : Nat

def send (ex : Exchange) (sent : List MessageRequest) (req : MessageRequest) : Except Status (List MessageRequest) :=
  if sent.length < ex.sends then .ok (sent ++ [req]) else .error ⟨.internal, "reflection request channel closed"⟩

def chase (ex : Exchange) (w : Walk) (dep : String) : Except Status Walk :=
  if (InsertionMap.get dep w.files).isNone && !w.requested.contains dep then do
    let sent ← send ex w.sent (.fileByFilename dep)
    pure { w with sent, requested := dep :: w.requested, pending := w.pending + 1 }
  else pure w

def takeFile (ex : Exchange) (w : Walk) (raw : Bytes) : Except Status Walk := do
  let (name, deps) ← fileMeta raw
  let w ← deps.foldlM (chase ex) w
  pure { w with files := InsertionMap.set name ⟨raw, deps⟩ w.files }

def onResponse (ex : Exchange) (w : Walk) : MessageResponse → Except Status Walk
  | .fileDescriptorResponse files => files.foldlM (takeFile ex) { w with pending := w.pending - 1 }
  | .errorResponse code message => .error ⟨codeFrom code, message⟩
  | _ => .ok { w with pending := w.pending - 1 }

/-- The loop of `reflection_driver`. A stream that ends leaves what was fetched so far. -/
def drive (ex : Exchange) : List MessageResponse → Walk → Awaited Status FileMap
  | responses, w =>
    if w.pending = 0 then some (.ok w.files)
    else match responses with
      | [] => ex.ending.andThen fun _ => some (.ok w.files)
      | resp :: rest => Awaited.andThen (some (onResponse ex w resp)) fun w => drive ex rest w

/-- `reflection_driver`: the head is awaited before the first request is sent. -/
def fetch (ex : Exchange) (symbol : String) : Awaited Status FileMap :=
  (ex.head []).andThen fun _ =>
    Awaited.andThen (some (send ex [] (.fileContainingSymbol symbol))) fun sent =>
      drive ex ex.responses { sent, pending := 1 }

/-- `list_services_driver` -/
def listServices (ex : Exchange) : Awaited Status (List String) :=
  (ex.head []).andThen fun _ =>
    Awaited.andThen (some (send ex [] .listServices)) fun _ =>
      match ex.responses with
      | [] => ex.ending.andThen fun _ => some (.error ⟨.internal, "reflection stream closed before response"⟩)
      | .listServicesResponse services :: _ => some (.ok services)
      | .errorResponse code message :: _ => some (.error ⟨codeFrom code, message⟩)
      | _ :: _ => some (.error ⟨.internal, "unexpected reflection response to list_services"⟩)

/-! ### The whole schema -/

inductive Version where
  | v1 | v1alpha

/-- The calls of one load: the two that may list services, and one for each service of the list. -/
structure Upstream where
  listV1 : Exchange
  listV1alpha : Exchange
  fetches : Version → Nat → Exchange

def listed (up : Upstream) : Awaited Status (List String × Version) :=
  match listServices up.listV1 with
  | none => none
  | some (.error e) =>
    if e.code = .unimplemented then
      (listServices up.listV1alpha).andThen fun services => some (.ok (services, .v1alpha))
    else some (.error e)
  | some (.ok services) => some (.ok (services, .v1))

/-- One after the other, so that one that waits for ever holds up the rest. -/
def fetchAll (up : Upstream) (services : List String) (version : Version) : Option (List (Except Status FileMap)) :=
  services.zipIdx.mapM fun service => fetch (up.fetches version service.2) service.1

/-- `files.extend(svc_files)` -/
def extend (files svcFiles : FileMap) : FileMap :=
  svcFiles.foldl (fun files e => InsertionMap.set e.1 e.2 files) files

/-- A service that cannot be fetched is skipped. -/
def merge (fetched : List (Except Status FileMap)) : FileMap :=
  fetched.foldl (fun files outcome =>
    match outcome with
    | .ok svcFiles => extend files svcFiles
    | .error _ => files) []

def known (files : FileMap) (name : String) : Option (List String × Bytes) :=
  (InsertionMap.get name files).map fun f => (f.deps, f.bytes)

def topoSort (files : FileMap) : List Bytes :=
  let names := files.map Prod.fst
  PostOrder.emitAll (known files) names (names.mergeSort fun a b => decide (a ≤ b))

def varint (len : Nat) : Bytes :=
  if len < 128 then [len.toUInt8] else (len % 128 + 128).toUInt8 :: varint (len / 128)
termination_by len
decreasing_by omega

def pushFileDescriptor (buf raw : Bytes) : Bytes := buf ++ 0x0A :: varint raw.length ++ raw

def fileSet (raws : List Bytes) : Bytes := raws.foldl pushFileDescriptor []

def fromFileDescriptorSet (bytes : Bytes) : Except TranscodeError Transcoder := do
  let pool ← (decodePool bytes).mapError .descriptor
  pure ⟨pool⟩

def buildAll (files : FileMap) : Except Status Transcoder :=
  if files.isEmpty then .error ⟨.unavailable, "upstream reflection returned no descriptors"⟩
  else
    (fromFileDescriptorSet (fileSet (topoSort files))).mapError fun e =>
      ⟨.internal, s!"build descriptor pool: {e.toString}"⟩

/-- `load_all`, without the deadline that its caller drops it at. -/
def loadAll (up : Upstream) : Awaited Status Transcoder :=
  (listed up).andThen fun (services, version) =>
    (fetchAll up services version).map fun fetched => buildAll (merge fetched)

/-! ### Files by name -/

/-- A set of files, by their names. -/
abbrev Files := String → Option RawFile

namespace Files

/-- Every import of a file is there. -/
def Closed (fs : Files) : Prop :=
  ∀ name f dep, fs name = some f → dep ∈ f.deps → (fs dep).isSome

def Declares (fs : Files) (service method : String) : Prop :=
  ∃ name f fd methods, fs name = some f ∧ decodeFile f.bytes = .ok fd ∧ (service, methods) ∈ fd.services ∧
    method ∈ methods

/-- `path` is that of a method which the files declare for the service. -/
def Offers (fs : Files) (service path : String) : Prop :=
  ∃ method, Transcoder.splitOnce path = some (service, method) ∧ fs.Declares service method

/-- The file closure of the service. -/
structure Complete (fs : Files) (service : String) : Prop where
  closed : fs.Closed
  declared : ∃ name f fd methods, fs name = some f ∧ decodeFile f.bytes = .ok fd ∧
    (service, methods) ∈ fd.services

end Files

def lookup (files : FileMap) : Files := fun name => InsertionMap.get name files

/-- The files of the fetches that succeed; the last one that returned a name has it. -/
def lastFetched (fetched : List (Except Status FileMap)) : Files :=
  fun name => (fetched.reverse.filterMap Except.toOption).findSome? fun svcFiles => lookup svcFiles name

/-! ### What a fetch returns -/

/-- One entry for each name, with the name and the imports that the bytes of the file have. -/
structure Parsed (files : FileMap) : Prop where
  distinct : (files.map Prod.fst).Nodup
  read : ∀ {name f}, lookup files name = some f → fileMeta f.bytes = .ok (name, f.deps)

theorem Parsed.nil : Parsed [] where
  distinct := List.nodup_nil
  read found := nomatch found

theorem Parsed.set {files : FileMap} (parsed : Parsed files) {name : String} {f : RawFile}
    (read : fileMeta f.bytes = .ok (name, f.deps)) : Parsed (InsertionMap.set name f files) where
  distinct := InsertionMap.nodup_set parsed.distinct
  read {other g} found := by
    rw [lookup, InsertionMap.get_set] at found
    split at found
    · rename_i same
      subst same
      obtain rfl := Option.some.inj found
      exact read
    · exact parsed.read found

omit [ProstReflect] [DescriptorFiles] in
theorem chase_files {ex : Exchange} {w w' : Walk} {dep : String} (done : chase ex w dep = .ok w') :
    w'.files = w.files := by
  unfold chase at done
  split at done
  · obtain ⟨sent, _, ⟨⟩⟩ := Except.bind_ok done
    rfl
  · cases done
    rfl

omit [ProstReflect] [DescriptorFiles] in
theorem foldlM_chase_files {ex : Exchange} {deps : List String} {w w' : Walk}
    (done : deps.foldlM (chase ex) w = .ok w') : w'.files = w.files := by
  induction deps generalizing w with
  | nil =>
    cases done
    rfl
  | cons dep deps ih =>
    rw [List.foldlM_cons] at done
    obtain ⟨next, first, rest⟩ := Except.bind_ok done
    exact (ih rest).trans (chase_files first)

theorem takeFile_parsed {ex : Exchange} {w w' : Walk} {raw : Bytes} (parsed : Parsed w.files)
    (done : takeFile ex w raw = .ok w') : Parsed w'.files := by
  obtain ⟨⟨name, deps⟩, read, done⟩ := Except.bind_ok done
  obtain ⟨next, chased, ⟨⟩⟩ := Except.bind_ok done
  have same := foldlM_chase_files chased
  rw [← same] at parsed
  exact parsed.set read

theorem onResponse_parsed {ex : Exchange} {w w' : Walk} {resp : MessageResponse} (parsed : Parsed w.files)
    (done : onResponse ex w resp = .ok w') : Parsed w'.files := by
  cases resp with
  | fileDescriptorResponse files =>
    have start : Parsed { w with pending := w.pending - 1 }.files := parsed
    change files.foldlM (takeFile ex) { w with pending := w.pending - 1 } = .ok w' at done
    generalize { w with pending := w.pending - 1 } = at_ at start done
    induction files generalizing at_ with
    | nil =>
      cases done
      exact start
    | cons raw files ih =>
      rw [List.foldlM_cons] at done
      obtain ⟨next, first, rest⟩ := Except.bind_ok done
      exact ih next (takeFile_parsed start first) rest
  | listServicesResponse services =>
    cases done
    exact parsed
  | errorResponse code message => cases done
  | other =>
    cases done
    exact parsed

theorem drive_parsed {ex : Exchange} {responses : List MessageResponse} {w : Walk} {files : FileMap}
    (parsed : Parsed w.files) (done : drive ex responses w = some (.ok files)) : Parsed files := by
  induction responses generalizing w with
  | nil =>
    unfold drive at done
    split at done
    · cases done
      exact parsed
    · obtain ⟨_, _, ⟨⟩⟩ := Awaited.andThen_ok done
      exact parsed
  | cons resp rest ih =>
    unfold drive at done
    split at done
    · cases done
      exact parsed
    · obtain ⟨next, taken, done⟩ := Awaited.andThen_ok done
      exact ih (onResponse_parsed parsed (Option.some.inj taken)) done

theorem fetch_parsed {ex : Exchange} {symbol : String} {files : FileMap} (done : fetch ex symbol = some (.ok files)) :
    Parsed files := by
  obtain ⟨_, _, done⟩ := Awaited.andThen_ok done
  obtain ⟨_, _, done⟩ := Awaited.andThen_ok done
  exact drive_parsed .nil done

/-! ### The merge -/

omit [ProstReflect] [DescriptorFiles] in
theorem lookup_absent {e : String × RawFile} {files : FileMap} (distinct : ((e :: files).map Prod.fst).Nodup) :
    lookup files e.1 = none := by
  apply InsertionMap.get_eq_none
  exact (List.nodup_cons.mp distinct).1

omit [ProstReflect] [DescriptorFiles] in
theorem lookup_extend (files : FileMap) {svcFiles : FileMap} (distinct : (svcFiles.map Prod.fst).Nodup)
    (name : String) : lookup (extend files svcFiles) name = (lookup svcFiles name).or (lookup files name) := by
  induction svcFiles generalizing files with
  | nil => rfl
  | cons e rest ih =>
    have step := ih (InsertionMap.set e.1 e.2 files) (List.nodup_cons.mp distinct).2
    have here : lookup (InsertionMap.set e.1 e.2 files) name = if e.1 = name then some e.2 else lookup files name :=
      InsertionMap.get_set e.1 e.2 files name
    have first : lookup (e :: rest) name = if e.1 = name then some e.2 else lookup rest name := rfl
    rw [show extend files (e :: rest) = extend (InsertionMap.set e.1 e.2 files) rest from rfl, step, here, first]
    by_cases same : e.1 = name
    · subst same
      simp [lookup_absent distinct]
    · simp [same]

theorem Parsed.tail {e : String × RawFile} {files : FileMap} (parsed : Parsed (e :: files)) : Parsed files where
  distinct := (List.nodup_cons.mp parsed.distinct).2
  read {name f} found := by
    apply parsed.read
    have other : e.1 ≠ name := by
      rintro rfl
      cases (lookup_absent parsed.distinct).symm.trans found
    exact (if_neg other).trans found

theorem Parsed.extend {files svcFiles : FileMap} (parsed : Parsed files) (more : Parsed svcFiles) :
    Parsed (extend files svcFiles) := by
  induction svcFiles generalizing files with
  | nil => exact parsed
  | cons e rest ih =>
    have head : lookup (e :: rest) e.1 = some e.2 := if_pos rfl
    exact ih (parsed.set (more.read head)) more.tail

omit [ProstReflect] [DescriptorFiles] in
theorem merge_snoc (fetched : List (Except Status FileMap)) (outcome : Except Status FileMap) :
    merge (fetched ++ [outcome]) =
      match outcome with
      | .ok svcFiles => Reflect.extend (merge fetched) svcFiles
      | .error _ => merge fetched := by
  rw [merge, List.foldl_append]
  rfl

omit [ProstReflect] [DescriptorFiles] in
theorem lastFetched_snoc (fetched : List (Except Status FileMap)) (outcome : Except Status FileMap) (name : String) :
    lastFetched (fetched ++ [outcome]) name =
      (outcome.toOption.bind fun svcFiles => lookup svcFiles name).or (lastFetched fetched name) := by
  cases outcome with
  | error e =>
    simp only [lastFetched, List.reverse_append, List.reverse_cons, List.reverse_nil, List.nil_append,
      List.singleton_append, List.filterMap_cons, Except.toOption, Option.bind_none, Option.none_or]
  | ok svcFiles =>
    simp only [lastFetched, List.reverse_append, List.reverse_cons, List.reverse_nil, List.nil_append,
      List.singleton_append, List.filterMap_cons, Except.toOption, List.findSome?_cons, Option.bind_some]
    cases lookup svcFiles name <;> rfl

/-- The map that the fetches merge to has the last file of each name. -/
theorem merge_spec {fetched : List (Except Status FileMap)} (each : ∀ files, .ok files ∈ fetched → Parsed files) :
    Parsed (merge fetched) ∧ lookup (merge fetched) = lastFetched fetched := by
  induction fetched using List.reverseRecOn with
  | nil => exact ⟨.nil, rfl⟩
  | append_singleton fetched outcome ih =>
    obtain ⟨parsed, same⟩ := ih fun files member => each files (List.mem_append_left _ member)
    rw [merge_snoc]
    cases outcome with
    | error e =>
      refine ⟨parsed, funext fun name => ?_⟩
      rw [lastFetched_snoc, ← same]
      rfl
    | ok svcFiles =>
      have more := each svcFiles (by simp)
      refine ⟨parsed.extend more, funext fun name => ?_⟩
      rw [lastFetched_snoc, ← same]
      exact lookup_extend _ more.distinct name

theorem fetchAll_parsed {up : Upstream} {services : List String} {version : Version} {outcomes : List (Except Status FileMap)}
    (all : fetchAll up services version = some outcomes) {files : FileMap} (member : .ok files ∈ outcomes) :
    Parsed files := by
  obtain ⟨_, _, outcome⟩ := (Awaited.mapM_mem all).1 _ member
  exact fetch_parsed outcome

/-! ### The set of files -/

omit [ProstReflect] [DescriptorFiles] in
theorem known_isSome_iff (files : FileMap) (name : String) :
    (known files name).isSome ↔ name ∈ files.map Prod.fst := by
  rw [← InsertionMap.get_isSome_iff, known, Option.isSome_map]

omit [ProstReflect] [DescriptorFiles] in
theorem mem_topoSort_iff (files : FileMap) (raw : Bytes) :
    raw ∈ topoSort files ↔ ∃ name f, lookup files name = some f ∧ f.bytes = raw := by
  have every : files.map Prod.fst ⊆ (files.map Prod.fst).mergeSort fun a b => decide (a ≤ b) := fun name member =>
    (List.mergeSort_perm _ _).mem_iff.mpr member
  rw [topoSort, PostOrder.mem_emitAll_iff (fun name => (known_isSome_iff files name).mp) every]
  simp [known, lookup]

/-! ### The pool -/

def ImportsPresent (raws : List Bytes) : Prop :=
  ∀ raw ∈ raws, ∀ fd, decodeFile raw = .ok fd → ∀ dep ∈ fd.dependency,
    ∃ raw' ∈ raws, ∃ fd', decodeFile raw' = .ok fd' ∧ fd'.name = dep

def DeclaredIn (raws : List Bytes) (service method : String) : Prop :=
  ∃ raw ∈ raws, ∃ fd methods, decodeFile raw = .ok fd ∧ (service, methods) ∈ fd.services ∧ method ∈ methods

/-- What `DescriptorPool::decode` makes of a set of files that decode. -/
structure PoolLaws : Prop where
  decode_iff : ∀ {raws}, (∀ raw ∈ raws, ∃ fd, decodeFile raw = .ok fd) →
    ((∃ pool, decodePool (fileSet raws) = .ok pool) ↔ ImportsPresent raws)
  methods_iff : ∀ {raws pool}, (∀ raw ∈ raws, ∃ fd, decodeFile raw = .ok fd) →
    decodePool (fileSet raws) = .ok pool → ∀ service method,
      (∃ methods io, getServiceByName pool service = some methods ∧ (method, io) ∈ methods) ↔
        DeclaredIn raws service method

theorem fileMeta_ok {raw : Bytes} {name : String} {deps : List String} (read : fileMeta raw = .ok (name, deps)) :
    ∃ fd, decodeFile raw = .ok fd ∧ fd.name = name ∧ fd.dependency = deps := by
  unfold fileMeta at read
  split at read
  · cases read
  · rename_i fd decoded
    obtain ⟨rfl, rfl⟩ := Prod.mk.inj (Except.ok.inj read)
    exact ⟨fd, decoded, rfl, rfl⟩

theorem topoSort_decodes {files : FileMap} (parsed : Parsed files) :
    ∀ raw ∈ topoSort files, ∃ fd, decodeFile raw = .ok fd := by
  intro raw member
  obtain ⟨name, f, found, rfl⟩ := (mem_topoSort_iff files raw).mp member
  obtain ⟨fd, decoded, _⟩ := fileMeta_ok (parsed.read found)
  exact ⟨fd, decoded⟩

theorem importsPresent_iff {files : FileMap} (parsed : Parsed files) :
    ImportsPresent (topoSort files) ↔ (lookup files).Closed := by
  constructor
  · intro present name f dep found imported
    obtain ⟨fd, decoded, _, deps⟩ := fileMeta_ok (parsed.read found)
    have member := (mem_topoSort_iff files f.bytes).mpr ⟨name, f, found, rfl⟩
    obtain ⟨raw', member', fd', decoded', same⟩ := present f.bytes member fd decoded dep (deps ▸ imported)
    obtain ⟨name', f', found', rfl⟩ := (mem_topoSort_iff files raw').mp member'
    obtain ⟨fd'', decoded'', named, _⟩ := fileMeta_ok (parsed.read found')
    obtain rfl := Except.ok.inj (decoded'.symm.trans decoded'')
    obtain rfl := named.symm.trans same
    rw [found']
    rfl
  · intro closed raw member fd decoded dep imported
    obtain ⟨name, f, found, rfl⟩ := (mem_topoSort_iff files raw).mp member
    obtain ⟨fd', decoded', _, deps⟩ := fileMeta_ok (parsed.read found)
    obtain rfl := Except.ok.inj (decoded.symm.trans decoded')
    obtain ⟨f', found'⟩ := Option.isSome_iff_exists.mp (closed name f dep found (deps ▸ imported))
    obtain ⟨fd'', decoded'', named, _⟩ := fileMeta_ok (parsed.read found')
    exact ⟨f'.bytes, (mem_topoSort_iff files _).mpr ⟨dep, f', found', rfl⟩, fd'', decoded'', named⟩

theorem declaredIn_iff (files : FileMap) (service method : String) :
    DeclaredIn (topoSort files) service method ↔ (lookup files).Declares service method := by
  constructor
  · rintro ⟨raw, member, fd, methods, decoded, declared⟩
    obtain ⟨name, f, found, rfl⟩ := (mem_topoSort_iff files raw).mp member
    exact ⟨name, f, fd, methods, found, decoded, declared⟩
  · rintro ⟨name, f, fd, methods, found, decoded, declared⟩
    exact ⟨f.bytes, (mem_topoSort_iff files _).mpr ⟨name, f, found, rfl⟩, fd, methods, decoded, declared⟩

theorem buildAll_ok_iff (files : FileMap) (tc : Transcoder) :
    buildAll files = .ok tc ↔ files ≠ [] ∧ decodePool (fileSet (topoSort files)) = .ok tc.pool := by
  unfold buildAll
  cases files with
  | nil => simp
  | cons e files =>
    simp only [List.isEmpty_cons, Bool.false_eq_true, ↓reduceIte, ne_eq, reduceCtorEq, not_false_eq_true, true_and]
    constructor
    · intro built
      obtain ⟨pool, decoded, ⟨⟩⟩ := Except.bind_ok (Except.mapError_ok built)
      exact Except.mapError_ok decoded
    · intro decoded
      rw [fromFileDescriptorSet, decoded]
      rfl

section

variable {up : Upstream} {services : List String} {version : Version} {outcomes : List (Except Status FileMap)}
  (lists : listed up = some (.ok (services, version))) (all : fetchAll up services version = some outcomes)

include lists in
theorem loadAll_eq : loadAll up = (fetchAll up services version).map fun fetched => buildAll (merge fetched) := by
  rw [loadAll, lists]
  rfl

include lists all

theorem loadAll_loaded (tc : Transcoder) :
    loadAll up = some (.ok tc) ↔
      merge outcomes ≠ [] ∧ decodePool (fileSet (topoSort (merge outcomes))) = .ok tc.pool := by
  rw [loadAll_eq lists, all, Option.map_some, Option.some.injEq, buildAll_ok_iff]

/-- A load succeeds exactly if the fetches returned files, with all that these import. -/
theorem loadAll_ok_iff (laws : PoolLaws) :
    (∃ tc, loadAll up = some (.ok tc)) ↔ merge outcomes ≠ [] ∧ (lastFetched outcomes).Closed := by
  obtain ⟨parsed, last⟩ := merge_spec fun files => fetchAll_parsed all
  rw [← last, ← importsPresent_iff parsed, ← laws.decode_iff (topoSort_decodes parsed)]
  constructor
  · rintro ⟨tc, loaded⟩
    obtain ⟨some_, decoded⟩ := (loadAll_loaded lists all tc).mp loaded
    exact ⟨some_, tc.pool, decoded⟩
  · rintro ⟨some_, pool, decoded⟩
    exact ⟨⟨pool⟩, (loadAll_loaded lists all ⟨pool⟩).mpr ⟨some_, decoded⟩⟩

theorem loadAll_methods (laws : PoolLaws) {tc : Transcoder} (loaded : loadAll up = some (.ok tc)) (path : String) :
    tc.hasMethod path = true ↔ ∃ service, (lastFetched outcomes).Offers service path := by
  obtain ⟨parsed, last⟩ := merge_spec fun files => fetchAll_parsed all
  obtain ⟨_, decoded⟩ := (loadAll_loaded lists all tc).mp loaded
  have methods := laws.methods_iff (topoSort_decodes parsed) decoded
  rw [Transcoder.hasMethod_iff, ← last]
  constructor
  · rintro ⟨service, method, held, io, names, found, member⟩
    have declared := (methods service method).mp ⟨held, io, found, member⟩
    exact ⟨service, method, names, (declaredIn_iff _ _ _).mp declared⟩
  · rintro ⟨service, method, names, declared⟩
    obtain ⟨held, io, found, member⟩ := (methods service method).mpr ((declaredIn_iff _ _ _).mpr declared)
    exact ⟨service, method, held, io, names, found, member⟩

end

/-! ### Services whose closure was fetched -/

/-- `P` holds of the path of every method of every service whose file closure was fetched completely. -/
def EveryMethod (up : Upstream) (services : List String) (version : Version) (P : String → Prop) : Prop :=
  ∀ (i : Nat) service files, services[i]? = some service → fetch (up.fetches version i) service = some (.ok files) →
    (lookup files).Complete service → ∀ path, (lookup files).Offers service path → P path

theorem mem_fetchAll {up : Upstream} {services : List String} {version : Version} {outcomes : List (Except Status FileMap)}
    (all : fetchAll up services version = some outcomes) {i : Nat} {service : String} (asked : services[i]? = some service)
    {outcome : Except Status FileMap} (fetched : fetch (up.fetches version i) service = some outcome) :
    outcome ∈ outcomes := by
  obtain ⟨other, member, same⟩ := (Awaited.mapM_mem all).2 (service, i) (List.mem_zipIdx_iff_getElem?.mpr asked)
  obtain rfl := Option.some.inj (fetched.symm.trans same)
  exact member

omit [ProstReflect] [DescriptorFiles] in
theorem lastFetched_isSome_iff (fetched : List (Except Status FileMap)) (name : String) :
    (lastFetched fetched name).isSome ↔ ∃ files, .ok files ∈ fetched ∧ (lookup files name).isSome := by
  rw [lastFetched, List.findSome?_isSome_iff]
  simp only [List.mem_filterMap, List.mem_reverse]
  constructor
  · rintro ⟨files, ⟨outcome, member, here⟩, found⟩
    cases outcome with
    | error e => cases here
    | ok held =>
      cases here
      exact ⟨files, member, found⟩
  · rintro ⟨files, member, found⟩
    exact ⟨files, ⟨.ok files, member, rfl⟩, found⟩

/-- Where the closure of some service was fetched completely, the load succeeds and resolves every
method of such services exactly if no fetch waits for ever, each import of a fetched file was fetched with one
service or another, and no later fetch put a file without those methods in the place of theirs. -/
theorem load_all_iff (laws : PoolLaws) {up : Upstream} {services : List String} {version : Version}
    (lists : listed up = some (.ok (services, version))) {i : Nat} {service : String} {files : FileMap}
    (asked : services[i]? = some service) (fetched : fetch (up.fetches version i) service = some (.ok files))
    (complete : (lookup files).Complete service) :
    (∃ tc, loadAll up = some (.ok tc) ∧ EveryMethod up services version fun path => tc.hasMethod path = true) ↔
      ∃ outcomes, fetchAll up services version = some outcomes ∧ (lastFetched outcomes).Closed ∧
        EveryMethod up services version fun path => ∃ service, (lastFetched outcomes).Offers service path := by
  cases all : fetchAll up services version with
  | none =>
    refine iff_of_false ?_ (by rintro ⟨_, ⟨⟩, _⟩)
    rintro ⟨tc, loaded, _⟩
    rw [loadAll_eq lists, all] at loaded
    cases loaded
  | some outcomes =>
    simp only [Option.some.injEq, exists_eq_left']
    have returned : merge outcomes ≠ [] := by
      obtain ⟨_, last⟩ := merge_spec fun files => fetchAll_parsed all
      obtain ⟨name, f, _, _, found, _⟩ := complete.declared
      have there : (lastFetched outcomes name).isSome :=
        (lastFetched_isSome_iff _ name).mpr ⟨files, mem_fetchAll all asked fetched, by rw [found]; rfl⟩
      intro empty
      rw [← last, empty] at there
      cases there
    constructor
    · rintro ⟨tc, loaded, every⟩
      obtain ⟨_, closed⟩ := (loadAll_ok_iff lists all laws).mp ⟨tc, loaded⟩
      refine ⟨closed, fun j other others asked' fetched' complete' path offers => ?_⟩
      exact (loadAll_methods lists all laws loaded path).mp (every j other others asked' fetched' complete' path offers)
    · rintro ⟨closed, every⟩
      obtain ⟨tc, loaded⟩ := (loadAll_ok_iff lists all laws).mpr ⟨returned, closed⟩
      refine ⟨tc, loaded, fun j other others asked' fetched' complete' path offers => ?_⟩
      exact (loadAll_methods lists all laws loaded path).mpr (every j other others asked' fetched' complete' path offers)

end

/-! ### Three files -/

/-- A pool is known by its files: `[1]` has the service `a.A`; `[2]` has the service `b.B` and imports
`[3]`, which has none. -/
abbrev threeSchema : ProstReflect where
  DescriptorPool := List Bytes
  MessageDescriptor := Unit
  DynamicMessage := Unit
  getServiceByName pool service :=
    if service = "a.A" ∧ [1] ∈ pool then some [("Get", (), ())]
    else if service = "b.B" ∧ [2] ∈ pool then some [("Get", (), ())]
    else none
  new _ := ()
  deserialize _ _ := .ok ((), [])
  finish _ := .ok ()
  encodeToVec _ := []
  decode _ _ := .ok ()
  serialize _ := .ok [123, 125]

/-- The files of a set whose files have one byte each. -/
def bytesOf : Bytes → Option (List Bytes)
  | [] => some []
  | 10 :: 1 :: b :: rest => (bytesOf rest).map ([b] :: ·)
  | _ => none

attribute [local instance] threeSchema in
abbrev threeFiles : DescriptorFiles where
  decodeFile
    | [1] => .ok ⟨"a.proto", [], [("a.A", ["Get"])]⟩
    | [2] => .ok ⟨"b.proto", ["c.proto"], [("b.B", ["Get"])]⟩
    | [3] => .ok ⟨"c.proto", [], []⟩
    | _ => .error "invalid tag value: 0"
  decodePool set :=
    match bytesOf set with
    | none => .error "buffer underflow"
    | some raws =>
      if [2] ∈ raws ∧ [3] ∉ raws then .error "imported file 'c.proto' has not been added" else .ok raws

attribute [local instance] threeSchema threeFiles

theorem fileSet_append (buf : Bytes) (raws : List Bytes) :
    raws.foldl pushFileDescriptor buf = buf ++ fileSet raws := by
  induction raws generalizing buf with
  | nil => simp [fileSet]
  | cons raw raws ih =>
    rw [fileSet, List.foldl_cons, List.foldl_cons, ih, ih (pushFileDescriptor [] raw)]
    simp [pushFileDescriptor]

theorem three_decodes {raw : Bytes} (decodes : ∃ fd, decodeFile raw = .ok fd) :
    raw = [1] ∨ raw = [2] ∨ raw = [3] := by
  obtain ⟨fd, decoded⟩ := decodes
  change (match raw with | [1] => _ | [2] => _ | [3] => _ | _ => _) = _ at decoded
  split at decoded
  · exact .inl rfl
  · exact .inr (.inl rfl)
  · exact .inr (.inr rfl)
  · cases decoded

theorem bytesOf_fileSet {raws : List Bytes} (decodes : ∀ raw ∈ raws, ∃ fd, decodeFile raw = .ok fd) :
    bytesOf (fileSet raws) = some raws := by
  induction raws with
  | nil => rfl
  | cons raw raws ih =>
    obtain ⟨first, rest⟩ := List.forall_mem_cons.mp decodes
    have one : varint 1 = [1] := by unfold varint; rfl
    rw [fileSet, List.foldl_cons, fileSet_append]
    rcases three_decodes first with rfl | rfl | rfl <;> simp [pushFileDescriptor, one, bytesOf, ih rest]

theorem three_decodePool {raws : List Bytes} (decodes : ∀ raw ∈ raws, ∃ fd, decodeFile raw = .ok fd) :
    decodePool (fileSet raws) =
      if [2] ∈ raws ∧ [3] ∉ raws then .error "imported file 'c.proto' has not been added" else .ok raws := by
  show (match bytesOf (fileSet raws) with | none => _ | some raws => _) = _
  rw [bytesOf_fileSet decodes]

theorem three_importsPresent_iff {raws : List Bytes} (decodes : ∀ raw ∈ raws, ∃ fd, decodeFile raw = .ok fd) :
    ImportsPresent raws ↔ ([2] ∈ raws → [3] ∈ raws) := by
  constructor
  · intro present imports
    obtain ⟨raw, member, fd, decoded, named⟩ := present [2] imports _ rfl "c.proto" (by simp)
    rcases three_decodes (decodes raw member) with rfl | rfl | rfl
    · cases decoded
      exact absurd named (by decide)
    · cases decoded
      exact absurd named (by decide)
    · exact member
  · intro present raw member fd decoded dep imported
    rcases three_decodes (decodes raw member) with rfl | rfl | rfl
    · cases decoded
      cases imported
    · cases decoded
      obtain rfl := List.mem_singleton.mp imported
      exact ⟨[3], present member, _, rfl, rfl⟩
    · cases decoded
      cases imported

theorem three_declaredIn_iff {raws : List Bytes} (decodes : ∀ raw ∈ raws, ∃ fd, decodeFile raw = .ok fd)
    (service method : String) :
    DeclaredIn raws service method ↔
      method = "Get" ∧ (service = "a.A" ∧ [1] ∈ raws ∨ service = "b.B" ∧ [2] ∈ raws) := by
  constructor
  · rintro ⟨raw, member, fd, methods, decoded, declared, named⟩
    rcases three_decodes (decodes raw member) with rfl | rfl | rfl
    · cases decoded
      obtain ⟨rfl, rfl⟩ := Prod.mk.inj (List.mem_singleton.mp declared)
      exact ⟨List.mem_singleton.mp named, .inl ⟨rfl, member⟩⟩
    · cases decoded
      obtain ⟨rfl, rfl⟩ := Prod.mk.inj (List.mem_singleton.mp declared)
      exact ⟨List.mem_singleton.mp named, .inr ⟨rfl, member⟩⟩
    · cases decoded
      cases declared
  · rintro ⟨rfl, ⟨rfl, member⟩ | ⟨rfl, member⟩⟩
    · exact ⟨[1], member, _, ["Get"], rfl, by simp, by simp⟩
    · exact ⟨[2], member, _, ["Get"], rfl, by simp, by simp⟩

theorem three_laws : PoolLaws where
  decode_iff {raws} decodes := by
    rw [three_decodePool decodes, three_importsPresent_iff decodes]
    by_cases missing : [2] ∈ raws ∧ [3] ∉ raws
    · simp [missing]
    · simp [missing]
      tauto
  methods_iff {raws pool} decodes built service method := by
    rw [three_decodePool decodes] at built
    split at built
    · cases built
    · obtain rfl := Except.ok.inj built
      rw [three_declaredIn_iff decodes]
      show (∃ methods io, (if service = "a.A" ∧ [1] ∈ raws then some [("Get", (), ())]
        else if service = "b.B" ∧ [2] ∈ raws then some [("Get", (), ())] else none) = some methods ∧ _) ↔ _
      constructor
      · rintro ⟨methods, io, found, member⟩
        split at found
        · rename_i first
          obtain rfl := Option.some.inj found
          exact ⟨(Prod.mk.inj (List.mem_singleton.mp member)).1, .inl first⟩
        · obtain ⟨second, ⟨⟩⟩ := Option.ite_none_right_eq_some.mp found
          exact ⟨(Prod.mk.inj (List.mem_singleton.mp member)).1, .inr second⟩
      · rintro ⟨rfl, first | second⟩
        · exact ⟨[("Get", (), ())], ((), ()), if_pos first, by simp⟩
        · have other : ¬(service = "a.A" ∧ [1] ∈ raws) := fun first =>
            absurd (first.1.symm.trans second.1) (by decide)
          exact ⟨[("Get", (), ())], ((), ()), by rw [if_neg other, if_pos second], by simp⟩

def answers (responses : List MessageResponse) : Exchange := ⟨fun _ => some (.ok ()), 16, responses, some (.ok ())⟩

/-- The upstream has the services `a.A` and `b.B`, and answers for `b.B` with `responses`. -/
def upstream (responses : List MessageResponse) : Upstream where
  listV1 := answers [.listServicesResponse ["a.A", "b.B"]]
  listV1alpha := answers []
  fetches _ i := answers (if i = 0 then [.fileDescriptorResponse [[1]]] else responses)

theorem fetch_a (responses : List MessageResponse) :
    fetch ((upstream responses).fetches .v1 0) "a.A" = some (.ok [("a.proto", ⟨[1], []⟩)]) := rfl

theorem complete_a : (lookup [("a.proto", ⟨[1], []⟩)]).Complete "a.A" where
  closed name f dep found imported := by
    obtain ⟨_, rfl⟩ : "a.proto" = name ∧ (⟨[1], []⟩ : RawFile) = f := by
      simpa [lookup, InsertionMap.get] using found
    cases imported
  declared := ⟨"a.proto", ⟨[1], []⟩, _, ["Get"], rfl, rfl, by simp⟩

theorem load_all_iff_skipped :
    (∃ tc, loadAll (upstream [.errorResponse 5 "symbol not found"]) = some (.ok tc) ∧
        EveryMethod (upstream [.errorResponse 5 "symbol not found"]) ["a.A", "b.B"] .v1 fun path =>
          tc.hasMethod path = true) ↔
      ∃ outcomes, fetchAll (upstream [.errorResponse 5 "symbol not found"]) ["a.A", "b.B"] .v1 = some outcomes ∧
        (lastFetched outcomes).Closed ∧
          EveryMethod (upstream [.errorResponse 5 "symbol not found"]) ["a.A", "b.B"] .v1 fun path =>
            ∃ service, (lastFetched outcomes).Offers service path :=
  load_all_iff three_laws rfl rfl (fetch_a _) complete_a

/-- The stream for `b.B` ends before `c.proto` came: what was fetched of `b.B` fails the load of `a.A`. -/
theorem partial_closure_fails :
    listed (upstream [.fileDescriptorResponse [[2]]]) = some (.ok (["a.A", "b.B"], .v1)) ∧
      fetch ((upstream [.fileDescriptorResponse [[2]]]).fetches .v1 0) "a.A" = some (.ok [("a.proto", ⟨[1], []⟩)]) ∧
      (lookup [("a.proto", ⟨[1], []⟩)]).Complete "a.A" ∧
      ¬∃ tc, loadAll (upstream [.fileDescriptorResponse [[2]]]) = some (.ok tc) := by
  have lists : listed (upstream [.fileDescriptorResponse [[2]]]) = some (.ok (["a.A", "b.B"], .v1)) := rfl
  refine ⟨lists, fetch_a _, complete_a, fun loaded => ?_⟩
  obtain ⟨_, closed⟩ := (loadAll_ok_iff lists rfl three_laws).mp loaded
  exact absurd (closed "b.proto" ⟨[2], ["c.proto"]⟩ "c.proto" rfl (by simp)) (by decide)

end Reflect
end GrpcWebnext
