import GrpcWebnext.Lib.InsertionMap
import GrpcWebnext.Metadata

/-!
# Client metadata

The TypeScript client's `Metadata`: a map from lower-case keys to values, and its conversions to
and from the metadata list of a frame.
-/

namespace GrpcWebnext
namespace Client

/-- JavaScript's `toLowerCase`, as far as header names depend on it. -/
class JsString where
  toLowerCase : String → String
  toLowerCase_ascii : ∀ s : String, (∀ c ∈ s.toList, c.toNat < 128) →
    toLowerCase s = String.ofList (s.toList.map Char.toLower)
  toLowerCase_toLower : ∀ s : String, (toLowerCase s).toList.map Char.toLower = (toLowerCase s).toList

inductive MetadataValue where
  | text (s : String)
  | bytes (b : Bytes)
  deriving DecidableEq

/-- The class `Metadata`, whose map is private: its keys are distinct and hold no upper-case ASCII
letter. -/
structure Metadata where
  map : List (String × List MetadataValue)
  lowered : ∀ e ∈ map, e.1.toList.map Char.toLower = e.1.toList
  distinct : (map.map Prod.fst).Nodup

namespace Metadata

variable [JsString]

def normalizeKey (key : String) : String := JsString.toLowerCase key

def empty : Metadata := ⟨[], by simp, by simp⟩

def put (md : Metadata) (key : String) (values : List MetadataValue) : Metadata where
  map := InsertionMap.set (normalizeKey key) values md.map
  lowered := fun e member => by
    rcases InsertionMap.mem_set member with rfl | member
    · exact JsString.toLowerCase_toLower key
    · exact md.lowered e member
  distinct := InsertionMap.nodup_set md.distinct

def set (md : Metadata) (key : String) (value : MetadataValue) : Metadata := md.put key [value]

def get (md : Metadata) (key : String) : List MetadataValue :=
  (InsertionMap.get (normalizeKey key) md.map).getD []

def add (md : Metadata) (key : String) (value : MetadataValue) : Metadata :=
  md.put key (md.get key ++ [value])

def toMetadatum (key : String) : MetadataValue → Metadatum
  | .text s => ⟨key, some (.asciiValue s)⟩
  | .bytes b => ⟨key, some (.binValue b)⟩

def toMetadatumList (md : Metadata) : List Metadatum :=
  md.map.flatMap fun e => e.2.map (toMetadatum e.1)

def ofMetadatumValue : MetadatumValue → MetadataValue
  | .asciiValue s => .text s
  | .binValue b => .bytes b

def fromMetadatumList (items : List Metadatum) : Metadata :=
  items.foldl (fun md m => match m.value with
    | some value => md.add m.key (ofMetadatumValue value)
    | none => md) empty

theorem get_set (md : Metadata) (key : String) (value : MetadataValue) (key' : String) :
    (md.set key value).get key' = if normalizeKey key = normalizeKey key' then [value] else md.get key' := by
  simp only [set, put, get, InsertionMap.get_set]
  split <;> rfl

theorem get_add (md : Metadata) (key : String) (value : MetadataValue) (key' : String) :
    (md.add key value).get key' =
      md.get key' ++ if normalizeKey key = normalizeKey key' then [value] else [] := by
  simp only [add, put, get, InsertionMap.get_set]
  split
  · rename_i same
    simp [same]
  · simp

theorem get_fromMetadatumList (items : List Metadatum) (key : String) :
    (fromMetadatumList items).get key =
      (items.filterMap fun m => if normalizeKey m.key = normalizeKey key then m.value else none).map
        ofMetadatumValue := by
  have general : ∀ md : Metadata, (items.foldl (fun md m => match m.value with
      | some value => md.add m.key (ofMetadatumValue value)
      | none => md) md).get key = md.get key ++
        (items.filterMap fun m => if normalizeKey m.key = normalizeKey key then m.value else none).map
          ofMetadatumValue := by
    induction items with
    | nil => simp
    | cons m items ih =>
      intro md
      rw [List.foldl_cons, ih, List.filterMap_cons]
      cases held : m.value with
      | none => split <;> simp_all
      | some value =>
        by_cases same : normalizeKey m.key = normalizeKey key <;> simp [get_add, same]
  exact general empty

end Metadata
end Client
end GrpcWebnext
