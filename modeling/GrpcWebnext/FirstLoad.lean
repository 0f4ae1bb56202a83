import GrpcWebnext.Backend
import GrpcWebnext.Schema

/-!
# Waiting for the first load

`transcoder_any` as one request meets it: the snapshot that is there, and those that land while the
request waits. Only a source of reflection alone makes a request wait.
-/

namespace GrpcWebnext
namespace Schema

def FIRST_LOAD_WAIT : Nat := 10 * 10 ^ 9

/-- A result, and the bounded waits that were entered for it, by how long each of them took. -/
structure Waited (α : Type) where
  waits : List Nat
  value : α
  deriving DecidableEq

def Waited.map {α β : Type} (f : α → β) (w : Waited α) : Waited β := ⟨w.waits, f w.value⟩

variable [ProstReflect]

/-- The watch channel from the arrival of a request on: what it holds, and what is sent later. -/
structure Snapshots where
  current : Option Transcoder
  later : List (Nat × Transcoder) := []

/-- `ReflectionState::transcoder`, up to its result. -/
def firstLoad (s : Snapshots) : Waited (Option Transcoder) :=
  match s.current, s.later with
  | some tc, _ => ⟨[], some tc⟩
  | none, (landed, tc) :: _ =>
    if inTime (some FIRST_LOAD_WAIT) 0 landed then ⟨[landed], some tc⟩ else ⟨[FIRST_LOAD_WAIT], none⟩
  | none, [] => ⟨[FIRST_LOAD_WAIT], none⟩

def transcoderAnyAwait (inner : Inner) (s : Snapshots) : Waited (Except Status Transcoder) :=
  match inner with
  | .reflection => (firstLoad s).map (transcoderAny .reflection)
  | inner => ⟨[], transcoderAny inner s.current⟩

theorem firstLoad_waits_iff (s : Snapshots) : (firstLoad s).waits = [] ↔ s.current ≠ none := by
  obtain ⟨current, later⟩ := s
  cases current with
  | some tc => simp [firstLoad]
  | none =>
    cases later with
    | nil => simp [firstLoad]
    | cons send later =>
      simp only [firstLoad, ne_eq, not_true_eq_false, iff_false]
      split <;> nofun

theorem transcoderAnyAwait_waits_iff (inner : Inner) (s : Snapshots) :
    (transcoderAnyAwait inner s).waits = [] ↔ (inner = .reflection → s.current ≠ none) := by
  cases inner with
  | reflection => simpa [transcoderAnyAwait, Waited.map] using firstLoad_waits_iff s
  | none | bundled tc | reflectionOrBundled bundle => simp [transcoderAnyAwait]

theorem transcoderAnyAwait_loaded (inner : Inner) {s : Snapshots} (loaded : s.current ≠ none) :
    transcoderAnyAwait inner s = ⟨[], transcoderAny inner s.current⟩ := by
  obtain ⟨tc, here⟩ := Option.ne_none_iff_exists'.mp loaded
  cases inner with
  | reflection => simp [transcoderAnyAwait, firstLoad, Waited.map, here]
  | none | bundled tc | reflectionOrBundled bundle => rfl

end Schema
end GrpcWebnext
