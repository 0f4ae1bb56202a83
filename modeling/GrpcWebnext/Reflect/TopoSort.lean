import GrpcWebnext.Reflect

/-!
# The order of the files

`topo_sort` visits the names of the files from the least to the greatest, and each file before it those
that it imports.
-/

namespace GrpcWebnext
namespace Reflect

/-- `name` imports `dep`, and both files are there. -/
def Imports (files : FileMap) (name dep : String) : Prop :=
  ∃ f, lookup files name = some f ∧ dep ∈ f.deps ∧ (lookup files dep).isSome

def Acyclic (files : FileMap) : Prop := ∀ name, ¬Relation.TransGen (Imports files) name name

def sortedNames (files : FileMap) : List String := (files.map Prod.fst).mergeSort fun a b => decide (a ≤ b)

theorem topoSort_eq (files : FileMap) :
    topoSort files = PostOrder.emitAll (known files) (files.map Prod.fst) (sortedNames files) := rfl

theorem edge_iff (files : FileMap) : PostOrder.Edge (known files) = Imports files := by
  funext name dep
  apply propext
  unfold PostOrder.Edge Imports known lookup
  constructor
  · rintro ⟨next, out, found, among, there⟩
    obtain ⟨f, held, ⟨⟩⟩ := Option.map_eq_some_iff.mp found
    exact ⟨f, held, among, by simpa using there⟩
  · rintro ⟨f, held, among, there⟩
    exact ⟨f.deps, f.bytes, by rw [held]; rfl, among, by simpa using there⟩

theorem sortedNames_subset (files : FileMap) : files.map Prod.fst ⊆ sortedNames files :=
  fun _ member => (List.mergeSort_perm _ _).mem_iff.mpr member

/-! ### Termination -/

theorem topoSort_returns (files : FileMap) :
    ∃ seen, ∀ st, PostOrder.Returns (known files) ([], []) (sortedNames files) st ↔ st = (seen, topoSort files) := by
  obtain ⟨seen, returns⟩ := PostOrder.emitAll_returns (fun name => (known_isSome_iff files name).mp) (sortedNames files)
  refine ⟨seen, fun st => ⟨fun other => other.unique returns, ?_⟩⟩
  rintro rfl
  exact returns

/-! ### The order -/

theorem topoSort_order {files : FileMap} (distinct : (files.map Prod.fst).Nodup) :
    ∃ order : FileMap, order.Perm files ∧ topoSort files = order.map (fun e => e.2.bytes) ∧
      (Acyclic files → ∀ pre e post, order = pre ++ e :: post → ∀ dep, Imports files e.1 dep →
        dep ∈ pre.map Prod.fst) := by
  obtain ⟨names, emits, once, each, ordered⟩ :=
    PostOrder.emitAll_order (fun name => (known_isSome_iff files name).mp) (sortedNames_subset files)
  have perm : names.Perm (files.map Prod.fst) := by
    apply (List.perm_ext_iff_of_nodup once distinct).mpr
    intro name
    rw [each, known_isSome_iff]
  have held : ∀ name ∈ names, (InsertionMap.get name files).isSome := fun name member =>
    (InsertionMap.get_isSome_iff name files).mpr (perm.mem_iff.mp member)
  have keys := InsertionMap.map_fst_filterMap_entry held
  refine ⟨names.filterMap (InsertionMap.entry files), ?_, ?_, ?_⟩
  · have entries := perm.filterMap (InsertionMap.entry files)
    rwa [InsertionMap.filterMap_entry distinct] at entries
  · rw [topoSort_eq, emits, List.map_filterMap]
    apply List.filterMap_congr
    intro name _
    rw [PostOrder.outOf, known, InsertionMap.entry, Option.map_map, Option.map_map]
    rfl
  · intro acyclic pre e post cut dep imports
    have position : names = pre.map Prod.fst ++ e.1 :: post.map Prod.fst := by
      rw [← keys, cut, List.map_append, List.map_cons]
    rw [edge_iff] at ordered
    rcases ordered position imports with earlier | back
    · exact earlier
    · exact absurd (Relation.TransGen.head' imports back) (acyclic e.1)

/-! ### Iteration order -/

theorem sortedNames_perm {files files' : FileMap} (perm : files'.Perm files) :
    sortedNames files' = sortedNames files := by
  have trans : ∀ a b c : String, decide (a ≤ b) = true → decide (b ≤ c) = true → decide (a ≤ c) = true := by
    intro a b c first second
    exact decide_eq_true (String.le_trans (of_decide_eq_true first) (of_decide_eq_true second))
  have total : ∀ a b : String, (decide (a ≤ b) || decide (b ≤ a)) = true := by
    intro a b
    rw [Bool.or_eq_true, decide_eq_true_eq, decide_eq_true_eq]
    exact String.le_total a b
  have same : (sortedNames files').Perm (sortedNames files) :=
    (List.mergeSort_perm _ _).trans ((perm.map Prod.fst).trans (List.mergeSort_perm _ _).symm)
  apply List.Perm.eq_of_pairwise _ (List.pairwise_mergeSort trans total _) (List.pairwise_mergeSort trans total _) same
  intro a b _ _ first second
  exact String.le_antisymm (of_decide_eq_true first) (of_decide_eq_true second)

theorem topoSort_perm {files files' : FileMap} (distinct : (files.map Prod.fst).Nodup) (perm : files'.Perm files) :
    topoSort files' = topoSort files := by
  have same : known files' = known files := by
    funext name
    rw [known, InsertionMap.get_perm distinct perm, known]
  rw [topoSort_eq, topoSort_eq, same, sortedNames_perm perm, PostOrder.emitAll, PostOrder.emitAll,
    (perm.map Prod.fst).length_eq]

/-- The visits return, with the bytes of each file once, those of a file behind those of its imports
if no file imports itself by way of others, and whatever order the map gives its entries in. -/
theorem topo_sort_spec {files : FileMap} (distinct : (files.map Prod.fst).Nodup) :
    (∃ seen, ∀ st, PostOrder.Returns (known files) ([], []) (sortedNames files) st ↔ st = (seen, topoSort files)) ∧
      (∃ order : FileMap, order.Perm files ∧ topoSort files = order.map (fun e => e.2.bytes) ∧
        (Acyclic files → ∀ pre e post, order = pre ++ e :: post → ∀ dep, Imports files e.1 dep →
          dep ∈ pre.map Prod.fst)) ∧
      ∀ files' : FileMap, files'.Perm files → topoSort files' = topoSort files :=
  ⟨topoSort_returns files, topoSort_order distinct, fun _ perm => topoSort_perm distinct perm⟩

/-- A file with one import that is there and one that is not. -/
def chained : FileMap := [("a.proto", ⟨[1], ["b.proto", "any.proto"]⟩), ("b.proto", ⟨[2], []⟩)]

theorem chained_imports {name dep : String} (imports : Imports chained name dep) :
    name = "a.proto" ∧ dep = "b.proto" := by
  obtain ⟨f, found, among, there⟩ := imports
  simp only [lookup, chained, InsertionMap.get] at found there
  split at found
  · rename_i own
    cases found
    refine ⟨own.symm, ?_⟩
    rcases List.mem_cons.mp among with rfl | among
    · rfl
    · obtain rfl := List.mem_singleton.mp among
      cases there
  · obtain ⟨-, ⟨⟩⟩ := Option.ite_none_right_eq_some.mp found
    cases among

theorem chained_acyclic : Acyclic chained := by
  intro name cycle
  obtain ⟨_, first, _⟩ := Relation.TransGen.head'_iff.mp cycle
  obtain ⟨_, _, last⟩ := Relation.TransGen.tail'_iff.mp cycle
  have both := (chained_imports first).1.symm.trans (chained_imports last).2
  revert both
  decide

theorem topo_sort_chained :
    (∃ order : FileMap, order.Perm chained ∧ topoSort chained = order.map (fun e => e.2.bytes) ∧
        ∀ pre e post, order = pre ++ e :: post → ∀ dep, Imports chained e.1 dep → dep ∈ pre.map Prod.fst) ∧
      topoSort chained.reverse = topoSort chained := by
  obtain ⟨_, ⟨order, perm, same, ordered⟩, stable⟩ := @topo_sort_spec chained (by decide)
  exact ⟨⟨order, perm, same, ordered chained_acyclic⟩, stable _ (List.reverse_perm chained)⟩

end Reflect
end GrpcWebnext
