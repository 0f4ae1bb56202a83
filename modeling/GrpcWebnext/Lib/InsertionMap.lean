import Mathlib.Data.List.Nodup

/-!
# Maps in insertion order

A map as the list of its entries. `set` keeps the place of a key that is held and appends a new
one, so distinct keys stay distinct.
-/

namespace InsertionMap

variable {K V : Type} [DecidableEq K]

def set (k : K) (v : V) : List (K × V) → List (K × V)
  | [] => [(k, v)]
  | e :: rest => if e.1 = k then (k, v) :: rest else e :: set k v rest

def get (k : K) : List (K × V) → Option V
  | [] => none
  | e :: rest => if e.1 = k then some e.2 else get k rest

theorem mem_set {k : K} {v : V} {m : List (K × V)} {e : K × V} (member : e ∈ set k v m) :
    e = (k, v) ∨ e ∈ m := by
  induction m with
  | nil => simpa [set] using member
  | cons head rest ih =>
    simp only [set] at member
    split at member
    · rcases List.mem_cons.mp member with rfl | member
      · exact .inl rfl
      · exact .inr (List.mem_cons_of_mem _ member)
    · rcases List.mem_cons.mp member with rfl | member
      · exact .inr List.mem_cons_self
      · exact (ih member).imp_right (List.mem_cons_of_mem _)

theorem nodup_set {k : K} {v : V} {m : List (K × V)} (distinct : (m.map Prod.fst).Nodup) :
    ((set k v m).map Prod.fst).Nodup := by
  induction m with
  | nil => simp [set]
  | cons head rest ih =>
    obtain ⟨absent, unique⟩ := List.nodup_cons.mp distinct
    simp only [set]
    split
    · rename_i same
      exact List.nodup_cons.mpr ⟨same ▸ absent, unique⟩
    · rename_i other
      refine List.nodup_cons.mpr ⟨?_, ih unique⟩
      intro member
      obtain ⟨e, found, key⟩ := List.mem_map.mp member
      rcases mem_set found with rfl | found
      · exact other key.symm
      · exact absent (List.mem_map.mpr ⟨e, found, key⟩)

theorem get_set (k : K) (v : V) (m : List (K × V)) (k' : K) :
    get k' (set k v m) = if k = k' then some v else get k' m := by
  induction m with
  | nil => simp [set, get]
  | cons head rest ih =>
    by_cases here : head.1 = k
    · subst here
      simp only [set, ↓reduceIte, get]
      split <;> rfl
    · simp only [set, here, ↓reduceIte, get, ih]
      split
      · rename_i same
        subst same
        simp [Ne.symm here]
      · rfl

theorem get_eq_none {k : K} {m : List (K × V)} (absent : k ∉ m.map Prod.fst) : get k m = none := by
  induction m with
  | nil => rfl
  | cons head rest ih =>
    simp only [List.map_cons, List.mem_cons, not_or] at absent
    simp [get, Ne.symm absent.1, ih absent.2]

theorem get_isSome_iff (k : K) (m : List (K × V)) : (get k m).isSome ↔ k ∈ m.map Prod.fst := by
  induction m with
  | nil => simp [get]
  | cons head rest ih =>
    by_cases here : head.1 = k
    · simp [get, here]
    · simp [get, here, Ne.symm here, ih]

theorem get_eq_some_iff {m : List (K × V)} (distinct : (m.map Prod.fst).Nodup) (k : K) (v : V) :
    get k m = some v ↔ (k, v) ∈ m := by
  induction m with
  | nil => simp [get]
  | cons head rest ih =>
    obtain ⟨absent, unique⟩ := List.nodup_cons.mp distinct
    obtain ⟨k', v'⟩ := head
    rw [get, List.mem_cons, Prod.mk.injEq, ← ih unique]
    by_cases same : k' = k
    · subst same
      rw [if_pos rfl, get_eq_none absent, Option.some.injEq]
      simp [eq_comm]
    · rw [if_neg same]
      simp [Ne.symm same]

/-- What a map holds does not depend on the order of its entries. -/
theorem get_perm {m m' : List (K × V)} (distinct : (m.map Prod.fst).Nodup) (perm : m'.Perm m) (k : K) :
    get k m' = get k m := by
  have distinct' : (m'.map Prod.fst).Nodup := (perm.map Prod.fst).nodup_iff.mpr distinct
  apply Option.ext
  intro v
  rw [get_eq_some_iff distinct, get_eq_some_iff distinct', perm.mem_iff]

def entry (m : List (K × V)) (k : K) : Option (K × V) := (get k m).map fun v => (k, v)

theorem filterMap_entry {m : List (K × V)} (distinct : (m.map Prod.fst).Nodup) :
    (m.map Prod.fst).filterMap (entry m) = m := by
  rw [List.filterMap_map]
  have each : ∀ e ∈ m, (entry m ∘ Prod.fst) e = some e := by
    intro e member
    rw [Function.comp_apply, entry, (get_eq_some_iff distinct e.1 e.2).mpr member, Option.map_some]
  rw [List.filterMap_congr each, List.filterMap_some]

theorem map_fst_filterMap_entry {m : List (K × V)} {keys : List K} (held : ∀ k ∈ keys, (get k m).isSome) :
    (keys.filterMap (entry m)).map Prod.fst = keys := by
  rw [List.map_filterMap]
  have each : ∀ k ∈ keys, (entry m k).map Prod.fst = some k := by
    intro k member
    obtain ⟨v, found⟩ := Option.isSome_iff_exists.mp (held k member)
    rw [entry, found]
    rfl
  rw [List.filterMap_congr each, List.filterMap_some]

/-- Of all entries only that of the key contributes to what is collected for the key. -/
theorem filterMap_get {A B : Type} {m : List (K × V)} (distinct : (m.map Prod.fst).Nodup) (k : K)
    (items : K × V → List A) (f : A → Option B)
    (others : ∀ e ∈ m, e.1 ≠ k → (items e).filterMap f = []) :
    (m.flatMap items).filterMap f =
      match get k m with
      | some v => (items (k, v)).filterMap f
      | none => [] := by
  induction m with
  | nil => rfl
  | cons head rest ih =>
    obtain ⟨absent, unique⟩ := List.nodup_cons.mp distinct
    obtain ⟨here, later⟩ := List.forall_mem_cons.mp others
    obtain ⟨k', v⟩ := head
    rw [List.flatMap_cons, List.filterMap_append, ih unique later]
    by_cases same : k' = k
    · subst same
      simp [get, get_eq_none absent]
    · simp [get, same, here same]

end InsertionMap
