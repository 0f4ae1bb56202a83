import Mathlib.Data.List.Basic
import Mathlib.Data.List.Nodup
import Mathlib.Logic.Relation

/-!
# Depth-first post-order

A graph is given by what is known of a node: its successors and what is emitted for it, or nothing.
`visit` emits for a node once all that it leads to was visited, each node at most once. The recursion
is bounded by fuel; as many steps as there are known nodes, and one more, are enough.
-/

namespace PostOrder

variable {Node Out : Type} [DecidableEq Node]

/-- The nodes that were seen, and what was emitted. -/
abbrev State (Node Out : Type) := List Node × List Out

def visit (known : Node → Option (List Node × Out)) : Nat → State Node Out → Node → State Node Out
  | 0, st, _ => st
  | fuel + 1, st, v =>
    if v ∈ st.1 then st
    else
      match known v with
      | none => (v :: st.1, st.2)
      | some (next, out) =>
        let st := next.foldl (visit known fuel) (v :: st.1, st.2)
        (st.1, st.2 ++ [out])

variable {known : Node → Option (List Node × Out)}

/-! ### The recursion without its bound -/

/-- Visiting `vs` in turn from `st` returns with `st'`. -/
inductive Returns (known : Node → Option (List Node × Out)) : State Node Out → List Node → State Node Out → Prop where
  | nil (st : State Node Out) : Returns known st [] st
  | seen {st st' : State Node Out} {v : Node} {vs : List Node} : v ∈ st.1 → Returns known st vs st' →
      Returns known st (v :: vs) st'
  | unknown {st st' : State Node Out} {v : Node} {vs : List Node} : v ∉ st.1 → known v = none →
      Returns known (v :: st.1, st.2) vs st' → Returns known st (v :: vs) st'
  | known {st mid st' : State Node Out} {v : Node} {vs next : List Node} {out : Out} : v ∉ st.1 →
      known v = some (next, out) → Returns known (v :: st.1, st.2) next mid →
      Returns known (mid.1, mid.2 ++ [out]) vs st' → Returns known st (v :: vs) st'

omit [DecidableEq Node] in
theorem Returns.append {st mid st' : State Node Out} {vs ws : List Node} (first : Returns known st vs mid)
    (second : Returns known mid ws st') : Returns known st (vs ++ ws) st' := by
  induction first with
  | nil => exact second
  | seen old _ ih => exact .seen old (ih second)
  | unknown fresh none _ ih => exact .unknown fresh none (ih second)
  | known fresh found inner _ _ ih => exact .known fresh found inner (ih second)

omit [DecidableEq Node] in
/-- The recursion returns with one state at most. -/
theorem Returns.unique {st a b : State Node Out} {vs : List Node} (first : Returns known st vs a)
    (second : Returns known st vs b) : a = b := by
  induction first generalizing b with
  | nil =>
    cases second
    rfl
  | seen old _ ih =>
    cases second with
    | seen _ later => exact ih later
    | unknown fresh => exact absurd old fresh
    | known fresh => exact absurd old fresh
  | unknown fresh none _ ih =>
    cases second with
    | seen old => exact absurd old fresh
    | unknown _ _ later => exact ih later
    | known _ found => cases none.symm.trans found
  | known fresh found _ _ inner ih =>
    cases second with
    | seen old => exact absurd old fresh
    | unknown _ none => cases none.symm.trans found
    | known _ found' nested later =>
      cases found.symm.trans found'
      obtain rfl := inner nested
      exact ih later

omit [DecidableEq Node] in
theorem Returns.seen_subset {st st' : State Node Out} {vs : List Node} (returns : Returns known st vs st') :
    st.1 ⊆ st'.1 := by
  induction returns with
  | nil => exact List.Subset.refl _
  | seen _ _ ih => exact ih
  | unknown _ _ _ ih => exact List.Subset.trans (List.subset_cons_self _ _) ih
  | known _ _ _ _ inner ih =>
    exact List.Subset.trans (List.subset_cons_self _ _) (List.Subset.trans inner ih)

omit [DecidableEq Node] in
theorem Returns.reached {st st' : State Node Out} {vs : List Node} (returns : Returns known st vs st') :
    vs ⊆ st'.1 := by
  induction returns with
  | nil => exact List.nil_subset _
  | seen old later ih => exact List.cons_subset.mpr ⟨later.seen_subset old, ih⟩
  | unknown _ _ later ih => exact List.cons_subset.mpr ⟨later.seen_subset List.mem_cons_self, ih⟩
  | known _ _ inner later _ ih =>
    exact List.cons_subset.mpr ⟨later.seen_subset (inner.seen_subset List.mem_cons_self), ih⟩

/-! ### Fuel -/

/-- The nodes of `nodes` that are still to be seen. -/
def unseen (nodes seen : List Node) : Nat := (nodes.filter fun v => v ∉ seen).length

theorem unseen_anti (nodes : List Node) {seen seen' : List Node} (more : seen ⊆ seen') :
    unseen nodes seen' ≤ unseen nodes seen := by
  apply List.Sublist.length_le
  apply List.monotone_filter_right
  intro v fresh
  simp only [decide_eq_true_eq] at fresh ⊢
  exact fun old => fresh (more old)

theorem unseen_lt {nodes seen : List Node} {v : Node} (member : v ∈ nodes) (fresh : v ∉ seen) :
    unseen nodes (v :: seen) < unseen nodes seen := by
  have fewer : (nodes.filter fun w => w ∉ v :: seen) = (nodes.filter fun w => w ∉ seen).filter (· ≠ v) := by
    rw [List.filter_filter]
    apply List.filter_congr
    intro w _
    simp [not_or]
  unfold unseen
  rw [fewer]
  exact List.length_filter_lt_length_iff_exists.mpr ⟨v, by simp [member, fresh], by simp⟩

theorem foldl_returns {nodes : List Node} {fuel : Nat}
    (each : ∀ (st : State Node Out) v, unseen nodes st.1 < fuel → Returns known st [v] (visit known fuel st v))
    (vs : List Node) (st : State Node Out) (enough : unseen nodes st.1 < fuel) :
    Returns known st vs (vs.foldl (visit known fuel) st) := by
  induction vs generalizing st with
  | nil => exact .nil st
  | cons v vs ih =>
    have first := each st v enough
    have left := Nat.lt_of_le_of_lt (unseen_anti nodes first.seen_subset) enough
    exact first.append (ih _ left)

theorem visit_returns {nodes : List Node} (all : ∀ v, (known v).isSome → v ∈ nodes) (fuel : Nat)
    (st : State Node Out) (v : Node) (enough : unseen nodes st.1 < fuel) :
    Returns known st [v] (visit known fuel st v) := by
  induction fuel generalizing st v with
  | zero => exact absurd enough (Nat.not_lt_zero _)
  | succ fuel ih =>
    unfold visit
    split
    · rename_i old
      exact .seen old (.nil st)
    · rename_i fresh
      cases found : known v with
      | none => exact .unknown fresh found (.nil _)
      | some node =>
        obtain ⟨next, out⟩ := node
        have left : unseen nodes (v :: st.1) < fuel := by
          have one := unseen_lt (all v (by simp [found])) fresh
          omega
        exact .known fresh found (foldl_returns ih next (v :: st.1, st.2) left) (.nil _)

/-- What is emitted along `vs`, with fuel for the known nodes `nodes`. -/
def emitAll (known : Node → Option (List Node × Out)) (nodes vs : List Node) : List Out :=
  (vs.foldl (visit known (nodes.length + 1)) ([], [])).2

/-- The fuel is enough. -/
theorem emitAll_returns {nodes : List Node} (all : ∀ v, (known v).isSome → v ∈ nodes) (vs : List Node) :
    ∃ seen, Returns known ([], []) vs (seen, emitAll known nodes vs) := by
  have enough : unseen nodes [] < nodes.length + 1 := Nat.lt_succ_of_le (List.length_filter_le _ _)
  exact ⟨_, foldl_returns (visit_returns all (nodes.length + 1)) vs ([], []) enough⟩

/-! ### What is emitted, in order -/

/-- `v` leads to `w`, and both are known. -/
def Edge (known : Node → Option (List Node × Out)) (v w : Node) : Prop :=
  ∃ next out, known v = some (next, out) ∧ w ∈ next ∧ (known w).isSome

def outOf (known : Node → Option (List Node × Out)) (v : Node) : Option Out := (known v).map Prod.snd

/-- Between `st` and `st'` the known nodes that were seen newly are emitted, `nodes` in this order. What a
node leads to stands before it, unless it was seen already or leads back to the node. -/
structure Emitted (known : Node → Option (List Node × Out)) (vs : List Node) (st st' : State Node Out)
    (nodes : List Node) : Prop where
  seen : st.1 ⊆ st'.1
  out : st'.2 = st.2 ++ nodes.filterMap (outOf known)
  distinct : nodes.Nodup
  mem_iff : ∀ v, v ∈ nodes ↔ v ∈ st'.1 ∧ v ∉ st.1 ∧ (known v).isSome
  led : ∀ v ∈ nodes, ∃ u ∈ vs, Relation.ReflTransGen (Edge known) u v
  ordered : ∀ {pre v post}, nodes = pre ++ v :: post → ∀ {w}, Edge known v w →
    w ∈ pre ∨ w ∈ st.1 ∨ Relation.ReflTransGen (Edge known) w v

omit [DecidableEq Node] in
theorem Emitted.none {vs : List Node} {st st' : State Node Out} (seen : st.1 ⊆ st'.1) (out : st'.2 = st.2)
    (unknown : ∀ v ∈ st'.1, v ∉ st.1 → known v = none) : Emitted known vs st st' [] where
  seen := seen
  out := by rw [out, List.filterMap_nil, List.append_nil]
  distinct := List.nodup_nil
  mem_iff v := by
    refine iff_of_false List.not_mem_nil ?_
    rintro ⟨here, fresh, some_⟩
    rw [unknown v here fresh] at some_
    cases some_
  led v member := absurd member List.not_mem_nil
  ordered cut := absurd cut.symm (List.append_ne_nil_of_right_ne_nil _ (List.cons_ne_nil _ _))

omit [DecidableEq Node] in
theorem Emitted.append {vs ws : List Node} {st mid st' : State Node Out} {before after : List Node}
    (first : Emitted known vs st mid before) (second : Emitted known ws mid st' after) :
    Emitted known (vs ++ ws) st st' (before ++ after) where
  seen := List.Subset.trans first.seen second.seen
  out := by rw [second.out, first.out, List.filterMap_append, List.append_assoc]
  distinct := by
    refine List.nodup_append.mpr ⟨first.distinct, second.distinct, fun v early w late same => ?_⟩
    subst same
    exact ((second.mem_iff v).mp late).2.1 ((first.mem_iff v).mp early).1
  mem_iff v := by
    rw [List.mem_append, first.mem_iff, second.mem_iff]
    constructor
    · rintro (⟨here, fresh, some_⟩ | ⟨here, fresh, some_⟩)
      · exact ⟨second.seen here, fresh, some_⟩
      · exact ⟨here, fun old => fresh (first.seen old), some_⟩
    · rintro ⟨here, fresh, some_⟩
      by_cases early : v ∈ mid.1
      · exact .inl ⟨early, fresh, some_⟩
      · exact .inr ⟨here, early, some_⟩
  led v member := by
    rcases List.mem_append.mp member with early | late
    · obtain ⟨u, among, path⟩ := first.led v early
      exact ⟨u, List.mem_append_left ws among, path⟩
    · obtain ⟨u, among, path⟩ := second.led v late
      exact ⟨u, List.mem_append_right vs among, path⟩
  ordered {pre v post} cut w edge := by
    rcases List.append_eq_append_iff.mp cut with ⟨more, rfl, later⟩ | ⟨more, earlier, rest⟩
    · -- `v` is one of the later nodes.
      rcases second.ordered later edge with earlier | old | back
      · exact .inl (List.mem_append_right before earlier)
      · by_cases older : w ∈ st.1
        · exact .inr (.inl older)
        · obtain ⟨_, _, _, _, some_⟩ := edge
          exact .inl (List.mem_append_left more ((first.mem_iff w).mpr ⟨old, older, some_⟩))
      · exact .inr (.inr back)
    · cases more with
      | nil =>
        rw [List.append_nil] at earlier
        subst earlier
        have first_ : after = [] ++ v :: post := rest.symm
        rcases second.ordered first_ edge with earlier | old | back
        · exact absurd earlier List.not_mem_nil
        · by_cases older : w ∈ st.1
          · exact .inr (.inl older)
          · obtain ⟨_, _, _, _, some_⟩ := edge
            exact .inl ((first.mem_iff w).mpr ⟨old, older, some_⟩)
        · exact .inr (.inr back)
      | cons u more =>
        rw [List.cons_append, List.cons.injEq] at rest
        obtain ⟨rfl, -⟩ := rest
        exact first.ordered earlier edge

omit [DecidableEq Node] in
theorem known_of_path {u v : Node} (path : Relation.ReflTransGen (Edge known) u v) (some_ : (known v).isSome) :
    (known u).isSome := by
  rcases Relation.ReflTransGen.cases_head path with rfl | ⟨w, ⟨next, out, found, _⟩, _⟩
  · exact some_
  · rw [found]
    rfl

/-- A node is emitted behind what visiting its successors emits. -/
theorem Emitted.node {v : Node} {next nodes : List Node} {out : Out} {st mid : State Node Out} (fresh : v ∉ st.1)
    (found : known v = some (next, out)) (inner : Emitted known next (v :: st.1, st.2) mid nodes)
    (reached : next ⊆ mid.1) : Emitted known [v] st (mid.1, mid.2 ++ [out]) (nodes ++ [v]) where
  seen := List.Subset.trans (List.subset_cons_self v st.1) inner.seen
  out := by
    have one : [v].filterMap (outOf known) = [out] := by simp [outOf, found]
    rw [List.filterMap_append, one, ← List.append_assoc, inner.out]
  distinct := by
    refine List.nodup_append.mpr ⟨inner.distinct, List.nodup_singleton v, fun w early u last same => ?_⟩
    obtain rfl := List.mem_singleton.mp last
    subst same
    exact ((inner.mem_iff w).mp early).2.1 List.mem_cons_self
  mem_iff w := by
    rw [List.mem_append, List.mem_singleton, inner.mem_iff, List.mem_cons, not_or]
    constructor
    · rintro (⟨here, ⟨-, new⟩, some_⟩ | rfl)
      · exact ⟨here, new, some_⟩
      · exact ⟨inner.seen List.mem_cons_self, fresh, by simp [found]⟩
    · rintro ⟨here, new, some_⟩
      by_cases same : w = v
      · exact .inr same
      · exact .inl ⟨here, ⟨same, new⟩, some_⟩
  led w member := by
    refine ⟨v, List.mem_singleton_self v, ?_⟩
    rcases List.mem_append.mp member with early | last
    · obtain ⟨u, among, path⟩ := inner.led w early
      have some_ := known_of_path path ((inner.mem_iff w).mp early).2.2
      exact .head ⟨next, out, found, among, some_⟩ path
    · obtain rfl := List.mem_singleton.mp last
      exact .refl
  ordered {pre x post} cut w edge := by
    rcases List.eq_nil_or_concat post with rfl | ⟨post, z, rfl⟩
    · -- The node itself: all that it leads to was seen by then.
      obtain ⟨rfl, same⟩ := List.append_inj' cut rfl
      obtain rfl := (List.cons.inj same).1
      obtain ⟨next', out', found', among, some_⟩ := edge
      cases found.symm.trans found'
      by_cases older : w ∈ v :: st.1
      · rcases List.mem_cons.mp older with rfl | old
        · exact .inr (.inr .refl)
        · exact .inr (.inl old)
      · exact .inl ((inner.mem_iff w).mpr ⟨reached among, older, some_⟩)
    · have earlier : nodes ++ [v] = (pre ++ x :: post) ++ [z] := by simpa using cut
      obtain ⟨rfl, -⟩ := List.append_inj' earlier rfl
      rcases inner.ordered rfl edge with earlier | old | back
      · exact .inl earlier
      · rcases List.mem_cons.mp old with rfl | old
        · obtain ⟨u, among, path⟩ := inner.led x (List.mem_append_right pre List.mem_cons_self)
          have some_ := known_of_path path ((inner.mem_iff x).mp (List.mem_append_right pre List.mem_cons_self)).2.2
          exact .inr (.inr (.head ⟨next, out, found, among, some_⟩ path))
        · exact .inr (.inl old)
      · exact .inr (.inr back)

theorem Returns.emitted {st st' : State Node Out} {vs : List Node} (returns : Returns known st vs st') :
    ∃ nodes, Emitted known vs st st' nodes := by
  induction returns with
  | nil st => exact ⟨[], .none (List.Subset.refl _) rfl fun v here fresh => absurd here fresh⟩
  | @seen st _ v _ old _ ih =>
    obtain ⟨nodes, later⟩ := ih
    have here : Emitted known [v] st st [] :=
      .none (List.Subset.refl _) rfl fun w member new => absurd member new
    exact ⟨_, here.append later⟩
  | @unknown st _ v _ fresh none _ ih =>
    obtain ⟨nodes, later⟩ := ih
    have here : Emitted known [v] st (v :: st.1, st.2) [] := by
      refine .none (List.subset_cons_self v st.1) rfl fun w member new => ?_
      rcases List.mem_cons.mp member with rfl | old
      · exact none
      · exact absurd old new
    exact ⟨_, here.append later⟩
  | known fresh found inner _ within ih =>
    obtain ⟨nodes, within⟩ := within
    obtain ⟨rest, later⟩ := ih
    exact ⟨_, (within.node fresh found inner.reached).append later⟩

/-- Each known node is emitted once, behind the known nodes that it leads to, but for those on a cycle
with it. -/
theorem emitAll_order {nodes vs : List Node} (all : ∀ v, (known v).isSome → v ∈ nodes) (every : nodes ⊆ vs) :
    ∃ order : List Node, emitAll known nodes vs = order.filterMap (outOf known) ∧ order.Nodup ∧
      (∀ v, v ∈ order ↔ (known v).isSome) ∧
      ∀ {pre v post}, order = pre ++ v :: post → ∀ {w}, Edge known v w →
        w ∈ pre ∨ Relation.ReflTransGen (Edge known) w v := by
  obtain ⟨seen, returns⟩ := emitAll_returns all vs
  obtain ⟨order, emitted⟩ := returns.emitted
  refine ⟨order, emitted.out, emitted.distinct, fun v => ?_, fun cut w edge => ?_⟩
  · rw [emitted.mem_iff]
    exact ⟨fun held => held.2.2, fun some_ => ⟨returns.reached (every (all v some_)), List.not_mem_nil, some_⟩⟩
  · rcases emitted.ordered cut edge with earlier | old | back
    · exact .inl earlier
    · exact absurd old List.not_mem_nil
    · exact .inr back

theorem mem_emitAll_iff {nodes vs : List Node} (all : ∀ v, (known v).isSome → v ∈ nodes) (every : nodes ⊆ vs)
    (out : Out) : out ∈ emitAll known nodes vs ↔ ∃ v next, known v = some (next, out) := by
  obtain ⟨order, same, _, each, _⟩ := emitAll_order all every
  rw [same, List.mem_filterMap]
  constructor
  · rintro ⟨v, _, made⟩
    obtain ⟨⟨next, _⟩, found, rfl⟩ := Option.map_eq_some_iff.mp made
    exact ⟨v, next, found⟩
  · rintro ⟨v, next, found⟩
    exact ⟨v, (each v).mpr (by simp [found]), by simp [outOf, found]⟩

end PostOrder
