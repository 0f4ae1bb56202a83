import Mathlib.Data.List.Induction

/-!
# Records with oneofs

Records as Protocol Buffers have them: a field may hold a record again, a field with presence is
there or not, and at most one member of a oneof is there. A path of field names leads through nested
records to a field. The main results say what a write along one path does to what another leads to.
-/

structure Records (Schema Field Record Value : Type) where
  schema : Record → Schema
  field : Schema → String → Option Field
  /-- the schema of the records that a field holds -/
  nested : Field → Option Schema
  sameOneof : Field → Field → Bool
  presence : Field → Bool
  has : Record → Field → Bool
  get : Record → Field → Value
  set : Record → Field → Value → Record
  default : Field → Value
  record? : Value → Option Record
  ofRecord : Record → Value
  fits : Field → Value → Prop

namespace Records

variable {Schema Field Record Value : Type} (R : Records Schema Field Record Value)

def Owns (r : Record) (f : Field) : Prop := ∃ name, R.field (R.schema r) name = some f

/-- Setting a field clears the other members of its oneof and touches nothing else. -/
structure Lawful : Prop where
  field_inj : ∀ {S a b f}, R.field S a = some f → R.field S b = some f → a = b
  nested_get : ∀ {r f s}, R.Owns r f → R.record? (R.get r f) = some s → R.nested f = some (R.schema s)
  nested_presence : ∀ {r f s}, R.Owns r f → R.record? (R.get r f) = some s → R.presence f = true
  oneof_presence : ∀ {f g}, f ≠ g → R.sameOneof f g = true → R.presence f = true
  record_ofRecord : ∀ s, R.record? (R.ofRecord s) = some s
  fits_record : ∀ {r f s t}, R.Owns r f → R.record? (R.get r f) = some s → R.schema t = R.schema s →
    R.fits f (R.ofRecord t)
  schema_set : ∀ {r f v}, R.Owns r f → R.schema (R.set r f v) = R.schema r
  get_set : ∀ {r f v}, R.Owns r f → R.fits f v → R.get (R.set r f v) f = v
  has_set : ∀ {r f v}, R.Owns r f → R.fits f v → R.presence f = true → R.has (R.set r f v) f = true
  other : ∀ {r f g v}, R.Owns r f → R.Owns r g → f ≠ g → R.sameOneof f g = false →
    R.get (R.set r g v) f = R.get r f ∧ R.has (R.set r g v) f = R.has r f
  cleared : ∀ {r f g v}, R.Owns r f → R.Owns r g → f ≠ g → R.sameOneof f g = true →
    R.has (R.set r g v) f = false
  absent : ∀ {r f}, R.Owns r f → R.has r f = false → R.get r f = R.default f
  blank : ∀ {f s g}, R.record? (R.default f) = some s → R.Owns s g → R.has s g = false

/-! ### Paths -/

/-- The field that a path leads to, through fields that hold records. -/
def leaf : Schema → List String → Option Field
  | _, [] => none
  | S, [a] => R.field S a
  | S, a :: b :: p => ((R.field S a).bind R.nested).bind fun S => leaf S (b :: p)

/-- What a record has at a path; nothing where a record on the way or a field with presence is absent. -/
def valueAt : Record → List String → Option Value
  | _, [] => none
  | r, [a] => (R.field (R.schema r) a).bind fun f =>
    if R.presence f && !R.has r f then none else some (R.get r f)
  | r, a :: b :: p => (R.field (R.schema r) a).bind fun f =>
    if R.has r f then (R.record? (R.get r f)).bind fun s => valueAt s (b :: p) else none

/-- Where the second path leaves the first one, it goes to another member of the same oneof. -/
def clashes : Schema → List String → List String → Bool
  | S, a :: p, b :: q =>
    if a = b then ((R.field S a).bind R.nested).any fun S => clashes S p q
    else ((R.field S a).bind fun f => (R.field S b).map fun g => R.sameOneof f g).getD false
  | _, _, _ => false

/-- A value that is no record is put at the end of a path; the records on the way are made. -/
inductive Writes : Record → List String → Value → Record → Prop where
  | here {r : Record} {a : String} {f : Field} {v : Value} :
      R.field (R.schema r) a = some f → R.nested f = none → Writes r [a] v (R.set r f v)
  | inside {r s t : Record} {a : String} {p : List String} {f : Field} {v : Value} :
      R.field (R.schema r) a = some f → R.record? (R.get r f) = some s → Writes s p v t →
      Writes r (a :: p) v (R.set r f (R.ofRecord t))

/-- What is at the path `p` of the field `f` behind a write along `q`. -/
def after (S : Schema) (f : Field) (p : List String) (held : Option Value) (q : List String) : Option Value :=
  if R.clashes S p q then none
  else if held.isNone && p.dropLast.isPrefixOf q && !R.presence f then some (R.default f)
  else held

variable {R}

theorem valueAt_congr {r r' : Record} (schema : R.schema r' = R.schema r)
    (same : ∀ f, R.Owns r f → R.get r' f = R.get r f ∧ R.has r' f = R.has r f) (p : List String) :
    R.valueAt r' p = R.valueAt r p := by
  match p with
  | [] => rfl
  | [a] | a :: b :: p =>
    rw [valueAt, valueAt, schema]
    cases found : R.field (R.schema r) a with
    | none => rfl
    | some f =>
      obtain ⟨get, has⟩ := same f ⟨a, found⟩
      rw [Option.bind_some, Option.bind_some, get, has]

/-! ### A write -/

theorem Writes.schema (laws : R.Lawful) {r r' : Record} {p : List String} {v : Value} (written : R.Writes r p v r') :
    R.schema r' = R.schema r := by
  cases written with
  | here found _ => exact laws.schema_set ⟨_, found⟩
  | inside found _ _ => exact laws.schema_set ⟨_, found⟩

theorem Writes.nonempty {r r' : Record} {p : List String} {v : Value} (written : R.Writes r p v r') :
    ∃ a q, p = a :: q := by
  cases written with
  | here => exact ⟨_, _, rfl⟩
  | inside => exact ⟨_, _, rfl⟩

/-- Behind a write the path leads to what was written. -/
theorem valueAt_write (laws : R.Lawful) {r r' : Record} {p : List String} {v : Value} {f : Field}
    (written : R.Writes r p v r') (target : R.leaf (R.schema r) p = some f) (fits : R.fits f v) :
    R.valueAt r' p = some v := by
  induction written with
  | @here r a g v found _ =>
    obtain rfl : g = f := Option.some.inj (found.symm.trans target)
    have own : R.Owns r g := ⟨a, found⟩
    rw [valueAt, laws.schema_set own, found, Option.bind_some, laws.get_set own fits]
    cases present : R.presence g with
    | false => simp
    | true => simp [laws.has_set own fits present]
  | @inside r s t a p g v found held inner ih =>
    have own : R.Owns r g := ⟨a, found⟩
    have fit : R.fits g (R.ofRecord t) := laws.fits_record own held (inner.schema laws)
    have there := laws.has_set own fit (laws.nested_presence own held)
    obtain ⟨b, q, rfl⟩ := inner.nonempty
    rw [leaf, found, Option.bind_some, laws.nested_get own held, Option.bind_some] at target
    rw [valueAt, laws.schema_set own, found, Option.bind_some, if_pos there, laws.get_set own fit,
      laws.record_ofRecord, Option.bind_some]
    exact ih target fits

/-- A set of another field, seen from a path. -/
theorem valueAt_set (laws : R.Lawful) {r : Record} {a : String} {f g : Field}
    (found : R.field (R.schema r) a = some f) (own : R.Owns r g) (different : f ≠ g) (p : List String) (v : Value) :
    R.valueAt (R.set r g v) (a :: p) = if R.sameOneof f g then none else R.valueAt r (a :: p) := by
  have ownf : R.Owns r f := ⟨a, found⟩
  cases same : R.sameOneof f g with
  | true =>
    have gone := laws.cleared (v := v) ownf own different same
    have present := laws.oneof_presence different same
    cases p with
    | nil => simp [valueAt, laws.schema_set own, found, gone, present]
    | cons b p => simp [valueAt, laws.schema_set own, found, gone]
  | false =>
    obtain ⟨get, has⟩ := laws.other (v := v) ownf own different same
    cases p with
    | nil => simp [valueAt, laws.schema_set own, found, get, has]
    | cons b p => simp [valueAt, laws.schema_set own, found, get, has]

/-- A path leads to the default of its field in a record without fields, or nowhere. -/
theorem valueAt_blank (laws : R.Lawful) {g f : Field} {s : Record} (blank : R.record? (R.default g) = some s)
    {p : List String} (target : R.leaf (R.schema s) p = some f) :
    R.valueAt s p = if p.length = 1 ∧ R.presence f = false then some (R.default f) else none := by
  match p, target with
  | [a], target =>
    have own : R.Owns s f := ⟨a, target⟩
    have missing := laws.blank blank own
    change R.field (R.schema s) a = some f at target
    rw [valueAt, target, Option.bind_some, missing, laws.absent own missing]
    cases R.presence f <;> simp
  | a :: b :: p, target =>
    obtain ⟨_, ahead, _⟩ := Option.bind_eq_some_iff.mp target
    obtain ⟨h, found, _⟩ := Option.bind_eq_some_iff.mp ahead
    simp [valueAt, found, laws.blank blank ⟨a, found⟩]

theorem presence_of_missing {r : Record} {a : String} {f : Field} (found : R.field (R.schema r) a = some f)
    (missing : R.valueAt r [a] = none) : R.presence f = true := by
  rw [valueAt, found, Option.bind_some] at missing
  split at missing
  · rename_i present
    exact (Bool.and_eq_true_iff.mp present).1
  · cases missing

/-- A write that leaves the path at its first field. -/
theorem after_apart {r : Record} {a b : String} {f g leaf : Field} (found : R.field (R.schema r) a = some f)
    (other : R.field (R.schema r) b = some g) (different : a ≠ b) {p : List String}
    (target : R.leaf (R.schema r) (a :: p) = some leaf) (q : List String) :
    R.after (R.schema r) leaf (a :: p) (R.valueAt r (a :: p)) (b :: q) =
      if R.sameOneof f g then none else R.valueAt r (a :: p) := by
  have clash : R.clashes (R.schema r) (a :: p) (b :: q) = R.sameOneof f g := by
    simp [clashes, different, found, other]
  unfold after
  rw [clash]
  split
  · rfl
  · apply if_neg
    intro entered
    simp only [Bool.and_eq_true, Option.isNone_iff_eq_none, Bool.not_eq_true'] at entered
    obtain ⟨⟨missing, along⟩, absent⟩ := entered
    cases p with
    | nil =>
      have present := presence_of_missing found missing
      obtain rfl : f = leaf := Option.some.inj (found.symm.trans target)
      exact Bool.false_ne_true (absent.symm.trans present)
    | cons c p => simp [different] at along

/-- A write that stays on the path at its first field. -/
theorem after_inside (laws : R.Lawful) {r s : Record} {a b : String} {f leaf : Field} {p : List String}
    (found : R.field (R.schema r) a = some f) (held : R.record? (R.get r f) = some s)
    (target : R.leaf (R.schema s) (b :: p) = some leaf) (q : List String) :
    R.after (R.schema r) leaf (a :: b :: p) (R.valueAt r (a :: b :: p)) (a :: q) =
      R.after (R.schema s) leaf (b :: p) (R.valueAt s (b :: p)) q := by
  have own : R.Owns r f := ⟨a, found⟩
  have clash : R.clashes (R.schema r) (a :: b :: p) (a :: q) = R.clashes (R.schema s) (b :: p) q := by
    simp [clashes, found, laws.nested_get own held]
  have along : (a :: b :: p).dropLast.isPrefixOf (a :: q) = (b :: p).dropLast.isPrefixOf q := by simp
  have here : R.valueAt r (a :: b :: p) = if R.has r f then R.valueAt s (b :: p) else none := by
    rw [valueAt, found, Option.bind_some, held, Option.bind_some]
  unfold after
  rw [clash, along, here]
  cases there : R.has r f with
  | true => rfl
  | false =>
    -- The record was absent: the path led nowhere, and now leads into one that is blank.
    rw [laws.absent own there] at held
    rw [valueAt_blank laws held target]
    by_cases direct : (b :: p).length = 1 ∧ R.presence leaf = false
    · obtain ⟨single, absent⟩ := direct
      obtain rfl : p = [] := by simpa using single
      simp [absent]
    · rw [if_neg direct]
      rfl

theorem leaf_head {S : Schema} {a : String} {p : List String} {f : Field} (target : R.leaf S (a :: p) = some f) :
    ∃ g, R.field S a = some g := by
  cases p with
  | nil => exact ⟨f, target⟩
  | cons b p =>
    obtain ⟨_, ahead, _⟩ := Option.bind_eq_some_iff.mp target
    obtain ⟨g, found, _⟩ := Option.bind_eq_some_iff.mp ahead
    exact ⟨g, found⟩

theorem valueAt_set_apart (laws : R.Lawful) {r : Record} {a b : String} {f g : Field} {p : List String}
    (target : R.leaf (R.schema r) (a :: p) = some f) (found : R.field (R.schema r) b = some g) (different : a ≠ b)
    (v : Value) (q : List String) :
    R.valueAt (R.set r g v) (a :: p) = R.after (R.schema r) f (a :: p) (R.valueAt r (a :: p)) (b :: q) := by
  obtain ⟨h, ahead⟩ := leaf_head target
  have apart : h ≠ g := by
    rintro rfl
    exact different (laws.field_inj ahead found)
  rw [valueAt_set laws ahead ⟨b, found⟩ apart, after_apart ahead found different target]

theorem valueAt_write_other (laws : R.Lawful) {r r' : Record} {p q : List String} {v : Value} {f : Field}
    (written : R.Writes r q v r') (target : R.leaf (R.schema r) p = some f) (plain : R.nested f = none)
    (different : q ≠ p) : R.valueAt r' p = R.after (R.schema r) f p (R.valueAt r p) q := by
  induction written generalizing p with
  | @here r b g v found scalar =>
    match p, target with
    | a :: p, target =>
      by_cases same : a = b
      · subst same
        cases p with
        | nil => exact absurd rfl different
        | cons c p => simp [leaf, found, scalar] at target
      · exact valueAt_set_apart laws target found same v []
  | @inside r s t b q g v found held inner ih =>
    have own : R.Owns r g := ⟨b, found⟩
    have nested := laws.nested_get own held
    match p, target with
    | [a], target =>
      by_cases same : a = b
      · subst same
        obtain rfl : g = f := Option.some.inj (found.symm.trans target)
        cases plain.symm.trans nested
      · exact valueAt_set_apart laws target found same _ q
    | a :: c :: p, target =>
      by_cases same : a = b
      · subst same
        have fit : R.fits g (R.ofRecord t) := laws.fits_record own held (inner.schema laws)
        have there := laws.has_set own fit (laws.nested_presence own held)
        rw [leaf, found, Option.bind_some, nested, Option.bind_some] at target
        rw [after_inside laws found held target, valueAt, laws.schema_set own, found, Option.bind_some, if_pos there,
          laws.get_set own fit, laws.record_ofRecord, Option.bind_some]
        apply ih target
        rintro rfl
        exact different rfl
      · exact valueAt_set_apart laws target found same _ q

/-! ### Writes, one after the other -/

/-- A value `v` at the path of `f` outlives writes along the other paths `qs`: none of them takes
another member of a oneof on the path, or the last that does is followed by one that makes the
record of `f` again, where `f` has the value by default. -/
def Survives (R : Records Schema Field Record Value) (S : Schema) (f : Field) (p : List String) (v : Value)
    (qs : List (List String)) : Prop :=
  (∀ q ∈ qs, R.clashes S p q = false) ∨
    R.presence f = false ∧ R.default f = v ∧
      ∃ before q later, qs = before ++ q :: later ∧ p.dropLast <+: q ∧
        ∀ u ∈ q :: later, R.clashes S p u = false

theorem survives_snoc (S : Schema) (f : Field) (p : List String) (v : Value) (qs : List (List String))
    (q : List String) :
    R.Survives S f p v (qs ++ [q]) ↔ R.clashes S p q = false ∧
      (R.Survives S f p v qs ∨ R.presence f = false ∧ R.default f = v ∧ p.dropLast <+: q) := by
  constructor
  · rintro (none_ | ⟨absent, same, before, u, later, split, along, kept⟩)
    · exact ⟨none_ q (by simp), .inl (.inl fun u member => none_ u (by simp [member]))⟩
    · rcases List.eq_nil_or_concat later with rfl | ⟨later, last, rfl⟩
      · obtain ⟨rfl, single⟩ := List.append_inj' split rfl
        obtain rfl := List.singleton_inj.mp single
        exact ⟨kept q (by simp), .inr ⟨absent, same, along⟩⟩
      · rw [List.concat_eq_append, ← List.cons_append, ← List.append_assoc] at split
        obtain ⟨rfl, single⟩ := List.append_inj' split rfl
        obtain rfl := List.singleton_inj.mp single
        refine ⟨kept q (by simp), .inl (.inr ⟨absent, same, before, u, later, rfl, along, fun w member => ?_⟩)⟩
        apply kept w
        rw [List.concat_eq_append, ← List.cons_append]
        exact List.mem_append_left _ member
  · rintro ⟨here, (none_ | ⟨absent, same, before, u, later, rfl, along, kept⟩) | ⟨absent, same, along⟩⟩
    · refine .inl fun u member => ?_
      rcases List.mem_append.mp member with earlier | last
      · exact none_ u earlier
      · obtain rfl := List.mem_singleton.mp last
        exact here
    · refine .inr ⟨absent, same, before, u, later ++ [q], by simp, along, fun w member => ?_⟩
      rw [← List.cons_append] at member
      rcases List.mem_append.mp member with earlier | last
      · exact kept w earlier
      · obtain rfl := List.mem_singleton.mp last
        exact here
    · exact .inr ⟨absent, same, qs, q, [], rfl, along, fun w member => List.mem_singleton.mp member ▸ here⟩

/-- Writes leave the value, the default of a field without presence, or nothing. -/
theorem after_foldl_cases (S : Schema) (f : Field) (p : List String) (v : Value) (qs : List (List String)) :
    qs.foldl (R.after S f p) (some v) = none ∨ qs.foldl (R.after S f p) (some v) = some v ∨
      qs.foldl (R.after S f p) (some v) = some (R.default f) := by
  induction qs using List.reverseRecOn with
  | nil => exact .inr (.inl rfl)
  | append_singleton qs q ih =>
    rw [List.foldl_append, List.foldl_cons, List.foldl_nil]
    unfold after
    split
    · exact .inl rfl
    · split
      · exact .inr (.inr rfl)
      · exact ih

theorem after_foldl_iff (S : Schema) (f : Field) (p : List String) (v : Value) (qs : List (List String)) :
    qs.foldl (R.after S f p) (some v) = some v ↔ R.Survives S f p v qs := by
  induction qs using List.reverseRecOn with
  | nil => simp [Survives]
  | append_singleton qs q ih =>
    have held := after_foldl_cases (R := R) S f p v qs
    rw [survives_snoc, ← ih, List.foldl_append, List.foldl_cons, List.foldl_nil]
    generalize qs.foldl (R.after S f p) (some v) = value at held ⊢
    unfold after
    cases clash : R.clashes S p q with
    | true => simp
    | false =>
      rw [if_neg Bool.false_ne_true, ← List.isPrefixOf_iff_prefix]
      rcases held with rfl | rfl | rfl
      · cases R.presence f <;> cases p.dropLast.isPrefixOf q <;> simp
      · simp
      · simp only [Option.isNone_some, Bool.false_and, Bool.false_eq_true, if_false, Option.some.injEq, true_and]
        exact ⟨.inl, fun kept => kept.elim id fun made => made.2.1⟩

end Records
