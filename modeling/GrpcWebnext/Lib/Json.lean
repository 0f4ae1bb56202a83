import Mathlib.Data.List.Lex

/-!
# JSON

JSON values by their trees, over any type of numbers. Numbers are what readers of JSON differ in, so
a reader or a writer is a tree with its numbers replaced, and one that can fail has a limit on how
deep it goes. A tree has the members of an object as its text has them. What they mean is `canonical`:
the last member of a name, in the order of the names.
-/

namespace Json

/-- A code point of a string, or an escaped surrogate without a partner. -/
inductive CodePoint where
  | scalar (c : Char)
  | surrogate (unit : UInt16)
  deriving DecidableEq

abbrev Text := List CodePoint

def Text.ofString (s : String) : Text := s.toList.map .scalar

def CodePoint.toChar : CodePoint → Option Char
  | .scalar c => some c
  | .surrogate _ => none

/-- The string, unless a surrogate stands alone. -/
def Text.toString (t : Text) : Option String := (t.mapM CodePoint.toChar).map String.ofList

@[simp] theorem Text.toString_ofString (s : String) : (ofString s).toString = some s := by
  have chars : ∀ cs : List Char, (cs.map CodePoint.scalar).mapM CodePoint.toChar = some cs := by
    intro cs
    induction cs with
    | nil => rfl
    | cons c cs ih =>
      rw [List.map_cons, List.mapM_cons, ih]
      rfl
  rw [Text.toString, ofString, chars, Option.map_some, String.ofList_toList]

theorem Text.ofString_inj {s t : String} : ofString s = ofString t ↔ s = t := by
  refine ⟨fun same => ?_, fun same => same ▸ rfl⟩
  have back : (ofString s).toString = (ofString t).toString := by rw [same]
  simpa using back

/-- Names are ordered by their code points. -/
def CodePoint.rank : CodePoint → ℕ
  | .scalar c => 2 * c.toNat
  | .surrogate unit => 2 * unit.toNat + 1

theorem CodePoint.rank_injective : Function.Injective CodePoint.rank := by
  intro a b same
  cases a <;> cases b <;> simp only [rank] at same
  · rw [Char.toNat_inj.mp (Nat.eq_of_mul_eq_mul_left Nat.two_pos same)]
  · omega
  · omega
  · rename_i u v
    have units : u.toNat = v.toNat := by omega
    rw [UInt16.toNat_inj.mp units]

def Text.rank (t : Text) : List ℕ := t.map CodePoint.rank

theorem Text.rank_lt {s t : Text} (different : s ≠ t) (before : ¬s.rank < t.rank) : t.rank < s.rank := by
  have apart : s.rank ≠ t.rank := fun same => different (List.map_injective_iff.mpr CodePoint.rank_injective same)
  exact lt_of_le_of_ne (not_lt.mp before) apart.symm

/-- The values, and the contents of arrays and of objects. -/
inductive Part where
  | value | items | members

/-- A value or a part of one, with numbers in `N`. -/
inductive Tree (N : Type) : Part → Type where
  | null : Tree N .value
  | bool (b : Bool) : Tree N .value
  | num (n : N) : Tree N .value
  | str (s : Text) : Tree N .value
  | arr (items : Tree N .items) : Tree N .value
  | obj (members : Tree N .members) : Tree N .value
  | nil : Tree N .items
  | cons (head : Tree N .value) (tail : Tree N .items) : Tree N .items
  | empty : Tree N .members
  | member (key : Text) (value : Tree N .value) (rest : Tree N .members) : Tree N .members
  deriving DecidableEq

abbrev Value (N : Type) := Tree N .value

namespace Tree

variable {L M N : Type} {p : Part}

/-! ### Members -/

def ofMembers : List (Text × Value N) → Tree N .members
  | [] => .empty
  | (key, value) :: rest => .member key value (ofMembers rest)

def toMembers : ∀ {p : Part}, Tree N p → List (Text × Value N)
  | _, .member key value rest => (key, value) :: rest.toMembers
  | _, _ => []

def toItems : ∀ {p : Part}, Tree N p → List (Value N)
  | _, .cons head tail => head :: tail.toItems
  | _, _ => []

@[simp] theorem toMembers_ofMembers (l : List (Text × Value N)) : (ofMembers l).toMembers = l := by
  induction l with
  | nil => rfl
  | cons m l ih => simp [ofMembers, toMembers, ih]

def keys (t : Tree N p) : List Text := t.toMembers.map Prod.fst

/-! ### Canonical trees -/

/-- A member with a new name, before the first name that is greater. -/
def insert (key : Text) (value : Value N) : ∀ {p : Part}, Tree N p → Tree N p
  | _, .empty => .member key value .empty
  | _, .member k v rest =>
    if key.rank < k.rank then .member key value (.member k v rest) else .member k v (insert key value rest)
  | _, t => t

def canonical : ∀ {p : Part}, Tree N p → Tree N p
  | _, .null => .null
  | _, .bool b => .bool b
  | _, .num n => .num n
  | _, .str s => .str s
  | _, .arr items => .arr items.canonical
  | _, .obj members => .obj members.canonical
  | _, .nil => .nil
  | _, .cons head tail => .cons head.canonical tail.canonical
  | _, .empty => .empty
  | _, .member key value rest =>
    if key ∈ rest.keys then rest.canonical else insert key value.canonical rest.canonical

def Ordered : ∀ {p : Part}, Tree N p → Prop
  | _, .arr items => items.Ordered
  | _, .obj members => members.Ordered
  | _, .cons head tail => head.Ordered ∧ tail.Ordered
  | _, .member key value rest => (∀ k ∈ rest.keys, key.rank < k.rank) ∧ value.Ordered ∧ rest.Ordered
  | _, _ => True

theorem toMembers_insert (key : Text) (value : Value N) (t : Tree N .members) :
    (insert key value t).toMembers.Perm ((key, value) :: t.toMembers) := by
  cases t with
  | empty => exact .refl _
  | member k v rest =>
    unfold insert
    split
    · exact .refl _
    · exact ((toMembers_insert key value rest).cons (k, v)).trans (.swap _ _ _)

theorem mem_keys_insert {key : Text} {value : Value N} {t : Tree N .members} {k : Text} :
    k ∈ (insert key value t).keys ↔ k = key ∨ k ∈ t.keys := by
  have perm := ((toMembers_insert key value t).map Prod.fst).mem_iff (a := k)
  rw [keys, perm, List.map_cons, List.mem_cons]
  rfl

theorem mem_keys_canonical {t : Tree N p} {k : Text} : k ∈ t.canonical.keys ↔ k ∈ t.keys := by
  induction t with
  | member key value rest _ ih =>
    have all : k ∈ (Tree.member key value rest).keys ↔ k = key ∨ k ∈ rest.keys := List.mem_cons
    unfold canonical
    split
    · rename_i again
      rw [ih, all]
      exact ⟨.inr, fun here => here.elim (fun same => same ▸ again) id⟩
    · rw [mem_keys_insert, ih, all]
  | _ => exact .rfl

theorem insert_ordered {key : Text} {value : Value N} {t : Tree N .members} (fresh : key ∉ t.keys)
    (value_ordered : value.Ordered) (ordered : t.Ordered) : (insert key value t).Ordered := by
  cases t with
  | empty => exact ⟨nofun, value_ordered, trivial⟩
  | member k v rest =>
    obtain ⟨above, ordered⟩ := ordered
    obtain ⟨other, fresh⟩ := not_or.mp (fun here => fresh (List.mem_cons.mpr here))
    unfold insert
    split
    · rename_i before
      refine ⟨?_, value_ordered, above, ordered⟩
      intro name member
      rcases List.mem_cons.mp member with rfl | member
      · exact before
      · exact lt_trans before (above name member)
    · rename_i before
      refine ⟨?_, ordered.1, insert_ordered fresh value_ordered ordered.2⟩
      intro name member
      rcases mem_keys_insert.mp member with rfl | member
      · exact Text.rank_lt other before
      · exact above name member

theorem canonical_ordered (t : Tree N p) : t.canonical.Ordered := by
  induction t with
  | cons head tail ihead itail => exact ⟨ihead, itail⟩
  | arr items ih => exact ih
  | obj members ih => exact ih
  | member key value rest ivalue irest =>
    unfold canonical
    split
    · exact irest
    · rename_i fresh
      exact insert_ordered (fun member => fresh (mem_keys_canonical.mp member)) ivalue irest
  | _ => trivial

theorem canonical_of_ordered {t : Tree N p} (ordered : t.Ordered) : t.canonical = t := by
  induction t with
  | arr items ih => exact congrArg _ (ih ordered)
  | obj members ih => exact congrArg _ (ih ordered)
  | cons head tail ihead itail => rw [canonical, ihead ordered.1, itail ordered.2]
  | member key value rest ivalue irest =>
    obtain ⟨above, value_ordered, rest_ordered⟩ := ordered
    have fresh : key ∉ rest.keys := fun member => lt_irrefl _ (above key member)
    rw [canonical, if_neg fresh, ivalue value_ordered, irest rest_ordered]
    cases rest with
    | empty => rfl
    | member k v rest => rw [insert, if_pos (above k List.mem_cons_self)]
  | _ => rfl

@[simp] theorem canonical_canonical (t : Tree N p) : t.canonical.canonical = t.canonical :=
  canonical_of_ordered (canonical_ordered t)

theorem canonical_ofMembers {l : List (Text × Value N)} (distinct : (l.map Prod.fst).Nodup) :
    (ofMembers l).canonical.toMembers.Perm (l.map fun m => (m.1, m.2.canonical)) := by
  induction l with
  | nil => exact .refl _
  | cons m l ih =>
    obtain ⟨fresh, distinct⟩ := List.nodup_cons.mp distinct
    have absent : m.1 ∉ (ofMembers l).keys := by rwa [keys, toMembers_ofMembers]
    rw [ofMembers, canonical, if_neg absent]
    exact (toMembers_insert _ _ _).trans ((ih distinct).cons _)

/-! ### Numbers -/

def bind (f : N → Value M) : ∀ {p : Part}, Tree N p → Tree M p
  | _, .null => .null
  | _, .bool b => .bool b
  | _, .num n => f n
  | _, .str s => .str s
  | _, .arr items => .arr (items.bind f)
  | _, .obj members => .obj (members.bind f)
  | _, .nil => .nil
  | _, .cons head tail => .cons (head.bind f) (tail.bind f)
  | _, .empty => .empty
  | _, .member key value rest => .member key (value.bind f) (rest.bind f)

theorem bind_bind (f : N → Value M) (g : M → Value L) (t : Tree N p) :
    (t.bind f).bind g = t.bind fun n => (f n).bind g := by
  induction t <;> simp_all [bind]

def Scalar : Value N → Prop
  | .null => True
  | .num _ => True
  | _ => False

def Numbers (P : N → Prop) : ∀ {p : Part}, Tree N p → Prop
  | _, .num n => P n
  | _, .arr items => items.Numbers P
  | _, .obj members => members.Numbers P
  | _, .cons head tail => head.Numbers P ∧ tail.Numbers P
  | _, .member _ value rest => value.Numbers P ∧ rest.Numbers P
  | _, _ => True

theorem Numbers.imp {P Q : N → Prop} (weaker : ∀ n, P n → Q n) {t : Tree N p} (all : t.Numbers P) : t.Numbers Q := by
  induction t with
  | num n => exact weaker n all
  | arr items ih => exact ih all
  | obj members ih => exact ih all
  | cons head tail ihead itail => exact ⟨ihead all.1, itail all.2⟩
  | member key value rest ivalue irest => exact ⟨ivalue all.1, irest all.2⟩
  | _ => trivial

theorem Numbers.and {P Q : N → Prop} {t : Tree N p} (left : t.Numbers P) (right : t.Numbers Q) :
    t.Numbers fun n => P n ∧ Q n := by
  induction t with
  | num n => exact ⟨left, right⟩
  | arr items ih => exact ih left right
  | obj members ih => exact ih left right
  | cons head tail ihead itail => exact ⟨ihead left.1 right.1, itail left.2 right.2⟩
  | member key value rest ivalue irest => exact ⟨ivalue left.1 right.1, irest left.2 right.2⟩
  | _ => trivial

theorem numbers_insert {P : N → Prop} {key : Text} {value : Value N} {t : Tree N .members}
    (here : value.Numbers P) (all : t.Numbers P) : (insert key value t).Numbers P := by
  cases t with
  | empty => exact ⟨here, trivial⟩
  | member k v rest =>
    unfold insert
    split
    · exact ⟨here, all⟩
    · exact ⟨all.1, numbers_insert here all.2⟩

theorem Numbers.canonical {P : N → Prop} {t : Tree N p} (all : t.Numbers P) : t.canonical.Numbers P := by
  induction t with
  | arr items ih => exact ih all
  | obj members ih => exact ih all
  | cons head tail ihead itail => exact ⟨ihead all.1, itail all.2⟩
  | member key value rest ivalue irest =>
    unfold Tree.canonical
    split
    · exact irest all.2
    · exact numbers_insert (ivalue all.1) (irest all.2)
  | _ => exact all

theorem bind_eq_bind_iff {f g : N → Value M} {t : Tree N p} : t.bind f = t.bind g ↔ t.Numbers fun n => f n = g n := by
  induction t <;> simp_all [bind, Numbers]

theorem toMembers_value (t : Value N) : t.toMembers = [] := by
  cases t <;> rfl

theorem toMembers_bind (f : N → Value M) (t : Tree N p) :
    (t.bind f).toMembers = t.toMembers.map fun m => (m.1, m.2.bind f) := by
  induction t with
  | num n => rw [bind, toMembers_value, toMembers_value, List.map_nil]
  | member key value rest _ ih => exact congrArg (_ :: ·) ih
  | _ => rfl

theorem keys_bind (f : N → Value M) (t : Tree N p) : (t.bind f).keys = t.keys := by
  rw [keys, toMembers_bind, List.map_map]
  rfl

theorem insert_bind (f : N → Value M) (key : Text) (value : Value N) (t : Tree N .members) :
    (insert key value t).bind f = insert key (value.bind f) (t.bind f) := by
  cases t with
  | empty => rfl
  | member k v rest =>
    simp only [insert, bind]
    split
    · rfl
    · rw [bind, insert_bind]

theorem canonical_bind {f : N → Value M} (scalar : ∀ n, (f n).Scalar) (t : Tree N p) :
    (t.bind f).canonical = t.canonical.bind f := by
  induction t with
  | num n =>
    have kept := scalar n
    cases held : f n <;> simp_all [bind, canonical, Scalar]
  | member key value rest ivalue irest =>
    simp only [bind, canonical, keys_bind]
    split
    · exact irest
    · rw [insert_bind, ivalue, irest]
  | _ => simp_all [bind, canonical]

/-! ### Readers -/

/-- A reader that goes `limit` deep, a container one deeper than its contents: every number is
replaced, if it can be, and no string may hold a lone surrogate. -/
def rewrite (f : N → Option (Value M)) : Nat → ∀ {p : Part}, Tree N p → Option (Tree M p)
  | _, _, .null => some .null
  | _, _, .bool b => some (.bool b)
  | _, _, .num n => f n
  | _, _, .str s => if s.toString.isSome then some (.str s) else none
  | limit, _, .arr items => if 1 < limit then (items.rewrite f (limit - 1)).map .arr else none
  | limit, _, .obj members => if 1 < limit then (members.rewrite f (limit - 1)).map .obj else none
  | _, _, .nil => some .nil
  | limit, _, .cons head tail =>
    (head.rewrite f limit).bind fun head' => (tail.rewrite f limit).map fun tail' => .cons head' tail'
  | _, _, .empty => some .empty
  | limit, _, .member key value rest =>
    if key.toString.isSome then
      (value.rewrite f limit).bind fun value' => (rest.rewrite f limit).map fun rest' => .member key value' rest'
    else none

/-- Fewer containers in each other than `limit`, and no lone surrogate. -/
def Within : Nat → ∀ {p : Part}, Tree N p → Prop
  | _, _, .str s => s.toString.isSome
  | limit, _, .arr items => 1 < limit ∧ items.Within (limit - 1)
  | limit, _, .obj members => 1 < limit ∧ members.Within (limit - 1)
  | limit, _, .cons head tail => head.Within limit ∧ tail.Within limit
  | limit, _, .member key value rest => key.toString.isSome ∧ value.Within limit ∧ rest.Within limit
  | _, _, _ => True

theorem rewrite_scalar {f : N → Option (Value M)} {t : Value N} (scalar : t.Scalar) (limit limit' : Nat) :
    t.rewrite f limit = t.rewrite f limit' := by
  cases t <;> first | rfl | cases scalar

theorem rewrite_bind {f : N → Value M} (scalar : ∀ n, (f n).Scalar) (g : M → Option (Value L)) (limit : Nat)
    (t : Tree N p) : (t.bind f).rewrite g limit = t.rewrite (fun n => (f n).rewrite g 1) limit := by
  induction t generalizing limit with
  | num n => exact rewrite_scalar (scalar n) limit 1
  | _ => simp_all [bind, rewrite]

theorem rewrite_eq_some_iff {f : N → Option (Value M)} (limit : Nat) {t : Tree N p} {t' : Tree M p} :
    t.rewrite f limit = some t' ↔
      t.Within limit ∧ t.Numbers (fun n => (f n).isSome) ∧ t' = t.bind fun n => (f n).getD .null := by
  induction t generalizing limit with
  | null | bool | nil | empty => simp [rewrite, Within, Numbers, bind, @eq_comm _ t']
  | num n => cases held : f n <;> simp [rewrite, Within, Numbers, bind, held, @eq_comm _ t']
  | str s => simp [rewrite, Within, Numbers, bind, @eq_comm _ t']
  | arr items ih =>
    simp only [rewrite, Within, Numbers, bind, Option.ite_none_right_eq_some, Option.map_eq_some_iff, ih]
    constructor
    · rintro ⟨deep, _, ⟨w, n, rfl⟩, rfl⟩
      exact ⟨⟨deep, w⟩, n, rfl⟩
    · rintro ⟨⟨deep, w⟩, n, rfl⟩
      exact ⟨deep, _, ⟨w, n, rfl⟩, rfl⟩
  | obj members ih =>
    simp only [rewrite, Within, Numbers, bind, Option.ite_none_right_eq_some, Option.map_eq_some_iff, ih]
    constructor
    · rintro ⟨deep, _, ⟨w, n, rfl⟩, rfl⟩
      exact ⟨⟨deep, w⟩, n, rfl⟩
    · rintro ⟨⟨deep, w⟩, n, rfl⟩
      exact ⟨deep, _, ⟨w, n, rfl⟩, rfl⟩
  | cons head tail ihead itail =>
    simp only [rewrite, Within, Numbers, bind, Option.bind_eq_some_iff, Option.map_eq_some_iff, ihead, itail]
    constructor
    · rintro ⟨_, ⟨w, n, rfl⟩, _, ⟨w', n', rfl⟩, rfl⟩
      exact ⟨⟨w, w'⟩, ⟨n, n'⟩, rfl⟩
    · rintro ⟨⟨w, w'⟩, ⟨n, n'⟩, rfl⟩
      exact ⟨_, ⟨w, n, rfl⟩, _, ⟨w', n', rfl⟩, rfl⟩
  | member key value rest ivalue irest =>
    simp only [rewrite, Within, Numbers, bind, Option.ite_none_right_eq_some, Option.bind_eq_some_iff,
      Option.map_eq_some_iff, ivalue, irest]
    constructor
    · rintro ⟨k, _, ⟨w, n, rfl⟩, _, ⟨w', n', rfl⟩, rfl⟩
      exact ⟨⟨k, w, w'⟩, ⟨n, n'⟩, rfl⟩
    · rintro ⟨⟨k, w, w'⟩, ⟨n, n'⟩, rfl⟩
      exact ⟨k, _, ⟨w, n, rfl⟩, _, ⟨w', n', rfl⟩, rfl⟩

/-- What is read and written again is the same value exactly if it can be read, and each number that
counts stays. -/
theorem reread_iff {f : N → Option (Value M)} {g : M → Value L} {h : N → Value L}
    (scalar : ∀ n, ((f n).getD .null).Scalar) (limit : Nat) (t : Tree N p) :
    (t.rewrite f limit).map (fun t' => t'.canonical.bind g) = some (t.canonical.bind h) ↔
      t.Within limit ∧ t.Numbers (fun n => (f n).isSome) ∧
        t.canonical.Numbers fun n => (f n).map (bind g) = some (h n) := by
  simp only [Option.map_eq_some_iff, rewrite_eq_some_iff]
  constructor
  · rintro ⟨_, ⟨within, readable, rfl⟩, same⟩
    rw [canonical_bind scalar, bind_bind, bind_eq_bind_iff] at same
    refine ⟨within, readable, (readable.canonical.and same).imp ?_⟩
    rintro n ⟨readable, same⟩
    obtain ⟨v, held⟩ := Option.isSome_iff_exists.mp readable
    simpa [held] using same
  · rintro ⟨within, readable, same⟩
    refine ⟨_, ⟨within, readable, rfl⟩, ?_⟩
    rw [canonical_bind scalar, bind_bind, bind_eq_bind_iff]
    refine same.imp fun n same => ?_
    obtain ⟨v, held, same⟩ := same
    simpa [held] using same

end Tree
end Json
