import Mathlib.Data.List.Induction
import Mathlib.Logic.Relation

/-!
# Labelled transition systems

Runs of a step relation, the induction principles over them and what is recorded along them. A condition on the steps
of a run is a condition on the relation: `Guarded step ok` allows the steps that meet `ok`.
-/

namespace Transition

variable {State Label : Type}

inductive Run (step : State → Label → State → Prop) : State → List Label → State → Prop where
  | nil (s : State) : Run step s [] s
  | cons {s t u : State} {l : Label} {ls : List Label} :
      step s l t → Run step t ls u → Run step s (l :: ls) u

variable {step : State → Label → State → Prop}

theorem Run.split {s t : State} {first second : List Label} (run : Run step s (first ++ second) t) :
    ∃ u, Run step s first u ∧ Run step u second t := by
  induction first generalizing s with
  | nil => exact ⟨s, .nil s, run⟩
  | cons l ls ih =>
    cases run with
    | cons taken rest =>
      obtain ⟨u, before, after⟩ := ih rest
      exact ⟨u, .cons taken before, after⟩

theorem Run.append {s t u : State} {first second : List Label} (run : Run step s first t)
    (rest : Run step t second u) : Run step s (first ++ second) u := by
  induction run with
  | nil => exact rest
  | cons taken _ ih => exact .cons taken (ih rest)

theorem Run.single {s t : State} {l : Label} (taken : step s l t) : Run step s [l] t :=
  .cons taken (.nil t)

theorem Run.unique (functional : ∀ s l t t', step s l t → step s l t' → t = t') {s t u : State}
    {ls : List Label} (first : Run step s ls t) (second : Run step s ls u) : t = u := by
  induction first with
  | nil => cases second; rfl
  | cons taken _ ih =>
    cases second with
    | cons taken' rest =>
      obtain rfl := functional _ _ _ _ taken taken'
      exact ih rest

/-- What holds at the start and survives every step holds at the end of every run. -/
theorem Run.invariant {P : State → Prop} (preserved : ∀ s l t, P s → step s l t → P t)
    {s t : State} {ls : List Label} (run : Run step s ls t) (start : P s) : P t := by
  induction run with
  | nil => exact start
  | cons taken _ ih => exact ih (preserved _ _ _ start taken)

/-- `Q` holds of every prefix exactly if every element meets `ok` behind what precedes it. `P` is the
invariant: it gives `Q`, and where it holds, `ok` can be read off the next `Q` and preserves `P`. -/
theorem along_prefixes_iff {P Q : List Label → Prop} {ok : List Label → Label → Prop} {ls : List Label}
    (gives : ∀ pre, P pre → Q pre) (needs : ∀ pre l, pre ++ [l] <+: ls → P pre → Q (pre ++ [l]) → ok pre l)
    (keeps : ∀ pre l, pre ++ [l] <+: ls → P pre → ok pre l → P (pre ++ [l])) (start : P []) :
    (∀ pre, pre <+: ls → Q pre) ↔ ∀ pre l, pre ++ [l] <+: ls → ok pre l := by
  have invariant (allowed : ∀ pre l, pre ++ [l] <+: ls → P pre → ok pre l) (pre : List Label) (within : pre <+: ls) :
      P pre := by
    induction pre using List.reverseRecOn with
    | nil => exact start
    | append_singleton pre l ih =>
      have earlier : P pre := ih ((List.prefix_append pre [l]).trans within)
      exact keeps pre l within earlier (allowed pre l within earlier)
  constructor
  · intro always pre l within
    have sound := invariant fun pre l within earlier => needs pre l within earlier (always _ within)
    exact needs pre l within (sound pre ((List.prefix_append pre [l]).trans within)) (always _ within)
  · intro allowed pre within
    exact gives pre (invariant (fun pre l within _ => allowed pre l within) pre within)

/-- Where a step keeps a predicate exactly if it meets a condition, the predicate holds along a run
exactly if every step of the run meets the condition. -/
theorem Run.along_iff {P : State → Prop} {ok : State → Label → Prop}
    (functional : ∀ s l t t', step s l t → step s l t' → t = t')
    (exact_ : ∀ s l t, P s → step s l t → (P t ↔ ok s l)) {s t : State} {ls : List Label}
    (run : Run step s ls t) (start : P s) :
    (∀ pre u, pre <+: ls → Run step s pre u → P u) ↔
      ∀ pre l u, pre ++ [l] <+: ls → Run step s pre u → ok u l := by
  have last (pre : List Label) (l : Label) (within : pre ++ [l] <+: ls) :
      ∃ u v, Run step s pre u ∧ step u l v ∧ Run step s (pre ++ [l]) v := by
    obtain ⟨post, rfl⟩ := within
    obtain ⟨v, through, _⟩ := run.split
    obtain ⟨u, before, last⟩ := through.split
    cases last with
    | cons taken stop =>
      cases stop
      exact ⟨u, v, before, taken, through⟩
  have along : (∀ pre, pre <+: ls → ∀ u, Run step s pre u → P u) ↔
      ∀ pre l, pre ++ [l] <+: ls → ∀ u, Run step s pre u → ok u l := by
    apply along_prefixes_iff (P := fun pre => ∀ u, Run step s pre u → P u) (fun _ holds => holds)
    · intro pre l within before after u reached
      obtain ⟨u', v, reached', taken, through⟩ := last pre l within
      obtain rfl := reached.unique functional reached'
      exact (exact_ u l v (before u reached) taken).mp (after v through)
    · intro pre l within before allowed v through
      obtain ⟨u, v', reached, taken, through'⟩ := last pre l within
      obtain rfl := through.unique functional through'
      exact (exact_ u l v (before u reached) taken).mpr (allowed u reached)
    · intro u stay
      cases stay
      exact start
  constructor
  · intro always pre l u within
    exact along.mp (fun pre within u => always pre u within) pre l within u
  · intro allowed pre u within
    exact along.mpr (fun pre l within u => allowed pre l u within) pre within u

/-- What holds of the empty run and survives every step holds of every run. `Q` is known of the steps. -/
theorem Run.history {P : List Label → State → Prop} {Q : List Label → State → Label → Prop} {s t : State}
    {ls : List Label} (run : Run step s ls t)
    (allowed : ∀ pre l u, pre ++ [l] <+: ls → Run step s pre u → Q pre u l)
    (preserved : ∀ pre u l v, Run step s pre u → P pre u → Q pre u l → step u l v → P (pre ++ [l]) v)
    (start : P [] s) : P ls t := by
  induction ls using List.reverseRecOn generalizing t with
  | nil => cases run; exact start
  | append_singleton pre l ih =>
    obtain ⟨u, before, last⟩ := run.split
    cases last with
    | cons taken stop =>
      cases stop
      have kept := ih before fun pre' l' v within =>
        allowed pre' l' v (within.trans (List.prefix_append pre [l]))
      exact preserved pre u l t before kept (allowed pre l u (List.prefix_refl _) before) taken

/-- One of the steps along `ls` meets `event`. -/
def Met (step : State → Label → State → Prop) (s : State) (event : State → Label → Prop)
    (ls : List Label) : Prop :=
  ∃ pre l u, pre ++ [l] <+: ls ∧ Run step s pre u ∧ event u l

theorem Met.mono {s : State} {event : State → Label → Prop} {first second : List Label}
    (met : Met step s event first) (within : first <+: second) : Met step s event second := by
  obtain ⟨pre, l, u, shorter, run, here⟩ := met
  exact ⟨pre, l, u, shorter.trans within, run, here⟩

theorem met_append_singleton (functional : ∀ s l t t', step s l t → step s l t' → t = t') {s u : State}
    {event : State → Label → Prop} {ls : List Label} {l : Label} (run : Run step s ls u) :
    Met step s event (ls ++ [l]) ↔ Met step s event ls ∨ event u l := by
  constructor
  · rintro ⟨pre, l', u', within, before, here⟩
    rcases List.prefix_concat_iff.mp within with whole | shorter
    · obtain ⟨rfl, same⟩ := List.append_inj' whole rfl
      obtain rfl := List.singleton_inj.mp same
      obtain rfl := before.unique functional run
      exact .inr here
    · exact .inl ⟨pre, l', u', shorter, before, here⟩
  · rintro (earlier | here)
    · exact earlier.mono (List.prefix_append ls [l])
    · exact ⟨ls, l, u, List.prefix_refl _, run, here⟩

/-! ### Records -/

/-- What `record` says of each step along `ls`, in order. -/
def trace {Record : Type} (next : State → Label → Option State) (record : State → Label → List Record) (s : State) :
    List Label → List Record
  | [] => []
  | l :: ls => record s l ++
    match next s l with
    | some t => trace next record t ls
    | none => []

theorem trace_snoc {Record : Type} {next : State → Label → Option State} {record : State → Label → List Record}
    {s u v : State} {ls : List Label} {l : Label} (run : Run (fun s l t => next s l = some t) s ls u)
    (taken : next u l = some v) : trace next record s (ls ++ [l]) = trace next record s ls ++ record u l := by
  induction run with
  | nil s => simp [trace, taken]
  | cons first _ ih => simp only [List.cons_append, trace, first, ih taken, List.append_assoc]

/-! ### Steps without labels -/

/-- A state with `P` can be reached by steps of `move`. -/
def Reaches (move : State → State → Prop) (P : State → Prop) (s : State) : Prop :=
  ∃ t, Relation.ReflTransGen move s t ∧ P t

theorem Reaches.here {move : State → State → Prop} {P : State → Prop} {s : State} (holds : P s) :
    Reaches move P s :=
  ⟨s, .refl, holds⟩

theorem reaches_iff_of_only {move : State → State → Prop} {P : State → Prop} {s t : State} (taken : move s t)
    (only : ∀ u, move s u → u = t) (before : ¬P s) : Reaches move P s ↔ Reaches move P t := by
  constructor
  · rintro ⟨u, path, holds⟩
    rcases path.cases_head with rfl | ⟨v, first, rest⟩
    · exact absurd holds before
    · obtain rfl := only v first
      exact ⟨u, rest, holds⟩
  · rintro ⟨u, path, holds⟩
    exact ⟨u, .head taken path, holds⟩

theorem not_reaches_of_stuck {move : State → State → Prop} {P : State → Prop} {s : State}
    (stuck : ∀ u, ¬move s u) (before : ¬P s) : ¬Reaches move P s := by
  rintro ⟨u, path, holds⟩
  rcases path.cases_head with rfl | ⟨v, first, _⟩
  · exact before holds
  · exact stuck v first

def Guarded (step : State → Label → State → Prop) (ok : State → Label → Prop) :
    State → Label → State → Prop :=
  fun s l t => step s l t ∧ ok s l

end Transition
