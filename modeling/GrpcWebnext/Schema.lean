import GrpcWebnext.Lib.Transition
import GrpcWebnext.Transcode

/-!
# Descriptor snapshots

`Schema` and its reflection state. Any number of loads run at once, the refresh loop's and the
operators', and each swaps its result in when it is done.
-/

namespace GrpcWebnext
namespace Schema

/-! ### What readers get -/

section Readers

variable [ProstReflect]

inductive Inner where
  | none
  | bundled (tc : Transcoder)
  | reflection
  | reflectionOrBundled (bundle : Transcoder)

/-- `transcoder_any`, with the snapshot as it is when the wait for a first one is over. -/
def transcoderAny (inner : Inner) (current : Option Transcoder) : Except Status Transcoder :=
  match inner with
  | .none => .error ⟨.unimplemented, "no +json transcoder configured (pass a transcoder in-process, or enable upstream reflection / bundle a descriptor set on the proxy)"⟩
  | .bundled tc => .ok tc
  | .reflection =>
    match current with
    | some tc => .ok tc
    | Option.none => .error ⟨.unavailable, "descriptors not yet loaded from upstream reflection"⟩
  | .reflectionOrBundled bundle => .ok (current.getD bundle)

def transcoder (inner : Inner) (current : Option Transcoder) (methodPath : String) :
    Except Status Transcoder := do
  let tc ← transcoderAny inner current
  if tc.hasMethod methodPath then pure tc
  else .error ⟨.unimplemented, s!"no descriptor for method {methodPath}"⟩

theorem transcoder_knows {inner : Inner} {current : Option Transcoder} {methodPath : String}
    {tc : Transcoder}
    (resolved : transcoder inner current methodPath = .ok tc) : tc.hasMethod methodPath = true := by
  unfold transcoder at resolved
  cases any : transcoderAny inner current with
  | error e => simp [any, bind, Except.bind] at resolved
  | ok tc' =>
    simp only [any, bind, Except.bind] at resolved
    split at resolved
    · cases resolved
      assumption
    · cases resolved

end Readers

/-! ### Loads -/

variable {Snapshot : Type}

/-- Loads in the order they started, `none` while one is reading; the snapshot in the watch
channel with the load it came from; and the load that the refresh loop waits for. -/
structure Loads (Snapshot : Type) where
  loads : List (Option (Except Status Snapshot)) := []
  current : Option (Nat × Snapshot) := none
  refreshing : Option Nat := none

/-- `load_and_swap`, when the enumeration of load `i` is over: a timeout is an error too. -/
def loadAndSwap (current : Option (Nat × Snapshot)) (i : Nat) (outcome : Except Status Snapshot) :
    Option (Nat × Snapshot) × Except Status Unit :=
  match outcome with
  | .ok tc => (some (i, tc), .ok ())
  | .error e => (current, .error e)

inductive Label (Snapshot : Type) where
  | refresh
  | reload
  | finish (i : Nat) (outcome : Except Status Snapshot)

/-- The refresh loop starts one load after another, operators start theirs at any time. -/
inductive Step : Loads Snapshot → Label Snapshot → Loads Snapshot → Prop where
  | refresh (s : Loads Snapshot) : s.refreshing = none →
      Step s .refresh { s with loads := s.loads ++ [none], refreshing := some s.loads.length }
  | reload (s : Loads Snapshot) : Step s .reload { s with loads := s.loads ++ [none] }
  | finish (s : Loads Snapshot) (i : Nat) (outcome : Except Status Snapshot) : s.loads[i]? = some none →
      Step s (.finish i outcome)
        { loads := s.loads.set i (some outcome)
          current := (loadAndSwap s.current i outcome).1
          refreshing := if s.refreshing = some i then none else s.refreshing }

theorem step_functional (s : Loads Snapshot) (l : Label Snapshot) (t t' : Loads Snapshot)
    (first : Step s l t) (second : Step s l t') : t = t' := by
  cases first <;> cases second <;> rfl

def Loads.landed (s : Loads Snapshot) (i : Nat) (tc : Snapshot) : Prop :=
  s.loads[i]? = some (some (.ok tc))

/-- The visible snapshot is that of the successful load that started last. -/
def Latest (s : Loads Snapshot) : Prop :=
  ∀ i tc, s.current = some (i, tc) ↔ s.landed i tc ∧ ∀ j tc', s.landed j tc' → j ≤ i

/-- No success lands when a load that started later has landed. -/
def InOrder (s : Loads Snapshot) : Label Snapshot → Prop
  | .finish i (.ok _) => ∀ j tc', s.landed j tc' → j < i
  | _ => True

theorem landed_start (s : Loads Snapshot) (i : Nat) (tc : Snapshot) :
    (s.loads ++ [none])[i]? = some (some (.ok tc)) ↔ s.landed i tc := by
  unfold Loads.landed
  rw [List.getElem?_append]
  split
  · rfl
  · rename_i beyond
    rw [List.getElem?_eq_none (Nat.le_of_not_lt beyond)]
    cases i - s.loads.length <;> simp

theorem landed_finish {s : Loads Snapshot} {i : Nat} (running : s.loads[i]? = some none)
    (outcome : Except Status Snapshot) (j : Nat) (tc : Snapshot) :
    (s.loads.set i (some outcome))[j]? = some (some (.ok tc)) ↔
      j = i ∧ outcome = .ok tc ∨ s.landed j tc := by
  unfold Loads.landed
  have within : i < s.loads.length := (List.getElem?_eq_some_iff.mp running).1
  by_cases same : j = i
  · subst same
    rw [List.getElem?_set_self within, running]
    simp
  · simp [List.getElem?_set_ne (Ne.symm same), same]

theorem running_not_landed {s : Loads Snapshot} {i : Nat} (running : s.loads[i]? = some none)
    (tc : Snapshot) :
    ¬s.landed i tc := by
  unfold Loads.landed
  simp [running]

theorem step_latest_iff (s : Loads Snapshot) (l : Label Snapshot) (t : Loads Snapshot)
    (latest : Latest s) (taken : Step s l t) : Latest t ↔ InOrder s l := by
  cases taken with
  | refresh | reload =>
    simp only [InOrder, iff_true]
    unfold Latest Loads.landed
    simp only [landed_start]
    exact latest
  | finish i outcome running =>
    cases outcome with
    | error e =>
      simp only [InOrder, iff_true]
      unfold Latest Loads.landed
      simp only [landed_finish running, reduceCtorEq, and_false, false_or]
      exact latest
    | ok tc =>
      unfold Latest Loads.landed InOrder
      simp only [landed_finish running, loadAndSwap, Option.some.injEq, Prod.mk.injEq, Except.ok.injEq]
      constructor
      · intro swapped j tc' landed
        have bound := ((swapped i tc).mp ⟨rfl, rfl⟩).2 j tc' (.inr landed)
        have other : j ≠ i := by
          rintro rfl
          exact running_not_landed running tc' landed
        omega
      · intro ordered j tc'
        constructor
        · rintro ⟨rfl, rfl⟩
          refine ⟨.inl ⟨rfl, rfl⟩, ?_⟩
          rintro k tc'' (⟨rfl, _⟩ | landed)
          · exact Nat.le_refl _
          · exact Nat.le_of_lt (ordered k tc'' landed)
        · rintro ⟨⟨rfl, rfl⟩ | landed, last⟩
          · exact ⟨rfl, rfl⟩
          · have := last i tc (.inl ⟨rfl, rfl⟩)
            have := ordered j tc' landed
            omega

theorem initial_latest : Latest ({} : Loads Snapshot) := by
  intro i tc
  simp [Loads.landed]

/-- Along a run, readers always see the latest snapshot, and failed loads leave it alone. -/
def NeverBackwards (ls : List (Label Snapshot)) : Prop :=
  (∀ pre s, pre <+: ls → Transition.Run Step {} pre s → Latest s) ∧
    ∀ pre i e s t, pre ++ [.finish i (.error e)] <+: ls → Transition.Run Step {} pre s →
      Step s (.finish i (.error e)) t → t.current = s.current

/-- Snapshots never go backwards exactly in the runs in which no success lands after one that
started later. -/
theorem snapshots_latest_iff {ls : List (Label Snapshot)} {t : Loads Snapshot}
    (run : Transition.Run Step {} ls t) :
    NeverBackwards ls ↔ ∀ pre l s, pre ++ [l] <+: ls → Transition.Run Step {} pre s → InOrder s l := by
  rw [← run.along_iff step_functional step_latest_iff initial_latest]
  apply and_iff_left
  intro pre i e s t _ _ taken
  cases taken
  rfl

theorem snapshots_latest_reload :
    NeverBackwards [.refresh, .finish 0 (.ok 1)] ↔
      ∀ pre l s, pre ++ [l] <+: [.refresh, .finish 0 (.ok 1)] → Transition.Run Step {} pre s →
        InOrder s l :=
  snapshots_latest_iff (t := { loads := [some (.ok 1)], current := some (0, 1) })
    (.cons (.refresh {} rfl) (.cons (.finish { loads := [none], refreshing := some 0 } 0 (.ok 1) rfl) (.nil _)))

/-- A refresh that began before an operator's reload lands behind it: its snapshot comes back. -/
theorem reload_lost :
    ¬NeverBackwards ([.refresh, .reload, .finish 1 (.ok 2), .finish 0 (.ok 1)] : List (Label Nat)) := by
  intro never
  obtain ⟨latest, _⟩ := never
  have run : Transition.Run Step ({} : Loads Nat) [.refresh, .reload, .finish 1 (.ok 2), .finish 0 (.ok 1)]
      { loads := [some (.ok 1), some (.ok 2)], current := some (0, 1) } :=
    .cons (.refresh _ rfl) (.cons (.reload _) (.cons (.finish _ 1 (.ok 2) rfl) (.cons (.finish _ 0 (.ok 1) rfl) (.nil _))))
  have newer := ((latest _ _ List.prefix_rfl run 0 1).mp rfl).2 1 2 rfl
  exact absurd newer (by decide)

end Schema
end GrpcWebnext
