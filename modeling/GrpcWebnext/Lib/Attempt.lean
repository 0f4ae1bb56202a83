/-!
# Attempts

Computations that change a state and may throw: what was done before the throw stays done. A handler
that reports the outcome of a computation and reports its failure, too, may report twice.
-/

namespace Attempt

variable {σ ε α β : Type}

def exec (x : ExceptT ε (StateM σ) α) (s : σ) : Except ε α × σ := StateT.run (ExceptT.run x) s

theorem exec_pure (a : α) (s : σ) : exec (ε := ε) (pure a) s = (.ok a, s) := rfl

theorem exec_modify (f : σ → σ) (s : σ) : exec (ε := ε) (modify f) s = (.ok (), f s) := rfl

theorem exec_get (s : σ) : exec (ε := ε) get s = (.ok s, s) := rfl

theorem exec_bind (x : ExceptT ε (StateM σ) α) (f : α → ExceptT ε (StateM σ) β) (s : σ) :
    exec (x >>= f) s =
      match exec x s with
      | (.ok a, t) => exec (f a) t
      | (.error e, t) => (.error e, t) := by
  show StateT.run (ExceptT.run x >>= ExceptT.bindCont f) s = _
  rw [StateT.run_bind]
  show (match exec x s with | (r, t) => StateT.run (ExceptT.bindCont f r) t) = _
  obtain ⟨r, t⟩ := exec x s
  cases r <;> rfl

theorem exec_bind_ok {x : ExceptT ε (StateM σ) α} {f : α → ExceptT ε (StateM σ) β} {s u : σ} {b : β}
    (done : exec (x >>= f) s = (.ok b, u)) : ∃ a t, exec x s = (.ok a, t) ∧ exec (f a) t = (.ok b, u) := by
  rw [exec_bind] at done
  cases first : exec x s with
  | mk r t =>
    rw [first] at done
    cases r with
    | error e => cases done
    | ok a => exact ⟨a, t, rfl, done⟩

theorem exec_tryCatch (x : ExceptT ε (StateM σ) α) (handle : ε → ExceptT ε (StateM σ) α) (s : σ) :
    exec (tryCatch x handle) s =
      match exec x s with
      | (.ok a, t) => (.ok a, t)
      | (.error e, t) => exec (handle e) t := by
  unfold exec
  simp only [tryCatch, tryCatchThe, MonadExceptOf.tryCatch, ExceptT.tryCatch, ExceptT.run, ExceptT.mk, StateT.run_bind]
  generalize StateT.run x s = result
  obtain ⟨r, t⟩ := result
  cases r <;> rfl

/-! ### What an attempt leaves alone -/

/-- Whether it returns or throws, `x` leaves what `view` shows. -/
def Keeps (view : σ → β) (x : ExceptT ε (StateM σ) α) : Prop :=
  ∀ s, view (exec x s).2 = view s

section

variable {view : σ → β} {γ : Type}

theorem Keeps.pure (a : α) : Keeps view (pure a : ExceptT ε (StateM σ) α) := fun _ => rfl

theorem Keeps.throw (e : ε) : Keeps view (throw e : ExceptT ε (StateM σ) α) := fun _ => rfl

theorem Keeps.modify {f : σ → σ} (same : ∀ s, view (f s) = view s) :
    Keeps view (modify f : ExceptT ε (StateM σ) PUnit) := same

theorem Keeps.bind {x : ExceptT ε (StateM σ) α} {f : α → ExceptT ε (StateM σ) γ} (first : Keeps view x)
    (rest : ∀ a, Keeps view (f a)) : Keeps view (x >>= f) := by
  intro s
  have before := first s
  rw [exec_bind]
  cases done : exec x s with
  | mk r t =>
    rw [done] at before
    cases r with
    | error e => exact before
    | ok a => exact (rest a t).trans before

theorem Keeps.forM {l : List α} {f : α → ExceptT ε (StateM σ) PUnit} (each : ∀ a ∈ l, Keeps view (f a)) :
    Keeps view (l.forM f) := by
  induction l with
  | nil => exact .pure _
  | cons a l ih =>
    show Keeps view (f a >>= fun _ => l.forM f)
    exact (each a List.mem_cons_self).bind fun _ => ih fun b later => each b (List.mem_cons_of_mem a later)

end

/-! ### Reports -/

section

variable (prepare : ExceptT ε (StateM σ) (Option α)) (report : α → ExceptT ε (StateM σ) Unit) (failure : ε → σ → α)

/-- The report of what `prepare` came to, inside the `try` whose `catch` reports a failure. -/
def reporting : ExceptT ε (StateM σ) Unit :=
  tryCatch
    (do
      match ← prepare with
      | some a => report a
      | none => pure ())
    fun e => do report (failure e (← get))

/-- What is reported, and in which state. -/
def reports (s : σ) : List (α × σ) :=
  match exec prepare s with
  | (.ok none, _) => []
  | (.error e, t) => [(failure e t, t)]
  | (.ok (some a), t) =>
    match exec (report a) t with
    | (.ok _, _) => [(a, t)]
    | (.error e, u) => [(a, t), (failure e u, u)]

/-- What is reported was prepared, or is a failure. -/
theorem mem_reports {s t : σ} {a : α} (reported : (a, t) ∈ reports prepare report failure s) :
    exec prepare s = (.ok (some a), t) ∨ ∃ e, a = failure e t := by
  unfold reports at reported
  cases done : exec prepare s with
  | mk r u =>
    rw [done] at reported
    rcases r with e | _ | b
    · cases List.mem_singleton.mp reported
      exact .inr ⟨e, rfl⟩
    · cases reported
    · cases told : exec (report b) u with
      | mk r v =>
        simp only [told] at reported
        cases r with
        | ok _ =>
          cases List.mem_singleton.mp reported
          exact .inl rfl
        | error e =>
          rcases List.mem_cons.mp reported with first | later
          · cases first
            exact .inl rfl
          · cases List.mem_singleton.mp later
            exact .inr ⟨e, rfl⟩

/-- The view grows by one block for each report. -/
theorem view_reporting {view : σ → List β} {block : α → σ → List β} (quiet : Keeps view prepare)
    (adds : ∀ a t, view (exec (report a) t).2 = view t ++ block a t) (s : σ) :
    view (exec (reporting prepare report failure) s).2 =
      view s ++ (reports prepare report failure s).flatMap fun r => block r.1 r.2 := by
  have same := quiet s
  rw [reporting, exec_tryCatch, exec_bind, reports]
  cases done : exec prepare s with
  | mk r t =>
    rw [done] at same
    rcases r with e | _ | a
    · simp only [exec_bind, exec_get]
      rw [adds, same]
      simp
    · simp only [exec_pure]
      simpa using same
    · have first := adds a t
      simp only
      cases told : exec (report a) t with
      | mk r u =>
        rw [told] at first
        cases r with
        | ok _ => simpa [same] using first
        | error e =>
          simp only [exec_bind, exec_get]
          rw [adds, first, same]
          simp

/-- There is one report at most exactly if the report of what was prepared does not throw. -/
theorem reports_length_le_one_iff (s : σ) :
    (reports prepare report failure s).length ≤ 1 ↔
      ∀ a t, exec prepare s = (.ok (some a), t) → (exec (report a) t).1 = .ok () := by
  unfold reports
  cases done : exec prepare s with
  | mk r t =>
    rcases r with e | _ | a
    · simp
    · simp
    · cases told : exec (report a) t with
      | mk r u =>
        simp only [told]
        cases r with
        | ok _ =>
          refine iff_of_true (Nat.le_refl 1) ?_
          rintro _ _ ⟨⟩
          rw [told]
        | error e =>
          refine iff_of_false (by simp) fun returns => ?_
          have result := returns a t rfl
          rw [told] at result
          cases result

/-- Where each report adds one entry to the view, it grows by one at most exactly if the report of what
was prepared does not throw. -/
theorem view_once_iff {view : σ → List β} {entry : α → σ → β} (quiet : Keeps view prepare)
    (adds : ∀ a t, view (exec (report a) t).2 = view t ++ [entry a t]) (s : σ) :
    (view (exec (reporting prepare report failure) s).2).length ≤ (view s).length + 1 ↔
      ∀ a t, exec prepare s = (.ok (some a), t) → (exec (report a) t).1 = .ok () := by
  rw [view_reporting prepare report failure quiet adds, ← reports_length_le_one_iff prepare report failure,
    List.length_append, ← List.map_eq_flatMap, List.length_map]
  exact Nat.add_le_add_iff_left

end

end Attempt
