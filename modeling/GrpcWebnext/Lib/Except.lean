/-!
# Fallible computations

What a computation that returned has run through.
-/

namespace Except

variable {ε ε' α β : Type}

theorem bind_ok_iff {x : Except ε α} {f : α → Except ε β} {b : β} : x >>= f = .ok b ↔ ∃ a, x = .ok a ∧ f a = .ok b := by
  cases x with
  | error e => exact iff_of_false nofun (by rintro ⟨_, ⟨⟩, _⟩)
  | ok a =>
    constructor
    · intro done
      exact ⟨a, rfl, done⟩
    · rintro ⟨_, ⟨⟩, done⟩
      exact done

theorem bind_ok {x : Except ε α} {f : α → Except ε β} {b : β} (done : x >>= f = .ok b) :
    ∃ a, x = .ok a ∧ f a = .ok b := bind_ok_iff.mp done

theorem mapError_ok {x : Except ε α} {f : ε → ε'} {a : α} (done : x.mapError f = .ok a) : x = .ok a := by
  cases x with
  | error e => cases done
  | ok a' => exact congrArg Except.ok (Except.ok.inj done)

end Except

/-- What a computation comes to that may wait for ever: then there is none. -/
abbrev Awaited (ε α : Type) : Type := Option (Except ε α)

namespace Awaited

variable {ε α β : Type}

def andThen (x : Awaited ε α) (f : α → Awaited ε β) : Awaited ε β :=
  match x with
  | none => none
  | some (.error e) => some (.error e)
  | some (.ok a) => f a

theorem andThen_ok_iff {x : Awaited ε α} {f : α → Awaited ε β} {b : β} :
    x.andThen f = some (.ok b) ↔ ∃ a, x = some (.ok a) ∧ f a = some (.ok b) := by
  rcases x with _ | e | a
  · exact iff_of_false nofun (by rintro ⟨_, ⟨⟩, _⟩)
  · exact iff_of_false nofun (by rintro ⟨_, ⟨⟩, _⟩)
  · constructor
    · intro done
      exact ⟨a, rfl, done⟩
    · rintro ⟨_, ⟨⟩, done⟩
      exact done

theorem andThen_ok {x : Awaited ε α} {f : α → Awaited ε β} {b : β} (done : x.andThen f = some (.ok b)) :
    ∃ a, x = some (.ok a) ∧ f a = some (.ok b) := andThen_ok_iff.mp done

theorem mapM_mem {f : α → Option β} {l : List α} {out : List β} (done : l.mapM f = some out) :
    (∀ b ∈ out, ∃ a ∈ l, f a = some b) ∧ ∀ a ∈ l, ∃ b ∈ out, f a = some b := by
  induction l generalizing out with
  | nil =>
    cases done
    exact ⟨nofun, nofun⟩
  | cons a l ih =>
    rw [List.mapM_cons] at done
    obtain ⟨b, here, done⟩ := Option.bind_eq_some_iff.mp done
    obtain ⟨rest, later, made⟩ := Option.bind_eq_some_iff.mp done
    cases made
    obtain ⟨back, forth⟩ := ih later
    constructor
    · refine List.forall_mem_cons.mpr ⟨⟨a, List.mem_cons_self, here⟩, fun c member => ?_⟩
      obtain ⟨a', inside, same⟩ := back c member
      exact ⟨a', List.mem_cons_of_mem a inside, same⟩
    · refine List.forall_mem_cons.mpr ⟨⟨b, List.mem_cons_self, here⟩, fun a' member => ?_⟩
      obtain ⟨c, inside, same⟩ := forth a' member
      exact ⟨c, List.mem_cons_of_mem b inside, same⟩

end Awaited
