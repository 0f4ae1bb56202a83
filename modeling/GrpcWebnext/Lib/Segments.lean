import Mathlib.Algebra.GroupWithZero.Nat
import Mathlib.Data.List.DropRight

/-!
# Separated texts

A text is cut at a separator. `segments` are the pieces that are not empty; joined again they give
back the text exactly if no piece was empty.
-/

namespace Segments

variable {α : Type} [BEq α] [LawfulBEq α]

/-- The pieces between the separators, without the empty ones. -/
def segments (sep : α) (text : List α) : List (List α) := (text.splitOn sep).filter fun s => !s.isEmpty

omit [LawfulBEq α] in
@[simp] theorem segments_nil (sep : α) : segments sep [] = [] := rfl

theorem segments_append_sep (sep : α) (text rest : List α) :
    segments sep (text ++ sep :: rest) = segments sep text ++ segments sep rest := by
  rw [segments, List.splitOn_append_cons_self, List.filter_append]
  rfl

theorem segments_piece {sep : α} {piece : List α} (free : sep ∉ piece) (full : piece ≠ []) :
    segments sep piece = [piece] := by
  rw [segments, List.splitOn_eq_singleton free]
  simp [full]

theorem segments_dropWhile (sep : α) (text : List α) :
    segments sep (text.dropWhile (· == sep)) = segments sep text := by
  induction text with
  | nil => rfl
  | cons c text ih =>
    rw [List.dropWhile_cons]
    split
    · rename_i same
      obtain rfl := eq_of_beq same
      exact ih.trans (segments_append_sep c [] text).symm
    · rfl

theorem segments_rdropWhile (sep : α) (text : List α) :
    segments sep (text.rdropWhile (· == sep)) = segments sep text := by
  induction text using List.reverseRecOn with
  | nil => rfl
  | append_singleton text c ih =>
    rw [List.rdropWhile_concat]
    split
    · rename_i same
      obtain rfl := eq_of_beq same
      rw [ih, segments_append_sep, segments_nil, List.append_nil]
    · rfl

theorem not_mem_piece {sep : α} {text piece : List α} (member : piece ∈ text.splitOn sep) : sep ∉ piece := by
  induction text generalizing piece with
  | nil =>
    obtain rfl := List.mem_singleton.mp member
    exact List.not_mem_nil
  | cons c text ih =>
    rw [List.splitOn_cons_eq_if_modifyHead] at member
    split at member
    · rcases List.mem_cons.mp member with rfl | member
      · exact List.not_mem_nil
      · exact ih member
    · rename_i other
      cases split : text.splitOn sep with
      | nil => exact absurd split (List.splitOn_ne_nil sep text)
      | cons p pieces =>
        rw [split] at member ih
        rcases List.mem_cons.mp member with rfl | member
        · rw [List.mem_cons, not_or]
          exact ⟨fun same => other (beq_iff_eq.mpr same.symm), ih List.mem_cons_self⟩
        · exact ih (List.mem_cons_of_mem p member)

theorem mem_segments {sep : α} {text piece : List α} (member : piece ∈ segments sep text) :
    sep ∉ piece ∧ piece ≠ [] := by
  obtain ⟨inside, full⟩ := List.mem_filter.mp member
  refine ⟨not_mem_piece inside, ?_⟩
  rintro rfl
  cases full

/-! ### Joining -/

theorem segments_intercalate (sep : α) (pieces : List (List α)) :
    segments sep ([sep].intercalate pieces) = pieces.flatMap (segments sep) := by
  induction pieces with
  | nil => rfl
  | cons p pieces ih =>
    cases pieces with
    | nil => simp
    | cons q pieces =>
      rw [List.intercalate_cons_cons, List.append_assoc, List.singleton_append, segments_append_sep, ih]
      rfl

omit [BEq α] [LawfulBEq α] in
theorem length_intercalate (sep : α) (pieces : List (List α)) :
    ([sep].intercalate pieces).length + 1 = (pieces.map fun p => p.length + 1).sum + if pieces = [] then 1 else 0 := by
  induction pieces with
  | nil => rfl
  | cons p pieces ih =>
    cases pieces with
    | nil => simp
    | cons q pieces =>
      rw [List.intercalate_cons_cons, List.map_cons, List.sum_cons]
      simp only [List.length_append, List.length_singleton, reduceCtorEq, ↓reduceIte] at ih ⊢
      omega

omit [BEq α] [LawfulBEq α] in
theorem sum_filter_lt {pieces : List (List α)} (empty : [] ∈ pieces) :
    ((pieces.filter fun s => !s.isEmpty).map fun p => p.length + 1).sum < (pieces.map fun p => p.length + 1).sum := by
  have le : ∀ pieces : List (List α),
      ((pieces.filter fun s => !s.isEmpty).map fun p => p.length + 1).sum ≤ (pieces.map fun p => p.length + 1).sum := by
    intro pieces
    induction pieces with
    | nil => exact Nat.le_refl _
    | cons p pieces ih => cases p <;> simp at ih ⊢ <;> omega
  induction pieces with
  | nil => cases empty
  | cons p pieces ih =>
    cases p with
    | nil =>
      have rest := le pieces
      simp at rest ⊢
      omega
    | cons c p =>
      have rest := ih (by simpa using empty)
      simp at rest ⊢
      omega

/-- Joining the segments gives back a text exactly if it is empty or has no empty piece. -/
theorem intercalate_segments_iff (sep : α) (text : List α) :
    [sep].intercalate (segments sep text) = text ↔ text = [] ∨ [] ∉ text.splitOn sep := by
  constructor
  · intro same
    by_contra neither
    obtain ⟨text_ne, empty⟩ := not_or.mp neither
    have fewer := sum_filter_lt (not_not.mp empty)
    have before := length_intercalate sep (text.splitOn sep)
    have after := length_intercalate sep (segments sep text)
    rw [List.intercalate_splitOn, if_neg (List.splitOn_ne_nil sep text)] at before
    rw [same] at after
    split at after
    · rename_i none
      rw [none] at same
      exact text_ne same.symm
    · rw [segments] at after
      omega
  · rintro (rfl | full)
    · rfl
    · have all : segments sep text = text.splitOn sep := by
        refine List.filter_eq_self.mpr fun piece member => ?_
        cases piece with
        | nil => exact absurd member full
        | cons => rfl
      rw [all, List.intercalate_splitOn]

end Segments
