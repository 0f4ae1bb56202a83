import GrpcWebnext.HttpRule.Expansion
import GrpcWebnext.HttpRule.Message

/-!
# Form-encoded queries

`parse_query` splits a query before it decodes the parts, and turns plus signs to blanks before it reads
the escapes, so it gives back the pairs of any form-encoded text.
-/

namespace GrpcWebnext
namespace HttpRule
open Segments Percent

/-- The bytes that a form encoder writes as themselves: none of the delimiters, nor the plus sign. -/
structure FormSet extends Kept where
  ampersand : keeps 38 = false
  plus : keeps 43 = false
  equals : keeps 61 = false

namespace FormSet

def formByte (set : FormSet) (b : UInt8) : List Char :=
  if b = 32 then ['+']
  else if set.keeps b then [Char.ofNat b.toNat]
  else ['%', Char.ofNat (hexDigit (b.toNat / 16)).toNat, Char.ofNat (hexDigit (b.toNat % 16)).toNat]

def formEncode (set : FormSet) (s : String) : List Char := (Utf8.encode s).flatMap set.formByte

def formPair (set : FormSet) (pair : String × String) : List Char :=
  set.formEncode pair.1 ++ '=' :: set.formEncode pair.2

/-- `application/x-www-form-urlencoded` -/
def formText (set : FormSet) (pairs : List (String × String)) : String :=
  String.ofList (['&'].intercalate (pairs.map set.formPair))

variable (set : FormSet)

/-! ### Delimiters -/

theorem hexDigit_plain {n : Nat} (small : n < 16) :
    ∀ c ∈ ['&', '+', '='], Char.ofNat (hexDigit n).toNat ≠ c := by
  have all : ∀ n : Fin 16, Char.ofNat (hexDigit n).toNat ∉ ['&', '+', '='] := by decide
  intro c member same
  rw [← same] at member
  exact all ⟨n, small⟩ member

theorem ofNat_keeps {b : UInt8} (keeps : set.keeps b = true) : ∀ c ∈ ['&', '+', '='], Char.ofNat b.toNat ≠ c := by
  have ascii := UInt8.lt_iff_toNat_lt.mp (set.ascii b keeps)
  have value : ∀ n : UInt8, set.keeps n = false → b.toNat ≠ n.toNat := by
    intro n dropped same
    rw [UInt8.toNat_inj.mp same, dropped] at keeps
    cases keeps
  intro c member same
  have code : b.toNat = c.toNat := by rw [← same, Utf8.toNat_ofNat_ascii ascii]
  rcases List.mem_cons.mp member with rfl | member
  · exact value 38 set.ampersand code
  · rcases List.mem_cons.mp member with rfl | member
    · exact value 43 set.plus code
    · obtain rfl := List.mem_singleton.mp member
      exact value 61 set.equals code

/-- Neither delimiter is left in what was encoded. -/
theorem formEncode_plain (s : String) : '&' ∉ set.formEncode s ∧ '=' ∉ set.formEncode s := by
  have each : ∀ c ∈ ['&', '='], c ∉ set.formEncode s := by
    intro c among member
    have delimiter : c ∈ ['&', '+', '='] := (show ['&', '='] ⊆ ['&', '+', '='] by decide) among
    obtain ⟨b, _, here⟩ := List.mem_flatMap.mp member
    have small := b.toNat_lt
    unfold formByte at here
    split at here
    · obtain rfl := List.mem_singleton.mp here
      exact absurd among (by decide)
    · split at here
      · rename_i keeps
        exact set.ofNat_keeps keeps c delimiter (List.mem_singleton.mp here).symm
      · rcases List.mem_cons.mp here with rfl | here
        · exact absurd among (by decide)
        · rcases List.mem_cons.mp here with same | here
          · exact hexDigit_plain (by omega) c delimiter same.symm
          · exact hexDigit_plain (by omega) c delimiter (List.mem_singleton.mp here).symm
  exact ⟨each '&' (by decide), each '=' (by decide)⟩

/-! ### Decoding -/

theorem spaced_ascii (b : UInt8) (keeps : (set.keeps b || b == 32) = true) : b < 128 := by
  rcases Bool.or_eq_true_iff.mp keeps with keeps | blank
  · exact set.ascii b keeps
  · rw [eq_of_beq blank]
    decide

theorem spaced_percent : (set.keeps 37 || (37 : UInt8) == 32) = false := by
  rw [set.percent]
  rfl

/-- The encoder that leaves blanks as they are. -/
def spaced : Kept := ⟨fun b => set.keeps b || b == 32, set.spaced_ascii, set.spaced_percent⟩

/-- With its plus signs read as blanks, a text is percent-encoded. -/
theorem formEncode_spaced (s : String) :
    (set.formEncode s).map (fun c => if c = '+' then ' ' else c) = set.spaced.encodeText s.toList := by
  rw [formEncode, Kept.encodeText, Kept.encode, List.map_flatMap, List.map_flatMap]
  apply List.flatMap_congr
  intro b _
  have small := b.toNat_lt
  have stays : ∀ {c : Char}, c ≠ '+' → (if c = '+' then ' ' else c) = c := fun other => if_neg other
  unfold formByte spaced
  by_cases blank : b = 32
  · subst blank
    simp only [↓reduceIte, beq_self_eq_true, Bool.or_true]
    rfl
  · rw [if_neg blank]
    by_cases keeps : set.keeps b = true
    · simp only [keeps, Bool.true_or, ↓reduceIte, List.map_singleton]
      rw [stays (set.ofNat_keeps keeps '+' (by decide))]
    · simp only [Bool.not_eq_true] at keeps
      have high := hexDigit_plain (show b.toNat / 16 < 16 by omega) '+' (by decide)
      have low := hexDigit_plain (show b.toNat % 16 < 16 by omega) '+' (by decide)
      simp only [keeps, Bool.false_or, beq_eq_false_iff_ne.mpr blank, Bool.false_eq_true, ↓reduceIte, List.map_cons,
        List.map_nil, stays high, stays low]
      rfl

theorem decodeQuery_formEncode (s : String) : decodeQuery (set.formEncode s) = .ok s := by
  rw [decodeQuery, formEncode_spaced, percentDecode_encodeText, String.ofList_toList]

theorem parsePair_formPair (pair : String × String) : parsePair (set.formPair pair) = .ok pair := by
  have split := splitAtFirst_append (set.formEncode_plain pair.1).2 (set.formEncode pair.2)
  rw [parsePair, formPair, split]
  simp only [Option.getD_some, decodeQuery_formEncode]
  rfl

/-! ### Splitting -/

theorem segments_formPair (pair : String × String) : segments '&' (set.formPair pair) = [set.formPair pair] := by
  apply segments_piece
  · rw [formPair, List.mem_append, List.mem_cons, not_or, not_or]
    exact ⟨(set.formEncode_plain pair.1).1, by decide, (set.formEncode_plain pair.2).1⟩
  · exact List.append_ne_nil_of_right_ne_nil _ (List.cons_ne_nil _ _)

theorem mapM_parsePair (pairs : List (String × String)) : (pairs.map set.formPair).mapM parsePair = .ok pairs := by
  induction pairs with
  | nil => rfl
  | cons pair pairs ih =>
    rw [List.map_cons, List.mapM_cons, parsePair_formPair, ih]
    rfl

end FormSet

/-- A form-encoded text is parsed to its pairs, in order, with empty names and values. -/
theorem parse_query_form (set : FormSet) (pairs : List (String × String)) :
    parseQuery (set.formText pairs) = .ok pairs := by
  have pieces : segments '&' (set.formText pairs).toList = pairs.map set.formPair := by
    rw [FormSet.formText, String.toList_ofList, segments_intercalate, List.flatMap_map]
    simp only [FormSet.segments_formPair]
    exact List.map_eq_flatMap.symm
  show (segments '&' (set.formText pairs).toList).mapM parsePair = _
  rw [pieces, FormSet.mapM_parsePair]

/-! ### Unreserved characters -/

def isUnreserved (b : UInt8) : Bool :=
  48 ≤ b && b ≤ 57 || 65 ≤ b && b ≤ 90 || 97 ≤ b && b ≤ 122 || [45, 46, 95, 126].contains b

theorem isUnreserved_ascii (b : UInt8) (keeps : isUnreserved b = true) : b < 128 := by
  revert keeps
  apply Utf8.forall_byte (P := fun b _ => isUnreserved b = true → b < 128)
  decide +kernel

def unreserved : FormSet := ⟨⟨isUnreserved, isUnreserved_ascii, rfl⟩, rfl, rfl, rfl⟩

example : unreserved.formText [("a.b", "1 + 1"), ("", "é"), ("k", "")] = "a.b=1+%2B+1&=%C3%A9&k=" := by decide

end HttpRule
end GrpcWebnext
