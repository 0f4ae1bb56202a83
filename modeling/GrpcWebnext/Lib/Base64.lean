/-!
# Base64

The standard alphabet, with or without the closing padding.
-/

namespace Base64

def symbol (n : Nat) : UInt8 :=
  if n < 26 then 65 + n.toUInt8
  else if n < 52 then 97 + (n - 26).toUInt8
  else if n < 62 then 48 + (n - 52).toUInt8
  else if n = 62 then 43
  else 47

def padding : UInt8 := 61

def encode (pad : Bool) : List UInt8 → List UInt8
  | [] => []
  | [a] =>
    [symbol (a.toNat / 4), symbol (a.toNat % 4 * 16)] ++ if pad then [padding, padding] else []
  | [a, b] =>
    [symbol (a.toNat / 4), symbol (a.toNat % 4 * 16 + b.toNat / 16), symbol (b.toNat % 16 * 4)] ++
      if pad then [padding] else []
  | a :: b :: c :: rest =>
    symbol (a.toNat / 4) :: symbol (a.toNat % 4 * 16 + b.toNat / 16) ::
      symbol (b.toNat % 16 * 4 + c.toNat / 64) :: symbol (c.toNat % 64) :: encode pad rest

/-- `text` is base64 of `bytes`, padded or not. -/
def Text (bytes text : List UInt8) : Prop := ∃ pad, text = encode pad bytes

theorem length_le_encode (pad : Bool) (bytes : List UInt8) :
    bytes.length ≤ (encode pad bytes).length := by
  fun_induction encode pad bytes with
  | case1 => exact Nat.le_refl _
  | case2 a => simp
  | case3 a b => simp
  | case4 a b c rest ih => simp only [List.length_cons]; omega

theorem length_lt_encode (pad : Bool) {bytes : List UInt8} (nonempty : bytes ≠ []) :
    bytes.length < (encode pad bytes).length := by
  fun_cases encode pad bytes with
  | case1 => exact absurd rfl nonempty
  | case2 a => simp
  | case3 a b => simp
  | case4 a b c rest =>
    have := length_le_encode pad rest
    simp only [List.length_cons]
    omega

theorem text_self_iff {bytes : List UInt8} : Text bytes bytes ↔ bytes = [] := by
  constructor
  · intro text
    obtain ⟨pad, same⟩ := text
    by_cases nonempty : bytes = []
    · exact nonempty
    · exact absurd (congrArg List.length same) (Nat.ne_of_lt (length_lt_encode pad nonempty))
  · rintro rfl
    exact ⟨true, rfl⟩

/-! ### Groups of six bits -/

def sextets : List UInt8 → List Nat
  | [] => []
  | [a] => [a.toNat / 4, a.toNat % 4 * 16]
  | [a, b] => [a.toNat / 4, a.toNat % 4 * 16 + b.toNat / 16, b.toNat % 16 * 4]
  | a :: b :: c :: rest =>
    a.toNat / 4 :: (a.toNat % 4 * 16 + b.toNat / 16) :: (b.toNat % 16 * 4 + c.toNat / 64) :: c.toNat % 64 ::
      sextets rest

/-- How many symbols the last group lacks. -/
def missing (bytes : List UInt8) : Nat := (3 - bytes.length % 3) % 3

theorem missing_cons (a b c : UInt8) (rest : List UInt8) : missing (a :: b :: c :: rest) = missing rest := by
  simp only [missing, List.length_cons]
  omega

theorem sextets_lt {bytes : List UInt8} {n : Nat} (member : n ∈ sextets bytes) : n < 64 := by
  fun_induction sextets bytes with
  | case1 => cases member
  | case2 a =>
    have small := a.toNat_lt
    simp only [List.mem_cons, List.not_mem_nil, or_false] at member
    omega
  | case3 a b =>
    have small := a.toNat_lt
    have small' := b.toNat_lt
    simp only [List.mem_cons, List.not_mem_nil, or_false] at member
    omega
  | case4 a b c rest ih =>
    have small := a.toNat_lt
    have small' := b.toNat_lt
    have small'' := c.toNat_lt
    simp only [List.mem_cons] at member
    rcases member with first | second | third | fourth | later
    · omega
    · omega
    · omega
    · omega
    · exact ih later

theorem length_sextets (bytes : List UInt8) : ((sextets bytes).length + missing bytes) % 4 = 0 := by
  fun_induction sextets bytes with
  | case1 => rfl
  | case2 a => simp [missing]
  | case3 a b => simp [missing]
  | case4 a b c rest ih =>
    rw [missing_cons]
    simp only [List.length_cons]
    omega

theorem encode_eq (pad : Bool) (bytes : List UInt8) :
    encode pad bytes = (sextets bytes).map symbol ++ if pad then List.replicate (missing bytes) padding else [] := by
  fun_induction encode pad bytes with
  | case1 => cases pad <;> rfl
  | case2 a => rfl
  | case3 a b => rfl
  | case4 a b c rest ih =>
    rw [missing_cons, ih]
    rfl

example : encode true (List.map (fun c : Char => c.toNat.toUInt8) "any".toList) =
    List.map (fun c : Char => c.toNat.toUInt8) "YW55".toList := by decide

end Base64
