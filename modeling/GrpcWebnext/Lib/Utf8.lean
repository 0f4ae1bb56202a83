/-!
# UTF-8

The bytes of a string, and the lossy reading of any bytes as text: each maximal part that
begins no well-formed sequence is read as one U+FFFD.
-/

namespace Utf8

def encode (s : String) : List UInt8 := s.toList.flatMap String.utf8EncodeChar

def continuation (b : UInt8) : Bool := b &&& 0xC0 == 0x80

/-- The second bytes allowed after a lead byte: no overlong form, no surrogate, no value
above U+10FFFF. -/
def second (lead b : UInt8) : Bool :=
  if lead == 0xE0 then 0xA0 ≤ b && b ≤ 0xBF
  else if lead == 0xED then 0x80 ≤ b && b ≤ 0x9F
  else if lead == 0xF0 then 0x90 ≤ b && b ≤ 0xBF
  else if lead == 0xF4 then 0x80 ≤ b && b ≤ 0x8F
  else continuation b

def width (lead : UInt8) : Nat :=
  if lead < 0x80 then 1
  else if 0xC2 ≤ lead && lead ≤ 0xDF then 2
  else if 0xE0 ≤ lead && lead ≤ 0xEF then 3
  else if 0xF0 ≤ lead && lead ≤ 0xF4 then 4
  else 0

def scalar2 (b c : UInt8) : Char := Char.ofNat (b.toNat % 32 * 64 + c.toNat % 64)

def scalar3 (b c d : UInt8) : Char :=
  Char.ofNat (b.toNat % 16 * 4096 + c.toNat % 64 * 64 + d.toNat % 64)

def scalar4 (b c d e : UInt8) : Char :=
  Char.ofNat (b.toNat % 8 * 262144 + c.toNat % 64 * 4096 + d.toNat % 64 * 64 + e.toNat % 64)

def replacement : Char := '\uFFFD'

def lossy : List UInt8 → List Char
  | [] => []
  | b :: rest =>
    match width b with
    | 1 => Char.ofNat b.toNat :: lossy rest
    | 2 =>
      match rest with
      | c :: rest₁ =>
        if second b c then scalar2 b c :: lossy rest₁ else replacement :: lossy (c :: rest₁)
      | [] => [replacement]
    | 3 =>
      match rest with
      | c :: rest₁ =>
        if second b c then
          match rest₁ with
          | d :: rest₂ =>
            if continuation d then scalar3 b c d :: lossy rest₂ else replacement :: lossy (d :: rest₂)
          | [] => [replacement]
        else replacement :: lossy (c :: rest₁)
      | [] => [replacement]
    | 4 =>
      match rest with
      | c :: rest₁ =>
        if second b c then
          match rest₁ with
          | d :: rest₂ =>
            if continuation d then
              match rest₂ with
              | e :: rest₃ =>
                if continuation e then scalar4 b c d e :: lossy rest₃
                else replacement :: lossy (e :: rest₃)
              | [] => [replacement]
            else replacement :: lossy (d :: rest₂)
          | [] => [replacement]
        else replacement :: lossy (c :: rest₁)
      | [] => [replacement]
    | _ => replacement :: lossy rest
termination_by structural bytes => bytes

example : lossy (encode "aé€😀") = "aé€😀".toList := by decide +kernel
example : lossy [0xE2, 0x82, 0x41, 0xFF] = [replacement, 'A', replacement] := by decide +kernel

/-! ### Bytes by their values -/

/-- What a check over the 256 values finds holds of each byte. -/
theorem forall_byte {P : UInt8 → Nat → Prop} (all : ∀ n : Fin 256, P (UInt8.ofNat n.val) n.val) (b : UInt8) :
    P b b.toNat := by
  have here := all ⟨b.toNat, b.toNat_lt⟩
  rwa [UInt8.ofNat_toNat] at here

theorem continuation_eq (b : UInt8) : continuation b = decide (128 ≤ b.toNat ∧ b.toNat ≤ 191) := by
  apply forall_byte (P := fun b n => continuation b = decide (128 ≤ n ∧ n ≤ 191))
  decide +kernel

theorem toNat_ofNat {n : Nat} (small : n < 256) : (UInt8.ofNat n).toNat = n := UInt8.toNat_ofNat_of_lt' small

theorem width_eq (a : UInt8) : width a =
    if a.toNat < 128 then 1
    else if 194 ≤ a.toNat ∧ a.toNat ≤ 223 then 2
    else if 224 ≤ a.toNat ∧ a.toNat ≤ 239 then 3
    else if 240 ≤ a.toNat ∧ a.toNat ≤ 244 then 4
    else 0 := by
  simp [width, UInt8.lt_iff_toNat_lt, UInt8.le_iff_toNat_le]

theorem second_iff (lead b : UInt8) : second lead b = true ↔ 128 ≤ b.toNat ∧ b.toNat ≤ 191 ∧
    (lead.toNat = 224 → 160 ≤ b.toNat) ∧ (lead.toNat = 237 → b.toNat ≤ 159) ∧
    (lead.toNat = 240 → 144 ≤ b.toNat) ∧ (lead.toNat = 244 → b.toNat ≤ 143) := by
  simp only [second, continuation_eq, beq_iff_eq, ← UInt8.toNat_inj, UInt8.le_iff_toNat_le, UInt8.reduceToNat]
  repeat' split
  all_goals simp only [Bool.and_eq_true, decide_eq_true_eq]
  all_goals omega

/-- The bytes of a character, by the width of their lead. -/
inductive Encodes : Char → List UInt8 → Prop where
  | one {a : UInt8} : width a = 1 → Encodes (Char.ofNat a.toNat) [a]
  | two {a b : UInt8} : width a = 2 → second a b = true → Encodes (scalar2 a b) [a, b]
  | three {a b c : UInt8} : width a = 3 → second a b = true → continuation c = true → Encodes (scalar3 a b c) [a, b, c]
  | four {a b c d : UInt8} : width a = 4 → second a b = true → continuation c = true → continuation d = true →
      Encodes (scalar4 a b c d) [a, b, c, d]

theorem Encodes.of_two {v : Nat} (low : 128 ≤ v) (high : v < 2048) :
    Encodes (Char.ofNat v) [UInt8.ofNat (v / 64 % 32 + 192), UInt8.ofNat (v % 64 + 128)] := by
  have lead : (UInt8.ofNat (v / 64 % 32 + 192)).toNat = v / 64 % 32 + 192 := toNat_ofNat (by omega)
  have last : (UInt8.ofNat (v % 64 + 128)).toNat = v % 64 + 128 := toNat_ofNat (by omega)
  have value : Char.ofNat v = scalar2 (UInt8.ofNat (v / 64 % 32 + 192)) (UInt8.ofNat (v % 64 + 128)) := by
    unfold scalar2
    rw [lead, last]
    congr 1
    omega
  rw [value]
  apply Encodes.two
  · rw [width_eq, lead, if_neg (by omega), if_pos (by omega)]
  · rw [second_iff, lead, last]
    omega

theorem Encodes.of_three {v : Nat} (low : 2048 ≤ v) (high : v < 65536) (valid : v < 0xD800 ∨ 0xDFFF < v) :
    Encodes (Char.ofNat v)
      [UInt8.ofNat (v / 4096 % 16 + 224), UInt8.ofNat (v / 64 % 64 + 128), UInt8.ofNat (v % 64 + 128)] := by
  have lead : (UInt8.ofNat (v / 4096 % 16 + 224)).toNat = v / 4096 % 16 + 224 := toNat_ofNat (by omega)
  have next : (UInt8.ofNat (v / 64 % 64 + 128)).toNat = v / 64 % 64 + 128 := toNat_ofNat (by omega)
  have last : (UInt8.ofNat (v % 64 + 128)).toNat = v % 64 + 128 := toNat_ofNat (by omega)
  have value : Char.ofNat v = scalar3 (UInt8.ofNat (v / 4096 % 16 + 224)) (UInt8.ofNat (v / 64 % 64 + 128))
      (UInt8.ofNat (v % 64 + 128)) := by
    unfold scalar3
    rw [lead, next, last]
    congr 1
    omega
  rw [value]
  apply Encodes.three
  · rw [width_eq, lead, if_neg (by omega), if_neg (by omega), if_pos (by omega)]
  · rw [second_iff, lead, next]
    omega
  · rw [continuation_eq, last]
    exact decide_eq_true (by omega)

theorem Encodes.of_four {v : Nat} (low : 65536 ≤ v) (high : v < 0x110000) :
    Encodes (Char.ofNat v)
      [UInt8.ofNat (v / 262144 % 8 + 240), UInt8.ofNat (v / 4096 % 64 + 128), UInt8.ofNat (v / 64 % 64 + 128),
        UInt8.ofNat (v % 64 + 128)] := by
  have lead : (UInt8.ofNat (v / 262144 % 8 + 240)).toNat = v / 262144 % 8 + 240 := toNat_ofNat (by omega)
  have next : (UInt8.ofNat (v / 4096 % 64 + 128)).toNat = v / 4096 % 64 + 128 := toNat_ofNat (by omega)
  have third : (UInt8.ofNat (v / 64 % 64 + 128)).toNat = v / 64 % 64 + 128 := toNat_ofNat (by omega)
  have last : (UInt8.ofNat (v % 64 + 128)).toNat = v % 64 + 128 := toNat_ofNat (by omega)
  have value : Char.ofNat v = scalar4 (UInt8.ofNat (v / 262144 % 8 + 240)) (UInt8.ofNat (v / 4096 % 64 + 128))
      (UInt8.ofNat (v / 64 % 64 + 128)) (UInt8.ofNat (v % 64 + 128)) := by
    unfold scalar4
    rw [lead, next, third, last]
    congr 1
    omega
  rw [value]
  apply Encodes.four
  · rw [width_eq, lead, if_neg (by omega), if_neg (by omega), if_neg (by omega), if_pos (by omega)]
  · rw [second_iff, lead, next]
    omega
  · rw [continuation_eq, third]
    exact decide_eq_true (by omega)
  · rw [continuation_eq, last]
    exact decide_eq_true (by omega)

theorem encodes (c : Char) : Encodes c (String.utf8EncodeChar c) := by
  have valid : c.toNat < 0xD800 ∨ 0xDFFF < c.toNat ∧ c.toNat < 0x110000 := c.valid
  obtain ⟨v, same⟩ : ∃ v, v = c.toNat := ⟨_, rfl⟩
  obtain rfl : Char.ofNat v = c := by rw [same, Char.ofNat_toNat]
  unfold String.utf8EncodeChar
  dsimp only
  rw [show (Char.ofNat v).val.toNat = v from same.symm]
  rw [← same] at valid
  split
  · have value : Char.ofNat v = Char.ofNat (UInt8.ofNat v).toNat := by rw [toNat_ofNat (by omega)]
    rw [value]
    apply Encodes.one
    rw [width_eq, toNat_ofNat (by omega), if_pos (by omega)]
  · split
    · exact .of_two (by omega) (by omega)
    · split
      · exact .of_three (by omega) (by omega) (by omega)
      · exact .of_four (by omega) (by omega)

theorem width_one_iff (a : UInt8) : width a = 1 ↔ a.toNat < 128 := by
  rw [width_eq]
  repeat' split
  all_goals omega

theorem second_continuation {a b : UInt8} (next : second a b = true) : continuation b = true := by
  have range := (second_iff a b).mp next
  rw [continuation_eq]
  exact decide_eq_true ⟨range.1, range.2.1⟩

theorem continuation_lead {a : UInt8} (known : width a ≠ 0) : continuation a = false := by
  rw [width_eq] at known
  rw [continuation_eq]
  refine decide_eq_false fun range => known ?_
  rw [if_neg (by omega), if_neg (by omega), if_neg (by omega), if_neg (by omega)]

/-- A lead byte, then continuation bytes; a lead alone is ASCII. -/
structure Shape (c : Char) (lead : UInt8) (tail : List UInt8) : Prop where
  bytes : String.utf8EncodeChar c = lead :: tail
  size : tail.length + 1 = c.utf8Size
  width : Utf8.width lead = tail.length + 1
  starts : continuation lead = false
  continues : ∀ b ∈ tail, continuation b = true
  alone : tail = [] → lead.toNat < 128 ∧ c = Char.ofNat lead.toNat
  wide : tail ≠ [] → 128 ≤ lead.toNat

theorem shape (c : Char) : ∃ lead tail, Shape c lead tail := by
  have size := String.length_utf8EncodeChar c
  have wide : ∀ {a : UInt8}, width a ≠ 1 → 128 ≤ a.toNat := fun long =>
    Nat.not_lt.mp fun small => long ((width_one_iff _).mpr small)
  generalize bytes : String.utf8EncodeChar c = bs at size
  have encoded := encodes c
  rw [bytes] at encoded
  cases encoded with
  | @one a one =>
    exact ⟨a, [], bytes, size, one, continuation_lead (by simp [one]), nofun, fun _ => ⟨(width_one_iff a).mp one, rfl⟩,
      fun long => absurd rfl long⟩
  | @two a b two next =>
    refine ⟨a, [b], bytes, size, two, continuation_lead (by simp [two]), ?_, nofun, fun _ => wide (by simp [two])⟩
    simpa using second_continuation next
  | @three a b d three next last =>
    refine ⟨a, [b, d], bytes, size, three, continuation_lead (by simp [three]), ?_, nofun, fun _ => wide (by simp [three])⟩
    simpa using ⟨second_continuation next, last⟩
  | @four a b d e four next third last =>
    refine ⟨a, [b, d, e], bytes, size, four, continuation_lead (by simp [four]), ?_, nofun, fun _ => wide (by simp [four])⟩
    simpa using ⟨second_continuation next, third, last⟩

/-- An ASCII byte stands for its own character only. -/
theorem Shape.mem_ascii {c : Char} {lead b : UInt8} {tail : List UInt8} (shape : Shape c lead tail)
    (ascii : b.toNat < 128) (member : b ∈ String.utf8EncodeChar c) : c = Char.ofNat b.toNat ∧ lead = b ∧ tail = [] := by
  rw [shape.bytes] at member
  rcases List.mem_cons.mp member with rfl | inside
  · by_cases alone : tail = []
    · exact ⟨(shape.alone alone).2, rfl, alone⟩
    · exact absurd (shape.wide alone) (Nat.not_le.mpr ascii)
  · have continues := shape.continues b inside
    rw [continuation_eq, decide_eq_true_eq] at continues
    omega

/-! ### Boundaries -/

/-- A character begins at byte `i`, or the text ends there. -/
def isBoundary (bytes : List UInt8) (i : Nat) : Bool :=
  match bytes.drop i with
  | [] => i == bytes.length
  | b :: _ => !continuation b

theorem isBoundary_append (pre post : List Char) :
    isBoundary ((pre ++ post).flatMap String.utf8EncodeChar) (pre.flatMap String.utf8EncodeChar).length = true := by
  rw [List.flatMap_append, isBoundary, List.drop_left]
  cases post with
  | nil => simp
  | cons c post =>
    obtain ⟨lead, tail, shape⟩ := shape c
    rw [List.flatMap_cons, shape.bytes, List.cons_append]
    exact congrArg not shape.starts

theorem isBoundary_add (front bytes : List UInt8) (i : Nat) :
    isBoundary (front ++ bytes) (front.length + i) = isBoundary bytes i := by
  have rest : (front ++ bytes).drop (front.length + i) = bytes.drop i := List.drop_length_add_append ..
  rw [isBoundary, isBoundary, rest, List.length_append]
  cases bytes.drop i with
  | nil =>
    show decide (_ = _) = decide (_ = _)
    exact decide_eq_decide.mpr Nat.add_left_cancel_iff
  | cons => rfl

/-- A text can be split at its boundaries, and there only. -/
theorem isBoundary_iff (cs : List Char) (i : Nat) : isBoundary (cs.flatMap String.utf8EncodeChar) i = true ↔
    ∃ pre post, cs = pre ++ post ∧ (pre.flatMap String.utf8EncodeChar).length = i := by
  constructor
  · intro boundary
    induction cs generalizing i with
    | nil =>
      rw [List.flatMap_nil, isBoundary, List.drop_nil] at boundary
      exact ⟨[], [], rfl, (beq_iff_eq.mp boundary).symm⟩
    | cons c cs ih =>
      obtain ⟨lead, tail, shape⟩ := shape c
      rw [List.flatMap_cons, shape.bytes] at boundary
      by_cases inside : i < (lead :: tail).length
      · cases i with
        | zero => exact ⟨[], c :: cs, rfl, rfl⟩
        | succ i =>
          have within : i < tail.length := Nat.lt_of_succ_lt_succ inside
          have continues := shape.continues _ (List.getElem_mem within)
          rw [isBoundary, List.drop_append_of_le_length (Nat.le_of_lt inside), List.drop_succ_cons,
            List.drop_eq_getElem_cons within, List.cons_append] at boundary
          replace boundary : (!continuation tail[i]) = true := boundary
          rw [continues] at boundary
          cases boundary
      · obtain ⟨j, rfl⟩ := Nat.exists_eq_add_of_le (Nat.not_lt.mp inside)
        rw [isBoundary_add] at boundary
        obtain ⟨pre, post, rfl, rfl⟩ := ih j boundary
        refine ⟨c :: pre, post, rfl, ?_⟩
        rw [List.flatMap_cons, shape.bytes, List.length_append]
  · rintro ⟨pre, post, rfl, rfl⟩
    exact isBoundary_append pre post

/-! ### ASCII -/

theorem toNat_ofNat_ascii {n : Nat} (small : n < 128) : (Char.ofNat n).toNat = n := by
  have all : ∀ n : Fin 128, (Char.ofNat n).toNat = n.val := by decide +kernel
  exact all ⟨n, small⟩

theorem encodeChar_ascii {b : UInt8} (ascii : b.toNat < 128) : String.utf8EncodeChar (Char.ofNat b.toNat) = [b] := by
  have value : (Char.ofNat b.toNat).val.toNat = b.toNat := toNat_ofNat_ascii ascii
  unfold String.utf8EncodeChar
  dsimp only
  rw [value, if_pos (Nat.le_of_lt_succ ascii), UInt8.ofNat_toNat]

theorem encode_ascii {bytes : List UInt8} (ascii : ∀ b ∈ bytes, b.toNat < 128) :
    encode (String.ofList (bytes.map fun b => Char.ofNat b.toNat)) = bytes := by
  unfold encode
  rw [String.toList_ofList, List.flatMap_map]
  induction bytes with
  | nil => rfl
  | cons b bytes ih =>
    obtain ⟨here, ascii⟩ := List.forall_mem_cons.mp ascii
    rw [List.flatMap_cons, encodeChar_ascii here, ih ascii]
    rfl

/-! ### Reading what was encoded -/

theorem lossy_encodeChar (c : Char) (rest : List UInt8) :
    lossy (String.utf8EncodeChar c ++ rest) = c :: lossy rest := by
  generalize bytes : String.utf8EncodeChar c = bs
  have shape := encodes c
  rw [bytes] at shape
  cases shape with
  | one one =>
    rw [List.singleton_append, lossy.eq_def]
    simp [one]
  | two two next =>
    rw [List.cons_append, List.singleton_append, lossy.eq_def]
    simp [two, next]
  | three three next last =>
    rw [lossy.eq_def]
    simp [three, next, last]
  | four four next third last =>
    rw [lossy.eq_def]
    simp [four, next, third, last]

theorem lossy_flatMap (cs : List Char) : lossy (cs.flatMap String.utf8EncodeChar) = cs := by
  induction cs with
  | nil => rfl
  | cons c cs ih => rw [List.flatMap_cons, lossy_encodeChar, ih]

theorem lossy_encode (s : String) : lossy (encode s) = s.toList := lossy_flatMap s.toList

/-- An ASCII byte ends what stands before it. -/
theorem lossy_append_ascii {b : UInt8} (ascii : b < 128) (pre rest : List UInt8) :
    lossy (pre ++ b :: rest) = lossy pre ++ Char.ofNat b.toNat :: lossy rest := by
  have small : b.toNat < 128 := UInt8.lt_iff_toNat_lt.mp ascii
  have one : width b = 1 := by rw [width_eq, if_pos small]
  have notSecond : ∀ a, second a b = false := by
    intro a
    rw [← Bool.not_eq_true, second_iff]
    omega
  have notContinuation : continuation b = false := by
    rw [continuation_eq]
    exact decide_eq_false (by omega)
  have here : lossy (b :: rest) = Char.ofNat b.toNat :: lossy rest := by
    rw [lossy.eq_def]
    simp [one]
  fun_induction lossy pre with
  | case1 => exact here
  | _ =>
    simp only [List.cons_append, List.nil_append]
    rw [lossy.eq_def]
    simp_all

end Utf8
