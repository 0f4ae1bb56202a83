import Mathlib.Data.List.Infix
import GrpcWebnext.HttpRule.Template
import GrpcWebnext.Lib.Percent

/-!
# Percent-decoding of any text

`percent_decode` slices two bytes behind each percent sign and hands them to `from_str_radix`. A
slice may end inside a character, which panics, and the parser takes a plus sign for the first digit.
-/

namespace GrpcWebnext
namespace HttpRule

/-! ### What follows a percent sign -/

/-- The slice behind a percent sign ends inside a character. -/
def SlicesInside : List Char → Prop
  | c :: d :: _ => 3 ≤ c.utf8Size ∨ c.utf8Size = 1 ∧ 2 ≤ d.utf8Size
  | [c] => 3 ≤ c.utf8Size
  | [] => False

/-- A plus sign and a hex digit follow the percent sign. -/
def Signed : List Char → Prop
  | '+' :: d :: _ => d ∈ "0123456789ABCDEFabcdef".toList
  | _ => False

/-- Every percent sign is read as it should. -/
def WellEscaped (s : String) : Prop := ∀ after, '%' :: after <:+ s.toList → ¬SlicesInside after ∧ ¬Signed after

def BytesInside : Bytes → Prop
  | a :: b :: rest => ¬(isCharBoundary (a :: b :: rest) && isCharBoundary rest) = true
  | _ => False

def BytesSigned : Bytes → Prop
  | a :: b :: _ => a = 43 ∧ (Percent.digit b).isSome
  | _ => False

/-! ### The scan -/

theorem fromHex_eq (a b : UInt8) :
    Metadata.fromHex a b = if a = 43 then (Percent.digit b).map Nat.toUInt8 else Percent.escape a b := rfl

theorem fromHex_of_not_signed {a b : UInt8} {rest : Bytes} (plain : ¬BytesSigned (a :: b :: rest)) :
    Metadata.fromHex a b = Percent.escape a b := by
  rw [fromHex_eq]
  split
  · rename_i plus
    subst plus
    have digit : Percent.digit b = none := by
      cases read : Percent.digit b with
      | none => rfl
      | some n => exact absurd ⟨rfl, by simp [read]⟩ plain
    rw [digit]
    rfl
  · rfl

theorem fromHex_ne_percent {a b byte : UInt8} (read : Metadata.fromHex a b = some byte) : a ≠ 37 ∧ b ≠ 37 := by
  rw [fromHex_eq] at read
  split at read
  · rename_i plus
    subst plus
    obtain ⟨n, digit, _⟩ := Option.map_eq_some_iff.mp read
    exact ⟨by decide, (Percent.digit_ascii digit).2⟩
  · obtain ⟨⟨_, high⟩, _, low⟩ := Percent.escape_digits read
    exact ⟨(Percent.digit_ascii high).2, (Percent.digit_ascii low).2⟩

/-- A percent sign is never part of an escape. -/
theorem percent_suffix {a b byte : UInt8} {rest post : Bytes} (read : Metadata.fromHex a b = some byte)
    (suffix : 37 :: post <:+ a :: b :: rest) : 37 :: post <:+ rest := by
  obtain ⟨first, second⟩ := fromHex_ne_percent read
  rcases List.suffix_cons_iff.mp suffix with same | suffix
  · exact absurd (List.cons.inj same).1.symm first
  · rcases List.suffix_cons_iff.mp suffix with same | suffix
    · exact absurd (List.cons.inj same).1.symm second
    · exact suffix

theorem bytesInside_length {post : Bytes} (inside : BytesInside post) : ∃ a b rest, post = a :: b :: rest := by
  match post, inside with
  | a :: b :: rest, _ => exact ⟨a, b, rest, rfl⟩

/-- A slice that ends inside a character is reached, wherever it stands. -/
theorem percentDecodeBytes_inside {bytes post : Bytes} (inside : BytesInside post) (suffix : 37 :: post <:+ bytes) :
    percentDecodeBytes bytes = .error .charBoundary := by
  fun_induction percentDecodeBytes bytes with
  | case1 => simp at suffix
  | case2 a b rest bounded byte read ih =>
    rcases List.suffix_cons_iff.mp suffix with same | later
    · obtain rfl := (List.cons.inj same).2
      exact absurd bounded inside
    · rw [ih (percent_suffix read later)]
      rfl
  | case3 a b rest bounded read ih =>
    rcases List.suffix_cons_iff.mp suffix with same | later
    · obtain rfl := (List.cons.inj same).2
      exact absurd bounded inside
    · rw [ih later]
      rfl
  | case4 => rfl
  | case5 short short_eq ih =>
    rcases List.suffix_cons_iff.mp suffix with same | later
    · obtain rfl := (List.cons.inj same).2
      obtain ⟨a, b, rest, same⟩ := bytesInside_length inside
      exact absurd same (short_eq a b rest)
    · rw [ih later]
      rfl
  | case6 c rest other ih =>
    rcases List.suffix_cons_iff.mp suffix with same | later
    · exact absurd (List.cons.inj same).1.symm other
    · rw [ih later]
      rfl

/-- Where two byte strings part, one has a control byte and the other a percent sign. -/
def Parted (out exact : Bytes) : Prop :=
  ∃ pre v x y, v.toNat < 16 ∧ out = pre ++ v :: x ∧ exact = pre ++ 37 :: y

theorem Parted.cons {out exact : Bytes} (parted : Parted out exact) (c : UInt8) : Parted (c :: out) (c :: exact) := by
  obtain ⟨pre, v, x, y, small, rfl, rfl⟩ := parted
  exact ⟨c :: pre, v, x, y, small, rfl, rfl⟩

/-- Both bytes are ASCII, so the texts part there too. -/
theorem Parted.lossy_ne {out exact : Bytes} (parted : Parted out exact) : Utf8.lossy out ≠ Utf8.lossy exact := by
  obtain ⟨pre, v, x, y, small, rfl, rfl⟩ := parted
  have ascii : v < 128 := UInt8.lt_iff_toNat_lt.mpr (Nat.lt_of_lt_of_le small (by decide))
  rw [Utf8.lossy_append_ascii ascii, Utf8.lossy_append_ascii (by decide)]
  intro same
  have control : ∀ n : Fin 16, Char.ofNat n ≠ '%' := by decide
  exact control ⟨v.toNat, small⟩ (List.cons.inj (List.append_cancel_left same)).1

/-- What the scan of `bytes` is to return: the exact bytes, or others from the first plus sign on that
it takes for a digit. -/
def Scanned (bytes : Bytes) (result : Except Panic Bytes) : Prop :=
  ∃ out, result = .ok out ∧
    ((∀ post, 37 :: post <:+ bytes → ¬BytesSigned post) → out = Percent.decode bytes) ∧
    ((∃ post, 37 :: post <:+ bytes ∧ BytesSigned post) → Parted out (Percent.decode bytes))

theorem Scanned.cons {c : UInt8} {rest : Bytes} {result : Except Panic Bytes} (scanned : Scanned rest result)
    (kept : Percent.decode (c :: rest) = c :: Percent.decode rest) (plain : c = 37 → ¬BytesSigned rest) :
    Scanned (c :: rest) ((c :: ·) <$> result) := by
  obtain ⟨out, rfl, same, parted⟩ := scanned
  rw [Scanned, kept]
  refine ⟨c :: out, rfl, fun none => ?_, ?_⟩
  · rw [same fun post suffix => none post (suffix.trans (List.suffix_cons c rest))]
  · rintro ⟨post, suffix, signed⟩
    rcases List.suffix_cons_iff.mp suffix with here | later
    · obtain ⟨rfl, rfl⟩ := List.cons.inj here
      exact absurd signed (plain rfl)
    · exact (parted ⟨post, later, signed⟩).cons c

theorem Scanned.escape {a b byte : UInt8} {rest : Bytes} {result : Except Panic Bytes}
    (scanned : Scanned rest result) (read : Metadata.fromHex a b = some byte) (plain : ¬BytesSigned (a :: b :: rest)) :
    Scanned (37 :: a :: b :: rest) ((byte :: ·) <$> result) := by
  obtain ⟨out, rfl, same, parted⟩ := scanned
  have escaped := read
  rw [fromHex_of_not_signed plain] at escaped
  rw [Scanned, Percent.decode_escape escaped]
  refine ⟨byte :: out, rfl, fun none => ?_, ?_⟩
  · rw [same fun post suffix => none post (suffix.trans (List.suffix_append [37, a, b] rest))]
  · rintro ⟨post, suffix, signed⟩
    rcases List.suffix_cons_iff.mp suffix with here | later
    · obtain rfl := (List.cons.inj here).2
      exact absurd signed plain
    · exact (parted ⟨post, percent_suffix read later, signed⟩).cons byte

theorem Scanned.signed {a b byte : UInt8} {rest : Bytes} {result : Except Panic Bytes}
    (scanned : Scanned rest result) (read : Metadata.fromHex a b = some byte) (signed : BytesSigned (a :: b :: rest)) :
    Scanned (37 :: a :: b :: rest) ((byte :: ·) <$> result) := by
  obtain ⟨out, rfl, _⟩ := scanned
  refine ⟨byte :: out, rfl, fun none => absurd signed (none _ (List.suffix_refl _)), fun _ => ?_⟩
  obtain ⟨rfl, digit⟩ := signed
  obtain ⟨n, digit⟩ := Option.isSome_iff_exists.mp digit
  rw [fromHex_eq, if_pos rfl, digit, Option.map_some, Option.some.injEq] at read
  have small := Percent.digit_lt digit
  have value : byte.toNat < 16 := by
    rw [← read, Nat.toUInt8, UInt8.toNat_ofNat']
    omega
  rw [Percent.decode_percent rfl]
  exact ⟨[], byte, out, _, value, rfl, rfl⟩

/-- Without a slice that ends inside a character, the scan returns. -/
theorem percentDecodeBytes_bounded {bytes : Bytes} (bounded : ∀ post, 37 :: post <:+ bytes → ¬BytesInside post) :
    Scanned bytes (percentDecodeBytes bytes) := by
  fun_induction percentDecodeBytes bytes with
  | case1 =>
    refine ⟨[], rfl, fun _ => rfl, ?_⟩
    rintro ⟨post, suffix, _⟩
    simp at suffix
  | case2 a b rest here byte read ih =>
    have scanned := ih fun post suffix => bounded post (suffix.trans (List.suffix_append [37, a, b] rest))
    by_cases signed : BytesSigned (a :: b :: rest)
    · exact scanned.signed read signed
    · exact scanned.escape read signed
  | case3 a b rest here read ih =>
    have plain : ¬BytesSigned (a :: b :: rest) := by
      rintro ⟨rfl, digit⟩
      obtain ⟨n, digit⟩ := Option.isSome_iff_exists.mp digit
      simp [fromHex_eq, digit] at read
    rw [fromHex_of_not_signed plain] at read
    exact (ih fun post suffix => bounded post (suffix.trans (List.suffix_cons 37 _))).cons
      (Percent.decode_percent read rest) fun _ => plain
  | case4 a b rest outside => exact absurd outside (bounded _ (List.suffix_refl _))
  | case5 short short_eq ih =>
    refine (ih fun post suffix => bounded post (suffix.trans (List.suffix_cons 37 _))).cons
      (Percent.decode_short short_eq) fun _ signed => ?_
    match short, signed with
    | a :: b :: rest, _ => exact short_eq a b rest rfl
  | case6 c rest other ih =>
    exact (ih fun post suffix => bounded post (suffix.trans (List.suffix_cons c _))).cons
      (Percent.decode_cons_ne other rest) fun percent => absurd percent other

/-! ### Characters and their bytes -/

theorem isCharBoundary_encode (cs : List Char) : isCharBoundary (cs.flatMap String.utf8EncodeChar) = true := by
  cases cs with
  | nil => rfl
  | cons c cs =>
    obtain ⟨lead, tail, shape⟩ := Utf8.shape c
    simp [isCharBoundary, shape.bytes, shape.starts]

theorem bytesInside_iff (after : List Char) : BytesInside (after.flatMap String.utf8EncodeChar) ↔ SlicesInside after := by
  cases after with
  | nil => exact Iff.rfl
  | cons c more =>
    obtain ⟨lead, tail, shape⟩ := Utf8.shape c
    have size := shape.size
    have start := isCharBoundary_encode (c :: more)
    have rest := isCharBoundary_encode more
    rw [List.flatMap_cons, shape.bytes] at start ⊢
    match tail with
    | [] =>
      cases more with
      | nil => simp [BytesInside, SlicesInside, ← size]
      | cons d more =>
        obtain ⟨lead', tail', shape'⟩ := Utf8.shape d
        have size' := shape'.size
        have beyond := isCharBoundary_encode more
        rw [List.flatMap_cons, shape'.bytes] at start ⊢
        cases tail' with
        | nil => simp_all [BytesInside, SlicesInside, ← size, ← size']
        | cons b tail' =>
          have continues := shape'.continues b List.mem_cons_self
          simp [BytesInside, SlicesInside, ← size, ← size', isCharBoundary, continues]
    | [b] =>
      cases more <;> simp_all [BytesInside, SlicesInside, ← size]
    | b :: b' :: tail =>
      have continues := shape.continues b' (by simp)
      cases more <;> simp [BytesInside, SlicesInside, ← size, isCharBoundary, continues]

theorem digit_encode (d : Char) :
    (Percent.digit ((String.utf8EncodeChar d).headD 0)).isSome ↔ d ∈ "0123456789ABCDEFabcdef".toList := by
  constructor
  · intro digit
    obtain ⟨lead, tail, shape⟩ := Utf8.shape d
    rw [shape.bytes, List.headD_cons] at digit
    obtain ⟨n, read⟩ := Option.isSome_iff_exists.mp digit
    have ascii := UInt8.lt_iff_toNat_lt.mp (Percent.digit_ascii read).1
    have here := (shape.mem_ascii (b := lead) ascii (by rw [shape.bytes]; exact List.mem_cons_self)).1
    have member := Utf8.forall_byte (P := fun b n => (Percent.digit b).isSome = true →
      Char.ofNat n ∈ "0123456789ABCDEFabcdef".toList) (by decide +kernel) lead digit
    rwa [here]
  · intro member
    have all : ("0123456789ABCDEFabcdef".toList.all fun d =>
        (Percent.digit ((String.utf8EncodeChar d).headD 0)).isSome) = true := by decide +kernel
    exact List.all_eq_true.mp all d member

theorem bytesSigned_iff (after : List Char) : BytesSigned (after.flatMap String.utf8EncodeChar) ↔ Signed after := by
  cases after with
  | nil => exact Iff.rfl
  | cons c more =>
    obtain ⟨lead, tail, shape⟩ := Utf8.shape c
    by_cases plus : c = '+'
    · subst plus
      cases more with
      | nil => exact Iff.rfl
      | cons d more =>
        obtain ⟨lead', tail', shape'⟩ := Utf8.shape d
        have digits := digit_encode d
        rw [shape'.bytes] at digits
        rw [List.flatMap_cons, List.flatMap_cons, shape'.bytes]
        exact (and_iff_right rfl).trans digits
    · have other : lead ≠ 43 := by
        rintro rfl
        exact plus (shape.mem_ascii (b := 43) (by decide) (by rw [shape.bytes]; exact List.mem_cons_self)).1
      rw [List.flatMap_cons, shape.bytes]
      refine iff_of_false ?_ ?_
      · rw [List.cons_append]
        cases tail ++ more.flatMap String.utf8EncodeChar with
        | nil => exact id
        | cons b rest => exact fun signed => other signed.1
      · intro signed
        unfold Signed at signed
        split at signed
        · rename_i same
          exact plus (List.cons.inj same).1
        · exact signed

theorem suffix_of_not_mem {bs rest post : Bytes} (absent : 37 ∉ bs) : 37 :: post <:+ bs ++ rest ↔ 37 :: post <:+ rest := by
  induction bs with
  | nil => rfl
  | cons b bs ih =>
    rw [List.mem_cons, not_or] at absent
    rw [List.cons_append, List.suffix_cons_iff, ih absent.2]
    exact or_iff_right fun same => absent.1 (List.cons.inj same).1

theorem percent_suffix_iff (cs : List Char) (post : Bytes) : 37 :: post <:+ cs.flatMap String.utf8EncodeChar ↔
    ∃ after, '%' :: after <:+ cs ∧ post = after.flatMap String.utf8EncodeChar := by
  induction cs with
  | nil => simp
  | cons c cs ih =>
    rw [List.flatMap_cons]
    by_cases percent : c = '%'
    · subst percent
      rw [show String.utf8EncodeChar '%' = [37] from rfl, List.singleton_append, List.suffix_cons_iff, ih]
      simp only [List.suffix_cons_iff, List.cons.injEq, true_and, or_and_right, exists_or, exists_eq_left]
    · have absent : 37 ∉ String.utf8EncodeChar c := by
        intro member
        obtain ⟨lead, tail, shape⟩ := Utf8.shape c
        exact percent (shape.mem_ascii (by decide) member).1
      rw [suffix_of_not_mem absent, ih]
      have other : ∀ after, '%' :: after <:+ c :: cs ↔ '%' :: after <:+ cs := by
        intro after
        rw [List.suffix_cons_iff]
        exact or_iff_right fun same => percent (List.cons.inj same).1.symm
      simp only [other]

/-- `percent_decode` returns the exact reading of a text exactly if no slice behind a percent sign ends
inside a character and no plus sign stands there before a hex digit. -/
theorem percent_decode_iff (s : String) :
    percentDecode s = .ok (String.ofList (Utf8.lossy (Percent.decode (Utf8.encode s)))) ↔ WellEscaped s := by
  have positions : ∀ post, 37 :: post <:+ Utf8.encode s ↔
      ∃ after, '%' :: after <:+ s.toList ∧ post = after.flatMap String.utf8EncodeChar := percent_suffix_iff s.toList
  by_cases inside : ∃ after, '%' :: after <:+ s.toList ∧ SlicesInside after
  · obtain ⟨after, suffix, inside⟩ := inside
    have there := (positions _).mpr ⟨after, suffix, rfl⟩
    have panics := percentDecodeBytes_inside ((bytesInside_iff after).mpr inside) there
    refine iff_of_false (fun exact => ?_) (fun escaped => (escaped after suffix).1 inside)
    rw [percentDecode, panics] at exact
    cases exact
  · have bounded : ∀ post, 37 :: post <:+ Utf8.encode s → ¬BytesInside post := by
      intro post suffix within
      obtain ⟨after, there, rfl⟩ := (positions post).mp suffix
      exact inside ⟨after, there, (bytesInside_iff after).mp within⟩
    obtain ⟨out, scanned, same, parted⟩ := percentDecodeBytes_bounded bounded
    have returns : percentDecode s = .ok (String.ofList (Utf8.lossy out)) := by
      rw [percentDecode, scanned]
      rfl
    rw [returns]
    constructor
    · intro exact after suffix
      refine ⟨fun within => inside ⟨after, suffix, within⟩, fun signed => ?_⟩
      have there := (positions _).mpr ⟨after, suffix, rfl⟩
      have apart := parted ⟨_, there, (bytesSigned_iff after).mpr signed⟩
      exact apart.lossy_ne (String.ofList_injective (Except.ok.inj exact))
    · intro escaped
      rw [same]
      intro post suffix signed
      obtain ⟨after, there, rfl⟩ := (positions post).mp suffix
      exact (escaped after there).2 ((bytesSigned_iff after).mp signed)

/-- `%` before the three bytes of a euro sign: the slice ends behind the second of them. -/
theorem percent_before_euro : percentDecode "%€" = .error .charBoundary ∧
    percentDecode "%€" ≠ .ok (String.ofList (Utf8.lossy (Percent.decode (Utf8.encode "%€")))) := by
  have panics : percentDecode "%€" = .error .charBoundary := rfl
  refine ⟨panics, ?_⟩
  rw [panics]
  nofun

example : percentDecode "%+5%2F" = .ok "\u0005/" := by decide

/-! ### The only panic -/

theorem percentDecodeBytes_error {bytes : Bytes} {panic : Panic} (panics : percentDecodeBytes bytes = .error panic) :
    panic = .charBoundary := by
  have kept : ∀ {result : Except Panic Bytes} (c : UInt8), (c :: ·) <$> result = .error panic → result = .error panic := by
    intro result c failed
    cases result with
    | ok out => cases failed
    | error p => exact failed
  fun_induction percentDecodeBytes bytes with
  | case1 => cases panics
  | case2 a b rest here byte read ih => exact ih (kept byte panics)
  | case3 a b rest here read ih => exact ih (kept 37 panics)
  | case4 => exact (Except.error.inj panics).symm
  | case5 short short_eq ih => exact ih (kept 37 panics)
  | case6 c rest other ih => exact ih (kept c panics)

theorem percentDecode_error {s : String} {panic : Panic} (panics : percentDecode s = .error panic) :
    panic = .charBoundary := by
  unfold percentDecode at panics
  cases scanned : percentDecodeBytes (Utf8.encode s) with
  | ok out =>
    rw [scanned] at panics
    cases panics
  | error p =>
    rw [scanned] at panics
    cases panics
    exact percentDecodeBytes_error scanned

/-! ### Texts of a header -/

/-- On ASCII bytes the scan is the one of `metadata.rs`, which reads header texts only. -/
theorem percentDecodeBytes_ascii {bytes : Bytes} (ascii : ∀ b ∈ bytes, b.toNat < 128) :
    percentDecodeBytes bytes = .ok (Metadata.percentDecodeBytes bytes) := by
  have boundary : ∀ {rest : Bytes}, rest <:+ bytes → isCharBoundary rest = true := by
    intro rest suffix
    match rest with
    | [] => rfl
    | b :: rest =>
      have small := ascii b (suffix.subset List.mem_cons_self)
      simp only [isCharBoundary, Utf8.continuation_eq, Bool.not_eq_true', decide_eq_false_iff_not]
      omega
  fun_induction percentDecodeBytes bytes with
  | case1 => rfl
  | case2 a b rest here byte read ih =>
    have inner : rest <:+ 37 :: a :: b :: rest := List.suffix_append [37, a, b] rest
    rw [ih (fun b member => ascii b (inner.subset member)) fun suffix => boundary (suffix.trans inner)]
    rw [Metadata.percentDecodeBytes.eq_def (37 :: a :: b :: rest)]
    simp only [↓reduceIte, read]
    rfl
  | case3 a b rest here read ih =>
    have inner : a :: b :: rest <:+ 37 :: a :: b :: rest := List.suffix_cons 37 _
    rw [ih (fun b member => ascii b (inner.subset member)) fun suffix => boundary (suffix.trans inner)]
    rw [Metadata.percentDecodeBytes.eq_def (37 :: a :: b :: rest)]
    simp only [↓reduceIte, read]
    rfl
  | case4 a b rest outside =>
    refine absurd ?_ outside
    rw [boundary (List.suffix_cons 37 _), boundary (List.suffix_append [37, a, b] rest)]
    rfl
  | case5 short short_eq ih =>
    have inner : short <:+ 37 :: short := List.suffix_cons 37 _
    rw [ih (fun b member => ascii b (inner.subset member)) fun suffix => boundary (suffix.trans inner)]
    match short with
    | [] => rfl
    | [_] =>
      rw [Metadata.percentDecodeBytes.eq_def [37, _]]
      rfl
    | a :: b :: more => exact (short_eq a b more rfl).elim
  | case6 c rest other ih =>
    have inner : rest <:+ c :: rest := List.suffix_cons c _
    rw [ih (fun b member => ascii b (inner.subset member)) fun suffix => boundary (suffix.trans inner)]
    rw [Metadata.percentDecodeBytes.eq_def (c :: rest)]
    simp only [other, ↓reduceIte]
    rfl

end HttpRule
end GrpcWebnext
