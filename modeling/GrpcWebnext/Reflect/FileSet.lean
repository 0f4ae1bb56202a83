import GrpcWebnext.Lib.ProtoWire
import GrpcWebnext.Reflect

/-!
# The framing of the files

`push_file_descriptor` writes the `FileDescriptorSet` by hand: for each file a tag byte, the varint of its
length, and its bytes as they came.
-/

namespace GrpcWebnext
namespace Reflect
open ProtoWire

/-! ### The length -/

theorem toNat_shift (len : UInt64) : (len >>> 7).toNat = len.toNat / 128 := by
  rw [UInt64.toNat_shiftRight]
  show len.toNat >>> 7 = _
  exact Nat.shiftRight_eq_div_pow len.toNat 7

theorem shift_lt {len : UInt64} (left : len >>> 7 ≠ 0) : (len >>> 7).toNat < len.toNat := by
  have some_ : (len >>> 7).toNat ≠ 0 := fun zero => left (UInt64.toNat_inj.mp zero)
  rw [toNat_shift] at some_ ⊢
  omega

/-- The loop of `push_file_descriptor`, on machine words. -/
def lengthLoop (buf : Bytes) (len : UInt64) : Bytes :=
  let byte := (len &&& 0x7F).toUInt8
  if len >>> 7 ≠ 0 then lengthLoop (buf ++ [byte ||| 0x80]) (len >>> 7) else buf ++ [byte]
termination_by len.toNat
decreasing_by exact shift_lt ‹_›

theorem low_bits (len : UInt64) : (len &&& 0x7F).toUInt8 = (len.toNat % 128).toUInt8 := by
  apply UInt8.toNat_inj.mp
  rw [UInt64.toNat_toUInt8, UInt64.toNat_and, toNat_toUInt8 (by omega)]
  show (len.toNat &&& (2 ^ 7 - 1)) % 2 ^ 8 = _
  rw [Nat.and_two_pow_sub_one_eq_mod]
  omega

theorem continued (n : Nat) : (n % 128).toUInt8 ||| 0x80 = (n % 128 + 128).toUInt8 := by
  have all : ∀ i : Fin 128, i.val.toUInt8 ||| 0x80 = (i.val + 128).toUInt8 := by decide +kernel
  exact all ⟨n % 128, Nat.mod_lt n (by decide)⟩

theorem lengthLoop_eq (buf : Bytes) (len : UInt64) : lengthLoop buf len = buf ++ varint len.toNat := by
  fun_induction lengthLoop buf len with
  | case1 buf len byte left ih =>
    have large : ¬len.toNat < 128 := by
      intro small
      apply left
      apply UInt64.toNat_inj.mp
      rw [toNat_shift]
      exact Nat.div_eq_of_lt small
    rw [ih, varint.eq_def len.toNat, if_neg large, toNat_shift, List.append_assoc, List.singleton_append,
      show byte = _ from low_bits len, continued]
  | case2 buf len byte left =>
    have small : len.toNat < 128 := by
      have zero : len.toNat / 128 = 0 := by rw [← toNat_shift, not_not.mp left]; rfl
      omega
    rw [varint.eq_def len.toNat, if_pos small, show byte = _ from low_bits len, Nat.mod_eq_of_lt small]

theorem varint_shortest (len : Nat) : Shortest len (varint len) := by
  fun_induction varint len with
  | case1 len small => exact .low small
  | case2 len large ih => exact .high (Nat.not_lt.mp large) ih

theorem pushFileDescriptor_eq (buf : Bytes) {raw : Bytes} (fits : raw.length < 2 ^ 64) :
    pushFileDescriptor buf raw = lengthLoop (buf ++ [0x0A]) raw.length.toUInt64 ++ raw := by
  have value : raw.length.toUInt64.toNat = raw.length := by
    show (UInt64.ofNat raw.length).toNat = _
    rw [UInt64.toNat_ofNat']
    exact Nat.mod_eq_of_lt fits
  rw [lengthLoop_eq, value, pushFileDescriptor, List.append_assoc buf [0x0A], List.singleton_append, List.append_assoc]

/-! ### The fields -/

def fileField (raw : Bytes) : Field := ⟨1, .lengthDelimited raw⟩

theorem readField_pushFileDescriptor {raw : Bytes} (fits : raw.length < 2 ^ 64) (rest : Bytes) :
    readField (pushFileDescriptor [] raw ++ rest) = some (fileField raw, rest) := by
  have tagged : Shortest (1 * 8 + 2) [0x0A] := .low (by decide)
  have read := readField_lengthDelimited (by decide) (by decide) tagged fits (varint_shortest raw.length) rest
  rw [pushFileDescriptor, List.nil_append, List.append_assoc, List.cons_append]
  exact read

theorem reads_fileSet {raws : List Bytes} (fits : ∀ raw ∈ raws, raw.length < 2 ^ 64) :
    Reads (fileSet raws) (raws.map fileField) := by
  induction raws with
  | nil => exact .nil
  | cons raw raws ih =>
    obtain ⟨here, later⟩ := List.forall_mem_cons.mp fits
    have cut : fileSet (raw :: raws) = pushFileDescriptor [] raw ++ fileSet raws := by
      rw [fileSet, List.foldl_cons, fileSet_append]
    rw [cut]
    refine .cons ?_ (readField_pushFileDescriptor here (fileSet raws)) (ih later)
    exact List.append_ne_nil_of_left_ne_nil (List.cons_ne_nil _ _) _

/-- A set is read as the files alone, each the bytes of a field 1, in order, and the loop writes the
shortest varint of every length. -/
theorem file_set_framing {raws : List Bytes} (fits : ∀ raw ∈ raws, raw.length < 2 ^ 64) :
    (∀ fields, Reads (fileSet raws) fields ↔ fields = raws.map fileField) ∧
      (∀ raw ∈ raws, ∀ buf, pushFileDescriptor buf raw =
        lengthLoop (buf ++ [0x0A]) raw.length.toUInt64 ++ raw) ∧
      ∀ len : UInt64, ∃ digits, Shortest len.toNat digits ∧ ∀ buf, lengthLoop buf len = buf ++ digits := by
  have read := reads_fileSet fits
  refine ⟨fun fields => ⟨fun other => other.unique read, ?_⟩, ?_, ?_⟩
  · rintro rfl
    exact read
  · intro raw member buf
    exact pushFileDescriptor_eq buf (fits raw member)
  · intro len
    exact ⟨varint len.toNat, varint_shortest len.toNat, fun buf => lengthLoop_eq buf len⟩

theorem file_set_framing_two :
    (∀ raw ∈ ([[1, 2], []] : List Bytes), raw.length < 2 ^ 64) ∧
      Reads (fileSet [[1, 2], []]) [⟨1, .lengthDelimited [1, 2]⟩, ⟨1, .lengthDelimited []⟩] := by
  have fits : ∀ raw ∈ ([[1, 2], []] : List Bytes), raw.length < 2 ^ 64 := by decide
  exact ⟨fits, ((file_set_framing fits).1 _).mpr rfl⟩

end Reflect
end GrpcWebnext
