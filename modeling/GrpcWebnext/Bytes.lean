import Mathlib.Algebra.Group.Nat.Defs
/-!
# Bytes

Byte strings, and the big-endian `u32` that every length prefix of the wire formats is.
-/

namespace GrpcWebnext

abbrev Bytes := List UInt8

def fromBeBytes (a b c d : UInt8) : Nat :=
  ((a.toNat * 256 + b.toNat) * 256 + c.toNat) * 256 + d.toNat

/-- `put_u32` of a length cast to `u32`: four bytes, most significant first. -/
def putU32 (n : Nat) : Bytes :=
  [(n / 2 ^ 24).toUInt8, (n / 2 ^ 16).toUInt8, (n / 2 ^ 8).toUInt8, n.toUInt8]

def getU32 : Bytes → Nat
  | a :: b :: c :: d :: _ => fromBeBytes a b c d
  | _ => 0

@[simp] theorem putU32_length (n : Nat) : (putU32 n).length = 4 := rfl

theorem fromBeBytes_putU32 {n : Nat} (small : n < 2 ^ 32) :
    fromBeBytes (n / 2 ^ 24).toUInt8 (n / 2 ^ 16).toUInt8 (n / 2 ^ 8).toUInt8 n.toUInt8 = n := by
  simp only [fromBeBytes, Nat.toUInt8, UInt8.toNat_ofNat']
  omega

theorem getU32_putU32 {n : Nat} (small : n < 2 ^ 32) (rest : Bytes) : getU32 (putU32 n ++ rest) = n :=
  fromBeBytes_putU32 small

theorem getU32_take {b : Bytes} {n : Nat} (block : 4 ≤ n) : getU32 (b.take n) = getU32 b := by
  obtain ⟨n, rfl⟩ := Nat.exists_eq_add_of_le' block
  match b with
  | [] | [_] | [_, _] | [_, _, _] => rfl
  | _ :: _ :: _ :: _ :: _ => rfl

end GrpcWebnext
