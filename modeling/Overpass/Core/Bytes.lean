import Mathlib.Data.Vector.Basic
import Mathlib.Data.String.Basic

/-! Byte strings, the `[u8; 32]` values that every layer hashes, keys and compares,
and the little-endian `u64` codec of the root contract's state data. -/
namespace Overpass

/-- A `Vec<u8>` or a `&[u8]`. -/
abbrev Bytes := List UInt8

/-- A `[u8; 32]`: a hash, an address or a tree key. -/
abbrev Hash := Mathlib.Vector UInt8 32

/-- `[0u8; 32]`: the empty tree's root and the absent-child sentinel. -/
def zeroHash : Hash := Mathlib.Vector.replicate 32 0

def leBytes : Nat → Nat → Bytes
  | 0, _ => []
  | n + 1, x => (x % 256).toUInt8 :: leBytes n (x / 256)

def leValue : Bytes → Nat
  | [] => 0
  | b :: bs => b.toNat + 256 * leValue bs

@[simp] theorem length_leBytes (n x : Nat) : (leBytes n x).length = n := by
  induction n generalizing x <;> simp [leBytes, *]

theorem leValue_leBytes (n x : Nat) : leValue (leBytes n x) = x % 256 ^ n := by
  induction n generalizing x with
  | zero => simp [leBytes, leValue, Nat.mod_one]
  | succ n ih =>
    have hb : ((x % 256).toUInt8).toNat = x % 256 := by
      simp [Nat.toUInt8, UInt8.toNat, UInt8.ofNat, Nat.mod_eq_of_lt (Nat.mod_lt x (by decide : 0 < 256))]
    rw [leBytes, leValue, hb, ih, pow_succ, Nat.mul_comm _ 256, Nat.mod_mul]

/-- `u64::to_le_bytes`. -/
def toLeBytes (x : UInt64) : Bytes := leBytes 8 x.toNat

/-- `u64::from_le_bytes` of an eight-byte slice. -/
def fromLeBytes (b : Bytes) : UInt64 := UInt64.ofNat (leValue b)

@[simp] theorem length_toLeBytes (x : UInt64) : (toLeBytes x).length = 8 := length_leBytes 8 _

@[simp] theorem fromLeBytes_toLeBytes (x : UInt64) : fromLeBytes (toLeBytes x) = x := by
  have hx : x.toNat < 256 ^ 8 := x.toNat_lt_size
  rw [fromLeBytes, toLeBytes, leValue_leBytes, Nat.mod_eq_of_lt hx]
  exact UInt64.toNat.inj (UInt64.toNat_ofNat_of_lt hx)

theorem leValue_lt (b : Bytes) : leValue b < 256 ^ b.length := by
  induction b with
  | nil => simp [leValue]
  | cons x b ih =>
    have hx : x.toNat < 256 := x.toNat_lt
    rw [leValue, List.length_cons, pow_succ]
    omega

theorem leBytes_leValue (b : Bytes) : leBytes b.length (leValue b) = b := by
  induction b with
  | nil => rfl
  | cons x b ih =>
    have hx : x.toNat < 256 := x.toNat_lt
    have hm : (x.toNat + 256 * leValue b) % 256 = x.toNat := by omega
    have hd : (x.toNat + 256 * leValue b) / 256 = leValue b := by omega
    rw [List.length_cons, leValue, leBytes, hm, hd, ih]
    exact congrArg (· :: b) (UInt8.toNat.inj (by simp [Nat.toUInt8, UInt8.toNat, UInt8.ofNat, Nat.mod_eq_of_lt hx]))

theorem toLeBytes_fromLeBytes {b : Bytes} (h : b.length = 8) : toLeBytes (fromLeBytes b) = b := by
  have hb : leValue b < 2 ^ 64 := by simpa [h] using leValue_lt b
  rw [toLeBytes, fromLeBytes, UInt64.toNat_ofNat_of_lt hb, ← h, leBytes_leValue]

theorem toNat_succ_add_mod (x : UInt64) (n : Nat) :
    ((x + 1).toNat + n) % 2 ^ 64 = (x.toNat + (n + 1)) % 2 ^ 64 := by
  show ((x.toNat + 1) % 2 ^ 64 + n) % 2 ^ 64 = _
  rw [Nat.mod_add_mod, Nat.add_assoc, Nat.add_comm 1]

end Overpass
