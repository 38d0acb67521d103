import Mathlib.Data.Nat.Init
import Mathlib.Tactic.Ring

/-! Little-endian byte strings, as structures are laid out in memory. -/

namespace Bytes

/-- The `n` low bytes of `x`, least significant first. -/
def leBytes : Nat → Nat → List UInt8
  | 0, _ => []
  | n + 1, x => UInt8.ofNat x :: leBytes n (x / 256)

def leNat : List UInt8 → Nat
  | [] => 0
  | b :: bs => b.toNat + 256 * leNat bs

@[simp] theorem leBytes_length (n x : Nat) : (leBytes n x).length = n := by
  induction n generalizing x with
  | zero => rfl
  | succ n ih => simp only [leBytes, List.length_cons, ih]

theorem leNat_lt (bs : List UInt8) : leNat bs < 256 ^ bs.length := by
  induction bs with
  | nil => simp [leNat]
  | cons b bs ih =>
    have hb : b.toNat < 256 := b.toNat_lt
    rw [leNat, List.length_cons, pow_succ]
    omega

theorem leNat_leBytes (n x : Nat) : leNat (leBytes n x) = x % 256 ^ n := by
  induction n generalizing x with
  | zero => simp [leNat, leBytes, Nat.mod_one]
  | succ n ih =>
    rw [leBytes, leNat, ih, pow_succ, Nat.mul_comm (256 ^ n) 256, Nat.mod_mul]
    have h : (UInt8.ofNat x).toNat = x % 256 := by simp
    rw [h]

theorem leNat_leBytes_of_lt {n x : Nat} (h : x < 256 ^ n) : leNat (leBytes n x) = x := by
  rw [leNat_leBytes, Nat.mod_eq_of_lt h]

/-- The field of `n` bytes at position `pos` of a structure. -/
def field (bs : List UInt8) (pos n : Nat) : Nat := leNat ((bs.drop pos).take n)

theorem field_lt (bs : List UInt8) (pos n : Nat) : field bs pos n < 256 ^ n := by
  refine (leNat_lt _).trans_le (Nat.pow_le_pow_right (by decide) ?_)
  simp [List.length_take]

theorem field_append_left {as : List UInt8} (bs : List UInt8) {pos n : Nat}
    (h : pos + n ≤ as.length) : field (as ++ bs) pos n = field as pos n := by
  have hp : pos ≤ as.length := by omega
  rw [field, field, List.drop_append_of_le_length hp, List.take_append_of_le_length]
  rw [List.length_drop]
  omega

theorem field_append_right (as bs : List UInt8) (pos n : Nat) :
    field (as ++ bs) (as.length + pos) n = field bs pos n := by
  have h : as.drop (as.length + pos) = [] := List.drop_eq_nil_of_le (by omega)
  rw [field, field, List.drop_append, h, List.nil_append, Nat.add_sub_cancel_left]

theorem field_leBytes {n x : Nat} (h : x < 256 ^ n) : field (leBytes n x) 0 n = x := by
  rw [field, List.drop_zero, List.take_of_length_le (by simp), leNat_leBytes_of_lt h]

end Bytes
