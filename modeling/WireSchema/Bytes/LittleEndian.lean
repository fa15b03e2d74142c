/-!
# Little-endian numbers

A number below `256 ^ size` as exactly `size` bytes, least significant first,
and back. Main statements: the two directions are inverse to each other, the
first up to reduction modulo `256 ^ size`.
-/

namespace WireSchema.Bytes

set_option autoImplicit false

/-- The `size` low bytes of a number, least significant first. -/
def leBytes : Nat → Nat → List UInt8
  | 0, _ => []
  | size + 1, n => UInt8.ofNat (n % 256) :: leBytes size (n / 256)

/-- The number that bytes stand for, least significant first. -/
def leNat : List UInt8 → Nat
  | [] => 0
  | b :: rest => b.toNat + 256 * leNat rest

@[simp] theorem length_leBytes (size n : Nat) : (leBytes size n).length = size := by
  induction size generalizing n with
  | zero => rfl
  | succ size ih => simp [leBytes, ih]

theorem leNat_lt (bytes : List UInt8) : leNat bytes < Nat.pow 256 bytes.length := by
  induction bytes with
  | nil => exact Nat.one_pos
  | cons b rest ih =>
    have hb : b.toNat < 256 := b.toNat_lt
    have step : Nat.pow 256 (b :: rest).length = Nat.pow 256 rest.length * 256 := rfl
    rw [step]
    simp only [leNat]
    omega

@[simp] theorem leNat_leBytes (size n : Nat) : leNat (leBytes size n) = n % Nat.pow 256 size := by
  induction size generalizing n with
  | zero => exact (Nat.mod_one n).symm
  | succ size ih =>
    have step : Nat.pow 256 (size + 1) = 256 * Nat.pow 256 size := Nat.mul_comm _ _
    rw [step, Nat.mod_mul, leBytes, leNat, ih]
    simp

@[simp] theorem leBytes_leNat (bytes : List UInt8) : leBytes bytes.length (leNat bytes) = bytes := by
  induction bytes with
  | nil => rfl
  | cons b rest ih =>
    have hb : b.toNat < 256 := b.toNat_lt
    simp only [List.length_cons, leBytes, leNat]
    rw [show (b.toNat + 256 * leNat rest) % 256 = b.toNat by omega,
      show (b.toNat + 256 * leNat rest) / 256 = leNat rest by omega, ih]
    simp

end WireSchema.Bytes
