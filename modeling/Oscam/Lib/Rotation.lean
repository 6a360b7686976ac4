import Mathlib.Logic.Function.Iterate
import Mathlib.Tactic.Ring

/-!
# Rotated numbers

The rotation of a number of some width by one bit to the right, and a register
that is rotated through a whole turn.
-/

namespace Rotation

/-- The lowest bit goes to the top. -/
def rotate (bits n : Nat) : Nat := n / 2 + n % 2 * 2 ^ (bits - 1)

/-- After `k` rotations the low `k` bits stand on top. -/
theorem rotate_iterate (bits n : Nat) {k : Nat} (short : k ≤ bits) :
    (rotate bits)^[k] n = n / 2 ^ k + n % 2 ^ k * 2 ^ (bits - k) := by
  induction k with
  | zero => simp [Nat.mod_one]
  | succ k induction =>
      obtain ⟨rest, rfl⟩ := Nat.le.dest short
      have before : k + 1 + rest - k = rest + 1 := by omega
      have after : k + 1 + rest - (k + 1) = rest := by omega
      have top : 2 ^ (k + 1 + rest - 1) = 2 ^ k * 2 ^ rest := by
        rw [← Nat.pow_add]
        congr 1
        omega
      have doubled : n % 2 ^ k * 2 ^ (rest + 1) =
          2 * (n % 2 ^ k * 2 ^ rest) := by
        rw [Nat.pow_succ]
        ring
      have shifted : n / 2 ^ (k + 1) = n / 2 ^ k / 2 := by
        rw [Nat.pow_succ, Nat.div_div_eq_div_mul]
      have bits : n % 2 ^ (k + 1) * 2 ^ rest =
          n % 2 ^ k * 2 ^ rest + n / 2 ^ k % 2 * (2 ^ k * 2 ^ rest) := by
        rw [Nat.mod_pow_succ, Nat.add_mul]
        ring
      rw [Function.iterate_succ_apply', induction (by omega), rotate, before,
        after, top, doubled, shifted, bits, Nat.add_mul_div_left _ _ (by decide),
        Nat.add_mul_mod_self_left]
      omega

/-- A whole turn. -/
theorem rotate_iterate_self {bits n : Nat} (short : n < 2 ^ bits) :
    (rotate bits)^[bits] n = n := by
  rw [rotate_iterate bits n (Nat.le_refl bits), Nat.div_eq_of_lt short,
    Nat.mod_eq_of_lt short, Nat.sub_self, Nat.pow_zero, Nat.mul_one,
    Nat.zero_add]

/-- A register that holds a number of `bits` bits, and its rotation. -/
theorem iterate_self {Register : Type*} {value : Register → Nat}
    {turn : Register → Register} {bits : Nat}
    (injective : Function.Injective value)
    (short : ∀ register, value register < 2 ^ bits)
    (turned : ∀ register,
      value (turn register) = rotate bits (value register))
    (register : Register) : turn^[bits] register = register := by
  have semiconj : Function.Semiconj value turn (rotate bits) := turned
  apply injective
  rw [semiconj.iterate_right bits register, rotate_iterate_self (short register)]

end Rotation
