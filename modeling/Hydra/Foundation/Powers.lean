import Mathlib.Algebra.Group.Basic
import Mathlib.Algebra.Group.Hom.Defs
import Mathlib.Logic.Function.Iterate

set_option autoImplicit false

/-!
# Foundation: multiplication by logarithms

A multiplication on an additive group from tables: every element but zero is a power of
one additive step applied to `one`, and `log` knows which.  `Powers.mul` adds logarithms;
it is then the multiplication of a field, because multiplying by a power is nothing but
repeating the step.
-/

namespace Hydra.Foundation

/-- The tables. -/
structure Powers (α : Type*) [AddCommGroup α] where
  step : α →+ α
  one : α
  log : α → Nat
  period : Nat
  period_pos : 0 < period
  one_ne : one ≠ 0
  step_period : step^[period] one = one
  log_le : ∀ a, log a ≤ period
  step_log : ∀ a, a ≠ 0 → step^[log a] one = a

namespace Powers

variable {α : Type*} [AddCommGroup α]

/-- The power of one number. -/
def exp (t : Powers α) (n : Nat) : α := t.step^[n] t.one

/-- Multiplication by adding logarithms. -/
def mul [DecidableEq α] (t : Powers α) (a b : α) : α :=
  if a = 0 ∨ b = 0 then 0 else t.exp (t.log a + t.log b)

/-- Inversion by subtracting them. -/
def inv [DecidableEq α] (t : Powers α) (a : α) : α :=
  if a = 0 then 0 else t.exp (t.period - t.log a)

variable {t : Powers α} {a b c : α} {i n : Nat}

theorem exp_log (h : a ≠ 0) : t.exp (t.log a) = a := t.step_log a h

theorem exp_add : t.exp (i + n) = t.step^[i] (t.exp n) :=
  Function.iterate_add_apply t.step i n t.one

theorem exp_period : t.exp (n + t.period) = t.exp n := by
  rw [exp_add, exp, t.step_period, exp]

theorem exp_period_mul : t.exp (n * t.period) = t.one := by
  induction n with
  | zero =>
      rw [Nat.zero_mul]
      rfl
  | succ n ih => rw [Nat.succ_mul, exp_period, ih]

/-- No power is zero: zero stays zero, and some later power is one. -/
theorem exp_ne_zero : t.exp n ≠ 0 := by
  intro h
  apply t.one_ne
  have hle : n ≤ n * t.period := Nat.le_mul_of_pos_right n t.period_pos
  calc t.one = t.exp (n * t.period) := exp_period_mul.symm
    _ = t.exp (n * t.period - n + n) := by rw [Nat.sub_add_cancel hle]
    _ = 0 := by rw [exp_add, h, iterate_map_zero]

variable [DecidableEq α]

theorem mul_comm : t.mul a b = t.mul b a := by
  simp only [mul, or_comm, Nat.add_comm]

theorem zero_mul : t.mul 0 b = 0 := by
  rw [mul, if_pos (.inl rfl)]

theorem mul_zero : t.mul a 0 = 0 := by
  rw [mul, if_pos (.inr rfl)]

/-- Multiplying by a power repeats the step. -/
theorem mul_exp : t.mul a (t.exp n) = t.step^[n] a := by
  by_cases ha : a = 0
  · rw [ha, zero_mul, iterate_map_zero]
  · have hne : ¬(a = 0 ∨ t.exp n = 0) := not_or_intro ha exp_ne_zero
    rw [mul, if_neg hne]
    calc t.exp (t.log a + t.log (t.exp n)) = t.step^[t.log a] (t.exp n) := by
          rw [exp_add, exp_log exp_ne_zero]
      _ = t.exp (n + t.log a) := by rw [← exp_add, Nat.add_comm]
      _ = t.step^[n] a := by rw [exp_add, exp_log ha]

theorem mul_of_ne (h : b ≠ 0) : t.mul a b = t.step^[t.log b] a := by
  rw [← mul_exp, exp_log h]

theorem one_mul : t.mul t.one b = b := by
  by_cases hb : b = 0
  · rw [hb, mul_zero]
  · rw [mul_of_ne hb]
    exact exp_log hb

theorem add_mul : t.mul (a + b) c = t.mul a c + t.mul b c := by
  by_cases hc : c = 0
  · rw [hc, mul_zero, mul_zero, mul_zero, add_zero]
  · rw [mul_of_ne hc, mul_of_ne hc, mul_of_ne hc, iterate_map_add]

theorem mul_assoc : t.mul (t.mul a b) c = t.mul a (t.mul b c) := by
  by_cases hb : b = 0
  · rw [hb, mul_zero, zero_mul, mul_zero]
  by_cases hc : c = 0
  · rw [hc, mul_zero, mul_zero, mul_zero]
  have hbc : t.mul b c = t.exp (t.log c + t.log b) := by
    rw [mul_of_ne hc, exp_add, exp_log hb]
  rw [hbc, mul_exp, mul_of_ne hc, mul_of_ne hb, Function.iterate_add_apply]

theorem mul_inv (h : a ≠ 0) : t.mul a (t.inv a) = t.one := by
  rw [inv, if_neg h, mul_exp]
  calc t.step^[t.period - t.log a] a = t.exp (t.period - t.log a + t.log a) := by
        rw [exp_add, exp_log h]
    _ = t.exp t.period := by rw [Nat.sub_add_cancel (t.log_le a)]
    _ = t.one := t.step_period

end Powers

end Hydra.Foundation
