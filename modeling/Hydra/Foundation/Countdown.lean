import Mathlib.Data.List.Basic

set_option autoImplicit false

/-!
# Foundation: countdowns

A counter that is wound up when it stands at zero and goes down by one at every tick.
`beats` runs it over a list of both and fails where the counter would be wound up early
or go below zero.  Between two windings it ticks as often as it was wound up.
-/

namespace Hydra.Foundation

/-- What happens to a countdown. -/
inductive Beat where
  | wind (v : Nat)
  | tick
  deriving DecidableEq, Repr

/-- One beat; `none` for a winding above zero and a tick at zero. -/
def beat : Nat → Beat → Option Nat
  | 0, .wind v => some v
  | n + 1, .tick => some n
  | _ + 1, .wind _ => none
  | 0, .tick => none

/-- One after the other. -/
def beats : Nat → List Beat → Option Nat
  | n, [] => some n
  | n, b :: rest => (beat n b).bind fun n => beats n rest

variable {n k v : Nat} {l l' mid post : List Beat}

theorem beats_append : beats n (l ++ l') = (beats n l).bind fun n => beats n l' := by
  induction l generalizing n with
  | nil => rfl
  | cons b rest ih =>
      simp only [List.cons_append, beats, Option.bind_assoc]
      congr 1
      funext n
      exact ih

/-- Ticks alone. -/
theorem beats_ticks (hticks : ∀ b ∈ l, b = .tick) (h : beats n l = some k) :
    n = k + l.length := by
  induction l generalizing n with
  | nil => exact Option.some.inj h
  | cons b rest ih =>
      obtain rfl := hticks b List.mem_cons_self
      obtain ⟨m, hm, hrest⟩ := Option.bind_eq_some_iff.mp h
      cases n with
      | zero => cases hm
      | succ n =>
          obtain rfl := Option.some.inj hm
          rw [ih (fun b hb => hticks b (List.mem_cons_of_mem _ hb)) hrest, List.length_cons]
          omega

/-- From one winding to the next there are as many ticks as it was wound up. -/
theorem beats_between {w : Nat} (hticks : ∀ b ∈ mid, b = .tick)
    (h : beats n (l ++ .wind v :: (mid ++ .wind w :: post)) = some k) : mid.length = v := by
  rw [beats_append] at h
  obtain ⟨n₁, -, h⟩ := Option.bind_eq_some_iff.mp h
  obtain ⟨n₂, hwind, h⟩ := Option.bind_eq_some_iff.mp h
  rw [beats_append] at h
  obtain ⟨n₃, hmid, h⟩ := Option.bind_eq_some_iff.mp h
  obtain ⟨n₄, hnext, -⟩ := Option.bind_eq_some_iff.mp h
  have hv : n₂ = v := by
    cases n₁ with
    | zero => exact (Option.some.inj hwind).symm
    | succ n₁ => cases hwind
  have hzero : n₃ = 0 := by
    cases n₃ with
    | zero => rfl
    | succ n₃ => cases hnext
  have hlen := beats_ticks hticks hmid
  omega

end Hydra.Foundation
