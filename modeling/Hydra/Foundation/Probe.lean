import Mathlib.Data.List.Basic
import Mathlib.Data.Nat.ModEq

set_option autoImplicit false

/-!
# Foundation: probing around a ring

The loop

    while (busy(r)) r = (r + 1) % n;

goes around a ring of `n` places and has no other exit than a place that is not busy.
`fuel` bounds its turns; a loop that ends does so in `n` of them.
-/

namespace Hydra.Foundation

variable {n : Nat} {busy : Nat → Bool} {r b fuel start : Nat}

/-- The loop, with at most `fuel` tests; `none` when they are used up. -/
def probe (n : Nat) (busy : Nat → Bool) : Nat → Nat → Option Nat
  | 0, _ => none
  | fuel + 1, r => if busy r then probe n busy fuel ((r + 1) % n) else some r

/-- The places tested. -/
theorem probe_eq_find? (hr : r < n) :
    probe n busy fuel r =
      ((List.range fuel).map fun k => (r + k) % n).find? fun b => !busy b := by
  induction fuel generalizing r with
  | zero => rfl
  | succ fuel ih =>
      have hnext : (r + 1) % n < n := Nat.mod_lt _ (by omega)
      have hshift : ((List.range fuel).map Nat.succ).map (fun k => (r + k) % n) =
          (List.range fuel).map fun k => ((r + 1) % n + k) % n := by
        rw [List.map_map]
        apply List.map_congr_left
        intro k _
        rw [Function.comp_apply, Nat.mod_add_mod, Nat.succ_eq_add_one, Nat.add_right_comm,
          Nat.add_assoc]
      have hfirst : (r + 0) % n = r := Nat.mod_eq_of_lt hr
      rw [probe, ih hnext, List.range_succ_eq_map, List.map_cons, hshift, hfirst, List.find?_cons]
      cases busy r <;> rfl

theorem probe_some (hr : r < n) (h : probe n busy fuel r = some b) : b < n ∧ busy b = false := by
  rw [probe_eq_find? hr] at h
  have hfree := List.find?_some h
  obtain ⟨k, -, rfl⟩ := List.mem_map.mp (List.mem_of_find?_eq_some h)
  exact ⟨Nat.mod_lt _ (by omega), by simpa using hfree⟩

/-- More turns than a loop needs change nothing. -/
theorem probe_mono (h : probe n busy fuel r = some b) {fuel' : Nat} (hle : fuel ≤ fuel') :
    probe n busy fuel' r = some b := by
  induction fuel generalizing r fuel' with
  | zero => cases h
  | succ fuel ih =>
      obtain ⟨fuel', rfl⟩ : ∃ k, fuel' = k + 1 := ⟨fuel' - 1, by omega⟩
      rw [probe] at h ⊢
      split at h
      · rename_i hbusy
        rw [if_pos hbusy]
        exact ih h (by omega)
      · rename_i hbusy
        rw [if_neg hbusy]
        exact h

/-- Going around once passes every place. -/
theorem exists_turn (r : Nat) (hb : b < n) : ∃ k < n, (r + k) % n = b := by
  have hr : r % n < n := Nat.mod_lt _ (by omega)
  refine ⟨(b + (n - r % n)) % n, Nat.mod_lt _ (by omega), ?_⟩
  calc (r + (b + (n - r % n)) % n) % n = (r % n + (b + (n - r % n))) % n := by
        rw [Nat.add_mod_mod, Nat.mod_add_mod]
    _ = (b + n) % n := by
        congr 1
        omega
    _ = b := by rw [Nat.add_mod_right, Nat.mod_eq_of_lt hb]

/-- The loop ends when some place is not busy. -/
theorem probe_total (hr : r < n) (hb : b < n) (hfree : busy b = false) :
    ∃ c, ∀ fuel, n ≤ fuel → probe n busy fuel r = some c := by
  obtain ⟨k, hk, hkb⟩ := exists_turn r hb
  have hsome : (probe n busy n r).isSome = true := by
    rw [probe_eq_find? hr, List.find?_isSome]
    exact ⟨b, List.mem_map.mpr ⟨k, List.mem_range.mpr hk, hkb⟩, by simp [hfree]⟩
  obtain ⟨c, hc⟩ := Option.isSome_iff_exists.mp hsome
  exact ⟨c, fun fuel hfuel => probe_mono hc hfuel⟩

end Hydra.Foundation
