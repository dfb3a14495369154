import Mathlib.Data.List.FinRange
import Hydra.Foundation.Count

set_option autoImplicit false

/-!
# Foundation: search loops with an exact-count exit

The loop

    for (i in l) if (test(i)) { act(i); n += 1; if (n == limit) break; }

does not stop at `limit` when it starts at or past it, and it stops early only by
meeting `limit` exactly.  `doFirst` is that loop; `doFirst_count` says how many
times it acts.
-/

namespace Hydra.Foundation

variable {ι σ : Type*}

/-- Act on every index that passes the test, leaving when the counter meets
`limit`.  Returns the state and the counter. -/
def doFirst (test : σ → ι → Bool) (act : ι → σ → σ) (limit : Int) :
    List ι → Int → σ → σ × Int
  | [], n, s => (s, n)
  | i :: rest, n, s =>
      if test s i then
        if n + 1 = limit then (act i s, n + 1)
        else doFirst test act limit rest (n + 1) (act i s)
      else doFirst test act limit rest n s

variable {test : σ → ι → Bool} {act : ι → σ → σ} {limit : Int}

/-- What every single action preserves, the loop preserves. -/
theorem doFirst_invariant (limit : Int) (test : σ → ι → Bool) (act : ι → σ → σ)
    {I : σ → Int → Prop}
    (hact : ∀ s n i, I s n → test s i = true → I (act i s) (n + 1))
    (l : List ι) (n : Int) (s : σ) (hstart : I s n) :
    I (doFirst test act limit l n s).1 (doFirst test act limit l n s).2 := by
  induction l generalizing n s with
  | nil => exact hstart
  | cons i rest ih =>
      unfold doFirst
      split
      · rename_i htest
        have hnext := hact s n i hstart htest
        split
        · exact hnext
        · exact ih (n + 1) (act i s) hnext
      · exact ih n s hstart

/-- How many times the loop acts: up to the limit when it starts below it and
there is enough to act on, and otherwise on everything that passes the test. -/
theorem doFirst_count
    (hkeep : ∀ s i k, i ≠ k → test (act i s) k = test s k)
    (l : List ι) (hnodup : l.Nodup) (n : Int) (s : σ) :
    (doFirst test act limit l n s).2 =
      if n < limit ∧ limit ≤ n + (l.filter (test s)).length then limit
      else n + (l.filter (test s)).length := by
  induction l generalizing n s with
  | nil =>
      have hnot : ¬ (n < limit ∧ limit ≤ n) := by omega
      simp [doFirst, hnot]
  | cons i rest ih =>
      have hrest : rest.Nodup := (List.nodup_cons.mp hnodup).2
      have hi : i ∉ rest := (List.nodup_cons.mp hnodup).1
      unfold doFirst
      split
      · rename_i htest
        -- acting on `i` leaves the tests of the remaining indices alone
        have hsame : rest.filter (test (act i s)) = rest.filter (test s) := by
          apply List.filter_congr
          intro k hk
          exact hkeep s i k (fun h => hi (h ▸ hk))
        rw [List.filter_cons_of_pos htest, List.length_cons]
        split
        · rename_i hlimit
          rw [if_pos ⟨by omega, by omega⟩]
          omega
        · rename_i hlimit
          rw [ih hrest (n + 1) (act i s), hsame]
          have hcond : (n + 1 < limit ∧ limit ≤ n + 1 + ((rest.filter (test s)).length : Int)) ↔
              (n < limit ∧ limit ≤ n + ((rest.filter (test s)).length + 1 : Nat)) := by
            constructor <;> rintro ⟨h₁, h₂⟩ <;> constructor <;> push_cast at * <;> omega
          rw [if_congr hcond rfl rfl]
          push_cast
          split <;> omega
      · rename_i htest
        rw [List.filter_cons_of_neg htest]
        exact ih hrest n s

theorem length_filter_finRange {n : Nat} (p : Fin n → Bool) :
    ((List.finRange n).filter p).length = countWhere p := by
  have hset : (Finset.univ.filter fun i => p i = true) = ((List.finRange n).filter p).toFinset := by
    ext i
    simp
  rw [countWhere, hset, List.toFinset_card_of_nodup ((List.nodup_finRange n).filter p)]

/-- `doFirst` over a whole table. -/
theorem doFirst_finRange_count {n : Nat} {test : σ → Fin n → Bool} {act : Fin n → σ → σ}
    (hkeep : ∀ s i k, i ≠ k → test (act i s) k = test s k) (s : σ) :
    (doFirst test act limit (List.finRange n) 0 s).2 =
      if 0 < limit ∧ limit ≤ countWhere (test s) then limit else countWhere (test s) := by
  rw [doFirst_count hkeep _ (List.nodup_finRange n), length_filter_finRange]
  simp

end Hydra.Foundation
