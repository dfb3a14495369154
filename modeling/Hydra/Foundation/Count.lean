import Mathlib.Algebra.BigOperators.Group.Finset.Basic
import Mathlib.Algebra.Order.BigOperators.Group.Finset
import Mathlib.Data.Fintype.BigOperators

set_option autoImplicit false

/-!
# Foundation: counting the entries of a finite table

A counter kept beside a table is right when it is the number of entries with a
property.  The lemmas say how that number moves when one entry changes.
-/

namespace Hydra.Foundation

open Finset

variable {ι κ : Type*} [Fintype ι]

/-- How many entries satisfy the test. -/
def countWhere (p : ι → Bool) : Nat := (univ.filter fun i => p i = true).card

theorem countWhere_congr {p q : ι → Bool} (h : ∀ i, p i = q i) :
    countWhere p = countWhere q := by
  rw [funext h]

theorem countWhere_le_card (p : ι → Bool) : countWhere p ≤ Fintype.card ι :=
  card_le_univ _

theorem countWhere_eq_zero_iff {p : ι → Bool} :
    countWhere p = 0 ↔ ∀ i, p i = false := by
  simp [countWhere, Finset.filter_eq_empty_iff]

theorem countWhere_pos_iff {p : ι → Bool} : 0 < countWhere p ↔ ∃ i, p i = true := by
  simp [countWhere, Finset.card_pos, Finset.Nonempty]

theorem countWhere_mono {p q : ι → Bool} (h : ∀ i, p i = true → q i = true) :
    countWhere p ≤ countWhere q := by
  refine card_le_card fun i hi => ?_
  simpa using h i (by simpa using hi)

theorem countWhere_true : countWhere (fun _ : ι => true) = Fintype.card ι := by
  simp [countWhere]

/-- The members of a list of different numbers, counted in a table that holds them. -/
theorem length_eq_countWhere {n : Nat} {l : List Nat} (hnodup : l.Nodup) (hbound : ∀ c ∈ l, c < n) :
    l.length = countWhere fun c : Fin n => decide (c.val ∈ l) := by
  have hset : (univ.filter fun c : Fin n => decide (c.val ∈ l) = true).map Fin.valEmbedding =
      l.toFinset := by
    ext c
    simp only [mem_map, mem_filter, mem_univ, true_and, decide_eq_true_eq, Fin.valEmbedding_apply,
      List.mem_toFinset]
    constructor
    · rintro ⟨d, hd, rfl⟩
      exact hd
    · intro hc
      exact ⟨⟨c, hbound c hc⟩, hc, rfl⟩
  rw [countWhere, ← card_map Fin.valEmbedding, hset, List.toFinset_card_of_nodup hnodup]

/-- A list of different entries that satisfy the test. -/
theorem length_le_countWhere [DecidableEq ι] {p : ι → Bool} {l : List ι} (hnodup : l.Nodup)
    (hp : ∀ i ∈ l, p i = true) : l.length ≤ countWhere p := by
  rw [← List.toFinset_card_of_nodup hnodup]
  refine card_le_card fun i hi => ?_
  simpa using hp i (List.mem_toFinset.mp hi)

/-- A list that has every entry that does. -/
theorem countWhere_le_length [DecidableEq ι] {p : ι → Bool} {l : List ι}
    (hall : ∀ i, p i = true → i ∈ l) : countWhere p ≤ l.length := by
  refine le_trans (card_le_card fun i hi => ?_) (List.toFinset_card_le l)
  exact List.mem_toFinset.mpr (hall i (by simpa using hi))

/-- Turning one entry on adds one. -/
theorem countWhere_turnOn [DecidableEq ι] {p q : ι → Bool} {a : ι}
    (hp : p a = false) (hq : q a = true) (hrest : ∀ i, i ≠ a → q i = p i) :
    countWhere q = countWhere p + 1 := by
  have hset : (univ.filter fun i => q i = true) =
      insert a (univ.filter fun i => p i = true) := by
    ext i
    by_cases hi : i = a
    · simp [hi, hq]
    · simp [hi, hrest i hi]
  rw [countWhere, hset, card_insert_of_notMem (by simp [hp])]
  rfl

/-- Entries that satisfy both tests, when the second implies the first, leave the
difference. -/
theorem countWhere_and_not_add {p q : ι → Bool} (himp : ∀ i, q i = true → p i = true) :
    countWhere (fun i => p i && !q i) + countWhere q = countWhere p := by
  have hsplit := card_filter_add_card_filter_not (s := univ.filter fun i => p i = true)
    (fun i => q i = true)
  rw [filter_filter, filter_filter] at hsplit
  have hq : (univ.filter fun i => p i = true ∧ q i = true) =
      univ.filter fun i => q i = true := by
    ext i
    simp only [mem_filter, mem_univ, true_and]
    exact ⟨And.right, fun h => ⟨himp i h, h⟩⟩
  rw [hq] at hsplit
  have hnot : countWhere (fun i => p i && !q i) =
      (univ.filter fun i => p i = true ∧ ¬ q i = true).card := by
    simp [countWhere]
  rw [hnot]
  simp only [countWhere]
  omega

/-- Clearing flagged entries takes their number off the count. -/
theorem countWhere_clear {p q : ι → Bool} (flags : ι → Bool)
    (hflags : ∀ i, flags i = true → p i = true)
    (hq : ∀ i, q i = (p i && !flags i)) : countWhere q + countWhere flags = countWhere p := by
  rw [countWhere_congr hq, countWhere_and_not_add hflags]

/-- Entries of a table that are emptied: as many more are empty. -/
theorem countWhere_isNone_clear {β : Type*} {n : Nat} {l : List Nat} {t : Nat → Option β}
    (hnodup : l.Nodup) (hl : ∀ c ∈ l, c < n ∧ t c ≠ none) :
    (countWhere fun c : Fin n => (if c.val ∈ l then none else t c.val).isNone) =
      (countWhere fun c : Fin n => (t c.val).isNone) + l.length := by
  have hsplit := countWhere_and_not_add
    (p := fun c : Fin n => (if c.val ∈ l then none else t c.val).isNone)
    (q := fun c : Fin n => decide (c.val ∈ l))
    (by
      intro c hc
      simp [of_decide_eq_true hc])
  have hold : (countWhere fun c : Fin n =>
      (if c.val ∈ l then none else t c.val).isNone && !decide (c.val ∈ l)) =
      countWhere fun c : Fin n => (t c.val).isNone := by
    apply countWhere_congr
    intro c
    by_cases hc : c.val ∈ l
    · obtain ⟨b, hb⟩ := Option.ne_none_iff_exists'.mp (hl c hc).2
      simp [hc, hb]
    · simp [hc]
  rw [← hsplit, hold, length_eq_countWhere hnodup fun c hc => (hl c hc).1]

/-- A table of optional owners: the owned entries, counted owner by owner. -/
theorem countWhere_isSome_eq_sum [DecidableEq ι] [Fintype κ] [DecidableEq κ]
    (owner : ι → Option κ) :
    countWhere (fun i => (owner i).isSome) =
      ∑ k, countWhere fun i => decide (owner i = some k) := by
  simp only [countWhere, decide_eq_true_eq]
  rw [← Finset.card_biUnion]
  · congr 1
    ext i
    simp [Option.isSome_iff_exists]
  · intro k _ l _ hkl
    rw [Function.onFun, Finset.disjoint_left]
    intro i hi hj
    simp only [mem_filter, mem_univ, true_and] at hi hj
    exact hkl (Option.some.inj (hi.symm.trans hj))

/-- A finite set of numbers without gaps is what is below its size. -/
theorem mem_iff_lt_card {S : Finset Nat} (hdown : ∀ p q, p < q → q ∈ S → p ∈ S) {p : Nat} :
    p ∈ S ↔ p < S.card := by
  constructor
  · intro hp
    have hfirst : range (p + 1) ⊆ S := by
      intro q hq
      rcases Nat.lt_succ_iff_lt_or_eq.mp (mem_range.mp hq) with hq | rfl
      · exact hdown q p hq hp
      · exact hp
    have hcard := card_le_card hfirst
    rwa [card_range] at hcard
  · intro hlt
    by_contra hp
    have hless : S ⊆ range p := by
      intro q hq
      rw [mem_range]
      by_contra hpq
      rcases Nat.eq_or_lt_of_le (Nat.le_of_not_lt hpq) with rfl | hpq
      · exact hp hq
      · exact hp (hdown p q hpq hq)
    have hcard := card_le_card hless
    rw [card_range] at hcard
    omega

end Hydra.Foundation
