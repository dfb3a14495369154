import Mathlib.LinearAlgebra.Lagrange
import Mathlib.LinearAlgebra.Matrix.NonsingularInverse
import Mathlib.LinearAlgebra.Vandermonde

set_option autoImplicit false

/-!
# Foundation: rows of a systematic code

The rows of a code are those of the identity, one for each column, and further ones with
the check symbols.  Any `k` of them determine the data when every square part of the
further rows does; `systematic_independent` says so.

Two kinds of check rows have this property: the inverses of differences
(`cauchy_independent`), and powers whose exponents are in arithmetic progression
(`powers_independent`).
-/

namespace Hydra.Foundation

open Finset Polynomial

variable {ι κ K : Type*} [Field K]

/-- The rows `R` tell the data in the columns `S`: they take only zero to zero. -/
def Independent (P : ι → κ → K) (R : Finset ι) (S : Finset κ) : Prop :=
  ∀ v : κ → K, (∀ r ∈ R, ∑ c ∈ S, P r c * v c = 0) → ∀ c ∈ S, v c = 0

theorem Independent.congr {P Q : ι → κ → K} {R : Finset ι} {S : Finset κ}
    (h : Independent P R S) (hPQ : ∀ r ∈ R, ∀ c ∈ S, P r c = Q r c) : Independent Q R S := by
  intro v hv
  refine h v fun r hr => ?_
  rw [← hv r hr]
  exact sum_congr rfl fun c hc => by rw [hPQ r hr c hc]

/-! ## Inverses of differences -/

section Cauchy

variable [DecidableEq κ] {R : Finset ι} {S : Finset κ} {x : ι → K} {y v : κ → K}

/-- The numerator of `∑ c, v c / (X - y c)`. -/
noncomputable def numerator (S : Finset κ) (y v : κ → K) : K[X] :=
  ∑ c ∈ S, C (v c) * Lagrange.nodal (S.erase c) y

theorem degree_numerator_lt : (numerator S y v).degree < S.card := by
  refine (degree_sum_le _ _).trans_lt ((Finset.sup_lt_iff (WithBot.bot_lt_coe _)).mpr ?_)
  intro c hc
  calc (C (v c) * Lagrange.nodal (S.erase c) y).degree
      ≤ (C (v c)).degree + (Lagrange.nodal (S.erase c) y).degree := degree_mul_le _ _
    _ ≤ 0 + (Lagrange.nodal (S.erase c) y).degree := by
        gcongr
        exact degree_C_le
    _ = ((S.erase c).card : WithBot ℕ) := by rw [zero_add, Lagrange.degree_nodal]
    _ < S.card := by
        rw [Nat.cast_lt]
        exact card_erase_lt_of_mem hc

/-- Away from the `y c` it is the sum times the product of the denominators. -/
theorem eval_numerator {a : K} (ha : ∀ c ∈ S, a ≠ y c) :
    (numerator S y v).eval a = (∏ c ∈ S, (a - y c)) * ∑ c ∈ S, (a - y c)⁻¹ * v c := by
  rw [numerator, eval_finsetSum, mul_sum]
  refine sum_congr rfl fun c hc => ?_
  have hne : a - y c ≠ 0 := sub_ne_zero.mpr (ha c hc)
  rw [eval_mul, eval_C, Lagrange.eval_nodal, ← mul_prod_erase S (fun c => a - y c) hc]
  field_simp

/-- At `y c` only one summand is left. -/
theorem eval_numerator_node {c : κ} (hc : c ∈ S) :
    (numerator S y v).eval (y c) = v c * (Lagrange.nodal (S.erase c) y).eval (y c) := by
  rw [numerator, eval_finsetSum, sum_eq_single_of_mem c hc]
  · rw [eval_mul, eval_C]
  · intro d _ hdc
    rw [eval_mul, Lagrange.eval_nodal_at_node (mem_erase.mpr ⟨hdc.symm, hc⟩), mul_zero]

/-- Rows of inverses of differences, as many as columns: the numerator would have more roots
than its degree. -/
theorem cauchy_independent (hcard : S.card ≤ R.card) (hx : Set.InjOn x R) (hy : Set.InjOn y S)
    (hne : ∀ r ∈ R, ∀ c ∈ S, x r ≠ y c) : Independent (fun r c => (x r - y c)⁻¹) R S := by
  intro v hv
  have hdegree : (numerator S y v).degree < R.card :=
    degree_numerator_lt.trans_le (Nat.cast_le.mpr hcard)
  have hzero : numerator S y v = 0 := by
    refine eq_zero_of_degree_lt_of_eval_index_eq_zero R hx hdegree fun r hr => ?_
    rw [eval_numerator (hne r hr), hv r hr, mul_zero]
  intro c hc
  have heval := eval_numerator_node (y := y) (v := v) hc
  rw [hzero, eval_zero] at heval
  refine (mul_eq_zero.mp heval.symm).resolve_right (Lagrange.eval_nodal_not_at_node ?_)
  intro d hd heq
  obtain ⟨hdc, hd⟩ := mem_erase.mp hd
  exact hdc (hy hd hc heq.symm)

end Cauchy

/-! ## Powers -/

section Powers

variable {R : Finset ι} {S : Finset κ} {z : κ → K} {e : ι → ℕ} {s d : ℕ}

/-- Rows of powers with exponents `s`, `s + d`, `s + 2 d` and so on, as many as columns. -/
theorem powers_independent (hz : ∀ c ∈ S, z c ≠ 0) (hinj : Set.InjOn (fun c => z c ^ d) S)
    (he : ∀ i < S.card, ∃ r ∈ R, e r = s + d * i) :
    Independent (fun r c => z c ^ e r) R S := by
  intro v hv c hc
  let f := S.equivFin
  -- the columns by number
  have hcolumns : ∀ g : κ → K, ∑ c ∈ S, g c = ∑ j : Fin S.card, g (f.symm j) := fun g => by
    rw [← sum_coe_sort S g]
    exact (Equiv.sum_comp f.symm fun c : S => g c).symm
  have hnodes : Function.Injective fun j : Fin S.card => z (f.symm j) ^ d := fun i j hij =>
    f.symm.injective (Subtype.ext (hinj (f.symm i).2 (f.symm j).2 hij))
  have hall : (fun j => v (f.symm j) * z (f.symm j) ^ s) = 0 := by
    refine Matrix.eq_zero_of_forall_pow_sum_mul_pow_eq_zero hnodes fun i => ?_
    obtain ⟨r, hr, hexp⟩ := he i i.2
    rw [← hv r hr, hcolumns]
    refine sum_congr rfl fun j _ => ?_
    calc v (f.symm j) * z (f.symm j) ^ s * (z (f.symm j) ^ d) ^ (i : ℕ)
        = z (f.symm j) ^ (s + d * i) * v (f.symm j) := by ring
      _ = z (f.symm j) ^ e r * v (f.symm j) := by rw [hexp]
  have hat := congrFun hall (f ⟨c, hc⟩)
  simp only [Equiv.symm_apply_apply, Pi.zero_apply] at hat
  exact (mul_eq_zero.mp hat).resolve_right (pow_ne_zero s (hz c hc))

end Powers

/-! ## Systematic rows -/

section Systematic

variable {E : ℕ → ℕ → K} {k : ℕ} {index : ℕ → ℕ}

/-- Any `k` rows are independent when the square parts of the check rows are: the data rows
among them leave as many columns as there are check rows. -/
theorem systematic_independent
    (hE : ∀ r < k, ∀ c < k, E r c = if r = c then 1 else 0)
    (hinj : Set.InjOn index (range k))
    (hcheck : ∀ R S : Finset ℕ, (∀ r ∈ R, k ≤ r ∧ ∃ i < k, index i = r) → S ⊆ range k →
      S.card = R.card → Independent E R S) :
    Independent (fun i => E (index i)) (range k) (range k) := by
  intro v hv
  let rows := (range k).image index
  let D := rows.filter (· < k)
  let R := rows.filter fun r => ¬r < k
  have hmem : ∀ r ∈ rows, ∃ i < k, index i = r := fun r hr => by
    obtain ⟨i, hi, rfl⟩ := mem_image.mp hr
    exact ⟨i, mem_range.mp hi, rfl⟩
  have hrow : ∀ r ∈ rows, ∑ c ∈ range k, E r c * v c = 0 := fun r hr => by
    obtain ⟨i, hi, rfl⟩ := hmem r hr
    exact hv i (mem_range.mpr hi)
  have hD : D ⊆ range k := fun r hr => mem_range.mpr (mem_filter.mp hr).2
  -- a data row tells its own column
  have hdata : ∀ c ∈ D, v c = 0 := fun c hc => by
    have hck : c < k := (mem_filter.mp hc).2
    rw [← hrow c (mem_filter.mp hc).1, sum_eq_single_of_mem c (mem_range.mpr hck)]
    · rw [hE c hck c hck, if_pos rfl, one_mul]
    · intro d hd hdc
      rw [hE c hck d (mem_range.mp hd), if_neg hdc.symm, zero_mul]
  have hcard : (range k \ D).card = R.card := by
    have hrows : rows.card = k := (card_image_of_injOn hinj).trans (card_range k)
    have hsplit : D.card + R.card = rows.card := card_filter_add_card_filter_not _
    rw [card_sdiff_of_subset hD, card_range]
    omega
  have hrest : ∀ c ∈ range k \ D, v c = 0 := by
    refine hcheck R (range k \ D) (fun r hr => ?_) sdiff_subset hcard v fun r hr => ?_
    · obtain ⟨hr, hrk⟩ := mem_filter.mp hr
      exact ⟨Nat.le_of_not_lt hrk, hmem r hr⟩
    · rw [← hrow r (mem_filter.mp hr).1]
      refine sum_subset sdiff_subset fun c hc hout => ?_
      have hcD : c ∈ D := by
        by_contra hcD
        exact hout (mem_sdiff.mpr ⟨hc, hcD⟩)
      rw [hdata c hcD, mul_zero]
  intro c hc
  by_cases hcD : c ∈ D
  · exact hdata c hcD
  · exact hrest c (mem_sdiff.mpr ⟨hc, hcD⟩)

end Systematic

/-! ## Inverses -/

/-- As many independent rows as columns have an inverse. -/
theorem Independent.exists_inverse {a : ℕ → ℕ → K} {n : ℕ}
    (h : Independent a (range n) (range n)) :
    ∃ x : ℕ → ℕ → K, ∀ r < n, ∀ c < n,
      ∑ q ∈ range n, x r q * a q c = if r = c then 1 else 0 := by
  let M : Matrix (Fin n) (Fin n) K := fun r c => a r c
  have hunit : IsUnit M := by
    rw [← Matrix.mulVec_injective_iff_isUnit]
    refine (injective_iff_map_eq_zero M.mulVecLin).mpr fun v hv => ?_
    funext c
    let w : ℕ → K := fun c => if hc : c < n then v ⟨c, hc⟩ else 0
    have hw : ∀ c : Fin n, w c = v c := fun c => dif_pos c.2
    rw [← hw c]
    refine h w (fun r hr => ?_) c (mem_range.mpr c.2)
    rw [sum_range]
    simp only [hw]
    exact congrFun hv ⟨r, mem_range.mp hr⟩
  refine ⟨fun r q => if h : r < n ∧ q < n then M⁻¹ ⟨r, h.1⟩ ⟨q, h.2⟩ else 0,
    fun r hr c hc => ?_⟩
  have hmul := congrFun (congrFun
    (Matrix.nonsing_inv_mul M ((Matrix.isUnit_iff_isUnit_det M).mp hunit)) ⟨r, hr⟩) ⟨c, hc⟩
  rw [Matrix.mul_apply, Matrix.one_apply] at hmul
  calc ∑ q ∈ range n, (if h : r < n ∧ q < n then M⁻¹ ⟨r, h.1⟩ ⟨q, h.2⟩ else 0) * a q c
      = ∑ q : Fin n, M⁻¹ ⟨r, hr⟩ q * M q ⟨c, hc⟩ := by
        rw [sum_range]
        exact sum_congr rfl fun q _ => by rw [dif_pos ⟨hr, q.2⟩]
    _ = if r = c then 1 else 0 := hmul.trans (if_congr Fin.mk_eq_mk rfl rfl)

end Hydra.Foundation
