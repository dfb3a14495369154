/-
  Coding/Invert.lean --- inverting a matrix of bytes.

  Source: `gf_invert_matrix` of `resilience_manager/erasure_code/ec_base.c`.

  The input is reduced to the identity, column after column, and every row operation is
  done on a second matrix as well, which starts as the identity.  Each row of the first
  is at all times the product of the same row of the second with the input, so what the
  second holds at the end is a left inverse.  No row operation enlarges the kernel, so a
  column without a pivot means that there is none.
-/
import Mathlib.Algebra.BigOperators.Group.Finset.Sigma
import Mathlib.Algebra.BigOperators.Ring.Finset
import Mathlib.Logic.Equiv.Basic
import Hydra.Foundation.Checked
import Hydra.Coding.Gf256

set_option autoImplicit false

namespace Hydra.Coding

open Hydra.Foundation Finset

/-- A matrix of the source; `a[n * r + c]` is row `r`, column `c`. -/
abbrev Rows : Type := Nat → Nat → Gf256

namespace Rows

/-- The identity matrix. -/
def identity : Rows := fun r c => if r = c then 1 else 0

theorem sum_identity_mul {r n : Nat} (hr : r < n) (f : Nat → Gf256) :
    ∑ q ∈ range n, identity r q * f q = f r := by
  rw [sum_eq_single r]
  · rw [identity, if_pos rfl, one_mul]
  · intro q _ hq
    rw [identity, if_neg hq.symm, zero_mul]
  · intro hout
    exact absurd (mem_range.mpr hr) hout

end Rows

/-- `in_mat` and `out_mat`. -/
structure Reduction where
  inMat : Rows
  outMat : Rows

namespace Reduction

/-- "Swap rows i,j". -/
def swapRows (i j : Nat) (s : Reduction) : Reduction where
  inMat := fun r => s.inMat (Equiv.swap i j r)
  outMat := fun r => s.outMat (Equiv.swap i j r)

/-- "Scale row i by 1/pivot". -/
def scaleRow (i : Nat) (s : Reduction) : Reduction :=
  let temp := (s.inMat i i)⁻¹
  { inMat := Function.update s.inMat i fun c => s.inMat i c * temp
    outMat := Function.update s.outMat i fun c => s.outMat i c * temp }

/-- Clear column `i` of row `j`. -/
def clearRow (i : Nat) (s : Reduction) (j : Nat) : Reduction :=
  if j = i then s
  else
    let temp := s.inMat j i
    { inMat := Function.update s.inMat j fun c => s.inMat j c + temp * s.inMat i c
      outMat := Function.update s.outMat j fun c => s.outMat j c + temp * s.outMat i c }

/-- "Check for 0 in pivot element"; the error is a singular matrix. -/
def pivot (n i : Nat) (s : Reduction) : Except Unit Reduction :=
  if s.inMat i i = 0 then
    match scan (fun j => s.inMat j i = 0) (n - (i + 1)) (i + 1) with
    | .ok j => .ok (s.swapRows i j)
    | .error _ => .error ()
  else .ok s

/-- One turn of the outer loop. -/
def reduce (n : Nat) (s : Reduction) (i : Nat) : Except Unit Reduction := do
  let s ← s.pivot n i
  return (List.range n).foldl (clearRow i) (s.scaleRow i)

end Reduction

/-- `gf_invert_matrix`; the error is its `-1`. -/
def gfInvertMatrix (inMat : Rows) (n : Nat) : Except Unit Rows := do
  let s ← (List.range n).foldlM (Reduction.reduce n) ⟨inMat, Rows.identity⟩
  return s.outMat

/-! ## Row operations -/

/-- A row of `in_mat` and the row of `out_mat` it comes from. -/
def Tracked (a : Rows) (n : Nat) (row out : Nat → Gf256) : Prop :=
  ∀ c < n, row c = ∑ q ∈ range n, out q * a q c

section Tracked

variable {a : Rows} {n : Nat} {row row' out out' : Nat → Gf256} {t : Gf256}

theorem Tracked.scale (h : Tracked a n row out) :
    Tracked a n (fun c => row c * t) (fun q => out q * t) := by
  intro c hc
  calc row c * t = (∑ q ∈ range n, out q * a q c) * t := by rw [h c hc]
    _ = ∑ q ∈ range n, out q * t * a q c := by
        rw [sum_mul]
        exact sum_congr rfl fun q _ => mul_right_comm _ _ _

theorem Tracked.combine (h : Tracked a n row out) (h' : Tracked a n row' out') :
    Tracked a n (fun c => row c + t * row' c) (fun q => out q + t * out' q) := by
  intro c hc
  calc row c + t * row' c
      = ∑ q ∈ range n, out q * a q c + t * ∑ q ∈ range n, out' q * a q c := by
        rw [h c hc, h' c hc]
    _ = ∑ q ∈ range n, (out q + t * out' q) * a q c := by
        rw [mul_sum, ← sum_add_distrib]
        exact sum_congr rfl fun q _ => by rw [add_mul, mul_assoc]

theorem tracked_identity {r : Nat} (hr : r < n) : Tracked a n (a r) (Rows.identity r) :=
  fun c _ => (Rows.sum_identity_mul hr fun q => a q c).symm

end Tracked

/-- A row times a column. -/
def dot (n : Nat) (row v : Nat → Gf256) : Gf256 := ∑ c ∈ range n, row c * v c

section Dot

variable {n : Nat} {row row' v : Nat → Gf256} {t : Gf256}

theorem dot_scale : dot n (fun c => row c * t) v = dot n row v * t := by
  rw [dot, dot, sum_mul]
  exact sum_congr rfl fun c _ => mul_right_comm _ _ _

theorem dot_combine : dot n (fun c => row c + t * row' c) v = dot n row v + t * dot n row' v := by
  rw [dot, dot, dot, mul_sum, ← sum_add_distrib]
  exact sum_congr rfl fun c _ => by rw [add_mul, mul_assoc]

/-- A left inverse gives back what the matrix was applied to. -/
theorem sum_inverse_dot {a x : Rows} {r : Nat}
    (hx : ∀ r < n, ∀ c < n, ∑ q ∈ range n, x r q * a q c = Rows.identity r c) (hr : r < n)
    (v : Nat → Gf256) : ∑ q ∈ range n, x r q * dot n (a q) v = v r := by
  calc ∑ q ∈ range n, x r q * dot n (a q) v
      = ∑ q ∈ range n, ∑ c ∈ range n, x r q * (a q c * v c) :=
        sum_congr rfl fun q _ => by rw [dot, mul_sum]
    _ = ∑ c ∈ range n, (∑ q ∈ range n, x r q * a q c) * v c := by
        rw [sum_comm]
        refine sum_congr rfl fun c _ => ?_
        rw [sum_mul]
        exact sum_congr rfl fun q _ => (mul_assoc _ _ _).symm
    _ = ∑ c ∈ range n, Rows.identity r c * v c :=
        sum_congr rfl fun c hc => by rw [hx r hr c (mem_range.mp hc)]
    _ = v r := Rows.sum_identity_mul hr v

end Dot

/-! ## The reduction -/

/-- The first `i` columns are those of the identity. -/
structure Reduced (a : Rows) (n i : Nat) (s : Reduction) : Prop where
  tracked : ∀ r < n, Tracked a n (s.inMat r) (s.outMat r)
  kernel : ∀ v, (∀ r < n, dot n (s.inMat r) v = 0) → ∀ r < n, dot n (a r) v = 0
  unit : ∀ c < i, ∀ r < n, s.inMat r c = Rows.identity r c

/-- Inside a turn: column `i` is cleared in the first `t` rows. -/
structure Clearing (a : Rows) (n i t : Nat) (s : Reduction) : Prop
    extends Reduced a n i s where
  one : s.inMat i i = 1
  cleared : ∀ r < t, r ≠ i → s.inMat r i = 0

section Reduction

variable {a : Rows} {n i j t : Nat} {s s' : Reduction}

/-- The rows from `i` on are clear in the columns before `i`. -/
theorem Reduced.zero (h : Reduced a n i s) {r c : Nat} (hc : c < i) (hir : i ≤ r) (hr : r < n) :
    s.inMat r c = 0 := by
  rw [h.unit c hc r hr, Rows.identity, if_neg (by omega)]

theorem Reduced.swapRows (h : Reduced a n i s) (hij : i < j) (hj : j < n) :
    Reduced a n i (s.swapRows i j) where
  tracked r hr := by
    have hswap : Equiv.swap i j r < n := by
      rw [Equiv.swap_apply_def]
      split_ifs <;> omega
    exact h.tracked _ hswap
  kernel v hv := h.kernel v fun r hr => by
    have hswap : Equiv.swap i j r < n := by
      rw [Equiv.swap_apply_def]
      split_ifs <;> omega
    have hrow : dot n (s.inMat (Equiv.swap i j (Equiv.swap i j r))) v = 0 := hv _ hswap
    rwa [Equiv.swap_apply_self] at hrow
  unit c hc r hr := by
    show s.inMat (Equiv.swap i j r) c = Rows.identity r c
    rw [Equiv.swap_apply_def]
    split_ifs with hri hrj
    · rw [hri, h.zero hc hij.le hj, Rows.identity, if_neg (by omega)]
    · rw [hrj, h.zero hc le_rfl (by omega), Rows.identity, if_neg (by omega)]
    · exact h.unit c hc r hr

theorem Reduced.pivot (h : Reduced a n i s) (hi : i < n) (hs : s.pivot n i = .ok s') :
    Reduced a n i s' ∧ s'.inMat i i ≠ 0 := by
  rw [Reduction.pivot] at hs
  split at hs
  · split at hs
    · rename_i j hscan
      obtain ⟨hij, hjn, hne, -⟩ := scan_ok hscan
      obtain rfl : s.swapRows i j = s' := by simpa using hs
      refine ⟨h.swapRows (by omega) (by omega), ?_⟩
      show s.inMat (Equiv.swap i j i) i ≠ 0
      rw [Equiv.swap_apply_left]
      simpa using hne
    · cases hs
  · rename_i hne
    obtain rfl : s = s' := by simpa using hs
    exact ⟨h, hne⟩

theorem Reduced.scaleRow (h : Reduced a n i s) (hi : i < n) (hne : s.inMat i i ≠ 0) :
    Clearing a n i 0 (s.scaleRow i) where
  tracked r hr := by
    by_cases hri : r = i
    · subst hri
      simpa [Reduction.scaleRow] using (h.tracked r hr).scale
    · simpa [Reduction.scaleRow, hri] using h.tracked r hr
  kernel v hv := h.kernel v fun r hr => by
    have hrow := hv r hr
    by_cases hri : r = i
    · subst hri
      simpa [Reduction.scaleRow, dot_scale, hne] using hrow
    · simpa [Reduction.scaleRow, hri] using hrow
  unit c hc r hr := by
    by_cases hri : r = i
    · subst hri
      have hzero := h.zero hc le_rfl hr
      simp [Reduction.scaleRow, hzero, Rows.identity, show r ≠ c by omega]
    · simpa [Reduction.scaleRow, hri] using h.unit c hc r hr
  one := by simp [Reduction.scaleRow, hne]
  cleared r hr := by omega

theorem Clearing.clearRow (h : Clearing a n i t s) (hi : i < n) (ht : t < n) :
    Clearing a n i (t + 1) (s.clearRow i t) := by
  by_cases hti : t = i
  · rw [Reduction.clearRow, if_pos hti]
    refine ⟨h.toReduced, h.one, fun r hr hri => h.cleared r (by omega) hri⟩
  · rw [Reduction.clearRow, if_neg hti]
    refine ⟨⟨fun r hr => ?_, fun v hv => h.kernel v fun r hr => ?_, fun c hc r hr => ?_⟩, ?_,
      fun r hr hri => ?_⟩
    · by_cases hrt : r = t
      · subst hrt
        simpa using (h.tracked r hr).combine (h.tracked i hi)
      · simpa [hrt] using h.tracked r hr
    · have hrow := hv r hr
      by_cases hrt : r = t
      · subst hrt
        have hpivot : dot n (s.inMat i) v = 0 := by simpa [Ne.symm hti] using hv i hi
        simpa [dot_combine, hpivot] using hrow
      · simpa [hrt] using hrow
    · by_cases hrt : r = t
      · subst hrt
        have hzero := h.zero hc le_rfl hi
        simpa [hzero] using h.unit c hc r hr
      · simpa [hrt] using h.unit c hc r hr
    · simpa [Ne.symm hti] using h.one
    · by_cases hrt : r = t
      · subst hrt
        simp [h.one, Gf256.add_self]
      · simpa [hrt] using h.cleared r (by omega) hri

theorem Clearing.foldl (h : Clearing a n i 0 s) (hi : i < n) (ht : t ≤ n) :
    Clearing a n i t ((List.range t).foldl (Reduction.clearRow i) s) := by
  induction t with
  | zero => exact h
  | succ t ih =>
      rw [List.range_succ, List.foldl_append]
      exact (ih (by omega)).clearRow hi (by omega)

/-- The column is done when it is cleared in every row. -/
theorem Clearing.reduced (h : Clearing a n i n s) : Reduced a n (i + 1) s where
  tracked := h.tracked
  kernel := h.kernel
  unit c hc r hr := by
    rcases Nat.lt_succ_iff_lt_or_eq.mp hc with hc | rfl
    · exact h.unit c hc r hr
    · by_cases hrc : r = c
      · rw [hrc, h.one, Rows.identity, if_pos rfl]
      · rw [h.cleared r hr hrc, Rows.identity, if_neg hrc]

theorem Reduced.reduce (h : Reduced a n i s) (hi : i < n) (hs : s.reduce n i = .ok s') :
    Reduced a n (i + 1) s' := by
  obtain ⟨u, hu, hs⟩ := bind_eq_ok.mp hs
  obtain rfl := Except.ok.inj hs
  obtain ⟨hu, hne⟩ := h.pivot hi hu
  exact ((hu.scaleRow hi hne).foldl hi le_rfl).reduced

end Reduction

theorem reduced_zero (a : Rows) (n : Nat) : Reduced a n 0 ⟨a, Rows.identity⟩ :=
  ⟨fun _ hr => tracked_identity hr, fun _ hv => hv, fun c hc => absurd hc (Nat.not_lt_zero c)⟩

/-- What `gf_invert_matrix` returns with 0 is a left inverse of its input. -/
theorem gfInvertMatrix_ok {a x : Rows} {n : Nat} (h : gfInvertMatrix a n = .ok x) :
    ∀ r < n, ∀ c < n, ∑ q ∈ range n, x r q * a q c = Rows.identity r c := by
  obtain ⟨s, hs, hx⟩ := bind_eq_ok.mp h
  obtain rfl := Except.ok.inj hx
  have hreduced : Reduced a n n s :=
    foldlM_range_keeps (fun i hi s s' hI hturn => hI.reduce hi hturn)
      (reduced_zero a n) hs
  intro r hr c hc
  rw [← hreduced.tracked r hr c hc, hreduced.unit c hc r hr]

/-- A column without a pivot depends on the columns before it. -/
theorem Reduced.exists_kernel {a : Rows} {n i : Nat} {s : Reduction} (h : Reduced a n i s)
    (hi : i < n) (hzero : ∀ r, i ≤ r → r < n → s.inMat r i = 0) :
    ∃ v : Nat → Gf256, v i = 1 ∧ ∀ r < n, dot n (a r) v = 0 := by
  let v : Nat → Gf256 := fun c => if c = i then 1 else if c < i then s.inMat c i else 0
  have hvi : v i = 1 := if_pos rfl
  have hvc : ∀ c < i, v c = s.inMat c i := fun c hc => by
    show (if c = i then (1 : Gf256) else if c < i then s.inMat c i else 0) = _
    rw [if_neg (by omega), if_pos hc]
  have hafter : ∀ c, i < c → v c = 0 := fun c hc => by
    show (if c = i then (1 : Gf256) else if c < i then s.inMat c i else 0) = _
    rw [if_neg (by omega), if_neg (by omega)]
  refine ⟨v, hvi, h.kernel v fun r hr => ?_⟩
  rcases Nat.lt_or_ge r i with hri | hir
  · -- the row has a one in its own column and what is to be cancelled in column `i`
    have hone : s.inMat r r = 1 := by rw [h.unit r hri r hr, Rows.identity, if_pos rfl]
    rw [dot, sum_eq_add r i hri.ne]
    · rw [hone, hvc r hri, hvi, one_mul, mul_one, Gf256.add_self]
    · rintro c hc ⟨hcr, hci⟩
      rcases Nat.lt_or_gt_of_ne hci with hci | hci
      · rw [h.unit c hci r hr, Rows.identity, if_neg (Ne.symm hcr), zero_mul]
      · rw [hafter c hci, mul_zero]
    · exact fun hout => absurd (mem_range.mpr hr) hout
    · exact fun hout => absurd (mem_range.mpr hi) hout
  · refine sum_eq_zero fun c hc => ?_
    rcases Nat.lt_trichotomy c i with hci | rfl | hci
    · rw [h.zero hci hir hr, zero_mul]
    · rw [hzero r hir hr, zero_mul]
    · rw [hafter c hci, mul_zero]

/-- A matrix with a left inverse has a pivot in every column. -/
theorem Reduced.exists_pivot {a x : Rows} {n i : Nat} {s : Reduction} (h : Reduced a n i s)
    (hi : i < n)
    (hx : ∀ r < n, ∀ c < n, ∑ q ∈ range n, x r q * a q c = Rows.identity r c) :
    ∃ r, i ≤ r ∧ r < n ∧ s.inMat r i ≠ 0 := by
  by_contra hnone
  obtain ⟨v, hvi, hv⟩ := h.exists_kernel hi fun r hir hr => by
    by_contra hne
    exact hnone ⟨r, hir, hr, hne⟩
  have hzero : v i = 0 := by
    rw [← sum_inverse_dot hx hi v]
    exact sum_eq_zero fun q hq => by rw [hv q (mem_range.mp hq), mul_zero]
  rw [hvi] at hzero
  exact one_ne_zero hzero

/-- `gf_invert_matrix` fails on the matrices without a left inverse, and on no others. -/
theorem gfInvertMatrix_error_iff (a : Rows) (n : Nat) :
    gfInvertMatrix a n = .error () ↔
      ¬∃ x : Rows, ∀ r < n, ∀ c < n, ∑ q ∈ range n, x r q * a q c = Rows.identity r c := by
  constructor
  · rintro herror ⟨x, hx⟩
    have hgo : ∀ i < n, ∀ s, Reduced a n i s → ∃ s', s.reduce n i = .ok s' := by
      intro i hi s h
      obtain ⟨u, hu⟩ : ∃ u, s.pivot n i = .ok u := by
        rw [Reduction.pivot]
        split
        · rename_i hzero
          obtain ⟨r, hir, hr, hne⟩ := h.exists_pivot hi hx
          have hri : r ≠ i := by
            rintro rfl
            exact hne hzero
          obtain ⟨j, hj⟩ : ∃ j, scan (fun j => s.inMat j i = 0) (n - (i + 1)) (i + 1) = .ok j :=
            scan_total (show i + 1 ≤ r by omega) (by omega) (by simpa using hne)
          exact ⟨s.swapRows i j, by rw [hj]⟩
        · exact ⟨s, rfl⟩
      exact ⟨_, bind_eq_ok.mpr ⟨u, hu, rfl⟩⟩
    obtain ⟨s, hs⟩ := foldlM_range_total (fun i hi s s' hI hturn => hI.reduce hi hturn) hgo
      (reduced_zero a n)
    rw [gfInvertMatrix, hs] at herror
    cases herror
  · intro hnone
    cases hrun : gfInvertMatrix a n with
    | error e => rfl
    | ok x => exact absurd ⟨x, gfInvertMatrix_ok hrun⟩ hnone

end Hydra.Coding
