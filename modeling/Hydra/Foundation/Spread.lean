import Mathlib.Algebra.Order.Floor.Div
import Mathlib.Order.Interval.Finset.Nat

set_option autoImplicit false

/-!
# Foundation: spreading things over places

`q` things go to `n` places in order, as evenly as can be: the first `q % n` places get one
more than the others.  `spreadSize` is the share of a place and `spreadStart` the first
thing that goes to it; `Spreads` says of an assignment that it is this one.
-/

namespace Hydra.Foundation

variable {q n m h : Nat}

/-- The share of place `m`. -/
def spreadSize (q n m : Nat) : Nat := if m < q % n then q ⌈/⌉ n else q / n

/-- How many things go to the places before `m`. -/
def spreadStart (q n m : Nat) : Nat := m * (q / n) + min m (q % n)

theorem ceilDiv_eq_div (hn : 0 < n) (h : q % n = 0) : q ⌈/⌉ n = q / n := by
  have hq := Nat.div_add_mod q n
  rw [Nat.ceilDiv_eq_add_pred_div]
  apply Nat.div_eq_of_lt_le
  · rw [Nat.mul_comm]
    omega
  · rw [Nat.mul_comm, Nat.mul_add]
    omega

theorem ceilDiv_eq_succ (hn : 0 < n) (h : 0 < q % n) : q ⌈/⌉ n = q / n + 1 := by
  have hq := Nat.div_add_mod q n
  have hmod := Nat.mod_lt q hn
  rw [Nat.ceilDiv_eq_add_pred_div]
  apply Nat.div_eq_of_lt_le
  · rw [Nat.mul_comm, Nat.mul_add]
    omega
  · rw [Nat.mul_comm, Nat.mul_add, Nat.mul_add]
    omega

theorem spreadStart_zero : spreadStart q n 0 = 0 := by
  rw [spreadStart, Nat.zero_mul, Nat.zero_min]

theorem spreadStart_succ (hn : 0 < n) :
    spreadStart q n (m + 1) = spreadStart q n m + spreadSize q n m := by
  unfold spreadStart spreadSize
  rw [Nat.add_mul, Nat.one_mul]
  by_cases hm : m < q % n
  · rw [if_pos hm, ceilDiv_eq_succ hn (by omega)]
    omega
  · rw [if_neg hm]
    omega

theorem spreadStart_self (hn : 0 < n) : spreadStart q n n = q := by
  have hmod := Nat.mod_lt q hn
  rw [spreadStart, Nat.min_eq_right (by omega), Nat.div_add_mod]

theorem spreadStart_mono {k : Nat} (h : m ≤ k) : spreadStart q n m ≤ spreadStart q n k := by
  unfold spreadStart
  have := Nat.mul_le_mul_right (q / n) h
  omega

/-- A place that things still go to has a share. -/
theorem spreadSize_pos (hn : 0 < n) (h : spreadStart q n m < q) : 0 < spreadSize q n m := by
  unfold spreadSize
  by_cases hm : m < q % n
  · rw [if_pos hm, ceilDiv_eq_succ hn (by omega)]
    exact Nat.succ_pos _
  · rw [if_neg hm, Nat.pos_iff_ne_zero]
    -- without a share for the others, the first places have got everything
    intro hdiv
    have hq := Nat.div_add_mod q n
    rw [hdiv, Nat.mul_zero, Nat.zero_add] at hq
    rw [spreadStart, hdiv, Nat.mul_zero, Nat.zero_add, Nat.min_eq_right (by omega)] at h
    omega

/-- Thing `h` belongs to place `m`. -/
def SpreadsTo (q n h m : Nat) : Prop := spreadStart q n m ≤ h ∧ h < spreadStart q n (m + 1)

theorem SpreadsTo.lt (hn : 0 < n) (hh : h < q) (hto : SpreadsTo q n h m) : m < n := by
  by_contra hge
  have hle := spreadStart_mono (q := q) (n := n) (Nat.le_of_not_lt hge)
  rw [spreadStart_self hn] at hle
  have := hto.1
  omega

theorem SpreadsTo.mono {h' m' : Nat} (hto : SpreadsTo q n h m) (hto' : SpreadsTo q n h' m')
    (hle : h ≤ h') : m ≤ m' := by
  by_contra hlt
  have hstart : spreadStart q n (m' + 1) ≤ spreadStart q n m := spreadStart_mono (by omega)
  have := hto.1
  have := hto'.2
  omega

theorem SpreadsTo.unique {m' : Nat} (hto : SpreadsTo q n h m) (hto' : SpreadsTo q n h m') :
    m = m' :=
  Nat.le_antisymm (hto.mono hto' le_rfl) (hto'.mono hto le_rfl)

/-- Each place gets its share. -/
theorem card_filter_spreadsTo (hn : 0 < n) (hm : m < n) {p : Nat → Prop} [DecidablePred p]
    (hp : ∀ h < q, p h ↔ SpreadsTo q n h m) :
    ((Finset.range q).filter p).card = spreadSize q n m := by
  have hstop : spreadStart q n (m + 1) ≤ q :=
    (spreadStart_mono (Nat.succ_le_of_lt hm)).trans_eq (spreadStart_self hn)
  have hinterval : (Finset.range q).filter p =
      Finset.Ico (spreadStart q n m) (spreadStart q n (m + 1)) := by
    ext h
    rw [Finset.mem_filter, Finset.mem_range, Finset.mem_Ico]
    constructor
    · rintro ⟨hh, hph⟩
      exact (hp h hh).mp hph
    · intro hto
      have hh : h < q := by omega
      exact ⟨hh, (hp h hh).mpr hto⟩
  rw [hinterval, Nat.card_Ico, spreadStart_succ hn, Nat.add_sub_cancel_left]

end Hydra.Foundation
