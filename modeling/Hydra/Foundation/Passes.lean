import Mathlib.Algebra.NeZero
import Hydra.Foundation.Blocks

set_option autoImplicit false

/-!
# Foundation: passes of a fixed width

A loop that treats `w` places at a time covers a length that is no multiple of `w` by
one more pass that ends where the length does and overlaps the pass before it.  `passes`
is that loop; `passes_eq` says that it is as good as one pass over everything, as long as
a pass does not mind what was done to its places before.

`putRows` is what such a loop leaves when each pass writes a few rows: the first places
of every row hold their values, and nothing else has changed.
-/

namespace Hydra.Foundation

section Passes

variable {σ : Type*}

/-- Passes at `pos`, `pos + w` and so on; the last one is at `last`. -/
def passes (w : Nat) [NeZero w] (pass : Nat → σ → σ) (last pos : Nat) (_h : pos ≤ last) (s : σ) :
    σ :=
  let s := pass pos s
  if hle : pos + w ≤ last then passes w pass last (pos + w) hle s
  else if pos + w = last + w then s
  else passes w pass last last (Nat.le_refl last) s
termination_by last - pos
decreasing_by
  · have := NeZero.pos w
    omega
  · omega

variable {w : Nat} [NeZero w] {pass : Nat → σ → σ} {last : Nat}

/-- `done p` is the state with the places below `p` done. -/
theorem passes_eq {done : Nat → σ}
    (hpass : ∀ pos p, pos ≤ last → pos ≤ p → p ≤ pos + w → pass pos (done p) = done (pos + w)) :
    ∀ (pos p : Nat) (h : pos ≤ last), pos ≤ p → p ≤ pos + w →
      passes w pass last pos h (done p) = done (last + w) := by
  have hw := NeZero.pos w
  intro pos
  induction hn : last - pos using Nat.strong_induction_on generalizing pos with
  | h n ih =>
      intro p h hp hpw
      rw [passes, hpass pos p h hp hpw]
      split
      · rename_i hle
        exact ih _ (by omega) (pos + w) rfl (pos + w) hle le_rfl (by omega)
      · split
        · rename_i hend
          rw [hend]
        · rename_i hnext hend
          -- the places from `last` to `pos + w` are done a second time
          exact ih _ (by omega) last rfl (pos + w) le_rfl (by omega) (by omega)

end Passes

section Rows

variable {ι α : Type*}

theorem copyTo_succ (mem f : Nat → α) (dst n : Nat) :
    copyTo mem dst (n + 1) f = Function.update (copyTo mem dst n f) (dst + n) (f n) := by
  funext a
  by_cases ha : a = dst + n
  · rw [ha, Function.update_self, copyTo, if_pos (by omega), Nat.add_sub_cancel_left]
  · rw [Function.update_of_ne ha, copyTo, copyTo]
    exact if_congr (by omega) rfl rfl

/-- Rows that are all different. -/
def RowsDiffer (n : Nat) (row : Nat → ι) : Prop :=
  ∀ l < n, ∀ l' < n, row l = row l' → l = l'

theorem RowsDiffer.mono {m n : Nat} {row : Nat → ι} (h : RowsDiffer n row) (hm : m ≤ n) :
    RowsDiffer m row :=
  fun l hl l' hl' heq => h l (by omega) l' (by omega) heq

variable [DecidableEq ι]

/-- Copy to `n` rows, one after the other. -/
def putRows (n : Nat) (row : Nat → ι) (dst len : Nat) (f : Nat → Nat → α) (bufs : ι → Nat → α) :
    ι → Nat → α :=
  (List.range n).foldl
    (fun bufs l => Function.update bufs (row l) (copyTo (bufs (row l)) dst len (f l))) bufs

variable {n : Nat} {row : Nat → ι} {dst len : Nat} {f : Nat → Nat → α} {bufs : ι → Nat → α}

theorem putRows_succ :
    putRows (n + 1) row dst len f bufs =
      Function.update (putRows n row dst len f bufs) (row n)
        (copyTo (putRows n row dst len f bufs (row n)) dst len (f n)) := by
  rw [putRows, List.range_succ, List.foldl_append]
  rfl

theorem putRows_nothing : putRows n row dst 0 f bufs = bufs := by
  induction n with
  | zero => rfl
  | succ n ih => rw [putRows_succ, ih, copyTo_zero, Function.update_eq_self]

theorem putRows_of_ne {b : ι} (hb : ∀ l < n, row l ≠ b) :
    putRows n row dst len f bufs b = bufs b := by
  induction n with
  | zero => rfl
  | succ n ih =>
      rw [putRows_succ, Function.update_of_ne (hb n (Nat.lt_succ_self n)).symm]
      exact ih fun l hl => hb l (Nat.lt_succ_of_lt hl)

theorem putRows_at (hrow : RowsDiffer n row) {l : Nat} (hl : l < n) :
    putRows n row dst len f bufs (row l) = copyTo (bufs (row l)) dst len (f l) := by
  induction n with
  | zero => omega
  | succ n ih =>
      rw [putRows_succ]
      rcases Nat.lt_succ_iff_lt_or_eq.mp hl with hlt | rfl
      · have hne : row l ≠ row n := fun heq => by
          have := hrow l hl n (by omega) heq
          omega
        rw [Function.update_of_ne hne]
        exact ih (hrow.mono (by omega)) hlt
      · rw [Function.update_self, putRows_of_ne]
        intro l' hl' heq
        have := hrow l' (by omega) l hl heq
        omega

theorem putRows_congr {f' : Nat → Nat → α} (h : ∀ l < n, ∀ y < len, f l y = f' l y) :
    putRows n row dst len f bufs = putRows n row dst len f' bufs := by
  induction n with
  | zero => rfl
  | succ n ih =>
      rw [putRows_succ, putRows_succ, ih fun l hl => h l (Nat.lt_succ_of_lt hl),
        copyTo_congr (h n (Nat.lt_succ_self n))]

/-- More rows after the first ones. -/
theorem putRows_add (m : Nat) :
    putRows (m + n) row dst len f bufs =
      putRows n (fun l => row (m + l)) dst len (fun l => f (m + l))
        (putRows m row dst len f bufs) := by
  induction n with
  | zero => rfl
  | succ n ih => rw [← Nat.add_assoc, putRows_succ, ih, ← putRows_succ]

/-- Rows that get what they hold. -/
theorem putRows_self (hrow : RowsDiffer n row) :
    putRows n row 0 len (fun l => bufs (row l)) bufs = bufs := by
  funext b
  by_cases hb : ∃ l < n, row l = b
  · obtain ⟨l, hl, rfl⟩ := hb
    rw [putRows_at hrow hl]
    funext a
    rw [copyTo, Nat.sub_zero, ite_self]
  · rw [putRows_of_ne fun l hl heq => hb ⟨l, hl, heq⟩]

/-- What was written first does not matter when all of it is written again. -/
theorem putRows_putRows (hrow : RowsDiffer n row) {g : Nat → Nat → α} :
    putRows n row dst len g (putRows n row dst len f bufs) = putRows n row dst len g bufs := by
  funext b
  by_cases hb : ∃ l < n, row l = b
  · obtain ⟨l, hl, rfl⟩ := hb
    rw [putRows_at hrow hl, putRows_at hrow hl, putRows_at hrow hl]
    funext a
    by_cases ha : dst ≤ a ∧ a < dst + len <;> simp [copyTo, ha]
  · have hne : ∀ l < n, row l ≠ b := fun l hl heq => hb ⟨l, hl, heq⟩
    rw [putRows_of_ne hne, putRows_of_ne hne, putRows_of_ne hne]

/-- Places that are written a second time may hold the same values already. -/
theorem putRows_overlap (hrow : RowsDiffer n row) {p q w : Nat} (hq : q ≤ p) (hp : p ≤ q + w) :
    putRows n row q w (fun l y => f l (q + y)) (putRows n row 0 p f bufs) =
      putRows n row 0 (q + w) f bufs := by
  funext b
  by_cases hb : ∃ l < n, row l = b
  · obtain ⟨l, hl, rfl⟩ := hb
    rw [putRows_at hrow hl, putRows_at hrow hl, putRows_at hrow hl]
    funext a
    rcases Nat.lt_or_ge a q with haq | haq
    · rw [copyTo, if_neg (by omega), copyTo, copyTo, if_pos (by omega), if_pos (by omega)]
    · rcases Nat.lt_or_ge a (q + w) with haw | haw
      · rw [copyTo, if_pos (by omega), copyTo, if_pos (by omega), Nat.add_sub_cancel' haq,
          Nat.sub_zero]
      · rw [copyTo, if_neg (by omega), copyTo, if_neg (by omega), copyTo, if_neg (by omega)]
  · have hne : ∀ l < n, row l ≠ b := fun l hl heq => hb ⟨l, hl, heq⟩
    rw [putRows_of_ne hne, putRows_of_ne hne, putRows_of_ne hne]

end Rows

end Hydra.Foundation
