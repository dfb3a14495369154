import Mathlib.Logic.Function.Basic

set_option autoImplicit false

/-!
# Foundation: lagged recurrences in place

A sequence whose every element comes from three earlier ones, at distances `size`,
`size - 1` and `size - middle`, needs a table of `size` elements.  `regenerate` replaces
the table by the next `size` elements in one pass, taking what it has replaced already
where the index would leave the table.

`Lag.run` is the sequence from given first elements, and `regenerate_eq` says that the
table goes on holding it.  `Lag.Recurs.agree` is why a stretch of `size` elements decides
all that follow.

Such sequences are commonly tempered on output, each word xored with masked shifts of
itself; the last two lemmas say that nothing is lost there.
-/

namespace Hydra.Foundation

/-- The size of the table and the middle distance. -/
structure Lag where
  size : Nat
  middle : Nat
  middle_pos : 0 < middle
  middle_lt : middle < size

namespace Lag

variable {α : Type*} (g : Lag) (f : α → α → α → α)

/-- Every element comes from the one `size` before it, the next one, and the one
`size - middle` before it. -/
def Recurs (x : Nat → α) : Prop := ∀ n, x (n + g.size) = f (x n) (x (n + 1)) (x (n + g.middle))

/-- The sequence with the given first elements. -/
def run (start : Nat → α) (n : Nat) : α :=
  if n < g.size then start n
  else
    f (run start (n - g.size)) (run start (n - g.size + 1)) (run start (n - g.size + g.middle))
termination_by n
decreasing_by
  · have := g.middle_lt
    omega
  · have := g.middle_lt
    have := g.middle_pos
    omega
  · have := g.middle_lt
    omega

/-- One element of the pass. -/
def replace (table : Nat → α) (i : Nat) : Nat → α :=
  Function.update table i
    (f (table i) (table ((i + 1) % g.size)) (table ((i + g.middle) % g.size)))

/-- The pass. -/
def regenerate (table : Nat → α) : Nat → α := (List.range g.size).foldl (g.replace f) table

/-- The table holds the elements from `b` on. -/
def Holds (x : Nat → α) (b : Nat) (table : Nat → α) : Prop :=
  ∀ j < g.size, table j = x (b + j)

variable {g f} {x y : Nat → α} {b : Nat} {table : Nat → α}

theorem run_of_lt {start : Nat → α} {n : Nat} (hn : n < g.size) : g.run f start n = start n := by
  rw [run, if_pos hn]

theorem run_recurs (start : Nat → α) : g.Recurs f (g.run f start) := by
  intro n
  rw [run, if_neg (by omega), Nat.add_sub_cancel]

/-- The first `i` elements are replaced. -/
theorem foldl_replace (hx : g.Recurs f x) (h : g.Holds x b table) {i : Nat} (hi : i ≤ g.size) :
    ∀ j < g.size, (List.range i).foldl (g.replace f) table j =
      if j < i then x (b + g.size + j) else x (b + j) := by
  have hmiddle := g.middle_lt
  have hpos := g.middle_pos
  induction i with
  | zero =>
      intro j hj
      rw [if_neg (Nat.not_lt_zero j)]
      exact h j hj
  | succ i ih =>
      have ih := ih (by omega)
      -- an index that leaves the table comes back to a part that is done
      have hwrap : ∀ d, 0 < d → d < g.size →
          (List.range i).foldl (g.replace f) table ((i + d) % g.size) = x (b + i + d) := by
        intro d hd hsize
        rcases Nat.lt_or_ge (i + d) g.size with hin | hout
        · rw [Nat.mod_eq_of_lt hin, ih _ hin, if_neg (by omega), Nat.add_assoc]
        · have hmod : (i + d) % g.size = i + d - g.size := by
            rw [Nat.mod_eq_sub_mod hout, Nat.mod_eq_of_lt (by omega)]
          rw [hmod, ih _ (by omega), if_pos (by omega)]
          congr 1
          omega
      intro j hj
      rw [List.range_succ, List.foldl_append, List.foldl_cons, List.foldl_nil, replace]
      by_cases hji : j = i
      · subst hji
        rw [Function.update_self, if_pos (Nat.lt_succ_self j), ih j hj, if_neg (Nat.lt_irrefl j),
          hwrap 1 Nat.one_pos (by omega), hwrap g.middle hpos hmiddle,
          show b + g.size + j = b + j + g.size by omega, hx (b + j)]
      · rw [Function.update_of_ne hji, ih j hj]
        exact if_congr (by omega) rfl rfl

/-- The table holds the next elements after the pass. -/
theorem regenerate_eq (hx : g.Recurs f x) (h : g.Holds x b table) :
    g.Holds x (b + g.size) (g.regenerate f table) := by
  intro j hj
  rw [regenerate, foldl_replace hx h (Nat.le_refl _) j hj, if_pos hj]

/-- Sequences that agree on a stretch as long as the table agree from there on. -/
theorem Recurs.agree (hx : g.Recurs f x) (hy : g.Recurs f y) {p q : Nat}
    (h : ∀ i < g.size, x (p + i) = y (q + i)) (i : Nat) : x (p + i) = y (q + i) := by
  have hmiddle := g.middle_lt
  have hpos := g.middle_pos
  induction i using Nat.strongRecOn with
  | ind i ih =>
      rcases Nat.lt_or_ge i g.size with hi | hi
      · exact h i hi
      · obtain ⟨n, rfl⟩ : ∃ n, i = n + g.size := ⟨i - g.size, by omega⟩
        rw [← Nat.add_assoc, ← Nat.add_assoc, hx (p + n), hy (q + n), Nat.add_assoc, Nat.add_assoc,
          Nat.add_assoc, Nat.add_assoc, ih n (by omega), ih (n + 1) (by omega),
          ih (n + g.middle) (by omega)]

end Lag

/-! ## Tempering -/

section Tempering

variable {w : Nat} (m : BitVec w) {k : Nat}

/-- The bits come back from the top. -/
theorem injective_xor_ushiftRight (hk : 0 < k) :
    Function.Injective fun x : BitVec w => x ^^^ ((x >>> k) &&& m) := by
  intro x y h
  have hbits : ∀ n i, w - i = n → x.getLsbD i = y.getLsbD i := by
    intro n
    induction n using Nat.strongRecOn with
    | ind n ih =>
        intro i hi
        rcases Nat.lt_or_ge i w with hlt | hge
        · have hbit := congrArg (fun z => z.getLsbD i) h
          simp only [BitVec.getLsbD_xor, BitVec.getLsbD_and, BitVec.getLsbD_ushiftRight] at hbit
          rw [ih (w - (k + i)) (by omega) (k + i) rfl] at hbit
          exact Bool.xor_left_inj.mp hbit
        · rw [BitVec.getLsbD_of_ge _ _ hge, BitVec.getLsbD_of_ge _ _ hge]
  exact BitVec.eq_of_getLsbD_eq fun i _ => hbits _ i rfl

/-- The bits come back from the bottom. -/
theorem injective_xor_shiftLeft (hk : 0 < k) :
    Function.Injective fun x : BitVec w => x ^^^ ((x <<< k) &&& m) := by
  intro x y h
  refine BitVec.eq_of_getLsbD_eq fun i => ?_
  induction i using Nat.strongRecOn with
  | ind i ih =>
      intro hi
      have hbit := congrArg (fun z => z.getLsbD i) h
      simp only [BitVec.getLsbD_xor, BitVec.getLsbD_and, BitVec.getLsbD_shiftLeft] at hbit
      rcases Nat.lt_or_ge i k with hlow | hhigh
      · simpa [hlow] using hbit
      · rw [ih (i - k) (by omega) (by omega)] at hbit
        exact Bool.xor_left_inj.mp hbit

end Tempering

end Hydra.Foundation
