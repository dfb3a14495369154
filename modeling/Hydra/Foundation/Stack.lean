import Mathlib.Data.Set.Insert
import Mathlib.Data.List.Nodup
import Mathlib.Data.List.Perm.Subperm
import Mathlib.Data.List.Range
import Mathlib.Logic.Function.Basic

set_option autoImplicit false

/-!
# Foundation: a stack in an array that lists a set

A stack of free numbers is an array and the index of its top, `-1` when it is empty.
`stackOf` is its contents from the bottom up.  It should list the members of some set,
each once; `Lists` says so, and the rules give what a push and a pop do to the set.
-/

namespace Hydra.Foundation

variable {α : Type*}

/-! ## The stack -/

section Stack

variable {a : Nat → α} {top : Int}

/-- The contents of a stack from the bottom up. -/
def stackOf (a : Nat → α) (top : Int) : List α := (List.range (top + 1).toNat).map a

theorem length_stackOf (a : Nat → α) (top : Int) : (stackOf a top).length = (top + 1).toNat := by
  rw [stackOf, List.length_map, List.length_range]

/-- A stack with its top taken off. -/
theorem stackOf_eq_concat (a : Nat → α) (h : 0 ≤ top) :
    stackOf a top = stackOf a (top - 1) ++ [a top.toNat] := by
  rw [stackOf, show (top + 1).toNat = top.toNat + 1 by omega, List.range_succ, List.map_append,
    stackOf, show (top - 1 + 1).toNat = top.toNat by omega]
  rfl

theorem stackOf_push (a : Nat → α) (x : α) (h : -1 ≤ top) :
    stackOf (Function.update a (top + 1).toNat x) (top + 1) = stackOf a top ++ [x] := by
  rw [stackOf_eq_concat _ (by omega), Function.update_self, show top + 1 - 1 = top by omega]
  refine congrArg (· ++ [x]) (List.map_congr_left fun k hk => ?_)
  rw [List.mem_range] at hk
  exact Function.update_of_ne (by omega) _ _

end Stack

/-! ## What it lists -/

/-- The list has the members of the set, each once. -/
structure Lists (l : List α) (S : Set α) : Prop where
  nodup : l.Nodup
  mem : ∀ x, x ∈ l ↔ x ∈ S

namespace Lists

variable {l : List α} {S : Set α} {x y : α}

theorem push (h : Lists l S) (hx : x ∉ S) : Lists (l ++ [x]) (insert x S) := by
  refine ⟨?_, fun y => ?_⟩
  · rw [List.nodup_append]
    refine ⟨h.nodup, List.nodup_singleton x, ?_⟩
    rintro y hy z hz rfl
    rw [List.mem_singleton.mp hz, h.mem] at hy
    exact hx hy
  · rw [List.mem_append, List.mem_singleton, h.mem, Set.mem_insert_iff, or_comm]

theorem top_mem (h : Lists (l ++ [x]) S) : x ∈ S := (h.mem x).mp (by simp)

theorem pop (h : Lists (l ++ [x]) S) : Lists l (S \ {x}) := by
  obtain ⟨hl, -, hdisjoint⟩ := List.nodup_append.mp h.nodup
  refine ⟨hl, fun y => ?_⟩
  rw [Set.mem_sdiff, Set.mem_singleton_iff, ← h.mem, List.mem_append, List.mem_singleton]
  constructor
  · exact fun hy => ⟨.inl hy, hdisjoint y hy x (List.mem_singleton_self x)⟩
  · exact fun hy => hy.1.resolve_right hy.2

/-- Popping without looking takes a chosen member out exactly when it is on top. -/
theorem pop_iff (h : Lists (l ++ [x]) S) (hy : y ∈ S) : Lists l (S \ {y}) ↔ y = x := by
  constructor
  · intro hpop
    by_contra hne
    -- the chosen one is still further down
    have hin : y ∈ l := by
      have := (h.mem y).mpr hy
      rw [List.mem_append, List.mem_singleton] at this
      exact this.resolve_right hne
    exact ((hpop.mem y).mp hin).2 rfl
  · rintro rfl
    exact h.pop

/-- There are no more entries than numbers the members go by. -/
theorem length_le (h : Lists l S) {n : Nat} {f : Nat → α} (hS : ∀ x ∈ S, ∃ c < n, f c = x) :
    l.length ≤ n := by
  have hsub : l ⊆ (List.range n).map f := by
    intro x hx
    obtain ⟨c, hc, rfl⟩ := hS x ((h.mem x).mp hx)
    exact List.mem_map_of_mem (List.mem_range.mpr hc)
  have hlen := (h.nodup.subperm hsub).length_le
  rwa [List.length_map, List.length_range] at hlen

end Lists

end Hydra.Foundation
