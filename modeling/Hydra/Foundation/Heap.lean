import Mathlib.Data.List.Perm.Basic
import Mathlib.Data.List.Nodup
import Mathlib.Order.Basic

set_option autoImplicit false

/-!
# Foundation: allocated blocks

A heap hands out addresses it has never handed out before and remembers which blocks
are live.  Releasing a pointer that is not a live block has no defined effect.

`Heap.Holds h l` says that exactly the blocks of `l` are live, none of them twice: a
component that owns the blocks of `l` neither leaks nor releases twice.  `Heap.Keeps` is
what a piece of code does for a block it has no pointer to.
-/

namespace Hydra.Foundation

/-- What a pointer variable may hold. -/
inductive Ptr where
  | null
  | err
  | addr (n : Nat)
  deriving DecidableEq, Repr

/-- The block a pointer points to. -/
def Ptr.blocks : Ptr → List Nat
  | .null | .err => []
  | .addr n => [n]

/-- The next address and the live blocks. -/
structure Heap where
  next : Nat
  live : List Nat

namespace Heap

/-- An allocation that succeeds, or gives `failed`. -/
def alloc (h : Heap) (ok : Bool) (failed : Ptr) : Ptr × Heap :=
  if ok then (.addr h.next, ⟨h.next + 1, h.next :: h.live⟩) else (failed, h)

/-- Give back the block of a pointer. -/
def release (h : Heap) : Ptr → Option Heap
  | .null | .err => none
  | .addr n => if n ∈ h.live then some { h with live := h.live.erase n } else none

/-- The same, for which `NULL` is nothing to give back. -/
def kfree (h : Heap) : Ptr → Option Heap
  | .null => some h
  | .err => h.release .err
  | .addr n => h.release (.addr n)

/-- The live blocks are those of `l`. -/
structure Holds (h : Heap) (l : List Nat) : Prop where
  below : ∀ n ∈ h.live, n < h.next
  nodup : h.live.Nodup
  perm : h.live.Perm l

variable {h h' : Heap} {l l' : List Nat} {n : Nat}

theorem Holds.nodup_list (hh : h.Holds l) : l.Nodup := hh.perm.nodup_iff.mp hh.nodup

theorem Holds.of_perm (hh : h.Holds l) (hperm : l.Perm l') : h.Holds l' :=
  ⟨hh.below, hh.nodup, hh.perm.trans hperm⟩

@[simp] theorem alloc_true (h : Heap) (failed : Ptr) :
    h.alloc true failed = (.addr h.next, ⟨h.next + 1, h.next :: h.live⟩) := rfl

@[simp] theorem alloc_false (h : Heap) (failed : Ptr) : h.alloc false failed = (failed, h) := rfl

theorem Holds.alloc (hh : h.Holds l) : Holds ⟨h.next + 1, h.next :: h.live⟩ (h.next :: l) := by
  refine ⟨fun n hn => ?_, List.nodup_cons.mpr ⟨fun hmem => ?_, hh.nodup⟩, hh.perm.cons _⟩
  · rcases List.mem_cons.mp hn with rfl | hn
    · exact Nat.lt_succ_self _
    · exact Nat.lt_succ_of_lt (hh.below n hn)
  · exact Nat.lt_irrefl _ (hh.below _ hmem)

theorem Holds.release (hh : h.Holds (n :: l)) :
    ∃ h', h.release (.addr n) = some h' ∧ h'.Holds l := by
  have hmem : n ∈ h.live := hh.perm.mem_iff.mpr List.mem_cons_self
  refine ⟨_, if_pos hmem, fun k hk => hh.below k (List.mem_of_mem_erase hk), hh.nodup.erase n, ?_⟩
  have herase := hh.perm.erase n
  rwa [List.erase_cons_head] at herase

theorem Holds.release_middle (hh : h.Holds (l ++ n :: l')) :
    ∃ h', h.release (.addr n) = some h' ∧ h'.Holds (l ++ l') :=
  (hh.of_perm List.perm_middle).release

/-! ## Blocks without a pointer to them -/

/-- The block is live, and no pointer to come will be to it. -/
def Old (h : Heap) (n : Nat) : Prop := n ∈ h.live ∧ n < h.next

/-- What happens does not touch the block. -/
def Keeps (n : Nat) (h h' : Heap) : Prop := h.Old n → h'.Old n

theorem keeps_alloc (n : Nat) (h : Heap) (ok : Bool) (failed : Ptr) :
    Keeps n h (h.alloc ok failed).2 := by
  rintro ⟨hlive, hlt⟩
  cases ok with
  | true => exact ⟨List.mem_cons_of_mem _ hlive, Nat.lt_succ_of_lt hlt⟩
  | false => exact ⟨hlive, hlt⟩

theorem keeps_release {p : Ptr} (hp : p ≠ .addr n) (hrelease : h.release p = some h') :
    Keeps n h h' := by
  rintro ⟨hlive, hlt⟩
  cases p with
  | null => cases hrelease
  | err => cases hrelease
  | addr k =>
      rw [release] at hrelease
      split at hrelease
      · obtain rfl := Option.some.inj hrelease
        have hne : n ≠ k := fun heq => hp (heq ▸ rfl)
        exact ⟨(List.mem_erase_of_ne hne).mpr hlive, hlt⟩
      · cases hrelease

theorem release_next {p : Ptr} (hrelease : h.release p = some h') : h'.next = h.next := by
  cases p with
  | null => cases hrelease
  | err => cases hrelease
  | addr k =>
      rw [release] at hrelease
      split at hrelease
      · obtain rfl := Option.some.inj hrelease
        rfl
      · cases hrelease

theorem kfree_next {p : Ptr} (hfree : h.kfree p = some h') : h'.next = h.next := by
  cases p with
  | null =>
      obtain rfl := Option.some.inj hfree
      rfl
  | err => cases hfree
  | addr k => exact release_next (p := .addr k) hfree

theorem keeps_kfree {p : Ptr} (hp : p ≠ .addr n) (hfree : h.kfree p = some h') :
    Keeps n h h' := by
  cases p with
  | null =>
      obtain rfl := Option.some.inj hfree
      exact id
  | err => cases hfree
  | addr k => exact keeps_release hp hfree

end Heap

end Hydra.Foundation
