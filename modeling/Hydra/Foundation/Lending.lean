import Mathlib.Data.List.Count
import Mathlib.Data.List.Nodup
import Mathlib.Data.List.Perm.Basic
import Mathlib.Logic.Function.Basic
import Mathlib.Order.Nat

set_option autoImplicit false

/-!
# Foundation: resources lent from pools

Each resource belongs to one pool, and each pool has a stack of free resources.
A *group* of operations borrows resources and counts down to zero as its
operations finish.  The operations of a *joint* group give everything back
together, when the countdown ends; the others give back their own resource, each
when it finishes.

`Sound` says that no resource is in two places.  It is relative to a set of pools
that are known to be in order, so that a pool which has been spoilt can be given
up without giving up the rest.
-/

namespace Hydra.Foundation

variable {P C : Type*}

/-! ## Stacks of free resources -/

section Stacks

variable [DecidableEq P]

/-- Pop one resource from each pool named, in order.  `none` is an empty pool. -/
def takeEach (free : P → List C) : List P → Option (List C × (P → List C))
  | [] => some ([], free)
  | p :: rest =>
      match free p with
      | [] => none
      | c :: more =>
          (takeEach (Function.update free p more) rest).map fun out => (c :: out.1, out.2)

/-- Push each resource on the stack of its own pool, in order. -/
def putBack (pool : C → P) (l : List C) (free : P → List C) : P → List C :=
  l.foldl (fun free c => Function.update free (pool c) (c :: free (pool c))) free

variable {pool : C → P} {free free' : P → List C}

/-- The resources popped are the tops of their pools' stacks. -/
theorem takeEach_spec {ps : List P} {ids : List C}
    (hown : ∀ p c, c ∈ free p → pool c = p) (htake : takeEach free ps = some (ids, free')) :
    ids.map pool = ps ∧
      ∀ p, free p = (ids.filter fun c => decide (pool c = p)) ++ free' p := by
  induction ps generalizing free ids with
  | nil =>
      obtain ⟨rfl, rfl⟩ : [] = ids ∧ free = free' := by simpa [takeEach] using htake
      simp
  | cons p rest ih =>
      cases hfree : free p with
      | nil => simp [takeEach, hfree] at htake
      | cons c more =>
          simp only [takeEach, hfree, Option.map_eq_some_iff, Prod.mk.injEq, Prod.exists] at htake
          obtain ⟨ids', free'', hrest, rfl, rfl⟩ := htake
          have hc : pool c = p := hown p c (by simp [hfree])
          have hown' : ∀ q d, d ∈ Function.update free p more q → pool d = q := by
            intro q d hd
            by_cases hq : q = p
            · subst hq
              rw [Function.update_self] at hd
              exact hown q d (by simp [hfree, hd])
            · rw [Function.update_of_ne hq] at hd
              exact hown q d hd
          obtain ⟨hpools, hsplit⟩ := ih hown' hrest
          refine ⟨by simp [hc, hpools], fun q => ?_⟩
          have hq := hsplit q
          by_cases hqp : q = p
          · subst hqp
            rw [Function.update_self] at hq
            simp [hfree, hc, hq]
          · rw [Function.update_of_ne hqp] at hq
            have hcq : pool c ≠ q := fun h => hqp (h.symm.trans hc)
            simp [hcq, hq]

/-- There is one for each if no pool is asked for more than it has. -/
theorem takeEach_isSome_iff {ps : List P} :
    (takeEach free ps).isSome ↔ ∀ p ∈ ps, ps.count p ≤ (free p).length := by
  induction ps generalizing free with
  | nil => simp [takeEach]
  | cons p rest ih =>
      cases hfree : free p with
      | nil =>
          simp only [takeEach, hfree, Option.isSome_none, Bool.false_eq_true, false_iff]
          intro hall
          have hp := hall p List.mem_cons_self
          rw [List.count_cons_self, hfree] at hp
          exact absurd hp (by simp)
      | cons c more =>
          simp only [takeEach, hfree, Option.isSome_map, ih]
          constructor
          · intro hrest q hq
            by_cases hqp : q = p
            · subst hqp
              rw [List.count_cons_self, hfree, List.length_cons]
              by_cases hmem : q ∈ rest
              · have hle := hrest q hmem
                rw [Function.update_self] at hle
                omega
              · rw [List.count_eq_zero_of_not_mem hmem]
                omega
            · have hmem : q ∈ rest := (List.mem_cons.mp hq).resolve_left hqp
              have hle := hrest q hmem
              rw [Function.update_of_ne hqp] at hle
              rwa [List.count_cons_of_ne (Ne.symm hqp)]
          · intro hall q hq
            have hle := hall q (List.mem_cons_of_mem p hq)
            by_cases hqp : q = p
            · subst hqp
              rw [List.count_cons_self, hfree, List.length_cons] at hle
              rw [Function.update_self]
              omega
            · rw [List.count_cons_of_ne (Ne.symm hqp)] at hle
              rwa [Function.update_of_ne hqp]

theorem putBack_apply (l : List C) (p : P) :
    putBack pool l free p = (l.filter fun c => decide (pool c = p)).reverse ++ free p := by
  induction l generalizing free with
  | nil => rfl
  | cons c rest ih =>
      have hunfold : putBack pool (c :: rest) free =
          putBack pool rest (Function.update free (pool c) (c :: free (pool c))) := rfl
      rw [hunfold, ih]
      by_cases hp : pool c = p
      · subst hp
        simp
      · simp [hp, Function.update_of_ne (Ne.symm hp)]

theorem putBack_perm (l : List C) (p : P) :
    (putBack pool l free p).Perm ((l.filter fun c => decide (pool c = p)) ++ free p) := by
  rw [putBack_apply]
  exact (List.reverse_perm _).append_right _

theorem mem_putBack {l : List C} {p : P} {c : C} :
    c ∈ putBack pool l free p ↔ (c ∈ l ∧ pool c = p) ∨ c ∈ free p := by
  rw [(putBack_perm l p).mem_iff]
  simp

end Stacks

/-! ## Operations and what they hold -/

/-- One outstanding operation: the resource it runs on, the resources its group
keeps while it is outstanding, and the number of the group. -/
structure Loan (C : Type*) where
  on : C
  held : List C
  grp : Nat
  joint : Bool

/-- Free stacks, outstanding operations, and one countdown for each group. -/
structure Ledger (P C : Type*) where
  free : P → List C
  loans : List (Loan C)
  count : Nat → Int
  next : Nat

namespace Ledger

/-- How many operations of a group are outstanding. -/
def outstanding (l : Ledger P C) (g : Nat) : Nat :=
  l.loans.countP fun v => decide (v.grp = g)

/-- The countdown of the group will end, and has not yet. -/
def Due (l : Ledger P C) (g : Nat) : Prop :=
  0 < l.count g ∧ l.count g ≤ l.outstanding g

instance (l : Ledger P C) (g : Nat) : Decidable (l.Due g) :=
  inferInstanceAs (Decidable (_ ∧ _))

/-- A group starts: `lent` leaves the free stacks, `new` is posted and the
countdown starts at `n`. -/
structure Issue [DecidableEq P] (pool : C → P) (l l' : Ledger P C) (lent : List C)
    (new : List (Loan C)) (n : Nat) : Prop where
  free : ∀ p, (l.free p).Perm ((lent.filter fun c => decide (pool c = p)) ++ l'.free p)
  loans : l'.loans = l.loans ++ new
  grp : ∀ v ∈ new, v.grp = l.next
  count : l'.count = Function.update l.count l.next n
  next : l'.next = l.next + 1

/-- What an operation that finishes gives back. -/
def givesBack (l : Ledger P C) (v : Loan C) : List C :=
  if v.joint then (if l.count v.grp = 1 then v.held else []) else [v.on]

/-- An operation finishes. -/
structure Finish [DecidableEq P] (pool : C → P) (l l' : Ledger P C) (v : Loan C) : Prop where
  free : ∀ p, (l'.free p).Perm
    (((l.givesBack v).filter fun c => decide (pool c = p)) ++ l.free p)
  loans : l.loans.Perm (v :: l'.loans)
  count : l'.count = Function.update l.count v.grp (l.count v.grp - 1)
  next : l'.next = l.next

end Ledger

section Soundness

variable (pool : C → P) (ok : P → Bool)

/-- Two operations of one joint group hold the same resources; any other two have
no resource of a pool in order in common, and a joint group shares its countdown
with no other operation. -/
def Apart (v w : Loan C) : Prop :=
  v.on ≠ w.on ∧
    ((v.joint = true ∧ w.joint = true ∧ v.grp = w.grp ∧ v.held = w.held) ∨
      ((v.joint = true ∨ w.joint = true → v.grp ≠ w.grp) ∧
        ∀ c ∈ v.held, ok (pool c) = true → c ∉ w.held))

/-- What an operation says about itself. -/
structure Loan.Fits (v : Loan C) : Prop where
  on_ok : ok (pool v.on) = true
  on_held : v.on ∈ v.held
  solo : v.joint = false → v.held = [v.on]
  nodup : (v.held.filter fun c => ok (pool c)).Nodup

/-- No resource of a pool in order is in two places. -/
structure Sound (l : Ledger P C) : Prop where
  free_own : ∀ p c, c ∈ l.free p → pool c = p
  free_nodup : ∀ p, ok p = true → (l.free p).Nodup
  fits : ∀ v ∈ l.loans, v.Fits pool ok
  held_free : ∀ v ∈ l.loans, ∀ c ∈ v.held, ok (pool c) = true → c ∉ l.free (pool c)
  apart : l.loans.Pairwise (Apart pool ok)
  grp_lt : ∀ v ∈ l.loans, v.grp < l.next
  count_ge : ∀ v ∈ l.loans, v.joint = true → (l.outstanding v.grp : Int) ≤ l.count v.grp

variable {pool ok}

theorem Apart.symm {v w : Loan C} (h : Apart pool ok v w) : Apart pool ok w v := by
  obtain ⟨hon, hcase⟩ := h
  refine ⟨Ne.symm hon, ?_⟩
  rcases hcase with ⟨hv, hw, hgrp, hheld⟩ | ⟨hgrp, hheld⟩
  · exact Or.inl ⟨hw, hv, hgrp.symm, hheld.symm⟩
  · exact Or.inr ⟨fun hj => Ne.symm (hgrp hj.symm), fun c hcw hc hcv => hheld c hcv hc hcw⟩

instance : Std.Symm (Apart pool ok (C := C)) := ⟨fun _ _ => Apart.symm⟩

/-- What an outstanding operation runs on is nowhere on a free stack. -/
theorem Sound.on_notMem_free {l : Ledger P C} (h : Sound pool ok l) {v : Loan C}
    (hv : v ∈ l.loans) {p : P} : v.on ∉ l.free p := by
  intro hmem
  have hfits := h.fits v hv
  have hp : pool v.on = p := h.free_own p v.on hmem
  subst hp
  exact h.held_free v hv v.on hfits.on_held hfits.on_ok hmem

/-- Fewer operations and fewer pools in order. -/
theorem Sound.drop {ok' : P → Bool} {l l' : Ledger P C} (h : Sound pool ok l)
    (hfree : l'.free = l.free) (hloans : l'.loans.Sublist l.loans) (hcount : l'.count = l.count)
    (hnext : l'.next = l.next) (hok : ∀ p, ok' p = true → ok p = true)
    (hon : ∀ v ∈ l'.loans, ok' (pool v.on) = true) : Sound pool ok' l' where
  free_own := by
    rw [hfree]
    exact h.free_own
  free_nodup := by
    rw [hfree]
    exact fun p hp => h.free_nodup p (hok p hp)
  fits := by
    intro v hv
    have hfits := h.fits v (hloans.subset hv)
    refine ⟨hon v hv, hfits.on_held, hfits.solo, ?_⟩
    refine hfits.nodup.sublist (List.monotone_filter_right _ ?_)
    exact fun c hc => hok (pool c) hc
  held_free := by
    rw [hfree]
    exact fun v hv c hc hokc => h.held_free v (hloans.subset hv) c hc (hok _ hokc)
  apart := by
    refine (h.apart.sublist hloans).imp ?_
    rintro v w ⟨hne, hcase⟩
    exact ⟨hne, hcase.imp_right fun ⟨hgrp, hheld⟩ =>
      ⟨hgrp, fun c hc hokc => hheld c hc (hok _ hokc)⟩⟩
  grp_lt := by
    rw [hnext]
    exact fun v hv => h.grp_lt v (hloans.subset hv)
  count_ge := by
    intro v hv hjoint
    rw [hcount]
    have hle : l'.outstanding v.grp ≤ l.outstanding v.grp := hloans.countP_le
    have hold := h.count_ge v (hloans.subset hv) hjoint
    omega

/-- Pools may be filled with resources that no operation holds. -/
theorem Sound.restock {l : Ledger P C} {fresh : P → List C} (h : Sound pool ok l)
    (hfresh : ∀ p, fresh p = l.free p ∨ (fresh p).Nodup ∧ (∀ c ∈ fresh p, pool c = p) ∧
      ∀ v ∈ l.loans, ∀ c ∈ v.held, c ∉ fresh p) :
    Sound pool ok { l with free := fresh } where
  free_own := by
    intro p c hc
    rcases hfresh p with hsame | ⟨-, hown, -⟩
    · exact h.free_own p c (hsame ▸ hc)
    · exact hown c hc
  free_nodup := by
    intro p hp
    rcases hfresh p with hsame | ⟨hnodup, -⟩
    · rw [show ({ l with free := fresh } : Ledger P C).free p = l.free p from hsame]
      exact h.free_nodup p hp
    · exact hnodup
  fits := h.fits
  held_free := by
    intro v hv c hc hok hmem
    rcases hfresh (pool c) with hsame | ⟨-, -, hnone⟩
    · exact h.held_free v hv c hc hok (hsame ▸ hmem)
    · exact hnone v hv c hc hmem
  apart := h.apart
  grp_lt := h.grp_lt
  count_ge := h.count_ge

/-- Only what the operation held is given back. -/
theorem Ledger.mem_givesBack {l : Ledger P C} {v : Loan C} {c : C} (hfits : v.Fits pool ok)
    (hc : c ∈ l.givesBack v) : c ∈ v.held := by
  rw [Ledger.givesBack] at hc
  split at hc
  · split at hc
    · exact hc
    · simp at hc
  · rw [List.mem_singleton.mp hc]
    exact hfits.on_held

theorem Ledger.givesBack_nodup {l : Ledger P C} {v : Loan C} (hfits : v.Fits pool ok) :
    ((l.givesBack v).filter fun c => ok (pool c)).Nodup := by
  rw [Ledger.givesBack]
  split
  · split
    · exact hfits.nodup
    · simp
  · exact (List.nodup_singleton v.on).sublist List.filter_sublist

end Soundness

/-! ## What starting and finishing a group keeps -/

section Steps

variable [DecidableEq P] {pool : C → P} {ok : P → Bool} {l l' : Ledger P C}

/-- Resources of a pool that has been given up may be put back at will. -/
theorem Sound.putBack {c : C} (h : Sound pool ok l) (hc : ok (pool c) = false) :
    Sound pool ok { l with free := putBack pool [c] l.free } where
  free_own := by
    intro p d hd
    rcases mem_putBack.mp hd with ⟨-, hp⟩ | hd
    · exact hp
    · exact h.free_own p d hd
  free_nodup := by
    intro p hp
    have hne : pool c ≠ p := fun heq => by simp [heq, hp] at hc
    simpa [putBack_apply, hne] using h.free_nodup p hp
  fits := h.fits
  held_free := by
    intro v hv d hd hokd hmem
    rcases mem_putBack.mp hmem with ⟨hdc, -⟩ | hfree
    · rw [List.mem_singleton.mp hdc, hc] at hokd
      exact absurd hokd (by decide)
    · exact h.held_free v hv d hd hokd hfree
  apart := h.apart
  grp_lt := h.grp_lt
  count_ge := h.count_ge

section Issue

variable {lent : List C} {new : List (Loan C)} {n : Nat}

/-- What is lent was free. -/
theorem Ledger.Issue.mem_free_of_lent (hi : Ledger.Issue pool l l' lent new n) {c : C}
    (hc : c ∈ lent) : c ∈ l.free (pool c) := by
  rw [(hi.free (pool c)).mem_iff]
  simp [hc]

theorem Ledger.Issue.mem_free_of_mem (hi : Ledger.Issue pool l l' lent new n) {p : P} {c : C}
    (hc : c ∈ l'.free p) : c ∈ l.free p := by
  rw [(hi.free p).mem_iff]
  simp [hc]

/-- Resources lent out of pools in order are different. -/
theorem Ledger.Issue.lent_count_le [DecidableEq C] (hi : Ledger.Issue pool l l' lent new n)
    (h : Sound pool ok l) {c : C} (hc : ok (pool c) = true) : lent.count c ≤ 1 := by
  have hnodup := (hi.free (pool c)).nodup_iff.mp (h.free_nodup (pool c) hc)
  have hfilter : (lent.filter fun d => decide (pool d = pool c)).Nodup := hnodup.of_append_left
  have hle := List.nodup_iff_count_le_one.mp hfilter c
  rwa [List.count_filter (by simp)] at hle

theorem Ledger.Issue.lent_nodup (hi : Ledger.Issue pool l l' lent new n)
    (h : Sound pool ok l) : (lent.filter fun c => ok (pool c)).Nodup := by
  classical
  rw [List.nodup_iff_count_le_one]
  intro c
  by_cases hc : ok (pool c) = true
  · rw [List.count_filter (p := fun d => ok (pool d)) hc]
    exact hi.lent_count_le h hc
  · have hnot : c ∉ lent.filter fun d => ok (pool d) := fun hmem => hc (List.mem_filter.mp hmem).2
    rw [List.count_eq_zero_of_not_mem hnot]
    exact Nat.zero_le 1

theorem Ledger.Issue.lent_notMem_free (hi : Ledger.Issue pool l l' lent new n)
    (h : Sound pool ok l) {c : C} (hc : c ∈ lent) (hok : ok (pool c) = true) :
    c ∉ l'.free (pool c) := by
  have hnodup := (hi.free (pool c)).nodup_iff.mp (h.free_nodup (pool c) hok)
  intro hfree
  exact (List.nodup_append.mp hnodup).2.2 c (by simp [hc]) c hfree rfl

/-- Outstanding operations of the groups that were there are as before. -/
theorem Ledger.Issue.outstanding_of_ne (hi : Ledger.Issue pool l l' lent new n) {g : Nat}
    (hg : g ≠ l.next) : l'.outstanding g = l.outstanding g := by
  have hnone : new.countP (fun v => decide (v.grp = g)) = 0 := by
    rw [List.countP_eq_zero]
    intro v hv
    rw [hi.grp v hv]
    simpa using Ne.symm hg
  rw [Ledger.outstanding, hi.loans, List.countP_append, hnone]
  rfl

theorem Ledger.Issue.outstanding_next (hi : Ledger.Issue pool l l' lent new n)
    (hlt : ∀ v ∈ l.loans, v.grp < l.next) : l'.outstanding l.next = new.length := by
  have hold : l.loans.countP (fun v => decide (v.grp = l.next)) = 0 := by
    rw [List.countP_eq_zero]
    intro v hv
    simpa using (hlt v hv).ne
  have hnew : new.countP (fun v => decide (v.grp = l.next)) = new.length := by
    rw [List.countP_eq_length]
    intro v hv
    simpa using hi.grp v hv
  rw [Ledger.outstanding, hi.loans, List.countP_append, hold, hnew, Nat.zero_add]

/-- Starting a group whose operations fit and stay apart. -/
theorem Sound.issue (h : Sound pool ok l) (hi : Ledger.Issue pool l l' lent new n)
    (hfits : ∀ v ∈ new, v.Fits pool ok) (hheld : ∀ v ∈ new, ∀ c ∈ v.held, c ∈ lent)
    (hapart : new.Pairwise (Apart pool ok))
    (hcount : (∃ v ∈ new, v.joint = true) → new.length ≤ n) : Sound pool ok l' where
  free_own := fun p c hc => h.free_own p c (hi.mem_free_of_mem hc)
  free_nodup := by
    intro p hp
    have hnodup := (hi.free p).nodup_iff.mp (h.free_nodup p hp)
    exact hnodup.of_append_right
  fits := by
    intro v hv
    rw [hi.loans, List.mem_append] at hv
    exact hv.elim (h.fits v) (hfits v)
  held_free := by
    intro v hv c hc hok
    rw [hi.loans, List.mem_append] at hv
    rcases hv with hv | hv
    · exact fun hfree => h.held_free v hv c hc hok (hi.mem_free_of_mem hfree)
    · exact hi.lent_notMem_free h (hheld v hv c hc) hok
  apart := by
    rw [hi.loans, List.pairwise_append]
    refine ⟨h.apart, hapart, fun v hv w hw => ?_⟩
    have hdisjoint : ∀ c ∈ v.held, ok (pool c) = true → c ∉ w.held := by
      intro c hcv hok hcw
      exact h.held_free v hv c hcv hok (hi.mem_free_of_lent (hheld w hw c hcw))
    refine ⟨?_, Or.inr ⟨fun _ => ?_, hdisjoint⟩⟩
    · intro heq
      refine hdisjoint v.on (h.fits v hv).on_held (h.fits v hv).on_ok ?_
      rw [heq]
      exact (hfits w hw).on_held
    · rw [hi.grp w hw]
      exact (h.grp_lt v hv).ne
  grp_lt := by
    intro v hv
    rw [hi.loans, List.mem_append] at hv
    rw [hi.next]
    rcases hv with hv | hv
    · exact Nat.lt_succ_of_lt (h.grp_lt v hv)
    · rw [hi.grp v hv]
      exact Nat.lt_succ_self _
  count_ge := by
    intro v hv hjoint
    rw [hi.loans, List.mem_append] at hv
    rw [hi.count]
    rcases hv with hv | hv
    · have hne : v.grp ≠ l.next := (h.grp_lt v hv).ne
      rw [Function.update_of_ne hne, hi.outstanding_of_ne hne]
      exact h.count_ge v hv hjoint
    · rw [hi.grp v hv, Function.update_self, hi.outstanding_next h.grp_lt]
      exact_mod_cast hcount ⟨v, hv, hjoint⟩

/-- A joint group: every operation holds all that was lent. -/
theorem Sound.issueJoint (h : Sound pool ok l) {on : List C}
    (hi : Ledger.Issue pool l l' lent (on.map fun c => ⟨c, lent, l.next, true⟩) n)
    (hnodup : on.Nodup) (hon : ∀ c ∈ on, c ∈ lent ∧ ok (pool c) = true) (hcount : on.length ≤ n) :
    Sound pool ok l' := by
  refine h.issue hi ?_ ?_ ?_ ?_
  · intro v hv
    obtain ⟨c, hc, rfl⟩ := List.mem_map.mp hv
    exact ⟨(hon c hc).2, (hon c hc).1, fun hj => by simp at hj, hi.lent_nodup h⟩
  · intro v hv
    obtain ⟨c, -, rfl⟩ := List.mem_map.mp hv
    exact fun d hd => hd
  · rw [List.pairwise_map]
    exact hnodup.imp fun hne => ⟨hne, Or.inl ⟨rfl, rfl, rfl, rfl⟩⟩
  · intro _
    simpa using hcount

/-- A group whose operations each hold their own resource. -/
theorem Sound.issueSolo (h : Sound pool ok l)
    (hi : Ledger.Issue pool l l' lent (lent.map fun c => ⟨c, [c], l.next, false⟩) n)
    (hon : ∀ c ∈ lent, ok (pool c) = true) : Sound pool ok l' := by
  have hnodup : lent.Nodup := by
    have hfilter := hi.lent_nodup h
    rwa [List.filter_eq_self.mpr hon] at hfilter
  refine h.issue hi ?_ ?_ ?_ ?_
  · intro v hv
    obtain ⟨c, hc, rfl⟩ := List.mem_map.mp hv
    exact ⟨hon c hc, List.mem_singleton_self c, fun _ => rfl,
      (List.nodup_singleton c).sublist List.filter_sublist⟩
  · intro v hv
    obtain ⟨c, hc, rfl⟩ := List.mem_map.mp hv
    intro d hd
    rw [List.mem_singleton.mp hd]
    exact hc
  · rw [List.pairwise_map]
    refine hnodup.imp fun {c d} hne => ⟨hne, Or.inr ⟨fun hj => by simp at hj, ?_⟩⟩
    intro e he _ hed
    exact hne ((List.mem_singleton.mp he).symm.trans (List.mem_singleton.mp hed))
  · rintro ⟨v, hv, hjoint⟩
    obtain ⟨c, -, rfl⟩ := List.mem_map.mp hv
    simp at hjoint

/-- The new group is due exactly if it has posted enough; the others as before. -/
theorem Ledger.Issue.due_iff (hi : Ledger.Issue pool l l' lent new n)
    (hlt : ∀ v ∈ l.loans, v.grp < l.next) (g : Nat) :
    l'.Due g ↔ if g = l.next then 0 < n ∧ n ≤ new.length else l.Due g := by
  by_cases hg : g = l.next
  · subst hg
    rw [if_pos rfl, Ledger.Due, hi.outstanding_next hlt, hi.count, Function.update_self]
    omega
  · rw [if_neg hg, Ledger.Due, Ledger.Due, hi.outstanding_of_ne hg, hi.count,
      Function.update_of_ne hg]

end Issue

section Finish

variable {v : Loan C}

theorem Ledger.Finish.outstanding_eq (hf : Ledger.Finish pool l l' v) (g : Nat) :
    l.outstanding g = l'.outstanding g + if v.grp = g then 1 else 0 := by
  rw [Ledger.outstanding, hf.loans.countP_eq, List.countP_cons]
  simp [Ledger.outstanding]

theorem Ledger.Finish.mem (hf : Ledger.Finish pool l l' v) : v ∈ l.loans := by
  rw [hf.loans.mem_iff]
  exact List.mem_cons_self

theorem Ledger.Finish.mem_of_mem (hf : Ledger.Finish pool l l' v) {w : Loan C}
    (hw : w ∈ l'.loans) : w ∈ l.loans := by
  rw [hf.loans.mem_iff]
  exact List.mem_cons_of_mem v hw

/-- The operations left stay apart from the one that finishes. -/
theorem Ledger.Finish.apart (hf : Ledger.Finish pool l l' v) (h : Sound pool ok l) :
    (∀ w ∈ l'.loans, Apart pool ok v w) ∧ l'.loans.Pairwise (Apart pool ok) :=
  List.pairwise_cons.mp ((hf.loans.pairwise_iff Apart.symm).mp h.apart)

/-- What is given back is held by no operation left. -/
theorem Ledger.Finish.givesBack_notMem (hf : Ledger.Finish pool l l' v) (h : Sound pool ok l)
    {w : Loan C} (hw : w ∈ l'.loans) {c : C} (hc : c ∈ l.givesBack v) (hok : ok (pool c) = true) :
    c ∉ w.held := by
  rcases ((hf.apart h).1 w hw).2 with ⟨hv, -, hgrp, -⟩ | ⟨-, hheld⟩
  · -- `w` is of the same joint group, so the countdown was at two or more
    have hcount := h.count_ge v hf.mem hv
    have hpos : 0 < l'.outstanding v.grp := by
      rw [Ledger.outstanding, List.countP_pos_iff]
      exact ⟨w, hw, by simp [hgrp]⟩
    have hsucc := hf.outstanding_eq v.grp
    rw [if_pos rfl] at hsucc
    have hne : l.count v.grp ≠ 1 := by omega
    rw [Ledger.givesBack, if_pos hv, if_neg hne] at hc
    simp at hc
  · exact hheld c (Ledger.mem_givesBack (h.fits v hf.mem) hc) hok

theorem Sound.finish (h : Sound pool ok l) (hf : Ledger.Finish pool l l' v) : Sound pool ok l' where
  free_own := by
    intro p c hc
    rw [(hf.free p).mem_iff, List.mem_append, List.mem_filter] at hc
    rcases hc with ⟨-, hp⟩ | hc
    · simpa using hp
    · exact h.free_own p c hc
  free_nodup := by
    intro p hp
    rw [(hf.free p).nodup_iff, List.nodup_append]
    refine ⟨?_, h.free_nodup p hp, ?_⟩
    · refine (Ledger.givesBack_nodup (h.fits v hf.mem)).sublist (List.monotone_filter_right _ ?_)
      intro c hc
      rw [of_decide_eq_true hc]
      exact hp
    · rintro c hc d hd rfl
      obtain ⟨hback, hpool⟩ := List.mem_filter.mp hc
      have hpool' : pool c = p := of_decide_eq_true hpool
      subst hpool'
      exact h.held_free v hf.mem c (Ledger.mem_givesBack (h.fits v hf.mem) hback) hp hd
  fits := fun w hw => h.fits w (hf.mem_of_mem hw)
  held_free := by
    intro w hw c hc hok hfree
    rw [(hf.free (pool c)).mem_iff, List.mem_append, List.mem_filter] at hfree
    rcases hfree with ⟨hback, -⟩ | hfree
    · exact hf.givesBack_notMem h hw hback hok hc
    · exact h.held_free w (hf.mem_of_mem hw) c hc hok hfree
  apart := (hf.apart h).2
  grp_lt := by
    intro w hw
    rw [hf.next]
    exact h.grp_lt w (hf.mem_of_mem hw)
  count_ge := by
    intro w hw hjoint
    have hold := h.count_ge w (hf.mem_of_mem hw) hjoint
    have hsucc := hf.outstanding_eq w.grp
    rw [hf.count]
    by_cases hg : w.grp = v.grp
    · rw [hg, Function.update_self, ← hg]
      rw [if_pos hg.symm] at hsucc
      omega
    · rw [Function.update_of_ne hg]
      rw [if_neg (Ne.symm hg)] at hsucc
      omega

/-- A countdown ends once: only a group that is due ends, and then it is due no
more; nothing else changes which groups are due. -/
theorem Ledger.Finish.due_iff (hf : Ledger.Finish pool l l' v) (g : Nat) :
    l'.Due g ↔ l.Due g ∧ ¬ (g = v.grp ∧ l.count v.grp = 1) := by
  have hsucc := hf.outstanding_eq g
  rw [Ledger.Due, Ledger.Due, hf.count]
  by_cases hg : g = v.grp
  · subst hg
    rw [Function.update_self]
    rw [if_pos rfl] at hsucc
    omega
  · rw [Function.update_of_ne hg]
    rw [if_neg (Ne.symm hg)] at hsucc
    omega

theorem Ledger.Finish.due_of_ends (hf : Ledger.Finish pool l l' v) (hends : l.count v.grp = 1) :
    l.Due v.grp := by
  have hsucc := hf.outstanding_eq v.grp
  rw [if_pos rfl] at hsucc
  exact ⟨by omega, by omega⟩

end Finish

end Steps

/-! ## Countdowns that will end, counted by owner -/

section Owners

variable {κ : Type*} [DecidableEq κ]

/-- How many groups of an owner are due. -/
def Ledger.dueFor (l : Ledger P C) (owner : Nat → κ) (k : κ) : Nat :=
  (List.range l.next).countP fun g => decide (owner g = k ∧ l.Due g)

variable {l l' : Ledger P C} {owner : Nat → κ}

/-- A due group has an operation outstanding. -/
theorem Ledger.Due.exists_loan {g : Nat} (h : l.Due g) : ∃ v ∈ l.loans, v.grp = g := by
  have hpos : 0 < l.outstanding g := by
    have := h.1
    have := h.2
    omega
  obtain ⟨v, hv, hg⟩ := List.countP_pos_iff.mp hpos
  exact ⟨v, hv, of_decide_eq_true hg⟩

variable [DecidableEq P] {pool : C → P}

/-- A group that posts enough is due, for its owner. -/
theorem Ledger.Issue.dueFor {lent : List C} {new : List (Loan C)} {n : Nat}
    (hi : Ledger.Issue pool l l' lent new n) (hlt : ∀ v ∈ l.loans, v.grp < l.next)
    (hpos : 0 < n) (henough : n ≤ new.length) (k₀ k : κ) :
    l'.dueFor (Function.update owner l.next k₀) k =
      l.dueFor owner k + if k₀ = k then 1 else 0 := by
  have hold : (List.range l.next).countP
      (fun g => decide (Function.update owner l.next k₀ g = k ∧ l'.Due g)) =
        l.dueFor owner k := by
    refine List.countP_congr fun g hg => ?_
    have hne : g ≠ l.next := (List.mem_range.mp hg).ne
    simp only [decide_eq_true_eq, Function.update_of_ne hne, hi.due_iff hlt g, if_neg hne]
  have hnew : l'.Due l.next := by
    rw [hi.due_iff hlt, if_pos rfl]
    exact ⟨hpos, henough⟩
  rw [Ledger.dueFor, hi.next, List.range_succ, List.countP_append, hold, List.countP_singleton]
  simp [hnew]

/-- Only the end of a countdown takes a due group away. -/
theorem Ledger.Finish.dueFor {v : Loan C} (hf : Ledger.Finish pool l l' v) (hlt : v.grp < l.next)
    (owner : Nat → κ) (k : κ) :
    l.dueFor owner k =
      l'.dueFor owner k + if l.count v.grp = 1 ∧ owner v.grp = k then 1 else 0 := by
  have hsplit : ∀ g, (owner g = k ∧ l'.Due g) ↔
      (owner g = k ∧ l.Due g) ∧ ¬ (g = v.grp ∧ l.count v.grp = 1) := by
    intro g
    rw [hf.due_iff g, and_assoc]
  by_cases hends : l.count v.grp = 1 ∧ owner v.grp = k
  · rw [if_pos hends, Ledger.dueFor, Ledger.dueFor, hf.next]
    have hdue := hf.due_of_ends hends.1
    obtain ⟨pre, post, hrange⟩ := List.append_of_mem (List.mem_range.mpr hlt)
    have hnodup : (List.range l.next).Nodup := List.nodup_range
    rw [hrange] at hnodup ⊢
    have hnot : ∀ g ∈ pre ++ post, g ≠ v.grp := by
      intro g hg heq
      exact (List.nodup_cons.mp (List.nodup_middle.mp hnodup)).1 (heq ▸ hg)
    have hpart : ∀ part : List Nat, (∀ g ∈ part, g ≠ v.grp) →
        part.countP (fun g => decide (owner g = k ∧ l'.Due g)) =
          part.countP fun g => decide (owner g = k ∧ l.Due g) := by
      intro part hne
      refine List.countP_congr fun g hg => ?_
      simp [hsplit g, hne g hg]
    have hgone : ¬ (owner v.grp = k ∧ l'.Due v.grp) := by
      rw [hsplit]
      exact fun hboth => hboth.2 ⟨rfl, hends.1⟩
    rw [List.countP_append, List.countP_append, List.countP_cons_of_pos (by simp [hends.2, hdue]),
      List.countP_cons_of_neg (by simpa using hgone),
      hpart pre fun g hg => hnot g (List.mem_append_left _ hg),
      hpart post fun g hg => hnot g (List.mem_append_right _ hg)]
    omega
  · rw [if_neg hends, Nat.add_zero, Ledger.dueFor, Ledger.dueFor, hf.next]
    refine List.countP_congr fun g _ => ?_
    simp only [decide_eq_true_eq, hsplit g]
    constructor
    · rintro ⟨hg, hdue⟩
      refine ⟨⟨hg, hdue⟩, ?_⟩
      rintro ⟨rfl, hone⟩
      exact hends ⟨hone, hg⟩
    · exact fun hboth => hboth.1

end Owners

/-! ## Nothing is lost -/

section Settled

/-- The resources in use are those that are free or held, and joint groups still count
exactly their outstanding operations. -/
structure Settled (pool : C → P) (inUse : C → Prop) (l : Ledger P C) : Prop where
  count_eq : ∀ v ∈ l.loans, v.joint = true → l.count v.grp = l.outstanding v.grp
  cover : ∀ c, inUse c ↔ c ∈ l.free (pool c) ∨ ∃ v ∈ l.loans, c ∈ v.held

/-- Fresh resources come into use. -/
theorem Settled.restock {pool : C → P} {inUse inUse' : C → Prop} {l : Ledger P C}
    {fresh : P → List C} (h : Settled pool inUse l)
    (hkept : ∀ c, c ∈ l.free (pool c) → c ∈ fresh (pool c))
    (huse : ∀ c, inUse' c ↔ inUse c ∨ c ∈ fresh (pool c)) :
    Settled pool inUse' { l with free := fresh } where
  count_eq := h.count_eq
  cover := by
    intro c
    rw [huse c, h.cover c]
    constructor
    · rintro ((hfree | hheld) | hfresh)
      · exact Or.inl (hkept c hfree)
      · exact Or.inr hheld
      · exact Or.inl hfresh
    · rintro (hfresh | hheld)
      · exact Or.inr hfresh
      · exact Or.inl (Or.inr hheld)

variable [DecidableEq P] {pool : C → P} {inUse : C → Prop} {l l' : Ledger P C}

theorem Settled.issue {lent : List C} {new : List (Loan C)} {n : Nat} (h : Settled pool inUse l)
    (hi : Ledger.Issue pool l l' lent new n) (hlt : ∀ v ∈ l.loans, v.grp < l.next)
    (hcount : (∃ v ∈ new, v.joint = true) → new.length = n)
    (hcover : ∀ c, c ∈ lent ↔ ∃ v ∈ new, c ∈ v.held) : Settled pool inUse l' where
  count_eq := by
    intro v hv hjoint
    rw [hi.loans, List.mem_append] at hv
    rw [hi.count]
    rcases hv with hv | hv
    · have hne : v.grp ≠ l.next := (hlt v hv).ne
      rw [Function.update_of_ne hne, hi.outstanding_of_ne hne]
      exact h.count_eq v hv hjoint
    · rw [hi.grp v hv, Function.update_self, hi.outstanding_next hlt, hcount ⟨v, hv, hjoint⟩]
  cover := by
    intro c
    have hsplit : c ∈ l.free (pool c) ↔ c ∈ lent ∨ c ∈ l'.free (pool c) := by
      rw [(hi.free (pool c)).mem_iff]
      simp
    have hloans : (∃ v ∈ l'.loans, c ∈ v.held) ↔
        (∃ v ∈ l.loans, c ∈ v.held) ∨ ∃ v ∈ new, c ∈ v.held := by
      rw [hi.loans]
      simp only [List.mem_append, or_and_right, exists_or]
    rw [h.cover c, hsplit, hloans, ← hcover c, or_assoc, or_comm, or_assoc]

theorem Settled.finish {v : Loan C} (h : Settled pool inUse l) (hf : Ledger.Finish pool l l' v)
    (hsound : Sound pool (fun _ => true) l) : Settled pool inUse l' where
  count_eq := by
    intro w hw hjoint
    have hold := h.count_eq w (hf.mem_of_mem hw) hjoint
    have hsucc := hf.outstanding_eq w.grp
    rw [hf.count]
    by_cases hg : w.grp = v.grp
    · rw [hg, Function.update_self, ← hg]
      rw [if_pos hg.symm] at hsucc
      omega
    · rw [Function.update_of_ne hg]
      rw [if_neg (Ne.symm hg)] at hsucc
      omega
  cover := by
    intro c
    have hfits := hsound.fits v hf.mem
    have hsplit : c ∈ l'.free (pool c) ↔ c ∈ l.givesBack v ∨ c ∈ l.free (pool c) := by
      rw [(hf.free (pool c)).mem_iff]
      simp
    have hloans : (∃ w ∈ l.loans, c ∈ w.held) ↔ c ∈ v.held ∨ ∃ w ∈ l'.loans, c ∈ w.held := by
      simp only [hf.loans.mem_iff, List.mem_cons, or_and_right, exists_or, exists_eq_left]
    have hheld : c ∈ v.held → c ∈ l.givesBack v ∨ ∃ w ∈ l'.loans, c ∈ w.held := by
      intro hc
      by_cases hjoint : v.joint = true
      · by_cases hlast : l.count v.grp = 1
        · exact Or.inl (by simpa [Ledger.givesBack, hjoint, hlast] using hc)
        · -- another operation of the joint group is left, and holds the same
          have hcount := h.count_eq v hf.mem hjoint
          have hsucc := hf.outstanding_eq v.grp
          rw [if_pos rfl] at hsucc
          have hpos : 0 < l'.outstanding v.grp := by omega
          obtain ⟨w, hw, hgrp⟩ := List.countP_pos_iff.mp hpos
          have hgrp' : w.grp = v.grp := of_decide_eq_true hgrp
          rcases ((hf.apart hsound).1 w hw).2 with ⟨-, -, -, heq⟩ | ⟨hne, -⟩
          · exact Or.inr ⟨w, hw, heq ▸ hc⟩
          · exact absurd hgrp'.symm (hne (Or.inl hjoint))
      · have hsolo : v.joint = false := by simpa using hjoint
        rw [hfits.solo hsolo] at hc
        exact Or.inl (by simpa [Ledger.givesBack, hsolo] using hc)
    have hback : c ∈ l.givesBack v → c ∈ v.held := Ledger.mem_givesBack hfits
    rw [h.cover c, hsplit, hloans]
    constructor
    · rintro (hfree | hc | hw)
      · exact Or.inl (Or.inr hfree)
      · exact (hheld hc).imp_left Or.inl
      · exact Or.inr hw
    · rintro ((hc | hfree) | hw)
      · exact Or.inr (Or.inl (hback hc))
      · exact Or.inl hfree
      · exact Or.inr (Or.inr hw)

end Settled

end Hydra.Foundation
