import Mathlib.Data.List.Perm.Basic
import Mathlib.Logic.Function.Basic

set_option autoImplicit false

/-!
# Foundation: ranking by exchanges

The loop

    for (i < n) for (j = i+1; j < k) if (a[i] < a[j]) exchange(a[i], a[j]);

moves the `n` largest entries of an array to its front.  On lists one round of the
outer loop is `bubble`: the head meets every later entry and the larger one moves
on.  `exchangeSort` is the loop itself, on the array.
-/

namespace Hydra.Foundation

variable {α : Type*} (lt : α → α → Bool)

/-- One round of the outer loop: the entry that ends up in front, and the rest. -/
def bubble (x : α) : List α → α × List α
  | [] => (x, [])
  | y :: rest =>
      if lt x y then ((bubble y rest).1, x :: (bubble y rest).2)
      else ((bubble x rest).1, y :: (bubble x rest).2)

/-- The first `n` rounds. -/
def sortFirst : Nat → List α → List α
  | 0, l => l
  | _ + 1, [] => []
  | n + 1, x :: rest => (bubble lt x rest).1 :: sortFirst n (bubble lt x rest).2

theorem bubble_perm (x : α) (l : List α) :
    ((bubble lt x l).1 :: (bubble lt x l).2).Perm (x :: l) := by
  induction l generalizing x with
  | nil => exact List.Perm.refl _
  | cons y rest ih =>
      unfold bubble
      split
      · have hfront : ((bubble lt y rest).1 :: x :: (bubble lt y rest).2).Perm
            (x :: (bubble lt y rest).1 :: (bubble lt y rest).2) := List.Perm.swap ..
        exact hfront.trans ((ih y).cons x)
      · have hfront : ((bubble lt x rest).1 :: y :: (bubble lt x rest).2).Perm
            (y :: (bubble lt x rest).1 :: (bubble lt x rest).2) := List.Perm.swap ..
        exact hfront.trans (((ih x).cons y).trans (List.Perm.swap ..))

/-- Ranking loses and invents nothing. -/
theorem sortFirst_perm (n : Nat) (l : List α) : (sortFirst lt n l).Perm l := by
  induction n generalizing l with
  | zero => exact List.Perm.refl _
  | succ n ih =>
      cases l with
      | nil => exact List.Perm.refl _
      | cons x rest => exact ((ih _).cons _).trans (bubble_perm lt x rest)

/-- Entries that compare alike after a renaming are ranked alike. -/
theorem bubble_map {β : Type*} {lt' : β → β → Bool} {f : α → β}
    (h : ∀ a b, lt' (f a) (f b) = lt a b) (x : α) (l : List α) :
    bubble lt' (f x) (l.map f) = (f (bubble lt x l).1, (bubble lt x l).2.map f) := by
  induction l generalizing x with
  | nil => rfl
  | cons y rest ih =>
      simp only [List.map_cons, bubble, h]
      split
      · rw [ih y, List.map_cons]
      · rw [ih x, List.map_cons]

theorem sortFirst_map {β : Type*} {lt' : β → β → Bool} {f : α → β}
    (h : ∀ a b, lt' (f a) (f b) = lt a b) (n : Nat) (l : List α) :
    sortFirst lt' n (l.map f) = (sortFirst lt n l).map f := by
  induction n generalizing l with
  | zero => rfl
  | succ n ih =>
      cases l with
      | nil => rfl
      | cons x rest =>
          simp only [List.map_cons, sortFirst, bubble_map lt h, ih]

/-! ## The front is in order -/

/-- A test that orders its arguments, with ties. -/
structure Orders (lt : α → α → Bool) : Prop where
  asymm : ∀ a b, lt a b = true → lt b a = false
  trans : ∀ a b c, lt a b = false → lt b c = false → lt a c = false

variable {lt}

theorem Orders.irrefl (h : Orders lt) (a : α) : lt a a = false := by
  cases haa : lt a a with
  | false => rfl
  | true => exact (h.asymm a a haa).symm.trans haa |>.symm

/-- The entry that ends up in front is not below any. -/
theorem Orders.bubble_max (h : Orders lt) (x : α) (l : List α) :
    ∀ y ∈ x :: l, lt (bubble lt x l).1 y = false := by
  induction l generalizing x with
  | nil =>
      intro y hy
      rw [List.mem_singleton.mp hy]
      exact h.irrefl x
  | cons z rest ih =>
      intro y hy
      unfold bubble
      split
      · rename_i hlt
        rcases List.mem_cons.mp hy with rfl | hy
        · exact h.trans _ z _ (ih z z List.mem_cons_self) (h.asymm _ _ hlt)
        · exact ih z y hy
      · rename_i hlt
        rcases List.mem_cons.mp hy with rfl | hy
        · exact ih y y List.mem_cons_self
        · rcases List.mem_cons.mp hy with rfl | hy
          · exact h.trans _ x _ (ih x x List.mem_cons_self) (Bool.eq_false_iff.mpr hlt)
          · exact ih x y (List.mem_cons_of_mem x hy)

/-- The first `n` entries are in order, and none behind them is above one of them. -/
theorem Orders.sortFirst_front (h : Orders lt) (n : Nat) (l : List α) :
    ((sortFirst lt n l).take n).Pairwise (fun a b => lt a b = false) ∧
      ∀ a ∈ (sortFirst lt n l).take n, ∀ b ∈ (sortFirst lt n l).drop n, lt a b = false := by
  induction n generalizing l with
  | zero => simp
  | succ n ih =>
      cases l with
      | nil => simp [sortFirst]
      | cons x rest =>
          obtain ⟨hsorted, habove⟩ := ih (bubble lt x rest).2
          have hmax : ∀ b ∈ sortFirst lt n (bubble lt x rest).2,
              lt (bubble lt x rest).1 b = false := by
            intro b hb
            refine h.bubble_max x rest b ((bubble_perm lt x rest).mem_iff.mp ?_)
            exact List.mem_cons_of_mem _ ((sortFirst_perm lt n _).mem_iff.mp hb)
          rw [sortFirst, List.take_succ_cons, List.drop_succ_cons]
          refine ⟨List.pairwise_cons.mpr ⟨fun b hb => ?_, hsorted⟩, fun a ha b hb => ?_⟩
          · exact hmax b (List.mem_of_mem_take hb)
          · rcases List.mem_cons.mp ha with rfl | ha
            · exact hmax b (List.mem_of_mem_drop hb)
            · exact habove a ha b hb

/-- The last entry of the front is not above any of it. -/
theorem Orders.front_last (h : Orders lt) {n : Nat} {l : List α} {last : α}
    (hlast : (sortFirst lt n l)[n - 1]? = some last) :
    ∀ a ∈ (sortFirst lt n l).take n, lt a last = false := by
  intro a ha
  obtain ⟨i, hi, rfl⟩ := List.getElem_of_mem ha
  obtain ⟨hbound, hlast⟩ := List.getElem?_eq_some_iff.mp hlast
  rw [List.length_take] at hi
  have hin : n - 1 < ((sortFirst lt n l).take n).length := by
    rw [List.length_take]
    omega
  have hlast : ((sortFirst lt n l).take n)[n - 1] = last := by
    rw [List.getElem_take, hlast]
  rcases Nat.lt_or_ge i (n - 1) with hlt | hge
  · rw [← hlast]
    exact List.pairwise_iff_getElem.mp (h.sortFirst_front n l).1 i (n - 1) _ hin hlt
  · obtain rfl : i = n - 1 := by omega
    rw [hlast]
    exact h.irrefl last

/-- The front has a property that larger entries inherit exactly when `n` entries have
it. -/
theorem Orders.forall_front_iff (h : Orders lt) {p : α → Bool}
    (hp : ∀ a b, lt a b = false → p b = true → p a = true) {n : Nat} {l : List α}
    (hn : n ≤ l.length) :
    (∀ a ∈ (sortFirst lt n l).take n, p a = true) ↔ n ≤ l.countP p := by
  have hperm := sortFirst_perm lt n l
  have hlen : ((sortFirst lt n l).take n).length = n := by
    rw [List.length_take, hperm.length_eq, Nat.min_eq_left hn]
  have hcount : l.countP p = ((sortFirst lt n l).take n).countP p +
      ((sortFirst lt n l).drop n).countP p := by
    rw [← List.countP_append, List.take_append_drop, hperm.countP_eq p]
  constructor
  · intro hall
    have hfull := List.countP_eq_length.mpr hall
    omega
  · intro hmany
    by_contra hnot
    push Not at hnot
    obtain ⟨a, ha, hpa⟩ := hnot
    have hrest : ((sortFirst lt n l).drop n).countP p = 0 := by
      rw [List.countP_eq_zero]
      intro b hb hpb
      exact hpa (hp a b ((h.sortFirst_front n l).2 a ha b hb) hpb)
    have hfront : ((sortFirst lt n l).take n).countP p < n := by
      have hle := List.countP_le_length (p := p) (l := (sortFirst lt n l).take n)
      have hne : ((sortFirst lt n l).take n).countP p ≠ ((sortFirst lt n l).take n).length :=
        fun heq => hpa (List.countP_eq_length.mp heq a ha)
      omega
    omega

/-! ## The loops on an array -/

/-- `if (a[i] < a[j]) exchange(a[i], a[j]);` -/
def exchangeIf (lt : α → α → Bool) (a : Nat → α) (i j : Nat) : Nat → α :=
  if lt (a i) (a j) then Function.update (Function.update a i (a j)) j (a i) else a

/-- The inner loop. -/
def exchangeRow (lt : α → α → Bool) (k : Nat) (a : Nat → α) (i : Nat) : Nat → α :=
  (List.range' (i + 1) (k - (i + 1))).foldl (fun a j => exchangeIf lt a i j) a

/-- Both loops. -/
def exchangeSort (lt : α → α → Bool) (n k : Nat) (a : Nat → α) : Nat → α :=
  (List.range n).foldl (exchangeRow lt k) a

/-- From the inner loop's variable on, with `len` entries to go. -/
theorem foldl_exchangeIf (lt : α → α → Bool) (len : Nat) :
    ∀ (a : Nat → α) (i j : Nat), i < j →
      ((List.range' j len).foldl (fun a j => exchangeIf lt a i j) a i,
        (List.range' j len).map ((List.range' j len).foldl (fun a j => exchangeIf lt a i j) a)) =
          bubble lt (a i) ((List.range' j len).map a) ∧
      ∀ m, m ≠ i → m < j →
        (List.range' j len).foldl (fun a j => exchangeIf lt a i j) a m = a m := by
  induction len with
  | zero => exact fun a i j _ => ⟨rfl, fun _ _ _ => rfl⟩
  | succ len ih =>
      intro a i j hij
      obtain ⟨hrest, hframe⟩ := ih (exchangeIf lt a i j) i (j + 1) (by omega)
      have hlater : (List.range' (j + 1) len).map (exchangeIf lt a i j) =
          (List.range' (j + 1) len).map a := by
        apply List.map_congr_left
        intro m hm
        have hm := (List.mem_range'_1.mp hm).1
        unfold exchangeIf
        split
        · rw [Function.update_of_ne (by omega), Function.update_of_ne (by omega)]
        · rfl
      rw [hlater] at hrest
      rw [List.range'_succ, List.foldl_cons, List.map_cons, List.map_cons]
      refine ⟨?_, fun m hi hm => ?_⟩
      · rw [hframe j (by omega) (by omega), bubble]
        have hi := congrArg Prod.fst hrest
        have htail := congrArg Prod.snd hrest
        by_cases hlt : lt (a i) (a j) = true
        · simp only [exchangeIf, hlt, if_true, Function.update_self,
            Function.update_of_ne (show i ≠ j by omega)] at hi htail ⊢
          rw [hi, htail]
        · simp only [exchangeIf, hlt, Bool.false_eq_true, if_false] at hi htail ⊢
          rw [hi, htail]
      · rw [hframe m hi (by omega), exchangeIf]
        split
        · rw [Function.update_of_ne (by omega), Function.update_of_ne hi]
        · rfl

/-- The loops rank the first `k` entries of the array. -/
theorem exchangeSort_eq {n k : Nat} (hn : n ≤ k) (a : Nat → α) :
    (List.range k).map (exchangeSort lt n k a) = sortFirst lt n ((List.range k).map a) := by
  suffices hfrom : ∀ n i (a : Nat → α), i + n ≤ k →
      (List.range' i (k - i)).map ((List.range' i n).foldl (exchangeRow lt k) a) =
        sortFirst lt n ((List.range' i (k - i)).map a) ∧
      ∀ m < i, (List.range' i n).foldl (exchangeRow lt k) a m = a m by
    have h := (hfrom n 0 a (by omega)).1
    rwa [Nat.sub_zero, ← List.range_eq_range', ← List.range_eq_range'] at h
  intro n
  induction n with
  | zero => exact fun i a _ => ⟨rfl, fun _ _ => rfl⟩
  | succ n ih =>
      intro i a hin
      obtain ⟨hrow, hframe⟩ := foldl_exchangeIf lt (k - (i + 1)) a i (i + 1) (by omega)
      obtain ⟨hrest, hbefore⟩ := ih (i + 1) (exchangeRow lt k a i) (by omega)
      have hlen : k - i = k - (i + 1) + 1 := by omega
      rw [List.range'_succ, List.foldl_cons, hlen, List.range'_succ, List.map_cons, List.map_cons,
        sortFirst]
      refine ⟨?_, fun m hm => ?_⟩
      · rw [hbefore i (by omega), hrest]
        rw [← hrow]
        rfl
      · rw [hbefore m (by omega)]
        exact hframe m (by omega) (by omega)

end Hydra.Foundation
