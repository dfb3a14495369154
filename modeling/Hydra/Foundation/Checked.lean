import Mathlib.Data.List.Range
import Mathlib.Order.Basic

set_option autoImplicit false

/-!
# Foundation: loops over arrays with checked accesses

A loop whose body may stray outside its arrays is a fold in `Except ε`.  The two
rules for it separate what holds if the loop gets through from that it does.

`scan` is the loop

    for (; test(a[i]); i++);

whose only exit is an entry that fails the test.  It comes to the end of the array
when there is none.
-/

namespace Hydra.Foundation

/-! ## Loops -/

section Loop

variable {σ ε : Type} {turn : σ → Nat → Except ε σ} {I : Nat → σ → Prop} {n : Nat} {s s' : σ}

theorem bind_eq_ok {α β : Type} {x : Except ε α} {f : α → Except ε β} {b : β} :
    x >>= f = .ok b ↔ ∃ a, x = .ok a ∧ f a = .ok b := by
  cases x with
  | error e => simp [bind, Except.bind]
  | ok a => simp [bind, Except.bind]

theorem toOption_eq_some {α : Type} {x : Except ε α} {a : α} :
    x.toOption = some a ↔ x = .ok a := by
  cases x <;> simp [Except.toOption]

/-- What every turn preserves holds after the loop, if the loop gets through. -/
theorem foldlM_range_keeps
    (hstep : ∀ i < n, ∀ s s', I i s → turn s i = .ok s' → I (i + 1) s')
    (hstart : I 0 s) (hrun : (List.range n).foldlM turn s = .ok s') : I n s' := by
  induction n generalizing s' with
  | zero =>
      obtain rfl : s = s' := by simpa [pure, Except.pure] using hrun
      exact hstart
  | succ n ih =>
      rw [List.range_succ, List.foldlM_append, bind_eq_ok] at hrun
      obtain ⟨t, ht, hlast⟩ := hrun
      have hlast : turn t n = .ok s' := by simpa using hlast
      exact hstep n (by omega) t s' (ih (fun i hi => hstep i (by omega)) ht) hlast

/-- If every turn can be made, the loop gets through. -/
theorem foldlM_range_total
    (hstep : ∀ i < n, ∀ s s', I i s → turn s i = .ok s' → I (i + 1) s')
    (hgo : ∀ i < n, ∀ s, I i s → ∃ s', turn s i = .ok s')
    (hstart : I 0 s) : ∃ s', (List.range n).foldlM turn s = .ok s' := by
  induction n with
  | zero => exact ⟨s, rfl⟩
  | succ n ih =>
      obtain ⟨t, ht⟩ := ih (fun i hi => hstep i (by omega)) (fun i hi => hgo i (by omega))
      have hI : I n t := foldlM_range_keeps (fun i hi => hstep i (by omega)) hstart ht
      obtain ⟨s', hs'⟩ := hgo n (by omega) t hI
      refine ⟨s', ?_⟩
      rw [List.range_succ, List.foldlM_append, bind_eq_ok]
      exact ⟨t, ht, by simpa using hs'⟩

/-- A loop of checks gets through when every check does. -/
theorem foldlM_checks {check : Nat → Except ε Unit} :
    (List.range n).foldlM (fun _ i => check i) () = .ok () ↔ ∀ i < n, check i = .ok () := by
  constructor
  · intro h i hi
    have hall : ∀ k < n, check k = .ok () :=
      foldlM_range_keeps (I := fun m _ => ∀ k < m, check k = .ok ()) (fun m _ _ _ hI hm k hk => by
        rcases Nat.lt_succ_iff_lt_or_eq.mp hk with hk | rfl
        · exact hI k hk
        · exact hm) (fun k hk => by omega) h
    exact hall i hi
  · intro h
    obtain ⟨_, hrun⟩ := foldlM_range_total (s := ()) (I := fun _ _ => True)
      (fun _ _ _ _ _ _ => trivial) (fun i hi _ _ => ⟨(), h i hi⟩) trivial
    exact hrun

/-- A loop whose state is known at every turn. -/
theorem foldlM_range_eq {f : Nat → σ} (hturn : ∀ i < n, turn (f i) i = .ok (f (i + 1))) :
    (List.range n).foldlM turn (f 0) = .ok (f n) := by
  induction n with
  | zero => rfl
  | succ n ih =>
      rw [List.range_succ, List.foldlM_append, bind_eq_ok]
      exact ⟨_, ih fun i hi => hturn i (by omega), by simpa using hturn n (by omega)⟩

/-- A loop that works on the entries of a table one after the other, each by itself. -/
theorem foldlM_range_update {β : Type} {f : Nat → β → β}
    {turn : (Nat → β) → Nat → Except ε (Nat → β)}
    (hturn : ∀ i < n, ∀ t, turn t i = .ok (Function.update t i (f i (t i)))) (t : Nat → β) :
    (List.range n).foldlM turn t = .ok fun i => if i < n then f i (t i) else t i := by
  have hrun : (List.range n).foldlM turn _ = .ok _ := foldlM_range_eq
    (f := fun k i => if i < k then f i (t i) else t i) fun k hk => by
      rw [hturn k hk]
      refine congrArg Except.ok (funext fun i => ?_)
      rcases Nat.lt_trichotomy i k with hlt | rfl | hgt
      · rw [Function.update_of_ne (by omega), if_pos hlt, if_pos (by omega)]
      · simp
      · rw [Function.update_of_ne (by omega), if_neg (by omega), if_neg (by omega)]
  simpa using hrun

end Loop

/-! ## Scans -/

section Scan

variable {test : Nat → Bool} {left i k : Nat}

/-- Go on from entry `i` while the test holds, with `left` entries from `i` to the end
of the array.  The error is the first entry past the end. -/
def scan (test : Nat → Bool) : Nat → Nat → Except Nat Nat
  | 0, i => .error i
  | left + 1, i => if test i then scan test left (i + 1) else .ok i

/-- A scan stops at the first entry that fails the test. -/
theorem scan_ok (h : scan test left i = .ok k) :
    i ≤ k ∧ k < i + left ∧ test k = false ∧ ∀ m, i ≤ m → m < k → test m = true := by
  induction left generalizing i with
  | zero => simp [scan] at h
  | succ left ih =>
      rw [scan] at h
      split at h
      · rename_i hi
        obtain ⟨hle, hlt, hk, hbefore⟩ := ih h
        refine ⟨by omega, by omega, hk, fun m him hmk => ?_⟩
        rcases Nat.eq_or_lt_of_le him with rfl | him
        · exact hi
        · exact hbefore m him hmk
      · rename_i hi
        obtain rfl : i = k := by simpa using h
        exact ⟨le_rfl, by omega, by simpa using hi, fun m him hmk => by omega⟩

/-- A scan gets to a result when there is an entry to stop at. -/
theorem scan_total (hle : i ≤ k) (hlt : k < i + left) (hk : test k = false) :
    ∃ k', scan test left i = .ok k' := by
  induction left generalizing i with
  | zero => omega
  | succ left ih =>
      rw [scan]
      split
      · rename_i hi
        have hne : i ≠ k := fun h => by rw [h, hk] at hi; cases hi
        exact ih (by omega) (by omega)
      · exact ⟨i, rfl⟩

/-- A scan is a search with the end of the array taken for an error. -/
theorem toOption_scan :
    (scan test left i).toOption = (List.range' i left).find? fun m => !test m := by
  induction left generalizing i with
  | zero => rfl
  | succ left ih =>
      rw [scan, List.range'_succ, List.find?_cons]
      cases hi : test i with
      | true => simpa using ih
      | false => rfl

/-- The entries that fail the test, up to where a scan from `i` stops: those before `i`
and the one it stops at. -/
theorem filter_range'_scan {a : Nat} (hai : a ≤ i) (h : scan test left i = .ok k) :
    (List.range' a (k + 1 - a)).filter (fun m => !test m) =
      (List.range' a (i - a)).filter (fun m => !test m) ++ [k] := by
  obtain ⟨hle, -, hk, hbefore⟩ := scan_ok h
  have hsplit : List.range' a (k + 1 - a) =
      List.range' a (i - a) ++ (List.range' i (k - i) ++ [k]) := by
    have hmid : List.range' i (k - i) ++ [k] = List.range' i (k + 1 - i) := by
      rw [show k + 1 - i = k - i + 1 by omega, List.range'_concat]
      simp [show i + (k - i) = k by omega]
    rw [hmid, show k + 1 - a = i - a + (k + 1 - i) by omega, ← List.range'_append_1,
      show a + (i - a) = i by omega]
  have hnone : (List.range' i (k - i)).filter (fun m => !test m) = [] := by
    rw [List.filter_eq_nil_iff]
    intro m hm
    rw [List.mem_range'_1] at hm
    simp [hbefore m hm.1 (by omega)]
  rw [hsplit, List.filter_append, List.filter_append, hnone]
  simp [hk]

end Scan

/-! ## The first entries with a property -/

theorem range_append_range' (m n : Nat) : List.range m ++ List.range' m n = List.range (m + n) := by
  have h := List.range'_append_1 (s := 0) (m := m) (n := n)
  rwa [Nat.zero_add, ← List.range_eq_range', ← List.range_eq_range'] at h

/-- The entries found up to `m` are the first of those up to `n`. -/
theorem filter_range_initial (f : Nat → Bool) {m n : Nat} (h : m ≤ n) :
    (List.range m).filter f <+: (List.range n).filter f := by
  have hrange : List.range m <+: List.range n := by
    rw [List.prefix_iff_eq_take, List.take_range, List.length_range, Nat.min_eq_left h]
  exact hrange.filter f

/-- If there are more up to `n` than up to `m`, a scan for one from `m` on gets to it. -/
theorem scan_total_of_length_lt (test : Nat → Bool) {m n : Nat} (hmn : m ≤ n)
    (h : ((List.range m).filter fun i => !test i).length <
      ((List.range n).filter fun i => !test i).length) :
    ∃ k, scan test (n - m) m = .ok k := by
  rw [show n = m + (n - m) by omega, ← range_append_range', List.filter_append,
    List.length_append] at h
  obtain ⟨k, hk⟩ := List.exists_mem_of_length_pos
    (l := (List.range' m (n - m)).filter fun i => !test i) (by omega)
  rw [List.mem_filter, List.mem_range'_1] at hk
  exact scan_total hk.1.1 hk.1.2 (by simpa using hk.2)

end Hydra.Foundation
