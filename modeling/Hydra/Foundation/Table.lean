import Mathlib.Logic.Function.Basic
import Mathlib.Data.List.Duplicate
import Mathlib.Data.List.FinRange
import Mathlib.Data.List.NodupEquivFin

set_option autoImplicit false

/-!
# Foundation: loops that write a table

A `for` loop over the indices of an array that writes some of the entries is a
left fold of `Function.update`.  The lemmas give such a loop's result at one
entry, and the first index a search loop with a `break` stops at.
-/

namespace Hydra.Foundation

variable {ι κ β : Type*} [DecidableEq κ]

/-- The loop `for i in l: if pick i = some k then t[k] = v`. -/
def clearPicked (pick : ι → Option κ) (v : β) (l : List ι) (t : κ → β) : κ → β :=
  l.foldl (fun t i => match pick i with
    | none => t
    | some k => Function.update t k v) t

theorem clearPicked_apply (pick : ι → Option κ) (v : β) (l : List ι) (t : κ → β) (k : κ) :
    clearPicked pick v l t k = if ∃ i ∈ l, pick i = some k then v else t k := by
  induction l generalizing t with
  | nil => simp [clearPicked]
  | cons i rest ih =>
      have hunfold : clearPicked pick v (i :: rest) t =
          clearPicked pick v rest (match pick i with
            | none => t
            | some k => Function.update t k v) := rfl
      rw [hunfold, ih]
      by_cases hrest : ∃ j ∈ rest, pick j = some k
      · have hcons : ∃ j ∈ i :: rest, pick j = some k := by
          obtain ⟨j, hj, hpick⟩ := hrest
          exact ⟨j, List.mem_cons_of_mem i hj, hpick⟩
        rw [if_pos hrest, if_pos hcons]
      · rw [if_neg hrest]
        have hiff : (∃ j ∈ i :: rest, pick j = some k) ↔ pick i = some k := by
          constructor
          · rintro ⟨j, hj, hpick⟩
            rcases List.mem_cons.mp hj with rfl | hj
            · exact hpick
            · exact absurd ⟨j, hj, hpick⟩ hrest
          · intro hpick
            exact ⟨i, List.mem_cons_self, hpick⟩
        simp only [hiff]
        cases hpick : pick i with
        | none => simp
        | some k' =>
            by_cases hk : k' = k
            · simp [hk]
            · simp [hk, Function.update_of_ne (Ne.symm hk)]

theorem clearPicked_finRange {n : Nat} (pick : Fin n → Option κ) (v : β) (t : κ → β) (k : κ) :
    clearPicked pick v (List.finRange n) t k = if ∃ i, pick i = some k then v else t k := by
  simp [clearPicked_apply]

/-! ## Queued writes -/

/-- The memory after a queue of operations, some of which write a cell. -/
def afterWrites {ω : Type*} (w : ω → Option (κ × β)) (l : List ω) (m : κ → β) : κ → β :=
  l.foldl (fun m o => match w o with
    | none => m
    | some e => Function.update m e.1 e.2) m

section Queue

variable {ω : Type*} {w w' : ω → Option (κ × β)} {l l' : List ω} {m m' : κ → β} {k : κ}

theorem afterWrites_append : afterWrites w (l ++ l') m = afterWrites w l' (afterWrites w l m) :=
  List.foldl_append

theorem afterWrites_congr (h : ∀ o ∈ l, w o = w' o) : afterWrites w l m = afterWrites w' l m := by
  induction l generalizing m with
  | nil => rfl
  | cons o rest ih =>
      have hrest : ∀ o' ∈ rest, w o' = w' o' := fun o' ho' => h o' (List.mem_cons_of_mem o ho')
      simp only [afterWrites, List.foldl_cons, h o List.mem_cons_self]
      exact ih hrest

/-- A cell depends on its own contents only. -/
theorem afterWrites_apply_congr (h : m k = m' k) : afterWrites w l m k = afterWrites w l m' k := by
  induction l generalizing m m' with
  | nil => exact h
  | cons o rest ih =>
      simp only [afterWrites, List.foldl_cons]
      cases w o with
      | none => exact ih h
      | some e =>
          refine ih ?_
          dsimp only
          by_cases hk : k = e.1
          · rw [hk, Function.update_self, Function.update_self]
          · rw [Function.update_of_ne hk, Function.update_of_ne hk, h]

theorem afterWrites_of_ne (h : ∀ o ∈ l, ∀ e, w o = some e → e.1 ≠ k) :
    afterWrites w l m k = m k := by
  induction l generalizing m with
  | nil => rfl
  | cons o rest ih =>
      have hrest : ∀ o' ∈ rest, ∀ e, w o' = some e → e.1 ≠ k :=
        fun o' ho' => h o' (List.mem_cons_of_mem o ho')
      simp only [afterWrites, List.foldl_cons]
      cases ho : w o with
      | none => exact ih hrest
      | some e =>
          have hne : k ≠ e.1 := (h o List.mem_cons_self e ho).symm
          refine (ih hrest).trans ?_
          exact Function.update_of_ne hne _ _

/-- A cell written once or more, always with the same contents. -/
theorem afterWrites_eq {v : β} (hwritten : ∃ o ∈ l, w o = some (k, v))
    (hsame : ∀ o ∈ l, ∀ v', w o = some (k, v') → v' = v) : afterWrites w l m k = v := by
  induction l generalizing m with
  | nil =>
      obtain ⟨o, ho, -⟩ := hwritten
      cases ho
  | cons o rest ih =>
      have hsame' : ∀ o' ∈ rest, ∀ v', w o' = some (k, v') → v' = v :=
        fun o' ho' => hsame o' (List.mem_cons_of_mem o ho')
      by_cases hmore : ∃ o' ∈ rest, w o' = some (k, v)
      · exact ih hmore hsame'
      · obtain ⟨o', ho', hw⟩ := hwritten
        rcases List.mem_cons.mp ho' with rfl | ho'
        · have hrest : ∀ p ∈ rest, ∀ e, w p = some e → e.1 ≠ k := by
            rintro p hp ⟨k', v'⟩ he rfl
            exact hmore ⟨p, hp, by rw [he, hsame' p hp v' he]⟩
          simp only [afterWrites, List.foldl_cons, hw]
          refine (afterWrites_of_ne hrest).trans ?_
          exact Function.update_self ..
        · exact absurd ⟨o', ho', hw⟩ hmore

end Queue

/-! ## Lists with marked entries -/

/-- The first entry with a property, and the list without it. -/
theorem find?_split {α : Type*} {p : α → Bool} {l : List α} {a : α} (hfind : l.find? p = some a) :
    p a = true ∧ ∃ pre post, l = pre ++ a :: post ∧ (∀ b ∈ pre, p b = false) ∧
      l.eraseP p = pre ++ post := by
  obtain ⟨ha, pre, post, rfl, hpre⟩ := List.find?_eq_some_iff_append.mp hfind
  have hpre' : ∀ b ∈ pre, p b = false := fun b hb => by simpa using hpre b hb
  refine ⟨ha, pre, post, rfl, hpre', ?_⟩
  rw [List.eraseP_append_right _ fun b hb => by simp [hpre' b hb], List.eraseP_cons_of_pos ha]

/-- The index a search of a table stops at: the first one that passes. -/
theorem find?_finRange_eq_some {n : Nat} {p : Fin n → Bool} {i : Fin n} :
    (List.finRange n).find? p = some i ↔ p i = true ∧ ∀ j < i, p j = false := by
  rw [List.find?_eq_some_iff_getElem]
  constructor
  · rintro ⟨hi, k, hk, hget, hbefore⟩
    refine ⟨hi, fun j hj => ?_⟩
    have hki : k = i.val := by rw [← hget]; simp
    simpa using hbefore j.val (by rw [hki]; exact hj)
  · rintro ⟨hi, hbefore⟩
    refine ⟨hi, i.val, by simp, by simp, fun j hj => ?_⟩
    simpa using hbefore ⟨j, by omega⟩ hj

/-- An entry that occurs once is at one place. -/
theorem eq_of_getElem?_of_count_le {ids : List κ} {k : κ} {i j : Nat} (honce : ids.count k ≤ 1)
    (hi : ids[i]? = some k) (hj : ids[j]? = some k) : i = j := by
  obtain ⟨hilt, higet⟩ := List.getElem?_eq_some_iff.mp hi
  obtain ⟨hjlt, hjget⟩ := List.getElem?_eq_some_iff.mp hj
  have htwice : ∀ n m : Fin ids.length, n < m → ids.get n = k → ids.get m = k → False := by
    intro n m hnm hn hm
    have hdup : List.Duplicate k ids :=
      List.duplicate_iff_exists_distinct_get.mpr ⟨n, m, hnm, hn.symm, hm.symm⟩
    have htwo := List.duplicate_iff_two_le_count.mp hdup
    omega
  rcases Nat.lt_trichotomy i j with hlt | heq | hgt
  · exact (htwice ⟨i, hilt⟩ ⟨j, hjlt⟩ hlt higet hjget).elim
  · exact heq
  · exact (htwice ⟨j, hjlt⟩ ⟨i, hilt⟩ hgt hjget higet).elim

/-- Of entries no two of which are marked, at most one is. -/
theorem countP_le_one {α : Type*} {p : α → Bool} {l : List α}
    (h : l.Pairwise fun a b => p a = true → p b = false) : l.countP p ≤ 1 := by
  induction l with
  | nil => simp
  | cons a rest ih =>
      obtain ⟨ha, hrest⟩ := List.pairwise_cons.mp h
      by_cases hpa : p a = true
      · have hzero : rest.countP p = 0 := by
          rw [List.countP_eq_zero]
          intro b hb
          simp [ha b hb hpa]
        rw [List.countP_cons_of_pos hpa, hzero]
      · rw [List.countP_cons_of_neg hpa]
        exact ih hrest

/-! ## Loops that modify entries in place -/

/-- The loop `for (k, i) in l: t[k] = f i t[k]`. -/
def updateEach (f : ι → β → β) (l : List (κ × ι)) (t : κ → β) : κ → β :=
  l.foldl (fun t e => Function.update t e.1 (f e.2 (t e.1))) t

/-- Only the turns that name an entry act on it. -/
theorem updateEach_apply (f : ι → β → β) (l : List (κ × ι)) (t : κ → β) (k : κ) :
    updateEach f l t k =
      (l.filter fun e => decide (e.1 = k)).foldl (fun x e => f e.2 x) (t k) := by
  induction l generalizing t with
  | nil => rfl
  | cons e rest ih =>
      have hunfold : updateEach f (e :: rest) t =
          updateEach f rest (Function.update t e.1 (f e.2 (t e.1))) := rfl
      rw [hunfold, ih]
      by_cases hk : e.1 = k
      · subst hk
        simp
      · simp [hk, Function.update_of_ne (Ne.symm hk)]

theorem updateEach_of_notMem (f : ι → β → β) {l : List (κ × ι)} (t : κ → β) {k : κ}
    (hnot : ∀ e ∈ l, e.1 ≠ k) : updateEach f l t k = t k := by
  have hnil : (l.filter fun e => decide (e.1 = k)) = [] := by
    simpa [List.filter_eq_nil_iff] using fun a b hab => hnot (a, b) hab
  rw [updateEach_apply, hnil]
  rfl

/-- What every turn at an entry keeps holds of it in the end. -/
theorem updateEach_induct {P : β → Prop} (f : ι → β → β) {l : List (κ × ι)} (t : κ → β) {k : κ}
    (hinit : P (t k)) (hturn : ∀ e ∈ l, e.1 = k → ∀ x, P x → P (f e.2 x)) :
    P (updateEach f l t k) := by
  induction l generalizing t with
  | nil => exact hinit
  | cons e rest ih =>
      have hunfold : updateEach f (e :: rest) t =
          updateEach f rest (Function.update t e.1 (f e.2 (t e.1))) := rfl
      rw [hunfold]
      refine ih _ ?_ fun e' he' => hturn e' (List.mem_cons_of_mem e he')
      by_cases hk : e.1 = k
      · subst hk
        simpa using hturn e List.mem_cons_self rfl (t e.1) hinit
      · rw [Function.update_of_ne (Ne.symm hk)]
        exact hinit

/-- What no turn at an entry changes is as before. -/
theorem updateEach_keeps {γ : Type*} (g : β → γ) (f : ι → β → β) {l : List (κ × ι)} (t : κ → β)
    {k : κ} (hkeep : ∀ e ∈ l, e.1 = k → ∀ x, g (f e.2 x) = g x) :
    g (updateEach f l t k) = g (t k) :=
  updateEach_induct (P := fun x => g x = g (t k)) f t rfl fun e he hk x hx =>
    (hkeep e he hk x).trans hx

/-- An entry that exactly one turn of a numbered loop names. -/
theorem updateEach_zipIdx {ids : List κ} (f : Nat → β → β) (t : κ → β) {k : κ} {i : Nat}
    (hat : ids[i]? = some k) (honce : ids.count k ≤ 1) :
    updateEach f ids.zipIdx t k = f i (t k) := by
  have hmem : (k, i) ∈ ids.zipIdx := by
    rw [List.mem_zipIdx_iff_getElem?]
    exact hat
  have hlen : (ids.zipIdx.filter fun e => decide (e.1 = k)).length ≤ 1 := by
    have hmap : ((ids.zipIdx.filter fun e => decide (e.1 = k)).map Prod.fst).length =
        ids.count k := by
      have hfst : ids = ids.zipIdx.map Prod.fst := (List.zipIdx_map_fst 0 ids).symm
      conv_rhs => rw [hfst]
      rw [List.count, List.countP_map, List.countP_eq_length_filter, List.length_map]
      congr 1
    rw [List.length_map] at hmap
    omega
  have hin : (k, i) ∈ ids.zipIdx.filter fun e => decide (e.1 = k) := by
    simp [hmem]
  have hone : (ids.zipIdx.filter fun e => decide (e.1 = k)) = [(k, i)] := by
    match hl : ids.zipIdx.filter fun e => decide (e.1 = k) with
    | [] => simp [hl] at hin
    | [e] =>
        rw [hl] at hin
        rw [List.mem_singleton.mp hin]
        exact hl
    | _ :: _ :: _ => simp [hl] at hlen
  rw [updateEach_apply, hone]
  rfl

end Hydra.Foundation
