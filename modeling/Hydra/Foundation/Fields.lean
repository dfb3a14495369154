import Mathlib.Data.List.TakeWhile
import Mathlib.Data.List.Basic

set_option autoImplicit false

/-!
# Foundation: lines and fields of a text

`splitLines` cuts a text behind every newline, as a reader of lines does.  `fieldHead`
and `fieldTail` are what `strsep` returns and what it leaves behind; a text without the
separator leaves nothing.  `joinFields` writes fields with a separator behind each, and
taking the fields off again gives them back.
-/

namespace Hydra.Foundation

variable {α : Type*}

/-! ## Lines -/

section Lines

variable [DecidableEq α] {nl : α}

/-- The lines of a text, each with its newline. -/
def splitLines (nl : α) : List α → List (List α)
  | [] => []
  | c :: rest =>
      if c = nl then [nl] :: splitLines nl rest
      else
        match splitLines nl rest with
        | [] => [[c]]
        | line :: more => (c :: line) :: more

theorem splitLines_append {line : List α} (h : nl ∉ line) (rest : List α) :
    splitLines nl (line ++ nl :: rest) = (line ++ [nl]) :: splitLines nl rest := by
  induction line with
  | nil => simp [splitLines]
  | cons c line ih =>
      rw [List.mem_cons, not_or] at h
      rw [List.cons_append, splitLines, if_neg (Ne.symm h.1), ih h.2]
      rfl

/-- Text behind the last newline is a line if there is any. -/
theorem splitLines_last {line : List α} (h : nl ∉ line) :
    splitLines nl line = if line = [] then [] else [line] := by
  induction line with
  | nil => rfl
  | cons c line ih =>
      rw [List.mem_cons, not_or] at h
      rw [splitLines, if_neg (Ne.symm h.1), ih h.2]
      by_cases hline : line = []
      · simp [hline]
      · simp [hline]

/-- A text written line by line. -/
theorem splitLines_flatMap {lines : List (List α)} (h : ∀ line ∈ lines, nl ∉ line)
    (rest : List α) :
    splitLines nl (lines.flatMap (· ++ [nl]) ++ rest) =
      lines.map (· ++ [nl]) ++ splitLines nl rest := by
  induction lines with
  | nil => rfl
  | cons line more ih =>
      obtain ⟨hline, hmore⟩ := List.forall_mem_cons.mp h
      rw [List.flatMap_cons, List.map_cons, List.append_assoc, List.append_assoc,
        List.singleton_append, splitLines_append hline, ih hmore, List.cons_append]

end Lines

/-! ## Joining -/

/-- Fields with a separator behind each. -/
def joinFields (sep : α) (fields : List (List α)) : List α := fields.flatMap (· ++ [sep])

theorem joinFields_cons (sep : α) (field : List α) (fields : List (List α)) :
    joinFields sep (field :: fields) = field ++ sep :: joinFields sep fields := by
  simp [joinFields]

theorem length_le_joinFields (sep : α) (fields : List (List α)) :
    fields.length ≤ (joinFields sep fields).length := by
  induction fields with
  | nil => exact Nat.zero_le _
  | cons field fields ih =>
      rw [joinFields_cons, List.length_append, List.length_cons, List.length_cons]
      omega

/-! ## Fields -/

section Fields

variable [DecidableEq α] {sep : α}

/-- A text up to its first separator. -/
def fieldHead (sep : α) (s : List α) : List α := s.takeWhile (· ≠ sep)

/-- What stands behind the first separator. -/
def fieldTail (sep : α) (s : List α) : Option (List α) :=
  match s.dropWhile (· ≠ sep) with
  | [] => none
  | _ :: rest => some rest

/-- Where the fields start from some place on: `k` fields are passed over. -/
def fieldFrom (sep : α) : Nat → Option (List α) → Option (List α)
  | 0, s => s
  | k + 1, s => fieldFrom sep k (s.bind (fieldTail sep))

theorem not_mem_fieldHead {s : List α} : sep ∉ fieldHead sep s := by
  intro hmem
  have := List.mem_takeWhile_imp hmem
  simp at this

theorem fieldHead_append {field : List α} (h : sep ∉ field) (rest : List α) :
    fieldHead sep (field ++ sep :: rest) = field := by
  have hall : ∀ c ∈ field, decide (c ≠ sep) = true := by
    intro c hc
    simpa using ne_of_mem_of_not_mem hc h
  rw [fieldHead, List.takeWhile_append_of_pos hall, List.takeWhile_cons_of_neg (by simp),
    List.append_nil]

theorem fieldTail_append {field : List α} (h : sep ∉ field) (rest : List α) :
    fieldTail sep (field ++ sep :: rest) = some rest := by
  have hall : ∀ c ∈ field, decide (c ≠ sep) = true := by
    intro c hc
    simpa using ne_of_mem_of_not_mem hc h
  rw [fieldTail, List.dropWhile_append_of_pos hall, List.dropWhile_cons_of_neg (by simp)]

theorem fieldTail_some {s rest : List α} (h : fieldTail sep s = some rest) :
    s = fieldHead sep s ++ sep :: rest := by
  unfold fieldTail at h
  split at h
  · cases h
  · rename_i c more hdrop
    obtain rfl := Option.some.inj h
    have hsep : c = sep := by
      have hne : s.dropWhile (fun c => decide (c ≠ sep)) ≠ [] := by
        rw [hdrop]
        exact List.cons_ne_nil c more
      have hc : (s.dropWhile fun c => decide (c ≠ sep)).head hne = c := by
        simp only [hdrop, List.head_cons]
      have hhead := List.head_dropWhile_not _ hne
      rw [hc] at hhead
      simpa using hhead
    have happend := List.takeWhile_append_dropWhile (p := fun c => decide (c ≠ sep)) (l := s)
    rw [hdrop, hsep] at happend
    exact happend.symm

theorem fieldFrom_none (k : Nat) : fieldFrom sep k none = none := by
  induction k with
  | zero => rfl
  | succ k ih => exact ih

/-- Every field passed over is at least its separator. -/
theorem fieldFrom_length {k : Nat} {s rest : List α} (h : fieldFrom sep k (some s) = some rest) :
    rest.length + k ≤ s.length := by
  induction k generalizing s with
  | zero =>
      obtain rfl := Option.some.inj h
      simp
  | succ k ih =>
      rw [fieldFrom, Option.bind_some] at h
      cases htail : fieldTail sep s with
      | none =>
          rw [htail, fieldFrom_none] at h
          cases h
      | some t =>
          rw [htail] at h
          have hle := ih h
          have hlen := congrArg List.length (fieldTail_some htail)
          rw [List.length_append, List.length_cons] at hlen
          omega

/-- A search finds something in front of place `n`. -/
theorem findIdx?_lt_iff {c : α} {s : List α} {n : Nat} :
    (∃ j, s.findIdx? (· = c) = some j ∧ j < n) ↔ c ∈ s.take n := by
  induction s generalizing n with
  | nil => simp
  | cons d s ih =>
      cases n with
      | zero => simp
      | succ n =>
          rw [List.take_succ_cons, List.mem_cons, ← ih, List.findIdx?_cons]
          by_cases hd : d = c
          · simp [hd]
          · rw [if_neg (by simpa using hd)]
            constructor
            · rintro ⟨j, hj, hlt⟩
              obtain ⟨k, hk, rfl⟩ := Option.map_eq_some_iff.mp hj
              exact .inr ⟨k, hk, by omega⟩
            · rintro (rfl | ⟨k, hk, hlt⟩)
              · exact absurd rfl hd
              · exact ⟨k + 1, by rw [hk]; rfl, by omega⟩

end Fields

end Hydra.Foundation
