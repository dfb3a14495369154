/-
  Manager/Ranking.lean --- the selection and the ranking of a mapping round as loops.

  Source: `IS_single_chunk_map` of `resilience_manager/is_main.c` up to the test of
  `free_mem[NDISKS-1]`.

  `Session` has what the loops compute.  Here are the loops: the `while` that looks for
  the next server from a random start, with a bound on its turns, and the exchanges on
  `free_mem` and `free_mem_sorted`, two arrays of `int` that are kept paired by doing
  everything twice.
-/
import Hydra.Foundation.Probe
import Hydra.Manager.Selection

set_option autoImplicit false

namespace Hydra.Manager

open Hydra.Foundation

/-! ## The selection -/

/-- `cb_state_list[b] >= CB_EVICTING || random_cb_selection[b] == 1`. -/
def passedOver (s : Session) (chosen : List Nat) (b : Nat) : Bool :=
  !(s.cbStateList b).selectable || chosen.contains b

/-- The random branch with `count` servers still to draw, each `while` with at most
`fuel` tests. -/
def drawLoop (fuel numCb : Nat) (random : Nat → Nat) (s : Session) :
    Nat → List Nat → Option (List Nat)
  | 0, chosen => some chosen
  | count + 1, chosen =>
      (probe numCb (passedOver s chosen) fuel (random chosen.length % numCb)).bind fun b =>
        drawLoop fuel numCb random s count (chosen ++ [b])

/-- The selection.  `avail_cb` counts over `NUM_CB` servers, the first branch goes over
`cb_num`. -/
def selectLoop (fuel : Nat) (cfg : Config) (numCb : Nat) (random : Nat → Nat) (s : Session) :
    Option (List Nat) :=
  if (selectableServers numCb s).length ≤ cfg.serverSelectNum then
    some (selectableServers s.cbNum s)
  else drawLoop fuel numCb random s cfg.serverSelectNum []

theorem probe_eq_probeServer {numCb start : Nat} (s : Session) (chosen : List Nat)
    (hstart : start < numCb) :
    probe numCb (passedOver s chosen) numCb start = probeServer numCb start s chosen := by
  rw [probe_eq_find? hstart, probeServer]
  congr 1
  funext b
  rw [passedOver, Bool.not_or, Bool.not_not]

/-- A `while` that ends at all ends within `NUM_CB` turns. -/
theorem drawLoop_eq_drawServers {fuel numCb : Nat} {random : Nat → Nat} {s : Session}
    (hpos : 0 < numCb) (hfuel : numCb ≤ fuel) {count : Nat} {chosen l : List Nat}
    (h : drawServers numCb random s count chosen = some l) :
    drawLoop fuel numCb random s count chosen = some l := by
  induction count generalizing chosen with
  | zero => exact h
  | succ count ih =>
      obtain ⟨b, hb, hrest⟩ := Option.bind_eq_some_iff.mp h
      rw [← probe_eq_probeServer s chosen (Nat.mod_lt _ hpos)] at hb
      rw [drawLoop, probe_mono hb hfuel]
      exact ih hrest

theorem selectLoop_eq_selectServers {fuel : Nat} (cfg : Config) (random : Nat → Nat) (s : Session)
    (hfuel : s.cbNum ≤ fuel) :
    selectLoop fuel cfg s.cbNum random s = selectServers cfg s.cbNum random s := by
  obtain ⟨l, hl, -⟩ := selectServers_spec cfg random s
  rw [hl]
  unfold selectServers at hl
  unfold selectLoop
  split
  · rename_i hfew
    rw [if_pos hfew] at hl
    exact hl
  · rename_i hmany
    rw [if_neg hmany] at hl
    have hpos : 0 < s.cbNum := by
      have hle : (selectableServers s.cbNum s).length ≤ s.cbNum :=
        (List.length_filter_le _ _).trans (by simp)
      omega
    exact drawLoop_eq_drawServers hpos hfuel hl

/-- How many servers are selected. -/
theorem selectServers_length {cfg : Config} {random : Nat → Nat} {s : Session} {l : List Nat}
    (h : selectServers cfg s.cbNum random s = some l) :
    l.length = min (selectableServers s.cbNum s).length cfg.serverSelectNum := by
  unfold selectServers at h
  split at h
  · rename_i hfew
    rw [← Option.some.inj h, min_eq_left hfew]
  · rename_i hmany
    have hnil : Selected s.cbNum s [] := ⟨List.nodup_nil, by simp, by simp⟩
    rw [(drawServers_selected hnil h).2, min_eq_right (by omega), List.length_nil, Nat.zero_add]

/-! ## The ranking -/

/-- `free_mem` and `free_mem_sorted`. -/
structure Ranking where
  freeMem : Nat → Int32
  freeMemSorted : Nat → Int32

/-- The three assignments that exchange two entries of an array. -/
def exchangeAt (a : Nat → Int32) (i j : Nat) : Nat → Int32 :=
  let a := Function.update a i (a i + a j)
  let a := Function.update a j (a i - a j)
  Function.update a i (a i - a j)

namespace Ranking

/-- An entry of both arrays. -/
def entry (r : Ranking) (i : Nat) : Int32 × Int32 := (r.freeMem i, r.freeMemSorted i)

/-- The body of the inner loop. -/
def compare (r : Ranking) (i j : Nat) : Ranking :=
  if r.freeMem i < r.freeMem j then
    ⟨exchangeAt r.freeMem i j, exchangeAt r.freeMemSorted i j⟩
  else r

/-- The loops over the `k` servers selected. -/
def sort (ndisks k : Nat) (r : Ranking) : Ranking :=
  (List.range ndisks).foldl
    (fun r i => (List.range' (i + 1) (k - (i + 1))).foldl (fun r j => r.compare i j) r) r

/-- The arrays when the queries are done: the sentinels where no server was selected. -/
def queried (numCb : Nat) (freeMem : Nat → Int32) (s : Session) (selection : List Nat) :
    Ranking where
  freeMem := fun i => (selection[i]?.map fun b => (queryEntry numCb freeMem s b).1).getD (-1)
  freeMemSorted := fun i =>
    Int32.ofNat ((selection[i]?.map fun b => (queryEntry numCb freeMem s b).2).getD numCb)

/-- The first `k` entries. -/
def entries (r : Ranking) (k : Nat) : List (Int32 × Int32) := (List.range k).map r.entry

end Ranking

/-- The additions and subtractions exchange the entries, also when a sum wraps around. -/
theorem exchangeAt_eq (a : Nat → Int32) {i j : Nat} (hij : i ≠ j) :
    exchangeAt a i j = Function.update (Function.update a i (a j)) j (a i) := by
  have hpair : exchange (a i) (a j) = (a j, a i) := exchange_eq (a i) (a j)
  funext m
  by_cases hi : m = i
  · subst hi
    simp only [exchangeAt, Function.update_self, Function.update_of_ne hij,
      Function.update_of_ne hij.symm]
    exact congrArg Prod.fst hpair
  · by_cases hj : m = j
    · subst hj
      simp only [exchangeAt, Function.update_self, Function.update_of_ne hi,
        Function.update_of_ne hij]
      exact congrArg Prod.snd hpair
    · simp only [exchangeAt, Function.update_of_ne hi, Function.update_of_ne hj]

/-- The comparison of two entries. -/
def lessFree {β : Type} (x y : Int32 × β) : Bool := decide (x.1 < y.1)

theorem orders_lessFree {β : Type} : Orders (lessFree (β := β)) where
  asymm := by
    intro x y hlt
    have hlt := of_decide_eq_true hlt
    exact decide_eq_false (Int32.not_lt.mpr (Int32.le_of_lt hlt))
  trans := by
    intro x y z hxy hyz
    have hxy := Int32.not_lt.mp (of_decide_eq_false hxy)
    have hyz := Int32.not_lt.mp (of_decide_eq_false hyz)
    exact decide_eq_false (Int32.not_lt.mpr (Int32.le_trans hyz hxy))

namespace Ranking

theorem entry_compare (r : Ranking) {i j : Nat} (hij : i ≠ j) :
    (r.compare i j).entry = exchangeIf lessFree r.entry i j := by
  by_cases hlt : r.freeMem i < r.freeMem j
  · have htest : lessFree (r.entry i) (r.entry j) = true := decide_eq_true hlt
    rw [compare, if_pos hlt, exchangeIf, if_pos htest, exchangeAt_eq _ hij, exchangeAt_eq _ hij]
    funext m
    by_cases hj : m = j
    · subst hj
      simp [entry]
    · by_cases hi : m = i
      · subst hi
        simp [entry, hj]
      · simp [entry, hi, hj]
  · have htest : ¬ lessFree (r.entry i) (r.entry j) = true := fun h => hlt (of_decide_eq_true h)
    rw [compare, if_neg hlt, exchangeIf, if_neg htest]

/-- The two arrays are sorted as one array of pairs. -/
theorem entry_sort (r : Ranking) (ndisks k : Nat) :
    (r.sort ndisks k).entry = exchangeSort lessFree ndisks k r.entry := by
  have hrow : ∀ (l : List Nat) (i : Nat) (r : Ranking), (∀ j ∈ l, i ≠ j) →
      (l.foldl (fun r j => r.compare i j) r).entry =
        l.foldl (fun a j => exchangeIf lessFree a i j) r.entry := by
    intro l i
    induction l with
    | nil => exact fun r _ => rfl
    | cons j rest ih =>
        intro r hl
        rw [List.foldl_cons, List.foldl_cons, ih _ fun k hk => hl k (List.mem_cons_of_mem j hk),
          entry_compare r (hl j List.mem_cons_self)]
  have hrows : ∀ (l : List Nat) (r : Ranking),
      (l.foldl (fun r i => (List.range' (i + 1) (k - (i + 1))).foldl
        (fun r j => r.compare i j) r) r).entry = l.foldl (exchangeRow lessFree k) r.entry := by
    intro l
    induction l with
    | nil => exact fun r => rfl
    | cons i rest ih =>
        intro r
        rw [List.foldl_cons, List.foldl_cons, ih, exchangeRow, hrow]
        intro j hj
        have hj := (List.mem_range'_1.mp hj).1
        omega
  exact hrows _ r

theorem entries_sort (r : Ranking) {ndisks k : Nat} (hk : ndisks ≤ k) :
    (r.sort ndisks k).entries k = sortFirst lessFree ndisks (r.entries k) := by
  rw [entries, entry_sort, exchangeSort_eq hk]
  rfl

theorem entries_queried (numCb : Nat) (freeMem : Nat → Int32) (s : Session)
    (selection : List Nat) :
    (queried numCb freeMem s selection).entries selection.length =
      selection.map fun b =>
        ((queryEntry numCb freeMem s b).1, Int32.ofNat (queryEntry numCb freeMem s b).2) := by
  apply List.ext_getElem (by simp [entries])
  intro i hi hi'
  have hlt : i < selection.length := by simpa using hi'
  simp [entries, entry, queried, List.getElem?_eq_getElem hlt]

/-- The loops compute `rankServers`. -/
theorem entries_sort_eq_rankServers (cfg : Config) (numCb : Nat) (freeMem : Nat → Int32)
    (s : Session) {selection : List Nat} (hk : cfg.ndisks ≤ selection.length) :
    ((queried numCb freeMem s selection).sort cfg.ndisks selection.length).entries
        selection.length =
      (rankServers cfg numCb freeMem s selection).map fun e => (e.1, Int32.ofNat e.2) := by
  have hrank : sortFirst lessFree cfg.ndisks ((selection.map (queryEntry numCb freeMem s)).map
      fun e => (e.1, Int32.ofNat e.2)) =
        (sortFirst (fun x y => decide (x.1 < y.1)) cfg.ndisks
          (selection.map (queryEntry numCb freeMem s))).map fun e => (e.1, Int32.ofNat e.2) :=
    sortFirst_map _ (fun _ _ => rfl) _ _
  rw [List.map_map] at hrank
  rw [entries_sort _ hk, entries_queried, rankServers, ← hrank]
  rfl

end Ranking

/-! ## The round up to the ranking -/

/-- The selection ends with as many different servers below `CB_EVICTING` as there are,
up to `SERVER_SELECT_NUM`; the ranking reorders what they replied, the first `NDISKS`
entries by free memory and no other above them. -/
theorem selection_and_ranking (cfg : Config) (random : Nat → Nat) (freeMem : Nat → Int32)
    (s : Session) :
    ∃ selection : List Nat,
      (∀ fuel, s.cbNum ≤ fuel → selectLoop fuel cfg s.cbNum random s = some selection) ∧
      selection.length = min (selectableServers s.cbNum s).length cfg.serverSelectNum ∧
      selection.Nodup ∧
      (∀ b ∈ selection, b < s.cbNum ∧ (s.cbStateList b).selectable = true) ∧
      (cfg.ndisks ≤ selection.length →
        ∀ ranked, ranked = ((Ranking.queried s.cbNum freeMem s selection).sort cfg.ndisks
            selection.length).entries selection.length →
          ranked.Perm (selection.map fun b => (freeMem b, Int32.ofNat b)) ∧
          (ranked.take cfg.ndisks).Pairwise (fun x y => y.1 ≤ x.1) ∧
          ∀ x ∈ ranked.take cfg.ndisks, ∀ y ∈ ranked.drop cfg.ndisks, y.1 ≤ x.1) := by
  obtain ⟨selection, hselect, hselected⟩ := selectServers_spec cfg random s
  refine ⟨selection, fun fuel hfuel => ?_, selectServers_length hselect, hselected.nodup,
    fun b hb => ⟨hselected.bound b hb, hselected.selectable b hb⟩, ?_⟩
  · rw [selectLoop_eq_selectServers cfg random s hfuel, hselect]
  rintro hk ranked rfl
  have hreplies : (selection.map fun b => ((queryEntry s.cbNum freeMem s b).1,
      Int32.ofNat (queryEntry s.cbNum freeMem s b).2)) =
        selection.map fun b => (freeMem b, Int32.ofNat b) := by
    apply List.map_congr_left
    intro b hb
    have hlive : s.cbStateList b ≠ .fail := by
      intro hfail
      have hselectable := hselected.selectable b hb
      simp [hfail, CbState.selectable] at hselectable
    simp [queryEntry, hlive]
  rw [Ranking.entries_sort _ hk, Ranking.entries_queried, hreplies]
  obtain ⟨hsorted, habove⟩ := orders_lessFree.sortFirst_front cfg.ndisks
    (selection.map fun b => (freeMem b, Int32.ofNat b))
  refine ⟨sortFirst_perm _ _ _, hsorted.imp fun hxy => ?_, fun x hx y hy => ?_⟩
  · exact Int32.not_lt.mp (of_decide_eq_false hxy)
  · exact Int32.not_lt.mp (of_decide_eq_false (habove x hx y hy))

end Hydra.Manager
