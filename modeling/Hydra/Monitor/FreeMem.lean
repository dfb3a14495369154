/-
  Monitor/FreeMem.lean --- the loop that grows and shrinks the pool.

  Source: `get_free_mem` and `free_mem` of `resource_monitor/rdma-common.c`.

  Once a second the loop reads how much memory the machine has left, smooths the reading
  and compares it with two thresholds.  A low value gives chunks back at once; the pool
  grows at every twentieth high value.  The smoothing is in floating point and stays a
  parameter: nothing here depends on it.  Of `evict_mem` a turn has the first phase; the
  second one changes the tables through the messages of the clients only.
-/
import Mathlib.Data.Bool.AllAny
import Hydra.Foundation.Decimal
import Hydra.Monitor.Accounting

set_option autoImplicit false

namespace Hydra.Monitor

open Hydra.Foundation Hydra.Wire

/-! ## Free memory -/

/-- `fgets` with room for `n` characters: the line and the rest of the file. -/
def fgets : Nat → List UInt8 → List UInt8 × List UInt8
  | 0, file => ([], file)
  | _ + 1, [] => ([], [])
  | n + 1, c :: file =>
      if c = 10 then ([c], file) else (c :: (fgets n file).1, (fgets n file).2)

/-- `get_free_mem` on the text of `/proc/meminfo`: the digits of the second line, read as
one number; `none` is a `long` that overflows. -/
def getFreeMem (meminfo : List UInt8) : Option Int :=
  let line := (fgets 59 (fgets 59 meminfo).2).1
  let res := digitsValue (line.filter isDigit)
  if res < 2 ^ 63 then some res else none

/-- `(int)(get_free_mem() / ONE_MB)`. -/
def freeMemG (meminfo : List UInt8) : Option Int :=
  (getFreeMem meminfo).map fun res => (res / 1048576).bmod (2 ^ 32)

/-! ## The loop -/

/-- `MEM_EVICT_HIT_THRESHOLD`. -/
def memEvictHitThreshold : Nat := 1

/-- `MEM_EXPAND_HIT_THRESHOLD`. -/
def memExpandHitThreshold : Nat := 20

/-- The variables of `free_mem` that live through a turn. -/
structure FreeMemLoop where
  lastFreeMemG : Int
  evictHitCount : Nat
  expandHitCount : Nat

/-- `stop_size_g`. -/
def stopSizeG (lastFreeMemG : Int) (m : Session) : Int :=
  if m.sizeGb < freeMemEvictThreshold - lastFreeMemG then m.sizeGb
  else freeMemEvictThreshold - lastFreeMemG

/-- What a turn did to the pool. -/
inductive TurnAct where
  | nothing
  | evicted
  | expanded
  deriving DecidableEq, Repr

/-- A turn, for what it did: `filtered_free_mem_g`, the branch it went through to the end,
`size_gb` and `mapped_size` before it, and `size_gb` after it. -/
structure Turn where
  filtered : Int
  act : TurnAct
  sizeGb : Int
  mappedSize : Int
  sizeAfter : Int

/-- One turn of the loop on the smoothed reading. -/
def freeMemTurn (filtered : Int) (l : FreeMemLoop) (m : Session) :
    FreeMemLoop × Session × TurnAct :=
  if filtered < freeMemEvictThreshold then
    if l.evictHitCount + 1 ≥ memEvictHitThreshold then
      let stopG := stopSizeG filtered m
      (⟨filtered + stopG, 0, 0⟩, if stopG > 0 then (evictFreeUnmapped stopG m).1 else m, .evicted)
    else (⟨filtered, l.evictHitCount + 1, 0⟩, m, .nothing)
  else if filtered > freeMemExpandThreshold then
    if l.expandHitCount + 1 ≥ memExpandHitThreshold then
      (⟨filtered - expandSize filtered m, 0, 0⟩, freeMemExpand filtered m, .expanded)
    else (⟨filtered, 0, l.expandHitCount + 1⟩, m, .nothing)
  else (⟨filtered, l.evictHitCount, l.expandHitCount⟩, m, .nothing)

/-- The loop, the session, and the turns so far, the last one first. -/
structure MonitorRun where
  loop : FreeMemLoop
  m : Session
  turns : List Turn

/-- A turn, or one of the handlers of the other threads. -/
inductive LoopAction where
  | turn (meminfo : List UInt8)
  | other (a : Action)

/-- One action. -/
def loopStep (filter : Int → Int → Int) (s : MonitorRun) : LoopAction → Option MonitorRun
  | .turn meminfo =>
      if s.m.running then
        (freeMemG meminfo).map fun freeMemG =>
          let filtered := filter freeMemG s.loop.lastFreeMemG
          let r := freeMemTurn filtered s.loop s.m
          ⟨r.1, r.2.1, ⟨filtered, r.2.2, s.m.sizeGb, s.m.mappedSize, r.2.1.sizeGb⟩ :: s.turns⟩
      else none
  | .other a => (step s.m a).map fun m => { s with m }

/-- The other threads run the handlers, under what those rely on. -/
def HandlersOnly (s : MonitorRun) : LoopAction → Prop
  | .turn _ => True
  | .other a =>
      (∀ lastFreeMemG, a ≠ .expand lastFreeMemG) ∧ (∀ stopG, a ≠ .freeUnmapped stopG) ∧
        Permitted s.m a ∧ Covered s.m a

/-! ## Properties -/

/-- The high values since the last low one or the last growth. -/
def highsSince (turns : List Turn) : Nat :=
  (turns.takeWhile fun t =>
    decide (freeMemEvictThreshold ≤ t.filtered) && decide (t.act ≠ .expanded)).countP
      fun t => decide (freeMemExpandThreshold < t.filtered)

/-- What `size_gb` should be after a turn.  An eviction gives back what is missing to the
threshold, as far as there are unbound chunks; a growth takes what is above the other one,
as far as there is room. -/
def Turn.resized (t : Turn) : Int :=
  match t.act with
  | .nothing => t.sizeGb
  | .evicted => t.sizeGb - min (freeMemEvictThreshold - t.filtered) (t.sizeGb - t.mappedSize)
  | .expanded => t.sizeGb + min (t.filtered - freeMemExpandThreshold) (maxFreeMemGb - t.sizeGb)

/-- The pool shrinks at every low value, and grows at a high value that is the twentieth
since the last low one or the last growth. -/
def WellTimed : List Turn → Prop
  | [] => True
  | t :: before =>
      (t.act = .evicted ↔ t.filtered < freeMemEvictThreshold) ∧
        (t.act = .expanded ↔ freeMemExpandThreshold < t.filtered ∧ highsSince before = 19) ∧
        t.sizeAfter = t.resized ∧ WellTimed before

/-- The session is one the handlers and the two branches can produce, and the counters of
the loop count the turns. -/
structure LoopCounts (atInit : Int) (s : MonitorRun) : Prop where
  refined : Reach step (fun m a => Permitted m a ∧ Covered m a) (rdmaSessionInit atInit) s.m
  evictHits : s.loop.evictHitCount = 0
  expandHits : s.loop.expandHitCount = highsSince s.turns
  below : highsSince s.turns < memExpandHitThreshold
  timed : WellTimed s.turns

theorem highsSince_cons (t : Turn) (before : List Turn) :
    highsSince (t :: before) =
      if freeMemEvictThreshold ≤ t.filtered ∧ t.act ≠ .expanded then
        highsSince before + if freeMemExpandThreshold < t.filtered then 1 else 0
      else 0 := by
  unfold highsSince
  by_cases hgo : freeMemEvictThreshold ≤ t.filtered ∧ t.act ≠ .expanded
  · rw [if_pos hgo, List.takeWhile_cons_of_pos (by simp [hgo]), List.countP_cons]
    simp
  · rw [if_neg hgo, List.takeWhile_cons_of_neg (by simpa using fun h => not_and.mp hgo h)]
    rfl

/-- Everything a turn can do: the threshold for low values is one, so they act at once. -/
theorem freeMemTurn_cases (filtered : Int) (l : FreeMemLoop) (m : Session) :
    (filtered < freeMemEvictThreshold ∧
        freeMemTurn filtered l m =
          (⟨filtered + stopSizeG filtered m, 0, 0⟩,
            if stopSizeG filtered m > 0 then (evictFreeUnmapped (stopSizeG filtered m) m).1 else m,
            .evicted)) ∨
      (freeMemExpandThreshold < filtered ∧ 20 ≤ l.expandHitCount + 1 ∧
        freeMemTurn filtered l m =
          (⟨filtered - expandSize filtered m, 0, 0⟩, freeMemExpand filtered m, .expanded)) ∨
      (freeMemExpandThreshold < filtered ∧ l.expandHitCount + 1 < 20 ∧
        freeMemTurn filtered l m = (⟨filtered, 0, l.expandHitCount + 1⟩, m, .nothing)) ∨
      (freeMemEvictThreshold ≤ filtered ∧ filtered ≤ freeMemExpandThreshold ∧
        freeMemTurn filtered l m =
          (⟨filtered, l.evictHitCount, l.expandHitCount⟩, m, .nothing)) := by
  by_cases hlow : filtered < freeMemEvictThreshold
  · have hfirst : l.evictHitCount + 1 ≥ memEvictHitThreshold := Nat.le_add_left 1 _
    exact .inl ⟨hlow, by rw [freeMemTurn, if_pos hlow, if_pos hfirst]⟩
  · by_cases hhigh : filtered > freeMemExpandThreshold
    · by_cases hlast : l.expandHitCount + 1 ≥ memExpandHitThreshold
      · exact .inr (.inl ⟨hhigh, hlast, by
          rw [freeMemTurn, if_neg hlow, if_pos hhigh, if_pos hlast]⟩)
      · exact .inr (.inr (.inl ⟨hhigh, Nat.not_le.mp hlast, by
          rw [freeMemTurn, if_neg hlow, if_pos hhigh, if_neg hlast]⟩))
    · exact .inr (.inr (.inr ⟨Int.not_lt.mp hlow, Int.not_lt.mp hhigh, by
        rw [freeMemTurn, if_neg hlow, if_neg hhigh]⟩))

theorem stopSizeG_le (filtered : Int) (m : Session) : stopSizeG filtered m ≤ m.sizeGb := by
  unfold stopSizeG
  split <;> omega

/-- A turn takes one of the two steps, on the tests the accounting relies on, or none. -/
theorem freeMemTurn_refines (filtered : Int) (l : FreeMemLoop) (m : Session) :
    (freeMemTurn filtered l m).2.1 = m ∨
      ∃ a, (Permitted m a ∧ Covered m a) ∧ step m a = some (freeMemTurn filtered l m).2.1 := by
  rcases freeMemTurn_cases filtered l m with ⟨-, hturn⟩ | ⟨hhigh, -, hturn⟩ | ⟨-, -, hturn⟩ |
    ⟨-, -, hturn⟩
  · rw [hturn]
    by_cases hstop : stopSizeG filtered m > 0
    · refine .inr ⟨.freeUnmapped (stopSizeG filtered m),
        ⟨⟨hstop, stopSizeG_le filtered m⟩, trivial⟩, ?_⟩
      simp only [if_pos hstop]
      rfl
    · exact .inl (if_neg hstop)
  · rw [hturn]
    exact .inr ⟨.expand filtered, ⟨hhigh, trivial⟩, rfl⟩
  · rw [hturn]
    exact .inl rfl
  · rw [hturn]
    exact .inl rfl

theorem LoopCounts.consistent {atInit : Int} {s : MonitorRun} (h : LoopCounts atInit s) :
    Consistent s.m :=
  h.refined.invariant (consistent_rdmaSessionInit atInit)
    fun _ _ _ hu hguard hv => hu.step hguard.1 hguard.2 hv

/-- A turn for a state of the loop and the session. -/
def turnAt (filtered : Int) (l : FreeMemLoop) (m : Session) : Turn :=
  ⟨filtered, (freeMemTurn filtered l m).2.2, m.sizeGb, m.mappedSize,
    (freeMemTurn filtered l m).2.1.sizeGb⟩

/-- A turn changes `size_gb` by what it should. -/
theorem turnAt_resized {m : Session} (h : Consistent m) (filtered : Int) (l : FreeMemLoop) :
    (turnAt filtered l m).sizeAfter = (turnAt filtered l m).resized := by
  unfold turnAt Turn.resized
  rcases freeMemTurn_cases filtered l m with ⟨hlow, hturn⟩ | ⟨-, -, hturn⟩ | ⟨-, -, hturn⟩ |
    ⟨-, -, hturn⟩ <;> rw [hturn] <;> dsimp only
  · have hsplit := freeCount_add_mapCount h.backed
    have hsize := h.size
    have hmapped := h.mapped
    have hstop : stopSizeG filtered m = min m.sizeGb (freeMemEvictThreshold - filtered) := by
      unfold stopSizeG
      split <;> omega
    by_cases hpos : stopSizeG filtered m > 0
    · rw [if_pos hpos, evictFreeUnmapped_sizeGb, evictFreeUnmapped_freed hpos]
      omega
    · rw [if_neg hpos]
      omega
  · show m.sizeGb + expandSize filtered m = _
    unfold expandSize
    dsimp only
    split <;> omega

/-- A turn counts itself. -/
theorem LoopCounts.turn {atInit : Int} {s : MonitorRun} (h : LoopCounts atInit s)
    (filtered : Int) :
    LoopCounts atInit
      ⟨(freeMemTurn filtered s.loop s.m).1, (freeMemTurn filtered s.loop s.m).2.1,
        turnAt filtered s.loop s.m :: s.turns⟩ := by
  have hrefined : Reach step (fun m a => Permitted m a ∧ Covered m a) (rdmaSessionInit atInit)
      (freeMemTurn filtered s.loop s.m).2.1 := by
    rcases freeMemTurn_refines filtered s.loop s.m with hsame | ⟨a, hguard, hstep⟩
    · rw [hsame]
      exact h.refined
    · exact h.refined.snoc hguard hstep
  have hbelow : highsSince s.turns < 20 := h.below
  have hhits := h.expandHits
  have hthresholds : freeMemEvictThreshold < freeMemExpandThreshold := by decide
  suffices hcounts :
      (freeMemTurn filtered s.loop s.m).1.evictHitCount = 0 ∧
        (freeMemTurn filtered s.loop s.m).1.expandHitCount =
          highsSince (turnAt filtered s.loop s.m :: s.turns) ∧
        highsSince (turnAt filtered s.loop s.m :: s.turns) < 20 ∧
        ((freeMemTurn filtered s.loop s.m).2.2 = .evicted ↔ filtered < freeMemEvictThreshold) ∧
        ((freeMemTurn filtered s.loop s.m).2.2 = .expanded ↔
          freeMemExpandThreshold < filtered ∧ highsSince s.turns = 19) by
    obtain ⟨hevict, hexpand, hlt, hlow, hhigh⟩ := hcounts
    exact ⟨hrefined, hevict, hexpand, hlt, hlow, hhigh,
      turnAt_resized h.consistent filtered s.loop, h.timed⟩
  rw [highsSince_cons, turnAt]
  rcases freeMemTurn_cases filtered s.loop s.m with ⟨hlow, hturn⟩ | ⟨hhigh, hlast, hturn⟩ |
    ⟨hhigh, hlast, hturn⟩ | ⟨hlow, hhigh, hturn⟩ <;> rw [hturn] <;> dsimp only
  · rw [if_neg (by omega)]
    refine ⟨rfl, rfl, Nat.zero_lt_succ 19, iff_of_true rfl hlow, ?_⟩
    exact iff_of_false nofun (by omega)
  · rw [if_neg (by simp)]
    refine ⟨rfl, rfl, Nat.zero_lt_succ 19, iff_of_false nofun (by omega), ?_⟩
    exact iff_of_true rfl ⟨hhigh, by omega⟩
  · rw [if_pos ⟨by omega, nofun⟩, if_pos hhigh]
    refine ⟨rfl, by omega, by omega, iff_of_false nofun (by omega), ?_⟩
    exact iff_of_false nofun (by omega)
  · rw [if_pos ⟨hlow, nofun⟩, if_neg (by omega)]
    refine ⟨h.evictHits, hhits, hbelow, iff_of_false nofun (by omega), ?_⟩
    exact iff_of_false nofun (by omega)

theorem LoopCounts.step {filter : Int → Int → Int} {atInit : Int} {s s' : MonitorRun}
    {a : LoopAction} (h : LoopCounts atInit s) (hguard : HandlersOnly s a)
    (hstep : loopStep filter s a = some s') : LoopCounts atInit s' := by
  cases a with
  | turn meminfo =>
      rw [loopStep] at hstep
      split at hstep
      · obtain ⟨freeMemG, -, rfl⟩ := Option.map_eq_some_iff.mp hstep
        exact h.turn _
      · cases hstep
  | other a =>
      obtain ⟨m, hm, rfl⟩ := Option.map_eq_some_iff.mp hstep
      obtain ⟨-, -, hpermitted, hcovered⟩ := hguard
      exact ⟨h.refined.snoc ⟨hpermitted, hcovered⟩ hm, h.evictHits, h.expandHits, h.below, h.timed⟩

/-- A machine with 31457280 kB left. -/
def thirtyGbFree : List UInt8 :=
  [77, 101, 109, 84, 111, 116, 97, 108, 58, 32, 32, 32, 32, 32, 32, 32, 54, 53, 56, 52, 51, 48,
   48, 56, 32, 107, 66, 10,
    77, 101, 109, 70, 114, 101, 101, 58, 32, 32, 32, 32, 32, 32, 32, 32,
    51, 49, 52, 53, 55, 50, 56, 48, 32, 107, 66, 10]

theorem fgets_line {n : Nat} {line rest : List UInt8} (hline : ∀ c ∈ line, c ≠ 10)
    (hfits : line.length < n) : fgets n (line ++ 10 :: rest) = (line ++ [10], rest) := by
  induction line generalizing n with
  | nil =>
      obtain ⟨n, rfl⟩ : ∃ k, n = k + 1 := ⟨n - 1, by simp at hfits; omega⟩
      rfl
  | cons c line ih =>
      rw [List.length_cons] at hfits
      obtain ⟨n, rfl⟩ : ∃ k, n = k + 1 := ⟨n - 1, by omega⟩
      have htail :=
        ih (fun d hd => hline d (List.mem_cons_of_mem c hd)) (show line.length < n by omega)
      rw [List.cons_append, fgets, if_neg (hline c List.mem_cons_self), htail]
      rfl

/-- The second line is read as the number in it, as long as both lines fit the buffer and
the line has no other digit. -/
theorem get_free_mem_reads_line {first label unit rest : List UInt8} {kb : Nat}
    (hfirst : ∀ c ∈ first, c ≠ 10) (hshort : first.length < 59)
    (hlabel : ∀ c ∈ label ++ unit, c ≠ 10 ∧ isDigit c = false)
    (hfits : (label ++ decimal kb ++ unit).length < 59) (hkb : kb < 2 ^ 63) :
    getFreeMem (first ++ 10 :: (label ++ decimal kb ++ unit ++ 10 :: rest)) = some (kb : Int) := by
  have hline : ∀ c ∈ label ++ decimal kb ++ unit, c ≠ 10 := by
    intro c hc
    rcases List.mem_append.mp hc with hc | hc
    · rcases List.mem_append.mp hc with hc | hc
      · exact (hlabel c (List.mem_append_left _ hc)).1
      · rintro rfl
        exact absurd (isDigit_of_mem_decimal _ hc) (by decide)
    · exact (hlabel c (List.mem_append_right _ hc)).1
  have hnone : ∀ l : List UInt8, (∀ c ∈ l, isDigit c = false) → l.filter isDigit = [] :=
    fun l hl => List.filter_eq_nil_iff.mpr fun c hc => by rw [hl c hc]; exact Bool.false_ne_true
  have hdigits : (label ++ decimal kb ++ unit ++ [10]).filter isDigit = decimal kb := by
    rw [List.filter_append, List.filter_append, List.filter_append,
      hnone label fun c hc => (hlabel c (List.mem_append_left _ hc)).2,
      hnone unit fun c hc => (hlabel c (List.mem_append_right _ hc)).2,
      List.filter_eq_self.mpr isDigit_of_mem_decimal,
      hnone [10] (List.forall_mem_singleton.mpr rfl), List.nil_append, List.append_nil,
      List.append_nil]
  rw [getFreeMem, fgets_line hfirst hshort, fgets_line hline hfits, hdigits, digitsValue_decimal,
    if_pos hkb]

theorem get_free_mem_reads_line_thirty : getFreeMem thirtyGbFree = some 31457280 := by
  have htext : thirtyGbFree =
      [77, 101, 109, 84, 111, 116, 97, 108, 58, 32, 32, 32, 32, 32, 32, 32, 54, 53, 56, 52, 51,
       48, 48, 56, 32, 107, 66] ++ 10 ::
        ([77, 101, 109, 70, 114, 101, 101, 58, 32, 32, 32, 32, 32, 32, 32, 32] ++
          decimal 31457280 ++ [32, 107, 66] ++ 10 :: []) := by decide
  rw [htext]
  exact get_free_mem_reads_line (List.all_iff_forall_prop.mp (by decide)) (by decide)
    (List.all_iff_forall_prop.mp (by decide)) (by decide) (by decide)

end Hydra.Monitor
