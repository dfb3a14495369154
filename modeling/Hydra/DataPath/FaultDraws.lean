/-
  DataPath/FaultDraws.lean --- which numbers faults are drawn from, and their count.

  Source: `IS_fault_injection_init`, `IS_fault_injection_fault_count` and
  `init_uniform_distr` of `resilience_manager/is_fault.c`, `fault_injection_fault_count_attr_show`
  of `is_configfs.c`, and `mt19937-64.c`.

  Setting the rate seeds the generator of every disk with 1.  So all disks draw the same
  numbers in the same order, from the beginning again each time the rate is set.  The
  counters, on the other hand, are never reset.
-/
import Hydra.DataPath.FaultRate
import Hydra.DataPath.Twister

set_option autoImplicit false

namespace Hydra.DataPath

open Hydra.Foundation

/-! ## The injector of a session -/

/-- The generator of `is_fault.c`. -/
def twister : Generator MTRand64 := ⟨initGenrand64 unseeded 1, genrand64Uint64⟩

section Injector

variable {Seed : Type}

/-- `IS_fault_injection_init`. -/
def isFaultInjectionInit (g : Generator Seed) (ndisks : Nat) (f : Injector Seed) :
    Option (Injector Seed) :=
  initUniformDistr g ndisks 1000000000 { f with injectFault := 0 }

/-- `IS_fault_injection_fault_count`. -/
def isFaultInjectionFaultCount (ndisks : Nat) (f : Injector Seed) : UInt64 :=
  (List.range ndisks).foldl (fun count i => count + (f.diskFault i).faultCount) 0

/-- `fault_injection_fault_count_attr_show`: the count is cut to an `unsigned int` and
printed with `%d`. -/
def faultInjectionFaultCountAttrShow (ndisks : Nat) (f : Injector Seed) : List UInt8 :=
  decimalInt (isFaultInjectionFaultCount ndisks f).toUInt32.toInt32.toInt ++ [10]

/-- What a session does to its injector: `fault_injection_enable_attr_store` with the number
scanned, `fault_injection_distr_attr_store`, `IS_rdma_read`. -/
inductive FaultAction where
  | enable (enable : UInt32)
  | distr (distr : List UInt8) (garbage : UInt64)
  | read (call : ReadCall)

/-- The injector with its log since the rate was set, and the log before. -/
structure FaultHistory (Seed : Type) where
  current : FaultLog Seed
  past : List FaultEvent

/-- All that has happened. -/
def FaultHistory.events (t : FaultHistory Seed) : List FaultEvent := t.past ++ t.current.log

/-- One action. -/
def faultStep (g : Generator Seed) (b : Striping) (t : FaultHistory Seed) :
    FaultAction → Option (FaultHistory Seed)
  | .enable enable =>
      some
        { t with
          current := { t.current with f := isFaultInjectionSetEnable enable t.current.f } }
  | .distr distr garbage =>
      (isFaultInjectionSetDistr g b.ndisks distr garbage t.current.f).map fun f =>
        ⟨⟨f, []⟩, t.events⟩
  | .read call => (faultyRead g b t.current call).map fun current => { t with current }

/-! ## Draws -/

/-- The generator after `n` draws. -/
def Generator.after (g : Generator Seed) (n : Nat) : Seed := (fun s => (g.next s).2)^[n] g.init

/-- The `n`-th number, from 0 on. -/
def Generator.draw (g : Generator Seed) (n : Nat) : UInt64 := (g.next (g.after n)).1

/-- The numbers disk `d` has drawn. -/
def drawnBy (d : Nat) (log : List FaultEvent) : List UInt64 :=
  log.filterMap fun e =>
    match e with
    | .checked k _ (some drawn) => if k = d then some drawn else none
    | .checked _ _ none | .accessed _ => none

/-- A reported fault of any disk. -/
def FaultEvent.isFault : FaultEvent → Bool
  | .checked _ _ (some _) => true
  | .checked _ _ none | .accessed _ => false

/-- A reported fault of one of the first disks. -/
def FaultEvent.isFaultBelow (n : Nat) : FaultEvent → Bool
  | .checked k _ (some _) => decide (k < n)
  | .checked _ _ none | .accessed _ => false

variable {g : Generator Seed} {ndisks : Nat} {t : FaultLog Seed} {past : List FaultEvent}

/-- Every disk is as far in the stream as its draws, and its counter has every fault. -/
structure InStep (g : Generator Seed) (ndisks : Nat) (past : List FaultEvent) (t : FaultLog Seed) :
    Prop where
  seed : ∀ d < ndisks, (t.f.diskFault d).seed = g.after ((drawnBy d t.log).length + 1)
  drawn : ∀ d < ndisks,
    drawnBy d t.log = (List.range (drawnBy d t.log).length).map fun k => g.draw (k + 1)
  counted : ∀ d, (t.f.diskFault d).faultCount =
    UInt64.ofNat ((past ++ t.log).countP (FaultEvent.isFaultOf d))
  below : ∀ e ∈ past ++ t.log, e.isFault = e.isFaultBelow ndisks

theorem drawnBy_append (d : Nat) (l l' : List FaultEvent) :
    drawnBy d (l ++ l') = drawnBy d l ++ drawnBy d l' := List.filterMap_append

theorem drawnBy_of_quiet {es : List FaultEvent} (hquiet : ∀ e ∈ es, e.isFault = false) (d : Nat) :
    drawnBy d es = [] := by
  refine List.filterMap_eq_nil_iff.mpr fun e he => ?_
  have he := hquiet e he
  cases e with
  | checked k before drawn =>
      cases drawn with
      | none => rfl
      | some r => cases he
  | accessed k => rfl

theorem FaultEvent.isFaultOf_of_quiet {e : FaultEvent} (h : e.isFault = false) (d : Nat) :
    e.isFaultOf d = false := by
  cases e with
  | checked k before drawn =>
      cases drawn with
      | none => rfl
      | some r => cases h
  | accessed k => rfl

theorem FaultEvent.isFaultBelow_of_quiet {e : FaultEvent} (h : e.isFault = false) (n : Nat) :
    e.isFaultBelow n = false := by
  cases e with
  | checked k before drawn =>
      cases drawn with
      | none => rfl
      | some r => cases h
  | accessed k => rfl

/-- What reports no fault moves no seed and no counter. -/
theorem InStep.quiet (h : InStep g ndisks past t) {f : Injector Seed} {es : List FaultEvent}
    (hquiet : ∀ e ∈ es, e.isFault = false)
    (hsame : ∀ d, (f.diskFault d).seed = (t.f.diskFault d).seed ∧
      (f.diskFault d).faultCount = (t.f.diskFault d).faultCount) :
    InStep g ndisks past ⟨f, t.log ++ es⟩ := by
  have hdrawn : ∀ d, drawnBy d (t.log ++ es) = drawnBy d t.log := fun d => by
    rw [drawnBy_append, drawnBy_of_quiet hquiet, List.append_nil]
  refine ⟨fun d hd => ?_, fun d hd => ?_, fun d => ?_, fun e he => ?_⟩
  · rw [hdrawn, (hsame d).1]
    exact h.seed d hd
  · rw [hdrawn]
    exact h.drawn d hd
  · have hnone : es.countP (FaultEvent.isFaultOf d) = 0 :=
      List.countP_eq_zero.mpr fun e he => by
        rw [FaultEvent.isFaultOf_of_quiet (hquiet e he)]
        exact Bool.false_ne_true
    rw [← List.append_assoc, List.countP_append, hnone, Nat.add_zero, (hsame d).2]
    exact h.counted d
  · rw [← List.append_assoc] at he
    rcases List.mem_append.mp he with he | he
    · exact h.below e he
    · rw [hquiet e he, FaultEvent.isFaultBelow_of_quiet (hquiet e he)]

theorem Generator.after_succ (n : Nat) : g.after (n + 1) = (g.next (g.after n)).2 :=
  Function.iterate_succ_apply' ..

/-- A fault takes the next number of its disk's stream. -/
theorem InStep.fault (h : InStep g ndisks past t) {d : Nat} (hd : d < ndisks) (before : Int64) :
    InStep g ndisks past
      ⟨{ t.f with
          diskFault :=
            Function.update t.f.diskFault d ((t.f.diskFault d).inject g t.f.faultRate) },
        t.log ++ [.checked d before (some (g.next (t.f.diskFault d).seed).1)]⟩ := by
  have hself : drawnBy d [.checked d before (some (g.next (t.f.diskFault d).seed).1)] =
      [g.draw ((drawnBy d t.log).length + 1)] := by
    rw [h.seed d hd, Generator.draw]
    simp [drawnBy]
  have hother : ∀ k, k ≠ d →
      drawnBy k [.checked d before (some (g.next (t.f.diskFault d).seed).1)] = [] := fun k hk => by
    simp [drawnBy, Ne.symm hk]
  refine ⟨fun k hk => ?_, fun k hk => ?_, fun k => ?_, fun e he => ?_⟩
  · simp only [drawnBy_append]
    by_cases hkd : k = d
    · subst hkd
      rw [Function.update_self, hself, List.length_append, List.length_singleton,
        Generator.after_succ, ← h.seed k hk]
      rfl
    · rw [Function.update_of_ne hkd, hother k hkd, List.append_nil]
      exact h.seed k hk
  · rw [drawnBy_append]
    by_cases hkd : k = d
    · subst hkd
      rw [hself, List.length_append, List.length_singleton, List.range_succ, List.map_append,
        ← h.drawn k hk]
      rfl
    · rw [hother k hkd, List.append_nil]
      exact h.drawn k hk
  · rw [← List.append_assoc, countP_isFaultOf_concat]
    by_cases hkd : k = d
    · subst hkd
      simp [FaultEvent.isFaultOf, DiskFault.inject, h.counted k, UInt64.ofNat_add]
    · simp [FaultEvent.isFaultOf, Function.update_of_ne hkd, h.counted k, Ne.symm hkd]
  · rw [← List.append_assoc] at he
    rcases List.mem_append.mp he with he | he
    · exact h.below e he
    · rw [List.mem_singleton.mp he]
      exact (decide_eq_true hd).symm

/-! ## Reads and settings -/

theorem InStep.checkDisk (h : InStep g ndisks past t) {d : Nat} (hd : d < ndisks)
    {r : FaultLog Seed × Bool} (hcheck : checkDisk g t d = some r) : InStep g ndisks past r.1 := by
  unfold DataPath.checkDisk isFaultInjectionInjectFault at hcheck
  split at hcheck
  · split at hcheck
    · cases hcheck
    · obtain rfl := Option.some.inj hcheck
      exact h.fault hd _
  · obtain rfl := Option.some.inj hcheck
    refine h.quiet (fun e he => ?_) fun _ => ⟨rfl, rfl⟩
    rw [List.mem_singleton.mp he]
    rfl

theorem InStep.checkDisks {l : List Nat} (hl : ∀ d ∈ l, d < ndisks) (h : InStep g ndisks past t)
    {fault : Nat → Bool} {r : FaultLog Seed × (Nat → Bool)}
    (hchecks : checkDisks g l (t, fault) = some r) : InStep g ndisks past r.1 := by
  induction l generalizing t fault with
  | nil =>
      obtain rfl := Option.some.inj hchecks
      exact h
  | cons d rest ih =>
      rw [DataPath.checkDisks] at hchecks
      obtain ⟨u, hu, hrest⟩ := Option.bind_eq_some_iff.mp hchecks
      exact ih (fun k hk => hl k (List.mem_cons_of_mem d hk))
        (h.checkDisk (hl d List.mem_cons_self) hu) hrest

theorem InStep.faultyRead {b : Striping} {call : ReadCall} {t' : FaultLog Seed}
    (h : InStep g b.ndisks past t) (hread : faultyRead g b t call = some t') :
    InStep g b.ndisks past t' := by
  obtain ⟨r, hr, hloops⟩ := Option.bind_eq_some_iff.mp hread
  have hchecked := h.checkDisks (fun d hd => List.mem_range.mp hd) hr
  split at hloops
  · cases hloops
  · next run hrun =>
      obtain rfl := Option.some.inj hloops
      obtain ⟨hdisks, -⟩ := Pieces.rdmaRead_ok hrun
      refine hchecked.quiet (fun e he => ?_) fun d => ?_
      · obtain ⟨k, -, rfl⟩ := List.mem_map.mp he
        rfl
      · simp only [hdisks.disks d]
        split <;> exact ⟨rfl, rfl⟩

/-- Setting the rate starts every stream again. -/
theorem InStep.restart {rate : UInt64} {f f' : Injector Seed} {events : List FaultEvent}
    (hcounted : ∀ d, (f.diskFault d).faultCount =
      UInt64.ofNat (events.countP (FaultEvent.isFaultOf d)))
    (hbelow : ∀ e ∈ events, e.isFault = e.isFaultBelow ndisks)
    (hinit : initUniformDistr g ndisks rate f = some f') :
    InStep g ndisks events ⟨f', []⟩ := by
  unfold initUniformDistr at hinit
  split at hinit
  · cases hinit
  · obtain rfl := Option.some.inj hinit
    refine ⟨fun d hd => ?_, fun d _ => rfl, fun d => ?_, fun e he => ?_⟩
    · simp only [if_pos hd]
      rfl
    · rw [List.append_nil, ← hcounted d]
      simp only
      split <;> rfl
    · rw [List.append_nil] at he
      exact hbelow e he

theorem InStep.faultStep {b : Striping} {s s' : FaultHistory Seed} {a : FaultAction}
    (h : InStep g b.ndisks s.past s.current) (hstep : faultStep g b s a = some s') :
    InStep g b.ndisks s'.past s'.current := by
  cases a with
  | enable enable =>
      obtain rfl := Option.some.inj hstep
      have hquiet : InStep g b.ndisks s.past
          ⟨isFaultInjectionSetEnable enable s.current.f, s.current.log ++ []⟩ :=
        h.quiet nofun fun _ => ⟨rfl, rfl⟩
      rwa [List.append_nil] at hquiet
  | distr distr garbage =>
      obtain ⟨f, hf, rfl⟩ := Option.map_eq_some_iff.mp hstep
      exact InStep.restart h.counted h.below hf
  | read call =>
      obtain ⟨t', ht', rfl⟩ := Option.map_eq_some_iff.mp hstep
      exact h.faultyRead ht'

/-! ## The count -/

theorem countP_isFaultBelow_succ (n : Nat) (events : List FaultEvent) :
    events.countP (FaultEvent.isFaultBelow (n + 1)) =
      events.countP (FaultEvent.isFaultBelow n) + events.countP (FaultEvent.isFaultOf n) := by
  induction events with
  | nil => rfl
  | cons e rest ih =>
      rw [List.countP_cons, List.countP_cons, List.countP_cons, ih]
      have he : (if e.isFaultBelow (n + 1) then 1 else 0) =
          (if e.isFaultBelow n then 1 else 0) + if e.isFaultOf n then 1 else 0 := by
        cases e with
        | checked k before drawn =>
            cases drawn with
            | none => rfl
            | some r =>
                simp only [FaultEvent.isFaultBelow, FaultEvent.isFaultOf, decide_eq_true_eq,
                  beq_iff_eq]
                split <;> split <;> split <;> omega
        | accessed k => rfl
      omega

theorem InStep.faultCount (h : InStep g ndisks past t) :
    isFaultInjectionFaultCount ndisks t.f =
      UInt64.ofNat ((past ++ t.log).countP FaultEvent.isFault) := by
  have hsum : ∀ n, isFaultInjectionFaultCount n t.f =
      UInt64.ofNat ((past ++ t.log).countP (FaultEvent.isFaultBelow n)) := by
    intro n
    induction n with
    | zero =>
        have hnone : (past ++ t.log).countP (FaultEvent.isFaultBelow 0) = 0 :=
          List.countP_eq_zero.mpr fun e _ => by
            cases e with
            | checked k before drawn => cases drawn <;> simp [FaultEvent.isFaultBelow]
            | accessed k => simp [FaultEvent.isFaultBelow]
        rw [hnone]
        rfl
    | succ n ih =>
        rw [countP_isFaultBelow_succ, UInt64.ofNat_add, ← ih, ← h.counted n,
          isFaultInjectionFaultCount, List.range_succ, List.foldl_append]
        rfl
  rw [hsum]
  congr 1
  refine List.countP_congr fun e he => ?_
  rw [h.below e he]

/-- What a maintainer sees of the faults: the numbers drawn since the rate was set, and the
count since the session was made. -/
structure FaultsAccountedFor (stream : Nat → UInt64) (ndisks : Nat) (s : FaultHistory Seed) :
    Prop where
  drawn : ∀ d < ndisks, drawnBy d s.current.log =
    (List.range (drawnBy d s.current.log).length).map fun k => stream (k + 1)
  count : isFaultInjectionFaultCount ndisks s.current.f =
    UInt64.ofNat (s.events.countP FaultEvent.isFault)
  shown : faultInjectionFaultCountAttrShow ndisks s.current.f =
    decimal (s.events.countP FaultEvent.isFault) ++ [10] ↔
      s.events.countP FaultEvent.isFault < 2 ^ 31

theorem InStep.accountedFor {s : FaultHistory Seed} (h : InStep g ndisks s.past s.current) :
    FaultsAccountedFor g.draw ndisks s :=
  ⟨h.drawn, h.faultCount,
    isFaultInjectionDistr_eq_iff
      (f := { s.current.f with faultRate := isFaultInjectionFaultCount ndisks s.current.f })
      h.faultCount⟩

/-- The zeroed memory of a session, after `IS_fault_injection_init`. -/
theorem inStep_init {f : Injector Seed} (hzero : ∀ d, (f.diskFault d).faultCount = 0)
    {f₀ : Injector Seed} (hinit : isFaultInjectionInit g ndisks f = some f₀) :
    InStep g ndisks [] ⟨f₀, []⟩ :=
  InStep.restart (f := { f with injectFault := 0 }) hzero nofun hinit

end Injector

theorem twister_draw (n : Nat) : twister.draw n = temper (twisterWord 1 (nn + n)) :=
  nthDraw_eq unseeded 1 n

/-- A session's injector starts up whatever its memory holds, and from there, in every run
of settings and reads, the `k`-th fault of each disk since the rate was set has drawn number
`k + 1` of the stream of seed 1, and the counters have every fault since the session was
made; what is shown is their number as long as that is below `2^31`. -/
theorem faults_accounted_for (b : Striping) (f : Injector MTRand64)
    (hzero : ∀ d, (f.diskFault d).faultCount = 0) :
    ∃ f₀, isFaultInjectionInit twister b.ndisks f = some f₀ ∧
      ∀ s, Reach (faultStep twister b) (fun _ _ => True) ⟨⟨f₀, []⟩, []⟩ s →
        FaultsAccountedFor (fun k => temper (twisterWord 1 (nn + k))) b.ndisks s := by
  have hrate : ¬(2 * 1000000000 : UInt64) = 0 := by decide
  obtain ⟨f₀, hinit⟩ : ∃ f₀, isFaultInjectionInit twister b.ndisks f = some f₀ :=
    ⟨_, if_neg fun hand => hrate hand.2⟩
  refine ⟨f₀, hinit, fun s hrun => ?_⟩
  have hstep : InStep twister b.ndisks s.past s.current :=
    hrun.invariant (I := fun s => InStep twister b.ndisks s.past s.current)
      (inStep_init hzero hinit) fun u a v hu _ hv => hu.faultStep hv
  rw [show (fun k => temper (twisterWord 1 (nn + k))) = twister.draw from
    (funext twister_draw).symm]
  exact hstep.accountedFor

/-- A session as it is allocated. -/
def zeroedInjector : Injector MTRand64 := ⟨0, 0, fun _ => ⟨0, 0, 0, unseeded⟩⟩

/-- A read, the rate set to five, and injection enabled. -/
theorem faults_accounted_for_five :
    ∃ f₀ s, isFaultInjectionInit twister 2 zeroedInjector = some f₀ ∧
      runActions (faultStep twister mirror) ⟨⟨f₀, []⟩, []⟩
        [.read plainRead, .distr [53, 10] 0, .enable 1] = some s ∧
      FaultsAccountedFor (fun k => temper (twisterWord 1 (nn + k))) 2 s := by
  obtain ⟨f₀, hinit, hrun⟩ := faults_accounted_for mirror zeroedInjector fun _ => rfl
  have hsome : ∃ s, ((isFaultInjectionInit twister 2 zeroedInjector).bind fun f₀ =>
      runActions (faultStep twister mirror) ⟨⟨f₀, []⟩, []⟩
        [.read plainRead, .distr [53, 10] 0, .enable 1]) = some s :=
    Option.isSome_iff_exists.mp (by decide)
  obtain ⟨s, hs⟩ := hsome
  obtain ⟨f₀', hf', hs⟩ := Option.bind_eq_some_iff.mp hs
  obtain rfl : f₀ = f₀' := Option.some.inj (hinit.symm.trans hf')
  exact ⟨f₀, s, hinit, hs, hrun s (reach_of_runActions hs ⟨trivial, fun _ _ =>
    ⟨trivial, fun _ _ => ⟨trivial, fun _ _ => trivial⟩⟩⟩)⟩

end Hydra.DataPath
