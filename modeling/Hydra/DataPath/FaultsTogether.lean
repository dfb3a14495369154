/-
  DataPath/FaultsTogether.lean --- injected faults hit all data disks at once.

  Source: `init_uniform_distr` and `IS_fault_injection_inject_fault` of
  `resilience_manager/is_fault.c`, and `IS_rdma_read` of `is_main.c`.

  All disks start from the same seed, so from the same countdown, and as long as every
  server is there a read accesses all data disks and no other.  They come to zero in the
  same read, which then finds only parities.  With fewer parities than data pieces it runs
  off its arrays: no read that completes has met a fault of a data disk.
-/
import Hydra.DataPath.FaultDraws

set_option autoImplicit false

namespace Hydra.DataPath

open Hydra.Foundation

variable {Seed : Type} {g : Generator Seed} {b : Striping}

/-- Every server is there and every post succeeds. -/
def Healthy (b : Striping) : FaultAction → Prop
  | .enable _ | .distr _ _ => True
  | .read call => (∀ d < b.ndisks, call.mapped d = true) ∧ ∀ d, call.post d = 0

/-- The disk is due: `IS_fault_injection_inject_fault` will report a fault. -/
def Due (f : Injector Seed) (d : Nat) : Prop :=
  f.injectFault = 1 ∧ (f.diskFault d).accessCountBeforeNextFault ≤ 0

instance (f : Injector Seed) (d : Nat) : Decidable (Due f d) :=
  inferInstanceAs (Decidable (_ ∧ _))

/-- The countdowns of the data disks agree, and no read has met a fault of one. -/
structure Together (b : Striping) (s : FaultHistory Seed) : Prop where
  rate : 2 * s.current.f.faultRate ≠ 0
  countdown : ∀ d < b.ndatas, (s.current.f.diskFault d).accessCountBeforeNextFault =
    (s.current.f.diskFault 0).accessCountBeforeNextFault
  spared : ∀ d < b.ndatas, s.events.countP (FaultEvent.isFaultOf d) = 0

/-! ## Checks -/

/-- A check of disk `d` moves that disk only, and only when it is due. -/
theorem checkDisk_ok {t : FaultLog Seed} (hrate : 2 * t.f.faultRate ≠ 0) (d : Nat) :
    ∃ r, checkDisk g t d = some r ∧ r.2 = decide (Due t.f d) ∧
      r.1.f.injectFault = t.f.injectFault ∧ r.1.f.faultRate = t.f.faultRate ∧
      ∀ k, ¬(k = d ∧ Due t.f d) → r.1.f.diskFault k = t.f.diskFault k ∧
        r.1.log.countP (FaultEvent.isFaultOf k) = t.log.countP (FaultEvent.isFaultOf k) := by
  unfold checkDisk isFaultInjectionInjectFault
  by_cases hdue : Due t.f d
  · rw [if_pos (show _ ∧ _ from hdue), if_neg hrate]
    refine ⟨_, rfl, (decide_eq_true hdue).symm, rfl, rfl, fun k hk => ?_⟩
    have hkd : k ≠ d := fun heq => hk ⟨heq, hdue⟩
    simp [Function.update_of_ne hkd, FaultEvent.isFaultOf, Ne.symm hkd]
  · rw [if_neg (show ¬(_ ∧ _) from hdue)]
    refine ⟨_, rfl, (decide_eq_false hdue).symm, rfl, rfl, fun k _ => ⟨rfl, ?_⟩⟩
    simp [FaultEvent.isFaultOf]

/-- What the checks of disks `l` make of `t`. -/
structure Checked (l : List Nat) (t : FaultLog Seed) (fault : Nat → Bool)
    (r : FaultLog Seed × (Nat → Bool)) : Prop where
  enable : r.1.f.injectFault = t.f.injectFault
  rate : r.1.f.faultRate = t.f.faultRate
  flag : ∀ d ∈ l, r.2 d = decide (Due t.f d)
  other : ∀ d, d ∉ l → r.2 d = fault d
  spared : ∀ d, ¬(d ∈ l ∧ Due t.f d) → r.1.f.diskFault d = t.f.diskFault d ∧
    r.1.log.countP (FaultEvent.isFaultOf d) = t.log.countP (FaultEvent.isFaultOf d)

theorem checkDisks_ok {l : List Nat} (hnodup : l.Nodup) {t : FaultLog Seed}
    (hrate : 2 * t.f.faultRate ≠ 0) (fault : Nat → Bool) :
    ∃ r, checkDisks g l (t, fault) = some r ∧ Checked l t fault r := by
  induction l generalizing t fault with
  | nil => exact ⟨(t, fault), rfl, rfl, rfl, nofun, fun _ _ => rfl, fun _ _ => ⟨rfl, rfl⟩⟩
  | cons d rest ih =>
      obtain ⟨hnew, hrest⟩ := List.nodup_cons.mp hnodup
      obtain ⟨u, hu, hflag, henable, hsame, hspared⟩ := checkDisk_ok (g := g) hrate d
      obtain ⟨r, hr, h⟩ := ih hrest (hsame.symm ▸ hrate) (Function.update fault d u.2)
      -- the later disks are as due as they were
      have hdue : ∀ k, k ≠ d → (Due u.1.f k ↔ Due t.f k) := fun k hk => by
        rw [Due, Due, henable, (hspared k fun hand => hk hand.1).1]
      refine ⟨r, by rw [checkDisks, hu, Option.bind_some, hr], h.enable.trans henable,
        h.rate.trans hsame, fun k hk => ?_, fun k hk => ?_, fun k hk => ?_⟩
      · rcases List.mem_cons.mp hk with rfl | hk
        · rw [h.other k hnew, Function.update_self, hflag]
        · have hkd : k ≠ d := fun heq => hnew (heq ▸ hk)
          rw [h.flag k hk, decide_eq_decide.mpr (hdue k hkd)]
      · have hkd : k ≠ d := fun heq => hk (heq ▸ List.mem_cons_self)
        rw [h.other k fun hmem => hk (List.mem_cons_of_mem d hmem), Function.update_of_ne hkd]
      · have hfirst := hspared k fun hand => hk ⟨hand.1 ▸ List.mem_cons_self, hand.1 ▸ hand.2⟩
        have hlater := h.spared k fun hand => by
          have hkd : k ≠ d := fun heq => hnew (heq ▸ hand.1)
          exact hk ⟨List.mem_cons_of_mem d hand.1, (hdue k hkd).mp hand.2⟩
        exact ⟨hlater.1.trans hfirst.1, hlater.2.trans hfirst.2⟩

/-! ## Reads -/

/-- The data pieces, then the parities. -/
theorem range_ndisks (b : Striping) : List.range b.ndisks =
    List.range b.ndatas ++ (List.range (b.ndisks - b.ndatas)).map (b.ndatas + ·) := by
  rw [← List.range_add, Nat.add_sub_cancel' b.ndatas_le]

theorem length_goodPieces_le (call : ReadCall) {fault : Nat → Bool}
    (hfault : ∀ d < b.ndatas, fault d = true) :
    (b.pieces call fault).goodPieces.length ≤ b.ndisks - b.ndatas := by
  have hdata : (List.range b.ndatas).filter (b.pieces call fault).isGood = [] := by
    refine List.filter_eq_nil_iff.mpr fun d hd => ?_
    have hd := hfault d (List.mem_range.mp hd)
    simp [Pieces.isGood, Striping.pieces, hd]
  show ((List.range b.ndisks).filter _).length ≤ _
  rw [range_ndisks, List.filter_append, hdata, List.nil_append]
  refine (List.length_filter_le ..).trans ?_
  rw [List.length_map, List.length_range]

theorem chosen_eq_range {call : ReadCall} {fault : Nat → Bool}
    (hgood : ∀ d < b.ndatas, (b.pieces call fault).isGood d = true) :
    (b.pieces call fault).chosen = List.range b.ndatas := by
  have hdata : (List.range b.ndatas).filter (b.pieces call fault).isGood = List.range b.ndatas :=
    List.filter_eq_self.mpr fun d hd => hgood d (List.mem_range.mp hd)
  show ((List.range b.ndisks).filter _).take b.ndatas = _
  rw [range_ndisks, List.filter_append, hdata, List.take_left' List.length_range]

/-- A read of data disks that are due strays. -/
theorem faultyRead_of_due {t : FaultLog Seed} {call : ReadCall} (hfew : b.ndisks < 2 * b.ndatas)
    (hrate : 2 * t.f.faultRate ≠ 0) (hdue : ∀ d < b.ndatas, Due t.f d)
    (hpost : ∀ d, call.post d = 0) : faultyRead g b t call = none := by
  obtain ⟨r, hr, hchecked⟩ := checkDisks_ok (g := g)
    (List.nodup_range : (List.range b.ndisks).Nodup) hrate fun _ => false
  have hle := b.ndatas_le
  have hfault : ∀ d < b.ndatas, r.2 d = true := fun d hd => by
    rw [hchecked.flag d (List.mem_range.mpr (by omega))]
    exact decide_eq_true (hdue d hd)
  have hshort := length_goodPieces_le call hfault
  rw [faultyRead, hr, Option.bind_some]
  split
  · rfl
  · next run hrun =>
      -- a completed read would have found enough pieces
      obtain ⟨hloops, henough⟩ := Pieces.rdmaRead_ok hrun
      rcases hloops.outcome with ⟨hret, -⟩ | ⟨-, -, k, -, hfail⟩
      · have henough : b.ndatas ≤ _ := henough hret
        omega
      · exact absurd (hpost k) hfail

/-- A read of data disks that are not due accesses them all. -/
theorem faultyRead_of_not_due {t : FaultLog Seed} {call : ReadCall}
    (hrate : 2 * t.f.faultRate ≠ 0) (hdue : ∀ d < b.ndatas, ¬Due t.f d)
    (hmapped : ∀ d < b.ndisks, call.mapped d = true) (hpost : ∀ d, call.post d = 0) :
    ∃ t', faultyRead g b t call = some t' ∧ t'.f.faultRate = t.f.faultRate ∧
      ∀ d < b.ndatas, t'.f.diskFault d = (t.f.diskFault d).access ∧
        t'.log.countP (FaultEvent.isFaultOf d) = t.log.countP (FaultEvent.isFaultOf d) := by
  obtain ⟨r, hr, hchecked⟩ := checkDisks_ok (g := g)
    (List.nodup_range : (List.range b.ndisks).Nodup) hrate fun _ => false
  have hle := b.ndatas_le
  have hgood : ∀ d < b.ndatas, (b.pieces call r.2).isGood d = true := fun d hd => by
    have hflag : r.2 d = false := by
      rw [hchecked.flag d (List.mem_range.mpr (by omega))]
      exact decide_eq_false (hdue d hd)
    simp [Pieces.isGood, Striping.pieces, hflag, hmapped d (by omega)]
  have hchosen := chosen_eq_range hgood
  have henough : b.ndatas ≤ (b.pieces call r.2).goodPieces.length := by
    have hlen := congrArg List.length hchosen
    rw [Pieces.chosen, List.length_take, List.length_range] at hlen
    exact le_of_inf_eq hlen
  obtain ⟨run, hrun, hloops⟩ := Pieces.rdmaRead_total (p := b.pieces call r.2) call.post
    call.uninit r.1.f.diskFault henough fun d hd _ => hmapped d hd
  have htried : run.tried.Perm (List.range b.ndatas) := by
    rcases hloops.outcome with ⟨-, hperm, -⟩ | ⟨-, -, k, -, hfail⟩
    · exact hchosen ▸ hperm
    · exact absurd (hpost k) hfail
  refine ⟨⟨{ r.1.f with diskFault := run.disks }, r.1.log ++ run.tried.map .accessed⟩,
    by rw [faultyRead, hr, Option.bind_some, hrun], hchecked.rate, fun d hd => ⟨?_, ?_⟩⟩
  · simp only [hloops.disks d, if_pos (htried.mem_iff.mpr (List.mem_range.mpr hd))]
    rw [(hchecked.spared d fun hand => hdue d hd hand.2).1]
  · have hnone : (run.tried.map FaultEvent.accessed).countP (FaultEvent.isFaultOf d) = 0 := by
      simp [List.countP_map, FaultEvent.isFaultOf]
    rw [List.countP_append, hnone, Nat.add_zero]
    exact (hchecked.spared d fun hand => hdue d hd hand.2).2

/-! ## Runs -/

theorem Together.due_iff {s : FaultHistory Seed} (h : Together b s) {d : Nat} (hd : d < b.ndatas) :
    Due s.current.f d ↔ Due s.current.f 0 := by
  rw [Due, Due, h.countdown d hd]

theorem Together.read {s : FaultHistory Seed} (h : Together b s) {call : ReadCall}
    (hhealthy : Healthy b (.read call)) (hdue : ¬Due s.current.f 0) :
    ∃ s', faultStep g b s (.read call) = some s' ∧ Together b s' := by
  obtain ⟨t', ht', hrate, hdata⟩ := faultyRead_of_not_due (g := g) h.rate
    (fun d hd => fun hd' => hdue ((h.due_iff hd).mp hd')) hhealthy.1 hhealthy.2
  refine ⟨{ s with current := t' }, by rw [faultStep, ht', Option.map_some], hrate ▸ h.rate,
    fun d hd => ?_, fun d hd => ?_⟩
  · have h0 : 0 < b.ndatas := by omega
    simp only [(hdata d hd).1, (hdata 0 h0).1, DiskFault.access, h.countdown d hd]
  · have hspared := h.spared d hd
    rw [FaultHistory.events, List.countP_append] at hspared ⊢
    rw [(hdata d hd).2]
    exact hspared

theorem Together.restart {rate : UInt64} {f f' : Injector Seed} {events : List FaultEvent}
    (hdisks : 0 < b.ndisks) (hspared : ∀ d < b.ndatas, events.countP (FaultEvent.isFaultOf d) = 0)
    (hinit : initUniformDistr g b.ndisks rate f = some f') : Together b ⟨⟨f', []⟩, events⟩ := by
  have hle := b.ndatas_le
  unfold initUniformDistr at hinit
  split at hinit
  · cases hinit
  · next hrate =>
      obtain rfl := Option.some.inj hinit
      refine ⟨fun hzero => hrate ⟨hdisks, hzero⟩, fun d hd => ?_, fun d hd => ?_⟩
      · simp only [if_pos (show d < b.ndisks by omega), if_pos hdisks]
        rfl
      · rw [FaultHistory.events, List.append_nil]
        exact hspared d hd

theorem Together.faultStep {s s' : FaultHistory Seed} {a : FaultAction} (h : Together b s)
    (hfew : b.ndisks < 2 * b.ndatas) (hhealthy : Healthy b a)
    (hstep : faultStep g b s a = some s') : Together b s' := by
  have hle := b.ndatas_le
  cases a with
  | enable enable =>
      obtain rfl := Option.some.inj hstep
      exact ⟨h.rate, h.countdown, h.spared⟩
  | distr distr garbage =>
      obtain ⟨f, hf, rfl⟩ := Option.map_eq_some_iff.mp hstep
      exact Together.restart (by omega) h.spared hf
  | read call =>
      by_cases hdue : Due s.current.f 0
      · have hnone := faultyRead_of_due (g := g) hfew h.rate (fun d hd => (h.due_iff hd).mpr hdue)
          hhealthy.2
        rw [DataPath.faultStep, hnone] at hstep
        cases hstep
      · obtain ⟨s'', hs'', htogether⟩ := h.read (g := g) hhealthy hdue
        obtain rfl := Option.some.inj (hstep.symm.trans hs'')
        exact htogether

/-- With every server there and fewer parities than data pieces, in every run of settings
and reads no read that completes has met a fault of a data disk, and the next read strays
exactly when injection is enabled and the first disk has counted down. -/
theorem no_data_fault_survives (g : Generator Seed) (b : Striping)
    (hfew : b.ndisks < 2 * b.ndatas) {f f₀ : Injector Seed}
    (hinit : isFaultInjectionInit g b.ndisks f = some f₀) {s : FaultHistory Seed}
    (hrun : Reach (faultStep g b) (fun _ a => Healthy b a) ⟨⟨f₀, []⟩, []⟩ s) :
    (∀ d < b.ndatas, s.events.countP (FaultEvent.isFaultOf d) = 0) ∧
      ∀ call, Healthy b (.read call) →
        (faultStep g b s (.read call) = none ↔
          s.current.f.injectFault = 1 ∧
            (s.current.f.diskFault 0).accessCountBeforeNextFault ≤ 0) := by
  have hle := b.ndatas_le
  have htogether : Together b s :=
    hrun.invariant (I := Together b) (Together.restart (by omega) (fun _ _ => rfl) hinit)
      fun u a v hu hhealthy hv => hu.faultStep hfew hhealthy hv
  refine ⟨htogether.spared, fun call hhealthy => ⟨fun hnone => ?_, fun hdue => ?_⟩⟩
  · by_contra hdue
    obtain ⟨s', hs', -⟩ := htogether.read (g := g) hhealthy hdue
    rw [hnone] at hs'
    cases hs'
  · rw [faultStep, faultyRead_of_due hfew htogether.rate
      (fun d hd => (htogether.due_iff hd).mpr hdue) hhealthy.2]
    rfl

/-- `NDATAS` and `NDISKS` with erasure coding. -/
def fourAndTwo : Striping := ⟨4, 6, Nat.le_add_right 4 2⟩

/-- The first read after the rate is set to one is good, and the second one strays. -/
theorem no_data_fault_survives_four :
    ∃ f₀ s, isFaultInjectionInit alwaysFive 6 quiet = some f₀ ∧
      runActions (faultStep alwaysFive fourAndTwo) ⟨⟨f₀, []⟩, []⟩
        [.distr [49, 10] 0, .enable 1, .read plainRead] = some s ∧
      faultStep alwaysFive fourAndTwo s (.read plainRead) = none := by
  have hplain : Healthy fourAndTwo (.read plainRead) := ⟨fun _ _ => rfl, fun _ => rfl⟩
  obtain ⟨f₀, hinit⟩ : ∃ f₀, isFaultInjectionInit alwaysFive 6 quiet = some f₀ := ⟨_, rfl⟩
  obtain ⟨s, hs, hdue⟩ : ∃ s, runActions (faultStep alwaysFive fourAndTwo) ⟨⟨f₀, []⟩, []⟩
      [.distr [49, 10] 0, .enable 1, .read plainRead] = some s ∧ Due s.current.f 0 := by
    obtain rfl := Option.some.inj hinit
    exact ⟨_, rfl, by decide⟩
  refine ⟨f₀, s, hinit, hs, ?_⟩
  have hreach : Reach (faultStep alwaysFive fourAndTwo) (fun _ a => Healthy fourAndTwo a)
      ⟨⟨f₀, []⟩, []⟩ s := reach_of_runActions hs
    ⟨trivial, fun _ _ => ⟨trivial, fun _ _ => ⟨hplain, fun _ _ => trivial⟩⟩⟩
  exact ((no_data_fault_survives alwaysFive fourAndTwo (by decide) hinit hreach).2 plainRead
    hplain).mpr hdue

end Hydra.DataPath
