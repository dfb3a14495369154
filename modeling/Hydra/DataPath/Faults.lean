/-
  DataPath/Faults.lean --- when faults are injected.

  Source: `resilience_manager/is_fault.c` and the checks and accesses of `IS_rdma_read`
  in `is_main.c`.

  Each disk counts down to its next fault.  A read checks every disk and then accesses
  the pieces it posts; which those are depends on the faults of this very read.  The
  generator is a parameter, and the log is there to state what happened when.
-/
import Hydra.Foundation.Countdown
import Hydra.Foundation.Run
import Hydra.DataPath.ReadPlan

set_option autoImplicit false

namespace Hydra.DataPath

open Hydra.Foundation

/-! ## The injector -/

/-- `struct IS_fault_injection`. -/
structure Injector (Seed : Type) where
  injectFault : UInt32
  faultRate : UInt64
  diskFault : Nat → DiskFault Seed

/-- The generator: the seed `init_genrand64(&seed, 1)` sets, and `genrand64_uint64`. -/
structure Generator (Seed : Type) where
  init : Seed
  next : Seed → UInt64 × Seed

variable {Seed : Type}

/-- What `init_uniform_distr` does to a disk. -/
def DiskFault.restart (g : Generator Seed) (rate : UInt64) (d : DiskFault Seed) :
    DiskFault Seed :=
  { d with
    accessCount := 0
    accessCountBeforeNextFault := ((g.next g.init).1 % (2 * rate)).toInt64
    seed := (g.next g.init).2 }

/-- `init_uniform_distr`; `none` is a division by zero. -/
def initUniformDistr (g : Generator Seed) (ndisks : Nat) (rate : UInt64) (f : Injector Seed) :
    Option (Injector Seed) :=
  if 0 < ndisks ∧ 2 * rate = 0 then none
  else
    some
      { f with
        faultRate := rate
        diskFault := fun i =>
          if i < ndisks then (f.diskFault i).restart g rate else f.diskFault i }

/-- `IS_fault_injection_set_enable`. -/
def isFaultInjectionSetEnable (enable : UInt32) (f : Injector Seed) : Injector Seed :=
  { f with injectFault := enable }

/-- What a fault does to its disk. -/
def DiskFault.inject (g : Generator Seed) (rate : UInt64) (d : DiskFault Seed) :
    DiskFault Seed :=
  { d with
    faultCount := d.faultCount + 1
    accessCountBeforeNextFault := (1 + (g.next d.seed).1 % (2 * rate)).toInt64
    seed := (g.next d.seed).2 }

/-- `IS_fault_injection_inject_fault`; `none` is a division by zero. -/
def isFaultInjectionInjectFault (g : Generator Seed) (f : Injector Seed) (disk : Nat) :
    Option (Injector Seed × Bool) :=
  if f.injectFault = 1 ∧ (f.diskFault disk).accessCountBeforeNextFault ≤ 0 then
    if 2 * f.faultRate = 0 then none
    else
      some
        ({ f with
            diskFault :=
              Function.update f.diskFault disk ((f.diskFault disk).inject g f.faultRate) },
          true)
  else some (f, false)

/-! ## Reads -/

/-- A check of a disk with the countdown it found and, when it reported a fault, the
number drawn; an access. -/
inductive FaultEvent where
  | checked (disk : Nat) (before : Int64) (drawn : Option UInt64)
  | accessed (disk : Nat)
  deriving DecidableEq, Repr

/-- The injector, and what has happened since the rate was set. -/
structure FaultLog (Seed : Type) where
  f : Injector Seed
  log : List FaultEvent

/-- `NDATAS` and `NDISKS`. -/
structure Striping where
  ndatas : Nat
  ndisks : Nat
  ndatas_le : ndatas ≤ ndisks

/-- What a read finds: which pieces have a server, the results of `ib_post_send`, and
what is on the stack where `ret` will be. -/
structure ReadCall where
  mapped : Nat → Bool
  post : Nat → Int
  uninit : Int

/-- The pieces of a read with its faults. -/
def Striping.pieces (b : Striping) (call : ReadCall) (fault : Nat → Bool) : Pieces where
  ndatas := b.ndatas
  ndisks := b.ndisks
  mapped := call.mapped
  fault := fault
  ndatas_le := b.ndatas_le

/-- One check of `IS_rdma_read`. -/
def checkDisk (g : Generator Seed) (t : FaultLog Seed) (d : Nat) :
    Option (FaultLog Seed × Bool) :=
  (isFaultInjectionInjectFault g t.f d).map fun r =>
    (⟨r.1, t.log ++ [.checked d (t.f.diskFault d).accessCountBeforeNextFault
      (if r.2 then some (g.next (t.f.diskFault d).seed).1 else none)]⟩, r.2)

/-- The checks, with `ctx[i]->fault` as they set it. -/
def checkDisks (g : Generator Seed) :
    List Nat → FaultLog Seed × (Nat → Bool) → Option (FaultLog Seed × (Nat → Bool))
  | [], st => some st
  | d :: rest, (t, fault) =>
      (checkDisk g t d).bind fun r => checkDisks g rest (r.1, Function.update fault d r.2)

/-- `IS_rdma_read` as far as the injector is concerned; `none` is a read that strays. -/
def faultyRead (g : Generator Seed) (b : Striping) (t : FaultLog Seed) (call : ReadCall) :
    Option (FaultLog Seed) :=
  (checkDisks g (List.range b.ndisks) (t, fun _ => false)).bind fun r =>
    match (b.pieces call r.2).rdmaRead call.post call.uninit r.1.f.diskFault with
    | .error _ => none
    | .ok run =>
        some ⟨{ r.1.f with diskFault := run.disks }, r.1.log ++ run.tried.map .accessed⟩

/-- The read has `NDATAS` good pieces, as its checks leave them. -/
def EnoughGood (g : Generator Seed) (b : Striping) (t : FaultLog Seed) (call : ReadCall) :
    Prop :=
  ∀ r, checkDisks g (List.range b.ndisks) (t, fun _ => false) = some r →
    b.ndatas ≤ (b.pieces call r.2).goodPieces.length

/-! ## The property -/

/-- A reported fault of disk `d`. -/
def FaultEvent.isFaultOf (d : Nat) : FaultEvent → Bool
  | .checked k _ (some _) => k == d
  | .checked _ _ none | .accessed _ => false

/-- Faults come where the countdowns say, and as far apart as the numbers drawn. -/
structure FaultsSpaced (rate : UInt64) (ndisks : Nat) (f₀ : Injector Seed) (t : FaultLog Seed) :
    Prop where
  range : ∀ d < ndisks, 0 ≤ (t.f.diskFault d).accessCountBeforeNextFault.toInt ∧
    (t.f.diskFault d).accessCountBeforeNextFault.toInt ≤ 2 * rate.toNat
  checks : ∀ d < ndisks, ∀ (before : Int64) (drawn : Option UInt64),
    .checked d before drawn ∈ t.log →
    0 ≤ before.toInt ∧ before.toInt ≤ 2 * rate.toNat ∧ (drawn.isSome = true ↔ before = 0)
  counted : ∀ d, (t.f.diskFault d).faultCount =
    (f₀.diskFault d).faultCount + UInt64.ofNat (t.log.countP (FaultEvent.isFaultOf d))
  spacing : ∀ d < ndisks, ∀ pre mid post before (drawn : UInt64) before' drawn',
    t.log = pre ++ .checked d before (some drawn) ::
      (mid ++ .checked d before' (some drawn') :: post) →
    (∀ e ∈ mid, FaultEvent.isFaultOf d e = false) →
    mid.count (.accessed d) = 1 + drawn.toNat % (2 * rate.toNat) ∧
      1 ≤ mid.count (.accessed d) ∧ mid.count (.accessed d) ≤ 2 * rate.toNat

/-! ## Numbers drawn -/

theorem two_mul_toNat {rate : UInt64} (hlt : rate.toNat < 2 ^ 62) :
    (2 * rate).toNat = 2 * rate.toNat := by
  rw [UInt64.toNat_mul]
  show 2 * rate.toNat % 2 ^ 64 = _
  omega

theorem two_mul_ne_zero {rate : UInt64} (hpos : 1 ≤ rate.toNat) (hlt : rate.toNat < 2 ^ 62) :
    2 * rate ≠ 0 := by
  intro hzero
  have htwo := two_mul_toNat hlt
  rw [hzero] at htwo
  change 0 = 2 * rate.toNat at htwo
  omega

theorem toInt_toInt64 {x : UInt64} (hx : x.toNat < 2 ^ 63) : x.toInt64.toInt = x.toNat := by
  show x.toBitVec.toInt = _
  rw [BitVec.toInt_eq_toNat_of_lt]
  · rfl
  · show 2 * x.toNat < 2 ^ 64
    omega

/-- The first countdown. -/
theorem restart_countdown (g : Generator Seed) {rate : UInt64} (hpos : 1 ≤ rate.toNat)
    (hlt : rate.toNat < 2 ^ 62) (d : DiskFault Seed) :
    (d.restart g rate).accessCountBeforeNextFault.toInt =
      ((g.next g.init).1.toNat % (2 * rate.toNat) : Nat) := by
  have hmod : ((g.next g.init).1 % (2 * rate)).toNat =
      (g.next g.init).1.toNat % (2 * rate.toNat) := by
    rw [UInt64.toNat_mod, two_mul_toNat hlt]
  have hbound := Nat.mod_lt (g.next g.init).1.toNat (show 0 < 2 * rate.toNat by omega)
  show ((g.next g.init).1 % (2 * rate)).toInt64.toInt = _
  rw [toInt_toInt64 (by omega), hmod]

/-- A countdown drawn at a fault. -/
theorem inject_countdown (g : Generator Seed) {rate : UInt64} (hpos : 1 ≤ rate.toNat)
    (hlt : rate.toNat < 2 ^ 62) (d : DiskFault Seed) :
    (d.inject g rate).accessCountBeforeNextFault.toInt =
      (1 + (g.next d.seed).1.toNat % (2 * rate.toNat) : Nat) := by
  have hbound := Nat.mod_lt (g.next d.seed).1.toNat (show 0 < 2 * rate.toNat by omega)
  have hsum : (1 + (g.next d.seed).1 % (2 * rate)).toNat =
      1 + (g.next d.seed).1.toNat % (2 * rate.toNat) := by
    rw [UInt64.toNat_add, UInt64.toNat_mod, two_mul_toNat hlt]
    show (1 + _) % 2 ^ 64 = _
    omega
  show (1 + (g.next d.seed).1 % (2 * rate)).toInt64.toInt = _
  rw [toInt_toInt64 (by omega), hsum]

theorem access_countdown {d : DiskFault Seed} (hpos : 0 < d.accessCountBeforeNextFault.toInt) :
    d.access.accessCountBeforeNextFault.toInt = d.accessCountBeforeNextFault.toInt - 1 := by
  have hone : (1 : Int64) ≤ d.accessCountBeforeNextFault := by
    rw [Int64.le_iff_toInt_le, Int64.toInt_one]
    omega
  show (d.accessCountBeforeNextFault - 1).toInt = _
  rw [Int64.toInt_sub_of_le _ _ (by decide) hone, Int64.toInt_one]

/-! ## The countdown of one disk -/

/-- What an event is to the countdown of disk `d`. -/
def FaultEvent.beatOf (rate : UInt64) (d : Nat) : FaultEvent → Option Beat
  | .checked k _ (some drawn) =>
      if k = d then some (.wind (1 + drawn.toNat % (2 * rate.toNat))) else none
  | .checked _ _ none => none
  | .accessed k => if k = d then some .tick else none

/-- The log of a disk. -/
def beatsOf (rate : UInt64) (d : Nat) (log : List FaultEvent) : List Beat :=
  log.filterMap (FaultEvent.beatOf rate d)

variable {rate : UInt64} {ndisks : Nat} {f₀ : Injector Seed} {t : FaultLog Seed}

/-- Countdowns and fault counts have kept up with the log. -/
structure Counting (rate : UInt64) (ndisks : Nat) (f₀ : Injector Seed) (t : FaultLog Seed) :
    Prop where
  enabled : t.f.injectFault = 1
  rate_eq : t.f.faultRate = rate
  countdown : ∀ d < ndisks, ∃ n : Nat, n ≤ 2 * rate.toNat ∧
    (t.f.diskFault d).accessCountBeforeNextFault.toInt = n ∧
    beats (f₀.diskFault d).accessCountBeforeNextFault.toInt.toNat (beatsOf rate d t.log) = some n
  counted : ∀ d, (t.f.diskFault d).faultCount =
    (f₀.diskFault d).faultCount + UInt64.ofNat (t.log.countP (FaultEvent.isFaultOf d))
  checks : ∀ d < ndisks, ∀ (before : Int64) (drawn : Option UInt64),
    .checked d before drawn ∈ t.log →
    0 ≤ before.toInt ∧ before.toInt ≤ 2 * rate.toNat ∧ (drawn.isSome = true ↔ before = 0)

theorem beatsOf_concat (d : Nat) (log : List FaultEvent) (e : FaultEvent) :
    beatsOf rate d (log ++ [e]) = beatsOf rate d log ++ (e.beatOf rate d).toList := by
  cases he : e.beatOf rate d <;> simp [beatsOf, List.filterMap_append, he]

theorem countP_isFaultOf_concat (d : Nat) (log : List FaultEvent) (e : FaultEvent) :
    (log ++ [e]).countP (FaultEvent.isFaultOf d) =
      log.countP (FaultEvent.isFaultOf d) + if e.isFaultOf d then 1 else 0 := by
  rw [List.countP_append, List.countP_singleton]

/-- What happens to disk `d` is put down as `e`. -/
theorem Counting.record (h : Counting rate ndisks f₀ t) {d : Nat} {disk : DiskFault Seed}
    {e : FaultEvent} (hother : ∀ k, k ≠ d → e.beatOf rate k = none ∧ e.isFaultOf k = false)
    (hcountdown : ∀ n : Nat, (t.f.diskFault d).accessCountBeforeNextFault.toInt = n →
      n ≤ 2 * rate.toNat → ∃ n' : Nat, n' ≤ 2 * rate.toNat ∧
        disk.accessCountBeforeNextFault.toInt = n' ∧
        beats n (e.beatOf rate d).toList = some n')
    (hcounted : disk.faultCount = (t.f.diskFault d).faultCount + if e.isFaultOf d then 1 else 0)
    (hchecks : ∀ k before drawn, e = .checked k before drawn →
      0 ≤ before.toInt ∧ before.toInt ≤ 2 * rate.toNat ∧ (drawn.isSome = true ↔ before = 0)) :
    Counting rate ndisks f₀
      ⟨{ t.f with diskFault := Function.update t.f.diskFault d disk }, t.log ++ [e]⟩ := by
  refine ⟨h.enabled, h.rate_eq, fun k hk => ?_, fun k => ?_, fun k hk before drawn hmem => ?_⟩
  · obtain ⟨n, hn, hcount, hbeats⟩ := h.countdown k hk
    simp only [beatsOf_concat, beats_append, hbeats, Option.bind_some]
    by_cases hkd : k = d
    · subst hkd
      simpa only [Function.update_self] using hcountdown n hcount hn
    · refine ⟨n, hn, ?_, ?_⟩
      · rw [Function.update_of_ne hkd, hcount]
      · rw [(hother k hkd).1]
        rfl
  · rw [countP_isFaultOf_concat]
    by_cases hkd : k = d
    · subst hkd
      simp only [Function.update_self, hcounted, h.counted k, UInt64.ofNat_add, UInt64.add_assoc]
      split <;> rfl
    · simp only [Function.update_of_ne hkd, (hother k hkd).2, h.counted k]
      rfl
  · rcases List.mem_append.mp hmem with hmem | hmem
    · exact h.checks k hk before drawn hmem
    · exact hchecks k before drawn (List.mem_singleton.mp hmem).symm

/-- A check that reports a fault winds the countdown up. -/
theorem Counting.wound (h : Counting rate ndisks f₀ t) (hpos : 1 ≤ rate.toNat)
    (hlt : rate.toNat < 2 ^ 62) (g : Generator Seed) {d : Nat}
    (hzero : (t.f.diskFault d).accessCountBeforeNextFault = 0) :
    Counting rate ndisks f₀
      ⟨{ t.f with
          diskFault :=
            Function.update t.f.diskFault d ((t.f.diskFault d).inject g t.f.faultRate) },
        t.log ++ [.checked d (t.f.diskFault d).accessCountBeforeNextFault
          (some (g.next (t.f.diskFault d).seed).1)]⟩ := by
  refine h.record (fun k hk => ?_) (fun n hn _ => ?_) ?_ fun k before drawn heq => ?_
  · simp [FaultEvent.beatOf, FaultEvent.isFaultOf, Ne.symm hk]
  · have hbound := Nat.mod_lt (g.next (t.f.diskFault d).seed).1.toNat
      (show 0 < 2 * rate.toNat by omega)
    obtain rfl : n = 0 := by
      rw [hzero, Int64.toInt_zero] at hn
      omega
    refine ⟨1 + (g.next (t.f.diskFault d).seed).1.toNat % (2 * rate.toNat), by omega, ?_, ?_⟩
    · rw [h.rate_eq]
      exact inject_countdown g hpos hlt _
    · simp only [FaultEvent.beatOf, if_true, Option.toList_some]
      rfl
  · simp [FaultEvent.isFaultOf, DiskFault.inject]
  · obtain ⟨-, rfl, rfl⟩ := FaultEvent.checked.inj heq
    rw [hzero, Int64.toInt_zero]
    exact ⟨le_rfl, by omega, by simp⟩

/-- A check that reports none leaves the disk alone. -/
theorem Counting.passed (h : Counting rate ndisks f₀ t) {d : Nat} (hd : d < ndisks)
    (hleft : 0 < (t.f.diskFault d).accessCountBeforeNextFault.toInt) :
    Counting rate ndisks f₀
      ⟨t.f, t.log ++ [.checked d (t.f.diskFault d).accessCountBeforeNextFault none]⟩ := by
  obtain ⟨n, hn, hcount, -⟩ := h.countdown d hd
  have hsame : Function.update t.f.diskFault d (t.f.diskFault d) = t.f.diskFault :=
    Function.update_eq_self _ _
  have hrecord : Counting rate ndisks f₀
      ⟨{ t.f with diskFault := Function.update t.f.diskFault d (t.f.diskFault d) },
        t.log ++ [.checked d (t.f.diskFault d).accessCountBeforeNextFault none]⟩ := by
    refine h.record (fun _ _ => ⟨rfl, rfl⟩) (fun n hn hle => ⟨n, hle, hn, rfl⟩)
      (by simp [FaultEvent.isFaultOf]) fun k before drawn heq => ?_
    obtain ⟨-, rfl, rfl⟩ := FaultEvent.checked.inj heq
    refine ⟨hleft.le, by omega, ?_⟩
    simp only [Option.isSome_none, Bool.false_eq_true, false_iff]
    intro hzero
    rw [hzero, Int64.toInt_zero] at hleft
    omega
  rwa [hsame] at hrecord

/-- A check: it reports a fault at zero, and otherwise leaves something to count down. -/
theorem Counting.checkDisk (h : Counting rate ndisks f₀ t) (hpos : 1 ≤ rate.toNat)
    (hlt : rate.toNat < 2 ^ 62) (g : Generator Seed) {d : Nat} (hd : d < ndisks) :
    ∃ r, checkDisk g t d = some r ∧ Counting rate ndisks f₀ r.1 ∧
      (r.2 = true ↔ (t.f.diskFault d).accessCountBeforeNextFault = 0) ∧
      (r.2 = false → 0 < (r.1.f.diskFault d).accessCountBeforeNextFault.toInt) ∧
      ∀ k, k ≠ d → r.1.f.diskFault k = t.f.diskFault k := by
  obtain ⟨n, -, hcount, -⟩ := h.countdown d hd
  unfold DataPath.checkDisk isFaultInjectionInjectFault
  by_cases hzero : (t.f.diskFault d).accessCountBeforeNextFault = 0
  · have hrate : ¬2 * t.f.faultRate = 0 := by
      rw [h.rate_eq]
      exact two_mul_ne_zero hpos hlt
    have htest : (t.f.diskFault d).accessCountBeforeNextFault ≤ 0 := by
      rw [hzero]
      decide
    rw [if_pos ⟨h.enabled, htest⟩, if_neg hrate]
    exact ⟨_, rfl, h.wound hpos hlt g hzero, by simp [hzero], nofun,
      fun k hk => Function.update_of_ne hk _ _⟩
  · have hleft : 0 < (t.f.diskFault d).accessCountBeforeNextFault.toInt := by
      have hne : (t.f.diskFault d).accessCountBeforeNextFault.toInt ≠ 0 := fun heq =>
        hzero (Int64.toInt_inj.mp (heq.trans Int64.toInt_zero.symm))
      omega
    have htest : ¬(t.f.diskFault d).accessCountBeforeNextFault ≤ 0 := by
      rw [Int64.le_iff_toInt_le, Int64.toInt_zero]
      omega
    rw [if_neg fun hand => htest hand.2]
    exact ⟨_, rfl, h.passed hd hleft, by simp [hzero], fun _ => hleft, fun _ _ => rfl⟩

/-- `IS_fault_injection_access` with its entry in the log. -/
def accessDisk (t : FaultLog Seed) (d : Nat) : FaultLog Seed :=
  ⟨{ t.f with diskFault := isFaultInjectionAccess t.f.diskFault d }, t.log ++ [.accessed d]⟩

/-- An access counts down. -/
theorem Counting.accessDisk (h : Counting rate ndisks f₀ t) {d : Nat}
    (hleft : 0 < (t.f.diskFault d).accessCountBeforeNextFault.toInt) :
    Counting rate ndisks f₀ (accessDisk t d) := by
  refine h.record (fun k hk => ?_) (fun n hn hle => ?_) ?_ nofun
  · simp [FaultEvent.beatOf, FaultEvent.isFaultOf, Ne.symm hk]
  · obtain ⟨m, rfl⟩ : ∃ m, n = m + 1 := ⟨n - 1, by omega⟩
    refine ⟨m, by omega, ?_, ?_⟩
    · rw [access_countdown hleft, hn]
      omega
    · simp only [FaultEvent.beatOf, if_true, Option.toList_some]
      rfl
  · simp [FaultEvent.isFaultOf, DiskFault.access]

/-! ## A read -/

theorem Counting.checkDisks (h : Counting rate ndisks f₀ t) (hpos : 1 ≤ rate.toNat)
    (hlt : rate.toNat < 2 ^ 62) (g : Generator Seed) {l : List Nat} (hnodup : l.Nodup)
    (hl : ∀ d ∈ l, d < ndisks) (fault : Nat → Bool) :
    ∃ r, checkDisks g l (t, fault) = some r ∧ Counting rate ndisks f₀ r.1 ∧
      (∀ d ∈ l, r.2 d = true ↔ (t.f.diskFault d).accessCountBeforeNextFault = 0) ∧
      (∀ d ∈ l, r.2 d = false → 0 < (r.1.f.diskFault d).accessCountBeforeNextFault.toInt) ∧
      ∀ k, k ∉ l → r.1.f.diskFault k = t.f.diskFault k ∧ r.2 k = fault k := by
  induction l generalizing t fault with
  | nil => exact ⟨(t, fault), rfl, h, nofun, nofun, fun _ _ => ⟨rfl, rfl⟩⟩
  | cons d rest ih =>
      obtain ⟨hnew, hrest⟩ := List.nodup_cons.mp hnodup
      obtain ⟨u, hu, hcounting, hzero, hleft, hframe⟩ :=
        h.checkDisk hpos hlt g (hl d List.mem_cons_self)
      obtain ⟨r, hr, hfinal, hdue, hall, hothers⟩ := ih hcounting hrest
        (fun k hk => hl k (List.mem_cons_of_mem d hk)) (Function.update fault d u.2)
      refine ⟨r, by rw [DataPath.checkDisks, hu, Option.bind_some, hr], hfinal, fun k hk => ?_,
        fun k hk hfault => ?_, fun k hk => ?_⟩
      · rcases List.mem_cons.mp hk with rfl | hk
        · rw [(hothers k hnew).2, Function.update_self]
          exact hzero
        · have hkd : k ≠ d := fun heq => hnew (heq ▸ hk)
          rw [hdue k hk, hframe k hkd]
      · rcases List.mem_cons.mp hk with rfl | hk
        · -- the later checks leave this disk alone
          obtain ⟨hdisk, hflag⟩ := hothers k hnew
          rw [hflag, Function.update_self] at hfault
          rw [hdisk]
          exact hleft hfault
        · exact hall k hk hfault
      · have hkd : k ≠ d := fun heq => hk (heq ▸ List.mem_cons_self)
        obtain ⟨hdisk, hflag⟩ := hothers k fun hmem => hk (List.mem_cons_of_mem d hmem)
        exact ⟨hdisk.trans (hframe k hkd), by rw [hflag, Function.update_of_ne hkd]⟩

/-- The accesses of a read, one after the other. -/
theorem Counting.accessDisks (h : Counting rate ndisks f₀ t) {l : List Nat} (hnodup : l.Nodup)
    (hleft : ∀ d ∈ l, 0 < (t.f.diskFault d).accessCountBeforeNextFault.toInt) :
    Counting rate ndisks f₀ (l.foldl DataPath.accessDisk t) := by
  induction l generalizing t with
  | nil => exact h
  | cons d rest ih =>
      obtain ⟨hnew, hrest⟩ := List.nodup_cons.mp hnodup
      refine ih (h.accessDisk (hleft d List.mem_cons_self)) hrest fun k hk => ?_
      have hkd : k ≠ d := fun heq => hnew (heq ▸ hk)
      simp only [DataPath.accessDisk, isFaultInjectionAccess, Function.update_of_ne hkd]
      exact hleft k (List.mem_cons_of_mem d hk)

theorem foldl_accessDisk {l : List Nat} (hnodup : l.Nodup) (t : FaultLog Seed) :
    l.foldl accessDisk t =
      ⟨{ t.f with
          diskFault := fun d => if d ∈ l then (t.f.diskFault d).access else t.f.diskFault d },
        t.log ++ l.map .accessed⟩ := by
  induction l generalizing t with
  | nil => simp
  | cons d rest ih =>
      obtain ⟨hnew, hrest⟩ := List.nodup_cons.mp hnodup
      rw [List.foldl_cons, ih hrest]
      simp only [accessDisk, List.map_cons, List.append_assoc, List.singleton_append]
      congr 2
      funext k
      by_cases hkd : k = d
      · subst hkd
        simp [isFaultInjectionAccess, hnew]
      · simp [isFaultInjectionAccess, hkd]

/-- A read keeps count: what it accesses has been checked and has no fault. -/
theorem Counting.faultyRead {b : Striping} {t' : FaultLog Seed} (h : Counting rate b.ndisks f₀ t)
    (hpos : 1 ≤ rate.toNat) (hlt : rate.toNat < 2 ^ 62) {g : Generator Seed} {call : ReadCall}
    (hread : faultyRead g b t call = some t') : Counting rate b.ndisks f₀ t' := by
  obtain ⟨r, hr, hcounting, -, hleft, -⟩ := h.checkDisks hpos hlt g List.nodup_range
    (fun d hd => List.mem_range.mp hd) (fun _ => false)
  rw [DataPath.faultyRead, hr, Option.bind_some] at hread
  split at hread
  · cases hread
  rename_i run hrun
  obtain rfl := Option.some.inj hread
  have hloops := (Pieces.rdmaRead_ok hrun).1
  have hafter := hcounting.accessDisks hloops.nodup fun d hd => by
    have hchosen := List.mem_filter.mp (List.mem_of_mem_take (hloops.chosen d hd))
    have hfault : r.2 d = false := by
      have hgoodPiece := hchosen.2
      rw [Pieces.isGood, Bool.and_eq_true, Bool.not_eq_true'] at hgoodPiece
      exact hgoodPiece.2
    exact hleft d hchosen.1 hfault
  rw [foldl_accessDisk hloops.nodup] at hafter
  rwa [← funext hloops.disks] at hafter

/-- A read goes through when every disk that is due for a fault has a server. -/
theorem Counting.faultyRead_isSome_iff {b : Striping} (h : Counting rate b.ndisks f₀ t)
    (hpos : 1 ≤ rate.toNat) (hlt : rate.toNat < 2 ^ 62) (g : Generator Seed) (call : ReadCall)
    (hgood : EnoughGood g b t call) :
    (DataPath.faultyRead g b t call).isSome ↔
      ∀ d < b.ndisks, (t.f.diskFault d).accessCountBeforeNextFault = 0 → call.mapped d = true := by
  obtain ⟨r, hr, -, hdue, -⟩ := h.checkDisks hpos hlt g List.nodup_range
    (fun d hd => List.mem_range.mp hd) (fun _ => false)
  have hmapped : (∀ d < b.ndisks, r.2 d = true → call.mapped d = true) ↔
      ∀ d < b.ndisks, (t.f.diskFault d).accessCountBeforeNextFault = 0 → call.mapped d = true :=
    forall₂_congr fun d hd => by rw [hdue d (List.mem_range.mpr hd)]
  rw [← hmapped, DataPath.faultyRead, hr, Option.bind_some]
  constructor
  · intro hsome
    split at hsome
    · cases hsome
    · rename_i run hrun
      exact (Pieces.rdmaRead_eq_ok_iff.mp hrun).1
  · intro hall
    obtain ⟨run, hrun, -⟩ := Pieces.rdmaRead_total (p := b.pieces call r.2) call.post
      call.uninit r.1.f.diskFault (hgood r hr) hall
    rw [hrun]
    rfl

/-! ## Runs of reads -/

/-- Between two faults of a disk its log has ticks only. -/
theorem beatsOf_mid (rate : UInt64) {d : Nat} {mid : List FaultEvent}
    (hmid : ∀ e ∈ mid, FaultEvent.isFaultOf d e = false) :
    (∀ b ∈ beatsOf rate d mid, b = .tick) ∧
      (beatsOf rate d mid).length = mid.count (.accessed d) := by
  induction mid with
  | nil => exact ⟨nofun, rfl⟩
  | cons e rest ih =>
      obtain ⟨hticks, hlen⟩ := ih fun e he => hmid e (List.mem_cons_of_mem _ he)
      have he := hmid e List.mem_cons_self
      rw [List.count_cons, ← hlen]
      cases e with
      | checked k before drawn =>
          have hnone : FaultEvent.beatOf rate d (.checked k before drawn) = none := by
            cases drawn with
            | none => rfl
            | some r =>
                have hkd : k ≠ d := by simpa [FaultEvent.isFaultOf] using he
                exact if_neg hkd
          simpa [beatsOf, hnone] using hticks
      | accessed k =>
          by_cases hkd : k = d
          · subst hkd
            simpa [beatsOf, FaultEvent.beatOf] using hticks
          · simpa [beatsOf, FaultEvent.beatOf, hkd] using hticks

theorem Counting.faultsSpaced (h : Counting rate ndisks f₀ t) (hpos : 1 ≤ rate.toNat) :
    FaultsSpaced rate ndisks f₀ t := by
  refine ⟨fun d hd => ?_, h.checks, h.counted, ?_⟩
  · obtain ⟨n, hn, hcount, -⟩ := h.countdown d hd
    omega
  · intro d hd pre mid post before drawn before' drawn' hlog hmid
    obtain ⟨n, -, -, hbeats⟩ := h.countdown d hd
    obtain ⟨hticks, hlen⟩ := beatsOf_mid rate hmid
    have hsplit : beatsOf rate d t.log = beatsOf rate d pre ++
        .wind (1 + drawn.toNat % (2 * rate.toNat)) :: (beatsOf rate d mid ++
          .wind (1 + drawn'.toNat % (2 * rate.toNat)) :: beatsOf rate d post) := by
      rw [hlog]
      simp [beatsOf, FaultEvent.beatOf, List.filterMap_append]
    rw [hsplit] at hbeats
    have hcount := beats_between hticks hbeats
    have hbound := Nat.mod_lt drawn.toNat (show 0 < 2 * rate.toNat by omega)
    rw [← hlen]
    omega

/-- The moment the rate is set and injection enabled. -/
theorem counting_start {g : Generator Seed} {f f₁ : Injector Seed} (hpos : 1 ≤ rate.toNat)
    (hlt : rate.toNat < 2 ^ 62) (hinit : initUniformDistr g ndisks rate f = some f₁) :
    Counting rate ndisks (isFaultInjectionSetEnable 1 f₁)
      ⟨isFaultInjectionSetEnable 1 f₁, []⟩ := by
  rw [initUniformDistr, if_neg fun hand => two_mul_ne_zero hpos hlt hand.2] at hinit
  obtain rfl := Option.some.inj hinit
  refine ⟨rfl, rfl, fun d hd => ?_, fun d => by simp, nofun⟩
  have hbound := Nat.mod_lt (g.next g.init).1.toNat (show 0 < 2 * rate.toNat by omega)
  have hcount := restart_countdown g hpos hlt (f.diskFault d)
  refine ⟨(g.next g.init).1.toNat % (2 * rate.toNat), by omega, ?_, ?_⟩
  · simp only [isFaultInjectionSetEnable, if_pos hd]
    exact hcount
  · simp only [isFaultInjectionSetEnable, if_pos hd, hcount, Int.toNat_natCast]
    rfl

/-- From the moment the rate is set and injection enabled, in every run of reads with enough
good pieces, and among the checks of the next read, faults come at the end of their
countdowns, as far apart as the numbers drawn.  The next read goes through when every disk
that has counted down has a server. -/
theorem faults_spaced (g : Generator Seed) (b : Striping) {rate : UInt64} (hpos : 1 ≤ rate.toNat)
    (hlt : rate.toNat < 2 ^ 62) (f : Injector Seed) :
    ∃ f₀, (initUniformDistr g b.ndisks rate f).map (isFaultInjectionSetEnable 1) = some f₀ ∧
      ∀ t, Reach (faultyRead g b) (EnoughGood g b) ⟨f₀, []⟩ t →
        FaultsSpaced rate b.ndisks f₀ t ∧
          (∀ n ≤ b.ndisks, ∃ r, checkDisks g (List.range n) (t, fun _ => false) = some r ∧
            FaultsSpaced rate b.ndisks f₀ r.1) ∧
          ∀ call, EnoughGood g b t call → ((faultyRead g b t call).isSome ↔
            ∀ d < b.ndisks, (t.f.diskFault d).accessCountBeforeNextFault = 0 →
              call.mapped d = true) := by
  obtain ⟨f₁, hinit⟩ : ∃ f₁, initUniformDistr g b.ndisks rate f = some f₁ :=
    ⟨_, if_neg fun hand => two_mul_ne_zero hpos hlt hand.2⟩
  refine ⟨isFaultInjectionSetEnable 1 f₁, by rw [hinit, Option.map_some], fun t hrun => ?_⟩
  have hcounting : Counting rate b.ndisks (isFaultInjectionSetEnable 1 f₁) t :=
    hrun.invariant (counting_start hpos hlt hinit) fun _ _ _ hu _ hstep =>
      hu.faultyRead hpos hlt hstep
  refine ⟨hcounting.faultsSpaced hpos, fun n hn => ?_,
    fun call hgood => hcounting.faultyRead_isSome_iff hpos hlt g call hgood⟩
  obtain ⟨r, hr, hchecked, -⟩ := hcounting.checkDisks hpos hlt g List.nodup_range
    (fun d hd => lt_of_lt_of_le (List.mem_range.mp hd) hn) (fun _ => false)
  exact ⟨r, hr, hchecked.faultsSpaced hpos⟩

/-- A generator that always draws five. -/
def alwaysFive : Generator Unit := ⟨(), fun _ => (5, ())⟩

/-- One data piece and one parity. -/
def mirror : Striping := ⟨1, 2, by decide⟩

/-- A read with both servers there. -/
def plainRead : ReadCall := ⟨fun _ => true, fun _ => 0, 0⟩

/-- Before anything has happened. -/
def quiet : Injector Unit := ⟨0, 0, fun _ => ⟨0, 0, 0, ()⟩⟩

/-- The injector with a rate of one. -/
def everySecond : Injector Unit :=
  ((initUniformDistr alwaysFive 2 1 quiet).map (isFaultInjectionSetEnable 1)).get (by decide)

theorem enoughGood_of_all {g : Generator Seed} {b : Striping} {t : FaultLog Seed} {call : ReadCall}
    (h : (checkDisks g (List.range b.ndisks) (t, fun _ => false)).all
      (fun r => decide (b.ndatas ≤ (b.pieces call r.2).goodPieces.length)) = true) :
    EnoughGood g b t call := by
  intro r hr
  rw [hr] at h
  exact of_decide_eq_true h

/-- With a rate of one every fault is two accesses after the last: disk 0 has its second
one in the fifth read. -/
theorem faults_spaced_mirror :
    ∃ t, runActions (faultyRead alwaysFive mirror) ⟨everySecond, []⟩ (List.replicate 5 plainRead) =
        some t ∧
      t.log.countP (FaultEvent.isFaultOf 0) = 2 ∧ FaultsSpaced 1 2 everySecond t := by
  obtain ⟨f₀, hf₀, hrun⟩ := faults_spaced alwaysFive mirror (show 1 ≤ (1 : UInt64).toNat by decide)
    (by decide) quiet
  obtain rfl : everySecond = f₀ := Option.some.inj hf₀
  have hread : ∃ t, runActions (faultyRead alwaysFive mirror) ⟨everySecond, []⟩
      (List.replicate 5 plainRead) = some t := Option.isSome_iff_exists.mp (by decide)
  obtain ⟨t, ht⟩ := hread
  have hfaults : t.log.countP (FaultEvent.isFaultOf 0) = 2 := by
    have hsome : ((runActions (faultyRead alwaysFive mirror) ⟨everySecond, []⟩
      (List.replicate 5 plainRead)).map fun t => t.log.countP (FaultEvent.isFaultOf 0)) =
        some 2 := by
      decide
    rw [ht] at hsome
    exact Option.some.inj hsome
  refine ⟨t, ht, hfaults, (hrun t (reach_of_runActions ht ?_)).1⟩
  refine ⟨enoughGood_of_all (by decide), fun t₁ h₁ => ?_⟩
  obtain rfl := Option.some.inj h₁
  refine ⟨enoughGood_of_all (by decide), fun t₂ h₂ => ?_⟩
  obtain rfl := Option.some.inj h₂
  refine ⟨enoughGood_of_all (by decide), fun t₃ h₃ => ?_⟩
  obtain rfl := Option.some.inj h₃
  refine ⟨enoughGood_of_all (by decide), fun t₄ h₄ => ?_⟩
  obtain rfl := Option.some.inj h₄
  exact ⟨enoughGood_of_all (by decide), fun _ _ => trivial⟩

end Hydra.DataPath
