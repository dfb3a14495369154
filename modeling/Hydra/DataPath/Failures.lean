/-
  DataPath/Failures.lean --- transfers that fail.

  Source: the error exits of `IS_rdma_read`, `IS_rdma_write` and `IS_transfer_chunk`
  in `resilience_manager/is_main.c`; the caller `IS_queue_rq` of `is_mq.c` fails the
  request when the result is not zero.

  `ib_post_send` may fail for any piece.  The transfer then returns at once: what was
  posted stays posted, nothing is given back and preemption stays off.
-/
import Hydra.DataPath.Pools
import Hydra.DataPath.ReadPlan

set_option autoImplicit false

namespace Hydra.DataPath

open Hydra.Foundation Hydra.Wire Hydra.Manager

variable {Data Seed : Type}

/-! ## The loops of IS_rdma_write -/

namespace Pieces

variable (p : Pieces) (post : Nat → Int)

/-- One turn of either posting loop of `IS_rdma_write`. -/
def writeTurn (s : Posting Seed) (i : Nat) : Except Stray (Posting Seed) := do
  if s.returned then return s
  if ← p.entry p.mapped i then p.postPiece post s i else return s

/-- The loop over the data pieces and the one over the parities.  The variable `j` of
the read is not there. -/
def writePosts (uninit : Int) (disks : Nat → DiskFault Seed) : Except Stray (Posting Seed) := do
  let s ← (List.range p.ndatas).foldlM (p.writeTurn post) ⟨0, uninit, [], disks, false⟩
  (List.range' p.ndatas (p.ndisks - p.ndatas)).foldlM (p.writeTurn post) s

/-- What comes out of `IS_rdma_write`. -/
structure WriteRun where
  ret : Int
  tried : List Nat

/-- `IS_rdma_write` from its posting loops on. -/
def rdmaWrite (uninit : Int) (disks : Nat → DiskFault Seed) : Except Stray WriteRun := do
  let s ← p.writePosts post uninit disks
  return ⟨if s.returned then s.ret else 0, s.tried⟩

variable {p post} {i : Nat} {s s' : Posting Seed}

theorem writeTurn_of_unmapped (hr : s.returned = false) (hi : i < p.ndisks)
    (hm : p.mapped i = false) : p.writeTurn post s i = .ok s := by
  rw [writeTurn, hr, entry_of_lt hi, hm]
  rfl

theorem writeTurn_of_mapped (hr : s.returned = false) (hi : i < p.ndisks)
    (hm : p.mapped i = true) :
    p.writeTurn post s i =
      .ok { s with ret := post i, tried := s.tried ++ [i], returned := decide (post i ≠ 0) } := by
  rw [writeTurn, hr, entry_of_lt hi, hm]
  exact postPiece_of_mapped hi hm

/-- Either loop before turn `i`. -/
structure Written (p : Pieces) (post : Nat → Int) (i : Nat) (s : Posting Seed) : Prop where
  going : s.returned = false →
    s.tried = (List.range i).filter p.mapped ∧ ∀ k ∈ s.tried, post k = 0
  stopped : s.returned = true → s.ret ≠ 0 ∧ ∃ k < p.ndisks, p.mapped k = true ∧ post k ≠ 0

/-- A turn can always be made. -/
theorem Written.step (h : Written p post i s) (hi : i < p.ndisks) :
    ∃ s', p.writeTurn post s i = .ok s' ∧ Written p post (i + 1) s' := by
  cases hr : s.returned with
  | true =>
      refine ⟨s, by rw [writeTurn, if_pos hr]; rfl, fun hgo => ?_, h.stopped⟩
      rw [hr] at hgo
      cases hgo
  | false =>
      obtain ⟨htried, hposts⟩ := h.going hr
      cases hm : p.mapped i with
      | false =>
          refine ⟨s, writeTurn_of_unmapped hr hi hm, fun _ => ⟨?_, hposts⟩, h.stopped⟩
          rw [List.range_succ, List.filter_append, ← htried]
          simp [hm]
      | true =>
          refine ⟨_, writeTurn_of_mapped hr hi hm, fun hgo => ⟨?_, ?_⟩, fun hstop => ?_⟩
          · rw [List.range_succ, List.filter_append, ← htried]
            simp [hm]
          · have hpost : post i = 0 := by simpa using hgo
            intro k hk
            rcases List.mem_append.mp hk with hk | hk
            · exact hposts k hk
            · rwa [List.mem_singleton.mp hk]
          · have hpost : post i ≠ 0 := by simpa using hstop
            exact ⟨hpost, i, hi, hm, hpost⟩

/-- A write tries the mapped pieces in order until a post fails. -/
theorem rdmaWrite_total (p : Pieces) (post : Nat → Int) (uninit : Int)
    (disks : Nat → DiskFault Seed) :
    ∃ run, p.rdmaWrite post uninit disks = .ok run ∧
      ((run.ret = 0 ∧ run.tried = (List.range p.ndisks).filter p.mapped ∧
          ∀ k < p.ndisks, p.mapped k = true → post k = 0) ∨
        (run.ret ≠ 0 ∧ ∃ k < p.ndisks, p.mapped k = true ∧ post k ≠ 0)) := by
  have hloop : p.writePosts post uninit disks =
      (List.range p.ndisks).foldlM (p.writeTurn post) ⟨0, uninit, [], disks, false⟩ := by
    have hsplit := range_append_range' p.ndatas (p.ndisks - p.ndatas)
    rw [Nat.add_sub_cancel' p.ndatas_le] at hsplit
    rw [writePosts, ← hsplit, List.foldlM_append]
  have hstep : ∀ i < p.ndisks, ∀ s s' : Posting Seed, Written p post i s →
      p.writeTurn post s i = .ok s' → Written p post (i + 1) s' := by
    intro i hi s s' hI hturn
    obtain ⟨t, ht, hI'⟩ := hI.step hi
    rwa [Except.ok.inj (hturn.symm.trans ht)]
  have hgo : ∀ i < p.ndisks, ∀ s : Posting Seed, Written p post i s →
      ∃ s', p.writeTurn post s i = .ok s' := by
    intro i hi s hI
    obtain ⟨t, ht, -⟩ := hI.step hi
    exact ⟨t, ht⟩
  have hstart : Written p post 0 (⟨0, uninit, [], disks, false⟩ : Posting Seed) :=
    ⟨fun _ => ⟨rfl, by simp⟩, fun h => by cases h⟩
  obtain ⟨s, hs⟩ := foldlM_range_total hstep hgo hstart
  have hI := foldlM_range_keeps hstep hstart hs
  refine ⟨_, by rw [rdmaWrite, hloop, hs]; rfl, ?_⟩
  cases hr : s.returned with
  | false =>
      obtain ⟨htried, hposts⟩ := hI.going hr
      refine .inl ⟨rfl, htried, fun k hk hm => hposts k ?_⟩
      rw [htried, List.mem_filter, List.mem_range]
      exact ⟨hk, hm⟩
  | true => exact .inr (hI.stopped hr)

end Pieces

/-! ## Transfers -/

/-- What a transfer leaves: the data path, the result, the contexts it took, the
operations it posted and the preemption count. -/
structure Outcome (Data : Type) where
  path : Path Data
  ret : Int
  taken : List CtxId
  posted : List Op
  preempt : Int

section Transfer

variable (B : Build Data) (s : Path Data) (r : Request Data)
  (place : Nat → Option (Nat × ChunkIx)) (fault : Nat → Bool) (post : Nat → Int) (uninit : Int)
  (disks : Nat → DiskFault Seed) (preempt : Int)

/-- The pieces of a request. -/
def piecesOf : Pieces where
  ndatas := B.ndatas
  ndisks := B.ndisks
  mapped := fun i => (place i).isSome
  fault := fault
  ndatas_le := B.ndatas_le

/-- The pieces that were posted, of those tried. -/
def accepted (tried : List Nat) : List Nat := tried.filter fun i => decide (post i = 0)

/-- `IS_rdma_read` with its error exits. -/
def readOutcome : Option (Outcome Data) :=
  (takeEach s.free (poolsFor B r place)).bind fun out =>
    ((piecesOf B place fault).rdmaRead post uninit disks).toOption.map fun run =>
      { path := postPieces B s r place (readCtx r s.nextCount place fault out.1) out.1 out.2
          (accepted post run.tried)
        ret := run.ret
        taken := out.1
        posted := posts place out.1 r (accepted post run.tried)
        preempt := preempt }

/-- `IS_rdma_write` with its error exits.  The contexts of unmapped pieces are given back
at its end only. -/
def writeOutcome : Option (Outcome Data) :=
  (takeEach s.free (poolsFor B r place)).bind fun out =>
    ((piecesOf B place fault).rdmaWrite post uninit disks).toOption.map
      fun (run : Pieces.WriteRun) =>
      { path := postPieces B s r place (writeCtx B r s.nextCount place) out.1
          (if run.ret = 0 then putBack CtxId.pool (unmappedCtxs place out.1) out.2 else out.2)
          (accepted post run.tried)
        ret := run.ret
        taken := out.1
        posted := posts place out.1 r (accepted post run.tried)
        preempt := preempt }

/-- `IS_transfer_chunk`: `get_cpu` before, `put_cpu` after a transfer that succeeded. -/
def transferChunk : Option (Outcome Data) :=
  (if r.write then writeOutcome B s r place fault post uninit disks (preempt + 1)
    else readOutcome B s r place fault post uninit disks (preempt + 1)).map fun out =>
      if out.ret ≠ 0 then out else { out with preempt := out.preempt - 1 }

end Transfer

/-! ## What a failed transfer should leave -/

/-- The completion of one operation. -/
def complete (B : Build Data) (s : Path Data) (o : Op) : Option (Path Data) :=
  if o.write then clientWriteDone s o else clientReadDone B s o

/-- The completions of some operations, in order. -/
def completeAll (B : Build Data) (s : Path Data) : List Op → Option (Path Data)
  | [] => some s
  | o :: rest => (complete B s o).bind fun s => completeAll B s rest

/-- Nothing is left behind: in whatever order the operations posted complete, each
context taken is then in its pool once and no request has been ended by them; and the
preemption count is as it was. -/
structure LeavesNothing (B : Build Data) (preempt : Int) (out : Outcome Data) : Prop where
  contexts : ∀ l, l.Perm out.posted → ∃ s', completeAll B out.path l = some s' ∧
    ∀ c ∈ out.taken, (s'.free c.pool).count c = 1
  silent : ∀ l, l.Perm out.posted → ∀ s', completeAll B out.path l = some s' →
    s'.trace = out.path.trace
  preempt : out.preempt = preempt

/-- The transfer returns, and leaves nothing behind if it failed. -/
def FailsCleanly (B : Build Data) (s : Path Data) (r : Request Data)
    (place : Nat → Option (Nat × ChunkIx)) (fault : Nat → Bool) (post : Nat → Int) (uninit : Int)
    (disks : Nat → DiskFault Seed) (preempt : Int) : Prop :=
  ∃ out, transferChunk B s r place fault post uninit disks preempt = some out ∧
    (out.ret ≠ 0 → LeavesNothing B preempt out)

/-! ## When it does -/

section Results

variable {B : Build Data} {s : Path Data} {r : Request Data}
  {place : Nat → Option (Nat × ChunkIx)} {fault : Nat → Bool} {post : Nat → Int} {uninit : Int}
  {disks : Nat → DiskFault Seed} {preempt : Int} {out : Outcome Data}

/-- A failed transfer returns without `put_cpu`. -/
theorem transferChunk_preempt
    (h : transferChunk B s r place fault post uninit disks preempt = some out)
    (hret : out.ret ≠ 0) : out.preempt = preempt + 1 := by
  obtain ⟨run, hrun, rfl⟩ := Option.map_eq_some_iff.mp h
  have hkeep : run.preempt = preempt + 1 := by
    split at hrun
    · obtain ⟨taken, -, hout⟩ := Option.bind_eq_some_iff.mp hrun
      obtain ⟨_, -, rfl⟩ := Option.map_eq_some_iff.mp hout
      rfl
    · obtain ⟨taken, -, hout⟩ := Option.bind_eq_some_iff.mp hrun
      obtain ⟨_, -, rfl⟩ := Option.map_eq_some_iff.mp hout
      rfl
  by_cases hzero : run.ret = 0
  · simp [hzero] at hret
  · simpa [hzero] using hkeep

/-- A transfer is clean exactly when it succeeds. -/
theorem failsCleanly_iff_ret :
    FailsCleanly B s r place fault post uninit disks preempt ↔
      ∃ out, transferChunk B s r place fault post uninit disks preempt = some out ∧
        out.ret = 0 := by
  constructor
  · rintro ⟨out, hout, hclean⟩
    refine ⟨out, hout, ?_⟩
    by_contra hret
    have hkept := (hclean hret).preempt
    rw [transferChunk_preempt hout hret] at hkept
    omega
  · rintro ⟨out, hout, hret⟩
    exact ⟨out, hout, fun hne => absurd hret hne⟩

/-- When a read succeeds. -/
theorem readOutcome_ret_iff :
    (∃ out, readOutcome B s r place fault post uninit disks preempt = some out ∧ out.ret = 0) ↔
      (takeEach s.free (poolsFor B r place)).isSome = true ∧
      B.ndatas ≤ (piecesOf B place fault).goodPieces.length ∧
      (∀ i < B.ndisks, fault i = true → (place i).isSome = true) ∧
      ∀ k ∈ (piecesOf B place fault).chosen, post k = 0 := by
  constructor
  · rintro ⟨out, hout, hret⟩
    obtain ⟨taken, htake, hout⟩ := Option.bind_eq_some_iff.mp hout
    obtain ⟨run, hrun, rfl⟩ := Option.map_eq_some_iff.mp hout
    obtain ⟨hmapped, hloops⟩ := Pieces.rdmaRead_eq_ok_iff.mp (toOption_eq_some.mp hrun)
    obtain ⟨hspec, henough⟩ := Pieces.readLoops_ok hloops
    refine ⟨by simp [htake], henough hret, hmapped, ?_⟩
    rcases hspec.outcome with ⟨-, -, -, hposts⟩ | ⟨hne, -⟩
    · exact hposts
    · exact absurd hret hne
  · rintro ⟨htake, henough, hmapped, hposts⟩
    obtain ⟨taken, htake⟩ := Option.isSome_iff_exists.mp htake
    obtain ⟨run, hrun, hspec⟩ := Pieces.readLoops_total (p := piecesOf B place fault) post uninit
      disks henough
    have hread := toOption_eq_some.mpr (Pieces.rdmaRead_eq_ok_iff.mpr ⟨hmapped, hrun⟩)
    refine ⟨_, by rw [readOutcome, htake, Option.bind_some, hread, Option.map_some], ?_⟩
    rcases hspec.outcome with ⟨hret, -⟩ | ⟨-, -, k, hk, hfail⟩
    · exact hret
    · exact absurd (hposts k (hspec.chosen k hk)) hfail

/-- When a write succeeds. -/
theorem writeOutcome_ret_iff :
    (∃ out, writeOutcome B s r place fault post uninit disks preempt = some out ∧ out.ret = 0) ↔
      (takeEach s.free (poolsFor B r place)).isSome = true ∧
      ∀ i < B.ndisks, (place i).isSome = true → post i = 0 := by
  obtain ⟨run, hrun, hspec⟩ := Pieces.rdmaWrite_total (piecesOf B place fault) post uninit disks
  constructor
  · rintro ⟨out, hout, hret⟩
    obtain ⟨taken, htake, hout⟩ := Option.bind_eq_some_iff.mp hout
    rw [hrun] at hout
    obtain rfl := Option.some.inj hout
    refine ⟨by simp [htake], ?_⟩
    rcases hspec with ⟨-, -, hposts⟩ | ⟨hne, -⟩
    · exact hposts
    · exact absurd hret hne
  · rintro ⟨htake, hposts⟩
    obtain ⟨taken, htake⟩ := Option.isSome_iff_exists.mp htake
    refine ⟨_, by rw [writeOutcome, htake, Option.bind_some, hrun]; rfl, ?_⟩
    rcases hspec with ⟨hret, -⟩ | ⟨-, k, hk, hm, hfail⟩
    · exact hret
    · exact absurd (hposts k hk hm) hfail

theorem transferChunk_ret_iff :
    (∃ out, transferChunk B s r place fault post uninit disks preempt = some out ∧
        out.ret = 0) ↔
      if r.write then
        ∃ out, writeOutcome B s r place fault post uninit disks (preempt + 1) = some out ∧
          out.ret = 0
      else
        ∃ out, readOutcome B s r place fault post uninit disks (preempt + 1) = some out ∧
          out.ret = 0 := by
  have hmap : ∀ x : Option (Outcome Data),
      (∃ out, (x.map fun out => if out.ret ≠ 0 then out else
        { out with preempt := out.preempt - 1 }) = some out ∧ out.ret = 0) ↔
      ∃ out, x = some out ∧ out.ret = 0 := by
    intro x
    cases x with
    | none => simp
    | some out => by_cases h : out.ret = 0 <;> simp [h]
  rw [transferChunk, hmap]
  cases r.write <;> simp

end Results

/-- A transfer leaves nothing behind when it does not fail: the pools have a context for
every piece and `ib_post_send` succeeds for all the pieces it is called for.  These are
the mapped ones for a write, and the first `NDATAS` good ones for a read that can find
them. -/
theorem transfer_fails_cleanly_iff (B : Build Data) (s : Path Data) (r : Request Data)
    (place : Nat → Option (Nat × ChunkIx)) (fault : Nat → Bool) (post : Nat → Int) (uninit : Int)
    (disks : Nat → DiskFault Seed) (preempt : Int) :
    FailsCleanly B s r place fault post uninit disks preempt ↔
      (takeEach s.free (poolsFor B r place)).isSome = true ∧
      if r.write then ∀ i < B.ndisks, (place i).isSome = true → post i = 0
      else
        B.ndatas ≤ (piecesOf B place fault).goodPieces.length ∧
        (∀ i < B.ndisks, fault i = true → (place i).isSome = true) ∧
        ∀ k ∈ (piecesOf B place fault).chosen, post k = 0 := by
  rw [failsCleanly_iff_ret, transferChunk_ret_iff, writeOutcome_ret_iff, readOutcome_ret_iff]
  cases r.write <;> simp

/-- The adapter takes the write of the first replica and refuses that of the second. -/
def refusesSecond : Nat → Int := fun i => if i = 1 then -12 else 0

/-- What is left of the write: the result, the contexts taken, the preemption count, and
after the posted operation has completed how often each context is in its pool and how many
events the block layer has seen. -/
def afterFailedWrite : Option (Int × List CtxId × Int × List Nat × Nat) :=
  (transferChunk (Build.rep Nat 1 4) threeReplicas (pageRequest true 7)
    (threeReplicas.place (Build.rep Nat 1 4) 0) noFault refusesSecond 0
    (fun _ => (⟨0, 0, 0, ()⟩ : DiskFault Unit)) 0).bind fun out =>
      (completeAll (Build.rep Nat 1 4) out.path out.posted).map fun s =>
        (out.ret, out.taken, out.preempt, out.taken.map fun c => (s.free c.pool).count c,
          s.trace.length)

/-- Of the three contexts two are lost, the completion of the write that was posted ends
the request that has failed, and preemption stays off. -/
theorem failed_write_leaves_contexts :
    afterFailedWrite =
      some (-12, [⟨⟨0, 0⟩, 255⟩, ⟨⟨0, 1⟩, 255⟩, ⟨⟨0, 2⟩, 255⟩], 1, [1, 0, 0], 1) ∧
    ¬ FailsCleanly (Build.rep Nat 1 4) threeReplicas (pageRequest true 7)
      (threeReplicas.place (Build.rep Nat 1 4) 0) noFault refusesSecond 0
      (fun _ => (⟨0, 0, 0, ()⟩ : DiskFault Unit)) 0 := by
  have hrun : afterFailedWrite =
      some (-12, [⟨⟨0, 0⟩, 255⟩, ⟨⟨0, 1⟩, 255⟩, ⟨⟨0, 2⟩, 255⟩], 1, [1, 0, 0], 1) := by
    decide +kernel
  refine ⟨hrun, ?_⟩
  rintro ⟨out, hout, hclean⟩
  rw [afterFailedWrite, hout, Option.bind_some] at hrun
  obtain ⟨s, hs, hseen⟩ := Option.map_eq_some_iff.mp hrun
  simp only [Prod.mk.injEq] at hseen
  obtain ⟨hret, htaken, -, hcounts, -⟩ := hseen
  obtain ⟨s', hs', hback⟩ := (hclean (by rw [hret]; decide)).contexts out.posted (List.Perm.refl _)
  obtain rfl : s = s' := Option.some.inj (hs.symm.trans hs')
  have hsecond := hback ⟨⟨0, 1⟩, 255⟩ (by rw [htaken]; decide)
  rw [htaken] at hcounts
  have hlost : (s.free ⟨0, 1⟩).count ⟨⟨0, 1⟩, 255⟩ = 0 :=
    (List.cons.inj (List.cons.inj hcounts).2).1
  exact absurd (hlost.symm.trans hsecond) (by decide)

/-! ## What a failed transfer does leave -/

section Left

variable {B : Build Data} {s s' : Path Data} {r : Request Data}
  {place : Nat → Option (Nat × ChunkIx)} {fault : Nat → Bool} {post : Nat → Int} {uninit : Int}
  {disks : Nat → DiskFault Seed} {preempt : Int} {out : Outcome Data} {ids : List CtxId}
  {free : Pool → List CtxId} {l : List Op}

theorem Taken.nodup (ht : Taken B s r place ids free) (hfree : ∀ p, (s.free p).Nodup) :
    ids.Nodup := by
  rw [List.nodup_iff_count_le_one]
  intro c
  have hle := List.nodup_iff_count_le_one.mp (hfree c.pool) c
  rw [ht.split c.pool, List.count_append, List.count_filter (by simp)] at hle
  omega

theorem Taken.notMem_free (ht : Taken B s r place ids free) (hfree : ∀ p, (s.free p).Nodup)
    {c : CtxId} (hc : c ∈ ids) : c ∉ free c.pool := by
  have hnodup := hfree c.pool
  rw [ht.split c.pool, List.nodup_append] at hnodup
  intro hmem
  exact hnodup.2.2 c (by simp [hc]) c hmem rfl

/-- Completions of writes give back the contexts they are on. -/
theorem completeAll_write_free (hwrite : ∀ o ∈ l, o.write = true)
    (h : completeAll B s l = some s') : s'.free = putBack CtxId.pool (l.map Op.ctx) s.free := by
  induction l generalizing s with
  | nil => rw [← Option.some.inj h]; rfl
  | cons o rest ih =>
      obtain ⟨t, ht, hrest⟩ := Option.bind_eq_some_iff.mp h
      rw [complete, if_pos (hwrite o List.mem_cons_self)] at ht
      obtain ⟨trace, -, rfl⟩ := Option.map_eq_some_iff.mp ht
      rw [ih (fun o ho => hwrite o (List.mem_cons_of_mem _ ho)) hrest]
      rfl

/-- Completions of reads give nothing back while there are fewer than the countdown. -/
theorem completeAll_read_free {n : Nat} (hread : ∀ o ∈ l, o.write = false)
    (hcnt : ∀ o ∈ l, (s.ctx o.ctx).cnt = n) (hlt : (l.length : Int) < s.count n)
    (h : completeAll B s l = some s') : s'.free = s.free := by
  induction l generalizing s with
  | nil => rw [← Option.some.inj h]
  | cons o rest ih =>
      obtain ⟨t, ht, hrest⟩ := Option.bind_eq_some_iff.mp h
      rw [complete, if_neg (by simp [hread o List.mem_cons_self])] at ht
      obtain ⟨r, -, ht⟩ := Option.bind_eq_some_iff.mp ht
      rw [List.length_cons] at hlt
      have hgrp := hcnt o List.mem_cons_self
      rw [hgrp, if_neg (by push_cast at hlt; omega)] at ht
      obtain rfl := Option.some.inj ht
      rw [ih (fun o ho => hread o (List.mem_cons_of_mem _ ho)) ?_ ?_ hrest]
      · intro o' ho'
        by_cases heq : o'.ctx = o.ctx
        · simp [heq]
        · simpa [Function.update_of_ne heq] using hcnt o' (List.mem_cons_of_mem _ ho')
      · simp only [Function.update_self]
        push_cast at hlt
        omega

/-- A failed read has posted fewer than `NDATAS` operations. -/
theorem length_accepted_lt {p : Pieces} {run : Pieces.ReadRun Seed}
    (h : p.readLoops post uninit disks = .ok run) (hret : run.ret ≠ 0) :
    (accepted post run.tried).length < p.ndatas := by
  obtain ⟨hspec, -⟩ := Pieces.readLoops_ok h
  rcases hspec.outcome with ⟨hzero, -⟩ | ⟨-, -, k, hk, hfail⟩
  · exact absurd hzero hret
  · have hsub : run.tried.length ≤ p.chosen.length := (hspec.nodup.subperm hspec.chosen).length_le
    have hchosen : p.chosen.length ≤ p.ndatas := List.length_take_le _ _
    have hless : (accepted post run.tried).length < run.tried.length := by
      rw [accepted, List.length_filter_lt_length_iff_exists]
      exact ⟨k, hk, by simpa using hfail⟩
    omega

theorem posts_length_le {pieces : List Nat} : (posts place ids r pieces).length ≤ pieces.length :=
  List.length_filterMap_le _ _

/-- A failed read leaves all its contexts out. -/
theorem readOutcome_loses (hown : ∀ p c, c ∈ s.free p → c.pool = p)
    (hfree : ∀ p, (s.free p).Nodup) (hread : r.write = false)
    (h : readOutcome B s r place fault post uninit disks preempt = some out)
    (hret : out.ret ≠ 0) (hl : l.Perm out.posted) (hdone : completeAll B out.path l = some s')
    {c : CtxId} (hc : c ∈ out.taken) : c ∉ s'.free c.pool := by
  obtain ⟨⟨ids, free⟩, htake, hout⟩ := Option.bind_eq_some_iff.mp h
  obtain ⟨run, hrun, rfl⟩ := Option.map_eq_some_iff.mp hout
  have ht := taken_of_takeEach hown htake
  have hfew := length_accepted_lt (Pieces.rdmaRead_eq_ok_iff.mp (toOption_eq_some.mp hrun)).2 hret
  rw [completeAll_read_free (n := s.nextCount) ?_ ?_ ?_ hdone]
  · exact ht.notMem_free hfree hc
  · intro o ho
    obtain ⟨i, -, e, d, -, -, rfl⟩ := mem_posts.mp (hl.mem_iff.mp ho)
    exact hread
  · intro o ho
    obtain ⟨i, -, e, d, he, hd, rfl⟩ := mem_posts.mp (hl.mem_iff.mp ho)
    have hctx : updateEach (readCtx r s.nextCount place fault ids) ids.zipIdx s.ctx d =
        readCtx r s.nextCount place fault ids i (s.ctx d) :=
      updateEach_zipIdx _ _ hd (List.nodup_iff_count_le_one.mp (ht.nodup hfree) d)
    show (updateEach (readCtx r s.nextCount place fault ids) ids.zipIdx s.ctx d).cnt = _
    rw [hctx, readCtx, if_pos (by simp [he])]
  · have hlen : l.length ≤ (accepted post run.tried).length := hl.length_eq ▸ posts_length_le
    have hcount : (postPieces B s r place (readCtx r s.nextCount place fault ids) ids free
        (accepted post run.tried)).count s.nextCount = B.ndatas := by simp
    rw [hcount]
    exact_mod_cast lt_of_le_of_lt hlen hfew

/-- A failed write leaves out the context of the piece that was refused. -/
theorem writeOutcome_loses (hown : ∀ p c, c ∈ s.free p → c.pool = p)
    (hfree : ∀ p, (s.free p).Nodup) (hwrite : r.write = true)
    (h : writeOutcome B s r place fault post uninit disks preempt = some out)
    (hret : out.ret ≠ 0) :
    ∃ c ∈ out.taken, ∀ l, l.Perm out.posted → ∀ s', completeAll B out.path l = some s' →
      c ∉ s'.free c.pool := by
  obtain ⟨⟨ids, free⟩, htake, hout⟩ := Option.bind_eq_some_iff.mp h
  obtain ⟨run, hrun, hspec⟩ := Pieces.rdmaWrite_total (piecesOf B place fault) post uninit disks
  rw [hrun] at hout
  obtain rfl := Option.some.inj hout
  have ht := taken_of_takeEach hown htake
  rcases hspec with ⟨hzero, -⟩ | ⟨-, k, hk, -, hfail⟩
  · exact absurd hzero hret
  · have hk : k < ids.length := by rw [ht.length]; exact hk
    refine ⟨ids[k], List.getElem_mem hk, fun l hl s' hdone => ?_⟩
    have hwrites : ∀ o ∈ l, o.write = true := by
      intro o ho
      obtain ⟨i, -, e, d, -, -, rfl⟩ := mem_posts.mp (hl.mem_iff.mp ho)
      exact hwrite
    rw [completeAll_write_free hwrites hdone, mem_putBack]
    rintro (⟨hmem, -⟩ | hmem)
    · -- the context would be that of a piece that was accepted
      obtain ⟨o, ho, hctx⟩ := List.mem_map.mp hmem
      obtain ⟨i, hi, e, d, -, hd, rfl⟩ := mem_posts.mp (hl.mem_iff.mp ho)
      obtain ⟨hlt, rfl⟩ := List.getElem?_eq_some_iff.mp hd
      have hik : i = k := (List.Nodup.getElem_inj_iff (ht.nodup hfree)).mp hctx
      rw [accepted, List.mem_filter, hik] at hi
      exact hfail (by simpa using hi.2)
    · rw [postPieces_free, if_neg hret] at hmem
      exact ht.notMem_free hfree (List.getElem_mem hk) hmem

/-- When the pools are in order, every failed transfer leaves a context that neither is in
its pool nor comes back with the operations posted. -/
theorem failed_transfer_loses_context (hown : ∀ p c, c ∈ s.free p → c.pool = p)
    (hfree : ∀ p, (s.free p).Nodup)
    (h : transferChunk B s r place fault post uninit disks preempt = some out)
    (hret : out.ret ≠ 0) :
    ∃ c ∈ out.taken, ∀ l, l.Perm out.posted → ∀ s', completeAll B out.path l = some s' →
      c ∉ s'.free c.pool := by
  obtain ⟨run, hrun, rfl⟩ := Option.map_eq_some_iff.mp h
  have hrunret : run.ret ≠ 0 := by
    intro hzero
    simp [hzero] at hret
  rw [if_pos hrunret]
  cases hw : r.write with
  | true =>
      rw [hw] at hrun
      exact writeOutcome_loses hown hfree hw hrun hrunret
  | false =>
      rw [hw] at hrun
      have hpos : 0 < run.taken.length := by
        obtain ⟨⟨ids, free⟩, htake, hout⟩ := Option.bind_eq_some_iff.mp hrun
        obtain ⟨_, -, rfl⟩ := Option.map_eq_some_iff.mp hout
        have hlen := (taken_of_takeEach hown htake).length
        have := B.ndatas_pos
        have := B.ndatas_le
        show 0 < ids.length
        omega
      obtain ⟨c, hc⟩ := List.exists_mem_of_length_pos hpos
      exact ⟨c, hc, fun l hl s' hdone => readOutcome_loses hown hfree hw hrun hrunret hl hdone hc⟩

end Left

/-! ## Transfers that succeed -/

section Succeed

variable {B : Build Data} {s : Path Data} {r : Request Data}
  {place : Nat → Option (Nat × ChunkIx)} {fault : Nat → Bool} {post : Nat → Int} {uninit : Int}
  {disks : Nat → DiskFault Seed} {preempt : Int} {ids : List CtxId} {free : Pool → List CtxId}

theorem accepted_of_posts (hpost : ∀ i, post i = 0) (tried : List Nat) :
    accepted post tried = tried := by
  simp [accepted, hpost]

/-- Unmapped pieces are passed over anyhow. -/
theorem posts_filter_mapped (l : List Nat) :
    posts place ids r (l.filter fun i => (place i).isSome) = posts place ids r l := by
  rw [posts, List.filterMap_filter]
  refine List.filterMap_congr fun i _ => ?_
  cases place i <;> rfl

/-- The pieces the plan counts as good are those whose contexts say so. -/
theorem good_of_taken (ht : Taken B s r place ids free) (hfree : ∀ p, (s.free p).Nodup) {i : Nat}
    (hi : i < B.ndisks) :
    good (updateEach (readCtx r s.nextCount place fault ids) ids.zipIdx s.ctx) place ids i =
      (piecesOf B place fault).isGood i :=
  ht.good_eq hi fun _ c _ _ => List.nodup_iff_count_le_one.mp (ht.nodup hfree) c

theorem readOutcome_path (hpost : ∀ i, post i = 0) (hown : ∀ p c, c ∈ s.free p → c.pool = p)
    (hfree : ∀ p, (s.free p).Nodup) :
    (readOutcome B s r place fault post uninit disks preempt).map Outcome.path =
      isRdmaRead B s r place fault := by
  rw [readOutcome, isRdmaRead]
  cases htake : takeEach s.free (poolsFor B r place) with
  | none => rfl
  | some taken =>
      obtain ⟨ids, free⟩ := taken
      have ht := taken_of_takeEach hown htake
      have htargets := (Pieces.toOption_readLoops (p := piecesOf B place fault) uninit disks
        hpost).trans (readTargets_congr (fun i hi => (good_of_taken ht hfree hi).symm)
          (fun i hi => lt_of_lt_of_le (List.mem_range.mp hi) B.ndatas_le) _)
      simp only [Option.bind_some, accepted_of_posts hpost, Option.map_map]
      split
      · rename_i hbad
        obtain ⟨i, hi, hfault, hplace⟩ := hbad
        cases hread : (piecesOf B place fault).rdmaRead post uninit disks with
        | error e => rfl
        | ok run =>
            have hmapped := (Pieces.rdmaRead_eq_ok_iff.mp hread).1 i (List.mem_range.mp hi) hfault
            simp [piecesOf, hplace] at hmapped
      · rename_i hmapped
        have hread : (piecesOf B place fault).rdmaRead post uninit disks =
            (piecesOf B place fault).readLoops post uninit disks := by
          have hinject : (piecesOf B place fault).injectFaults = .ok () := by
            rw [Pieces.injectFaults_eq_ok_iff]
            intro i hi hfault
            by_contra hplace
            exact hmapped ⟨i, List.mem_range.mpr hi, hfault, by simpa [piecesOf] using hplace⟩
          rw [Pieces.rdmaRead, Pieces.fillCtxs_eq, hinject]
          rfl
        rw [hread]
        have hmap := congrArg (Option.map
          (postPieces B s r place (readCtx r s.nextCount place fault ids) ids free)) htargets
        rw [Option.map_map] at hmap
        exact hmap

theorem writeOutcome_path (hpost : ∀ i, post i = 0) :
    (writeOutcome B s r place fault post uninit disks preempt).map Outcome.path =
      isRdmaWrite B s r place := by
  obtain ⟨run, hrun, hspec⟩ := Pieces.rdmaWrite_total (piecesOf B place fault) post uninit disks
  rcases hspec with ⟨hret, htried, -⟩ | ⟨-, k, -, -, hfail⟩
  · rw [writeOutcome, isRdmaWrite, hrun]
    cases takeEach s.free (poolsFor B r place) with
    | none => rfl
    | some taken =>
        have hposts : posts place taken.1 r run.tried =
            posts place taken.1 r (List.range B.ndisks) := by
          rw [htried]
          exact posts_filter_mapped _
        simp [Except.toOption, accepted_of_posts hpost, hret, postPieces, hposts]
  · exact absurd (hpost k) hfail

/-- While every post succeeds and the pools are in order, a transfer is that of the data
path. -/
theorem transferChunk_path (hpost : ∀ i, post i = 0) (hown : ∀ p c, c ∈ s.free p → c.pool = p)
    (hfree : ∀ p, (s.free p).Nodup) :
    (transferChunk B s r place fault post uninit disks preempt).map Outcome.path =
      isTransferChunk B s r place fault := by
  have hpath : ∀ x : Option (Outcome Data), (x.map fun out => if out.ret ≠ 0 then out else
      { out with preempt := out.preempt - 1 }).map Outcome.path = x.map Outcome.path := by
    intro x
    cases x with
    | none => rfl
    | some out => by_cases h : out.ret = 0 <;> simp [h]
  rw [transferChunk, hpath, isTransferChunk]
  cases r.write with
  | true => exact writeOutcome_path hpost
  | false => exact readOutcome_path hpost hown hfree

end Succeed

end Hydra.DataPath
