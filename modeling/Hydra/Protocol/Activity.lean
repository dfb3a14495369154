/-
  Protocol/Activity.lean --- what the monitor learns from the `ACTIVITY` replies.

  The manager reports a mapped chunk by a word that is not zero, the monitor
  recognises it by the same test, and then reads as many entries as the selected
  connections have chunks.  `IS_send_activity` stores zero for every chunk.
-/
import Hydra.Manager.KernelCb
import Hydra.Monitor.EvictMem

set_option autoImplicit false

namespace Hydra.Protocol

open Hydra.Foundation Hydra.Wire Hydra.Monitor

/-- A monitor that has received the `ACTIVITY` reply of every selected
connection: the replies were built by the peer managers, both sides agree on the
mapped chunks, and the totals of the connections are right. -/
structure Replied (m : Session) (sendList : ConnIx → SendMark)
    (peer : ConnIx → Manager.KernelCb) : Prop where
  live : ∀ c, sendList c = .evict → ∃ conn, m.conns c = some conn ∧
    conn.recvMsg = (Manager.isSendActivity (peer c)).sendBuf ∧ conn.mappedChunkSize = m.mapCountOf c
  agree : ∀ c, sendList c = .evict → ∀ i,
    (peer c).remoteChunk.chunkMap i ≠ none ↔ m.connMap i = some c

/-- The collection gathered exactly one entry for every chunk of the selected
connections, so that every entry below `k` has been written. -/
def CollectsMapped (m : Session) (sendList : ConnIx → SendMark) : Prop :=
  ∃ m' list, evictCollect m sendList = some (m', list) ∧
    (∀ i, (list.entries.map (·.chunkIndex)).count i =
      if ∃ c, sendList c = .evict ∧ m.connMap i = some c then 1 else 0) ∧
    (list.entries.length : Int) = list.room ∧
    ∀ n : Nat, (n : Int) < list.room → (list.entries[n]?).isSome

/-- The reply carries no entry, whatever the manager has mapped. -/
theorem activityEntries_isSendActivity (cb : Manager.KernelCb) :
    activityEntries (Manager.isSendActivity cb).sendBuf = [] := by
  simp [activityEntries, Manager.isSendActivity]

/-- The loop over `send_list` adds up the chunk counts of the marked slots. -/
theorem totalSelected_eq {m : Session} {sendList : ConnIx → SendMark}
    (hlive : ∀ c, sendList c = .evict → ∃ conn, m.conns c = some conn ∧
      conn.mappedChunkSize = m.mapCountOf c) (l : List ConnIx) (k : Int) :
    totalSelected m sendList l k =
      some (k +
        (l.map fun c => if sendList c = .evict then (m.mapCountOf c : Int) else 0).sum) := by
  induction l generalizing k with
  | nil => simp [totalSelected]
  | cons c rest ih =>
      unfold totalSelected
      by_cases hsel : sendList c = .evict
      · obtain ⟨conn, hconn, hshare⟩ := hlive c hsel
        simp only [hsel, hconn, if_true, ih, hshare, List.map_cons, List.sum_cons]
        congr 1
        omega
      · simp only [hsel, if_false, ih, List.map_cons, List.sum_cons]
        congr 1
        omega

/-- The collection loop ends with what it started with. -/
theorem collectActivity_entries {peer : ConnIx → Manager.KernelCb}
    {sendList : ConnIx → SendMark} (l : List ConnIx) (hnodup : l.Nodup)
    (m : Session) (entries : List ChunkActivity)
    (hlive : ∀ c ∈ l, sendList c = .evict → ∃ conn, m.conns c = some conn ∧
      conn.recvMsg = (Manager.isSendActivity (peer c)).sendBuf) :
    ∃ m', collectActivity sendList l (m, entries) = some (m', entries) := by
  induction l generalizing m with
  | nil => exact ⟨m, rfl⟩
  | cons c rest ih =>
      have hc : c ∉ rest := (List.nodup_cons.mp hnodup).1
      unfold collectActivity
      by_cases hsel : sendList c = .evict
      · obtain ⟨conn, hconn, hrecv⟩ := hlive c List.mem_cons_self hsel
        simp only [hsel, hconn, if_true, hrecv, activityEntries_isSendActivity, List.append_nil]
        apply ih (List.nodup_cons.mp hnodup).2
        intro d hd hseld
        have hne : d ≠ c := fun h => hc (h ▸ hd)
        obtain ⟨other, hother, hrecv'⟩ := hlive d (List.mem_cons_of_mem c hd) hseld
        exact ⟨other, by simpa [Session.putConn, hne] using hother, hrecv'⟩
      · simp only [hsel, if_false]
        exact ih (List.nodup_cons.mp hnodup).2 m fun d hd => hlive d (List.mem_cons_of_mem c hd)

/-- The replies leave `evict_list` empty, with room for every chunk of the selected
connections. -/
theorem Replied.evictCollect_eq {m : Session} {sendList : ConnIx → SendMark}
    {peer : ConnIx → Manager.KernelCb} (hreplied : Replied m sendList peer) :
    ∃ m', evictCollect m sendList = some (m',
      { room := ((List.finRange maxClient).map fun c =>
          if sendList c = .evict then (m.mapCountOf c : Int) else 0).sum
        entries := [] }) := by
  have htotal := totalSelected_eq (fun c hc => by
    obtain ⟨conn, hconn, -, hshare⟩ := hreplied.live c hc
    exact ⟨conn, hconn, hshare⟩) (List.finRange maxClient) 0
  obtain ⟨m', hcollect⟩ := collectActivity_entries (List.finRange maxClient)
    (List.nodup_finRange _) m [] (fun c _ hc => by
      obtain ⟨conn, hconn, hrecv, -⟩ := hreplied.live c hc
      exact ⟨conn, hconn, hrecv⟩)
  exact ⟨m', by simp [evictCollect, htotal, hcollect]⟩

/-- A chunk mapped on a selected connection is missing from the collection. -/
theorem Replied.not_collectsMapped {m : Session} {sendList : ConnIx → SendMark}
    {peer : ConnIx → Manager.KernelCb} (hreplied : Replied m sendList peer) {c : ConnIx}
    {i : ChunkIx} (hc : sendList c = .evict) (hi : m.connMap i = some c) :
    ¬ CollectsMapped m sendList := by
  rintro ⟨m₁, list, heq, hcount, -, -⟩
  obtain ⟨m', hresult⟩ := hreplied.evictCollect_eq
  have hlist : list.entries = [] :=
    congrArg (fun r => r.2.entries) (Option.some.inj (heq.symm.trans hresult))
  have hone := hcount i
  rw [hlist, if_pos ⟨c, hc, hi⟩] at hone
  simp at hone

/-- After the replies are in, `evict_list` has one entry for every chunk of the
selected connections exactly when none of the selected managers maps a chunk. -/
theorem evictCollect_collects_iff (m : Session) (sendList : ConnIx → SendMark)
    (peer : ConnIx → Manager.KernelCb) (hreplied : Replied m sendList peer) :
    CollectsMapped m sendList ↔
      ∀ c, sendList c = .evict → ∀ i, (peer c).remoteChunk.chunkMap i = none := by
  have hunmapped : ∀ c, sendList c = .evict → ∀ i,
      (peer c).remoteChunk.chunkMap i = none ↔ m.connMap i ≠ some c := by
    intro c hc i
    have hagree := hreplied.agree c hc i
    tauto
  constructor
  · intro hcollects c hc i
    rw [hunmapped c hc i]
    intro hi
    exact hreplied.not_collectsMapped hc hi hcollects
  · intro hnone
    have hfree : ∀ c, sendList c = .evict → ∀ i, m.connMap i ≠ some c := by
      intro c hc i
      exact (hunmapped c hc i).mp (hnone c hc i)
    obtain ⟨m', hresult⟩ := hreplied.evictCollect_eq
    have hterms : ((List.finRange maxClient).map fun c =>
        if sendList c = .evict then (m.mapCountOf c : Int) else 0) =
        (List.finRange maxClient).map fun _ => (0 : Int) := by
      apply List.map_congr_left
      intro c _
      split
      · rename_i hc
        have hzero : m.mapCountOf c = 0 := by
          rw [Session.mapCountOf, countWhere_eq_zero_iff]
          exact fun i => decide_eq_false (hfree c hc i)
        simp [hzero]
      · rfl
    rw [hterms] at hresult
    refine ⟨m', _, hresult, ?_, ?_, ?_⟩
    · intro i
      have hnot : ¬ ∃ c, sendList c = .evict ∧ m.connMap i = some c := by
        rintro ⟨c, hc, hi⟩
        exact hfree c hc i hi
      rw [if_neg hnot]
      rfl
    · simp
    · intro n hn
      simp at hn
      omega

/-- A manager that backs one session chunk, or none, with chunk 0 of the monitor. -/
def samplePeer (sessionChunk : Option Nat) : Manager.KernelCb where
  sendBuf := .plain .query 0
  remoteChunk :=
    { chunkList := fun _ => ⟨0, 0⟩
      remoteMapped := fun _ => false
      chunkSizeG := 0
      targetSizeG := 0
      shrinkSizeG := 0
      chunkMap := fun i => if i = 0 then sessionChunk else none
      evictChunkMap := fun _ => .unset
      cState := .evict }

/-- A monitor with one connection, in slot 0, that has received the activity reply
of `samplePeer`. -/
def sampleMonitor (sessionChunk : Option Nat) (share : Int) : Session where
  conns := fun c =>
    if c = 0 then
      some
        { connIndex := 0
          sessChunkMap := fun i => if i = 0 then sessionChunk.map fun _ => 0 else none
          mappedChunkSize := share
          evictSem := 1
          stopSem := 0
          sendMsg := .plain .evict 1
          recvMsg := (Manager.isSendActivity (samplePeer sessionChunk)).sendBuf }
    else none
  connsState := fun c => if c = 0 then .mapped else .idle
  connNum := 1
  sizeGb := 1
  mappedSize := share
  connMap := fun i => if i = 0 then sessionChunk.map fun _ => 0 else none
  mallocMap := fun i => if i = 0 then .malloced else .empty
  running := true

/-- The selection of slot 0 alone. -/
def sampleSelection (c : ConnIx) : SendMark := if c = 0 then .evict else .none

theorem sampleSelection_eq_evict {c : ConnIx} (h : sampleSelection c = .evict) : c = 0 := by
  unfold sampleSelection at h
  split at h
  · assumption
  · cases h

theorem sampleMonitor_replied (sessionChunk : Option Nat) (share : Int)
    (hshare : share = (sampleMonitor sessionChunk share).mapCountOf 0) :
    Replied (sampleMonitor sessionChunk share) sampleSelection
      (fun _ => samplePeer sessionChunk) := by
  refine ⟨?_, ?_⟩
  · intro c hc
    obtain rfl := sampleSelection_eq_evict hc
    exact ⟨_, rfl, rfl, hshare⟩
  · intro c hc i
    obtain rfl := sampleSelection_eq_evict hc
    by_cases hi : i = 0 <;> cases sessionChunk <;> simp [samplePeer, sampleMonitor, hi]

/-- A selected connection without chunks: nothing to collect. -/
theorem evictCollect_collects_none :
    CollectsMapped (sampleMonitor none 0) sampleSelection := by
  have hzero : (sampleMonitor none 0).mapCountOf 0 = 0 := by
    rw [Session.mapCountOf, countWhere_eq_zero_iff]
    intro i
    simp [sampleMonitor]
  refine (evictCollect_collects_iff _ _ _ (sampleMonitor_replied none 0 (by simp [hzero]))).mpr ?_
  intro c _ i
  simp [samplePeer]

/-- A selected connection with one chunk: the chunk is not collected, and entry 0,
which the selection loop reads, is unwritten. -/
theorem evictCollect_misses_one :
    (∃ c, sampleSelection c = .evict) ∧
      Replied (sampleMonitor (some 0) 1) sampleSelection (fun _ => samplePeer (some 0)) ∧
      ¬ CollectsMapped (sampleMonitor (some 0) 1) sampleSelection := by
  have hone : (sampleMonitor (some 0) 1).mapCountOf 0 = 1 := by
    have hcount := countWhere_turnOn (p := fun _ : ChunkIx => false)
      (q := fun i => decide ((sampleMonitor (some 0) 1).connMap i = some 0)) (a := 0)
      rfl (by simp [sampleMonitor]) (by
        intro i hi
        simp [sampleMonitor, hi])
    rw [Session.mapCountOf, hcount, countWhere_eq_zero_iff.mpr fun _ => rfl]
  have hreplied := sampleMonitor_replied (some 0) 1 (by simp [hone])
  exact ⟨⟨0, rfl⟩, hreplied, hreplied.not_collectsMapped (c := 0) (i := 0) rfl rfl⟩

end Hydra.Protocol
