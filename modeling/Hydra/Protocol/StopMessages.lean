/-
  Protocol/StopMessages.lean --- what the `STOP` messages of an eviction say.

  The selection counts the victims of a connection in its send buffer, and `DONE`
  repeats the count and the flags of the `STOP` it answers.  The size that is sent is
  read from the buffer of the connection that lost the last chunk, and the thread that
  handles received messages writes into the same buffers.
-/
import Hydra.Foundation.Run
import Hydra.Manager.KernelCb
import Hydra.Monitor.Accounting
import Hydra.Monitor.EvictMem

set_option autoImplicit false

namespace Hydra.Protocol

open Hydra.Foundation Hydra.Wire Hydra.Monitor

/-! ## The property -/

/-- The `DONE` by which `evict_handler` answers a `STOP`. -/
def doneAnswer (cb : Manager.KernelCb) (msg : Message) : Message :=
  let cb := { cb with remoteChunk := cb.remoteChunk.clientRecvStop msg }
  (Manager.finishEvict cb.remoteChunk.shrinkSizeG (Manager.markEvicted cb)).sendBuf

/-- The answer announces as many chunks as it flags, and `recv_done` takes off its totals
as many as it frees. -/
structure DoneCounts (done : Message) : Prop where
  size : done.sizeGb = countWhere done.flagged
  freed : ∀ (m m' : Session) c conn, conn.recvMsg = done → recvDone c conn m = some m' →
    m'.sizeGb = m.sizeGb - countWhere done.flagged ∧
      m'.mappedSize = m.mappedSize - countWhere done.flagged ∧
      ∃ conn', m'.conns c = some conn' ∧
        conn'.mappedChunkSize = conn.mappedChunkSize - countWhere done.flagged

/-- A message says what was selected for its connection. -/
structure SaysVictims (victims : List (ConnIx × ChunkIx)) (c : ConnIx) (msg : Message) : Prop where
  stop : msg.type = .stop
  flags : ∀ i, msg.flagged i = true ↔ (c, i) ∈ victims
  size : msg.sizeGb = countWhere msg.flagged
  answer : msg.sizeGb ≠ 0 → ∀ cb, DoneCounts (doneAnswer cb msg)

/-- Every `STOP` sent does. -/
def StopsMatch (s : StopRun) : Prop := ∀ c msg, (c, msg) ∈ s.sent → SaysVictims s.victims c msg

/-- How many of the chunks taken are a connection's. -/
def share (connMap : ChunkIx → Option ConnIx) (picks : List ChunkIx) (c : ConnIx) : Nat :=
  picks.countP fun i => decide (connMap i = some c)

/-- A selection the sizes survive: the chunks are different, they belong to connections
that were sent `EVICT`, and each connection that loses some loses as many. -/
structure EvenVictims (connMap : ChunkIx → Option ConnIx) (sendList : ConnIx → SendMark)
    (picks : List ChunkIx) : Prop where
  distinct : picks.Nodup
  marked : ∀ i ∈ picks, ∀ c, connMap i = some c → sendList c = .evict
  even : ∀ i ∈ picks, ∀ k ∈ picks, ∀ c d, connMap i = some c → connMap k = some d →
    share connMap picks c = share connMap picks d

/-- Messages handled while `STOP`s go out: no bind on a connection that is still to get
one, and while one that loses chunks is, neither a bind nor a query on the connection the
size is read from. -/
def Undisturbed (s : StopRun) : StopAction → Prop
  | .recv c msg _ =>
      (s.slot ≤ c.val → s.sendList c ≠ .none → msg.type ≠ .bind ∧ msg.type ≠ .bindSingle) ∧
        (s.connIndex = some c → (∃ d : ConnIx, s.slot ≤ d.val ∧ s.sendList d = .stop) →
          msg.type ≠ .query ∧ msg.type ≠ .bind ∧ msg.type ≠ .bindSingle)
  | .next | .wake => True

/-! ## Answers -/

theorem doneAnswer_flagged (cb : Manager.KernelCb) {msg : Message} (hsize : msg.sizeGb ≠ 0)
    (i : ChunkIx) : (doneAnswer cb msg).flagged i = msg.flagged i := by
  have hkey : (doneAnswer cb msg).rkey i = if msg.flagged i then 1 else 0 := by
    simp [doneAnswer, Manager.finishEvict, Manager.isSendDone, Manager.markEvicted,
      Manager.RemoteChunkList.clientRecvStop, hsize]
  rw [Message.flagged, hkey]
  cases msg.flagged i <;> decide

theorem doneAnswer_sizeGb (cb : Manager.KernelCb) (msg : Message) :
    (doneAnswer cb msg).sizeGb = msg.sizeGb := by
  by_cases hsize : msg.sizeGb = 0
  · simp [doneAnswer, Manager.finishEvict, Manager.isSendDone,
      Manager.RemoteChunkList.clientRecvStop, hsize]
  · simp [doneAnswer, Manager.finishEvict, Manager.isSendDone,
      Manager.RemoteChunkList.clientRecvStop, hsize]

/-- A `STOP` with the right size is answered by a `DONE` with the right size. -/
theorem doneCounts_of_size (cb : Manager.KernelCb) {msg : Message}
    (hcount : msg.sizeGb = countWhere msg.flagged) (hsize : msg.sizeGb ≠ 0) :
    DoneCounts (doneAnswer cb msg) := by
  have hsame : (doneAnswer cb msg).sizeGb = countWhere (doneAnswer cb msg).flagged := by
    rw [doneAnswer_sizeGb, countWhere_congr (doneAnswer_flagged cb hsize)]
    exact hcount
  refine ⟨hsame, fun m m' c conn hrecv hdone => ?_⟩
  rw [← hsame, ← hrecv]
  obtain ⟨-, rfl⟩ := recvDone_cases hdone
  exact ⟨rfl, rfl, _, putConn_conns_self .., rfl⟩

/-! ## The selection -/

/-- `send_list` when the `EVICT` messages have gone out. -/
def sendMarks (selected : ConnIx → Bool) (c : ConnIx) : SendMark :=
  if selected c then .evict else .none

/-- The collection leaves empty buffers on the connections that were sent `EVICT`. -/
theorem collectActivity_cleared {sendList : ConnIx → SendMark} {l : List ConnIx}
    (hnodup : l.Nodup) {m m' : Session} {entries entries' : List ChunkActivity}
    (hcollect : collectActivity sendList l (m, entries) = some (m', entries')) :
    m'.connMap = m.connMap ∧ (∀ c, c ∉ l → m'.conns c = m.conns c) ∧
      ∀ c ∈ l, sendList c = .evict → ∃ conn, m'.conns c = some conn ∧
        conn.sendMsg.sizeGb = 0 ∧ conn.sendMsg.rkey = fun _ => 0 := by
  induction l generalizing m entries with
  | nil =>
      obtain ⟨rfl, rfl⟩ := Prod.mk.inj (Option.some.inj hcollect)
      exact ⟨rfl, fun _ _ => rfl, fun c hc => by cases hc⟩
  | cons d rest ih =>
      obtain ⟨hd, hrest⟩ := List.nodup_cons.mp hnodup
      unfold collectActivity at hcollect
      split at hcollect
      · rename_i hmark
        split at hcollect
        · cases hcollect
        · rename_i conn hconn
          obtain ⟨hbound, hothers, hcleared⟩ := ih hrest hcollect
          refine ⟨hbound, fun c hc => ?_, fun c hc hevict => ?_⟩
          · have hne : c ≠ d := fun heq => hc (heq ▸ List.mem_cons_self)
            rw [hothers c fun hmem => hc (List.mem_cons_of_mem d hmem), putConn_conns_of_ne hne]
          · rcases List.mem_cons.mp hc with rfl | hc
            · exact ⟨_, (hothers c hd).trans (putConn_conns_self ..), rfl, rfl⟩
            · exact hcleared c hc hevict
      · rename_i hmark
        obtain ⟨hbound, hothers, hcleared⟩ := ih hrest hcollect
        refine ⟨hbound, fun c hc => hothers c fun hmem => hc (List.mem_cons_of_mem d hmem),
          fun c hc hevict => ?_⟩
        rcases List.mem_cons.mp hc with rfl | hc
        · exact absurd hevict hmark
        · exact hcleared c hc hevict

/-- The victims of a connection, counted as the selection counts them. -/
def victimCount (victims : List (ConnIx × ChunkIx)) (c : ConnIx) : Nat :=
  victims.countP fun v => decide (v.1 = c)

theorem victimCount_append (victims : List (ConnIx × ChunkIx)) (c d : ConnIx) (i : ChunkIx) :
    victimCount (victims ++ [(d, i)]) c = victimCount victims c + if d = c then 1 else 0 := by
  simp [victimCount, List.countP_append, List.countP_cons]

/-- A message that flags the victims of a connection flags as many as there are. -/
theorem countWhere_flagged {victims : List (ConnIx × ChunkIx)} (hnodup : victims.Nodup)
    {c : ConnIx} {p : ChunkIx → Bool} (hflags : ∀ i, p i = true ↔ (c, i) ∈ victims) :
    countWhere p = victimCount victims c := by
  have hset : (Finset.univ.filter fun i => p i = true) =
      ((victims.filter fun v => decide (v.1 = c)).map Prod.snd).toFinset := by
    ext i
    simp [hflags]
  have hdistinct : ((victims.filter fun v => decide (v.1 = c)).map Prod.snd).Nodup := by
    refine List.Nodup.map_on ?_ (hnodup.filter _)
    rintro ⟨d, i⟩ hd ⟨e, k⟩ he hik
    have hd' : d = c := by simpa using (List.mem_filter.mp hd).2
    have he' : e = c := by simpa using (List.mem_filter.mp he).2
    rw [hd', he', show i = k from hik]
  rw [countWhere, hset, List.toFinset_card_of_nodup hdistinct, List.length_map, victimCount,
    List.countP_eq_length_filter]

/-- The buffers while chunks are selected: every connection that was sent `EVICT` has its
victims flagged and counted. -/
structure Selecting (connMap : ChunkIx → Option ConnIx) (sendList : ConnIx → SendMark)
    (s : StopRun) : Prop where
  bound : s.m.connMap = connMap
  buf : ∀ c, sendList c = .evict → ∃ conn, s.m.conns c = some conn ∧
    (∀ i, conn.sendMsg.flagged i = true ↔ (c, i) ∈ s.victims) ∧
    conn.sendMsg.sizeGb = victimCount s.victims c
  marks : ∀ c, s.sendList c =
    if sendList c = .evict ∧ 0 < victimCount s.victims c then .stop else sendList c
  last : ∀ c, s.connIndex = some c → 0 < victimCount s.victims c
  any : ∀ c, 0 < victimCount s.victims c → s.connIndex ≠ none
  idle : s.slot = 0 ∧ s.waiting = none ∧ s.sent = []

theorem Selecting.selectVictim {connMap : ChunkIx → Option ConnIx} {sendList : ConnIx → SendMark}
    {s s' : StopRun} {i : ChunkIx} (h : Selecting connMap sendList s)
    (hstep : selectVictim s i = some s') :
    ∃ c, connMap i = some c ∧ s'.victims = s.victims ++ [(c, i)] ∧
      (sendList c = .evict → Selecting connMap sendList s') := by
  obtain ⟨c, hc, hrest⟩ := Option.bind_eq_some_iff.mp hstep
  obtain ⟨conn, hconn, rfl⟩ := Option.map_eq_some_iff.mp hrest
  rw [h.bound] at hc
  refine ⟨c, hc, rfl, fun hmark => ?_⟩
  refine ⟨h.bound, ?_, ?_, ?_, fun _ _ => Option.some_ne_none c, h.idle⟩
  · intro d hd
    obtain ⟨conn', hconn', hflags, hsize⟩ := h.buf d hd
    by_cases hdc : d = c
    · subst hdc
      obtain rfl := Option.some.inj (hconn.symm.trans hconn')
      refine ⟨_, putConn_conns_self .., fun k => ?_, ?_⟩
      · have hold := hflags k
        by_cases hk : k = i
        · subst hk
          simp [Message.flagged]
        · simpa [Message.flagged, hk] using hold
      · rw [victimCount_append, if_pos rfl]
        push_cast
        exact congrArg (· + 1) hsize
    · refine ⟨conn', (putConn_conns_of_ne hdc).trans hconn', fun k => ?_, ?_⟩
      · have hne : ¬ (d, k) = (c, i) := fun heq => hdc (Prod.mk.inj heq).1
        rw [hflags k, List.mem_append, List.mem_singleton, or_iff_left hne]
      · rw [victimCount_append, if_neg (Ne.symm hdc), Nat.add_zero]
        exact hsize
  · intro d
    show (if s.sendList c = .evict then Function.update s.sendList c .stop else s.sendList) d = _
    have hold := h.marks d
    by_cases hdc : d = c
    · subst hdc
      have hpos : 0 < victimCount (s.victims ++ [(d, i)]) d := by
        rw [victimCount_append, if_pos rfl]
        exact Nat.succ_pos _
      rw [if_pos (show sendList d = .evict ∧ 0 < victimCount (s.victims ++ [(d, i)]) d from
        ⟨hmark, hpos⟩)]
      split
      · rw [Function.update_self]
      · rename_i hnot
        split at hold
        · exact hold
        · exact absurd (hold.trans hmark) hnot
    · have hcount : victimCount (s.victims ++ [(c, i)]) d = victimCount s.victims d := by
        rw [victimCount_append, if_neg (Ne.symm hdc), Nat.add_zero]
      show _ = if sendList d = .evict ∧ 0 < victimCount (s.victims ++ [(c, i)]) d then _ else _
      rw [hcount, ← hold]
      split
      · rw [Function.update_of_ne hdc]
      · rfl
  · intro d hd
    obtain rfl := Option.some.inj hd
    rw [victimCount_append, if_pos rfl]
    exact Nat.succ_pos _

/-- The whole selection. -/
theorem Selecting.selectVictims {connMap : ChunkIx → Option ConnIx}
    {sendList : ConnIx → SendMark} {picks : List ChunkIx} {s s' : StopRun}
    (h : Selecting connMap sendList s)
    (hmarked : ∀ i ∈ picks, ∀ c, connMap i = some c → sendList c = .evict)
    (hsel : selectVictims s picks = some s') :
    Selecting connMap sendList s' ∧ s'.victims.map Prod.snd = s.victims.map Prod.snd ++ picks ∧
      ∀ c, victimCount s'.victims c = victimCount s.victims c + share connMap picks c := by
  induction picks generalizing s with
  | nil =>
      obtain rfl := Option.some.inj hsel
      exact ⟨h, by simp, fun c => rfl⟩
  | cons i rest ih =>
      obtain ⟨u, hu, hrest⟩ := Option.bind_eq_some_iff.mp hsel
      obtain ⟨c, hc, hvictims, hnext⟩ := h.selectVictim hu
      have hinv := hnext (hmarked i List.mem_cons_self c hc)
      obtain ⟨hfinal, hpicks, hcount⟩ :=
        ih hinv (fun k hk => hmarked k (List.mem_cons_of_mem i hk)) hrest
      refine ⟨hfinal, ?_, fun d => ?_⟩
      · rw [hpicks, hvictims]
        simp
      · rw [hcount, hvictims, victimCount_append, share, share, List.countP_cons, hc]
        simp only [Option.some.injEq, decide_eq_true_eq]
        omega

theorem selecting_start {m m₁ : Session} {sendList : ConnIx → SendMark} {list : EvictList}
    (hcollect : evictCollect m sendList = some (m₁, list)) :
    Selecting m.connMap sendList (stopRunStart m₁ sendList) := by
  obtain ⟨hbound, hcleared⟩ : m₁.connMap = m.connMap ∧ ∀ c, sendList c = .evict →
      ∃ conn, m₁.conns c = some conn ∧ conn.sendMsg.sizeGb = 0 ∧
        conn.sendMsg.rkey = fun _ => 0 := by
    unfold evictCollect at hcollect
    split at hcollect
    · cases hcollect
    · obtain ⟨⟨m', entries⟩, hloop, heq⟩ := Option.map_eq_some_iff.mp hcollect
      obtain ⟨rfl, -⟩ := Prod.mk.inj heq
      obtain ⟨hbound, -, hcleared⟩ := collectActivity_cleared (List.nodup_finRange _) hloop
      exact ⟨hbound, fun c => hcleared c (List.mem_finRange c)⟩
  refine ⟨hbound, fun c hc => ?_, fun c => ?_, fun c hc => ?_, fun c hc => ?_, rfl, rfl, rfl⟩
  · obtain ⟨conn, hconn, hsize, hrkey⟩ := hcleared c hc
    refine ⟨conn, hconn, fun i => ?_, hsize⟩
    simp [Message.flagged, hrkey, stopRunStart]
  · exact (if_neg fun hand => absurd hand.2 (Nat.lt_irrefl 0)).symm
  · cases hc
  · exact absurd hc (Nat.lt_irrefl 0)

/-! ## The sends -/

/-- Writing a connection back with its flags as they were. -/
theorem putConn_sendMsg {m base : Session} {c : ConnIx} {conn₀ conn' : Connection}
    {msg : Message} (hc : m.conns c = some conn₀) (hbase : base.conns = m.conns)
    (hrkey : conn'.sendMsg.rkey = conn₀.sendMsg.rkey)
    (hsize : msg.type ≠ .query → conn'.sendMsg.sizeGb = conn₀.sendMsg.sizeGb) :
    (∀ d, d ≠ c → (base.putConn c conn').conns d = m.conns d) ∧
      ∀ conn, m.conns c = some conn → ∃ next, (base.putConn c conn').conns c = some next ∧
        (msg.type ≠ .bind → msg.type ≠ .bindSingle →
          next.sendMsg.rkey = conn.sendMsg.rkey) ∧
        (msg.type ≠ .query → msg.type ≠ .bind → msg.type ≠ .bindSingle →
          next.sendMsg.sizeGb = conn.sendMsg.sizeGb) := by
  refine ⟨fun d hd => (putConn_conns_of_ne hd).trans (congrFun hbase d), fun conn hconn => ?_⟩
  obtain rfl := Option.some.inj (hc.symm.trans hconn)
  exact ⟨conn', putConn_conns_self .., fun _ _ => hrkey, fun hquery _ _ => hsize hquery⟩

/-- A received message touches the send buffer of its own connection only, the flags only
when it binds, the size only when it binds or asks. -/
theorem onCompletion_sendMsg {m : Session} {c : ConnIx} {msg : Message} {mr : ChunkIx → Mr}
    {r : Session × Option Message} (hrecv : onCompletion mr c msg m = some r) :
    (∀ d, d ≠ c → r.1.conns d = m.conns d) ∧
      ∀ conn, m.conns c = some conn → ∃ conn', r.1.conns c = some conn' ∧
        (msg.type ≠ .bind → msg.type ≠ .bindSingle →
          conn'.sendMsg.rkey = conn.sendMsg.rkey) ∧
        (msg.type ≠ .query → msg.type ≠ .bind → msg.type ≠ .bindSingle →
          conn'.sendMsg.sizeGb = conn.sendMsg.sizeGb) := by
  obtain ⟨conn₀, hc, conn, rfl, hcase⟩ := onCompletion_cases hrecv
  rcases hcase with ⟨ht, hr, -⟩ | ⟨ht, hr, -⟩ | ⟨ht, hr, -⟩ | ⟨ht, hr, -⟩ | ⟨ht, hr, -⟩ |
    ⟨ht, hdone, -⟩
  · rw [hr]
    exact putConn_sendMsg hc rfl rfl fun hquery => absurd ht hquery
  · rw [hr]
    refine ⟨fun d hd => ?_, fun conn hconn => ⟨_, putConn_conns_self .., ?_, ?_⟩⟩
    · have hloop := doFirst_invariant msg.sizeGb (fun st => st.1.freeChunk) (bindChunk mr)
        (I := fun st _ => st.1.conns = m.conns) (fun _ _ _ hst _ => hst)
        (List.finRange maxMrSizeGb) 0
        (m, ({ conn₀ with recvMsg := msg } : Connection).clearReply msg.sizeGb) rfl
      exact (putConn_conns_of_ne hd).trans (congrFun hloop d)
    · exact fun hbind => absurd ht hbind
    · exact fun _ hbind => absurd ht hbind
  · rw [hr]
    refine ⟨fun d hd => ?_, fun conn hconn => ⟨_, putConn_conns_self .., ?_, ?_⟩⟩
    · cases hfind : (List.finRange maxMrSizeGb).find? m.freeChunk with
      | none =>
          rw [sendSingleMr, hfind]
          exact putConn_conns_of_ne hd
      | some i =>
          rw [sendSingleMr, hfind]
          exact putConn_conns_of_ne hd
    · exact fun _ hsingle => absurd ht hsingle
    · exact fun _ _ hsingle => absurd ht hsingle
  · rw [hr]
    exact putConn_sendMsg hc rfl rfl fun _ => rfl
  · rw [hr]
    exact putConn_sendMsg hc rfl rfl fun _ => rfl
  · rw [(recvDone_cases hdone).2]
    exact putConn_sendMsg hc rfl rfl fun _ => rfl

/-- While the `STOP`s go out: the buffers that are still to be sent flag the victims, and
the buffer the size is read from holds the number every connection has lost. -/
structure StopInv (s : StopRun) : Prop where
  distinct : s.victims.Nodup
  buf : ∀ c : ConnIx, s.slot ≤ c.val → s.sendList c ≠ .none →
    ∃ conn, s.m.conns c = some conn ∧ ∀ i, conn.sendMsg.flagged i = true ↔ (c, i) ∈ s.victims
  spared : ∀ c, s.sendList c = .evict → victimCount s.victims c = 0
  size : ∀ d : ConnIx, s.slot ≤ d.val → s.sendList d = .stop →
    ∃ c conn, s.connIndex = some c ∧ s.m.conns c = some conn ∧
      conn.sendMsg.sizeGb = victimCount s.victims d
  last : ∀ c, s.connIndex = some c → s.sendList c ≠ .evict
  sent : StopsMatch s

theorem stopInv_of_selecting {connMap : ChunkIx → Option ConnIx} {selected : ConnIx → Bool}
    {picks : List ChunkIx} {s : StopRun} (h : Selecting connMap (sendMarks selected) s)
    (hpicks : s.victims.map Prod.snd = picks)
    (hcount : ∀ c, victimCount s.victims c = share connMap picks c)
    (heven : EvenVictims connMap (sendMarks selected) picks) : StopInv s := by
  have hmarks : ∀ c, s.sendList c ≠ .none → sendMarks selected c = .evict := by
    intro c hc
    rw [h.marks c] at hc
    split at hc
    · rename_i hand
      exact hand.1
    · revert hc
      unfold sendMarks
      split
      · exact fun _ => rfl
      · exact fun hc => absurd rfl hc
  have hpick : ∀ c, 0 < victimCount s.victims c → ∃ i ∈ picks, connMap i = some c := by
    intro c hc
    rw [hcount, share, List.countP_pos_iff] at hc
    obtain ⟨i, hi, hic⟩ := hc
    exact ⟨i, hi, of_decide_eq_true hic⟩
  obtain ⟨hslot, -, hsent⟩ := h.idle
  refine ⟨?_, ?_, ?_, ?_, ?_, ?_⟩
  · refine List.Nodup.of_map Prod.snd ?_
    rw [hpicks]
    exact heven.distinct
  · intro c _ hc
    obtain ⟨conn, hconn, hflags, -⟩ := h.buf c (hmarks c hc)
    exact ⟨conn, hconn, hflags⟩
  · intro c hc
    have hevict := hmarks c (by rw [hc]; exact SendMark.noConfusion)
    have hmark := h.marks c
    by_contra hne
    rw [if_pos ⟨hevict, Nat.pos_of_ne_zero hne⟩, hc] at hmark
    cases hmark
  · intro d _ hd
    have hevict := hmarks d (by rw [hd]; exact SendMark.noConfusion)
    have hmark := h.marks d
    rw [hd] at hmark
    have hpos : 0 < victimCount s.victims d := by
      by_contra hzero
      rw [if_neg fun hand => hzero hand.2, hevict] at hmark
      cases hmark
    obtain ⟨c, hc⟩ := Option.ne_none_iff_exists'.mp (h.any d hpos)
    obtain ⟨i, hi, hic⟩ := hpick c (h.last c hc)
    obtain ⟨k, hk, hkd⟩ := hpick d hpos
    obtain ⟨conn, hconn, -, hsize⟩ := h.buf c (heven.marked i hi c hic)
    refine ⟨c, conn, hc, hconn, hsize.trans ?_⟩
    rw [hcount, hcount, heven.even i hi k hk c d hic hkd]
  · intro c hc hevict
    obtain ⟨i, hi, hic⟩ := hpick c (h.last c hc)
    have hmark := h.marks c
    rw [if_pos ⟨heven.marked i hi c hic, h.last c hc⟩, hevict] at hmark
    cases hmark
  · intro c msg hmem
    rw [hsent] at hmem
    cases hmem

namespace StopInv

variable {s s' : StopRun}

/-- Another session in which the buffers still needed say the same. -/
theorem session (h : StopInv s) (m : Session) (waiting : Option ConnIx)
    (hflags : ∀ c : ConnIx, s.slot ≤ c.val → s.sendList c ≠ .none → ∀ conn,
      s.m.conns c = some conn →
        ∃ conn', m.conns c = some conn' ∧ conn'.sendMsg.rkey = conn.sendMsg.rkey)
    (hsize : ∀ c, s.connIndex = some c →
      (∃ d : ConnIx, s.slot ≤ d.val ∧ s.sendList d = .stop) → ∀ conn, s.m.conns c = some conn →
        ∃ conn', m.conns c = some conn' ∧ conn'.sendMsg.sizeGb = conn.sendMsg.sizeGb) :
    StopInv { s with m := m, waiting := waiting } := by
  refine ⟨h.distinct, fun c hslot hc => ?_, h.spared, fun d hslot hd => ?_, h.last, h.sent⟩
  · obtain ⟨conn, hconn, hvictims⟩ := h.buf c hslot hc
    obtain ⟨conn', hconn', hrkey⟩ := hflags c hslot hc conn hconn
    refine ⟨conn', hconn', fun i => ?_⟩
    rw [Message.flagged, hrkey]
    exact hvictims i
  · obtain ⟨c, conn, hc, hconn, hcount⟩ := h.size d hslot hd
    obtain ⟨conn', hconn', hsame⟩ := hsize c hc ⟨d, hslot, hd⟩ conn hconn
    exact ⟨c, conn', hc, hconn', hsame.trans hcount⟩

/-- A `STOP` goes out with the flags and the number of the victims. -/
theorem sendStop (h : StopInv s) {c : ConnIx} (hslot : c.val = s.slot)
    (hmark : s.sendList c ≠ .none) {n : Int} (hn : n = victimCount s.victims c)
    (hkeep : s.connIndex = some c → ∀ conn, s.m.conns c = some conn → conn.sendMsg.sizeGb = n)
    (hsend : Monitor.sendStop s c n = some s') : StopInv s' := by
  obtain ⟨conn, hconn, rfl⟩ := Option.map_eq_some_iff.mp hsend
  obtain ⟨conn', hconn', hflags⟩ := h.buf c hslot.ge hmark
  obtain rfl := Option.some.inj (hconn.symm.trans hconn')
  have hcount : n = countWhere conn.sendMsg.flagged :=
    hn.trans (congrArg Nat.cast (countWhere_flagged h.distinct hflags).symm)
  have hlater : ∀ d : ConnIx, s.slot + 1 ≤ d.val → d ≠ c := by
    rintro d hd rfl
    omega
  refine ⟨h.distinct, fun d hd hdm => ?_, h.spared, fun d hd hdm => ?_, h.last, ?_⟩
  · obtain ⟨other, hother, hvictims⟩ := h.buf d (Nat.le_of_succ_le hd) hdm
    exact ⟨other, (putConn_conns_of_ne (hlater d hd)).trans hother, hvictims⟩
  · obtain ⟨e, other, he, hother, hsize⟩ := h.size d (Nat.le_of_succ_le hd) hdm
    by_cases hec : e = c
    · subst hec
      obtain rfl := Option.some.inj (hconn.symm.trans hother)
      refine ⟨e, _, he, putConn_conns_self .., ?_⟩
      exact (hkeep he conn hconn).symm.trans hsize
    · exact ⟨e, other, he, (putConn_conns_of_ne hec).trans hother, hsize⟩
  · intro d msg hmem
    rcases List.mem_append.mp hmem with hold | hnew
    · exact h.sent d msg hold
    · obtain ⟨rfl, rfl⟩ := Prod.mk.inj (List.mem_singleton.mp hnew)
      exact ⟨rfl, hflags, hcount, fun hne cb => doneCounts_of_size cb hcount hne⟩

theorem next (h : StopInv s) (hstep : stopStep s .next = some s') : StopInv s' := by
  simp only [stopStep] at hstep
  split at hstep
  · rename_i hready
    split at hstep
    · obtain rfl := Option.some.inj hstep
      exact ⟨h.distinct, fun c hc => h.buf c (Nat.le_of_succ_le hc), h.spared,
        fun d hd => h.size d (Nat.le_of_succ_le hd), h.last, h.sent⟩
    · rename_i hmark
      refine h.sendStop rfl (by rw [hmark]; exact SendMark.noConfusion) ?_ ?_ hstep
      · rw [h.spared _ hmark]
        rfl
      · exact fun hlast => absurd hmark (h.last _ hlast)
    · rename_i hmark
      obtain ⟨conn, hconn, hsend⟩ := Option.bind_eq_some_iff.mp hstep
      obtain ⟨c, other, hc, hother, hsize⟩ := h.size ⟨s.slot, hready.1⟩ le_rfl hmark
      rw [hc, Option.bind_some] at hconn
      obtain rfl := Option.some.inj (hconn.symm.trans hother)
      refine h.sendStop rfl (by rw [hmark]; exact SendMark.noConfusion) hsize ?_ hsend
      intro hlast conn' hconn'
      obtain rfl := Option.some.inj (hc.symm.trans hlast)
      rw [Option.some.inj (hconn.symm.trans hconn')]
  · cases hstep

theorem wake (h : StopInv s) (hstep : stopStep s .wake = some s') : StopInv s' := by
  obtain ⟨c, -, hrest⟩ := Option.bind_eq_some_iff.mp hstep
  obtain ⟨conn, hconn, hif⟩ := Option.bind_eq_some_iff.mp hrest
  split at hif
  · obtain rfl := Option.some.inj hif
    -- the buffers are as they were
    have hsame : ∀ d other, s.m.conns d = some other → ∃ other',
        (s.m.putConn c { conn with stopSem := conn.stopSem - 1 }).conns d = some other' ∧
          other'.sendMsg = other.sendMsg := by
      intro d other hother
      by_cases hd : d = c
      · subst hd
        obtain rfl := Option.some.inj (hconn.symm.trans hother)
        exact ⟨_, putConn_conns_self .., rfl⟩
      · exact ⟨other, (putConn_conns_of_ne hd).trans hother, rfl⟩
    refine h.session _ none (fun d _ _ other hother => ?_) (fun d _ _ other hother => ?_)
    · obtain ⟨other', hother', hmsg⟩ := hsame d other hother
      exact ⟨other', hother', by rw [hmsg]⟩
    · obtain ⟨other', hother', hmsg⟩ := hsame d other hother
      exact ⟨other', hother', by rw [hmsg]⟩
  · cases hif

/-- A message handled on another connection, or one that leaves the buffer alone. -/
theorem recv (h : StopInv s) {c : ConnIx} {msg : Message} {mr : ChunkIx → Mr}
    (hundisturbed : Undisturbed s (.recv c msg mr))
    (hstep : stopStep s (.recv c msg mr) = some s') : StopInv s' := by
  obtain ⟨r, hr, rfl⟩ := Option.map_eq_some_iff.mp hstep
  obtain ⟨hothers, hself⟩ := onCompletion_sendMsg hr
  refine h.session r.1 s.waiting (fun d hslot hmark other hother => ?_)
    (fun d hlast hleft other hother => ?_)
  · by_cases hd : d = c
    · subst hd
      obtain ⟨hbind, hsingle⟩ := hundisturbed.1 hslot hmark
      obtain ⟨other', hother', hrkey, -⟩ := hself other hother
      exact ⟨other', hother', hrkey hbind hsingle⟩
    · exact ⟨other, (hothers d hd).trans hother, rfl⟩
  · by_cases hd : d = c
    · subst hd
      obtain ⟨hquery, hbind, hsingle⟩ := hundisturbed.2 hlast hleft
      obtain ⟨other', hother', -, hsize⟩ := hself other hother
      exact ⟨other', hother', hsize hquery hbind hsingle⟩
    · exact ⟨other, (hothers d hd).trans hother, rfl⟩

theorem step {a : StopAction} (h : StopInv s) (hundisturbed : Undisturbed s a)
    (hstep : stopStep s a = some s') : StopInv s' := by
  cases a with
  | next => exact h.next hstep
  | wake => exact h.wake hstep
  | recv c msg mr => exact h.recv hundisturbed hstep

end StopInv

/-! ## Whole runs -/

/-- After an even selection, in every run in which the other thread leaves the buffers
alone that are still needed, every `STOP` says what was selected for its connection. -/
theorem stop_messages_match {m m₁ : Session} {selected : ConnIx → Bool} {list : EvictList}
    {j : Nat} {memory : List ChunkActivity} {s₀ s : StopRun}
    (hcollect : evictCollect m (sendMarks selected) = some (m₁, list))
    (hselect : evictSelect m₁ (sendMarks selected) j memory = some s₀)
    (heven : EvenVictims m.connMap (sendMarks selected) (victimOrder j memory))
    (hrun : Reach stopStep Undisturbed s₀ s) : StopsMatch s := by
  have hsel : selectVictims (stopRunStart m₁ (sendMarks selected)) (victimOrder j memory) =
      some s₀ := by
    unfold evictSelect at hselect
    split at hselect
    · exact hselect
    · cases hselect
  obtain ⟨hinv, hpicks, hcount⟩ := (selecting_start hcollect).selectVictims heven.marked hsel
  have hstart : StopInv s₀ := by
    refine stopInv_of_selecting hinv (hpicks.trans rfl) (fun c => ?_) heven
    rw [hcount]
    exact Nat.zero_add _
  exact (hrun.invariant hstart fun _ _ _ hu hundisturbed hstep => hu.step hundisturbed hstep).sent

/-! ## Two clients -/

/-- Three chunks; the first client has bound two of them and the second one. -/
def twoClients : Option Session :=
  runActions Monitor.step (rdmaSessionInit 13)
    [.connect (.plain .done 0) (.plain .done 0), .connect (.plain .done 0) (.plain .done 0),
      .receive 0 (.plain .bindSingle 0) (fun _ => ⟨0, 1⟩),
      .receive 0 (.plain .bindSingle 1) (fun _ => ⟨0, 1⟩),
      .receive 1 (.plain .bindSingle 0) (fun _ => ⟨0, 1⟩)]

/-- Both clients are sent `EVICT`. -/
def bothClients (c : ConnIx) : Bool := decide (c.val < 2)

/-- From the collection to some way into the sends. -/
def evictRun (j : Nat) (memory : List ChunkActivity) (actions : List StopAction) :
    Option StopRun :=
  twoClients.bind fun m =>
    (evictCollect m (sendMarks bothClients)).bind fun r =>
      (evictSelect r.1 (sendMarks bothClients) j memory).bind fun s => runActions stopStep s actions

instance (s : StopRun) (a : StopAction) : Decidable (Undisturbed s a) :=
  match a with
  | .recv c _ _ => inferInstanceAs (Decidable ((s.slot ≤ c.val → _ → _) ∧ (_ → _ → _)))
  | .next | .wake => isTrue trivial

/-- A query of the first client, `STOP` to it, its `DONE`, and `STOP` to the second. -/
def stopBoth : List StopAction :=
  [.recv 0 (.plain .query 0) (fun _ => ⟨0, 1⟩), .next,
    .recv 0 { Message.plain .done 1 with rkey := fun i => if i = 0 then 1 else 0 }
      (fun _ => ⟨0, 1⟩),
    .wake, .next]

theorem stop_messages_match_stopBoth :
    ∃ s, evictRun 2 [⟨1, 0⟩, ⟨2, 2⟩] stopBoth = some s ∧ s.sent.length = 2 ∧ StopsMatch s := by
  have hrun : ((evictRun 2 [⟨1, 0⟩, ⟨2, 2⟩] stopBoth).map fun s => s.sent.length) = some 2 := by
    decide +kernel
  obtain ⟨s, hs, hlen⟩ := Option.map_eq_some_iff.mp hrun
  obtain ⟨m, hm, hrest⟩ := Option.bind_eq_some_iff.mp hs
  obtain ⟨r, hr, hrest⟩ := Option.bind_eq_some_iff.mp hrest
  obtain ⟨s₀, hs₀, hactions⟩ := Option.bind_eq_some_iff.mp hrest
  have hmeet : ∀ s ∈ evictRun 2 [⟨1, 0⟩, ⟨2, 2⟩] [],
      AllMeet stopStep Undisturbed s stopBoth := by
    decide +kernel
  have howners : ∀ m ∈ twoClients, m.connMap 0 = some 0 ∧ m.connMap 2 = some 1 := by
    decide +kernel
  obtain ⟨hfirst, hsecond⟩ := howners m hm
  have horder : victimOrder 2 [⟨1, 0⟩, ⟨2, 2⟩] = [0, 2] := by
    decide +kernel
  have hshare : ∀ c, (c = 0 ∨ c = 1) → share m.connMap (victimOrder 2 [⟨1, 0⟩, ⟨2, 2⟩]) c = 1 := by
    rw [horder]
    rintro c (rfl | rfl) <;> simp [share, hfirst, hsecond, maxClient]
  have howner : ∀ i, i ∈ victimOrder 2 [⟨1, 0⟩, ⟨2, 2⟩] → ∀ c, m.connMap i = some c →
      c = 0 ∨ c = 1 := by
    intro i hi c hc
    rw [horder] at hi
    rcases List.mem_pair.mp hi with rfl | rfl
    · rw [hfirst] at hc
      exact Or.inl (Option.some.inj hc).symm
    · rw [hsecond] at hc
      exact Or.inr (Option.some.inj hc).symm
  refine ⟨s, hs, hlen, stop_messages_match hr hs₀ ⟨by decide +kernel, ?_, ?_⟩
    (reach_of_runActions hactions (hmeet s₀ ?_))⟩
  · intro i hi c hc
    rcases howner i hi c hc with rfl | rfl <;> rfl
  · intro i hi k hk c d hc hd
    rw [hshare c (howner i hi c hc), hshare d (howner k hk d hd)]
  · simp [evictRun, hm, hr, hs₀, runActions]

/-- The first client loses two chunks and the second one: the `STOP` to the first flags
two and announces one. -/
theorem stop_size_of_other_client :
    ∃ s c msg, evictRun 3 [⟨1, 0⟩, ⟨2, 1⟩, ⟨3, 2⟩] [.next] = some s ∧ (c, msg) ∈ s.sent ∧
      (∀ i, msg.flagged i = true ↔ (c, i) ∈ s.victims) ∧ msg.sizeGb = 1 ∧
      countWhere msg.flagged = 2 ∧ ¬ StopsMatch s := by
  have hrun : ((evictRun 3 [⟨1, 0⟩, ⟨2, 1⟩, ⟨3, 2⟩] [.next]).map fun s =>
      decide (∃ e ∈ s.sent, (∀ i, e.2.flagged i = true ↔ (e.1, i) ∈ s.victims) ∧
        e.2.sizeGb = 1 ∧ countWhere e.2.flagged = 2)) = some true := by
    decide +kernel
  obtain ⟨s, hs, hsent⟩ := Option.map_eq_some_iff.mp hrun
  obtain ⟨⟨c, msg⟩, hmem, hflags, hsize, hcount⟩ := of_decide_eq_true hsent
  refine ⟨s, c, msg, hs, hmem, hflags, hsize, hcount, fun hmatch => ?_⟩
  have heq := (hmatch c msg hmem).size
  rw [hsize, hcount] at heq
  exact absurd heq (by decide)

end Hydra.Protocol
