/-
  Monitor/Accounting.lean --- the running totals of the resource monitor.

  `Consistent` ties every total to the table it summarises.  Each handler is shown
  to keep it, one lemma a handler; the two bind handlers do so exactly when the
  amount they add is the number of chunks their loop bound, which is a condition
  on the request and on the number of free chunks before it.
-/
import Mathlib.Algebra.BigOperators.Ring.Finset
import Mathlib.Data.Fintype.Fin
import Hydra.Monitor.Session
import Hydra.Foundation.Run

set_option autoImplicit false

namespace Hydra.Monitor

open Hydra.Foundation Hydra.Wire

/-! ## The invariant -/

/-- Tables and totals of the monitor agree. -/
structure Consistent (m : Session) : Prop where
  idle : ∀ c, m.connsState c = .idle ↔ m.conns c = none
  index : ∀ c conn, m.conns c = some conn → conn.connIndex = c
  sess : ∀ c conn, m.conns c = some conn →
    ∀ i j, conn.sessChunkMap i = some j ↔ j = i ∧ m.connMap i = some c
  owner : ∀ i c, m.connMap i = some c → m.conns c ≠ none
  backed : ∀ i, m.connMap i ≠ none → m.mallocMap i = .malloced
  size : m.sizeGb = m.mallocCount
  mapped : m.mappedSize = m.mapCount
  share : ∀ c conn, m.conns c = some conn → conn.mappedChunkSize = m.mapCountOf c

/-- What the totals are for: the size of the pool, of the bound part, of each
connection's share, and the free size the monitor reports. -/
structure Accounting (m : Session) : Prop where
  size : m.sizeGb = m.mallocCount
  nonneg : 0 ≤ m.sizeGb
  bounded : m.sizeGb ≤ maxFreeMemGb
  mapped : m.mappedSize = m.mapCount
  shares : m.mappedSize = ∑ c, ((m.conns c).map (·.mappedChunkSize)).getD 0
  backed : ∀ i, m.connMap i ≠ none → m.mallocMap i = .malloced
  reply : freeMemSize m = m.freeCount
  replyNonneg : 0 ≤ freeMemSize m

theorem mallocCount_le (m : Session) : (m.mallocCount : Int) ≤ maxFreeMemGb := by
  have hle := countWhere_le_card fun i => decide (m.mallocMap i = Alloc.malloced)
  rw [Fintype.card_fin] at hle
  exact Int.ofNat_le.mpr hle

/-- When every bound chunk is allocated, the free chunks are the difference of
the two counts. -/
theorem freeCount_add_mapCount {m : Session}
    (hbacked : ∀ i, m.connMap i ≠ none → m.mallocMap i = .malloced) :
    m.freeCount + m.mapCount = m.mallocCount := by
  have hsplit := countWhere_and_not_add
    (p := fun i => decide (m.mallocMap i = Alloc.malloced)) (q := fun i => (m.connMap i).isSome)
    (by
      intro i hi
      exact decide_eq_true (hbacked i (Option.isSome_iff_ne_none.mp hi)))
  have hfree : m.freeCount =
      countWhere fun i => decide (m.mallocMap i = Alloc.malloced) && !(m.connMap i).isSome := by
    apply countWhere_congr
    intro i
    cases h : m.connMap i <;> simp [Session.freeChunk, h]
  rw [hfree]
  exact hsplit

theorem Consistent.accounting {m : Session} (h : Consistent m) : Accounting m := by
  have hfree := freeCount_add_mapCount h.backed
  have hreply : freeMemSize m = m.freeCount := by
    have hsize := h.size
    have hmapped := h.mapped
    unfold freeMemSize
    omega
  refine ⟨h.size, ?_, ?_, h.mapped, ?_, h.backed, hreply, ?_⟩
  · have hsize := h.size
    omega
  · rw [h.size]
    exact mallocCount_le m
  · rw [h.mapped, Session.mapCount, countWhere_isSome_eq_sum, Nat.cast_sum]
    apply Finset.sum_congr rfl
    intro c _
    cases hc : m.conns c with
    | none =>
        have hzero : (countWhere fun i => decide (m.connMap i = some c)) = 0 := by
          rw [countWhere_eq_zero_iff]
          intro i
          exact decide_eq_false fun hi => h.owner i c hi hc
        simp [hzero]
    | some conn => exact (h.share c conn hc).symm
  · omega

/-! ## Frame lemmas -/

@[simp] theorem putConn_connMap (m : Session) (c : ConnIx) (conn : Connection) :
    (m.putConn c conn).connMap = m.connMap := rfl
@[simp] theorem putConn_mallocMap (m : Session) (c : ConnIx) (conn : Connection) :
    (m.putConn c conn).mallocMap = m.mallocMap := rfl
@[simp] theorem putConn_connsState (m : Session) (c : ConnIx) (conn : Connection) :
    (m.putConn c conn).connsState = m.connsState := rfl
@[simp] theorem putConn_conns_self (m : Session) (c : ConnIx) (conn : Connection) :
    (m.putConn c conn).conns c = some conn := by
  simp [Session.putConn]
theorem putConn_conns_of_ne {m : Session} {c d : ConnIx} {conn : Connection} (h : d ≠ c) :
    (m.putConn c conn).conns d = m.conns d := by
  simp [Session.putConn, h]

/-- One connection is written anew, and what is bound to the others stays theirs. -/
theorem Consistent.serve {m : Session} {c : ConnIx} {conn : Connection} (h : Consistent m)
    (m' : Session) (conn' : Connection) (hc : m.conns c = some conn)
    (hconns : m'.conns = Function.update m.conns c (some conn'))
    (hidle : ∀ d, m'.connsState d = .idle ↔ m.connsState d = .idle)
    (hindex : conn'.connIndex = c)
    (hsess : ∀ i j, conn'.sessChunkMap i = some j ↔ j = i ∧ m'.connMap i = some c)
    (hothers : ∀ d, d ≠ c → ∀ i, (m'.connMap i = some d ↔ m.connMap i = some d))
    (hbacked : ∀ i, m'.connMap i ≠ none → m'.mallocMap i = .malloced)
    (hsize : m'.sizeGb = m'.mallocCount) (hmapped : m'.mappedSize = m'.mapCount)
    (hshare : conn'.mappedChunkSize = m'.mapCountOf c) : Consistent m' := by
  have hself : m'.conns c = some conn' := by rw [hconns, Function.update_self]
  have hother : ∀ d, d ≠ c → m'.conns d = m.conns d := by
    intro d hd
    rw [hconns, Function.update_of_ne hd]
  refine ⟨?_, ?_, ?_, ?_, hbacked, hsize, hmapped, ?_⟩
  · intro d
    rw [hidle, h.idle]
    by_cases hd : d = c
    · subst hd
      simp [hc, hself]
    · rw [hother d hd]
  · intro d other hd
    by_cases hdc : d = c
    · subst hdc
      rw [← Option.some.inj (hself.symm.trans hd)]
      exact hindex
    · exact h.index d other ((hother d hdc).symm.trans hd)
  · intro d other hd i j
    by_cases hdc : d = c
    · subst hdc
      rw [← Option.some.inj (hself.symm.trans hd)]
      exact hsess i j
    · rw [h.sess d other ((hother d hdc).symm.trans hd) i j, hothers d hdc i]
  · intro i d hi
    by_cases hdc : d = c
    · subst hdc
      simp [hself]
    · rw [hother d hdc]
      exact h.owner i d ((hothers d hdc i).mp hi)
  · intro d other hd
    by_cases hdc : d = c
    · subst hdc
      rw [← Option.some.inj (hself.symm.trans hd)]
      exact hshare
    · rw [h.share d other ((hother d hdc).symm.trans hd)]
      congr 1
      apply countWhere_congr
      intro i
      exact decide_eq_decide.mpr (hothers d hdc i).symm

/-- A handler that only touches message buffers and semaphores of a connection. -/
theorem Consistent.putConn {m : Session} (h : Consistent m) {c : ConnIx}
    {conn conn' : Connection} (hc : m.conns c = some conn)
    (hindex : conn'.connIndex = conn.connIndex)
    (hsess : conn'.sessChunkMap = conn.sessChunkMap)
    (hshare : conn'.mappedChunkSize = conn.mappedChunkSize) :
    Consistent (m.putConn c conn') := by
  refine h.serve _ conn' hc rfl (fun _ => Iff.rfl) (hindex.trans (h.index c conn hc)) ?_
    (fun _ _ _ => Iff.rfl) h.backed h.size h.mapped (hshare.trans (h.share c conn hc))
  intro i j
  rw [hsess]
  exact h.sess c conn hc i j

/-! ## Start -/

theorem countWhere_val_lt {n : Nat} (g : Int) (hnonneg : 0 ≤ g) (hle : g ≤ (n : Int)) :
    ((countWhere fun i : Fin n => decide ((i.val : Int) < g) : Nat) : Int) = g := by
  obtain ⟨k, rfl⟩ := Int.eq_ofNat_of_zero_le hnonneg
  have hk : k ≤ n := by exact_mod_cast hle
  have hcard : (countWhere fun i : Fin n => decide ((i.val : Int) < (k : Int))) = k := by
    have hset : (Finset.univ.filter fun i : Fin n => decide ((i.val : Int) < (k : Int)) = true) =
        Finset.univ.filter fun i : Fin n => i.val < k := by
      ext i
      simp
    rw [countWhere, hset, Fin.card_filter_val_lt]
    exact min_eq_right hk
  exact_mod_cast hcard

theorem initialSizeGb_bounds (freeMemG : Int) :
    0 ≤ initialSizeGb freeMemG ∧ initialSizeGb freeMemG ≤ maxFreeMemGb := by
  have hmax : maxFreeMemGb = 32 := rfl
  simp only [initialSizeGb, freeMemEvictThreshold, freeMemExpandThreshold, hmax]
  constructor <;> omega

theorem consistent_rdmaSessionInit (freeMemG : Int) : Consistent (rdmaSessionInit freeMemG) := by
  obtain ⟨hnonneg, hle⟩ := initialSizeGb_bounds freeMemG
  refine ⟨?_, ?_, ?_, ?_, ?_, ?_, ?_, ?_⟩
  · intro c
    simp [rdmaSessionInit]
  · intro c conn hc
    simp [rdmaSessionInit] at hc
  · intro c conn hc
    simp [rdmaSessionInit] at hc
  · intro i c hi
    simp [rdmaSessionInit] at hi
  · intro i hi
    simp [rdmaSessionInit] at hi
  · have hcount : (rdmaSessionInit freeMemG).mallocCount =
        countWhere fun i : ChunkIx => decide ((i.val : Int) < initialSizeGb freeMemG) := by
      apply countWhere_congr
      intro i
      by_cases hi : (i.val : Int) < initialSizeGb freeMemG <;> simp [rdmaSessionInit, hi]
    rw [hcount]
    exact (countWhere_val_lt _ hnonneg hle).symm
  · have hzero : (rdmaSessionInit freeMemG).mapCount = 0 := by
      rw [Session.mapCount, countWhere_eq_zero_iff]
      intro i
      rfl
    rw [hzero]
    rfl
  · intro c conn hc
    simp [rdmaSessionInit] at hc

/-! ## Connections -/

theorem Consistent.buildConnection {m m' : Session} {sendBuf recvBuf : Message}
    (h : Consistent m) (hbuild : buildConnection sendBuf recvBuf m = some m') :
    Consistent m' := by
  unfold Monitor.buildConnection at hbuild
  split at hbuild
  · cases hbuild
  · rename_i slot hfind
    have hidle : m.connsState slot = .idle := by simpa using List.find?_some hfind
    have hnone : m.conns slot = none := (h.idle slot).mp hidle
    have hunbound : ∀ i, m.connMap i ≠ some slot := fun i hi => h.owner i slot hi hnone
    obtain rfl := Option.some.inj hbuild
    refine ⟨?_, ?_, ?_, ?_, h.backed, h.size, h.mapped, ?_⟩
    · intro c
      by_cases hc : c = slot
      · subst hc
        simp
      · simpa [hc] using h.idle c
    · intro c conn hconn
      by_cases hc : c = slot
      · subst hc
        simp only [Function.update_self, Option.some.injEq] at hconn
        rw [← hconn]
      · simp only [Function.update_of_ne hc] at hconn
        exact h.index c conn hconn
    · intro c conn hconn i j
      by_cases hc : c = slot
      · subst hc
        simp only [Function.update_self, Option.some.injEq] at hconn
        rw [← hconn]
        simp [hunbound i]
      · simp only [Function.update_of_ne hc] at hconn
        exact h.sess c conn hconn i j
    · intro i c hi
      have hc : c ≠ slot := fun hc => hunbound i (hc ▸ hi)
      simpa [Function.update_of_ne hc] using h.owner i c hi
    · intro c conn hconn
      by_cases hc : c = slot
      · subst hc
        simp only [Function.update_self, Option.some.injEq] at hconn
        have hzero : m.mapCountOf c = 0 := by
          rw [Session.mapCountOf, countWhere_eq_zero_iff]
          intro i
          exact decide_eq_false (hunbound i)
        rw [← hconn]
        change (0 : Int) = (m.mapCountOf c : Int)
        rw [hzero]
        rfl
      · simp only [Function.update_of_ne hc] at hconn
        exact h.share c conn hconn

/-- Dropping one owner from the bound chunks leaves the other owners' counts and
takes its own share off the total. -/
theorem counts_drop_owner (connMap : ChunkIx → Option ConnIx) (c : ConnIx) :
    (countWhere fun i => (if connMap i = some c then none else connMap i).isSome) +
        (countWhere fun i => decide (connMap i = some c)) =
      countWhere fun i => (connMap i).isSome := by
  refine countWhere_clear (fun i => decide (connMap i = some c))
    (fun i hi => by simp [of_decide_eq_true hi]) fun i => ?_
  by_cases hi : connMap i = some c <;> simp [hi]

/-- The session `destroy_connection` leaves: exactly the other connections' chunks stay
bound, whichever branch is taken. -/
theorem Consistent.destroyConnection_eq {m m' : Session} {c : ConnIx} (h : Consistent m)
    (hdestroy : destroyConnection c m = some m') :
    m' =
      { m with
        conns := Function.update m.conns c none
        connsState := Function.update m.connsState c .idle
        connNum := m.connNum - 1
        running := if m.connNum - 1 = 0 then false else m.running
        connMap := fun i => if m.connMap i = some c then none else m.connMap i
        mappedSize := m.mappedSize - m.mapCountOf c } := by
  unfold Monitor.destroyConnection at hdestroy
  split at hdestroy
  · cases hdestroy
  · rename_i conn hc
    have hindex : conn.connIndex = c := h.index c conn hc
    have hshare := h.share c conn hc
    have hcleared : ∀ i, (if conn.mappedChunkSize > 0 then
        clearPicked conn.sessChunkMap none (List.finRange maxMrSizeGb) m.connMap
        else m.connMap) i = if m.connMap i = some c then none else m.connMap i := by
      intro i
      split
      · rw [clearPicked_finRange]
        have hiff : (∃ j, conn.sessChunkMap j = some i) ↔ m.connMap i = some c := by
          constructor
          · rintro ⟨j, hj⟩
            obtain ⟨rfl, hbound⟩ := (h.sess c conn hc j i).mp hj
            exact hbound
          · intro hbound
            exact ⟨i, (h.sess c conn hc i i).mpr ⟨rfl, hbound⟩⟩
        rw [if_congr hiff rfl rfl]
      · rename_i hpos
        have hzero : m.mapCountOf c = 0 := by omega
        have hnot : m.connMap i ≠ some c := by
          rw [Session.mapCountOf, countWhere_eq_zero_iff] at hzero
          exact of_decide_eq_false (hzero i)
        rw [if_neg hnot]
    have htotal : (if conn.mappedChunkSize > 0 then m.mappedSize - conn.mappedChunkSize
        else m.mappedSize) = m.mappedSize - m.mapCountOf c := by
      split <;> omega
    rw [← Option.some.inj hdestroy]
    rw [← htotal, ← funext hcleared, hindex]
    split <;> rfl

theorem Consistent.destroyConnection {m m' : Session} {c : ConnIx} (h : Consistent m)
    (hdestroy : destroyConnection c m = some m') : Consistent m' := by
  have hother : ∀ d, d ≠ c → ∀ i,
      ((if m.connMap i = some c then none else m.connMap i) = some d ↔ m.connMap i = some d) := by
    intro d hd i
    by_cases hi : m.connMap i = some c
    · simp [hi, Ne.symm hd]
    · simp [hi]
  obtain rfl := h.destroyConnection_eq hdestroy
  refine ⟨?_, ?_, ?_, ?_, ?_, h.size, ?_, ?_⟩
  · intro d
    by_cases hd : d = c
    · subst hd
      simp
    · simpa [hd] using h.idle d
  · intro d other hother'
    by_cases hd : d = c
    · subst hd
      simp at hother'
    · simp only [Function.update_of_ne hd] at hother'
      exact h.index d other hother'
  · intro d other hother' i j
    by_cases hd : d = c
    · subst hd
      simp at hother'
    · simp only [Function.update_of_ne hd] at hother'
      rw [h.sess d other hother' i j]
      exact and_congr_right fun _ => (hother d hd i).symm
  · intro i d hi
    by_cases hd : d = c
    · subst hd
      by_cases hbound : m.connMap i = some d <;> simp [hbound] at hi
    · simpa [Function.update_of_ne hd] using h.owner i d ((hother d hd i).mp hi)
  · intro i hi
    apply h.backed i
    intro hnone
    exact hi (by simp [hnone])
  · have hcount := counts_drop_owner m.connMap c
    have hmapped := h.mapped
    have hold : m.mapCount = countWhere fun i => (m.connMap i).isSome := rfl
    simp only [Session.mapCount, Session.mapCountOf] at *
    omega
  · intro d other hother'
    by_cases hd : d = c
    · subst hd
      simp at hother'
    · simp only [Function.update_of_ne hd] at hother'
      rw [h.share d other hother']
      congr 1
      apply countWhere_congr
      intro i
      exact decide_eq_decide.mpr (hother d hd i).symm

/-! ## Binding

The loop invariant of both bind handlers: `n` chunks went from free to this
connection, and nothing else moved. -/

/-- The state `st` of a bind loop that started from `m` and `conn`. -/
structure Bound (c : ConnIx) (m : Session) (conn : Connection) (st : Session × Connection)
    (n : Int) : Prop where
  frame : st.1 = { m with connMap := st.1.connMap }
  connFrame : st.2 =
    { conn with sessChunkMap := st.2.sessChunkMap, sendMsg := st.2.sendMsg }
  sess : ∀ i j, st.2.sessChunkMap i = some j ↔ j = i ∧ st.1.connMap i = some c
  others : ∀ i d, d ≠ c → (st.1.connMap i = some d ↔ m.connMap i = some d)
  backed : ∀ i, st.1.connMap i ≠ none → m.mallocMap i = .malloced
  mapped : (st.1.mapCount : Int) = m.mapCount + n
  share : (st.1.mapCountOf c : Int) = m.mapCountOf c + n

theorem freeChunk_iff {m : Session} {i : ChunkIx} :
    m.freeChunk i = true ↔ m.mallocMap i = .malloced ∧ m.connMap i = none := by
  simp [Session.freeChunk]

theorem Bound.start {m : Session} {c : ConnIx} {conn : Connection} (h : Consistent m)
    {conn₀ : Connection} (hc : m.conns c = some conn₀)
    (hsess : conn.sessChunkMap = conn₀.sessChunkMap) (sizeGb : Int) :
    Bound c m conn (m, conn.clearReply sizeGb) 0 := by
  refine ⟨rfl, rfl, ?_, fun i d _ => Iff.rfl, h.backed, by simp, by simp⟩
  intro i j
  change conn.sessChunkMap i = some j ↔ _
  rw [hsess]
  exact h.sess c conn₀ hc i j

theorem Bound.bindChunk {m : Session} {c : ConnIx} {conn : Connection}
    {st : Session × Connection} {n : Int} (hindex : conn.connIndex = c)
    (h : Bound c m conn st n) {i : ChunkIx} (hfree : st.1.freeChunk i = true)
    (mr : ChunkIx → Mr) : Bound c m conn (bindChunk mr i st) (n + 1) := by
  obtain ⟨hmalloc, hunbound⟩ := freeChunk_iff.mp hfree
  have hslot : st.2.connIndex = c := by
    rw [h.connFrame]
    exact hindex
  have hmap : (Monitor.bindChunk mr i st).1.connMap =
      Function.update st.1.connMap i (some c) := by
    simp [Monitor.bindChunk, hslot]
  have hmalloc' : m.mallocMap i = .malloced := by
    rw [h.frame] at hmalloc
    exact hmalloc
  refine ⟨?_, ?_, ?_, ?_, ?_, ?_, ?_⟩
  · exact congrArg (fun s : Session =>
      { s with connMap := (Monitor.bindChunk mr i st).1.connMap }) h.frame
  · exact congrArg (fun s : Connection =>
      { s with
        sessChunkMap := (Monitor.bindChunk mr i st).2.sessChunkMap
        sendMsg := (Monitor.bindChunk mr i st).2.sendMsg }) h.connFrame
  · intro k j
    rw [hmap]
    change Function.update st.2.sessChunkMap i (some i) k = some j ↔ _
    by_cases hk : k = i
    · subst hk
      simp [eq_comm]
    · simp only [Function.update_of_ne hk]
      exact h.sess k j
  · intro k d hd
    rw [hmap]
    by_cases hk : k = i
    · subst hk
      have hm : m.connMap k ≠ some d := by
        rw [Ne, ← h.others k d hd, hunbound]
        simp
      simp [Ne.symm hd, hm]
    · simp only [Function.update_of_ne hk]
      exact h.others k d hd
  · intro k hk
    rw [hmap] at hk
    by_cases hki : k = i
    · rw [hki]
      exact hmalloc'
    · rw [Function.update_of_ne hki] at hk
      exact h.backed k hk
  · have hcount : (Monitor.bindChunk mr i st).1.mapCount = st.1.mapCount + 1 := by
      apply countWhere_turnOn (a := i)
      · simp [hunbound]
      · simp [hmap]
      · intro k hk
        simp [hmap, hk]
    have hmapped := h.mapped
    omega
  · have hcount : (Monitor.bindChunk mr i st).1.mapCountOf c = st.1.mapCountOf c + 1 := by
      apply countWhere_turnOn (a := i)
      · simp [hunbound]
      · simp [hmap]
      · intro k hk
        simp [hmap, hk]
    have hshare := h.share
    omega

/-- A bind handler keeps the invariant when the amount it adds is what its loop
bound. -/
theorem Consistent.closeBind {m : Session} {c : ConnIx} {conn conn₀ : Connection}
    {st : Session × Connection} {n : Int} (h : Consistent m) (hc : m.conns c = some conn₀)
    (hindex : conn.connIndex = conn₀.connIndex)
    (hshare : conn.mappedChunkSize = conn₀.mappedChunkSize)
    (hbound : Bound c m conn st n) (type : MsgType) :
    Consistent ((Monitor.closeBind c n type st).1.markMapped conn.connIndex) := by
  have hslot : conn.connIndex = c := hindex.trans (h.index c conn₀ hc)
  have hframe := hbound.frame
  have hconn := hbound.connFrame
  refine h.serve ((Monitor.closeBind c n type st).1.markMapped conn.connIndex)
    { st.2 with
      mappedChunkSize := st.2.mappedChunkSize + n
      sendMsg := { st.2.sendMsg with type := type } }
    hc ?_ ?_ ?_ hbound.sess (fun d hd i => hbound.others i d hd) ?_ ?_ ?_ ?_
  · change Function.update st.1.conns c _ = _
    rw [hframe]
  · intro d
    change Function.update st.1.connsState conn.connIndex .mapped d = .idle ↔ _
    rw [hframe, hslot]
    by_cases hd : d = c
    · subst hd
      have hbusy := (not_congr (h.idle d)).mpr (by simp [hc])
      simp [hbusy]
    · simp [hd]
  · change st.2.connIndex = c
    rw [hconn]
    exact hslot
  · intro i hi
    change st.1.mallocMap i = .malloced
    rw [hframe]
    exact hbound.backed i hi
  · change st.1.sizeGb = (countWhere fun i => decide (st.1.mallocMap i = .malloced) : Nat)
    rw [hframe]
    exact h.size
  · change st.1.mappedSize + n = (st.1.mapCount : Int)
    rw [hbound.mapped, ← h.mapped, hframe]
  · change st.2.mappedChunkSize + n = (st.1.mapCountOf c : Int)
    rw [hbound.share, ← h.share c conn₀ hc, ← hshare, hconn]

/-- `BIND_SINGLE` adds one, so it is right when a chunk is free. -/
def SingleCovered (m : Session) : Prop := 0 < m.freeCount

/-- `BIND` adds the requested size, and its loop binds that many chunks only for
a size between one and the number of free chunks, or for size zero with none. -/
def BindCovered (size : Int) (m : Session) : Prop :=
  (0 < size ∧ size ≤ m.freeCount) ∨ (size = 0 ∧ m.freeCount = 0)

theorem Consistent.sendSingleMr {m : Session} {c : ConnIx} {conn conn₀ : Connection}
    (h : Consistent m) (hc : m.conns c = some conn₀) (hcovered : SingleCovered m)
    (hindex : conn.connIndex = conn₀.connIndex) (hsess : conn.sessChunkMap = conn₀.sessChunkMap)
    (hshare : conn.mappedChunkSize = conn₀.mappedChunkSize)
    (mr : ChunkIx → Mr) (clientChunkIndex : Int) :
    Consistent
      ((Monitor.sendSingleMr mr c conn clientChunkIndex m).1.markMapped conn.connIndex) := by
  have hslot : conn.connIndex = c := hindex.trans (h.index c conn₀ hc)
  have hstart := Bound.start h hc hsess clientChunkIndex
  unfold Monitor.sendSingleMr
  obtain ⟨k, hk⟩ := countWhere_pos_iff.mp hcovered
  cases hfind : (List.finRange maxMrSizeGb).find? m.freeChunk with
  | none =>
      rw [List.find?_eq_none] at hfind
      exact absurd hk (hfind k (List.mem_finRange k))
  | some i =>
      have hfree : m.freeChunk i = true := List.find?_some hfind
      have hbound := hstart.bindChunk hslot (i := i) hfree mr
      rw [zero_add] at hbound
      exact h.closeBind hc hindex hshare hbound .infoSingle

theorem bindChunk_freeChunk_of_ne (mr : ChunkIx → Mr) (st : Session × Connection)
    (i k : ChunkIx) (hne : i ≠ k) :
    (bindChunk mr i st).1.freeChunk k = st.1.freeChunk k := by
  have hmap : (bindChunk mr i st).1.connMap k = st.1.connMap k :=
    Function.update_of_ne (Ne.symm hne) _ _
  simp only [Session.freeChunk, hmap]
  rfl

/-- How many chunks the loop of `send_mr` binds. -/
theorem sendMr_bound (mr : ChunkIx → Mr) (conn : Connection) (size : Int) (m : Session) :
    (doFirst (fun st => st.1.freeChunk) (bindChunk mr) size (List.finRange maxMrSizeGb) 0
      (m, conn.clearReply size)).2 =
      if 0 < size ∧ size ≤ m.freeCount then size else m.freeCount :=
  doFirst_finRange_count (bindChunk_freeChunk_of_ne mr) (m, conn.clearReply size)

theorem Consistent.sendMr {m : Session} {c : ConnIx} {conn conn₀ : Connection}
    (h : Consistent m) (hc : m.conns c = some conn₀) {size : Int} (hcovered : BindCovered size m)
    (hindex : conn.connIndex = conn₀.connIndex) (hsess : conn.sessChunkMap = conn₀.sessChunkMap)
    (hshare : conn.mappedChunkSize = conn₀.mappedChunkSize) (mr : ChunkIx → Mr) :
    Consistent ((Monitor.sendMr mr c conn size m).1.markMapped conn.connIndex) := by
  have hslot : conn.connIndex = c := hindex.trans (h.index c conn₀ hc)
  have hloop := doFirst_invariant size (fun st => st.1.freeChunk) (Monitor.bindChunk mr)
    (I := Bound c m conn)
    (fun st n i hst hfree => hst.bindChunk hslot hfree mr)
    (List.finRange maxMrSizeGb) 0 _ (Bound.start h hc hsess size)
  have hcount : (doFirst (fun st => st.1.freeChunk) (Monitor.bindChunk mr) size
      (List.finRange maxMrSizeGb) 0 (m, conn.clearReply size)).2 = size := by
    rw [sendMr_bound]
    rcases hcovered with hpos | ⟨hzero, hnone⟩
    · rw [if_pos hpos]
    · rw [if_neg (by omega), hnone, hzero]
      rfl
  rw [hcount] at hloop
  exact h.closeBind hc hindex hshare hloop .info

/-! ## Releasing -/

/-- A `DONE` that answers a `STOP`: its size is the number of its flags, and the
flags are on chunks of the connection it came from. -/
structure AnswersStop (c : ConnIx) (msg : Message) (m : Session) : Prop where
  size : msg.sizeGb = countWhere msg.flagged
  owned : ∀ i, msg.flagged i = true → m.connMap i = some c

/-- Everything `recv_done` does when it goes through. -/
theorem recvDone_cases {m m' : Session} {c : ConnIx} {conn : Connection}
    (hdone : recvDone c conn m = some m') :
    (∀ i, conn.recvMsg.flagged i = true → conn.sessChunkMap i ≠ none) ∧
    m' = Session.putConn
      { m with
        connMap := clearPicked conn.released none (List.finRange maxMrSizeGb) m.connMap
        mallocMap := clearPicked conn.released .empty (List.finRange maxMrSizeGb) m.mallocMap
        sizeGb := m.sizeGb - conn.recvMsg.sizeGb
        mappedSize := m.mappedSize - conn.recvMsg.sizeGb
        connsState :=
          if conn.mappedChunkSize - conn.recvMsg.sizeGb = 0 then
            Function.update m.connsState conn.connIndex .connected
          else m.connsState }
      c
      { conn with
        sessChunkMap := fun i => if conn.recvMsg.flagged i then none else conn.sessChunkMap i
        mappedChunkSize := conn.mappedChunkSize - conn.recvMsg.sizeGb
        stopSem := conn.stopSem + 1 } := by
  unfold recvDone at hdone
  split at hdone
  · cases hdone
  · rename_i hbound
    exact ⟨fun i hflag hnone => hbound ⟨i, hflag, hnone⟩, (Option.some.inj hdone).symm⟩

/-- What `recv_done` releases are the chunks flagged. -/
theorem AnswersStop.released_iff {m : Session} {c : ConnIx} {conn : Connection}
    (hstop : AnswersStop c conn.recvMsg m)
    (hsess : ∀ i j, conn.sessChunkMap i = some j ↔ j = i ∧ m.connMap i = some c) (k : ChunkIx) :
    (∃ i, conn.released i = some k) ↔ conn.recvMsg.flagged k = true := by
  constructor
  · rintro ⟨i, hi⟩
    unfold Connection.released at hi
    split at hi
    · rename_i hflag
      obtain ⟨rfl, -⟩ := (hsess i k).mp hi
      exact hflag
    · cases hi
  · intro hflag
    refine ⟨k, ?_⟩
    rw [Connection.released, if_pos hflag]
    exact (hsess k k).mpr ⟨rfl, hstop.owned k hflag⟩

/-- The session `recv_done` leaves. -/
theorem recvDone_eq {m m' : Session} {c : ConnIx} {conn : Connection}
    (hstop : AnswersStop c conn.recvMsg m)
    (hsess : ∀ i j, conn.sessChunkMap i = some j ↔ j = i ∧ m.connMap i = some c)
    (hdone : recvDone c conn m = some m') :
    m' = Session.putConn
      { m with
        connMap := fun i => if conn.recvMsg.flagged i = true then none else m.connMap i
        mallocMap := fun i =>
          if conn.recvMsg.flagged i = true then Alloc.empty else m.mallocMap i
        sizeGb := m.sizeGb - conn.recvMsg.sizeGb
        mappedSize := m.mappedSize - conn.recvMsg.sizeGb
        connsState :=
          if conn.mappedChunkSize - conn.recvMsg.sizeGb = 0 then
            Function.update m.connsState conn.connIndex .connected
          else m.connsState }
      c
      { conn with
        sessChunkMap := fun i => if conn.recvMsg.flagged i then none else conn.sessChunkMap i
        mappedChunkSize := conn.mappedChunkSize - conn.recvMsg.sizeGb
        stopSem := conn.stopSem + 1 } := by
  have hclear : ∀ {β : Type} (v : β) (t : ChunkIx → β),
      clearPicked conn.released v (List.finRange maxMrSizeGb) t =
        fun i => if conn.recvMsg.flagged i = true then v else t i := by
    intro β v t
    funext i
    rw [clearPicked_finRange, if_congr (hstop.released_iff hsess i) rfl rfl]
  rw [(recvDone_cases hdone).2, hclear, hclear]

/-- Releasing the flagged chunks of one connection takes them off each of the counts. -/
theorem counts_release {m m' : Session} {c : ConnIx} {flags : ChunkIx → Bool}
    (howned : ∀ i, flags i = true → m.connMap i = some c)
    (hmalloced : ∀ i, flags i = true → m.mallocMap i = .malloced)
    (hconnMap : ∀ i, m'.connMap i = if flags i = true then none else m.connMap i)
    (hmallocMap : ∀ i, m'.mallocMap i = if flags i = true then Alloc.empty else m.mallocMap i) :
    m'.mallocCount + countWhere flags = m.mallocCount ∧
      m'.mapCount + countWhere flags = m.mapCount ∧
      m'.mapCountOf c + countWhere flags = m.mapCountOf c := by
  refine ⟨?_, ?_, ?_⟩
  · refine countWhere_clear flags (fun i hi => decide_eq_true (hmalloced i hi)) fun i => ?_
    cases hi : flags i <;> simp [hmallocMap, hi]
  · refine countWhere_clear flags (fun i hi => by simp [howned i hi]) fun i => ?_
    cases hi : flags i <;> simp [hconnMap, hi]
  · refine countWhere_clear flags (fun i hi => decide_eq_true (howned i hi)) fun i => ?_
    cases hi : flags i <;> simp [hconnMap, hi]

theorem Consistent.recvDone {m m' : Session} {c : ConnIx} {conn conn₀ : Connection}
    (h : Consistent m) (hc : m.conns c = some conn₀) (hstop : AnswersStop c conn.recvMsg m)
    (hindex : conn.connIndex = conn₀.connIndex) (hsess : conn.sessChunkMap = conn₀.sessChunkMap)
    (hshare : conn.mappedChunkSize = conn₀.mappedChunkSize)
    (hdone : recvDone c conn m = some m') : Consistent m' := by
  have hslot : conn.connIndex = c := hindex.trans (h.index c conn₀ hc)
  have hown : ∀ i j, conn.sessChunkMap i = some j ↔ j = i ∧ m.connMap i = some c := by
    intro i j
    rw [hsess]
    exact h.sess c conn₀ hc i j
  have hm' := recvDone_eq hstop hown hdone
  have hconnMap : ∀ i, m'.connMap i =
      if conn.recvMsg.flagged i = true then none else m.connMap i := fun i => by rw [hm']; rfl
  have hmallocMap : ∀ i, m'.mallocMap i =
      if conn.recvMsg.flagged i = true then Alloc.empty else m.mallocMap i :=
    fun i => by rw [hm']; rfl
  obtain ⟨hmalloc, hmapped, hof⟩ := counts_release hstop.owned
    (fun i hi => h.backed i (by simp [hstop.owned i hi])) hconnMap hmallocMap
  have hsize : conn.recvMsg.sizeGb = countWhere conn.recvMsg.flagged := hstop.size
  refine h.serve m'
    { conn with
      sessChunkMap := fun i => if conn.recvMsg.flagged i then none else conn.sessChunkMap i
      mappedChunkSize := conn.mappedChunkSize - conn.recvMsg.sizeGb
      stopSem := conn.stopSem + 1 }
    hc (by rw [hm']; rfl) ?_ hslot ?_ ?_ ?_ ?_ ?_ ?_
  · intro d
    have hconnected : Function.update m.connsState conn.connIndex .connected d = .idle ↔
        m.connsState d = .idle := by
      rw [hslot]
      by_cases hd : d = c
      · subst hd
        have hbusy := (not_congr (h.idle d)).mpr (by simp [hc])
        simp [hbusy]
      · simp [hd]
    rw [hm', putConn_connsState]
    split
    · exact hconnected
    · rfl
  · intro i j
    rw [hconnMap]
    cases hi : conn.recvMsg.flagged i with
    | true => simp [hi]
    | false => simpa [hi] using hown i j
  · intro d hd i
    rw [hconnMap]
    cases hi : conn.recvMsg.flagged i with
    | true => simp [hstop.owned i hi, Ne.symm hd]
    | false => simp
  · intro i hi
    rw [hconnMap] at hi
    rw [hmallocMap]
    split at hi
    · exact absurd rfl hi
    · rename_i hflag
      rw [if_neg hflag]
      exact h.backed i hi
  · have hold := h.size
    rw [show m'.sizeGb = m.sizeGb - conn.recvMsg.sizeGb by rw [hm']; rfl]
    omega
  · have hold := h.mapped
    rw [show m'.mappedSize = m.mappedSize - conn.recvMsg.sizeGb by rw [hm']; rfl]
    omega
  · have hold := h.share c conn₀ hc
    show conn.mappedChunkSize - conn.recvMsg.sizeGb = m'.mapCountOf c
    omega

/-! ## Growing and shrinking -/

/-- The part of `Consistent` that an allocation or a free of an unbound chunk can
touch. -/
theorem Consistent.setMallocMap {m : Session} (h : Consistent m) {mallocMap : ChunkIx → Alloc}
    {sizeGb : Int} (hbacked : ∀ i, m.connMap i ≠ none → mallocMap i = .malloced)
    (hsize : sizeGb = ({ m with mallocMap := mallocMap } : Session).mallocCount) :
    Consistent { m with mallocMap := mallocMap, sizeGb := sizeGb } :=
  ⟨h.idle, h.index, h.sess, h.owner, hbacked, hsize, h.mapped, h.share⟩

theorem Consistent.freeMemExpand {m : Session} (h : Consistent m) {lastFreeMemG : Int}
    (hbranch : lastFreeMemG > freeMemExpandThreshold) :
    Consistent (freeMemExpand lastFreeMemG m) := by
  set size := expandSize lastFreeMemG m with hsizeDef
  let test : (ChunkIx → Alloc) → ChunkIx → Bool := fun t i => decide (t i = .empty)
  let act : ChunkIx → (ChunkIx → Alloc) → ChunkIx → Alloc :=
    fun i t => Function.update t i .malloced
  -- the loop turns `n` empty entries on and no entry off
  have hloop := doFirst_invariant size test act
    (I := fun t n => (∀ i, m.mallocMap i = .malloced → t i = .malloced) ∧
      ((countWhere fun i => decide (t i = Alloc.malloced) : Nat) : Int) = m.mallocCount + n)
    (by
      intro t n i hinv htest
      obtain ⟨hkeep, hcount⟩ := hinv
      have hempty : t i = .empty := of_decide_eq_true htest
      constructor
      · intro k hk
        by_cases hki : k = i
        · simp [act, hki]
        · simpa [act, hki] using hkeep k hk
      · have hone : (countWhere fun k => decide (act i t k = Alloc.malloced)) =
            (countWhere fun k => decide (t k = Alloc.malloced)) + 1 := by
          apply countWhere_turnOn (a := i)
          · simp [hempty]
          · simp [act]
          · intro k hk
            simp [act, hk]
        omega)
    (List.finRange maxMrSizeGb) 0 m.mallocMap ⟨fun _ hi => hi, by simp [Session.mallocCount]⟩
  have hempties : countWhere (test m.mallocMap) + m.mallocCount = maxMrSizeGb := by
    have hsplit := countWhere_and_not_add (p := fun _ : ChunkIx => true)
      (q := fun i => decide (m.mallocMap i = Alloc.malloced)) (fun _ _ => rfl)
    rw [countWhere_true, Fintype.card_fin] at hsplit
    have htest : countWhere (test m.mallocMap) =
        countWhere fun i => true && !decide (m.mallocMap i = Alloc.malloced) := by
      apply countWhere_congr
      intro i
      cases hi : m.mallocMap i <;> simp [test, hi]
    rw [htest]
    exact hsplit
  have hcount : (doFirst test act size (List.finRange maxMrSizeGb) 0 m.mallocMap).2 = size := by
    rw [doFirst_finRange_count (fun t i k hne => by simp [test, act, Ne.symm hne])]
    have hold := h.size
    have hbound : m.mallocCount ≤ maxMrSizeGb := by omega
    have hsize : size = (if lastFreeMemG - freeMemExpandThreshold + m.sizeGb > maxFreeMemGb then
        maxFreeMemGb - m.sizeGb else lastFreeMemG - freeMemExpandThreshold) := hsizeDef
    have hmax : maxFreeMemGb = (maxMrSizeGb : Int) := rfl
    split at hsize <;> split <;> omega
  obtain ⟨hkeep, hnew⟩ := hloop
  rw [hcount] at hnew
  apply h.setMallocMap
  · intro i hi
    exact hkeep i (h.backed i hi)
  · rw [h.size]
    exact hnew.symm

/-- How many unmapped chunks an eviction frees. -/
theorem evictFreeUnmapped_freed {stopG : Int} (hstop : 1 ≤ stopG) (m : Session) :
    (evictFreeUnmapped stopG m).2 = min stopG m.freeCount := by
  have hcount : (evictFreeUnmapped stopG m).2 =
      if 0 < stopG ∧ stopG ≤ m.freeCount then stopG else m.freeCount := by
    refine doFirst_finRange_count (fun s i k hne => ?_) m
    simp [Session.freeChunk, Function.update_of_ne (Ne.symm hne)]
  rw [hcount]
  split <;> omega

theorem evictFreeUnmapped_sizeGb (stopG : Int) (m : Session) :
    (evictFreeUnmapped stopG m).1.sizeGb = m.sizeGb - (evictFreeUnmapped stopG m).2 := by
  have hkeep := doFirst_invariant (I := fun s _ => s.sizeGb = m.sizeGb) stopG
    (fun m : Session => m.freeChunk)
    (fun i m => { m with mallocMap := Function.update m.mallocMap i .empty })
    (fun s _ _ hs _ => hs) (List.finRange maxMrSizeGb) 0 m rfl
  exact congrArg (· - (evictFreeUnmapped stopG m).2) hkeep

theorem Consistent.evictFreeUnmapped {m : Session} (h : Consistent m) (stopG : Int) :
    Consistent (evictFreeUnmapped stopG m).1 := by
  let act : ChunkIx → Session → Session :=
    fun i m => { m with mallocMap := Function.update m.mallocMap i .empty }
  have hloop := doFirst_invariant stopG (fun m => m.freeChunk) act
    (I := fun s n => s = { m with mallocMap := s.mallocMap } ∧
      (∀ i, m.connMap i ≠ none → s.mallocMap i = .malloced) ∧
      (s.mallocCount : Int) + n = m.mallocCount)
    (by
      intro s n i hinv htest
      obtain ⟨hframe, hkeep, hcount⟩ := hinv
      obtain ⟨hmalloc, hunbound⟩ := freeChunk_iff.mp htest
      rw [hframe] at hunbound
      refine ⟨?_, ?_, ?_⟩
      · exact congrArg (fun s' : Session =>
          { s' with mallocMap := Function.update s.mallocMap i .empty }) hframe
      · intro k hk
        have hki : k ≠ i := fun hki => hk (hki ▸ hunbound)
        simpa [act, hki] using hkeep k hk
      · have hone : s.mallocCount = (act i s).mallocCount + 1 := by
          apply countWhere_turnOn (a := i)
          · simp [act]
          · simp [hmalloc]
          · intro k hk
            simp [act, hk]
        omega)
    (List.finRange maxMrSizeGb) 0 m ⟨rfl, h.backed, by simp⟩
  obtain ⟨hframe, hkeep, hcount⟩ := hloop
  have hresult : (Monitor.evictFreeUnmapped stopG m).1 =
      { m with
        mallocMap := (doFirst (fun m => m.freeChunk) act stopG (List.finRange maxMrSizeGb) 0
          m).1.mallocMap
        sizeGb := m.sizeGb - (doFirst (fun m => m.freeChunk) act stopG
          (List.finRange maxMrSizeGb) 0 m).2 } := by
    exact congrArg (fun s : Session =>
      { s with sizeGb := s.sizeGb - (doFirst (fun (m : Session) => m.freeChunk) act stopG
        (List.finRange maxMrSizeGb) 0 m).2 }) hframe
  rw [hresult]
  apply h.setMallocMap hkeep
  rw [h.size]
  change _ = ((doFirst (fun m => m.freeChunk) act stopG (List.finRange maxMrSizeGb) 0
    m).1.mallocCount : Int)
  omega

/-! ## Whole runs -/

/-- What can happen to a monitor. -/
inductive Action where
  | connect (sendBuf recvBuf : Message)
  | receive (c : ConnIx) (msg : Message) (mr : ChunkIx → Mr)
  | disconnect (c : ConnIx)
  | expand (lastFreeMemG : Int)
  | freeUnmapped (stopG : Int)

/-- One action of the monitor. -/
def step (m : Session) : Action → Option Session
  | .connect sendBuf recvBuf => buildConnection sendBuf recvBuf m
  | .receive c msg mr => (onCompletion mr c msg m).map Prod.fst
  | .disconnect c => destroyConnection c m
  | .expand lastFreeMemG => some (freeMemExpand lastFreeMemG m)
  | .freeUnmapped stopG => some (evictFreeUnmapped stopG m).1

/-- The surroundings of the monitor: a `DONE` answers a `STOP`, and `free_mem`
enters its two branches on their own tests. -/
def Permitted (m : Session) : Action → Prop
  | .receive c msg _ => msg.type = .done → AnswersStop c msg m
  | .expand lastFreeMemG => lastFreeMemG > freeMemExpandThreshold
  | .freeUnmapped stopG => 0 < stopG ∧ stopG ≤ m.sizeGb
  | .connect _ _ | .disconnect _ => True

/-- The bind requests the totals survive: the free chunks cover what is added. -/
def Covered (m : Session) : Action → Prop
  | .receive _ msg _ =>
      (msg.type = .bindSingle → SingleCovered m) ∧
        (msg.type = .bind → BindCovered msg.sizeGb m)
  | .connect _ _ | .disconnect _ | .expand _ | .freeUnmapped _ => True

instance (c : ConnIx) (msg : Message) (m : Session) : Decidable (AnswersStop c msg m) :=
  decidable_of_iff (msg.sizeGb = countWhere msg.flagged ∧
    ∀ i, msg.flagged i = true → m.connMap i = some c)
    ⟨fun h => ⟨h.1, h.2⟩, fun h => ⟨h.size, h.owned⟩⟩

instance (m : Session) (a : Action) : Decidable (Permitted m a) :=
  match a with
  | .receive c msg _ => inferInstanceAs (Decidable (msg.type = .done → AnswersStop c msg m))
  | .expand lastFreeMemG => inferInstanceAs (Decidable (lastFreeMemG > freeMemExpandThreshold))
  | .freeUnmapped stopG => inferInstanceAs (Decidable (0 < stopG ∧ stopG ≤ m.sizeGb))
  | .connect _ _ | .disconnect _ => isTrue trivial

instance (m : Session) (a : Action) : Decidable (Covered m a) :=
  match a with
  | .receive _ msg _ =>
      inferInstanceAs (Decidable ((msg.type = .bindSingle → 0 < m.freeCount) ∧
        (msg.type = .bind → (0 < msg.sizeGb ∧ msg.sizeGb ≤ m.freeCount) ∨
          (msg.sizeGb = 0 ∧ m.freeCount = 0))))
  | .connect _ _ | .disconnect _ | .expand _ | .freeUnmapped _ => isTrue trivial

/-- Everything `on_completion` can do with a received message. -/
theorem onCompletion_cases {m : Session} {c : ConnIx} {msg : Message} {mr : ChunkIx → Mr}
    {r : Session × Option Message} (hrecv : onCompletion mr c msg m = some r) :
    ∃ conn₀, m.conns c = some conn₀ ∧
      ∃ conn, conn = { conn₀ with recvMsg := msg } ∧
        ((msg.type = .query ∧ r.1 = (sendFreeMemSize c conn m).1 ∧
            r.2 = some (sendFreeMemSize c conn m).2) ∨
          (msg.type = .bind ∧
            r.1 = (sendMr mr c conn msg.sizeGb m).1.markMapped conn.connIndex ∧
            r.2 = some (sendMr mr c conn msg.sizeGb m).2) ∨
          (msg.type = .bindSingle ∧
            r.1 = (sendSingleMr mr c conn msg.sizeGb m).1.markMapped conn.connIndex ∧
            r.2 = some (sendSingleMr mr c conn msg.sizeGb m).2) ∨
          (msg.type = .activity ∧
            r.1 = m.putConn c { conn with evictSem := conn.evictSem + 1 } ∧ r.2 = none) ∨
          (msg.type = .fault ∧ r.1 = (sendFaultDone c conn m).1 ∧
            r.2 = some (sendFaultDone c conn m).2) ∨
          (msg.type = .done ∧ recvDone c conn m = some r.1 ∧ r.2 = none)) := by
  unfold Monitor.onCompletion at hrecv
  split at hrecv
  · cases hrecv
  rename_i conn₀ hc
  refine ⟨conn₀, hc, _, rfl, ?_⟩
  cases htype : msg.type <;> simp only [htype, reduceCtorEq] at hrecv
  case query =>
    obtain rfl := Option.some.inj hrecv
    exact .inl ⟨rfl, rfl, rfl⟩
  case bind =>
    obtain rfl := Option.some.inj hrecv
    exact .inr (.inl ⟨rfl, rfl, rfl⟩)
  case bindSingle =>
    obtain rfl := Option.some.inj hrecv
    exact .inr (.inr (.inl ⟨rfl, rfl, rfl⟩))
  case activity =>
    obtain rfl := Option.some.inj hrecv
    exact .inr (.inr (.inr (.inl ⟨rfl, rfl, rfl⟩)))
  case fault =>
    obtain rfl := Option.some.inj hrecv
    exact .inr (.inr (.inr (.inr (.inl ⟨rfl, rfl, rfl⟩))))
  case done =>
    obtain ⟨m₁, hdone, rfl⟩ := Option.map_eq_some_iff.mp hrecv
    exact .inr (.inr (.inr (.inr (.inr ⟨rfl, hdone, rfl⟩))))

theorem Consistent.onCompletion {m : Session} {c : ConnIx} {msg : Message}
    {mr : ChunkIx → Mr} {r : Session × Option Message} (h : Consistent m)
    (hpermitted : msg.type = .done → AnswersStop c msg m)
    (hsingle : msg.type = .bindSingle → SingleCovered m)
    (hbind : msg.type = .bind → BindCovered msg.sizeGb m)
    (hrecv : onCompletion mr c msg m = some r) : Consistent r.1 := by
  obtain ⟨conn₀, hc, conn, hconn, hcases⟩ := onCompletion_cases hrecv
  have hindex : conn.connIndex = conn₀.connIndex := by rw [hconn]
  have hsess : conn.sessChunkMap = conn₀.sessChunkMap := by rw [hconn]
  have hshare : conn.mappedChunkSize = conn₀.mappedChunkSize := by rw [hconn]
  rcases hcases with ⟨-, heq, -⟩ | ⟨ht, heq, -⟩ | ⟨ht, heq, -⟩ | ⟨-, heq, -⟩ | ⟨-, heq, -⟩ |
    ⟨ht, heq, -⟩
  · rw [heq]
    exact h.putConn hc hindex hsess hshare
  · rw [heq]
    exact h.sendMr hc (hbind ht) hindex hsess hshare mr
  · rw [heq]
    exact h.sendSingleMr hc (hsingle ht) hindex hsess hshare mr msg.sizeGb
  · rw [heq]
    exact h.putConn hc hindex hsess hshare
  · rw [heq]
    exact h.putConn hc hindex hsess hshare
  · have hstop : AnswersStop c conn.recvMsg m := by
      rw [hconn]
      exact hpermitted ht
    exact h.recvDone hc hstop hindex hsess hshare heq

/-- One step keeps tables and totals together. -/
theorem Consistent.step {m m' : Session} {a : Action} (h : Consistent m)
    (hpermitted : Permitted m a) (hcovered : Covered m a) (hstep : step m a = some m') :
    Consistent m' := by
  cases a with
  | connect sendBuf recvBuf => exact h.buildConnection hstep
  | receive c msg mr =>
      obtain ⟨r, hrecv, rfl⟩ := Option.map_eq_some_iff.mp hstep
      exact h.onCompletion hpermitted hcovered.1 hcovered.2 hrecv
  | disconnect c => exact h.destroyConnection hstep
  | expand lastFreeMemG =>
      obtain rfl := Option.some.inj hstep
      exact h.freeMemExpand hpermitted
  | freeUnmapped stopG =>
      obtain rfl := Option.some.inj hstep
      exact h.evictFreeUnmapped stopG

/-! ## What an uncovered bind does -/

/-- A bind handler that adds anything but what its loop bound leaves the total of
bound chunks wrong. -/
theorem closeBind_drift {m : Session} {c k : ConnIx} {conn : Connection}
    {st : Session × Connection} {n amount : Int} (h : Consistent m)
    (hbound : Bound c m conn st n) (hne : amount ≠ n) (type : MsgType) :
    ¬ Accounting ((closeBind c amount type st).1.markMapped k) := by
  intro hacc
  have hmapped : ((closeBind c amount type st).1.markMapped k).mappedSize =
      m.mappedSize + amount := by
    change st.1.mappedSize + amount = _
    rw [hbound.frame]
  have hcount : ((closeBind c amount type st).1.markMapped k).mapCount = st.1.mapCount := rfl
  have htotal := hacc.mapped
  rw [hmapped, hcount, hbound.mapped, h.mapped] at htotal
  omega

theorem not_accounting_of_not_covered {m m' : Session} {a : Action} (h : Consistent m)
    (hnot : ¬ Covered m a) (hstep : step m a = some m') : ¬ Accounting m' := by
  cases a with
  | connect | disconnect | expand | freeUnmapped => exact absurd trivial hnot
  | receive c msg mr =>
      obtain ⟨r, hrecv, rfl⟩ := Option.map_eq_some_iff.mp hstep
      obtain ⟨conn₀, hc, conn, hconn, hcases⟩ := onCompletion_cases hrecv
      have hindex : conn.connIndex = c := by
        rw [hconn]
        exact h.index c conn₀ hc
      have hsess : conn.sessChunkMap = conn₀.sessChunkMap := by rw [hconn]
      have hother : msg.type ≠ .bindSingle → msg.type ≠ .bind → False := by
        intro hsingle hbind
        exact hnot ⟨fun ht => absurd ht hsingle, fun ht => absurd ht hbind⟩
      rcases hcases with ⟨ht, -, -⟩ | ⟨ht, heq, -⟩ | ⟨ht, heq, -⟩ | ⟨ht, -, -⟩ | ⟨ht, -, -⟩ |
        ⟨ht, -, -⟩
      · exact (hother (by simp [ht]) (by simp [ht])).elim
      · -- `send_mr` binds the requested number or everything that is free
        have hnone : ¬ BindCovered msg.sizeGb m := by
          intro hcovered
          exact hnot ⟨fun hsingle => by simp [ht] at hsingle, fun _ => hcovered⟩
        rw [heq]
        have hloop := doFirst_invariant msg.sizeGb (fun st => st.1.freeChunk) (bindChunk mr)
          (I := Bound c m conn)
          (fun st n i hst hfree => hst.bindChunk hindex hfree mr)
          (List.finRange maxMrSizeGb) 0 _ (Bound.start h hc hsess msg.sizeGb)
        rw [sendMr_bound] at hloop
        refine closeBind_drift h hloop ?_ .info
        unfold BindCovered at hnone
        split <;> omega
      · -- nothing is free, so `send_single_mr` binds nothing and adds one
        have hnone : ¬ SingleCovered m := by
          intro hcovered
          exact hnot ⟨fun _ => hcovered, fun hbind => by simp [ht] at hbind⟩
        have hfind : (List.finRange maxMrSizeGb).find? m.freeChunk = none := by
          rw [List.find?_eq_none]
          intro i _ hi
          exact hnone (countWhere_pos_iff.mpr ⟨i, hi⟩)
        rw [heq]
        unfold sendSingleMr
        rw [hfind]
        exact closeBind_drift h (Bound.start h hc hsess msg.sizeGb) (by omega) .infoSingle
      · exact (hother (by simp [ht]) (by simp [ht])).elim
      · exact (hother (by simp [ht]) (by simp [ht])).elim
      · exact (hother (by simp [ht]) (by simp [ht])).elim

/-- Along every run of the monitor in which each bind request is covered by free
chunks, the totals are the counts they stand for, every bound chunk is allocated
and the reported free size is the number of free chunks.  The condition is sharp:
from such a state every bind request that is not covered breaks the totals. -/
theorem monitor_accounting (freeMemG : Int) (m : Session)
    (hrun : Reach step (fun m a => Permitted m a ∧ Covered m a) (rdmaSessionInit freeMemG) m) :
    Accounting m ∧
      ∀ a m', ¬ Covered m a → step m a = some m' → ¬ Accounting m' := by
  have hcons : Consistent m := hrun.invariant (consistent_rdmaSessionInit freeMemG)
    (fun u a v hu hguard hstep => hu.step hguard.1 hguard.2 hstep)
  exact ⟨hcons.accounting, fun a m' hnot hstep => not_accounting_of_not_covered hcons hnot hstep⟩

/-- One client connects and binds a chunk. -/
def oneBind : List Action :=
  [.connect (.plain .done 0) (.plain .done 0),
    .receive 0 (.plain .bindSingle 0) (fun _ => ⟨0, 1⟩)]

/-- With twelve free gigabytes the pool has two chunks, and one bind is covered. -/
theorem monitor_accounting_oneBind :
    ∃ m, Reach step (fun m a => Permitted m a ∧ Covered m a) (rdmaSessionInit 12) m ∧
      Accounting m ∧ m.mappedSize = 1 := by
  have hcovered : SingleCovered (rdmaSessionInit 12) :=
    countWhere_pos_iff.mpr ⟨0, by decide⟩
  have hrun : Reach step (fun m a => Permitted m a ∧ Covered m a) (rdmaSessionInit 12)
      ((runActions step (rdmaSessionInit 12) oneBind).get (by rfl)) := by
    apply reach_of_runActions (Option.some_get _).symm
    refine ⟨⟨trivial, trivial⟩, fun m₁ h₁ => ⟨⟨?_, ?_⟩, fun _ _ => trivial⟩⟩
    · intro hdone
      simp [Message.plain] at hdone
    · obtain rfl := Option.some.inj h₁
      exact ⟨fun _ => hcovered, fun hbind => by simp [Message.plain] at hbind⟩
  exact ⟨_, hrun, (monitor_accounting 12 _ hrun).1, rfl⟩

/-- With no free memory the same two actions leave a bound chunk on the books that
does not exist. -/
theorem monitor_accounting_breaks :
    ∃ m, Reach step Permitted (rdmaSessionInit 0) m ∧ ¬ Accounting m ∧
      m.mappedSize = 1 ∧ m.mapCount = 0 ∧ freeMemSize m = -1 := by
  have hrun : Reach step Permitted (rdmaSessionInit 0)
      ((runActions step (rdmaSessionInit 0) oneBind).get (by rfl)) := by
    apply reach_of_runActions (Option.some_get _).symm
    refine ⟨trivial, fun m₁ h₁ => ⟨?_, fun _ _ => trivial⟩⟩
    intro hdone
    simp [Message.plain] at hdone
  have hcount : ((runActions step (rdmaSessionInit 0) oneBind).get (by rfl)).mapCount = 0 := by
    rw [Session.mapCount, countWhere_eq_zero_iff]
    decide
  refine ⟨_, hrun, ?_, rfl, hcount, rfl⟩
  intro hacc
  have hmapped := hacc.mapped
  rw [hcount] at hmapped
  cases hmapped

end Hydra.Monitor
