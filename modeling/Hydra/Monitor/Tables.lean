/-
  Monitor/Tables.lean --- what a connection's own table guarantees.

  The totals play no part here.  `Tables` says that a chunk entered in a
  connection's `sess_chunk_map` is allocated and bound to that connection, and
  `Effect` that a handler serving one connection leaves every other connection's
  entries alone.  Both hold for any amounts the messages carry.
-/
import Hydra.Monitor.Accounting

set_option autoImplicit false

namespace Hydra.Monitor

open Hydra.Foundation Hydra.Wire

/-- A chunk in a connection's table is its own and is allocated. -/
structure Tables (m : Session) : Prop where
  idle : ∀ c, m.connsState c = .idle ↔ m.conns c = none
  index : ∀ c conn, m.conns c = some conn → conn.connIndex = c
  owned : ∀ c conn, m.conns c = some conn → ∀ i j, conn.sessChunkMap i = some j →
    j = i ∧ m.connMap i = some c ∧ m.mallocMap i = .malloced

/-- Serving connection `c` leaves the other connections and their chunks alone. -/
structure Effect (c : ConnIx) (m m' : Session) : Prop where
  conns : ∀ d, d ≠ c → m'.conns d = m.conns d
  connMap : ∀ d i, d ≠ c → m.connMap i = some d → m'.connMap i = some d

/-- No chunk has two owners in the tables of live connections. -/
theorem Tables.exclusive {m : Session} (h : Tables m) {c d : ConnIx} {conn other : Connection}
    (hc : m.conns c = some conn) (hd : m.conns d = some other) {i j k : ChunkIx}
    (hi : conn.sessChunkMap i = some j) (hk : other.sessChunkMap i = some k) : c = d := by
  have hown := (h.owned c conn hc i j hi).2.1
  have hother := (h.owned d other hd i k hk).2.1
  exact Option.some.inj (hown.symm.trans hother)

theorem tables_rdmaSessionInit (freeMemG : Int) : Tables (rdmaSessionInit freeMemG) := by
  refine ⟨fun c => by simp [rdmaSessionInit], fun c conn hc => ?_, fun c conn hc => ?_⟩
  · simp [rdmaSessionInit] at hc
  · simp [rdmaSessionInit] at hc

/-- A slot rewritten with a connection of the same index and a table of owned
chunks, the bound chunks of other connections being kept. -/
theorem Tables.rewrite {m : Session} (h : Tables m) (m' : Session) {c : ConnIx}
    {conn conn' : Connection}
    (hc : m.conns c = some conn) (hconns : m'.conns = Function.update m.conns c (some conn'))
    (hstate : ∀ d, m'.connsState d = .idle ↔ m.connsState d = .idle)
    (hindex : conn'.connIndex = conn.connIndex)
    (howned : ∀ i j, conn'.sessChunkMap i = some j →
      j = i ∧ m'.connMap i = some c ∧ m'.mallocMap i = .malloced)
    (hothers : ∀ d i, d ≠ c → m.connMap i = some d → m'.connMap i = some d)
    (hmalloc : ∀ d i, d ≠ c → m.connMap i = some d → m.mallocMap i = .malloced →
      m'.mallocMap i = .malloced) :
    Tables m' ∧ Effect c m m' := by
  have hne : ∀ d, d ≠ c → m'.conns d = m.conns d := by
    intro d hd
    rw [hconns, Function.update_of_ne hd]
  refine ⟨⟨?_, ?_, ?_⟩, hne, hothers⟩
  · intro d
    rw [hstate, h.idle]
    by_cases hd : d = c
    · subst hd
      simp [hconns, hc]
    · rw [hne d hd]
  · intro d other hother
    by_cases hd : d = c
    · subst hd
      rw [hconns, Function.update_self] at hother
      rw [← Option.some.inj hother, hindex]
      exact h.index d conn hc
    · rw [hne d hd] at hother
      exact h.index d other hother
  · intro d other hother i j hij
    by_cases hd : d = c
    · subst hd
      rw [hconns, Function.update_self] at hother
      rw [← Option.some.inj hother] at hij
      exact howned i j hij
    · rw [hne d hd] at hother
      obtain ⟨rfl, hmap, hm⟩ := h.owned d other hother i j hij
      exact ⟨rfl, hothers d j hd hmap, hmalloc d j hd hmap hm⟩

/-- A handler that writes only buffers and semaphores of its connection. -/
theorem Tables.putConn {m : Session} (h : Tables m) {c : ConnIx} {conn : Connection}
    (hc : m.conns c = some conn) (conn' : Connection) (hindex : conn'.connIndex = conn.connIndex)
    (hsess : conn'.sessChunkMap = conn.sessChunkMap) :
    Tables (m.putConn c conn') ∧ Effect c m (m.putConn c conn') := by
  refine h.rewrite (m.putConn c conn') hc rfl (fun _ => Iff.rfl) hindex ?_
    (fun d i _ hi => hi) (fun d i _ _ hm => hm)
  intro i j hij
  rw [hsess] at hij
  exact h.owned c conn hc i j hij

/-! ## Connections -/

theorem Tables.buildConnection {m m' : Session} {sendBuf recvBuf : Message} (h : Tables m)
    (hbuild : buildConnection sendBuf recvBuf m = some m') :
    ∃ c conn, idleSlot m = some c ∧ m'.conns c = some conn ∧
      conn.sessChunkMap = (fun _ => none) ∧ conn.stopSem = 0 ∧ Tables m' ∧ Effect c m m' := by
  unfold Monitor.buildConnection at hbuild
  split at hbuild
  · cases hbuild
  rename_i c hslot
  have hidle : m.connsState c = .idle := by simpa using List.find?_some hslot
  obtain rfl := Option.some.inj hbuild
  refine ⟨c, _, hslot, Function.update_self .., rfl, rfl, ⟨?_, ?_, ?_⟩, ?_, ?_⟩
  · intro d
    by_cases hd : d = c
    · subst hd
      simp
    · simpa [hd] using h.idle d
  · intro d other hother
    by_cases hd : d = c
    · subst hd
      simp only [Function.update_self, Option.some.injEq] at hother
      rw [← hother]
    · simp only [Function.update_of_ne hd] at hother
      exact h.index d other hother
  · intro d other hother i j hij
    by_cases hd : d = c
    · subst hd
      simp only [Function.update_self, Option.some.injEq] at hother
      rw [← hother] at hij
      cases hij
    · simp only [Function.update_of_ne hd] at hother
      exact h.owned d other hother i j hij
  · intro d hd
    simp [hd]
  · exact fun d i _ hi => hi

theorem Tables.destroyConnection {m m' : Session} {c : ConnIx} (h : Tables m)
    (hdestroy : destroyConnection c m = some m') :
    m'.conns c = none ∧ Tables m' ∧ Effect c m m' := by
  unfold Monitor.destroyConnection at hdestroy
  split at hdestroy
  · cases hdestroy
  rename_i conn hc
  have hslot : conn.connIndex = c := h.index c conn hc
  -- whichever branch is taken, only chunks in this connection's table are unbound
  obtain ⟨connMap, mappedSize, hbranch, hmap⟩ : ∃ connMap mappedSize,
      (if conn.mappedChunkSize > 0 then
        ({ m with
          connMap := clearPicked conn.sessChunkMap none (List.finRange maxMrSizeGb) m.connMap
          mappedSize := m.mappedSize - conn.mappedChunkSize } : Session)
        else m) = { m with connMap := connMap, mappedSize := mappedSize } ∧
      ∀ d i, d ≠ c → m.connMap i = some d → connMap i = some d := by
    split
    · refine ⟨_, _, rfl, fun d i hd hi => ?_⟩
      rw [clearPicked_finRange, if_neg]
      · exact hi
      · rintro ⟨j, hj⟩
        obtain ⟨rfl, hown, -⟩ := h.owned c conn hc j i hj
        exact hd (Option.some.inj (hi.symm.trans hown))
    · exact ⟨_, _, rfl, fun d i _ hi => hi⟩
  rw [hbranch, hslot] at hdestroy
  obtain rfl := Option.some.inj hdestroy
  refine ⟨Function.update_self .., ⟨?_, ?_, ?_⟩, fun d hd => Function.update_of_ne hd _ _, hmap⟩
  · intro d
    by_cases hd : d = c
    · subst hd
      simp
    · simpa [hd] using h.idle d
  · intro d other hother
    by_cases hd : d = c
    · subst hd
      simp at hother
    · simp only [Function.update_of_ne hd] at hother
      exact h.index d other hother
  · intro d other hother i j hij
    by_cases hd : d = c
    · subst hd
      simp at hother
    · simp only [Function.update_of_ne hd] at hother
      obtain ⟨rfl, hown, hm⟩ := h.owned d other hother i j hij
      exact ⟨rfl, hmap d j hd hown, hm⟩

/-! ## Serving a message -/

/-- A message that takes no chunk from its connection: chunks may be added, and a
chunk named in the reply was unbound before and is the connection's now. -/
structure Grants (c : ConnIx) (m m' : Session) (conn conn' : Connection)
    (reply : Option Message) : Prop where
  stopSem : conn'.stopSem = conn.stopSem
  sess : ∀ i, conn.sessChunkMap i = some i → conn'.sessChunkMap i = some i
  connMap : ∀ i, m.connMap i = some c → m'.connMap i = some c
  replyType : ∀ r ∈ reply, r.type ≠ .stop
  named : ∀ r ∈ reply, r.type = .infoSingle → ∀ i, r.flagged i = true →
    conn'.sessChunkMap i = some i ∧ m.connMap i = none

/-- A `DONE`: the flagged chunks leave the connection's table and nothing is
sent. -/
structure Releases (msg : Message) (conn conn' : Connection) (reply : Option Message) :
    Prop where
  stopSem : conn'.stopSem = conn.stopSem + 1
  sess : ∀ i, conn'.sessChunkMap i =
    if msg.flagged i then none else conn.sessChunkMap i
  silent : reply = none

/-- Answering from the totals or not at all: only buffers and semaphores of the
connection change. -/
theorem Grants.putConn {m : Session} {c : ConnIx} {conn conn' : Connection}
    {reply : Option Message} (hstop : conn'.stopSem = conn.stopSem)
    (hsess : conn'.sessChunkMap = conn.sessChunkMap)
    (hreply : ∀ r ∈ reply, r.type ≠ .stop ∧ r.type ≠ .infoSingle) :
    Grants c m (m.putConn c conn') conn conn' reply := by
  refine ⟨hstop, fun i hi => by rw [hsess]; exact hi, fun i hi => hi, ?_, ?_⟩
  · exact fun r hr => (hreply r hr).1
  · exact fun r hr hinfo => absurd hinfo (hreply r hr).2

theorem Tables.markMapped {m m' : Session} {c k : ConnIx} {conn : Connection} (h : Tables m')
    (heffect : Effect c m m') (hc : m'.conns c = some conn) (hk : k = c) :
    Tables (m'.markMapped k) ∧ Effect c m (m'.markMapped k) := by
  subst hk
  refine ⟨⟨?_, h.index, h.owned⟩, heffect.conns, heffect.connMap⟩
  intro d
  by_cases hd : d = k
  · subst hd
    simp [Session.markMapped, hc]
  · simpa [Session.markMapped, hd] using h.idle d

/-- `send_single_mr` takes an unbound chunk or none. -/
theorem Tables.sendSingleMr {m : Session} {c : ConnIx} {conn₀ conn : Connection} (h : Tables m)
    (hc : m.conns c = some conn₀) {msg : Message} (hconn : conn = { conn₀ with recvMsg := msg })
    (mr : ChunkIx → Mr) (n : Int) :
    ∃ conn', (sendSingleMr mr c conn n m).1.conns c = some conn' ∧
      Tables (sendSingleMr mr c conn n m).1 ∧ Effect c m (sendSingleMr mr c conn n m).1 ∧
      Grants c m (sendSingleMr mr c conn n m).1 conn₀ conn'
        (some (sendSingleMr mr c conn n m).2) := by
  have hindex : conn₀.connIndex = c := h.index c conn₀ hc
  subst hconn
  unfold Monitor.sendSingleMr
  cases hfind : (List.finRange maxMrSizeGb).find? m.freeChunk with
  | none =>
      refine ⟨_, putConn_conns_self .., ?_⟩
      have htables := h.rewrite ((closeBind c 1 .infoSingle
        (m, ({ conn₀ with recvMsg := msg } : Connection).clearReply n)).1) hc rfl
        (fun _ => Iff.rfl) rfl (fun i j hij => h.owned c conn₀ hc i j hij)
        (fun d i _ hi => hi) (fun d i _ _ hm => hm)
      refine ⟨htables.1, htables.2, ⟨rfl, fun i hi => hi, fun i hi => hi, ?_, ?_⟩⟩
      · rintro r ⟨⟩
        simp [closeBind]
      · rintro r ⟨⟩ - i hi
        simp [closeBind, Connection.clearReply, Message.flagged] at hi
  | some k =>
      obtain ⟨hmalloc, hunbound⟩ := freeChunk_iff.mp (List.find?_some hfind)
      refine ⟨_, putConn_conns_self .., ?_⟩
      have hkeep : ∀ d i, m.connMap i = some d →
          Function.update m.connMap k (some conn₀.connIndex) i = some d := by
        intro d i hi
        rw [Function.update_of_ne]
        · exact hi
        · rintro rfl
          rw [hunbound] at hi
          cases hi
      have htables := h.rewrite ((closeBind c 1 .infoSingle (bindChunk mr k
        (m, ({ conn₀ with recvMsg := msg } : Connection).clearReply n))).1) hc rfl
        (fun _ => Iff.rfl) rfl (by
          intro i j hij
          change Function.update conn₀.sessChunkMap k (some k) i = some j at hij
          change j = i ∧ Function.update m.connMap k (some conn₀.connIndex) i = some c ∧ _
          by_cases hi : i = k
          · subst hi
            simp only [Function.update_self, Option.some.injEq] at hij ⊢
            exact ⟨hij.symm, hindex, hmalloc⟩
          · rw [Function.update_of_ne hi] at hij ⊢
            exact h.owned c conn₀ hc i j hij)
        (fun d i _ hi => hkeep d i hi) (fun d i _ _ hm => hm)
      refine ⟨htables.1, htables.2, ⟨rfl, ?_, fun i hi => hkeep c i hi, ?_, ?_⟩⟩
      · intro i hi
        change Function.update conn₀.sessChunkMap k (some k) i = some i
        by_cases hik : i = k
        · subst hik
          simp
        · rwa [Function.update_of_ne hik]
      · rintro r ⟨⟩
        simp [closeBind]
      · rintro r ⟨⟩ - i hi
        -- the reply was cleared, so the only key in it is the bound chunk's
        have hik : i = k := by
          by_contra hik
          simp [closeBind, bindChunk, Connection.clearReply, Message.flagged, hik] at hi
        subst hik
        exact ⟨Function.update_self .., hunbound⟩

/-- `recv_done` releases flagged chunks of its own connection only. -/
theorem Tables.recvDone {m m' : Session} {c : ConnIx} {conn₀ conn : Connection} (h : Tables m)
    (hc : m.conns c = some conn₀) {msg : Message} (hconn : conn = { conn₀ with recvMsg := msg })
    (hdone : recvDone c conn m = some m') :
    ∃ conn', m'.conns c = some conn' ∧ Tables m' ∧ Effect c m m' ∧
      Releases msg conn₀ conn' none := by
  have hindex : conn₀.connIndex = c := h.index c conn₀ hc
  obtain ⟨-, rfl⟩ := recvDone_cases hdone
  -- what is released belongs to this connection, and is not in its table afterwards
  have hreleased : ∀ j i, conn.released j = some i → j = i ∧ msg.flagged i = true ∧
      m.connMap i = some c := by
    intro j i hji
    subst hconn
    unfold Connection.released at hji
    split at hji
    · rename_i hflag
      obtain ⟨rfl, hown, -⟩ := h.owned c conn₀ hc j i hji
      exact ⟨rfl, hflag, hown⟩
    · cases hji
  have hkeep : ∀ {β : Type} (v : β) (t : ChunkIx → β) (i : ChunkIx),
      (msg.flagged i = false ∨ m.connMap i ≠ some c) →
      clearPicked conn.released v (List.finRange maxMrSizeGb) t i = t i := by
    intro β v t i hi
    rw [clearPicked_finRange, if_neg]
    rintro ⟨j, hj⟩
    obtain ⟨-, hflag, hown⟩ := hreleased j i hj
    rcases hi with hi | hi
    · rw [hflag] at hi
      cases hi
    · exact hi hown
  have hneq : ∀ d i, d ≠ c → m.connMap i = some d → m.connMap i ≠ some c := by
    intro d i hd hi hic
    exact hd (Option.some.inj (hi.symm.trans hic))
  refine ⟨_, putConn_conns_self .., ?_⟩
  rw [← and_assoc]
  refine ⟨h.rewrite _ hc rfl ?_ ?_ ?_ ?_ ?_, ?_⟩
  · intro d
    have hconnected : Function.update m.connsState conn.connIndex .connected d = .idle ↔
        m.connsState d = .idle := by
      by_cases hd : d = c
      · subst hd
        have hlive := (not_congr (h.idle d)).mpr (by simp [hc])
        simp [hconn, hindex, hlive]
      · simp [hconn, hindex, hd]
    change (ite _ _ m.connsState) d = ConnState.idle ↔ _
    split
    · exact hconnected
    · rfl
  · rw [hconn]
  · intro i j hij
    change (if conn.recvMsg.flagged i then none else conn.sessChunkMap i) = some j at hij
    split at hij
    · cases hij
    · rename_i hflag
      subst hconn
      obtain ⟨rfl, hown, hm⟩ := h.owned c conn₀ hc i j hij
      refine ⟨rfl, (hkeep _ _ j (.inl (Bool.eq_false_iff.mpr hflag))).trans hown, ?_⟩
      exact (hkeep _ _ j (.inl (Bool.eq_false_iff.mpr hflag))).trans hm
  · exact fun d i hd hi => (hkeep _ _ i (.inr (hneq d i hd hi))).trans hi
  · exact fun d i hd hi hm => (hkeep _ _ i (.inr (hneq d i hd hi))).trans hm
  · subst hconn
    exact ⟨rfl, fun i => rfl, rfl⟩

/-- Serving any message of a manager: it grants or it releases. -/
theorem Tables.onCompletion {m : Session} {c : ConnIx} {msg : Message} {mr : ChunkIx → Mr}
    {r : Session × Option Message} (h : Tables m) (hbind : msg.type ≠ .bind)
    (hrecv : onCompletion mr c msg m = some r) :
    ∃ conn conn', m.conns c = some conn ∧ r.1.conns c = some conn' ∧ Tables r.1 ∧
      Effect c m r.1 ∧ ((msg.type ≠ .done ∧ Grants c m r.1 conn conn' r.2) ∨
        (msg.type = .done ∧ Releases msg conn conn' r.2)) := by
  obtain ⟨conn₀, hc, conn, hconn, hcases⟩ := onCompletion_cases hrecv
  have hindex : conn.connIndex = conn₀.connIndex := by rw [hconn]
  have hsess : conn.sessChunkMap = conn₀.sessChunkMap := by rw [hconn]
  have hstop : conn.stopSem = conn₀.stopSem := by rw [hconn]
  refine ⟨conn₀, ?_⟩
  rcases hcases with ⟨ht, heq, hr⟩ | ⟨ht, -, -⟩ | ⟨ht, heq, hr⟩ | ⟨ht, heq, hr⟩ |
    ⟨ht, heq, hr⟩ | ⟨ht, heq, hr⟩
  · rw [heq, hr]
    have htables := h.putConn hc
      { conn with sendMsg := (sendFreeMemSize c conn m).2 } hindex hsess
    refine ⟨_, hc, putConn_conns_self .., htables.1, htables.2, .inl ⟨by simp [ht], ?_⟩⟩
    refine Grants.putConn hstop hsess ?_
    rintro r ⟨⟩
    simp [sendFreeMemSize]
  · exact absurd ht hbind
  · obtain ⟨conn', hconn', htables, heffect, hgrants⟩ :=
      h.sendSingleMr hc hconn mr msg.sizeGb
    have hmarked := htables.markMapped heffect hconn' (hindex.trans (h.index c conn₀ hc))
    rw [heq, hr]
    refine ⟨conn', hc, hconn', hmarked.1, hmarked.2, .inl ⟨by simp [ht], ?_⟩⟩
    exact ⟨hgrants.stopSem, hgrants.sess, hgrants.connMap, hgrants.replyType, hgrants.named⟩
  · rw [heq, hr]
    have htables := h.putConn hc { conn with evictSem := conn.evictSem + 1 }
      hindex hsess
    refine ⟨_, hc, putConn_conns_self .., htables.1, htables.2, .inl ⟨by simp [ht], ?_⟩⟩
    exact Grants.putConn hstop hsess (by simp)
  · rw [heq, hr]
    have htables := h.putConn hc
      { conn with sendMsg := (sendFaultDone c conn m).2 } hindex hsess
    refine ⟨_, hc, putConn_conns_self .., htables.1, htables.2, .inl ⟨by simp [ht], ?_⟩⟩
    refine Grants.putConn hstop hsess ?_
    rintro r ⟨⟩
    simp [sendFaultDone]
  · obtain ⟨conn', hconn', htables, heffect, hreleases⟩ := h.recvDone hc hconn heq
    rw [hr]
    exact ⟨conn', hc, hconn', htables, heffect, .inr ⟨ht, hreleases⟩⟩

/-! ## Growing and shrinking the pool -/

theorem Tables.freeMemExpand {m : Session} (h : Tables m) (lastFreeMemG : Int) :
    Tables (freeMemExpand lastFreeMemG m) := by
  have hgrow := doFirst_invariant (expandSize lastFreeMemG m) (fun t i => decide (t i = .empty))
    (fun i t => Function.update t i .malloced)
    (I := fun (t : ChunkIx → Alloc) _ => ∀ i, m.mallocMap i = .malloced → t i = .malloced)
    (by
      intro t n i ht _ j hj
      by_cases hji : j = i
      · simp [hji]
      · rw [Function.update_of_ne hji]
        exact ht j hj)
    (List.finRange maxMrSizeGb) 0 m.mallocMap (fun i hi => hi)
  refine ⟨h.idle, h.index, fun c conn hc i j hij => ?_⟩
  obtain ⟨hji, hown, hm⟩ := h.owned c conn hc i j hij
  exact ⟨hji, hown, hgrow i hm⟩

/-- The first phase of `evict_mem` frees unbound chunks only. -/
theorem evictFreeUnmapped_frame (stopG : Int) (m : Session) :
    ∃ mallocMap, (evictFreeUnmapped stopG m).1 =
        { m with mallocMap := mallocMap, sizeGb := (evictFreeUnmapped stopG m).1.sizeGb } ∧
      ∀ i, m.connMap i ≠ none → mallocMap i = m.mallocMap i := by
  have hloop := doFirst_invariant stopG (fun (m : Session) => m.freeChunk)
    (fun i m => { m with mallocMap := Function.update m.mallocMap i .empty })
    (I := fun (m₁ : Session) _ => m₁ = { m with mallocMap := m₁.mallocMap } ∧
      ∀ i, m.connMap i ≠ none → m₁.mallocMap i = m.mallocMap i)
    (by
      rintro m₁ n i ⟨hm₁, hkeep⟩ hfree
      refine ⟨by rw [hm₁], fun j hj => ?_⟩
      obtain ⟨-, hunbound⟩ := freeChunk_iff.mp hfree
      rw [hm₁] at hunbound
      have hji : j ≠ i := fun hji => hj (hji ▸ hunbound)
      change Function.update m₁.mallocMap i .empty j = _
      rw [Function.update_of_ne hji]
      exact hkeep j hj)
    (List.finRange maxMrSizeGb) 0 m ⟨rfl, fun i _ => rfl⟩
  refine ⟨_, ?_, hloop.2⟩
  unfold Monitor.evictFreeUnmapped
  simp only
  rw [hloop.1]

theorem Tables.evictFreeUnmapped {m : Session} (h : Tables m) (stopG : Int) :
    Tables (evictFreeUnmapped stopG m).1 := by
  obtain ⟨mallocMap, hframe, hkeep⟩ := evictFreeUnmapped_frame stopG m
  rw [hframe]
  refine ⟨h.idle, h.index, fun c conn hc i j hij => ?_⟩
  obtain ⟨hji, hown, hm⟩ := h.owned c conn hc i j hij
  exact ⟨hji, hown, (hkeep i (by simp [hown])).trans hm⟩

end Hydra.Monitor
