/-
  Monitor/Connections.lean --- the connection table.

  Source: `build_connection` and `destroy_connection` of
  `resource_monitor/rdma-common.c`, and `on_event` of `daemon.c`.

  A connection is allocated by `malloc` and finds the first idle slot of the table; with
  no slot idle it goes on with the `conn_index` that `malloc` left there.  Here connections
  have an identity of their own, so that a slot can be seen to point to one, and the index
  each of them holds is a field beside the table.  The handlers of `Session` work on the
  connection a slot points to.
-/
import Hydra.Monitor.Accounting

set_option autoImplicit false

namespace Hydra.Monitor

open Hydra.Foundation Hydra.Wire

/-! ## Connections by identity -/

/-- The session with its connections: `owner i` is the connection `conns[i]` points to,
`live` are the connections not yet destroyed, and `connIndex` is each one's
`conn_index`. -/
structure Directory where
  session : Session
  owner : ConnIx → Option Nat
  live : List Nat
  connIndex : Nat → Int
  made : Nat

/-- What the monitor's event loops do with connections.  `unset` is the index `malloc`
left in a new one. -/
inductive ConnAction where
  | connect (sendBuf recvBuf : Message) (unset : Int)
  | disconnect (id : Nat)
  | receive (id : Nat) (msg : Message) (mr : ChunkIx → Mr)

/-- An index as a slot of the table. -/
def slotOf (index : Int) : Option ConnIx :=
  if h : 0 ≤ index ∧ index < maxClient then some ⟨index.toNat, by omega⟩ else none

/-- `destroy_connection` of a connection that has no slot of its own: it clears the slot
its index happens to name. -/
def clearSlot (i : ConnIx) (m : Session) : Session :=
  { m with
    conns := Function.update m.conns i none
    connsState := Function.update m.connsState i .idle
    connNum := m.connNum - 1
    running := if m.connNum - 1 = 0 then false else m.running }

/-- One event. -/
def connStep (d : Directory) : ConnAction → Option Directory
  | .connect sendBuf recvBuf unset =>
      match idleSlot d.session with
      | some i =>
          (buildConnection sendBuf recvBuf d.session).map fun m =>
            { session := m
              owner := Function.update d.owner i (some d.made)
              live := d.made :: d.live
              connIndex := Function.update d.connIndex d.made i.val
              made := d.made + 1 }
      | none =>
          some
            { d with
              session := { d.session with connNum := d.session.connNum + 1 }
              live := d.made :: d.live
              connIndex := Function.update d.connIndex d.made unset
              made := d.made + 1 }
  | .disconnect id =>
      if id ∈ d.live then
        (slotOf (d.connIndex id)).bind fun i =>
          (if d.owner i = some id then destroyConnection i d.session
            else some (clearSlot i d.session)).map fun m =>
            { d with
              session := m
              owner := Function.update d.owner i none
              live := d.live.erase id }
      else none
  | .receive id msg mr =>
      if id ∈ d.live then
        (slotOf (d.connIndex id)).bind fun i =>
          if d.owner i = some id then
            (onCompletion mr i msg d.session).map fun r => { d with session := r.1 }
          else none
      else none

/-- A monitor just started. -/
def directoryInit (freeMemG : Int) : Directory where
  session := rdmaSessionInit freeMemG
  owner := fun _ => none
  live := []
  connIndex := fun _ => -1
  made := 0

/-- The table is sound: every live connection has a slot of its own that points to it, a
slot is idle exactly if it points nowhere, `conn_num` counts the live connections, and the
thread of `free_mem` runs while there are any. -/
structure ConnectionsOk (d : Directory) : Prop where
  indexed : ∀ id ∈ d.live, ∃ i : ConnIx, d.connIndex id = i.val ∧ d.owner i = some id
  distinct : ∀ id ∈ d.live, ∀ id' ∈ d.live, d.connIndex id = d.connIndex id' → id = id'
  idle : ∀ i, d.session.connsState i = .idle ↔ d.owner i = none
  null : ∀ i, d.session.conns i = none ↔ d.owner i = none
  count : d.session.connNum = d.live.length
  running : 0 < d.session.connNum → d.session.running = true

/-- A connect request that finds a slot idle and the thread of `free_mem` running. -/
def Room (d : Directory) : ConnAction → Prop
  | .connect _ _ _ => (idleSlot d.session).isSome = true ∧ d.session.running = true
  | .disconnect _ | .receive _ _ _ => True

/-! ## Serving messages leaves the table alone -/

/-- The same slots are taken, by the same indices. -/
structure SameSlots (m m' : Session) : Prop where
  connNum : m'.connNum = m.connNum
  running : m'.running = m.running
  conns : ∀ c, (m'.conns c).map (·.connIndex) = (m.conns c).map (·.connIndex)
  idle : ∀ c, m'.connsState c = .idle ↔ m.connsState c = .idle

theorem SameSlots.none_iff {m m' : Session} (h : SameSlots m m') (c : ConnIx) :
    m'.conns c = none ↔ m.conns c = none := by
  rw [← Option.map_eq_none_iff (f := (·.connIndex)), h.conns, Option.map_eq_none_iff]

/-- A connection written back to its slot. -/
theorem sameSlots_putConn {m m₁ : Session} {c : ConnIx} {conn conn' : Connection}
    (hc : m.conns c = some conn) (hindex : conn'.connIndex = conn.connIndex)
    (hnum : m₁.connNum = m.connNum) (hrunning : m₁.running = m.running)
    (hconns : m₁.conns = m.conns) (hidle : ∀ d, m₁.connsState d = .idle ↔ m.connsState d = .idle) :
    SameSlots m (m₁.putConn c conn') := by
  refine ⟨hnum, hrunning, fun d => ?_, hidle⟩
  by_cases hd : d = c
  · subst hd
    rw [putConn_conns_self, hc, Option.map_some, Option.map_some, hindex]
  · rw [putConn_conns_of_ne hd, hconns]

theorem SameSlots.markMapped {m m' : Session} {c : ConnIx} (h : SameSlots m m')
    (hbusy : m.connsState c ≠ .idle) : SameSlots m (m'.markMapped c) := by
  refine ⟨h.connNum, h.running, h.conns, fun d => ?_⟩
  by_cases hd : d = c
  · subst hd
    simp [Session.markMapped, hbusy]
  · simp only [Session.markMapped, Function.update_of_ne hd]
    exact h.idle d

theorem sameSlots_closeBind {m : Session} {c : ConnIx} {conn : Connection}
    {st : Session × Connection} (hc : m.conns c = some conn)
    (hframe : st.1 = { m with connMap := st.1.connMap })
    (hindex : st.2.connIndex = conn.connIndex) (amount : Int) (type : MsgType) :
    SameSlots m (closeBind c amount type st).1 := by
  refine sameSlots_putConn hc hindex ?_ ?_ ?_ fun d => ?_
  all_goals rw [hframe]

/-- The bind loop writes no more than `conn_map`, the entries of its connection and its
reply. -/
theorem bindChunk_frame (mr : ChunkIx → Mr) {m : Session} {index : ConnIx} (limit : Int)
    (l : List ChunkIx) (st : Session × Connection)
    (hframe : st.1 = { m with connMap := st.1.connMap }) (hindex : st.2.connIndex = index) :
    let r := (doFirst (fun st => st.1.freeChunk) (bindChunk mr) limit l 0 st).1
    r.1 = { m with connMap := r.1.connMap } ∧ r.2.connIndex = index := by
  refine doFirst_invariant limit (fun st => st.1.freeChunk) (bindChunk mr)
    (I := fun st _ => st.1 = { m with connMap := st.1.connMap } ∧ st.2.connIndex = index)
    (fun st n i hst _ => ?_) l 0 st ⟨hframe, hindex⟩
  exact ⟨congrArg (fun s : Session => { s with connMap := (bindChunk mr i st).1.connMap }) hst.1,
    hst.2⟩

theorem sameSlots_onCompletion {m : Session} {c : ConnIx} {msg : Message} {mr : ChunkIx → Mr}
    {r : Session × Option Message} (hslots : ∀ c conn, m.conns c = some conn → conn.connIndex = c)
    (hbusy : m.connsState c ≠ .idle) (hrecv : onCompletion mr c msg m = some r) :
    SameSlots m r.1 := by
  obtain ⟨conn₀, hc, conn, hconn, hcases⟩ := onCompletion_cases hrecv
  have hindex : conn.connIndex = conn₀.connIndex := by rw [hconn]
  have hslot : conn.connIndex = c := hindex.trans (hslots c conn₀ hc)
  rcases hcases with ⟨-, heq, -⟩ | ⟨-, heq, -⟩ | ⟨-, heq, -⟩ | ⟨-, heq, -⟩ | ⟨-, heq, -⟩ |
    ⟨-, hdone, -⟩
  · rw [heq]
    exact sameSlots_putConn hc hindex rfl rfl rfl fun _ => Iff.rfl
  · rw [heq, hslot]
    obtain ⟨hframe, hkept⟩ := bindChunk_frame mr msg.sizeGb (List.finRange maxMrSizeGb)
      (m, conn.clearReply msg.sizeGb) (m := m) rfl hindex
    exact (sameSlots_closeBind hc hframe hkept msg.sizeGb .info).markMapped hbusy
  · rw [heq, hslot]
    refine SameSlots.markMapped ?_ hbusy
    unfold sendSingleMr
    split
    · exact sameSlots_closeBind hc rfl hindex 1 .infoSingle
    · exact sameSlots_closeBind hc rfl hindex 1 .infoSingle
  · rw [heq]
    exact sameSlots_putConn hc hindex rfl rfl rfl fun _ => Iff.rfl
  · rw [heq]
    exact sameSlots_putConn hc hindex rfl rfl rfl fun _ => Iff.rfl
  · rw [(recvDone_cases hdone).2]
    refine sameSlots_putConn hc hindex rfl rfl rfl fun d => ?_
    simp only
    split
    · by_cases hd : d = c
      · subst hd
        simp [hslot, hbusy]
      · rw [hslot, Function.update_of_ne hd]
    · exact Iff.rfl

/-! ## The invariant -/

/-- The table and the identities behind it. -/
structure DirectoryOk (d : Directory) : Prop where
  table : ConnectionsOk d
  slots : ∀ i conn, d.session.conns i = some conn → conn.connIndex = i
  owners : ∀ i id, d.owner i = some id → id ∈ d.live ∧ d.connIndex id = i.val
  fresh : ∀ id ∈ d.live, id < d.made
  nodup : d.live.Nodup

theorem directoryOk_init (freeMemG : Int) : DirectoryOk (directoryInit freeMemG) where
  table :=
    { indexed := fun id hid => by cases hid
      distinct := fun id hid => by cases hid
      idle := fun _ => iff_of_true rfl rfl
      null := fun _ => iff_of_true rfl rfl
      count := rfl
      running := fun _ => rfl }
  slots := fun i conn h => by cases h
  owners := fun i id h => by cases h
  fresh := fun id hid => by cases hid
  nodup := List.nodup_nil

/-- Different live connections have different indices once each one's slot points to
it. -/
theorem distinct_of_indexed {live : List Nat} {connIndex : Nat → Int}
    {owner : ConnIx → Option Nat}
    (hindexed : ∀ id ∈ live, ∃ i : ConnIx, connIndex id = i.val ∧ owner i = some id) :
    ∀ id ∈ live, ∀ id' ∈ live, connIndex id = connIndex id' → id = id' := by
  intro id hid id' hid' heq
  obtain ⟨i, hi, howner⟩ := hindexed id hid
  obtain ⟨i', hi', howner'⟩ := hindexed id' hid'
  rw [hi, hi'] at heq
  have hsame : i = i' := Fin.ext (by exact_mod_cast heq)
  subst hsame
  exact Option.some.inj (howner.symm.trans howner')

theorem slotOf_val (i : ConnIx) : slotOf (i.val : Int) = some i := by
  have hlt := i.isLt
  unfold slotOf
  rw [dif_pos ⟨by omega, by exact_mod_cast hlt⟩]
  simp

theorem DirectoryOk.connect {d d' : Directory} {sendBuf recvBuf : Message} {unset : Int}
    (h : DirectoryOk d) (hroom : Room d (.connect sendBuf recvBuf unset))
    (hstep : connStep d (.connect sendBuf recvBuf unset) = some d') : DirectoryOk d' := by
  obtain ⟨hslot, hrunning⟩ := hroom
  obtain ⟨i, hi⟩ := Option.isSome_iff_exists.mp hslot
  have hidle : d.session.connsState i = .idle := by simpa using List.find?_some hi
  have hfree : d.owner i = none := (h.table.idle i).mp hidle
  simp only [connStep, hi, buildConnection, Option.map_some] at hstep
  obtain rfl := Option.some.inj hstep
  have hold : ∀ id ∈ d.live, id ≠ d.made := fun id hid => (h.fresh id hid).ne
  have hindexed : ∀ id ∈ d.made :: d.live, ∃ k : ConnIx,
      Function.update d.connIndex d.made (i.val : Int) id = k.val ∧
        Function.update d.owner i (some d.made) k = some id := by
    intro id hid
    rcases List.mem_cons.mp hid with rfl | hid
    · exact ⟨i, by rw [Function.update_self], by rw [Function.update_self]⟩
    · obtain ⟨k, hk, howner⟩ := h.table.indexed id hid
      have hki : k ≠ i := by
        rintro rfl
        rw [hfree] at howner
        cases howner
      exact ⟨k, by rw [Function.update_of_ne (hold id hid), hk],
        by rw [Function.update_of_ne hki, howner]⟩
  refine ⟨⟨hindexed, distinct_of_indexed hindexed, fun k => ?_, fun k => ?_,
    ?_, fun _ => hrunning⟩, fun k conn hk => ?_, fun k id hk => ?_, fun id hid => ?_, ?_⟩
  · by_cases hki : k = i
    · subst hki
      simp
    · simp only [Function.update_of_ne hki]
      exact h.table.idle k
  · by_cases hki : k = i
    · subst hki
      simp
    · simp only [Function.update_of_ne hki]
      exact h.table.null k
  · have hcount := h.table.count
    simp only [List.length_cons]
    push_cast
    omega
  · by_cases hki : k = i
    · subst hki
      simp only [Function.update_self, Option.some.injEq] at hk
      rw [← hk]
    · simp only [Function.update_of_ne hki] at hk
      exact h.slots k conn hk
  · by_cases hki : k = i
    · subst hki
      simp only [Function.update_self, Option.some.injEq] at hk
      subst hk
      exact ⟨List.mem_cons_self, by simp⟩
    · simp only [Function.update_of_ne hki] at hk
      obtain ⟨hlive, hindex⟩ := h.owners k id hk
      exact ⟨List.mem_cons_of_mem _ hlive, by
        simp only [Function.update_of_ne (hold id hlive)]
        exact hindex⟩
  · rcases List.mem_cons.mp hid with rfl | hid
    · exact Nat.lt_succ_self _
    · exact Nat.lt_succ_of_lt (h.fresh id hid)
  · exact List.nodup_cons.mpr ⟨fun hmem => hold _ hmem rfl, h.nodup⟩

/-- What `destroy_connection` does to the table. -/
theorem destroyConnection_slots {m m' : Session} {c : ConnIx} {conn : Connection}
    (hc : m.conns c = some conn) (hslot : conn.connIndex = c)
    (hdestroy : destroyConnection c m = some m') :
    m'.conns = Function.update m.conns c none ∧
      m'.connsState = Function.update m.connsState c .idle ∧ m'.connNum = m.connNum - 1 ∧
      m'.running = if m.connNum - 1 = 0 then false else m.running := by
  simp only [destroyConnection, hc, hslot] at hdestroy
  obtain rfl := Option.some.inj hdestroy
  split <;> exact ⟨rfl, rfl, rfl, rfl⟩

theorem DirectoryOk.disconnect {d d' : Directory} {id : Nat} (h : DirectoryOk d)
    (hstep : connStep d (.disconnect id) = some d') : DirectoryOk d' := by
  simp only [connStep] at hstep
  split at hstep
  case isFalse => cases hstep
  rename_i hlive
  obtain ⟨i, hindex, howner⟩ := h.table.indexed id hlive
  rw [hindex, slotOf_val, Option.bind_some, if_pos howner] at hstep
  obtain ⟨m, hdestroy, rfl⟩ := Option.map_eq_some_iff.mp hstep
  obtain ⟨conn, hconn⟩ : ∃ conn, d.session.conns i = some conn := by
    apply Option.ne_none_iff_exists'.mp
    rw [Ne, h.table.null, howner]
    simp
  obtain ⟨hconns, hstates, hnum, hrunning⟩ :=
    destroyConnection_slots hconn (h.slots i conn hconn) hdestroy
  have hstay : ∀ id' ∈ d.live.erase id, id' ∈ d.live ∧ id' ≠ id := by
    intro id' hid'
    exact ⟨List.mem_of_mem_erase hid', fun heq => h.nodup.not_mem_erase (heq ▸ hid')⟩
  have hindexed : ∀ id' ∈ d.live.erase id, ∃ k : ConnIx, d.connIndex id' = k.val ∧
      Function.update d.owner i none k = some id' := by
    intro id' hid'
    obtain ⟨hmem, hne⟩ := hstay id' hid'
    obtain ⟨k, hk, hk'⟩ := h.table.indexed id' hmem
    have hki : k ≠ i := by
      rintro rfl
      exact hne (Option.some.inj (hk'.symm.trans howner))
    exact ⟨k, hk, by rw [Function.update_of_ne hki, hk']⟩
  have hcount := h.table.count
  have hlen : (d.live.erase id).length = d.live.length - 1 := List.length_erase_of_mem hlive
  have hpos : 0 < d.live.length := List.length_pos_of_mem hlive
  refine ⟨⟨hindexed, distinct_of_indexed hindexed, fun k => ?_, fun k => ?_,
    ?_, fun hsome => ?_⟩, fun k other hk => ?_, fun k id' hk => ?_, fun id' hid' => ?_,
    h.nodup.erase id⟩
  · rw [hstates]
    by_cases hki : k = i
    · subst hki
      simp
    · simp only [Function.update_of_ne hki]
      exact h.table.idle k
  · rw [hconns]
    by_cases hki : k = i
    · subst hki
      simp
    · simp only [Function.update_of_ne hki]
      exact h.table.null k
  · rw [hnum, hlen, hcount]
    omega
  · rw [hnum] at hsome
    rw [hrunning, if_neg (by omega)]
    exact h.table.running (by omega)
  · rw [hconns] at hk
    by_cases hki : k = i
    · subst hki
      simp at hk
    · rw [Function.update_of_ne hki] at hk
      exact h.slots k other hk
  · by_cases hki : k = i
    · subst hki
      simp at hk
    · simp only [Function.update_of_ne hki] at hk
      obtain ⟨hmem, hat⟩ := h.owners k id' hk
      refine ⟨?_, hat⟩
      apply (List.mem_erase_of_ne ?_).mpr hmem
      rintro rfl
      rw [hindex] at hat
      exact hki (Fin.ext (by exact_mod_cast hat.symm))
  · exact h.fresh id' (hstay id' hid').1

theorem DirectoryOk.receive {d d' : Directory} {id : Nat} {msg : Message} {mr : ChunkIx → Mr}
    (h : DirectoryOk d) (hstep : connStep d (.receive id msg mr) = some d') : DirectoryOk d' := by
  simp only [connStep] at hstep
  split at hstep
  case isFalse => cases hstep
  obtain ⟨i, -, hstep⟩ := Option.bind_eq_some_iff.mp hstep
  split at hstep
  case isFalse => cases hstep
  rename_i howner
  obtain ⟨r, hrecv, rfl⟩ := Option.map_eq_some_iff.mp hstep
  have hbusy : d.session.connsState i ≠ .idle := by
    rw [Ne, h.table.idle, howner]
    simp
  have hsame := sameSlots_onCompletion h.slots hbusy hrecv
  refine ⟨⟨h.table.indexed, h.table.distinct, fun k => ?_, fun k => ?_, ?_, fun hsome => ?_⟩,
    fun k conn hk => ?_, h.owners, h.fresh, h.nodup⟩
  · rw [hsame.idle]
    exact h.table.idle k
  · rw [hsame.none_iff]
    exact h.table.null k
  · rw [hsame.connNum]
    exact h.table.count
  · rw [hsame.running]
    rw [hsame.connNum] at hsome
    exact h.table.running hsome
  · have hmap := hsame.conns k
    rw [hk, Option.map_some] at hmap
    obtain ⟨conn', hconn', heq⟩ := Option.map_eq_some_iff.mp hmap.symm
    rw [← heq]
    exact h.slots k conn' hconn'

theorem DirectoryOk.step {d d' : Directory} {a : ConnAction} (h : DirectoryOk d)
    (hroom : Room d a) (hstep : connStep d a = some d') : DirectoryOk d' := by
  cases a with
  | connect sendBuf recvBuf unset => exact h.connect hroom hstep
  | disconnect id => exact h.disconnect hstep
  | receive id msg mr => exact h.receive hstep

/-- A connect request without room breaks the table: with no slot idle nothing points to
the new connection, and after the last client left `running` stays 0. -/
theorem not_connectionsOk_of_not_room {d d' : Directory} {a : ConnAction} (h : DirectoryOk d)
    (hroom : ¬ Room d a) (hstep : connStep d a = some d') : ¬ ConnectionsOk d' := by
  cases a with
  | disconnect | receive => exact absurd trivial hroom
  | connect sendBuf recvBuf unset =>
      intro hok
      simp only [connStep] at hstep
      split at hstep
      · rename_i i hi
        have hstopped : d.session.running ≠ true := fun hrunning =>
          hroom ⟨by rw [hi]; rfl, hrunning⟩
        simp only [buildConnection, hi, Option.map_some] at hstep
        obtain rfl := Option.some.inj hstep
        have hcount := h.table.count
        exact hstopped (hok.running (by change 0 < d.session.connNum + 1; omega))
      · obtain rfl := Option.some.inj hstep
        obtain ⟨i, -, howner⟩ := hok.indexed d.made List.mem_cons_self
        exact absurd (h.fresh d.made (h.owners i d.made howner).1) (lt_irrefl _)

/-- In every run whose connect requests find a slot idle and the thread of `free_mem`
running, the connection table is sound; any other connect request breaks it. -/
theorem connection_table_sound (freeMemG : Int) (d : Directory)
    (hrun : Reach connStep Room (directoryInit freeMemG) d) :
    ConnectionsOk d ∧ ∀ a d', ¬ Room d a → connStep d a = some d' → ¬ ConnectionsOk d' := by
  have hok : DirectoryOk d := hrun.invariant (directoryOk_init freeMemG)
    (fun u a v hu hroom hstep => hu.step hroom hstep)
  exact ⟨hok.table, fun a d' hroom hstep => not_connectionsOk_of_not_room hok hroom hstep⟩

/-- Two clients come, one of them binds and leaves, and a third one comes. -/
def comeAndGo : List ConnAction :=
  [.connect (.plain .done 0) (.plain .done 0) 77, .connect (.plain .done 0) (.plain .done 0) 77,
    .receive 0 (.plain .bindSingle 0) (fun _ => ⟨0, 1⟩), .disconnect 0,
    .connect (.plain .done 0) (.plain .done 0) 77]

instance (d : Directory) (a : ConnAction) : Decidable (Room d a) :=
  match a with
  | .connect _ _ _ =>
      inferInstanceAs (Decidable ((idleSlot d.session).isSome = true ∧ d.session.running = true))
  | .disconnect _ | .receive _ _ _ => isTrue trivial

theorem connection_table_sound_comeAndGo :
    ∃ d, runActions connStep (directoryInit 12) comeAndGo = some d ∧ d.live = [2, 1] ∧
      ConnectionsOk d := by
  have hrun : ((runActions connStep (directoryInit 12) comeAndGo).map fun d => d.live) =
      some [2, 1] := by
    decide +kernel
  have hmeet : AllMeet connStep Room (directoryInit 12) comeAndGo := by
    decide +kernel
  obtain ⟨d, hd, hlive⟩ := Option.map_eq_some_iff.mp hrun
  exact ⟨d, hd, hlive, (connection_table_sound 12 d (reach_of_runActions hd hmeet)).1⟩

/-- A client that comes after the last one left is connected while `running` is 0. -/
theorem reconnect_not_running :
    ∃ d, runActions connStep (directoryInit 12)
        [.connect (.plain .done 0) (.plain .done 0) 77, .disconnect 0,
          .connect (.plain .done 0) (.plain .done 0) 77] = some d ∧
      d.session.connNum = 1 ∧ d.session.running = false ∧ ¬ ConnectionsOk d := by
  have hrun : ((runActions connStep (directoryInit 12)
      [.connect (.plain .done 0) (.plain .done 0) 77, .disconnect 0,
        .connect (.plain .done 0) (.plain .done 0) 77]).map fun d =>
          (d.session.connNum, d.session.running)) = some (1, false) := by
    decide +kernel
  obtain ⟨d, hd, heq⟩ := Option.map_eq_some_iff.mp hrun
  obtain ⟨hnum, hrunning⟩ := Prod.mk.inj heq
  refine ⟨d, hd, hnum, hrunning, fun hok => ?_⟩
  have htrue := hok.running (by rw [hnum]; decide)
  rw [hrunning] at htrue
  cases htrue

end Hydra.Monitor
