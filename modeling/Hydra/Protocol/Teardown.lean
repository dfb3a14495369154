/-
  Protocol/Teardown.lean --- giving the slabs back when the device goes.

  Source: `IS_destroy_device` of `resilience_manager/is_main.c`, with `recv_done` and
  `destroy_connection` of `resource_monitor/rdma-common.c`.

  `IS_destroy_device` announces every mapped slab by a `DONE` of its own, through the
  send buffer the last eviction wrote its flags into.  The monitor takes the size of a
  `DONE` off its totals and releases the chunks its flags name, and the disconnect that
  follows gives chunks up only while the total of the connection is positive.
-/
import Hydra.Manager.SlabMap
import Hydra.Monitor.Accounting

set_option autoImplicit false

namespace Hydra.Protocol

open Hydra.Foundation Hydra.Wire Hydra.Monitor

/-! ## The manager -/

/-- One turn of the loop of `IS_destroy_device`, with the messages posted so far. -/
def unmapSlab (st : Manager.Session × List (Nat × Message)) (j : Nat) :
    Manager.Session × List (Nat × Message) :=
  match st.1.cbIndexMap j with
  | none => st
  | some b =>
      let cb := Manager.isSendDone (st.1.cb b) 1
      (st.1.putCb b cb, st.2 ++ [(b, cb.sendBuf)])

/-- `IS_destroy_device`: the session and the messages posted, each with its server. -/
def isDestroyDevice (cfg : Manager.Config) (s : Manager.Session) :
    Manager.Session × List (Nat × Message) :=
  (List.range cfg.disksizeG).foldl unmapSlab (s, [])

/-- The messages one server gets, in order. -/
def sentTo (b : Nat) (sent : List (Nat × Message)) : List Message :=
  (sent.filter fun e => decide (e.1 = b)).map Prod.snd

/-- The session chunks on a server. -/
def chunksOn (cfg : Manager.Config) (s : Manager.Session) (b : Nat) : List Nat :=
  (List.range cfg.disksizeG).filter fun j => decide (s.cbIndexMap j = some b)

/-- What every `DONE` of the teardown looks like: size one, and the flags that were in
the buffer. -/
structure TeardownDone (flags : ChunkIx → Bool) (msg : Message) : Prop where
  type : msg.type = .done
  size : msg.sizeGb = 1
  flagged : ∀ i, msg.flagged i = flags i

theorem sentTo_concat (b : Nat) (sent : List (Nat × Message)) (d : Nat) (msg : Message) :
    sentTo b (sent ++ [(d, msg)]) = sentTo b sent ++ if d = b then [msg] else [] := by
  by_cases hd : d = b
  · simp [sentTo, hd]
  · simp [sentTo, hd]

/-- During the loop: the tables and the flags of the buffer are as they were, and every
message so far is one of the teardown's. -/
structure Unmapping (s : Manager.Session) (b : Nat)
    (st : Manager.Session × List (Nat × Message)) : Prop where
  index : st.1.cbIndexMap = s.cbIndexMap
  flags : ∀ i, (st.1.cb b).sendBuf.flagged i = (s.cb b).sendBuf.flagged i
  sent : ∀ msg ∈ sentTo b st.2, TeardownDone (s.cb b).sendBuf.flagged msg

/-- A turn posts one message to the server the session chunk is on. -/
theorem Unmapping.unmapSlab {s : Manager.Session} {b : Nat}
    {st : Manager.Session × List (Nat × Message)} (h : Unmapping s b st) (j : Nat) :
    Unmapping s b (unmapSlab st j) ∧
      (sentTo b (Protocol.unmapSlab st j).2).length =
        (sentTo b st.2).length + if s.cbIndexMap j = some b then 1 else 0 := by
  cases hj : s.cbIndexMap j with
  | none =>
      have hskip : Protocol.unmapSlab st j = st := by
        rw [Protocol.unmapSlab, h.index, hj]
      rw [hskip, if_neg (by simp)]
      exact ⟨h, rfl⟩
  | some d =>
      have hpost : Protocol.unmapSlab st j =
          (st.1.putCb d (Manager.isSendDone (st.1.cb d) 1),
            st.2 ++ [(d, (Manager.isSendDone (st.1.cb d) 1).sendBuf)]) := by
        rw [Protocol.unmapSlab, h.index, hj]
      rw [hpost]
      by_cases hd : d = b
      · subst hd
        refine ⟨⟨h.index, fun i => ?_, fun msg hmsg => ?_⟩, ?_⟩
        · simp only [Manager.Session.putCb, Function.update_self]
          exact h.flags i
        · rw [sentTo_concat, if_pos rfl] at hmsg
          rcases List.mem_append.mp hmsg with hold | hnew
          · exact h.sent msg hold
          · obtain rfl := List.mem_singleton.mp hnew
            exact ⟨rfl, rfl, h.flags⟩
        · rw [sentTo_concat, if_pos rfl, if_pos rfl, List.length_append]
          rfl
      · refine ⟨⟨h.index, fun i => ?_, fun msg hmsg => ?_⟩, ?_⟩
        · simp only [Manager.Session.putCb, Function.update_of_ne (Ne.symm hd)]
          exact h.flags i
        · rw [sentTo_concat, if_neg hd, List.append_nil] at hmsg
          exact h.sent msg hmsg
        · rw [sentTo_concat, if_neg hd, List.append_nil, if_neg (by simpa using hd)]
          rfl

theorem Unmapping.foldl {s : Manager.Session} {b : Nat} (l : List Nat)
    {st : Manager.Session × List (Nat × Message)} (h : Unmapping s b st) :
    Unmapping s b (l.foldl Protocol.unmapSlab st) ∧
      (sentTo b (l.foldl Protocol.unmapSlab st).2).length =
        (sentTo b st.2).length + (l.filter fun j => decide (s.cbIndexMap j = some b)).length := by
  induction l generalizing st with
  | nil => exact ⟨h, rfl⟩
  | cons j rest ih =>
      obtain ⟨hstep, hturn⟩ := h.unmapSlab j
      obtain ⟨hrest, hlen⟩ := ih hstep
      refine ⟨hrest, ?_⟩
      rw [List.foldl_cons, hlen, hturn, List.filter_cons]
      by_cases hj : s.cbIndexMap j = some b
      · rw [if_pos hj, if_pos (decide_eq_true hj), List.length_cons]
        omega
      · rw [if_neg hj, if_neg (by simpa using hj), Nat.add_zero]

/-- One `DONE` for each session chunk on the server, all of them alike. -/
theorem isDestroyDevice_sentTo (cfg : Manager.Config) (s : Manager.Session) (b : Nat) :
    (sentTo b (isDestroyDevice cfg s).2).length = (chunksOn cfg s b).length ∧
      ∀ msg ∈ sentTo b (isDestroyDevice cfg s).2,
        TeardownDone (s.cb b).sendBuf.flagged msg := by
  have hstart : Unmapping s b (s, []) := ⟨rfl, fun _ => rfl, fun msg hmem => by cases hmem⟩
  obtain ⟨hend, hlen⟩ := hstart.foldl (List.range cfg.disksizeG)
  refine ⟨?_, hend.sent⟩
  rw [isDestroyDevice, hlen]
  exact Nat.zero_add _

/-! ## The monitor -/

/-- `on_completion` for one message after another from a connection. -/
def recvAll (mr : ChunkIx → Mr) (c : ConnIx) : List Message → Session → Option Session
  | [], m => some m
  | msg :: rest, m => (onCompletion mr c msg m).bind fun r => recvAll mr c rest r.1

/-- Both sides agree on the mapped chunks of a connection: the session chunks the manager
has on the server are backed by the chunks the monitor has bound to it, one by one. -/
structure Agree (cfg : Manager.Config) (s : Manager.Session) (b : Nat) (m : Session)
    (c : ConnIx) : Prop where
  backed : ∀ j ∈ chunksOn cfg s b, ∃ i, s.chunkMapCbChunk j = some i ∧ m.connMap i = some c
  listed : ∀ i, m.connMap i = some c → ∃ j ∈ chunksOn cfg s b, s.chunkMapCbChunk j = some i
  once : ∀ j ∈ chunksOn cfg s b, ∀ k ∈ chunksOn cfg s b,
    s.chunkMapCbChunk j = s.chunkMapCbChunk k → j = k

/-- The teardown gives every slab back: `recv_done` gets through all of its messages
without an index of `-1`, and after the disconnect no chunk is left to the connection and
both totals are the counts they stand for. -/
def GivesBack (cfg : Manager.Config) (s : Manager.Session) (b : Nat) (mr : ChunkIx → Mr)
    (m : Session) (c : ConnIx) : Prop :=
  ∃ m₁ m₂, recvAll mr c (sentTo b (isDestroyDevice cfg s).2) m = some m₁ ∧
    destroyConnection c m₁ = some m₂ ∧ (∀ i, m₂.connMap i ≠ some c) ∧
    m₂.sizeGb = m₂.mallocCount ∧ m₂.mappedSize = m₂.mapCount

/-- The teardowns that do: of a connection without chunks, and of one with a single chunk
that is the very one the last eviction left flagged. -/
def Returnable (s : Manager.Session) (b : Nat) (m : Session) (c : ConnIx) : Prop :=
  (∀ i, m.connMap i ≠ some c) ∨
    ∃ i, ∀ k, (m.connMap k = some c ↔ k = i) ∧ ((s.cb b).sendBuf.flagged k = true ↔ k = i)

theorem onCompletion_done {mr : ChunkIx → Mr} {c : ConnIx} {msg : Message} {m : Session}
    {conn : Connection} (hc : m.conns c = some conn) (hdone : msg.type = .done) :
    onCompletion mr c msg m =
      (recvDone c { conn with recvMsg := msg } m).map fun m' => (m', none) := by
  simp only [onCompletion, hc, hdone]

/-- A `DONE` without flags takes one off the size and leaves the allocation. -/
theorem recvDone_unflagged {mr : ChunkIx → Mr} {c : ConnIx} {msg : Message} {m : Session}
    {flags : ChunkIx → Bool} {r : Session × Option Message} (hmsg : TeardownDone flags msg)
    (hflags : ∀ i, flags i = false) (hrecv : onCompletion mr c msg m = some r) :
    r.1.sizeGb = m.sizeGb - 1 ∧ r.1.mallocCount = m.mallocCount := by
  obtain ⟨conn₀, hc, -⟩ := onCompletion_cases hrecv
  rw [onCompletion_done hc hmsg.type] at hrecv
  obtain ⟨m', hdone, rfl⟩ := Option.map_eq_some_iff.mp hrecv
  obtain ⟨-, rfl⟩ := recvDone_cases hdone
  have hkept : ∀ i, ({ conn₀ with recvMsg := msg } : Connection).released i = none := by
    intro i
    rw [Connection.released, if_neg]
    rw [hmsg.flagged, hflags]
    simp
  refine ⟨?_, ?_⟩
  · change m.sizeGb - msg.sizeGb = _
    rw [hmsg.size]
  · apply countWhere_congr
    intro i
    change decide (clearPicked _ Alloc.empty _ m.mallocMap i = _) = _
    rw [clearPicked_finRange, if_neg]
    rintro ⟨k, hk⟩
    rw [hkept] at hk
    cases hk

theorem recvAll_unflagged {mr : ChunkIx → Mr} {c : ConnIx} {flags : ChunkIx → Bool}
    (hflags : ∀ i, flags i = false) (msgs : List Message)
    (hmsgs : ∀ msg ∈ msgs, TeardownDone flags msg) {m m' : Session}
    (hrecv : recvAll mr c msgs m = some m') :
    m'.sizeGb = m.sizeGb - msgs.length ∧ m'.mallocCount = m.mallocCount := by
  induction msgs generalizing m with
  | nil =>
      obtain rfl := Option.some.inj hrecv
      simp
  | cons msg rest ih =>
      obtain ⟨r, hr, hrest⟩ := Option.bind_eq_some_iff.mp hrecv
      obtain ⟨hsize, hmalloc⟩ := recvDone_unflagged (hmsgs msg List.mem_cons_self) hflags hr
      obtain ⟨hsizes, hmallocs⟩ := ih (fun e he => hmsgs e (List.mem_cons_of_mem msg he)) hrest
      refine ⟨?_, hmallocs.trans hmalloc⟩
      rw [hsizes, hsize, List.length_cons]
      push_cast
      omega

/-- A flag on a chunk the connection has no entry for sends `recv_done` to index `-1`. -/
theorem onCompletion_stale {mr : ChunkIx → Mr} {c : ConnIx} {msg : Message} {m : Session}
    {conn : Connection} {i : ChunkIx} (hc : m.conns c = some conn) (hdone : msg.type = .done)
    (hflag : msg.flagged i = true) (hsess : conn.sessChunkMap i = none) :
    onCompletion mr c msg m = none := by
  rw [onCompletion_done hc hdone, recvDone, if_pos ⟨i, hflag, hsess⟩]
  rfl

/-- After a `DONE` the connection has no entry for a flagged chunk. -/
theorem onCompletion_done_cleared {mr : ChunkIx → Mr} {c : ConnIx} {msg : Message} {m : Session}
    {r : Session × Option Message} {i : ChunkIx} (hdone : msg.type = .done)
    (hflag : msg.flagged i = true) (hrecv : onCompletion mr c msg m = some r) :
    ∃ conn, r.1.conns c = some conn ∧ conn.sessChunkMap i = none := by
  obtain ⟨conn₀, hc, -⟩ := onCompletion_cases hrecv
  rw [onCompletion_done hc hdone] at hrecv
  obtain ⟨m', hrec, rfl⟩ := Option.map_eq_some_iff.mp hrecv
  obtain ⟨-, rfl⟩ := recvDone_cases hrec
  exact ⟨_, putConn_conns_self .., if_pos hflag⟩

/-- Two `DONE`s with one flag do not get through. -/
theorem recvAll_flagged_twice {mr : ChunkIx → Mr} {c : ConnIx} {flags : ChunkIx → Bool}
    {first second : Message} {rest : List Message} {m : Session} {i : ChunkIx}
    (hfirst : TeardownDone flags first) (hsecond : TeardownDone flags second)
    (hflag : flags i = true) : recvAll mr c (first :: second :: rest) m = none := by
  cases hr : onCompletion mr c first m with
  | none => rw [recvAll, hr, Option.bind_none]
  | some r =>
      obtain ⟨conn, hconn, hsess⟩ :=
        onCompletion_done_cleared hfirst.type ((hfirst.flagged i).trans hflag) hr
      rw [recvAll, hr, Option.bind_some, recvAll,
        onCompletion_stale hconn hsecond.type ((hsecond.flagged i).trans hflag) hsess]
      rfl

theorem destroyConnection_frame {c : ConnIx} {m m' : Session}
    (hdestroy : destroyConnection c m = some m') :
    m'.sizeGb = m.sizeGb ∧ m'.mallocCount = m.mallocCount := by
  unfold destroyConnection at hdestroy
  split at hdestroy
  · cases hdestroy
  obtain rfl := Option.some.inj hdestroy
  split <;> exact ⟨rfl, rfl⟩

theorem destroyConnection_gone {c : ConnIx} {m m' : Session} (h : Consistent m)
    (hdestroy : destroyConnection c m = some m') (i : ChunkIx) : m'.connMap i ≠ some c := by
  intro hi
  refine (h.destroyConnection hdestroy).owner i c hi ?_
  rw [h.destroyConnection_eq hdestroy]
  exact Function.update_self ..

/-! ## When the slabs come back -/

section

variable {cfg : Manager.Config} {s : Manager.Session} {b : Nat} {mr : ChunkIx → Mr}
  {m : Session} {c : ConnIx}

theorem Agree.of_single {j : Nat} {i : ChunkIx} (hon : chunksOn cfg s b = [j])
    (hchunk : s.chunkMapCbChunk j = some i) (honly : ∀ k, m.connMap k = some c ↔ k = i) :
    Agree cfg s b m c := by
  refine ⟨fun k hk => ?_, fun k hk => ?_, fun k hk l hl _ => ?_⟩
  · rw [hon, List.mem_singleton] at hk
    exact ⟨i, hk ▸ hchunk, (honly i).mpr rfl⟩
  · rw [(honly k).mp hk, hon]
    exact ⟨j, List.mem_singleton_self j, hchunk⟩
  · rw [hon, List.mem_singleton] at hk hl
    rw [hk, hl]

theorem Agree.of_none (hon : chunksOn cfg s b = []) (hnone : ∀ i, m.connMap i ≠ some c) :
    Agree cfg s b m c := by
  refine ⟨fun j hj => ?_, fun i hi => absurd hi (hnone i), fun j hj => ?_⟩ <;>
    (rw [hon] at hj; cases hj)

theorem Agree.chunksOn_eq_nil (h : Agree cfg s b m c) (hnone : ∀ i, m.connMap i ≠ some c) :
    chunksOn cfg s b = [] := by
  cases hon : chunksOn cfg s b with
  | nil => rfl
  | cons j rest =>
      obtain ⟨i, -, hi⟩ := h.backed j (by simp [hon])
      exact absurd hi (hnone i)

theorem Agree.chunksOn_eq_singleton (h : Agree cfg s b m c) {i : ChunkIx}
    (honly : ∀ k, m.connMap k = some c ↔ k = i) : ∃ j, chunksOn cfg s b = [j] := by
  obtain ⟨j, hj, hjchunk⟩ := h.listed i ((honly i).mpr rfl)
  have hall : ∀ k ∈ chunksOn cfg s b, k = j := by
    intro k hk
    obtain ⟨i', hchunk, hi'⟩ := h.backed k hk
    rw [(honly i').mp hi'] at hchunk
    exact h.once k hk j hj (hchunk.trans hjchunk.symm)
  have hnodup : (chunksOn cfg s b).Nodup := List.nodup_range.filter _
  refine ⟨j, ?_⟩
  rw [List.eq_replicate_of_mem hall] at hnodup hj ⊢
  cases hlen : (chunksOn cfg s b).length with
  | zero => simp [hlen] at hj
  | succ n =>
      cases n with
      | zero => rfl
      | succ n => simp [hlen, List.replicate_succ] at hnodup

theorem givesBack_of_returnable (hcons : Consistent m) (hagree : Agree cfg s b m c)
    (hlive : m.conns c ≠ none) (hreturn : Returnable s b m c) : GivesBack cfg s b mr m c := by
  obtain ⟨hlen, hall⟩ := isDestroyDevice_sentTo cfg s b
  obtain ⟨conn, hconn⟩ := Option.ne_none_iff_exists'.mp hlive
  -- with right totals the disconnect does the rest
  have hfinish : ∀ m₁, recvAll mr c (sentTo b (isDestroyDevice cfg s).2) m = some m₁ →
      Consistent m₁ → m₁.conns c ≠ none → GivesBack cfg s b mr m c := by
    intro m₁ hrecv hcons₁ hlive₁
    obtain ⟨conn₁, hconn₁⟩ := Option.ne_none_iff_exists'.mp hlive₁
    obtain ⟨m₂, hm₂⟩ : ∃ m₂, destroyConnection c m₁ = some m₂ := by
      simp [destroyConnection, hconn₁]
    have hcons₂ := hcons₁.destroyConnection hm₂
    exact ⟨m₁, m₂, hrecv, hm₂, destroyConnection_gone hcons₁ hm₂, hcons₂.size, hcons₂.mapped⟩
  rcases hreturn with hnone | ⟨i, honly⟩
  · rw [hagree.chunksOn_eq_nil hnone, List.length_nil, List.length_eq_zero_iff] at hlen
    refine hfinish m ?_ hcons hlive
    rw [hlen, recvAll]
  · obtain ⟨j, hj⟩ := hagree.chunksOn_eq_singleton fun k => (honly k).1
    rw [hj, List.length_singleton, List.length_eq_one_iff] at hlen
    obtain ⟨msg, hsent⟩ := hlen
    have hmsg := hall msg (by simp [hsent])
    have hflag : ∀ k, msg.flagged k = true ↔ k = i := by
      intro k
      rw [hmsg.flagged]
      exact (honly k).2
    have hstop : AnswersStop c msg m := by
      refine ⟨?_, fun k hk => (honly k).1.mpr ((hflag k).mp hk)⟩
      have hcount : countWhere msg.flagged = 1 := by
        rw [countWhere_turnOn (p := fun _ => false) (a := i) rfl ((hflag i).mpr rfl)]
        · rw [countWhere_eq_zero_iff.mpr fun _ => rfl]
        · intro k hk
          rw [Bool.eq_false_iff, Ne, hflag]
          exact hk
      rw [hmsg.size, hcount]
      rfl
    have hbound : ¬ ∃ k, msg.flagged k = true ∧ conn.sessChunkMap k = none := by
      rintro ⟨k, hk, hsess⟩
      have hentry := (hcons.sess c conn hconn k k).mpr ⟨rfl, hstop.owned k hk⟩
      rw [hsess] at hentry
      cases hentry
    obtain ⟨r, hr⟩ : ∃ r, onCompletion mr c msg m = some r := by
      rw [onCompletion_done hconn hmsg.type, recvDone, if_neg hbound]
      exact ⟨_, rfl⟩
    refine hfinish r.1 ?_ ?_ ?_
    · rw [hsent, recvAll, hr]
      rfl
    · refine hcons.onCompletion (fun _ => hstop) ?_ ?_ hr
      · rw [hmsg.type]
        intro htype
        cases htype
      · rw [hmsg.type]
        intro htype
        cases htype
    · obtain ⟨conn₁, hconn₁, -⟩ :=
        onCompletion_done_cleared hmsg.type ((hflag i).mpr rfl) hr
      rw [hconn₁]
      simp

theorem returnable_of_givesBack (hcons : Consistent m) (hagree : Agree cfg s b m c)
    (hgives : GivesBack cfg s b mr m c) : Returnable s b m c := by
  obtain ⟨hlen, hall⟩ := isDestroyDevice_sentTo cfg s b
  obtain ⟨m₁, m₂, hrecv, hdestroy, -, hsize, -⟩ := hgives
  by_cases hnone : ∀ i, m.connMap i ≠ some c
  · exact Or.inl hnone
  right
  obtain ⟨i, hi⟩ := not_forall_not.mp hnone
  obtain ⟨j, hj, hjchunk⟩ := hagree.listed i hi
  by_cases hflags : ∀ k, (s.cb b).sendBuf.flagged k = false
  · -- no flags: each message takes one off the size and frees nothing
    obtain ⟨hsize₁, hmalloc₁⟩ := recvAll_unflagged hflags _ hall hrecv
    obtain ⟨hsize₂, hmalloc₂⟩ := destroyConnection_frame hdestroy
    have hpos : 0 < (chunksOn cfg s b).length := List.length_pos_of_mem hj
    have hstart := hcons.size
    omega
  · obtain ⟨k₀, hk₀⟩ := not_forall.mp hflags
    have hk₀ : (s.cb b).sendBuf.flagged k₀ = true := by simpa using hk₀
    cases hsent : sentTo b (isDestroyDevice cfg s).2 with
    | nil =>
        rw [hsent] at hlen
        have hpos : 0 < (chunksOn cfg s b).length := List.length_pos_of_mem hj
        rw [← hlen] at hpos
        cases hpos
    | cons msg rest =>
        cases rest with
        | cons second rest =>
            rw [hsent, recvAll_flagged_twice (hall msg (by simp [hsent]))
              (hall second (by simp [hsent])) hk₀] at hrecv
            cases hrecv
        | nil =>
            have hmsg := hall msg (by simp [hsent])
            rw [hsent, List.length_singleton] at hlen
            obtain ⟨j', hsingle⟩ := List.length_eq_one_iff.mp hlen.symm
            rw [hsent, recvAll] at hrecv
            obtain ⟨r, hr, -⟩ := Option.bind_eq_some_iff.mp hrecv
            obtain ⟨conn, hconn, -⟩ := onCompletion_cases hr
            have honly : ∀ k, m.connMap k = some c → k = i := by
              intro k hk
              obtain ⟨l, hl, hlchunk⟩ := hagree.listed k hk
              rw [hsingle, List.mem_singleton] at hl hj
              rw [hl, ← hj, hjchunk] at hlchunk
              exact (Option.some.inj hlchunk).symm
            have howned : ∀ k, (s.cb b).sendBuf.flagged k = true → m.connMap k = some c := by
              intro k hk
              cases hsess : conn.sessChunkMap k with
              | none =>
                  rw [onCompletion_stale hconn hmsg.type ((hmsg.flagged k).trans hk) hsess] at hr
                  cases hr
              | some k' => exact ((hcons.sess c conn hconn k k').mp hsess).2
            have hflag : (s.cb b).sendBuf.flagged i = true := by
              rw [← honly k₀ (howned k₀ hk₀)]
              exact hk₀
            refine ⟨i, fun k => ⟨⟨honly k, ?_⟩, ⟨fun hk => honly k (howned k hk), ?_⟩⟩⟩
            · rintro rfl
              exact hi
            · rintro rfl
              exact hflag

end

/-- For every monitor state reached with right totals, every live connection of it and
every state of its manager that agrees on the mapped chunks: the teardown gives
everything back exactly if there is nothing to give back, or one chunk, which is the one
flag the last eviction left in the send buffer. -/
theorem teardown_gives_back_iff (cfg : Manager.Config) (freeMemG : Int) (s : Manager.Session)
    (b : Nat) (mr : ChunkIx → Mr) (m : Session) (c : ConnIx)
    (hrun : Reach step (fun m a => Permitted m a ∧ Covered m a) (rdmaSessionInit freeMemG) m)
    (hlive : m.conns c ≠ none) (hagree : Agree cfg s b m c) :
    GivesBack cfg s b mr m c ↔ Returnable s b m c := by
  have hcons : Consistent m := hrun.invariant (consistent_rdmaSessionInit freeMemG)
    (fun u a v hu hguard hstep => hu.step hguard.1 hguard.2 hstep)
  exact ⟨returnable_of_givesBack hcons hagree, givesBack_of_returnable hcons hagree hlive⟩

/-- The manager is asked for the chunk server 0 backs the first slab with, and the slab is
mapped to the three other servers. -/
def evictAndRemap : List Manager.SlabAction :=
  [.mapRound 0 (Manager.roundEnv 0 0), .evict 0 (Manager.stopOne 0),
    .remap { Manager.roundEnv 0 0 with
      info := fun k => Manager.infoSingle k (if k = 2 then 0 else 1) },
    .finish]

/-- What the monitor of server 0 sees of it. -/
def boundAndEvicted : List Action :=
  [.connect (.plain .done 0) (.plain .done 0),
    .receive 0 (.plain .bindSingle 0) (fun _ => ⟨0, 1⟩),
    .receive 0 { Message.plain .done 1 with rkey := fun i => if i = 0 then 1 else 0 }
      (fun _ => ⟨0, 1⟩)]

/-- The session of a manager of two slabs after some rounds with four servers. -/
def managerAfter (actions : List Manager.SlabAction) : Option Manager.Session :=
  (runActions (Manager.slabStep (.replication 2)) (Manager.slabInit (.replication 2) 4)
    actions).map (·.sess)

/-- Server 0 has nothing left to give back; the flag of the eviction is still there. -/
theorem teardown_gives_back_iff_evicted :
    ∃ s m, managerAfter evictAndRemap = some s ∧
      runActions step (rdmaSessionInit 12) boundAndEvicted = some m ∧
      (s.cb 0).sendBuf.flagged 0 = true ∧ GivesBack (.replication 2) s 0 (fun _ => ⟨0, 1⟩) m 0 := by
  obtain ⟨s, hs⟩ : ∃ s, managerAfter evictAndRemap = some s :=
    Option.isSome_iff_exists.mp (by decide +kernel)
  obtain ⟨m, hm⟩ : ∃ m, runActions step (rdmaSessionInit 12) boundAndEvicted = some m :=
    Option.isSome_iff_exists.mp (by decide +kernel)
  have hmeet : AllMeet step (fun m a => Permitted m a ∧ Covered m a) (rdmaSessionInit 12)
      boundAndEvicted := by
    decide +kernel
  have howned : ∀ m ∈ runActions step (rdmaSessionInit 12) boundAndEvicted,
      (m.conns 0).isSome ∧ ∀ k, m.connMap k ≠ some 0 := by
    decide +kernel
  have hmanager : ∀ s ∈ managerAfter evictAndRemap,
      chunksOn (.replication 2) s 0 = [] ∧ (s.cb 0).sendBuf.flagged 0 = true := by
    decide +kernel
  obtain ⟨hlive, hnone⟩ := howned m hm
  obtain ⟨hon, hflag⟩ := hmanager s hs
  have hagree : Agree (.replication 2) s 0 m 0 := Agree.of_none hon hnone
  exact ⟨s, m, hs, hm, hflag,
    (teardown_gives_back_iff (.replication 2) 12 s 0 _ m 0 (reach_of_runActions hm hmeet)
      (Option.isSome_iff_ne_none.mp hlive) hagree).mpr (Or.inl hnone)⟩

/-- A manager that was never asked to give anything up has no flag in its buffer: after
the one `DONE` and the disconnect the chunk is still bound, and the size is one short. -/
theorem teardown_keeps_chunk :
    ∃ s m, managerAfter [.mapRound 0 (Manager.roundEnv 0 0)] = some s ∧
      Reach step (fun m a => Permitted m a ∧ Covered m a) (rdmaSessionInit 12) m ∧
      m.conns 0 ≠ none ∧ Agree (.replication 2) s 0 m 0 ∧
      (∃ m₁ m₂,
        recvAll (fun _ => ⟨0, 1⟩) 0 (sentTo 0 (isDestroyDevice (.replication 2) s).2) m =
          some m₁ ∧
        destroyConnection 0 m₁ = some m₂ ∧ m₂.connMap 0 = some 0 ∧ m₂.sizeGb = 1 ∧
        m₂.mallocCount = 2) ∧
      ¬ GivesBack (.replication 2) s 0 (fun _ => ⟨0, 1⟩) m 0 := by
  obtain ⟨s, hs⟩ : ∃ s, managerAfter [.mapRound 0 (Manager.roundEnv 0 0)] = some s :=
    Option.isSome_iff_exists.mp (by decide +kernel)
  obtain ⟨m, hm⟩ : ∃ m, runActions step (rdmaSessionInit 12) oneBind = some m :=
    Option.isSome_iff_exists.mp (by decide +kernel)
  have hmeet : AllMeet step (fun m a => Permitted m a ∧ Covered m a) (rdmaSessionInit 12)
      oneBind := by
    decide +kernel
  have howned : ∀ m ∈ runActions step (rdmaSessionInit 12) oneBind,
      (m.conns 0).isSome ∧ ∀ k, m.connMap k = some 0 ↔ k = 0 := by
    decide +kernel
  have hmanager : ∀ s ∈ managerAfter [.mapRound 0 (Manager.roundEnv 0 0)],
      chunksOn (.replication 2) s 0 = [0] ∧ s.chunkMapCbChunk 0 = some 0 := by
    decide +kernel
  obtain ⟨hlive, hchunks⟩ := howned m hm
  obtain ⟨hon, hchunk⟩ := hmanager s hs
  have hagree : Agree (.replication 2) s 0 m 0 := Agree.of_single hon hchunk hchunks
  have hafter : ∀ s ∈ managerAfter [.mapRound 0 (Manager.roundEnv 0 0)],
      ∀ m ∈ runActions step (rdmaSessionInit 12) oneBind,
        ((recvAll (fun _ => ⟨0, 1⟩) 0 (sentTo 0 (isDestroyDevice (.replication 2) s).2) m).bind
          (destroyConnection 0)).map (fun m₂ =>
            (m₂.connMap 0, m₂.sizeGb, m₂.mallocCount)) = some (some 0, 1, 2) := by
    decide +kernel
  obtain ⟨m₂, hm₂, heq⟩ := Option.map_eq_some_iff.mp (hafter s hs m hm)
  obtain ⟨m₁, hm₁, hdestroy⟩ := Option.bind_eq_some_iff.mp hm₂
  obtain ⟨hmap, hsize, hcount⟩ : m₂.connMap 0 = some 0 ∧ m₂.sizeGb = 1 ∧ m₂.mallocCount = 2 := by
    simpa using heq
  refine ⟨s, m, hs, reach_of_runActions hm hmeet, Option.isSome_iff_ne_none.mp hlive, hagree,
    ⟨m₁, m₂, hm₁, hdestroy, hmap, hsize, hcount⟩, ?_⟩
  rintro ⟨n₁, n₂, hn₁, hn₂, hgone, -, -⟩
  rw [hm₁] at hn₁
  obtain rfl := Option.some.inj hn₁
  rw [hdestroy] at hn₂
  obtain rfl := Option.some.inj hn₂
  exact hgone 0 hmap

end Hydra.Protocol
