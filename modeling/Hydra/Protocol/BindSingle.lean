/-
  Protocol/BindSingle.lean --- one `BIND_SINGLE` and its answer.

  Source: `send_single_mr` and the `BIND_SINGLE` case of `on_completion` in
  `resource_monitor/rdma-common.c`; `IS_send_bind_single` of
  `resilience_manager/is_main.c` and `IS_single_chunk_init` of `is_mq.c`.

  The buffers the two messages are built in hold what earlier messages left in them.
-/
import Hydra.Manager.SlabMap
import Hydra.Monitor.Session

set_option autoImplicit false

namespace Hydra.Protocol

open Hydra.Foundation Hydra.Wire Hydra.Monitor

/-! ## What the two sides record -/

/-- The chunk is the first one that is allocated and not bound. -/
def FirstFree (m : Session) (i : ChunkIx) : Prop :=
  m.freeChunk i = true ∧ ∀ j < i, m.freeChunk j = false

/-- Chunk `i` of the monitor goes to the connection in slot `c`, and nothing else does. -/
structure MonitorBinds (c : ConnIx) (conn : Connection) (i : ChunkIx) (m m' : Session) : Prop where
  connMap : m'.connMap = Function.update m.connMap i (some conn.connIndex)
  mallocMap : m'.mallocMap = m.mallocMap
  mappedSize : m'.mappedSize = m.mappedSize + 1
  conns : ∃ conn', m'.conns = Function.update m.conns c (some conn') ∧
    conn'.connIndex = conn.connIndex ∧
    conn'.sessChunkMap = Function.update conn.sessChunkMap i (some i) ∧
    conn'.mappedChunkSize = conn.mappedChunkSize + 1

/-- Chunk `i` of server `b`, registered as `mr`, backs the session chunk, and nothing else
is remapped. -/
structure ManagerBinds (b chunk : Nat) (i : ChunkIx) (mr : Mr) (s s' : Manager.Session) :
    Prop where
  cbIndexMap : s'.cbIndexMap = Function.update s.cbIndexMap chunk (some b)
  chunkMapCbChunk : s'.chunkMapCbChunk = Function.update s.chunkMapCbChunk chunk (some i)
  chunkMap : (s'.cb b).remoteChunk.chunkMap =
    Function.update (s.cb b).remoteChunk.chunkMap i (some chunk)
  chunkList : (s'.cb b).remoteChunk.chunkList =
    Function.update (s.cb b).remoteChunk.chunkList i ⟨mr.rkey, mr.addr⟩
  remoteMapped : (s'.cb b).remoteChunk.remoteMapped =
    Function.update (s.cb b).remoteChunk.remoteMapped i true
  evictChunkMap : (s'.cb b).remoteChunk.evictChunkMap = (s.cb b).remoteChunk.evictChunkMap
  chunkSizeG : (s'.cb b).remoteChunk.chunkSizeG = (s.cb b).remoteChunk.chunkSizeG + 1
  others : ∀ d ≠ b, s'.cb d = s.cb d
  unmappedChunkList : s'.unmappedChunkList = s.unmappedChunkList

/-! ## The monitor's side -/

theorem firstFree_iff {m : Session} {i : ChunkIx} :
    FirstFree m i ↔ (List.finRange maxMrSizeGb).find? m.freeChunk = some i :=
  find?_finRange_eq_some.symm

theorem exists_firstFree {m : Session} (h : ∃ i, m.freeChunk i = true) : ∃ i, FirstFree m i := by
  obtain ⟨k, hk⟩ := h
  obtain ⟨i, hi⟩ := Option.isSome_iff_exists.mp
    (List.find?_isSome.mpr ⟨k, List.mem_finRange k, hk⟩)
  exact ⟨i, firstFree_iff.mpr hi⟩

variable {mr : ChunkIx → Mr} {c : ConnIx} {conn : Connection} {m : Session} {i : ChunkIx}

theorem sendSingleMr_of_firstFree (hi : FirstFree m i) (chunk : Int) :
    sendSingleMr mr c conn chunk m =
      closeBind c 1 .infoSingle (bindChunk mr i (m, conn.clearReply chunk)) := by
  rw [sendSingleMr, firstFree_iff.mp hi]

theorem monitorBinds_sendSingleMr (mr : ChunkIx → Mr) (c : ConnIx) (conn : Connection)
    (hi : FirstFree m i) (msg : Message) (chunk : Int) (d : ConnIx) :
    MonitorBinds c conn i m
      ((sendSingleMr mr c { conn with recvMsg := msg } chunk m).1.markMapped d) := by
  rw [sendSingleMr_of_firstFree hi]
  exact ⟨rfl, rfl, rfl, _, rfl, rfl, rfl, rfl⟩

/-! ## The manager's side -/

/-- The buffer `IS_send_bind_single` posts. -/
theorem sendBind_sendBuf (b chunk : Nat) (s : Manager.Session) :
    ((Manager.sendBind b chunk s).cb b).sendBuf.type = .bindSingle ∧
      ((Manager.sendBind b chunk s).cb b).sendBuf.sizeGb = (chunk : Int) := by
  simp [Manager.sendBind, Manager.Session.setState, Manager.Session.putCb,
    Manager.isSendBindSingle]

/-- The reply of `send_single_mr` is for the chunk asked for. -/
theorem sendSingleMr_sizeGb (mr : ChunkIx → Mr) (c : ConnIx) (conn : Connection) (chunk : Int)
    (m : Session) : (sendSingleMr mr c conn chunk m).2.sizeGb = chunk := by
  unfold sendSingleMr
  split <;> rfl

/-- The reply has the key of one chunk, whatever was in the buffer before. -/
theorem assignedChunk_sendSingleMr (hi : FirstFree m i) (hkey : (mr i).rkey ≠ 0) (chunk : Int) :
    Manager.assignedChunk (sendSingleMr mr c conn chunk m).2 = some i := by
  rw [sendSingleMr_of_firstFree hi, Manager.assignedChunk, find?_finRange_eq_some]
  have hrkey : (closeBind c 1 .infoSingle (bindChunk mr i (m, conn.clearReply chunk))).2.rkey =
      Function.update (fun _ => 0) i (htonl (mr i).rkey) := rfl
  constructor
  · rw [Message.flagged_eq_true, hrkey, Function.update_self]
    exact fun hzero => hkey (htonl_eq_zero hzero)
  · intro j hj
    rw [← Bool.not_eq_true, Message.flagged_eq_true, hrkey, Function.update_of_ne hj.ne, not_not]

/-- The address and the key are read back as they were registered. -/
theorem decode_sendSingleMr (mr : ChunkIx → Mr) (c : ConnIx) (conn : Connection)
    (hi : FirstFree m i) (chunk : Int) :
    ntohll ((sendSingleMr mr c conn chunk m).2.buf i) = (mr i).addr ∧
      htonl ((sendSingleMr mr c conn chunk m).2.rkey i) = (mr i).rkey := by
  rw [sendSingleMr_of_firstFree hi]
  have hbuf : (closeBind c 1 .infoSingle (bindChunk mr i (m, conn.clearReply chunk))).2.buf i =
      htonll (mr i).addr := Function.update_self ..
  have hrkey : (closeBind c 1 .infoSingle (bindChunk mr i (m, conn.clearReply chunk))).2.rkey i =
      htonl (mr i).rkey := Function.update_self ..
  exact ⟨by rw [hbuf, ntohll_htonll], by rw [hrkey, htonl_htonl]⟩

theorem managerBinds_bindServer {cfg : Manager.Config} {b chunk : Nat} {reply : Message} {reg : Mr}
    {s : Manager.Session} (hchunk : chunk < cfg.disksizeG) (hsize : reply.sizeGb = chunk)
    (hassigned : Manager.assignedChunk reply = some i) (haddr : ntohll (reply.buf i) = reg.addr)
    (hrkey : htonl (reply.rkey i) = reg.rkey) :
    ∃ s', Manager.bindServer cfg b chunk reply s = some s' ∧ ManagerBinds b chunk i reg s s' := by
  have hindex : cfg.chunkIndex? reply.sizeGb = some chunk := by
    rw [hsize, Manager.Config.chunkIndex?, if_pos (by omega), Int.toNat_natCast]
  have hserver : ∀ d, d ≠ b → (Manager.sendBind b chunk s).cb d = s.cb d := by
    intro d hd
    simp only [Manager.sendBind, Manager.Session.setState, Manager.Session.putCb,
      Function.update_of_ne hd]
    split <;> rfl
  have htables : (Manager.sendBind b chunk s).chunkMapCbChunk = s.chunkMapCbChunk ∧
      (Manager.sendBind b chunk s).unmappedChunkList = s.unmappedChunkList := by
    rw [Manager.sendBind]
    split <;> exact ⟨rfl, rfl⟩
  rw [Manager.bindServer, Manager.isSingleChunkInit, hassigned, hindex]
  refine ⟨_, rfl, ?_, ?_, ?_, ?_, ?_, ?_, ?_, ?_, ?_⟩
  · simp [Manager.Session.putCb]
  · simp [Manager.Session.putCb, htables.1]
  · simp [Manager.Session.putCb, Manager.RemoteChunkList.assign]
  · simp [Manager.Session.putCb, Manager.RemoteChunkList.assign, haddr, hrkey]
  · simp [Manager.Session.putCb, Manager.RemoteChunkList.assign]
  · simp [Manager.Session.putCb, Manager.RemoteChunkList.assign]
  · simp [Manager.Session.putCb, Manager.RemoteChunkList.assign]
  · intro d hd
    simp [Manager.Session.putCb, hd, hserver d hd]
  · exact htables.2

/-! ## Both -/

/-- A `BIND_SINGLE` for a session chunk and its `INFO_SINGLE`: with a free chunk on the
monitor both sides record the first one, the manager with the address and the key it was
registered with. -/
theorem bind_single_agrees (cfg : Manager.Config) {mr : ChunkIx → Mr} {m : Session} {c : ConnIx}
    {conn : Connection} (hconn : m.conns c = some conn) (hfree : ∃ i, m.freeChunk i = true)
    (hkey : ∀ i, FirstFree m i → (mr i).rkey ≠ 0) (s : Manager.Session) (b : Nat) {chunk : Nat}
    (hchunk : chunk < cfg.disksizeG) :
    ∃ i m' reply s',
      FirstFree m i ∧
      onCompletion mr c ((Manager.sendBind b chunk s).cb b).sendBuf m = some (m', some reply) ∧
      reply.type = .infoSingle ∧
      Manager.bindServer cfg b chunk reply s = some s' ∧
      MonitorBinds c conn i m m' ∧ ManagerBinds b chunk i (mr i) s s' := by
  obtain ⟨i, hi⟩ := exists_firstFree hfree
  obtain ⟨htype, hsize⟩ := sendBind_sendBuf b chunk s
  have hmonitor := monitorBinds_sendSingleMr mr c conn hi
    ((Manager.sendBind b chunk s).cb b).sendBuf (chunk : Int) conn.connIndex
  obtain ⟨haddr, hrkey⟩ := decode_sendSingleMr mr c
    { conn with recvMsg := ((Manager.sendBind b chunk s).cb b).sendBuf } hi (chunk : Int)
  obtain ⟨s', hs', hmanager⟩ := managerBinds_bindServer (b := b) (s := s) hchunk
    (sendSingleMr_sizeGb ..) (assignedChunk_sendSingleMr hi (hkey i hi) (chunk : Int)) haddr hrkey
  refine ⟨i, _, _, s', hi, ?_, ?_, hs', hmonitor, hmanager⟩
  · simp only [onCompletion, hconn, htype, hsize]
  · rw [sendSingleMr_of_firstFree hi]
    rfl

/-- A client whose reply buffer holds an earlier message with all keys set. -/
def staleClient : Connection where
  connIndex := 0
  sessChunkMap := fun _ => none
  mappedChunkSize := 0
  evictSem := 0
  stopSem := 0
  sendMsg := ⟨fun _ => 9, fun _ => 9, 3, .stop⟩
  recvMsg := .plain .query 0

/-- Its monitor, with ten chunks. -/
def staleMonitor : Session := (rdmaSessionInit 20).putConn 0 staleClient

/-- The first chunk of the monitor goes to the third chunk of a session. -/
theorem bind_single_agrees_staleMonitor :
    ∃ i m' reply s',
      FirstFree staleMonitor i ∧
      onCompletion (fun _ => ⟨0x123456789abcdef0, 0x89abcdef⟩) 0
        ((Manager.sendBind 0 2 (Manager.isSessionCreate .rep 4)).cb 0).sendBuf staleMonitor =
        some (m', some reply) ∧
      reply.type = .infoSingle ∧
      Manager.bindServer .rep 0 2 reply (Manager.isSessionCreate .rep 4) = some s' ∧
      MonitorBinds 0 staleClient i staleMonitor m' ∧
      ManagerBinds 0 2 i ⟨0x123456789abcdef0, 0x89abcdef⟩ (Manager.isSessionCreate .rep 4) s' :=
  bind_single_agrees .rep rfl ⟨0, by decide⟩ (fun _ _ => by decide)
    (Manager.isSessionCreate .rep 4) 0 (by decide)

end Hydra.Protocol
