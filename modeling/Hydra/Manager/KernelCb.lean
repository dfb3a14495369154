/-
  Manager/KernelCb.lean --- one server as the resilience manager sees it.

  Source: `struct kernel_cb` and `struct remote_chunk_g_list` of
  `resilience_manager/infiniswap.h`, and the parts of `is_main.c` and `is_mq.c`
  that work on a single server: the message handlers, the activity report and the
  release step of the eviction thread.  Session-wide tables are in `Session`.
-/
import Hydra.Foundation.Count
import Hydra.Foundation.Table
import Hydra.Wire.Message

set_option autoImplicit false

namespace Hydra.Manager

open Hydra.Foundation Hydra.Wire

/-- `enum cb_state`. -/
inductive CbState where
  | idle | connected | mapped | evicting | fail
  deriving DecidableEq, Repr

/-- `state < CB_EVICTING`, the test a mapping round selects servers by. -/
def CbState.selectable : CbState → Bool
  | .idle | .connected | .mapped => true
  | .evicting | .fail => false

/-- `enum chunk_list_state`. -/
inductive ChunkListState where
  | idle | ready | evict | stop
  deriving DecidableEq, Repr

/-- An entry of `evict_chunk_map`: unset, `'s'` or `'a'`. -/
inductive EvictMark where
  | unset | stop | around
  deriving DecidableEq, Repr

/-- `struct remote_chunk_g`. -/
structure RemoteChunk where
  remoteRkey : UInt32
  remoteAddr : UInt64
  deriving DecidableEq, Repr

/-- `struct remote_chunk_g_list`.  `chunkMap` takes a chunk of the server to the
session chunk it backs, `none` for `-1`; `remoteMapped` is `CHUNK_MAPPED`. -/
structure RemoteChunkList where
  chunkList : ChunkIx → RemoteChunk
  remoteMapped : ChunkIx → Bool
  chunkSizeG : Int
  targetSizeG : Int
  shrinkSizeG : Int
  chunkMap : ChunkIx → Option Nat
  evictChunkMap : ChunkIx → EvictMark
  cState : ChunkListState

/-- `struct kernel_cb`: the chunk list and the send buffer. -/
structure KernelCb where
  sendBuf : Message
  remoteChunk : RemoteChunkList

/-- A server as `kzalloc` leaves it: its tables are not there yet, and the send
buffer is zero. -/
def blankCb : KernelCb where
  sendBuf := .plain .done 0
  remoteChunk :=
    { chunkList := fun _ => ⟨0, 0⟩
      remoteMapped := fun _ => false
      chunkSizeG := 0
      targetSizeG := 0
      shrinkSizeG := 0
      chunkMap := fun _ => none
      evictChunkMap := fun _ => .unset
      cState := .idle }

/-- `kernel_cb_init` on the chunk list. -/
def kernelCbInit (cb : KernelCb) : KernelCb :=
  { cb with
    remoteChunk :=
      { chunkList := fun _ => ⟨0, 0⟩
        remoteMapped := fun _ => false
        chunkSizeG := 0
        targetSizeG := cb.remoteChunk.targetSizeG
        shrinkSizeG := cb.remoteChunk.shrinkSizeG
        chunkMap := fun _ => none
        evictChunkMap := fun _ => .unset
        cState := .idle } }

/-- The number of chunks a server backs for this session. -/
def RemoteChunkList.mappedCount (rc : RemoteChunkList) : Nat :=
  countWhere fun i => (rc.chunkMap i).isSome

/-! ## Messages from the monitor -/

/-- The chunk an `INFO_SINGLE` assigns: the first entry with a key. -/
def assignedChunk (msg : Message) : Option ChunkIx :=
  (List.finRange maxMrSizeGb).find? msg.flagged

/-- The part of `IS_single_chunk_init` that works on the server: chunk `i` now
backs session chunk `selectChunk`. -/
def RemoteChunkList.assign (rc : RemoteChunkList) (msg : Message) (i : ChunkIx)
    (selectChunk : Nat) : RemoteChunkList :=
  { rc with
    chunkList := Function.update rc.chunkList i
      { remoteRkey := htonl (msg.rkey i), remoteAddr := ntohll (msg.buf i) }
    chunkMap := Function.update rc.chunkMap i (some selectChunk)
    chunkSizeG := rc.chunkSizeG + 1
    cState := .ready
    remoteMapped := Function.update rc.remoteMapped i true }

/-- `client_recv_evict`. -/
def RemoteChunkList.clientRecvEvict (rc : RemoteChunkList) (msg : Message) : RemoteChunkList :=
  if msg.sizeGb = 0 then rc
  else { rc with shrinkSizeG := msg.sizeGb, cState := .evict }

/-- `client_recv_stop`: a size of zero leaves the marks of the last eviction. -/
def RemoteChunkList.clientRecvStop (rc : RemoteChunkList) (msg : Message) : RemoteChunkList :=
  if msg.sizeGb = 0 then { rc with shrinkSizeG := msg.sizeGb, cState := .stop }
  else
    { rc with
      shrinkSizeG := msg.sizeGb
      evictChunkMap := fun i => if msg.flagged i then .stop else .around
      cState := .stop }

/-! ## Messages to the monitor

Every sender overwrites part of the one send buffer and posts the buffer; the
message is the `sendBuf` of the result. -/

/-- `IS_send_query`. -/
def isSendQuery (cb : KernelCb) : KernelCb :=
  { cb with sendBuf := { cb.sendBuf with type := .query } }

/-- `IS_send_bind_single`. -/
def isSendBindSingle (cb : KernelCb) (selectChunk : Int) : KernelCb :=
  { cb with sendBuf := { cb.sendBuf with type := .bindSingle, sizeGb := selectChunk } }

/-- `IS_send_fault`. -/
def isSendFault (cb : KernelCb) : KernelCb :=
  { cb with sendBuf := { cb.sendBuf with type := .fault } }

/-- `IS_send_done`. -/
def isSendDone (cb : KernelCb) (num : Int) : KernelCb :=
  { cb with sendBuf := { cb.sendBuf with type := .done, sizeGb := num } }

/-- `IS_send_activity`: the word of a mapped chunk and of an unmapped one are the
same, the activity count being commented out. -/
def isSendActivity (cb : KernelCb) : KernelCb :=
  { cb with
    sendBuf :=
      { cb.sendBuf with
        type := .activity
        buf := fun i => if (cb.remoteChunk.chunkMap i).isSome then 0 else 0 } }

/-! ## The eviction thread on one server -/

/-- The loop of `evict_handler` over `evict_chunk_map`: forget every chunk marked
`'s'` and tag it in the send buffer. -/
def markEvicted (cb : KernelCb) : KernelCb where
  sendBuf :=
    { cb.sendBuf with
      rkey := fun i => if cb.remoteChunk.evictChunkMap i = .stop then 1 else 0 }
  remoteChunk :=
    { cb.remoteChunk with
      chunkMap := fun i =>
        if cb.remoteChunk.evictChunkMap i = .stop then none else cb.remoteChunk.chunkMap i }

/-- The rest of the release in `evict_handler`, up to and including `DONE`: mark
the chunks unmapped and take the announced number off the size. -/
def finishEvict (sizeG : Int) (cb : KernelCb) : KernelCb :=
  let cb :=
    isSendDone
      { cb with
        remoteChunk :=
          { cb.remoteChunk with
            remoteMapped := fun i =>
              if cb.remoteChunk.evictChunkMap i = .stop then false
              else cb.remoteChunk.remoteMapped i
            chunkSizeG := cb.remoteChunk.chunkSizeG - sizeG
            shrinkSizeG := 0 } } sizeG
  { cb with remoteChunk := { cb.remoteChunk with cState := .ready } }

/-! ## Losing the server -/

/-- The first loop of `IS_disconnect_handler` on the server's own entries: no new
request may use its chunks. -/
def RemoteChunkList.disallow (rc : RemoteChunkList) : RemoteChunkList :=
  { rc with
    remoteMapped := fun i => if (rc.chunkMap i).isSome then false else rc.remoteMapped i
    chunkSizeG := 0 }

/-- The last loop of `IS_disconnect_handler` on the server's own entries. -/
def RemoteChunkList.forget (rc : RemoteChunkList) : RemoteChunkList :=
  { rc with chunkMap := fun _ => none }

end Hydra.Manager
