/-
  Monitor/Session.lean --- the resource monitor's session and its handlers.

  Source: `resource_monitor/rdma-common.c` and `rdma-common.h`.

  The monitor owns up to `MAX_FREE_MEM_GB` one-gigabyte chunks.  A chunk is
  allocated or not (`malloc_map`) and, when allocated, bound to at most one
  connection (`conn_map`).  Beside these tables it keeps running totals
  (`size_gb`, `mapped_size`, and `mapped_chunk_size` per connection), which the
  handlers adjust by requested amounts.  Handlers are written as the C code
  computes them; whether the totals agree with the tables is not built in.

  A table entry `-1` is `none`.  A handler returns `none` where the source has no
  defined effect: no connection in the slot, no free slot, `die`, or an array
  index of `-1`.
-/
import Hydra.Foundation.Table
import Hydra.Foundation.Loop
import Hydra.Wire.Message

set_option autoImplicit false

namespace Hydra.Monitor

open Hydra.Foundation Hydra.Wire

/-- `MAX_CLIENT`. -/
def maxClient : Nat := 32

instance : NeZero maxClient := ⟨by decide⟩

/-- `FREE_MEM_EVICT_THRESHOLD`, in GB. -/
def freeMemEvictThreshold : Int := 10

/-- `FREE_MEM_EXPAND_THRESHOLD`, in GB. -/
def freeMemExpandThreshold : Int := 20

/-- `MAX_FREE_MEM_GB` as the signed quantity the totals are compared with. -/
def maxFreeMemGb : Int := (maxMrSizeGb : Int)

/-- A slot of `session.conns`. -/
abbrev ConnIx := Fin maxClient

/-- `enum conn_state`. -/
inductive ConnState where
  | idle | connected | mapped | failed
  deriving DecidableEq, Repr

/-- `CHUNK_EMPTY` and `CHUNK_MALLOCED`. -/
inductive Alloc where
  | empty | malloced
  deriving DecidableEq, Repr

/-- `struct connection`: the fields the handlers read. -/
structure Connection where
  connIndex : ConnIx
  sessChunkMap : ChunkIx → Option ChunkIx
  mappedChunkSize : Int
  evictSem : Nat
  stopSem : Nat
  sendMsg : Message
  recvMsg : Message

/-- `struct rdma_session` with its `rdma_remote_mem`, and the flag `running`. -/
structure Session where
  conns : ConnIx → Option Connection
  connsState : ConnIx → ConnState
  connNum : Int
  sizeGb : Int
  mappedSize : Int
  connMap : ChunkIx → Option ConnIx
  mallocMap : ChunkIx → Alloc
  running : Bool

namespace Session

/-- A chunk `send_single_mr`, `send_mr` and the first phase of `evict_mem` may
take: allocated and not bound. -/
def freeChunk (m : Session) (i : ChunkIx) : Bool :=
  decide (m.mallocMap i = .malloced) && decide (m.connMap i = none)

/-- The number of such chunks. -/
def freeCount (m : Session) : Nat := countWhere m.freeChunk

/-- The number of allocated chunks. -/
def mallocCount (m : Session) : Nat := countWhere fun i => decide (m.mallocMap i = .malloced)

/-- The number of bound chunks. -/
def mapCount (m : Session) : Nat := countWhere fun i => (m.connMap i).isSome

/-- The number of chunks bound to one connection. -/
def mapCountOf (m : Session) (c : ConnIx) : Nat :=
  countWhere fun i => decide (m.connMap i = some c)

/-- Write a connection back to its slot. -/
def putConn (m : Session) (c : ConnIx) (conn : Connection) : Session :=
  { m with conns := Function.update m.conns c (some conn) }

/-- `session.conns_state[c] = CONN_MAPPED`. -/
def markMapped (m : Session) (c : ConnIx) : Session :=
  { m with connsState := Function.update m.connsState c .mapped }

end Session

/-! ## Start of the session -/

/-- The allocation `rdma_session_init` settles on for `free_mem_g` free gigabytes. -/
def initialSizeGb (freeMemG : Int) : Int :=
  let wanted :=
    if freeMemG > freeMemExpandThreshold then
      freeMemG - (freeMemEvictThreshold + freeMemExpandThreshold) / 2
    else if freeMemG > freeMemEvictThreshold then freeMemG - freeMemEvictThreshold
    else 0
  if wanted > maxFreeMemGb then maxFreeMemGb else wanted

/-- `rdma_session_init`, with `running` as `main` sets it. -/
def rdmaSessionInit (freeMemG : Int) : Session where
  conns := fun _ => none
  connsState := fun _ => .idle
  connNum := 0
  sizeGb := initialSizeGb freeMemG
  mappedSize := 0
  connMap := fun _ => none
  mallocMap := fun i => if (i.val : Int) < initialSizeGb freeMemG then .malloced else .empty
  running := true

/-! ## Connections -/

/-- The slot `build_connection` takes: the first idle one. -/
def idleSlot (m : Session) : Option ConnIx :=
  (List.finRange maxClient).find? fun i => decide (m.connsState i = .idle)

/-- `build_connection`: take the first idle slot.  Past `MAX_CLIENT` live
connections there is none, and the source goes on with an unset `conn_index`.
The two message buffers come from `malloc` unwritten. -/
def buildConnection (sendBuf recvBuf : Message) (m : Session) : Option Session :=
  match idleSlot m with
  | none => none
  | some i =>
      some
        { m with
          conns := Function.update m.conns i (some
            { connIndex := i
              sessChunkMap := fun _ => none
              mappedChunkSize := 0
              evictSem := 0
              stopSem := 0
              sendMsg := sendBuf
              recvMsg := recvBuf })
          connsState := Function.update m.connsState i .connected
          connNum := m.connNum + 1 }

/-- `destroy_connection`.  The chunks are given up only when the running total of
the connection is positive. -/
def destroyConnection (c : ConnIx) (m : Session) : Option Session :=
  match m.conns c with
  | none => none
  | some conn =>
      let m :=
        if conn.mappedChunkSize > 0 then
          { m with
            connMap := clearPicked conn.sessChunkMap none (List.finRange maxMrSizeGb) m.connMap
            mappedSize := m.mappedSize - conn.mappedChunkSize }
        else m
      some
        { m with
          conns := Function.update m.conns conn.connIndex none
          connsState := Function.update m.connsState conn.connIndex .idle
          connNum := m.connNum - 1
          running := if m.connNum - 1 = 0 then false else m.running }

/-! ## Binding chunks -/

/-- The body both bind loops run for a chunk that is allocated and not bound:
record the owner on both sides and put address and key in the reply. -/
def bindChunk (mr : ChunkIx → Mr) (i : ChunkIx) (st : Session × Connection) :
    Session × Connection :=
  let (m, conn) := st
  ({ m with connMap := Function.update m.connMap i (some conn.connIndex) },
   { conn with
     sessChunkMap := Function.update conn.sessChunkMap i (some i)
     sendMsg :=
       { conn.sendMsg with
         buf := Function.update conn.sendMsg.buf i (htonll (mr i).addr)
         rkey := Function.update conn.sendMsg.rkey i (htonl (mr i).rkey) } })

/-- The reply buffer as both bind handlers prepare it. -/
def Connection.clearReply (conn : Connection) (sizeGb : Int) : Connection :=
  { conn with sendMsg := { conn.sendMsg with sizeGb := sizeGb, rkey := fun _ => 0 } }

/-- The totals and the message type as both bind handlers leave them: the
requested amount is added whatever the loop did. -/
def closeBind (c : ConnIx) (amount : Int) (type : MsgType) (st : Session × Connection) :
    Session × Message :=
  let conn :=
    { st.2 with
      mappedChunkSize := st.2.mappedChunkSize + amount
      sendMsg := { st.2.sendMsg with type := type } }
  ({ st.1 with mappedSize := st.1.mappedSize + amount }.putConn c conn, conn.sendMsg)

/-- `send_single_mr`: bind the first free chunk, if there is one. -/
def sendSingleMr (mr : ChunkIx → Mr) (c : ConnIx) (conn : Connection)
    (clientChunkIndex : Int) (m : Session) : Session × Message :=
  let st := (m, conn.clearReply clientChunkIndex)
  closeBind c 1 .infoSingle
    (match (List.finRange maxMrSizeGb).find? m.freeChunk with
      | none => st
      | some i => bindChunk mr i st)

/-- `send_mr`: bind free chunks until `size` of them are bound. -/
def sendMr (mr : ChunkIx → Mr) (c : ConnIx) (conn : Connection) (size : Int) (m : Session) :
    Session × Message :=
  closeBind c size .info
    (doFirst (fun st => st.1.freeChunk) (bindChunk mr) size (List.finRange maxMrSizeGb) 0
      (m, conn.clearReply size)).1

/-- The size `send_free_mem_size` reports. -/
def freeMemSize (m : Session) : Int := m.sizeGb - m.mappedSize

/-- `send_free_mem_size`. -/
def sendFreeMemSize (c : ConnIx) (conn : Connection) (m : Session) : Session × Message :=
  let msg := { conn.sendMsg with type := .freeSize, sizeGb := freeMemSize m }
  (m.putConn c { conn with sendMsg := msg }, msg)

/-- `send_fault_done`. -/
def sendFaultDone (c : ConnIx) (conn : Connection) (m : Session) : Session × Message :=
  let msg := { conn.sendMsg with type := .faultDone }
  (m.putConn c { conn with sendMsg := msg }, msg)

/-! ## Releasing chunks -/

/-- The chunk `recv_done` releases for entry `i`: `sess_chunk_map[i]` when the
entry is flagged. -/
def Connection.released (conn : Connection) (i : ChunkIx) : Option ChunkIx :=
  if conn.recvMsg.flagged i then conn.sessChunkMap i else none

/-- `recv_done`: release the flagged chunks, decrement the totals by the
message's size field.  A flagged entry that is not bound sends the source to
index `-1`. -/
def recvDone (c : ConnIx) (conn : Connection) (m : Session) : Option Session :=
  if ∃ i, conn.recvMsg.flagged i = true ∧ conn.sessChunkMap i = none then none
  else
    let evictG := conn.recvMsg.sizeGb
    let conn' :=
      { conn with
        sessChunkMap := fun i => if conn.recvMsg.flagged i then none else conn.sessChunkMap i
        mappedChunkSize := conn.mappedChunkSize - evictG
        stopSem := conn.stopSem + 1 }
    let m' :=
      { m with
        connMap := clearPicked conn.released none (List.finRange maxMrSizeGb) m.connMap
        mallocMap := clearPicked conn.released .empty (List.finRange maxMrSizeGb) m.mallocMap
        sizeGb := m.sizeGb - evictG
        mappedSize := m.mappedSize - evictG
        connsState :=
          if conn'.mappedChunkSize = 0 then
            Function.update m.connsState conn.connIndex .connected
          else m.connsState }
    some (m'.putConn c conn')

/-! ## The receive handler -/

/-- `on_completion` for a received message: the new session, and the message it
sends back if any.  The types only the monitor sends end in `die`. -/
def onCompletion (mr : ChunkIx → Mr) (c : ConnIx) (msg : Message) (m : Session) :
    Option (Session × Option Message) :=
  match m.conns c with
  | none => none
  | some conn₀ =>
      let conn := { conn₀ with recvMsg := msg }
      match msg.type with
      | .query =>
          let (m', reply) := sendFreeMemSize c conn m
          some (m', some reply)
      | .bind =>
          let (m', reply) := sendMr mr c conn msg.sizeGb m
          some (m'.markMapped conn.connIndex, some reply)
      | .bindSingle =>
          let (m', reply) := sendSingleMr mr c conn msg.sizeGb m
          some (m'.markMapped conn.connIndex, some reply)
      | .activity => some (m.putConn c { conn with evictSem := conn.evictSem + 1 }, none)
      | .fault =>
          let (m', reply) := sendFaultDone c conn m
          some (m', some reply)
      | .done => (recvDone c conn m).map fun m' => (m', none)
      | .info | .infoSingle | .freeSize | .evict | .stop | .faultDone => none

/-! ## Growing and shrinking the pool -/

/-- The amount the expand branch of `free_mem` asks for. -/
def expandSize (lastFreeMemG : Int) (m : Session) : Int :=
  let wanted := lastFreeMemG - freeMemExpandThreshold
  if wanted + m.sizeGb > maxFreeMemGb then maxFreeMemGb - m.sizeGb else wanted

/-- The expand branch of `free_mem`. -/
def freeMemExpand (lastFreeMemG : Int) (m : Session) : Session :=
  let size := expandSize lastFreeMemG m
  { m with
    mallocMap :=
      (doFirst (fun (t : ChunkIx → Alloc) i => decide (t i = .empty))
        (fun i t => Function.update t i .malloced) size (List.finRange maxMrSizeGb) 0
        m.mallocMap).1
    sizeGb := m.sizeGb + size }

/-- The first phase of `evict_mem`: free unbound chunks until `stop_g` are freed.
Returns the session and how many were freed. -/
def evictFreeUnmapped (stopG : Int) (m : Session) : Session × Int :=
  let r :=
    doFirst (fun (m : Session) => m.freeChunk)
      (fun i m => { m with mallocMap := Function.update m.mallocMap i .empty }) stopG
      (List.finRange maxMrSizeGb) 0 m
  ({ r.1 with sizeGb := r.1.sizeGb - r.2 }, r.2)

end Hydra.Monitor
