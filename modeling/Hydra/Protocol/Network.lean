/-
  Protocol/Network.lean --- one monitor and the managers connected to it.

  A connection is a pair of reliable in-order channels between a slot of the
  monitor and one `kernel_cb` of a manager.  Channels of different connections are
  independent, so the steps of the network interleave arbitrarily.  Every step is
  a handler of one side: `on_completion`, `build_connection`, `destroy_connection`
  and the thread running `evict_mem` on the monitor; `client_recv`, the eviction
  thread and the disconnect handler on the manager.

  `send_stop` posts `STOP` and, for a size other than zero, waits on the
  connection's `stop_sem`; `stopping` is the connection the thread waits for.
-/
import Hydra.Foundation.Run
import Hydra.Manager.KernelCb
import Hydra.Monitor.Session

set_option autoImplicit false

namespace Hydra.Protocol

open Hydra.Foundation Hydra.Wire Hydra.Monitor Hydra.Manager

/-- The two waits of `evict_handler`. -/
inductive EvictPc where
  | waitEvict | waitStop
  deriving DecidableEq, Repr

/-- One connection: its messages in flight and its manager end.  `failed` is the
manager's `CB_FAIL`. -/
structure Link where
  toManager : List Message
  toMonitor : List Message
  cb : KernelCb
  evictPc : EvictPc
  failed : Bool

/-- The monitor, its connections by slot, and the thread in `send_stop`. -/
structure Net where
  monitor : Monitor.Session
  link : ConnIx → Link
  stopping : Option ConnIx

/-! ## The manager's end -/

/-- `client_recv`: the effect of a message on the server's chunk list.  `INFO`
answers `BIND`, which no manager sends; the remaining types put the connection in
its error state. -/
def clientRecv (cb : KernelCb) (msg : Message) : Option KernelCb :=
  match msg.type with
  | .freeSize =>
      some { cb with remoteChunk := { cb.remoteChunk with targetSizeG := msg.sizeGb } }
  | .infoSingle =>
      match assignedChunk msg with
      | none => some cb
      | some i => some { cb with remoteChunk := cb.remoteChunk.assign msg i msg.sizeGb.toNat }
  | .evict => some { cb with remoteChunk := cb.remoteChunk.clientRecvEvict msg }
  | .stop => some { cb with remoteChunk := cb.remoteChunk.clientRecvStop msg }
  | .faultDone => some cb
  | .done | .info | .activity | .bind | .bindSingle | .query | .fault => none

/-- What a manager sends of its own accord. -/
inductive Outgoing where
  | query
  | bindSingle (selectChunk : Int)
  | fault

/-- The send buffer for an outgoing message. -/
def Outgoing.send (cb : KernelCb) : Outgoing → KernelCb
  | .query => isSendQuery cb
  | .bindSingle selectChunk => isSendBindSingle cb selectChunk
  | .fault => isSendFault cb

/-- One turn of `evict_handler`.  A chunk marked `'s'` that the manager does not
hold sends the source to session chunk `-1`. -/
def evictHandler (l : Link) : Option Link :=
  match l.evictPc with
  | .waitEvict =>
      if l.cb.remoteChunk.cState = .evict then
        let cb := isSendActivity l.cb
        some { l with cb := cb, toMonitor := l.toMonitor ++ [cb.sendBuf], evictPc := .waitStop }
      else none
  | .waitStop =>
      if l.cb.remoteChunk.cState = .stop then
        let sizeG := l.cb.remoteChunk.shrinkSizeG
        if sizeG = 0 then
          some
            { l with
              cb := { l.cb with remoteChunk := { l.cb.remoteChunk with cState := .ready } }
              evictPc := .waitEvict }
        else if ∃ i, l.cb.remoteChunk.evictChunkMap i = .stop ∧
            l.cb.remoteChunk.chunkMap i = none then none
        else
          let cb := finishEvict sizeG (markEvicted l.cb)
          some { l with cb := cb, toMonitor := l.toMonitor ++ [cb.sendBuf], evictPc := .waitEvict }
      else none

/-! ## Steps of the network -/

/-- Everything that can happen. -/
inductive NetAction where
  | connect (sendBuf recvBuf : Message) (cb : KernelCb)
  | managerSend (c : ConnIx) (out : Outgoing)
  | monitorRecv (c : ConnIx) (mr : ChunkIx → Mr)
  | managerRecv (c : ConnIx)
  | evictTurn (c : ConnIx)
  | sendEvict (c : ConnIx) (n : Int)
  | sendStop (c : ConnIx) (rkey : ChunkIx → UInt32) (n : Int)
  | stopReturn (c : ConnIx)
  | expand (lastFreeMemG : Int)
  | freeUnmapped (stopG : Int)
  | managerDisconnect (c : ConnIx)
  | monitorDisconnect (c : ConnIx)

namespace Net

/-- Replace the link of one slot. -/
def setLink (s : Net) (c : ConnIx) (l : Link) : Net :=
  { s with link := Function.update s.link c l }

/-- Post a message of the monitor's thread on a connection: the send buffer is
left as posted. -/
def post (s : Net) (c : ConnIx) (conn : Connection) (msg : Message) : Net :=
  { s with monitor := s.monitor.putConn c { conn with sendMsg := msg } }.setLink c
    { s.link c with toManager := (s.link c).toManager ++ [msg] }

end Net

/-- One step. -/
def netStep (s : Net) : NetAction → Option Net
  | .connect sendBuf recvBuf cb =>
      match idleSlot s.monitor, buildConnection sendBuf recvBuf s.monitor with
      | some c, some m =>
          -- `on_connection` reports the free size to the new peer
          (m.conns c).map fun conn =>
            let r := sendFreeMemSize c conn m
            { s with monitor := r.1 }.setLink c
              { toManager := [r.2], toMonitor := [], cb := kernelCbInit cb,
                evictPc := .waitEvict, failed := false }
      | _, _ => none
  | .managerSend c out =>
      if (s.link c).failed then none
      else
        let cb := out.send (s.link c).cb
        some (s.setLink c
          { s.link c with cb := cb, toMonitor := (s.link c).toMonitor ++ [cb.sendBuf] })
  | .monitorRecv c mr =>
      match (s.link c).toMonitor with
      | [] => none
      | msg :: rest =>
          (onCompletion mr c msg s.monitor).map fun r =>
            { s with monitor := r.1 }.setLink c
              { s.link c with
                toMonitor := rest
                toManager := (s.link c).toManager ++ r.2.toList }
  | .managerRecv c =>
      match (s.link c).toManager with
      | [] => none
      | msg :: rest =>
          if (s.link c).failed then some (s.setLink c { s.link c with toManager := rest })
          else
            (clientRecv (s.link c).cb msg).map fun cb =>
              s.setLink c { s.link c with toManager := rest, cb := cb }
  | .evictTurn c =>
      if (s.link c).failed then none
      else (evictHandler (s.link c)).map fun l => s.setLink c l
  | .sendEvict c n =>
      match s.stopping, s.monitor.conns c with
      | none, some conn =>
          some (s.post c conn
            { conn.sendMsg with type := .evict, sizeGb := n, rkey := fun _ => 0 })
      | _, _ => none
  | .sendStop c rkey n =>
      match s.stopping, s.monitor.conns c with
      | none, some conn =>
          some
            { s.post c conn { conn.sendMsg with type := .stop, sizeGb := n, rkey := rkey } with
              stopping := if n = 0 then none else some c }
      | _, _ => none
  | .stopReturn c =>
      match s.monitor.conns c with
      | some conn =>
          if s.stopping = some c ∧ 0 < conn.stopSem then
            some
              { s with
                monitor := s.monitor.putConn c { conn with stopSem := conn.stopSem - 1 }
                stopping := none }
          else none
      | none => none
  | .expand lastFreeMemG => some { s with monitor := freeMemExpand lastFreeMemG s.monitor }
  | .freeUnmapped stopG => some { s with monitor := (evictFreeUnmapped stopG s.monitor).1 }
  | .managerDisconnect c =>
      some (s.setLink c
        { s.link c with
          failed := true
          cb :=
            { (s.link c).cb with remoteChunk := (s.link c).cb.remoteChunk.disallow.forget } })
  | .monitorDisconnect c =>
      (destroyConnection c s.monitor).map fun m => { s with monitor := m }

/-- The surroundings: `evict_mem` flags in a `STOP` only chunks that `conn_map`
gives to that connection, and enters its phases on `free_mem`'s own tests. -/
def NetPermitted (s : Net) : NetAction → Prop
  | .sendStop c rkey _ => ∀ i, rkey i ≠ 0 → s.monitor.connMap i = some c
  | .expand lastFreeMemG => lastFreeMemG > freeMemExpandThreshold
  | .freeUnmapped stopG => 0 < stopG
  | _ => True

/-- A monitor just started, nobody connected. -/
def netInit (freeMemG : Int) (link : ConnIx → Link) : Net where
  monitor := rdmaSessionInit freeMemG
  link := link
  stopping := none

end Hydra.Protocol
