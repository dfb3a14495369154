/-
  Monitor/EvictMem.lean --- the second phase of `evict_mem`.

  Source: `evict_mem` of `resource_monitor/rdma-common.c`, from the count of the
  selected chunks to the `STOP` messages.  `send_list` marks the connections that
  were sent `EVICT`, and then those that lose chunks.
-/
import Hydra.Foundation.Exchange
import Hydra.Monitor.Session

set_option autoImplicit false

namespace Hydra.Monitor

open Hydra.Foundation Hydra.Wire

/-- An entry of `send_list`: `-1`, `1` or `2`. -/
inductive SendMark where
  | none | evict | stop
  deriving DecidableEq, Repr

/-- `struct chunk_activity`. -/
structure ChunkActivity where
  activity : UInt64
  chunkIndex : ChunkIx
  deriving DecidableEq, Repr

/-- The loop that computes `k`, the room of `evict_list`; `none` when a marked
slot has no connection. -/
def totalSelected (m : Session) (sendList : ConnIx → SendMark) :
    List ConnIx → Int → Option Int
  | [], k => some k
  | i :: rest, k =>
      if sendList i = .evict then
        match m.conns i with
        | none => none
        | some conn => totalSelected m sendList rest (k + conn.mappedChunkSize)
      else totalSelected m sendList rest k

/-- The entries one `ACTIVITY` message contributes: one for every word that is not
zero. -/
def activityEntries (msg : Message) : List ChunkActivity :=
  (List.finRange maxMrSizeGb).filterMap fun i =>
    if msg.buf i ≠ 0 then some ⟨ntohll (msg.buf i), i⟩ else none

/-- The collection loop: read the replies of the marked connections in slot order,
reset their send buffers, and append to `evict_list`. -/
def collectActivity (sendList : ConnIx → SendMark) :
    List ConnIx → Session × List ChunkActivity → Option (Session × List ChunkActivity)
  | [], st => some st
  | i :: rest, (m, entries) =>
      if sendList i = .evict then
        match m.conns i with
        | none => none
        | some conn =>
            let conn' :=
              { conn with sendMsg := { conn.sendMsg with sizeGb := 0, rkey := fun _ => 0 } }
            collectActivity sendList rest
              (m.putConn i conn', entries ++ activityEntries conn.recvMsg)
      else collectActivity sendList rest (m, entries)

/-- `evict_list` as the selection loop finds it: the room `k` and what was
written, in order from index zero. -/
structure EvictList where
  room : Int
  entries : List ChunkActivity

/-- Count and collect over all slots. -/
def evictCollect (m : Session) (sendList : ConnIx → SendMark) : Option (Session × EvictList) :=
  match totalSelected m sendList (List.finRange maxClient) 0 with
  | none => none
  | some k =>
      (collectActivity sendList (List.finRange maxClient) (m, [])).map fun r =>
        (r.1, { room := k, entries := r.2 })

/-! ## Selecting chunks -/

/-- The thread from the end of the collection on.  `connIndex` is the variable
`conn_index`, `slot` the loop variable of the sends, `waiting` the connection whose
`stop_sem` the thread waits for.  `victims` and `sent` record the chunks selected, each
with its connection, and the messages sent. -/
structure StopRun where
  m : Session
  sendList : ConnIx → SendMark
  victims : List (ConnIx × ChunkIx)
  connIndex : Option ConnIx
  slot : Nat
  waiting : Option ConnIx
  sent : List (ConnIx × Message)

/-- Before the selection. -/
def stopRunStart (m : Session) (sendList : ConnIx → SendMark) : StopRun where
  m := m
  sendList := sendList
  victims := []
  connIndex := none
  slot := 0
  waiting := none
  sent := []

/-- One turn of the selection loop, after the exchanges: the chunk is flagged in the
send buffer of its connection and counted there.  A chunk that is not bound sends the
source to connection `-1`. -/
def selectVictim (s : StopRun) (i : ChunkIx) : Option StopRun :=
  (s.m.connMap i).bind fun c =>
    (s.m.conns c).map fun conn =>
      { s with
        m := s.m.putConn c
          { conn with
            sendMsg :=
              { conn.sendMsg with
                rkey := Function.update conn.sendMsg.rkey i 1
                sizeGb := conn.sendMsg.sizeGb + 1 } }
        sendList :=
          if s.sendList c = .evict then Function.update s.sendList c .stop else s.sendList
        victims := s.victims ++ [(c, i)]
        connIndex := some c }

/-- The loop over the chunks taken. -/
def selectVictims : StopRun → List ChunkIx → Option StopRun
  | s, [] => some s
  | s, i :: rest => (selectVictim s i).bind fun s => selectVictims s rest

/-- The chunks the selection takes: those of the `j` least active entries, in order. -/
def victimOrder (j : Nat) (memory : List ChunkActivity) : List ChunkIx :=
  ((sortFirst (fun x y => decide (y.activity < x.activity)) j memory).take j).map
    ChunkActivity.chunkIndex

/-- The selection.  `memory` is what the `k` entries of `evict_list` hold, written or
not. -/
def evictSelect (m : Session) (sendList : ConnIx → SendMark) (j : Nat)
    (memory : List ChunkActivity) : Option StopRun :=
  if j ≤ memory.length then selectVictims (stopRunStart m sendList) (victimOrder j memory)
  else none

/-! ## Sending `STOP` -/

/-- `send_stop` up to its wait. -/
def sendStop (s : StopRun) (c : ConnIx) (n : Int) : Option StopRun :=
  (s.m.conns c).map fun conn =>
    let msg := { conn.sendMsg with type := .stop, sizeGb := n }
    { s with
      m := s.m.putConn c { conn with sendMsg := msg }
      slot := s.slot + 1
      waiting := if n = 0 then none else some c
      sent := s.sent ++ [(c, msg)] }

/-- What happens while the `STOP` messages go out: a turn of the loop over the slots, the
return from a wait, and messages handled by the other thread. -/
inductive StopAction where
  | next
  | wake
  | recv (c : ConnIx) (msg : Message) (mr : ChunkIx → Mr)

/-- One step.  The size sent to a connection that loses chunks is read from the buffer of
connection `conn_index`. -/
def stopStep (s : StopRun) : StopAction → Option StopRun
  | .next =>
      if h : s.slot < maxClient ∧ s.waiting = none then
        match s.sendList ⟨s.slot, h.1⟩ with
        | .none => some { s with slot := s.slot + 1 }
        | .evict => sendStop s ⟨s.slot, h.1⟩ 0
        | .stop =>
            (s.connIndex.bind s.m.conns).bind fun conn =>
              sendStop s ⟨s.slot, h.1⟩ conn.sendMsg.sizeGb
      else none
  | .wake =>
      s.waiting.bind fun c =>
        (s.m.conns c).bind fun conn =>
          if 0 < conn.stopSem then
            some
              { s with
                m := s.m.putConn c { conn with stopSem := conn.stopSem - 1 }
                waiting := none }
          else none
  | .recv c msg mr => (onCompletion mr c msg s.m).map fun r => { s with m := r.1 }

end Hydra.Monitor
