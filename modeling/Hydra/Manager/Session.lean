/-
  Manager/Session.lean --- the manager's session and its slab map.

  Source: `struct IS_session` of `resilience_manager/infiniswap.h`,
  `IS_session_create` and `IS_single_chunk_map` with what they call.

  The session maps the chunks of the device to chunks of servers.  Three arrays of
  `DISKSIZE_G` entries hold the session's side: `cb_index_map`, `chunk_map_cb_chunk`
  and `unmapped_chunk_list`; each server's `chunk_map` holds the other.  An index
  outside those arrays is a result `none` of the function that uses it, so that it
  cannot go unnoticed.
-/
import Hydra.Foundation.Exchange
import Hydra.Manager.KernelCb

set_option autoImplicit false

namespace Hydra.Manager

open Hydra.Foundation Hydra.Wire

/-! ## The build -/

/-- The constants a build of the module fixes. -/
structure Config where
  ndatas : Nat
  ndisks : Nat
  datasizeG : Nat

namespace Config

/-- `DISKSIZE_G`. -/
def disksizeG (cfg : Config) : Nat := cfg.datasizeG / cfg.ndatas * cfg.ndisks

/-- `SERVER_SELECT_NUM`. -/
def serverSelectNum (cfg : Config) : Nat := cfg.ndisks + 1

/-- A session chunk number as an index of the session's arrays. -/
def chunkIndex? (cfg : Config) (n : Int) : Option Nat :=
  if 0 ≤ n ∧ n < cfg.disksizeG then some n.toNat else none

/-- The replication setup, for a device of `datasizeG` gigabytes. -/
def replication (datasizeG : Nat) : Config := ⟨1, 3, datasizeG⟩

/-- The replication setup as compiled in. -/
def rep : Config := replication 1

end Config

/-! ## The session -/

/-- `struct IS_session`: servers, their states and the slab map. -/
structure Session where
  cb : Nat → KernelCb
  cbStateList : Nat → CbState
  cbNum : Nat
  cbIndexMap : Nat → Option Nat
  chunkMapCbChunk : Nat → Option ChunkIx
  unmappedChunkList : Nat → Int
  freeChunkIndex : Int
  mappedCbNum : Int

namespace Session

/-- Replace one server. -/
def putCb (s : Session) (b : Nat) (cb : KernelCb) : Session :=
  { s with cb := Function.update s.cb b cb }

theorem putCb_cb_self (s : Session) (b : Nat) (cb : KernelCb) : (s.putCb b cb).cb b = cb :=
  Function.update_self ..

theorem putCb_cb_of_ne (s : Session) {b d : Nat} (h : d ≠ b) (cb : KernelCb) :
    (s.putCb b cb).cb d = s.cb d := Function.update_of_ne h ..

/-- `cb_state_list[b] = state`. -/
def setState (s : Session) (b : Nat) (state : CbState) : Session :=
  { s with cbStateList := Function.update s.cbStateList b state }

end Session

/-- `IS_session_create`, for the servers `portal_parser` found. -/
def isSessionCreate (cfg : Config) (cbNum : Nat) : Session where
  cb := fun _ => blankCb
  cbStateList := fun _ => .idle
  cbNum := cbNum
  cbIndexMap := fun _ => none
  chunkMapCbChunk := fun _ => none
  unmappedChunkList := fun i => (cfg.datasizeG : Int) - 1 - i
  freeChunkIndex := (cfg.disksizeG : Int) - 1
  mappedCbNum := 0

/-! ## Selecting servers -/

/-- What a mapping round draws and what it is told: random numbers, the
`FREE_SIZE` reply of each server and the `INFO_SINGLE` reply to each bind of the
round. -/
structure RoundEnv where
  random : Nat → Nat
  freeMem : Nat → Int32
  info : Nat → Message

/-- The servers in a state below `CB_EVICTING`. -/
def selectableServers (n : Nat) (s : Session) : List Nat :=
  (List.range n).filter fun b => (s.cbStateList b).selectable

/-- The inner `while`: from a random start, the next server that may be selected
and is not yet. -/
def probeServer (numCb start : Nat) (s : Session) (chosen : List Nat) : Option Nat :=
  ((List.range numCb).map fun k => (start + k) % numCb).find? fun b =>
    (s.cbStateList b).selectable && !chosen.contains b

/-- The random branch, `count` servers still to draw.  `none` is a probe that
never ends. -/
def drawServers (numCb : Nat) (random : Nat → Nat) (s : Session) :
    Nat → List Nat → Option (List Nat)
  | 0, chosen => some chosen
  | count + 1, chosen =>
      (probeServer numCb (random chosen.length % numCb) s chosen).bind fun b =>
        drawServers numCb random s count (chosen ++ [b])

/-- The selection of `IS_single_chunk_map`. -/
def selectServers (cfg : Config) (numCb : Nat) (random : Nat → Nat) (s : Session) :
    Option (List Nat) :=
  if (selectableServers numCb s).length ≤ cfg.serverSelectNum then
    some (selectableServers s.cbNum s)
  else drawServers numCb random s cfg.serverSelectNum []

/-! ## Querying and ranking -/

/-- The query of one selected server: an idle one is initialised and connected
first. -/
def queryServer (freeMem : Nat → Int32) (s : Session) (b : Nat) : Session :=
  match s.cbStateList b with
  | .fail => s
  | .idle =>
      let cb := kernelCbInit (s.cb b)
      (s.putCb b { cb with
        remoteChunk := { cb.remoteChunk with targetSizeG := (freeMem b).toInt } }).setState b
        .connected
  | .connected | .mapped | .evicting =>
      let cb := isSendQuery (s.cb b)
      s.putCb b { cb with
        remoteChunk := { cb.remoteChunk with targetSizeG := (freeMem b).toInt } }

/-- The entry of `free_mem` and `free_mem_sorted` for a selected server. -/
def queryEntry (numCb : Nat) (freeMem : Nat → Int32) (s : Session) (b : Nat) : Int32 × Nat :=
  if s.cbStateList b = .fail then (-1, numCb) else (freeMem b, b)

/-- The additions and subtractions that exchange two entries. -/
def exchange (x y : Int32) : Int32 × Int32 :=
  let x := x + y
  let y := x - y
  let x := x - y
  (x, y)

/-- They do exchange them, also when the sum wraps around. -/
theorem exchange_eq (x y : Int32) : exchange x y = (y, x) := by
  have hy : x + y - y = x := by
    rw [Int32.sub_eq_add_neg, Int32.add_assoc, ← Int32.sub_eq_add_neg, Int32.sub_self,
      Int32.add_zero]
  have hx : x + y - x = y := by
    rw [Int32.add_comm, Int32.sub_eq_add_neg, Int32.add_assoc, ← Int32.sub_eq_add_neg,
      Int32.sub_self, Int32.add_zero]
  simp only [exchange, hy, hx]

/-- The servers by reported free memory, the first `NDISKS` of them in order. -/
def rankServers (cfg : Config) (numCb : Nat) (freeMem : Nat → Int32) (s : Session)
    (selection : List Nat) : List (Int32 × Nat) :=
  sortFirst (fun x y => decide (x.1 < y.1)) cfg.ndisks
    (selection.map (queryEntry numCb freeMem s))

/-! ## Binding -/

/-- `IS_single_chunk_init`: the first chunk with a key now backs the session chunk
the reply is for. -/
def isSingleChunkInit (cfg : Config) (b : Nat) (msg : Message) (s : Session) :
    Option Session :=
  match assignedChunk msg with
  | none => some s
  | some i =>
      (cfg.chunkIndex? msg.sizeGb).map fun c =>
        { s with
          freeChunkIndex := s.freeChunkIndex - 1
          chunkMapCbChunk := Function.update s.chunkMapCbChunk c (some i)
          cbIndexMap := Function.update s.cbIndexMap c (some b) }.putCb b
          { s.cb b with remoteChunk := (s.cb b).remoteChunk.assign msg i c }

theorem isSingleChunkInit_cbStateList {cfg : Config} {b : Nat} {msg : Message} {s t : Session}
    (h : isSingleChunkInit cfg b msg s = some t) : t.cbStateList = s.cbStateList := by
  unfold isSingleChunkInit at h
  split at h
  · obtain rfl := Option.some.inj h
    rfl
  · obtain ⟨c, -, rfl⟩ := Option.map_eq_some_iff.mp h
    rfl

/-- `IS_send_bind_single` in the bind loop, and the state `client_recv` sets before
it hands an `INFO_SINGLE` on. -/
def sendBind (b : Nat) (chunk : Nat) (s : Session) : Session :=
  let s :=
    if s.cbStateList b = .connected then { s with mappedCbNum := s.mappedCbNum + 1 } else s
  (s.putCb b (isSendBindSingle (s.cb b) chunk)).setState b .mapped

/-- One turn of the bind loop: `BIND_SINGLE` to the server and the `INFO_SINGLE` that
answers it. -/
def bindServer (cfg : Config) (b : Nat) (chunk : Nat) (msg : Message) (s : Session) :
    Option Session :=
  isSingleChunkInit cfg b msg (sendBind b chunk s)

/-- The bind loop from position `k` on. -/
def bindServers (cfg : Config) (selectChunk : Nat) (info : Nat → Message) :
    List Nat → Nat → Session → Option Session
  | [], _, s => some s
  | b :: rest, k, s =>
      (bindServer cfg b (selectChunk + k) (info k) s).bind fun s =>
        bindServers cfg selectChunk info rest (k + 1) s

/-- `IS_single_chunk_map`: the session afterwards and the value returned. -/
def isSingleChunkMap (cfg : Config) (numCb : Nat) (env : RoundEnv) (selectChunk : Nat)
    (s : Session) : Option (Session × Int) :=
  (selectServers cfg numCb env.random s).bind fun selection =>
    if selection.length < cfg.ndisks then some (s, -1)
    else
      let ranked := rankServers cfg numCb env.freeMem s selection
      let s := selection.foldl (queryServer env.freeMem) s
      match ranked[cfg.ndisks - 1]? with
      | none => none
      | some last =>
          if last.1 = 0 then some (s, -1)
          else
            (bindServers cfg selectChunk env.info ((ranked.take cfg.ndisks).map Prod.snd) 0 s).map
              fun s => (s, 0)

/-! ## Giving chunks up -/

/-- `chunk_map_cb_chunk[c] = -1` and the push of `c` on the unmapped list. -/
def releaseChunk (cfg : Config) (c : Nat) (s : Session) : Option Session :=
  (cfg.chunkIndex? c).bind fun c =>
    (cfg.chunkIndex? (s.freeChunkIndex + 1)).map fun k =>
      { s with
        chunkMapCbChunk := Function.update s.chunkMapCbChunk c none
        freeChunkIndex := s.freeChunkIndex + 1
        unmappedChunkList := Function.update s.unmappedChunkList k c }

/-- The session chunks a server's chunks `pick`ed by a test back. -/
def pickedChunk (rc : RemoteChunkList) (pick : ChunkIx → Bool) (i : ChunkIx) : Option Nat :=
  if pick i then rc.chunkMap i else none

/-- `cb_index_map[chunk_map[i]] = NO_CB_MAPPED` for every picked chunk `i`. -/
def unmapPicked (cfg : Config) (b : Nat) (pick : ChunkIx → Bool) (s : Session) :
    Option Session :=
  let picked := pickedChunk (s.cb b).remoteChunk pick
  if ∃ i c, picked i = some c ∧ cfg.disksizeG ≤ c then none
  else
    some { s with
      cbIndexMap := clearPicked picked none (List.finRange maxMrSizeGb) s.cbIndexMap }

end Hydra.Manager
