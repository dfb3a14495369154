/-
  Manager/Rounds.lean --- mapping, disconnect and eviction rounds of a session.

  Source: `IS_disconnect_handler`, `evict_handler` and the callers of
  `IS_single_chunk_map` in `resilience_manager/is_main.c`.  What these do to the
  contexts of requests in flight is in `DataPath`; here they work on the slab map.

  Rounds follow one another.  An eviction round is `evict`, then one `remap` for
  each evicted chunk in the order of `evict_list`, then `finish`; between them
  `evicting` holds the server and the chunks whose turn has not come.

  An `INFO_SINGLE` is handled by the polls of its bind or not at all.  One that another
  poll comes upon (that of a later query, of the data path) is not in this model;
  `RoundPolls` has the queues.
-/
import Hydra.Foundation.Run
import Hydra.Manager.Selection

set_option autoImplicit false

namespace Hydra.Manager

open Hydra.Foundation Hydra.Wire

/-! ## Losing a server -/

/-- The last loop of `IS_disconnect_handler`. -/
def releaseServer (cfg : Config) (b : Nat) : List ChunkIx → Session → Option Session
  | [], s => some s
  | i :: rest, s =>
      match (s.cb b).remoteChunk.chunkMap i with
      | none => releaseServer cfg b rest s
      | some c =>
          (releaseChunk cfg c s).bind fun s =>
            releaseServer cfg b rest (s.putCb b
              { s.cb b with
                remoteChunk :=
                  { (s.cb b).remoteChunk with
                    chunkMap := Function.update (s.cb b).remoteChunk.chunkMap i none } })

/-- `IS_disconnect_handler`.  A server that is connected and not mapped is only
marked. -/
def isDisconnectHandler (cfg : Config) (b : Nat) (s : Session) : Option Session :=
  if s.cbStateList b = .connected then some (s.setState b .fail)
  else
    (unmapPicked cfg b (fun _ => true) (s.setState b .fail)).bind fun s =>
      releaseServer cfg b (List.finRange maxMrSizeGb)
        (s.putCb b { s.cb b with remoteChunk := (s.cb b).remoteChunk.disallow })

/-! ## An eviction round -/

/-- The chunks `evict_handler` stops. -/
def stopMarked (rc : RemoteChunkList) (i : ChunkIx) : Bool := decide (rc.evictChunkMap i = .stop)

/-- `evict_list`, read in the order of the remap loop. -/
def evictList (cfg : Config) (rc : RemoteChunkList) : List Nat :=
  (List.range cfg.disksizeG).filter fun c =>
    decide (∃ i, pickedChunk rc (stopMarked rc) i = some c)

/-- `client_recv_stop`, then `evict_handler` up to the remap loop: the chunks of
`evict_list` if there is anything to stop.  A marked chunk that is not held sends the
source to session chunk `-1`. -/
def evictBegin (cfg : Config) (b : Nat) (msg : Message) (s : Session) :
    Option (Session × Option (List Nat)) :=
  let rc := (s.cb b).remoteChunk.clientRecvStop msg
  let s := s.putCb b { s.cb b with remoteChunk := rc }
  if rc.shrinkSizeG = 0 then
    some (s.putCb b { s.cb b with remoteChunk := { rc with cState := .ready } }, none)
  else if ∃ i, stopMarked rc i = true ∧ rc.chunkMap i = none then none
  else
    (unmapPicked cfg b (stopMarked rc) s).map fun s =>
      ({ s with mappedCbNum := s.mappedCbNum - rc.shrinkSizeG }.putCb b
          (finishEvict rc.shrinkSizeG (markEvicted (s.cb b)))
        |>.setState b .evicting, some (evictList cfg rc))

/-! ## Steps -/

/-- The session and the eviction round it is in. -/
structure SlabState where
  sess : Session
  evicting : Option (Nat × List Nat)

/-- The rounds, an eviction round in its parts. -/
inductive SlabAction where
  | mapRound (selectChunk : Nat) (env : RoundEnv)
  | disconnect (b : Nat)
  | evict (b : Nat) (msg : Message)
  | remap (env : RoundEnv)
  | finish

/-- One step; `none` where an array is indexed out of range. -/
def slabStep (cfg : Config) (s : SlabState) : SlabAction → Option SlabState
  | .mapRound selectChunk env =>
      (isSingleChunkMap cfg s.sess.cbNum env selectChunk s.sess).map fun r =>
        { s with sess := r.1 }
  | .disconnect b => (isDisconnectHandler cfg b s.sess).map fun sess => { s with sess := sess }
  | .evict b msg =>
      (evictBegin cfg b msg s.sess).map fun r =>
        { sess := r.1, evicting := r.2.map fun l => (b, l) }
  | .remap env =>
      match s.evicting with
      | some (b, c :: rest) =>
          (releaseChunk cfg c s.sess).bind fun sess =>
            (isSingleChunkMap cfg sess.cbNum env c sess).map fun r =>
              { sess := r.1, evicting := some (b, rest) }
      | _ => none
  | .finish =>
      match s.evicting with
      | some (b, []) => some { sess := s.sess.setState b .mapped, evicting := none }
      | _ => none

/-- The session just created. -/
def slabInit (cfg : Config) (cbNum : Nat) : SlabState where
  sess := isSessionCreate cfg cbNum
  evicting := none

/-- The chunks of `evict_list` still to come. -/
def SlabState.waiting (s : SlabState) : List Nat :=
  match s.evicting with
  | none => []
  | some (_, l) => l

/-- The chunks whose turn comes after the one a `remap` is about to handle. -/
def SlabState.later (s : SlabState) : List Nat := s.waiting.tail

/-! ## The surroundings -/

/-- Every bind of a round that is answered with a chunk is answered with one the
server has not given before. -/
def NamesFresh (cfg : Config) (env : RoundEnv) (s : Session) : Prop :=
  ∀ servers, roundServers cfg s.cbNum env s = some servers →
    ∀ k b i, servers[k]? = some b → assignedChunk (env.info k) = some i →
      (s.cb b).remoteChunk.chunkMap i = none

/-- A `STOP` for chunks the server holds, with their number. -/
structure StopsHeld (msg : Message) (rc : RemoteChunkList) : Prop where
  held : ∀ i, msg.flagged i = true → rc.chunkMap i ≠ none
  size : msg.sizeGb = countWhere msg.flagged

/-- Complete rounds: none starts before the eviction round is over, and the
servers answer as the monitor does. -/
def SlabPermitted (cfg : Config) (s : SlabState) : SlabAction → Prop
  | .mapRound _ env => s.evicting = none ∧ NamesFresh cfg env s.sess
  | .disconnect b => s.evicting = none ∧ b < s.sess.cbNum
  | .evict b msg =>
      s.evicting = none ∧ b < s.sess.cbNum ∧ StopsHeld msg (s.sess.cb b).remoteChunk
  | .remap env => (∃ b c rest, s.evicting = some (b, c :: rest)) ∧ NamesFresh cfg env s.sess
  | .finish => ∃ b, s.evicting = some (b, [])

end Hydra.Manager
