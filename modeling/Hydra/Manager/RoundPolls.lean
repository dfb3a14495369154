/-
  Manager/RoundPolls.lean --- a mapping round and the completion queues it polls.

  Source: `IS_single_chunk_map`, `IS_send_query`, `IS_send_bind_single`,
  `rdma_cq_event_handler` and `client_recv` of `resilience_manager/is_main.c`; of the
  other threads what they do to the queues (`IS_send_activity`, `IS_send_done`,
  `IS_send_fault`, the loops of `IS_rdma_read` and `IS_rdma_write`) and to the session
  (`evict_handler`, `IS_disconnect_handler`).

  Every call of `rdma_cq_event_handler` waits for one completion of the server's queue
  and handles it, whatever it is.  A round polls twice for each request it posts and goes
  on.  The same queue has the completions of the data path, the messages the monitor
  sends of its own accord, the completion of `DONE`, which nobody polls for, and what
  belongs to a second round; and other threads poll it too.  All of these are separate
  steps here, in any order.

  The round a send or a reply belongs to and the fields `lost`, `carried`, `posted`,
  `processed` and `setups` are not in the program.
-/
import Hydra.Foundation.Run
import Hydra.Manager.Selection

set_option autoImplicit false

namespace Hydra.Manager

open Hydra.Foundation Hydra.Wire

/-! ## Completions -/

/-- An entry of a completion queue: the completion of a send, a message received, or the
completion of an operation of the data path.  What belongs to a round carries its
number. -/
inductive Completion where
  | send (round : Option Nat)
  | recv (msg : Message) (round : Option Nat)
  | rdma

/-- The round an entry belongs to. -/
def Completion.round : Completion → Option Nat
  | .send n | .recv _ n => n
  | .rdma => none

/-- The reply to a request of a round. -/
def Completion.isReply : Completion → Bool
  | .recv _ (some _) => true
  | .send _ | .recv _ none | .rdma => false

/-- What a monitor has to answer: a query, or a connection just made, by `FREE_SIZE`; a
bind by `INFO_SINGLE`. -/
inductive Request where
  | query
  | bind (chunk : Nat)
  deriving DecidableEq, Repr

/-- The message is the monitor's answer to the request. -/
def Request.Answers (r : Request) (msg : Message) : Prop :=
  match r with
  | .query => msg.type = .freeSize
  | .bind chunk => msg.type = .infoSingle ∧ msg.sizeGb = (chunk : Int)

/-- What a monitor sends without being asked by a round. -/
def OwnAccord (msg : Message) : Prop :=
  msg.type = .evict ∨ msg.type = .stop ∨ msg.type = .faultDone

instance (r : Request) (msg : Message) : Decidable (r.Answers msg) :=
  match r with
  | .query => inferInstanceAs (Decidable (msg.type = .freeSize))
  | .bind chunk =>
      inferInstanceAs (Decidable (msg.type = .infoSingle ∧ msg.sizeGb = (chunk : Int)))

instance (msg : Message) : Decidable (OwnAccord msg) :=
  inferInstanceAs (Decidable (_ ∨ _ ∨ _))

/-- `client_recv`.  `none` is the error state of the connection and, for `INFO_SINGLE`, a
session chunk outside the arrays. -/
def Session.clientRecv (cfg : Config) (b : Nat) (msg : Message) (s : Session) : Option Session :=
  let rc := (s.cb b).remoteChunk
  match msg.type with
  | .freeSize =>
      some (s.putCb b { s.cb b with remoteChunk := { rc with targetSizeG := msg.sizeGb } })
  | .infoSingle => isSingleChunkInit cfg b msg (s.setState b .mapped)
  | .evict => some (s.putCb b { s.cb b with remoteChunk := rc.clientRecvEvict msg })
  | .stop => some (s.putCb b { s.cb b with remoteChunk := rc.clientRecvStop msg })
  | .faultDone => some s
  | .done | .info | .activity | .bind | .bindSingle | .query | .fault => none

/-! ## The round -/

/-- Where `IS_single_chunk_map` is.  `rest` are the servers still to query or bind, the
first one with `polls` calls of `rdma_cq_event_handler` to go; `fresh` is the branch for a
server that had to be connected, and `entries` are `free_mem` and `free_mem_sorted`. -/
inductive RoundPc where
  | idle
  | query (selectChunk : Nat) (rest : List Nat) (polls : Nat) (fresh : Bool)
      (entries : List (Int32 × Nat))
  | bind (selectChunk : Nat) (rest : List Nat) (k polls : Nat)
  deriving DecidableEq

/-- The manager, its queues, and what is under way to them: sends posted, the oldest
first, and requests to answer.  `error` is `cb->state == ERROR`; a connection that has
been lost is in `lost`. -/
structure PollState where
  sess : Session
  cq : Nat → List Completion
  sends : Nat → List (Option Nat)
  requests : Nat → List (Option Nat × Request)
  error : Nat → Bool
  lost : Nat → Bool
  pc : RoundPc
  round : Nat
  returned : Option Int
  carried : Nat → Option Int
  posted : List (Nat × Nat)
  processed : List (Nat × Nat)
  setups : Nat → Nat

namespace PollState

/-- Post a send with a request on a server. -/
def post (s : PollState) (b : Nat) (r : Request) : PollState :=
  { s with
    sends := Function.update s.sends b (s.sends b ++ [some s.round])
    requests := Function.update s.requests b (s.requests b ++ [(some s.round, r)]) }

/-- `rdma_cq_event_handler`; `none` is the loop waiting for a completion.  In the state
`CB_FAIL` what it has taken from the queue is dropped. -/
def take (cfg : Config) (b : Nat) (s : PollState) : Option PollState :=
  if s.error b then some s
  else if s.sess.cbStateList b = .fail then
    some
      { s with
        cq := Function.update s.cq b (s.cq b).tail
        error := Function.update s.error b true }
  else
    match s.cq b with
    | [] => none
    | .send _ :: rest => some { s with cq := Function.update s.cq b rest }
    | .rdma :: rest => some { s with cq := Function.update s.cq b rest }
    | .recv msg tag :: rest =>
        (s.sess.clientRecv cfg b msg).map fun sess =>
          { s with
            sess := sess
            cq := Function.update s.cq b rest
            processed :=
              if msg.type = .infoSingle ∧ tag = some s.round then
                (b, msg.sizeGb.toNat) :: s.processed
              else s.processed }

end PollState

/-- The request of the query loop: a server lost since it was selected is passed over, and
an idle one is initialised and connected, which the monitor answers like a query. -/
def postQuery (selectChunk : Nat) (b : Nat) (rest : List Nat) (entries : List (Int32 × Nat))
    (s : PollState) : PollState :=
  match s.sess.cbStateList b with
  | .fail => { s with pc := .query selectChunk rest 0 false (entries ++ [(-1, s.sess.cbNum)]) }
  | .idle =>
      { s with
        sess := s.sess.putCb b (kernelCbInit (s.sess.cb b))
        requests := Function.update s.requests b (s.requests b ++ [(some s.round, .query)])
        pc := .query selectChunk (b :: rest) 1 true entries }
  | .connected | .mapped | .evicting =>
      { ({ s with sess := s.sess.putCb b (isSendQuery (s.sess.cb b)) }.post b .query) with
        pc := .query selectChunk (b :: rest) 2 false entries }

/-- After the last poll for a query: `target_size_g` is read, and `cb->state` is set to
`AFTER_FREE_MEM`. -/
def readFreeMem (selectChunk : Nat) (b : Nat) (rest : List Nat) (fresh : Bool)
    (entries : List (Int32 × Nat)) (s : PollState) : PollState :=
  { s with
    sess := if fresh then s.sess.setState b .connected else s.sess
    error := Function.update s.error b false
    pc := .query selectChunk rest 0 false
      (entries ++ [(Int32.ofInt (s.sess.cb b).remoteChunk.targetSizeG, b)]) }

/-- The ranking, and the return of a round that found too little. -/
def endQueries (cfg : Config) (selectChunk : Nat) (entries : List (Int32 × Nat))
    (s : PollState) : Option PollState :=
  let ranked := sortFirst (fun x y => decide (x.1 < y.1)) cfg.ndisks entries
  match ranked[cfg.ndisks - 1]? with
  | none => none
  | some last =>
      if last.1 = 0 then some { s with pc := .idle, returned := some (-1) }
      else some { s with pc := .bind selectChunk ((ranked.take cfg.ndisks).map Prod.snd) 0 0 }

/-- The request of the bind loop; the first one to a server sets up its contexts and its
eviction thread. -/
def postBind (selectChunk : Nat) (b : Nat) (rest : List Nat) (k : Nat) (s : PollState) :
    PollState :=
  let first := decide (s.sess.cbStateList b = .connected)
  let sess :=
    if first then { s.sess with mappedCbNum := s.sess.mappedCbNum + 1 } else s.sess
  { ({ s with
        sess := sess.putCb b (isSendBindSingle (sess.cb b) (selectChunk + k : Nat))
      }.post b (.bind (selectChunk + k))) with
    pc := .bind selectChunk (b :: rest) k 2
    posted := (b, selectChunk + k) :: s.posted
    setups := if first then Function.update s.setups b (s.setups b + 1) else s.setups }

/-- The next step of the thread in `IS_single_chunk_map`. -/
def turn (cfg : Config) (s : PollState) : Option PollState :=
  match s.pc with
  | .idle => none
  | .query selectChunk [] _ _ entries => endQueries cfg selectChunk entries s
  | .query selectChunk (b :: rest) 0 _ entries => some (postQuery selectChunk b rest entries s)
  | .query selectChunk (b :: rest) (polls + 1) fresh entries =>
      (s.take cfg b).map fun s =>
        if polls = 0 then readFreeMem selectChunk b rest fresh entries s
        else { s with pc := .query selectChunk (b :: rest) polls fresh entries }
  | .bind _ [] _ _ => some { s with pc := .idle, returned := some 0 }
  | .bind selectChunk (b :: rest) k 0 => some (postBind selectChunk b rest k s)
  | .bind selectChunk (b :: rest) k (polls + 1) =>
      (s.take cfg b).map fun s =>
        if polls = 0 then { s with pc := .bind selectChunk rest (k + 1) 0 }
        else { s with pc := .bind selectChunk (b :: rest) k polls }

/-! ## Steps -/

/-- What can happen.  `poll`, `post` and `change` are what other threads do: a call of
`rdma_cq_event_handler`, a send (with `ask` that of a second round, for which `setUp` is
the setting up of a server), and whatever they do to the session.  `lose` is the loss of
a connection. -/
inductive PollAction where
  | start (selectChunk : Nat) (random : Nat → Nat)
  | turn
  | sent (b : Nat)
  | answer (b : Nat) (msg : Message)
  | unsolicited (b : Nat) (msg : Message)
  | rdma (b : Nat)
  | poll (b : Nat)
  | post (b : Nat) (ask : Option Request)
  | setUp (b : Nat)
  | change (sess : Session)
  | lose (b : Nat)

/-- One step. -/
def pollStep (cfg : Config) (s : PollState) : PollAction → Option PollState
  | .start selectChunk random =>
      match s.pc with
      | .idle =>
          (selectServers cfg s.sess.cbNum random s.sess).map fun selection =>
            { s with
              pc :=
                if selection.length < cfg.ndisks then .idle
                else .query selectChunk selection 0 false []
              round := s.round + 1
              returned := if selection.length < cfg.ndisks then some (-1) else none
              carried := fun _ => none
              posted := []
              processed := [] }
      | .query _ _ _ _ _ | .bind _ _ _ _ => none
  | .turn => turn cfg s
  | .sent b =>
      match s.sends b with
      | [] => none
      | n :: rest =>
          some
            { s with
              sends := Function.update s.sends b rest
              cq := Function.update s.cq b (s.cq b ++ [.send n]) }
  | .answer b msg =>
      if s.lost b then none
      else
        match s.requests b with
        | [] => none
        | (n, r) :: rest =>
            some
              { s with
                requests := Function.update s.requests b rest
                cq := Function.update s.cq b (s.cq b ++ [.recv msg n])
                carried :=
                  if r = .query ∧ n = some s.round then
                    Function.update s.carried b (some msg.sizeGb)
                  else s.carried }
  | .unsolicited b msg =>
      if s.lost b then none
      else some { s with cq := Function.update s.cq b (s.cq b ++ [.recv msg none]) }
  | .rdma b => some { s with cq := Function.update s.cq b (s.cq b ++ [.rdma]) }
  | .poll b => s.take cfg b
  | .post b ask =>
      some
        { s with
          sends := Function.update s.sends b (s.sends b ++ [none])
          requests :=
            Function.update s.requests b (s.requests b ++ ask.toList.map fun r => (none, r)) }
  | .setUp b =>
      if s.sess.cbStateList b = .connected then
        some { s with setups := Function.update s.setups b (s.setups b + 1) }
      else none
  | .change sess => some { s with sess := sess }
  | .lose b =>
      some
        { s with
          sess := s.sess.setState b .fail
          lost := Function.update s.lost b true }

/-- A session just created. -/
def pollInit (cfg : Config) (cbNum : Nat) : PollState where
  sess := isSessionCreate cfg cbNum
  cq := fun _ => []
  sends := fun _ => []
  requests := fun _ => []
  error := fun _ => false
  lost := fun _ => false
  pc := .idle
  round := 0
  returned := none
  carried := fun _ => none
  posted := []
  processed := []
  setups := fun _ => 0

/-- A server that has been bound to, whatever has become of it since. -/
def CbState.hasBeenBound : CbState → Bool
  | .idle | .connected => false
  | .mapped | .evicting | .fail => true

/-- What other threads do to the session: they set no `target_size_g` and the state only of
servers that have been bound to. -/
structure ByOthers (s t : Session) : Prop where
  cbNum : t.cbNum = s.cbNum
  size : ∀ b, (t.cb b).remoteChunk.targetSizeG = (s.cb b).remoteChunk.targetSizeG
  states : ∀ b, t.cbStateList b = s.cbStateList b ∨
    (s.cbStateList b).hasBeenBound = true ∧
      (t.cbStateList b = .mapped ∨ t.cbStateList b = .evicting)

/-- The monitors answer what they are asked, and of their own accord they send `EVICT`,
`STOP` and `FAULT_DONE`. -/
def PollPermitted (s : PollState) : PollAction → Prop
  | .answer b msg => ∀ e ∈ (s.requests b).head?, e.2.Answers msg
  | .unsolicited _ msg => OwnAccord msg
  | .change sess => ByOthers s.sess sess
  | .start _ _ | .turn | .sent _ | .rdma _ | .poll _ | .post _ _ | .setUp _ | .lose _ => True

/-- The server the next step polls, the polls left for it and the request they are for. -/
def RoundPc.polling : RoundPc → Option (Nat × Nat × Request)
  | .query _ (b :: _) (polls + 1) _ _ => some (b, polls + 1, .query)
  | .bind selectChunk (b :: _) k (polls + 1) => some (b, polls + 1, .bind (selectChunk + k))
  | _ => none

/-- Polls get what they are for: those of the round, on servers that have not been lost, a
completion of the round, and other polls none of a round.  No second round is under way. -/
def PollsMatch (s : PollState) : PollAction → Prop
  | .turn => ∀ e ∈ s.pc.polling, s.lost e.1 = false ∧
      ∀ c ∈ (s.cq e.1).head?, c.round = some s.round
  | .poll b => ∀ c ∈ (s.cq b).head?, c.round = none
  | .post _ ask => ask = none
  | .setUp _ => False
  | .start _ _ | .sent _ | .answer _ _ | .unsolicited _ _ | .rdma _ | .change _ | .lose _ => True

/-- Replies are matched to requests: what is ranked is what the replies to this round's
queries carry (a server passed over keeps the initial values), a round that returned 0 has
handled the reply to every bind it posted, and no server is set up twice. -/
structure RepliesMatched (s : PollState) : Prop where
  ranked : ∀ selectChunk polls fresh entries,
    s.pc = .query selectChunk [] polls fresh entries →
      ∀ e ∈ entries, e ≠ (-1, s.sess.cbNum) →
        ∃ v, s.carried e.2 = some v ∧ e.1 = Int32.ofInt v
  bound : s.returned = some 0 → ∀ e ∈ s.posted, e ∈ s.processed
  setUpOnce : ∀ b, s.setups b ≤ 1

/-! ## The invariant -/

namespace PollState

variable (s : PollState) (b : Nat)

/-- The sends under way that are of a round. -/
def ownSends : List (Option Nat) := (s.sends b).filter Option.isSome

/-- The entries of a queue that are of a round. -/
def ownCq : List Completion := (s.cq b).filter fun c => c.round.isSome

end PollState

/-- The reply to the request has not been handled yet. -/
def ReplyOut (s : PollState) (b : Nat) : Prop :=
  s.requests b ≠ [] ∨ ∃ msg n, Completion.recv msg n ∈ s.ownCq b

/-- The reply to the request has been handled. -/
def Got (s : PollState) (b : Nat) : Request → Prop
  | .query => s.carried b = some (s.sess.cb b).remoteChunk.targetSizeG
  | .bind chunk => (b, chunk) ∈ s.processed ∧ (s.sess.cbStateList b).hasBeenBound = true

/-- Nothing of a round is under way to a server's queue or in it. -/
structure Quiet (s : PollState) (b : Nat) : Prop where
  sends : s.ownSends b = []
  requests : s.requests b = []
  cq : s.ownCq b = []

/-- `polls` completions of a request are under way to the queue or in it, its reply among
them or handled. -/
structure Busy (s : PollState) (b polls : Nat) (r : Request) : Prop where
  count : (s.ownSends b).length + (s.requests b).length + (s.ownCq b).length = polls
  single : (s.requests b).length + (s.ownCq b).countP Completion.isReply ≤ 1
  asked : ∀ e ∈ s.requests b, e = (some s.round, r)
  came : ∀ msg n, Completion.recv msg n ∈ s.ownCq b →
    r.Answers msg ∧ (r = .query → s.carried b = some msg.sizeGb)
  reply : ReplyOut s b ∨ Got s b r

/-- The entries of servers that were queried. -/
def queried (s : PollState) (entries : List (Int32 × Nat)) : List (Int32 × Nat) :=
  entries.filter fun e => !decide (e = (-1, s.sess.cbNum))

/-- The loop variables of the round. -/
def PcOk (s : PollState) : RoundPc → Prop
  | .query _ rest _ fresh entries =>
      ((queried s entries).map Prod.snd ++ rest).Nodup ∧
        (∀ e ∈ queried s entries, ∃ v, s.carried e.2 = some v ∧ e.1 = Int32.ofInt v) ∧
        (fresh = true → ∀ b ∈ rest.head?, s.lost b = false → s.sess.cbStateList b = .idle)
  | .idle | .bind _ _ _ _ => True

/-- What holds in every state of a run whose polls get what they are for.  Of a server that
has been lost little is known. -/
structure PollOk (s : PollState) : Prop where
  quiet : ∀ b, s.lost b = false → (∀ polls r, s.pc.polling ≠ some (b, polls, r)) → Quiet s b
  busy : ∀ b polls r, s.lost b = false → s.pc.polling = some (b, polls, r) → Busy s b polls r
  accord : ∀ b msg, Completion.recv msg none ∈ s.cq b → OwnAccord msg
  there : ∀ b, s.lost b = false → s.error b = false ∧ s.sess.cbStateList b ≠ .fail
  pc : PcOk s s.pc
  setups : ∀ b, s.setups b ≤ 1
  unset : ∀ b, (s.sess.cbStateList b).hasBeenBound = false →
    s.setups b = 0 ∨ ∃ polls chunk, s.pc.polling = some (b, polls, .bind chunk)
  bound : ∀ e ∈ s.posted, e ∈ s.processed ∨ ∃ polls, s.pc.polling = some (e.1, polls, .bind e.2)
  ended : s.returned = some 0 → s.pc = .idle

theorem mem_queried {s : PollState} {entries : List (Int32 × Nat)} {e : Int32 × Nat} :
    e ∈ queried s entries ↔ e ∈ entries ∧ e ≠ (-1, s.sess.cbNum) := by
  simp [queried]

theorem PollOk.repliesMatched {s : PollState} (h : PollOk s) : RepliesMatched s := by
  refine ⟨fun selectChunk polls fresh entries hpc e he hne => ?_, fun hzero e he => ?_, h.setups⟩
  · have hok := h.pc
    rw [hpc] at hok
    exact hok.2.1 e (mem_queried.mpr ⟨he, hne⟩)
  · rcases h.bound e he with hdone | ⟨polls, hpolling⟩
    · exact hdone
    · rw [h.ended hzero] at hpolling
      cases hpolling

theorem pollOk_init (cfg : Config) (cbNum : Nat) : PollOk (pollInit cfg cbNum) where
  quiet := fun _ _ _ => ⟨rfl, rfl, rfl⟩
  busy := fun b polls r _ h => by cases h
  accord := fun b msg hmem => by cases hmem
  there := fun _ _ => ⟨rfl, nofun⟩
  pc := trivial
  setups := fun _ => Nat.zero_le 1
  unset := fun _ _ => Or.inl rfl
  bound := fun e he => by cases he
  ended := fun h => by cases h

/-- With no completion left the reply has been handled. -/
theorem Busy.finished {s : PollState} {b : Nat} {r : Request} (h : Busy s b 0 r) :
    Quiet s b ∧ Got s b r := by
  have hcount := h.count
  have hsends : s.ownSends b = [] := List.length_eq_zero_iff.mp (by omega)
  have hrequests : s.requests b = [] := List.length_eq_zero_iff.mp (by omega)
  have hcq : s.ownCq b = [] := List.length_eq_zero_iff.mp (by omega)
  refine ⟨⟨hsends, hrequests, hcq⟩, ?_⟩
  rcases h.reply with (hasked | ⟨msg, n, hcame⟩) | hgot
  · exact absurd hrequests hasked
  · rw [hcq] at hcame
    cases hcame
  · exact hgot

/-! ## What other threads and the network do -/

/-- A step that leaves the round, and what is of it in queues and under way, alone. -/
structure Beside (s t : PollState) : Prop where
  pc : t.pc = s.pc
  round : t.round = s.round
  returned : t.returned = s.returned
  carried : t.carried = s.carried
  posted : t.posted = s.posted
  processed : t.processed = s.processed
  setups : t.setups = s.setups
  lost : ∀ b, t.lost b = false → s.lost b = false
  sess : t.sess.cbNum = s.sess.cbNum
  size : ∀ b, (t.sess.cb b).remoteChunk.targetSizeG = (s.sess.cb b).remoteChunk.targetSizeG
  states : ∀ b, t.sess.cbStateList b = s.sess.cbStateList b ∨
    ((t.sess.cbStateList b).hasBeenBound = true ∧
      ((s.sess.cbStateList b).hasBeenBound = true ∨ t.lost b = true))
  own : ∀ b, t.ownSends b = s.ownSends b ∧ t.requests b = s.requests b ∧ t.ownCq b = s.ownCq b

theorem Beside.got {s t : PollState} {b : Nat} {r : Request} (h : Beside s t) (hgot : Got s b r) :
    Got t b r := by
  cases r with
  | query =>
      change t.carried b = _
      rw [h.carried, h.size]
      exact hgot
  | bind chunk =>
      refine ⟨by rw [h.processed]; exact hgot.1, ?_⟩
      rcases h.states b with hsame | ⟨hbound, -⟩
      · rw [hsame]
        exact hgot.2
      · exact hbound

theorem Beside.quiet {s t : PollState} {b : Nat} (h : Beside s t) (hquiet : Quiet s b) :
    Quiet t b := by
  obtain ⟨hsends, hrequests, hcq⟩ := h.own b
  exact ⟨hsends.trans hquiet.sends, hrequests.trans hquiet.requests, hcq.trans hquiet.cq⟩

theorem Beside.busy {s t : PollState} {b polls : Nat} {r : Request} (h : Beside s t)
    (hbusy : Busy s b polls r) : Busy t b polls r := by
  obtain ⟨hsends, hrequests, hcq⟩ := h.own b
  refine ⟨by rw [hsends, hrequests, hcq]; exact hbusy.count,
    by rw [hrequests, hcq]; exact hbusy.single, by rw [hrequests, h.round]; exact hbusy.asked,
    by rw [hcq, h.carried]; exact hbusy.came, ?_⟩
  refine hbusy.reply.imp (fun hout => ?_) h.got
  rw [ReplyOut, hrequests, hcq]
  exact hout

theorem PollOk.beside {s t : PollState} (h : PollOk s) (hb : Beside s t)
    (haccord : ∀ b msg, Completion.recv msg none ∈ t.cq b → OwnAccord msg)
    (hthere : ∀ b, t.lost b = false → t.error b = false ∧ t.sess.cbStateList b ≠ .fail) :
    PollOk t where
  quiet := fun b hlost hpolling => hb.quiet (h.quiet b (hb.lost b hlost) (hb.pc ▸ hpolling))
  busy := fun b polls r hlost hpolling =>
    hb.busy (h.busy b polls r (hb.lost b hlost) (hb.pc ▸ hpolling))
  accord := haccord
  there := hthere
  pc := by
    have hok := h.pc
    rw [hb.pc]
    cases hs : s.pc with
    | idle | bind => trivial
    | query selectChunk rest polls fresh entries =>
        rw [hs] at hok
        obtain ⟨hnodup, hentries, hfresh⟩ := hok
        have hsame : queried t entries = queried s entries := by rw [queried, queried, hb.sess]
        refine ⟨by rw [hsame]; exact hnodup, by rw [hsame, hb.carried]; exact hentries,
          fun hf b hhead hlost => ?_⟩
        have hidle := hfresh hf b hhead (hb.lost b hlost)
        rcases hb.states b with heq | ⟨-, hbound | hlost'⟩
        · rw [heq, hidle]
        · rw [hidle] at hbound
          cases hbound
        · rw [hlost] at hlost'
          cases hlost'
  setups := by
    rw [hb.setups]
    exact h.setups
  unset := by
    intro b hunbound
    rw [hb.setups, hb.pc]
    refine h.unset b ?_
    rcases hb.states b with heq | ⟨hbound, -⟩
    · rw [← heq]
      exact hunbound
    · rw [hunbound] at hbound
      cases hbound
  bound := by
    rw [hb.posted, hb.processed, hb.pc]
    exact h.bound
  ended := by
    rw [hb.returned, hb.pc]
    exact h.ended

theorem mem_ownCq {s : PollState} {b : Nat} {c : Completion} :
    c ∈ s.ownCq b ↔ c ∈ s.cq b ∧ c.round.isSome = true :=
  List.mem_filter

/-- What is at the back of a queue and of no round is not among what is of one. -/
theorem ownCq_append_none {s : PollState} {b : Nat} {c : Completion} (hc : c.round = none)
    (d : Nat) :
    { s with cq := Function.update s.cq b (s.cq b ++ [c]) }.ownCq d = s.ownCq d := by
  by_cases hd : d = b
  · subst hd
    simp [PollState.ownCq, List.filter_append, hc]
  · simp [PollState.ownCq, Function.update_of_ne hd]

/-- An entry of no round comes into a queue. -/
theorem PollOk.foreign {s : PollState} {b : Nat} {c : Completion} (h : PollOk s)
    (hc : c.round = none) (haccord : ∀ msg, c = .recv msg none → OwnAccord msg) :
    PollOk { s with cq := Function.update s.cq b (s.cq b ++ [c]) } := by
  refine h.beside ⟨rfl, rfl, rfl, rfl, rfl, rfl, rfl, fun _ hlost => hlost, rfl, fun _ => rfl,
    fun _ => Or.inl rfl, fun d => ⟨rfl, rfl, ownCq_append_none hc d⟩⟩ (fun d msg hmem => ?_) h.there
  change Completion.recv msg none ∈ Function.update s.cq b (s.cq b ++ [c]) d at hmem
  by_cases hd : d = b
  · subst hd
    rw [Function.update_self] at hmem
    rcases List.mem_append.mp hmem with hold | hnew
    · exact h.accord d msg hold
    · exact haccord msg (List.mem_singleton.mp hnew).symm
  · rw [Function.update_of_ne hd] at hmem
    exact h.accord d msg hmem

/-- What a message the monitor sends of its own accord does to the session. -/
theorem clientRecv_of_accord (cfg : Config) {b : Nat} {msg : Message} (s : Session)
    (hmsg : OwnAccord msg) :
    ∃ t, s.clientRecv cfg b msg = some t ∧ t.cbNum = s.cbNum ∧ t.cbStateList = s.cbStateList ∧
      ∀ d, (t.cb d).remoteChunk.targetSizeG = (s.cb d).remoteChunk.targetSizeG := by
  -- `evict` and `stop` replace the part of `cb` that says what to evict
  have hput : ∀ rc : RemoteChunkList, rc.targetSizeG = (s.cb b).remoteChunk.targetSizeG →
      ∀ d, ((s.putCb b { s.cb b with remoteChunk := rc }).cb d).remoteChunk.targetSizeG =
        (s.cb d).remoteChunk.targetSizeG := by
    intro rc hrc d
    by_cases hd : d = b
    · rw [hd, Session.putCb_cb_self]
      exact hrc
    · rw [Session.putCb_cb_of_ne _ hd]
  unfold Session.clientRecv
  rcases hmsg with htype | htype | htype
  · rw [htype]
    refine ⟨_, rfl, rfl, rfl, hput _ ?_⟩
    rw [RemoteChunkList.clientRecvEvict]
    split <;> rfl
  · rw [htype]
    refine ⟨_, rfl, rfl, rfl, hput _ ?_⟩
    rw [RemoteChunkList.clientRecvStop]
    split <;> rfl
  · rw [htype]
    exact ⟨_, rfl, rfl, rfl, fun _ => rfl⟩

/-- A poll of another thread that finds nothing of a round. -/
theorem PollOk.poll {cfg : Config} {s t : PollState} {b : Nat} (h : PollOk s)
    (hhead : ∀ c ∈ (s.cq b).head?, c.round = none) (htake : s.take cfg b = some t) :
    PollOk t := by
  have hown : ∀ d, ({ s with cq := Function.update s.cq b (s.cq b).tail } : PollState).ownCq d =
      s.ownCq d := by
    intro d
    by_cases hd : d = b
    · subst hd
      cases hcq : s.cq d with
      | nil => simp [PollState.ownCq, hcq]
      | cons c rest =>
          have hc : c.round = none := hhead c (by rw [hcq]; rfl)
          simp [PollState.ownCq, hcq, hc]
    · simp [PollState.ownCq, Function.update_of_ne hd]
  have haccord : ∀ d msg, Completion.recv msg none ∈ Function.update s.cq b (s.cq b).tail d →
      OwnAccord msg := by
    intro d msg hmem
    by_cases hd : d = b
    · subst hd
      rw [Function.update_self] at hmem
      exact h.accord d msg (List.mem_of_mem_tail hmem)
    · rw [Function.update_of_ne hd] at hmem
      exact h.accord d msg hmem
  -- whatever was taken, the round is left alone
  have htail : PollOk { s with cq := Function.update s.cq b (s.cq b).tail } :=
    h.beside ⟨rfl, rfl, rfl, rfl, rfl, rfl, rfl, fun _ hlost => hlost, rfl, fun _ => rfl,
      fun _ => Or.inl rfl, fun d => ⟨rfl, rfl, hown d⟩⟩ haccord h.there
  unfold PollState.take at htake
  split at htake
  · obtain rfl := Option.some.inj htake
    exact h
  split at htake
  · rename_i hfail
    obtain rfl := Option.some.inj htake
    refine htail.beside ⟨rfl, rfl, rfl, rfl, rfl, rfl, rfl, fun _ hlost => hlost, rfl,
      fun _ => rfl, fun _ => Or.inl rfl, fun _ => ⟨rfl, rfl, rfl⟩⟩ htail.accord fun d hlost => ?_
    have hne : d ≠ b := fun heq => (h.there d hlost).2 (heq ▸ hfail)
    exact ⟨(Function.update_of_ne hne ..).trans (h.there d hlost).1, (h.there d hlost).2⟩
  split at htake
  · cases htake
  · rename_i n rest hcq
    obtain rfl := Option.some.inj htake
    rwa [hcq] at htail
  · rename_i rest hcq
    obtain rfl := Option.some.inj htake
    rwa [hcq] at htail
  · rename_i msg tag rest hcq
    obtain rfl : tag = none := hhead (.recv msg tag) (by rw [hcq]; rfl)
    obtain ⟨sess, hrecv, hnum, hstates, hsize⟩ := clientRecv_of_accord cfg (b := b) s.sess
      (h.accord b msg (by rw [hcq]; exact List.mem_cons_self))
    rw [hrecv] at htake
    obtain rfl := Option.some.inj htake
    rw [hcq] at htail
    refine htail.beside ⟨rfl, rfl, rfl, rfl, rfl, if_neg (fun hand => by cases hand.2), rfl,
      fun _ hlost => hlost, hnum, hsize, fun d => Or.inl (congrFun hstates d),
      fun _ => ⟨rfl, rfl, rfl⟩⟩ htail.accord fun d hlost => ?_
    rw [hstates]
    exact h.there d hlost

/-- A send of another thread. -/
theorem PollOk.post {s : PollState} (h : PollOk s) (b : Nat) :
    PollOk { s with sends := Function.update s.sends b (s.sends b ++ [none]) } := by
  refine h.beside ⟨rfl, rfl, rfl, rfl, rfl, rfl, rfl, fun _ hlost => hlost, rfl, fun _ => rfl,
    fun _ => Or.inl rfl, fun d => ⟨?_, rfl, rfl⟩⟩ h.accord h.there
  by_cases hd : d = b
  · subst hd
    simp [PollState.ownSends, List.filter_append]
  · simp [PollState.ownSends, Function.update_of_ne hd]

theorem PollOk.change {s : PollState} {sess : Session} (h : PollOk s)
    (hothers : ByOthers s.sess sess) : PollOk { s with sess := sess } := by
  refine h.beside ⟨rfl, rfl, rfl, rfl, rfl, rfl, rfl, fun _ hlost => hlost, hothers.cbNum,
    hothers.size, fun b => ?_, fun _ => ⟨rfl, rfl, rfl⟩⟩ h.accord fun b hlost => ?_
  · refine (hothers.states b).imp id fun hand => ⟨?_, Or.inl hand.1⟩
    rcases hand.2 with hstate | hstate <;> exact congrArg CbState.hasBeenBound hstate
  · refine ⟨(h.there b hlost).1, fun hfail => ?_⟩
    change sess.cbStateList b = .fail at hfail
    rcases hothers.states b with hsame | ⟨-, hstate | hstate⟩
    · exact (h.there b hlost).2 (hsame.symm.trans hfail)
    · rw [hfail] at hstate
      cases hstate
    · rw [hfail] at hstate
      cases hstate

/-- A connection is lost. -/
theorem PollOk.lose {s : PollState} (h : PollOk s) (b : Nat) :
    PollOk
      { s with
        sess := s.sess.setState b .fail
        lost := Function.update s.lost b true } := by
  have hlive : ∀ d, Function.update s.lost b true d = false → d ≠ b ∧ s.lost d = false := by
    intro d hlost
    have hne : d ≠ b := by
      rintro rfl
      rw [Function.update_self] at hlost
      cases hlost
    exact ⟨hne, by rwa [Function.update_of_ne hne] at hlost⟩
  refine h.beside ⟨rfl, rfl, rfl, rfl, rfl, rfl, rfl, fun d hlost => (hlive d hlost).2, rfl,
    fun _ => rfl, fun d => ?_, fun _ => ⟨rfl, rfl, rfl⟩⟩ h.accord fun d hlost => ?_
  · change Function.update s.sess.cbStateList b .fail d = _ ∨ _
    by_cases hd : d = b
    · refine Or.inr ⟨?_, Or.inr ?_⟩
      · simp [Session.setState, hd, CbState.hasBeenBound]
      · simp [hd]
    · exact Or.inl (Function.update_of_ne hd ..)
  · obtain ⟨hne, hlost⟩ := hlive d hlost
    refine ⟨(h.there d hlost).1, ?_⟩
    change Function.update s.sess.cbStateList b .fail d ≠ _
    rw [Function.update_of_ne hne]
    exact (h.there d hlost).2

/-! ## Arrivals of the round -/

/-- What an arrival at one queue leaves alone. -/
structure Arrives (s t : PollState) (b : Nat) : Prop where
  sess : t.sess = s.sess
  pc : t.pc = s.pc
  round : t.round = s.round
  returned : t.returned = s.returned
  posted : t.posted = s.posted
  processed : t.processed = s.processed
  setups : t.setups = s.setups
  lost : t.lost = s.lost
  error : t.error = s.error
  others : ∀ d, d ≠ b → t.sends d = s.sends d ∧ t.requests d = s.requests d ∧ t.cq d = s.cq d ∧
    t.carried d = s.carried d

theorem Quiet.frame {s t : PollState} {b : Nat} (h : Quiet s b) (hsends : t.sends b = s.sends b)
    (hrequests : t.requests b = s.requests b) (hcq : t.cq b = s.cq b) : Quiet t b := by
  refine ⟨?_, hrequests.trans h.requests, ?_⟩
  · rw [PollState.ownSends, hsends]
    exact h.sends
  · rw [PollState.ownCq, hcq]
    exact h.cq

theorem Got.frame {s t : PollState} {b : Nat} {r : Request} (h : Got s b r)
    (hsess : t.sess = s.sess) (hcarried : t.carried b = s.carried b)
    (hprocessed : t.processed = s.processed) : Got t b r := by
  cases r with
  | query =>
      change t.carried b = _
      rw [hcarried, hsess]
      exact h
  | bind chunk =>
      refine ⟨?_, ?_⟩
      · rw [hprocessed]
        exact h.1
      · rw [hsess]
        exact h.2

theorem Arrives.busy {s t : PollState} {b d polls : Nat} {r : Request} (h : Arrives s t b)
    (hd : d ≠ b) (hbusy : Busy s d polls r) : Busy t d polls r := by
  obtain ⟨hsends, hrequests, hcq, hcarried⟩ := h.others d hd
  have hownSends : t.ownSends d = s.ownSends d := by rw [PollState.ownSends, hsends]; rfl
  have hownCq : t.ownCq d = s.ownCq d := by rw [PollState.ownCq, hcq]; rfl
  refine ⟨?_, ?_, ?_, ?_, ?_⟩
  · rw [hownSends, hrequests, hownCq]
    exact hbusy.count
  · rw [hrequests, hownCq]
    exact hbusy.single
  · rw [hrequests, h.round]
    exact hbusy.asked
  · rw [hownCq, hcarried]
    exact hbusy.came
  · refine hbusy.reply.imp (fun hout => ?_) fun hgot => hgot.frame h.sess hcarried h.processed
    rw [ReplyOut, hrequests, hownCq]
    exact hout

/-- An arrival keeps the invariant if it keeps that of its own queue; what a reply
carries is noted only for the server being queried. -/
theorem PollOk.arrive {s t : PollState} {b : Nat} (h : PollOk s) (harrive : Arrives s t b)
    (haccord : ∀ msg, Completion.recv msg none ∈ t.cq b → Completion.recv msg none ∈ s.cq b)
    (hquiet : (s.lost b = true ∨ ∀ polls r, s.pc.polling ≠ some (b, polls, r)) →
      (s.lost b = false → Quiet t b) ∧ t.carried b = s.carried b)
    (hbusy : ∀ polls r, s.lost b = false → s.pc.polling = some (b, polls, r) →
      Busy t b polls r ∧ (t.carried b = s.carried b ∨ r = .query)) : PollOk t := by
  have hpc := harrive.pc
  have hlost := harrive.lost
  refine ⟨fun d hl hd => ?_, fun d polls r hl hd => ?_, fun d msg hmem => ?_, ?_, ?_, ?_, ?_, ?_,
    ?_⟩
  · rw [hpc] at hd
    rw [hlost] at hl
    by_cases hdb : d = b
    · subst hdb
      exact (hquiet (Or.inr hd)).1 hl
    · obtain ⟨hsends, hrequests, hcq, -⟩ := harrive.others d hdb
      exact (h.quiet d hl hd).frame hsends hrequests hcq
  · rw [hpc] at hd
    rw [hlost] at hl
    by_cases hdb : d = b
    · subst hdb
      exact (hbusy polls r hl hd).1
    · exact harrive.busy hdb (h.busy d polls r hl hd)
  · by_cases hdb : d = b
    · subst hdb
      exact h.accord d msg (haccord msg hmem)
    · rw [(harrive.others d hdb).2.2.1] at hmem
      exact h.accord d msg hmem
  · rw [hlost, harrive.error, harrive.sess]
    exact h.there
  · have hok := h.pc
    rw [hpc]
    cases hs : s.pc with
    | idle | bind => trivial
    | query selectChunk rest polls fresh entries =>
        rw [hs] at hok
        obtain ⟨hnodup, hentries, hfresh⟩ := hok
        have hsame : queried t entries = queried s entries := by rw [queried, queried, harrive.sess]
        refine ⟨by rw [hsame]; exact hnodup, fun e he => ?_, ?_⟩
        · rw [hsame] at he
          -- a server with an entry is not the one being queried
          have hkeep : t.carried e.2 = s.carried e.2 := by
            by_cases heb : e.2 = b
            · by_cases hpolling : ∀ polls r, s.pc.polling ≠ some (b, polls, r)
              · rw [heb]
                exact (hquiet (Or.inr hpolling)).2
              · simp only [not_forall, not_not] at hpolling
                obtain ⟨p, r, hpolling⟩ := hpolling
                rw [hs] at hpolling
                cases rest with
                | nil => cases hpolling
                | cons d rest =>
                    cases polls with
                    | zero => cases hpolling
                    | succ polls =>
                        have hdb : d = b := congrArg Prod.fst (Option.some.inj hpolling)
                        have hmem : e.2 ∈ (queried s entries).map Prod.snd := List.mem_map_of_mem he
                        have hdisjoint := (List.nodup_append.mp hnodup).2.2 e.2 hmem d
                          List.mem_cons_self
                        exact absurd (heb.trans hdb.symm) hdisjoint
            · exact (harrive.others e.2 heb).2.2.2
          rw [hkeep]
          exact hentries e he
        · rw [harrive.sess, hlost]
          exact hfresh
  · rw [harrive.setups]
    exact h.setups
  · rw [harrive.sess, harrive.setups, hpc]
    exact h.unset
  · rw [harrive.posted, harrive.processed, hpc]
    exact h.bound
  · rw [harrive.returned, hpc]
    exact h.ended

/-- A send completes: one of the round moves from what is under way to the queue. -/
theorem PollOk.sent {cfg : Config} {s t : PollState} {b : Nat} (h : PollOk s)
    (hstep : pollStep cfg s (.sent b) = some t) : PollOk t := by
  simp only [pollStep] at hstep
  split at hstep
  · cases hstep
  rename_i n rest hsends
  obtain rfl := Option.some.inj hstep
  cases n with
  | none =>
      have hforeign := h.foreign (b := b) (c := .send none) rfl nofun
      refine hforeign.beside ⟨rfl, rfl, rfl, rfl, rfl, rfl, rfl, fun _ hlost => hlost, rfl,
        fun _ => rfl, fun _ => Or.inl rfl, fun d => ⟨?_, rfl, rfl⟩⟩ hforeign.accord hforeign.there
      by_cases hd : d = b
      · subst hd
        simp [PollState.ownSends, hsends]
      · simp [PollState.ownSends, Function.update_of_ne hd]
  | some n =>
      have hown : s.ownSends b = some n :: rest.filter Option.isSome := by
        rw [PollState.ownSends, hsends]
        rfl
      refine h.arrive (b := b) ⟨rfl, rfl, rfl, rfl, rfl, rfl, rfl, rfl, rfl, fun d hd => ?_⟩
        (fun msg hmem => ?_) (fun hnot => ⟨fun hlost => ?_, rfl⟩) fun polls r hlost hpolling =>
          ⟨?_, Or.inl rfl⟩
      · simp [Function.update_of_ne hd]
      · simpa using hmem
      · have hpolling := hnot.resolve_left (by rw [hlost]; exact Bool.false_ne_true)
        have hnil := (h.quiet b hlost hpolling).sends
        rw [hown] at hnil
        cases hnil
      · have hbusy := h.busy b polls r hlost hpolling
        have hcount := hbusy.count
        have hsingle := hbusy.single
        rw [hown, List.length_cons] at hcount
        have hcq : ({ s with
            sends := Function.update s.sends b rest
            cq := Function.update s.cq b (s.cq b ++ [.send (some n)]) } : PollState).ownCq b =
              s.ownCq b ++ [.send (some n)] := by
          simp [PollState.ownCq, List.filter_append, Completion.round]
        have hleft : ({ s with
            sends := Function.update s.sends b rest
            cq := Function.update s.cq b (s.cq b ++ [.send (some n)]) } : PollState).ownSends b =
              rest.filter Option.isSome := by
          simp [PollState.ownSends]
        refine ⟨?_, ?_, hbusy.asked, fun msg k hmem => ?_, ?_⟩
        · rw [hcq, hleft, List.length_append, List.length_singleton]
          show _ + (s.requests b).length + _ = _
          omega
        · rw [hcq, List.countP_append, List.countP_singleton]
          simpa [Completion.isReply] using hsingle
        · rw [hcq, List.mem_append, List.mem_singleton] at hmem
          rcases hmem with hmem | heq
          · exact hbusy.came msg k hmem
          · cases heq
        · rcases hbusy.reply with (hasked | ⟨msg, k, hcame⟩) | hgot
          · exact Or.inl (Or.inl hasked)
          · exact Or.inl (Or.inr ⟨msg, k, by rw [hcq]; exact List.mem_append_left _ hcame⟩)
          · exact Or.inr (hgot.frame rfl rfl rfl)

theorem PollOk.answer {cfg : Config} {s t : PollState} {b : Nat} {msg : Message} (h : PollOk s)
    (hpermitted : PollPermitted s (.answer b msg))
    (hstep : pollStep cfg s (.answer b msg) = some t) : PollOk t := by
  simp only [pollStep] at hstep
  split at hstep
  · cases hstep
  rename_i hlive
  have hlost : s.lost b = false := by simpa using hlive
  split at hstep
  · cases hstep
  rename_i n r rest hrequests
  obtain rfl := Option.some.inj hstep
  -- the server is the one polled, and the request is that of the round
  obtain ⟨polls, r', hpolling⟩ : ∃ polls r', s.pc.polling = some (b, polls, r') := by
    by_contra hnot
    simp only [not_exists] at hnot
    have hnone := (h.quiet b hlost hnot).requests
    rw [hrequests] at hnone
    cases hnone
  have hbusy := h.busy b polls r' hlost hpolling
  have hanswers : r.Answers msg := hpermitted (n, r) (by rw [hrequests]; rfl)
  obtain ⟨rfl, rfl⟩ : n = some s.round ∧ r = r' := by
    have heq := hbusy.asked (n, r) (by rw [hrequests]; exact List.mem_cons_self)
    exact ⟨congrArg Prod.fst heq, congrArg Prod.snd heq⟩
  refine h.arrive (b := b) ⟨rfl, rfl, rfl, rfl, rfl, rfl, rfl, rfl, rfl, fun d hd => ?_⟩
    (fun msg' hmem => ?_) (fun hnot => ?_) fun polls' r' hlost hpolling' => ?_
  · refine ⟨rfl, Function.update_of_ne hd _ _, Function.update_of_ne hd _ _, ?_⟩
    by_cases hquery : r = .query
    · simp [hquery, Function.update_of_ne hd]
    · simp [hquery]
  · simpa using hmem
  · exact absurd hpolling (hnot.resolve_left (by rw [hlost]; exact Bool.false_ne_true) polls r)
  · obtain ⟨rfl, rfl⟩ : polls = polls' ∧ r = r' := by
      have heq := Option.some.inj (hpolling.symm.trans hpolling')
      simpa using heq
    have hcount := hbusy.count
    have hsingle := hbusy.single
    rw [hrequests, List.length_cons] at hcount hsingle
    have hrest : rest = [] := List.length_eq_zero_iff.mp (by omega)
    have hreplies : ∀ c ∈ s.ownCq b, c.isReply = false := by
      have hzero : (s.ownCq b).countP Completion.isReply = 0 := by omega
      intro c hc
      simpa using List.countP_eq_zero.mp hzero c hc
    have hcq : ∀ carried, ({ s with
        requests := Function.update s.requests b rest
        cq := Function.update s.cq b (s.cq b ++ [.recv msg (some s.round)])
        carried := carried } : PollState).ownCq b = s.ownCq b ++ [.recv msg (some s.round)] := by
      intro carried
      simp [PollState.ownCq, List.filter_append, Completion.round]
    refine ⟨⟨?_, ?_, fun e he => ?_, fun msg' k hmem => ?_, ?_⟩, ?_⟩
    · rw [hcq, List.length_append, List.length_singleton, ← hcount]
      simp only [Function.update_self]
      show (s.ownSends b).length + rest.length + _ = _
      omega
    · rw [hcq, List.countP_append, List.countP_singleton]
      simp only [Function.update_self, Completion.isReply, if_true]
      omega
    · simp only [Function.update_self, hrest] at he
      cases he
    · rw [hcq, List.mem_append, List.mem_singleton] at hmem
      rcases hmem with hmem | heq
      · -- the only reply is the new one
        have hfalse := hreplies _ hmem
        have hsome := (mem_ownCq.mp hmem).2
        cases k with
        | none => cases hsome
        | some k => cases hfalse
      · obtain ⟨rfl, -⟩ := Completion.recv.inj heq
        refine ⟨hanswers, fun hquery => ?_⟩
        simp [hquery]
    · exact Or.inl (Or.inr ⟨msg, some s.round, by rw [hcq]; simp⟩)
    · by_cases hquery : r = .query
      · exact Or.inr hquery
      · left
        simp [hquery]

/-! ## Polls of the round -/

/-- What a poll of the round leaves alone. -/
structure Taken (s t : PollState) (b : Nat) (r : Request) : Prop where
  pc : t.pc = s.pc
  round : t.round = s.round
  carried : t.carried = s.carried
  sends : t.sends = s.sends
  requests : t.requests = s.requests
  returned : t.returned = s.returned
  posted : t.posted = s.posted
  setups : t.setups = s.setups
  lost : t.lost = s.lost
  error : t.error = s.error
  cbNum : t.sess.cbNum = s.sess.cbNum
  cq : ∀ d, d ≠ b → t.cq d = s.cq d
  left : ∀ c, c ∈ t.cq b → c ∈ s.cq b
  processed : ∀ e ∈ s.processed, e ∈ t.processed
  states : ∀ d, t.sess.cbStateList d = s.sess.cbStateList d ∨
    (d = b ∧ t.sess.cbStateList d = .mapped ∧ r ≠ .query)

/-- Taking the completion of a send. -/
theorem Busy.takeSend {s : PollState} {b polls n : Nat} {r : Request} {rest : List Completion}
    (h : Busy s b (polls + 1) r) (hcq : s.cq b = .send (some n) :: rest) :
    Busy { s with cq := Function.update s.cq b rest } b polls r ∧
      Taken s { s with cq := Function.update s.cq b rest } b r := by
  have hcount := h.count
  have hsingle := h.single
  have hown : s.ownCq b = .send (some n) :: rest.filter fun c => c.round.isSome := by
    rw [PollState.ownCq, hcq]
    rfl
  have hleft : ({ s with cq := Function.update s.cq b rest } : PollState).ownCq b =
      rest.filter fun c => c.round.isSome := by
    simp [PollState.ownCq]
  rw [hown, List.length_cons] at hcount
  rw [hown, List.countP_cons_of_neg (by simp [Completion.isReply])] at hsingle
  refine ⟨⟨?_, by rw [hleft]; exact hsingle, h.asked, fun msg k hmem => ?_, ?_⟩,
    ⟨rfl, rfl, rfl, rfl, rfl, rfl, rfl, rfl, rfl, rfl, rfl,
      fun d hd => Function.update_of_ne hd _ _, fun c hc => ?_, fun e he => he,
      fun d => Or.inl rfl⟩⟩
  · rw [hleft]
    show (s.ownSends b).length + (s.requests b).length + _ = _
    omega
  · rw [hleft] at hmem
    exact h.came msg k (by rw [hown]; exact List.mem_cons_of_mem _ hmem)
  · rcases h.reply with (hasked | ⟨msg, k, hcame⟩) | hgot
    · exact Or.inl (Or.inl hasked)
    · rw [hown] at hcame
      rcases List.mem_cons.mp hcame with heq | hmem
      · cases heq
      · exact Or.inl (Or.inr ⟨msg, k, by rw [hleft]; exact hmem⟩)
    · exact Or.inr (hgot.frame rfl rfl rfl)
  · simp only [Function.update_self] at hc
    rw [hcq]
    exact List.mem_cons_of_mem _ hc

theorem isSingleChunkInit_cbNum {cfg : Config} {b : Nat} {msg : Message} {s t : Session}
    (h : isSingleChunkInit cfg b msg s = some t) : t.cbNum = s.cbNum := by
  unfold isSingleChunkInit at h
  split at h
  · obtain rfl := Option.some.inj h
    rfl
  · obtain ⟨c, -, rfl⟩ := Option.map_eq_some_iff.mp h
    rfl

/-- What the reply brings: the size asked for, or a chunk for the session chunk asked
for. -/
theorem Busy.gotReply {cfg : Config} {s : PollState} {b polls : Nat} {r : Request}
    {msg : Message} {sess : Session} (h : Busy s b polls r) (rest : List Completion)
    (hcame : .recv msg (some s.round) ∈ s.ownCq b)
    (hrecv : s.sess.clientRecv cfg b msg = some sess) :
    Got
      { s with
        sess := sess
        cq := Function.update s.cq b rest
        processed :=
          if msg.type = .infoSingle ∧ some s.round = some s.round then
            (b, msg.sizeGb.toNat) :: s.processed
          else s.processed } b r ∧
      sess.cbNum = s.sess.cbNum ∧
      ∀ d, sess.cbStateList d = s.sess.cbStateList d ∨
        (d = b ∧ sess.cbStateList d = .mapped ∧ r ≠ .query) := by
  obtain ⟨hanswers, hcarried⟩ := h.came msg _ hcame
  cases r with
  | query =>
      have htype : msg.type = .freeSize := hanswers
      simp only [Session.clientRecv, htype] at hrecv
      obtain rfl := Option.some.inj hrecv
      refine ⟨?_, rfl, fun d => Or.inl rfl⟩
      change s.carried b = some _
      rw [hcarried rfl]
      simp [Session.putCb]
  | bind chunk =>
      obtain ⟨htype, hsize⟩ := hanswers
      simp only [Session.clientRecv, htype] at hrecv
      have hstates := isSingleChunkInit_cbStateList hrecv
      have hnum : sess.cbNum = s.sess.cbNum := (isSingleChunkInit_cbNum hrecv).trans rfl
      have hself : sess.cbStateList b = .mapped := by
        rw [hstates]
        exact Function.update_self ..
      refine ⟨⟨by simp [htype, hsize], ?_⟩, hnum, fun d => ?_⟩
      · change (sess.cbStateList b).hasBeenBound = true
        rw [hself]
        rfl
      · by_cases hd : d = b
        · exact Or.inr ⟨hd, by rw [hd]; exact hself, by simp⟩
        · left
          rw [hstates]
          exact Function.update_of_ne hd _ _

/-- A poll that takes the completion of a send or the reply. -/
theorem Busy.take {cfg : Config} {s t : PollState} {b polls : Nat} {r : Request}
    (h : Busy s b (polls + 1) r) (hthere : s.error b = false ∧ s.sess.cbStateList b ≠ .fail)
    (hhead : ∀ c ∈ (s.cq b).head?, c.round = some s.round)
    (htake : s.take cfg b = some t) : Busy t b polls r ∧ Taken s t b r := by
  unfold PollState.take at htake
  rw [hthere.1, if_neg Bool.false_ne_true, if_neg hthere.2] at htake
  split at htake
  · cases htake
  · rename_i n rest hcq
    obtain rfl : n = some s.round := hhead (.send n) (by rw [hcq]; rfl)
    obtain rfl := Option.some.inj htake
    exact h.takeSend hcq
  · rename_i rest hcq
    have hnone := hhead .rdma (by rw [hcq]; rfl)
    cases hnone
  · rename_i msg tag rest hcq
    obtain ⟨sess, hrecv, rfl⟩ := Option.map_eq_some_iff.mp htake
    obtain rfl : tag = some s.round := hhead (.recv msg tag) (by rw [hcq]; rfl)
    have hown : s.ownCq b =
        .recv msg (some s.round) :: rest.filter fun c => c.round.isSome := by
      rw [PollState.ownCq, hcq]
      rfl
    have hleft : ∀ u : PollState, u.cq = Function.update s.cq b rest →
        u.ownCq b = rest.filter fun c => c.round.isSome := by
      intro u hu
      simp [PollState.ownCq, hu]
    obtain ⟨hgot, hnum, hstates⟩ := h.gotReply rest (by rw [hown]; exact List.mem_cons_self) hrecv
    have hcount := h.count
    have hsingle := h.single
    rw [hown, List.length_cons] at hcount
    rw [hown, List.countP_cons_of_pos rfl] at hsingle
    refine ⟨⟨?_, ?_, h.asked, fun msg' k hmem => ?_, Or.inr hgot⟩,
      ⟨rfl, rfl, rfl, rfl, rfl, rfl, rfl, rfl, rfl, rfl, hnum,
        fun d hd => Function.update_of_ne hd _ _, fun c hc => ?_, fun e he => ?_, hstates⟩⟩
    · rw [hleft _ rfl]
      show (s.ownSends b).length + (s.requests b).length + _ = _
      omega
    · rw [hleft _ rfl]
      show (s.requests b).length + _ ≤ _
      omega
    · rw [hleft _ rfl] at hmem
      exact h.came msg' k (by rw [hown]; exact List.mem_cons_of_mem _ hmem)
    · simp only [Function.update_self] at hc
      rw [hcq]
      exact List.mem_cons_of_mem _ hc
    · change e ∈ if _ then _ else _
      split
      · exact List.mem_cons_of_mem _ he
      · exact he

/-! ## Turns of the round -/

/-- With no poll under way every queue is quiet. -/
theorem PollOk.allQuiet {s : PollState} (h : PollOk s) (hpolling : s.pc.polling = none)
    {b : Nat} (hlost : s.lost b = false) : Quiet s b := by
  refine h.quiet b hlost fun polls r hb => ?_
  rw [hpolling] at hb
  cases hb

/-- The steps between requests: the program counter moves, and no poll is under way
before or after. -/
theorem PollOk.move {s t : PollState} (h : PollOk s) (hpolling : s.pc.polling = none)
    (hnone : t.pc.polling = none) (hsess : t.sess = s.sess) (hcq : t.cq = s.cq)
    (hsends : t.sends = s.sends) (hrequests : t.requests = s.requests)
    (hgone : t.lost = s.lost ∧ t.error = s.error)
    (hsetups : t.setups = s.setups) (hpc : PcOk t t.pc)
    (hbound : ∀ e ∈ t.posted, e ∈ t.processed) (hended : t.returned = some 0 → t.pc = .idle) :
    PollOk t := by
  refine ⟨fun b hlost _ => ?_, fun b polls r _ hb => ?_, ?_, ?_, hpc, ?_, fun b hb => ?_,
    fun e he => Or.inl (hbound e he), hended⟩
  · rw [hgone.1] at hlost
    exact (h.allQuiet hpolling hlost).frame (by rw [hsends]) (by rw [hrequests]) (by rw [hcq])
  · rw [hnone] at hb
    cases hb
  · rw [hcq]
    exact h.accord
  · rw [hgone.1, hgone.2, hsess]
    exact h.there
  · rw [hsetups]
    exact h.setups
  · rw [hsess] at hb
    rw [hsetups]
    rcases h.unset b hb with hzero | ⟨polls, chunk, hb⟩
    · exact Or.inl hzero
    · rw [hpolling] at hb
      cases hb

/-- Nothing posted is left when no poll is under way. -/
theorem PollOk.allBound {s : PollState} (h : PollOk s) (hpolling : s.pc.polling = none) :
    ∀ e ∈ s.posted, e ∈ s.processed := by
  intro e he
  rcases h.bound e he with hdone | ⟨polls, hb⟩
  · exact hdone
  · rw [hpolling] at hb
    cases hb

theorem PollOk.start {cfg : Config} {s t : PollState} {selectChunk : Nat}
    {random : Nat → Nat} (h : PollOk s)
    (hstep : pollStep cfg s (.start selectChunk random) = some t) : PollOk t := by
  simp only [pollStep] at hstep
  split at hstep
  case h_2 => cases hstep
  case h_3 => cases hstep
  rename_i hidle
  obtain ⟨selection, hselect, rfl⟩ := Option.map_eq_some_iff.mp hstep
  obtain ⟨l, hl, hselected⟩ := selectServers_spec cfg random s.sess
  obtain rfl := Option.some.inj (hselect.symm.trans hl)
  have hpolling : s.pc.polling = none := by rw [hidle]; rfl
  by_cases hfew : selection.length < cfg.ndisks
  · refine h.move hpolling (by simp [hfew, RoundPc.polling]) rfl rfl rfl rfl ⟨rfl, rfl⟩ rfl ?_
      (fun e he => by cases he) (by simp [hfew])
    simp [hfew, PcOk]
  · refine h.move hpolling ?_ rfl rfl rfl rfl ⟨rfl, rfl⟩ rfl ?_ (fun e he => by cases he)
      (by simp [hfew])
    · rw [if_neg hfew]
      cases selection <;> rfl
    · simp [hfew, PcOk, queried, hselected.nodup]

theorem PollOk.endQueries {cfg : Config} {s t : PollState} {selectChunk polls : Nat}
    {fresh : Bool} {entries : List (Int32 × Nat)} (h : PollOk s)
    (hpc : s.pc = .query selectChunk [] polls fresh entries)
    (hstep : endQueries cfg selectChunk entries s = some t) : PollOk t := by
  have hpolling : s.pc.polling = none := by rw [hpc]; rfl
  have hreturned : s.returned ≠ some 0 := by
    intro hzero
    have hidle := h.ended hzero
    rw [hpc] at hidle
    cases hidle
  simp only [Manager.endQueries] at hstep
  split at hstep
  · cases hstep
  split at hstep
  · obtain rfl := Option.some.inj hstep
    exact h.move hpolling rfl rfl rfl rfl rfl ⟨rfl, rfl⟩ rfl trivial (h.allBound hpolling) (by simp)
  · obtain rfl := Option.some.inj hstep
    refine h.move hpolling ?_ rfl rfl rfl rfl ⟨rfl, rfl⟩ rfl trivial (h.allBound hpolling)
      fun hzero => absurd hzero hreturned
    cases hservers : List.map Prod.snd (List.take cfg.ndisks (sortFirst _ cfg.ndisks entries)) with
    | nil => rfl
    | cons b rest => rfl

/-- A request posted to a quiet server. -/
theorem Quiet.busy {s t : PollState} {b polls : Nat} {r : Request} (h : Quiet s b)
    (hsends : (t.ownSends b).length + 1 = polls)
    (hrequests : t.requests b = s.requests b ++ [(some t.round, r)])
    (hcq : t.cq b = s.cq b) : Busy t b polls r := by
  have hnone : t.ownCq b = [] := by
    rw [PollState.ownCq, hcq]
    exact h.cq
  rw [h.requests, List.nil_append] at hrequests
  refine ⟨?_, ?_, fun e he => ?_, fun msg n hmem => ?_, Or.inl (Or.inl ?_)⟩
  · rw [hrequests, hnone, List.length_singleton]
    exact hsends
  · rw [hrequests, hnone]
    exact le_rfl
  · rw [hrequests] at he
    exact List.mem_singleton.mp he
  · rw [hnone] at hmem
    cases hmem
  · rw [hrequests]
    simp

/-- A turn that posts a request: the server polled next is busy with it. -/
theorem PollOk.posts {s t : PollState} {b polls : Nat} {r : Request} (h : PollOk s)
    (hpolling : s.pc.polling = none) (hnew : t.pc.polling = some (b, polls, r))
    (hbusy : s.lost b = false → Busy t b polls r)
    (hothers : ∀ d, d ≠ b → t.sends d = s.sends d ∧ t.requests d = s.requests d)
    (hcq : t.cq = s.cq) (hgone : t.lost = s.lost ∧ t.error = s.error)
    (hstates : t.sess.cbStateList = s.sess.cbStateList) (hpc : PcOk t t.pc)
    (hsetups : t.setups = s.setups ∨ (t.setups = Function.update s.setups b (s.setups b + 1) ∧
      s.sess.cbStateList b = .connected ∧ ∃ chunk, r = .bind chunk))
    (hprocessed : t.processed = s.processed)
    (hposted : ∀ e ∈ t.posted, e ∈ s.posted ∨ e.1 = b ∧ r = .bind e.2)
    (hreturned : t.returned ≠ some 0) : PollOk t := by
  have hunset : ∀ d, (s.sess.cbStateList d).hasBeenBound = false → s.setups d = 0 := by
    intro d hd
    rcases h.unset d hd with hzero | ⟨p, chunk, hd⟩
    · exact hzero
    · rw [hpolling] at hd
      cases hd
  refine ⟨fun d hlost hd => ?_, fun d p r' hlost hd => ?_, by rw [hcq]; exact h.accord, ?_, hpc,
    fun d => ?_, fun d hd => ?_, fun e he => ?_, fun hzero => absurd hzero hreturned⟩
  · have hdb : d ≠ b := by
      rintro rfl
      exact hd polls r hnew
    obtain ⟨hsends, hrequests⟩ := hothers d hdb
    rw [hgone.1] at hlost
    exact (h.allQuiet hpolling hlost).frame hsends hrequests (congrFun hcq d)
  · obtain ⟨rfl, rfl, rfl⟩ : b = d ∧ polls = p ∧ r = r' := by
      have heq := Option.some.inj (hnew.symm.trans hd)
      simpa using heq
    exact hbusy (hgone.1 ▸ hlost)
  · rw [hgone.1, hgone.2, hstates]
    exact h.there
  · rcases hsetups with hsame | ⟨honce, hconnected, -⟩
    · rw [hsame]
      exact h.setups d
    · rw [honce]
      by_cases hdb : d = b
      · subst hdb
        rw [Function.update_self, hunset d (by rw [hconnected]; rfl)]
      · rw [Function.update_of_ne hdb]
        exact h.setups d
  · rw [hstates] at hd
    rcases hsetups with hsame | ⟨honce, -, chunk, hbind⟩
    · rw [hsame]
      exact Or.inl (hunset d hd)
    · by_cases hdb : d = b
      · subst hdb
        exact Or.inr ⟨polls, chunk, hbind ▸ hnew⟩
      · rw [honce, Function.update_of_ne hdb]
        exact Or.inl (hunset d hd)
  · rcases hposted e he with hold | ⟨hb, hbind⟩
    · rw [hprocessed]
      exact Or.inl (h.allBound hpolling e hold)
    · refine Or.inr ⟨polls, ?_⟩
      rw [hnew, hb, hbind]

/-- What a poll leaves in the queues of the other servers. -/
theorem PollOk.quiet_of_taken {s t : PollState} {b d polls : Nat} {r : Request} (h : PollOk s)
    (hpolling : s.pc.polling = some (b, polls, r)) (htaken : Taken s t b r) (hdb : d ≠ b)
    (hlost : t.lost d = false) : Quiet t d := by
  rw [htaken.lost] at hlost
  have hquiet : Quiet s d := h.quiet d hlost fun p r' hd' => hdb
    (congrArg Prod.fst (Option.some.inj (hpolling.symm.trans hd'))).symm
  exact hquiet.frame (congrFun htaken.sends d) (congrFun htaken.requests d) (htaken.cq d hdb)

theorem PollOk.accord_of_taken {s t : PollState} {b : Nat} {r : Request} (h : PollOk s)
    (htaken : Taken s t b r) :
    ∀ d msg, Completion.recv msg none ∈ t.cq d → OwnAccord msg := by
  intro d msg hmem
  by_cases hd : d = b
  · subst hd
    exact h.accord d msg (htaken.left _ hmem)
  · rw [htaken.cq d hd] at hmem
    exact h.accord d msg hmem

/-- A turn that polls, with polls left for the server. -/
theorem PollOk.polls {s t : PollState} {b polls left : Nat} {r : Request} (h : PollOk s)
    (hpolling : s.pc.polling = some (b, polls, r)) (htaken : Taken s t b r)
    (hbusy : Busy t b left r) (pc : RoundPc) (hnew : pc.polling = some (b, left, r))
    (hpc : PcOk t pc) : PollOk { t with pc := pc } := by
  have haccord := h.accord_of_taken htaken
  refine ⟨fun d hlost hd => ?_, fun d p r' _ hd => ?_, haccord,
    fun d hlost => ?_, hpc, ?_, fun d hd => ?_, fun e he => ?_, fun hzero => ?_⟩
  · have hdb : d ≠ b := by
      rintro rfl
      exact hd left r hnew
    obtain ⟨hsends, hrequests, hcq⟩ := h.quiet_of_taken hpolling htaken hdb hlost
    exact ⟨hsends, hrequests, hcq⟩
  · obtain ⟨rfl, rfl, rfl⟩ : b = d ∧ left = p ∧ r = r' := by
      have heq := Option.some.inj (hnew.symm.trans hd)
      simpa using heq
    exact ⟨hbusy.count, hbusy.single, hbusy.asked, hbusy.came,
      hbusy.reply.imp id fun hgot => hgot.frame rfl rfl rfl⟩
  · change t.lost d = false at hlost
    rw [htaken.lost] at hlost
    obtain ⟨herror, hfail⟩ := h.there d hlost
    refine ⟨(congrFun htaken.error d).trans herror, ?_⟩
    change t.sess.cbStateList d ≠ .fail
    rcases htaken.states d with hsame | ⟨-, hmapped, -⟩
    · rw [hsame]
      exact hfail
    · rw [hmapped]
      simp
  · change ∀ d, t.setups d ≤ 1
    rw [htaken.setups]
    exact h.setups
  · change t.setups d = 0 ∨ _
    rw [htaken.setups]
    rcases htaken.states d with hsame | ⟨-, hmapped, -⟩
    · rcases h.unset d (by rw [← hsame]; exact hd) with hzero | ⟨p, chunk, hd'⟩
      · exact Or.inl hzero
      · obtain ⟨rfl, -, rfl⟩ : b = d ∧ polls = p ∧ r = .bind chunk := by
          have heq := Option.some.inj (hpolling.symm.trans hd')
          simpa using heq
        exact Or.inr ⟨left, chunk, hnew⟩
    · change (t.sess.cbStateList d).hasBeenBound = false at hd
      rw [hmapped] at hd
      cases hd
  · change e ∈ t.posted at he
    rw [htaken.posted] at he
    rcases h.bound e he with hdone | ⟨p, hd'⟩
    · exact Or.inl (htaken.processed e hdone)
    · obtain ⟨hb, -, hr⟩ : b = e.1 ∧ polls = p ∧ r = .bind e.2 := by
        have heq := Option.some.inj (hpolling.symm.trans hd')
        simpa using heq
      refine Or.inr ⟨left, ?_⟩
      rw [← hb, ← hr]
      exact hnew
  · change t.returned = some 0 at hzero
    rw [htaken.returned] at hzero
    rw [h.ended hzero] at hpolling
    cases hpolling

/-- After the last poll every state is one of before, or the server's new one. -/
theorem Taken.lastStates {s t u : PollState} {b : Nat} {r : Request} (htaken : Taken s t b r)
    (hstates : u.sess.cbStateList = t.sess.cbStateList ∨
      (u.sess.cbStateList = Function.update t.sess.cbStateList b .connected ∧ r = .query ∧
        s.sess.cbStateList b = .idle)) (d : Nat) :
    u.sess.cbStateList d = s.sess.cbStateList d ∨ u.sess.cbStateList d = .mapped ∨
      (d = b ∧ u.sess.cbStateList d = .connected ∧ r = .query ∧
        s.sess.cbStateList b = .idle) := by
  rcases hstates with hsame | ⟨hconnect, hquery, hidle⟩
  · rw [hsame]
    rcases htaken.states d with hsame' | ⟨-, hmapped, -⟩
    · exact Or.inl hsame'
    · exact Or.inr (Or.inl hmapped)
  · rw [hconnect]
    by_cases hdb : d = b
    · subst hdb
      exact Or.inr (Or.inr ⟨rfl, Function.update_self .., hquery, hidle⟩)
    · rw [Function.update_of_ne hdb]
      rcases htaken.states d with hsame' | ⟨hdb', -, -⟩
      · exact Or.inl hsame'
      · exact absurd hdb' hdb

/-- A turn that polls for the last time: the reply has been handled.  The query loop may
still set the state of a server just connected. -/
theorem PollOk.lastPoll {s t u : PollState} {b polls : Nat} {r : Request} (h : PollOk s)
    (hpolling : s.pc.polling = some (b, polls, r)) (htaken : Taken s t b r)
    (hquiet : Quiet t b) (hgot : Got t b r)
    (hframe : u = { t with pc := u.pc, sess := u.sess, error := u.error })
    (herror : ∀ d, t.error d = false → u.error d = false) (hnew : u.pc.polling = none)
    (hstates : u.sess.cbStateList = t.sess.cbStateList ∨
      (u.sess.cbStateList = Function.update t.sess.cbStateList b .connected ∧ r = .query ∧
        s.sess.cbStateList b = .idle)) (hpc : PcOk u u.pc) : PollOk u := by
  have hsetups : u.setups = s.setups := by
    rw [hframe]
    exact htaken.setups
  have hlost' : u.lost = t.lost := by rw [hframe]
  have hcases := htaken.lastStates hstates
  refine ⟨fun d hlost _ => ?_, fun d p r' _ hd => ?_, ?_, fun d hlost => ?_, hpc, ?_,
    fun d hd => ?_, fun e he => Or.inl ?_, fun hzero => ?_⟩
  · have hframe' : Quiet t d → Quiet u d := by
      intro hd
      rw [hframe]
      exact ⟨hd.sends, hd.requests, hd.cq⟩
    apply hframe'
    by_cases hdb : d = b
    · subst hdb
      exact hquiet
    · exact h.quiet_of_taken hpolling htaken hdb (hlost' ▸ hlost)
  · rw [hnew] at hd
    cases hd
  · have haccord := h.accord_of_taken htaken
    rw [hframe]
    exact haccord
  · rw [hlost', htaken.lost] at hlost
    obtain ⟨hnoError, hfail⟩ := h.there d hlost
    refine ⟨herror d (by rw [htaken.error]; exact hnoError), ?_⟩
    rcases hcases d with hsame | hmapped | ⟨-, hconnected, -, -⟩
    · rw [hsame]
      exact hfail
    · rw [hmapped]
      simp
    · rw [hconnected]
      simp
  · rw [hsetups]
    exact h.setups
  · left
    rw [hsetups]
    have hbefore : (s.sess.cbStateList d).hasBeenBound = false := by
      rcases hcases d with hsame | hmapped | ⟨rfl, -, -, hidle⟩
      · rw [← hsame]
        exact hd
      · rw [hmapped] at hd
        cases hd
      · rw [hidle]
        rfl
    rcases h.unset d hbefore with hzero | ⟨p, chunk, hd'⟩
    · exact hzero
    · -- the server just bound is mapped now
      obtain ⟨rfl, -, rfl⟩ : b = d ∧ polls = p ∧ r = .bind chunk := by
        have heq := Option.some.inj (hpolling.symm.trans hd')
        simpa using heq
      rcases hstates with hsame | ⟨-, hquery, -⟩
      · rw [hsame, hgot.2] at hd
        cases hd
      · cases hquery
  · have hposted : u.posted = s.posted := by
      rw [hframe]
      exact htaken.posted
    have hprocessed : u.processed = t.processed := by rw [hframe]
    rw [hposted] at he
    rw [hprocessed]
    rcases h.bound e he with hdone | ⟨p, hd'⟩
    · exact htaken.processed e hdone
    · obtain ⟨rfl, -, rfl⟩ : b = e.1 ∧ polls = p ∧ r = .bind e.2 := by
        have heq := Option.some.inj (hpolling.symm.trans hd')
        simpa using heq
      exact hgot.1
  · have hreturned : u.returned = s.returned := by
      rw [hframe]
      exact htaken.returned
    rw [hreturned] at hzero
    rw [h.ended hzero] at hpolling
    cases hpolling

/-- A round under way has not returned. -/
theorem PollOk.returned_ne {s : PollState} (h : PollOk s) (hpc : s.pc ≠ .idle) :
    s.returned ≠ some 0 := fun hzero => hpc (h.ended hzero)

theorem PollOk.postQuery {s : PollState} {selectChunk b : Nat} {rest : List Nat} {fresh : Bool}
    {entries : List (Int32 × Nat)} (h : PollOk s)
    (hpc : s.pc = .query selectChunk (b :: rest) 0 fresh entries) :
    PollOk (postQuery selectChunk b rest entries s) := by
  have hpolling : s.pc.polling = none := by rw [hpc]; rfl
  have hreturned : s.returned ≠ some 0 := h.returned_ne (by rw [hpc]; simp)
  obtain ⟨hnodup, hentries, -⟩ : PcOk s (.query selectChunk (b :: rest) 0 fresh entries) :=
    hpc ▸ h.pc
  -- the branch for a server that is connected, whatever its state
  have hconnected : PollOk
      { ({ s with sess := s.sess.putCb b (isSendQuery (s.sess.cb b)) }.post b .query) with
        pc := .query selectChunk (b :: rest) 2 false entries } := by
    refine h.posts (b := b) (r := .query) hpolling rfl (fun hlost => ?_) (fun d hd => ?_) rfl
      ⟨rfl, rfl⟩ rfl ⟨hnodup, hentries, fun hfalse => by cases hfalse⟩ (Or.inl rfl) rfl
      (fun e he => Or.inl he) hreturned
    · have hquiet := h.allQuiet hpolling hlost
      have hsends := hquiet.sends
      refine hquiet.busy ?_ (by simp [PollState.post]) rfl
      rw [PollState.ownSends] at hsends
      simp [PollState.ownSends, PollState.post, List.filter_append, hsends]
    · simp [PollState.post, Function.update_of_ne hd]
  unfold Manager.postQuery
  cases hstate : s.sess.cbStateList b with
  | fail =>
      have hskip : queried s (entries ++ [(-1, s.sess.cbNum)]) = queried s entries := by
        simp [queried, List.filter_append]
      refine h.move hpolling (by cases rest <;> rfl) rfl rfl rfl rfl ⟨rfl, rfl⟩ rfl
        ⟨?_, ?_, fun hfalse => by cases hfalse⟩ (h.allBound hpolling)
        fun hzero => absurd hzero hreturned
      · show ((queried s (entries ++ [(-1, s.sess.cbNum)])).map Prod.snd ++ rest).Nodup
        rw [hskip]
        exact hnodup.sublist (List.Sublist.append_left (List.sublist_cons_self b rest) _)
      · show ∀ e ∈ queried s (entries ++ [(-1, s.sess.cbNum)]), _
        rw [hskip]
        exact hentries
  | connected | mapped | evicting => exact hconnected
  | idle =>
      refine h.posts (b := b) (r := .query) hpolling rfl (fun hlost => ?_) (fun d hd => ?_) rfl
        ⟨rfl, rfl⟩ rfl ⟨hnodup, hentries, fun _ d hd _ => ?_⟩ (Or.inl rfl) rfl
        (fun e he => Or.inl he) hreturned
      · have hquiet := h.allQuiet hpolling hlost
        have hsends := hquiet.sends
        refine hquiet.busy ?_ (by simp) rfl
        show (s.ownSends b).length + 1 = 1
        rw [hsends]
        rfl
      · simp [Function.update_of_ne hd]
      · obtain rfl := Option.some.inj hd
        exact hstate

theorem PollOk.postBind {s : PollState} {selectChunk b k : Nat} {rest : List Nat} (h : PollOk s)
    (hpc : s.pc = .bind selectChunk (b :: rest) k 0) :
    PollOk (postBind selectChunk b rest k s) := by
  have hpolling : s.pc.polling = none := by rw [hpc]; rfl
  have hreturned : s.returned ≠ some 0 := h.returned_ne (by rw [hpc]; simp)
  refine h.posts (b := b) (r := .bind (selectChunk + k)) hpolling rfl (fun hlost => ?_)
    (fun d hd => ?_) rfl ⟨rfl, rfl⟩ ?_ trivial ?_ rfl (fun e he => ?_) hreturned
  · have hquiet := h.allQuiet hpolling hlost
    have hsends := hquiet.sends
    refine hquiet.busy ?_ (by simp [Manager.postBind, PollState.post]) rfl
    rw [PollState.ownSends] at hsends
    simp [PollState.ownSends, Manager.postBind, PollState.post, List.filter_append, hsends]
  · simp [Manager.postBind, PollState.post, Function.update_of_ne hd]
  · simp only [Manager.postBind, PollState.post, Session.putCb]
    split <;> rfl
  · by_cases hfirst : s.sess.cbStateList b = .connected
    · refine Or.inr ⟨?_, hfirst, selectChunk + k, rfl⟩
      simp [Manager.postBind, hfirst]
    · left
      simp [Manager.postBind, hfirst, PollState.post]
  · rcases List.mem_cons.mp he with rfl | hold
    · exact Or.inr ⟨rfl, rfl⟩
    · exact Or.inl hold

theorem PollOk.queryPoll {cfg : Config} {s t : PollState} {selectChunk b polls : Nat}
    {rest : List Nat} {fresh : Bool} {entries : List (Int32 × Nat)} (h : PollOk s)
    (hpc : s.pc = .query selectChunk (b :: rest) (polls + 1) fresh entries)
    (hlost : s.lost b = false) (hhead : ∀ c ∈ (s.cq b).head?, c.round = some s.round)
    (htake : s.take cfg b = some t) :
    PollOk (if polls = 0 then readFreeMem selectChunk b rest fresh entries t
      else { t with pc := .query selectChunk (b :: rest) polls fresh entries }) := by
  have hpolling : s.pc.polling = some (b, polls + 1, .query) := by rw [hpc]; rfl
  obtain ⟨hbusy, htaken⟩ :=
    (h.busy b _ _ hlost hpolling).take (h.there b hlost) hhead htake
  obtain ⟨hnodup, hentries, hfresh⟩ :
      PcOk s (.query selectChunk (b :: rest) (polls + 1) fresh entries) := hpc ▸ h.pc
  have hqueried : queried t = queried s := by
    funext entries
    rw [queried, queried, htaken.cbNum]
  rw [← hqueried] at hnodup
  have hcarried : ∀ e ∈ queried t entries,
      ∃ v, t.carried e.2 = some v ∧ e.1 = Int32.ofInt v := by
    rw [hqueried, htaken.carried]
    exact hentries
  cases polls with
  | zero =>
      obtain ⟨hquiet, hgot⟩ := hbusy.finished
      have hadd : ∀ e, queried t (entries ++ [e]) = queried t entries ∨
          queried t (entries ++ [e]) = queried t entries ++ [e] := by
        intro e
        simp only [queried, List.filter_append, List.filter_cons, List.filter_nil]
        split
        · exact Or.inr rfl
        · exact Or.inl (List.append_nil _)
      have hsame : ∀ entries', queried (readFreeMem selectChunk b rest fresh entries t) entries' =
          queried t entries' := by
        intro entries'
        have hnum : (readFreeMem selectChunk b rest fresh entries t).sess.cbNum = t.sess.cbNum := by
          rw [readFreeMem]
          split <;> rfl
        rw [queried, queried, hnum]
      rw [if_pos rfl]
      refine h.lastPoll hpolling htaken hquiet hgot rfl (fun d hd => ?_) ?_ ?_
        ⟨?_, ?_, fun hfalse => by cases hfalse⟩
      · by_cases hdb : d = b
        · simp [readFreeMem, hdb]
        · simp [readFreeMem, Function.update_of_ne hdb, hd]
      · cases rest <;> rfl
      · cases hf : fresh with
        | false =>
            left
            simp [readFreeMem]
        | true =>
            right
            exact ⟨by simp [readFreeMem, Session.setState], rfl, hfresh hf b rfl hlost⟩
      · rw [hsame]
        rcases hadd (Int32.ofInt (t.sess.cb b).remoteChunk.targetSizeG, b) with hnone | hnew
        · rw [hnone]
          exact hnodup.sublist (List.Sublist.append_left (List.sublist_cons_self b rest) _)
        · rw [hnew, List.map_append, List.append_assoc]
          exact hnodup
      · intro e he
        rw [hsame] at he
        rcases List.mem_append.mp (mem_queried.mp he).1 with hold | hnew
        · exact hcarried e (mem_queried.mpr ⟨hold, (mem_queried.mp he).2⟩)
        · obtain rfl := List.mem_singleton.mp hnew
          exact ⟨_, hgot, rfl⟩
  | succ polls =>
      rw [if_neg (by omega)]
      refine h.polls hpolling htaken hbusy _ rfl ⟨hnodup, hcarried, fun hf d hd hlost' => ?_⟩
      rw [htaken.lost] at hlost'
      rcases htaken.states d with hsame | ⟨-, -, hne⟩
      · rw [hsame]
        exact hfresh hf d hd hlost'
      · exact absurd rfl hne

theorem PollOk.bindPoll {cfg : Config} {s t : PollState} {selectChunk b k polls : Nat}
    {rest : List Nat} (h : PollOk s) (hpc : s.pc = .bind selectChunk (b :: rest) k (polls + 1))
    (hlost : s.lost b = false) (hhead : ∀ c ∈ (s.cq b).head?, c.round = some s.round)
    (htake : s.take cfg b = some t) :
    PollOk (if polls = 0 then { t with pc := .bind selectChunk rest (k + 1) 0 }
      else { t with pc := .bind selectChunk (b :: rest) k polls }) := by
  have hpolling : s.pc.polling = some (b, polls + 1, .bind (selectChunk + k)) := by rw [hpc]; rfl
  obtain ⟨hbusy, htaken⟩ :=
    (h.busy b _ _ hlost hpolling).take (h.there b hlost) hhead htake
  cases polls with
  | zero =>
      obtain ⟨hquiet, hgot⟩ := hbusy.finished
      rw [if_pos rfl]
      refine h.lastPoll hpolling htaken hquiet hgot rfl (fun _ hd => hd) ?_ (Or.inl rfl) trivial
      cases rest <;> rfl
  | succ polls =>
      rw [if_neg (by omega)]
      exact h.polls hpolling htaken hbusy _ rfl trivial

/-- A turn of the round keeps the invariant. -/
theorem PollOk.turn {cfg : Config} {s t : PollState} (h : PollOk s)
    (hmatch : PollsMatch s .turn) (hstep : turn cfg s = some t) : PollOk t := by
  have hown : ∀ b polls r, s.pc.polling = some (b, polls, r) →
      s.lost b = false ∧ ∀ c ∈ (s.cq b).head?, c.round = some s.round :=
    fun b polls r hpolling => hmatch (b, polls, r) hpolling
  unfold Manager.turn at hstep
  split at hstep
  · cases hstep
  · rename_i hpc
    exact h.endQueries hpc hstep
  · rename_i hpc
    obtain rfl := Option.some.inj hstep
    exact h.postQuery hpc
  · rename_i hpc
    obtain ⟨hlost, hhead⟩ := hown _ _ _ (by rw [hpc]; rfl)
    obtain ⟨u, htake, rfl⟩ := Option.map_eq_some_iff.mp hstep
    exact h.queryPoll hpc hlost hhead htake
  · rename_i hpc
    obtain rfl := Option.some.inj hstep
    have hpolling : s.pc.polling = none := by rw [hpc]; rfl
    exact h.move hpolling rfl rfl rfl rfl rfl ⟨rfl, rfl⟩ rfl trivial (h.allBound hpolling)
      fun _ => rfl
  · rename_i hpc
    obtain rfl := Option.some.inj hstep
    exact h.postBind hpc
  · rename_i hpc
    obtain ⟨hlost, hhead⟩ := hown _ _ _ (by rw [hpc]; rfl)
    obtain ⟨u, htake, rfl⟩ := Option.map_eq_some_iff.mp hstep
    exact h.bindPoll hpc hlost hhead htake

theorem PollOk.step {cfg : Config} {s t : PollState} {a : PollAction} (h : PollOk s)
    (hpermitted : PollPermitted s a) (hmatch : PollsMatch s a)
    (hstep : pollStep cfg s a = some t) : PollOk t := by
  cases a with
  | start selectChunk random => exact h.start hstep
  | turn => exact h.turn hmatch hstep
  | sent b => exact h.sent hstep
  | answer b msg => exact h.answer hpermitted hstep
  | unsolicited b msg =>
      simp only [pollStep] at hstep
      split at hstep
      · cases hstep
      · obtain rfl := Option.some.inj hstep
        refine h.foreign rfl fun msg' heq => ?_
        obtain ⟨rfl, -⟩ := Completion.recv.inj heq
        exact hpermitted
  | rdma b =>
      obtain rfl := Option.some.inj hstep
      exact h.foreign rfl nofun
  | poll b => exact h.poll hmatch hstep
  | post b ask =>
      obtain rfl : ask = none := hmatch
      obtain rfl := Option.some.inj hstep
      simpa using h.post b
  | setUp b => cases hmatch
  | change sess =>
      obtain rfl := Option.some.inj hstep
      exact h.change hpermitted
  | lose b =>
      obtain rfl := Option.some.inj hstep
      exact h.lose b

/-- In every run in which the polls of a round find what is of the round, other polls do
not, no connection is lost that a round polls and no two rounds overlap, replies are matched
to requests, whatever the order in which sends complete and messages arrive. -/
theorem replies_matched (cfg : Config) (cbNum : Nat) (s : PollState)
    (hrun : Reach (pollStep cfg) (fun s a => PollPermitted s a ∧ PollsMatch s a)
      (pollInit cfg cbNum) s) : RepliesMatched s := by
  have hok : PollOk s := hrun.invariant (pollOk_init cfg cbNum)
    (fun u a v hu hguard hstep => hu.step hguard.1 hguard.2 hstep)
  exact hok.repliesMatched

/-- Decides whether an action is permitted, but for what other threads do to the session. -/
def checkPermitted (s : PollState) : PollAction → Bool
  | .answer b msg => decide (∀ e ∈ (s.requests b).head?, e.2.Answers msg)
  | .unsolicited _ msg => decide (OwnAccord msg)
  | .change _ => false
  | .start _ _ | .turn | .sent _ | .rdma _ | .poll _ | .post _ _ | .setUp _ | .lose _ => true

theorem permitted_of_check {s : PollState} {a : PollAction} (h : checkPermitted s a = true) :
    PollPermitted s a := by
  cases a with
  | answer b msg => simpa [checkPermitted, PollPermitted] using h
  | unsolicited b msg => simpa [checkPermitted, PollPermitted] using h
  | change sess => cases h
  | start | turn | sent | rdma | poll | post | setUp | lose => trivial

instance (s : PollState) (a : PollAction) : Decidable (PollsMatch s a) :=
  match a with
  | .turn => inferInstanceAs (Decidable (∀ e ∈ s.pc.polling, s.lost e.1 = false ∧
      ∀ c ∈ (s.cq e.1).head?, c.round = some s.round))
  | .poll b => inferInstanceAs (Decidable (∀ c ∈ (s.cq b).head?, c.round = none))
  | .post _ ask => inferInstanceAs (Decidable (ask = none))
  | .setUp _ => isFalse id
  | .start _ _ | .sent _ | .answer _ _ | .unsolicited _ _ | .rdma _ | .change _ | .lose _ =>
      isTrue trivial

/-- A server is connected and reports what it has free. -/
def connects (b : Nat) (freeMem : Int) : List PollAction :=
  [.turn, .answer b (.plain .freeSize freeMem), .turn]

/-- A server is queried; the reply comes first. -/
def queries (b : Nat) (freeMem : Int) : List PollAction :=
  [.turn, .answer b (.plain .freeSize freeMem), .sent b, .turn, .turn]

/-- A server is bound; the completion of the send comes first. -/
def binds (b chunk : Nat) : List PollAction :=
  [.turn, .sent b,
    .answer b { Message.plain .infoSingle chunk with rkey := fun i => if i = 0 then 1 else 0 },
    .turn, .turn]

/-- The first round of a session with three servers. -/
def firstRound : List PollAction :=
  [.start 0 fun _ => 0] ++ connects 0 5 ++ connects 1 5 ++ connects 2 5 ++ [.turn] ++
    binds 0 0 ++ binds 1 1 ++ binds 2 2 ++ [.turn]

/-- After it, server 0 asks for chunks back and the eviction thread answers: the completions
of its sends and the monitor's messages are all taken by polls outside of a round. -/
def evictedBetween : List PollAction :=
  firstRound ++ [.unsolicited 0 (.plain .evict 1), .poll 0, .post 0 none, .sent 0, .poll 0,
    .unsolicited 0 (.plain .stop 0), .rdma 0, .poll 0, .poll 0]

theorem replies_matched_evictedBetween :
    ∃ s, runActions (pollStep .rep) (pollInit .rep 3) evictedBetween = some s ∧
      s.returned = some 0 ∧ s.posted.length = 3 ∧ RepliesMatched s := by
  have hrun : ((runActions (pollStep .rep) (pollInit .rep 3) evictedBetween).map fun s =>
      (s.returned, s.posted.length)) = some (some 0, 3) := by
    decide +kernel
  have hmeet : AllMeet (pollStep .rep) (fun s a => checkPermitted s a = true ∧ PollsMatch s a)
      (pollInit .rep 3) evictedBetween := by
    decide +kernel
  obtain ⟨s, hs, heq⟩ := Option.map_eq_some_iff.mp hrun
  obtain ⟨hreturned, hposted⟩ := Prod.mk.inj heq
  exact ⟨s, hs, hreturned, hposted, replies_matched .rep 3 s (reach_of_runActions hs
    (hmeet.mono fun _ _ _ hand => ⟨permitted_of_check hand.1, hand.2⟩))⟩

/-- The queries of a second round, with an `EVICT` that reaches the queue of server 0
before the completions of its query. -/
def evictedQueries : List PollAction :=
  firstRound ++ [.start 3 fun _ => 0, .turn, .unsolicited 0 (.plain .evict 1), .sent 0,
    .answer 0 (.plain .freeSize 4), .turn, .turn] ++ queries 1 4 ++ queries 2 4

/-- The binds of that round. -/
def evictedRound : List PollAction :=
  evictedQueries ++ [.turn] ++ binds 0 3 ++ binds 1 4 ++ binds 2 5 ++ [.turn]

/-- Server 0 is ranked by what it had free in the round before, and the round returns 0
with the reply to its bind still in the queue. -/
theorem replies_shifted :
    (∃ s, Reach (pollStep (.replication 2)) PollPermitted (pollInit (.replication 2) 3) s ∧
      s.pc = .query 3 [] 0 false [(5, 0), (4, 1), (4, 2)] ∧ s.carried 0 = some 4 ∧
      ¬ RepliesMatched s) ∧
      ∃ s, Reach (pollStep (.replication 2)) PollPermitted (pollInit (.replication 2) 3) s ∧
        s.returned = some 0 ∧ (0, 3) ∈ s.posted ∧ (0, 3) ∉ s.processed ∧ ¬ RepliesMatched s := by
  have hqueries : ((runActions (pollStep (.replication 2)) (pollInit (.replication 2) 3)
      evictedQueries).map fun s => (s.pc, s.carried 0, s.sess.cbNum)) =
        some (.query 3 [] 0 false [(5, 0), (4, 1), (4, 2)], some 4, 3) := by
    decide +kernel
  have hround : ((runActions (pollStep (.replication 2)) (pollInit (.replication 2) 3)
      evictedRound).map fun s => (s.returned, s.posted, s.processed)) =
        some (some 0, [(2, 5), (1, 4), (0, 3)], [(2, 5), (1, 4)]) := by
    decide +kernel
  have hcheck : ∀ actions, AllMeet (pollStep (.replication 2))
      (fun s a => checkPermitted s a = true) (pollInit (.replication 2) 3) actions →
      AllMeet (pollStep (.replication 2)) PollPermitted (pollInit (.replication 2) 3) actions :=
    fun _ hmeet => hmeet.mono fun _ _ _ => permitted_of_check
  have hmeet := hcheck evictedRound (by decide +kernel)
  have hmeetQueries := hcheck evictedQueries (by decide +kernel)
  refine ⟨?_, ?_⟩
  · obtain ⟨s, hs, heq⟩ := Option.map_eq_some_iff.mp hqueries
    obtain ⟨hpc, hrest⟩ := Prod.mk.inj heq
    obtain ⟨hcarried, hnum⟩ := Prod.mk.inj hrest
    refine ⟨s, reach_of_runActions hs hmeetQueries, hpc, hcarried, fun hmatched => ?_⟩
    obtain ⟨v, hv, hfive⟩ := hmatched.ranked 3 0 false _ hpc (5, 0) List.mem_cons_self
      (by rw [hnum]; decide)
    rw [hcarried] at hv
    obtain rfl := Option.some.inj hv
    exact absurd hfive (by decide)
  · obtain ⟨s, hs, heq⟩ := Option.map_eq_some_iff.mp hround
    obtain ⟨hreturned, hrest⟩ := Prod.mk.inj heq
    obtain ⟨hposted, hprocessed⟩ := Prod.mk.inj hrest
    have hin : (0, 3) ∈ s.posted := by simp [hposted]
    have hout : (0, 3) ∉ s.processed := by simp [hprocessed]
    exact ⟨s, reach_of_runActions hs hmeet, hreturned, hin, hout,
      fun hmatched => hout (hmatched.bound hreturned _ hin)⟩

end Hydra.Manager
