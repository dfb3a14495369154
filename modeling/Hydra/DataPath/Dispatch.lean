/-
  DataPath/Dispatch.lean --- hardware queues waiting on shared completion queues.

  Source: `IS_queue_rq` of `resilience_manager/is_mq.c`, and of `is_main.c` the waiting
  loops of `IS_rdma_read` and `IS_rdma_write` and the call of `IS_request` in
  `IS_disconnect_handler`.

  A server has one completion queue for all hardware queues and for the messages of the
  manager.  Every caller of `IS_request` polls once for each operation it has posted and
  takes whatever entry comes, so it may end a request of another caller and leave its own
  to be ended by that one, or take a message in place of a completion; a poll made for a
  message (a mapping round, `IS_send_activity`, `IS_send_fault`) may take a completion.
  What matches up is the number of polls to come and operations outstanding, up to what the
  two kinds of polls have taken from each other.  `blk_mq_start_request` comes after all
  that.
-/
import Hydra.DataPath.Completion
import Hydra.DataPath.Failures

set_option autoImplicit false

namespace Hydra.DataPath

open Hydra.Foundation Hydra.Wire Hydra.Manager

variable {Data : Type}

/-! ## What a caller waits for -/

/-- The pieces a transfer calls `rdma_cq_event_handler` for, in order. -/
def waitedPieces (B : Build Data) (r : Request Data) (place : Nat → Option (Nat × ChunkIx))
    (fault : Nat → Bool) : Option (List Nat) :=
  if r.write then some ((List.range B.ndisks).filter fun i => (place i).isSome)
  else
    ((piecesOf B place fault).rdmaRead (fun _ => 0) 0
      fun _ => (⟨0, 0, 0, ()⟩ : DiskFault Unit)).toOption.map Pieces.ReadRun.waited

/-- The servers whose queues it polls. -/
def waits (B : Build Data) (s : Path Data) (r : Request Data) (fault : Nat → Bool) :
    Option (List Nat) :=
  (waitedPieces B r (s.place B r.slab) fault).map fun pieces =>
    pieces.filterMap fun i => (s.place B r.slab i).map Prod.fst

/-! ## Callers -/

/-- Who calls `IS_request`: `IS_queue_rq` for a hardware queue, or the disconnect handler
of a server. -/
inductive Caller where
  | queue (q : Nat)
  | handler (b : Nat)
  deriving DecidableEq, Repr

/-- A call of `IS_request` that has posted its operations: the request, and the servers
still to poll. -/
structure Call where
  caller : Caller
  id : Nat
  polls : List Nat

/-- A call of `blk_mq_start_request`: the request, how often it had ended by then, and
whether nothing else was going on. -/
structure Start where
  id : Nat
  ends : Nat
  alone : Bool
  deriving DecidableEq, Repr

/-- The data path with the callers that are in `IS_request`.  `messages` has a server for
each message, or completion of its sending, in the server's queue; `missed` one for each of
these a caller has taken, `lent` one for each completion of an operation that a poll made
for a message has taken. -/
structure Dispatch (Data : Type) where
  path : Path Data
  calls : List Call
  started : List Start
  messages : List Nat
  missed : List Nat
  lent : List Nat

namespace Dispatch

variable (t : Dispatch Data)

/-- The call a caller is in. -/
def call? (c : Caller) : Option Call := t.calls.find? fun call => decide (call.caller = c)

/-- All others. -/
def others (c : Caller) : List Call := t.calls.eraseP fun call => decide (call.caller = c)

/-- The polls to come. -/
def polls : List Nat := t.calls.flatMap Call.polls

/-- The callers have got back whatever they lost to messages. -/
def Even : Prop := ∀ b ∈ t.missed, t.missed.count b ≤ t.lent.count b

instance : Decidable t.Even := inferInstanceAs (Decidable (∀ b ∈ t.missed, _))

end Dispatch

/-- What happens next.  `pollMessage` is a caller's poll that finds a message, `message` one
that comes into a queue, `otherPoll` and `otherMessage` a poll made for a message that finds
a completion or a message.  `path` is for the adapter, lost servers, rounds and the slab
map. -/
inductive Move (Data : Type) where
  | queueRq (q : Nat) (r : Request Data) (fault : Nat → Bool)
  | retry (b : Nat) (fault : Nat → Bool)
  | poll (c : Caller)
  | pollMessage (c : Caller)
  | leave (c : Caller)
  | message (b : Nat)
  | otherPoll (b : Nat)
  | otherMessage (b : Nat)
  | path (a : Action Data)

/-- One move.  A poll of a failed server finds `CB_FAIL` and returns. -/
def Dispatch.move (B : Build Data) (t : Dispatch Data) : Move Data → Option (Dispatch Data)
  | .queueRq q r fault =>
      if (t.call? (.queue q)).isSome then none
      else
        (waits B t.path r fault).bind fun polls =>
          (step B t.path (.submit r fault)).map fun path =>
            { t with path := path, calls := ⟨.queue q, t.path.nextReq, polls⟩ :: t.calls }
  | .retry b fault =>
      if (t.call? (.handler b)).isSome then none
      else
        (scanCtx B t.path b fault).bind fun path =>
          match nextRetry t.path b with
          | none => some { t with path := path }
          | some r =>
              (waits B t.path r fault).map fun polls =>
                { t with path := path, calls := ⟨.handler b, r.id, polls⟩ :: t.calls }
  | .poll c =>
      (t.call? c).bind fun call =>
        match call.polls with
        | [] => none
        | b :: rest =>
            let calls := { call with polls := rest } :: t.others c
            if t.path.cbState b = .fail then some { t with calls := calls }
            else (rdmaCqEventHandler B t.path b).map fun path =>
              { t with path := path, calls := calls }
  | .pollMessage c =>
      (t.call? c).bind fun call =>
        match call.polls with
        | [] => none
        | b :: rest =>
            if t.path.cbState b = .fail ∨ b ∉ t.messages then none
            else
              some
                { t with
                  calls := { call with polls := rest } :: t.others c
                  messages := t.messages.erase b
                  missed := b :: t.missed }
  | .leave c =>
      (t.call? c).bind fun call =>
        match call.polls, c with
        | [], .queue _ =>
            some
              { t with
                calls := t.others c
                started := ⟨call.id, ended t.path call.id,
                  (t.others c).isEmpty && t.path.scan.isEmpty && decide t.Even⟩ :: t.started }
        | [], .handler _ => some { t with calls := t.others c }
        | _ :: _, _ => none
  | .message b => some { t with messages := b :: t.messages }
  | .otherPoll b =>
      (rdmaCqEventHandler B t.path b).map fun path => { t with path := path, lent := b :: t.lent }
  | .otherMessage b =>
      if b ∈ t.messages then some { t with messages := t.messages.erase b } else none
  | .path a =>
      match a with
      | .submit .. | .poll _ | .scan .. => none
      | .execute _ | .disconnect _ | .setUp _ | .bind .. | .unbind _ =>
          (step B t.path a).map fun path => { t with path := path }

/-- Before the first request. -/
def dispatchInit [Zero Data] (B : Build Data) (map : Nat → Option (Nat × ChunkIx))
    (cbState : Nat → CbState) (ready : Nat → Bool) (mem : Nat × ChunkIx × Nat → Data) :
    Dispatch Data where
  path := pathInit B map cbState ready mem
  calls := []
  started := []
  messages := []
  missed := []
  lent := []

/-- Requests and losses are as they have to be for every request to end once. -/
def EndsOnceHere (B : Build Data) (t : Dispatch Data) : Move Data → Prop
  | .queueRq _ r fault => EndsOnce B t.path (.submit r fault)
  | .path a => EndsOnce B t.path a
  | .retry .. | .poll _ | .pollMessage _ | .leave _ | .message _ | .otherPoll _
  | .otherMessage _ => True

instance (B : Build Data) (t : Dispatch Data) (m : Move Data) : Decidable (EndsOnceHere B t m) :=
  match m with
  | .queueRq _ r fault => inferInstanceAs (Decidable (EndsOnce B t.path (.submit r fault)))
  | .path a => inferInstanceAs (Decidable (EndsOnce B t.path a))
  | .retry .. | .poll _ | .pollMessage _ | .leave _ | .message _ | .otherPoll _
  | .otherMessage _ => isTrue trivial

/-! ## One poll for each operation -/

section Waits

variable {B : Build Data} {s s' : Path Data} {r : Request Data} {fault : Nat → Bool}
  {place : Nat → Option (Nat × ChunkIx)} {ids : List CtxId} {free : Pool → List CtxId}
  {ok : Nat → Bool}

/-- The operations posted are on the servers of the pieces. -/
theorem posts_map_server (hids : ids.length = B.ndisks) {pieces : List Nat}
    (hpieces : ∀ i ∈ pieces, i < B.ndisks) :
    (posts place ids r pieces).map Op.server =
      pieces.filterMap fun i => (place i).map Prod.fst := by
  rw [posts, List.map_filterMap]
  refine List.filterMap_congr fun i hi => ?_
  have hlt : i < ids.length := by
    rw [hids]
    exact hpieces i hi
  cases place i with
  | none => rfl
  | some e => simp [List.getElem?_eq_getElem hlt]

/-- A read waits for the pieces it has posted. -/
theorem waitedPieces_read {targets : List Nat}
    (hi : ReadIssued B s r place fault ids free targets) (h : Orderly ok s)
    (hplace : ∀ i b c, place i = some (b, c) → ok b = true) (hr : r.write = false) :
    ∃ pieces, waitedPieces B r place fault = some pieces ∧ targets.Perm pieces := by
  have hpost : ∀ i, (fun _ : Nat => (0 : Int)) i = 0 := fun _ => rfl
  have hcount : ∀ i e c, place i = some e → ids[i]? = some c → ids.count c ≤ 1 := by
    intro i e c he hc
    refine hi.taken.count_le h ?_
    rw [hi.taken.pool_server hc he]
    exact hplace i e.1 e.2 he
  have htargets := (Pieces.toOption_readLoops (p := piecesOf B place fault) 0
    (fun _ => (⟨0, 0, 0, ()⟩ : DiskFault Unit)) hpost).trans
      (readTargets_congr (fun i hlt => (hi.taken.good_eq hlt (hcount i)).symm)
        (fun i hmem => lt_of_lt_of_le (List.mem_range.mp hmem) B.ndatas_le) _)
  obtain ⟨run, hrun, rfl⟩ := Option.map_eq_some_iff.mp (htargets.trans hi.posted)
  have hloops := toOption_eq_some.mp hrun
  have hmapped : ∀ i < B.ndisks, fault i = true → (place i).isSome = true :=
    fun i hlt hfault => Option.ne_none_iff_isSome.mp (hi.mapped i hlt hfault)
  have hread := toOption_eq_some.mpr (Pieces.rdmaRead_eq_ok_iff.mpr ⟨hmapped, hloops⟩)
  refine ⟨run.waited, by rw [waitedPieces, hr, if_neg Bool.false_ne_true, hread]; rfl, ?_⟩
  rcases (Pieces.readLoops_ok hloops).1.outcome with ⟨-, hperm, hwaited, -⟩ | ⟨-, -, k, -, hfail⟩
  · rw [hwaited]
    exact hperm
  · exact absurd rfl hfail

/-- A request that is issued polls once for each operation it has posted. -/
theorem waits_isRequest (h : Orderly ok s)
    (hmap : ∀ i b c, s.map i = some (b, c) → ok b = true)
    (hreq : isRequest B s r fault = some s') :
    ∃ polls new, waits B s r fault = some polls ∧ s'.wire = s.wire ++ new ∧
      (new.map Op.server).Perm polls := by
  have hplace : ∀ i b c, s.place B r.slab i = some (b, c) → ok b = true :=
    fun i b c hi => hmap _ b c hi
  rcases isRequest_cases h.sound.free_own hreq with
    ⟨hw, ids, free, ht, rfl⟩ | ⟨hw, ids, free, targets, hi, rfl⟩
  · refine ⟨_, _, by rw [waits, waitedPieces, if_pos hw]; rfl, rfl, List.Perm.of_eq ?_⟩
    rw [← posts_filter_mapped]
    exact posts_map_server ht.length fun i hi => List.mem_range.mp (List.mem_filter.mp hi).1
  · obtain ⟨pieces, hpieces, hperm⟩ := waitedPieces_read hi h hplace hw
    refine ⟨_, _, by rw [waits, hpieces]; rfl, rfl, ?_⟩
    rw [posts_map_server hi.taken.length fun t ht => (hi.target h hplace ht).1]
    exact hperm.filterMap _

/-- A completion handled is one of the server's. -/
theorem Polled.countP_server {b : Nat} {o : Op} {pre post : List Op}
    (hp : Polled B s s' b o pre post) (b' : Nat) :
    (s.wire.countP fun o => decide (o.server = b')) =
      (s'.wire.countP fun o => decide (o.server = b')) + if b = b' then 1 else 0 := by
  rw [hp.wire, hp.wire', List.countP_append, List.countP_append, List.countP_cons, hp.server]
  simp only [decide_eq_true_eq]
  omega

end Waits

/-! ## Callers come and go -/

section Calls

variable {t : Dispatch Data} {c : Caller} {call : Call}

theorem call?_split (h : t.call? c = some call) :
    call.caller = c ∧ ∃ pre post, t.calls = pre ++ call :: post ∧ t.others c = pre ++ post := by
  obtain ⟨hc, pre, post, hcalls, -, herase⟩ := find?_split h
  exact ⟨of_decide_eq_true hc, pre, post, hcalls, herase⟩

theorem mem_of_mem_others {x : Call} (hx : x ∈ t.others c) : x ∈ t.calls :=
  List.mem_of_mem_eraseP hx

theorem count_polls (h : t.call? c = some call) (b : Nat) :
    t.polls.count b = call.polls.count b + ((t.others c).flatMap Call.polls).count b := by
  obtain ⟨-, pre, post, hcalls, hothers⟩ := call?_split h
  rw [Dispatch.polls, hcalls, hothers]
  simp only [List.flatMap_append, List.flatMap_cons, List.count_append]
  omega

end Calls

/-! ## The invariant -/

/-- There are as many polls to come as operations outstanding, on every server that has not
been lost, up to what the callers and the polls for messages have taken from each other, and
whatever was started with nothing else going on had ended. -/
structure Matched (B : Build Data) (t : Dispatch Data) : Prop where
  completion : ∃ own, CompletionInv B own t.path
  polls : ∀ b, t.path.cbState b ≠ .fail →
    (t.path.wire.countP fun o => decide (o.server = b)) + t.lent.count b =
      t.polls.count b + t.missed.count b
  ids : ∀ call ∈ t.calls, ∀ q, call.caller = .queue q → call.id < t.path.nextReq
  started : ∀ e ∈ t.started, e.alone = true → e.ends = 1

namespace Matched

variable {B : Build Data} {t t' : Dispatch Data} {path : Path Data}

theorem init [Zero Data] (B : Build Data) {map : Nat → Option (Nat × ChunkIx)}
    {cbState : Nat → CbState} (ready : Nat → Bool) (mem : Nat × ChunkIx × Nat → Data)
    (hserve : MapsServing map cbState) : Matched B (dispatchInit B map cbState ready mem) where
  completion := ⟨_, pathInit_completion B ready mem hserve⟩
  polls := fun b _ => rfl
  ids := fun call hcall => by cases hcall
  started := fun e he => by cases he

/-- A request issued adds as many polls as operations. -/
theorem issue (h : Matched B t) {s : Path Data} {r : Request Data} {fault : Nat → Bool}
    {polls : List Nat} (hreq : isRequest B s r fault = some path)
    (hwaits : waits B s r fault = some polls) (horderly : Orderly (live s) s)
    (hmap : ∀ i b c, s.map i = some (b, c) → live s b = true)
    (hwire : s.wire = t.path.wire) (hstate : s.cbState = t.path.cbState) (b : Nat)
    (hb : path.cbState b ≠ .fail) :
    (path.wire.countP fun o => decide (o.server = b)) + t.lent.count b =
      (polls ++ t.polls).count b + t.missed.count b := by
  obtain ⟨polls', new, hwaits', hnew, hperm⟩ := waits_isRequest horderly hmap hreq
  obtain rfl := Option.some.inj (hwaits.symm.trans hwaits')
  rw [(isRequest_same horderly.sound.free_own hreq).2.1, hstate] at hb
  have hposted : (new.map Op.server).count b = new.countP fun o => decide (o.server = b) := by
    rw [List.count_eq_countP, List.countP_map]
    rfl
  have hold := h.polls b hb
  rw [hnew, hwire, List.count_append, List.countP_append, ← hperm.count_eq, hposted]
  omega

theorem queueRq (h : Matched B t) {q : Nat} {r : Request Data} {fault : Nat → Bool}
    (hends : EndsOnce B t.path (.submit r fault))
    (hmove : t.move B (.queueRq q r fault) = some t') : Matched B t' := by
  obtain ⟨own, hown⟩ := h.completion
  have ht := hown.tracked
  rw [Dispatch.move] at hmove
  split at hmove
  · cases hmove
  obtain ⟨polls, hwaits, hmove⟩ := Option.bind_eq_some_iff.mp hmove
  obtain ⟨path, hstep, rfl⟩ := Option.map_eq_some_iff.mp hmove
  have hbase : Orderly (live t.path)
      { t.path with
        nextReq := t.path.nextReq + 1
        trace := .submit { r with id := t.path.nextReq } :: t.path.trace } :=
    ⟨ht.orderly.sound, ht.orderly.server⟩
  have hreq : isRequest B
      { t.path with
        nextReq := t.path.nextReq + 1
        trace := .submit { r with id := t.path.nextReq } :: t.path.trace }
      { r with id := t.path.nextReq } fault = some path := hstep
  have hnext : path.nextReq = t.path.nextReq + 1 := by
    refine (isRequest_same ?_ hreq).2.2.2.2.2.1
    exact ht.orderly.sound.free_own
  have hpolls := h.issue hreq hwaits hbase ht.place_live rfl rfl
  refine ⟨hown.step hends hstep, hpolls, ?_, h.started⟩
  intro call hcall k hk
  rw [hnext]
  rcases List.mem_cons.mp hcall with rfl | hcall
  · exact Nat.lt_succ_self _
  · exact Nat.lt_succ_of_lt (h.ids call hcall k hk)

theorem retry (h : Matched B t) {b : Nat} {fault : Nat → Bool}
    (hmove : t.move B (.retry b fault) = some t') : Matched B t' := by
  obtain ⟨own, hown⟩ := h.completion
  have ht := hown.tracked
  rw [Dispatch.move] at hmove
  split at hmove
  · cases hmove
  obtain ⟨path, hscan, hmove⟩ := Option.bind_eq_some_iff.mp hmove
  have hinv := hown.scanCtx hscan
  obtain ⟨c, pre, post, hfind, hsplit, hcase⟩ := scanCtx_cases hscan
  have hretry : nextRetry t.path b =
      if (t.path.ctx c).inFlight = .read then (t.path.ctx c).req else none := by
    rw [nextRetry, hfind, Option.bind_some]
  rcases hcase with ⟨hflag, rfl⟩ | ⟨hflag, rfl⟩ | ⟨hflag, r, hr, hreq⟩
  · rw [hretry, hflag, if_neg (by decide)] at hmove
    obtain rfl := Option.some.inj hmove
    exact ⟨hinv, h.polls, h.ids, h.started⟩
  · rw [hretry, hflag, if_neg (by decide)] at hmove
    obtain rfl := Option.some.inj hmove
    exact ⟨hinv, h.polls, h.ids, h.started⟩
  · rw [hretry, hflag, if_pos rfl, hr] at hmove
    obtain ⟨polls, hwaits, rfl⟩ := Option.map_eq_some_iff.mp hmove
    -- the context goes back to the pool of a lost server
    have hdead : live t.path c.pool.server = false := by
      simp [live, (ht.lost c (by rw [hsplit]; simp)).1]
    have hbase : Orderly (live t.path)
        { t.path with
          scan := pre ++ post
          free := putBack CtxId.pool [c] t.path.free } :=
      ⟨ht.orderly.sound.putBack hdead, ht.orderly.server⟩
    have hnext : path.nextReq = t.path.nextReq :=
      (isRequest_same hbase.sound.free_own hreq).2.2.2.2.2.1
    have hpolls := h.issue hreq hwaits hbase ht.place_live rfl rfl
    refine ⟨hinv, hpolls, ?_, h.started⟩
    intro call hcall k hk
    rw [hnext]
    rcases List.mem_cons.mp hcall with rfl | hcall
    · cases hk
    · exact h.ids call hcall k hk

/-- A caller with other polls to make is still the caller of its request. -/
theorem ids_polled (h : Matched B t) {c : Caller} {call : Call} (hcall : t.call? c = some call)
    (rest : List Nat) :
    ∀ x ∈ { call with polls := rest } :: t.others c, ∀ q, x.caller = .queue q →
      x.id < t.path.nextReq := by
  obtain ⟨-, pre, post, hcalls, -⟩ := call?_split hcall
  intro x hx q hq
  rcases List.mem_cons.mp hx with rfl | hx
  · exact h.ids call (by simp [hcalls]) q hq
  · exact h.ids x (mem_of_mem_others hx) q hq

/-- A poll takes one completion, whose ever it is. -/
theorem poll (h : Matched B t) {c : Caller} (hmove : t.move B (.poll c) = some t') :
    Matched B t' := by
  obtain ⟨own, hown⟩ := h.completion
  obtain ⟨call, hcall, hmove⟩ := Option.bind_eq_some_iff.mp hmove
  split at hmove
  · cases hmove
  rename_i b rest hpolls
  have hids := h.ids_polled hcall rest
  have hcount : ∀ b', t.polls.count b' =
      (({ call with polls := rest } :: t.others c).flatMap Call.polls).count b' +
        if b = b' then 1 else 0 := by
    intro b'
    rw [count_polls hcall, hpolls, List.flatMap_cons, List.count_append, List.count_cons]
    simp only [beq_iff_eq]
    omega
  split at hmove
  · rename_i hfail
    obtain rfl := Option.some.inj hmove
    refine ⟨⟨own, hown⟩, fun b' hb' => ?_, hids, h.started⟩
    have hne : b ≠ b' := fun heq => hb' (heq ▸ hfail)
    have hpolls' := hcount b'
    rw [if_neg hne, Nat.add_zero] at hpolls'
    rw [Dispatch.polls, ← hpolls']
    exact h.polls b' hb'
  · obtain ⟨path, hpoll, rfl⟩ := Option.map_eq_some_iff.mp hmove
    have hstep : step B t.path (.poll b) = some path := hpoll
    obtain ⟨o, before, after, hp⟩ := rdmaCqEventHandler_cases hpoll
    obtain ⟨-, hstate, -, -, -, hnext⟩ := hp.finished.same
    refine ⟨hown.step (show EndsOnce B t.path (.poll b) from trivial) hstep, fun b' hb' => ?_,
      by rw [hnext]; exact hids, h.started⟩
    rw [hstate] at hb'
    have hold := h.polls b' hb'
    have htaken := hp.countP_server b'
    rw [hcount b'] at hold
    show (path.wire.countP fun o => decide (o.server = b')) + t.lent.count b' =
      (({ call with polls := rest } :: t.others c).flatMap Call.polls).count b' +
        t.missed.count b'
    omega

/-- A caller's poll that takes a message leaves a completion without a poll. -/
theorem pollMessage (h : Matched B t) {c : Caller}
    (hmove : t.move B (.pollMessage c) = some t') : Matched B t' := by
  obtain ⟨call, hcall, hmove⟩ := Option.bind_eq_some_iff.mp hmove
  split at hmove
  · cases hmove
  rename_i b rest hpolls
  split at hmove
  · cases hmove
  obtain rfl := Option.some.inj hmove
  refine ⟨h.completion, fun b' hb' => ?_, h.ids_polled hcall rest, h.started⟩
  have hold := h.polls b' hb'
  rw [count_polls hcall, hpolls, List.count_cons] at hold
  show (t.path.wire.countP fun o => decide (o.server = b')) + t.lent.count b' =
    (({ call with polls := rest } :: t.others c).flatMap Call.polls).count b' +
      (b :: t.missed).count b'
  rw [List.flatMap_cons, List.count_append, List.count_cons]
  simp only at hold ⊢
  omega

/-- A poll made for a message that takes a completion leaves a poll without one. -/
theorem otherPoll (h : Matched B t) {b : Nat} (hmove : t.move B (.otherPoll b) = some t') :
    Matched B t' := by
  obtain ⟨own, hown⟩ := h.completion
  obtain ⟨path, hpoll, rfl⟩ := Option.map_eq_some_iff.mp hmove
  have hstep : DataPath.step B t.path (.poll b) = some path := hpoll
  obtain ⟨o, before, after, hp⟩ := rdmaCqEventHandler_cases hpoll
  obtain ⟨-, hstate, -, -, -, hnext⟩ := hp.finished.same
  refine ⟨hown.step (show EndsOnce B t.path (.poll b) from trivial) hstep, fun b' hb' => ?_,
    by rw [hnext]; exact h.ids, h.started⟩
  rw [hstate] at hb'
  have hold := h.polls b' hb'
  have htaken := hp.countP_server b'
  show (path.wire.countP fun o => decide (o.server = b')) + (b :: t.lent).count b' =
    t.polls.count b' + t.missed.count b'
  rw [List.count_cons]
  simp only [beq_iff_eq]
  omega

/-- An operation outstanding has a caller that will poll for one, unless callers have taken
messages instead. -/
theorem count_pos (h : Matched B t) {o : Op} (ho : o ∈ t.path.wire)
    (heven : t.missed.count o.server ≤ t.lent.count o.server) : 0 < t.polls.count o.server := by
  obtain ⟨own, hown⟩ := h.completion
  have hpolls := h.polls o.server (live_eq_true.mp (hown.tracked.orderly.server_ok ho))
  have hpos : 0 < t.path.wire.countP fun o' => decide (o'.server = o.server) :=
    List.countP_pos_iff.mpr ⟨o, ho, decide_eq_true rfl⟩
  omega

theorem wire_eq_nil (h : Matched B t) (hpolls : t.polls = []) (heven : t.Even) :
    t.path.wire = [] := by
  rw [List.eq_nil_iff_forall_not_mem]
  intro o ho
  have hle : t.missed.count o.server ≤ t.lent.count o.server := by
    by_cases hmem : o.server ∈ t.missed
    · exact heven _ hmem
    · rw [List.count_eq_zero_of_not_mem hmem]
      exact Nat.zero_le _
  have hpos := h.count_pos ho hle
  rw [hpolls] at hpos
  exact Nat.lt_irrefl 0 hpos

theorem leave (h : Matched B t) {c : Caller} (hmove : t.move B (.leave c) = some t') :
    Matched B t' := by
  obtain ⟨call, hcall, hmove⟩ := Option.bind_eq_some_iff.mp hmove
  obtain ⟨hcaller, pre, post, hcalls, hothers⟩ := call?_split hcall
  have hids : ∀ x ∈ t.others c, ∀ q, x.caller = .queue q → x.id < t.path.nextReq :=
    fun x hx => h.ids x (mem_of_mem_others hx)
  have hcount : call.polls = [] → ∀ b, t.path.cbState b ≠ .fail →
      (t.path.wire.countP fun o => decide (o.server = b)) + t.lent.count b =
        ((t.others c).flatMap Call.polls).count b + t.missed.count b := by
    intro hnil b hb
    have hpolls := count_polls hcall b
    rw [hnil, List.count_nil, Nat.zero_add] at hpolls
    rw [← hpolls]
    exact h.polls b hb
  split at hmove
  · rename_i q hnil _
    obtain rfl := Option.some.inj hmove
    refine ⟨h.completion, hcount hnil, hids, fun e he halone => ?_⟩
    rcases List.mem_cons.mp he with rfl | he
    · obtain ⟨hquiet, heven⟩ := Bool.and_eq_true_iff.mp halone
      obtain ⟨hnone, hscan⟩ := Bool.and_eq_true_iff.mp hquiet
      rw [List.isEmpty_iff] at hnone hscan
      have hpolls : t.polls = [] := by
        rw [hothers, List.append_eq_nil_iff] at hnone
        rw [Dispatch.polls, hcalls, hnone.1, hnone.2, List.nil_append, List.flatMap_cons, hnil,
          List.flatMap_nil, List.nil_append]
      have hwire := h.wire_eq_nil hpolls (of_decide_eq_true heven)
      obtain ⟨own, hown⟩ := h.completion
      have hmem : call ∈ t.calls := by simp [hcalls]
      refine hown.exactlyOnce.atLeast call.id (h.ids call hmem q hcaller) hscan fun o ho => ?_
      rw [hwire] at ho
      cases ho
    · exact h.started e he halone
  · rename_i b hnil _
    obtain rfl := Option.some.inj hmove
    exact ⟨h.completion, hcount hnil, hids, h.started⟩
  · cases hmove

theorem action (h : Matched B t) {a : Action Data} (hends : EndsOnce B t.path a)
    (hmove : t.move B (.path a) = some t') : Matched B t' := by
  obtain ⟨own, hown⟩ := h.completion
  cases a with
  | submit | poll | scan => cases hmove
  | execute b =>
      obtain ⟨path, hstep, rfl⟩ := Option.map_eq_some_iff.mp hmove
      have hexec : DataPath.execute t.path b = some path := hstep
      obtain ⟨-, hwire, -, -, -, -, hstate, -, hnext, -⟩ := execute_same hexec
      refine ⟨hown.step hends hstep, ?_, by rw [hnext]; exact h.ids, h.started⟩
      rw [hstate, hwire]
      exact h.polls
  | disconnect b =>
      obtain ⟨path, hstep, rfl⟩ := Option.map_eq_some_iff.mp hmove
      have hd := isDisconnectHandler_cases hstep
      refine ⟨hown.step hends hstep, fun b' hb' => ?_, ?_, h.started⟩
      · rw [hd.cbState] at hb'
        have hne : b' ≠ b := fun heq => hb' (by rw [heq, Function.update_self])
        rw [Function.update_of_ne hne] at hb'
        have hkept : (path.wire.countP fun o => decide (o.server = b')) =
            t.path.wire.countP fun o => decide (o.server = b') := by
          rw [hd.wire, List.countP_filter]
          refine List.countP_congr fun o _ => ?_
          simp only [Bool.and_eq_true, Bool.not_eq_true', decide_eq_true_eq,
            decide_eq_false_iff_not]
          exact ⟨fun heq => heq.1, fun heq => ⟨heq, heq ▸ hne⟩⟩
        show (path.wire.countP _) + _ = _
        rw [hkept]
        exact h.polls b' hb'
      · rw [hd.same.2.2.2.2.2.1]
        exact h.ids
  | setUp b =>
      obtain ⟨path, hstep, rfl⟩ := Option.map_eq_some_iff.mp hmove
      have hu := setUp_cases hstep
      obtain ⟨-, -, -, -, hwire, -, -, hnext, -⟩ := hu.same
      refine ⟨hown.step hends hstep, fun b' hb' => ?_, by rw [hnext]; exact h.ids, h.started⟩
      rw [hwire]
      refine h.polls b' fun hfail => hb' ?_
      rw [hu.cbState, Function.update_of_ne (hu.ne_of_fail hfail)]
      exact hfail
  | bind i b chunk =>
      obtain ⟨path, hstep, rfl⟩ := Option.map_eq_some_iff.mp hmove
      have hinv := hown.step hends hstep
      obtain ⟨hselect, rfl⟩ := bind_cases hstep
      refine ⟨hinv, fun b' hb' => h.polls b' fun hfail => ?_, h.ids, h.started⟩
      by_cases heq : b' = b
      · rw [heq] at hfail
        rw [hfail] at hselect
        cases hselect
      · exact hb' ((Function.update_of_ne heq ..).trans hfail)
  | unbind i =>
      have hstep : DataPath.step B t.path (.unbind i) = some _ := rfl
      obtain rfl := Option.some.inj hmove
      exact ⟨hown.step hends hstep, h.polls, h.ids, h.started⟩

theorem step {m : Move Data} (h : Matched B t) (hends : EndsOnceHere B t m)
    (hmove : t.move B m = some t') : Matched B t' := by
  cases m with
  | queueRq q r fault => exact h.queueRq hends hmove
  | retry b fault => exact h.retry hmove
  | poll c => exact h.poll hmove
  | pollMessage c => exact h.pollMessage hmove
  | leave c => exact h.leave hmove
  | message b =>
      obtain rfl := Option.some.inj hmove
      exact ⟨h.completion, h.polls, h.ids, h.started⟩
  | otherPoll b => exact h.otherPoll hmove
  | otherMessage b =>
      rw [Dispatch.move] at hmove
      split at hmove
      · obtain rfl := Option.some.inj hmove
        exact ⟨h.completion, h.polls, h.ids, h.started⟩
      · cases hmove
  | path a => exact h.action hends hmove

end Matched

/-! ## Whole runs -/

section Runs

variable {B : Build Data} {t : Dispatch Data} {map : Nat → Option (Nat × ChunkIx)}
  {cbState : Nat → CbState} {ready : Nat → Bool} {mem : Nat × ChunkIx × Nat → Data}

end Runs

end Hydra.DataPath
