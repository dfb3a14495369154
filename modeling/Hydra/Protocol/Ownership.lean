/-
  Protocol/Ownership.lean --- a chunk a manager holds is its own at the monitor.

  Ownership moves through messages: the monitor binds a chunk before `INFO_SINGLE`
  arrives, and the manager forgets it before `DONE` arrives.  `LinkOk` follows a
  chunk through both channels of a connection; that at most one `STOP` with chunks
  to give up is under way on a connection keeps the two directions apart.
-/
import Hydra.Monitor.Tables
import Hydra.Protocol.Network

set_option autoImplicit false

namespace Hydra.Protocol

open Hydra.Foundation Hydra.Wire Hydra.Monitor Hydra.Manager

/-! ## A chunk on its way -/

/-- The message assigns the chunk, or could. -/
def Names (msg : Message) (i : ChunkIx) : Prop :=
  msg.type = .infoSingle ∧ msg.flagged i = true

/-- A `STOP` that asks for chunks. -/
def isStop (msg : Message) : Bool := decide (msg.type = .stop ∧ msg.sizeGb ≠ 0)

/-- A `DONE`. -/
def isDone (msg : Message) : Bool := decide (msg.type = .done)

/-- A `STOP` has been received and the eviction thread has not answered it. -/
def StopPending (cb : KernelCb) : Prop :=
  cb.remoteChunk.cState = .stop ∧ cb.remoteChunk.shrinkSizeG ≠ 0

instance (cb : KernelCb) : Decidable (StopPending cb) := inferInstanceAs (Decidable (_ ∧ _))

/-- The evictions under way: a `STOP` in flight, received, or answered. -/
def Link.active (l : Link) : Nat :=
  l.toManager.countP isStop + (if StopPending l.cb then 1 else 0) + l.toMonitor.countP isDone

/-- One connection: where each chunk stands between the two tables.  `quota` is
how many evictions the monitor's thread waits for on it. -/
structure LinkOk (connMap : ChunkIx → Option ConnIx) (quota : Nat) (c : ConnIx)
    (conn : Connection) (l : Link) : Prop where
  held : ∀ i, l.cb.remoteChunk.chunkMap i ≠ none → conn.sessChunkMap i = some i
  promised : ∀ msg ∈ l.toManager, ∀ i, Names msg i → conn.sessChunkMap i = some i
  stopOwned : ∀ msg ∈ l.toManager, isStop msg = true →
    ∀ i, msg.flagged i = true → connMap i = some c
  stopOrder : l.toManager.Pairwise fun a b =>
    isStop a = true → ∀ i, a.flagged i = true → ¬ Names b i
  marked : StopPending l.cb → ∀ i, l.cb.remoteChunk.evictChunkMap i = .stop →
    connMap i = some c ∧ ∀ msg ∈ l.toManager, ¬ Names msg i
  released : ∀ msg ∈ l.toMonitor, isDone msg = true → ∀ i, msg.flagged i = true →
    connMap i = some c ∧ l.cb.remoteChunk.chunkMap i = none ∧
      ∀ info ∈ l.toManager, ¬ Names info i
  noBind : ∀ msg ∈ l.toMonitor, msg.type ≠ .bind
  count : l.active + conn.stopSem ≤ quota

namespace LinkOk

variable {connMap connMap' : ChunkIx → Option ConnIx} {quota quota' : Nat} {c : ConnIx}
  {conn conn' : Connection} {l : Link}

/-- A link nobody touched, while the monitor served somebody else. -/
theorem frame (h : LinkOk connMap quota c conn l)
    (hmap : ∀ i, connMap i = some c → connMap' i = some c)
    (hsess : conn'.sessChunkMap = conn.sessChunkMap)
    (hcount : l.active + conn'.stopSem ≤ quota') : LinkOk connMap' quota' c conn' l := by
  refine ⟨?_, ?_, ?_, h.stopOrder, ?_, ?_, h.noBind, hcount⟩
  · intro i hi
    rw [hsess]
    exact h.held i hi
  · intro msg hmsg i hi
    rw [hsess]
    exact h.promised msg hmsg i hi
  · exact fun msg hmsg hstop i hi => hmap i (h.stopOwned msg hmsg hstop i hi)
  · exact fun hp i hi => ⟨hmap i (h.marked hp i hi).1, (h.marked hp i hi).2⟩
  · intro msg hmsg hdone i hi
    obtain ⟨hown, hrest⟩ := h.released msg hmsg hdone i hi
    exact ⟨hmap i hown, hrest⟩

/-! ## The manager's side -/

/-- The manager takes the next message: its table grows by what the message names
at most, and an eviction becomes pending by a `STOP` only. -/
theorem receive (h : LinkOk connMap quota c conn l) {msg : Message} {rest : List Message}
    (hqueue : l.toManager = msg :: rest) {cb : KernelCb}
    (hheld : ∀ i, cb.remoteChunk.chunkMap i ≠ none →
      l.cb.remoteChunk.chunkMap i ≠ none ∨ Names msg i)
    (hpending : StopPending cb →
      (StopPending l.cb ∧ cb.remoteChunk.evictChunkMap = l.cb.remoteChunk.evictChunkMap) ∨
      (isStop msg = true ∧
        ∀ i, cb.remoteChunk.evictChunkMap i = .stop → msg.flagged i = true)) :
    LinkOk connMap quota c conn { l with toManager := rest, cb := cb } := by
  have hhead : msg ∈ l.toManager := by simp [hqueue]
  have htail : ∀ m ∈ rest, m ∈ l.toManager := fun m hm => by simp [hqueue, hm]
  have horder := h.stopOrder
  rw [hqueue, List.pairwise_cons] at horder
  refine ⟨?_, ?_, ?_, horder.2, ?_, ?_, h.noBind, ?_⟩
  · intro i hi
    rcases hheld i hi with hold | hnew
    · exact h.held i hold
    · exact h.promised msg hhead i hnew
  · exact fun m hm => h.promised m (htail m hm)
  · exact fun m hm => h.stopOwned m (htail m hm)
  · intro hp i hi
    rcases hpending hp with ⟨hold, hmarks⟩ | ⟨hstop, hmarks⟩
    · obtain ⟨hown, hno⟩ := h.marked hold i (by rw [← hmarks]; exact hi)
      exact ⟨hown, fun m hm => hno m (htail m hm)⟩
    · exact ⟨h.stopOwned msg hhead hstop i (hmarks i hi),
        fun m hm => horder.1 m hm hstop i (hmarks i hi)⟩
  · intro done hdone hisDone i hi
    obtain ⟨hown, hnone, hno⟩ := h.released done hdone hisDone i hi
    refine ⟨hown, ?_, fun m hm => hno m (htail m hm)⟩
    -- the message cannot name a chunk whose release is on its way
    by_contra hne
    rcases hheld i hne with hold | hnew
    · exact hold hnone
    · exact hno msg hhead hnew
  · refine le_trans (Nat.add_le_add_right ?_ _) h.count
    unfold Link.active
    rw [hqueue, List.countP_cons]
    apply Nat.add_le_add_right
    dsimp only
    by_cases hp : StopPending cb
    · rw [if_pos hp]
      rcases hpending hp with ⟨hold, -⟩ | ⟨hstop, -⟩
      · rw [if_pos hold]
        omega
      · rw [if_pos hstop]
        omega
    · rw [if_neg hp]
      omega

/-- The manager acts of its own accord: its table only shrinks, and a `DONE` is the
answer to the pending eviction. -/
theorem act (h : LinkOk connMap quota c conn l) (cb : KernelCb) (out : Option Message)
    (pc : EvictPc) (failed : Bool)
    (hheld : ∀ i, cb.remoteChunk.chunkMap i ≠ none → l.cb.remoteChunk.chunkMap i ≠ none)
    (hpending : StopPending cb →
      StopPending l.cb ∧ cb.remoteChunk.evictChunkMap = l.cb.remoteChunk.evictChunkMap)
    (hbind : ∀ msg ∈ out, msg.type ≠ .bind)
    (hdone : ∀ msg ∈ out, isDone msg = true → StopPending l.cb ∧
      ¬ StopPending cb ∧ ∀ i, msg.flagged i = true →
        l.cb.remoteChunk.evictChunkMap i = .stop ∧ cb.remoteChunk.chunkMap i = none) :
    LinkOk connMap quota c conn
      { l with toMonitor := l.toMonitor ++ out.toList, cb := cb, evictPc := pc,
               failed := failed } := by
  refine ⟨fun i hi => h.held i (hheld i hi), h.promised, h.stopOwned, h.stopOrder, ?_, ?_, ?_, ?_⟩
  · intro hp i hi
    obtain ⟨hold, hmarks⟩ := hpending hp
    exact h.marked hold i (by rw [← hmarks]; exact hi)
  · intro msg hmsg hisDone i hi
    rcases List.mem_append.mp hmsg with hmsg | hmsg
    · obtain ⟨hown, hnone, hno⟩ := h.released msg hmsg hisDone i hi
      refine ⟨hown, ?_, hno⟩
      by_contra hne
      exact hheld i hne hnone
    · obtain ⟨hp, -, hflag⟩ := hdone msg (by simpa using hmsg) hisDone
      obtain ⟨hmark, hnone⟩ := hflag i hi
      obtain ⟨hown, hno⟩ := h.marked hp i hmark
      exact ⟨hown, hnone, hno⟩
  · intro msg hmsg
    rcases List.mem_append.mp hmsg with hmsg | hmsg
    · exact h.noBind msg hmsg
    · exact hbind msg (by simpa using hmsg)
  · refine le_trans (Nat.add_le_add_right ?_ _) h.count
    unfold Link.active
    rw [List.countP_append, ← Nat.add_assoc]
    dsimp only
    have hout : (if StopPending cb then 1 else 0) + out.toList.countP isDone ≤
        if StopPending l.cb then 1 else 0 := by
      by_cases hany : ∃ msg ∈ out, isDone msg = true
      · obtain ⟨msg, hmsg, hisDone⟩ := hany
        obtain ⟨hp, hafter, -⟩ := hdone msg hmsg hisDone
        obtain rfl := hmsg
        rw [if_neg hafter, if_pos hp]
        simp [hisDone]
      · have hzero : out.toList.countP isDone = 0 := by
          rw [List.countP_eq_zero]
          intro msg hmsg hisDone
          exact hany ⟨msg, by simpa using hmsg, hisDone⟩
        rw [hzero]
        by_cases hp : StopPending cb
        · rw [if_pos hp, if_pos (hpending hp).1]
        · rw [if_neg hp]
          omega
    omega

/-! ## The monitor's side -/

/-- The monitor serves a message that takes no chunk away, and answers. -/
theorem grants (h : LinkOk connMap quota c conn l) {m m' : Monitor.Session}
    (hconnMap : connMap = m.connMap) {msg : Message} {rest : List Message}
    (hqueue : l.toMonitor = msg :: rest) {reply : Option Message}
    (hgrants : Grants c m m' conn conn' reply) :
    LinkOk m'.connMap quota c conn'
      { l with toMonitor := rest, toManager := l.toManager ++ reply.toList } := by
  subst hconnMap
  have htail : ∀ x ∈ rest, x ∈ l.toMonitor := fun x hx => by simp [hqueue, hx]
  -- a chunk bound to this connection is not the one just taken
  have hfresh : ∀ x ∈ reply.toList, ∀ i, m.connMap i = some c → ¬ Names x i := by
    intro x hx i hown hnames
    have hnone := (hgrants.named x (by simpa using hx) hnames.1 i hnames.2).2
    rw [hnone] at hown
    cases hown
  have hquiet : ∀ x ∈ reply.toList, isStop x = false := by
    intro x hx
    simp [isStop, hgrants.replyType x (by simpa using hx)]
  refine ⟨fun i hi => hgrants.sess i (h.held i hi), ?_, ?_, ?_, ?_, ?_, ?_, ?_⟩
  · intro x hx i hnames
    rcases List.mem_append.mp hx with hx | hx
    · exact hgrants.sess i (h.promised x hx i hnames)
    · exact (hgrants.named x (by simpa using hx) hnames.1 i hnames.2).1
  · intro x hx hstop i hi
    rcases List.mem_append.mp hx with hx | hx
    · exact hgrants.connMap i (h.stopOwned x hx hstop i hi)
    · rw [hquiet x hx] at hstop
      cases hstop
  · rw [List.pairwise_append]
    refine ⟨h.stopOrder, ?_, ?_⟩
    · exact List.Pairwise.imp_of_mem
        (fun {a b} ha hb hab hstop => absurd hstop (by simp [hquiet a ha]))
        (List.pairwise_of_forall (R := fun _ _ => True) (fun _ _ => trivial))
    · exact fun a ha b hb hstop i hi => hfresh b hb i (h.stopOwned a ha hstop i hi)
  · intro hp i hi
    obtain ⟨hown, hno⟩ := h.marked hp i hi
    refine ⟨hgrants.connMap i hown, fun x hx => ?_⟩
    rcases List.mem_append.mp hx with hx | hx
    · exact hno x hx
    · exact hfresh x hx i hown
  · intro x hx hdone i hi
    obtain ⟨hown, hnone, hno⟩ := h.released x (htail x hx) hdone i hi
    refine ⟨hgrants.connMap i hown, hnone, fun y hy => ?_⟩
    rcases List.mem_append.mp hy with hy | hy
    · exact hno y hy
    · exact hfresh y hy i hown
  · exact fun x hx => h.noBind x (htail x hx)
  · rw [hgrants.stopSem]
    refine le_trans (Nat.add_le_add_right ?_ _) h.count
    have hzero : reply.toList.countP isStop = 0 := by
      rw [List.countP_eq_zero]
      intro x hx
      simp [hquiet x hx]
    unfold Link.active
    rw [List.countP_append, hzero, hqueue, List.countP_cons]
    change _ + (if StopPending l.cb then 1 else 0) + rest.countP isDone ≤ _
    omega

/-- The monitor serves the `DONE`: it is the only eviction under way, so no other
message speaks of the chunks it gives up. -/
theorem releases (h : LinkOk connMap quota c conn l) (hquota : quota ≤ 1) {msg : Message}
    {rest : List Message} (hqueue : l.toMonitor = msg :: rest) (hdone : msg.type = .done)
    {reply : Option Message} (hreleases : Releases msg conn conn' reply) :
    LinkOk connMap' quota c conn'
      { l with toMonitor := rest, toManager := l.toManager ++ reply.toList } := by
  have hisDone : isDone msg = true := by simp [isDone, hdone]
  have hhead : msg ∈ l.toMonitor := by simp [hqueue]
  have hcount := h.count
  unfold Link.active at hcount
  rw [hqueue, List.countP_cons, if_pos hisDone] at hcount
  have hstops : l.toManager.countP isStop = 0 := by omega
  have hdones : rest.countP isDone = 0 := by omega
  have hidle : ¬ StopPending l.cb := by
    intro hp
    rw [if_pos hp] at hcount
    omega
  have hkept : ∀ i, msg.flagged i = false → conn'.sessChunkMap i = conn.sessChunkMap i := by
    intro i hi
    rw [hreleases.sess, hi]
    rfl
  rw [hreleases.silent, Option.toList_none, List.append_nil]
  refine ⟨?_, ?_, ?_, h.stopOrder, fun hp => absurd hp hidle, ?_, ?_, ?_⟩
  · intro i hi
    have hflag : msg.flagged i = false := by
      by_contra hflag
      exact hi (h.released msg hhead hisDone i (Bool.eq_true_of_not_eq_false hflag)).2.1
    rw [hkept i hflag]
    exact h.held i hi
  · intro x hx i hnames
    have hflag : msg.flagged i = false := by
      by_contra hflag
      exact (h.released msg hhead hisDone i (Bool.eq_true_of_not_eq_false hflag)).2.2 x hx hnames
    rw [hkept i hflag]
    exact h.promised x hx i hnames
  · exact fun x hx hstop => absurd hstop (List.countP_eq_zero.mp hstops x hx)
  · exact fun x hx hx' => absurd hx' (List.countP_eq_zero.mp hdones x hx)
  · exact fun x hx => h.noBind x (by simp [hqueue, hx])
  · rw [hreleases.stopSem]
    unfold Link.active
    change l.toManager.countP isStop + (if StopPending l.cb then 1 else 0) + _ + _ ≤ _
    rw [hstops, hdones, if_neg hidle]
    omega

/-- The monitor's thread posts a message; a `STOP` it posts flags the connection's
own chunks. -/
theorem post (h : LinkOk connMap quota c conn l) {msg : Message} (quota' : Nat)
    (hsess : conn'.sessChunkMap = conn.sessChunkMap) (hinfo : msg.type ≠ .infoSingle)
    (hflags : isStop msg = true → ∀ i, msg.flagged i = true → connMap i = some c)
    (hcount : l.active + (if isStop msg then 1 else 0) + conn'.stopSem ≤ quota') :
    LinkOk connMap quota' c conn' { l with toManager := l.toManager ++ [msg] } := by
  have hnames : ∀ i, ¬ Names msg i := fun i hi => hinfo hi.1
  have hsplit : ∀ {P : Message → Prop}, (∀ x ∈ l.toManager, P x) → P msg →
      ∀ x ∈ l.toManager ++ [msg], P x := by
    intro P hold hnew x hx
    rcases List.mem_append.mp hx with hx | hx
    · exact hold x hx
    · rw [List.mem_singleton.mp hx]
      exact hnew
  refine ⟨?_, ?_, hsplit h.stopOwned hflags, ?_, ?_, ?_, h.noBind, ?_⟩
  · intro i hi
    rw [hsess]
    exact h.held i hi
  · rw [hsess]
    exact hsplit h.promised fun i hi => absurd hi (hnames i)
  · rw [List.pairwise_append]
    refine ⟨h.stopOrder, List.pairwise_singleton _ _, ?_⟩
    intro a _ b hb _ i _
    rw [List.mem_singleton.mp hb]
    exact hnames i
  · exact fun hp i hi => ⟨(h.marked hp i hi).1, hsplit (h.marked hp i hi).2 (hnames i)⟩
  · intro x hx hdone i hi
    obtain ⟨hown, hnone, hno⟩ := h.released x hx hdone i hi
    exact ⟨hown, hnone, hsplit hno (hnames i)⟩
  · refine le_trans (Nat.add_le_add_right (le_of_eq ?_) _) hcount
    unfold Link.active
    rw [List.countP_append, List.countP_singleton]
    change _ + _ + (if StopPending l.cb then 1 else 0) + l.toMonitor.countP isDone = _
    omega

end LinkOk

/-! ## The network -/

/-- How many evictions the monitor's thread waits for on a connection. -/
def Net.quota (s : Net) (c : ConnIx) : Nat := if s.stopping = some c then 1 else 0

theorem Net.quota_le_one (s : Net) (c : ConnIx) : s.quota c ≤ 1 := by
  unfold Net.quota
  split <;> omega

/-- The monitor's tables are sound and every live connection is. -/
structure NetOk (s : Net) : Prop where
  tables : Tables s.monitor
  links : ∀ c conn, s.monitor.conns c = some conn →
    LinkOk s.monitor.connMap (s.quota c) c conn (s.link c)

theorem netOk_init (freeMemG : Int) (link : ConnIx → Link) : NetOk (netInit freeMemG link) := by
  refine ⟨tables_rdmaSessionInit freeMemG, fun c conn hc => ?_⟩
  simp [netInit, rdmaSessionInit] at hc

/-- A step on behalf of one connection: the others keep their link. -/
theorem NetOk.update {s t : Net} (h : NetOk s) {c : ConnIx} (htables : Tables t.monitor)
    (heffect : Effect c s.monitor t.monitor) (hlink : ∀ d, d ≠ c → t.link d = s.link d)
    (hquota : ∀ d, d ≠ c → s.quota d ≤ t.quota d)
    (hown : ∀ conn, t.monitor.conns c = some conn →
      LinkOk t.monitor.connMap (t.quota c) c conn (t.link c)) : NetOk t := by
  refine ⟨htables, fun d conn hd => ?_⟩
  by_cases hdc : d = c
  · subst hdc
    exact hown conn hd
  · rw [heffect.conns d hdc] at hd
    have hold := h.links d conn hd
    rw [hlink d hdc]
    exact hold.frame (fun i => heffect.connMap d i hdc) rfl
      (le_trans hold.count (hquota d hdc))

/-- A step of the manager's side alone. -/
theorem NetOk.setLink {s : Net} (h : NetOk s) {c : ConnIx} {l : Link}
    (hown : ∀ conn, s.monitor.conns c = some conn →
      LinkOk s.monitor.connMap (s.quota c) c conn l) : NetOk (s.setLink c l) := by
  refine h.update (c := c) h.tables ⟨fun _ _ => rfl, fun _ _ _ hi => hi⟩ ?_ (fun _ _ => le_rfl) ?_
  · exact fun d hd => Function.update_of_ne hd _ _
  · intro conn hc
    change LinkOk _ _ _ _ (Function.update s.link c l c)
    rw [Function.update_self]
    exact hown conn hc

/-! ### The monitor's steps -/

theorem NetOk.connect {s t : Net} (h : NetOk s) {sendBuf recvBuf : Message} {cb : KernelCb}
    (hstep : netStep s (.connect sendBuf recvBuf cb) = some t) : NetOk t := by
  simp only [netStep] at hstep
  split at hstep
  · rename_i c m hslot hbuild
    obtain ⟨conn, hc, rfl⟩ := Option.map_eq_some_iff.mp hstep
    obtain ⟨c', conn', hslot', hc', hempty, hsem, htables, heffect⟩ :=
      h.tables.buildConnection hbuild
    obtain rfl := Option.some.inj (hslot.symm.trans hslot')
    obtain rfl := Option.some.inj (hc.symm.trans hc')
    have hsent := htables.putConn hc
      { conn with sendMsg := (sendFreeMemSize c conn m).2 } rfl rfl
    refine h.update (c := c) hsent.1 ?_ ?_ (fun _ _ => le_rfl) ?_
    · refine ⟨fun d hd => ?_, fun d i hd hi => ?_⟩
      · exact (hsent.2.conns d hd).trans (heffect.conns d hd)
      · exact hsent.2.connMap d i hd (heffect.connMap d i hd hi)
    · exact fun d hd => Function.update_of_ne hd _ _
    · intro other hother
      obtain rfl := Option.some.inj ((putConn_conns_self ..).symm.trans hother)
      change LinkOk _ _ _ _ (Function.update s.link c _ c)
      rw [Function.update_self]
      refine ⟨?_, ?_, ?_, ?_, ?_, ?_, ?_, ?_⟩
      · intro i hi
        exact absurd rfl hi
      · rintro msg hmsg i ⟨htype, -⟩
        simp [sendFreeMemSize] at hmsg
        simp [hmsg] at htype
      · intro msg hmsg hstop
        simp [sendFreeMemSize] at hmsg
        simp [hmsg, isStop] at hstop
      · exact List.pairwise_singleton _ _
      · rintro ⟨hstate, -⟩
        cases hstate
      · simp
      · simp
      · have hfree : isStop (sendFreeMemSize c conn m).2 = false := by
          simp [isStop, sendFreeMemSize]
        have hidle : ¬ StopPending (kernelCbInit cb) := by simp [StopPending, kernelCbInit]
        simp [Link.active, hidle, hfree, hsem]
  · cases hstep

theorem NetOk.monitorRecv {s t : Net} (h : NetOk s) {c : ConnIx} {mr : ChunkIx → Mr}
    (hstep : netStep s (.monitorRecv c mr) = some t) : NetOk t := by
  simp only [netStep] at hstep
  split at hstep
  · cases hstep
  rename_i msg rest hqueue
  obtain ⟨r, hrecv, rfl⟩ := Option.map_eq_some_iff.mp hstep
  obtain ⟨conn₀, hc, -⟩ := onCompletion_cases hrecv
  have hok := h.links c conn₀ hc
  obtain ⟨conn, conn', hconn, hconn', htables, heffect, hcases⟩ :=
    h.tables.onCompletion (hok.noBind msg (by simp [hqueue])) hrecv
  obtain rfl := Option.some.inj (hc.symm.trans hconn)
  refine h.update (c := c) htables heffect ?_ (fun _ _ => le_rfl) ?_
  · exact fun d hd => Function.update_of_ne hd _ _
  · intro other hother
    obtain rfl := Option.some.inj (hconn'.symm.trans hother)
    change LinkOk r.1.connMap (s.quota c) c conn' (Function.update s.link c _ c)
    rw [Function.update_self]
    rcases hcases with ⟨-, hgrants⟩ | ⟨hdone, hreleases⟩
    · exact hok.grants rfl hqueue hgrants
    · exact hok.releases (s.quota_le_one c) hqueue hdone hreleases

/-- Posting a message of the monitor's thread, `stopping` set as given. -/
theorem NetOk.post {s : Net} (h : NetOk s) {c : ConnIx} {conn : Connection}
    (hstopping : s.stopping = none) (hc : s.monitor.conns c = some conn) (msg : Message)
    (stopping : Option ConnIx) (hinfo : msg.type ≠ .infoSingle)
    (hflags : isStop msg = true → ∀ i, msg.flagged i = true → s.monitor.connMap i = some c)
    (hwait : isStop msg = true → stopping = some c) :
    NetOk { s.post c conn msg with stopping := stopping } := by
  have hnone : ∀ d, s.quota d = 0 := fun d => by simp [Net.quota, hstopping]
  have htables := h.tables.putConn hc { conn with sendMsg := msg } rfl rfl
  refine h.update (c := c) htables.1 htables.2 ?_ ?_ ?_
  · exact fun d hd => Function.update_of_ne hd _ _
  · intro d _
    rw [hnone d]
    exact Nat.zero_le _
  · intro other hother
    obtain rfl := Option.some.inj ((putConn_conns_self ..).symm.trans hother)
    change LinkOk _ _ _ _ (Function.update s.link c _ c)
    rw [Function.update_self]
    have hok := h.links c conn hc
    refine hok.post (if stopping = some c then 1 else 0) rfl hinfo hflags ?_
    have hzero := hok.count
    rw [hnone c] at hzero
    change _ + _ + conn.stopSem ≤ _
    by_cases hstop : isStop msg = true
    · rw [if_pos hstop, if_pos (hwait hstop)]
      omega
    · rw [if_neg hstop]
      omega

theorem NetOk.stopReturn {s t : Net} (h : NetOk s) {c : ConnIx}
    (hstep : netStep s (.stopReturn c) = some t) : NetOk t := by
  simp only [netStep] at hstep
  split at hstep
  · rename_i conn hc
    split at hstep
    · rename_i hcond
      obtain ⟨hstopping, hsem⟩ := hcond
      obtain rfl := Option.some.inj hstep
      have htables := h.tables.putConn hc
        { conn with stopSem := conn.stopSem - 1 } rfl rfl
      refine h.update (c := c) htables.1 htables.2 (fun _ _ => rfl) ?_ ?_
      · intro d hd
        have hne : s.stopping ≠ some d := by
          rw [hstopping]
          exact fun heq => hd (Option.some.inj heq).symm
        simp [Net.quota, hne]
      · intro other hother
        obtain rfl := Option.some.inj ((putConn_conns_self ..).symm.trans hother)
        refine (h.links c conn hc).frame (fun i hi => hi) rfl ?_
        have hcount := (h.links c conn hc).count
        simp only [Net.quota, hstopping, if_true] at hcount
        change _ + (conn.stopSem - 1) ≤ (if (none : Option ConnIx) = some c then 1 else 0)
        rw [if_neg (by simp)]
        omega
    · cases hstep
  · cases hstep

theorem NetOk.setPool {s : Net} (h : NetOk s) {m : Monitor.Session} (htables : Tables m)
    (hconns : m.conns = s.monitor.conns) (hmap : m.connMap = s.monitor.connMap) :
    NetOk { s with monitor := m } := by
  refine ⟨htables, fun c conn hc => ?_⟩
  change m.conns c = some conn at hc
  rw [hconns] at hc
  change LinkOk m.connMap (s.quota c) c conn (s.link c)
  rw [hmap]
  exact h.links c conn hc

/-! ### The manager's steps -/

theorem NetOk.managerRecv {s t : Net} (h : NetOk s) {c : ConnIx}
    (hstep : netStep s (.managerRecv c) = some t) : NetOk t := by
  simp only [netStep] at hstep
  split at hstep
  · cases hstep
  rename_i msg rest hqueue
  split at hstep
  · obtain rfl := Option.some.inj hstep
    refine h.setLink fun conn hc => ?_
    exact (h.links c conn hc).receive hqueue (fun i hi => .inl hi) (fun hp => .inl ⟨hp, rfl⟩)
  obtain ⟨cb, hrecv, rfl⟩ := Option.map_eq_some_iff.mp hstep
  refine h.setLink fun conn hc => (h.links c conn hc).receive hqueue ?_ ?_
  · -- the table grows by an `INFO_SINGLE` only
    intro i hi
    unfold clientRecv at hrecv
    split at hrecv <;> try cases hrecv
    · exact .inl hi
    · rename_i htype
      split at hrecv
      · obtain rfl := Option.some.inj hrecv
        exact .inl hi
      · rename_i k hfind
        obtain rfl := Option.some.inj hrecv
        by_cases hik : i = k
        · subst hik
          exact .inr ⟨htype, List.find?_some hfind⟩
        · refine .inl ?_
          change Function.update (s.link c).cb.remoteChunk.chunkMap k _ i ≠ none at hi
          rwa [Function.update_of_ne hik] at hi
    · refine .inl ?_
      unfold RemoteChunkList.clientRecvEvict at hi
      split at hi <;> exact hi
    · refine .inl ?_
      unfold RemoteChunkList.clientRecvStop at hi
      split at hi <;> exact hi
    · exact .inl hi
  · -- an eviction becomes pending by a `STOP` only
    rintro ⟨hstate, hshrink⟩
    unfold clientRecv at hrecv
    split at hrecv <;> try cases hrecv
    · exact .inl ⟨⟨hstate, hshrink⟩, rfl⟩
    · split at hrecv
      · obtain rfl := Option.some.inj hrecv
        exact .inl ⟨⟨hstate, hshrink⟩, rfl⟩
      · obtain rfl := Option.some.inj hrecv
        cases hstate
    · unfold RemoteChunkList.clientRecvEvict at hstate hshrink ⊢
      split at hstate
      · rename_i hsize
        rw [if_pos hsize] at hshrink
        rw [if_pos hsize]
        exact .inl ⟨⟨hstate, hshrink⟩, rfl⟩
      · cases hstate
    · rename_i htype
      unfold RemoteChunkList.clientRecvStop at hstate hshrink ⊢
      split at hshrink
      · rename_i hsize
        exact absurd hsize hshrink
      · rename_i hsize
        refine .inr ⟨by simp [isStop, htype, hsize], fun i hi => ?_⟩
        simp only [hsize, if_false] at hi
        split at hi
        · assumption
        · cases hi
    · exact .inl ⟨⟨hstate, hshrink⟩, rfl⟩

theorem NetOk.managerSend {s t : Net} (h : NetOk s) {c : ConnIx} {out : Outgoing}
    (hstep : netStep s (.managerSend c out) = some t) : NetOk t := by
  simp only [netStep] at hstep
  split at hstep
  · cases hstep
  obtain rfl := Option.some.inj hstep
  refine h.setLink fun conn hc => ?_
  have hchunks : (out.send (s.link c).cb).remoteChunk = (s.link c).cb.remoteChunk := by
    cases out <;> rfl
  have htype : (out.send (s.link c).cb).sendBuf.type = .query ∨
      (out.send (s.link c).cb).sendBuf.type = .bindSingle ∨
      (out.send (s.link c).cb).sendBuf.type = .fault := by
    cases out <;> simp [Outgoing.send, isSendQuery, isSendBindSingle, isSendFault]
  refine (h.links c conn hc).act _ (some (out.send (s.link c).cb).sendBuf) _ _ ?_ ?_ ?_ ?_
  · rw [hchunks]
    exact fun i hi => hi
  · rintro ⟨hstate, hshrink⟩
    rw [hchunks] at hstate hshrink
    exact ⟨⟨hstate, hshrink⟩, by rw [hchunks]⟩
  · rintro msg ⟨⟩
    rcases htype with ht | ht | ht <;> simp [ht]
  · rintro msg ⟨⟩ hdone
    rcases htype with ht | ht | ht <;> simp [isDone, ht] at hdone

/-- The release of the eviction thread forgets what it flags. -/
theorem finishEvict_markEvicted (sizeG : Int) (cb : KernelCb) (i : ChunkIx) :
    (finishEvict sizeG (markEvicted cb)).remoteChunk.chunkMap i =
        (if cb.remoteChunk.evictChunkMap i = .stop then none else cb.remoteChunk.chunkMap i) ∧
      ((finishEvict sizeG (markEvicted cb)).sendBuf.flagged i = true ↔
        cb.remoteChunk.evictChunkMap i = .stop) := by
  refine ⟨rfl, ?_⟩
  change ((if cb.remoteChunk.evictChunkMap i = .stop then (1 : UInt32) else 0) != 0) = true ↔ _
  split <;> simp_all

theorem NetOk.evictTurn {s t : Net} (h : NetOk s) {c : ConnIx}
    (hstep : netStep s (.evictTurn c) = some t) : NetOk t := by
  simp only [netStep] at hstep
  split at hstep
  · cases hstep
  obtain ⟨l, hturn, rfl⟩ := Option.map_eq_some_iff.mp hstep
  refine h.setLink fun conn hc => ?_
  have hok := h.links c conn hc
  unfold evictHandler at hturn
  split at hturn
  · -- the activity report
    split at hturn
    · rename_i hevict
      obtain rfl := Option.some.inj hturn
      refine hok.act _ (some (isSendActivity (s.link c).cb).sendBuf) _ _ (fun i hi => hi) ?_ ?_ ?_
      · rintro ⟨hstate, -⟩
        change (s.link c).cb.remoteChunk.cState = .stop at hstate
        rw [hevict] at hstate
        cases hstate
      · rintro msg ⟨⟩
        simp [isSendActivity]
      · rintro msg ⟨⟩ hdone
        simp [isDone, isSendActivity] at hdone
    · cases hturn
  · split at hturn
    · rename_i hstop
      simp only at hturn
      split at hturn
      · -- nothing was asked for
        obtain rfl := Option.some.inj hturn
        have hact := hok.act
          { (s.link c).cb with
            remoteChunk := { (s.link c).cb.remoteChunk with cState := .ready } }
          none .waitEvict (s.link c).failed
          (fun i hi => hi)
          (by
            rintro ⟨hstate, -⟩
            cases hstate)
          (by simp) (by simp)
        simpa using hact
      · rename_i hsize
        split at hturn
        · cases hturn
        · obtain rfl := Option.some.inj hturn
          have hpending : StopPending (s.link c).cb := ⟨hstop, hsize⟩
          refine hok.act _ (some (finishEvict _ (markEvicted (s.link c).cb)).sendBuf) _ _ ?_ ?_ ?_
            ?_
          · intro i hi
            rw [(finishEvict_markEvicted _ _ i).1] at hi
            split at hi
            · exact absurd rfl hi
            · exact hi
          · rintro ⟨hstate, -⟩
            cases hstate
          · rintro msg ⟨⟩
            simp [finishEvict, isSendDone]
          · rintro msg ⟨⟩ -
            refine ⟨hpending, ?_, fun i hi => ?_⟩
            · rintro ⟨hstate, -⟩
              cases hstate
            · have hmark := (finishEvict_markEvicted _ _ i).2.mp hi
              rw [(finishEvict_markEvicted _ _ i).1, if_pos hmark]
              exact ⟨hmark, rfl⟩
    · cases hturn

theorem NetOk.managerDisconnect {s t : Net} (h : NetOk s) {c : ConnIx}
    (hstep : netStep s (.managerDisconnect c) = some t) : NetOk t := by
  obtain rfl := Option.some.inj hstep
  refine h.setLink fun conn hc => ?_
  have hact := (h.links c conn hc).act
    { (s.link c).cb with remoteChunk := (s.link c).cb.remoteChunk.disallow.forget }
    none (s.link c).evictPc true
    (fun i hi => absurd rfl hi)
    (by
      rintro ⟨hstate, hshrink⟩
      exact ⟨⟨hstate, hshrink⟩, rfl⟩)
    (by simp) (by simp)
  simpa using hact

/-! ### Every step -/

theorem NetOk.step {s t : Net} {a : NetAction} (h : NetOk s) (hpermitted : NetPermitted s a)
    (hstep : netStep s a = some t) : NetOk t := by
  cases a with
  | connect sendBuf recvBuf cb => exact h.connect hstep
  | managerSend c out => exact h.managerSend hstep
  | monitorRecv c mr => exact h.monitorRecv hstep
  | managerRecv c => exact h.managerRecv hstep
  | evictTurn c => exact h.evictTurn hstep
  | sendEvict c n =>
      simp only [netStep] at hstep
      split at hstep
      · rename_i conn hstopping hc
        obtain rfl := Option.some.inj hstep
        have hpost := h.post hstopping hc
          { conn.sendMsg with type := .evict, sizeGb := n, rkey := fun _ => 0 } s.stopping
          (by simp) (by simp [isStop]) (by simp [isStop])
        exact hpost
      · cases hstep
  | sendStop c rkey n =>
      simp only [netStep] at hstep
      split at hstep
      · rename_i conn hstopping hc
        obtain rfl := Option.some.inj hstep
        refine h.post hstopping hc _ _ (by simp) ?_ ?_
        · intro _ i hi
          exact hpermitted i (Message.flagged_eq_true.mp hi)
        · intro hstop
          have hn : n ≠ 0 := by simpa [isStop] using hstop
          rw [if_neg hn]
      · cases hstep
  | stopReturn c => exact h.stopReturn hstep
  | expand lastFreeMemG =>
      obtain rfl := Option.some.inj hstep
      exact h.setPool (h.tables.freeMemExpand lastFreeMemG) rfl rfl
  | freeUnmapped stopG =>
      obtain rfl := Option.some.inj hstep
      obtain ⟨mallocMap, hframe, -⟩ := evictFreeUnmapped_frame stopG s.monitor
      refine h.setPool (h.tables.evictFreeUnmapped stopG) ?_ ?_ <;> rw [hframe]
  | managerDisconnect c => exact h.managerDisconnect hstep
  | monitorDisconnect c =>
      obtain ⟨m, hdestroy, rfl⟩ := Option.map_eq_some_iff.mp hstep
      obtain ⟨hnone, htables, heffect⟩ := h.tables.destroyConnection hdestroy
      refine h.update (c := c) htables heffect (fun _ _ => rfl) (fun _ _ => le_rfl) ?_
      intro conn hc
      rw [hnone] at hc
      cases hc

/-! ## Exclusive ownership -/

/-- In every state of every run, a chunk in the table of a manager whose connection
is live at the monitor is bound to that connection on both of the monitor's tables
and allocated; no chunk is in the tables of two such managers. -/
theorem exclusive_ownership (freeMemG : Int) (link : ConnIx → Link) (s : Net)
    (hrun : Reach netStep NetPermitted (netInit freeMemG link) s) :
    (∀ c conn, s.monitor.conns c = some conn →
      ∀ i, (s.link c).cb.remoteChunk.chunkMap i ≠ none →
        s.monitor.connMap i = some conn.connIndex ∧ conn.sessChunkMap i = some i ∧
          s.monitor.mallocMap i = .malloced) ∧
      ∀ c d, s.monitor.conns c ≠ none → s.monitor.conns d ≠ none →
        ∀ i, (s.link c).cb.remoteChunk.chunkMap i ≠ none →
          (s.link d).cb.remoteChunk.chunkMap i ≠ none → c = d := by
  have hok : NetOk s := hrun.invariant (netOk_init freeMemG link)
    (fun u a v hu hpermitted hstep => hu.step hpermitted hstep)
  refine ⟨?_, ?_⟩
  · intro c conn hc i hi
    have hsess := (hok.links c conn hc).held i hi
    obtain ⟨-, hown, hmalloc⟩ := hok.tables.owned c conn hc i i hsess
    rw [hok.tables.index c conn hc]
    exact ⟨hown, hsess, hmalloc⟩
  · intro c d hc hd i hci hdi
    obtain ⟨conn, hconn⟩ := Option.ne_none_iff_exists'.mp hc
    obtain ⟨other, hother⟩ := Option.ne_none_iff_exists'.mp hd
    exact hok.tables.exclusive hconn hother ((hok.links c conn hconn).held i hci)
      ((hok.links d other hother).held i hdi)

/-- A manager connects, binds a chunk, and is asked to give it back. -/
def bindAndStop : List NetAction :=
  [.connect (.plain .done 0) (.plain .done 0) blankCb, .managerRecv 0,
    .managerSend 0 (.bindSingle 5), .monitorRecv 0 (fun _ => ⟨0, 1⟩), .managerRecv 0,
    .sendStop 0 (fun i => if i = 0 then 1 else 0) 1]

/-- With the `STOP` still in flight the manager holds the chunk, and it is its own. -/
theorem exclusive_ownership_bindAndStop :
    ∃ s conn, Reach netStep NetPermitted
        (netInit 12 fun _ => ⟨[], [], blankCb, .waitEvict, false⟩) s ∧
      s.monitor.conns 0 = some conn ∧ (s.link 0).cb.remoteChunk.chunkMap 0 = some 5 ∧
      s.stopping = some 0 ∧
      s.monitor.connMap 0 = some conn.connIndex ∧ conn.sessChunkMap 0 = some 0 ∧
        s.monitor.mallocMap 0 = .malloced := by
  let start : Net := netInit 12 fun _ => ⟨[], [], blankCb, .waitEvict, false⟩
  have hrun : Reach netStep NetPermitted start
      ((runActions netStep start bindAndStop).get (by rfl)) := by
    apply reach_of_runActions (Option.some_get _).symm
    refine ⟨trivial, fun s₁ h₁ => ⟨trivial, fun s₂ h₂ => ⟨trivial, fun s₃ h₃ => ⟨trivial,
      fun s₄ h₄ => ⟨trivial, fun s₅ h₅ => ⟨?_, fun _ _ => trivial⟩⟩⟩⟩⟩⟩
    obtain rfl := Option.some.inj h₁
    obtain rfl := Option.some.inj h₂
    obtain rfl := Option.some.inj h₃
    obtain rfl := Option.some.inj h₄
    obtain rfl := Option.some.inj h₅
    intro i hi
    have hzero : i = 0 := by
      by_contra hne
      simp [hne] at hi
    subst hzero
    rfl
  have hchunk : (((runActions netStep start bindAndStop).get (by rfl)).link
      0).cb.remoteChunk.chunkMap 0 = some 5 := rfl
  refine ⟨_, _, hrun, rfl, hchunk, rfl, ?_⟩
  exact (exclusive_ownership 12 _ _ hrun).1 0 _ rfl 0 (by rw [hchunk]; simp)

end Hydra.Protocol
