/-
  Protocol/SharedMonitors.lean --- managers that map slabs from the same monitors.

  Source: `IS_single_chunk_map` of `resilience_manager/is_main.c`, `IS_single_chunk_init`
  of `is_mq.c`, and the handlers of `QUERY` and `BIND_SINGLE` of
  `resource_monitor/rdma-common.c`.

  Any number of managers runs mapping rounds against any number of monitors.  A step is
  one request of one round together with its reply, which the manager waits for, so the
  requests of different rounds interleave arbitrarily.  Between a query and the bind that
  relies on it a monitor may give its last chunk away; it then answers `INFO_SINGLE`
  without a key, and `IS_single_chunk_init` does nothing.
-/
import Hydra.Foundation.Run
import Hydra.Manager.Selection
import Hydra.Monitor.Accounting
import Hydra.Protocol.BindSingle

set_option autoImplicit false

namespace Hydra.Protocol

open Hydra.Foundation Hydra.Wire Hydra.Monitor

/-! ## The system -/

/-- Where a manager is in `IS_single_chunk_map`: servers still to query and the entries
of `free_mem` so far; servers still to bind from position `k` on; the value returned. -/
inductive MapPc where
  | idle
  | query (selectChunk : Nat) (rest : List Nat) (entries : List (Int32 × Nat))
  | bind (selectChunk : Nat) (rest : List Nat) (k : Nat)
  | returned (selectChunk : Nat) (value : Int)
  deriving DecidableEq

/-- The monitors, the managers, and the slot of each manager's connection to each of its
servers.  `refused` notes that a bind of the round was answered without a chunk. -/
structure Shared where
  monitor : Nat → Session
  manager : Nat → Manager.Session
  slot : Nat → Nat → Option ConnIx
  pc : Nat → MapPc
  refused : Nat → Bool

/-- What can happen: a manager's round goes on, or a monitor grows or shrinks its pool. -/
inductive SharedAction where
  | start (p : Nat) (selectChunk : Nat) (random : Nat → Nat)
  | query (p : Nat) (sendBuf recvBuf : Message) (mr : ChunkIx → Mr)
  | rank (p : Nat)
  | bind (p : Nat) (mr : ChunkIx → Mr)
  | expand (a : Nat) (lastFreeMemG : Int)
  | freeUnmapped (a : Nat) (stopG : Int)

namespace Shared

def setMonitor (s : Shared) (a : Nat) (m : Session) : Shared :=
  { s with monitor := Function.update s.monitor a m }

def setManager (s : Shared) (p : Nat) (manager : Manager.Session) (pc : MapPc) : Shared :=
  { s with
    manager := Function.update s.manager p manager
    pc := Function.update s.pc p pc }

end Shared

/-- A query, or the connection made instead of it: the monitor's reply. -/
def answerQuery (a p b : Nat) (sendBuf recvBuf : Message) (mr : ChunkIx → Mr) (s : Shared) :
    Option (Shared × Int) :=
  match (s.manager p).cbStateList b with
  | .fail => some (s, 0)
  | .idle =>
      match idleSlot (s.monitor a), buildConnection sendBuf recvBuf (s.monitor a) with
      | some c, some m =>
          (m.conns c).map fun conn =>
            let r := sendFreeMemSize c conn m
            ({ s.setMonitor a r.1 with
                slot := Function.update s.slot p (Function.update (s.slot p) b (some c)) },
              r.2.sizeGb)
      | _, _ => none
  | .connected | .mapped | .evicting =>
      (s.slot p b).bind fun c =>
        (onCompletion mr c (Manager.isSendQuery ((s.manager p).cb b)).sendBuf
          (s.monitor a)).bind fun r => r.2.map fun reply => (s.setMonitor a r.1, reply.sizeGb)

/-- One step; `host p b` is the monitor at which manager `p` has its server `b`. -/
def sharedStep (cfg : Manager.Config) (host : Nat → Nat → Nat) (s : Shared) :
    SharedAction → Option Shared
  | .start p selectChunk random =>
      match s.pc p with
      | .idle | .returned _ _ =>
          (Manager.selectServers cfg (s.manager p).cbNum random (s.manager p)).map
            fun selection =>
              { s.setManager p (s.manager p)
                  (if selection.length < cfg.ndisks then .returned selectChunk (-1)
                    else .query selectChunk selection []) with
                refused := Function.update s.refused p false }
      | .query _ _ _ | .bind _ _ _ => none
  | .query p sendBuf recvBuf mr =>
      match s.pc p with
      | .query selectChunk (b :: rest) entries =>
          (answerQuery (host p b) p b sendBuf recvBuf mr s).map fun r =>
            let freeMem : Nat → Int32 := fun _ => Int32.ofInt r.2
            r.1.setManager p (Manager.queryServer freeMem (s.manager p) b)
              (.query selectChunk rest (entries ++
                [Manager.queryEntry (s.manager p).cbNum freeMem (s.manager p) b]))
      | _ => none
  | .rank p =>
      match s.pc p with
      | .query selectChunk [] entries =>
          let ranked := sortFirst (fun x y => decide (x.1 < y.1)) cfg.ndisks entries
          match ranked[cfg.ndisks - 1]? with
          | none => none
          | some last =>
              some (s.setManager p (s.manager p)
                (if last.1 = 0 then .returned selectChunk (-1)
                  else .bind selectChunk ((ranked.take cfg.ndisks).map Prod.snd) 0))
      | _ => none
  | .bind p mr =>
      match s.pc p with
      | .bind selectChunk [] _ => some (s.setManager p (s.manager p) (.returned selectChunk 0))
      | .bind selectChunk (b :: rest) k =>
          (s.slot p b).bind fun c =>
            let asked := Manager.sendBind b (selectChunk + k) (s.manager p)
            (onCompletion mr c (asked.cb b).sendBuf (s.monitor (host p b))).bind fun r =>
              r.2.bind fun reply =>
                (Manager.isSingleChunkInit cfg b reply asked).map fun manager =>
                  { (s.setMonitor (host p b) r.1).setManager p manager
                      (.bind selectChunk rest (k + 1)) with
                    refused := Function.update s.refused p
                      (s.refused p || (Manager.assignedChunk reply).isNone) }
      | _ => none
  | .expand a lastFreeMemG => some (s.setMonitor a (freeMemExpand lastFreeMemG (s.monitor a)))
  | .freeUnmapped a stopG => some (s.setMonitor a (evictFreeUnmapped stopG (s.monitor a)).1)

/-- Monitors and managers just started. -/
def sharedInit (cfg : Manager.Config) (cbNum : Nat → Nat) (freeMemG : Nat → Int) : Shared where
  monitor := fun a => rdmaSessionInit (freeMemG a)
  manager := fun p => Manager.isSessionCreate cfg (cbNum p)
  slot := fun _ _ => none
  pc := fun _ => .idle
  refused := fun _ => false

/-- The surroundings: a registered region has a key other than zero, and `free_mem` enters
its branches on their own tests. -/
def SharedPermitted (_s : Shared) : SharedAction → Prop
  | .bind _ mr => ∀ i, (mr i).rkey ≠ 0
  | .expand _ lastFreeMemG => lastFreeMemG > freeMemExpandThreshold
  | .freeUnmapped _ stopG => 0 < stopG
  | .start _ _ _ | .query _ _ _ _ | .rank _ => True

/-- A monitor asked for a chunk has one. -/
def Supplied (host : Nat → Nat → Nat) (s : Shared) : SharedAction → Prop
  | .bind p _ => ∀ selectChunk b rest k, s.pc p = .bind selectChunk (b :: rest) k →
      SingleCovered (s.monitor (host p b))
  | .start _ _ _ | .query _ _ _ _ | .rank _ | .expand _ _ | .freeUnmapped _ _ => True

/-- All pieces of the slab are mapped, to different servers. -/
structure MapsAll (cfg : Manager.Config) (s : Manager.Session) (c : Nat) : Prop where
  mapped : ∀ j < cfg.ndisks, s.cbIndexMap (c + j) ≠ none ∧ s.chunkMapCbChunk (c + j) ≠ none
  distinct : ∀ j < cfg.ndisks, ∀ k < cfg.ndisks,
    s.cbIndexMap (c + j) = s.cbIndexMap (c + k) → j = k

/-- A round that returns 0 has mapped everything and was refused nothing. -/
def RoundsMapAll (cfg : Manager.Config) (s : Shared) : Prop :=
  ∀ p c, s.pc p = .returned c 0 → MapsAll cfg (s.manager p) c ∧ s.refused p = false

/-! ## One bind -/

/-- With a free chunk the reply names one. -/
theorem sendSingleMr_assigns {mr : ChunkIx → Mr} (hkeys : ∀ i, (mr i).rkey ≠ 0) (c : ConnIx)
    (conn : Connection) (chunk : Int) {m : Session} (hfree : SingleCovered m) :
    ∃ i, Manager.assignedChunk (sendSingleMr mr c conn chunk m).2 = some i := by
  obtain ⟨i, hi⟩ := exists_firstFree (countWhere_pos_iff.mp hfree)
  exact ⟨i, assignedChunk_sendSingleMr hi (hkeys i) chunk⟩

/-- What one bind of the loop does when the reply names a chunk: that piece is mapped to
the server and the others are left alone. -/
theorem isSingleChunkInit_maps {cfg : Manager.Config} {b chunk : Nat} {msg : Message}
    {s t : Manager.Session} {i : ChunkIx} (hassigned : Manager.assignedChunk msg = some i)
    (hsize : msg.sizeGb = (chunk : Int)) (hinit : Manager.isSingleChunkInit cfg b msg s = some t) :
    t.cbIndexMap = Function.update s.cbIndexMap chunk (some b) ∧
      t.chunkMapCbChunk = Function.update s.chunkMapCbChunk chunk (some i) := by
  rw [Manager.isSingleChunkInit, hassigned, hsize] at hinit
  obtain ⟨c, hc, rfl⟩ := Option.map_eq_some_iff.mp hinit
  have hchunk : c = chunk := by
    unfold Manager.Config.chunkIndex? at hc
    split at hc
    · rw [← Option.some.inj hc, Int.toNat_natCast]
    · cases hc
  subst hchunk
  exact ⟨rfl, rfl⟩

theorem sendBind_tables (b chunk : Nat) (s : Manager.Session) :
    (Manager.sendBind b chunk s).cbIndexMap = s.cbIndexMap ∧
      (Manager.sendBind b chunk s).chunkMapCbChunk = s.chunkMapCbChunk := by
  unfold Manager.sendBind
  split <;> exact ⟨rfl, rfl⟩

theorem sendBind_live {s : Manager.Session} (chunk : Nat) (hlive : ∀ d, s.cbStateList d ≠ .fail)
    (b d : Nat) : (Manager.sendBind b chunk s).cbStateList d ≠ .fail := by
  have hstates : (Manager.sendBind b chunk s).cbStateList =
      Function.update s.cbStateList b .mapped := by
    unfold Manager.sendBind
    split <;> rfl
  rw [hstates]
  by_cases hd : d = b
  · subst hd
    simp
  · rw [Function.update_of_ne hd]
    exact hlive d

/-! ## The invariant -/

/-- The pieces from `selectChunk` on are mapped to the servers of a list, in order. -/
def BoundTo (s : Manager.Session) (selectChunk : Nat) (servers : List Nat) : Prop :=
  ∀ j b, servers[j]? = some b →
    s.cbIndexMap (selectChunk + j) = some b ∧ s.chunkMapCbChunk (selectChunk + j) ≠ none

theorem mapsAll_of_boundTo {cfg : Manager.Config} {s : Manager.Session} {selectChunk : Nat}
    {servers : List Nat} (hbound : BoundTo s selectChunk servers)
    (hlen : servers.length = cfg.ndisks) (hnodup : servers.Nodup) : MapsAll cfg s selectChunk := by
  have hserver : ∀ j < cfg.ndisks, ∃ b, servers[j]? = some b := by
    intro j hj
    rw [← hlen] at hj
    exact ⟨servers[j], List.getElem?_eq_getElem hj⟩
  refine ⟨fun j hj => ?_, fun j hj k hk heq => ?_⟩
  · obtain ⟨b, hb⟩ := hserver j hj
    rw [(hbound j b hb).1]
    exact ⟨by simp, (hbound j b hb).2⟩
  · obtain ⟨b, hb⟩ := hserver j hj
    obtain ⟨d, hd⟩ := hserver k hk
    rw [(hbound j b hb).1, (hbound k d hd).1] at heq
    obtain rfl := Option.some.inj heq
    exact (List.getElem?_inj (hlen ▸ hj) hnodup).mp (hb.trans hd.symm)

/-- A round that was refused nothing: the servers still to come are different from each
other and from those before, and the pieces bound so far are mapped. -/
def RoundOk (cfg : Manager.Config) (s : Manager.Session) (refused : Bool) : MapPc → Prop
  | .idle => True
  | .query _ rest entries =>
      refused = false ∧ (entries.map Prod.snd ++ rest).Nodup ∧
        cfg.ndisks ≤ entries.length + rest.length
  | .bind selectChunk rest k =>
      refused = false ∧ ∃ bound, bound.length = k ∧ (bound ++ rest).Nodup ∧
        (bound ++ rest).length = cfg.ndisks ∧ BoundTo s selectChunk bound
  | .returned selectChunk value => value = 0 → refused = false ∧ MapsAll cfg s selectChunk

/-- Every manager's round is sound, and no server is lost. -/
structure SharedOk (cfg : Manager.Config) (s : Shared) : Prop where
  round : ∀ p, RoundOk cfg (s.manager p) (s.refused p) (s.pc p)
  live : ∀ p b, (s.manager p).cbStateList b ≠ .fail

theorem sharedOk_init (cfg : Manager.Config) (cbNum : Nat → Nat) (freeMemG : Nat → Int) :
    SharedOk cfg (sharedInit cfg cbNum freeMemG) :=
  ⟨fun _ => trivial, fun _ _ h => by cases h⟩

/-- A step of one manager: the others are as before, and the monitors play no part. -/
theorem SharedOk.update {cfg : Manager.Config} {s t : Shared} (h : SharedOk cfg s) (p : Nat)
    (manager : Manager.Session) (pc : MapPc) (refused : Bool)
    (hmanager : t.manager = Function.update s.manager p manager)
    (hpc : t.pc = Function.update s.pc p pc)
    (hrefused : t.refused = Function.update s.refused p refused)
    (hround : RoundOk cfg manager refused pc) (hlive : ∀ b, manager.cbStateList b ≠ .fail) :
    SharedOk cfg t := by
  refine ⟨fun q => ?_, fun q => ?_⟩
  · rw [hmanager, hpc, hrefused]
    by_cases hq : q = p
    · subst hq
      simp only [Function.update_self]
      exact hround
    · simp only [Function.update_of_ne hq]
      exact h.round q
  · rw [hmanager]
    by_cases hq : q = p
    · subst hq
      rw [Function.update_self]
      exact hlive
    · rw [Function.update_of_ne hq]
      exact h.live q

/-- A monitor changed and nothing else. -/
theorem SharedOk.setMonitor {cfg : Manager.Config} {s : Shared} (h : SharedOk cfg s) (a : Nat)
    (m : Session) : SharedOk cfg (s.setMonitor a m) := ⟨h.round, h.live⟩

/-! ## Steps -/

theorem SharedOk.start {cfg : Manager.Config} {host : Nat → Nat → Nat} {s t : Shared}
    {p selectChunk : Nat} {random : Nat → Nat} (h : SharedOk cfg s)
    (hstep : sharedStep cfg host s (.start p selectChunk random) = some t) : SharedOk cfg t := by
  have hbegin : ∀ selection,
      Manager.selectServers cfg (s.manager p).cbNum random (s.manager p) = some selection →
      RoundOk cfg (s.manager p) false
        (if selection.length < cfg.ndisks then .returned selectChunk (-1)
          else .query selectChunk selection []) := by
    intro selection hselect
    obtain ⟨l, hl, hselected⟩ := Manager.selectServers_spec cfg random (s.manager p)
    obtain rfl := Option.some.inj (hselect.symm.trans hl)
    split
    · intro hzero
      cases hzero
    · rename_i hlen
      exact ⟨rfl, hselected.nodup, by simpa using hlen⟩
  simp only [sharedStep] at hstep
  split at hstep
  case h_3 => cases hstep
  case h_4 => cases hstep
  all_goals
    obtain ⟨selection, hselect, rfl⟩ := Option.map_eq_some_iff.mp hstep
    exact h.update p _ _ _ rfl rfl rfl (hbegin selection hselect) (h.live p)

/-- Answering a query changes monitors and slots only. -/
theorem answerQuery_frame {a p b : Nat} {sendBuf recvBuf : Message} {mr : ChunkIx → Mr}
    {s : Shared} {r : Shared × Int} (hanswer : answerQuery a p b sendBuf recvBuf mr s = some r) :
    r.1.manager = s.manager ∧ r.1.pc = s.pc ∧ r.1.refused = s.refused := by
  unfold answerQuery at hanswer
  split at hanswer
  · obtain rfl := Option.some.inj hanswer
    exact ⟨rfl, rfl, rfl⟩
  · split at hanswer
    · obtain ⟨conn, -, rfl⟩ := Option.map_eq_some_iff.mp hanswer
      exact ⟨rfl, rfl, rfl⟩
    · cases hanswer
  all_goals
    obtain ⟨c, -, hrest⟩ := Option.bind_eq_some_iff.mp hanswer
    obtain ⟨m, -, hreply⟩ := Option.bind_eq_some_iff.mp hrest
    obtain ⟨reply, -, rfl⟩ := Option.map_eq_some_iff.mp hreply
    exact ⟨rfl, rfl, rfl⟩

theorem queryServer_live {freeMem : Nat → Int32} {s : Manager.Session} (b : Nat)
    (hlive : ∀ d, s.cbStateList d ≠ .fail) (d : Nat) :
    (Manager.queryServer freeMem s b).cbStateList d ≠ .fail := by
  unfold Manager.queryServer
  split
  · exact hlive d
  · simp only [Manager.Session.setState, Manager.Session.putCb]
    by_cases hd : d = b
    · subst hd
      simp
    · rw [Function.update_of_ne hd]
      exact hlive d
  all_goals exact hlive d

theorem SharedOk.query {cfg : Manager.Config} {host : Nat → Nat → Nat} {s t : Shared} {p : Nat}
    {sendBuf recvBuf : Message} {mr : ChunkIx → Mr} (h : SharedOk cfg s)
    (hstep : sharedStep cfg host s (.query p sendBuf recvBuf mr) = some t) : SharedOk cfg t := by
  simp only [sharedStep] at hstep
  split at hstep
  case h_2 => cases hstep
  rename_i selectChunk b rest entries hpc
  obtain ⟨r, hanswer, rfl⟩ := Option.map_eq_some_iff.mp hstep
  obtain ⟨hmanager, hpcs, hrefuseds⟩ := answerQuery_frame hanswer
  have hround := h.round p
  rw [hpc] at hround
  obtain ⟨hrefused, hnodup, hlen⟩ := hround
  refine h.update p (Manager.queryServer (fun _ => Int32.ofInt r.2) (s.manager p) b)
    (.query selectChunk rest (entries ++
      [Manager.queryEntry (s.manager p).cbNum (fun _ => Int32.ofInt r.2) (s.manager p) b]))
    (s.refused p) ?_ ?_ ?_ ⟨hrefused, ?_, ?_⟩ (queryServer_live b (h.live p))
  · simp only [Shared.setManager, hmanager]
  · simp only [Shared.setManager, hpcs]
  · rw [Function.update_eq_self]
    exact hrefuseds
  · rw [List.map_append, List.append_assoc]
    simpa [Manager.queryEntry, h.live p b] using hnodup
  · simp only [List.length_append, List.length_cons, List.length_nil] at hlen ⊢
    omega

theorem SharedOk.rank {cfg : Manager.Config} {host : Nat → Nat → Nat} {s t : Shared} {p : Nat}
    (h : SharedOk cfg s) (hstep : sharedStep cfg host s (.rank p) = some t) : SharedOk cfg t := by
  simp only [sharedStep] at hstep
  split at hstep
  case h_2 => cases hstep
  rename_i selectChunk entries hpc
  have hround := h.round p
  rw [hpc] at hround
  obtain ⟨hrefused, hnodup, hlen⟩ := hround
  split at hstep
  · cases hstep
  obtain rfl := Option.some.inj hstep
  refine h.update p _ _ _ rfl rfl (Function.update_eq_self p _).symm ?_ (h.live p)
  split
  · intro hzero
    cases hzero
  · have hperm := sortFirst_perm (fun (x y : Int32 × Nat) => decide (x.1 < y.1)) cfg.ndisks entries
    rw [List.append_nil] at hnodup
    refine ⟨hrefused, [], rfl, ?_, ?_, fun j b hb => by simp at hb⟩
    · rw [List.nil_append, List.map_take]
      exact ((hperm.map Prod.snd).nodup_iff.mpr hnodup).sublist (List.take_sublist _ _)
    · rw [List.nil_append, List.length_map, List.length_take, hperm.length_eq]
      rw [List.length_nil] at hlen
      omega

theorem SharedOk.bind {cfg : Manager.Config} {host : Nat → Nat → Nat} {s t : Shared} {p : Nat}
    {mr : ChunkIx → Mr} (h : SharedOk cfg s) (hkeys : ∀ i, (mr i).rkey ≠ 0)
    (hsupplied : Supplied host s (.bind p mr))
    (hstep : sharedStep cfg host s (.bind p mr) = some t) : SharedOk cfg t := by
  have hround := h.round p
  simp only [sharedStep] at hstep
  split at hstep
  case h_3 => cases hstep
  · -- the loop is over
    rename_i selectChunk k hpc
    rw [hpc] at hround
    obtain ⟨hrefused, bound, -, hnodup, hlen, hbound⟩ := hround
    rw [List.append_nil] at hnodup hlen
    obtain rfl := Option.some.inj hstep
    exact h.update p _ _ _ rfl rfl (Function.update_eq_self p _).symm
      (fun _ => ⟨hrefused, mapsAll_of_boundTo hbound hlen hnodup⟩) (h.live p)
  · rename_i selectChunk b rest k hpc
    rw [hpc] at hround
    obtain ⟨hrefused, bound, hk, hnodup, hlen, hbound⟩ := hround
    obtain ⟨c, -, hrest⟩ := Option.bind_eq_some_iff.mp hstep
    obtain ⟨r, hrecv, hrest⟩ := Option.bind_eq_some_iff.mp hrest
    obtain ⟨reply, hreply, hrest⟩ := Option.bind_eq_some_iff.mp hrest
    obtain ⟨manager, hinit, rfl⟩ := Option.map_eq_some_iff.mp hrest
    obtain ⟨htype, hsize⟩ := sendBind_sendBuf b (selectChunk + k) (s.manager p)
    -- the monitor has a chunk, so the reply names one
    obtain ⟨conn, -, conn', -, hcases⟩ := onCompletion_cases hrecv
    have heq : reply = (sendSingleMr mr c conn' (selectChunk + k : Nat)
        (s.monitor (host p b))).2 := by
      simp only [htype, hsize, hreply, reduceCtorEq, false_and, false_or, or_false, true_and,
        Option.some.injEq] at hcases
      exact hcases.2
    obtain ⟨i, hassigned⟩ := sendSingleMr_assigns hkeys c conn' (selectChunk + k : Nat)
      (hsupplied selectChunk b rest k hpc)
    rw [← heq] at hassigned
    have hasked : reply.sizeGb = ((selectChunk + k : Nat) : Int) := by
      rw [heq]
      exact sendSingleMr_sizeGb ..
    obtain ⟨hindex, hchunk⟩ := isSingleChunkInit_maps hassigned hasked hinit
    obtain ⟨hindex', hchunk'⟩ := sendBind_tables b (selectChunk + k) (s.manager p)
    rw [hindex'] at hindex
    rw [hchunk'] at hchunk
    refine h.update p _ _ _ rfl rfl rfl ⟨?_, bound ++ [b], ?_, ?_, ?_, fun j d hd => ?_⟩ fun d => ?_
    · rw [hrefused, hassigned]
      rfl
    · rw [List.length_append, hk]
      rfl
    · rw [List.append_assoc]
      exact hnodup
    · rw [List.append_assoc]
      exact hlen
    · rw [hindex, hchunk]
      by_cases hj : j = k
      · subst hj
        rw [← hk, List.getElem?_append_right (le_refl _), Nat.sub_self] at hd
        obtain rfl := Option.some.inj hd
        simp
      · have hlt : j < bound.length := by
          have hin := (List.getElem?_eq_some_iff.mp hd).1
          rw [List.length_append, List.length_singleton] at hin
          omega
        rw [List.getElem?_append_left hlt] at hd
        rw [Function.update_of_ne (by omega), Function.update_of_ne (by omega)]
        exact hbound j d hd
    · rw [Manager.isSingleChunkInit_cbStateList hinit]
      exact sendBind_live (selectChunk + k) (h.live p) b d

theorem SharedOk.step {cfg : Manager.Config} {host : Nat → Nat → Nat} {s t : Shared}
    {a : SharedAction} (h : SharedOk cfg s) (hpermitted : SharedPermitted s a)
    (hsupplied : Supplied host s a) (hstep : sharedStep cfg host s a = some t) :
    SharedOk cfg t := by
  cases a with
  | start p selectChunk random => exact h.start hstep
  | query p sendBuf recvBuf mr => exact h.query hstep
  | rank p => exact h.rank hstep
  | bind p mr => exact h.bind hpermitted hsupplied hstep
  | expand a lastFreeMemG =>
      obtain rfl := Option.some.inj hstep
      exact h.setMonitor a _
  | freeUnmapped a stopG =>
      obtain rfl := Option.some.inj hstep
      exact h.setMonitor a _

/-- In every run in which each monitor asked for a chunk has one, a round that returns 0
has mapped every piece of its slab, to different servers. -/
theorem mapping_round_maps_all (cfg : Manager.Config) (host : Nat → Nat → Nat)
    (cbNum : Nat → Nat) (freeMemG : Nat → Int) (s : Shared)
    (hrun : Reach (sharedStep cfg host) (fun s a => SharedPermitted s a ∧ Supplied host s a)
      (sharedInit cfg cbNum freeMemG) s) : RoundsMapAll cfg s := by
  have hok : SharedOk cfg s := hrun.invariant (sharedOk_init cfg cbNum freeMemG)
    (fun u a v hu hguard hstep => hu.step hguard.1 hguard.2 hstep)
  intro p c hreturned
  have hround := hok.round p
  rw [hreturned] at hround
  exact ⟨(hround rfl).2, (hround rfl).1⟩

instance (s : Shared) (a : SharedAction) : Decidable (SharedPermitted s a) :=
  match a with
  | .bind _ mr => inferInstanceAs (Decidable (∀ i, (mr i).rkey ≠ 0))
  | .expand _ lastFreeMemG => inferInstanceAs (Decidable (lastFreeMemG > freeMemExpandThreshold))
  | .freeUnmapped _ stopG => inferInstanceAs (Decidable (0 < stopG))
  | .start _ _ _ | .query _ _ _ _ | .rank _ => isTrue trivial

instance (host : Nat → Nat → Nat) (s : Shared) (a : SharedAction) : Decidable (Supplied host s a) :=
  match a with
  | .bind p mr =>
      match hpc : s.pc p with
      | .bind _ (b :: _) _ =>
          decidable_of_iff (0 < (s.monitor (host p b)).freeCount)
            ⟨fun hfree _ _ _ _ heq => by
              rw [hpc] at heq
              obtain ⟨-, hservers, -⟩ := MapPc.bind.inj heq
              obtain ⟨rfl, -⟩ := List.cons.inj hservers
              exact hfree, fun h => h _ _ _ _ hpc⟩
      | .bind _ [] _ | .idle | .query _ _ _ | .returned _ _ =>
          isTrue fun _ _ _ _ heq => by
            rw [hpc] at heq
            simp at heq
  | .start _ _ _ | .query _ _ _ _ | .rank _ | .expand _ _ | .freeUnmapped _ _ => isTrue trivial

/-- The queries of a first round with three servers, up to the ranking. -/
def asks (p : Nat) : List SharedAction :=
  .start p 0 (fun _ => 0) ::
    List.replicate 3 (.query p (.plain .done 0) (.plain .done 0) fun _ => ⟨0, 1⟩) ++ [.rank p]

/-- Its binds, and the return. -/
def takes (p : Nat) : List SharedAction := List.replicate 4 (.bind p fun _ => ⟨0, 1⟩)

/-- Two managers of three servers each, with the same three monitors. -/
def twoManagers (freeMemG : Int) (actions : List SharedAction) : Option Shared :=
  runActions (sharedStep .rep fun _ b => b) (sharedInit .rep (fun _ => 3) fun _ => freeMemG)
    actions

/-- With two chunks at each monitor there is enough for both rounds. -/
theorem mapping_round_maps_all_twoManagers :
    ∃ s, twoManagers 12 (asks 0 ++ asks 1 ++ takes 0 ++ takes 1) = some s ∧
      s.pc 0 = .returned 0 0 ∧ s.pc 1 = .returned 0 0 ∧ RoundsMapAll .rep s := by
  have hrun : ((twoManagers 12 (asks 0 ++ asks 1 ++ takes 0 ++ takes 1)).map fun s =>
      (s.pc 0, s.pc 1)) = some (.returned 0 0, .returned 0 0) := by
    decide +kernel
  have hmeet : AllMeet (sharedStep .rep fun _ b => b)
      (fun s a => SharedPermitted s a ∧ Supplied (fun _ b => b) s a)
      (sharedInit .rep (fun _ => 3) fun _ => 12) (asks 0 ++ asks 1 ++ takes 0 ++ takes 1) := by
    decide +kernel
  obtain ⟨s, hs, heq⟩ := Option.map_eq_some_iff.mp hrun
  obtain ⟨hfirst, hsecond⟩ := Prod.mk.inj heq
  exact ⟨s, hs, hfirst, hsecond, mapping_round_maps_all .rep (fun _ b => b) (fun _ => 3)
    (fun _ => 12) s (reach_of_runActions hs hmeet)⟩

/-- With one chunk at each monitor both managers see it, the first binds it, and the
round of the second returns 0 with nothing mapped. -/
theorem mapping_round_maps_nothing :
    ∃ s, Reach (sharedStep .rep fun _ b => b) SharedPermitted
        (sharedInit .rep (fun _ => 3) fun _ => 11) s ∧
      s.pc 1 = .returned 0 0 ∧ s.refused 1 = true ∧ (s.manager 1).cbIndexMap 0 = none ∧
      ¬ RoundsMapAll .rep s := by
  have hrun : ((twoManagers 11 (asks 0 ++ asks 1 ++ takes 0 ++ takes 1)).map fun s =>
      (s.pc 1, s.refused 1, (s.manager 1).cbIndexMap 0)) =
        some (.returned 0 0, true, none) := by
    decide +kernel
  have hmeet : AllMeet (sharedStep .rep fun _ b => b) SharedPermitted
      (sharedInit .rep (fun _ => 3) fun _ => 11) (asks 0 ++ asks 1 ++ takes 0 ++ takes 1) := by
    decide +kernel
  obtain ⟨s, hs, heq⟩ := Option.map_eq_some_iff.mp hrun
  obtain ⟨hpc, hrest⟩ := Prod.mk.inj heq
  obtain ⟨hrefused, hnone⟩ := Prod.mk.inj hrest
  refine ⟨s, reach_of_runActions hs hmeet, hpc, hrefused, hnone, fun hall => ?_⟩
  exact ((hall 1 0 hpc).1.mapped 0 (by decide)).1 hnone

end Hydra.Protocol
