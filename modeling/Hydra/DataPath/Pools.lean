/-
  DataPath/Pools.lean --- the context pools over whole runs.

  Contexts come back in four places: the last completion of a read returns all of
  them, each completion of a write its own, `IS_rdma_write` those of unmapped pieces
  and `IS_disconnect_handler` whatever is flagged in flight.  The flag stays set on
  the contexts of a read that were not posted, so the last of these returns contexts
  that are free or still in use.  Where a server is lost with nothing flagged and
  nothing outstanding, no context is ever lost or returned twice.
-/
import Hydra.DataPath.Contexts

set_option autoImplicit false

namespace Hydra.DataPath

open Hydra.Foundation Hydra.Wire Hydra.Manager

variable {Data : Type} {B : Build Data} {s s' : Path Data}

/-! ## The property -/

/-- The request has an outstanding operation and the context is one of its. -/
def Holds (s : Path Data) (c : CtxId) (r : Request Data) : Prop :=
  ∃ o ∈ s.wire, (s.ctx o.ctx).req = some r ∧ c ∈ (loan s o).held

/-- A server is lost only when none of its contexts is flagged in flight and no
operation on it is outstanding. -/
def LosesIdle (B : Build Data) (s : Path Data) : Action Data → Prop
  | .disconnect b =>
      (∀ c ∈ poolCtxs B b, (s.ctx c).inFlight = .idle) ∧ ∀ o ∈ s.wire, o.server ≠ b
  | _ => True

instance (s : Path Data) (a : Action Data) : Decidable (LosesIdle B s a) :=
  match a with
  | .disconnect _ => inferInstanceAs (Decidable (_ ∧ _))
  | .submit .. | .execute _ | .poll _ | .scan .. | .setUp _ | .bind .. | .unbind _ =>
      isTrue trivial

/-! ## The invariant -/

/-- What holds of the pools in every state reached. -/
structure PoolInv (B : Build Data) (s : Path Data) : Prop where
  orderly : Orderly (fun _ => true) s
  settled : Settled CtxId.pool (Made B s) s.ledger
  stocked : Stocked s
  owned : ∃ own, Owned own s
  serving : MapsServing s.map s.cbState
  idle : ∀ c ∈ s.scan, s.cbState c.pool.server = .fail ∧ (s.ctx c).inFlight = .idle

/-! ## Steps -/

theorem PoolInv.isRequest {r : Request Data} {fault : Nat → Bool} (h : PoolInv B s)
    (hreq : isRequest B s r fault = some s') : PoolInv B s' := by
  have hown := h.orderly.sound.free_own
  have hok : ∀ i b c, s.map i = some (b, c) → (fun _ : Nat => true) b = true := fun _ _ _ _ => rfl
  obtain ⟨hmap, hstate, -, -, hscan, -⟩ := isRequest_same hown hreq
  obtain ⟨own, howned⟩ := h.owned
  have hidle : ∀ c ∈ s'.scan, s'.cbState c.pool.server = .fail ∧ (s'.ctx c).inFlight = .idle := by
    intro c hc
    rw [hscan] at hc
    obtain ⟨hfail, hflag⟩ := h.idle c hc
    -- no piece is mapped to a lost server, so no flag of its contexts is set
    have hne : ∀ i e, s.map i = some e → e.1 ≠ c.pool.server := by
      intro i e he heq
      have hserve := h.serving i e.1 e.2 he
      rw [heq, hfail] at hserve
      rcases hserve with hserve | hserve <;> cases hserve
    rw [hstate, (isRequest_flags hown hreq hne).1]
    exact ⟨hfail, hflag⟩
  refine ⟨h.orderly.isRequest hok hreq, ?_, h.stocked.isRequest h.orderly hok hreq,
    ⟨_, howned.isRequest h.orderly hok hreq⟩, by rw [hmap, hstate]; exact h.serving, hidle⟩
  rw [made_congr (isRequest_ready hown hreq)]
  rcases isRequest_cases hown hreq with
    ⟨hw, ids, free, ht, rfl⟩ | ⟨hw, ids, free, targets, hi, rfl⟩
  · refine h.settled.issue (ht.issue_write h.orderly (fun _ _ _ _ => rfl) hw)
      h.orderly.sound.grp_lt ?_ fun c => ?_
    · rintro ⟨v, hv, hjoint⟩
      obtain ⟨c, -, rfl⟩ := List.mem_map.mp hv
      cases hjoint
    · constructor
      · exact fun hc => ⟨_, List.mem_map_of_mem hc, List.mem_singleton_self c⟩
      · rintro ⟨v, hv, hc⟩
        obtain ⟨d, hd, rfl⟩ := List.mem_map.mp hv
        rw [List.mem_singleton.mp hc]
        exact hd
  · have hlen := hi.posts_length h.orderly (fun _ _ _ _ => rfl)
    refine h.settled.issue (hi.issue h.orderly (fun _ _ _ _ => rfl) hw)
      h.orderly.sound.grp_lt ?_ fun c => ?_
    · intro _
      rw [List.length_map, List.length_map, hlen]
    · have hpos : 0 < (posts (s.place B r.slab) ids r targets).length := hlen ▸ B.ndatas_pos
      obtain ⟨o, ho⟩ := List.exists_mem_of_length_pos hpos
      constructor
      · exact fun hc => ⟨_, List.mem_map_of_mem (List.mem_map_of_mem ho), hc⟩
      · rintro ⟨v, hv, hc⟩
        obtain ⟨d, -, rfl⟩ := List.mem_map.mp hv
        exact hc

theorem PoolInv.polled {b : Nat} {o : Op} {pre post : List Op} (h : PoolInv B s)
    (hp : Polled B s s' b o pre post) : PoolInv B s' := by
  obtain ⟨own, howned⟩ := h.owned
  obtain ⟨hmap, hstate, -, -, hscan, -⟩ := hp.finished.same
  have hfin := hp.finish h.orderly
  refine ⟨hp.orderly h.orderly, ?_, h.stocked.polled h.orderly hp,
    ⟨own, howned.polled h.orderly hp⟩, by rw [hmap, hstate]; exact h.serving, ?_⟩
  · rw [made_congr hp.finished.ready]
    exact h.settled.finish hfin h.orderly.sound
  intro c hc
  rw [hscan] at hc
  obtain ⟨hfail, hflag⟩ := h.idle c hc
  refine ⟨by rw [hstate]; exact hfail, ?_⟩
  rw [hp.finished.ctx]
  by_cases heq : c = o.ctx
  · rw [heq, Function.update_self]
  · rw [Function.update_of_ne heq]
    exact hflag

theorem PoolInv.execute {b : Nat} (h : PoolInv B s) (hexec : execute s b = some s') :
    PoolInv B s' := by
  obtain ⟨own, howned⟩ := h.owned
  obtain ⟨hctx, -, -, -, -, hmap, hstate, hscan, -⟩ := execute_same hexec
  refine ⟨h.orderly.execute hexec,
    by rw [execute_ledger hexec, made_congr (execute_ready hexec)]; exact h.settled,
    h.stocked.execute hexec, ⟨own, howned.execute hexec⟩, by rw [hmap, hstate]; exact h.serving, ?_⟩
  intro c hc
  rw [hscan] at hc
  obtain ⟨buf, hbuf⟩ := hctx c
  rw [hstate, hbuf]
  exact h.idle c hc

/-- Losing a server with nothing in flight changes no pool. -/
theorem PoolInv.disconnected {b : Nat} (h : PoolInv B s) (hd : Disconnected B s s' b)
    (hidle : ∀ c ∈ poolCtxs B b, (s.ctx c).inFlight = .idle) (hnone : ∀ o ∈ s.wire, o.server ≠ b) :
    PoolInv B s' := by
  obtain ⟨own, howned⟩ := h.owned
  obtain ⟨hfree, hctx, hcount, hnext, -⟩ := hd.same
  have hwire : s'.wire = s.wire := by
    rw [hd.wire, List.filter_eq_self]
    intro o ho
    simpa using hnone o ho
  have hledger : s'.ledger = s.ledger := by
    have hloan : ∀ o, loan s' o = loan s o := fun o => loan_congr (by rw [hctx])
    simp [Path.ledger, hwire, hfree, hcount, hnext, hloan]
  refine ⟨⟨by rw [hledger]; exact h.orderly.sound, by rw [hwire]; exact h.orderly.server⟩,
    by rw [hledger, made_congr hd.ready]; exact h.settled, h.stocked.disconnected hd,
    ⟨own, howned.disconnected hd⟩, hd.serving h.serving, ?_⟩
  intro c hc
  rw [hd.cbState, hctx]
  rcases hd.mem_scan hc with hold | hnew
  · obtain ⟨hfail, hflag⟩ := h.idle c hold
    refine ⟨?_, hflag⟩
    by_cases hb : c.pool.server = b
    · rw [hb, Function.update_self]
    · rw [Function.update_of_ne hb]
      exact hfail
  · rw [(mem_poolCtxs.mp hnew).2.1, Function.update_self]
    exact ⟨rfl, hidle c hnew⟩

/-- A server that is set up serves nothing yet. -/
theorem serving_connected {map : Nat → Option (Nat × ChunkIx)} {cbState : Nat → CbState} {b : Nat}
    (h : MapsServing map cbState) (hstate : cbState b = .idle ∨ cbState b = .connected) :
    MapsServing map (Function.update cbState b .connected) := by
  intro j b' c hj
  have hserve := h j b' c hj
  have hne : b' ≠ b := by
    rintro rfl
    rcases hstate with heq | heq <;> rw [heq] at hserve <;> simp at hserve
  rw [Function.update_of_ne hne]
  exact hserve

/-- Binding and unbinding change the slab map only. -/
theorem serving_update {map : Nat → Option (Nat × ChunkIx)} {cbState : Nat → CbState}
    (h : MapsServing map cbState) (i b : Nat) (chunk : ChunkIx) :
    MapsServing (Function.update map i (some (b, chunk))) (Function.update cbState b .mapped) := by
  intro j b' c hj
  by_cases hb : b' = b
  · rw [hb, Function.update_self]
    exact Or.inl rfl
  · rw [Function.update_of_ne hb]
    by_cases hij : j = i
    · rw [hij, Function.update_self] at hj
      exact absurd (Prod.mk.inj (Option.some.inj hj)).1.symm hb
    · rw [Function.update_of_ne hij] at hj
      exact h j b' c hj

theorem serving_unbind {map : Nat → Option (Nat × ChunkIx)} {cbState : Nat → CbState}
    (h : MapsServing map cbState) (i : Nat) :
    MapsServing (Function.update map i none) cbState := by
  intro j b' c hj
  by_cases hij : j = i
  · rw [hij, Function.update_self] at hj
    cases hj
  · rw [Function.update_of_ne hij] at hj
    exact h j b' c hj

/-- Setting a server up changes no pool that was there, and its state stays one in which
nothing is mapped to it. -/
theorem PoolInv.setUp {b : Nat} (h : PoolInv B s) (hu : SetUp B s s' b) : PoolInv B s' := by
  obtain ⟨hmap, hctx, -, -, hwire, -, hscan, -⟩ := hu.same
  obtain ⟨own, howned⟩ := h.owned
  refine ⟨h.stocked.restock hu h.orderly, ?_, h.stocked.setUp hu, ⟨own, ?_⟩, ?_, ?_⟩
  · rw [hu.ledger]
    refine h.settled.restock (fun c hc => ?_) fun c => ?_
    · have hne : c.pool.server ≠ b := by
        intro heq
        have hset := h.stocked.free _ c hc
        rw [heq, hu.fresh] at hset
        cases hset
      rw [hu.free, if_neg fun hp => hne hp.1]
      exact hc
    · rw [Made, Made, hu.ready_iff, hu.free]
      split
      · rename_i hp
        rw [mem_isCtxInit]
        constructor
        · rintro ⟨hin, -⟩
          exact Or.inr ⟨rfl, hin.2.2⟩
        · rintro (⟨hin, -⟩ | ⟨-, hidx⟩)
          · exact ⟨hin, Or.inr hp.1⟩
          · exact ⟨⟨hp.2, by rw [hp.1]; exact hu.lt, hidx⟩, Or.inr hp.1⟩
      · rename_i hp
        constructor
        · rintro ⟨hin, hset | hb⟩
          · exact Or.inl ⟨hin, hset⟩
          · exact absurd ⟨hb, hin.1⟩ hp
        · rintro (⟨hin, hset⟩ | hc)
          · exact ⟨hin, Or.inl hset⟩
          · exact ⟨((h.settled.cover c).mpr (Or.inl hc)).1, Or.inl (h.stocked.free _ c hc)⟩
  · intro o ho
    rw [hwire] at ho
    rw [hctx]
    exact howned o ho
  · rw [hmap, hu.cbState]
    exact serving_connected h.serving hu.state
  · intro c hc
    rw [hscan] at hc
    obtain ⟨hfail, hflag⟩ := h.idle c hc
    rw [hu.cbState, hctx, Function.update_of_ne (hu.ne_of_fail hfail)]
    exact ⟨hfail, hflag⟩

theorem PoolInv.step {a : Action Data} (h : PoolInv B s) (hloses : LosesIdle B s a)
    (hstep : step B s a = some s') : PoolInv B s' := by
  have hstocked := h.stocked.step h.orderly (fun _ _ _ _ => rfl)
    (fun c hc hflag => by rw [(h.idle c hc).2] at hflag; cases hflag) hstep
  cases a with
  | submit r fault =>
      refine PoolInv.isRequest ?_ hstep
      exact ⟨⟨h.orderly.sound, h.orderly.server⟩, h.settled,
        ⟨h.stocked.free, h.stocked.held, h.stocked.scan, h.stocked.named⟩, h.owned, h.serving,
        h.idle⟩
  | execute b => exact h.execute hstep
  | poll b =>
      obtain ⟨o, pre, post, hp⟩ := rdmaCqEventHandler_cases hstep
      exact h.polled hp
  | disconnect b => exact h.disconnected (isDisconnectHandler_cases hstep) hloses.1 hloses.2
  | scan b fault =>
      obtain ⟨c, pre, post, -, hscan, hcase⟩ := scanCtx_cases hstep
      have hflag := (h.idle c (by rw [hscan]; simp)).2
      rcases hcase with ⟨-, rfl⟩ | ⟨hw, -⟩ | ⟨hr, -⟩
      · refine ⟨⟨h.orderly.sound, h.orderly.server⟩, h.settled, hstocked, h.owned, h.serving, ?_⟩
        intro d hd
        refine h.idle d ?_
        rw [hscan]
        rcases List.mem_append.mp hd with hd | hd
        · exact List.mem_append_left _ hd
        · exact List.mem_append_right _ (List.mem_cons_of_mem c hd)
      · rw [hflag] at hw
        cases hw
      · rw [hflag] at hr
        cases hr
  | setUp b => exact h.setUp (setUp_cases hstep)
  | bind i b chunk =>
      obtain ⟨hselect, rfl⟩ := bind_cases hstep
      refine ⟨⟨h.orderly.sound, h.orderly.server⟩, h.settled, hstocked, h.owned,
        serving_update h.serving i b chunk, ?_⟩
      intro c hc
      obtain ⟨hfail, hflag⟩ := h.idle c hc
      have hne : c.pool.server ≠ b := by
        intro heq
        rw [heq] at hfail
        rw [hfail] at hselect
        cases hselect
      exact ⟨(Function.update_of_ne hne ..).trans hfail, hflag⟩
  | unbind i =>
      obtain rfl := Option.some.inj hstep
      exact ⟨⟨h.orderly.sound, h.orderly.server⟩, h.settled, hstocked, h.owned,
        serving_unbind h.serving i, h.idle⟩

/-! ## Whole runs -/

/-- Slab 0 with a replica on each of three servers, and nothing written. -/
def threeReplicas : Path Nat :=
  pathInit (Build.rep Nat 1 4) (fun i => if i < 3 then some (i, 0) else none)
    (fun _ => .mapped) (fun _ => true) (fun _ => 0)

/-- Page 0 of slab 0, read or written. -/
def pageRequest (write : Bool) (data : Nat) : Request Nat := ⟨0, write, 0, 0, data, 0⟩

/-- No injected fault. -/
def noFault : Nat → Bool := fun _ => false

end Hydra.DataPath
