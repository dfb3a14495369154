/-
  DataPath/Completion.lean --- how often a request ends.

  A request ends when the countdown of one of its issues does.  An issue whose
  operations are cancelled may never get there, and a read the disconnect handler
  issues again has a countdown of its own.  What is conserved is the number of ways
  a request can still end or has ended: one for each end, for each countdown that
  will still end, and for each flagged context a disconnect handler has yet to see.
-/
import Hydra.DataPath.Pools

set_option autoImplicit false

namespace Hydra.DataPath

open Hydra.Foundation Hydra.Wire Hydra.Manager

variable {Data : Type} {B : Build Data} {s s' : Path Data}

/-! ## The property -/

/-- The event ends the request with this number. -/
def Event.ends (id : Nat) : Event Data → Bool
  | .submit _ => false
  | .endWrite r => decide (r.id = id)
  | .endRead r _ _ _ => decide (r.id = id)

/-- How often `blk_mq_end_request` has been called for a request. -/
def ended (s : Path Data) (id : Nat) : Nat := s.trace.countP (Event.ends id)

/-- No request ends twice, and one of which nothing is outstanding any more has ended,
once the disconnect handlers are through. -/
structure ExactlyOnce (s : Path Data) : Prop where
  atMost : ∀ id, ended s id ≤ 1
  atLeast : ∀ id, id < s.nextReq → s.scan = [] →
    (∀ o ∈ s.wire, ∀ r, (s.ctx o.ctx).req = some r → r.id ≠ id) → ended s id = 1

/-- The contexts of a server that are flagged as reads in flight. -/
def flagged (B : Build Data) (s : Path Data) (b : Nat) : List CtxId :=
  (poolCtxs B b).filter fun c => decide ((s.ctx c).inFlight = .read)

/-- The operations of one countdown outstanding on other servers. -/
def elsewhere (s : Path Data) (b cnt : Nat) : Nat :=
  s.wire.countP fun o => !decide (o.server = b) && decide ((s.ctx o.ctx).cnt = cnt)

/-- When a server may be lost: each flagged context is that of a read outstanding there
whose countdown can still end, no two are of one request, and no write needs the
server to end. -/
structure LosesCleanly (B : Build Data) (s : Path Data) (b : Nat) : Prop where
  posted : ∀ c ∈ flagged B s b, s.count (s.ctx c).cnt ≤ s.ledger.outstanding (s.ctx c).cnt ∧
    ∃ o ∈ s.wire, o.server = b ∧ o.ctx = c ∧ o.write = false
  apart : (flagged B s b).Pairwise fun c c' =>
    (s.ctx c).req.map Request.id ≠ (s.ctx c').req.map Request.id
  writes : ∀ o ∈ s.wire, o.server = b → o.write = true →
    s.count (s.ctx o.ctx).cnt ≤ elsewhere s b (s.ctx o.ctx).cnt

/-- The pieces of a slab that are mapped. -/
def mappedPieces (B : Build Data) (s : Path Data) (slab : Nat) : List Nat :=
  (List.range B.ndisks).filter fun i => (s.place B slab i).isSome

/-- Requests have what they need when they are issued, by `IS_request` or again by a
disconnect handler, writes enough pieces mapped, and servers are lost cleanly. -/
def EndsOnce (B : Build Data) (s : Path Data) : Action Data → Prop
  | .submit r fault => Served B s r fault ∧
      (r.write = true → B.ndatas ≤ (mappedPieces B s r.slab).length)
  | .disconnect b => LosesCleanly B s b
  | .scan b fault => ∀ r ∈ nextRetry s b, Served B (retryPath s b) r fault
  | _ => True

instance (s : Path Data) (b : Nat) : Decidable (LosesCleanly B s b) :=
  decidable_of_iff
    ((∀ c ∈ flagged B s b, s.count (s.ctx c).cnt ≤ s.ledger.outstanding (s.ctx c).cnt ∧
        ∃ o ∈ s.wire, o.server = b ∧ o.ctx = c ∧ o.write = false) ∧
      ((flagged B s b).Pairwise fun c c' =>
        (s.ctx c).req.map Request.id ≠ (s.ctx c').req.map Request.id) ∧
      ∀ o ∈ s.wire, o.server = b → o.write = true →
        s.count (s.ctx o.ctx).cnt ≤ elsewhere s b (s.ctx o.ctx).cnt)
    ⟨fun h => ⟨h.1, h.2.1, h.2.2⟩, fun h => ⟨h.posted, h.apart, h.writes⟩⟩

instance (s : Path Data) (a : Action Data) : Decidable (EndsOnce B s a) :=
  match a with
  | .submit r fault => inferInstanceAs (Decidable (Served B s r fault ∧ (_ → _)))
  | .disconnect b => inferInstanceAs (Decidable (LosesCleanly B s b))
  | .scan b fault => inferInstanceAs
      (Decidable (∀ r ∈ nextRetry s b, Served B (retryPath s b) r fault))
  | .execute _ | .poll _ | .setUp _ | .bind .. | .unbind _ => isTrue trivial

/-! ## The invariant -/

/-- The servers that have not been lost. -/
def live (s : Path Data) (b : Nat) : Bool := !decide (s.cbState b = .fail)

/-- A disconnect handler is going to issue the request of this context again. -/
def awaits (s : Path Data) (id : Nat) (c : CtxId) : Bool :=
  decide ((s.ctx c).inFlight = .read ∧ (s.ctx c).req.map Request.id = some id)

/-- The ways a request has ended or can still end. -/
def chances (own : Nat → Request Data) (s : Path Data) (id : Nat) : Nat :=
  ended s id + s.ledger.dueFor (fun g => (own g).id) id + s.scan.countP (awaits s id)

/-- What holds of the operations in every state reached. -/
structure Tracked (B : Build Data) (own : Nat → Request Data) (s : Path Data) : Prop where
  orderly : Orderly (live s) s
  owned : Owned own s
  serving : MapsServing s.map s.cbState
  busy : ∀ o ∈ s.wire, s.cbState o.server ≠ .idle ∧ s.cbState o.server ≠ .connected
  posted : ∀ o ∈ s.wire, o.ctx ∈ poolCtxs B o.server
  held : ∀ o ∈ s.wire, ∀ c ∈ (loan s o).held, c ∈ poolCtxs B c.pool.server
  range : ∀ p c, c ∈ s.free p → c ∈ poolCtxs B c.pool.server
  flag : ∀ o ∈ s.wire, o.write = false → (s.ctx o.ctx).inFlight = .read
  lost : ∀ c ∈ s.scan, s.cbState c.pool.server = .fail ∧ c ∈ poolCtxs B c.pool.server
  retry : ∀ c ∈ s.scan, (s.ctx c).inFlight = .read →
    ∀ r, (s.ctx c).req = some r → r.write = false

/-- Each request has one chance to end, or has used it. -/
structure CompletionInv (B : Build Data) (own : Nat → Request Data) (s : Path Data) : Prop where
  tracked : Tracked B own s
  stocked : Stocked s
  once : ∀ id, chances own s id = if id < s.nextReq then 1 else 0

theorem CompletionInv.exactlyOnce {own : Nat → Request Data} (h : CompletionInv B own s) :
    ExactlyOnce s where
  atMost := by
    intro id
    have honce := h.once id
    rw [chances] at honce
    split at honce <;> omega
  atLeast := by
    intro id hid hscan hnone
    have honce := h.once id
    rw [chances, if_pos hid, hscan] at honce
    have hdue : s.ledger.dueFor (fun g => (own g).id) id = 0 := by
      rw [Ledger.dueFor, List.countP_eq_zero]
      intro g _ hg
      obtain ⟨hown, hdue⟩ := of_decide_eq_true hg
      obtain ⟨v, hv, hgrp⟩ := hdue.exists_loan
      obtain ⟨o, ho, rfl⟩ := List.mem_map.mp hv
      refine hnone o ho _ (h.tracked.owned o ho).1 ?_
      rw [show (s.ctx o.ctx).cnt = g from hgrp]
      exact hown
    simpa [hdue] using honce

/-! ## Issuing -/

theorem live_eq_true {b : Nat} : live s b = true ↔ s.cbState b ≠ .fail := by
  simp [live]

theorem live_congr (hstate : s'.cbState = s.cbState) : live s' = live s := by
  funext b
  simp [live, hstate]

theorem MapsServing.ne_fail {map : Nat → Option (Nat × ChunkIx)} {cbState : Nat → CbState}
    (h : MapsServing map cbState) {i : Nat} {e : Nat × ChunkIx} (hi : map i = some e) :
    cbState e.1 ≠ .fail ∧ cbState e.1 ≠ .idle ∧ cbState e.1 ≠ .connected := by
  rcases h i e.1 e.2 hi with hs | hs <;> simp [hs]

namespace Tracked

variable {own : Nat → Request Data}

theorem ranged (h : Tracked B own s) : Ranged B s := ⟨h.posted, h.held, h.range⟩

/-- No piece of a slab is mapped to a server whose contexts are being looked at. -/
theorem map_ne_of_scan (h : Tracked B own s) {c : CtxId} (hc : c ∈ s.scan) :
    ∀ i e, s.map i = some e → e.1 ≠ c.pool.server := by
  intro i e he heq
  refine (h.serving.ne_fail he).1 ?_
  rw [heq]
  exact (h.lost c hc).1

theorem place_live (h : Tracked B own s) :
    ∀ i b c, s.map i = some (b, c) → live s b = true := by
  intro i b c hi
  rw [live_eq_true]
  exact (h.serving.ne_fail hi).1

theorem scan_dead (h : Tracked B own s) : ∀ c ∈ s.scan, live s c.pool.server = false := by
  intro c hc
  simp [live, (h.lost c hc).1]

theorem isRequest {r : Request Data} {fault : Nat → Bool} (h : Tracked B own s)
    (hreq : isRequest B s r fault = some s') :
    Tracked B (Function.update own s.nextCount r) s' := by
  have hown := h.orderly.sound.free_own
  obtain ⟨hmap, hstate, -, -, hscan, -⟩ := isRequest_same hown hreq
  have hlive : live s' = live s := live_congr hstate
  have hplace : ∀ i b c, s.place B r.slab i = some (b, c) → live s b = true :=
    fun i b c hi => h.place_live _ b c hi
  have horderly : Orderly (live s') s' := by
    rw [hlive]
    exact h.orderly.isRequest h.place_live hreq
  have howned := h.owned.isRequest h.orderly h.place_live hreq
  have hserving : MapsServing s'.map s'.cbState := by
    rw [hmap, hstate]
    exact h.serving
  have hlost : ∀ c ∈ s'.scan, s'.cbState c.pool.server = .fail ∧
      c ∈ poolCtxs B c.pool.server := by
    rw [hscan, hstate]
    exact h.lost
  have hretry : ∀ c ∈ s'.scan, (s'.ctx c).inFlight = .read →
      ∀ r, (s'.ctx c).req = some r → r.write = false := by
    intro c hc
    rw [hscan] at hc
    obtain ⟨hflag, hr⟩ := isRequest_flags hown hreq (h.map_ne_of_scan hc)
    rw [hflag, hr]
    exact h.retry c hc
  have hkeep := fun o (ho : o ∈ s.wire) => isTransferChunk_ctx h.orderly hreq ho
  have hranged := h.ranged.isTransferChunk h.orderly hplace hreq
  have hserves : ∀ ids pieces, ∀ o ∈ posts (s.place B r.slab) ids r pieces,
      s.cbState o.server ≠ .idle ∧ s.cbState o.server ≠ .connected := by
    intro ids pieces o ho
    obtain ⟨i, -, e, c, he, -, rfl⟩ := mem_posts.mp ho
    exact (h.serving.ne_fail he).2
  rcases isRequest_cases hown hreq with
    ⟨hw, ids, free, ht, rfl⟩ | ⟨hw, ids, free, targets, hi, rfl⟩
  · refine ⟨horderly, howned, hserving, ?_, hranged.posted, hranged.held, hranged.range, ?_, hlost,
      hretry⟩
    · intro o ho
      exact (List.mem_append.mp ho).elim (h.busy o) (hserves _ _ o)
    · intro o ho hread
      rcases List.mem_append.mp ho with ho | ho
      · rw [hkeep o ho]
        exact h.flag o ho hread
      · obtain ⟨i, -, e, c, -, -, rfl⟩ := mem_posts.mp ho
        rw [show r.write = false from hread] at hw
        cases hw
  · refine ⟨horderly, howned, hserving, ?_, hranged.posted, hranged.held, hranged.range, ?_, hlost,
      hretry⟩
    · intro o ho
      exact (List.mem_append.mp ho).elim (h.busy o) (hserves _ _ o)
    · intro o ho hread
      rcases List.mem_append.mp ho with ho | ho
      · rw [hkeep o ho]
        exact h.flag o ho hread
      · rw [hi.ctx_of_mem_posts h.orderly hplace ho]

/-- A write posts one operation for each mapped piece. -/
theorem posts_range_length {r : Request Data} {ids : List CtxId} {free : Pool → List CtxId}
    (ht : Taken B s r (s.place B r.slab) ids free) :
    (posts (s.place B r.slab) ids r (List.range B.ndisks)).length =
      (mappedPieces B s r.slab).length := by
  rw [posts, List.length_filterMap_eq_countP, mappedPieces, ← List.countP_eq_length_filter]
  refine List.countP_congr fun i hi => ?_
  have hlt : i < ids.length := by
    rw [ht.length]
    exact List.mem_range.mp hi
  cases hplace : s.place B r.slab i with
  | none => simp
  | some e => simp [List.getElem?_eq_getElem hlt]

/-- An issue gives its request one more chance to end. -/
theorem chances_isRequest {r : Request Data} {fault : Nat → Bool} (h : Tracked B own s)
    (hreq : DataPath.isRequest B s r fault = some s')
    (henough : r.write = true → B.ndatas ≤ (mappedPieces B s r.slab).length) (id : Nat) :
    chances (Function.update own s.nextCount r) s' id =
      chances own s id + if r.id = id then 1 else 0 := by
  have hown := h.orderly.sound.free_own
  obtain ⟨-, -, -, -, hscan, -, htrace, -⟩ := isRequest_same hown hreq
  have hplace : ∀ i b c, s.place B r.slab i = some (b, c) → live s b = true :=
    fun i b c hi => h.place_live _ b c hi
  have howner : (fun g => (Function.update own s.nextCount r g).id) =
      Function.update (fun g => (own g).id) s.nextCount r.id := by
    funext g
    by_cases hg : g = s.nextCount
    · simp [hg]
    · simp [Function.update_of_ne hg]
  have hended : ended s' id = ended s id := by rw [ended, ended, htrace]
  have hawaits : s'.scan.countP (awaits s' id) = s.scan.countP (awaits s id) := by
    rw [hscan]
    refine List.countP_congr fun c hc => ?_
    obtain ⟨hflag, hr⟩ := isRequest_flags hown hreq (h.map_ne_of_scan hc)
    simp [awaits, hflag, hr]
  have hdue : s'.ledger.dueFor (fun g => (Function.update own s.nextCount r g).id) id =
      s.ledger.dueFor (fun g => (own g).id) id + if r.id = id then 1 else 0 := by
    rw [howner]
    rcases isRequest_cases hown hreq with
      ⟨hw, ids, free, ht, rfl⟩ | ⟨hw, ids, free, targets, hi, rfl⟩
    · refine (ht.issue_write h.orderly hplace hw).dueFor h.orderly.sound.grp_lt B.ndatas_pos ?_ _ _
      rw [List.length_map, List.length_map, posts_range_length ht]
      exact henough hw
    · refine (hi.issue h.orderly hplace hw).dueFor h.orderly.sound.grp_lt B.ndatas_pos ?_ _ _
      rw [List.length_map, List.length_map, hi.posts_length h.orderly hplace]
  rw [chances, chances, hended, hawaits, hdue]
  omega

/-! ## Completions -/

variable {b : Nat} {o : Op} {pre post : List Op}

/-- A context being looked at is not that of an outstanding operation. -/
theorem scan_ctx_ne (h : Tracked B own s) {c : CtxId} (hc : c ∈ s.scan) (ho : o ∈ s.wire) :
    c ≠ o.ctx := by
  rintro rfl
  have hlive := h.orderly.server_ok ho
  rw [live_eq_true, ← h.orderly.server o ho] at hlive
  exact hlive (h.lost _ hc).1

theorem polled (h : Tracked B own s) (hp : Polled B s s' b o pre post) : Tracked B own s' := by
  obtain ⟨hmap, hstate, -, -, hscan, -⟩ := hp.finished.same
  have hlive : live s' = live s := live_congr hstate
  have hkeep : ∀ o' ∈ s'.wire, s'.ctx o'.ctx = s.ctx o'.ctx :=
    fun o' ho' => hp.ctx_eq (hp.ctx_ne h.orderly ho')
  have hranged := h.ranged.polled h.orderly hp
  refine ⟨by rw [hlive]; exact hp.orderly h.orderly, h.owned.polled h.orderly hp,
    by rw [hmap, hstate]; exact h.serving, ?_, hranged.posted, hranged.held, hranged.range, ?_, ?_,
    ?_⟩
  · intro o' ho'
    rw [hstate]
    exact h.busy o' (hp.mem_of_mem ho')
  · intro o' ho' hread
    rw [hkeep o' ho']
    exact h.flag o' (hp.mem_of_mem ho') hread
  · rw [hscan, hstate]
    exact h.lost
  · intro c hc
    rw [hscan] at hc
    rw [hp.ctx_eq (h.scan_ctx_ne hc hp.mem)]
    exact h.retry c hc

/-- The event a completion adds: the end of the request its countdown belongs to. -/
theorem ended_polled (h : Tracked B own s) (hp : Polled B s s' b o pre post) (id : Nat) :
    ended s' id = ended s id +
      if s.count (s.ctx o.ctx).cnt = 1 ∧ (own (s.ctx o.ctx).cnt).id = id then 1 else 0 := by
  have hreq := (h.owned o hp.mem).1
  rcases hp.done with ⟨hw, hdone⟩ | ⟨hw, hdone⟩
  · obtain ⟨-, -, -, hcase⟩ := clientWriteDone_cases hw hdone
    rcases hcase with ⟨hone, r, hr, htrace⟩ | ⟨hone, htrace⟩
    · obtain rfl := Option.some.inj (hreq.symm.trans hr)
      rw [ended, ended, htrace, List.countP_cons]
      simp [Event.ends, hone]
    · rw [ended, ended, htrace]
      simp [hone]
  · obtain ⟨-, -, -, r, hr, hcase⟩ := clientReadDone_cases hw hdone
    obtain rfl := Option.some.inj (hreq.symm.trans hr)
    rcases hcase with ⟨hone, page, -, htrace⟩ | ⟨hone, htrace⟩
    · rw [ended, ended, htrace, List.countP_cons]
      simp [Event.ends, readEnd, hone]
    · rw [ended, ended, htrace]
      simp [hone]

/-- A chance to end turns into an end. -/
theorem chances_polled (h : Tracked B own s) (hp : Polled B s s' b o pre post) (id : Nat) :
    chances own s' id = chances own s id := by
  obtain ⟨-, -, -, -, hscan, -⟩ := hp.finished.same
  have hlt : (loan s o).grp < s.ledger.next :=
    h.orderly.sound.grp_lt (loan s o) (List.mem_map_of_mem hp.mem)
  have hdue := (hp.finish h.orderly).dueFor hlt (fun g => (own g).id) id
  have hend := h.ended_polled hp id
  have hcount : s.ledger.count (loan s o).grp = s.count (s.ctx o.ctx).cnt := rfl
  have hgrp : (loan s o).grp = (s.ctx o.ctx).cnt := rfl
  rw [hcount, hgrp] at hdue
  have hawaits : s'.scan.countP (awaits s' id) = s.scan.countP (awaits s id) := by
    rw [hscan]
    refine List.countP_congr fun c hc => ?_
    rw [awaits, awaits, hp.ctx_eq (h.scan_ctx_ne hc hp.mem)]
  rw [chances, chances, hend, hdue, hawaits]
  omega

theorem execute (h : Tracked B own s) (hexec : DataPath.execute s b = some s') :
    Tracked B own s' := by
  obtain ⟨hctx, hwire, -, -, -, hmap, hstate, hscan, -⟩ := execute_same hexec
  have hranged := h.ranged.execute hexec
  refine ⟨by rw [live_congr hstate]; exact h.orderly.execute hexec, h.owned.execute hexec,
    by rw [hmap, hstate]; exact h.serving, by rw [hwire, hstate]; exact h.busy, hranged.posted,
    hranged.held, hranged.range, ?_, by rw [hscan, hstate]; exact h.lost, ?_⟩
  · intro o ho
    rw [hwire] at ho
    obtain ⟨buf, hbuf⟩ := hctx o.ctx
    rw [hbuf]
    exact h.flag o ho
  · intro c hc
    rw [hscan] at hc
    obtain ⟨buf, hbuf⟩ := hctx c
    rw [hbuf]
    exact h.retry c hc

theorem chances_execute (hexec : DataPath.execute s b = some s') (id : Nat) :
    chances own s' id = chances own s id := by
  obtain ⟨hctx, -, -, -, -, -, -, hscan, -, htrace⟩ := execute_same hexec
  have hawaits : awaits s' id = awaits s id := by
    funext c
    obtain ⟨buf, hbuf⟩ := hctx c
    simp [awaits, hbuf]
  rw [chances, chances, ended, ended, execute_ledger hexec, hscan, htrace, hawaits]

/-! ## Setting a server up -/

theorem setUp (h : Tracked B own s) (hu : SetUp B s s' b) (horderly : Orderly (live s) s') :
    Tracked B own s' := by
  obtain ⟨hmap, hctx, -, -, hwire, -, hscan, -⟩ := hu.same
  have hlive : live s' = live s := by
    funext b'
    by_cases hb : b' = b
    · rcases hu.state with hstate | hstate <;> simp [live, hu.cbState, hb, hstate]
    · simp [live, hu.cbState, hb]
  have hloan : ∀ o, loan s' o = loan s o := fun o => loan_congr (by rw [hctx])
  refine ⟨by rw [hlive]; exact horderly, by rw [Owned, hwire, hctx]; exact h.owned, ?_, ?_,
    by rw [hwire]; exact h.posted, ?_, ?_, by rw [hwire, hctx]; exact h.flag, ?_,
    by rw [hscan, hctx]; exact h.retry⟩
  · rw [hmap, hu.cbState]
    exact serving_connected h.serving hu.state
  · intro o ho
    rw [hwire] at ho
    obtain ⟨hidle, hconnected⟩ := h.busy o ho
    have hne : o.server ≠ b := by
      rintro rfl
      exact hu.state.elim hidle hconnected
    rw [hu.cbState, Function.update_of_ne hne]
    exact ⟨hidle, hconnected⟩
  · intro o ho
    rw [hwire] at ho
    rw [hloan]
    exact h.held o ho
  · intro p c hc
    rw [hu.free] at hc
    split at hc
    · rename_i hp
      obtain ⟨rfl, hidx⟩ := mem_isCtxInit.mp hc
      exact mem_poolCtxs.mpr ⟨hp.2, rfl, hidx⟩
    · exact h.range p c hc
  · intro c hc
    rw [hscan] at hc
    obtain ⟨hfail, hrange⟩ := h.lost c hc
    rw [hu.cbState, Function.update_of_ne (hu.ne_of_fail hfail)]
    exact ⟨hfail, hrange⟩

theorem chances_setUp (hu : SetUp B s s' b) (id : Nat) : chances own s' id = chances own s id := by
  obtain ⟨-, hctx, -, -, -, -, hscan, -, htrace⟩ := hu.same
  have hawaits : awaits s' id = awaits s id := by
    funext c
    simp [awaits, hctx]
  rw [chances, chances, ended, ended, hu.ledger, hscan, htrace, hawaits]
  rfl

/-! ## Losing a server -/

theorem disconnected (h : Tracked B own s) (hd : Disconnected B s s' b)
    (hclean : LosesCleanly B s b) : Tracked B own s' := by
  obtain ⟨hfree, hctx, -⟩ := hd.same
  have hlive : live s' = fun b' => live s b' && !decide (b' = b) := by
    funext b'
    by_cases hb : b' = b
    · simp [live, hd.cbState, hb]
    · simp [live, hd.cbState, hb]
  have hloan : ∀ o, loan s' o = loan s o := fun o => loan_congr (by rw [hctx])
  refine ⟨by rw [hlive]; exact hd.orderly h.orderly, h.owned.disconnected hd, hd.serving h.serving,
    ?_, ?_, ?_, by rw [hfree]; exact h.range, ?_, ?_, ?_⟩
  · intro o ho
    obtain ⟨hmem, hne⟩ := hd.mem_wire.mp ho
    rw [hd.cbState, Function.update_of_ne hne]
    exact h.busy o hmem
  · exact fun o ho => h.posted o (hd.mem_wire.mp ho).1
  · intro o ho
    rw [hloan]
    exact h.held o (hd.mem_wire.mp ho).1
  · intro o ho
    rw [hctx]
    exact h.flag o (hd.mem_wire.mp ho).1
  · intro c hc
    rw [hd.cbState]
    rcases hd.mem_scan hc with hold | hnew
    · obtain ⟨hfail, hrange⟩ := h.lost c hold
      refine ⟨?_, hrange⟩
      by_cases hb : c.pool.server = b
      · rw [hb, Function.update_self]
      · rw [Function.update_of_ne hb]
        exact hfail
    · have hb := (mem_poolCtxs.mp hnew).2.1
      rw [hb, Function.update_self]
      exact ⟨rfl, hnew⟩
  · intro c hc hread r hr
    rw [hctx] at hread hr
    rcases hd.mem_scan hc with hold | hnew
    · exact h.retry c hold hread r hr
    · have hflagged : c ∈ flagged B s b := List.mem_filter.mpr ⟨hnew, by simpa using hread⟩
      obtain ⟨-, o, ho, -, rfl, hwrite⟩ := hclean.posted c hflagged
      obtain ⟨hreq, hkind⟩ := h.owned o ho
      rw [hreq] at hr
      rw [← Option.some.inj hr, hkind, hwrite]

/-- What is left of a countdown's operations. -/
theorem outstanding_disconnected (hd : Disconnected B s s' b) (g : Nat) :
    s'.ledger.outstanding g = elsewhere s b g := by
  rw [Ledger.outstanding, elsewhere, Path.ledger, List.countP_map, hd.wire, List.countP_filter]
  refine List.countP_congr fun o _ => ?_
  simp [loan, hd.same.2.1, and_comm]

theorem outstanding_split (s : Path Data) (b g : Nat) :
    s.ledger.outstanding g = elsewhere s b g +
      s.wire.countP fun o => decide (o.server = b) && decide ((s.ctx o.ctx).cnt = g) := by
  rw [Ledger.outstanding, Path.ledger, List.countP_map,
    List.countP_eq_countP_filter_add _ _ fun o => !decide (o.server = b), List.countP_filter,
    List.countP_filter, elsewhere]
  congr 1
  · refine List.countP_congr fun o _ => ?_
    rw [Bool.and_comm]
    exact Iff.rfl
  · refine List.countP_congr fun o _ => ?_
    rw [Bool.not_not, Bool.and_comm]
    exact Iff.rfl

/-- An outstanding read has not been counted down for. -/
theorem outstanding_le_count (h : Tracked B own s) {o : Op} (ho : o ∈ s.wire)
    (hwrite : o.write = false) :
    (s.ledger.outstanding (s.ctx o.ctx).cnt : Int) ≤ s.ledger.count (s.ctx o.ctx).cnt :=
  h.orderly.sound.count_ge (loan s o) (List.mem_map_of_mem ho) (by simp [loan, hwrite])

/-- A countdown that is due and no longer is when the server is gone is that of a read with
an operation there. -/
theorem due_lost_iff (h : Tracked B own s) (hd : Disconnected B s s' b)
    (hclean : LosesCleanly B s b) (g : Nat) :
    (s.ledger.Due g ∧ ¬ s'.ledger.Due g) ↔
      s.ledger.Due g ∧ ∃ o ∈ s.wire, o.server = b ∧ o.write = false ∧ (s.ctx o.ctx).cnt = g := by
  have hcount : s'.ledger.count g = s.ledger.count g := by
    show s'.count g = s.count g
    rw [hd.same.2.2.1]
  have hleft := outstanding_disconnected hd g
  have hsplit := outstanding_split s b g
  constructor
  · rintro ⟨hdue, hnot⟩
    refine ⟨hdue, ?_⟩
    have hpos : 0 < s.wire.countP fun o =>
        decide (o.server = b) && decide ((s.ctx o.ctx).cnt = g) := by
      by_contra hzero
      refine hnot ⟨hcount ▸ hdue.1, ?_⟩
      rw [hcount, hleft]
      have := hdue.2
      omega
    obtain ⟨o, ho, hob⟩ := List.countP_pos_iff.mp hpos
    obtain ⟨hserver, hg⟩ : o.server = b ∧ (s.ctx o.ctx).cnt = g := by simpa using hob
    refine ⟨o, ho, hserver, ?_, hg⟩
    by_contra hwrite
    have hw := hclean.writes o ho hserver (by simpa using hwrite)
    rw [hg] at hw
    refine hnot ⟨hcount ▸ hdue.1, ?_⟩
    rw [hcount, hleft]
    exact hw
  · rintro ⟨hdue, o, ho, hserver, hwrite, hg⟩
    refine ⟨hdue, fun hdue' => ?_⟩
    have hge := h.outstanding_le_count ho hwrite
    rw [hg] at hge
    have hpos : 0 < s.wire.countP fun o =>
        decide (o.server = b) && decide ((s.ctx o.ctx).cnt = g) :=
      List.countP_pos_iff.mpr ⟨o, ho, by simp [hserver, hg]⟩
    have hle := hdue'.2
    rw [hcount, hleft] at hle
    omega

/-- The flagged contexts of a request are those of its countdowns that are lost. -/
theorem flagged_iff (h : Tracked B own s) (hclean : LosesCleanly B s b) {c : CtxId} :
    c ∈ flagged B s b ↔ s.ledger.Due (s.ctx c).cnt ∧
      ∃ o ∈ s.wire, o.server = b ∧ o.write = false ∧ o.ctx = c := by
  constructor
  · intro hc
    obtain ⟨hle, o, ho, hserver, rfl, hwrite⟩ := hclean.posted c hc
    refine ⟨⟨?_, hle⟩, o, ho, hserver, hwrite, rfl⟩
    have hge := h.outstanding_le_count ho hwrite
    have hpos : 0 < s.ledger.outstanding (s.ctx o.ctx).cnt :=
      List.countP_pos_iff.mpr ⟨loan s o, List.mem_map_of_mem ho, by simp [loan]⟩
    omega
  · rintro ⟨-, o, ho, rfl, hwrite, rfl⟩
    exact List.mem_filter.mpr ⟨h.posted o ho, by simpa using h.flag o ho hwrite⟩

/-- For every request, the countdowns lost are as many as the contexts that will be issued
again. -/
theorem lost_eq_flagged (h : Tracked B own s) (hd : Disconnected B s s' b)
    (hclean : LosesCleanly B s b) (id : Nat) :
    (List.range s.nextCount).countP
        (fun g => decide (((own g).id = id ∧ s.ledger.Due g) ∧ ¬ s'.ledger.Due g)) =
      (poolCtxs B b).countP (awaits s id) := by
  have hreq : ∀ o ∈ s.wire,
      (s.ctx o.ctx).req.map Request.id = some (own (s.ctx o.ctx).cnt).id := by
    intro o ho
    rw [(h.owned o ho).1, Option.map_some]
  -- a lost countdown of the request, and the flagged context it belongs to
  have hlost : ∀ g, ((own g).id = id ∧ s.ledger.Due g) ∧ ¬ s'.ledger.Due g ↔
      ∃ c ∈ flagged B s b, (s.ctx c).cnt = g ∧ (s.ctx c).req.map Request.id = some id := by
    intro g
    rw [and_assoc, h.due_lost_iff hd hclean g]
    constructor
    · rintro ⟨hid, hdue, o, ho, hserver, hwrite, rfl⟩
      refine ⟨o.ctx, (h.flagged_iff hclean).mpr ⟨hdue, o, ho, hserver, hwrite, rfl⟩, rfl, ?_⟩
      rw [hreq o ho, hid]
    · rintro ⟨c, hc, rfl, hid⟩
      obtain ⟨hdue, o, ho, hserver, hwrite, rfl⟩ := (h.flagged_iff hclean).mp hc
      rw [hreq o ho] at hid
      exact ⟨Option.some.inj hid, hdue, o, ho, hserver, hwrite, rfl⟩
  have hsymm : Std.Symm fun c c' : CtxId =>
      (s.ctx c).req.map Request.id ≠ (s.ctx c').req.map Request.id :=
    ⟨fun _ _ hne => Ne.symm hne⟩
  have hcountdowns : (List.range s.nextCount).countP
      (fun g => decide (((own g).id = id ∧ s.ledger.Due g) ∧ ¬ s'.ledger.Due g)) ≤ 1 := by
    refine countP_le_one (List.nodup_range.imp fun {g g'} hne hg => ?_)
    rw [decide_eq_false_iff_not, hlost]
    rintro ⟨c', hc', rfl, hid'⟩
    obtain ⟨c, hc, rfl, hid⟩ := (hlost g).mp (of_decide_eq_true hg)
    have hcc : c ≠ c' := fun heq => hne (by rw [heq])
    exact hclean.apart.forall hc hc' hcc (hid.trans hid'.symm)
  have hcontexts : (poolCtxs B b).countP (awaits s id) =
      (flagged B s b).countP fun c => decide ((s.ctx c).req.map Request.id = some id) := by
    rw [flagged, List.countP_filter]
    refine List.countP_congr fun c _ => ?_
    simp [awaits, and_comm]
  have hcontexts_le : (flagged B s b).countP
      (fun c => decide ((s.ctx c).req.map Request.id = some id)) ≤ 1 := by
    refine countP_le_one (hclean.apart.imp fun {c c'} hne hc => ?_)
    rw [decide_eq_false_iff_not]
    exact fun hc' => hne ((of_decide_eq_true hc).trans hc'.symm)
  have hiff : 0 < (List.range s.nextCount).countP
      (fun g => decide (((own g).id = id ∧ s.ledger.Due g) ∧ ¬ s'.ledger.Due g)) ↔
        0 < (flagged B s b).countP fun c => decide ((s.ctx c).req.map Request.id = some id) := by
    rw [List.countP_pos_iff, List.countP_pos_iff]
    constructor
    · rintro ⟨g, -, hg⟩
      obtain ⟨c, hc, -, hid⟩ := (hlost g).mp (of_decide_eq_true hg)
      exact ⟨c, hc, by simpa using hid⟩
    · rintro ⟨c, hc, hid⟩
      obtain ⟨-, o, ho, -, -, rfl⟩ := (h.flagged_iff hclean).mp hc
      refine ⟨(s.ctx o.ctx).cnt, List.mem_range.mpr ?_, ?_⟩
      · exact h.orderly.sound.grp_lt (loan s o) (List.mem_map_of_mem ho)
      · rw [decide_eq_true_eq, hlost]
        exact ⟨o.ctx, hc, rfl, of_decide_eq_true hid⟩
  rw [hcontexts]
  omega

/-- Losing a server cleanly turns each countdown it stops into a context that is issued
again. -/
theorem chances_disconnected (h : Tracked B own s) (hd : Disconnected B s s' b)
    (hclean : LosesCleanly B s b) (id : Nat) : chances own s' id = chances own s id := by
  obtain ⟨-, hctx, hcount, hnext, -, -, htrace⟩ := hd.same
  have hawaits : awaits s' id = awaits s id := by
    funext c
    simp [awaits, hctx]
  have hended : ended s' id = ended s id := by rw [ended, ended, htrace]
  have hdue : s.ledger.dueFor (fun g => (own g).id) id =
      s'.ledger.dueFor (fun g => (own g).id) id + (List.range s.nextCount).countP
        fun g => decide (((own g).id = id ∧ s.ledger.Due g) ∧ ¬ s'.ledger.Due g) := by
    have hmono : ∀ g, s'.ledger.Due g → s.ledger.Due g := by
      intro g hg
      have hle := hg.2
      rw [outstanding_disconnected hd] at hle
      have hsplit := outstanding_split s b g
      have hpos := hg.1
      rw [show s'.ledger.count g = s.ledger.count g from congrFun hcount g] at hle hpos
      exact ⟨hpos, by omega⟩
    rw [Ledger.dueFor, List.countP_eq_countP_filter_add _ _ fun g => decide (s'.ledger.Due g),
      List.countP_filter, List.countP_filter, Ledger.dueFor,
      show s'.ledger.next = s.ledger.next from hnext]
    congr 1
    · refine List.countP_congr fun g _ => ?_
      simp only [Bool.and_eq_true, decide_eq_true_eq]
      exact ⟨fun hg => ⟨hg.1.1, hg.2⟩, fun hg => ⟨⟨hg.1, hmono g hg.2⟩, hg.2⟩⟩
    · refine List.countP_congr fun g _ => ?_
      simp
  by_cases hconnected : s.cbState b = .connected
  · -- nothing was ever posted to a server that holds no chunk
    have hscan : s'.scan = s.scan := by rw [hd.scan, if_pos hconnected]
    have hnone : (List.range s.nextCount).countP
        (fun g => decide (((own g).id = id ∧ s.ledger.Due g) ∧ ¬ s'.ledger.Due g)) = 0 := by
      rw [List.countP_eq_zero]
      intro g _ hg
      obtain ⟨⟨-, hdueg⟩, hnot⟩ := of_decide_eq_true hg
      obtain ⟨-, o, ho, hserver, -⟩ := (h.due_lost_iff hd hclean g).mp ⟨hdueg, hnot⟩
      exact (h.busy o ho).2 (hserver ▸ hconnected)
    rw [chances, chances, hended, hawaits, hscan, hdue, hnone]
    omega
  · have hscan : s'.scan = s.scan ++ poolCtxs B b := by rw [hd.scan, if_neg hconnected]
    have hlost := h.lost_eq_flagged hd hclean id
    rw [chances, chances, hended, hawaits, hscan, hdue, hlost, List.countP_append]
    omega

end Tracked

/-! ## Steps -/

namespace CompletionInv

variable {own : Nat → Request Data}

theorem scanCtx {b : Nat} {fault : Nat → Bool} (h : CompletionInv B own s)
    (hscan : scanCtx B s b fault = some s') : ∃ own', CompletionInv B own' s' := by
  obtain ⟨c, pre, post, -, hsplit, hcase⟩ := scanCtx_cases hscan
  have ht := h.tracked
  have hstocked := h.stocked.step (a := .scan b fault) ht.orderly ht.place_live
    (fun d hd _ => ht.scan_dead d hd) hscan
  obtain ⟨hfail, hrange⟩ := ht.lost c (by rw [hsplit]; simp)
  have hsub : ∀ d ∈ pre ++ post, d ∈ s.scan := by
    intro d hd
    rw [hsplit]
    rcases List.mem_append.mp hd with hd | hd
    · exact List.mem_append_left _ hd
    · exact List.mem_append_right _ (List.mem_cons_of_mem c hd)
  have hcount : ∀ id, s.scan.countP (awaits s id) =
      (pre ++ post).countP (awaits s id) + if awaits s id c then 1 else 0 := by
    intro id
    rw [hsplit, List.perm_middle.countP_eq, List.countP_cons]
  -- the loop looks at contexts of a lost server, so they may go back to their pool
  have hdead := ht.scan_dead c (by rw [hsplit]; simp)
  have hback : Tracked B own
      { s with scan := pre ++ post, free := putBack CtxId.pool [c] s.free } := by
    refine ⟨⟨ht.orderly.sound.putBack hdead, ht.orderly.server⟩, ht.owned, ht.serving, ht.busy,
      ht.posted, ht.held, ?_, ht.flag, fun d hd => ht.lost d (hsub d hd),
      fun d hd => ht.retry d (hsub d hd)⟩
    intro p d hd
    rcases mem_putBack.mp hd with ⟨hdc, -⟩ | hfree
    · rw [List.mem_singleton.mp hdc]
      exact hrange
    · exact ht.range p d hfree
  rcases hcase with ⟨hflag, rfl⟩ | ⟨hflag, rfl⟩ | ⟨hflag, r, hr, hreq⟩
  · refine ⟨own, ⟨⟨ht.orderly.sound, ht.orderly.server⟩, ht.owned, ht.serving, ht.busy, ht.posted,
      ht.held, ht.range, ht.flag, fun d hd => ht.lost d (hsub d hd),
      fun d hd => ht.retry d (hsub d hd)⟩, hstocked, fun id => ?_⟩
    have honce := h.once id
    rw [chances, hcount id, if_neg (by simp [awaits, hflag])] at honce
    exact honce
  · refine ⟨own, hback, hstocked, fun id => ?_⟩
    have honce := h.once id
    rw [chances, hcount id, if_neg (by simp [awaits, hflag])] at honce
    exact honce
  · have hread : r.write = false := ht.retry c (by rw [hsplit]; simp) hflag r hr
    refine ⟨_, hback.isRequest hreq, hstocked, fun id => ?_⟩
    rw [hback.chances_isRequest hreq (fun hw => by rw [hread] at hw; cases hw)]
    have honce := h.once id
    have hsame : s'.nextReq = s.nextReq :=
      (isRequest_same hback.orderly.sound.free_own hreq).2.2.2.2.2.1
    rw [hsame]
    rw [chances, hcount id] at honce
    have hawait : awaits s id c = decide (r.id = id) := by simp [awaits, hflag, hr]
    simp only [hawait, decide_eq_true_eq, ← Nat.add_assoc] at honce
    exact honce

theorem step {a : Action Data} (h : CompletionInv B own s) (hends : EndsOnce B s a)
    (hstep : step B s a = some s') : ∃ own', CompletionInv B own' s' := by
  have ht := h.tracked
  have hstocked := h.stocked.step ht.orderly ht.place_live (fun c hc _ => ht.scan_dead c hc) hstep
  cases a with
  | submit r fault =>
      have hbase : Tracked B own
          { s with
            nextReq := s.nextReq + 1
            trace := .submit { r with id := s.nextReq } :: s.trace } :=
        ⟨⟨ht.orderly.sound, ht.orderly.server⟩, ht.owned, ht.serving, ht.busy, ht.posted, ht.held,
          ht.range, ht.flag, ht.lost, ht.retry⟩
      have hreq : isRequest B
          { s with
            nextReq := s.nextReq + 1
            trace := .submit { r with id := s.nextReq } :: s.trace }
          { r with id := s.nextReq } fault = some s' := hstep
      refine ⟨_, hbase.isRequest hreq, hstocked, fun id => ?_⟩
      rw [hbase.chances_isRequest hreq hends.2]
      have hsame : s'.nextReq = s.nextReq + 1 := by
        refine (isRequest_same ?_ hreq).2.2.2.2.2.1
        exact ht.orderly.sound.free_own
      have honce := h.once id
      have hsubmit : chances own
          { s with
            nextReq := s.nextReq + 1
            trace := .submit { r with id := s.nextReq } :: s.trace } id = chances own s id := rfl
      rw [hsubmit, honce, hsame]
      show (if id < s.nextReq then 1 else 0) + (if s.nextReq = id then 1 else 0) =
        if id < s.nextReq + 1 then 1 else 0
      split_ifs <;> omega
  | execute b =>
      refine ⟨own, ht.execute hstep, hstocked, fun id => ?_⟩
      rw [Tracked.chances_execute hstep, (execute_same hstep).2.2.2.2.2.2.2.2.1]
      exact h.once id
  | poll b =>
      obtain ⟨o, pre, post, hp⟩ := rdmaCqEventHandler_cases hstep
      refine ⟨own, ht.polled hp, hstocked, fun id => ?_⟩
      rw [ht.chances_polled hp, hp.finished.same.2.2.2.2.2]
      exact h.once id
  | disconnect b =>
      have hd := isDisconnectHandler_cases hstep
      refine ⟨own, ht.disconnected hd hends, hstocked, fun id => ?_⟩
      rw [ht.chances_disconnected hd hends, hd.same.2.2.2.2.2.1]
      exact h.once id
  | scan b fault => exact h.scanCtx hstep
  | setUp b =>
      have hu := setUp_cases hstep
      obtain ⟨-, -, -, -, -, -, hscan, hnext, htrace⟩ := hu.same
      refine ⟨own, ht.setUp hu (h.stocked.restock hu ht.orderly), hstocked, fun id => ?_⟩
      rw [hnext, Tracked.chances_setUp hu]
      exact h.once id
  | bind i b chunk =>
      obtain ⟨hselect, rfl⟩ := bind_cases hstep
      have hb : s.cbState b ≠ .fail := by
        intro hfail
        rw [hfail] at hselect
        cases hselect
      have hlive : live { s with
          map := Function.update s.map i (some (b, chunk))
          cbState := Function.update s.cbState b .mapped } = live s := by
        funext b'
        by_cases hb' : b' = b
        · simp [live, hb', hb]
        · simp [live, hb']
      refine ⟨own, ⟨?_, ht.owned, serving_update ht.serving i b chunk, fun o ho => ?_, ht.posted,
        ht.held, ht.range, ht.flag, fun c hc => ?_, ht.retry⟩, hstocked, h.once⟩
      · rw [hlive]
        exact ⟨ht.orderly.sound, ht.orderly.server⟩
      · by_cases hob : o.server = b
        · simp [hob]
        · simpa [hob] using ht.busy o ho
      · obtain ⟨hfail, hrange⟩ := ht.lost c hc
        have hne : c.pool.server ≠ b := fun heq => hb (heq ▸ hfail)
        exact ⟨(Function.update_of_ne hne ..).trans hfail, hrange⟩
  | unbind i =>
      obtain rfl := Option.some.inj hstep
      exact ⟨own, ⟨⟨ht.orderly.sound, ht.orderly.server⟩, ht.owned, serving_unbind ht.serving i,
        ht.busy, ht.posted, ht.held, ht.range, ht.flag, ht.lost, ht.retry⟩, hstocked, h.once⟩

end CompletionInv

/-! ## Whole runs -/

theorem pathInit_completion [Zero Data] (B : Build Data) {map : Nat → Option (Nat × ChunkIx)}
    {cbState : Nat → CbState} (ready : Nat → Bool) (mem : Nat × ChunkIx × Nat → Data)
    (hserve : MapsServing map cbState) :
    CompletionInv B (fun _ => ⟨0, false, 0, 0, 0, 0⟩) (pathInit B map cbState ready mem) where
  tracked :=
    { orderly := pathInit_orderly B map cbState ready mem
      owned := fun o ho => by cases ho
      serving := hserve
      busy := fun o ho => by cases ho
      posted := fun o ho => by cases ho
      held := fun o ho => by cases ho
      range := by
        intro p c hc
        obtain ⟨-, ⟨hk, -, hj⟩, -⟩ := mem_pathInit_free.mp hc
        exact mem_poolCtxs.mpr ⟨hk, rfl, hj⟩
      flag := fun o ho => by cases ho
      lost := fun c hc => by cases hc
      retry := fun c hc => by cases hc }
  stocked := pathInit_stocked
  once := fun id => rfl

end Hydra.DataPath
