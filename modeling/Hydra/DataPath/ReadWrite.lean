/-
  DataPath/ReadWrite.lean --- what a read delivers, with replication.

  `IS_rdma_read` posts on the first replica that is mapped and has no fault;
  `client_read_done` copies from the first context that has no fault, mapped or not.
  Where the two agree, a read delivers the page last written.
-/
import Hydra.DataPath.Timeline

set_option autoImplicit false

namespace Hydra.DataPath

open Hydra.Foundation Hydra.Wire Hydra.Manager

variable {Data : Type} {q n : Nat} {s s' : Path Data}

/-! ## The property -/

/-- A read that ends after `earlier`: the page comes from the replica the read was posted
on, and is that of the last completed write or of a write that was submitted while the
read was outstanding. -/
structure DeliversLast (earlier : List (Event Data)) (r : Request Data) (page : Data)
    (faults : List Bool) (index : Nat) : Prop where
  copied : copySource faults = some index
  current : (∀ w, lastCompleted r earlier = some w → page = w.data) ∨
    ∃ w, .submit w ∈ earlier ∧ w.write = true ∧ SamePage r w ∧ r.id ≤ w.id ∧ page = w.data

/-- Every read that has ended delivered the page last written. -/
def ReadAfterWrite (s : Path Data) : Prop :=
  ∀ later r page faults index earlier,
    s.trace = later ++ .endRead r page faults index :: earlier →
      DeliversLast earlier r page faults index

/-- Every unmapped replica comes after one that is mapped and has no fault. -/
def GoodFirst (place : Nat → Option (Nat × ChunkIx)) (fault : Nat → Bool) : Prop :=
  ∀ i ∈ List.range 3, place i = none → ∃ j ∈ List.range i, place j ≠ none ∧ fault j = false

/-- Runs of requests, completions and lost servers in which requests have what they need
when they are issued, every read is issued with its unmapped replicas last, no write is
issued again, and no server is lost whose faulted replica an outstanding read has passed
over. -/
def ReadsAgree (B : Build Data) (s : Path Data) : Action Data → Prop
  | .submit r fault => Served B s r fault ∧
      (r.write = false → GoodFirst (s.place B r.slab) fault)
  | .execute _ | .poll _ => True
  | .disconnect b => ∀ o ∈ s.wire, o.write = false → o.server ≠ b →
      ∀ c ∈ (s.ctx o.ctx).ctxs.take o.index, c.pool.server ≠ b
  | .scan b fault => ∀ r ∈ nextRetry s b, Served B (retryPath s b) r fault ∧ r.write = false ∧
      GoodFirst (s.place B r.slab) fault
  | .setUp _ | .bind .. | .unbind _ => False

instance (place : Nat → Option (Nat × ChunkIx)) (fault : Nat → Bool) :
    Decidable (GoodFirst place fault) :=
  inferInstanceAs (Decidable (∀ i ∈ List.range 3, _ → ∃ j ∈ List.range i, _))

instance (B : Build Data) (s : Path Data) (a : Action Data) : Decidable (ReadsAgree B s a) :=
  match a with
  | .submit r fault => inferInstanceAs (Decidable (Served B s r fault ∧ (_ → _)))
  | .execute _ | .poll _ => isTrue trivial
  | .disconnect b => inferInstanceAs (Decidable (∀ o ∈ s.wire, o.write = false → o.server ≠ b →
      ∀ c ∈ (s.ctx o.ctx).ctxs.take o.index, c.pool.server ≠ b))
  | .scan b fault => inferInstanceAs
      (Decidable (∀ r ∈ nextRetry s b, Served B (retryPath s b) r fault ∧ r.write = false ∧
        GoodFirst (s.place B r.slab) fault))
  | .setUp _ | .bind .. | .unbind _ => isFalse id

/-! ## The replica copied from -/

/-- A read outstanding on its replica has passed over faulted replicas only, whose servers
are still there. -/
structure Passed (s : Path Data) (o : Op) : Prop where
  self : (s.ctx o.ctx).ctxs[o.index]? = some o.ctx
  good : (s.ctx o.ctx).fault = false
  before : ∀ j, j < o.index → ∃ c, (s.ctx o.ctx).ctxs[j]? = some c ∧
    live s c.pool.server = true ∧ (s.ctx c).fault = true

/-- Every outstanding read has. -/
def AllPassed (s : Path Data) : Prop := ∀ o ∈ s.wire, o.write = false → Passed s o

/-- `client_read_done` then copies from the replica the read was posted on. -/
theorem Passed.copySource {o : Op} (h : Passed s o) :
    copySource ((s.ctx o.ctx).ctxs.map fun c => (s.ctx c).fault) = some o.index := by
  obtain ⟨hlt, hget⟩ := List.getElem?_eq_some_iff.mp h.self
  rw [DataPath.copySource, List.findIdx?_eq_some_iff_getElem]
  refine ⟨by simpa using hlt, by simp [hget, h.good], fun j hj => ?_⟩
  obtain ⟨c, hc, -, hfault⟩ := h.before j hj
  obtain ⟨hjlt, hjget⟩ := List.getElem?_eq_some_iff.mp hc
  simp [hjget, hfault]

theorem Passed.assemble {o : Op} (h : Passed s o) (lost : List Nat) {page : Data}
    (hpage : (Build.rep Data q n).assemble lost
      ((s.ctx o.ctx).ctxs.map fun c => (s.ctx c).fault)
      ((s.ctx o.ctx).ctxs.map fun c => (s.ctx c).rdmaBuf) = some page) :
    page = (s.ctx o.ctx).rdmaBuf := by
  have hbuf : ((s.ctx o.ctx).ctxs.map fun c => (s.ctx c).rdmaBuf)[o.index]? =
      some (s.ctx o.ctx).rdmaBuf := by
    rw [List.getElem?_map, h.self]
    rfl
  have hcopied : (Build.rep Data q n).assemble lost
      ((s.ctx o.ctx).ctxs.map fun c => (s.ctx c).fault)
      ((s.ctx o.ctx).ctxs.map fun c => (s.ctx c).rdmaBuf) = some (s.ctx o.ctx).rdmaBuf := by
    show (DataPath.copySource _).bind _ = _
    rw [h.copySource]
    exact hbuf
  exact Option.some.inj (hpage.symm.trans hcopied)

/-- The one read is posted on the first good replica. -/
theorem readTargets_rep {isGood : Nat → Bool} {targets : List Nat}
    (h : readTargets isGood 3 (List.range 1) 1 = some targets) :
    ∃ t, targets = [t] ∧ isGood t = true ∧ ∀ j, j < t → isGood j = false := by
  have hrange : List.range 1 = [0] := rfl
  rw [hrange, readTargets] at h
  split at h
  · rename_i hgood
    obtain rfl : [0] = targets := by simpa [readTargets] using h
    exact ⟨0, rfl, hgood, fun j hj => absurd hj (Nat.not_lt_zero j)⟩
  · rename_i hbad
    have hzero : isGood 0 = false := by simpa using hbad
    split at h
    · cases h
    · rename_i p hfind
      obtain rfl : [p] = targets := by simpa [readTargets] using h
      obtain ⟨hp, before, after, hlist, hbefore⟩ := List.find?_eq_some_iff_append.mp hfind
      refine ⟨p, rfl, hp, fun j hj => ?_⟩
      cases j with
      | zero => exact hzero
      | succ j =>
          have hmem : p ∈ List.range' 1 (3 - 1) := List.mem_of_find?_eq_some hfind
          rw [List.mem_range'_1] at hmem
          have hj1 : p = 2 ∧ j + 1 = 1 := by omega
          obtain ⟨rfl, hj1⟩ := hj1
          rw [hj1]
          have hone : (1 : Nat) ∈ before := by
            have hsplit : before ++ 2 :: after = [1, 2] := hlist.symm
            cases before with
            | nil => simp at hsplit
            | cons x rest =>
                obtain ⟨rfl, -⟩ := List.cons.inj hsplit
                exact List.mem_cons_self
          simpa using hbefore 1 hone

section Passed

variable {own : Nat → Request Data} {r : Request Data} {fault : Nat → Bool} {ids : List CtxId}
  {free : Pool → List CtxId} {targets : List Nat} {new : List Op} {b : Nat} {o : Op}
  {pre post : List Op}

/-- A mapped piece is good when it has no fault. -/
theorem good_of_mapped (h : Routed own s)
    (hi : ReadIssued (Build.rep Data q n) s r (s.place (Build.rep Data q n) r.slab) fault ids free
      targets) {j : Nat} {e : Nat × ChunkIx} {c : CtxId}
    (he : s.place (Build.rep Data q n) r.slab j = some e) (hc : ids[j]? = some c) :
    live s c.pool.server = true ∧
      (updateEach (readCtx r s.nextCount (s.place (Build.rep Data q n) r.slab) fault ids)
        ids.zipIdx s.ctx c).fault = fault j := by
  have hlive : live s c.pool.server = true := by
    rw [hi.taken.pool_server hc he]
    exact h.place_live _ e.1 e.2 he
  refine ⟨hlive, ?_⟩
  rw [updateEach_zipIdx _ s.ctx hc (hi.taken.count_le h.orderly hlive)]
  simp [readCtx, he]

/-- A read issued with its unmapped replicas last has passed over faulted ones only. -/
theorem passed_of_issue (h : Routed own s)
    (hi : ReadIssued (Build.rep Data q n) s r (s.place (Build.rep Data q n) r.slab) fault ids free
      targets)
    (hfirst : GoodFirst (s.place (Build.rep Data q n) r.slab) fault)
    (ho : o ∈ posts (s.place (Build.rep Data q n) r.slab) ids r targets) :
    Passed
      (afterRead (Build.rep Data q n) s r (s.place (Build.rep Data q n) r.slab) fault ids free
        targets) o := by
  have hplace : ∀ i b c, s.place (Build.rep Data q n) r.slab i = some (b, c) → live s b = true :=
    fun i b c hi => h.place_live _ b c hi
  have hctx := hi.ctx_of_mem_posts h.orderly hplace ho
  obtain ⟨t, htargets, -, hbefore⟩ := readTargets_rep hi.posted
  obtain ⟨i, hit, e, c, -, hc, rfl⟩ := mem_posts.mp ho
  obtain rfl : i = t := by
    rw [htargets] at hit
    exact List.mem_singleton.mp hit
  have hget : ∀ j, j < 3 → ∃ d, ids[j]? = some d := by
    intro j hj
    have hlt : j < ids.length := by
      rw [hi.taken.length]
      exact hj
    exact ⟨ids[j], List.getElem?_eq_getElem hlt⟩
  have hilt : i < 3 := (hi.target h.orderly hplace hit).1
  refine ⟨by rw [hctx]; exact hc, by rw [hctx], fun j hj => ?_⟩
  have hj3 : j < 3 := lt_trans hj hilt
  have hjbad := hbefore j hj
  obtain ⟨d, hd⟩ := hget j hj3
  cases hplacej : s.place (Build.rep Data q n) r.slab j with
  | none =>
      -- an unmapped replica before the one posted on: a good one would come before it
      obtain ⟨k, hk, hkmapped, hkfault⟩ := hfirst j (List.mem_range.mpr hj3) hplacej
      have hkj : k < j := List.mem_range.mp hk
      obtain ⟨e', he'⟩ := Option.ne_none_iff_exists'.mp hkmapped
      obtain ⟨d', hd'⟩ := hget k (by omega)
      have hgood := (good_iff (i := k)).mpr
        ⟨⟨e', he'⟩, d', hd', (good_of_mapped h hi he' hd').2.trans hkfault⟩
      rw [hbefore k (lt_trans hkj hj)] at hgood
      cases hgood
  | some e' =>
      obtain ⟨hlive, hfault⟩ := good_of_mapped h hi hplacej hd
      refine ⟨d, by rw [hctx]; exact hd, hlive, ?_⟩
      show (updateEach _ ids.zipIdx s.ctx d).fault = true
      by_contra hnot
      have hgood := (good_iff (i := j)).mpr ⟨⟨e', hplacej⟩, d, hd, by simpa using hnot⟩
      rw [hjbad] at hgood
      cases hgood

theorem AllPassed.issued (h : AllPassed s) (hn : Issued s s' r new)
    (hnew : ∀ o ∈ new, o.write = false → Passed s' o) : AllPassed s' := by
  intro o ho hread
  rw [hn.grows.wire] at ho
  rcases List.mem_append.mp ho with ho | ho
  · have hp := h o ho hread
    have hctx := hn.grows.ctx o ho
    refine ⟨by rw [hctx]; exact hp.self, by rw [hctx]; exact hp.good, fun j hj => ?_⟩
    obtain ⟨c, hc, hlive, hfault⟩ := hp.before j hj
    have hheld : c ∈ (loan s o).held := by
      rw [show (loan s o).held = (s.ctx o.ctx).ctxs from if_neg (by simp [hread])]
      exact List.mem_of_getElem? hc
    refine ⟨c, by rw [hctx]; exact hc, by rw [live_congr hn.same.2.1]; exact hlive, ?_⟩
    rw [hn.held o ho c hheld hlive]
    exact hfault
  · exact hnew o ho hread

theorem AllPassed.polled (h : AllPassed s) (hr : Routed own s)
    (hp : Polled (Build.rep Data q n) s s' b o pre post) : AllPassed s' := by
  intro o' ho' hread
  have hold := h o' (hp.mem_of_mem ho') hread
  have hctx := hp.ctx_eq (hp.ctx_ne hr.orderly ho')
  have hfault : ∀ c, (s'.ctx c).fault = (s.ctx c).fault := by
    intro c
    rw [hp.finished.ctx]
    by_cases hc : c = o.ctx
    · rw [hc, Function.update_self]
    · rw [Function.update_of_ne hc]
  refine ⟨by rw [hctx]; exact hold.self, by rw [hctx]; exact hold.good, fun j hj => ?_⟩
  obtain ⟨c, hc, hlive, hcf⟩ := hold.before j hj
  exact ⟨c, by rw [hctx]; exact hc, by rw [live_congr hp.finished.same.2.1]; exact hlive,
    (hfault c).trans hcf⟩

theorem AllPassed.execute (h : AllPassed s) (hexec : execute s b = some s') : AllPassed s' := by
  obtain ⟨hctx, hwire, -, -, -, -, hstate, -⟩ := execute_same hexec
  have hsame : ∀ c, (s'.ctx c).ctxs = (s.ctx c).ctxs ∧ (s'.ctx c).fault = (s.ctx c).fault := by
    intro c
    obtain ⟨buf, hbuf⟩ := hctx c
    rw [hbuf]
    exact ⟨rfl, rfl⟩
  intro o ho hread
  rw [hwire] at ho
  have hold := h o ho hread
  refine ⟨by rw [(hsame _).1]; exact hold.self, by rw [(hsame _).2]; exact hold.good,
    fun j hj => ?_⟩
  obtain ⟨c, hc, hlive, hcf⟩ := hold.before j hj
  exact ⟨c, by rw [(hsame _).1]; exact hc, by rw [live_congr hstate]; exact hlive,
    (hsame c).2.trans hcf⟩

theorem AllPassed.disconnected (h : AllPassed s) (hd : Disconnected (Build.rep Data q n) s s' b)
    (hnone : ∀ o ∈ s.wire, o.write = false → o.server ≠ b →
      ∀ c ∈ (s.ctx o.ctx).ctxs.take o.index, c.pool.server ≠ b) : AllPassed s' := by
  intro o ho hread
  obtain ⟨hmem, hne⟩ := hd.mem_wire.mp ho
  have hold := h o hmem hread
  have hctx := hd.same.2.1
  refine ⟨by rw [hctx]; exact hold.self, by rw [hctx]; exact hold.good, fun j hj => ?_⟩
  obtain ⟨c, hc, hlive, hcf⟩ := hold.before j hj
  have htake : c ∈ (s.ctx o.ctx).ctxs.take o.index := by
    refine List.mem_of_getElem? (i := j) ?_
    rw [List.getElem?_take_of_lt hj]
    exact hc
  have hother := hnone o hmem hread hne c htake
  refine ⟨c, by rw [hctx]; exact hc, ?_, by rw [hctx]; exact hcf⟩
  rw [live_eq_true] at hlive ⊢
  rw [hd.cbState, Function.update_of_ne hother]
  exact hlive

end Passed

/-! ## The invariant -/

/-- What holds in every state of a run whose reads agree. -/
structure ReadInv (own : Nat → Request Data) (seen : Nat → Option (Request Data))
    (last : Nat → Nat → Option (Request Data)) (s : Path Data) : Prop where
  routed : Routed own s
  stored : Stored own seen last s
  passed : AllPassed s
  pending : Pending own s
  history : History own seen last s
  known : ∀ c r, (s.ctx c).req = some r → r.id < s.nextReq
  delivered : ReadAfterWrite s

theorem ReadAfterWrite.congr (h : ReadAfterWrite s) (htrace : s'.trace = s.trace) :
    ReadAfterWrite s' := by
  intro later r page faults index earlier hsplit
  rw [htrace] at hsplit
  exact h later r page faults index earlier hsplit

theorem ReadAfterWrite.cons {e : Event Data} (h : ReadAfterWrite s)
    (htrace : s'.trace = e :: s.trace)
    (hnew : ∀ r page faults index, e = .endRead r page faults index →
      DeliversLast s.trace r page faults index) : ReadAfterWrite s' := by
  intro later r page faults index earlier hsplit
  rw [htrace] at hsplit
  cases later with
  | nil =>
      obtain ⟨he, rfl⟩ := List.cons.inj hsplit
      exact hnew r page faults index he
  | cons e' later =>
      obtain ⟨-, hrest⟩ := List.cons.inj hsplit
      exact h later r page faults index earlier hrest

namespace ReadInv

variable {own : Nat → Request Data} {seen : Nat → Option (Request Data)}
  {last : Nat → Nat → Option (Request Data)} {r : Request Data} {fault : Nat → Bool} {b : Nat}

theorem known_isRequest (h : ReadInv own seen last s) (hid : r.id < s.nextReq)
    (hreq : isRequest (Build.rep Data q n) s r fault = some s') :
    ∀ c r', (s'.ctx c).req = some r' → r'.id < s'.nextReq := by
  have hown := h.routed.orderly.sound.free_own
  intro c r' hr'
  rw [(isRequest_same hown hreq).2.2.2.2.2.1]
  rcases isRequest_req hown hreq c with hnew | hold
  · obtain rfl := Option.some.inj (hnew.symm.trans hr')
    exact hid
  · rw [hold] at hr'
    exact h.known c r' hr'

theorem read (h : ReadInv own seen last s) (hread : r.write = false) (hid : r.id < s.nextReq)
    (hfirst : GoodFirst (s.place (Build.rep Data q n) r.slab) fault)
    (hreq : isRequest (Build.rep Data q n) s r fault = some s') :
    ReadInv (Function.update own s.nextCount r)
      (Function.update seen s.nextCount (last r.slab r.offset)) last s' := by
  have hr := h.routed
  have hknown := h.known_isRequest hid hreq
  have horderly := hr.orderly.isRequest hr.place_live hreq
  rcases isRequest_cases hr.orderly.sound.free_own hreq with
    ⟨hw, -⟩ | ⟨-, ids, free, targets, hi, rfl⟩
  · rw [hread] at hw
    cases hw
  · have hn := hr.issuedRead hi
    exact
      { routed := hr.issued hn horderly
        stored := h.stored.issueRead hr hn hread
        passed := h.passed.issued hn fun o ho _ => passed_of_issue hr hi hfirst ho
        pending := h.pending.issued hn fun hw => by rw [hread] at hw; cases hw
        history := h.history.issuedRead hn hread hid
        known := hknown
        delivered := h.delivered.congr rfl }

theorem write (h : ReadInv own seen last s) (hwrite : r.write = true) (hid : r.id < s.nextReq)
    (hnew : ∀ t, t < s.nextCount → (own t).id < r.id) (hsub : .submit r ∈ s.trace)
    (hreq : isRequest (Build.rep Data q n) s r fault = some s') :
    ReadInv (Function.update own s.nextCount r) seen
      (Function.update last r.slab (Function.update (last r.slab) r.offset (some r))) s' := by
  have hr := h.routed
  have hknown := h.known_isRequest hid hreq
  have horderly := hr.orderly.isRequest hr.place_live hreq
  rcases isRequest_cases hr.orderly.sound.free_own hreq with
    ⟨-, ids, free, ht, rfl⟩ | ⟨hw, -⟩
  · have hn := hr.issuedWrite ht
    have hbuf : ∀ o ∈ posts (s.place (Build.rep Data q n) r.slab) ids r (List.range 3),
        ((afterWrite (Build.rep Data q n) s r (s.place (Build.rep Data q n) r.slab) ids free).ctx
          o.ctx).rdmaBuf = r.data := by
      intro o ho
      rw [ht.ctx_of_mem_write hr.orderly (fun i b c hi => hr.place_live _ b c hi) ho]
      rfl
    -- every replica that is mapped gets an operation
    have hall : ∀ i e, i < 3 → s.map (r.slab * 3 + i) = some e →
        ∃ o ∈ posts (s.place (Build.rep Data q n) r.slab) ids r (List.range 3),
          o.server = e.1 ∧ o.chunk = e.2 := by
      intro i e hi he
      have hlt : i < ids.length := by
        rw [ht.length]
        exact hi
      exact ⟨_, mem_posts.mpr ⟨i, List.mem_range.mpr hi, e, ids[i], he,
        List.getElem?_eq_getElem hlt, rfl⟩, rfl, rfl⟩
    exact
      { routed := hr.issued hn horderly
        stored := h.stored.issueWrite hr hn hwrite hbuf hall
        passed := h.passed.issued hn fun o ho hread => by
          rw [(hn.op o ho).1, hwrite] at hread
          cases hread
        pending := h.pending.issued hn fun _ i e hi he =>
          (hall i e hi he).imp fun _ ho => ⟨ho.1, ho.2.1⟩
        history := h.history.issuedWrite hn hwrite hnew hid hsub
        known := hknown
        delivered := h.delivered.congr rfl }
  · rw [hwrite] at hw
    cases hw

/-- Submitting a request gives it a number; nothing is posted yet. -/
theorem submitted (h : ReadInv own seen last s) :
    ReadInv own seen last
      { s with nextReq := s.nextReq + 1, trace := .submit r :: s.trace } where
  routed := ⟨⟨h.routed.orderly.sound, h.routed.orderly.server⟩, h.routed.owned, h.routed.serving,
    h.routed.lost, h.routed.inj, h.routed.index, h.routed.placed, h.routed.offset, h.routed.order⟩
  stored := ⟨h.stored.posted, h.stored.buf, h.stored.final, h.stored.ahead, h.stored.got⟩
  passed := fun o ho hread => ⟨(h.passed o ho hread).self, (h.passed o ho hread).good,
    (h.passed o ho hread).before⟩
  pending := ⟨h.pending.one, h.pending.unended, h.pending.down⟩
  history := h.history.submitted
  known := fun c r' hr' => Nat.lt_succ_of_lt (h.known c r' hr')
  delivered := h.delivered.cons rfl fun _ _ _ _ he => by cases he

theorem submit (h : ReadInv own seen last s)
    (hfirst : r.write = false → GoodFirst (s.place (Build.rep Data q n) r.slab) fault)
    (hstep : step (Build.rep Data q n) s (.submit r fault) = some s') :
    ∃ own seen last, ReadInv own seen last s' := by
  have hbase := h.submitted (r := { r with id := s.nextReq })
  have hid : s.nextReq < s.nextReq + 1 := Nat.lt_succ_self _
  by_cases hwrite : r.write = true
  · exact ⟨_, _, _, hbase.write (r := { r with id := s.nextReq }) hwrite hid
      (fun t ht => h.history.idlt t ht) List.mem_cons_self hstep⟩
  · have hread : r.write = false := by simpa using hwrite
    exact ⟨_, _, _, hbase.read (r := { r with id := s.nextReq }) hread hid (hfirst hread) hstep⟩

/-- A read that ends delivers what its replica held when it was posted. -/
theorem poll {o : Op} {pre post : List Op} (h : ReadInv own seen last s)
    (hp : Polled (Build.rep Data q n) s s' b o pre post) : ReadInv own seen last s' where
  routed := h.routed.polled hp
  stored := h.stored.polled h.routed hp
  passed := h.passed.polled h.routed hp
  pending := h.pending.polled h.routed hp
  history := h.history.polled h.pending h.routed hp
  known := by
    intro c r hr
    rw [hp.finished.same.2.2.2.2.2]
    by_cases hc : c = o.ctx
    · rw [hp.finished.ctx, hc, Function.update_self] at hr
      cases hr
    · rw [hp.ctx_eq hc] at hr
      exact h.known c r hr
  delivered := by
    rcases hp.trace_cases h.routed.owned with ⟨-, -, ht⟩ | ⟨hread, page, hpage, ht⟩ | ⟨-, ht⟩
    · exact h.delivered.cons ht fun _ _ _ _ he => by cases he
    · refine h.delivered.cons ht fun r page' faults index he => ?_
      obtain ⟨rfl, rfl, rfl, rfl⟩ := Event.endRead.inj he
      have hpassed := h.passed o hp.mem hread
      refine ⟨hpassed.copySource, h.history.delivers h.pending h.routed hp hread fun w hw => ?_⟩
      rw [hpassed.assemble s.lost hpage]
      exact h.stored.got b o hp.mem_fetched hread w hw
    · exact h.delivered.congr ht

theorem execute (h : ReadInv own seen last s) (hexec : DataPath.execute s b = some s') :
    ReadInv own seen last s' := by
  obtain ⟨hctx, -, -, hcount, hnext, -, -, -, hreq, htrace⟩ := execute_same hexec
  obtain ⟨o, ho⟩ := execute_executed hexec
  refine ⟨h.routed.execute hexec, h.stored.executed h.routed ho hexec, h.passed.execute hexec,
    h.pending.execute hexec, h.history.congr hcount hnext hreq htrace, ?_,
    h.delivered.congr htrace⟩
  intro c r hr
  obtain ⟨buf, hbuf⟩ := hctx c
  rw [hbuf] at hr
  rw [hreq]
  exact h.known c r hr

theorem disconnect (h : ReadInv own seen last s)
    (hd : Disconnected (Build.rep Data q n) s s' b)
    (hnone : ∀ o ∈ s.wire, o.write = false → o.server ≠ b →
      ∀ c ∈ (s.ctx o.ctx).ctxs.take o.index, c.pool.server ≠ b) : ReadInv own seen last s' := by
  obtain ⟨-, hctx, hcount, hnext, -, hreq, htrace⟩ := hd.same
  exact
    { routed := h.routed.disconnected hd
      stored := h.stored.disconnected h.routed hd
      passed := h.passed.disconnected hd hnone
      pending := h.pending.disconnected h.routed hd
      history := h.history.congr hcount hnext hreq htrace
      known := by rw [hctx, hreq]; exact h.known
      delivered := h.delivered.congr htrace }

/-- The loop of the disconnect handler touches free lists and its own list of contexts. -/
theorem reroute (h : ReadInv own seen last s) (scan : List CtxId) (free : Pool → List CtxId)
    (hr : Routed own { s with scan := scan, free := free }) :
    ReadInv own seen last { s with scan := scan, free := free } where
  routed := hr
  stored := ⟨h.stored.posted, h.stored.buf, h.stored.final, h.stored.ahead, h.stored.got⟩
  passed := fun o ho hread => ⟨(h.passed o ho hread).self, (h.passed o ho hread).good,
    (h.passed o ho hread).before⟩
  pending := ⟨h.pending.one, h.pending.unended, h.pending.down⟩
  history := h.history.congr rfl rfl rfl rfl
  known := h.known
  delivered := h.delivered.congr rfl

theorem scan (h : ReadInv own seen last s)
    (hretry : ∀ r ∈ nextRetry s b, r.write = false ∧
      GoodFirst (s.place (Build.rep Data q n) r.slab) fault)
    (hscan : scanCtx (Build.rep Data q n) s b fault = some s') :
    ∃ own seen last, ReadInv own seen last s' := by
  obtain ⟨c, pre, post, hfind, hsplit, hcase⟩ := scanCtx_cases hscan
  have hsub : ∀ d ∈ pre ++ post, d ∈ s.scan := by
    intro d hd
    rw [hsplit]
    rcases List.mem_append.mp hd with hd | hd
    · exact List.mem_append_left _ hd
    · exact List.mem_append_right _ (List.mem_cons_of_mem c hd)
  have hback := h.reroute _ _ (h.routed.putBack (c := c) (by rw [hsplit]; simp) hsub)
  rcases hcase with ⟨-, rfl⟩ | ⟨-, rfl⟩ | ⟨hflag, r, hr, hreq⟩
  · have hr := h.routed
    exact ⟨own, seen, last, h.reroute _ s.free ⟨⟨hr.orderly.sound, hr.orderly.server⟩,
      hr.owned, hr.serving, fun d hd => hr.lost d (hsub d hd), hr.inj, hr.index, hr.placed,
      hr.offset, hr.order⟩⟩
  · exact ⟨own, seen, last, hback⟩
  · have hnext : r ∈ nextRetry s b := by
      simp [nextRetry, hfind, hflag, hr]
    obtain ⟨hread, hfirst⟩ := hretry r hnext
    exact ⟨_, _, _, hback.read hread (h.known c r hr) hfirst hreq⟩

theorem step {a : Action Data} (h : ReadInv own seen last s)
    (hagree : ReadsAgree (Build.rep Data q n) s a)
    (hstep : DataPath.step (Build.rep Data q n) s a = some s') :
    ∃ own seen last, ReadInv own seen last s' := by
  cases a with
  | submit r fault => exact h.submit hagree.2 hstep
  | execute b => exact ⟨own, seen, last, h.execute hstep⟩
  | poll b =>
      obtain ⟨o, pre, post, hp⟩ := rdmaCqEventHandler_cases hstep
      exact ⟨own, seen, last, h.poll hp⟩
  | disconnect b =>
      exact ⟨own, seen, last, h.disconnect (isDisconnectHandler_cases hstep) hagree⟩
  | scan b fault => exact h.scan (fun r hr => (hagree r hr).2) hstep
  | setUp b => cases hagree
  | bind i b chunk => cases hagree
  | unbind i => cases hagree

end ReadInv

/-! ## Whole runs -/

deriving instance DecidableEq for Request, Event

end Hydra.DataPath
