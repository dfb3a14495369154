/-
  DataPath/Replicas.lean --- replicas behind the queue pairs.

  With replication every operation is for one replica of a page.  The results say
  what the buffers of outstanding operations hold and what a replica will hold when
  the operations waiting for it are done: the page last submitted.
-/
import Hydra.DataPath.Queues

set_option autoImplicit false

namespace Hydra.DataPath

open Hydra.Foundation Hydra.Wire Hydra.Manager

variable {Data : Type} {q n : Nat} {s s' : Path Data}

/-- No chunk of a server backs two chunks of the session. -/
def MapsInjective (map : Nat → Option (Nat × ChunkIx)) : Prop :=
  ∀ i j e, map i = some e → map j = some e → i = j

/-! ## Where operations go -/

/-- Every operation is for the piece it was posted for, which is still mapped there; the
wire is in the order of issue. -/
structure Routed (own : Nat → Request Data) (s : Path Data) : Prop where
  orderly : Orderly (live s) s
  owned : Owned own s
  serving : MapsServing s.map s.cbState
  lost : ∀ c ∈ s.scan, s.cbState c.pool.server = .fail
  inj : MapsInjective s.map
  index : ∀ o ∈ s.wire, o.index < 3
  placed : ∀ o ∈ s.wire, s.map ((own (s.ctx o.ctx).cnt).slab * 3 + o.index) =
    some (o.server, o.chunk)
  offset : ∀ o ∈ s.wire, o.offset = (own (s.ctx o.ctx).cnt).offset
  order : s.wire.Pairwise fun o o' => (s.ctx o.ctx).cnt ≤ (s.ctx o'.ctx).cnt

section Issue

variable {own : Nat → Request Data} {r : Request Data} {fault : Nat → Bool} {ids : List CtxId}
  {free : Pool → List CtxId} {targets : List Nat}

/-- A request as it goes onto the wire: the operations it adds, each with its context. -/
structure Issued (s s' : Path Data) (r : Request Data) (new : List Op) : Prop where
  grows : Grows s s' new
  same : s'.map = s.map ∧ s'.cbState = s.cbState ∧ s'.scan = s.scan ∧ s'.nextReq = s.nextReq ∧
    s'.trace = s.trace
  count : s'.count = Function.update s.count s.nextCount 1
  nextCount : s'.nextCount = s.nextCount + 1
  op : ∀ o ∈ new, o.write = r.write ∧ o.index < 3 ∧ o.offset = r.offset ∧
    s.map (r.slab * 3 + o.index) = some (o.server, o.chunk) ∧
    (s'.ctx o.ctx).cnt = s.nextCount ∧ (s'.ctx o.ctx).req = some r
  held : ∀ o ∈ s.wire, ∀ c ∈ (loan s o).held, live s c.pool.server = true → s'.ctx c = s.ctx c

theorem Issued.lt_or_eq {new : List Op} (hn : Issued s s' r new) {t : Nat}
    (ht : t < s'.nextCount) : t < s.nextCount ∨ t = s.nextCount := by
  rw [hn.nextCount] at ht
  omega

theorem Issued.lt_nextCount {new : List Op} (hn : Issued s s' r new) {t : Nat}
    (ht : t ≤ s.nextCount) : t < s'.nextCount := by
  rw [hn.nextCount]
  omega

theorem Routed.place_live (h : Routed own s) :
    ∀ i b c, s.map i = some (b, c) → live s b = true := by
  intro i b c hi
  rw [live_eq_true]
  exact (h.serving.ne_fail hi).1

theorem Routed.scan_dead (h : Routed own s) : ∀ c ∈ s.scan, live s c.pool.server = false := by
  intro c hc
  simp [live, h.lost c hc]

theorem Routed.issuedWrite (h : Routed own s)
    (ht : Taken (Build.rep Data q n) s r (s.place (Build.rep Data q n) r.slab) ids free) :
    Issued s (afterWrite (Build.rep Data q n) s r (s.place (Build.rep Data q n) r.slab) ids free)
      r (posts (s.place (Build.rep Data q n) r.slab) ids r (List.range 3)) where
  grows := ⟨rfl, rfl, rfl, fun o ho => postPieces_ctx_of_mem ht h.orderly ho⟩
  same := ⟨rfl, rfl, rfl, rfl, rfl⟩
  count := rfl
  nextCount := rfl
  op := by
    intro o ho
    have hctx := ht.ctx_of_mem_write h.orderly (fun i b c hi => h.place_live _ b c hi) ho
    rw [hctx]
    obtain ⟨i, hi, e, c, he, hc, rfl⟩ := mem_posts.mp ho
    exact ⟨rfl, List.mem_range.mp hi, rfl, he, rfl, rfl⟩
  held := fun o ho c hc hlive => postPieces_ctx_of_notMem (ht.held_notMem h.orderly ho hc hlive)

theorem Routed.issuedRead (h : Routed own s)
    (hi : ReadIssued (Build.rep Data q n) s r (s.place (Build.rep Data q n) r.slab) fault ids free
      targets) :
    Issued s
      (afterRead (Build.rep Data q n) s r (s.place (Build.rep Data q n) r.slab) fault ids free
        targets)
      r (posts (s.place (Build.rep Data q n) r.slab) ids r targets) where
  grows := ⟨rfl, rfl, rfl, fun o ho => postPieces_ctx_of_mem hi.taken h.orderly ho⟩
  same := ⟨rfl, rfl, rfl, rfl, rfl⟩
  count := rfl
  nextCount := rfl
  op := by
    intro o ho
    have hplace : ∀ i b c, s.place (Build.rep Data q n) r.slab i = some (b, c) → live s b = true :=
      fun i b c hi => h.place_live _ b c hi
    have hctx := hi.ctx_of_mem_posts h.orderly hplace ho
    rw [hctx]
    obtain ⟨i, hit, e, c, he, hc, rfl⟩ := mem_posts.mp ho
    exact ⟨rfl, (hi.target h.orderly hplace hit).1, rfl, he, rfl, rfl⟩
  held := fun o ho c hc hlive =>
    postPieces_ctx_of_notMem (hi.taken.held_notMem h.orderly ho hc hlive)

theorem Routed.issued {new : List Op} (h : Routed own s) (hn : Issued s s' r new)
    (horderly : Orderly (live s) s') :
    Routed (Function.update own s.nextCount r) s' := by
  obtain ⟨hmap, hstate, hscan, -, -⟩ := hn.same
  have hlt : ∀ o ∈ s.wire, (s.ctx o.ctx).cnt < s.nextCount :=
    fun o ho => h.orderly.sound.grp_lt (loan s o) (List.mem_map_of_mem ho)
  have hold : ∀ o ∈ s.wire, s'.ctx o.ctx = s.ctx o.ctx ∧
      Function.update own s.nextCount r (s'.ctx o.ctx).cnt = own (s.ctx o.ctx).cnt := by
    intro o ho
    have hctx := hn.grows.ctx o ho
    exact ⟨hctx, by rw [hctx, Function.update_of_ne (hlt o ho).ne]⟩
  have hnew : ∀ o ∈ new, Function.update own s.nextCount r (s'.ctx o.ctx).cnt = r := by
    intro o ho
    rw [(hn.op o ho).2.2.2.2.1, Function.update_self]
  refine ⟨by rw [live_congr hstate]; exact horderly, ?_, by rw [hmap, hstate]; exact h.serving,
    by rw [hscan, hstate]; exact h.lost, by rw [hmap]; exact h.inj, ?_, ?_, ?_, ?_⟩
  · intro o ho
    rw [hn.grows.wire] at ho
    rcases List.mem_append.mp ho with ho | ho
    · rw [(hold o ho).2, (hold o ho).1]
      exact h.owned o ho
    · rw [hnew o ho]
      exact ⟨(hn.op o ho).2.2.2.2.2, (hn.op o ho).1.symm⟩
  · intro o ho
    rw [hn.grows.wire] at ho
    exact (List.mem_append.mp ho).elim (h.index o) fun ho => (hn.op o ho).2.1
  · intro o ho
    rw [hn.grows.wire] at ho
    rw [hmap]
    rcases List.mem_append.mp ho with ho | ho
    · rw [(hold o ho).2]
      exact h.placed o ho
    · rw [hnew o ho]
      exact (hn.op o ho).2.2.2.1
  · intro o ho
    rw [hn.grows.wire] at ho
    rcases List.mem_append.mp ho with ho | ho
    · rw [(hold o ho).2]
      exact h.offset o ho
    · rw [hnew o ho]
      exact (hn.op o ho).2.2.1
  · rw [hn.grows.wire, List.pairwise_append]
    refine ⟨h.order.imp_of_mem fun {o o'} ho ho' hle => ?_,
      List.pairwise_of_forall_mem_list fun o ho o' ho' => ?_, fun o ho o' ho' => ?_⟩
    · rw [(hold o ho).1, (hold o' ho').1]
      exact hle
    · rw [(hn.op o ho).2.2.2.2.1, (hn.op o' ho').2.2.2.2.1]
    · rw [(hold o ho).1, (hn.op o' ho').2.2.2.2.1]
      exact (hlt o ho).le

end Issue

namespace Routed

variable {own : Nat → Request Data} {b : Nat} {o : Op} {pre post : List Op}

theorem polled (h : Routed own s) (hp : Polled (Build.rep Data q n) s s' b o pre post) :
    Routed own s' := by
  obtain ⟨hmap, hstate, -, -, hscan, -⟩ := hp.finished.same
  have hkeep : ∀ o' ∈ s'.wire, s'.ctx o'.ctx = s.ctx o'.ctx :=
    fun o' ho' => hp.ctx_eq (hp.ctx_ne h.orderly ho')
  refine ⟨by rw [live_congr hstate]; exact hp.orderly h.orderly, h.owned.polled h.orderly hp,
    by rw [hmap, hstate]; exact h.serving, by rw [hscan, hstate]; exact h.lost,
    by rw [hmap]; exact h.inj, fun o' ho' => h.index o' (hp.mem_of_mem ho'), ?_, ?_, ?_⟩
  · intro o' ho'
    rw [hmap, hkeep o' ho']
    exact h.placed o' (hp.mem_of_mem ho')
  · intro o' ho'
    rw [hkeep o' ho']
    exact h.offset o' (hp.mem_of_mem ho')
  · have hsub : s'.wire.Sublist s.wire := by
      rw [hp.wire, hp.wire']
      exact (List.Sublist.refl pre).append (List.sublist_cons_self o post)
    refine (h.order.sublist hsub).imp_of_mem fun {o₁ o₂} h₁ h₂ hle => ?_
    rw [hkeep o₁ h₁, hkeep o₂ h₂]
    exact hle

theorem execute (h : Routed own s) (hexec : DataPath.execute s b = some s') : Routed own s' := by
  obtain ⟨hctx, hwire, -, -, -, hmap, hstate, hscan, -⟩ := execute_same hexec
  have hcnt : ∀ c, (s'.ctx c).cnt = (s.ctx c).cnt := by
    intro c
    obtain ⟨buf, hbuf⟩ := hctx c
    rw [hbuf]
  refine ⟨by rw [live_congr hstate]; exact h.orderly.execute hexec, h.owned.execute hexec,
    by rw [hmap, hstate]; exact h.serving, by rw [hscan, hstate]; exact h.lost,
    by rw [hmap]; exact h.inj, by rw [hwire]; exact h.index, ?_, ?_, ?_⟩
  · simp only [hwire, hmap, hcnt]
    exact h.placed
  · simp only [hwire, hcnt]
    exact h.offset
  · simp only [hwire, hcnt]
    exact h.order

theorem disconnected (h : Routed own s) (hd : Disconnected (Build.rep Data q n) s s' b) :
    Routed own s' := by
  have hctx := hd.same.2.1
  have hlive : live s' = fun b' => live s b' && !decide (b' = b) := by
    funext b'
    by_cases hb : b' = b
    · simp [live, hd.cbState, hb]
    · simp [live, hd.cbState, hb]
  have hserve := hd.serving h.serving
  refine ⟨by rw [hlive]; exact hd.orderly h.orderly, h.owned.disconnected hd, hserve, ?_,
    fun i j e hi hj => h.inj i j e (hd.map_some hi) (hd.map_some hj),
    fun o ho => h.index o (hd.mem_wire.mp ho).1, ?_, ?_, ?_⟩
  · intro c hc
    rw [hd.cbState]
    by_cases hb : c.pool.server = b
    · rw [hb, Function.update_self]
    · rw [Function.update_of_ne hb]
      rcases hd.mem_scan hc with hold | hnew
      · exact h.lost c hold
      · exact absurd (mem_poolCtxs.mp hnew).2.1 hb
  · intro o ho
    obtain ⟨hmem, hne⟩ := hd.mem_wire.mp ho
    rw [hctx]
    exact hd.map_of_ne (h.placed o hmem) hne
  · intro o ho
    rw [hctx]
    exact h.offset o (hd.mem_wire.mp ho).1
  · rw [hctx, hd.wire]
    exact h.order.sublist List.filter_sublist

/-- A context of a lost server goes back to its pool. -/
theorem putBack (h : Routed own s) {c : CtxId} (hc : c ∈ s.scan) {scan : List CtxId}
    (hscan : ∀ d ∈ scan, d ∈ s.scan) :
    Routed own { s with scan := scan, free := putBack CtxId.pool [c] s.free } := by
  have hdead : live s c.pool.server = false := by simp [live, h.lost c hc]
  exact ⟨⟨h.orderly.sound.putBack hdead, h.orderly.server⟩, h.owned, h.serving,
    fun d hd => h.lost d (hscan d hd), h.inj, h.index, h.placed, h.offset, h.order⟩

end Routed

/-! ## What the servers hold -/

/-- What the queue pairs and the memory behind them say.  `last` is the write last
submitted to each page, `seen` what that was when a countdown of a read started. -/
structure Stored (own : Nat → Request Data) (seen : Nat → Option (Request Data))
    (last : Nat → Nat → Option (Request Data)) (s : Path Data) : Prop where
  posted : ExecutedPosted s
  buf : ∀ o ∈ s.wire, o.write = true → (s.ctx o.ctx).rdmaBuf = (own (s.ctx o.ctx).cnt).data
  final : ∀ slab offset w i e, last slab offset = some w → i < 3 →
    s.map (slab * 3 + i) = some e → memAfter s (waiting s e.1) (e.1, e.2, offset) = w.data
  ahead : ∀ b l o l', waiting s b = l ++ o :: l' → o.write = false →
    ∀ w, seen (s.ctx o.ctx).cnt = some w → memAfter s l o.cell = w.data
  got : ∀ b, ∀ o ∈ fetched s b, o.write = false →
    ∀ w, seen (s.ctx o.ctx).cnt = some w → (s.ctx o.ctx).rdmaBuf = w.data

namespace Stored

variable {own : Nat → Request Data} {seen : Nat → Option (Request Data)}
  {last : Nat → Nat → Option (Request Data)} {r : Request Data} {new : List Op}

/-- An operation in a queue after some have been added is an old one, or all that was
there is ahead of it. -/
theorem split_append {w₁ w₂ l l' : List Op} {o : Op} (h : w₁ ++ w₂ = l ++ o :: l') :
    (∃ rest, w₁ = l ++ o :: rest) ∨ ∃ mid, l = w₁ ++ mid ∧ w₂ = mid ++ o :: l' := by
  rcases List.append_eq_append_iff.mp h with ⟨mid, hl, hw⟩ | ⟨rest, hw, hl⟩
  · exact Or.inr ⟨mid, hl, hw⟩
  · cases rest with
    | nil => exact Or.inr ⟨[], by simpa using hw.symm, by simpa using hl.symm⟩
    | cons o' rest =>
        obtain ⟨rfl, -⟩ := List.cons.inj hl
        exact Or.inl ⟨rest, hw⟩

theorem mem_new_of_filter {b : Nat} {o : Op}
    (ho : o ∈ new.filter fun o => decide (o.server = b)) : o ∈ new ∧ o.server = b := by
  simpa using ho

/-- A read is posted behind everything its page was written with. -/
theorem issueRead (h : Stored own seen last s) (hr : Routed own s) (hn : Issued s s' r new)
    (hread : r.write = false) :
    Stored (Function.update own s.nextCount r)
      (Function.update seen s.nextCount (last r.slab r.offset)) last s' := by
  have hlt : ∀ o ∈ s.wire, (s.ctx o.ctx).cnt < s.nextCount :=
    fun o ho => hr.orderly.sound.grp_lt (loan s o) (List.mem_map_of_mem ho)
  have hctx : ∀ o ∈ s.wire, s'.ctx o.ctx = s.ctx o.ctx := hn.grows.ctx
  have hseen : ∀ o ∈ s.wire, Function.update seen s.nextCount (last r.slab r.offset)
      (s'.ctx o.ctx).cnt = seen (s.ctx o.ctx).cnt := by
    intro o ho
    rw [hctx o ho, Function.update_of_ne (hlt o ho).ne]
  have hreads : ∀ o ∈ new, o.write = false := fun o ho => (hn.op o ho).1.trans hread
  have hwaiting := hn.grows.waiting_eq h.posted
  have hmemAfter : ∀ b l', (∀ o ∈ l', o ∈ new) →
      memAfter s' (waiting s b ++ l') = memAfter s (waiting s b) := by
    intro b l' hl'
    rw [memAfter_append_reads fun o ho => hreads o (hl' o ho),
      hn.grows.memAfter_eq fun o ho => (mem_of_mem_waiting ho).1]
  refine ⟨hn.grows.executedPosted h.posted, ?_, ?_, ?_, ?_⟩
  · intro o ho hwrite
    rw [hn.grows.wire] at ho
    rcases List.mem_append.mp ho with ho | ho
    · rw [hctx o ho, Function.update_of_ne (hlt o ho).ne]
      exact h.buf o ho hwrite
    · rw [hreads o ho] at hwrite
      cases hwrite
  · intro slab offset w i e hlast hi hmap
    rw [hn.same.1] at hmap
    rw [hwaiting, hmemAfter _ _ fun o ho => (mem_new_of_filter ho).1]
    exact h.final slab offset w i e hlast hi hmap
  · intro b l o l' hsplit hr' w hw
    rw [hwaiting] at hsplit
    rcases split_append hsplit with ⟨rest, hold⟩ | ⟨mid, rfl, hnew⟩
    · have hmem : ∀ o' ∈ l ++ o :: rest, o' ∈ s.wire := by
        rw [← hold]
        exact fun o' ho' => (mem_of_mem_waiting ho').1
      rw [hseen o (hmem o (by simp))] at hw
      rw [hn.grows.memAfter_eq fun o' ho' => hmem o' (List.mem_append_left _ ho')]
      exact h.ahead b l o rest hold hr' w hw
    · have hin : ∀ o' ∈ mid ++ o :: l', o' ∈ new ∧ o'.server = b := by
        rw [← hnew]
        exact fun o' ho' => mem_new_of_filter ho'
      obtain ⟨ho, rfl⟩ := hin o (by simp)
      obtain ⟨-, hindex, hoffset, hmap, hcnt, -⟩ := hn.op o ho
      rw [hcnt, Function.update_self] at hw
      rw [hmemAfter _ _ fun o' ho' => (hin o' (List.mem_append_left _ ho')).1]
      have hfinal := h.final _ _ w o.index _ hw hindex hmap
      rwa [← hoffset] at hfinal
  · intro b o ho
    rw [hn.grows.fetched_eq h.posted] at ho
    have hmem := (mem_of_mem_fetched ho).1
    rw [hseen o hmem, hctx o hmem]
    exact h.got b o ho

/-- A write is posted to every replica that is mapped, with its page. -/
theorem issueWrite (h : Stored own seen last s) (hr : Routed own s) (hn : Issued s s' r new)
    (hwrite : r.write = true) (hbuf : ∀ o ∈ new, (s'.ctx o.ctx).rdmaBuf = r.data)
    (hall : ∀ i e, i < 3 → s.map (r.slab * 3 + i) = some e →
      ∃ o ∈ new, o.server = e.1 ∧ o.chunk = e.2) :
    Stored (Function.update own s.nextCount r) seen
      (Function.update last r.slab (Function.update (last r.slab) r.offset (some r))) s' := by
  have hlt : ∀ o ∈ s.wire, (s.ctx o.ctx).cnt < s.nextCount :=
    fun o ho => hr.orderly.sound.grp_lt (loan s o) (List.mem_map_of_mem ho)
  have hctx : ∀ o ∈ s.wire, s'.ctx o.ctx = s.ctx o.ctx := hn.grows.ctx
  have hwrites : ∀ o ∈ new, o.write = true := fun o ho => (hn.op o ho).1.trans hwrite
  have hwaiting := hn.grows.waiting_eq h.posted
  have hwritten : ∀ o ∈ new, written s' o = some ((o.server, o.chunk, r.offset), r.data) := by
    intro o ho
    rw [written, if_pos (hwrites o ho), hbuf o ho, Op.cell, (hn.op o ho).2.2.1]
  have hold : ∀ b, memAfter s' (waiting s b) = memAfter s (waiting s b) := fun b =>
    hn.grows.memAfter_eq fun o ho => (mem_of_mem_waiting ho).1
  refine ⟨hn.grows.executedPosted h.posted, ?_, ?_, ?_, ?_⟩
  · intro o ho hw
    rw [hn.grows.wire] at ho
    rcases List.mem_append.mp ho with ho | ho
    · rw [hctx o ho, Function.update_of_ne (hlt o ho).ne]
      exact h.buf o ho hw
    · rw [hbuf o ho, (hn.op o ho).2.2.2.2.1, Function.update_self]
  · intro slab offset w i e hlast hi hmap
    rw [hn.same.1] at hmap
    rw [hwaiting, memAfter_append, hold]
    by_cases hpage : slab = r.slab ∧ offset = r.offset
    · -- the page written: one of the operations is for this cell, and all carry the page
      obtain ⟨rfl, rfl⟩ := hpage
      rw [Function.update_self, Function.update_self] at hlast
      obtain rfl := Option.some.inj hlast
      refine afterWrites_eq ?_ ?_
      · obtain ⟨o, ho, hserver, hchunk⟩ := hall i e hi hmap
        exact ⟨o, by simp [ho, hserver], by rw [hwritten o ho, hserver, hchunk]⟩
      · intro o ho v hv
        rw [hwritten o (mem_new_of_filter ho).1] at hv
        exact (Prod.mk.inj (Option.some.inj hv)).2.symm
    · -- another page: none of the operations is for this cell
      have hlast' : last slab offset = some w := by
        by_cases hslab : slab = r.slab
        · subst hslab
          have hoffset : offset ≠ r.offset := fun heq => hpage ⟨rfl, heq⟩
          rwa [Function.update_self, Function.update_of_ne hoffset] at hlast
        · rwa [Function.update_of_ne hslab] at hlast
      refine (afterWrites_of_ne ?_).trans (h.final slab offset w i e hlast' hi hmap)
      intro o ho e' he' heq
      obtain ⟨honew, -⟩ := mem_new_of_filter ho
      obtain ⟨-, hindex, -, hmapo, -, -⟩ := hn.op o honew
      rw [hwritten o honew] at he'
      obtain rfl := Option.some.inj he'
      obtain ⟨hserver, hchunk, hoffset⟩ : o.server = e.1 ∧ o.chunk = e.2 ∧ r.offset = offset := by
        simpa using heq
      rw [hserver, hchunk] at hmapo
      have hchunks := hr.inj _ _ _ hmapo hmap
      exact hpage ⟨by omega, hoffset.symm⟩
  · intro b l o l' hsplit hread w hw
    rw [hwaiting] at hsplit
    rcases split_append hsplit with ⟨rest, hsp⟩ | ⟨mid, rfl, hnew⟩
    · have hmem : ∀ o' ∈ l ++ o :: rest, o' ∈ s.wire := by
        rw [← hsp]
        exact fun o' ho' => (mem_of_mem_waiting ho').1
      rw [hctx o (hmem o (by simp))] at hw
      rw [hn.grows.memAfter_eq fun o' ho' => hmem o' (List.mem_append_left _ ho')]
      exact h.ahead b l o rest hsp hread w hw
    · have ho : o ∈ new := by
        have hin : o ∈ new.filter fun o => decide (o.server = b) := by
          rw [hnew]
          simp
        exact (mem_new_of_filter hin).1
      rw [hwrites o ho] at hread
      cases hread
  · intro b o ho
    rw [hn.grows.fetched_eq h.posted] at ho
    rw [hctx o (mem_of_mem_fetched ho).1]
    exact h.got b o ho

variable {b : Nat} {o : Op} {pre post : List Op}

theorem polled (h : Stored own seen last s) (hr : Routed own s)
    (hp : Polled (Build.rep Data q n) s s' b o pre post) : Stored own seen last s' := by
  have hkeep : ∀ o' ∈ s'.wire, s'.ctx o'.ctx = s.ctx o'.ctx :=
    fun o' ho' => hp.ctx_eq (hp.ctx_ne hr.orderly ho')
  have hmemAfter : ∀ b' l, (∀ o' ∈ l, o' ∈ waiting s' b') → memAfter s' l = memAfter s l :=
    fun b' l hl => hp.memAfter_eq hr.orderly fun o' ho' => (mem_of_mem_waiting (hl o' ho')).1
  refine ⟨hp.executedPosted h.posted, ?_, ?_, ?_, ?_⟩
  · intro o' ho' hwrite
    rw [hkeep o' ho']
    exact h.buf o' (hp.mem_of_mem ho') hwrite
  · intro slab offset w i e hlast hi hmap
    rw [hp.finished.same.1] at hmap
    rw [hmemAfter e.1 _ fun o' ho' => ho', hp.waiting_eq]
    exact h.final slab offset w i e hlast hi hmap
  · intro b' l o' l' hsplit hread w hw
    have hin : ∀ o'' ∈ l ++ o' :: l', o'' ∈ waiting s' b' := by
      rw [← hsplit]
      exact fun o'' ho'' => ho''
    rw [hkeep o' (mem_of_mem_waiting (hin o' (by simp))).1] at hw
    rw [hmemAfter b' l fun o'' ho'' => hin o'' (List.mem_append_left _ ho'')]
    rw [hp.waiting_eq] at hsplit
    exact h.ahead b' l o' l' hsplit hread w hw
  · intro b' o' ho'
    rw [hkeep o' (mem_of_mem_fetched ho').1]
    exact h.got b' o' (hp.fetched_subset ho')

theorem executed (h : Stored own seen last s) (hr : Routed own s) (he : Executed s s' b o)
    (hexec : execute s b = some s') : Stored own seen last s' := by
  obtain ⟨hctx, hwire, -, -, -, hmap, -⟩ := execute_same hexec
  have hcnt : ∀ c, (s'.ctx c).cnt = (s.ctx c).cnt := by
    intro c
    obtain ⟨buf, hbuf⟩ := hctx c
    rw [hbuf]
  have hin : ∀ b', ∀ o' ∈ waiting s' b', o' ∈ s.wire := by
    intro b' o' ho'
    rw [← hwire]
    exact (mem_of_mem_waiting ho').1
  refine ⟨he.posted h.posted, ?_, ?_, ?_, ?_⟩
  · intro o' ho' hwrite
    rw [hwire] at ho'
    rw [he.ctx_eq hr.orderly ho' (Or.inr hwrite)]
    exact h.buf o' ho' hwrite
  · intro slab offset w i e hlast hi hmap'
    rw [hmap] at hmap'
    have hfinal := h.final slab offset w i e hlast hi hmap'
    by_cases hb : e.1 = b
    · rw [hb] at hfinal ⊢
      rw [he.memAfter_self hr.orderly (hin b), ← he.waiting]
      exact hfinal
    · rw [(he.others e.1 hb).1, he.memAfter_of_ne hr.orderly _ hb]
      · exact hfinal
      · exact fun o' ho' => (mem_of_mem_waiting ho').1
  · intro b' l o' l' hsplit hread w hw
    rw [hcnt] at hw
    have hmem : ∀ o'' ∈ l, o'' ∈ s.wire := by
      intro o'' ho''
      refine hin b' o'' ?_
      rw [hsplit]
      exact List.mem_append_left _ ho''
    by_cases hb : b' = b
    · subst hb
      rw [he.memAfter_self hr.orderly hmem]
      refine h.ahead b' (o :: l) o' l' ?_ hread w hw
      rw [he.waiting, hsplit]
      rfl
    · have hserver : o'.server = b' := by
        have ho' : o' ∈ waiting s' b' := by
          rw [hsplit]
          simp
        exact (mem_of_mem_waiting ho').2
      rw [he.memAfter_of_ne hr.orderly hmem (by rw [Op.cell, hserver]; exact hb)]
      rw [(he.others b' hb).1] at hsplit
      exact h.ahead b' l o' l' hsplit hread w hw
  · intro b' o' ho' hread w hw
    rw [hcnt] at hw
    -- the operation just executed reads the page as it is now
    have hself : o.write = false → seen (s.ctx o.ctx).cnt = some w →
        (s'.ctx o.ctx).rdmaBuf = w.data := by
      intro hread' hw'
      rcases he.effect with ⟨hwrite, -⟩ | ⟨-, -, hbuf⟩
      · rw [hread'] at hwrite
        cases hwrite
      · rw [hbuf, Function.update_self]
        exact h.ahead b [] o (waiting s' b) he.waiting hread' w hw'
    by_cases heq : o' = o
    · subst heq
      exact hself hread hw
    · have hold : o' ∈ fetched s b' := by
        by_cases hb : b' = b
        · subst hb
          rw [he.fetched] at ho'
          rcases List.mem_append.mp ho' with ho' | ho'
          · exact ho'
          · exact absurd (List.mem_singleton.mp ho') heq
        · rwa [(he.others b' hb).2] at ho'
      rw [he.ctx_eq hr.orderly (mem_of_mem_fetched hold).1 (Or.inl heq)]
      exact h.got b' o' hold hread w hw

theorem disconnected (h : Stored own seen last s) (hr : Routed own s)
    (hd : Disconnected (Build.rep Data q n) s s' b) : Stored own seen last s' := by
  have hctx := hd.same.2.1
  refine ⟨hd.executedPosted h.posted, ?_, ?_, ?_, ?_⟩
  · intro o ho
    rw [hctx]
    exact h.buf o (hd.mem_wire.mp ho).1
  · intro slab offset w i e hlast hi hmap
    have hne : e.1 ≠ b := by
      intro heq
      refine ((hd.serving hr.serving).ne_fail hmap).1 ?_
      rw [heq, hd.cbState, Function.update_self]
    rw [hd.memAfter_eq, hd.waiting_of_ne hne]
    exact h.final slab offset w i e hlast hi (hd.map_some hmap)
  · intro b' l o l' hsplit
    by_cases hb : b' = b
    · have hnil : waiting s' b' = [] := by
        rw [waiting, hb, hd.queue_self, List.drop_nil]
      rw [hnil] at hsplit
      simp at hsplit
    · rw [hd.waiting_of_ne hb] at hsplit
      rw [hctx, hd.memAfter_eq]
      exact h.ahead b' l o l' hsplit
  · intro b' o ho
    by_cases hb : b' = b
    · rw [fetched, hb, hd.queue_self, List.take_nil] at ho
      cases ho
    · rw [hd.fetched_of_ne hb] at ho
      rw [hctx]
      exact h.got b' o ho

end Stored

end Hydra.DataPath
