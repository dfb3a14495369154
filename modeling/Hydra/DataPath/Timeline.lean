/-
  DataPath/Timeline.lean --- the order in which writes of one page end.

  With replication a write ends with the first of its operations that completes.  The
  operations of a queue pair keep their order and an unfinished write has an operation
  on every replica that is left, so the writes of one page end in the order they were
  submitted, and a read completes after every write that was ahead of it has ended.
-/
import Hydra.DataPath.Replicas

set_option autoImplicit false

namespace Hydra.DataPath

open Hydra.Foundation Hydra.Wire Hydra.Manager

variable {Data : Type} {q n : Nat} {s s' : Path Data}

/-- The two requests are for one page. -/
def SamePage (r w : Request Data) : Prop := w.slab = r.slab ∧ w.offset = r.offset

instance (r w : Request Data) : Decidable (SamePage r w) := inferInstanceAs (Decidable (_ ∧ _))

theorem SamePage.symm {r w : Request Data} (h : SamePage r w) : SamePage w r :=
  ⟨h.1.symm, h.2.symm⟩

theorem SamePage.trans {r w w' : Request Data} (h : SamePage r w) (h' : SamePage w w') :
    SamePage r w' :=
  ⟨h'.1.trans h.1, h'.2.trans h.2⟩

/-! ## Countdowns -/

/-- A completion counts down one countdown and no other. -/
theorem Polled.count_eq {B : Build Data} {b : Nat} {o : Op} {pre post : List Op}
    (hp : Polled B s s' b o pre post) (t : Nat) :
    s'.count t = if t = (s.ctx o.ctx).cnt then s.count t - 1 else s.count t := by
  rw [hp.finished.count]
  split
  · rename_i heq
    rw [heq, Function.update_self]
  · rename_i hne
    rw [Function.update_of_ne hne]

/-- What a completion adds to the trace. -/
theorem Polled.trace_cases {B : Build Data} {b : Nat} {o : Op} {pre post : List Op}
    {own : Nat → Request Data} (hp : Polled B s s' b o pre post) (howned : Owned own s) :
    (o.write = true ∧ s.count (s.ctx o.ctx).cnt = 1 ∧
        s'.trace = .endWrite (own (s.ctx o.ctx).cnt) :: s.trace) ∨
      (o.write = false ∧ ∃ page,
        B.assemble s.lost ((s.ctx o.ctx).ctxs.map fun c => (s.ctx c).fault)
          ((s.ctx o.ctx).ctxs.map fun c => (s.ctx c).rdmaBuf) = some page ∧
        s'.trace = readEnd s o (own (s.ctx o.ctx).cnt) page :: s.trace) ∨
      (s.count (s.ctx o.ctx).cnt ≠ 1 ∧ s'.trace = s.trace) := by
  have hreq := (howned o hp.mem).1
  rcases hp.done with ⟨hw, hdone⟩ | ⟨hw, hdone⟩
  · obtain ⟨-, -, -, ⟨hends, r, hr, ht⟩ | ⟨hends, ht⟩⟩ := clientWriteDone_cases hw hdone
    · obtain rfl := Option.some.inj (hreq.symm.trans hr)
      exact Or.inl ⟨hw, hends, ht⟩
    · exact Or.inr (Or.inr ⟨hends, ht⟩)
  · obtain ⟨-, -, -, r, hr, ⟨hends, page, hpage, ht⟩ | ⟨hends, ht⟩⟩ :=
      clientReadDone_cases hw hdone
    · obtain rfl := Option.some.inj (hreq.symm.trans hr)
      exact Or.inr (Or.inl ⟨hw, page, hpage, ht⟩)
    · exact Or.inr (Or.inr ⟨hends, ht⟩)

/-- What the countdowns say about the wire: a write that has not ended has an operation on
every replica that is left, and writes of one page end in the order of their issue. -/
structure Pending (own : Nat → Request Data) (s : Path Data) : Prop where
  one : ∀ t, t < s.nextCount → s.count t ≤ 1
  unended : ∀ t, t < s.nextCount → (own t).write = true → 0 < s.count t →
    ∀ i e, i < 3 → s.map ((own t).slab * 3 + i) = some e →
      ∃ o ∈ s.wire, (s.ctx o.ctx).cnt = t ∧ o.server = e.1
  down : ∀ t t', t < t' → t' < s.nextCount → (own t).write = true → (own t').write = true →
    SamePage (own t) (own t') → s.count t' ≤ 0 → s.count t ≤ 0

namespace Pending

variable {own : Nat → Request Data} {r : Request Data} {new : List Op} {b : Nat} {o : Op}
  {pre post : List Op}

/-- Whatever was written to a page before the operation that completes has ended. -/
theorem ended_before (h : Pending own s) (hr : Routed own s)
    (hp : Polled (Build.rep Data q n) s s' b o pre post) {t : Nat} (ht : t < (s.ctx o.ctx).cnt)
    (hwrite : (own t).write = true) (hpage : SamePage (own (s.ctx o.ctx).cnt) (own t)) :
    s.count t ≤ 0 := by
  by_contra hpos
  have hnext : (s.ctx o.ctx).cnt < s.nextCount :=
    hr.orderly.sound.grp_lt (loan s o) (List.mem_map_of_mem hp.mem)
  have hplaced := hr.placed o hp.mem
  rw [← hpage.1] at hplaced
  obtain ⟨o', ho', hcnt, hserver⟩ := h.unended t (lt_trans ht hnext) hwrite (by omega) o.index _
    (hr.index o hp.mem) hplaced
  -- the operation of the earlier write is on the same queue pair, so it is ahead
  have hserver' : o'.server = b := hserver.trans hp.server
  have horder := hr.order
  rw [hp.wire, List.pairwise_append, List.pairwise_cons] at horder
  rw [hp.wire] at ho'
  rcases List.mem_append.mp ho' with hpre | hpost
  · exact hp.first o' hpre hserver'
  · rcases List.mem_cons.mp hpost with rfl | hpost
    · omega
    · have hle := horder.2.1.1 o' hpost
      omega

theorem issued (h : Pending own s) (hn : Issued s s' r new)
    (hall : r.write = true → ∀ i e, i < 3 → s.map (r.slab * 3 + i) = some e →
      ∃ o ∈ new, o.server = e.1) :
    Pending (Function.update own s.nextCount r) s' := by
  have hold : ∀ t, t < s.nextCount → Function.update own s.nextCount r t = own t ∧
      s'.count t = s.count t := by
    intro t ht
    refine ⟨Function.update_of_ne ht.ne .., ?_⟩
    rw [hn.count, Function.update_of_ne ht.ne]
  have hself : s'.count s.nextCount = 1 := by rw [hn.count, Function.update_self]
  refine ⟨?_, ?_, ?_⟩
  · intro t ht
    rcases hn.lt_or_eq ht with ht | rfl
    · rw [(hold t ht).2]
      exact h.one t ht
    · rw [hself]
  · intro t ht hwrite hpos i e hi hmap
    rw [hn.same.1] at hmap
    rw [hn.grows.wire]
    rcases hn.lt_or_eq ht with ht | rfl
    · rw [(hold t ht).1] at hwrite hmap
      rw [(hold t ht).2] at hpos
      obtain ⟨o, ho, hcnt, hserver⟩ := h.unended t ht hwrite hpos i e hi hmap
      exact ⟨o, List.mem_append_left _ ho, by rw [hn.grows.ctx o ho]; exact hcnt, hserver⟩
    · rw [Function.update_self] at hwrite hmap
      obtain ⟨o, ho, hserver⟩ := hall hwrite i e hi hmap
      exact ⟨o, List.mem_append_right _ ho, (hn.op o ho).2.2.2.2.1, hserver⟩
  · intro t t' htt ht' hw hw' hpage hzero
    rcases hn.lt_or_eq ht' with ht' | rfl
    · rw [(hold t (lt_trans htt ht')).1] at hw hpage
      rw [(hold t' ht').1] at hw' hpage
      rw [(hold t' ht').2] at hzero
      rw [(hold t (lt_trans htt ht')).2]
      exact h.down t t' htt ht' hw hw' hpage hzero
    · rw [hself] at hzero
      omega

theorem polled (h : Pending own s) (hr : Routed own s)
    (hp : Polled (Build.rep Data q n) s s' b o pre post) : Pending own s' := by
  obtain ⟨hmap, -, hnext, -⟩ := hp.finished.same
  have hle : ∀ t, s'.count t ≤ s.count t := by
    intro t
    rw [hp.count_eq]
    split <;> omega
  have hwrite : (own (s.ctx o.ctx).cnt).write = o.write := (hr.owned o hp.mem).2
  refine ⟨?_, ?_, ?_⟩
  · intro t ht
    rw [hnext] at ht
    exact (hle t).trans (h.one t ht)
  · intro t ht hw hpos i e hi hmap'
    rw [hnext] at ht
    rw [hmap] at hmap'
    have hone := h.one t ht
    -- the countdown of the operation that completes has ended
    have hne : t ≠ (s.ctx o.ctx).cnt := by
      intro heq
      rw [hp.count_eq, if_pos heq] at hpos
      omega
    obtain ⟨o', ho', hcnt, hserver⟩ := h.unended t ht hw (by have := hle t; omega) i e hi hmap'
    have hneo : o' ≠ o := by
      rintro rfl
      exact hne hcnt.symm
    have hmem : o' ∈ s'.wire := by
      rw [hp.wire] at ho'
      rw [hp.wire']
      simpa [hneo] using ho'
    exact ⟨o', hmem, by rw [hp.ctx_eq (hp.ctx_ne hr.orderly hmem)]; exact hcnt, hserver⟩
  · intro t t' htt ht' hw hw' hpage hzero
    rw [hnext] at ht'
    refine (hle t).trans ?_
    by_cases heq : t' = (s.ctx o.ctx).cnt
    · subst heq
      exact h.ended_before hr hp htt hw hpage.symm
    · rw [hp.count_eq, if_neg heq] at hzero
      exact h.down t t' htt ht' hw hw' hpage hzero

theorem disconnected (h : Pending own s) (hr : Routed own s)
    (hd : Disconnected (Build.rep Data q n) s s' b) : Pending own s' := by
  obtain ⟨-, hctx, hcount, hnext, -⟩ := hd.same
  refine ⟨by rw [hnext, hcount]; exact h.one, ?_, by rw [hnext, hcount]; exact h.down⟩
  intro t ht hw hpos i e hi hmap
  rw [hnext] at ht
  rw [hcount] at hpos
  obtain ⟨o, ho, hcnt, hserver⟩ := h.unended t ht hw hpos i e hi (hd.map_some hmap)
  have hne : e.1 ≠ b := by
    intro heq
    refine ((hd.serving hr.serving).ne_fail hmap).1 ?_
    rw [heq, hd.cbState, Function.update_self]
  refine ⟨o, hd.mem_wire.mpr ⟨ho, by rw [hserver]; exact hne⟩, ?_, hserver⟩
  rw [hctx]
  exact hcnt

theorem execute (h : Pending own s) (hexec : DataPath.execute s b = some s') : Pending own s' := by
  obtain ⟨hctx, hwire, -, hcount, hnext, hmap, -⟩ := execute_same hexec
  have hcnt : ∀ c, (s'.ctx c).cnt = (s.ctx c).cnt := by
    intro c
    obtain ⟨buf, hbuf⟩ := hctx c
    rw [hbuf]
  refine ⟨by rw [hnext, hcount]; exact h.one, ?_, by rw [hnext, hcount]; exact h.down⟩
  simp only [hwire, hcount, hnext, hmap, hcnt]
  exact h.unended

end Pending

/-! ## Requests and their ends -/

/-- The last write to the page of `r` that has completed, of those submitted before `r`. -/
def lastCompleted (r : Request Data) (trace : List (Event Data)) : Option (Request Data) :=
  trace.findSome? fun
    | .endWrite w => if SamePage r w ∧ w.id < r.id then some w else none
    | _ => none

/-- Of two writes of one page the one submitted later ends later. -/
def EndsInOrder (trace : List (Event Data)) : Prop :=
  trace.Pairwise fun e e' => ∀ w w', e = .endWrite w → e' = .endWrite w' →
    SamePage w w' → w'.id < w.id

theorem EndsInOrder.cons {e : Event Data} {trace : List (Event Data)} (h : EndsInOrder trace)
    (hnew : ∀ w w', e = .endWrite w → .endWrite w' ∈ trace → SamePage w w' → w'.id < w.id) :
    EndsInOrder (e :: trace) := by
  refine List.pairwise_cons.mpr ⟨?_, h⟩
  rintro e' he' w w' hw rfl
  exact hnew w w' hw he'

theorem lastCompleted_spec {r w : Request Data} {trace : List (Event Data)}
    (h : lastCompleted r trace = some w) (hsorted : EndsInOrder trace) :
    .endWrite w ∈ trace ∧ SamePage r w ∧ w.id < r.id ∧
      ∀ w', .endWrite w' ∈ trace → SamePage r w' → w'.id < r.id → w'.id ≤ w.id := by
  obtain ⟨later, e, earlier, rfl, he, hnone⟩ := List.findSome?_eq_some_iff.mp h
  cases e with
  | submit _ => cases he
  | endRead _ _ _ _ => cases he
  | endWrite v =>
      obtain ⟨⟨hpage, hid⟩, rfl⟩ : (SamePage r v ∧ v.id < r.id) ∧ v = w := by simpa using he
      refine ⟨by simp, hpage, hid, fun w' hw' hpage' hid' => ?_⟩
      rcases List.mem_append.mp hw' with hlater | hrest
      · have hcontra := hnone _ hlater
        simp [hpage', hid'] at hcontra
      · rcases List.mem_cons.mp hrest with heq | hearlier
        · obtain rfl := Event.endWrite.inj heq
          exact le_rfl
        · have hpair := (List.pairwise_cons.mp (List.pairwise_append.mp hsorted).2.1).1
          exact (hpair _ hearlier v w' rfl rfl (hpage.symm.trans hpage')).le

/-- A write is the last one submitted for its page only. -/
theorem lastUpdate_of_ne {last : Nat → Nat → Option (Request Data)} {r w : Request Data}
    {v : Option (Request Data)} (hpage : ¬ SamePage r w) :
    Function.update last r.slab (Function.update (last r.slab) r.offset v) w.slab w.offset =
      last w.slab w.offset := by
  by_cases hslab : w.slab = r.slab
  · have hoffset : w.offset ≠ r.offset := fun heq => hpage ⟨hslab, heq⟩
    rw [hslab, Function.update_self, Function.update_of_ne hoffset]
  · rw [Function.update_of_ne hslab]

/-- What the events say about the countdowns.  `last` and `seen` are as for the memory of
the servers. -/
structure History (own : Nat → Request Data) (seen : Nat → Option (Request Data))
    (last : Nat → Nat → Option (Request Data)) (s : Path Data) : Prop where
  ids : ∀ t t', t < t' → t' < s.nextCount → (own t).write = true → (own t').write = true →
    (own t).id < (own t').id
  idlt : ∀ t, t < s.nextCount → (own t).id < s.nextReq
  wrote : ∀ t, t < s.nextCount → (own t).write = true → .submit (own t) ∈ s.trace
  ends : ∀ w, .endWrite w ∈ s.trace ↔
    ∃ t, t < s.nextCount ∧ own t = w ∧ w.write = true ∧ s.count t ≤ 0
  sorted : EndsInOrder s.trace
  lastMax : ∀ t, t < s.nextCount → (own t).write = true →
    ∃ w, last (own t).slab (own t).offset = some w ∧ (own t).id ≤ w.id
  lastSome : ∀ slab offset w, last slab offset = some w →
    ∃ t, t < s.nextCount ∧ own t = w ∧ w.write = true ∧ w.slab = slab ∧ w.offset = offset
  seenMax : ∀ t t', t < s.nextCount → t' < s.nextCount → (own t).write = false →
    (own t').write = true → SamePage (own t) (own t') → (own t').id < (own t).id →
      ∃ w, seen t = some w ∧ (own t').id ≤ w.id
  seenSome : ∀ t w, t < s.nextCount → (own t).write = false → seen t = some w →
    ∃ t', t' < t ∧ own t' = w ∧ w.write = true ∧ SamePage (own t) w

namespace History

variable {own : Nat → Request Data} {seen : Nat → Option (Request Data)}
  {last : Nat → Nat → Option (Request Data)} {r : Request Data} {new : List Op} {b : Nat} {o : Op}
  {pre post : List Op}

theorem eq_of_id (h : History own seen last s) {t t' : Nat} (ht : t < s.nextCount)
    (ht' : t' < s.nextCount) (hw : (own t).write = true) (hw' : (own t').write = true)
    (hid : (own t).id = (own t').id) : t = t' := by
  rcases Nat.lt_trichotomy t t' with hlt | heq | hgt
  · exact absurd (h.ids t t' hlt ht' hw hw') (by omega)
  · exact heq
  · exact absurd (h.ids t' t hgt ht hw' hw) (by omega)

/-- The page a read brings is that of the last completed write, or of one that overlaps it. -/
theorem delivers (h : History own seen last s) (hpend : Pending own s) (hr : Routed own s)
    (hp : Polled (Build.rep Data q n) s s' b o pre post) (hread : o.write = false) {page : Data}
    (hgot : ∀ w, seen (s.ctx o.ctx).cnt = some w → page = w.data) :
    (∀ w, lastCompleted (own (s.ctx o.ctx).cnt) s.trace = some w → page = w.data) ∨
      ∃ w, .submit w ∈ s.trace ∧ w.write = true ∧ SamePage (own (s.ctx o.ctx).cnt) w ∧
        (own (s.ctx o.ctx).cnt).id ≤ w.id ∧ page = w.data := by
  have hnext : (s.ctx o.ctx).cnt < s.nextCount :=
    hr.orderly.sound.grp_lt (loan s o) (List.mem_map_of_mem hp.mem)
  have hreads : (own (s.ctx o.ctx).cnt).write = false := (hr.owned o hp.mem).2.trans hread
  cases hseen : seen (s.ctx o.ctx).cnt with
  | none =>
      -- nothing had been written to the page
      refine Or.inl fun w hw => ?_
      obtain ⟨hend, hpage, hid, -⟩ := lastCompleted_spec hw h.sorted
      obtain ⟨t, ht, rfl, hwrite, -⟩ := (h.ends w).mp hend
      obtain ⟨w', hw', -⟩ := h.seenMax _ t hnext ht hreads hwrite hpage hid
      rw [hseen] at hw'
      cases hw'
  | some w =>
      obtain ⟨t, ht, rfl, hwrite, hpage⟩ := h.seenSome _ w hnext hreads hseen
      have htnext : t < s.nextCount := lt_trans ht hnext
      by_cases hid : (own (s.ctx o.ctx).cnt).id ≤ (own t).id
      · exact Or.inr ⟨own t, h.wrote t htnext hwrite, hwrite, hpage, hid, hgot _ hseen⟩
      · -- the write seen has ended, and no later one has that was submitted before the read
        refine Or.inl fun w' hw' => ?_
        obtain ⟨hend, hpage', hid', hmax⟩ := lastCompleted_spec hw' h.sorted
        obtain ⟨t', ht', rfl, hwrite', -⟩ := (h.ends w').mp hend
        have hended : .endWrite (own t) ∈ s.trace :=
          (h.ends _).mpr ⟨t, htnext, rfl, hwrite, hpend.ended_before hr hp ht hwrite hpage⟩
        have hge := hmax _ hended hpage (by omega)
        obtain ⟨w'', hw'', hle⟩ := h.seenMax _ t' hnext ht' hreads hwrite' hpage' hid'
        obtain rfl : own t = w'' := Option.some.inj (hseen.symm.trans hw'')
        rw [← h.eq_of_id htnext ht' hwrite hwrite' (by omega)]
        exact hgot _ hseen

theorem submitted (h : History own seen last s) :
    History own seen last
      { s with nextReq := s.nextReq + 1, trace := .submit r :: s.trace } where
  ids := h.ids
  idlt := fun t ht => Nat.lt_succ_of_lt (h.idlt t ht)
  wrote := fun t ht hw => List.mem_cons_of_mem _ (h.wrote t ht hw)
  ends := by
    intro w
    rw [← h.ends w]
    simp
  sorted := h.sorted.cons fun w w' hw => by cases hw
  lastMax := h.lastMax
  lastSome := h.lastSome
  seenMax := h.seenMax
  seenSome := h.seenSome

theorem issuedRead (h : History own seen last s) (hn : Issued s s' r new) (hread : r.write = false)
    (hid : r.id < s.nextReq) :
    History (Function.update own s.nextCount r)
      (Function.update seen s.nextCount (last r.slab r.offset)) last s' := by
  obtain ⟨-, -, -, hreq, htrace⟩ := hn.same
  have hown : ∀ t, t < s.nextCount → Function.update own s.nextCount r t = own t :=
    fun t ht => Function.update_of_ne ht.ne ..
  -- a countdown of a write is an old one
  have hwrites : ∀ t, t < s'.nextCount → (Function.update own s.nextCount r t).write = true →
      t < s.nextCount ∧ Function.update own s.nextCount r t = own t := by
    intro t ht hw
    rcases hn.lt_or_eq ht with ht | rfl
    · exact ⟨ht, hown t ht⟩
    · rw [Function.update_self, hread] at hw
      cases hw
  refine ⟨?_, ?_, ?_, ?_, by rw [htrace]; exact h.sorted, ?_, ?_, ?_, ?_⟩
  · intro t t' htt ht' hw hw'
    obtain ⟨ht', heq'⟩ := hwrites t' ht' hw'
    rw [hown t (lt_trans htt ht')] at hw ⊢
    rw [heq'] at hw' ⊢
    exact h.ids t t' htt ht' hw hw'
  · intro t ht
    rw [hreq]
    rcases hn.lt_or_eq ht with ht | rfl
    · rw [hown t ht]
      exact h.idlt t ht
    · rw [Function.update_self]
      exact hid
  · intro t ht hw
    obtain ⟨ht, heq⟩ := hwrites t ht hw
    rw [heq] at hw ⊢
    rw [htrace]
    exact h.wrote t ht hw
  · intro w
    rw [htrace, h.ends w]
    constructor
    · rintro ⟨t, ht, hw, hwrite, hcount⟩
      refine ⟨t, hn.lt_nextCount ht.le, (hown t ht).trans hw, hwrite, ?_⟩
      rw [hn.count, Function.update_of_ne ht.ne]
      exact hcount
    · rintro ⟨t, ht, rfl, hwrite, hcount⟩
      obtain ⟨ht, heq⟩ := hwrites t ht hwrite
      rw [hn.count, Function.update_of_ne ht.ne] at hcount
      exact ⟨t, ht, heq.symm, hwrite, hcount⟩
  · intro t ht hw
    obtain ⟨ht, heq⟩ := hwrites t ht hw
    rw [heq] at hw ⊢
    exact h.lastMax t ht hw
  · intro slab offset w hw
    obtain ⟨t, ht, hown', hrest⟩ := h.lastSome slab offset w hw
    exact ⟨t, hn.lt_nextCount ht.le, (hown t ht).trans hown', hrest⟩
  · intro t t' ht ht' hr hw hpage hids
    obtain ⟨ht', heq'⟩ := hwrites t' ht' hw
    rw [heq'] at hw hpage hids ⊢
    rcases hn.lt_or_eq ht with ht | rfl
    · rw [hown t ht] at hr hpage hids
      rw [Function.update_of_ne ht.ne]
      exact h.seenMax t t' ht ht' hr hw hpage hids
    · rw [Function.update_self] at hpage ⊢
      obtain ⟨w, hlast, hle⟩ := h.lastMax t' ht' hw
      rw [hpage.1, hpage.2] at hlast
      exact ⟨w, hlast, hle⟩
  · intro t w ht hr hseen
    rcases hn.lt_or_eq ht with ht | rfl
    · rw [hown t ht] at hr ⊢
      rw [Function.update_of_ne ht.ne] at hseen
      obtain ⟨t', htt, heq, hrest⟩ := h.seenSome t w ht hr hseen
      exact ⟨t', htt, (hown t' (lt_trans htt ht)).trans heq, hrest⟩
    · rw [Function.update_self] at hseen ⊢
      obtain ⟨t', ht', heq, hwrite, hslab, hoffset⟩ := h.lastSome _ _ w hseen
      exact ⟨t', ht', (hown t' ht').trans heq, hwrite, hslab, hoffset⟩

theorem issuedWrite (h : History own seen last s) (hn : Issued s s' r new)
    (hwrite : r.write = true) (hnew : ∀ t, t < s.nextCount → (own t).id < r.id)
    (hid : r.id < s.nextReq) (hsub : .submit r ∈ s.trace) :
    History (Function.update own s.nextCount r) seen
      (Function.update last r.slab (Function.update (last r.slab) r.offset (some r))) s' := by
  obtain ⟨-, -, -, hreq, htrace⟩ := hn.same
  have hown : ∀ t, t < s.nextCount → Function.update own s.nextCount r t = own t :=
    fun t ht => Function.update_of_ne ht.ne ..
  have hself : Function.update own s.nextCount r s.nextCount = r := Function.update_self ..
  -- a countdown of a read is an old one
  have hreads : ∀ t, t < s'.nextCount → (Function.update own s.nextCount r t).write = false →
      t < s.nextCount ∧ Function.update own s.nextCount r t = own t := by
    intro t ht hr
    rcases hn.lt_or_eq ht with ht | rfl
    · exact ⟨ht, hown t ht⟩
    · rw [hself, hwrite] at hr
      cases hr
  refine ⟨?_, ?_, ?_, ?_, by rw [htrace]; exact h.sorted, ?_, ?_, ?_, ?_⟩
  · intro t t' htt ht' hw hw'
    rcases hn.lt_or_eq ht' with ht' | rfl
    · rw [hown t (lt_trans htt ht')] at hw ⊢
      rw [hown t' ht'] at hw' ⊢
      exact h.ids t t' htt ht' hw hw'
    · rw [hself, hown t htt]
      exact hnew t htt
  · intro t ht
    rw [hreq]
    rcases hn.lt_or_eq ht with ht | rfl
    · rw [hown t ht]
      exact h.idlt t ht
    · rw [hself]
      exact hid
  · intro t ht hw
    rw [htrace]
    rcases hn.lt_or_eq ht with ht | rfl
    · rw [hown t ht] at hw ⊢
      exact h.wrote t ht hw
    · rw [hself]
      exact hsub
  · intro w
    rw [htrace, h.ends w]
    constructor
    · rintro ⟨t, ht, hw, hwr, hcount⟩
      refine ⟨t, hn.lt_nextCount ht.le, (hown t ht).trans hw, hwr, ?_⟩
      rw [hn.count, Function.update_of_ne ht.ne]
      exact hcount
    · rintro ⟨t, ht, hw, hwr, hcount⟩
      rcases hn.lt_or_eq ht with ht | rfl
      · rw [hn.count, Function.update_of_ne ht.ne] at hcount
        exact ⟨t, ht, (hown t ht).symm.trans hw, hwr, hcount⟩
      · rw [hn.count, Function.update_self] at hcount
        omega
  · intro t ht hw
    rcases hn.lt_or_eq ht with ht | rfl
    · rw [hown t ht] at hw ⊢
      obtain ⟨w, hlast, hle⟩ := h.lastMax t ht hw
      by_cases hpage : SamePage r (own t)
      · rw [hpage.1, hpage.2, Function.update_self, Function.update_self]
        exact ⟨r, rfl, (hnew t ht).le⟩
      · exact ⟨w, by rw [lastUpdate_of_ne hpage]; exact hlast, hle⟩
    · rw [hself, Function.update_self, Function.update_self]
      exact ⟨r, rfl, le_rfl⟩
  · intro slab offset w hw
    by_cases hpage : slab = r.slab ∧ offset = r.offset
    · obtain ⟨rfl, rfl⟩ := hpage
      rw [Function.update_self, Function.update_self] at hw
      obtain rfl := Option.some.inj hw
      exact ⟨s.nextCount, hn.lt_nextCount le_rfl, hself, hwrite, rfl, rfl⟩
    · have hw' : last slab offset = some w := by
        rw [← hw]
        exact (lastUpdate_of_ne (w := { r with slab := slab, offset := offset }) hpage).symm
      obtain ⟨t, ht, heq, hrest⟩ := h.lastSome slab offset w hw'
      exact ⟨t, hn.lt_nextCount ht.le, (hown t ht).trans heq, hrest⟩
  · intro t t' ht ht' hr hw hpage hids
    obtain ⟨ht, heq⟩ := hreads t ht hr
    rw [heq] at hr hpage hids
    rcases hn.lt_or_eq ht' with ht' | rfl
    · rw [hown t' ht'] at hw hpage hids ⊢
      exact h.seenMax t t' ht ht' hr hw hpage hids
    · rw [hself] at hids
      exact absurd hids (by have := hnew t ht; omega)
  · intro t w ht hr hseen
    obtain ⟨ht, heq⟩ := hreads t ht hr
    rw [heq] at hr ⊢
    obtain ⟨t', htt, heq', hrest⟩ := h.seenSome t w ht hr hseen
    exact ⟨t', htt, (hown t' (lt_trans htt ht)).trans heq', hrest⟩

/-- A completion that ends a write ends the oldest one of its page that has not ended. -/
theorem polled (h : History own seen last s) (hpend : Pending own s) (hr : Routed own s)
    (hp : Polled (Build.rep Data q n) s s' b o pre post) : History own seen last s' := by
  obtain ⟨-, -, hnext, -, -, hreq⟩ := hp.finished.same
  have hlt : (s.ctx o.ctx).cnt < s.nextCount :=
    hr.orderly.sound.grp_lt (loan s o) (List.mem_map_of_mem hp.mem)
  have hone := hpend.one _ hlt
  have hcount := hp.count_eq
  have hwrite : (own (s.ctx o.ctx).cnt).write = o.write := (hr.owned o hp.mem).2
  have hlog := hp.trace_cases hr.owned
  have hkeep : ∀ e ∈ s.trace, e ∈ s'.trace := by
    intro e he
    rcases hlog with ⟨-, -, ht⟩ | ⟨-, page, -, ht⟩ | ⟨-, ht⟩
    · exact ht ▸ List.mem_cons_of_mem _ he
    · exact ht ▸ List.mem_cons_of_mem _ he
    · exact ht ▸ he
  refine ⟨by rw [hnext]; exact h.ids, by rw [hnext, hreq]; exact h.idlt, ?_, ?_, ?_,
    by rw [hnext]; exact h.lastMax, by rw [hnext]; exact h.lastSome,
    by rw [hnext]; exact h.seenMax, by rw [hnext]; exact h.seenSome⟩
  · intro t ht hw
    rw [hnext] at ht
    exact hkeep _ (h.wrote t ht hw)
  · intro w
    rw [hnext]
    constructor
    · intro hw
      have hold : .endWrite w ∈ s.trace →
          ∃ t, t < s.nextCount ∧ own t = w ∧ w.write = true ∧ s'.count t ≤ 0 := by
        intro hw
        obtain ⟨t, ht, heq, hwr, hzero⟩ := (h.ends w).mp hw
        refine ⟨t, ht, heq, hwr, ?_⟩
        rw [hcount]
        split <;> omega
      rcases hlog with ⟨ho, hends, ht⟩ | ⟨-, page, -, ht⟩ | ⟨-, ht⟩
      · rw [ht] at hw
        rcases List.mem_cons.mp hw with heq | hw
        · obtain rfl := Event.endWrite.inj heq
          exact ⟨_, hlt, rfl, hwrite.trans ho, by rw [hcount, if_pos rfl]; omega⟩
        · exact hold hw
      · rw [ht] at hw
        rcases List.mem_cons.mp hw with heq | hw
        · cases heq
        · exact hold hw
      · exact hold (ht ▸ hw)
    · rintro ⟨t, ht, rfl, hwr, hzero⟩
      rw [hcount] at hzero
      split at hzero
      · rename_i heq
        subst heq
        -- the countdown of the operation: it has just ended, or had ended before
        rcases hlog with ⟨-, -, ht'⟩ | ⟨ho, -⟩ | ⟨hne, -⟩
        · rw [ht']
          exact List.mem_cons_self
        · rw [hwrite, ho] at hwr
          cases hwr
        · exact hkeep _ ((h.ends _).mpr ⟨_, ht, rfl, hwr, by omega⟩)
      · exact hkeep _ ((h.ends _).mpr ⟨t, ht, rfl, hwr, hzero⟩)
  · rcases hlog with ⟨ho, hends, ht⟩ | ⟨-, page, -, ht⟩ | ⟨-, ht⟩
    · rw [ht]
      refine h.sorted.cons fun w w' hw hw' hpage => ?_
      obtain rfl := Event.endWrite.inj hw
      obtain ⟨t', ht', rfl, hwr', hzero⟩ := (h.ends w').mp hw'
      have hlast : t' < (s.ctx o.ctx).cnt := by
        rcases Nat.lt_trichotomy t' (s.ctx o.ctx).cnt with hbefore | rfl | hafter
        · exact hbefore
        · omega
        · have hdown := hpend.down _ t' hafter ht' (hwrite.trans ho) hwr' hpage hzero
          omega
      exact h.ids t' _ hlast hlt hwr' (hwrite.trans ho)
    · rw [ht]
      exact h.sorted.cons fun w w' hw => by cases hw
    · rw [ht]
      exact h.sorted

/-- Steps that end no request and start no countdown. -/
theorem congr (h : History own seen last s) (hcount : s'.count = s.count)
    (hnext : s'.nextCount = s.nextCount) (hreq : s'.nextReq = s.nextReq)
    (htrace : s'.trace = s.trace) : History own seen last s' := by
  obtain ⟨ids, idlt, wrote, ends, sorted, lastMax, lastSome, seenMax, seenSome⟩ := h
  rw [← hnext] at ids idlt wrote ends lastMax lastSome seenMax seenSome
  rw [← hreq] at idlt
  rw [← htrace] at wrote ends sorted
  rw [← hcount] at ends
  exact ⟨ids, idlt, wrote, ends, sorted, lastMax, lastSome, seenMax, seenSome⟩

end History

end Hydra.DataPath
