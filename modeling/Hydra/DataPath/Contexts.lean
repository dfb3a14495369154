/-
  DataPath/Contexts.lean --- the contexts of the data path as a ledger of loans.

  An outstanding operation holds contexts: a write its own, a read all that were
  taken with it.  The results say that issuing, executing and finishing operations
  are the steps of `Foundation.Lending`, as long as the servers they are on have
  their pools in order.
-/
import Hydra.DataPath.Path

set_option autoImplicit false

namespace Hydra.DataPath

open Hydra.Foundation Hydra.Wire Hydra.Manager

variable {Data : Type} {B : Build Data} {s s' : Path Data} {r : Request Data}
  {place : Nat → Option (Nat × ChunkIx)} {fault : Nat → Bool}

/-! ## The ledger -/

/-- An outstanding operation with what it holds. -/
def loan (s : Path Data) (o : Op) : Loan CtxId where
  on := o.ctx
  held := if o.write then [o.ctx] else (s.ctx o.ctx).ctxs
  grp := (s.ctx o.ctx).cnt
  joint := !o.write

/-- The contexts of the data path: free, lent and counted. -/
def Path.ledger (s : Path Data) : Ledger Pool CtxId where
  free := s.free
  loans := s.wire.map (loan s)
  count := s.count
  next := s.nextCount

/-- No context of the servers `ok` is in two places, and operations run on contexts of
their server. -/
structure Orderly (ok : Nat → Bool) (s : Path Data) : Prop where
  sound : Sound CtxId.pool (fun p => ok p.server) s.ledger
  server : ∀ o ∈ s.wire, o.ctx.pool.server = o.server

variable {ok : Nat → Bool}

theorem loan_congr {o : Op} (hctx : s'.ctx o.ctx = s.ctx o.ctx) : loan s' o = loan s o := by
  simp [loan, hctx]

theorem Orderly.server_ok (h : Orderly ok s) {o : Op} (ho : o ∈ s.wire) : ok o.server = true := by
  rw [← h.server o ho]
  exact (h.sound.fits (loan s o) (List.mem_map_of_mem ho)).on_ok

theorem Orderly.ctx_notMem_free (h : Orderly ok s) {o : Op} (ho : o ∈ s.wire) {p : Pool} :
    o.ctx ∉ s.free p :=
  h.sound.on_notMem_free (List.mem_map_of_mem (f := loan s) ho)

/-- Two operations in different places run on different contexts. -/
theorem Orderly.ctx_nodup (h : Orderly ok s) : (s.wire.map Op.ctx).Nodup := by
  have hapart := h.sound.apart
  rw [Path.ledger, List.pairwise_map] at hapart
  rw [List.Nodup, List.pairwise_map]
  exact hapart.imp fun hv => hv.1

theorem Orderly.eq_of_ctx (h : Orderly ok s) {o o' : Op} (ho : o ∈ s.wire) (ho' : o' ∈ s.wire)
    (heq : o.ctx = o'.ctx) : o = o' :=
  List.inj_on_of_nodup_map h.ctx_nodup ho ho' heq

/-! ## Pieces -/

theorem mem_posts {ids : List CtxId} {pieces : List Nat} {o : Op} :
    o ∈ posts place ids r pieces ↔ ∃ i ∈ pieces, ∃ e c, place i = some e ∧ ids[i]? = some c ∧
      o = ⟨e.1, c, r.write, e.2, r.offset, i⟩ := by
  simp only [posts, List.mem_filterMap, Option.bind_eq_some_iff, Option.map_eq_some_iff]
  constructor
  · rintro ⟨i, hi, e, he, c, hc, rfl⟩
    exact ⟨i, hi, e, c, he, hc, rfl⟩
  · rintro ⟨i, hi, e, c, he, hc, rfl⟩
    exact ⟨i, hi, e, he, c, hc, rfl⟩

/-- A piece that is good is mapped, and its context has no fault. -/
theorem good_iff {ctx : CtxId → Ctx Data} {ids : List CtxId} {i : Nat} :
    good ctx place ids i = true ↔
      (∃ e, place i = some e) ∧ ∃ c, ids[i]? = some c ∧ (ctx c).fault = false := by
  unfold good
  cases hplace : place i with
  | none => simp
  | some e => cases hids : ids[i]? <;> simp

/-- The loop posts as many good pieces as there are data pieces, all different. -/
theorem readTargets_spec {isGood : Nat → Bool} {ndisks : Nat} {pieces targets : List Nat} {j : Nat}
    (hnodup : pieces.Nodup) (hbelow : ∀ i ∈ pieces, i < j)
    (hpost : readTargets isGood ndisks pieces j = some targets) :
    targets.Nodup ∧ targets.length = pieces.length ∧ (∀ t ∈ targets, isGood t = true) ∧
      ∀ t ∈ targets, t ∈ pieces ∨ j ≤ t ∧ t < ndisks := by
  induction pieces generalizing j targets with
  | nil =>
      obtain rfl : [] = targets := by simpa [readTargets] using hpost
      simp
  | cons i rest ih =>
      obtain ⟨hi, hrest⟩ := List.nodup_cons.mp hnodup
      have hilt : i < j := hbelow i List.mem_cons_self
      have hbelow' : ∀ k ∈ rest, k < j := fun k hk => hbelow k (List.mem_cons_of_mem i hk)
      rw [readTargets] at hpost
      split at hpost
      · rename_i hgood
        obtain ⟨more, hmore, rfl⟩ := Option.map_eq_some_iff.mp hpost
        obtain ⟨hn, hlen, hall, hwhere⟩ := ih hrest hbelow' hmore
        refine ⟨List.nodup_cons.mpr ⟨?_, hn⟩, by simp [hlen], ?_, ?_⟩
        · intro hmem
          rcases hwhere i hmem with hmem' | ⟨hle, -⟩
          · exact hi hmem'
          · omega
        · simpa [hgood] using hall
        · intro t ht
          rcases List.mem_cons.mp ht with rfl | ht
          · exact Or.inl List.mem_cons_self
          · exact (hwhere t ht).imp_left (List.mem_cons_of_mem i)
      · split at hpost
        · cases hpost
        · rename_i p hfind
          obtain ⟨more, hmore, rfl⟩ := Option.map_eq_some_iff.mp hpost
          have hpgood : isGood p = true := List.find?_some hfind
          have hprange := List.mem_of_find?_eq_some hfind
          rw [List.mem_range'_1] at hprange
          obtain ⟨hn, hlen, hall, hwhere⟩ :=
            ih hrest (fun k hk => lt_of_lt_of_le (hbelow' k hk) (by omega)) hmore
          refine ⟨List.nodup_cons.mpr ⟨?_, hn⟩, by simp [hlen], ?_, ?_⟩
          · intro hmem
            rcases hwhere p hmem with hmem' | ⟨hle, -⟩
            · exact absurd (hbelow' p hmem') (by omega)
            · omega
          · simpa [hpgood] using hall
          · intro t ht
            rcases List.mem_cons.mp ht with rfl | ht
            · exact Or.inr ⟨by omega, by omega⟩
            · rcases hwhere t ht with hmem | ⟨hle, hlt⟩
              · exact Or.inl (List.mem_cons_of_mem i hmem)
              · exact Or.inr ⟨by omega, hlt⟩

/-! ## Taking contexts -/

/-- What the loop over `IS_get_ctx` returns: one context for each piece, off the top of
its pool. -/
structure Taken (B : Build Data) (s : Path Data) (r : Request Data)
    (place : Nat → Option (Nat × ChunkIx)) (ids : List CtxId) (free : Pool → List CtxId) :
    Prop where
  length : ids.length = B.ndisks
  pool : ∀ (i : Nat) (c : CtxId), ids[i]? = some c →
    c.pool = ⟨r.connId, ((place i).map Prod.fst).getD i⟩
  split : ∀ p, s.free p = (ids.filter fun c => decide (c.pool = p)) ++ free p

theorem taken_of_takeEach {ids : List CtxId} {free : Pool → List CtxId}
    (hown : ∀ p c, c ∈ s.free p → c.pool = p)
    (htake : takeEach s.free (poolsFor B r place) = some (ids, free)) :
    Taken B s r place ids free := by
  obtain ⟨hpools, hsplit⟩ := takeEach_spec hown htake
  have hlength : ids.length = B.ndisks := by
    have hlen := congrArg List.length hpools
    simpa [poolsFor] using hlen
  refine ⟨hlength, fun i c hc => ?_, hsplit⟩
  have hlt : i < B.ndisks := by
    rw [← hlength]
    exact (List.getElem?_eq_some_iff.mp hc).1
  have hget : (ids.map CtxId.pool)[i]? = (poolsFor B r place)[i]? := by rw [hpools]
  simpa [poolsFor, hc, hlt] using hget

namespace Taken

variable {ids : List CtxId} {free : Pool → List CtxId}

theorem mem_free (ht : Taken B s r place ids free) {c : CtxId} (hc : c ∈ ids) :
    c ∈ s.free c.pool := by
  rw [ht.split]
  simp [hc]

/-- The context of a mapped piece is one of its server's. -/
theorem pool_server (ht : Taken B s r place ids free) {i : Nat} {c : CtxId} {e : Nat × ChunkIx}
    (hc : ids[i]? = some c) (he : place i = some e) : c.pool.server = e.1 := by
  rw [ht.pool i c hc, he]
  rfl

theorem count_le (ht : Taken B s r place ids free) (h : Orderly ok s) {c : CtxId}
    (hc : ok c.pool.server = true) : ids.count c ≤ 1 := by
  have hnodup : (s.free c.pool).Nodup := h.sound.free_nodup c.pool hc
  rw [ht.split c.pool] at hnodup
  have hle := List.nodup_iff_count_le_one.mp hnodup.of_append_left c
  rwa [List.count_filter (by simp)] at hle

/-- Contexts of outstanding operations are not taken. -/
theorem ctx_notMem (ht : Taken B s r place ids free) (h : Orderly ok s) {o : Op}
    (ho : o ∈ s.wire) : o.ctx ∉ ids :=
  fun hmem => h.ctx_notMem_free ho (ht.mem_free hmem)

/-- Nor are those an outstanding read holds. -/
theorem held_notMem (ht : Taken B s r place ids free) (h : Orderly ok s) {o : Op}
    (ho : o ∈ s.wire) {c : CtxId} (hc : c ∈ (loan s o).held) (hok : ok c.pool.server = true) :
    c ∉ ids :=
  fun hmem => h.sound.held_free (loan s o) (List.mem_map_of_mem ho) c hc hok (ht.mem_free hmem)

end Taken

/-! ## Posting pieces -/

section PostPieces

variable {ids : List CtxId} {free free' : Pool → List CtxId} {pieces : List Nat}
  {write : Nat → Ctx Data → Ctx Data}

@[simp] theorem postPieces_free :
    (postPieces B s r place write ids free pieces).free = free := rfl

@[simp] theorem postPieces_count :
    (postPieces B s r place write ids free pieces).count =
      Function.update s.count s.nextCount B.ndatas := rfl

@[simp] theorem postPieces_nextCount :
    (postPieces B s r place write ids free pieces).nextCount = s.nextCount + 1 := rfl

@[simp] theorem postPieces_wire :
    (postPieces B s r place write ids free pieces).wire = s.wire ++ posts place ids r pieces := rfl

@[simp] theorem postPieces_map :
    (postPieces B s r place write ids free pieces).map = s.map := rfl

@[simp] theorem postPieces_cbState :
    (postPieces B s r place write ids free pieces).cbState = s.cbState := rfl

@[simp] theorem postPieces_executed :
    (postPieces B s r place write ids free pieces).executed = s.executed := rfl

@[simp] theorem postPieces_mem :
    (postPieces B s r place write ids free pieces).mem = s.mem := rfl

@[simp] theorem postPieces_scan :
    (postPieces B s r place write ids free pieces).scan = s.scan := rfl

@[simp] theorem postPieces_nextReq :
    (postPieces B s r place write ids free pieces).nextReq = s.nextReq := rfl

@[simp] theorem postPieces_trace :
    (postPieces B s r place write ids free pieces).trace = s.trace := rfl

theorem postPieces_ctx_of_notMem {c : CtxId} (hc : c ∉ ids) :
    (postPieces B s r place write ids free' pieces).ctx c = s.ctx c := by
  refine updateEach_of_notMem write s.ctx ?_
  rintro ⟨d, i⟩ hmem rfl
  exact hc (List.fst_mem_of_mem_zipIdx hmem)

theorem postPieces_ctx_at (ht : Taken B s r place ids free) (h : Orderly ok s) {c : CtxId} {i : Nat}
    (hi : ids[i]? = some c) (hc : ok c.pool.server = true) :
    (postPieces B s r place write ids free' pieces).ctx c = write i (s.ctx c) :=
  updateEach_zipIdx write s.ctx hi (ht.count_le h hc)

/-- The operations that were outstanding see their contexts as they were. -/
theorem postPieces_ctx_of_mem (ht : Taken B s r place ids free) (h : Orderly ok s) {o : Op}
    (ho : o ∈ s.wire) :
    (postPieces B s r place write ids free' pieces).ctx o.ctx = s.ctx o.ctx :=
  postPieces_ctx_of_notMem (ht.ctx_notMem h ho)

/-- The operations posted run on different contexts of servers in order. -/
theorem posts_ctx_nodup (ht : Taken B s r place ids free) (h : Orderly ok s)
    (hplace : ∀ i b c, place i = some (b, c) → ok b = true) (hnodup : pieces.Nodup) :
    ((posts place ids r pieces).map Op.ctx).Nodup := by
  rw [List.Nodup, List.pairwise_map]
  refine List.Pairwise.filterMap _ ?_ hnodup
  intro i j hij o ho o' ho' heq
  simp only [Option.bind_eq_some_iff, Option.map_eq_some_iff] at ho ho'
  obtain ⟨e, he, c, hc, rfl⟩ := ho
  obtain ⟨e', -, c', hc', rfl⟩ := ho'
  obtain rfl : c = c' := heq
  have hok : ok c.pool.server = true := by
    rw [ht.pool_server hc he]
    exact hplace i e.1 e.2 he
  exact hij (eq_of_getElem?_of_count_le (ht.count_le h hok) hc hc')

theorem posts_server (ht : Taken B s r place ids free) {o : Op}
    (ho : o ∈ posts place ids r pieces) : o.ctx.pool.server = o.server := by
  obtain ⟨i, -, e, c, he, hc, rfl⟩ := mem_posts.mp ho
  exact ht.pool_server hc he

theorem posts_ok (hplace : ∀ i b c, place i = some (b, c) → ok b = true) {o : Op}
    (ho : o ∈ posts place ids r pieces) : ok o.server = true := by
  obtain ⟨i, -, e, c, he, -, rfl⟩ := mem_posts.mp ho
  exact hplace i e.1 e.2 he

/-- The loans after posting. -/
theorem postPieces_loans (ht : Taken B s r place ids free) (h : Orderly ok s) :
    (postPieces B s r place write ids free' pieces).ledger.loans =
      s.ledger.loans ++ (posts place ids r pieces).map
        (loan (postPieces B s r place write ids free' pieces)) := by
  have hold : s.wire.map (loan (postPieces B s r place write ids free' pieces)) =
      s.wire.map (loan s) :=
    List.map_congr_left fun o ho => loan_congr (postPieces_ctx_of_mem ht h ho)
  simp [Path.ledger, hold]

theorem postPieces_server (ht : Taken B s r place ids free) (h : Orderly ok s) :
    ∀ o ∈ (postPieces B s r place write ids free' pieces).wire, o.ctx.pool.server = o.server := by
  intro o ho
  rw [postPieces_wire, List.mem_append] at ho
  exact ho.elim (h.server o) (posts_server ht)

end PostPieces

/-! ## Reads -/

/-- A read that is issued. -/
structure ReadIssued (B : Build Data) (s : Path Data) (r : Request Data)
    (place : Nat → Option (Nat × ChunkIx)) (fault : Nat → Bool) (ids : List CtxId)
    (free : Pool → List CtxId) (targets : List Nat) : Prop where
  taken : Taken B s r place ids free
  mapped : ∀ i, i < B.ndisks → fault i = true → place i ≠ none
  posted : readTargets
    (good (updateEach (readCtx r s.nextCount place fault ids) ids.zipIdx s.ctx) place ids)
    B.ndisks (List.range B.ndatas) B.ndatas = some targets

/-- The data path after it. -/
def afterRead (B : Build Data) (s : Path Data) (r : Request Data)
    (place : Nat → Option (Nat × ChunkIx)) (fault : Nat → Bool) (ids : List CtxId)
    (free : Pool → List CtxId) (targets : List Nat) : Path Data :=
  postPieces B s r place (readCtx r s.nextCount place fault ids) ids free targets

theorem isRdmaRead_cases (hown : ∀ p c, c ∈ s.free p → c.pool = p)
    (hread : isRdmaRead B s r place fault = some s') :
    ∃ ids free targets, ReadIssued B s r place fault ids free targets ∧
      s' = afterRead B s r place fault ids free targets := by
  obtain ⟨⟨ids, free⟩, htake, hrest⟩ := Option.bind_eq_some_iff.mp hread
  dsimp only at hrest
  split at hrest
  · cases hrest
  · rename_i hfault
    obtain ⟨targets, htargets, rfl⟩ := Option.map_eq_some_iff.mp hrest
    refine ⟨ids, free, targets, ⟨taken_of_takeEach hown htake, ?_, htargets⟩, rfl⟩
    intro i hi hfi hplace
    exact hfault ⟨i, List.mem_range.mpr hi, hfi, hplace⟩

namespace ReadIssued

variable {ids : List CtxId} {free : Pool → List CtxId} {targets : List Nat}

/-- Each piece posted is mapped and its context has no fault. -/
theorem target (hi : ReadIssued B s r place fault ids free targets) (h : Orderly ok s)
    (hplace : ∀ i b c, place i = some (b, c) → ok b = true) {t : Nat} (ht : t ∈ targets) :
    t < B.ndisks ∧ fault t = false ∧ ∃ e c, place t = some e ∧ ids[t]? = some c := by
  have hbelow : ∀ i ∈ List.range B.ndatas, i < B.ndatas := fun i hi => List.mem_range.mp hi
  obtain ⟨-, -, hgood, -⟩ := readTargets_spec List.nodup_range hbelow hi.posted
  obtain ⟨⟨e, he⟩, c, hc, hfault⟩ := good_iff.mp (hgood t ht)
  have hok : ok c.pool.server = true := by
    rw [hi.taken.pool_server hc he]
    exact hplace t e.1 e.2 he
  rw [updateEach_zipIdx _ s.ctx hc (hi.taken.count_le h hok)] at hfault
  refine ⟨?_, by simpa [readCtx, he] using hfault, e, c, he, hc⟩
  rw [← hi.taken.length]
  exact (List.getElem?_eq_some_iff.mp hc).1

theorem targets_nodup (hi : ReadIssued B s r place fault ids free targets) : targets.Nodup :=
  (readTargets_spec List.nodup_range (fun _ hi => List.mem_range.mp hi) hi.posted).1

theorem posts_length (hi : ReadIssued B s r place fault ids free targets) (h : Orderly ok s)
    (hplace : ∀ i b c, place i = some (b, c) → ok b = true) :
    (posts place ids r targets).length = B.ndatas := by
  have hlen := (readTargets_spec List.nodup_range (fun _ hi => List.mem_range.mp hi) hi.posted).2.1
  rw [posts, List.length_filterMap_eq_countP, List.countP_eq_length.mpr, hlen, List.length_range]
  intro t ht
  obtain ⟨-, -, e, c, he, hc⟩ := hi.target h hplace ht
  simp [he, hc]

/-- The context of an operation posted, as the read has written it. -/
theorem ctx_of_mem_posts (hi : ReadIssued B s r place fault ids free targets) (h : Orderly ok s)
    (hplace : ∀ i b c, place i = some (b, c) → ok b = true) {o : Op}
    (ho : o ∈ posts place ids r targets) :
    (afterRead B s r place fault ids free targets).ctx o.ctx =
      { s.ctx o.ctx with
        inFlight := .read
        req := some r
        cnt := s.nextCount
        ctxs := ids
        fault := false } := by
  obtain ⟨t, ht, e, c, he, hc, rfl⟩ := mem_posts.mp ho
  have hok : ok c.pool.server = true := by
    rw [hi.taken.pool_server hc he]
    exact hplace t e.1 e.2 he
  have hfault := (hi.target h hplace ht).2.1
  rw [afterRead, postPieces_ctx_at hi.taken h hc hok]
  simp [readCtx, he, hfault]

theorem issue (hi : ReadIssued B s r place fault ids free targets) (h : Orderly ok s)
    (hplace : ∀ i b c, place i = some (b, c) → ok b = true) (hr : r.write = false) :
    Ledger.Issue CtxId.pool s.ledger (afterRead B s r place fault ids free targets).ledger ids
      (((posts place ids r targets).map Op.ctx).map fun c => ⟨c, ids, s.nextCount, true⟩)
      B.ndatas where
  free := fun p => by
    rw [show s.ledger.free p = s.free p from rfl, hi.taken.split p]
    exact List.Perm.refl _
  loans := by
    rw [afterRead, postPieces_loans hi.taken h, List.map_map]
    refine congrArg _ (List.map_congr_left fun o ho => ?_)
    have hctx := hi.ctx_of_mem_posts h hplace ho
    have hwrite : o.write = false := by
      obtain ⟨i, -, e, c, -, -, rfl⟩ := mem_posts.mp ho
      exact hr
    rw [afterRead] at hctx
    simp [loan, hctx, hwrite]
  grp := by
    intro v hv
    obtain ⟨c, -, rfl⟩ := List.mem_map.mp hv
    rfl
  count := rfl
  next := rfl

/-- A read keeps the pools in order. -/
theorem orderly (hi : ReadIssued B s r place fault ids free targets) (h : Orderly ok s)
    (hplace : ∀ i b c, place i = some (b, c) → ok b = true) (hr : r.write = false) :
    Orderly ok (afterRead B s r place fault ids free targets) where
  sound := by
    refine h.sound.issueJoint (hi.issue h hplace hr)
      (posts_ctx_nodup hi.taken h hplace hi.targets_nodup) ?_ ?_
    · intro c hc
      obtain ⟨o, ho, rfl⟩ := List.mem_map.mp hc
      have hserver := posts_server hi.taken ho
      refine ⟨?_, by rw [hserver]; exact posts_ok hplace ho⟩
      obtain ⟨i, -, e, c, -, hget, rfl⟩ := mem_posts.mp ho
      exact List.mem_of_getElem? hget
    · rw [List.length_map]
      exact (hi.posts_length h hplace).le
  server := postPieces_server hi.taken h

end ReadIssued

/-! ## Writes -/

/-- The data path after a write has been posted. -/
def afterWrite (B : Build Data) (s : Path Data) (r : Request Data)
    (place : Nat → Option (Nat × ChunkIx)) (ids : List CtxId) (free : Pool → List CtxId) :
    Path Data :=
  postPieces B s r place (writeCtx B r s.nextCount place) ids
    (putBack CtxId.pool (unmappedCtxs place ids) free) (List.range B.ndisks)

theorem isRdmaWrite_cases (hown : ∀ p c, c ∈ s.free p → c.pool = p)
    (hwrite : isRdmaWrite B s r place = some s') :
    ∃ ids free, Taken B s r place ids free ∧ s' = afterWrite B s r place ids free := by
  obtain ⟨⟨ids, free⟩, htake, rfl⟩ := Option.map_eq_some_iff.mp hwrite
  exact ⟨ids, free, taken_of_takeEach hown htake, rfl⟩

/-- The operations of a write run on the contexts of the mapped pieces. -/
theorem posts_range_ctx (ids : List CtxId) :
    (posts place ids r (List.range ids.length)).map Op.ctx =
      (ids.zipIdx.filter fun e => (place e.2).isSome).map Prod.fst := by
  induction ids using List.reverseRecOn with
  | nil => rfl
  | append_singleton front c ih =>
      have hfront : posts place (front ++ [c]) r (List.range front.length) =
          posts place front r (List.range front.length) := by
        refine List.filterMap_congr fun i hi => ?_
        rw [List.getElem?_append_left (List.mem_range.mp hi)]
      have hlast : posts place (front ++ [c]) r (List.range (front.length + 1)) =
          posts place (front ++ [c]) r (List.range front.length) ++
            posts place (front ++ [c]) r [front.length] := by
        rw [posts, List.range_succ, List.filterMap_append]
        rfl
      rw [List.length_append, List.length_singleton, hlast, List.map_append, hfront, ih,
        List.zipIdx_append, List.filter_append, List.map_append]
      refine congrArg _ ?_
      cases hplace : place front.length with
      | none => simp [posts, hplace]
      | some e => simp [posts, hplace]

namespace Taken

variable {ids : List CtxId} {free : Pool → List CtxId}

/-- What a write takes and does not return is what it posts. -/
theorem write_perm (ht : Taken B s r place ids free) (p : Pool) :
    (s.free p).Perm
      ((((posts place ids r (List.range B.ndisks)).map Op.ctx).filter
          fun c => decide (c.pool = p)) ++
        putBack CtxId.pool (unmappedCtxs place ids) free p) := by
  have hids : (((posts place ids r (List.range B.ndisks)).map Op.ctx) ++
      unmappedCtxs place ids).Perm ids := by
    rw [← ht.length, posts_range_ctx, unmappedCtxs, ← List.map_append]
    have hsplit := (List.filter_append_perm (fun e => (place e.2).isSome) ids.zipIdx).map Prod.fst
    have hnone : (fun e : CtxId × Nat => !(place e.2).isSome) = fun e => (place e.2).isNone := by
      funext e
      simp
    rwa [hnone, List.zipIdx_map_fst] at hsplit
  rw [ht.split p]
  calc (ids.filter fun c => decide (c.pool = p)) ++ free p
      |>.Perm _ := ((hids.filter fun c => decide (c.pool = p)).symm.append_right (free p))
    _ |>.Perm _ := by
        rw [List.filter_append, List.append_assoc]
        exact (putBack_perm _ p).symm.append_left _

/-- The context of an operation posted, as the write has written it. -/
theorem ctx_of_mem_write (ht : Taken B s r place ids free) (h : Orderly ok s)
    (hplace : ∀ i b c, place i = some (b, c) → ok b = true) {o : Op}
    (ho : o ∈ posts place ids r (List.range B.ndisks)) :
    (afterWrite B s r place ids free).ctx o.ctx =
      { s.ctx o.ctx with
        req := some r
        chunkIndex := some o.chunk
        cnt := s.nextCount
        rdmaBuf := B.piece r.data o.index } := by
  obtain ⟨t, -, e, c, he, hc, rfl⟩ := mem_posts.mp ho
  have hok : ok c.pool.server = true := by
    rw [ht.pool_server hc he]
    exact hplace t e.1 e.2 he
  rw [afterWrite, postPieces_ctx_at ht h hc hok]
  simp [writeCtx, he]

theorem issue_write (ht : Taken B s r place ids free) (h : Orderly ok s)
    (hplace : ∀ i b c, place i = some (b, c) → ok b = true) (hr : r.write = true) :
    Ledger.Issue CtxId.pool s.ledger (afterWrite B s r place ids free).ledger
      ((posts place ids r (List.range B.ndisks)).map Op.ctx)
      (((posts place ids r (List.range B.ndisks)).map Op.ctx).map
        fun c => ⟨c, [c], s.nextCount, false⟩) B.ndatas where
  free := ht.write_perm
  loans := by
    rw [afterWrite, postPieces_loans ht h, List.map_map]
    refine congrArg _ (List.map_congr_left fun o ho => ?_)
    have hctx := ht.ctx_of_mem_write h hplace ho
    have hwrite : o.write = true := by
      obtain ⟨i, -, e, c, -, -, rfl⟩ := mem_posts.mp ho
      exact hr
    rw [afterWrite] at hctx
    simp [loan, hctx, hwrite]
  grp := by
    intro v hv
    obtain ⟨c, -, rfl⟩ := List.mem_map.mp hv
    rfl
  count := rfl
  next := rfl

/-- A write keeps the pools in order. -/
theorem orderly_write (ht : Taken B s r place ids free) (h : Orderly ok s)
    (hplace : ∀ i b c, place i = some (b, c) → ok b = true) (hr : r.write = true) :
    Orderly ok (afterWrite B s r place ids free) where
  sound := by
    refine h.sound.issueSolo (ht.issue_write h hplace hr) fun c hc => ?_
    obtain ⟨o, ho, rfl⟩ := List.mem_map.mp hc
    have hserver := posts_server ht ho
    rw [hserver]
    exact posts_ok hplace ho
  server := postPieces_server ht h

end Taken

/-! ## Completions -/

/-- The data path that has taken the oldest operation off the queue pair of `b`. -/
def dequeued (s : Path Data) (b : Nat) (wire : List Op) : Path Data :=
  { s with wire := wire, executed := Function.update s.executed b (s.executed b - 1) }

/-- What finishing an operation does to its context and its countdown. -/
structure Finished (s s' : Path Data) (o : Op) : Prop where
  ctx : s'.ctx = Function.update s.ctx o.ctx
    { s.ctx o.ctx with inFlight := .idle, chunkIndex := none, req := none }
  count : s'.count = Function.update s.count (s.ctx o.ctx).cnt (s.count (s.ctx o.ctx).cnt - 1)
  free : s'.free = putBack CtxId.pool (s.ledger.givesBack (loan s o)) s.free
  same : s'.map = s.map ∧ s'.cbState = s.cbState ∧ s'.nextCount = s.nextCount ∧
    s'.mem = s.mem ∧ s'.scan = s.scan ∧ s'.nextReq = s.nextReq
  ready : s'.ready = s.ready

/-- `client_write_done`: the request ends when the countdown does. -/
theorem clientWriteDone_cases {o : Op} {wire : List Op} {b : Nat} (hwrite : o.write = true)
    (hdone : clientWriteDone (dequeued s b wire) o = some s') :
    Finished s s' o ∧ s'.wire = wire ∧ s'.executed = (dequeued s b wire).executed ∧
      ((s.count (s.ctx o.ctx).cnt = 1 ∧
          ∃ r, (s.ctx o.ctx).req = some r ∧ s'.trace = .endWrite r :: s.trace) ∨
        (s.count (s.ctx o.ctx).cnt ≠ 1 ∧ s'.trace = s.trace)) := by
  obtain ⟨trace, htrace, rfl⟩ := Option.map_eq_some_iff.mp hdone
  have hback : s.ledger.givesBack (loan s o) = [o.ctx] := by
    simp [Ledger.givesBack, loan, hwrite]
  refine ⟨⟨rfl, rfl, by rw [hback]; rfl, ⟨rfl, rfl, rfl, rfl, rfl, rfl⟩, rfl⟩, rfl, rfl, ?_⟩
  by_cases hends : s.count (s.ctx o.ctx).cnt = 1
  · have hzero : s.count (s.ctx o.ctx).cnt - 1 = 0 := by omega
    obtain ⟨r, hr, rfl⟩ : ∃ r, (s.ctx o.ctx).req = some r ∧ .endWrite r :: s.trace = trace := by
      simpa [dequeued, hzero] using htrace
    exact Or.inl ⟨hends, r, hr, rfl⟩
  · have hzero : ¬ s.count (s.ctx o.ctx).cnt - 1 = 0 := by omega
    obtain rfl : s.trace = trace := by simpa [dequeued, hzero] using htrace
    exact Or.inr ⟨hends, rfl⟩

/-- The event that ends a read: the page is put together from the buffers as they are,
and so are the faults. -/
def readEnd (s : Path Data) (o : Op) (r : Request Data) (page : Data) : Event Data :=
  .endRead r page ((s.ctx o.ctx).ctxs.map fun c => (s.ctx c).fault) o.index

/-- `client_read_done`: the request ends when the countdown does. -/
theorem clientReadDone_cases {o : Op} {wire : List Op} {b : Nat} (hwrite : o.write = false)
    (hdone : clientReadDone B (dequeued s b wire) o = some s') :
    Finished s s' o ∧ s'.wire = wire ∧ s'.executed = (dequeued s b wire).executed ∧
      ∃ r, (s.ctx o.ctx).req = some r ∧
        ((s.count (s.ctx o.ctx).cnt = 1 ∧ ∃ page,
            B.assemble s.lost ((s.ctx o.ctx).ctxs.map fun c => (s.ctx c).fault)
              ((s.ctx o.ctx).ctxs.map fun c => (s.ctx c).rdmaBuf) = some page ∧
            s'.trace = readEnd s o r page :: s.trace) ∨
          (s.count (s.ctx o.ctx).cnt ≠ 1 ∧ s'.trace = s.trace)) := by
  obtain ⟨r, hr, hrest⟩ := Option.bind_eq_some_iff.mp hdone
  have hr' : (s.ctx o.ctx).req = some r := hr
  -- clearing the context leaves faults and buffers alone
  have hsame : ∀ {γ : Type} (g : Ctx Data → γ),
      g { s.ctx o.ctx with inFlight := .idle, chunkIndex := none, req := none } = g (s.ctx o.ctx) →
      ∀ c, g (Function.update s.ctx o.ctx
        { s.ctx o.ctx with inFlight := .idle, chunkIndex := none, req := none } c) =
          g (s.ctx c) := by
    intro γ g hg c
    by_cases hc : c = o.ctx
    · rw [hc, Function.update_self]
      exact hg
    · rw [Function.update_of_ne hc]
  by_cases hends : s.count (s.ctx o.ctx).cnt = 1
  · have hzero : s.count (s.ctx o.ctx).cnt - 1 = 0 := by omega
    have hback : s.ledger.givesBack (loan s o) = (s.ctx o.ctx).ctxs := by
      simp [Ledger.givesBack, loan, Path.ledger, hwrite, hends]
    simp only [dequeued, hzero, if_true] at hrest
    obtain ⟨page, hpage, rfl⟩ := Option.map_eq_some_iff.mp hrest
    simp only [hsame Ctx.fault rfl, hsame Ctx.rdmaBuf rfl] at hpage
    refine ⟨⟨rfl, ?_, by rw [hback], ⟨rfl, rfl, rfl, rfl, rfl, rfl⟩, rfl⟩, rfl, rfl, r, hr',
      Or.inl ⟨hends, page, hpage, ?_⟩⟩
    · rw [hzero]
    · simp only [readEnd, hsame Ctx.fault rfl]
  · have hzero : ¬ s.count (s.ctx o.ctx).cnt - 1 = 0 := by omega
    have hback : s.ledger.givesBack (loan s o) = [] := by
      simp [Ledger.givesBack, loan, Path.ledger, hwrite, hends]
    simp only [dequeued, hzero, if_false, Option.some.injEq] at hrest
    subst hrest
    exact ⟨⟨rfl, rfl, by rw [hback]; rfl, ⟨rfl, rfl, rfl, rfl, rfl, rfl⟩, rfl⟩, rfl, rfl, r, hr',
      Or.inr ⟨hends, rfl⟩⟩

/-- The oldest operation of `b` finishes. -/
structure Polled (B : Build Data) (s s' : Path Data) (b : Nat) (o : Op) (pre post : List Op) :
    Prop where
  wire : s.wire = pre ++ o :: post
  first : ∀ o' ∈ pre, o'.server ≠ b
  server : o.server = b
  executed : 0 < s.executed b
  wire' : s'.wire = pre ++ post
  executed' : s'.executed = Function.update s.executed b (s.executed b - 1)
  finished : Finished s s' o
  done : (o.write = true ∧ clientWriteDone (dequeued s b (pre ++ post)) o = some s') ∨
    (o.write = false ∧ clientReadDone B (dequeued s b (pre ++ post)) o = some s')

theorem rdmaCqEventHandler_cases {b : Nat} (hpoll : rdmaCqEventHandler B s b = some s') :
    ∃ o pre post, Polled B s s' b o pre post := by
  rw [rdmaCqEventHandler] at hpoll
  split at hpoll
  · cases hpoll
  · rename_i hready
    obtain ⟨o, hfind, hrest⟩ := Option.bind_eq_some_iff.mp hpoll
    obtain ⟨ho, pre, post, hwire, hpre, herase⟩ := find?_split hfind
    rw [herase] at hrest
    have hpos : 0 < s.executed b := Nat.pos_of_ne_zero fun h0 => hready (Or.inl h0)
    have hserver : o.server = b := of_decide_eq_true ho
    have hfirst : ∀ o' ∈ pre, o'.server ≠ b := fun o' ho' => of_decide_eq_false (hpre o' ho')
    dsimp only at hrest
    split at hrest
    · rename_i hwrite
      obtain ⟨hfin, hw, hx, -⟩ := clientWriteDone_cases hwrite hrest
      exact ⟨o, pre, post, hwire, hfirst, hserver, hpos, hw, hx, hfin, Or.inl ⟨hwrite, hrest⟩⟩
    · rename_i hwrite
      have hwrite' : o.write = false := by simpa using hwrite
      obtain ⟨hfin, hw, hx, -⟩ := clientReadDone_cases hwrite' hrest
      exact ⟨o, pre, post, hwire, hfirst, hserver, hpos, hw, hx, hfin, Or.inr ⟨hwrite', hrest⟩⟩

namespace Polled

variable {b : Nat} {o : Op} {pre post : List Op}

theorem mem (hp : Polled B s s' b o pre post) : o ∈ s.wire := by
  rw [hp.wire]
  simp

theorem mem_of_mem (hp : Polled B s s' b o pre post) {o' : Op} (ho' : o' ∈ s'.wire) :
    o' ∈ s.wire := by
  rw [hp.wire'] at ho'
  rw [hp.wire]
  rcases List.mem_append.mp ho' with hmem | hmem
  · exact List.mem_append_left _ hmem
  · exact List.mem_append_right _ (List.mem_cons_of_mem o hmem)

/-- The operations left run on other contexts. -/
theorem ctx_ne (hp : Polled B s s' b o pre post) (h : Orderly ok s) {o' : Op}
    (ho' : o' ∈ s'.wire) : o'.ctx ≠ o.ctx := by
  have hnodup := h.ctx_nodup
  rw [hp.wire, List.map_append, List.map_cons] at hnodup
  have hnot := (List.nodup_middle.mp hnodup)
  rw [← List.map_append, ← hp.wire'] at hnot
  intro heq
  exact (List.nodup_cons.mp hnot).1 (heq ▸ List.mem_map_of_mem ho')

theorem ctx_eq (hp : Polled B s s' b o pre post) {c : CtxId} (hc : c ≠ o.ctx) :
    s'.ctx c = s.ctx c := by
  rw [hp.finished.ctx, Function.update_of_ne hc]

theorem finish (hp : Polled B s s' b o pre post) (h : Orderly ok s) :
    Ledger.Finish CtxId.pool s.ledger s'.ledger (loan s o) where
  free := by
    intro p
    rw [show s'.ledger.free p = s'.free p from rfl, hp.finished.free]
    exact putBack_perm _ p
  loans := by
    have hloans : s'.wire.map (loan s') = s'.wire.map (loan s) :=
      List.map_congr_left fun o' ho' => loan_congr (hp.ctx_eq (hp.ctx_ne h ho'))
    rw [show s'.ledger.loans = s'.wire.map (loan s') from rfl, hloans, hp.wire',
      show s.ledger.loans = s.wire.map (loan s) from rfl, hp.wire, List.map_append,
      List.map_append, List.map_cons]
    exact List.perm_middle
  count := hp.finished.count
  next := hp.finished.same.2.2.1

/-- A completion keeps the pools in order. -/
theorem orderly (hp : Polled B s s' b o pre post) (h : Orderly ok s) : Orderly ok s' where
  sound := h.sound.finish (hp.finish h)
  server := fun o' ho' => h.server o' (hp.mem_of_mem ho')

end Polled

/-! ## Everything else -/

theorem execute_cases {b : Nat} (hexec : execute s b = some s') :
    ∃ o, (s.wire.filter fun o => decide (o.server = b))[s.executed b]? = some o ∧
      s' = (if o.write then
          { s with
            executed := Function.update s.executed b (s.executed b + 1)
            mem := Function.update s.mem o.cell (s.ctx o.ctx).rdmaBuf }
        else
          { s with
            executed := Function.update s.executed b (s.executed b + 1)
            ctx := Function.update s.ctx o.ctx { s.ctx o.ctx with rdmaBuf := s.mem o.cell } }) := by
  obtain ⟨o, ho, rfl⟩ := Option.map_eq_some_iff.mp hexec
  refine ⟨o, ho, ?_⟩
  dsimp only

/-- The adapter touches buffers and remote memory only. -/
theorem execute_same {b : Nat} (hexec : execute s b = some s') :
    (∀ c, ∃ buf, s'.ctx c = { s.ctx c with rdmaBuf := buf }) ∧ s'.wire = s.wire ∧
      s'.free = s.free ∧ s'.count = s.count ∧ s'.nextCount = s.nextCount ∧ s'.map = s.map ∧
      s'.cbState = s.cbState ∧ s'.scan = s.scan ∧ s'.nextReq = s.nextReq ∧
      s'.trace = s.trace := by
  obtain ⟨o, -, rfl⟩ := execute_cases hexec
  split
  · exact ⟨fun c => ⟨_, rfl⟩, rfl, rfl, rfl, rfl, rfl, rfl, rfl, rfl, rfl⟩
  · refine ⟨fun c => ?_, rfl, rfl, rfl, rfl, rfl, rfl, rfl, rfl, rfl⟩
    by_cases hc : c = o.ctx
    · subst hc
      exact ⟨_, Function.update_self ..⟩
    · exact ⟨(s.ctx c).rdmaBuf, Function.update_of_ne hc ..⟩

theorem execute_ready {b : Nat} (hexec : execute s b = some s') : s'.ready = s.ready := by
  obtain ⟨o, -, rfl⟩ := execute_cases hexec
  split <;> rfl

theorem execute_ledger {b : Nat} (hexec : execute s b = some s') : s'.ledger = s.ledger := by
  obtain ⟨hctx, hwire, hfree, hcount, hnext, -⟩ := execute_same hexec
  have hloan : ∀ o, loan s' o = loan s o := by
    intro o
    obtain ⟨buf, hbuf⟩ := hctx o.ctx
    simp [loan, hbuf]
  simp [Path.ledger, hwire, hfree, hcount, hnext, hloan]

theorem Orderly.execute {b : Nat} (h : Orderly ok s) (hexec : execute s b = some s') :
    Orderly ok s' where
  sound := by
    rw [execute_ledger hexec]
    exact h.sound
  server := by
    rw [(execute_same hexec).2.1]
    exact h.server

/-- A transfer is a write or a read. -/
theorem isTransferChunk_cases (hown : ∀ p c, c ∈ s.free p → c.pool = p)
    (htransfer : isTransferChunk B s r place fault = some s') :
    (r.write = true ∧ ∃ ids free, Taken B s r place ids free ∧
        s' = afterWrite B s r place ids free) ∨
      (r.write = false ∧ ∃ ids free targets, ReadIssued B s r place fault ids free targets ∧
        s' = afterRead B s r place fault ids free targets) := by
  rw [isTransferChunk] at htransfer
  split at htransfer
  · rename_i hwrite
    exact Or.inl ⟨hwrite, isRdmaWrite_cases hown htransfer⟩
  · rename_i hwrite
    exact Or.inr ⟨by simpa using hwrite, isRdmaRead_cases hown htransfer⟩

theorem Orderly.isTransferChunk (h : Orderly ok s)
    (hplace : ∀ i b c, place i = some (b, c) → ok b = true)
    (htransfer : isTransferChunk B s r place fault = some s') : Orderly ok s' := by
  rcases isTransferChunk_cases h.sound.free_own htransfer with
    ⟨hw, ids, free, ht, rfl⟩ | ⟨hw, ids, free, targets, hi, rfl⟩
  · exact ht.orderly_write h hplace hw
  · exact hi.orderly h hplace hw

/-- The operations that were outstanding see their contexts as they were. -/
theorem isTransferChunk_ctx (h : Orderly ok s)
    (htransfer : isTransferChunk B s r place fault = some s') {o : Op} (ho : o ∈ s.wire) :
    s'.ctx o.ctx = s.ctx o.ctx := by
  rcases isTransferChunk_cases h.sound.free_own htransfer with
    ⟨-, ids, free, ht, rfl⟩ | ⟨-, ids, free, targets, hi, rfl⟩
  · exact postPieces_ctx_of_mem ht h ho
  · exact postPieces_ctx_of_mem hi.taken h ho

/-- A transfer posts operations for its pieces and leaves the slab map alone. -/
theorem isTransferChunk_wire (hown : ∀ p c, c ∈ s.free p → c.pool = p)
    (htransfer : isTransferChunk B s r place fault = some s') :
    s'.map = s.map ∧ ∃ ids pieces, s'.wire = s.wire ++ posts place ids r pieces := by
  rcases isTransferChunk_cases hown htransfer with
    ⟨-, ids, free, ht, rfl⟩ | ⟨-, ids, free, targets, hi, rfl⟩
  · exact ⟨rfl, ids, List.range B.ndisks, rfl⟩
  · exact ⟨rfl, ids, targets, rfl⟩

/-- A request is a transfer to where its slab is mapped. -/
theorem isRequest_cases (hown : ∀ p c, c ∈ s.free p → c.pool = p)
    (hreq : isRequest B s r fault = some s') :
    (r.write = true ∧ ∃ ids free, Taken B s r (s.place B r.slab) ids free ∧
        s' = afterWrite B s r (s.place B r.slab) ids free) ∨
      (r.write = false ∧ ∃ ids free targets,
        ReadIssued B s r (s.place B r.slab) fault ids free targets ∧
        s' = afterRead B s r (s.place B r.slab) fault ids free targets) :=
  isTransferChunk_cases hown hreq

theorem Orderly.isRequest (h : Orderly ok s)
    (hplace : ∀ i b c, s.map i = some (b, c) → ok b = true)
    (hreq : isRequest B s r fault = some s') : Orderly ok s' :=
  h.isTransferChunk (fun _ b c hi => hplace _ b c hi) hreq

/-- Issuing a request leaves the flags of the contexts of other servers alone. -/
theorem isRequest_flags (hown : ∀ p c, c ∈ s.free p → c.pool = p)
    (hreq : isRequest B s r fault = some s') {c : CtxId}
    (hc : ∀ i e, s.map i = some e → e.1 ≠ c.pool.server) :
    (s'.ctx c).inFlight = (s.ctx c).inFlight ∧ (s'.ctx c).req = (s.ctx c).req := by
  have hunmapped : ∀ ids free, Taken B s r (s.place B r.slab) ids free →
      ∀ e ∈ ids.zipIdx, e.1 = c → s.place B r.slab e.2 = none := by
    intro ids free ht e he hec
    have hget : ids[e.2]? = some c := by
      rw [← hec]
      exact List.mem_zipIdx_iff_getElem?.mp he
    cases hplace : s.place B r.slab e.2 with
    | none => rfl
    | some b => exact absurd (ht.pool_server hget hplace).symm (hc _ b hplace)
  rcases isRequest_cases hown hreq with
    ⟨-, ids, free, ht, rfl⟩ | ⟨-, ids, free, targets, hi, rfl⟩
  · refine ⟨updateEach_keeps Ctx.inFlight _ _ fun e he hec x => ?_,
      updateEach_keeps Ctx.req _ _ fun e he hec x => ?_⟩
    · simp [writeCtx, hunmapped ids free ht e he hec]
    · simp [writeCtx, hunmapped ids free ht e he hec]
  · refine ⟨updateEach_keeps Ctx.inFlight _ _ fun e he hec x => ?_,
      updateEach_keeps Ctx.req _ _ fun e he hec x => ?_⟩
    · simp [readCtx, hunmapped ids free hi.taken e he hec]
    · simp [readCtx, hunmapped ids free hi.taken e he hec]

/-- The request named by a context is the one issued or the one it named before. -/
theorem isRequest_req (hown : ∀ p c, c ∈ s.free p → c.pool = p)
    (hreq : isRequest B s r fault = some s') (c : CtxId) :
    (s'.ctx c).req = some r ∨ (s'.ctx c).req = (s.ctx c).req := by
  rcases isRequest_cases hown hreq with
    ⟨-, ids, free, ht, rfl⟩ | ⟨-, ids, free, targets, hi, rfl⟩
  · refine updateEach_induct (P := fun x => x.req = some r ∨ x.req = (s.ctx c).req) _ s.ctx
      (Or.inr rfl) fun e _ _ x hx => ?_
    unfold writeCtx
    split
    · exact Or.inl rfl
    · exact hx
  · refine updateEach_induct (P := fun x => x.req = some r ∨ x.req = (s.ctx c).req) _ s.ctx
      (Or.inr rfl) fun e _ _ x hx => ?_
    unfold readCtx
    split
    · exact Or.inl rfl
    · exact hx

/-- What a request leaves as it is. -/
theorem isRequest_same (hown : ∀ p c, c ∈ s.free p → c.pool = p)
    (hreq : isRequest B s r fault = some s') :
    s'.map = s.map ∧ s'.cbState = s.cbState ∧ s'.executed = s.executed ∧ s'.mem = s.mem ∧
      s'.scan = s.scan ∧ s'.nextReq = s.nextReq ∧ s'.trace = s.trace ∧
      s'.nextCount = s.nextCount + 1 := by
  rcases isRequest_cases hown hreq with
    ⟨-, ids, free, ht, rfl⟩ | ⟨-, ids, free, targets, hi, rfl⟩
  · exact ⟨rfl, rfl, rfl, rfl, rfl, rfl, rfl, rfl⟩
  · exact ⟨rfl, rfl, rfl, rfl, rfl, rfl, rfl, rfl⟩

theorem isRequest_ready (hown : ∀ p c, c ∈ s.free p → c.pool = p)
    (hreq : isRequest B s r fault = some s') : s'.ready = s.ready := by
  rcases isRequest_cases hown hreq with
    ⟨-, ids, free, ht, rfl⟩ | ⟨-, ids, free, targets, hi, rfl⟩
  · rfl
  · rfl

/-- What losing a server does apart from the slab map. -/
structure Disconnected (B : Build Data) (s s' : Path Data) (b : Nat) : Prop where
  live : s.cbState b ≠ .fail
  made : s.cbState b ≠ .connected → s.ready b = true
  ready : s'.ready = s.ready
  cbState : s'.cbState = Function.update s.cbState b .fail
  wire : s'.wire = s.wire.filter fun o => !decide (o.server = b)
  executed : s'.executed = Function.update s.executed b 0
  map : s'.map = (if s.cbState b = .connected then s.map
    else fun i => (s.map i).bind fun e => if e.1 = b then none else some e)
  scan : s'.scan = (if s.cbState b = .connected then s.scan else s.scan ++ poolCtxs B b)
  same : s'.free = s.free ∧ s'.ctx = s.ctx ∧ s'.count = s.count ∧ s'.nextCount = s.nextCount ∧
    s'.mem = s.mem ∧ s'.nextReq = s.nextReq ∧ s'.trace = s.trace

theorem isDisconnectHandler_cases {b : Nat} (hdis : isDisconnectHandler B s b = some s') :
    Disconnected B s s' b := by
  rw [isDisconnectHandler] at hdis
  split at hdis
  · cases hdis
  · rename_i hlive
    split at hdis
    · rename_i hconnected
      obtain rfl := Option.some.inj hdis
      exact ⟨hlive, fun hnot => absurd hconnected hnot, rfl, rfl, rfl, rfl, by simp [hconnected],
        by simp [hconnected], rfl, rfl, rfl, rfl, rfl, rfl, rfl⟩
    · rename_i hconnected
      split at hdis
      · cases hdis
      · rename_i hready
        obtain rfl := Option.some.inj hdis
        exact ⟨hlive, fun _ => by simpa using hready, rfl, rfl, rfl, rfl, by simp [hconnected],
          by simp [hconnected], rfl, rfl, rfl, rfl, rfl, rfl, rfl⟩

namespace Disconnected

variable {b : Nat}

theorem mem_wire (hd : Disconnected B s s' b) {o : Op} :
    o ∈ s'.wire ↔ o ∈ s.wire ∧ o.server ≠ b := by
  rw [hd.wire]
  simp

/-- No entry of the slab map names a lost server. -/
theorem serving (hd : Disconnected B s s' b) (hserve : MapsServing s.map s.cbState) :
    MapsServing s'.map s'.cbState := by
  intro i b' c hi
  rw [hd.map] at hi
  rw [hd.cbState]
  split at hi
  · rename_i hconnected
    have hs := hserve i b' c hi
    have hne : b' ≠ b := by
      rintro rfl
      rw [hconnected] at hs
      rcases hs with hs | hs <;> cases hs
    rwa [Function.update_of_ne hne]
  · obtain ⟨e, he, hif⟩ := Option.bind_eq_some_iff.mp hi
    split at hif
    · cases hif
    · rename_i hne
      obtain rfl := Option.some.inj hif
      rw [Function.update_of_ne hne]
      exact hserve i b' c he

/-- A slab map that has lost a server has no other entries. -/
theorem map_some (hd : Disconnected B s s' b) {i : Nat} {e : Nat × ChunkIx}
    (hi : s'.map i = some e) : s.map i = some e := by
  rw [hd.map] at hi
  split at hi
  · exact hi
  · obtain ⟨e', he', hif⟩ := Option.bind_eq_some_iff.mp hi
    split at hif
    · cases hif
    · rw [he', Option.some.inj hif]

/-- The entries for other servers stay. -/
theorem map_of_ne (hd : Disconnected B s s' b) {i : Nat} {e : Nat × ChunkIx}
    (hi : s.map i = some e) (hne : e.1 ≠ b) : s'.map i = some e := by
  rw [hd.map]
  split
  · exact hi
  · simp [hi, hne]

theorem mem_scan (hd : Disconnected B s s' b) {c : CtxId} (hc : c ∈ s'.scan) :
    c ∈ s.scan ∨ c ∈ poolCtxs B b := by
  rw [hd.scan] at hc
  split at hc
  · exact Or.inl hc
  · exact List.mem_append.mp hc

/-- The pools of the other servers stay in order. -/
theorem orderly (hd : Disconnected B s s' b) (h : Orderly ok s) :
    Orderly (fun b' => ok b' && !decide (b' = b)) s' where
  sound := by
    have hloan : ∀ o, loan s' o = loan s o := fun o => loan_congr (by rw [hd.same.2.1])
    refine h.sound.drop hd.same.1 ?_ hd.same.2.2.1 hd.same.2.2.2.1 ?_ ?_
    · rw [Path.ledger, Path.ledger, funext hloan, hd.wire]
      exact List.filter_sublist.map _
    · intro p hp
      exact (Bool.and_eq_true_iff.mp hp).1
    · intro v hv
      obtain ⟨o, ho, rfl⟩ := List.mem_map.mp hv
      obtain ⟨hmem, hne⟩ := hd.mem_wire.mp ho
      have hserver := h.server o hmem
      simp [loan, hserver, h.server_ok hmem, hne]
  server := fun o ho => h.server o (hd.mem_wire.mp ho).1

end Disconnected

theorem mem_poolCtxs {b : Nat} {c : CtxId} :
    c ∈ poolCtxs B b ↔
      c.pool.conn < B.submitQueues ∧ c.pool.server = b ∧ c.idx < B.queueDepth := by
  obtain ⟨⟨k, b'⟩, j⟩ := c
  simp only [poolCtxs, List.mem_flatMap, List.mem_range, List.mem_map, CtxId.mk.injEq,
    Pool.mk.injEq]
  constructor
  · rintro ⟨k', hk', j', hj', ⟨rfl, rfl⟩, rfl⟩
    exact ⟨hk', rfl, hj'⟩
  · rintro ⟨hk, rfl, hj⟩
    exact ⟨k, hk, j, hj, ⟨rfl, rfl⟩, rfl⟩

/-- Every context that is free, posted or held is one the loops over the pools look at. -/
structure Ranged (B : Build Data) (s : Path Data) : Prop where
  posted : ∀ o ∈ s.wire, o.ctx ∈ poolCtxs B o.server
  held : ∀ o ∈ s.wire, ∀ c ∈ (loan s o).held, c ∈ poolCtxs B c.pool.server
  range : ∀ p c, c ∈ s.free p → c ∈ poolCtxs B c.pool.server

namespace Ranged

theorem mem_of_posts {ids : List CtxId} {free : Pool → List CtxId} {pieces : List Nat} {o : Op}
    (h : Ranged B s) (ht : Taken B s r place ids free) (ho : o ∈ posts place ids r pieces) :
    o.ctx ∈ poolCtxs B o.server := by
  have hserver := posts_server ht ho
  obtain ⟨i, -, e, c, -, hc, rfl⟩ := mem_posts.mp ho
  have hmem := h.range c.pool c (ht.mem_free (List.mem_of_getElem? hc))
  rwa [show c.pool.server = e.1 from hserver] at hmem

theorem isTransferChunk (h : Ranged B s) (horderly : Orderly ok s)
    (hplace : ∀ i b c, place i = some (b, c) → ok b = true)
    (htransfer : isTransferChunk B s r place fault = some s') : Ranged B s' := by
  have hkeep := fun o (ho : o ∈ s.wire) => isTransferChunk_ctx horderly htransfer ho
  rcases isTransferChunk_cases horderly.sound.free_own htransfer with
    ⟨hw, ids, free, ht, rfl⟩ | ⟨hw, ids, free, targets, hi, rfl⟩
  · refine ⟨fun o ho => ?_, fun o ho c hc => ?_, fun p c hc => ?_⟩
    · exact (List.mem_append.mp ho).elim (h.posted o) (h.mem_of_posts ht)
    · rcases List.mem_append.mp ho with ho | ho
      · rw [loan_congr (hkeep o ho)] at hc
        exact h.held o ho c hc
      · have hwrite : o.write = true := by
          obtain ⟨i, -, e, c, -, -, rfl⟩ := mem_posts.mp ho
          exact hw
        rw [show (loan _ o).held = [o.ctx] from if_pos hwrite] at hc
        rw [List.mem_singleton.mp hc, posts_server ht ho]
        exact h.mem_of_posts ht ho
    · refine h.range p c ?_
      rw [(ht.write_perm p).mem_iff]
      exact List.mem_append_right _ hc
  · refine ⟨fun o ho => ?_, fun o ho c hc => ?_, fun p c hc => ?_⟩
    · exact (List.mem_append.mp ho).elim (h.posted o) (h.mem_of_posts hi.taken)
    · rcases List.mem_append.mp ho with ho | ho
      · rw [loan_congr (hkeep o ho)] at hc
        exact h.held o ho c hc
      · have hwrite : o.write = false := by
          obtain ⟨i, -, e, c, -, -, rfl⟩ := mem_posts.mp ho
          exact hw
        have hids : c ∈ ids := by
          simpa [loan, hwrite, hi.ctx_of_mem_posts horderly hplace ho] using hc
        exact h.range c.pool c (hi.taken.mem_free hids)
    · refine h.range p c ?_
      rw [hi.taken.split p]
      exact List.mem_append_right _ hc

theorem polled {b : Nat} {o : Op} {pre post : List Op} (h : Ranged B s) (horderly : Orderly ok s)
    (hp : Polled B s s' b o pre post) : Ranged B s' := by
  refine ⟨fun o' ho' => h.posted o' (hp.mem_of_mem ho'), fun o' ho' c hc => ?_, fun p c hc => ?_⟩
  · rw [loan_congr (hp.ctx_eq (hp.ctx_ne horderly ho'))] at hc
    exact h.held o' (hp.mem_of_mem ho') c hc
  · rw [hp.finished.free] at hc
    rcases mem_putBack.mp hc with ⟨hback, -⟩ | hfree
    · have hfits := horderly.sound.fits (loan s o) (List.mem_map_of_mem hp.mem)
      exact h.held o hp.mem c (Ledger.mem_givesBack hfits hback)
    · exact h.range p c hfree

theorem execute {b : Nat} (h : Ranged B s) (hexec : DataPath.execute s b = some s') :
    Ranged B s' := by
  obtain ⟨hctx, hwire, hfree, -⟩ := execute_same hexec
  refine ⟨by rw [hwire]; exact h.posted, fun o ho => ?_, by rw [hfree]; exact h.range⟩
  obtain ⟨buf, hbuf⟩ := hctx o.ctx
  rw [hwire] at ho
  rw [show loan s' o = loan s o by simp [loan, hbuf]]
  exact h.held o ho

end Ranged

/-- One turn of the disconnect handler's loop. -/
theorem scanCtx_cases {b : Nat} (hscan : scanCtx B s b fault = some s') :
    ∃ c pre post, (s.scan.find? fun c => decide (c.pool.server = b)) = some c ∧
      s.scan = pre ++ c :: post ∧
      (((s.ctx c).inFlight = .idle ∧ s' = { s with scan := pre ++ post }) ∨
        ((s.ctx c).inFlight = .write ∧
          s' = { s with scan := pre ++ post, free := putBack CtxId.pool [c] s.free }) ∨
        ((s.ctx c).inFlight = .read ∧ ∃ r, (s.ctx c).req = some r ∧
          isRequest B { s with scan := pre ++ post, free := putBack CtxId.pool [c] s.free } r
            fault = some s')) := by
  obtain ⟨c, hfind, hrest⟩ := Option.bind_eq_some_iff.mp hscan
  obtain ⟨-, pre, post, hsplit, -, herase⟩ := find?_split hfind
  refine ⟨c, pre, post, hfind, hsplit, ?_⟩
  rw [herase] at hrest
  dsimp only at hrest
  split at hrest
  · rename_i hidle
    exact Or.inl ⟨hidle, (Option.some.inj hrest).symm⟩
  · rename_i hwrite
    exact Or.inr (Or.inl ⟨hwrite, (Option.some.inj hrest).symm⟩)
  · rename_i hread
    obtain ⟨r, hr, hreq⟩ := Option.bind_eq_some_iff.mp hrest
    exact Or.inr (Or.inr ⟨hread, r, hr, hreq⟩)

/-! ## Owners of countdowns -/

/-- Every outstanding operation's context names its request, one for each countdown. -/
def Owned (own : Nat → Request Data) (s : Path Data) : Prop :=
  ∀ o ∈ s.wire, (s.ctx o.ctx).req = some (own (s.ctx o.ctx).cnt) ∧
    (own (s.ctx o.ctx).cnt).write = o.write

/-- The owner of the countdown a request starts. -/
theorem Owned.isRequest {own : Nat → Request Data} (h : Owned own s) (horderly : Orderly ok s)
    (hplace : ∀ i b c, s.map i = some (b, c) → ok b = true)
    (hreq : isRequest B s r fault = some s') :
    Owned (Function.update own s.nextCount r) s' := by
  have hplace' : ∀ i b c, s.place B r.slab i = some (b, c) → ok b = true :=
    fun i b c hi => hplace _ b c hi
  have hold : ∀ o ∈ s.wire, s'.ctx o.ctx = s.ctx o.ctx →
      (s'.ctx o.ctx).req = some (Function.update own s.nextCount r (s'.ctx o.ctx).cnt) ∧
        (Function.update own s.nextCount r (s'.ctx o.ctx).cnt).write = o.write := by
    intro o ho hctx
    have hlt : (s.ctx o.ctx).cnt < s.nextCount :=
      horderly.sound.grp_lt (loan s o) (List.mem_map_of_mem ho)
    rw [hctx, Function.update_of_ne hlt.ne]
    exact h o ho
  rcases isRequest_cases horderly.sound.free_own hreq with
    ⟨hw, ids, free, ht, rfl⟩ | ⟨hw, ids, free, targets, hi, rfl⟩
  · intro o ho
    rcases List.mem_append.mp ho with ho | ho
    · exact hold o ho (postPieces_ctx_of_mem ht horderly ho)
    · rw [ht.ctx_of_mem_write horderly hplace' ho]
      obtain ⟨i, -, e, c, -, -, rfl⟩ := mem_posts.mp ho
      simp
  · intro o ho
    rcases List.mem_append.mp ho with ho | ho
    · exact hold o ho (postPieces_ctx_of_mem hi.taken horderly ho)
    · rw [hi.ctx_of_mem_posts horderly hplace' ho]
      obtain ⟨i, -, e, c, -, -, rfl⟩ := mem_posts.mp ho
      simp

theorem Owned.polled {own : Nat → Request Data} {b : Nat} {o : Op}
    {pre post : List Op} (h : Owned own s) (horderly : Orderly ok s)
    (hp : Polled B s s' b o pre post) : Owned own s' := by
  intro o' ho'
  rw [hp.ctx_eq (hp.ctx_ne horderly ho')]
  exact h o' (hp.mem_of_mem ho')

theorem Owned.execute {own : Nat → Request Data} {b : Nat} (h : Owned own s)
    (hexec : execute s b = some s') : Owned own s' := by
  obtain ⟨hctx, hwire, -⟩ := execute_same hexec
  intro o ho
  rw [hwire] at ho
  obtain ⟨buf, hbuf⟩ := hctx o.ctx
  rw [hbuf]
  exact h o ho

theorem Owned.disconnected {own : Nat → Request Data} {b : Nat} (h : Owned own s)
    (hd : Disconnected B s s' b) : Owned own s' := by
  intro o ho
  rw [hd.same.2.1]
  exact h o (hd.mem_wire.mp ho).1

/-! ## Pools that have been set up -/

/-- A context that an array has room for. -/
def InPool (B : Build Data) (c : CtxId) : Prop :=
  c.pool.conn < B.submitQueues ∧ c.pool.server < B.numCb ∧ c.idx < B.queueDepth

/-- A context that `IS_ctx_init` has made. -/
def Made (B : Build Data) (s : Path Data) (c : CtxId) : Prop :=
  InPool B c ∧ s.ready c.pool.server = true

theorem made_congr (h : s'.ready = s.ready) : Made B s' = Made B s := by
  funext c
  rw [Made, h, Made]

theorem mem_isCtxInit {p : Pool} {c : CtxId} :
    c ∈ isCtxInit B p ↔ c.pool = p ∧ c.idx < B.queueDepth := by
  obtain ⟨q, j⟩ := c
  simp only [isCtxInit, List.mem_map, List.mem_reverse, List.mem_range, CtxId.mk.injEq]
  constructor
  · rintro ⟨j', hj', rfl, rfl⟩
    exact ⟨rfl, hj'⟩
  · rintro ⟨rfl, hj⟩
    exact ⟨j, hj, rfl, rfl⟩

theorem isCtxInit_nodup (p : Pool) : (isCtxInit B p).Nodup :=
  List.Nodup.map (fun _ _ hij => (CtxId.mk.inj hij).2) (List.nodup_reverse.mpr List.nodup_range)

/-- What setting a server up finds and leaves. -/
structure SetUp (B : Build Data) (s s' : Path Data) (b : Nat) : Prop where
  state : s.cbState b = .idle ∨ s.cbState b = .connected
  fresh : s.ready b = false
  lt : b < B.numCb
  cbState : s'.cbState = Function.update s.cbState b .connected
  ready : s'.ready = Function.update s.ready b true
  free : ∀ p, s'.free p =
    if p.server = b ∧ p.conn < B.submitQueues then isCtxInit B p else s.free p
  same : s'.map = s.map ∧ s'.ctx = s.ctx ∧ s'.count = s.count ∧ s'.nextCount = s.nextCount ∧
    s'.wire = s.wire ∧ s'.executed = s.executed ∧ s'.scan = s.scan ∧ s'.nextReq = s.nextReq ∧
    s'.trace = s.trace

theorem setUp_cases {b : Nat} (hstep : step B s (.setUp b) = some s') : SetUp B s s' b := by
  rw [step] at hstep
  split at hstep
  · rename_i hall
    obtain rfl := Option.some.inj hstep
    exact
      { state := hall.1
        fresh := hall.2.1
        lt := hall.2.2
        cbState := rfl
        ready := rfl
        free := fun _ => rfl
        same := ⟨rfl, rfl, rfl, rfl, rfl, rfl, rfl, rfl, rfl⟩ }
  · cases hstep

theorem SetUp.ledger {b : Nat} (hu : SetUp B s s' b) :
    s'.ledger = { s.ledger with free := s'.free } := by
  obtain ⟨-, hctx, hcount, hnext, hwire, -⟩ := hu.same
  have hloan : ∀ o, loan s' o = loan s o := fun o => loan_congr (by rw [hctx])
  simp [Path.ledger, hwire, hcount, hnext, hloan]

theorem SetUp.ready_iff {b b' : Nat} (hu : SetUp B s s' b) :
    s'.ready b' = true ↔ s.ready b' = true ∨ b' = b := by
  rw [hu.ready]
  by_cases hb : b' = b
  · simp [hb]
  · simp [hb]

/-- A server that has been lost was set up before. -/
theorem SetUp.ne_of_fail {b b' : Nat} (hu : SetUp B s s' b) (hfail : s.cbState b' = .fail) :
    b' ≠ b := by
  rintro rfl
  rcases hu.state with hstate | hstate <;> rw [hfail] at hstate <;> cases hstate

theorem bind_cases {i b : Nat} {chunk : ChunkIx} (hstep : step B s (.bind i b chunk) = some s') :
    (s.cbState b).selectable = true ∧
      s' = { s with
        map := Function.update s.map i (some (b, chunk))
        cbState := Function.update s.cbState b .mapped } := by
  rw [step] at hstep
  split at hstep
  · rename_i hselect
    exact ⟨hselect.1, (Option.some.inj hstep).symm⟩
  · cases hstep

/-- Contexts that are free, held or to be looked at are of pools that have been set up,
and one that is flagged names a request. -/
structure Stocked (s : Path Data) : Prop where
  free : ∀ p c, c ∈ s.free p → s.ready c.pool.server = true
  held : ∀ o ∈ s.wire, ∀ c ∈ (loan s o).held, s.ready c.pool.server = true
  scan : ∀ c ∈ s.scan, s.ready c.pool.server = true
  named : ∀ c, (s.ctx c).inFlight = .read → (s.ctx c).req ≠ none

namespace Stocked

theorem isRequest (h : Stocked s) (horderly : Orderly ok s)
    (hplace : ∀ i b c, s.map i = some (b, c) → ok b = true)
    (hreq : isRequest B s r fault = some s') : Stocked s' := by
  have hown := horderly.sound.free_own
  have hkeep := fun o (ho : o ∈ s.wire) => isTransferChunk_ctx horderly hreq ho
  have hready := isRequest_ready hown hreq
  have hscan := (isRequest_same hown hreq).2.2.2.2.1
  have hplace' : ∀ i b c, s.place B r.slab i = some (b, c) → ok b = true :=
    fun i b c hi => hplace _ b c hi
  have hold : ∀ o ∈ s.wire, ∀ c ∈ (loan s' o).held, s.ready c.pool.server = true := by
    intro o ho c hc
    rw [loan_congr (hkeep o ho)] at hc
    exact h.held o ho c hc
  have hnamed : ∀ c, (s'.ctx c).inFlight = .read → (s'.ctx c).req ≠ none := by
    rcases isRequest_cases hown hreq with
      ⟨-, ids, free, ht, rfl⟩ | ⟨-, ids, free, targets, hi, rfl⟩
    · intro c
      refine updateEach_induct (P := fun x => x.inFlight = .read → x.req ≠ none) _ s.ctx
        (h.named c) fun e _ _ x hx => ?_
      unfold writeCtx
      split
      · simp
      · exact hx
    · intro c
      refine updateEach_induct (P := fun x => x.inFlight = .read → x.req ≠ none) _ s.ctx
        (h.named c) fun e _ _ x hx => ?_
      unfold readCtx
      split
      · simp
      · exact hx
  rcases isRequest_cases hown hreq with
    ⟨hw, ids, free, ht, rfl⟩ | ⟨hw, ids, free, targets, hi, rfl⟩
  · refine ⟨fun p c hc => ?_, fun o ho c hc => ?_, h.scan, hnamed⟩
    · refine h.free p c ?_
      rw [(ht.write_perm p).mem_iff]
      exact List.mem_append_right _ hc
    · rcases List.mem_append.mp ho with ho | ho
      · exact hold o ho c hc
      · obtain ⟨i, -, e, d, -, hd, rfl⟩ := mem_posts.mp ho
        obtain rfl : c = d := by simpa [loan, hw] using hc
        exact h.free _ c (ht.mem_free (List.mem_of_getElem? hd))
  · refine ⟨fun p c hc => ?_, fun o ho c hc => ?_, h.scan, hnamed⟩
    · refine h.free p c ?_
      rw [hi.taken.split p]
      exact List.mem_append_right _ hc
    · rcases List.mem_append.mp ho with ho | ho
      · exact hold o ho c hc
      · have hids : c ∈ ids := by
          have hctx := hi.ctx_of_mem_posts horderly hplace' ho
          obtain ⟨i, -, e, d, -, -, rfl⟩ := mem_posts.mp ho
          simpa [loan, hw, hctx] using hc
        exact h.free _ c (hi.taken.mem_free hids)

theorem polled {b : Nat} {o : Op} {pre post : List Op} (h : Stocked s) (horderly : Orderly ok s)
    (hp : Polled B s s' b o pre post) : Stocked s' := by
  refine ⟨fun p c hc => ?_, fun o' ho' c hc => ?_, ?_, fun c hc => ?_⟩
  · rw [hp.finished.ready]
    rw [hp.finished.free] at hc
    rcases mem_putBack.mp hc with ⟨hback, -⟩ | hfree
    · have hfits := horderly.sound.fits (loan s o) (List.mem_map_of_mem hp.mem)
      exact h.held o hp.mem c (Ledger.mem_givesBack hfits hback)
    · exact h.free p c hfree
  · rw [hp.finished.ready]
    rw [loan_congr (hp.ctx_eq (hp.ctx_ne horderly ho'))] at hc
    exact h.held o' (hp.mem_of_mem ho') c hc
  · rw [hp.finished.ready, hp.finished.same.2.2.2.2.1]
    exact h.scan
  · rw [hp.finished.ctx] at hc ⊢
    by_cases heq : c = o.ctx
    · rw [heq, Function.update_self] at hc
      cases hc
    · rw [Function.update_of_ne heq] at hc ⊢
      exact h.named c hc

theorem execute {b : Nat} (h : Stocked s) (hexec : DataPath.execute s b = some s') :
    Stocked s' := by
  obtain ⟨hctx, hwire, hfree, -, -, -, -, hscan, -⟩ := execute_same hexec
  have hready := execute_ready hexec
  refine ⟨by rw [hfree, hready]; exact h.free, fun o ho => ?_, by rw [hscan, hready]; exact h.scan,
    fun c hc => ?_⟩
  · obtain ⟨buf, hbuf⟩ := hctx o.ctx
    rw [hwire] at ho
    rw [hready, show loan s' o = loan s o by simp [loan, hbuf]]
    exact h.held o ho
  · obtain ⟨buf, hbuf⟩ := hctx c
    rw [hbuf] at hc ⊢
    exact h.named c hc

theorem disconnected {b : Nat} (h : Stocked s) (hd : Disconnected B s s' b) : Stocked s' := by
  obtain ⟨hfree, hctx, -⟩ := hd.same
  refine ⟨by rw [hfree, hd.ready]; exact h.free, fun o ho => ?_, fun c hc => ?_,
    by rw [hctx]; exact h.named⟩
  · rw [hd.ready, show loan s' o = loan s o from loan_congr (by rw [hctx])]
    exact h.held o (hd.mem_wire.mp ho).1
  · rw [hd.ready]
    rw [hd.scan] at hc
    split at hc
    · exact h.scan c hc
    · rename_i hconnected
      rcases List.mem_append.mp hc with hold | hnew
      · exact h.scan c hold
      · obtain ⟨k, -, hk⟩ := List.mem_flatMap.mp hnew
        obtain ⟨j, -, rfl⟩ := List.mem_map.mp hk
        exact hd.made hconnected

/-- The loop of the disconnect handler goes on, with or without the context returned. -/
theorem scanned {c : CtxId} {pre post : List CtxId} (h : Stocked s)
    (hsplit : s.scan = pre ++ c :: post) :
    Stocked { s with scan := pre ++ post } ∧
      Stocked { s with scan := pre ++ post, free := putBack CtxId.pool [c] s.free } := by
  have hsub : ∀ d ∈ pre ++ post, d ∈ s.scan := by
    intro d hd
    rw [hsplit]
    rcases List.mem_append.mp hd with hd | hd
    · exact List.mem_append_left _ hd
    · exact List.mem_append_right _ (List.mem_cons_of_mem c hd)
  refine ⟨⟨h.free, h.held, fun d hd => h.scan d (hsub d hd), h.named⟩, ⟨fun p d hd => ?_, h.held,
    fun d hd => h.scan d (hsub d hd), h.named⟩⟩
  rcases mem_putBack.mp hd with ⟨hdc, -⟩ | hfree
  · rw [List.mem_singleton.mp hdc]
    exact h.scan c (by rw [hsplit]; simp)
  · exact h.free p d hfree

variable {b : Nat}

theorem setUp (h : Stocked s) (hu : SetUp B s s' b) : Stocked s' := by
  obtain ⟨-, hctx, -, -, hwire, -, hscan, -⟩ := hu.same
  refine ⟨fun p c hc => ?_, fun o ho c hc => ?_, fun c hc => ?_, by rw [hctx]; exact h.named⟩
  · rw [hu.ready_iff]
    rw [hu.free] at hc
    split at hc
    · rename_i hp
      exact Or.inr (by rw [(mem_isCtxInit.mp hc).1]; exact hp.1)
    · exact Or.inl (h.free p c hc)
  · rw [hwire] at ho
    rw [show loan s' o = loan s o from loan_congr (by rw [hctx])] at hc
    exact hu.ready_iff.mpr (Or.inl (h.held o ho c hc))
  · rw [hscan] at hc
    exact hu.ready_iff.mpr (Or.inl (h.scan c hc))

/-- The pools of a server that has not been set up are empty, and none of their contexts
is in use. -/
theorem restock (h : Stocked s) (hu : SetUp B s s' b) (hsound : Orderly ok s) :
    Orderly ok s' := by
  refine ⟨?_, by rw [hu.same.2.2.2.2.1]; exact hsound.server⟩
  rw [hu.ledger]
  refine hsound.sound.restock fun p => ?_
  rw [hu.free]
  by_cases hp : p.server = b ∧ p.conn < B.submitQueues
  · rw [if_pos hp]
    refine Or.inr ⟨isCtxInit_nodup p, fun c hc => (mem_isCtxInit.mp hc).1, ?_⟩
    intro v hv c hc hmem
    obtain ⟨o, ho, rfl⟩ := List.mem_map.mp hv
    have hready := h.held o ho c hc
    rw [(mem_isCtxInit.mp hmem).1, hp.1, hu.fresh] at hready
    cases hready
  · exact Or.inl (if_neg hp)

/-- Every step keeps it; the contexts a disconnect handler returns are of lost servers. -/
theorem step {a : Action Data} (h : Stocked s) (horderly : Orderly ok s)
    (hplace : ∀ i b c, s.map i = some (b, c) → ok b = true)
    (hdead : ∀ c ∈ s.scan, (s.ctx c).inFlight = .read → ok c.pool.server = false)
    (hstep : DataPath.step B s a = some s') : Stocked s' := by
  cases a with
  | submit r fault =>
      refine isRequest (s := { s with
        nextReq := s.nextReq + 1
        trace := .submit { r with id := s.nextReq } :: s.trace }) ?_ ?_ hplace hstep
      · exact ⟨h.free, h.held, h.scan, h.named⟩
      · exact ⟨horderly.sound, horderly.server⟩
  | execute b => exact h.execute hstep
  | poll b =>
      obtain ⟨o, pre, post, hp⟩ := rdmaCqEventHandler_cases hstep
      exact h.polled horderly hp
  | disconnect b => exact h.disconnected (isDisconnectHandler_cases hstep)
  | scan b fault =>
      obtain ⟨c, pre, post, -, hsplit, hcase⟩ := scanCtx_cases hstep
      obtain ⟨hquiet, hback⟩ := h.scanned hsplit
      rcases hcase with ⟨-, rfl⟩ | ⟨-, rfl⟩ | ⟨hflag, r, -, hreq⟩
      · exact hquiet
      · exact hback
      · have hfree := horderly.sound.putBack (hdead c (by rw [hsplit]; simp) hflag)
        exact hback.isRequest ⟨hfree, horderly.server⟩ hplace hreq
  | setUp b => exact h.setUp (setUp_cases hstep)
  | bind i b chunk =>
      obtain ⟨-, rfl⟩ := bind_cases hstep
      exact ⟨h.free, h.held, h.scan, h.named⟩
  | unbind i =>
      obtain rfl := Option.some.inj hstep
      exact ⟨h.free, h.held, h.scan, h.named⟩

end Stocked

/-! ## Requests that go through -/

/-- What a request needs: a context for each piece in the pool it is taken from, no fault
injected for an unmapped piece, and for a read enough pieces that are mapped and have no
fault. -/
structure Served (B : Build Data) (s : Path Data) (r : Request Data) (fault : Nat → Bool) :
    Prop where
  contexts : ∀ p ∈ poolsFor B r (s.place B r.slab),
    (poolsFor B r (s.place B r.slab)).count p ≤ (s.free p).length
  faults : r.write = false → ∀ i ∈ List.range B.ndisks, fault i = true →
    (s.place B r.slab i).isSome
  enough : r.write = false → B.ndatas ≤ (List.range B.ndisks).countP fun i =>
    (s.place B r.slab i).isSome && !fault i

instance (s : Path Data) (r : Request Data) (fault : Nat → Bool) :
    Decidable (Served B s r fault) :=
  decidable_of_iff
    ((∀ p ∈ poolsFor B r (s.place B r.slab),
        (poolsFor B r (s.place B r.slab)).count p ≤ (s.free p).length) ∧
      (r.write = false → ∀ i ∈ List.range B.ndisks, fault i = true →
        (s.place B r.slab i).isSome) ∧
      (r.write = false → B.ndatas ≤ (List.range B.ndisks).countP fun i =>
        (s.place B r.slab i).isSome && !fault i))
    ⟨fun h => ⟨h.1, h.2.1, h.2.2⟩, fun h => ⟨h.contexts, h.faults, h.enough⟩⟩

/-- The posting loop finds its parities if there are as many as pieces to replace. -/
theorem readTargets_isSome {isGood : Nat → Bool} {ndisks : Nat} {pieces : List Nat} {j : Nat}
    (henough : pieces.countP (fun i => !isGood i) ≤
      (List.range' j (ndisks - j)).countP isGood) :
    (readTargets isGood ndisks pieces j).isSome := by
  induction pieces generalizing j with
  | nil => rfl
  | cons i rest ih =>
      rw [readTargets]
      by_cases hgood : isGood i = true
      · rw [if_pos hgood, Option.isSome_map]
        refine ih ?_
        rwa [List.countP_cons_of_neg (by simp [hgood])] at henough
      · rw [List.countP_cons_of_pos (by simpa using hgood)] at henough
        rw [if_neg hgood]
        cases hfind : (List.range' j (ndisks - j)).find? isGood with
        | none =>
            have hnone : (List.range' j (ndisks - j)).countP isGood = 0 := by
              rw [List.countP_eq_zero]
              exact fun k hk => List.find?_eq_none.mp hfind k hk
            omega
        | some p =>
            obtain ⟨hp, hmem, hbefore⟩ := List.find?_range'_eq_some.mp hfind
            rw [List.mem_range'_1] at hmem
            -- no parity before `p` is good, so all but one of the good ones are left
            have hsplit : List.range' j (ndisks - j) =
                List.range' j (p - j) ++ p :: List.range' (p + 1) (ndisks - (p + 1)) := by
              have hjoin := List.range'_append_1 (s := j) (m := p - j) (n := ndisks - p)
              rw [show j + (p - j) = p by omega,
                show p - j + (ndisks - p) = ndisks - j by omega] at hjoin
              rw [← hjoin, show ndisks - p = ndisks - (p + 1) + 1 by omega, List.range'_succ]
            have hzero : (List.range' j (p - j)).countP isGood = 0 := by
              rw [List.countP_eq_zero]
              intro k hk
              rw [List.mem_range'_1] at hk
              have := hbefore k hk.1 (by omega)
              simpa using this
            rw [hsplit, List.countP_append, hzero, List.countP_cons_of_pos hp] at henough
            show ((readTargets isGood ndisks rest (p + 1)).map (p :: ·)).isSome
            rw [Option.isSome_map]
            exact ih (by omega)

theorem readTargets_congr {f g : Nat → Bool} {n : Nat} (hfg : ∀ i < n, f i = g i) {l : List Nat}
    (hl : ∀ i ∈ l, i < n) (j : Nat) : readTargets f n l j = readTargets g n l j := by
  induction l generalizing j with
  | nil => rfl
  | cons i rest ih =>
      have hrest : ∀ k ∈ rest, k < n := fun k hk => hl k (List.mem_cons_of_mem _ hk)
      have hfind : (List.range' j (n - j)).find? f = (List.range' j (n - j)).find? g := by
        rw [← List.head?_filter, ← List.head?_filter, List.filter_congr fun k hk => hfg k ?_]
        rw [List.mem_range'_1] at hk
        omega
      rw [readTargets, readTargets, hfg i (hl i List.mem_cons_self), ih hrest, hfind]
      split
      · rfl
      · split
        · rfl
        · rw [ih hrest]

/-- The faults in the contexts are the ones injected, where a context is taken once. -/
theorem Taken.good_eq {ids : List CtxId} {free : Pool → List CtxId}
    (ht : Taken B s r place ids free) {i : Nat} (hi : i < B.ndisks)
    (hcount : ∀ e c, place i = some e → ids[i]? = some c → ids.count c ≤ 1) :
    good (updateEach (readCtx r s.nextCount place fault ids) ids.zipIdx s.ctx) place ids i =
      ((place i).isSome && !fault i) := by
  have hlt : i < ids.length := by rw [ht.length]; exact hi
  have hat : ids[i]? = some ids[i] := List.getElem?_eq_getElem hlt
  cases he : place i with
  | none => simp [good, he]
  | some e =>
      have hctx := updateEach_zipIdx (readCtx r s.nextCount place fault ids) s.ctx hat
        (hcount e _ he hat)
      simp [good, hat, hctx, readCtx, he]

/-- A request that has what it needs goes through. -/
theorem Served.isRequest (hs : Served B s r fault) (h : Orderly ok s)
    (hplace : ∀ i b c, s.map i = some (b, c) → ok b = true) :
    (isRequest B s r fault).isSome := by
  have hplace' : ∀ i b c, s.place B r.slab i = some (b, c) → ok b = true :=
    fun i b c hi => hplace _ b c hi
  obtain ⟨⟨ids, free⟩, htake⟩ :=
    Option.isSome_iff_exists.mp (takeEach_isSome_iff.mpr hs.contexts)
  rw [DataPath.isRequest, isTransferChunk]
  cases hw : r.write with
  | true => simp [isRdmaWrite, htake]
  | false =>
      have ht := taken_of_takeEach h.sound.free_own htake
      have hmapped : ¬ ∃ i ∈ List.range B.ndisks, fault i = true ∧ s.place B r.slab i = none := by
        rintro ⟨i, hi, hfault, hnone⟩
        have hsome := hs.faults hw i hi hfault
        rw [hnone] at hsome
        cases hsome
      have hsplit : List.range B.ndisks =
          List.range B.ndatas ++ List.range' B.ndatas (B.ndisks - B.ndatas) := by
        have hjoin := List.range'_append_1 (s := 0) (m := B.ndatas) (n := B.ndisks - B.ndatas)
        have hle := B.ndatas_le
        rw [Nat.zero_add, show B.ndatas + (B.ndisks - B.ndatas) = B.ndisks by omega] at hjoin
        rw [List.range_eq_range', List.range_eq_range', hjoin]
      have htargets : (readTargets
          (good (updateEach (readCtx r s.nextCount (s.place B r.slab) fault ids) ids.zipIdx s.ctx)
            (s.place B r.slab) ids) B.ndisks (List.range B.ndatas) B.ndatas).isSome := by
        have hcount : ∀ i e c, s.place B r.slab i = some e → ids[i]? = some c →
            ids.count c ≤ 1 := by
          intro i e c he hc
          refine ht.count_le h ?_
          rw [ht.pool_server hc he]
          exact hplace' i e.1 e.2 he
        rw [readTargets_congr (fun i hi => ht.good_eq hi (hcount i))
          fun i hi => lt_of_lt_of_le (List.mem_range.mp hi) B.ndatas_le]
        refine readTargets_isSome ?_
        have henough := hs.enough hw
        rw [hsplit, List.countP_append] at henough
        have hnot := List.length_eq_countP_add_countP (l := List.range B.ndatas)
          (p := fun i => (s.place B r.slab i).isSome && !fault i)
        rw [List.length_range] at hnot
        have hneg : (List.range B.ndatas).countP
            (fun i => !((s.place B r.slab i).isSome && !fault i)) =
              (List.range B.ndatas).countP
                fun i => decide ¬ ((s.place B r.slab i).isSome && !fault i) = true :=
          List.countP_congr fun i _ => by simp
        omega
      rw [if_neg Bool.false_ne_true, isRdmaRead, htake, Option.bind_some, if_neg hmapped]
      show (Option.map _ _).isSome
      rw [Option.isSome_map]
      exact htargets

/-- The request the disconnect handler of `b` is about to issue again. -/
def nextRetry (s : Path Data) (b : Nat) : Option (Request Data) :=
  (s.scan.find? fun c => decide (c.pool.server = b)).bind fun c =>
    if (s.ctx c).inFlight = .read then (s.ctx c).req else none

/-- The data path it issues it in: the context has been returned. -/
def retryPath (s : Path Data) (b : Nat) : Path Data :=
  match s.scan.find? fun c => decide (c.pool.server = b) with
  | none => s
  | some c =>
      { s with
        scan := s.scan.eraseP fun c => decide (c.pool.server = b)
        free := putBack CtxId.pool [c] s.free }

section Init

variable [Zero Data] {map : Nat → Option (Nat × ChunkIx)} {cbState : Nat → CbState}
  {ready : Nat → Bool} {mem : Nat × ChunkIx × Nat → Data}

theorem mem_pathInit_free {p : Pool} {c : CtxId} :
    c ∈ (pathInit B map cbState ready mem).free p ↔
      c.pool = p ∧ Made B (pathInit B map cbState ready mem) c := by
  simp only [pathInit, Made, InPool]
  by_cases hp : p.conn < B.submitQueues ∧ p.server < B.numCb ∧ ready p.server = true
  · rw [if_pos hp, mem_isCtxInit]
    constructor
    · rintro ⟨rfl, hj⟩
      exact ⟨rfl, ⟨hp.1, hp.2.1, hj⟩, hp.2.2⟩
    · rintro ⟨rfl, ⟨-, -, hj⟩, -⟩
      exact ⟨rfl, hj⟩
  · rw [if_neg hp]
    constructor
    · intro hmem
      cases hmem
    · rintro ⟨rfl, ⟨hk, hb, -⟩, hready⟩
      exact absurd ⟨hk, hb, hready⟩ hp

theorem pathInit_orderly (B : Build Data) (map : Nat → Option (Nat × ChunkIx))
    (cbState : Nat → CbState) (ready : Nat → Bool) (mem : Nat × ChunkIx × Nat → Data) :
    Orderly ok (pathInit B map cbState ready mem) where
  sound :=
    { free_own := by
        intro p c hc
        have hmem : c ∈ (pathInit B map cbState ready mem).free p := hc
        exact (mem_pathInit_free.mp hmem).1
      free_nodup := by
        intro p _
        show ((pathInit B map cbState ready mem).free p).Nodup
        simp only [pathInit]
        split
        · exact isCtxInit_nodup p
        · exact List.nodup_nil
      fits := fun v hv => by cases hv
      held_free := fun v hv => by cases hv
      apart := List.Pairwise.nil
      grp_lt := fun v hv => by cases hv
      count_ge := fun v hv => by cases hv }
  server := fun o ho => by cases ho

theorem pathInit_stocked : Stocked (pathInit B map cbState ready mem) where
  free := fun _ _ hc => (mem_pathInit_free.mp hc).2.2
  held := fun o ho => by cases ho
  scan := fun c hc => by cases hc
  named := fun c hc => by cases hc

end Init

end Hydra.DataPath
