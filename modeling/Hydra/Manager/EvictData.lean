/-
  Manager/EvictData.lean --- pages across eviction rounds, with replication.

  Source: the address computation of `IS_request`, the replica choice of
  `IS_rdma_read` and the replica loop of `IS_rdma_write`, over the rounds of
  `Rounds`.  Every chunk of a server is memory of its own; the chunk an
  `INFO_SINGLE` hands out starts zeroed.  `last` remembers what was last written to
  each page and is not part of the program.
-/
import Hydra.Manager.Independence

set_option autoImplicit false

namespace Hydra.Manager

open Hydra.Foundation Hydra.Wire

variable {Data : Type}

/-! ## Pages -/

/-- What `IS_request` looks up for a session chunk: the server and its chunk. -/
def Session.binding (s : Session) (c : Nat) : Option (Nat × ChunkIx) :=
  match s.cbIndexMap c, s.chunkMapCbChunk c with
  | some b, some i => some (b, i)
  | _, _ => none

/-- A page of a chunk of a server. -/
abbrev Cell := Nat × ChunkIx × Nat

/-- The session, the memory of the servers, and the last data written to a page of a
slab. -/
structure DataState (Data : Type) where
  slab : SlabState
  mem : Cell → Data
  last : Nat → Nat → Option Data

/-- The replica `IS_rdma_read` posts its one read on: the data replica if it is
mapped, else the first mapped parity. -/
def readReplica (ndisks : Nat) (mapped : Nat → Bool) : Option Nat :=
  if mapped 0 then some 0
  else ((List.range (ndisks - 1)).find? fun j => mapped (1 + j)).map (1 + ·)

/-- `IS_rdma_read` of one page: the page it fetches.  With no replica mapped the
search for one runs off the arrays. -/
def isRdmaRead (cfg : Config) (s : DataState Data) (slabIndex offset : Nat) : Option Data :=
  (readReplica cfg.ndisks fun i =>
    (s.slab.sess.cbIndexMap (slabIndex * cfg.ndisks + i)).isSome).bind fun i =>
      (s.slab.sess.binding (slabIndex * cfg.ndisks + i)).map fun e => s.mem (e.1, e.2, offset)

/-- `IS_rdma_write` of one page: the page goes to every mapped replica. -/
def isRdmaWrite (cfg : Config) (s : Session) (slabIndex offset : Nat) (page : Data)
    (mem : Cell → Data) : Cell → Data :=
  clearPicked
    (fun i => (s.binding (slabIndex * cfg.ndisks + i)).map fun e => (e.1, e.2, offset))
    page (List.range cfg.ndisks) mem

/-- The memory after a round: a chunk that was in no table and is now is fresh. -/
def zeroFresh [Zero Data] (s t : Session) (mem : Cell → Data) : Cell → Data := fun x =>
  if ((t.cb x.1).remoteChunk.chunkMap x.2.1).isSome &&
      ((s.cb x.1).remoteChunk.chunkMap x.2.1).isNone then 0 else mem x

/-! ## Steps -/

/-- A round, or a page write. -/
inductive DataAction (Data : Type) where
  | slab (a : SlabAction)
  | write (slabIndex offset : Nat) (page : Data)

/-- One step. -/
def dataStep [Zero Data] (cfg : Config) (s : DataState Data) :
    DataAction Data → Option (DataState Data)
  | .slab a =>
      (slabStep cfg s.slab a).map fun slab =>
        { s with slab := slab, mem := zeroFresh s.slab.sess slab.sess s.mem }
  | .write slabIndex offset page =>
      some
        { s with
          mem := isRdmaWrite cfg s.slab.sess slabIndex offset page s.mem
          last := Function.update s.last slabIndex
            (Function.update (s.last slabIndex) offset (some page)) }

/-- The session just created, nothing written. -/
def dataInit (cfg : Config) (cbNum : Nat) (mem : Cell → Data) : DataState Data where
  slab := slabInit cfg cbNum
  mem := mem
  last := fun _ _ => none

/-- The replica stays when the `STOP` is obeyed. -/
def leftMapped (s : Session) (b : Nat) (msg : Message) (c : Nat) : Bool :=
  match s.binding c with
  | none => false
  | some (b', i) => !(decide (b' = b) && msg.flagged i)

/-- The replica holds the page. -/
def Stores (s : DataState Data) (c offset : Nat) (page : Data) : Prop :=
  ∃ b i, s.slab.sess.binding c = some (b, i) ∧ s.mem (b, i, offset) = page

/-- Pages are written where a replica is mapped, rounds follow one another, and
before an eviction every written page is on a replica it does not take. -/
def DataPermitted (cfg : Config) (s : DataState Data) : DataAction Data → Prop
  | .write slabIndex _ _ =>
      ∃ i, i < cfg.ndisks ∧ s.slab.sess.cbIndexMap (slabIndex * cfg.ndisks + i) ≠ none
  | .slab (.disconnect _) => False
  | .slab (.evict b msg) =>
      SlabPermitted cfg s.slab (.evict b msg) ∧
        ∀ slabIndex offset page, s.last slabIndex offset = some page →
          ∃ i, i < cfg.ndisks ∧
            leftMapped s.slab.sess b msg (slabIndex * cfg.ndisks + i) = true ∧
            Stores s (slabIndex * cfg.ndisks + i) offset page
  | .slab a => SlabPermitted cfg s.slab a

/-- The replica a read turns to holds the page: after an eviction, the first replica
it leaves; after a bind, a replica before the one bound. -/
def ServesStored (cfg : Config) (s : DataState Data) : DataAction Data → Prop
  | .slab (.evict b msg) =>
      ∀ slabIndex offset page, s.last slabIndex offset = some page →
        ∀ i, readReplica cfg.ndisks
            (fun i => leftMapped s.slab.sess b msg (slabIndex * cfg.ndisks + i)) = some i →
          Stores s (slabIndex * cfg.ndisks + i) offset page
  | .slab (.mapRound _ env) | .slab (.remap env) =>
      roundServers cfg s.slab.sess.cbNum env s.slab.sess ≠ none →
        ∀ j c, j < cfg.ndisks → BindsAt cfg env.info j c →
          (∃ offset, s.last (c / cfg.ndisks) offset ≠ none) →
          ∃ c', c' < c ∧ c' / cfg.ndisks = c / cfg.ndisks ∧ s.slab.sess.cbIndexMap c' ≠ none
  | _ => True

/-- Both conditions on a step. -/
def DataSafe (cfg : Config) (s : DataState Data) (a : DataAction Data) : Prop :=
  (∀ b, a = .slab b → BindsUnmapped cfg s.slab b) ∧ ServesStored cfg s a

/-! ## The replica a read turns to -/

theorem readReplica_eq_some {ndisks : Nat} {mapped : Nat → Bool} (hdisks : 0 < ndisks) {i : Nat} :
    readReplica ndisks mapped = some i ↔
      i < ndisks ∧ mapped i = true ∧ ∀ k, k < i → mapped k = false := by
  unfold readReplica
  split
  · rename_i hzero
    constructor
    · intro h
      obtain rfl := Option.some.inj h
      exact ⟨hdisks, hzero, fun k hk => absurd hk (Nat.not_lt_zero k)⟩
    · rintro ⟨-, -, hbefore⟩
      rcases Nat.eq_zero_or_pos i with rfl | hpos
      · rfl
      · rw [hbefore 0 hpos] at hzero
        cases hzero
  · rename_i hzero
    rw [Option.map_eq_some_iff]
    constructor
    · rintro ⟨j, hj, rfl⟩
      obtain ⟨hmapped, hj', hbefore⟩ := List.find?_range_eq_some.mp hj
      have hlt := List.mem_range.mp hj'
      refine ⟨by omega, hmapped, fun k hk => ?_⟩
      cases k with
      | zero => exact Bool.eq_false_iff.mpr hzero
      | succ k =>
          have hnot := hbefore k (by omega)
          rwa [Nat.add_comm 1 k, Bool.not_eq_true'] at hnot
    · rintro ⟨hi, hmapped, hbefore⟩
      have hpos : 0 < i := by
        rcases Nat.eq_zero_or_pos i with rfl | hpos
        · exact absurd hmapped hzero
        · exact hpos
      refine ⟨i - 1, List.find?_range_eq_some.mpr ⟨?_, List.mem_range.mpr (by omega), ?_⟩, by omega⟩
      · rwa [show 1 + (i - 1) = i by omega]
      · intro k hk
        rw [hbefore (1 + k) (by omega)]
        rfl

theorem readReplica_isSome {ndisks : Nat} (mapped : Nat → Bool) (hdisks : 0 < ndisks) {i : Nat}
    (hi : i < ndisks) (hmapped : mapped i = true) : ∃ k, readReplica ndisks mapped = some k := by
  have hex : ∃ i, i < ndisks ∧ mapped i = true := ⟨i, hi, hmapped⟩
  refine ⟨Nat.find hex, (readReplica_eq_some hdisks).mpr ?_⟩
  refine ⟨(Nat.find_spec hex).1, (Nat.find_spec hex).2, fun k hk => ?_⟩
  have hmin := Nat.find_min hex hk
  have hlt := (Nat.find_spec hex).1
  by_contra hne
  exact hmin ⟨by omega, Bool.eq_true_of_not_eq_false hne⟩

/-! ## Bindings -/

section Binding

variable {cfg : Config} {waiting : List Nat} {s : Session}

/-- With the tables together a binding is an entry of a server's table. -/
theorem SlabOk.binding_iff (h : SlabOk cfg waiting s) {c b : Nat} {i : ChunkIx} :
    s.binding c = some (b, i) ↔ (s.cb b).remoteChunk.chunkMap i = some c := by
  unfold Session.binding
  constructor
  · intro hbinding
    split at hbinding
    · rename_i b' i' hindex hchunk
      obtain ⟨rfl, rfl⟩ := Prod.mk.inj (Option.some.inj hbinding)
      obtain ⟨-, k, hk, hentry⟩ := h.mapped c b' hindex
      rwa [Option.some.inj (hchunk.symm.trans hk)]
    · cases hbinding
  · intro hentry
    obtain ⟨-, hindex, hchunk⟩ := h.entry b i c hentry
    rw [hindex, hchunk]

theorem SlabOk.isSome_binding (h : SlabOk cfg waiting s) (c : Nat) :
    (s.binding c).isSome = (s.cbIndexMap c).isSome := by
  cases hindex : s.cbIndexMap c with
  | none => simp [Session.binding, hindex]
  | some b =>
      obtain ⟨-, i, hchunk, -⟩ := h.mapped c b hindex
      simp [Session.binding, hindex, hchunk]

/-- Rounds that keep the entries keep the bindings. -/
theorem Session.Keeps.binding {t : Session} (hkeeps : s.Keeps t) {waiting' : List Nat}
    (h : SlabOk cfg waiting s) (ht : SlabOk cfg waiting' t) {c : Nat} {e : Nat × ChunkIx}
    (he : s.binding c = some e) : t.binding c = some e :=
  ht.binding_iff.mpr (hkeeps e.1 e.2 c (h.binding_iff.mp he))

/-- What is mapped after a round was mapped before or bound in it. -/
theorem mapRound_new (hdisks : 0 < cfg.ndisks) {env : RoundEnv} {selectChunk : Nat}
    {r : Session × Int} (h : isSingleChunkMap cfg s.cbNum env selectChunk s = some r) {c b : Nat}
    (hc : r.1.cbIndexMap c = some b) :
    s.cbIndexMap c = some b ∨ (roundServers cfg s.cbNum env s ≠ none ∧
      ∃ j, j < cfg.ndisks ∧ BindsAt cfg env.info j c) := by
  obtain ⟨queried, -, ⟨servers, hservers, heq⟩ | ⟨-, heq⟩⟩ :=
    isSingleChunkMap_eq cfg hdisks env selectChunk s
  · obtain ⟨-, hlen⟩ := roundServers_selected rfl hservers
    rw [heq] at h
    obtain ⟨t, ht, rfl⟩ := Option.map_eq_some_iff.mp h
    rcases bindServers_cbIndexMap ht hc with ⟨j, hj, hbinds⟩ | ⟨-, hold⟩
    · have hlt := (List.getElem?_eq_some_iff.mp hj).1
      rw [Nat.zero_add] at hbinds
      exact .inr ⟨by simp [hservers], j, by omega, hbinds⟩
    · rw [(queryServers_frame env.freeMem s queried).1] at hold
      exact .inl hold
  · rw [heq] at h
    obtain rfl := Option.some.inj h
    rw [(queryServers_frame env.freeMem s queried).1] at hc
    exact .inl hc

/-- What an eviction does to the session's tables before the remap loop. -/
theorem evictBegin_tables {b : Nat} {msg : Message} (hstop : StopsHeld msg (s.cb b).remoteChunk)
    {r : Session × Option (List Nat)} (heq : evictBegin cfg b msg s = some r) :
    r.1.chunkMapCbChunk = s.chunkMapCbChunk ∧
      ∀ c, r.1.cbIndexMap c =
        if ∃ i, msg.flagged i = true ∧ (s.cb b).remoteChunk.chunkMap i = some c then none
        else s.cbIndexMap c := by
  obtain ⟨hmap, -, -, hshrink⟩ := clientRecvStop_frame (s.cb b).remoteChunk msg
  unfold evictBegin at heq
  simp only [hshrink] at heq
  split at heq
  · -- a size of zero: nothing is flagged
    rename_i hzero
    obtain rfl := Option.some.inj heq
    refine ⟨rfl, fun c => ?_⟩
    have hcount := hstop.size
    rw [hzero] at hcount
    have hnone := countWhere_eq_zero_iff.mp (by exact_mod_cast hcount.symm)
    simp [hnone, Session.putCb]
  · rename_i hsize
    split at heq
    · cases heq
    obtain ⟨u, hu, rfl⟩ := Option.map_eq_some_iff.mp heq
    unfold unmapPicked at hu
    simp only at hu
    split at hu
    · cases hu
    obtain rfl := Option.some.inj hu
    refine ⟨rfl, fun c => ?_⟩
    change clearPicked _ none (List.finRange maxMrSizeGb) s.cbIndexMap c = _
    rw [clearPicked_finRange]
    refine if_congr (exists_congr fun i => ?_) rfl rfl
    rw [pickedChunk_eq_some, stopMarked_clientRecvStop _ hsize]
    simp [Session.putCb, hmap]

/-- An eviction leaves exactly the bindings it does not stop. -/
theorem SlabOk.evictBegin_binding (h : SlabOk cfg waiting s) {b : Nat} {msg : Message}
    (hstop : StopsHeld msg (s.cb b).remoteChunk) {r : Session × Option (List Nat)}
    (heq : Manager.evictBegin cfg b msg s = some r) (c : Nat) :
    r.1.binding c = if leftMapped s b msg c then s.binding c else none := by
  obtain ⟨hchunk, hindex⟩ := evictBegin_tables hstop heq
  -- the chunks taken off `c` are the binding of `c`
  have hstopped : (∃ i, msg.flagged i = true ∧ (s.cb b).remoteChunk.chunkMap i = some c) ↔
      ∃ i, s.binding c = some (b, i) ∧ msg.flagged i = true := by
    refine exists_congr fun i => ?_
    rw [h.binding_iff, and_comm]
  have hsame : r.1.binding c = if ∃ i, s.binding c = some (b, i) ∧ msg.flagged i = true then none
      else s.binding c := by
    by_cases hex : ∃ i, s.binding c = some (b, i) ∧ msg.flagged i = true
    · have hnone : r.1.cbIndexMap c = none := by rw [hindex, if_pos (hstopped.mpr hex)]
      rw [if_pos hex]
      simp [Session.binding, hnone]
    · have hkept : r.1.cbIndexMap c = s.cbIndexMap c := by
        rw [hindex, if_neg (fun hcleared => hex (hstopped.mp hcleared))]
      rw [if_neg hex]
      unfold Session.binding
      rw [hkept, hchunk]
  rw [hsame]
  unfold leftMapped
  cases hbinding : s.binding c with
  | none => simp
  | some e =>
      obtain ⟨d, i⟩ := e
      by_cases hstops : d = b ∧ msg.flagged i = true
      · obtain ⟨rfl, hflag⟩ := hstops
        rw [if_pos ⟨i, rfl, hflag⟩, if_neg]
        change ¬ (!(decide (d = d) && msg.flagged i)) = true
        rw [hflag, decide_eq_true rfl]
        exact Bool.false_ne_true
      · have hleft : (!(decide (d = b) && msg.flagged i)) = true := by
          rw [Bool.not_eq_true', Bool.and_eq_false_iff, decide_eq_false_iff_not]
          rcases Classical.em (d = b) with hd | hd
          · exact .inr (Bool.eq_false_iff.mpr fun hflag => hstops ⟨hd, hflag⟩)
          · exact .inl hd
        rw [if_pos hleft, if_neg]
        rintro ⟨k, hk, hflag⟩
        obtain ⟨rfl, rfl⟩ := Prod.mk.inj (Option.some.inj hk)
        exact hstops ⟨rfl, hflag⟩

end Binding

/-! ## The invariant -/

/-- The tables are together, and a read of a written page fetches what was written. -/
structure DataOk (cfg : Config) (s : DataState Data) : Prop where
  slab : SlabOk cfg s.slab.waiting s.slab.sess
  served : ∀ slabIndex offset page, s.last slabIndex offset = some page →
    isRdmaRead cfg s slabIndex offset = some page

section Steps

variable {cfg : Config} (hdisks : 0 < cfg.ndisks)
include hdisks

/-- What a read fetches, and from which replica. -/
theorem isRdmaRead_eq_some {s : DataState Data} (waiting : List Nat)
    (h : SlabOk cfg waiting s.slab.sess) {slabIndex offset : Nat} {page : Data} :
    isRdmaRead cfg s slabIndex offset = some page ↔
      ∃ i, i < cfg.ndisks ∧ Stores s (slabIndex * cfg.ndisks + i) offset page ∧
        ∀ k, k < i → s.slab.sess.cbIndexMap (slabIndex * cfg.ndisks + k) = none := by
  unfold isRdmaRead
  rw [Option.bind_eq_some_iff]
  refine exists_congr fun i => ?_
  rw [readReplica_eq_some hdisks]
  constructor
  · rintro ⟨⟨hi, -, hbefore⟩, hread⟩
    obtain ⟨⟨b, j⟩, hbinding, hmem⟩ := Option.map_eq_some_iff.mp hread
    refine ⟨hi, ⟨b, j, hbinding, hmem⟩, fun k hk => ?_⟩
    simpa using hbefore k hk
  · rintro ⟨hi, ⟨b, j, hbinding, hmem⟩, hbefore⟩
    refine ⟨⟨hi, ?_, fun k hk => by simp [hbefore k hk]⟩, ?_⟩
    · rw [← h.isSome_binding, hbinding]
      rfl
    · rw [hbinding, Option.map_some, hmem]

theorem DataOk.write {s : DataState Data} (h : DataOk cfg s) {slabIndex offset : Nat}
    {page : Data}
    (hmapped : ∃ i, i < cfg.ndisks ∧ s.slab.sess.cbIndexMap (slabIndex * cfg.ndisks + i) ≠ none) :
    DataOk cfg
      { s with
        mem := isRdmaWrite cfg s.slab.sess slabIndex offset page s.mem
        last := Function.update s.last slabIndex
          (Function.update (s.last slabIndex) offset (some page)) } := by
  have hmem : ∀ x, isRdmaWrite cfg s.slab.sess slabIndex offset page s.mem x =
      if ∃ i ∈ List.range cfg.ndisks, ((s.slab.sess.binding (slabIndex * cfg.ndisks + i)).map
        fun e => (e.1, e.2, offset)) = some x then page else s.mem x :=
    fun x => clearPicked_apply _ _ _ _ _
  refine ⟨h.slab, fun slab' offset' page' hlast => ?_⟩
  rw [isRdmaRead_eq_some hdisks s.slab.waiting (by exact h.slab)]
  by_cases hsame : slab' = slabIndex ∧ offset' = offset
  · -- the page just written: the first mapped replica has it
    obtain ⟨rfl, rfl⟩ := hsame
    obtain rfl : page = page' := by simpa using hlast
    obtain ⟨i, hi, hne⟩ := hmapped
    obtain ⟨k, hk⟩ := readReplica_isSome
      (fun i => (s.slab.sess.cbIndexMap (slab' * cfg.ndisks + i)).isSome) hdisks hi
      (Option.isSome_iff_ne_none.mpr hne)
    obtain ⟨hklt, hkmapped, hbefore⟩ := (readReplica_eq_some hdisks).mp hk
    rw [← h.slab.isSome_binding] at hkmapped
    obtain ⟨⟨b, j⟩, hbinding⟩ := Option.isSome_iff_exists.mp hkmapped
    refine ⟨k, hklt, ⟨b, j, hbinding, ?_⟩, fun m hm => by simpa using hbefore m hm⟩
    change isRdmaWrite cfg s.slab.sess slab' offset' page s.mem (b, j, offset') = page
    rw [hmem, if_pos]
    exact ⟨k, List.mem_range.mpr hklt, by rw [hbinding]; rfl⟩
  · -- another page: the write went to other cells
    have hold : s.last slab' offset' = some page' := by
      by_cases hslab : slab' = slabIndex
      · subst hslab
        have hoffset : offset' ≠ offset := fun hoffset => hsame ⟨rfl, hoffset⟩
        simpa [hoffset] using hlast
      · simpa [hslab] using hlast
    obtain ⟨k, hklt, ⟨b, j, hbinding, hstored⟩, hbefore⟩ :=
      (isRdmaRead_eq_some hdisks _ h.slab).mp (h.served slab' offset' page' hold)
    refine ⟨k, hklt, ⟨b, j, hbinding, ?_⟩, hbefore⟩
    change isRdmaWrite cfg s.slab.sess slabIndex offset page s.mem (b, j, offset') = page'
    rw [hmem, if_neg]
    · exact hstored
    · rintro ⟨i, hi, hcell⟩
      obtain ⟨⟨b', j'⟩, hbinding', heq⟩ := Option.map_eq_some_iff.mp hcell
      obtain ⟨rfl, rfl, rfl⟩ : b' = b ∧ j' = j ∧ offset = offset' := by simpa using heq
      have hchunk := Option.some.inj
        ((h.slab.binding_iff.mp hbinding).symm.trans (h.slab.binding_iff.mp hbinding'))
      have hdiv := congrArg (· / cfg.ndisks) hchunk
      simp only [Nat.mul_comm _ cfg.ndisks, Nat.mul_add_div hdisks,
        Nat.div_eq_of_lt hklt, Nat.div_eq_of_lt (List.mem_range.mp hi), Nat.add_zero] at hdiv
      exact hsame ⟨hdiv, rfl⟩

/-- After a step that keeps the bindings and binds only behind a mapped replica, every
page is read from where it was read. -/
theorem DataOk.round [Zero Data] {s : DataState Data} (h : DataOk cfg s) {t : SlabState}
    (ht : SlabOk cfg t.waiting t.sess) (hkeeps : s.slab.sess.Keeps t.sess)
    (hnew : ∀ c, t.sess.cbIndexMap c ≠ none → s.slab.sess.cbIndexMap c ≠ none ∨
      ((∃ offset, s.last (c / cfg.ndisks) offset ≠ none) →
        ∃ c', c' < c ∧ c' / cfg.ndisks = c / cfg.ndisks ∧ s.slab.sess.cbIndexMap c' ≠ none)) :
    DataOk cfg { s with slab := t, mem := zeroFresh s.slab.sess t.sess s.mem } := by
  refine ⟨ht, fun slabIndex offset page hlast => ?_⟩
  obtain ⟨k, hklt, ⟨b, j, hbinding, hstored⟩, hbefore⟩ :=
    (isRdmaRead_eq_some hdisks _ h.slab).mp (h.served slabIndex offset page hlast)
  refine (isRdmaRead_eq_some hdisks t.waiting ht).mpr ?_
  refine ⟨k, hklt, ⟨b, j, hkeeps.binding h.slab ht hbinding, ?_⟩, fun m hm => ?_⟩
  · change zeroFresh s.slab.sess t.sess s.mem (b, j, offset) = page
    unfold zeroFresh
    rw [if_neg]
    · exact hstored
    · rw [h.slab.binding_iff.mp hbinding]
      simp
  · by_contra hne
    have hdiv : (slabIndex * cfg.ndisks + m) / cfg.ndisks = slabIndex := by
      rw [Nat.mul_comm, Nat.mul_add_div hdisks, Nat.div_eq_of_lt (by omega), Nat.add_zero]
    rcases hnew _ hne with hold | hbehind
    · exact hold (hbefore m hm)
    · -- a replica bound in the round has a mapped one before it, and none is
      obtain ⟨c', hlt, hslab, hmapped⟩ := hbehind ⟨offset, by rw [hdiv, hlast]; simp⟩
      rw [hdiv] at hslab
      have hc' : c' = slabIndex * cfg.ndisks + c' % cfg.ndisks := by
        have hsplit := Nat.div_add_mod c' cfg.ndisks
        rw [hslab, Nat.mul_comm] at hsplit
        exact hsplit.symm
      rw [hc'] at hmapped
      exact hmapped (hbefore _ (by omega))

theorem DataOk.evict [Zero Data] {s : DataState Data} (h : DataOk cfg s) {b : Nat}
    {msg : Message} (hstop : StopsHeld msg (s.slab.sess.cb b).remoteChunk)
    (hleft : ∀ slabIndex offset page, s.last slabIndex offset = some page →
      ∃ i, i < cfg.ndisks ∧
        leftMapped s.slab.sess b msg (slabIndex * cfg.ndisks + i) = true ∧
        Stores s (slabIndex * cfg.ndisks + i) offset page)
    (hserves : ServesStored cfg s (.slab (.evict b msg)))
    {r : Session × Option (List Nat)} (heq : evictBegin cfg b msg s.slab.sess = some r)
    {t : SlabState} (hsess : t.sess = r.1) (ht : SlabOk cfg t.waiting t.sess) :
    DataOk cfg { s with slab := t, mem := zeroFresh s.slab.sess t.sess s.mem } := by
  have hbinding := h.slab.evictBegin_binding hstop heq
  rw [← hsess] at hbinding
  have hmapped : ∀ c, (t.sess.cbIndexMap c).isSome = leftMapped s.slab.sess b msg c := by
    intro c
    rw [← ht.isSome_binding, hbinding]
    cases hleft : leftMapped s.slab.sess b msg c with
    | true =>
        unfold leftMapped at hleft
        split at hleft
        · cases hleft
        · rename_i hb
          simp [hb]
    | false => rfl
  refine ⟨ht, fun slabIndex offset page hlast => ?_⟩
  obtain ⟨i, hi, hstays, -⟩ := hleft slabIndex offset page hlast
  obtain ⟨k, hk⟩ := readReplica_isSome
    (fun i => leftMapped s.slab.sess b msg (slabIndex * cfg.ndisks + i)) hdisks hi hstays
  obtain ⟨d, j, hd, hstored⟩ := hserves slabIndex offset page hlast k hk
  obtain ⟨hklt, hkleft, hbefore⟩ := (readReplica_eq_some hdisks).mp hk
  refine (isRdmaRead_eq_some hdisks t.waiting ht).mpr ?_
  have hnow : t.sess.binding (slabIndex * cfg.ndisks + k) = some (d, j) := by
    rw [hbinding, if_pos hkleft, hd]
  refine ⟨k, hklt, ⟨d, j, hnow, ?_⟩, fun m hm => ?_⟩
  · change zeroFresh s.slab.sess t.sess s.mem (d, j, offset) = page
    unfold zeroFresh
    rw [if_neg]
    · exact hstored
    · rw [h.slab.binding_iff.mp hd]
      simp
  · have hnone := hmapped (slabIndex * cfg.ndisks + m)
    rw [hbefore m hm] at hnone
    simpa using hnone

end Steps

/-! ## Runs -/

/-- A chunk of a server that the step stops. -/
def StopsChunk (a : DataAction Data) (e : Nat × ChunkIx) : Prop :=
  ∃ msg, a = .slab (.evict e.1 msg) ∧ msg.flagged e.2 = true

/-- What a mapping round or a remap does to tables that are together: it keeps every
entry, and what it maps anew it binds at some position. -/
theorem SlabOk.roundStep {cfg : Config} (hdisks : 0 < cfg.ndisks) {s t : SlabState}
    (h : SlabOk cfg s.waiting s.sess) {a : SlabAction} {env : RoundEnv}
    (ha : (∃ c, a = .mapRound c env) ∨ a = .remap env) (hpermitted : SlabPermitted cfg s a)
    (hfree : BindsUnmapped cfg s a) (hstep : slabStep cfg s a = some t) :
    s.sess.Keeps t.sess ∧ ∀ c, t.sess.cbIndexMap c ≠ none → s.sess.cbIndexMap c ≠ none ∨
      (roundServers cfg s.sess.cbNum env s.sess ≠ none ∧
        ∃ j, j < cfg.ndisks ∧ BindsAt cfg env.info j c) := by
  rcases ha with ⟨selectChunk, rfl⟩ | rfl
  · obtain ⟨hidle, hfresh⟩ := hpermitted
    rw [SlabState.waiting, hidle] at h
    obtain ⟨r, hr, -, hkeeps⟩ := h.mapRound hdisks _ selectChunk hfresh hfree
    rw [slabStep, hr] at hstep
    obtain rfl := Option.some.inj hstep
    refine ⟨hkeeps, fun c hc => ?_⟩
    obtain ⟨b, hb⟩ := Option.ne_none_iff_exists'.mp hc
    rcases mapRound_new hdisks hr hb with hold | hnew
    · exact .inl (by simp [hold])
    · exact .inr hnew
  · obtain ⟨⟨b, c, rest, hevicting⟩, hfresh⟩ := hpermitted
    have hlater : s.later = rest := by simp [SlabState.later, SlabState.waiting, hevicting]
    rw [SlabState.waiting, hevicting] at h
    rw [BindsUnmapped, hlater] at hfree
    obtain ⟨u, r, hu, hr, -, hkeeps⟩ := h.remap hdisks hfresh hfree
    obtain ⟨-, hstate, hnum, hindex⟩ := releaseChunk_frame hu
    simp only [slabStep, hevicting, hu, Option.bind_some, hr, Option.map_some,
      Option.some.injEq] at hstep
    subst hstep
    refine ⟨hkeeps, fun e he => ?_⟩
    obtain ⟨d, hd⟩ := Option.ne_none_iff_exists'.mp he
    rcases mapRound_new hdisks hr hd with hold | hnew
    · rw [hindex] at hold
      exact .inl (by simp [hold])
    · rw [roundServers_congr hnum hstate] at hnew
      exact .inr hnew

/-- One step keeps the invariant, and every binding it does not stop. -/
theorem DataOk.step [Zero Data] {cfg : Config} (hdisks : 0 < cfg.ndisks) {s t : DataState Data}
    {a : DataAction Data} (h : DataOk cfg s) (hpermitted : DataPermitted cfg s a)
    (hsafe : DataSafe cfg s a) (hstep : dataStep cfg s a = some t) :
    DataOk cfg t ∧ ∀ c e, s.slab.sess.binding c = some e → ¬ StopsChunk a e →
      t.slab.sess.binding c = some e := by
  cases a with
  | write slabIndex offset page =>
      obtain rfl := Option.some.inj hstep
      exact ⟨h.write hdisks hpermitted, fun c e he _ => he⟩
  | slab a =>
      obtain ⟨u, hu, rfl⟩ := Option.map_eq_some_iff.mp hstep
      have hfree := hsafe.1 a rfl
      -- a round: what it binds, it binds behind a mapped replica
      have hrounds : ∀ env, ((∃ c, a = .mapRound c env) ∨ a = .remap env) →
          SlabPermitted cfg s.slab a →
          (roundServers cfg s.slab.sess.cbNum env s.slab.sess ≠ none →
            ∀ j c, j < cfg.ndisks → BindsAt cfg env.info j c →
              (∃ offset, s.last (c / cfg.ndisks) offset ≠ none) →
              ∃ c', c' < c ∧ c' / cfg.ndisks = c / cfg.ndisks ∧
                s.slab.sess.cbIndexMap c' ≠ none) →
          DataOk cfg { s with slab := u, mem := zeroFresh s.slab.sess u.sess s.mem } ∧
            ∀ c e, s.slab.sess.binding c = some e → u.sess.binding c = some e := by
        intro env ha hallowed hbehind
        obtain ⟨t, ht, htok⟩ := h.slab.step hdisks hallowed hfree
        obtain rfl := Option.some.inj (ht.symm.trans hu)
        obtain ⟨hkeeps, hnew⟩ := h.slab.roundStep hdisks ha hallowed hfree hu
        refine ⟨h.round hdisks htok hkeeps fun c hc => ?_, fun c e he =>
          hkeeps.binding h.slab htok he⟩
        rcases hnew c hc with hold | ⟨hround, j, hj, hbinds⟩
        · exact .inl hold
        · exact .inr (hbehind hround j c hj hbinds)
      cases a with
      | mapRound selectChunk env =>
          have hround := hrounds env (.inl ⟨_, rfl⟩) hpermitted hsafe.2
          exact ⟨hround.1, fun c e he _ => hround.2 c e he⟩
      | remap env =>
          have hround := hrounds env (.inr rfl) hpermitted hsafe.2
          exact ⟨hround.1, fun c e he _ => hround.2 c e he⟩
      | disconnect b => exact hpermitted.elim
      | evict b msg =>
          obtain ⟨hallowed, hleft⟩ := hpermitted
          obtain ⟨t, ht, htok⟩ := h.slab.step hdisks hallowed hfree
          obtain rfl := Option.some.inj (ht.symm.trans hu)
          obtain ⟨-, -, hstop⟩ := hallowed
          obtain ⟨r, hr, rfl⟩ := Option.map_eq_some_iff.mp hu
          refine ⟨h.evict hdisks hstop hleft hsafe.2 hr rfl htok, fun c e he hnot => ?_⟩
          change r.1.binding c = some e
          rw [h.slab.evictBegin_binding hstop hr, if_pos, he]
          unfold leftMapped
          rw [he]
          change (!(decide (e.1 = b) && msg.flagged e.2)) = true
          rw [Bool.not_eq_true', Bool.and_eq_false_iff, decide_eq_false_iff_not]
          rcases Classical.em (e.1 = b) with hd | hd
          · exact .inr (Bool.eq_false_iff.mpr fun hflag => hnot ⟨msg, by rw [hd], hflag⟩)
          · exact .inl hd
      | finish =>
          have hallowed : SlabPermitted cfg s.slab .finish := hpermitted
          obtain ⟨t, ht, htok⟩ := h.slab.step hdisks hallowed hfree
          obtain rfl := Option.some.inj (ht.symm.trans hu)
          obtain ⟨b, hevicting⟩ := hallowed
          simp only [slabStep, hevicting, Option.some.injEq] at hu
          subst hu
          refine ⟨h.round hdisks htok (fun _ _ _ hi => hi) fun c hc => .inl hc,
            fun c e he _ => he⟩

/-- Replication: along every run of page writes and eviction rounds in which the
replica a read turns to after a step holds the page before it, every read of a
written page fetches the last data written, and a chunk no `STOP` names keeps its
binding. -/
theorem eviction_keeps_data [Zero Data] (datasizeG cbNum : Nat) (mem : Cell → Data)
    (s : DataState Data)
    (hrun : Reach (dataStep (.replication datasizeG))
      (fun s a => DataPermitted (.replication datasizeG) s a ∧
        DataSafe (.replication datasizeG) s a)
      (dataInit (.replication datasizeG) cbNum mem) s) :
    (∀ slabIndex offset page, s.last slabIndex offset = some page →
      isRdmaRead (.replication datasizeG) s slabIndex offset = some page) ∧
      ∀ a t, DataPermitted (.replication datasizeG) s a → DataSafe (.replication datasizeG) s a →
        dataStep (.replication datasizeG) s a = some t →
        ∀ c e, s.slab.sess.binding c = some e → ¬ StopsChunk a e →
          t.slab.sess.binding c = some e := by
  have hdisks : 0 < (Config.replication datasizeG).ndisks := Nat.succ_pos 2
  have hok : DataOk (.replication datasizeG) s := by
    refine hrun.invariant ⟨slabOk_create _ cbNum, fun _ _ _ hlast => ?_⟩ ?_
    · cases hlast
    · exact fun u a v hu hguard hstep => (hu.step hdisks hguard.1 hguard.2 hstep).1
  exact ⟨hok.served, fun a t hpermitted hsafe hstep =>
    (hok.step hdisks hpermitted hsafe hstep).2⟩

/-! ### A page across one eviction -/

/-- A round of which only the first bind is answered with a chunk. -/
def oneAnswer (selectChunk : Nat) (i : ChunkIx) : RoundEnv where
  random := fun _ => 0
  freeMem := fun _ => 5
  info := fun k =>
    if k = 0 then infoSingle selectChunk i else .plain .infoSingle (selectChunk + k)

theorem oneAnswer_assigned {selectChunk : Nat} {i k : ChunkIx} {j : Nat}
    (h : assignedChunk ((oneAnswer selectChunk i).info j) = some k) : j = 0 ∧ k = i := by
  by_cases hj : j = 0
  · subst hj
    exact ⟨rfl, assignedChunk_infoSingle h⟩
  · have hflag := List.find?_some h
    simp [oneAnswer, hj, Message.plain, Message.flagged] at hflag

theorem oneAnswer_bindsAt {cfg : Config} {selectChunk : Nat} {i : ChunkIx} {j c : Nat}
    (h : BindsAt cfg (oneAnswer selectChunk i).info j c) : c = selectChunk := by
  obtain ⟨k, hk⟩ := Option.ne_none_iff_exists'.mp h.1
  obtain ⟨rfl, -⟩ := oneAnswer_assigned hk
  have hasked : ((oneAnswer selectChunk i).info 0).sizeGb = (selectChunk : Int) := rfl
  have hc := (chunkIndex?_lt h.2).2
  rw [hasked] at hc
  exact_mod_cast hc

theorem oneAnswer_namesFresh {cfg : Config} {selectChunk : Nat} {i : ChunkIx} {s : Session}
    (h : ∀ b < s.cbNum, (s.cb b).remoteChunk.chunkMap i = none) :
    NamesFresh cfg (oneAnswer selectChunk i) s := by
  intro servers hservers k b j hb hj
  rw [(oneAnswer_assigned hj).2]
  exact h b ((roundServers_selected rfl hservers).1.bound b (List.mem_of_getElem? hb))

theorem oneAnswer_bindsFree {cfg : Config} {selectChunk : Nat} {i : ChunkIx} {s : Session}
    {later : List Nat} (hbound : selectChunk < cfg.disksizeG)
    (hunmapped : s.cbIndexMap selectChunk = none) (hlater : selectChunk ∉ later) :
    BindsFree cfg later (oneAnswer selectChunk i).info 0 cfg.ndisks s := by
  refine ⟨?_, ?_⟩
  · intro j _ _ k hk
    obtain ⟨rfl, -⟩ := oneAnswer_assigned hk
    exact ⟨selectChunk, chunkIndex?_of_lt hbound, hunmapped, hlater⟩
  · intro j j' _ hlt _ _ hj'
    obtain ⟨k, hk⟩ := Option.ne_none_iff_exists'.mp hj'
    have hzero := (oneAnswer_assigned hk).1
    omega

/-- Map the device, write a page, evict the last replica and bind it again. -/
def evictLast : List (DataAction Nat) :=
  [.slab (.mapRound 0 (roundEnv 0 0)), .write 0 0 7, .slab (.evict 2 (stopOne 0)),
    .slab (.remap (oneAnswer 2 1)), .slab .finish]

/-- Map the device, write a page, evict the first replica and bind all three again. -/
def evictServed : List (DataAction Nat) :=
  [.slab (.mapRound 0 (roundEnv 0 0)), .write 0 0 7, .slab (.evict 0 (stopOne 0)),
    .slab (.remap (roundEnv 0 1)), .slab .finish]

/-- Only the page written has a last write. -/
theorem last_of_update {slabIndex offset page slab' offset' page' : Nat}
    (h : Function.update (fun _ _ => none) slabIndex
      (Function.update (fun _ => none) offset (some page)) slab' offset' = some page') :
    slab' = slabIndex ∧ offset' = offset ∧ page' = page := by
  by_cases hslab : slab' = slabIndex
  · subst hslab
    by_cases hoffset : offset' = offset
    · subst hoffset
      simp only [Function.update_self, Option.some.injEq] at h
      exact ⟨rfl, rfl, h.symm⟩
    · simp [hoffset] at h
  · simp [hslab] at h

/-- The page is still read from the first replica. -/
theorem eviction_keeps_data_evictLast :
    ∃ s, Reach (dataStep (.replication 1))
        (fun s a => DataPermitted (.replication 1) s a ∧ DataSafe (.replication 1) s a)
        (dataInit (.replication 1) 4 fun _ => 0) s ∧
      s.slab.evicting = none ∧ s.last 0 0 = some 7 ∧
      isRdmaRead (.replication 1) s 0 0 = some 7 := by
  have hrun : Reach (dataStep (.replication 1))
      (fun s a => DataPermitted (.replication 1) s a ∧ DataSafe (.replication 1) s a)
      (dataInit (.replication 1) 4 fun _ => 0)
      ((runActions (dataStep (.replication 1)) (dataInit (.replication 1) 4 fun _ => 0)
        evictLast).get (by rfl)) := by
    apply reach_of_runActions (Option.some_get _).symm
    refine ⟨⟨⟨rfl, roundEnv_namesFresh fun _ _ => rfl⟩, ?_, ?_⟩, fun s₁ h₁ => ?_⟩
    · rintro b ⟨⟩ _
      exact roundEnv_bindsFree (by decide) fun _ => rfl
    · rintro - j c - - ⟨offset, hlast⟩
      exact absurd rfl hlast
    obtain rfl := Option.get_of_eq_some (by rfl) h₁
    refine ⟨⟨⟨0, by decide, by decide⟩, ⟨by rintro b ⟨⟩, trivial⟩⟩, fun s₂ h₂ => ?_⟩
    obtain rfl := Option.get_of_eq_some (by rfl) h₂
    refine ⟨⟨⟨⟨rfl, by decide, stopOne_stopsHeld (by decide)⟩, ?_⟩, ?_, ?_⟩, fun s₃ h₃ => ?_⟩
    · intro slabIndex offset page hlast
      obtain ⟨rfl, rfl, rfl⟩ := last_of_update hlast
      exact ⟨0, by decide, rfl, 0, 0, rfl, rfl⟩
    · rintro b ⟨⟩
      trivial
    · intro slabIndex offset page hlast i hi
      obtain ⟨rfl, rfl, rfl⟩ := last_of_update hlast
      obtain rfl : 0 = i := Option.some.inj hi
      exact ⟨0, 0, rfl, rfl⟩
    obtain rfl := Option.get_of_eq_some (by rfl) h₃
    refine ⟨⟨⟨⟨2, 2, [], rfl⟩, oneAnswer_namesFresh (by decide)⟩, ?_, ?_⟩, fun s₄ h₄ => ?_⟩
    · rintro b ⟨⟩ _
      exact oneAnswer_bindsFree (by decide) rfl (by decide)
    · rintro - j c - hbinds -
      obtain rfl := oneAnswer_bindsAt hbinds
      exact ⟨0, by decide, rfl, by decide⟩
    obtain rfl := Option.get_of_eq_some (by rfl) h₄
    refine ⟨⟨⟨2, rfl⟩, ?_, trivial⟩, fun _ _ => trivial⟩
    rintro b ⟨⟩
    trivial
  exact ⟨_, hrun, rfl, rfl, (eviction_keeps_data 1 4 _ _ hrun).1 0 0 7 rfl⟩

/-- Replicas 1 and 2 hold the page when replica 0 is evicted, and the read after the
round returns the zeroes of the chunk just bound. -/
theorem eviction_loses_page :
    ∃ s, Reach (dataStep .rep) (DataPermitted .rep) (dataInit .rep 4 fun _ => 0) s ∧
      s.slab.evicting = none ∧ s.last 0 0 = some 7 ∧ isRdmaRead .rep s 0 0 = some 0 := by
  have hrun : Reach (dataStep .rep) (DataPermitted .rep) (dataInit .rep 4 fun _ => 0)
      ((runActions (dataStep .rep) (dataInit .rep 4 fun _ => 0) evictServed).get (by rfl)) := by
    apply reach_of_runActions (Option.some_get _).symm
    refine ⟨⟨rfl, roundEnv_namesFresh fun _ _ => rfl⟩, fun s₁ h₁ => ?_⟩
    obtain rfl := Option.get_of_eq_some (by rfl) h₁
    refine ⟨⟨0, by decide, by decide⟩, fun s₂ h₂ => ?_⟩
    obtain rfl := Option.get_of_eq_some (by rfl) h₂
    refine ⟨⟨⟨rfl, by decide, stopOne_stopsHeld (by decide)⟩, ?_⟩, fun s₃ h₃ => ?_⟩
    · intro slabIndex offset page hlast
      obtain ⟨rfl, rfl, rfl⟩ := last_of_update hlast
      exact ⟨1, by decide, rfl, 1, 0, rfl, rfl⟩
    obtain rfl := Option.get_of_eq_some (by rfl) h₃
    refine ⟨⟨⟨0, 0, [], rfl⟩, roundEnv_namesFresh (by decide)⟩, fun s₄ h₄ => ?_⟩
    obtain rfl := Option.get_of_eq_some (by rfl) h₄
    exact ⟨⟨0, rfl⟩, fun _ _ => trivial⟩
  exact ⟨_, hrun, rfl, rfl, rfl⟩

end Hydra.Manager
