/-
  DataPath/Gather.lean --- the bytes of a request with replication.

  Source: in `resilience_manager/is_main.c` the copy of `IS_rdma_write` and the copies
  of `client_read_done` in the `REP` build; the queue limits of
  `IS_register_block_device` in `is_mq.c`.

  `DataPath/Path.lean` takes the page of a request as one value.  Here it is bytes of
  memory, reached through a chain of bios, each with one or more segments.
-/
import Hydra.Foundation.Blocks
import Hydra.DataPath.ReadPlan

set_option autoImplicit false

namespace Hydra.DataPath

open Hydra.Foundation

/-! ## Requests as the block layer hands them over -/

/-- `IS_PAGE_SIZE`. -/
def isPageSize : Nat := 4096

/-- `struct bio_vec`: some bytes of one page.  `page` is `page_address(bv_page)`. -/
structure BioVec where
  page : Nat
  bvOffset : Nat
  bvLen : Nat
  pos : 0 < bvLen
  fits : bvOffset + bvLen ≤ isPageSize

/-- The addresses of its bytes. -/
def BioVec.bytes (v : BioVec) : List Nat := List.range' (v.page + v.bvOffset) v.bvLen

/-- A bio: one segment or more. -/
structure Bio where
  head : BioVec
  tail : List BioVec

namespace Bio

variable (b : Bio)

/-- `bio_data`: the address of the first segment. -/
def data : Nat := b.head.page + b.head.bvOffset

def segments : List BioVec := b.head :: b.tail

def bytes : List Nat := b.segments.flatMap BioVec.bytes

/-- `bio_multiple_segments`: the bio is not just its first segment. -/
def multipleSegments : Bool := decide (b.bytes.length ≠ b.head.bvLen)

end Bio

/-- A request of the registered device: a chain of bios with a positive number of
512-byte sectors, at most `MAX_SGL_LEN` pages. -/
structure BlkRequest (maxSglLen : Nat) where
  write : Bool
  head : Bio
  tail : List Bio
  sectors : 512 ∣ ((head :: tail).flatMap Bio.bytes).length
  limit : ((head :: tail).flatMap Bio.bytes).length ≤ maxSglLen * isPageSize

namespace BlkRequest

variable {maxSglLen : Nat} (req : BlkRequest maxSglLen)

/-- The chain that starts at `req->bio`. -/
def bios : List Bio := req.head :: req.tail

/-- The addresses of the bytes of the request, in order. -/
def bytes : List Nat := req.bios.flatMap Bio.bytes

end BlkRequest

/-! ## The copies -/

/-- The pieces of a build with replication. -/
structure Replicas extends Pieces where
  ndatas_eq : ndatas = 1

/-- What ends a copy early: a stray access, a `BUG_ON`, or an `rdma_buf` that is too
short. -/
inductive Crash where
  | stray (e : Stray)
  | bugOn
  | pastEnd (off : Nat)
  deriving DecidableEq, Repr

/-- Contents of memory, and of the buffers of the contexts. -/
abbrev Memory := Nat → UInt8

namespace Replicas

variable (p : Replicas) (maxSglLen : Nat)

/-- `cb->size`, the size of an `rdma_buf`. -/
def bufSize : Nat := isPageSize / p.ndatas * maxSglLen

/-- `IS_rdma_write` for one bio: a page from `bio_data` on into every context. -/
def writeBio (mem : Memory) (b : Bio) (off : Nat) (bufs : Nat → Memory) :
    Except Crash (Nat → Memory) :=
  (List.range p.ndisks).foldlM (fun bufs i =>
    if off + isPageSize ≤ p.bufSize maxSglLen then
      .ok (Function.update bufs i (copyTo (bufs i) off isPageSize fun y => mem (b.data + y)))
    else .error (.pastEnd off)) bufs

/-- The copy of `IS_rdma_write`. -/
def writeBios (mem : Memory) : List Bio → Nat → (Nat → Memory) → Except Crash (Nat → Memory)
  | [], _, bufs => .ok bufs
  | b :: rest, off, bufs => do
      let bufs ← p.writeBio maxSglLen mem b off bufs
      writeBios mem rest (off + isPageSize) bufs

/-- `client_read_done` for the segments of a bio.  `i` is where the loop over the
contexts before has left it. -/
def readSegments (bufs : Nat → Memory) (i : Nat) : List BioVec → Nat → Memory → Except Crash Memory
  | [], _, mem => .ok mem
  | v :: rest, off, mem =>
      if v.bvLen ≠ isPageSize then .error .bugOn
      else if ¬ i < p.ndisks then .error (.stray (.index i))
      else if ¬ off + isPageSize ≤ p.bufSize maxSglLen then .error (.pastEnd off)
      else
        readSegments bufs i rest (off + isPageSize)
          (copyTo mem v.page isPageSize fun y => bufs i (off + y))

/-- `client_read_done` for one bio of a chain: for each data piece a part of the page from
the first context without a fault. -/
def readBio (bufs : Nat → Memory) (b : Bio) (off : Nat) (mem : Memory) : Except Crash Memory :=
  (List.range p.ndatas).foldlM (fun mem i =>
    match p.replicaScan i with
    | .error e => .error (.stray e)
    | .ok j =>
        if off / p.ndatas + isPageSize / p.ndatas ≤ p.bufSize maxSglLen then
          .ok (copyTo mem (b.data + i * isPageSize / p.ndatas) (isPageSize / p.ndatas)
            fun y => bufs j (off / p.ndatas + y))
        else .error (.pastEnd off)) mem

def readBios (bufs : Nat → Memory) : List Bio → Nat → Memory → Except Crash Memory
  | [], _, mem => .ok mem
  | b :: rest, off, mem => do
      let mem ← p.readBio maxSglLen bufs b off mem
      readBios bufs rest (off + isPageSize) mem

/-- The copies of `client_read_done`. -/
def readDone (req : BlkRequest maxSglLen) (bufs : Nat → Memory) (mem : Memory) :
    Except Crash Memory :=
  if req.head.multipleSegments then
    p.readSegments maxSglLen bufs p.ndisks req.head.segments 0 mem
  else p.readBios maxSglLen bufs req.bios 0 mem

end Replicas

/-! ## What the copies should do -/

variable {maxSglLen : Nat}

/-- A write puts the bytes of the request in order into the buffer of every mapped
replica. -/
def WritesInOrder (req : BlkRequest maxSglLen) (p : Replicas) : Prop :=
  ∀ (mem : Memory) (bufs : Nat → Memory), ∃ bufs',
    p.writeBios maxSglLen mem req.bios 0 bufs = .ok bufs' ∧
    ∀ i < p.ndisks, p.mapped i = true → ∀ x a, req.bytes[x]? = some a → bufs' i x = mem a

/-- After a read of replica `t`, the bytes of the request are those of its buffer in
order, and no other byte of memory has changed. -/
def ReadsInOrder (req : BlkRequest maxSglLen) (p : Replicas) (t : Nat) : Prop :=
  ∀ (mem : Memory) (bufs : Nat → Memory), ∃ mem',
    p.readDone maxSglLen req bufs mem = .ok mem' ∧
    (∀ x a, req.bytes[x]? = some a → mem' a = bufs t x) ∧
    ∀ a, a ∉ req.bytes → mem' a = mem a

/-- What goes for the request: as a write, or as a read of the replica that is read. -/
def InOrder (req : BlkRequest maxSglLen) (p : Replicas) : Prop :=
  if req.write then WritesInOrder req p else ∀ t ∈ p.chosen, ReadsInOrder req p t

/-! ## Bios -/

theorem isPageSize_pos : 0 < isPageSize := by decide

theorem nontrivial_byte : Nontrivial UInt8 := ⟨0, 1, by decide⟩

theorem BioVec.length_bytes (v : BioVec) : v.bytes.length = v.bvLen := List.length_range'

theorem Bio.getElem?_bytes_zero (b : Bio) : b.bytes[0]? = some b.data := by
  have hpos := b.head.pos
  rw [Bio.bytes, Bio.segments, List.flatMap_cons,
    List.getElem?_append_left (by rwa [BioVec.length_bytes]), BioVec.bytes,
    List.getElem?_range' hpos]
  simp [Bio.data]

theorem Bio.multipleSegments_iff (b : Bio) : b.multipleSegments = true ↔ b.tail ≠ [] := by
  have hlen : b.bytes.length = b.head.bvLen + (b.tail.flatMap BioVec.bytes).length := by
    rw [Bio.bytes, Bio.segments, List.flatMap_cons, List.length_append, BioVec.length_bytes]
  rw [Bio.multipleSegments, decide_eq_true_eq, hlen]
  cases b.tail with
  | nil => simp
  | cons v rest =>
      have hpos := v.pos
      rw [List.flatMap_cons, List.length_append, BioVec.length_bytes]
      simp only [ne_eq, reduceCtorEq, not_false_eq_true, iff_true]
      omega

namespace Replicas

variable {p : Replicas} {mem mem' : Memory} {bufs bufs' : Nat → Memory} {bios : List Bio}
  {off j t : Nat}

theorem bufSize_eq (p : Replicas) (maxSglLen : Nat) :
    p.bufSize maxSglLen = isPageSize * maxSglLen := by
  rw [bufSize, p.ndatas_eq, Nat.div_one]

theorem ndisks_pos (p : Replicas) : 0 < p.ndisks := by
  have hle := p.ndatas_le
  rw [p.ndatas_eq] at hle
  omega

/-! ## The copy of a write -/

theorem writeBio_of_fits {b : Bio} (hfit : off + isPageSize ≤ p.bufSize maxSglLen) :
    p.writeBio maxSglLen mem b off bufs = .ok fun i =>
      if i < p.ndisks then copyTo (bufs i) off isPageSize fun y => mem (b.data + y)
      else bufs i := by
  exact foldlM_range_update (f := fun _ buf => copyTo buf off isPageSize fun y => mem (b.data + y))
    (fun _ _ _ => if_pos hfit) bufs

theorem fits_of_writeBio {b : Bio} (h : p.writeBio maxSglLen mem b off bufs = .ok bufs') :
    off + isPageSize ≤ p.bufSize maxSglLen := by
  have hfit : p.ndisks = 0 ∨ off + isPageSize ≤ p.bufSize maxSglLen := by
    refine foldlM_range_keeps (I := fun k _ => k = 0 ∨ off + isPageSize ≤ p.bufSize maxSglLen) ?_
      (.inl rfl) h
    intro k _ c c' _ hturn
    split at hturn
    · rename_i hfit
      exact .inr hfit
    · cases hturn
  have := p.ndisks_pos
  omega

theorem writeBios_of_fits (hfit : off + isPageSize * bios.length ≤ p.bufSize maxSglLen) :
    p.writeBios maxSglLen mem bios off bufs = .ok fun i =>
      if i < p.ndisks then gatherBlocks isPageSize mem (bios.map Bio.data) off (bufs i)
      else bufs i := by
  induction bios generalizing off bufs with
  | nil => simp [writeBios, gatherBlocks]
  | cons b rest ih =>
      rw [List.length_cons, Nat.mul_succ] at hfit
      rw [writeBios, writeBio_of_fits (by omega)]
      refine (ih (by omega)).trans (congrArg _ (funext fun i => ?_))
      by_cases hi : i < p.ndisks
      · simp [hi, gatherBlocks]
      · simp [hi]

theorem fits_of_writeBios (h : p.writeBios maxSglLen mem bios off bufs = .ok bufs')
    (hne : bios ≠ []) : off + isPageSize * bios.length ≤ p.bufSize maxSglLen := by
  induction bios generalizing off bufs with
  | nil => exact absurd rfl hne
  | cons b rest ih =>
      rw [writeBios, bind_eq_ok] at h
      obtain ⟨c, hc, hrest⟩ := h
      have hfirst := fits_of_writeBio hc
      rw [List.length_cons, Nat.mul_succ]
      by_cases hnil : rest = []
      · simp only [hnil, List.length_nil]
        omega
      · have := ih hrest hnil
        omega

/-! ## The copies of a read -/

/-- The index that is left from the loop before is out of range. -/
theorem readSegments_error {v : BioVec} {rest : List BioVec} :
    ∃ e, p.readSegments maxSglLen bufs p.ndisks (v :: rest) off mem = .error e := by
  rw [readSegments]
  split
  · exact ⟨_, rfl⟩
  · exact ⟨_, if_pos (Nat.lt_irrefl _)⟩

theorem readBio_eq {b : Bio} :
    p.readBio maxSglLen bufs b off mem =
      match p.replicaScan 0 with
      | .error e => .error (.stray e)
      | .ok j =>
          if off + isPageSize ≤ p.bufSize maxSglLen then
            .ok (copyTo mem b.data isPageSize fun y => bufs j (off + y))
          else .error (.pastEnd off) := by
  rw [readBio, p.ndatas_eq, List.range_one, List.foldlM_cons]
  simp only [Nat.div_one, Nat.zero_mul, Nat.add_zero, List.foldlM_nil, bind_pure]

theorem readBios_of_fits (hj : p.replicaScan 0 = .ok j)
    (hfit : off + isPageSize * bios.length ≤ p.bufSize maxSglLen) :
    p.readBios maxSglLen bufs bios off mem =
      .ok (scatterBlocks isPageSize (bufs j) (bios.map Bio.data) off mem) := by
  induction bios generalizing off mem with
  | nil => rfl
  | cons b rest ih =>
      rw [List.length_cons, Nat.mul_succ] at hfit
      rw [readBios, readBio_eq, hj]
      simp only [if_pos (show off + isPageSize ≤ p.bufSize maxSglLen by omega)]
      exact ih (by omega)

theorem fits_of_readBios (h : p.readBios maxSglLen bufs bios off mem = .ok mem')
    (hne : bios ≠ []) :
    ∃ j, p.replicaScan 0 = .ok j ∧ off + isPageSize * bios.length ≤ p.bufSize maxSglLen := by
  induction bios generalizing off mem with
  | nil => exact absurd rfl hne
  | cons b rest ih =>
      rw [readBios, bind_eq_ok] at h
      obtain ⟨m, hm, hrest⟩ := h
      rw [readBio_eq] at hm
      cases hj : p.replicaScan 0 with
      | error e => rw [hj] at hm; cases hm
      | ok j =>
          simp only [hj] at hm
          split at hm
          · rename_i hfirst
            refine ⟨j, rfl, ?_⟩
            rw [List.length_cons, Nat.mul_succ]
            by_cases hnil : rest = []
            · simp only [hnil, List.length_nil]
              omega
            · obtain ⟨-, -, hfit⟩ := ih hrest hnil
              omega
          · cases hm

/-- The scan stops at the replica that is read when all before it have a fault. -/
theorem replicaScan_eq_chosen (ht : t ∈ p.chosen) :
    p.replicaScan 0 = .ok t ↔ ∀ i < t, p.fault i = true := by
  have hmem := List.mem_of_mem_take ht
  rw [Pieces.goodPieces, List.mem_filter, List.mem_range] at hmem
  have hfault : p.fault t = false := by
    have hgood := hmem.2
    rw [Pieces.isGood, Bool.and_eq_true, Bool.not_eq_true'] at hgood
    exact hgood.2
  obtain ⟨j, hj⟩ : ∃ j, scan p.fault (p.ndisks - 0) 0 = .ok j :=
    scan_total (Nat.zero_le t) (by omega) hfault
  obtain ⟨-, -, hstop, hbefore⟩ := scan_ok hj
  have heq : p.replicaScan 0 = .ok j := by rw [Pieces.replicaScan, hj]
  rw [heq, Except.ok.injEq]
  constructor
  · rintro rfl i hi
    exact hbefore i (Nat.zero_le i) hi
  · intro hall
    rcases Nat.lt_trichotomy j t with hlt | heq | hgt
    · rw [hall j hlt] at hstop
      cases hstop
    · exact heq
    · rw [hbefore t (Nat.zero_le t) hgt] at hfault
      cases hfault

end Replicas

/-! ## When they do -/

section Results

variable {req : BlkRequest maxSglLen} {p : Replicas} {t : Nat}

theorem BlkRequest.bios_ne_nil (req : BlkRequest maxSglLen) : req.bios ≠ [] :=
  List.cons_ne_nil _ _

theorem writesInOrder_iff :
    WritesInOrder req p ↔ req.bios.length ≤ maxSglLen ∧
      ((∃ i < p.ndisks, p.mapped i = true) →
        Strided isPageSize (req.bios.map Bio.data) req.bytes) := by
  have := nontrivial_byte
  have hfits : 0 + isPageSize * req.bios.length ≤ p.bufSize maxSglLen ↔
      req.bios.length ≤ maxSglLen := by
    rw [Nat.zero_add, p.bufSize_eq, Nat.mul_le_mul_left_iff isPageSize_pos]
  constructor
  · intro h
    obtain ⟨_, hok, -⟩ := h (fun _ => 0) (fun _ _ => 0)
    have hfit := Replicas.fits_of_writeBios hok req.bios_ne_nil
    refine ⟨hfits.mp hfit, ?_⟩
    rintro ⟨i, hi, hmapped⟩
    refine (gatherBlocks_iff isPageSize_pos).mp fun (mem buf : Memory) x a hx => ?_
    obtain ⟨bufs', hok, hbytes⟩ := h mem fun _ => buf
    rw [Replicas.writeBios_of_fits hfit] at hok
    have hgot := hbytes i hi hmapped x a hx
    rw [← Except.ok.inj hok] at hgot
    simpa only [if_pos hi] using hgot
  · rintro ⟨hlen, hstrided⟩ mem bufs
    refine ⟨_, Replicas.writeBios_of_fits (hfits.mpr hlen), fun i hi hmapped x a hx => ?_⟩
    simp only [if_pos hi]
    exact (gatherBlocks_iff isPageSize_pos).mpr (hstrided ⟨i, hi, hmapped⟩) mem (bufs i) x a hx

/-- A read that gets through copies blocks from the first replica without a fault. -/
theorem readDone_ok {bufs : Nat → Memory} {mem mem' : Memory}
    (h : p.readDone maxSglLen req bufs mem = .ok mem') :
    req.head.tail = [] ∧ ∃ j, p.replicaScan 0 = .ok j ∧
      mem' = scatterBlocks isPageSize (bufs j) (req.bios.map Bio.data) 0 mem := by
  rw [Replicas.readDone] at h
  split at h
  · obtain ⟨e, he⟩ : ∃ e, p.readSegments maxSglLen bufs p.ndisks req.head.segments 0 mem =
        .error e := Replicas.readSegments_error
    rw [he] at h
    cases h
  · rename_i hsingle
    rw [Bio.multipleSegments_iff, not_not] at hsingle
    obtain ⟨j, hj, hfit⟩ := Replicas.fits_of_readBios h req.bios_ne_nil
    rw [Replicas.readBios_of_fits hj hfit] at h
    exact ⟨hsingle, j, hj, (Except.ok.inj h).symm⟩

/-- It copies from the replica that was read. -/
theorem replicaScan_of_readsInOrder (h : ReadsInOrder req p t) : p.replicaScan 0 = .ok t := by
  obtain ⟨mem', hok, hbytes, -⟩ := h (fun _ => 0) fun i _ => if i = t then 1 else 0
  obtain ⟨-, j, hj, rfl⟩ := readDone_ok hok
  have hfirst : req.bytes[0]? = some req.head.data := by
    have hzero := req.head.getElem?_bytes_zero
    have hpos := (List.getElem?_eq_some_iff.mp hzero).1
    rw [BlkRequest.bytes, BlkRequest.bios, List.flatMap_cons, List.getElem?_append_left hpos, hzero]
  have hgot := hbytes 0 _ hfirst
  rw [scatterBlocks_apply] at hgot
  by_cases hjt : j = t
  · rw [hj, hjt]
  · simp only [if_neg hjt, if_true] at hgot
    split at hgot <;> exact absurd hgot (by decide)

theorem readsInOrder_iff (ht : t ∈ p.chosen) :
    ReadsInOrder req p t ↔
      req.head.tail = [] ∧ req.bytes.Nodup ∧
      (∀ b ∈ req.bios, b.bytes = List.range' b.data isPageSize) ∧
      ∀ i < t, p.fault i = true := by
  have := nontrivial_byte
  have hchain := fun hnodup => strided_flatMap_iff (l := req.bios) (w := isPageSize)
    isPageSize_pos (fun b _ => b.getElem?_bytes_zero) hnodup
  constructor
  · intro h
    have hscan := replicaScan_of_readsInOrder h
    obtain ⟨_, hok, -⟩ := h (fun _ => 0) (fun _ _ => 0)
    obtain ⟨hsingle, -⟩ := readDone_ok hok
    have hscatters : ∀ mem buf : Memory,
        Scatters isPageSize (req.bios.map Bio.data) req.bytes mem buf := by
      intro mem buf
      obtain ⟨mem', hok, hin, hout⟩ := h mem fun _ => buf
      obtain ⟨-, j, -, rfl⟩ := readDone_ok hok
      exact ⟨hin, hout⟩
    obtain ⟨hnodup, hlayout⟩ := (scatters_iff isPageSize_pos).mp hscatters
    exact ⟨hsingle, hnodup, (hchain hnodup).mp hlayout, (p.replicaScan_eq_chosen ht).mp hscan⟩
  · rintro ⟨hsingle, hnodup, hpages, hbefore⟩ mem bufs
    have hscan := (p.replicaScan_eq_chosen ht).mpr hbefore
    have hlayout := (hchain hnodup).mpr hpages
    have hfit : 0 + isPageSize * req.bios.length ≤ p.bufSize maxSglLen := by
      have hlen := hlayout.2
      rw [List.length_map] at hlen
      rw [Nat.zero_add, p.bufSize_eq, ← hlen, Nat.mul_comm]
      exact req.limit
    have hrun : p.readDone maxSglLen req bufs mem =
        .ok (scatterBlocks isPageSize (bufs t) (req.bios.map Bio.data) 0 mem) := by
      rw [Replicas.readDone, if_neg (by rw [Bio.multipleSegments_iff, not_not]; exact hsingle),
        Replicas.readBios_of_fits hscan hfit]
    obtain ⟨hin, hout⟩ := (scatters_iff isPageSize_pos).mpr ⟨hnodup, hlayout⟩ mem (bufs t)
    exact ⟨_, hrun, hin, hout⟩

end Results

/-- When a request is carried in order.  A write is when it has no more bios than the
buffers have pages and each page of its bytes lies in one stretch from where a bio starts.
A read is when every bio is one whole page, the first one in a single segment, none of
their bytes shared, and the replica read is the first without a fault. -/
theorem request_in_order_iff (req : BlkRequest maxSglLen) (p : Replicas) :
    InOrder req p ↔
      if req.write then
        req.bios.length ≤ maxSglLen ∧
          ((∃ i < p.ndisks, p.mapped i = true) →
            Strided isPageSize (req.bios.map Bio.data) req.bytes)
      else
        ∀ t ∈ p.chosen,
          req.head.tail = [] ∧ req.bytes.Nodup ∧
          (∀ b ∈ req.bios, b.bytes = List.range' b.data isPageSize) ∧
          ∀ i < t, p.fault i = true := by
  rw [InOrder]
  split
  · exact writesInOrder_iff
  · exact forall₂_congr fun t ht => readsInOrder_iff ht

/-- A read of one sector. -/
def oneSector : BlkRequest 1 where
  write := false
  head := ⟨⟨4096, 0, 512, by decide, by decide⟩, []⟩
  tail := []
  sectors := ⟨1, by simp [Bio.bytes, Bio.segments, BioVec.bytes]⟩
  limit := by simp [Bio.bytes, Bio.segments, BioVec.bytes, isPageSize]

/-- Three replicas, all mapped and without a fault. -/
def threeGood : Replicas where
  ndatas := 1
  ndisks := 3
  mapped := fun _ => true
  fault := fun _ => false
  ndatas_le := one_le_three
  ndatas_eq := rfl

/-- The rest of the page is overwritten with what the buffer happens to hold. -/
theorem one_sector_read_overwrites :
    (∃ mem', threeGood.readDone 1 oneSector (fun _ _ => 5) (fun _ => 7) = .ok mem' ∧
      4608 ∉ oneSector.bytes ∧ mem' 4608 = 5) ∧
    ¬ InOrder oneSector threeGood := by
  have hrun : threeGood.readDone 1 oneSector (fun _ _ => 5) (fun _ => 7) =
      .ok (copyTo (fun _ => 7) 4096 4096 fun _ => 5) := by
    rw [Replicas.readDone, if_neg (by rw [Bio.multipleSegments_iff]; simp [oneSector])]
    exact Replicas.readBios_of_fits (j := 0) rfl (by decide)
  have hout : 4608 ∉ oneSector.bytes := by
    simp [BlkRequest.bytes, BlkRequest.bios, oneSector, Bio.bytes, Bio.segments, BioVec.bytes]
  refine ⟨⟨_, hrun, hout, by decide⟩, fun h => ?_⟩
  obtain ⟨mem', hok, -, hkeep⟩ := h 0 (by decide) (fun _ => 7) (fun _ _ => 5)
  rw [hrun] at hok
  have hbyte := hkeep 4608 hout
  rw [← Except.ok.inj hok] at hbyte
  exact absurd hbyte (by decide)

end Hydra.DataPath
