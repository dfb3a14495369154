/-
  DataPath/Striping.lean --- the bytes of a request with erasure coding.

  Source: in `resilience_manager/is_main.c` the copies of `IS_rdma_write` and of
  `client_read_done` in the `EC` build, and the size of a buffer in `kernel_cb_init`.

  Each page is cut into `NDATAS` parts, and part `i` of every page goes to the buffer of
  context `i`.  `DataPath/Gather.lean` has bios, segments and requests.
-/
import Hydra.DataPath.Gather

set_option autoImplicit false

namespace Hydra.DataPath

open Hydra.Foundation

/-! ## The copies -/

/-- The data pieces of a build with erasure coding. -/
structure Stripes where
  ndatas : Nat
  ndatas_dvd : ndatas ∣ isPageSize

/-- A `memcpy` between an `rdma_buf` and a page: `len` bytes at `buf` of context `ctx`, and
at address `page`. -/
structure Memcpy where
  ctx : Nat
  buf : Nat
  page : Nat
  len : Nat
  deriving DecidableEq, Repr

namespace Memcpy

/-- The copy is to or from byte `y` of the buffer of context `i`. -/
def covers (c : Memcpy) (i y : Nat) : Bool :=
  decide (c.ctx = i ∧ c.buf ≤ y ∧ y < c.buf + c.len)

/-- From the page into the buffer. -/
def write (size : Nat) (mem : Memory) (bufs : Nat → Memory) (c : Memcpy) :
    Except Crash (Nat → Memory) :=
  if c.buf + c.len ≤ size then
    .ok (Function.update bufs c.ctx
      (copyTo (bufs c.ctx) c.buf c.len fun y => mem (c.page + y)))
  else .error (.pastEnd c.buf)

/-- From the buffer into the page. -/
def read (size : Nat) (bufs : Nat → Memory) (mem : Memory) (c : Memcpy) : Except Crash Memory :=
  if c.buf + c.len ≤ size then .ok (copyTo mem c.page c.len fun y => bufs c.ctx (c.buf + y))
  else .error (.pastEnd c.buf)

end Memcpy

namespace Stripes

variable (s : Stripes)

/-- `cb->size`, the size of an `rdma_buf`. -/
def bufSize (maxSglLen : Nat) : Nat := isPageSize / s.ndatas * maxSglLen

/-- The copies for the page at an address: for each context its part. -/
def pageCopies (page bioOffset : Nat) : List Memcpy :=
  (List.range s.ndatas).map fun i =>
    ⟨i, bioOffset / s.ndatas, page + i * isPageSize / s.ndatas, isPageSize / s.ndatas⟩

/-- `bio_for_each_segment`.  `bio_offset` is a `u32`. -/
def segmentCopies : List BioVec → Nat → Except Crash (List Memcpy)
  | [], _ => .ok []
  | v :: rest, bioOffset =>
      if v.bvLen ≠ isPageSize then .error .bugOn
      else do
        let more ← segmentCopies rest ((bioOffset + isPageSize) % 2 ^ 32)
        return s.pageCopies v.page bioOffset ++ more

/-- The loop along `bi_next`. -/
def bioCopies : List Bio → Nat → List Memcpy
  | [], _ => []
  | b :: rest, bioOffset =>
      s.pageCopies b.data bioOffset ++ bioCopies rest ((bioOffset + isPageSize) % 2 ^ 32)

variable {maxSglLen : Nat}

/-- The copies for a request in order.  Those of `IS_rdma_write` and of
`client_read_done` differ only in their direction. -/
def copies (req : BlkRequest maxSglLen) : Except Crash (List Memcpy) :=
  if req.head.multipleSegments then s.segmentCopies req.head.segments 0
  else .ok (s.bioCopies req.bios 0)

/-- The copies of `IS_rdma_write`. -/
def rdmaWrite (req : BlkRequest maxSglLen) (mem : Memory) (bufs : Nat → Memory) :
    Except Crash (Nat → Memory) := do
  (← s.copies req).foldlM (Memcpy.write (s.bufSize maxSglLen) mem) bufs

/-- The copies of `client_read_done`. -/
def readDone (req : BlkRequest maxSglLen) (bufs : Nat → Memory) (mem : Memory) :
    Except Crash Memory := do
  (← s.copies req).foldlM (Memcpy.read (s.bufSize maxSglLen) bufs) mem

end Stripes

/-! ## Requests of whole pages -/

/-- A request of whole pages: a chain of bios with one page each, or one bio with a page
in each segment.  `blk_rq_bytes` is an `unsigned int`. -/
structure PageRequest (maxSglLen : Nat) extends BlkRequest maxSglLen where
  dataLen : toBlkRequest.bytes.length < 2 ^ 32
  pages :
    (∀ b ∈ toBlkRequest.bios, b.tail = [] ∧ b.head.bvLen = isPageSize) ∨
      tail = [] ∧ ∀ v ∈ head.segments, v.bvLen = isPageSize

variable {maxSglLen : Nat}

/-- The addresses of the pages in order. -/
def BlkRequest.pageList (req : BlkRequest maxSglLen) : List Nat :=
  req.bios.flatMap fun b => b.segments.map BioVec.page

namespace BioVec

variable {v : BioVec}

theorem bytes_eq_of_whole (h : v.bvLen = isPageSize) : v.bytes = List.range' v.page isPageSize := by
  have hfits := v.fits
  rw [bytes, h, show v.bvOffset = 0 by omega, Nat.add_zero]

end BioVec

namespace PageRequest

variable (req : PageRequest maxSglLen)

theorem whole : ∀ b ∈ req.bios, ∀ v ∈ b.segments, v.bvLen = isPageSize := by
  intro b hb v hv
  rcases req.pages with hchain | ⟨hsingle, hsegments⟩
  · obtain ⟨htail, hlen⟩ := hchain b hb
    rw [Bio.segments, htail, List.mem_singleton] at hv
    rw [hv, hlen]
  · rw [BlkRequest.bios, hsingle, List.mem_singleton] at hb
    exact hsegments v (hb ▸ hv)

theorem chain (h : req.head.tail = []) :
    ∀ b ∈ req.bios, b.tail = [] ∧ b.head.bvLen = isPageSize := by
  rcases req.pages with hchain | ⟨hsingle, hsegments⟩
  · exact hchain
  · intro b hb
    rw [BlkRequest.bios, hsingle, List.mem_singleton] at hb
    exact ⟨by rw [hb, h], by rw [hb]; exact hsegments _ (List.mem_cons_self ..)⟩

theorem single (h : req.head.tail ≠ []) : req.tail = [] := by
  rcases req.pages with hchain | ⟨hsingle, -⟩
  · exact absurd (hchain req.head (List.mem_cons_self ..)).1 h
  · exact hsingle

theorem length_pageList (h : req.head.tail = []) : req.pageList.length = req.bios.length := by
  have hone : ∀ b ∈ req.bios, (b.segments.map BioVec.page).length = 1 := by
    intro b hb
    rw [List.length_map, Bio.segments, (req.chain h b hb).1, List.length_singleton]
  rw [BlkRequest.pageList, List.length_flatMap, List.map_congr_left hone]
  simp

theorem bytes_eq : req.bytes = req.pageList.flatMap (List.range' · isPageSize) := by
  rw [BlkRequest.bytes, BlkRequest.pageList, List.flatMap_assoc]
  refine List.flatMap_congr fun b hb => ?_
  rw [Bio.bytes, List.flatMap_map]
  exact List.flatMap_congr fun v hv => BioVec.bytes_eq_of_whole (req.whole b hb v hv)

theorem strided : Strided isPageSize req.pageList req.bytes := by
  rw [req.bytes_eq]
  exact strided_blocks isPageSize_pos _

theorem length_bytes : req.bytes.length = isPageSize * req.pageList.length := by
  rw [req.bytes_eq, length_blocks]

end PageRequest

namespace Stripes

variable (s : Stripes)

/-- The bytes of a page in one buffer. -/
def width : Nat := isPageSize / s.ndatas

theorem ndatas_pos : 0 < s.ndatas := Nat.pos_of_dvd_of_pos s.ndatas_dvd isPageSize_pos

theorem ndatas_mul_width : s.ndatas * s.width = isPageSize := Nat.mul_div_cancel' s.ndatas_dvd

theorem width_pos : 0 < s.width :=
  Nat.div_pos (Nat.le_of_dvd isPageSize_pos s.ndatas_dvd) s.ndatas_pos

theorem mul_isPageSize_div (k : Nat) : k * isPageSize / s.ndatas = k * s.width :=
  Nat.mul_div_assoc k s.ndatas_dvd

/-- The copies for the pages from number `k` on. -/
def stripe : List Nat → Nat → List Memcpy
  | [], _ => []
  | page :: rest, k => s.pageCopies page (k * isPageSize) ++ stripe rest (k + 1)

theorem pageCopies_eq (page k : Nat) :
    s.pageCopies page (k * isPageSize) =
      (List.range s.ndatas).map fun i => ⟨i, k * s.width, page + i * s.width, s.width⟩ := by
  simp only [pageCopies, s.mul_isPageSize_div, width]

theorem next_offset {k n : Nat} (h : (k + (n + 1)) * isPageSize < 2 ^ 32) :
    (k * isPageSize + isPageSize) % 2 ^ 32 = (k + 1) * isPageSize := by
  have hle : (k + 1) * isPageSize ≤ (k + (n + 1)) * isPageSize :=
    Nat.mul_le_mul_right _ (by omega)
  rw [← Nat.add_one_mul, Nat.mod_eq_of_lt (by omega)]

theorem segmentCopies_eq {segs : List BioVec} {k : Nat}
    (hwhole : ∀ v ∈ segs, v.bvLen = isPageSize) (hlen : (k + segs.length) * isPageSize < 2 ^ 32) :
    s.segmentCopies segs (k * isPageSize) = .ok (s.stripe (segs.map BioVec.page) k) := by
  induction segs generalizing k with
  | nil => rfl
  | cons v rest ih =>
      obtain ⟨hv, hrest⟩ := List.forall_mem_cons.mp hwhole
      rw [List.length_cons] at hlen
      rw [segmentCopies, if_neg (not_not.mpr hv), next_offset hlen,
        ih hrest (by rwa [show k + 1 + rest.length = k + (rest.length + 1) by omega])]
      rfl

theorem bioCopies_eq {bios : List Bio} {k : Nat}
    (hwhole : ∀ b ∈ bios, b.tail = [] ∧ b.head.bvLen = isPageSize)
    (hlen : (k + bios.length) * isPageSize < 2 ^ 32) :
    s.bioCopies bios (k * isPageSize) =
      s.stripe (bios.flatMap fun b => b.segments.map BioVec.page) k := by
  induction bios generalizing k with
  | nil => rfl
  | cons b rest ih =>
      obtain ⟨⟨htail, hb⟩, hrest⟩ := List.forall_mem_cons.mp hwhole
      have hfits := b.head.fits
      have hdata : b.data = b.head.page := by
        rw [Bio.data]
        omega
      rw [List.length_cons] at hlen
      rw [bioCopies, next_offset hlen,
        ih hrest (by rwa [show k + 1 + rest.length = k + (rest.length + 1) by omega]), hdata,
        List.flatMap_cons, Bio.segments, htail]
      rfl

/-- Both shapes of a request make the same copies for its pages. -/
theorem copies_eq (req : PageRequest maxSglLen) :
    s.copies req.toBlkRequest = .ok (s.stripe req.pageList 0) := by
  have hbound : (0 + req.pageList.length) * isPageSize < 2 ^ 32 := by
    rw [Nat.zero_add, Nat.mul_comm, ← req.length_bytes]
    exact req.dataLen
  by_cases hsegs : req.head.tail = []
  · have heq := s.bioCopies_eq (req.chain hsegs) (k := 0) (by rwa [← req.length_pageList hsegs])
    rw [Nat.zero_mul] at heq
    rw [copies, if_neg (by rw [Bio.multipleSegments_iff, not_not]; exact hsegs), heq]
    rfl
  · have hlist : req.pageList = req.head.segments.map BioVec.page := by
      simp [BlkRequest.pageList, BlkRequest.bios, req.single hsegs]
    rw [hlist, List.length_map] at hbound
    have heq := s.segmentCopies_eq (req.whole _ (List.mem_cons_self ..)) hbound
    rw [Nat.zero_mul] at heq
    rw [copies, if_pos (req.head.multipleSegments_iff.mpr hsegs), heq, hlist]

/-! ## What the copies reach -/

theorem mem_stripe {pages : List Nat} {k : Nat} {c : Memcpy} (h : c ∈ s.stripe pages k) :
    ∃ m < pages.length, c.ctx < s.ndatas ∧ c.buf = (k + m) * s.width ∧ c.len = s.width := by
  induction pages generalizing k with
  | nil => simp [stripe] at h
  | cons page rest ih =>
      rw [stripe, List.mem_append, pageCopies_eq, List.mem_map] at h
      rcases h with ⟨i, hi, rfl⟩ | h
      · exact ⟨0, Nat.zero_lt_succ _, List.mem_range.mp hi, rfl, rfl⟩
      · obtain ⟨m, hm, hctx, hbuf, hlen⟩ := ih h
        exact ⟨m + 1, Nat.succ_lt_succ hm, hctx, by rw [hbuf]; congr 1; omega, hlen⟩

theorem fits_of_mem_stripe {pages : List Nat} {c : Memcpy} (h : c ∈ s.stripe pages 0)
    (hlen : pages.length ≤ maxSglLen) :
    c.ctx < s.ndatas ∧ c.buf + c.len ≤ s.bufSize maxSglLen := by
  obtain ⟨m, hm, hctx, hbuf, hwidth⟩ := s.mem_stripe h
  refine ⟨hctx, ?_⟩
  calc c.buf + c.len = (m + 1) * s.width := by rw [hbuf, hwidth, Nat.zero_add, Nat.add_one_mul]
    _ ≤ maxSglLen * s.width := Nat.mul_le_mul_right _ (by omega)
    _ = s.bufSize maxSglLen := Nat.mul_comm ..

/-- The copies for one page reach a byte of a buffer once if it is where the page goes. -/
theorem countP_pageCopies {i : Nat} (hi : i < s.ndatas) (page k y : Nat) :
    (s.pageCopies page (k * isPageSize)).countP (·.covers i y) =
      if k * s.width ≤ y ∧ y < (k + 1) * s.width then 1 else 0 := by
  rw [pageCopies_eq, List.countP_map, Nat.add_one_mul]
  split
  · rename_i hin
    have hcount : (List.range s.ndatas).count i = 1 :=
      List.count_eq_one_of_mem List.nodup_range (List.mem_range.mpr hi)
    rw [← hcount, List.count]
    refine List.countP_congr fun j _ => ?_
    simp [Memcpy.covers, hin]
  · rename_i hout
    rw [List.countP_eq_zero]
    intro j _
    simp only [Function.comp_apply, Memcpy.covers, decide_eq_true_eq]
    exact fun h => hout h.2

theorem countP_stripe {i : Nat} (hi : i < s.ndatas) (pages : List Nat) (k y : Nat) :
    (s.stripe pages k).countP (·.covers i y) =
      if k * s.width ≤ y ∧ y < (k + pages.length) * s.width then 1 else 0 := by
  induction pages generalizing k with
  | nil =>
      rw [List.length_nil, Nat.add_zero, if_neg (by omega)]
      rfl
  | cons page rest ih =>
      have hsplit : k + 1 + rest.length = k + (rest.length + 1) := by omega
      have hstep : (k + 1) * s.width = k * s.width + s.width := Nat.add_one_mul ..
      have hmore : (k + 1) * s.width ≤ (k + (rest.length + 1)) * s.width :=
        Nat.mul_le_mul_right _ (by omega)
      rw [stripe, List.countP_append, s.countP_pageCopies hi, ih, hsplit, List.length_cons]
      -- the page goes before what the rest goes to
      split_ifs <;> omega

/-! ## What they do -/

theorem foldlM_write_pageCopies {size page k : Nat} (mem : Memory) (bufs : Nat → Memory)
    (hfit : (k + 1) * s.width ≤ size) :
    (s.pageCopies page (k * isPageSize)).foldlM (Memcpy.write size mem) bufs =
      .ok fun i =>
        if i < s.ndatas then
          copyTo (bufs i) (k * s.width) s.width fun y => mem (page + i * s.width + y)
        else bufs i := by
  rw [Nat.add_one_mul] at hfit
  rw [pageCopies_eq, List.foldlM_map]
  exact foldlM_range_update
    (f := fun i buf => copyTo buf (k * s.width) s.width fun y => mem (page + i * s.width + y))
    (fun _ _ _ => if_pos hfit) bufs

/-- The buffer of context `i` gets part `i` of every page. -/
theorem foldlM_write_stripe {size k : Nat} {pages : List Nat} (mem : Memory) (bufs : Nat → Memory)
    (hfit : (k + pages.length) * s.width ≤ size) :
    (s.stripe pages k).foldlM (Memcpy.write size mem) bufs =
      .ok fun i =>
        if i < s.ndatas then
          gatherBlocks s.width mem (pages.map (· + i * s.width)) (k * s.width) (bufs i)
        else bufs i := by
  induction pages generalizing k bufs with
  | nil => simp [stripe, gatherBlocks, pure, Except.pure]
  | cons page rest ih =>
      have hsplit : k + 1 + rest.length = k + (rest.length + 1) := by omega
      have hfirst : (k + 1) * s.width ≤ (k + (rest.length + 1)) * s.width :=
        Nat.mul_le_mul_right _ (by omega)
      rw [List.length_cons] at hfit
      rw [stripe, List.foldlM_append, s.foldlM_write_pageCopies mem bufs (by omega)]
      refine (ih _ (by rwa [hsplit])).trans (congrArg _ (funext fun i => ?_))
      by_cases hi : i < s.ndatas
      · simp only [if_pos hi, List.map_cons, gatherBlocks, Nat.add_one_mul]
      · simp only [if_neg hi]

/-- The bytes of the pages as they lie in the buffers. -/
def joined (bufs : Nat → Memory) : Memory := fun x =>
  bufs (x % isPageSize / s.width) (x / isPageSize * s.width + x % s.width)

theorem joined_at (bufs : Nat → Memory) (k : Nat) {i y : Nat} (hi : i < s.ndatas)
    (hy : y < s.width) :
    s.joined bufs (k * isPageSize + (i * s.width + y)) = bufs i (k * s.width + y) := by
  have hpage : i * s.width + y < isPageSize := by
    have := Nat.mul_le_mul_right s.width (Nat.succ_le_of_lt hi)
    rw [s.ndatas_mul_width, Nat.succ_mul] at this
    omega
  have hdiv : (k * isPageSize + (i * s.width + y)) / isPageSize = k := by
    rw [Nat.mul_comm, Nat.mul_add_div isPageSize_pos, Nat.div_eq_of_lt hpage, Nat.add_zero]
  have hmod : (k * isPageSize + (i * s.width + y)) % isPageSize = i * s.width + y := by
    rw [Nat.mul_comm, Nat.mul_add_mod, Nat.mod_eq_of_lt hpage]
  have hpart : (i * s.width + y) / s.width = i := by
    rw [Nat.mul_comm, Nat.mul_add_div s.width_pos, Nat.div_eq_of_lt hy, Nat.add_zero]
  have hrest : (k * isPageSize + (i * s.width + y)) % s.width = y := by
    rw [← s.ndatas_mul_width,
      show k * (s.ndatas * s.width) + (i * s.width + y) = (k * s.ndatas + i) * s.width + y by ring,
      Nat.mul_comm, Nat.mul_add_mod, Nat.mod_eq_of_lt hy]
  rw [joined, hdiv, hmod, hpart, hrest]

theorem foldlM_read_pageCopies {size page k : Nat} (bufs : Nat → Memory) (mem : Memory)
    (hfit : (k + 1) * s.width ≤ size) :
    (s.pageCopies page (k * isPageSize)).foldlM (Memcpy.read size bufs) mem =
      .ok (copyTo mem page isPageSize fun y => s.joined bufs (k * isPageSize + y)) := by
  rw [Nat.add_one_mul] at hfit
  rw [pageCopies_eq, List.foldlM_map]
  have hrun : (List.range s.ndatas).foldlM (fun m i => Memcpy.read size bufs m
      ⟨i, k * s.width, page + i * s.width, s.width⟩) _ = .ok _ := foldlM_range_eq
    (f := fun i => copyTo mem page (i * s.width) fun y => s.joined bufs (k * isPageSize + y))
    fun i hi => by
      rw [Memcpy.read, if_pos hfit, Nat.add_one_mul, ← copyTo_add]
      exact congrArg Except.ok (copyTo_congr fun y hy => (s.joined_at bufs k hi hy).symm)
  simp only [Nat.zero_mul, s.ndatas_mul_width] at hrun
  rwa [copyTo_zero] at hrun

/-- The pages get the joined bytes in order. -/
theorem foldlM_read_stripe {size k : Nat} {pages : List Nat} (bufs : Nat → Memory) (mem : Memory)
    (hfit : (k + pages.length) * s.width ≤ size) :
    (s.stripe pages k).foldlM (Memcpy.read size bufs) mem =
      .ok (scatterBlocks isPageSize (s.joined bufs) pages (k * isPageSize) mem) := by
  induction pages generalizing k mem with
  | nil => rfl
  | cons page rest ih =>
      have hsplit : k + 1 + rest.length = k + (rest.length + 1) := by omega
      have hfirst : (k + 1) * s.width ≤ (k + (rest.length + 1)) * s.width :=
        Nat.mul_le_mul_right _ (by omega)
      rw [List.length_cons] at hfit
      rw [stripe, List.foldlM_append, s.foldlM_read_pageCopies bufs mem (by omega)]
      refine (ih _ (by rwa [hsplit])).trans ?_
      rw [scatterBlocks, Nat.add_one_mul]

/-- Joining the parts of pages gives the pages. -/
theorem joined_gathered {pages : List Nat} {mem : Memory} (bufs : Nat → Memory)
    {got : Nat → Memory} {x page : Nat}
    (hpage : pages[x / isPageSize]? = some page)
    (hgot : ∀ i < s.ndatas, ∀ y < pages.length * s.width,
      got i y = gatherBlocks s.width mem (pages.map (· + i * s.width)) 0 (bufs i) y) :
    s.joined got x = mem (page + x % isPageSize) := by
  have hmod := Nat.mod_lt x isPageSize_pos
  have hy := Nat.mod_lt (x % isPageSize) s.width_pos
  have hi : x % isPageSize / s.width < s.ndatas := by
    rw [Nat.div_lt_iff_lt_mul s.width_pos, s.ndatas_mul_width]
    exact hmod
  have hparts : x % isPageSize / s.width * s.width + x % isPageSize % s.width = x % isPageSize := by
    rw [Nat.mul_comm]
    exact Nat.div_add_mod ..
  have hx : x = x / isPageSize * isPageSize +
      (x % isPageSize / s.width * s.width + x % isPageSize % s.width) := by
    rw [hparts, Nat.mul_comm]
    exact (Nat.div_add_mod ..).symm
  have hk : x / isPageSize < pages.length := (List.getElem?_eq_some_iff.mp hpage).1
  have hin : x / isPageSize * s.width + x % isPageSize % s.width < pages.length * s.width := by
    have := Nat.mul_le_mul_right s.width (Nat.succ_le_of_lt hk)
    rw [Nat.succ_mul] at this
    omega
  have hbase : (pages.map (· + x % isPageSize / s.width * s.width))[x / isPageSize]? =
      some (page + x % isPageSize / s.width * s.width) := by
    rw [List.getElem?_map, hpage, Option.map_some]
  have hat := gatherBlocks_at mem (bufs (x % isPageSize / s.width)) 0 hbase hy
  calc s.joined got x
      = got (x % isPageSize / s.width)
          (x / isPageSize * s.width + x % isPageSize % s.width) := by
        conv_lhs => rw [hx]
        exact s.joined_at got _ hi hy
    _ = mem (page + x % isPageSize / s.width * s.width + x % isPageSize % s.width) := by
        rw [hgot _ hi _ hin, Nat.mul_comm (x / isPageSize), ← hat, Nat.zero_add]
    _ = mem (page + x % isPageSize) := by rw [Nat.add_assoc, hparts]

end Stripes

/-! ## There and back -/

theorem PageRequest.length_pageList_le (req : PageRequest maxSglLen) :
    req.pageList.length ≤ maxSglLen := by
  have hlimit : isPageSize * req.pageList.length ≤ isPageSize * maxSglLen := by
    rw [← req.length_bytes, Nat.mul_comm isPageSize]
    exact req.limit
  exact Nat.le_of_mul_le_mul_left hlimit isPageSize_pos

namespace Stripes

variable (s : Stripes)

theorem stripe_fits {n : Nat} (hn : n ≤ maxSglLen) : (0 + n) * s.width ≤ s.bufSize maxSglLen := by
  rw [Nat.zero_add, bufSize, Nat.mul_comm _ maxSglLen]
  exact Nat.mul_le_mul_right _ hn

theorem rdmaWrite_eq (req : PageRequest maxSglLen) (mem : Memory) (bufs : Nat → Memory) :
    s.rdmaWrite req.toBlkRequest mem bufs = .ok fun i =>
      if i < s.ndatas then
        gatherBlocks s.width mem (req.pageList.map (· + i * s.width)) 0 (bufs i)
      else bufs i := by
  have hrun := s.foldlM_write_stripe mem bufs (s.stripe_fits req.length_pageList_le)
  rw [Nat.zero_mul] at hrun
  rw [rdmaWrite, s.copies_eq req]
  exact hrun

theorem readDone_eq (req : PageRequest maxSglLen) (bufs : Nat → Memory) (mem : Memory) :
    s.readDone req.toBlkRequest bufs mem =
      .ok (scatterBlocks isPageSize (s.joined bufs) req.pageList 0 mem) := by
  have hrun := s.foldlM_read_stripe bufs mem (s.stripe_fits req.length_pageList_le)
  rw [Nat.zero_mul] at hrun
  rw [readDone, s.copies_eq req]
  exact hrun

/-- The bytes of a page request that go to each buffer. -/
theorem length_bytes_div (req : PageRequest maxSglLen) :
    req.bytes.length / s.ndatas = req.pageList.length * s.width := by
  rw [req.length_bytes, Nat.mul_comm, s.mul_isPageSize_div]

end Stripes

/-- The pages of a request, cut into the buffers of the contexts and put together from what
was transferred of them, are the same pages again, whichever shape the two requests have.
A page that comes twice in the request that reads holds what was read for it last. -/
theorem stripes_round_trip (s : Stripes) (w r : PageRequest maxSglLen) (mem mem' : Memory)
    (bufs : Nat → Memory) :
    ∃ cw cr bufs',
      s.copies w.toBlkRequest = .ok cw ∧ s.copies r.toBlkRequest = .ok cr ∧
      (∀ c ∈ cw ++ cr, c.ctx < s.ndatas ∧ c.buf + c.len ≤ s.bufSize maxSglLen) ∧
      (∀ i < s.ndatas, ∀ y < w.bytes.length / s.ndatas, cw.countP (·.covers i y) = 1) ∧
      s.rdmaWrite w.toBlkRequest mem bufs = .ok bufs' ∧
      ∀ got : Nat → Memory,
        (∀ i < s.ndatas, ∀ y < w.bytes.length / s.ndatas, got i y = bufs' i y) →
        ∃ mem'', s.readDone r.toBlkRequest got mem' = .ok mem'' ∧
          ∀ (x a b : Nat), w.bytes[x]? = some a → r.bytes[x]? = some b →
            (∀ y, x < y → r.bytes[y]? ≠ some b) → mem'' b = mem a := by
  have htransfer := s.length_bytes_div w
  refine ⟨_, _, _, s.copies_eq w, s.copies_eq r, ?_, ?_, s.rdmaWrite_eq w mem bufs, ?_⟩
  · intro c hc
    rcases List.mem_append.mp hc with hc | hc
    · exact s.fits_of_mem_stripe hc w.length_pageList_le
    · exact s.fits_of_mem_stripe hc r.length_pageList_le
  · intro i hi y hy
    rw [s.countP_stripe hi, if_pos (by rw [Nat.zero_mul, Nat.zero_add]; omega)]
  · intro got hgot
    refine ⟨_, s.readDone_eq r got mem', fun x a b ha hb hlast => ?_⟩
    have hland := r.strided.landed_last isPageSize_pos r.length_bytes hb hlast
    obtain ⟨page, hpage, rfl⟩ := w.strided x a ha
    rw [scatterBlocks_apply, hland]
    refine s.joined_gathered bufs hpage fun i hi y hy => ?_
    rw [hgot i hi y (by omega), if_pos hi]

end Hydra.DataPath
