/-
  DataPath/Address.lean --- from a sector of the device to a place in a remote chunk.

  Source: `IS_request` of `resilience_manager/is_mq.c`, the remote address and length
  `IS_rdma_read` and `IS_rdma_write` fill in, the capacity `IS_session_create` sets,
  and the constants of `infiniswap.h`.

  The shift and the mask are done in `IS_request`, the two divisions by `NDATAS` where
  a piece is posted, and the arrays are sized by `DISKSIZE_G`.  An `unsigned long` is a
  number below `2^64`; an `int` wraps around at `2^31`.
-/
import Mathlib.Data.Nat.Bitwise
import Mathlib.Order.CompletePartialOrder
import Mathlib.Order.Interval.Set.Disjoint
import Hydra.DataPath.Timeline
import Hydra.Manager.Session

set_option autoImplicit false

namespace Hydra.DataPath

/-! ## Constants -/

/-- The constants of a build that agree with one another as in both blocks of
`infiniswap.h`: `NDATAS` is the power of two `SLAB_SHIFT` exceeds the gigabyte by.
`DISKSIZE_G` is the size of arrays on the stack and the bound of loops over an `int`,
and so is an `int` itself. -/
structure Geometry extends Manager.Config where
  logDatas : Nat
  ndatas_eq : ndatas = 2 ^ logDatas
  logDatas_le : logDatas ≤ 12
  ndatas_le : ndatas ≤ ndisks
  ndatas_dvd : ndatas ∣ datasizeG
  disksize_int : toConfig.disksizeG < 2 ^ 31

/-- `ONE_GB`. -/
def oneGb : Nat := 2 ^ 30

/-- `PAGE_SIZE`. -/
def pageSize : Nat := 2 ^ 12

/-- The value an `int` variable holds after an assignment. -/
def toInt (x : Int) : Int := x.bmod (2 ^ 32)

namespace Geometry

variable (g : Geometry)

/-- `SLAB_SHIFT`. -/
def slabShift : Nat := 30 + g.logDatas

/-- `SLAB_MASK`. -/
def slabMask : Nat := 2 ^ g.slabShift - 1

/-- `IS_session->capacity`. -/
def capacity : Nat := g.datasizeG * oneGb % 2 ^ 64

/-! ## The translation -/

/-- `blk_rq_pos(req) << IS_SECT_SHIFT`. -/
def start (pos : Nat) : Nat := (pos <<< 9) % 2 ^ 64

/-- `slab_index`. -/
def slabIndex (pos : Nat) : Int := toInt (start pos >>> g.slabShift : Nat)

/-- `chunk_offset`. -/
def chunkOffset (pos : Nat) : Nat := start pos &&& g.slabMask

/-- The index of `cb_index_map` and `chunk_map_cb_chunk` for piece `i`. -/
def mapIndex (pos i : Nat) : Int := toInt (g.slabIndex pos * g.ndisks + i)

/-- What is added to `remote_addr`. -/
def remoteOffset (pos : Nat) : Nat := g.chunkOffset pos / g.ndatas

/-- The length of a piece of a request. -/
def remoteLength (len : Nat) : Nat := len / g.ndatas

/-- The bytes of the remote chunk a piece of a one-page request covers. -/
def remoteRange (pos : Nat) : Set Nat :=
  Set.Ico (g.remoteOffset pos) (g.remoteOffset pos + g.remoteLength pageSize)

/-- The sector starts a page that lies inside the device. -/
structure PageAt (pos : Nat) : Prop where
  aligned : pageSize ∣ pos * 512
  inside : pos * 512 + pageSize ≤ g.capacity

variable {g} {pos pos' i i' : Nat}

/-! ## Slabs -/

theorem ndatas_pos : 0 < g.ndatas := by
  rw [g.ndatas_eq]
  exact Nat.two_pow_pos _

theorem datasizeG_le : g.datasizeG ≤ g.disksizeG := by
  obtain ⟨n, hn⟩ := g.ndatas_dvd
  rw [Manager.Config.disksizeG, hn, Nat.mul_div_cancel_left n ndatas_pos, Nat.mul_comm]
  exact Nat.mul_le_mul_left n g.ndatas_le

theorem capacity_eq : g.capacity = g.datasizeG * oneGb := by
  have hle := g.datasizeG_le
  have hint := g.disksize_int
  rw [capacity, Nat.mod_eq_of_lt]
  unfold oneGb
  omega

theorem capacity_lt : g.capacity < 2 ^ 64 := Nat.mod_lt _ (by decide)

/-- A slab is `NDATAS` gigabytes, so that there are `DATASIZE_G / NDATAS` of them. -/
theorem slab_eq : 2 ^ g.slabShift = g.ndatas * oneGb := by
  rw [slabShift, g.ndatas_eq, oneGb, Nat.pow_add, Nat.mul_comm]

theorem capacity_slabs : g.capacity = g.datasizeG / g.ndatas * 2 ^ g.slabShift := by
  rw [capacity_eq, slab_eq, ← Nat.mul_assoc, Nat.div_mul_cancel g.ndatas_dvd]

theorem PageAt.start_eq (h : g.PageAt pos) : start pos = pos * 512 := by
  have hcap := g.capacity_lt
  have hin := h.inside
  rw [start, Nat.shiftLeft_eq, Nat.mod_eq_of_lt (by omega)]

theorem PageAt.slab_lt (h : g.PageAt pos) :
    start pos / 2 ^ g.slabShift < g.datasizeG / g.ndatas := by
  rw [Nat.div_lt_iff_lt_mul (Nat.two_pow_pos _), ← capacity_slabs, h.start_eq]
  have hin := h.inside
  unfold pageSize at hin
  omega

theorem toInt_of_lt {n : Nat} (h : n < 2 ^ 31) : toInt n = n := by
  unfold toInt
  rw [Int.bmod_eq_of_le (by omega) (by omega)]

theorem PageAt.index_lt (h : g.PageAt pos) (hi : i < g.ndisks) :
    start pos / 2 ^ g.slabShift * g.ndisks + i < g.disksizeG := by
  have hslab := h.slab_lt
  calc start pos / 2 ^ g.slabShift * g.ndisks + i
      < start pos / 2 ^ g.slabShift * g.ndisks + g.ndisks := by omega
    _ = (start pos / 2 ^ g.slabShift + 1) * g.ndisks := by rw [Nat.succ_mul]
    _ ≤ g.datasizeG / g.ndatas * g.ndisks := Nat.mul_le_mul_right _ hslab
    _ = g.disksizeG := rfl

theorem PageAt.slabIndex_eq (h : g.PageAt pos) :
    g.slabIndex pos = (start pos / 2 ^ g.slabShift : Nat) := by
  have hslab := h.slab_lt
  have hle := g.datasizeG_le
  have hint := g.disksize_int
  have hdiv := Nat.div_le_self g.datasizeG g.ndatas
  rw [slabIndex, Nat.shiftRight_eq_div_pow]
  exact toInt_of_lt (by omega)

theorem quotient_eq {q r n : Nat} (hr : r < n) : (q * n + r) / n = q := by
  rw [Nat.mul_comm, Nat.mul_add_div (by omega), Nat.div_eq_of_lt hr, Nat.add_zero]

/-- No `int` wraps around. -/
theorem PageAt.mapIndex_eq (h : g.PageAt pos) (hi : i < g.ndisks) :
    g.mapIndex pos i = (start pos / 2 ^ g.slabShift * g.ndisks + i : Nat) := by
  have hlt := h.index_lt hi
  have hint := g.disksize_int
  rw [mapIndex, h.slabIndex_eq, ← Nat.cast_mul, ← Nat.cast_add]
  exact toInt_of_lt (by omega)

/-! ## Offsets -/

theorem chunkOffset_eq (pos : Nat) : g.chunkOffset pos = start pos % 2 ^ g.slabShift := by
  rw [chunkOffset, slabMask, Nat.and_two_pow_sub_one_eq_mod]

theorem page_dvd_slab : pageSize ∣ 2 ^ g.slabShift := by
  unfold pageSize slabShift
  exact Nat.pow_dvd_pow 2 (by omega)

theorem ndatas_dvd_page : g.ndatas ∣ pageSize := by
  rw [g.ndatas_eq, pageSize]
  exact Nat.pow_dvd_pow 2 g.logDatas_le

theorem PageAt.page_dvd_offset (h : g.PageAt pos) : pageSize ∣ g.chunkOffset pos := by
  rw [chunkOffset_eq, h.start_eq, Nat.dvd_mod_iff page_dvd_slab]
  exact h.aligned

/-- Dividing a number of whole pages by `NDATAS` loses nothing. -/
theorem remoteRange_end (h : g.PageAt pos) :
    g.remoteOffset pos + g.remoteLength pageSize = (g.chunkOffset pos + pageSize) / g.ndatas := by
  have hoffset : g.ndatas ∣ g.chunkOffset pos := ndatas_dvd_page.trans h.page_dvd_offset
  rw [remoteOffset, remoteLength, Nat.add_div_of_dvd_right hoffset]

theorem PageAt.offset_le (h : g.PageAt pos) : g.chunkOffset pos + pageSize ≤ 2 ^ g.slabShift := by
  obtain ⟨a, ha⟩ := h.page_dvd_offset
  obtain ⟨b, hb⟩ := g.page_dvd_slab
  have hlt : g.chunkOffset pos < 2 ^ g.slabShift := by
    rw [chunkOffset_eq]
    exact Nat.mod_lt _ (Nat.two_pow_pos _)
  rw [ha, hb] at hlt
  have hab : a < b := Nat.lt_of_mul_lt_mul_left hlt
  rw [ha, hb, ← Nat.mul_succ]
  exact Nat.mul_le_mul_left _ hab

/-- Different pages of one slab have offsets a page apart. -/
theorem offset_apart (h : g.PageAt pos) (h' : g.PageAt pos')
    (hlt : g.chunkOffset pos < g.chunkOffset pos') :
    g.remoteOffset pos + g.remoteLength pageSize ≤ g.remoteOffset pos' := by
  obtain ⟨a, ha⟩ := h.page_dvd_offset
  obtain ⟨b, hb⟩ := h'.page_dvd_offset
  have hnext : g.chunkOffset pos + pageSize ≤ g.chunkOffset pos' := by
    rw [ha, hb] at hlt ⊢
    rw [← Nat.mul_succ]
    exact Nat.mul_le_mul_left _ (Nat.lt_of_mul_lt_mul_left hlt)
  rw [remoteRange_end h, remoteOffset]
  exact Nat.div_le_div_right hnext

/-- A sector is given by the slab and the offset in it. -/
theorem pos_eq_of_slab_of_offset (h : g.PageAt pos) (h' : g.PageAt pos')
    (hslab : start pos / 2 ^ g.slabShift = start pos' / 2 ^ g.slabShift)
    (hoffset : g.chunkOffset pos = g.chunkOffset pos') : pos = pos' := by
  rw [chunkOffset_eq, chunkOffset_eq] at hoffset
  have hstart : start pos = start pos' := by
    rw [← Nat.div_add_mod (start pos) (2 ^ g.slabShift), hslab, hoffset, Nat.div_add_mod]
  rw [h.start_eq, h'.start_eq] at hstart
  omega

end Geometry

open Hydra.DataPath.Geometry in
/-- Every page of the device lands inside the session's tables and inside its remote
chunk, and no two pages share a byte of it. -/
theorem address_translation_sound (g : Geometry) (pos : Nat) (h : g.PageAt pos) :
    (∀ i < g.ndisks, 0 ≤ g.mapIndex pos i ∧ g.mapIndex pos i < g.disksizeG) ∧
      g.remoteOffset pos + g.remoteLength pageSize ≤ oneGb ∧
      ∀ pos', g.PageAt pos' → pos ≠ pos' → ∀ i < g.ndisks, ∀ i' < g.ndisks,
        g.mapIndex pos i ≠ g.mapIndex pos' i' ∨
          Disjoint (g.remoteRange pos) (g.remoteRange pos') := by
  refine ⟨fun i hi => ?_, ?_, fun pos' h' hne i hi i' hi' => ?_⟩
  · rw [h.mapIndex_eq hi]
    have hlt := h.index_lt hi
    omega
  · rw [remoteRange_end h]
    calc (g.chunkOffset pos + pageSize) / g.ndatas
        ≤ 2 ^ g.slabShift / g.ndatas := Nat.div_le_div_right h.offset_le
      _ = oneGb := by rw [slab_eq, Nat.mul_div_cancel_left _ ndatas_pos]
  · rw [h.mapIndex_eq hi, h'.mapIndex_eq hi']
    by_cases hindex : start pos / 2 ^ g.slabShift * g.ndisks + i =
        start pos' / 2 ^ g.slabShift * g.ndisks + i'
    · -- the same entry of the tables is the same slab, so the offsets differ
      right
      have hslab : start pos / 2 ^ g.slabShift = start pos' / 2 ^ g.slabShift := by
        calc start pos / 2 ^ g.slabShift
            = (start pos / 2 ^ g.slabShift * g.ndisks + i) / g.ndisks := (quotient_eq hi).symm
          _ = (start pos' / 2 ^ g.slabShift * g.ndisks + i') / g.ndisks := by rw [hindex]
          _ = start pos' / 2 ^ g.slabShift := quotient_eq hi'
      have hoffset : g.chunkOffset pos ≠ g.chunkOffset pos' :=
        fun hsame => hne (pos_eq_of_slab_of_offset h h' hslab hsame)
      rw [remoteRange, remoteRange, Set.Ico_disjoint_Ico]
      rcases Nat.lt_or_gt_of_ne hoffset with hlt | hlt
      · exact (min_le_left _ _).trans ((offset_apart h h' hlt).trans (le_max_right _ _))
      · exact (min_le_right _ _).trans ((offset_apart h' h hlt).trans (le_max_left _ _))
    · left
      exact_mod_cast hindex

/-- The erasure coding setup, with two slabs. -/
def ecGeometry : Geometry where
  ndatas := 4
  ndisks := 6
  datasizeG := 8
  logDatas := 2
  ndatas_eq := by decide
  logDatas_le := by decide
  ndatas_le := by decide
  ndatas_dvd := by decide
  disksize_int := by decide

/-- The first page of the second slab, and the page after it. -/
theorem address_translation_sound_ec :
    ecGeometry.PageAt 8388608 ∧ ecGeometry.mapIndex 8388608 5 = 11 ∧
      ecGeometry.mapIndex 8388608 5 < ecGeometry.disksizeG ∧
      (ecGeometry.mapIndex 8388608 5 ≠ ecGeometry.mapIndex 8388616 5 ∨
        Disjoint (ecGeometry.remoteRange 8388608) (ecGeometry.remoteRange 8388616)) := by
  have hpage : ecGeometry.PageAt 8388608 := ⟨by decide, by decide⟩
  have hnext : ecGeometry.PageAt 8388616 := ⟨by decide, by decide⟩
  obtain ⟨hindex, -, hapart⟩ := address_translation_sound ecGeometry 8388608 hpage
  exact ⟨hpage, by decide, (hindex 5 (by decide)).2,
    hapart 8388616 hnext (by decide) 5 (by decide) 5 (by decide)⟩

/-! ## Requests of the data path -/

/-- The request of the data path for a sector. -/
def Geometry.request {Data : Type} (g : Geometry) (id : Nat) (write : Bool) (data : Data)
    (connId pos : Nat) : Request Data where
  id := id
  write := write
  slab := (g.slabIndex pos).toNat
  offset := g.remoteOffset pos
  data := data
  connId := connId

/-- What the data path takes for one page is one page of the device. -/
theorem samePage_request_iff {Data : Type} {g : Geometry} {pos pos' : Nat} (h : g.PageAt pos)
    (h' : g.PageAt pos') (id id' : Nat) (write write' : Bool) (data data' : Data)
    (connId connId' : Nat) :
    SamePage (g.request id write data connId pos) (g.request id' write' data' connId' pos') ↔
      pos = pos' := by
  simp only [SamePage, Geometry.request, h.slabIndex_eq, h'.slabIndex_eq, Int.toNat_natCast]
  constructor
  · rintro ⟨hslab, hoffset⟩
    refine Geometry.pos_eq_of_slab_of_offset h h' hslab.symm ?_
    have hdvd := g.ndatas_dvd_page.trans h.page_dvd_offset
    have hdvd' := g.ndatas_dvd_page.trans h'.page_dvd_offset
    rw [← Nat.div_mul_cancel hdvd, ← Nat.div_mul_cancel hdvd']
    exact congrArg (· * g.ndatas) hoffset.symm
  · rintro rfl
    exact ⟨rfl, rfl⟩

end Hydra.DataPath
