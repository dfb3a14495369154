/-
  Coding/Avx.lean --- the same products sixteen bytes at a time.

  Source: `gf_vect_dot_prod_avx.asm`, `gf_2vect_dot_prod_avx.asm`,
  `gf_3vect_dot_prod_avx.asm` and `gf_4vect_dot_prod_avx.asm` (the 64-bit code, with
  unaligned loads and stores) and `ec_encode_data_avx` of `ec_highlevel_func.c`, all in
  `resilience_manager/erasure_code`.

  A byte is multiplied by two look-ups in registers, one for each nibble.  A length that
  is no multiple of sixteen ends with a pass that overlaps the one before it.
-/
import Hydra.Coding.Encode

set_option autoImplicit false

namespace Hydra.Coding

open Hydra.Foundation Finset

/-! ## Registers -/

/-- The bytes of an xmm register, the lowest first. -/
abbrev Xmm : Type := Fin 16 → UInt8

namespace Xmm

/-- `vmovdqu x, [mem + pos]`. -/
def vmovdqu (mem : Bytes) (pos : Nat) : Xmm := fun i => mem (pos + i.val)

/-- Byte `y` of a register that is stored. -/
def stored (x : Xmm) (y : Nat) : UInt8 := x (Fin.ofNat 16 y)

def vpand (x y : Xmm) : Xmm := fun i => x i &&& y i

def vpxor (x y : Xmm) : Xmm := fun i => x i ^^^ y i

/-- Word `w` of a register. -/
def word (x : Xmm) (w : Nat) : BitVec 16 :=
  (x (Fin.ofNat 16 (2 * w + 1))).toBitVec ++ (x (Fin.ofNat 16 (2 * w))).toBitVec

/-- Each word is shifted with its sign. -/
def vpsraw (x : Xmm) (n : Nat) : Xmm := fun i =>
  ⟨((x.word (i.val / 2)).sshiftRight n).extractLsb' (8 * (i.val % 2)) 8⟩

/-- A look-up in `x` for each byte of `idx`; a byte with its top bit set gives zero. -/
def vpshufb (x idx : Xmm) : Xmm := fun i =>
  if idx i &&& 0x80 ≠ 0 then 0 else x (Fin.ofNat 16 (idx i &&& 0x0f).toNat)

def mask0f : Xmm := fun _ => 0x0f

end Xmm

open Xmm

/-! ## The kernels -/

/-- `.next_vect`: source `vecI` is added to the sums `xp1`, `xp2` and so on. -/
def nextVect (vec : Nat) (mulArray : Bytes) (src : Nat → Nat) (bufs : Buffers) (pos : Nat)
    (xp : Nat → Xmm) (vecI : Nat) : Nat → Xmm :=
  let tmp := vecI * 32
  let x0 := vmovdqu (bufs (src vecI)) pos
  let xtmpa := vpand x0 mask0f
  let x0 := vpand (vpsraw x0 4) mask0f
  fun l =>
    let xgftLo := vmovdqu mulArray (tmp + l * vec * 32)
    let xgftHi := vmovdqu mulArray (tmp + l * vec * 32 + 16)
    vpxor (xp l) (vpxor (vpshufb xgftHi x0) (vpshufb xgftLo xtmpa))

/-- `.loop16` with `n` destinations.  `vec_i` is compared after a turn, so there is always
one. -/
def pass16 (n vec : Nat) (mulArray : Bytes) (src dests : Nat → Nat) (pos : Nat)
    (bufs : Buffers) : Buffers :=
  let xp := (List.range (max 1 vec)).foldl (nextVect vec mulArray src bufs pos) fun _ _ => 0
  putRows n dests pos 16 (fun l => (xp l).stored) bufs

/-- The kernel with `n` destinations: what it returns, and the buffers. -/
def gfNvectDotProdAvx (n len vec : Nat) (mulArray : Bytes) (src dests : Nat → Nat)
    (bufs : Buffers) : Nat × Buffers :=
  if len < 16 then (1, bufs)
  else
    (0, passes 16 (pass16 n vec mulArray src dests) (len - 16) 0 (Nat.zero_le _) bufs)

/-- `gf_vect_dot_prod_avx`. -/
def gfVectDotProdAvx (len vec : Nat) (mulArray : Bytes) (src : Nat → Nat) (dest : Nat) :
    Buffers → Nat × Buffers :=
  gfNvectDotProdAvx 1 len vec mulArray src fun _ => dest

/-- `gf_2vect_dot_prod_avx`. -/
def gf2vectDotProdAvx (len vec : Nat) (mulArray : Bytes) (src dests : Nat → Nat) :
    Buffers → Nat × Buffers :=
  gfNvectDotProdAvx 2 len vec mulArray src dests

/-- `gf_3vect_dot_prod_avx`. -/
def gf3vectDotProdAvx (len vec : Nat) (mulArray : Bytes) (src dests : Nat → Nat) :
    Buffers → Nat × Buffers :=
  gfNvectDotProdAvx 3 len vec mulArray src dests

/-- `gf_4vect_dot_prod_avx`. -/
def gf4vectDotProdAvx (len vec : Nat) (mulArray : Bytes) (src dests : Nat → Nat) :
    Buffers → Nat × Buffers :=
  gfNvectDotProdAvx 4 len vec mulArray src dests

/-- The `while` and the `switch` of `ec_encode_data_avx`. -/
def encodeRows (len k : Nat) (data : Nat → Nat) :
    Nat → Bytes → (Nat → Nat) → Buffers → Buffers
  | rows + 4, gTbls, coding, bufs =>
      encodeRows len k data rows (fun y => gTbls (4 * k * 32 + y)) (fun l => coding (4 + l))
        (gf4vectDotProdAvx len k gTbls data coding bufs).2
  | 3, gTbls, coding, bufs => (gf3vectDotProdAvx len k gTbls data coding bufs).2
  | 2, gTbls, coding, bufs => (gf2vectDotProdAvx len k gTbls data coding bufs).2
  | 1, gTbls, coding, bufs => (gfVectDotProdAvx len k gTbls data (coding 0) bufs).2
  | 0, _, _, bufs => bufs

/-- `ec_encode_data_avx`. -/
def ecEncodeDataAvx (len k rows : Nat) (gTbls : Bytes) (data coding : Nat → Nat)
    (bufs : Buffers) : Buffers :=
  if len < 16 then ecEncodeDataBase len k rows gTbls data coding bufs
  else encodeRows len k data rows gTbls coding bufs

/-! ## Nibbles of a register -/

namespace Xmm

variable (x : Xmm) (i : Fin 16)

/-- The shift of a word brings down the high nibble of each of its bytes, and the mask
clears what comes from the other byte and from the sign. -/
theorem vpand_vpsraw : vpand (vpsraw x 4) mask0f i = x i >>> 4 := by
  have hlow : ∀ w t, t < 8 → (x.word w).getLsbD t =
      (x (Fin.ofNat 16 (2 * w))).toBitVec.getLsbD t := fun w t ht => by
    rw [word, BitVec.getLsbD_append, if_pos ht]
  have hhigh : ∀ w t, (x.word w).getLsbD (8 + t) =
      (x (Fin.ofNat 16 (2 * w + 1))).toBitVec.getLsbD t := fun w t => by
    rw [word, BitVec.getLsbD_append, if_neg (by omega), Nat.add_sub_cancel_left]
  have hbyte : ∀ t < 8, (x.word (i.val / 2)).getLsbD (8 * (i.val % 2) + t) =
      (x i).toBitVec.getLsbD t := by
    intro t ht
    rcases Nat.mod_two_eq_zero_or_one i.val with hodd | hodd
    · rw [hodd, Nat.mul_zero, Nat.zero_add, hlow _ _ ht]
      congr 3
      exact Fin.ext (by rw [Fin.val_ofNat]; omega)
    · rw [hodd, Nat.mul_one, hhigh]
      congr 3
      exact Fin.ext (by rw [Fin.val_ofNat]; omega)
  apply UInt8.toBitVec_inj.mp
  apply BitVec.eq_of_getLsbD_eq
  intro t ht
  have hmask : (0x0f : BitVec 8).getLsbD t = decide (t < 4) := by
    revert t
    decide
  have hshift : (x i >>> 4).toBitVec = (x i).toBitVec >>> 4 := rfl
  show (((x.word (i.val / 2)).sshiftRight 4).extractLsb' (8 * (i.val % 2)) 8 &&&
    (0x0f : BitVec 8)).getLsbD t = _
  rw [hshift, BitVec.getLsbD_and, hmask, BitVec.getLsbD_extractLsb', BitVec.getLsbD_sshiftRight,
    BitVec.getLsbD_ushiftRight]
  rcases Nat.lt_or_ge t 4 with hlow | hhigh
  · rw [if_pos (by omega), show 4 + (8 * (i.val % 2) + t) = 8 * (i.val % 2) + (4 + t) by omega,
      hbyte _ (by omega)]
    simp [hlow, ht]
    omega
  · rw [decide_eq_false (p := t < 4) (by omega), Bool.and_false,
      BitVec.getLsbD_of_ge _ _ (by omega)]

/-- A look-up by a nibble. -/
theorem vpshufb_of_lt {x idx : Xmm} {i : Fin 16} (h : (idx i).toNat < 16) :
    vpshufb x idx i = x (Fin.ofNat 16 (idx i).toNat) := by
  have hall : ∀ n : Fin 16,
      UInt8.ofNat n &&& 0x80 = 0 ∧ (UInt8.ofNat n &&& 0x0f).toNat = n.val := by decide
  obtain ⟨htop, hnibble⟩ := hall ⟨(idx i).toNat, h⟩
  rw [UInt8.ofNat_toNat] at htop hnibble
  rw [vpshufb, if_neg (not_not.mpr htop), hnibble]

end Xmm

/-! ## A pass -/

section Kernel

variable {n k rows len : Nat} {coef : Nat → Nat → Gf256} {gTbls : Bytes}
  {data coding : Nat → Nat}

/-- A turn of `.next_vect` adds a product in every lane. -/
theorem nextVect_apply (h : TablesOf k n coef gTbls) (bufs : Buffers) (pos : Nat)
    (xp : Nat → Xmm) {j l : Nat} (hj : j < k) (hl : l < n) (i : Fin 16) :
    nextVect k gTbls data bufs pos xp j l i =
      xp l i ^^^ (coef l j * ⟨bufs (data j) (pos + i.val)⟩).byte := by
  generalize hx : bufs (data j) (pos + i.val) = x
  have hhigh : vpand (vpsraw (vmovdqu (bufs (data j)) pos) 4) mask0f i = x >>> 4 :=
    (vpand_vpsraw _ _).trans (congrArg (fun b : UInt8 => b >>> 4) hx)
  have hlow : vpand (vmovdqu (bufs (data j)) pos) mask0f i = x &&& 0x0f :=
    congrArg (· &&& (0x0f : UInt8)) hx
  have hhighlt := high_nibble_lt x
  have hlowlt := low_nibble_lt x
  rw [← lookup_nibbles, ← h l hl j hj _ (by omega), ← h l hl j hj _ (by omega)]
  simp only [nextVect, vpxor]
  rw [vpshufb_of_lt (by rwa [hhigh]), vpshufb_of_lt (by rwa [hlow]), hhigh, hlow]
  simp only [vmovdqu, Fin.val_ofNat, Nat.mod_eq_of_lt hhighlt, Nat.mod_eq_of_lt hlowlt,
    Nat.add_assoc]

/-- The sums of a pass. -/
theorem foldl_nextVect (h : TablesOf k n coef gTbls) (hk : 1 ≤ k) (bufs : Buffers) (pos : Nat)
    {l : Nat} (hl : l < n) (i : Fin 16) :
    (List.range (max 1 k)).foldl (nextVect k gTbls data bufs pos) (fun _ _ => 0) l i =
      productByte k coef data bufs l (pos + i.val) := by
  rw [Nat.max_eq_right hk, productByte, ← foldl_xor_eq_sum]
  have hrun : ∀ m ≤ k,
      (List.range m).foldl (nextVect k gTbls data bufs pos) (fun _ _ => 0) l i =
        (List.range m).foldl
          (fun s j => s ^^^ (coef l j * ⟨bufs (data j) (pos + i.val)⟩ : Gf256).byte) 0 := by
    intro m
    induction m with
    | zero => exact fun _ => rfl
    | succ m ih =>
        intro hm
        rw [List.range_succ, List.foldl_append, List.foldl_append, ← ih (by omega)]
        exact nextVect_apply h bufs pos _ hm hl i
  exact hrun k le_rfl

/-- A pass writes sixteen bytes of the products, whatever it finds there. -/
theorem pass16_eq (h : TablesOf k n coef gTbls) (hk : 1 ≤ k) (pos : Nat) (bufs : Buffers) :
    pass16 n k gTbls data coding pos bufs =
      putRows n coding pos 16 (fun l y => productByte k coef data bufs l (pos + y)) bufs :=
  putRows_congr fun l hl y hy => by
    rw [Xmm.stored, foldl_nextVect h hk bufs pos hl, Fin.val_ofNat, Nat.mod_eq_of_lt hy]

/-- The kernels write the products to the destinations. -/
theorem gfNvectDotProdAvx_eq (h : TablesOf k n coef gTbls) (hk : 1 ≤ k) (hlen : 16 ≤ len)
    (hapart : Apart k n data coding) (hrows : RowsDiffer n coding) (bufs : Buffers) :
    gfNvectDotProdAvx n len k gTbls data coding bufs =
      (0, putRows n coding 0 len (productByte k coef data bufs) bufs) := by
  have hpass : ∀ pos p, pos ≤ len - 16 → pos ≤ p → p ≤ pos + 16 →
      pass16 n k gTbls data coding pos
          (putRows n coding 0 p (productByte k coef data bufs) bufs) =
        putRows n coding 0 (pos + 16) (productByte k coef data bufs) bufs := by
    intro pos p _ hp hpw
    rw [pass16_eq h hk, productByte_putRows hapart]
    exact putRows_overlap hrows hp hpw
  have hrun := passes_eq hpass 0 0 (Nat.zero_le _) le_rfl (Nat.zero_le _)
  rw [putRows_nothing, Nat.sub_add_cancel hlen] at hrun
  rw [gfNvectDotProdAvx, if_neg (by omega), hrun]

/-! ## All rows -/

theorem TablesOf.first (h : TablesOf k rows coef gTbls) (hn : n ≤ rows) :
    TablesOf k n coef gTbls :=
  fun l hl j hj y hy => h l (by omega) j hj y hy

theorem TablesOf.rest (h : TablesOf k (rows + n) coef gTbls) :
    TablesOf k rows (fun l => coef (n + l)) fun y => gTbls (n * k * 32 + y) := by
  intro l hl j hj y hy
  rw [← h (n + l) (by omega) j hj y hy,
    show j * 32 + (n + l) * k * 32 + y = n * k * 32 + (j * 32 + l * k * 32 + y) by ring]

/-- Four rows at a time and then what is left. -/
theorem encodeRows_eq (hk : 1 ≤ k) (hlen : 16 ≤ len) (h : TablesOf k rows coef gTbls)
    (hapart : Apart k rows data coding) (hrows : RowsDiffer rows coding) (bufs : Buffers) :
    encodeRows len k data rows gTbls coding bufs =
      putRows rows coding 0 len (productByte k coef data bufs) bufs := by
  induction rows, gTbls, coding, bufs using encodeRows.induct len k data generalizing coef with
  | case1 rows gTbls coding bufs ih =>
      have hfirst : Apart k 4 data coding := fun j hj l hl => hapart j hj l (by omega)
      have hfour := gfNvectDotProdAvx_eq (h.first (by omega)) hk hlen hfirst
        (hrows.mono (by omega)) bufs
      rw [encodeRows, ih h.rest (fun j hj l hl => hapart j hj (4 + l) (by omega))
        fun l hl l' hl' heq => ?_]
      · rw [gf4vectDotProdAvx, hfour, productByte_putRows hfirst,
          show rows.succ.succ.succ.succ = 4 + rows by omega, putRows_add]
        rfl
      · have := hrows (4 + l) (by omega) (4 + l') (by omega) heq
        omega
  | case2 gTbls coding bufs =>
      rw [encodeRows, gf3vectDotProdAvx, gfNvectDotProdAvx_eq h hk hlen hapart hrows]
  | case3 gTbls coding bufs =>
      rw [encodeRows, gf2vectDotProdAvx, gfNvectDotProdAvx_eq h hk hlen hapart hrows]
  | case4 gTbls coding bufs =>
      have hdest : Apart k 1 data fun _ => coding 0 :=
        fun j hj _ _ => hapart j hj 0 Nat.zero_lt_one
      rw [encodeRows, gfVectDotProdAvx,
        gfNvectDotProdAvx_eq h hk hlen hdest fun l hl l' hl' _ => by omega]
      rfl
  | case5 gTbls coding bufs => rfl

/-- `ec_encode_data_avx` writes the products to the destinations. -/
theorem ecEncodeDataAvx_eq (hk : 1 ≤ k) (h : TablesOf k rows coef gTbls)
    (hapart : Apart k rows data coding) (hrows : RowsDiffer rows coding) (bufs : Buffers) :
    ecEncodeDataAvx len k rows gTbls data coding bufs =
      putRows rows coding 0 len (productByte k coef data bufs) bufs := by
  rw [ecEncodeDataAvx]
  split
  · exact ecEncodeDataBase_eq h hapart bufs
  · exact encodeRows_eq hk (by omega) h hapart hrows bufs

end Kernel

/-- With the tables of any matrix, the vector code leaves what the plain loops leave, for
every length: the products in the destinations, and nothing else changed. -/
theorem avx_encodes_like_base (len k rows : Nat) (a gTbls : Bytes) (data coding : Nat → Nat)
    (bufs : Buffers) (hk : 1 ≤ k) (hapart : Apart k rows data coding)
    (hrows : RowsDiffer rows coding) :
    ecEncodeDataAvx len k rows (ecInitTables k rows a gTbls) data coding bufs =
        ecEncodeDataBase len k rows (ecInitTables k rows a gTbls) data coding bufs ∧
      (∀ l < rows, ∀ i < len,
        ecEncodeDataAvx len k rows (ecInitTables k rows a gTbls) data coding bufs (coding l) i =
          productByte k (matrixOf k a) data bufs l i) ∧
      ∀ b i, ((∀ l < rows, coding l ≠ b) ∨ len ≤ i) →
        ecEncodeDataAvx len k rows (ecInitTables k rows a gTbls) data coding bufs b i =
          bufs b i := by
  have htables : TablesOf k rows (matrixOf k a) (ecInitTables k rows a gTbls) :=
    (ecInitTables_spec (fun _ _ _ _ => rfl) gTbls).1
  have havx : ecEncodeDataAvx len k rows (ecInitTables k rows a gTbls) data coding bufs =
      putRows rows coding 0 len (productByte k (matrixOf k a) data bufs) bufs :=
    ecEncodeDataAvx_eq hk htables hapart hrows bufs
  refine ⟨havx.trans (ecEncodeDataBase_eq htables hapart bufs).symm, fun l hl i hi => ?_,
    fun b i hb => ?_⟩
  · rw [havx, putRows_at hrows hl, copyTo, if_pos (by omega), Nat.sub_zero]
  · rw [havx]
    by_cases hrow : ∃ l < rows, coding l = b
    · obtain ⟨l, hl, rfl⟩ := hrow
      rcases hb with hb | hb
      · exact absurd rfl (hb l hl)
      · rw [putRows_at hrows hl, copyTo, if_neg (by omega)]
    · rw [putRows_of_ne fun l hl heq => hrow ⟨l, hl, heq⟩]

/-- Two sources and five destinations of 21 bytes: one group of four rows and one row alone,
each with a pass of its own and one that overlaps it. -/
theorem avx_encodes_like_base_five :
    ecEncodeDataAvx 21 2 5 (ecInitTables 2 5 (fun i => UInt8.ofNat i) fun _ => 0) id (2 + ·)
        (fun b i => UInt8.ofNat (b + i)) =
      ecEncodeDataBase 21 2 5 (ecInitTables 2 5 (fun i => UInt8.ofNat i) fun _ => 0) id (2 + ·)
        fun b i => UInt8.ofNat (b + i) :=
  (avx_encodes_like_base 21 2 5 (fun i => UInt8.ofNat i) (fun _ => 0) id (2 + ·)
    (fun b i => UInt8.ofNat (b + i)) (by decide)
    (fun j hj l _ => by
      show j ≠ 2 + l
      omega)
    (fun l _ l' _ heq => by
      have : 2 + l = 2 + l' := heq
      omega)).1

end Hydra.Coding
