/-
  Coding/Encode.lean --- products of a matrix with buffers.

  Source: `ec_encode_data_base` and `ec_encode_data_update_base` of
  `resilience_manager/erasure_code/ec_base.c`.

  Byte `i` of each destination is the product of a row of the matrix with byte `i` of
  the sources.  The functions read their sources while they write, so all this is for
  destinations that are no sources.
-/
import Hydra.Foundation.Passes
import Hydra.Coding.Tables
import Hydra.Coding.Invert

set_option autoImplicit false

namespace Hydra.Coding

open Hydra.Foundation Finset

/-- The buffers; a pointer is the number of a buffer. -/
abbrev Buffers : Type := Nat → Bytes

/-- `gf_mul` on bytes. -/
def gfMulByte (a b : UInt8) : UInt8 := (Gf256.gfMul ⟨a⟩ ⟨b⟩).byte

/-- `dest[i] = s`. -/
def setByte (bufs : Buffers) (dest i : Nat) (s : UInt8) : Buffers :=
  Function.update bufs dest (Function.update (bufs dest) i s)

/-- `ec_encode_data_base`. -/
def ecEncodeDataBase (len srcs dests : Nat) (v : Bytes) (src dest : Nat → Nat)
    (bufs : Buffers) : Buffers :=
  (List.range dests).foldl
    (fun bufs l =>
      (List.range len).foldl
        (fun bufs i =>
          setByte bufs (dest l) i
            ((List.range srcs).foldl
              (fun s j => s ^^^ gfMulByte (bufs (src j) i) (v (j * 32 + l * srcs * 32 + 1))) 0))
        bufs) bufs

/-- `ec_encode_data_update_base`. -/
def ecEncodeDataUpdateBase (len k rows vecI : Nat) (v : Bytes) (data : Nat) (dest : Nat → Nat)
    (bufs : Buffers) : Buffers :=
  (List.range rows).foldl
    (fun bufs l =>
      (List.range len).foldl
        (fun bufs i =>
          setByte bufs (dest l) i
            (bufs (dest l) i ^^^
              gfMulByte (bufs data i) (v (vecI * 32 + l * k * 32 + 1)))) bufs) bufs

/-! ## One destination -/

theorem gfMulByte_eq (a b : UInt8) : gfMulByte a b = ((⟨a⟩ : Gf256) * ⟨b⟩).byte := rfl

/-- A loop over the bytes of one destination, whose values come from their old ones and from
other buffers. -/
theorem foldl_setByte {dest : Nat} {g : Buffers → UInt8 → Nat → UInt8}
    (hg : ∀ bufs row s i, g (Function.update bufs dest row) s i = g bufs s i) (len : Nat)
    (bufs : Buffers) :
    (List.range len).foldl (fun bufs i => setByte bufs dest i (g bufs (bufs dest i) i)) bufs =
      Function.update bufs dest
        (copyTo (bufs dest) 0 len fun i => g bufs (bufs dest i) i) := by
  induction len with
  | zero =>
      rw [copyTo_zero, Function.update_eq_self]
      rfl
  | succ len ih =>
      have hold : copyTo (bufs dest) 0 len (fun i => g bufs (bufs dest i) i) len =
          bufs dest len := by
        rw [copyTo, if_neg (by omega)]
      rw [List.range_succ, List.foldl_append, ih, copyTo_succ, Nat.zero_add]
      simp only [List.foldl_cons, List.foldl_nil, setByte, Function.update_self, hold, hg,
        Function.update_idem]

/-! ## All destinations -/

/-- Byte `i` of destination `l`: row `l` of the matrix times byte `i` of the sources. -/
def productByte (k : Nat) (coef : Nat → Nat → Gf256) (data : Nat → Nat) (bufs : Buffers)
    (l i : Nat) : UInt8 :=
  (∑ j ∈ range k, coef l j * ⟨bufs (data j) i⟩ : Gf256).byte

/-- The matrix whose entries lie one row after the other in `a`. -/
def matrixOf (k : Nat) (a : Bytes) : Rows := fun l j => ⟨a (k * l + j)⟩

/-- No destination is a source. -/
def Apart (k rows : Nat) (data coding : Nat → Nat) : Prop :=
  ∀ j < k, ∀ l < rows, data j ≠ coding l

section Product

variable {k rows len : Nat} {coef : Nat → Nat → Gf256} {gTbls : Bytes} {data coding : Nat → Nat}
  {bufs bufs' : Buffers}

theorem productByte_congr (h : ∀ j < k, bufs (data j) = bufs' (data j)) :
    productByte k coef data bufs = productByte k coef data bufs' := by
  funext l i
  exact congrArg Gf256.byte
    (sum_congr rfl fun j hj => by rw [h j (mem_range.mp hj)])

theorem productByte_putRows (hapart : Apart k rows data coding) {dst n : Nat}
    {f : Nat → Nat → UInt8} :
    productByte k coef data (putRows rows coding dst n f bufs) =
      productByte k coef data bufs :=
  productByte_congr fun j hj => putRows_of_ne fun l hl => (hapart j hj l hl).symm

/-- Exclusive or of bytes is their sum. -/
theorem foldl_xor_eq_sum (f : Nat → Gf256) (k : Nat) :
    (List.range k).foldl (fun s j => s ^^^ (f j).byte) 0 = (∑ j ∈ range k, f j).byte := by
  induction k with
  | zero => rfl
  | succ k ih =>
      rw [List.range_succ, List.foldl_append, ih, sum_range_succ]
      rfl

/-- The coefficient of the base functions. -/
theorem TablesOf.coefficient (h : TablesOf k rows coef gTbls) {l j : Nat} (hl : l < rows)
    (hj : j < k) : (⟨gTbls (j * 32 + l * k * 32 + 1)⟩ : Gf256) = coef l j :=
  Gf256.ext_byte ((h l hl j hj 1 (by decide)).trans (gfVectMulInit_one (coef l j)))

theorem foldl_gfMulByte (h : TablesOf k rows coef gTbls) {l : Nat} (hl : l < rows) (i : Nat) :
    (List.range k).foldl
        (fun s j => s ^^^ gfMulByte (bufs (data j) i) (gTbls (j * 32 + l * k * 32 + 1))) 0 =
      productByte k coef data bufs l i := by
  simp only [gfMulByte_eq]
  rw [foldl_xor_eq_sum]
  refine congrArg Gf256.byte (sum_congr rfl fun j hj => ?_)
  rw [h.coefficient hl (mem_range.mp hj), mul_comm]

/-- `ec_encode_data_base` writes the products to the destinations. -/
theorem ecEncodeDataBase_eq (h : TablesOf k rows coef gTbls)
    (hapart : Apart k rows data coding) (bufs : Buffers) :
    ecEncodeDataBase len k rows gTbls data coding bufs =
      putRows rows coding 0 len (productByte k coef data bufs) bufs := by
  -- over the first rows, with the tables of all of them
  have hrun : ∀ n ≤ rows,
      ecEncodeDataBase len k n gTbls data coding bufs =
        putRows n coding 0 len (productByte k coef data bufs) bufs := by
    intro n
    induction n with
    | zero => exact fun _ => rfl
    | succ n ih =>
        intro hn
        have hframe : ∀ bufs row (_ : UInt8) i,
            productByte k coef data (Function.update bufs (coding n) row) n i =
              productByte k coef data bufs n i := fun bufs row _ i => by
          refine congrFun (congrFun (productByte_congr fun j hj => ?_) n) i
          exact Function.update_of_ne (hapart j hj n hn) _ _
        rw [ecEncodeDataBase, List.range_succ, List.foldl_append, ← ecEncodeDataBase,
          ih (by omega), putRows_succ]
        simp only [List.foldl_cons, List.foldl_nil, foldl_gfMulByte h hn]
        rw [foldl_setByte (g := fun bufs _ i => productByte k coef data bufs n i) hframe,
          productByte_putRows fun j hj l hl => hapart j hj l (by omega)]
  exact hrun rows le_rfl

/-! ## One source after the other -/

/-- `ec_encode_data_update_base` adds the products with one source. -/
theorem ecEncodeDataUpdateBase_eq (h : TablesOf k rows coef gTbls) (hrows : RowsDiffer rows coding)
    {vecI src : Nat} (hvec : vecI < k) (hsrc : ∀ l < rows, src ≠ coding l) (bufs : Buffers) :
    ecEncodeDataUpdateBase len k rows vecI gTbls src coding bufs =
      putRows rows coding 0 len
        (fun l i => bufs (coding l) i ^^^ (coef l vecI * ⟨bufs src i⟩).byte) bufs := by
  have hrun : ∀ n ≤ rows,
      ecEncodeDataUpdateBase len k n vecI gTbls src coding bufs =
        putRows n coding 0 len
          (fun l i => bufs (coding l) i ^^^ (coef l vecI * ⟨bufs src i⟩).byte) bufs := by
    intro n
    induction n with
    | zero => exact fun _ => rfl
    | succ n ih =>
        intro hn
        have hframe : ∀ (bufs : Buffers) row (s : UInt8) i,
            s ^^^ gfMulByte (Function.update bufs (coding n) row src i)
                (gTbls (vecI * 32 + n * k * 32 + 1)) =
              s ^^^ gfMulByte (bufs src i) (gTbls (vecI * 32 + n * k * 32 + 1)) :=
          fun bufs row s i => by rw [Function.update_of_ne (hsrc n hn)]
        have hother : ∀ l < n, coding l ≠ coding n := fun l hl heq => by
          have := hrows l (by omega) n hn heq
          omega
        rw [ecEncodeDataUpdateBase, List.range_succ, List.foldl_append, ← ecEncodeDataUpdateBase,
          ih (by omega), putRows_succ]
        simp only [List.foldl_cons, List.foldl_nil]
        rw [foldl_setByte (g := fun bufs s i => s ^^^ gfMulByte (bufs src i)
          (gTbls (vecI * 32 + n * k * 32 + 1))) hframe]
        refine congrArg _ (copyTo_congr fun i _ => ?_)
        rw [putRows_of_ne hother, putRows_of_ne fun l hl => (hsrc l (by omega)).symm, gfMulByte_eq,
          h.coefficient hn hvec, mul_comm]
  exact hrun rows le_rfl

/-- What the calls for the sources in `order` add. -/
theorem foldl_update_eq (h : TablesOf k rows coef gTbls) (hrows : RowsDiffer rows coding)
    (hapart : Apart k rows data coding) (bufs : Buffers) (order : List Nat)
    (horder : ∀ j ∈ order, j < k) :
    order.foldl
        (fun bufs j => ecEncodeDataUpdateBase len k rows j gTbls (data j) coding bufs) bufs =
      putRows rows coding 0 len
        (fun l i => bufs (coding l) i ^^^
          ((order.map fun j => coef l j * ⟨bufs (data j) i⟩).sum : Gf256).byte) bufs := by
  induction order using List.reverseRecOn with
  | nil =>
      calc bufs = putRows rows coding 0 len (fun l => bufs (coding l)) bufs :=
            (putRows_self hrows).symm
        _ = _ := putRows_congr fun l _ i _ => UInt8.xor_zero.symm
  | append_singleton order j ih =>
      have hj : j < k := horder j (List.mem_append_right _ (List.mem_singleton_self j))
      have hsrc : ∀ l < rows, data j ≠ coding l := hapart j hj
      rw [List.foldl_append, ih fun j hj => horder j (List.mem_append_left _ hj)]
      simp only [List.foldl_cons, List.foldl_nil]
      rw [ecEncodeDataUpdateBase_eq h hrows hj hsrc, putRows_putRows hrows]
      refine putRows_congr fun l hl i hi => ?_
      rw [putRows_at hrows hl, putRows_of_ne fun l hl => (hsrc l hl).symm, copyTo,
        if_pos (by omega), Nat.sub_zero, UInt8.xor_assoc, List.map_append, List.sum_append]
      simp only [List.map_cons, List.map_nil, List.sum_singleton]
      rfl

end Product

/-- Parity that starts from zero and gets the sources one by one, in any order, is the
parity of all of them at once. -/
theorem updates_encode_in_any_order (len k rows : Nat) (a gTbls : Bytes)
    (data coding : Nat → Nat) (bufs : Buffers) (order : List Nat)
    (horder : order.Perm (List.range k)) (hapart : Apart k rows data coding)
    (hrows : RowsDiffer rows coding) (hzero : ∀ l < rows, ∀ i < len, bufs (coding l) i = 0) :
    order.foldl
        (fun bufs j =>
          ecEncodeDataUpdateBase len k rows j (ecInitTables k rows a gTbls) (data j) coding bufs)
        bufs =
      ecEncodeDataBase len k rows (ecInitTables k rows a gTbls) data coding bufs := by
  have htables : TablesOf k rows (matrixOf k a) (ecInitTables k rows a gTbls) :=
    (ecInitTables_spec (fun _ _ _ _ => rfl) gTbls).1
  rw [foldl_update_eq htables hrows hapart bufs order fun j hj =>
    List.mem_range.mp (horder.mem_iff.mp hj), ecEncodeDataBase_eq htables hapart]
  refine putRows_congr fun l hl i hi => ?_
  rw [hzero l hl i hi, UInt8.zero_xor, (horder.map _).sum_eq]
  rfl

/-- Three sources from the last to the first. -/
theorem updates_encode_in_any_order_reversed :
    [2, 1, 0].foldl
        (fun bufs j =>
          ecEncodeDataUpdateBase 5 3 2 j (ecInitTables 3 2 (fun i => UInt8.ofNat i) fun _ => 0) j
            (3 + ·) bufs)
        (fun b i => if b < 3 then UInt8.ofNat (b + i) else 0) =
      ecEncodeDataBase 5 3 2 (ecInitTables 3 2 (fun i => UInt8.ofNat i) fun _ => 0) id (3 + ·)
        fun b i => if b < 3 then UInt8.ofNat (b + i) else 0 :=
  updates_encode_in_any_order 5 3 2 (fun i => UInt8.ofNat i) (fun _ => 0) id (3 + ·) _ [2, 1, 0]
    (by decide)
    (fun j hj l _ => by
      show j ≠ 3 + l
      omega)
    (fun l _ l' _ heq => by
      have : 3 + l = 3 + l' := heq
      omega)
    (fun l _ i _ => if_neg (by
      show ¬3 + l < 3
      omega))

end Hydra.Coding
