/-
  Coding/Matrices.lean --- the encode matrices.

  Source: `gf_gen_cauchy1_matrix` and `gf_gen_rs_matrix` of
  `resilience_manager/erasure_code/ec_base.c`.

  Both start with the identity.  The rows after it are inverses of `i ^ j` or powers of
  two.  "The matrix generated by gf_gen_cauchy1_matrix is always invertable"; that of
  `gf_gen_rs_matrix` is with up to three rows after the identity, because any of the
  exponents 0, 1 and 2 are in arithmetic progression.
-/
import Hydra.Foundation.Systematic
import Hydra.Coding.DecodeMatrix
import Hydra.Coding.Encode

set_option autoImplicit false

namespace Hydra.Coding

open Hydra.Foundation Finset

/-! ## The matrices -/

/-- The identity "in high position" of a matrix with `m` rows. -/
def genIdentity (m k : Nat) (a : Bytes) : Bytes :=
  (List.range k).foldl (fun a i => Function.update a (k * i + i) 1)
    (copyTo a 0 (k * m) fun _ => 0)

/-- A matrix and a pointer into it. -/
structure MatrixFill where
  a : Bytes
  p : Nat

/-- `*p++ = b`. -/
def MatrixFill.put (s : MatrixFill) (b : UInt8) : MatrixFill :=
  ⟨Function.update s.a s.p b, s.p + 1⟩

/-- `gf_gen_cauchy1_matrix`; `gf_inv` takes the low byte of `i ^ j`. -/
def gfGenCauchy1Matrix (m k : Nat) (a : Bytes) : Bytes :=
  ((List.range' k (m - k)).foldl
    (fun s i =>
      (List.range k).foldl
        (fun s j => MatrixFill.put s (Gf256.gfInv ⟨UInt8.ofNat (i ^^^ j)⟩).byte) s)
    (⟨genIdentity m k a, k * k⟩ : MatrixFill)).a

/-- The matrix of `gf_gen_rs_matrix`, with `gen`. -/
structure RsFill where
  a : Bytes
  gen : Gf256

/-- One row of `gf_gen_rs_matrix`. -/
def RsFill.row (k : Nat) (s : RsFill) (i : Nat) : RsFill where
  a := ((List.range k).foldl
    (fun (ap : Bytes × Gf256) j =>
      (Function.update ap.1 (k * i + j) ap.2.byte, Gf256.gfMul ap.2 s.gen)) (s.a, 1)).1
  gen := Gf256.gfMul s.gen ⟨2⟩

/-- `gf_gen_rs_matrix`. -/
def gfGenRsMatrix (m k : Nat) (a : Bytes) : Bytes :=
  ((List.range' k (m - k)).foldl (RsFill.row k) ⟨genIdentity m k a, 1⟩).a

/-! ## Their entries -/

/-- The rows from `k` on, written one after the other. -/
def fillRows (k n : Nat) (f : Nat → Nat → UInt8) (a : Bytes) : Bytes :=
  (List.range' k n).foldl (fun a i => copyTo a (k * i) k (f i)) a

section Entries

variable {m k n r c : Nat} {a : Bytes}

theorem entry_inj {r' c' : Nat} (hc : c < k) (hc' : c' < k) (h : k * r + c = k * r' + c') :
    r = r' ∧ c = c' := by
  have hr : r = r' := by
    have hdiv : ∀ r c, c < k → (k * r + c) / k = r := fun r c hc => by
      rw [Nat.mul_add_div (by omega), Nat.div_eq_of_lt hc, Nat.add_zero]
    rw [← hdiv r c hc, h, hdiv r' c' hc']
  exact ⟨hr, by subst hr; omega⟩

theorem fillRows_succ (f : Nat → Nat → UInt8) :
    fillRows k (n + 1) f a = copyTo (fillRows k n f a) (k * (k + n)) k (f (k + n)) := by
  rw [fillRows, List.range'_1_concat, List.foldl_append]
  rfl

theorem fillRows_at (f : Nat → Nat → UInt8) (hc : c < k) :
    fillRows k n f a (k * r + c) = if k ≤ r ∧ r < k + n then f r c else a (k * r + c) := by
  induction n with
  | zero =>
      rw [if_neg (by omega)]
      rfl
  | succ n ih =>
      rw [fillRows_succ, copyTo, ih]
      by_cases hr : r = k + n
      · subst hr
        rw [if_pos (by omega), if_pos (by omega), Nat.add_sub_cancel_left]
      · rw [if_neg fun hin => hr ?_]
        · exact if_congr (by omega) rfl rfl
        · have hsame : k * r + c = k * (k + n) + (k * r + c - k * (k + n)) := by omega
          exact (entry_inj hc (by omega) hsame).1

theorem foldl_diagonal (n : Nat) (hn : n ≤ k) (hc : c < k) :
    (List.range n).foldl (fun a i => Function.update a (k * i + i) 1) a (k * r + c) =
      if r = c ∧ c < n then 1 else a (k * r + c) := by
  induction n with
  | zero =>
      rw [if_neg (by omega)]
      rfl
  | succ n ih =>
      rw [List.range_succ, List.foldl_append, List.foldl_cons, List.foldl_nil]
      by_cases hin : k * r + c = k * n + n
      · obtain ⟨rfl, rfl⟩ := entry_inj hc (by omega) hin
        rw [Function.update_self, if_pos (by omega)]
      · have hne : ¬(r = n ∧ c = n) := fun ⟨hr, hc⟩ => hin (by rw [hr, hc])
        rw [Function.update_of_ne hin, ih (by omega)]
        exact if_congr (by omega) rfl rfl

theorem genIdentity_at (hr : r < m) (hc : c < k) :
    genIdentity m k a (k * r + c) = if r = c then 1 else 0 := by
  have hin : k * r + c < k * m := by
    calc k * r + c < k * (r + 1) := by rw [Nat.mul_succ]; omega
      _ ≤ k * m := Nat.mul_le_mul_left k hr
  have hzero : copyTo a 0 (k * m) (fun _ => 0) (k * r + c) = 0 := if_pos (by omega)
  rw [genIdentity, foldl_diagonal k le_rfl hc, hzero]
  exact if_congr (by omega) rfl rfl

/-- A row through the pointer. -/
theorem foldl_put (n : Nat) (f : Nat → UInt8) (s : MatrixFill) :
    (List.range n).foldl (fun s j => s.put (f j)) s = ⟨copyTo s.a s.p n f, s.p + n⟩ := by
  induction n with
  | zero =>
      rw [copyTo_zero]
      rfl
  | succ n ih =>
      rw [List.range_succ, List.foldl_append, ih, copyTo_succ]
      rfl

theorem gfGenCauchy1Matrix_eq :
    gfGenCauchy1Matrix m k a =
      fillRows k (m - k) (fun i j => (Gf256.gfInv ⟨UInt8.ofNat (i ^^^ j)⟩).byte)
        (genIdentity m k a) := by
  have hrun : ∀ n, (List.range' k n).foldl
      (fun s i => (List.range k).foldl
        (fun s j => MatrixFill.put s (Gf256.gfInv ⟨UInt8.ofNat (i ^^^ j)⟩).byte) s)
      (⟨genIdentity m k a, k * k⟩ : MatrixFill) =
        ⟨fillRows k n (fun i j => (Gf256.gfInv ⟨UInt8.ofNat (i ^^^ j)⟩).byte)
          (genIdentity m k a), k * (k + n)⟩ := by
    intro n
    induction n with
    | zero => rfl
    | succ n ih =>
        rw [List.range'_1_concat, List.foldl_append, ih, fillRows_succ]
        exact foldl_put _ _ _
  rw [gfGenCauchy1Matrix, hrun]

/-- The powers of `gen` in a row. -/
theorem RsFill.row_eq (s : RsFill) (i : Nat) :
    s.row k i = ⟨copyTo s.a (k * i) k fun j => (s.gen ^ j).byte, s.gen * ⟨2⟩⟩ := by
  have hrun : ∀ n, (List.range n).foldl
      (fun (ap : Bytes × Gf256) j =>
        (Function.update ap.1 (k * i + j) ap.2.byte, Gf256.gfMul ap.2 s.gen)) (s.a, 1) =
        (copyTo s.a (k * i) n fun j => (s.gen ^ j).byte, s.gen ^ n) := by
    intro n
    induction n with
    | zero =>
        rw [copyTo_zero]
        rfl
    | succ n ih =>
        rw [List.range_succ, List.foldl_append, ih, copyTo_succ, pow_succ]
        rfl
  rw [RsFill.row, hrun]
  rfl

theorem gfGenRsMatrix_eq :
    gfGenRsMatrix m k a =
      fillRows k (m - k) (fun i j => (((⟨2⟩ : Gf256) ^ (i - k)) ^ j).byte)
        (genIdentity m k a) := by
  have hrun : ∀ n, (List.range' k n).foldl (RsFill.row k) ⟨genIdentity m k a, 1⟩ =
      ⟨fillRows k n (fun i j => (((⟨2⟩ : Gf256) ^ (i - k)) ^ j).byte) (genIdentity m k a),
        ⟨2⟩ ^ n⟩ := by
    intro n
    induction n with
    | zero => rfl
    | succ n ih =>
        rw [List.range'_1_concat, List.foldl_append, ih, List.foldl_cons, List.foldl_nil,
          RsFill.row_eq, fillRows_succ, Nat.add_sub_cancel_left, ← pow_succ]
  rw [gfGenRsMatrix, hrun]

theorem matrixOf_fillRows_check {f : Nat → Nat → UInt8} (hk : k ≤ m) (hr : k ≤ r) (hrm : r < m)
    (hc : c < k) :
    matrixOf k (fillRows k (m - k) f (genIdentity m k a)) r c = ⟨f r c⟩ := by
  rw [matrixOf, fillRows_at f hc, if_pos (by omega)]

theorem matrixOf_fillRows_identity {f : Nat → Nat → UInt8} (hk : k ≤ m) (hr : r < k)
    (hc : c < k) :
    matrixOf k (fillRows k (m - k) f (genIdentity m k a)) r c = Rows.identity r c := by
  rw [matrixOf, fillRows_at f hc, if_neg (by omega), genIdentity_at (by omega) hc, Rows.identity]
  split <;> rfl

end Entries

/-! ## Any `k` rows -/

/-- `gf_invert_matrix` succeeds on any `k` different rows out of `m`. -/
def AnyRowsInvert (E : Rows) (k m : Nat) : Prop :=
  ∀ index : Nat → Nat, (∀ i < k, index i < m) → Set.InjOn index (range k) →
    ∃ x, gfInvertMatrix (fun i => E (index i)) k = .ok x

theorem anyRowsInvert_of_check {E : Rows} {k m : Nat}
    (hE : ∀ r < k, ∀ c < k, E r c = Rows.identity r c)
    (hcheck : ∀ R S : Finset Nat, (∀ r ∈ R, k ≤ r ∧ r < m) → S ⊆ range k → S.card = R.card →
      Independent E R S) : AnyRowsInvert E k m := by
  intro index hlt hinj
  have hrows : Independent (fun i => E (index i)) (range k) (range k) := by
    refine systematic_independent hE hinj fun R S hR hS hcard =>
      hcheck R S (fun r hr => ?_) hS hcard
    obtain ⟨hle, i, hi, rfl⟩ := hR r hr
    exact ⟨hle, hlt i hi⟩
  cases hrun : gfInvertMatrix (fun i => E (index i)) k with
  | error e => exact absurd hrows.exists_inverse ((gfInvertMatrix_error_iff _ k).mp hrun)
  | ok x => exact ⟨x, rfl⟩

/-! ## Inverses of `i ^ j` -/

section Cauchy

variable {m k : Nat}

/-- A number as a byte. -/
def byteNumber (i : Nat) : Gf256 := ⟨UInt8.ofNat i⟩

theorem byteNumber_inj {i j : Nat} (hi : i < 256) (hj : j < 256)
    (h : byteNumber i = byteNumber j) : i = j := by
  have hbyte : UInt8.ofNat i = UInt8.ofNat j := congrArg Gf256.byte h
  have hnat := congrArg UInt8.toNat hbyte
  rwa [UInt8.toNat_ofNat', UInt8.toNat_ofNat', Nat.mod_eq_of_lt hi, Nat.mod_eq_of_lt hj] at hnat

theorem gfInv_xor (i j : Nat) :
    Gf256.gfInv ⟨UInt8.ofNat (i ^^^ j)⟩ = (byteNumber i - byteNumber j)⁻¹ := by
  rw [UInt8.ofNat_xor]
  rfl

theorem cauchy_anyRowsInvert (a : Bytes) (hk : k ≤ m) (hm : m ≤ 256) :
    AnyRowsInvert (matrixOf k (gfGenCauchy1Matrix m k a)) k m := by
  rw [gfGenCauchy1Matrix_eq]
  refine anyRowsInvert_of_check
    (fun r hr c hc => matrixOf_fillRows_identity hk hr hc) fun R S hR hS hcard => ?_
  have hS : ∀ c ∈ S, c < k := fun c hc => mem_range.mp (hS hc)
  have hx : Set.InjOn byteNumber R := fun r hr r' hr' heq => by
    have := (hR r hr).2
    have := (hR r' hr').2
    exact byteNumber_inj (by omega) (by omega) heq
  have hy : Set.InjOn byteNumber S := fun c hc c' hc' heq => by
    have := hS c hc
    have := hS c' hc'
    exact byteNumber_inj (by omega) (by omega) heq
  refine (cauchy_independent hcard.le hx hy fun r hr c hc heq => ?_).congr fun r hr c hc => ?_
  · have := hR r hr
    have := hS c hc
    have := byteNumber_inj (by omega) (by omega) heq
    omega
  · rw [matrixOf_fillRows_check hk (hR r hr).1 (hR r hr).2 (hS c hc), ← gfInv_xor]

end Cauchy

/-! ## Powers of two -/

section Powers

variable {m k : Nat}

theorem two_pow_eq {i : Nat} (hi : i ≤ 255) : (⟨2⟩ : Gf256) ^ i = Gf256.gff i := by
  rw [Gf256.gff_eq hi]
  clear hi
  induction i with
  | zero => rfl
  | succ i ih => rw [pow_succ, ih, Gf256.mul_two, Function.iterate_succ_apply']

/-- `gflog_base` knows each of the first 255 powers of two. -/
theorem gffBase_logs :
    gffBase.dropLast.map (fun b => gflogBase.getD b.toNat 0) =
      255 :: (List.range' 1 254).map UInt8.ofNat := by
  decide +kernel

theorem gflog_gff {i : Nat} (hi : i < 255) :
    Gf256.gflog (Gf256.gff i) = if i = 0 then 255 else i := by
  have hlen : gffBase.length = 256 := by decide +kernel
  have hentry : gffBase[i]? = some (Gf256.gff i).byte := by
    rw [Gf256.gff, List.getD_eq_getElem?_getD, List.getElem?_eq_getElem (by omega),
      Option.getD_some]
  have hlog := congrArg (fun l : List UInt8 => l[i]?) gffBase_logs
  simp only [List.getElem?_map, List.getElem?_dropLast, hlen, if_pos hi, hentry,
    Option.map_some] at hlog
  rw [Gf256.gflog]
  cases i with
  | zero => exact congrArg UInt8.toNat (Option.some.inj hlog)
  | succ i =>
      rw [List.getElem?_cons_succ, List.getElem?_map, List.getElem?_range' (by omega),
        Option.map_some, Nat.one_mul] at hlog
      rw [Option.some.inj hlog, if_neg (Nat.succ_ne_zero i), UInt8.toNat_ofNat',
        Nat.mod_eq_of_lt (by omega), Nat.add_comm]

theorem two_pow_inj {i j : Nat} (hi : i < 255) (hj : j < 255)
    (h : (⟨2⟩ : Gf256) ^ i = ⟨2⟩ ^ j) : i = j := by
  rw [two_pow_eq hi.le, two_pow_eq hj.le] at h
  have hlog := congrArg Gf256.gflog h
  rw [gflog_gff hi, gflog_gff hj] at hlog
  split_ifs at hlog <;> omega

theorem two_pow_ne_zero (i : Nat) : (⟨2⟩ : Gf256) ^ i ≠ 0 :=
  pow_ne_zero i (by decide)

/-- Squares are different where the numbers are. -/
theorem sq_inj {a b : Gf256} (h : a ^ 2 = b ^ 2) : a = b :=
  (sq_eq_sq_iff_eq_or_eq_neg.mp h).elim id id

/-- Any of the exponents 0, 1 and 2 are in arithmetic progression. -/
theorem exists_progression (T : Finset Nat) (hT : T ⊆ range 3) :
    ∃ s d, (d = 1 ∨ d = 2) ∧ ∀ i < T.card, s + d * i ∈ T := by
  have hall : ∀ T ∈ (range 3).powerset,
      ∃ s < 3, ∃ d < 3, (d = 1 ∨ d = 2) ∧ ∀ i < T.card, s + d * i ∈ T := by decide
  obtain ⟨s, -, d, -, hd, hi⟩ := hall T (mem_powerset.mpr hT)
  exact ⟨s, d, hd, hi⟩

theorem rs_anyRowsInvert (a : Bytes) (hk : k ≤ m) (hk255 : k ≤ 255) (hm : m ≤ k + 3) :
    AnyRowsInvert (matrixOf k (gfGenRsMatrix m k a)) k m := by
  rw [gfGenRsMatrix_eq]
  refine anyRowsInvert_of_check
    (fun r hr c hc => matrixOf_fillRows_identity hk hr hc) fun R S hR hS hcard => ?_
  have hS : ∀ c ∈ S, c < k := fun c hc => mem_range.mp (hS hc)
  have hsub : Set.InjOn (· - k) (R : Set Nat) := fun r hr r' hr' heq => by
    have := (hR r hr).1
    have := (hR r' hr').1
    have : r - k = r' - k := heq
    omega
  have hrange : R.image (· - k) ⊆ range 3 := fun t ht => by
    obtain ⟨r, hr, rfl⟩ := mem_image.mp ht
    have := hR r hr
    exact mem_range.mpr (by omega)
  obtain ⟨s, d, hd, hprogression⟩ := exists_progression _ hrange
  have hnodes : Set.InjOn (fun c => ((⟨2⟩ : Gf256) ^ c) ^ d) S := fun c hc c' hc' heq => by
    have hlt := hS c hc
    have hlt' := hS c' hc'
    refine two_pow_inj (by omega) (by omega) ?_
    rcases hd with rfl | rfl
    · simpa using heq
    · exact sq_inj heq
  refine (powers_independent (e := fun r => r - k) (s := s) (fun c _ => two_pow_ne_zero c) hnodes
    fun i hi => ?_).congr fun r hr c hc => ?_
  · rw [hcard, ← card_image_of_injOn hsub] at hi
    exact mem_image.mp (hprogression i hi)
  · rw [matrixOf_fillRows_check hk (hR r hr).1 (hR r hr).2 (hS c hc), ← pow_mul, ← pow_mul,
      mul_comm]

end Powers

/-! ## The decode matrix -/

/-- Where any `k` rows can be inverted, the first `k` surviving pieces do. -/
theorem AnyRowsInvert.decodes {E : Rows} {e : Erasures} {k m : Nat} (hany : AnyRowsInvert E k m)
    (hk : k ≤ m) (hE : ∀ r < k, ∀ c < k, E r c = Rows.identity r c) (h : e.WellFormed k m) :
    ∃ D, gfGenDecodeMatrix E e k m = .ok (some D) ∧ D.Recovers E e k m ∧
      D.decodeIndex = e.chosen k m := by
  have hmono : StrictMonoOn (e.chosen k m) (Set.Iio k) := fun i _ j hj hij =>
    Erasures.chosen_lt h hk hij hj
  obtain ⟨x, hx⟩ := hany (e.chosen k m) (fun i hi => (Erasures.chosen_mem h hk hi).1)
    fun i hi j hj => hmono.injOn (mem_range.mp hi) (mem_range.mp hj)
  have hrow : ∀ i, E (e.replaced k m (e.chosen k m (k - 1)) i) = E (e.chosen k m i) := fun i => by
    rw [Erasures.replaced_chosen]
  refine ⟨⟨e.chosen k m, e.decodeRows E x k⟩, ?_, ?_, rfl⟩
  · rw [Erasures.gfGenDecodeMatrix_eq h hk, Erasures.attempts_succ]
    simp only [hx, Erasures.replaced_chosen]
    rfl
  · have hrecovers := Erasures.Tried.recovers hk hE h (fun hpos => .first hpos)
      (fun hpos => (Erasures.chosen_mem h hk (by omega)).2) (x := x) (by simpa only [hrow] using hx)
    rwa [Erasures.replaced_chosen] at hrecovers

/-- With the matrix of `gf_gen_cauchy1_matrix` any `k` rows have an inverse, and whatever
pieces are lost the decode matrix is made at the first attempt, out of the first `k`
pieces that survive. -/
theorem cauchy_decodes_any_loss (m k : Nat) (a : Bytes) (hk : k ≤ m) (hm : m ≤ 256) :
    AnyRowsInvert (matrixOf k (gfGenCauchy1Matrix m k a)) k m ∧
      ∀ e : Erasures, e.WellFormed k m →
        ∃ D, gfGenDecodeMatrix (matrixOf k (gfGenCauchy1Matrix m k a)) e k m = .ok (some D) ∧
          D.Recovers (matrixOf k (gfGenCauchy1Matrix m k a)) e k m ∧
          D.decodeIndex = e.chosen k m := by
  have hany := cauchy_anyRowsInvert a hk hm
  refine ⟨hany, fun e h => hany.decodes hk (fun r hr c hc => ?_) h⟩
  rw [gfGenCauchy1Matrix_eq]
  exact matrixOf_fillRows_identity hk hr hc

/-- Of four data pieces and two parities one of each is lost. -/
def oneOfEachLost : Erasures where
  srcInErr := fun r => r = 1 || r = 4
  srcErrList := fun p => if p = 0 then 1 else 4
  nerrs := 2
  nsrcerrs := 1

theorem oneOfEachLost_wellFormed : oneOfEachLost.WellFormed 4 6 where
  pos := by decide
  le := by decide
  increasing := by
    intro p q hpq hq
    obtain ⟨rfl, rfl⟩ : p = 0 ∧ q = 1 := by
      have : q < 2 := hq
      omega
    decide
  lt := by decide
  nsrcerrs_le := by decide
  sources := by decide
  marks := by decide

theorem cauchy_decodes_any_loss_oneOfEach :
    AnyRowsInvert (matrixOf 4 (gfGenCauchy1Matrix 6 4 fun _ => 0)) 4 6 ∧
      ∃ D, gfGenDecodeMatrix (matrixOf 4 (gfGenCauchy1Matrix 6 4 fun _ => 0)) oneOfEachLost 4 6 =
        .ok (some D) := by
  obtain ⟨hany, hdecodes⟩ := cauchy_decodes_any_loss 6 4 (fun _ => 0) (by decide) (by decide)
  obtain ⟨D, hD, -⟩ := hdecodes oneOfEachLost oneOfEachLost_wellFormed
  exact ⟨hany, D, hD⟩

/-- The same with the matrix of `gf_gen_rs_matrix` and up to three parity pieces; a lost
piece has a number that fits a byte of `src_err_list`. -/
theorem rs_decodes_three_parities (m k : Nat) (a : Bytes) (hk : k ≤ m) (hk255 : k ≤ 255)
    (hm : m ≤ k + 3) :
    AnyRowsInvert (matrixOf k (gfGenRsMatrix m k a)) k m ∧
      ∀ e : Erasures, m ≤ 256 → e.WellFormed k m →
        ∃ D, gfGenDecodeMatrix (matrixOf k (gfGenRsMatrix m k a)) e k m = .ok (some D) ∧
          D.Recovers (matrixOf k (gfGenRsMatrix m k a)) e k m ∧
          D.decodeIndex = e.chosen k m := by
  have hany := rs_anyRowsInvert a hk hk255 hm
  refine ⟨hany, fun e _ h => hany.decodes hk (fun r hr c hc => ?_) h⟩
  rw [gfGenRsMatrix_eq]
  exact matrixOf_fillRows_identity hk hr hc

theorem rs_decodes_three_parities_oneOfEach :
    AnyRowsInvert (matrixOf 4 (gfGenRsMatrix 6 4 fun _ => 0)) 4 6 ∧
      ∃ D, gfGenDecodeMatrix (matrixOf 4 (gfGenRsMatrix 6 4 fun _ => 0)) oneOfEachLost 4 6 =
        .ok (some D) := by
  obtain ⟨hany, hdecodes⟩ := rs_decodes_three_parities 6 4 (fun _ => 0) (by decide) (by decide)
    (by decide)
  obtain ⟨D, hD, -⟩ := hdecodes oneOfEachLost (by decide) oneOfEachLost_wellFormed
  exact ⟨hany, D, hD⟩

/-! ## Four parities -/

/-- The data rows but 0, 1 and 25, and the check rows 0, 1 and 3. -/
def missingRows (k i : Nat) : Nat :=
  if i = 0 then k else if i = 1 then k + 1 else if i = 25 then k + 3 else i

/-- 1 is `2^0`, 2 is `2^1` and 3 is `2^25`; they sum to zero, and so do their squares and
fourth powers. -/
def missingData (c : Nat) : Gf256 :=
  if c = 0 then 1 else if c = 1 then ⟨2⟩ else if c = 25 then ⟨3⟩ else 0

theorem sum_missingData {k : Nat} (hk : 26 ≤ k) (f : Nat → Gf256) :
    ∑ c ∈ range k, f c * missingData c = f 0 * 1 + (f 1 * ⟨2⟩ + f 25 * ⟨3⟩) := by
  have hsubset : ({0, 1, 25} : Finset Nat) ⊆ range k := by
    intro c hc
    simp only [mem_insert, mem_singleton] at hc
    exact mem_range.mpr (by omega)
  rw [← sum_subset hsubset]
  · rw [sum_insert (by decide), sum_insert (by decide), sum_singleton]
    rfl
  · intro c _ hc
    simp only [mem_insert, mem_singleton, not_or] at hc
    rw [missingData, if_neg hc.1, if_neg hc.2.1, if_neg hc.2.2, mul_zero]

/-- From 26 data pieces and four parities on, the matrix of `gf_gen_rs_matrix` has `k`
different rows that `gf_invert_matrix` cannot invert. -/
theorem rs_fails_with_four_parities (m k : Nat) (a : Bytes) (hk : 26 ≤ k) (hm : k + 4 ≤ m) :
    ∃ index : Nat → Nat, (∀ i < k, index i < m) ∧ Set.InjOn index (range k) ∧
      gfInvertMatrix (fun i => matrixOf k (gfGenRsMatrix m k a) (index i)) k = .error () := by
  refine ⟨missingRows k, fun i hi => ?_, fun i hi j hj heq => ?_, ?_⟩
  · rw [missingRows]
    split_ifs <;> omega
  · have := mem_range.mp hi
    have := mem_range.mp hj
    simp only [missingRows] at heq
    split_ifs at heq <;> omega
  · rw [gfInvertMatrix_error_iff]
    rintro ⟨x, hx⟩
    have hcheck : ∀ t, t < 4 → dot k (matrixOf k (gfGenRsMatrix m k a) (k + t)) missingData =
        ((⟨2⟩ : Gf256) ^ t) ^ 0 * 1 + (((⟨2⟩ : Gf256) ^ t) ^ 1 * ⟨2⟩ +
          ((⟨2⟩ : Gf256) ^ t) ^ 25 * ⟨3⟩) := by
      intro t ht
      rw [← sum_missingData hk fun c => ((⟨2⟩ : Gf256) ^ t) ^ c, gfGenRsMatrix_eq]
      refine sum_congr rfl fun c hc => ?_
      rw [matrixOf_fillRows_check (by omega) (by omega) (by omega) (mem_range.mp hc),
        Nat.add_sub_cancel_left]
    have hdata : ∀ i < k, dot k (matrixOf k (gfGenRsMatrix m k a) i) missingData =
        missingData i := by
      intro i hi
      rw [← Rows.sum_identity_mul hi missingData, gfGenRsMatrix_eq]
      refine sum_congr rfl fun c hc => ?_
      rw [matrixOf_fillRows_identity (by omega) hi (mem_range.mp hc)]
    have hrow : ∀ i < k, dot k (matrixOf k (gfGenRsMatrix m k a) (missingRows k i))
        missingData = 0 := by
      intro i hi
      rw [missingRows]
      split_ifs with h0 h1 h25
      · exact (hcheck 0 (by decide)).trans (by decide +kernel)
      · exact (hcheck 1 (by decide)).trans (by decide +kernel)
      · exact (hcheck 3 (by decide)).trans (by decide +kernel)
      · rw [hdata i hi, missingData, if_neg h0, if_neg h1, if_neg h25]
    have hzero : missingData 0 = 0 := by
      rw [← sum_inverse_dot hx (by omega : 0 < k) missingData]
      exact sum_eq_zero fun q hq => by rw [hrow q (mem_range.mp hq), mul_zero]
    exact absurd hzero (by decide)

theorem rs_fails_with_four_parities_least :
    ∃ index : Nat → Nat, (∀ i < 26, index i < 30) ∧ Set.InjOn index (range 26) ∧
      gfInvertMatrix (fun i => matrixOf 26 (gfGenRsMatrix 30 26 fun _ => 0) (index i)) 26 =
        .error () :=
  rs_fails_with_four_parities 30 26 (fun _ => 0) (by decide) (by decide)

end Hydra.Coding
