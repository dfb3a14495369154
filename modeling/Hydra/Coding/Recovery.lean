/-
  Coding/Recovery.lean --- pieces encoded with tables, and lost pieces made again.

  Source: `ec_init_tables`, `gf_gen_cauchy1_matrix` of `erasure_code/ec_base.c`,
  `ec_encode_data_avx` of `erasure_code/ec_highlevel_func.c` and `gf_gen_decode_matrix` of
  `resilience_manager/is_main.c`, each used as its arguments say.  No other code of the
  manager is in this file: it keeps no tables, and what `ec_encode_data_avx` gets from it
  are null pointers.
-/
import Hydra.Coding.Avx
import Hydra.Coding.Matrices

set_option autoImplicit false

namespace Hydra.Coding

open Hydra.Foundation Finset

/-- A matrix in memory, one row of `k` after the other. -/
def flatten (k : Nat) (M : Rows) : Bytes := fun x => (M (x / k) (x % k)).byte

section Pieces

variable {k m len : Nat} {encodeMatrix tbls : Bytes} {bufs : Buffers}

theorem matrixOf_flatten (M : Rows) {l j : Nat} (hj : j < k) :
    matrixOf k (flatten k M) l j = M l j := by
  rw [matrixOf, flatten, Nat.mul_add_div (by omega), Nat.div_eq_of_lt hj, Nat.add_zero,
    Nat.mul_add_mod, Nat.mod_eq_of_lt hj]

/-- The data buffers and the parity made of them hold the pieces. -/
theorem encoded_pieces (hk : 1 ≤ k) (hkm : k ≤ m)
    (hE : ∀ r < k, ∀ c < k, matrixOf k encodeMatrix r c = Rows.identity r c) {r y : Nat}
    (hr : r < m) (hy : y < len) :
    ecEncodeDataAvx len k (m - k) (ecInitTables k (m - k) (fun i => encodeMatrix (k * k + i)) tbls)
        id (k + ·) bufs r y =
      (piece (matrixOf k encodeMatrix) k (fun c => ⟨bufs c y⟩) r).byte := by
  have htables : TablesOf k (m - k) (matrixOf k fun i => encodeMatrix (k * k + i))
      (ecInitTables k (m - k) (fun i => encodeMatrix (k * k + i)) tbls) :=
    (ecInitTables_spec (fun _ _ _ _ => rfl) tbls).1
  have hapart : Apart k (m - k) id (k + ·) := fun j hj l _ => by
    show j ≠ k + l
    omega
  have hrows : RowsDiffer (m - k) (k + ·) := fun l _ l' _ heq => by
    have : k + l = k + l' := heq
    omega
  rw [ecEncodeDataAvx_eq hk htables hapart hrows]
  rcases Nat.lt_or_ge r k with hdata | hparity
  · rw [putRows_of_ne fun l _ => show k + l ≠ r by omega, piece_of_identity hE hdata]
  · obtain ⟨l, rfl⟩ : ∃ l, r = k + l := ⟨r - k, by omega⟩
    rw [putRows_at hrows (by omega : l < m - k), copyTo, if_pos (by omega), Nat.sub_zero]
    refine congrArg Gf256.byte (sum_congr rfl fun j _ => ?_)
    rw [matrixOf, matrixOf, Nat.mul_add, Nat.add_assoc]
    rfl

variable {e : Erasures}

/-- With the tables of the decode matrix every lost piece is made out of the surviving ones;
what is in the other buffers does not matter. -/
theorem recovered_pieces {E : Rows} {D : Decode} {d : Nat → Nat → Gf256} {got : Buffers}
    (hk : 1 ≤ k) (h : e.WellFormed k m) (hD : D.Recovers E e k m)
    (hgot : ∀ j < k, ∀ y < len,
      got (D.decodeIndex j) y = (piece E k (d y) (D.decodeIndex j)).byte)
    {p y : Nat} (hp : p < e.nerrs) (hy : y < len) :
    ecEncodeDataAvx len k e.nerrs (ecInitTables k e.nerrs (flatten k D.decodeMatrix) tbls)
        D.decodeIndex e.srcErrList got (e.srcErrList p) y =
      (piece E k (d y) (e.srcErrList p)).byte := by
  have htables : TablesOf k e.nerrs D.decodeMatrix
      (ecInitTables k e.nerrs (flatten k D.decodeMatrix) tbls) :=
    (ecInitTables_spec
      (fun l _ j hj => congrArg Gf256.byte (matrixOf_flatten D.decodeMatrix hj)) tbls).1
  have hapart : Apart k e.nerrs D.decodeIndex e.srcErrList := fun j hj q hq heq => by
    have hsurviving := hD.surviving j hj
    rw [heq, (h.marks _ (h.lt q hq)).mpr ⟨q, hq, rfl⟩] at hsurviving
    cases hsurviving
  have hrows : RowsDiffer e.nerrs e.srcErrList := fun q hq q' hq' heq => by
    rcases Nat.lt_trichotomy q q' with hlt | hsame | hlt
    · have := h.increasing q q' hlt hq'
      omega
    · exact hsame
    · have := h.increasing q' q hlt hq
      omega
  rw [ecEncodeDataAvx_eq hk htables hapart hrows, putRows_at hrows hp, copyTo, if_pos (by omega),
    Nat.sub_zero, ← hD.recovers (d y) p hp]
  refine congrArg Gf256.byte (sum_congr rfl fun j hj => ?_)
  rw [hgot j (mem_range.mp hj) y hy]

end Pieces

/-- `k` data pieces are encoded with the tables of the rows of the Cauchy matrix after the
first `k`.  Whatever pieces are lost then, data or parity, up to as many as there are
parities: with the tables of the decode matrix the first `k` pieces that survive give every
lost one its bytes back. -/
theorem lost_pieces_recovered (m k len : Nat) (a tbls tbls' : Bytes) (e : Erasures)
    (bufs : Buffers) (hk : 1 ≤ k) (hkm : k ≤ m) (hm : m ≤ 256) (h : e.WellFormed k m) :
    ∃ D, gfGenDecodeMatrix (matrixOf k (gfGenCauchy1Matrix m k a)) e k m = .ok (some D) ∧
      (∀ j < k, D.decodeIndex j < m ∧ e.srcInErr (D.decodeIndex j) = false) ∧
      ∀ coded got : Buffers,
        coded = ecEncodeDataAvx len k (m - k)
          (ecInitTables k (m - k) (fun i => gfGenCauchy1Matrix m k a (k * k + i)) tbls) id (k + ·)
          bufs →
        (∀ j < k, ∀ y < len, got (D.decodeIndex j) y = coded (D.decodeIndex j) y) →
        ∀ r < m, e.srcInErr r = true → ∀ y < len,
          ecEncodeDataAvx len k e.nerrs (ecInitTables k e.nerrs (flatten k D.decodeMatrix) tbls')
            D.decodeIndex e.srcErrList got r y = coded r y := by
  have hE : ∀ r < k, ∀ c < k,
      matrixOf k (gfGenCauchy1Matrix m k a) r c = Rows.identity r c := by
    intro r hr c hc
    rw [gfGenCauchy1Matrix_eq]
    exact matrixOf_fillRows_identity hkm hr hc
  obtain ⟨D, hdecode, hD, -⟩ := (cauchy_anyRowsInvert a hkm hm).decodes hkm hE h
  refine ⟨D, hdecode, fun j hj => ⟨hD.lt j hj, hD.surviving j hj⟩, ?_⟩
  rintro coded got rfl hgot r hr hlost y hy
  obtain ⟨p, hp, rfl⟩ := (h.marks r hr).mp hlost
  rw [encoded_pieces hk hkm hE hr hy]
  exact recovered_pieces hk h hD
    (fun j hj y hy => (hgot j hj y hy).trans (encoded_pieces hk hkm hE (hD.lt j hj) hy)) hp hy

/-- Of four data pieces and two parities one of each is cleared, and comes back. -/
theorem lost_pieces_recovered_oneOfEach :
    ∃ coded : Buffers, ∃ D : Decode,
      coded = ecEncodeDataAvx 100 4 2
        (ecInitTables 4 2 (fun i => gfGenCauchy1Matrix 6 4 (fun _ => 0) (4 * 4 + i)) fun _ => 0) id
        (4 + ·) (fun b y => UInt8.ofNat (b + y)) ∧
      ∀ r, r = 1 ∨ r = 4 → ∀ y < 100,
        ecEncodeDataAvx 100 4 2 (ecInitTables 4 2 (flatten 4 D.decodeMatrix) fun _ => 0)
          D.decodeIndex oneOfEachLost.srcErrList
          (fun b => if oneOfEachLost.srcInErr b then fun _ => 0 else coded b) r y = coded r y := by
  obtain ⟨D, -, hindex, hback⟩ := lost_pieces_recovered 6 4 100 (fun _ => 0) (fun _ => 0)
    (fun _ => 0) oneOfEachLost (fun b y => UInt8.ofNat (b + y)) (by decide) (by decide)
    (by decide) oneOfEachLost_wellFormed
  refine ⟨_, D, rfl, fun r hr y hy => hback _ _ rfl (fun j hj x _ => ?_) r ?_ ?_ y hy⟩
  · rw [(hindex j hj).2]
    rfl
  · rcases hr with rfl | rfl <;> decide
  · rcases hr with rfl | rfl <;> decide

end Hydra.Coding
