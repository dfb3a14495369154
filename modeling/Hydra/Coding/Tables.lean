/-
  Coding/Tables.lean --- the tables of products.

  Source: `gf_vect_mul_init` and `ec_init_tables` of
  `resilience_manager/erasure_code/ec_base.c`.

  For a constant there are 32 bytes: its products with the sixteen low nibbles, then with
  the sixteen high ones.  On x86-64 they are made eight at a time, as words.
-/
import Mathlib.Algebra.GroupWithZero.Basic
import Mathlib.Algebra.Ring.Hom.Defs
import Mathlib.Tactic.Ring
import Hydra.Foundation.Blocks
import Hydra.Coding.Gf256

set_option autoImplicit false

namespace Hydra.Coding

open Hydra.Foundation

/-- An array of `unsigned char`. -/
abbrev Bytes : Type := Nat → UInt8

/-! ## One constant -/

/-- "Mult by GF{2}": `(c << 1) ^ ((c & 0x80) ? 0x1d : 0)`. -/
def multByGf2 (c : UInt8) : UInt8 :=
  (c <<< 1) ^^^ (if c &&& 0x80 ≠ 0 then 0x1d else 0)

/-- Byte `j` of a word in memory. -/
def byteOf (w : UInt64) (j : Nat) : UInt8 := (w >>> UInt64.ofNat (8 * j)).toUInt8

/-- A word as it lies in memory. -/
def wordBytes (w : UInt64) : List UInt8 := (List.range 8).map (byteOf w)

/-- `t[0..3]` of `gf_vect_mul_init`. -/
def mulInitWords (c : UInt8) : List UInt64 :=
  let c2 := multByGf2 c
  let c4 := multByGf2 c2
  let c8 := multByGf2 c4
  let v1 := c.toUInt64 * 0x0100010001000100
  let v2 := c2.toUInt64 * 0x0101000001010000
  let v4 := c4.toUInt64 * 0x0101010100000000
  let v8 := c8.toUInt64 * 0x0101010101010101
  let v4 := v1 ^^^ v2 ^^^ v4
  let c17 := multByGf2 c8
  let c18 := multByGf2 c17
  let c20 := multByGf2 c18
  let c24 := multByGf2 c20
  let v10 := c17.toUInt64 * 0x0100010001000100
  let v20 := c18.toUInt64 * 0x0101000001010000
  let v40 := c20.toUInt64 * 0x0101010100000000
  let v80 := c24.toUInt64 * 0x0101010101010101
  let v40 := v10 ^^^ v20 ^^^ v40
  [v4, v8 ^^^ v4, v40, v80 ^^^ v40]

/-- `gf_vect_mul_init` on x86-64: the 32 bytes of `tbl`. -/
def gfVectMulInit (c : UInt8) : List UInt8 := (mulInitWords c).flatMap wordBytes

/-- `gf_vect_mul_init` on "32-bit or other". -/
def gfVectMulInitOther (c : UInt8) : List UInt8 :=
  let c2 := multByGf2 c
  let c4 := multByGf2 c2
  let c8 := multByGf2 c4
  let c3 := c2 ^^^ c
  let c5 := c4 ^^^ c
  let c6 := c4 ^^^ c2
  let c7 := c4 ^^^ c3
  let c9 := c8 ^^^ c
  let c10 := c8 ^^^ c2
  let c11 := c8 ^^^ c3
  let c12 := c8 ^^^ c4
  let c13 := c8 ^^^ c5
  let c14 := c8 ^^^ c6
  let c15 := c8 ^^^ c7
  let c17 := multByGf2 c8
  let c18 := multByGf2 c17
  let c19 := c18 ^^^ c17
  let c20 := multByGf2 c18
  let c21 := c20 ^^^ c17
  let c22 := c20 ^^^ c18
  let c23 := c20 ^^^ c19
  let c24 := multByGf2 c20
  let c25 := c24 ^^^ c17
  let c26 := c24 ^^^ c18
  let c27 := c24 ^^^ c19
  let c28 := c24 ^^^ c20
  let c29 := c24 ^^^ c21
  let c30 := c24 ^^^ c22
  let c31 := c24 ^^^ c23
  [0, c, c2, c3, c4, c5, c6, c7, c8, c9, c10, c11, c12, c13, c14, c15,
   0, c17, c18, c19, c20, c21, c22, c23, c24, c25, c26, c27, c28, c29, c30, c31]

/-! ## A matrix -/

/-- The pointers that `ec_init_tables` moves, and the tables. -/
structure TableInit where
  a : Nat
  gTbls : Nat
  tbls : Bytes

/-- One call of `gf_vect_mul_init`. -/
def TableInit.next (a : Bytes) (s : TableInit) : TableInit where
  a := s.a + 1
  gTbls := s.gTbls + 32
  tbls := copyTo s.tbls s.gTbls 32 fun y => (gfVectMulInit (a s.a)).getD y 0

/-- `ec_init_tables`. -/
def ecInitTables (k rows : Nat) (a : Bytes) (gTbls : Bytes) : Bytes :=
  ((List.range rows).foldl
    (fun s _ => (List.range k).foldl (fun s _ => TableInit.next a s) s)
    (⟨0, 0, gTbls⟩ : TableInit)).tbls

/-! ## Words of zeros and ones -/

/-- A byte times a number whose digits are zeros and ones puts the byte where the ones
are. -/
theorem mul_div_pow_mod {c : Nat} (hc : c < 256) {p : Nat}
    (hp : ∀ j, p / 256 ^ j % 256 ≤ 1) (j : Nat) :
    c * p / 256 ^ j % 256 = c * (p / 256 ^ j % 256) := by
  have hlow : ∀ p, p % 256 ≤ 1 → c * (p % 256) < 256 := fun p hp => by
    calc c * (p % 256) ≤ c * 1 := Nat.mul_le_mul_left _ hp
      _ < 256 := by omega
  induction j generalizing p with
  | zero =>
      have hdigit := hp 0
      rw [pow_zero, Nat.div_one] at hdigit ⊢
      rw [Nat.div_one, Nat.mul_mod, Nat.mod_eq_of_lt hc, Nat.mod_eq_of_lt (hlow p hdigit)]
  | succ j ih =>
      have hdigit := hp 0
      rw [pow_zero, Nat.div_one] at hdigit
      have hsplit : c * p = 256 * (c * (p / 256)) + c * (p % 256) := by
        conv_lhs => rw [← Nat.div_add_mod p 256]
        ring
      have hshift : c * p / 256 = c * (p / 256) := by
        rw [hsplit, Nat.mul_add_div (by decide), Nat.div_eq_of_lt (hlow p hdigit), Nat.add_zero]
      have hdiv : ∀ n, n / 256 ^ (j + 1) = n / 256 / 256 ^ j := fun n => by
        rw [pow_succ', Nat.div_div_eq_div_mul]
      rw [hdiv, hdiv, hshift]
      exact ih fun i => by
        rw [Nat.div_div_eq_div_mul, ← pow_succ']
        exact hp (i + 1)

theorem byteOf_xor (v w : UInt64) (j : Nat) : byteOf (v ^^^ w) j = byteOf v j ^^^ byteOf w j := by
  rw [byteOf, UInt64.shiftRight_xor, UInt64.toUInt8_xor]
  rfl

theorem wordBytes_xor (v w : UInt64) :
    wordBytes (v ^^^ w) = List.zipWith (· ^^^ ·) (wordBytes v) (wordBytes w) := by
  rw [wordBytes, wordBytes, wordBytes, List.zipWith_map, List.zipWith_self]
  exact List.map_congr_left fun j _ => byteOf_xor v w j

theorem toNat_byteOf {w : UInt64} {j : Nat} (hj : j < 8) :
    (byteOf w j).toNat = w.toNat / 256 ^ j % 256 := by
  have hshift : (UInt64.ofNat (8 * j)).toNat % 64 = 8 * j := by
    rw [UInt64.toNat_ofNat', Nat.mod_mod_of_dvd _ (by decide)]
    exact Nat.mod_eq_of_lt (by omega)
  rw [byteOf, UInt64.toNat_toUInt8, UInt64.toNat_shiftRight, hshift, Nat.shiftRight_eq_div_pow,
    pow_mul]
  rfl

/-- A byte times a word of zeros and ones. -/
theorem wordBytes_mul (c : UInt8) {p : UInt64} (hp : (wordBytes p).all (· ≤ 1) = true) :
    wordBytes (c.toUInt64 * p) = (wordBytes p).map (c * ·) := by
  have hc := c.toNat_lt
  have hdigit : ∀ j, p.toNat / 256 ^ j % 256 ≤ 1 := by
    intro j
    rcases Nat.lt_or_ge j 8 with hj | hj
    · rw [← toNat_byteOf hj]
      have hmem : byteOf p j ∈ wordBytes p := List.mem_map_of_mem (List.mem_range.mpr hj)
      have hle := List.all_eq_true.mp hp _ hmem
      exact UInt8.le_iff_toNat_le.mp (of_decide_eq_true hle)
    · have hpow : 256 ^ 8 ≤ 256 ^ j := Nat.pow_le_pow_right (by decide) hj
      have hlt := p.toNat_lt
      rw [Nat.div_eq_of_lt (by omega)]
      decide
  rw [wordBytes, wordBytes, List.map_map]
  refine List.map_congr_left fun j hj => UInt8.toNat_inj.mp ?_
  have hj := List.mem_range.mp hj
  have hsmall : c.toNat * (p.toNat / 256 ^ j % 256) < 2 ^ 8 := by
    calc c.toNat * (p.toNat / 256 ^ j % 256) ≤ c.toNat * 1 := Nat.mul_le_mul_left _ (hdigit j)
      _ < 2 ^ 8 := by omega
  -- the product is taken modulo 2^64, eight whole digits
  have hmod : ∀ n, n % 2 ^ 64 / 256 ^ j % 256 = n / 256 ^ j % 256 := by
    intro n
    have hpow : 2 ^ 64 = 256 ^ j * 256 ^ (8 - j) := by
      rw [← pow_add, Nat.add_sub_cancel' hj.le]
      rfl
    have hdvd : 256 ∣ 256 ^ (8 - j) := dvd_pow_self _ (by omega)
    rw [hpow, Nat.mod_mul_right_div_self, Nat.mod_mod_of_dvd _ hdvd]
  rw [toNat_byteOf hj, UInt64.toNat_mul, UInt8.toNat_toUInt64, hmod, mul_div_pow_mod hc hdigit,
    Function.comp_apply, UInt8.toNat_mul, toNat_byteOf hj, Nat.mod_eq_of_lt hsmall]

/-- Both ways of `gf_vect_mul_init` make the same table. -/
theorem gfVectMulInit_eq_other (c : UInt8) : gfVectMulInit c = gfVectMulInitOther c := by
  have h1 : wordBytes 0x0100010001000100 = [0, 1, 0, 1, 0, 1, 0, 1] := by decide
  have h2 : wordBytes 0x0101000001010000 = [0, 0, 1, 1, 0, 0, 1, 1] := by decide
  have h4 : wordBytes 0x0101010100000000 = [0, 0, 0, 0, 1, 1, 1, 1] := by decide
  have h8 : wordBytes 0x0101010101010101 = [1, 1, 1, 1, 1, 1, 1, 1] := by decide
  have v1 := fun c => wordBytes_mul c (p := 0x0100010001000100) (by decide)
  have v2 := fun c => wordBytes_mul c (p := 0x0101000001010000) (by decide)
  have v4 := fun c => wordBytes_mul c (p := 0x0101010100000000) (by decide)
  have v8 := fun c => wordBytes_mul c (p := 0x0101010101010101) (by decide)
  simp only [gfVectMulInit, mulInitWords, gfVectMulInitOther, List.flatMap_cons,
    List.flatMap_nil, wordBytes_xor, v1, v2, v4, v8, h1, h2, h4, h8, List.map_cons, List.map_nil,
    UInt8.mul_zero, UInt8.mul_one, List.zipWith_cons_cons, List.zipWith_nil_left,
    UInt8.xor_zero, UInt8.zero_xor, List.cons_append, List.nil_append, UInt8.xor_comm,
    UInt8.xor_assoc]

/-! ## Products by nibbles -/

/-- The sums of four bytes, in the order of the table. -/
def nibbleSums (c c2 c4 c8 : UInt8) : List UInt8 :=
  [0, c, c2, c2 ^^^ c, c4, c4 ^^^ c, c4 ^^^ c2, c4 ^^^ (c2 ^^^ c),
   c8, c8 ^^^ c, c8 ^^^ c2, c8 ^^^ (c2 ^^^ c), c8 ^^^ c4, c8 ^^^ (c4 ^^^ c), c8 ^^^ (c4 ^^^ c2),
   c8 ^^^ (c4 ^^^ (c2 ^^^ c))]

/-- They are the values of an additive map at the nibbles. -/
theorem nibbleSums_eq (g : Gf256 →+ Gf256) :
    nibbleSums (g ⟨1⟩).byte (g ⟨2⟩).byte (g ⟨4⟩).byte (g ⟨8⟩).byte =
      (List.range 16).map fun i => (g ⟨UInt8.ofNat i⟩).byte := by
  have hadd : ∀ a b : UInt8, (g ⟨a⟩).byte ^^^ (g ⟨b⟩).byte = (g ⟨a ^^^ b⟩).byte := fun a b =>
    (congrArg Gf256.byte (map_add g ⟨a⟩ ⟨b⟩)).symm
  have hzero : (0 : UInt8) = (g ⟨0⟩).byte := (congrArg Gf256.byte (map_zero g)).symm
  simp only [nibbleSums, hadd]
  rw [hzero]
  rfl

theorem multByGf2_eq (c : UInt8) : multByGf2 c = Gf256.doubled c := by
  have hall : ∀ n : Fin 256, multByGf2 (UInt8.ofNat n) = Gf256.doubled (UInt8.ofNat n) := by
    decide +kernel
  rw [← UInt8.ofNat_toNat (x := c)]
  exact hall ⟨c.toNat, c.toNat_lt⟩

/-- Doubling is the product with two. -/
theorem Gf256.mul_two (a : Gf256) : a * ⟨2⟩ = double a := by
  have hexp : (⟨2⟩ : Gf256) = powers.exp 1 := rfl
  rw [mul_eq, hexp, Powers.mul_exp]
  rfl

/-- `c2`, `c4`, `c8` and so on are products of the constant. -/
theorem multByGf2_mul (c : Gf256) (n : UInt8) :
    multByGf2 (c * ⟨n⟩).byte = (c * ⟨multByGf2 n⟩).byte := by
  have hdouble : ∀ a : Gf256, multByGf2 a.byte = (a * ⟨2⟩).byte := fun a => by
    rw [multByGf2_eq, Gf256.mul_two]
    rfl
  rw [hdouble, mul_assoc]
  exact congrArg (fun b => (c * b).byte) (Gf256.ext_byte (hdouble ⟨n⟩).symm)

/-- The product with a high nibble. -/
def highNibble : Gf256 →+ Gf256 where
  toFun a := ⟨a.byte <<< 4⟩
  map_zero' := rfl
  map_add' _ _ := Gf256.ext_byte UInt8.shiftLeft_xor

theorem gfVectMulInitOther_eq (c : Gf256) :
    gfVectMulInitOther c.byte =
      ((List.range 16).map fun i => (c * ⟨UInt8.ofNat i⟩).byte) ++
        (List.range 16).map fun i => (c * ⟨UInt8.ofNat i <<< 4⟩).byte := by
  have hpow : ∀ n m : UInt8, multByGf2 n = m → multByGf2 (c * ⟨n⟩).byte = (c * ⟨m⟩).byte :=
    fun n m h => h ▸ multByGf2_mul c n
  have hone : c.byte = (c * ⟨1⟩).byte := congrArg Gf256.byte (mul_one c).symm
  have hlow := nibbleSums_eq (AddMonoidHom.mulLeft c)
  have hhigh := nibbleSums_eq ((AddMonoidHom.mulLeft c).comp highNibble)
  calc gfVectMulInitOther c.byte
      = gfVectMulInitOther (c * ⟨1⟩).byte := by rw [← hone]
    _ = nibbleSums (c * ⟨1⟩).byte (c * ⟨2⟩).byte (c * ⟨4⟩).byte (c * ⟨8⟩).byte ++
          nibbleSums (c * ⟨16⟩).byte (c * ⟨32⟩).byte (c * ⟨64⟩).byte (c * ⟨128⟩).byte := by
        simp only [gfVectMulInitOther, hpow 1 2 rfl, hpow 2 4 rfl, hpow 4 8 rfl, hpow 8 16 rfl,
          hpow 16 32 rfl, hpow 32 64 rfl, hpow 64 128 rfl]
        rfl
    _ = _ := congrArg₂ (· ++ ·) hlow hhigh

/-- A byte is its two nibbles. -/
theorem nibbles (x : UInt8) : (x &&& (0x0f : UInt8)) ^^^ (x >>> 4 <<< 4) = x := by
  have hall : ∀ n : Fin 256,
      (UInt8.ofNat n &&& (0x0f : UInt8)) ^^^ (UInt8.ofNat n >>> 4 <<< 4) = UInt8.ofNat n := by
    decide +kernel
  rw [← UInt8.ofNat_toNat (x := x)]
  exact hall ⟨x.toNat, x.toNat_lt⟩

theorem high_nibble_lt (x : UInt8) : (x >>> 4).toNat < 16 := by
  have := x.toNat_lt
  rw [UInt8.toNat_shiftRight, Nat.shiftRight_eq_div_pow]
  exact Nat.div_lt_of_lt_mul (by simpa using this)

theorem low_nibble_lt (x : UInt8) : (x &&& 0x0f).toNat < 16 := by
  rw [UInt8.toNat_and]
  exact Nat.lt_of_le_of_lt Nat.and_le_right (by decide)

section Entries

variable (c : Gf256) {i : Nat}

theorem gfVectMulInit_low (hi : i < 16) :
    (gfVectMulInit c.byte).getD i 0 = (c * ⟨UInt8.ofNat i⟩).byte := by
  rw [gfVectMulInit_eq_other, gfVectMulInitOther_eq, List.getD_eq_getElem?_getD,
    List.getElem?_append_left (by simpa using hi)]
  simp [hi]

theorem gfVectMulInit_high (hi : i < 16) :
    (gfVectMulInit c.byte).getD (16 + i) 0 = (c * ⟨UInt8.ofNat i <<< 4⟩).byte := by
  rw [gfVectMulInit_eq_other, gfVectMulInitOther_eq, List.getD_eq_getElem?_getD,
    List.getElem?_append_right (by simp)]
  simp [hi]

/-- The base functions take the constant from the table's second byte. -/
theorem gfVectMulInit_one : (gfVectMulInit c.byte).getD 1 0 = c.byte := by
  rw [gfVectMulInit_low c (by decide)]
  exact congrArg Gf256.byte (mul_one c)

/-- A look-up for each nibble gives the product. -/
theorem lookup_nibbles (x : UInt8) :
    (gfVectMulInit c.byte).getD (16 + (x >>> 4).toNat) 0 ^^^
        (gfVectMulInit c.byte).getD (x &&& 0x0f).toNat 0 = (c * ⟨x⟩).byte := by
  rw [gfVectMulInit_high c (high_nibble_lt x), gfVectMulInit_low c (low_nibble_lt x),
    UInt8.ofNat_toNat, UInt8.ofNat_toNat]
  have hsum : (⟨x⟩ : Gf256) = ⟨x >>> 4 <<< 4⟩ + ⟨x &&& 0x0f⟩ :=
    Gf256.ext_byte ((UInt8.xor_comm _ _).trans (nibbles x)).symm
  rw [hsum, mul_add]
  rfl

end Entries

/-- Both builds of `gf_vect_mul_init` make the same table, and for every constant and every
byte the two look-ups in it give what `gf_mul` gives. -/
theorem nibble_tables_multiply (c x : UInt8) :
    gfVectMulInit c = gfVectMulInitOther c ∧
      (gfVectMulInitOther c).getD (16 + (x >>> 4).toNat) 0 ^^^
          (gfVectMulInitOther c).getD (x &&& 0x0f).toNat 0 =
        (Gf256.gfMul ⟨c⟩ ⟨x⟩).byte := by
  refine ⟨gfVectMulInit_eq_other c, ?_⟩
  rw [← gfVectMulInit_eq_other]
  exact lookup_nibbles ⟨c⟩ x

/-! ## The tables of a matrix -/

/-- The tables of the matrix with the coefficients `coef`: row `l` and column `j` of `k`
have the 32 bytes from `(l * k + j) * 32` on. -/
def TablesOf (k rows : Nat) (coef : Nat → Nat → Gf256) (gTbls : Bytes) : Prop :=
  ∀ l < rows, ∀ j < k, ∀ y < 32,
    gTbls (j * 32 + l * k * 32 + y) = (gfVectMulInit (coef l j).byte).getD y 0

/-- What `n` calls leave. -/
theorem tableInit_iterate (a tbls : Bytes) (n : Nat) :
    ((TableInit.next a)^[n] ⟨0, 0, tbls⟩).a = n ∧
      ((TableInit.next a)^[n] ⟨0, 0, tbls⟩).gTbls = n * 32 ∧
      (∀ i < n, ∀ y < 32, ((TableInit.next a)^[n] ⟨0, 0, tbls⟩).tbls (i * 32 + y) =
        (gfVectMulInit (a i)).getD y 0) ∧
      ∀ x, n * 32 ≤ x → ((TableInit.next a)^[n] ⟨0, 0, tbls⟩).tbls x = tbls x := by
  induction n with
  | zero => simp
  | succ n ih =>
      rw [Function.iterate_succ_apply']
      generalize (TableInit.next a)^[n] ⟨0, 0, tbls⟩ = s at ih
      obtain ⟨ha, hg, hdone, hrest⟩ := ih
      simp only [TableInit.next, copyTo, ha, hg, true_and]
      refine ⟨by omega, fun i hi y hy => ?_, fun x hx => ?_⟩
      · rcases Nat.lt_succ_iff_lt_or_eq.mp hi with hlt | rfl
        · rw [if_neg (by omega)]
          exact hdone i hlt y hy
        · rw [if_pos (by omega), Nat.add_sub_cancel_left]
      · rw [if_neg (by omega)]
        exact hrest x (by omega)

theorem ecInitTables_eq (k rows : Nat) (a gTbls : Bytes) :
    ecInitTables k rows a gTbls = ((TableInit.next a)^[k * rows] ⟨0, 0, gTbls⟩).tbls := by
  have hrow : ∀ s, (List.range k).foldl (fun s _ => TableInit.next a s) s =
      (TableInit.next a)^[k] s := fun s => by
    rw [List.foldl_const, List.length_range]
  simp only [ecInitTables, hrow, List.foldl_const, List.length_range, Function.iterate_mul]

/-- `ec_init_tables` fills in the tables of the matrix it is given, and nothing behind
them. -/
theorem ecInitTables_spec {k rows : Nat} {a : Bytes} {coef : Nat → Nat → Gf256}
    (ha : ∀ l < rows, ∀ j < k, a (k * l + j) = (coef l j).byte) (gTbls : Bytes) :
    TablesOf k rows coef (ecInitTables k rows a gTbls) ∧
      ∀ x, k * rows * 32 ≤ x → ecInitTables k rows a gTbls x = gTbls x := by
  obtain ⟨-, -, hdone, hrest⟩ := tableInit_iterate a gTbls (k * rows)
  rw [ecInitTables_eq]
  refine ⟨fun l hl j hj y hy => ?_, hrest⟩
  have hentry : k * l + j < k * rows := by
    calc k * l + j < k * l + k := by omega
      _ = k * (l + 1) := (Nat.mul_succ k l).symm
      _ ≤ k * rows := Nat.mul_le_mul_left k hl
  rw [← ha l hl j hj, ← hdone (k * l + j) hentry y hy]
  congr 1
  ring

end Hydra.Coding
