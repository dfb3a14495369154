/-
  Coding/Gf256.lean --- the bytes of the erasure code.

  Source: `gf_mul` and `gf_inv` of `resilience_manager/erasure_code/ec_base.c` and the
  tables of `ec_base.h`.

  `gff_base` holds the powers of two in GF(2^8), `gflog_base` the logarithms.  The tables
  are checked entry by entry against doubling modulo `x^8 + x^4 + x^3 + x^2 + 1`; that
  `gf_mul` is then the multiplication of a field is `Foundation/Powers.lean`.
-/
import Mathlib.Algebra.Field.Defs
import Hydra.Foundation.Powers

set_option autoImplicit false

namespace Hydra.Coding

open Hydra.Foundation

/-- A byte of a piece; addition is exclusive or. -/
structure Gf256 where
  byte : UInt8
  deriving DecidableEq, Repr

/-- `gff_base` of `ec_base.h`. -/
def gffBase : List UInt8 :=
  [0x01, 0x02, 0x04, 0x08, 0x10, 0x20, 0x40, 0x80, 0x1d, 0x3a,
   0x74, 0xe8, 0xcd, 0x87, 0x13, 0x26, 0x4c, 0x98, 0x2d, 0x5a,
   0xb4, 0x75, 0xea, 0xc9, 0x8f, 0x03, 0x06, 0x0c, 0x18, 0x30,
   0x60, 0xc0, 0x9d, 0x27, 0x4e, 0x9c, 0x25, 0x4a, 0x94, 0x35,
   0x6a, 0xd4, 0xb5, 0x77, 0xee, 0xc1, 0x9f, 0x23, 0x46, 0x8c,
   0x05, 0x0a, 0x14, 0x28, 0x50, 0xa0, 0x5d, 0xba, 0x69, 0xd2,
   0xb9, 0x6f, 0xde, 0xa1, 0x5f, 0xbe, 0x61, 0xc2, 0x99, 0x2f,
   0x5e, 0xbc, 0x65, 0xca, 0x89, 0x0f, 0x1e, 0x3c, 0x78, 0xf0,
   0xfd, 0xe7, 0xd3, 0xbb, 0x6b, 0xd6, 0xb1, 0x7f, 0xfe, 0xe1,
   0xdf, 0xa3, 0x5b, 0xb6, 0x71, 0xe2, 0xd9, 0xaf, 0x43, 0x86,
   0x11, 0x22, 0x44, 0x88, 0x0d, 0x1a, 0x34, 0x68, 0xd0, 0xbd,
   0x67, 0xce, 0x81, 0x1f, 0x3e, 0x7c, 0xf8, 0xed, 0xc7, 0x93,
   0x3b, 0x76, 0xec, 0xc5, 0x97, 0x33, 0x66, 0xcc, 0x85, 0x17,
   0x2e, 0x5c, 0xb8, 0x6d, 0xda, 0xa9, 0x4f, 0x9e, 0x21, 0x42,
   0x84, 0x15, 0x2a, 0x54, 0xa8, 0x4d, 0x9a, 0x29, 0x52, 0xa4,
   0x55, 0xaa, 0x49, 0x92, 0x39, 0x72, 0xe4, 0xd5, 0xb7, 0x73,
   0xe6, 0xd1, 0xbf, 0x63, 0xc6, 0x91, 0x3f, 0x7e, 0xfc, 0xe5,
   0xd7, 0xb3, 0x7b, 0xf6, 0xf1, 0xff, 0xe3, 0xdb, 0xab, 0x4b,
   0x96, 0x31, 0x62, 0xc4, 0x95, 0x37, 0x6e, 0xdc, 0xa5, 0x57,
   0xae, 0x41, 0x82, 0x19, 0x32, 0x64, 0xc8, 0x8d, 0x07, 0x0e,
   0x1c, 0x38, 0x70, 0xe0, 0xdd, 0xa7, 0x53, 0xa6, 0x51, 0xa2,
   0x59, 0xb2, 0x79, 0xf2, 0xf9, 0xef, 0xc3, 0x9b, 0x2b, 0x56,
   0xac, 0x45, 0x8a, 0x09, 0x12, 0x24, 0x48, 0x90, 0x3d, 0x7a,
   0xf4, 0xf5, 0xf7, 0xf3, 0xfb, 0xeb, 0xcb, 0x8b, 0x0b, 0x16,
   0x2c, 0x58, 0xb0, 0x7d, 0xfa, 0xe9, 0xcf, 0x83, 0x1b, 0x36,
   0x6c, 0xd8, 0xad, 0x47, 0x8e, 0x01]

/-- `gflog_base` of `ec_base.h`. -/
def gflogBase : List UInt8 :=
  [0x00, 0xff, 0x01, 0x19, 0x02, 0x32, 0x1a, 0xc6, 0x03, 0xdf,
   0x33, 0xee, 0x1b, 0x68, 0xc7, 0x4b, 0x04, 0x64, 0xe0, 0x0e,
   0x34, 0x8d, 0xef, 0x81, 0x1c, 0xc1, 0x69, 0xf8, 0xc8, 0x08,
   0x4c, 0x71, 0x05, 0x8a, 0x65, 0x2f, 0xe1, 0x24, 0x0f, 0x21,
   0x35, 0x93, 0x8e, 0xda, 0xf0, 0x12, 0x82, 0x45, 0x1d, 0xb5,
   0xc2, 0x7d, 0x6a, 0x27, 0xf9, 0xb9, 0xc9, 0x9a, 0x09, 0x78,
   0x4d, 0xe4, 0x72, 0xa6, 0x06, 0xbf, 0x8b, 0x62, 0x66, 0xdd,
   0x30, 0xfd, 0xe2, 0x98, 0x25, 0xb3, 0x10, 0x91, 0x22, 0x88,
   0x36, 0xd0, 0x94, 0xce, 0x8f, 0x96, 0xdb, 0xbd, 0xf1, 0xd2,
   0x13, 0x5c, 0x83, 0x38, 0x46, 0x40, 0x1e, 0x42, 0xb6, 0xa3,
   0xc3, 0x48, 0x7e, 0x6e, 0x6b, 0x3a, 0x28, 0x54, 0xfa, 0x85,
   0xba, 0x3d, 0xca, 0x5e, 0x9b, 0x9f, 0x0a, 0x15, 0x79, 0x2b,
   0x4e, 0xd4, 0xe5, 0xac, 0x73, 0xf3, 0xa7, 0x57, 0x07, 0x70,
   0xc0, 0xf7, 0x8c, 0x80, 0x63, 0x0d, 0x67, 0x4a, 0xde, 0xed,
   0x31, 0xc5, 0xfe, 0x18, 0xe3, 0xa5, 0x99, 0x77, 0x26, 0xb8,
   0xb4, 0x7c, 0x11, 0x44, 0x92, 0xd9, 0x23, 0x20, 0x89, 0x2e,
   0x37, 0x3f, 0xd1, 0x5b, 0x95, 0xbc, 0xcf, 0xcd, 0x90, 0x87,
   0x97, 0xb2, 0xdc, 0xfc, 0xbe, 0x61, 0xf2, 0x56, 0xd3, 0xab,
   0x14, 0x2a, 0x5d, 0x9e, 0x84, 0x3c, 0x39, 0x53, 0x47, 0x6d,
   0x41, 0xa2, 0x1f, 0x2d, 0x43, 0xd8, 0xb7, 0x7b, 0xa4, 0x76,
   0xc4, 0x17, 0x49, 0xec, 0x7f, 0x0c, 0x6f, 0xf6, 0x6c, 0xa1,
   0x3b, 0x52, 0x29, 0x9d, 0x55, 0xaa, 0xfb, 0x60, 0x86, 0xb1,
   0xbb, 0xcc, 0x3e, 0x5a, 0xcb, 0x59, 0x5f, 0xb0, 0x9c, 0xa9,
   0xa0, 0x51, 0x0b, 0xf5, 0x16, 0xeb, 0x7a, 0x75, 0x2c, 0xd7,
   0x4f, 0xae, 0xd5, 0xe9, 0xe6, 0xe7, 0xad, 0xe8, 0x74, 0xd6,
   0xf4, 0xea, 0xa8, 0x50, 0x58, 0xaf]

namespace Gf256

instance : Zero Gf256 := ⟨⟨0⟩⟩

instance : One Gf256 := ⟨⟨1⟩⟩

/-- `a ^ b`. -/
instance : Add Gf256 := ⟨fun a b => ⟨a.byte ^^^ b.byte⟩⟩

/-- `gff_base[i]`. -/
def gff (i : Nat) : Gf256 := ⟨gffBase.getD i 0⟩

/-- `gflog_base[a]`. -/
def gflog (a : Gf256) : Nat := (gflogBase.getD a.byte.toNat 0).toNat

/-- `gf_mul`. -/
def gfMul (a b : Gf256) : Gf256 :=
  if a = 0 ∨ b = 0 then 0
  else
    let i := gflog a + gflog b
    gff (if i > 254 then i - 255 else i)

/-- `gf_inv`. -/
def gfInv (a : Gf256) : Gf256 :=
  if a = 0 then 0 else gff (255 - gflog a)

/-! ## The additive group -/

theorem ext_byte {a b : Gf256} (h : a.byte = b.byte) : a = b := by
  cases a
  cases b
  exact congrArg mk h

instance : Neg Gf256 := ⟨fun a => a⟩

instance : AddCommGroup Gf256 where
  add_assoc a b c := ext_byte (UInt8.xor_assoc _ _ _)
  zero_add a := ext_byte UInt8.zero_xor
  add_zero a := ext_byte UInt8.xor_zero
  add_comm a b := ext_byte (UInt8.xor_comm _ _)
  neg_add_cancel a := ext_byte UInt8.xor_self
  nsmul := nsmulRec
  zsmul := zsmulRec

/-- Doubling.  The bit shifted out stands for `x^8`, which is `x^4 + x^3 + x^2 + 1`. -/
def doubled (b : UInt8) : UInt8 :=
  let top := b >>> 7
  (b <<< 1) ^^^ (top ^^^ (top <<< 2) ^^^ (top <<< 3) ^^^ (top <<< 4))

theorem doubled_xor (a b : UInt8) : doubled (a ^^^ b) = doubled a ^^^ doubled b := by
  simp only [doubled, UInt8.shiftLeft_xor, UInt8.shiftRight_xor]
  ac_rfl

/-- Doubling as an additive map. -/
def double : Gf256 →+ Gf256 where
  toFun a := ⟨doubled a.byte⟩
  map_zero' := rfl
  map_add' a b := ext_byte (doubled_xor a.byte b.byte)

/-! ## The tables -/

/-- Each entry of `gff_base` is the double of the one before it. -/
theorem gffBase_tail : gffBase.tail = gffBase.dropLast.map doubled := by
  decide +kernel

/-- Each entry of `gflog_base` but the first finds its byte in `gff_base`. -/
theorem gflogBase_tail :
    gflogBase.tail.map (fun l => gffBase.getD l.toNat 0) =
      (List.range' 1 255).map UInt8.ofNat := by
  decide +kernel

variable {a b c : Gf256} {i : Nat}

theorem gff_succ (h : i < 255) : gff (i + 1) = double (gff i) := by
  have hlen : gffBase.length = 256 := by decide +kernel
  have hentry : gffBase[i + 1]? = gffBase[i]?.map doubled := by
    rw [← List.getElem?_tail, gffBase_tail, List.getElem?_map, List.getElem?_dropLast,
      if_pos (by omega)]
  have hsome : gffBase[i]? = some (gffBase[i]?.getD 0) := by
    rw [List.getElem?_eq_getElem (by omega), Option.getD_some]
  apply ext_byte
  show gffBase.getD (i + 1) 0 = doubled (gffBase.getD i 0)
  rw [List.getD_eq_getElem?_getD, List.getD_eq_getElem?_getD, hentry, hsome, Option.map_some,
    Option.getD_some, Option.getD_some]

theorem gff_gflog (h : a ≠ 0) : gff (gflog a) = a := by
  obtain ⟨n, hn⟩ : ∃ n, a.byte.toNat = n + 1 := by
    refine Nat.exists_eq_succ_of_ne_zero fun hzero => h (ext_byte (UInt8.toNat_inj.mp hzero))
  have hlt := a.byte.toNat_lt
  have hlen : gflogBase.length = 256 := by decide +kernel
  have hentry : gflogBase[n + 1]?.map (fun l => gffBase.getD l.toNat 0) =
      some (UInt8.ofNat (1 + n)) := by
    rw [← List.getElem?_tail, ← List.getElem?_map, gflogBase_tail, List.getElem?_map,
      List.getElem?_range' (by omega), Nat.one_mul, Option.map_some]
  have hsome : gflogBase[n + 1]? = some (gflogBase[n + 1]?.getD 0) := by
    rw [List.getElem?_eq_getElem (by omega), Option.getD_some]
  rw [hsome, Option.map_some] at hentry
  apply ext_byte
  show gffBase.getD (gflogBase.getD a.byte.toNat 0).toNat 0 = a.byte
  rw [List.getD_eq_getElem?_getD (l := gflogBase), hn, Option.some.inj hentry, Nat.add_comm, ← hn,
    UInt8.ofNat_toNat]

theorem gflog_le : gflog a ≤ 255 := by
  have := (gflogBase.getD a.byte.toNat 0).toNat_lt
  rw [gflog]
  omega

theorem gff_eq (h : i ≤ 255) : gff i = double^[i] 1 := by
  induction i with
  | zero => rfl
  | succ i ih => rw [gff_succ (by omega), ih (by omega), Function.iterate_succ_apply']

/-- What the tables hold. -/
def powers : Powers Gf256 where
  step := double
  one := 1
  log := gflog
  period := 255
  period_pos := by decide
  one_ne := by decide
  step_period := (gff_eq (Nat.le_refl 255)).symm
  log_le _ := gflog_le
  step_log a h := by rw [← gff_eq gflog_le, gff_gflog h]

theorem gff_eq_exp (h : i ≤ 255) : gff i = powers.exp i := gff_eq h

theorem gfMul_eq : gfMul a b = powers.mul a b := by
  have ha : gflog a ≤ 255 := gflog_le
  have hb : gflog b ≤ 255 := gflog_le
  rw [gfMul, Powers.mul]
  split
  · rfl
  · show gff (if gflog a + gflog b > 254 then _ else _) = powers.exp (gflog a + gflog b)
    split
    · have hturn : gflog a + gflog b = gflog a + gflog b - 255 + powers.period := by
        show _ = _ + 255
        omega
      rw [gff_eq_exp (by omega), hturn, Powers.exp_period, ← hturn]
    · exact gff_eq_exp (by omega)

theorem gfInv_eq : gfInv a = powers.inv a := by
  rw [gfInv, Powers.inv]
  split
  · rfl
  · exact gff_eq_exp (by omega)

/-! ## The field -/

instance : Mul Gf256 := ⟨gfMul⟩

instance : Inv Gf256 := ⟨gfInv⟩

theorem mul_eq : a * b = powers.mul a b := gfMul_eq

theorem inv_eq : a⁻¹ = powers.inv a := gfInv_eq

instance : CommRing Gf256 where
  mul_assoc a b c := by simp only [mul_eq, Powers.mul_assoc]
  one_mul a := by
    rw [mul_eq]
    exact Powers.one_mul
  mul_one a := by
    rw [mul_eq, Powers.mul_comm]
    exact Powers.one_mul
  mul_comm a b := by rw [mul_eq, mul_eq, Powers.mul_comm]
  zero_mul a := by rw [mul_eq, Powers.zero_mul]
  mul_zero a := by rw [mul_eq, Powers.mul_zero]
  right_distrib a b c := by simp only [mul_eq, Powers.add_mul]
  left_distrib a b c := by
    rw [mul_eq, mul_eq, mul_eq, Powers.mul_comm, Powers.add_mul, Powers.mul_comm,
      Powers.mul_comm (b := a)]
  neg_add_cancel := neg_add_cancel
  zsmul := zsmulRec

instance : Field Gf256 where
  exists_pair_ne := ⟨0, 1, by decide⟩
  mul_inv_cancel a h := by
    rw [mul_eq, inv_eq]
    exact Powers.mul_inv h
  inv_zero := rfl
  nnqsmul := _
  qsmul := _

/-- Exclusive or undoes itself. -/
theorem add_self (a : Gf256) : a + a = 0 := ext_byte UInt8.xor_self

end Gf256

end Hydra.Coding
