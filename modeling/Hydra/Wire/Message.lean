import Mathlib.Data.UInt
import Mathlib.Logic.Function.Basic
import Mathlib.Tactic.IntervalCases

set_option autoImplicit false

/-!
# Wire: the control message between manager and monitor

`struct IS_rdma_info` of `infiniswap.h` and `struct message` of `rdma-common.h`
are the same layout: an address and a key per chunk, a size and a type.  Both
programs index the two arrays by chunk number, and both set `MAX_MR_SIZE_GB` to 32;
the monitor's `MAX_FREE_MEM_GB` is 32 as well and bounds loops over the same arrays.
-/

namespace Hydra.Wire

/-- `MAX_MR_SIZE_GB`, and `MAX_FREE_MEM_GB` on the monitor. -/
def maxMrSizeGb : Nat := 32

instance : NeZero maxMrSizeGb := ⟨by decide⟩

/-- The number of a one-gigabyte chunk of one monitor. -/
abbrev ChunkIx := Fin maxMrSizeGb

/-- The message types, in the order of the two `enum`s. -/
inductive MsgType where
  | done | info | infoSingle | freeSize | evict | activity | stop
  | bind | bindSingle | query | fault | faultDone
  deriving DecidableEq, Repr

/-- One control message. -/
structure Message where
  buf : ChunkIx → UInt64
  rkey : ChunkIx → UInt32
  sizeGb : Int
  type : MsgType

/-- A message that carries nothing but its type and size. -/
def Message.plain (type : MsgType) (sizeGb : Int) : Message :=
  { buf := fun _ => 0, rkey := fun _ => 0, sizeGb := sizeGb, type := type }

/-- The entries of a message whose key is set. -/
def Message.flagged (msg : Message) (i : ChunkIx) : Bool := msg.rkey i != 0

@[simp] theorem Message.flagged_eq_true {msg : Message} {i : ChunkIx} :
    msg.flagged i = true ↔ msg.rkey i ≠ 0 := by
  simp [Message.flagged]

/-! ## Byte order

Both hosts are little endian, so `htonl` and `ntohl` reverse four bytes. -/

/-- `htonl` and `ntohl` on a little-endian host. -/
def htonl (x : UInt32) : UInt32 :=
  ((x &&& 0xff) <<< 24) ||| (((x >>> 8) &&& 0xff) <<< 16) |||
    (((x >>> 16) &&& 0xff) <<< 8) ||| ((x >>> 24) &&& 0xff)

theorem htonl_eq_zero {x : UInt32} (h : htonl x = 0) : x = 0 := by
  unfold htonl at h
  simp only [UInt32.or_eq_zero_iff] at h
  obtain ⟨⟨⟨h₀, h₁⟩, h₂⟩, h₃⟩ := h
  have hmask : ∀ n : Nat, n &&& 255 = n % 256 := fun n => Nat.and_two_pow_sub_one_eq_mod n 8
  have h₀ := congrArg UInt32.toNat h₀
  have h₁ := congrArg UInt32.toNat h₁
  have h₂ := congrArg UInt32.toNat h₂
  have h₃ := congrArg UInt32.toNat h₃
  simp [Nat.shiftLeft_eq, Nat.shiftRight_eq_div_pow, hmask] at h₀ h₁ h₂ h₃
  have hlt := x.toNat_lt
  apply UInt32.toNat_inj.mp
  change x.toNat = 0
  omega

/-- `ntohl` undoes `htonl`. -/
theorem htonl_htonl (x : UInt32) : htonl (htonl x) = x := by
  apply UInt32.eq_of_toBitVec_eq
  apply BitVec.eq_of_getLsbD_eq
  intro i hi
  simp only [htonl, UInt32.toBitVec_or, UInt32.toBitVec_and, UInt32.toBitVec_shiftLeft,
    UInt32.toBitVec_shiftRight]
  interval_cases i <;> simp

/-- `htonll` of `rdma-common.c`. -/
def htonll (value : UInt64) : UInt64 :=
  ((htonl (value &&& 0xFFFFFFFF).toUInt32).toUInt64 <<< 32) |||
    (htonl (value >>> 32).toUInt32).toUInt64

/-- The macro `ntohll` of both headers. -/
def ntohll (x : UInt64) : UInt64 :=
  ((htonl ((x <<< 32) >>> 32).toUInt32).toUInt64 <<< 32) |||
    (htonl (x >>> 32).toUInt32).toUInt64

section Words

variable (u v : UInt32)

theorem toUInt32_lower : (((u.toUInt64 <<< 32 ||| v.toUInt64) <<< 32) >>> 32).toUInt32 = v := by
  apply UInt32.eq_of_toBitVec_eq
  apply BitVec.eq_of_getLsbD_eq
  intro i hi
  have h₁ : i < 64 := by omega
  have h₂ : 32 + i < 64 := by omega
  simp [hi, h₁, h₂]

theorem toUInt32_upper : ((u.toUInt64 <<< 32 ||| v.toUInt64) >>> 32).toUInt32 = u := by
  apply UInt32.eq_of_toBitVec_eq
  apply BitVec.eq_of_getLsbD_eq
  intro i hi
  have h₁ : i < 64 := by omega
  have h₂ : 32 + i < 64 := by omega
  simp [hi, h₁, h₂]

end Words

theorem upper_or_lower (x : UInt64) :
    ((x >>> 32).toUInt32.toUInt64 <<< 32) ||| (x &&& 0xFFFFFFFF).toUInt32.toUInt64 = x := by
  apply UInt64.toNat_inj.mp
  have hx := x.toNat_lt
  have hupper : x.toNat / 2 ^ 32 < 2 ^ 32 := by omega
  have hlower : x.toNat % 2 ^ 32 < 2 ^ 32 := Nat.mod_lt _ (by decide)
  have hmask : x.toNat % 2 ^ 32 &&& 2 ^ 32 - 1 = x.toNat % 2 ^ 32 := by
    rw [Nat.and_two_pow_sub_one_eq_mod, Nat.mod_mod]
  have hnat : ((x >>> 32).toUInt32.toUInt64 <<< 32 |||
      (x &&& 0xFFFFFFFF).toUInt32.toUInt64).toNat =
      ((x.toNat / 2 ^ 32 % 2 ^ 32) <<< 32 % 2 ^ 64 ||| (x.toNat % 2 ^ 32 &&& 2 ^ 32 - 1)) := by
    simp [Nat.shiftRight_eq_div_pow]
  rw [hnat, hmask, Nat.mod_eq_of_lt hupper, Nat.mod_eq_of_lt (by rw [Nat.shiftLeft_eq]; omega),
    ← Nat.shiftLeft_add_eq_or_of_lt hlower, Nat.shiftLeft_eq]
  omega

/-- The macro undoes the function of the other program. -/
theorem ntohll_htonll (x : UInt64) : ntohll (htonll x) = x := by
  rw [ntohll, htonll, toUInt32_lower, toUInt32_upper, htonl_htonl, htonl_htonl, upper_or_lower]

/-- What `ibv_reg_mr` hands out for a chunk. -/
structure Mr where
  addr : UInt64
  rkey : UInt32
  deriving DecidableEq, Repr

end Hydra.Wire
