import Mathlib.Algebra.Group.Nat.Defs
import Mathlib.Data.Nat.Basic
import Mathlib.Data.List.Range

set_option autoImplicit false

/-!
# Foundation: words and structures in byte memory

A memory is a function from addresses to bytes, a word is its bytes from the least
significant one on, and a C structure places its members one after the other, each at a
multiple of its alignment.

`load_store` and `load_store_of_apart` are the two rules for a store: what was stored is
loaded, and what is elsewhere is not touched.
-/

namespace Hydra.Foundation

/-! ## Words -/

/-- The bytes of a word of `n` bytes. -/
def toBytes : Nat → Nat → List UInt8
  | 0, _ => []
  | n + 1, x => UInt8.ofNat x :: toBytes n (x / 256)

/-- The word with the given bytes. -/
def ofBytes : List UInt8 → Nat
  | [] => 0
  | b :: bs => b.toNat + 256 * ofBytes bs

@[simp] theorem length_toBytes (n x : Nat) : (toBytes n x).length = n := by
  induction n generalizing x with
  | zero => rfl
  | succ n ih => rw [toBytes, List.length_cons, ih]

theorem ofBytes_toBytes {n x : Nat} (hx : x < 256 ^ n) : ofBytes (toBytes n x) = x := by
  induction n generalizing x with
  | zero =>
      rw [Nat.pow_zero] at hx
      exact (Nat.lt_one_iff.mp hx).symm
  | succ n ih =>
      have hdiv : x / 256 < 256 ^ n := Nat.div_lt_of_lt_mul (by rwa [Nat.mul_comm, ← Nat.pow_succ])
      rw [toBytes, ofBytes, ih hdiv, UInt8.toNat_ofNat']
      exact Nat.mod_add_div x 256

theorem toBytes_ofBytes (bs : List UInt8) : toBytes bs.length (ofBytes bs) = bs := by
  induction bs with
  | nil => rfl
  | cons b bs ih =>
      have hb := b.toNat_lt
      have hdiv : (b.toNat + 256 * ofBytes bs) / 256 = ofBytes bs := by omega
      have hmod : UInt8.ofNat (b.toNat + 256 * ofBytes bs) = b := by
        apply UInt8.toNat_inj.mp
        rw [UInt8.toNat_ofNat']
        omega
      rw [List.length_cons, ofBytes, toBytes, hdiv, hmod, ih]

theorem ofBytes_inj {as bs : List UInt8} (hlen : as.length = bs.length)
    (h : ofBytes as = ofBytes bs) : as = bs := by
  rw [← toBytes_ofBytes as, ← toBytes_ofBytes bs, hlen, h]

theorem ofBytes_lt (bs : List UInt8) : ofBytes bs < 256 ^ bs.length := by
  induction bs with
  | nil => exact Nat.one_pos
  | cons b bs ih =>
      have hb := b.toNat_lt
      rw [ofBytes, List.length_cons, Nat.pow_succ]
      omega

theorem eq_of_ofNat32_eq {x y : Nat} (hx : x < 256 ^ 4) (hy : y < 256 ^ 4)
    (h : UInt32.ofNat x = UInt32.ofNat y) : x = y := by
  have hnat := congrArg UInt32.toNat h
  rwa [UInt32.toNat_ofNat_of_lt' hx, UInt32.toNat_ofNat_of_lt' hy] at hnat

theorem eq_of_ofNat64_eq {x y : Nat} (hx : x < 256 ^ 8) (hy : y < 256 ^ 8)
    (h : UInt64.ofNat x = UInt64.ofNat y) : x = y := by
  have hnat := congrArg UInt64.toNat h
  rwa [UInt64.toNat_ofNat_of_lt' hx, UInt64.toNat_ofNat_of_lt' hy] at hnat

/-! ## Memory -/

/-- `n` bytes from address `a` on. -/
def load (mem : Nat → UInt8) (a n : Nat) : List UInt8 := (List.range n).map fun i => mem (a + i)

/-- Bytes put at address `a`. -/
def store (mem : Nat → UInt8) (a : Nat) (bs : List UInt8) : Nat → UInt8 := fun k =>
  if a ≤ k then bs.getD (k - a) (mem k) else mem k

variable {mem mem' : Nat → UInt8} {a b n : Nat} {bs : List UInt8}

@[simp] theorem length_load : (load mem a n).length = n := by
  rw [load, List.length_map, List.length_range]

theorem load_congr (h : ∀ i < n, mem (a + i) = mem' (b + i)) : load mem a n = load mem' b n :=
  List.map_congr_left fun i hi => h i (List.mem_range.mp hi)

theorem eq_of_load_eq (h : load mem a n = load mem' b n) {i : Nat} (hi : i < n) :
    mem (a + i) = mem' (b + i) :=
  List.map_inj_left.mp h i (List.mem_range.mpr hi)

theorem store_apply_of_lt {i : Nat} (hi : i < bs.length) : store mem a bs (a + i) = bs[i] := by
  rw [store, if_pos (Nat.le_add_right a i), Nat.add_sub_cancel_left, List.getD_eq_getElem?_getD,
    List.getElem?_eq_getElem hi]
  rfl

theorem store_apply_of_apart {k : Nat} (hk : k < a ∨ a + bs.length ≤ k) :
    store mem a bs k = mem k := by
  rw [store]
  split
  · rw [List.getD_eq_getElem?_getD, List.getElem?_eq_none (by omega)]
    rfl
  · rfl

/-- What was stored is loaded. -/
theorem load_store : load (store mem a bs) a bs.length = bs := by
  refine List.ext_getElem (by simp) fun i hi hi' => ?_
  simp only [load, List.getElem_map, List.getElem_range]
  exact store_apply_of_lt hi'

/-- A store does not touch what is elsewhere. -/
theorem load_store_of_apart (h : b + n ≤ a ∨ a + bs.length ≤ b) :
    load (store mem a bs) b n = load mem b n :=
  load_congr fun i hi => store_apply_of_apart (by omega)

/-- A copied block reads as the original. -/
theorem load_store_load {i m : Nat} (h : i + m ≤ n) :
    load (store mem' b (load mem a n)) (b + i) m = load mem (a + i) m := by
  refine load_congr fun j hj => ?_
  have hlt : i + j < (load mem a n).length := by
    rw [length_load]
    omega
  rw [Nat.add_assoc, Nat.add_assoc, store_apply_of_lt hlt]
  simp [load]

/-! ## Structures -/

/-- A member: an array of `count` elements. -/
structure Member where
  size : Nat
  align : Nat
  count : Nat

/-- The next multiple of an alignment. -/
def alignUp (align x : Nat) : Nat := (x + align - 1) / align * align

/-- Where the members of a structure begin, from offset `x` on, and where the last ends. -/
def offsets {F : Type*} : Nat → List (F × Member) → List (F × Nat) × Nat
  | x, [] => ([], x)
  | x, (f, m) :: rest =>
      let here := alignUp m.align x
      let out := offsets (here + m.size * m.count) rest
      ((f, here) :: out.1, out.2)

/-- `offsetof`. -/
def offsetOf {F : Type*} [DecidableEq F] (members : List (F × Member)) (f : F) : Nat :=
  (((offsets 0 members).1.find? fun o => decide (o.1 = f)).map Prod.snd).getD 0

/-- `sizeof`: a multiple of every alignment. -/
def structSize {F : Type*} (members : List (F × Member)) : Nat :=
  alignUp (members.foldl (fun n m => max n m.2.align) 1) (offsets 0 members).2

end Hydra.Foundation
