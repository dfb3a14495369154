/-
  DataPath/Twister.lean --- the numbers faults are drawn from.

  Source: `init_genrand64` and `genrand64_uint64` of `resilience_manager/mt19937-64.c`.

  The generator keeps 312 words and replaces them all at once.  Its `n`-th output is the
  tempered word `312 + n` of one recurrence, and tempering loses nothing, so 312 outputs
  in a row decide all later ones.
-/
import Mathlib.Data.List.Basic
import Mathlib.Logic.Function.Iterate
import Hydra.Foundation.Lagged

set_option autoImplicit false

namespace Hydra.DataPath

open Hydra.Foundation

/-! ## The generator -/

/-- `MT19937_64_NN`. -/
def nn : Nat := 312

/-- `MT19937_64_MM`. -/
def mm : Nat := 156

/-- `MTRand64`; `mt` has `MT19937_64_NN` entries. -/
structure MTRand64 where
  mt : Nat → UInt64
  mti : Nat

/-- The word after `x` in `init_genrand64`, at index `i`. -/
def seedNext (x : UInt64) (i : Nat) : UInt64 :=
  (6364136223846793005 : UInt64) * (x ^^^ (x >>> 62)) + UInt64.ofNat i

/-- `init_genrand64`. -/
def initGenrand64 (rand : MTRand64) (seed : UInt64) : MTRand64 where
  mt := (List.range' 1 (nn - 1)).foldl
    (fun mt i => Function.update mt i (seedNext (mt (i - 1)) i)) (Function.update rand.mt 0 seed)
  mti := nn

/-- `mag01[(int)(x&1ULL)]`. -/
def mag01 (x : UInt64) : UInt64 := if x &&& 1 = 0 then 0 else 0xB5026F5AA96619E9

/-- The new word: `c ^ (x>>1) ^ mag01[x&1]`, where `x` has the top 33 bits of `a` and the
low 31 bits of `b`. -/
def twisted (a b c : UInt64) : UInt64 :=
  let x := (a &&& 0xFFFFFFFF80000000) ||| (b &&& 0x7FFFFFFF)
  c ^^^ (x >>> 1) ^^^ mag01 x

/-- "generate MT19937_64_NN words at one time". -/
def generateWords (mt : Nat → UInt64) : Nat → UInt64 :=
  let mt := (List.range (nn - mm)).foldl
    (fun mt i => Function.update mt i (twisted (mt i) (mt (i + 1)) (mt (i + mm)))) mt
  let mt := (List.range' (nn - mm) (mm - 1)).foldl
    (fun mt i => Function.update mt i (twisted (mt i) (mt (i + 1)) (mt (i + mm - nn)))) mt
  Function.update mt (nn - 1) (twisted (mt (nn - 1)) (mt 0) (mt (mm - 1)))

/-- The last lines of `genrand64_uint64`. -/
def temper (x : UInt64) : UInt64 :=
  let x := x ^^^ ((x >>> 29) &&& 0x5555555555555555)
  let x := x ^^^ ((x <<< 17) &&& 0x71D67FFFEDA60000)
  let x := x ^^^ ((x <<< 37) &&& 0xFFF7EEE000000000)
  x ^^^ (x >>> 43)

/-- `genrand64_uint64`. -/
def genrand64Uint64 (rand : MTRand64) : UInt64 × MTRand64 :=
  let rand :=
    if rand.mti ≥ nn then
      let rand := if rand.mti = nn + 1 then initGenrand64 rand 4357 else rand
      ⟨generateWords rand.mt, 0⟩
    else rand
  (temper (rand.mt rand.mti), { rand with mti := rand.mti + 1 })

/-- The state after `n` calls. -/
def afterDraws (rand : MTRand64) (n : Nat) : MTRand64 :=
  (fun rand => (genrand64Uint64 rand).2)^[n] rand

/-- The `n`-th output, from 0 on. -/
def nthDraw (rand : MTRand64) (n : Nat) : UInt64 := (genrand64Uint64 (afterDraws rand n)).1

/-! ## The recurrence -/

/-- The lags of the generator. -/
def lag : Lag where
  size := nn
  middle := mm
  middle_pos := Nat.zero_lt_succ 155
  middle_lt := Nat.lt_of_sub_pos (Nat.zero_lt_succ 155)

/-- The words that `init_genrand64` sets. -/
def seedWord (seed : UInt64) : Nat → UInt64
  | 0 => seed
  | i + 1 => seedNext (seedWord seed i) (i + 1)

/-- All words of the generator. -/
def twisterWord (seed : UInt64) : Nat → UInt64 := lag.run twisted (seedWord seed)

theorem twisterWord_recurs (seed : UInt64) : lag.Recurs twisted (twisterWord seed) :=
  Lag.run_recurs (seedWord seed)

theorem initGenrand64_mt (rand : MTRand64) (seed : UInt64) {i : Nat} (hi : i < nn) :
    (initGenrand64 rand seed).mt i = seedWord seed i := by
  have hrun : ∀ n, ∀ j ≤ n, (List.range' 1 n).foldl
      (fun mt i => Function.update mt i (seedNext (mt (i - 1)) i))
      (Function.update rand.mt 0 seed) j = seedWord seed j := by
    intro n
    induction n with
    | zero =>
        intro j hj
        obtain rfl := Nat.le_zero.mp hj
        exact Function.update_self ..
    | succ n ih =>
        intro j hj
        rw [List.range'_1_concat, List.foldl_append, List.foldl_cons, List.foldl_nil,
          Nat.add_sub_cancel_left, ih n (Nat.le_refl n), Nat.add_comm 1 n]
        by_cases hlast : j = n + 1
        · rw [hlast, Function.update_self, seedWord]
        · rw [Function.update_of_ne hlast]
          exact ih j (by omega)
  have hall := hrun (nn - 1) i (Nat.le_sub_one_of_lt hi)
  simpa only [initGenrand64] using hall

/-- The three loops are one pass over the table. -/
theorem generateWords_eq (mt : Nat → UInt64) : generateWords mt = lag.regenerate twisted mt := by
  have hsplit : ∀ a b,
      List.range (a + b + 1) = List.range a ++ (List.range' a b ++ [a + b]) := by
    intro a b
    rw [List.range_succ, List.range_add, List.append_assoc, List.range'_eq_map_range]
  have hfirst : ∀ mt, (List.range 156).foldl (lag.replace twisted) mt =
      (List.range 156).foldl
        (fun mt i => Function.update mt i (twisted (mt i) (mt (i + 1)) (mt (i + mm)))) mt := by
    intro mt
    refine List.foldl_ext _ _ _ fun mt i hi => ?_
    have hi := List.mem_range.mp hi
    have hnext : (i + 1) % 312 = i + 1 := by omega
    have hmiddle : (i + 156) % 312 = i + 156 := by omega
    show Function.update mt i (twisted (mt i) (mt ((i + 1) % 312)) (mt ((i + 156) % 312))) = _
    rw [hnext, hmiddle]
    rfl
  have hsecond : ∀ mt, (List.range' 156 155).foldl (lag.replace twisted) mt =
      (List.range' 156 155).foldl
        (fun mt i => Function.update mt i (twisted (mt i) (mt (i + 1)) (mt (i + mm - nn)))) mt := by
    intro mt
    refine List.foldl_ext _ _ _ fun mt i hi => ?_
    have hi := List.mem_range'_1.mp hi
    have hnext : (i + 1) % 312 = i + 1 := by omega
    have hmiddle : (i + 156) % 312 = i + 156 - 312 := by omega
    show Function.update mt i (twisted (mt i) (mt ((i + 1) % 312)) (mt ((i + 156) % 312))) = _
    rw [hnext, hmiddle]
    rfl
  have hlast : ∀ mt, lag.replace twisted mt (156 + 155) =
      Function.update mt (nn - 1) (twisted (mt (nn - 1)) (mt 0) (mt (mm - 1))) := fun mt => rfl
  rw [Lag.regenerate, show lag.size = 156 + 155 + 1 from rfl, hsplit, List.foldl_append,
    List.foldl_append, List.foldl_cons, List.foldl_nil, hfirst, hsecond, hlast]
  rfl

/-! ## Outputs -/

section Outputs

variable {seed : UInt64} {b : Nat} {rand : MTRand64}

/-- A call gives the next word and keeps the table. -/
theorem genrand64Uint64_spec (h : lag.Holds (twisterWord seed) b rand.mt) (hmti : rand.mti ≤ nn) :
    (genrand64Uint64 rand).1 = temper (twisterWord seed (b + rand.mti)) ∧
      ∃ b', lag.Holds (twisterWord seed) b' (genrand64Uint64 rand).2.mt ∧
        b' + (genrand64Uint64 rand).2.mti = b + rand.mti + 1 ∧
        (genrand64Uint64 rand).2.mti ≤ nn := by
  by_cases hfull : rand.mti ≥ nn
  · obtain hmti : rand.mti = nn := by omega
    have hnext := Lag.regenerate_eq (twisterWord_recurs seed) h
    rw [← generateWords_eq] at hnext
    have hsize : lag.size = nn := rfl
    have hcall : genrand64Uint64 rand =
        (temper (generateWords rand.mt 0), ⟨generateWords rand.mt, 1⟩) := by
      rw [genrand64Uint64, if_pos hfull, if_neg (by omega)]
    rw [hcall, hmti]
    refine ⟨congrArg temper ?_, b + lag.size, hnext, ?_, Nat.succ_le_succ (Nat.zero_le 311)⟩
    · exact hnext 0 (Nat.succ_pos 311)
    · rw [hsize]
  · simp only [genrand64Uint64, if_neg hfull]
    exact ⟨congrArg temper (h _ (by
      show rand.mti < nn
      omega)), b, h, by omega, by omega⟩

theorem afterDraws_spec (rand : MTRand64) (seed : UInt64) (n : Nat) :
    ∃ b, lag.Holds (twisterWord seed) b (afterDraws (initGenrand64 rand seed) n).mt ∧
      b + (afterDraws (initGenrand64 rand seed) n).mti = nn + n ∧
      (afterDraws (initGenrand64 rand seed) n).mti ≤ nn := by
  induction n with
  | zero =>
      refine ⟨0, fun j hj => ?_, by simp [afterDraws, initGenrand64], Nat.le_refl nn⟩
      rw [Nat.zero_add, twisterWord, Lag.run_of_lt hj]
      exact initGenrand64_mt rand seed hj
  | succ n ih =>
      obtain ⟨b, hholds, hpos, hmti⟩ := ih
      obtain ⟨-, b', hholds', hpos', hmti'⟩ := genrand64Uint64_spec hholds hmti
      rw [afterDraws, Function.iterate_succ_apply', ← afterDraws]
      exact ⟨b', hholds', by omega, hmti'⟩

theorem nthDraw_eq (rand : MTRand64) (seed : UInt64) (n : Nat) :
    nthDraw (initGenrand64 rand seed) n = temper (twisterWord seed (nn + n)) := by
  obtain ⟨b, hholds, hpos, hmti⟩ := afterDraws_spec rand seed n
  rw [nthDraw, (genrand64Uint64_spec hholds hmti).1, hpos]

/-- A generator that was never seeded takes the default seed at its first call. -/
theorem genrand64Uint64_default (hmti : rand.mti = nn + 1) :
    genrand64Uint64 rand = genrand64Uint64 (initGenrand64 rand 4357) := by
  have hseeded : (initGenrand64 rand 4357).mti = nn := rfl
  rw [genrand64Uint64, genrand64Uint64, if_pos (by omega), if_pos hmti, if_pos (by omega),
    if_neg (by omega)]

theorem nthDraw_default (hmti : rand.mti = nn + 1) (n : Nat) :
    nthDraw rand n = nthDraw (initGenrand64 rand 4357) n := by
  cases n with
  | zero => exact congrArg Prod.fst (genrand64Uint64_default hmti)
  | succ n =>
      rw [nthDraw, nthDraw, afterDraws, afterDraws, Function.iterate_succ_apply,
        Function.iterate_succ_apply, genrand64Uint64_default hmti]

/-- Tempering loses nothing. -/
theorem injective_temper : Function.Injective temper := by
  intro x y h
  have hbits : (temper x).toBitVec = (temper y).toBitVec := congrArg UInt64.toBitVec h
  have hlast : ∀ z : BitVec 64, z ^^^ (z >>> 43) = z ^^^ ((z >>> 43) &&& BitVec.allOnes 64) := by
    intro z
    rw [BitVec.and_allOnes]
  apply UInt64.toBitVec_inj.mp
  apply injective_xor_ushiftRight 0x5555555555555555#64 (show 0 < 29 by omega)
  apply injective_xor_shiftLeft 0x71D67FFFEDA60000#64 (show 0 < 17 by omega)
  apply injective_xor_shiftLeft 0xFFF7EEE000000000#64 (show 0 < 37 by omega)
  apply injective_xor_ushiftRight (BitVec.allOnes 64) (show 0 < 43 by omega)
  simp only [← hlast]
  exact hbits

end Outputs

/-- Call after call, a generator gives the tempered words of one recurrence: from the seed
it was given, or from the default one if it was given none. -/
theorem draws_follow_recurrence (rand : MTRand64) (seed : UInt64) :
    lag.Recurs twisted (twisterWord seed) ∧
      (∀ n, nthDraw (initGenrand64 rand seed) n = temper (twisterWord seed (nn + n))) ∧
      (rand.mti = nn + 1 → ∀ n, nthDraw rand n = temper (twisterWord 4357 (nn + n))) := by
  refine ⟨twisterWord_recurs seed, nthDraw_eq rand seed, fun hmti n => ?_⟩
  rw [nthDraw_default hmti, nthDraw_eq]

/-- A table as a module that never seeded it would have it. -/
def unseeded : MTRand64 := ⟨fun _ => 0, nn + 1⟩

theorem draws_follow_recurrence_unseeded :
    nthDraw (initGenrand64 unseeded 1) 1000 = temper (twisterWord 1 1312) ∧
      nthDraw unseeded 1000 = temper (twisterWord 4357 1312) := by
  obtain ⟨-, hseeded, hdefault⟩ := draws_follow_recurrence unseeded 1
  exact ⟨hseeded 1000, hdefault rfl 1000⟩

/-- Two generators that give the same 312 numbers in a row, whatever their seeds and
however far they have come, give the same numbers for ever. -/
theorem same_stretch_same_draws (rand rand' : MTRand64) (seed seed' : UInt64) {p q : Nat}
    (h : ∀ i < nn, nthDraw (initGenrand64 rand seed) (p + i) =
      nthDraw (initGenrand64 rand' seed') (q + i)) (i : Nat) :
    nthDraw (initGenrand64 rand seed) (p + i) = nthDraw (initGenrand64 rand' seed') (q + i) := by
  have hwords : ∀ i < nn,
      twisterWord seed (nn + p + i) = twisterWord seed' (nn + q + i) := by
    intro i hi
    have hi := h i hi
    rw [nthDraw_eq, nthDraw_eq] at hi
    rw [Nat.add_assoc, Nat.add_assoc]
    exact injective_temper hi
  have hlater := (twisterWord_recurs seed).agree (twisterWord_recurs seed') hwords i
  rw [nthDraw_eq, nthDraw_eq, ← Nat.add_assoc, ← Nat.add_assoc]
  exact congrArg temper hlater

/-- What was in the table before it was seeded does not matter. -/
theorem same_stretch_same_draws_reseeded :
    nthDraw (initGenrand64 unseeded 1) 1000 =
      nthDraw (initGenrand64 ⟨fun i => UInt64.ofNat i, 7⟩ 1) 1000 := by
  refine same_stretch_same_draws _ _ 1 1 (p := 40) (q := 40) (fun i _ => ?_) 960
  rw [nthDraw_eq, nthDraw_eq]

end Hydra.DataPath
