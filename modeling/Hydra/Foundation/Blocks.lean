import Mathlib.Data.List.Nodup
import Mathlib.Logic.Nontrivial.Basic
import Mathlib.Tactic.Ring

set_option autoImplicit false

/-!
# Foundation: copying a list of blocks

Memory is a function from addresses to bytes, of any type.  `gatherBlocks` copies a
block of fixed width from each of some addresses into consecutive places of a buffer,
and `scatterBlocks` copies consecutive places of a buffer to the addresses.

What is to be copied is a list of addresses, byte by byte.  `gatherBlocks` is right
when the list is in blocks (`Strided`), and `scatterBlocks` when besides it has no
repetitions and as many blocks as there are addresses to copy to.
-/

namespace Hydra.Foundation

variable {α : Type*}

/-- `memcpy(mem + dst, src, n)`. -/
def copyTo (mem : Nat → α) (dst n : Nat) (src : Nat → α) : Nat → α :=
  fun a => if dst ≤ a ∧ a < dst + n then src (a - dst) else mem a

theorem copyTo_congr {mem src src' : Nat → α} {dst n : Nat} (h : ∀ y < n, src y = src' y) :
    copyTo mem dst n src = copyTo mem dst n src' := by
  funext a
  by_cases hin : dst ≤ a ∧ a < dst + n
  · rw [copyTo, copyTo, if_pos hin, if_pos hin, h _ (by omega)]
  · rw [copyTo, copyTo, if_neg hin, if_neg hin]

theorem copyTo_zero (mem src : Nat → α) (dst : Nat) : copyTo mem dst 0 src = mem := by
  funext a
  rw [copyTo, if_neg (by omega)]

/-- A copy in two parts. -/
theorem copyTo_add (mem src : Nat → α) (dst m n : Nat) :
    copyTo (copyTo mem dst m src) (dst + m) n (fun y => src (m + y)) =
      copyTo mem dst (m + n) src := by
  funext a
  by_cases hsecond : dst + m ≤ a ∧ a < dst + m + n
  · rw [copyTo, if_pos hsecond, copyTo, if_pos (by omega)]
    congr 1
    omega
  · rw [copyTo, if_neg hsecond]
    by_cases hfirst : dst ≤ a ∧ a < dst + m
    · rw [copyTo, copyTo, if_pos hfirst, if_pos (by omega)]
    · rw [copyTo, copyTo, if_neg hfirst, if_neg (by omega)]

/-- Copy a block from each base into the buffer, one after the other from `off` on. -/
def gatherBlocks (w : Nat) (mem : Nat → α) : List Nat → Nat → (Nat → α) → Nat → α
  | [], _, buf => buf
  | base :: rest, off, buf =>
      gatherBlocks w mem rest (off + w) (copyTo buf off w fun y => mem (base + y))

/-- Copy a block to each base out of the buffer, one after the other from `off` on. -/
def scatterBlocks (w : Nat) (buf : Nat → α) : List Nat → Nat → (Nat → α) → Nat → α
  | [], _, mem => mem
  | base :: rest, off, mem =>
      scatterBlocks w buf rest (off + w) (copyTo mem base w fun y => buf (off + y))

/-- The place in the buffer that `scatterBlocks` last copied to an address. -/
def landed (w : Nat) : List Nat → Nat → Nat → Option Nat
  | [], _, _ => none
  | base :: rest, off, a =>
      (landed w rest (off + w) a).or
        (if base ≤ a ∧ a < base + w then some (off + (a - base)) else none)

/-- Byte `x` of the list is byte `x % w` of block `x / w`. -/
def Strided (w : Nat) (bases addrs : List Nat) : Prop :=
  ∀ x a, addrs[x]? = some a → ∃ base, bases[x / w]? = some base ∧ a = base + x % w

variable {w : Nat} {bases addrs : List Nat}

/-! ## Gathering -/

section Gather

variable {mem buf : Nat → α} {off x k base : Nat}

/-- What lies before or behind the blocks is left alone. -/
theorem gatherBlocks_of_notMem (h : x < off ∨ off + w * bases.length ≤ x) :
    gatherBlocks w mem bases off buf x = buf x := by
  induction bases generalizing off buf with
  | nil => rfl
  | cons base rest ih =>
      rw [List.length_cons, Nat.mul_succ] at h
      rw [gatherBlocks, ih (by omega), copyTo, if_neg]
      have := Nat.zero_le (w * rest.length)
      omega

theorem gatherBlocks_at (mem buf : Nat → α) (off : Nat) (hk : bases[k]? = some base)
    (hx : x < w) : gatherBlocks w mem bases off buf (off + w * k + x) = mem (base + x) := by
  induction bases generalizing off buf k with
  | nil => simp at hk
  | cons b rest ih =>
      rw [gatherBlocks]
      cases k with
      | zero =>
          obtain rfl : b = base := by simpa using hk
          rw [Nat.mul_zero, Nat.add_zero, gatherBlocks_of_notMem (by omega), copyTo,
            if_pos (by omega), show off + x - off = x by omega]
      | succ k =>
          rw [show off + w * (k + 1) + x = off + w + w * k + x by ring]
          exact ih _ _ (by simpa using hk)

/-- A byte of the list in its block. -/
theorem gatherBlocks_of_div (hw : 0 < w) (mem buf : Nat → α) (hbase : bases[x / w]? = some base) :
    gatherBlocks w mem bases 0 buf x = mem (base + x % w) := by
  have hat := gatherBlocks_at mem buf 0 hbase (Nat.mod_lt x hw)
  rwa [Nat.zero_add, Nat.div_add_mod] at hat

/-- Gathering gets the bytes of the list in order, whatever they are, exactly when the
list is in blocks. -/
theorem gatherBlocks_iff [Nontrivial α] (hw : 0 < w) :
    (∀ (mem buf : Nat → α) (x a : Nat), addrs[x]? = some a →
      gatherBlocks w mem bases 0 buf x = mem a) ↔ Strided w bases addrs := by
  constructor
  · intro h x a hx
    obtain ⟨u, v, huv⟩ := exists_pair_ne α
    cases hbase : bases[x / w]? with
    | none =>
        -- nothing is copied to this place of the buffer
        have hfar : 0 + w * bases.length ≤ x := by
          have hlen : bases.length ≤ x / w := List.getElem?_eq_none_iff.mp hbase
          have := Nat.mul_le_mul_left w hlen
          have := Nat.mul_div_le x w
          omega
        have hget := h (fun _ => u) (fun _ => v) x a hx
        rw [gatherBlocks_of_notMem (Or.inr hfar)] at hget
        exact absurd hget.symm huv
    | some base =>
        refine ⟨base, rfl, ?_⟩
        classical
        by_contra hne
        have hget := h (fun b => if b = a then u else v) (fun _ => v) x a hx
        rw [gatherBlocks_of_div hw _ _ hbase] at hget
        simp only [if_true, if_neg (Ne.symm hne)] at hget
        exact huv hget.symm
  · intro h mem buf x a hx
    obtain ⟨base, hbase, rfl⟩ := h x a hx
    exact gatherBlocks_of_div hw mem buf hbase

end Gather

/-! ## Scattering -/

section Scatter

variable {mem buf : Nat → α} {off a z base : Nat}

theorem scatterBlocks_apply :
    scatterBlocks w buf bases off mem a =
      match landed w bases off a with
      | some z => buf z
      | none => mem a := by
  induction bases generalizing off mem with
  | nil => rfl
  | cons base rest ih =>
      rw [scatterBlocks, ih, landed]
      cases landed w rest (off + w) a with
      | some z => rfl
      | none =>
          by_cases hin : base ≤ a ∧ a < base + w <;> simp [copyTo, hin]

/-- What landed came from a block with the address in it. -/
theorem landed_eq_some (h : landed w bases off a = some z) :
    ∃ k base, bases[k]? = some base ∧ base ≤ a ∧ a < base + w ∧
      z = off + w * k + (a - base) := by
  induction bases generalizing off with
  | nil => simp [landed] at h
  | cons b rest ih =>
      rw [landed, Option.or_eq_some_iff] at h
      rcases h with h | ⟨-, h⟩
      · obtain ⟨k, base, hk, hle, hlt, rfl⟩ := ih h
        exact ⟨k + 1, base, by simpa using hk, hle, hlt, by ring⟩
      · split at h
        · rename_i hin
          exact ⟨0, b, rfl, hin.1, hin.2, by simpa using h.symm⟩
        · cases h

theorem landed_isSome (off : Nat) (hbase : base ∈ bases) (hle : base ≤ a) (hlt : a < base + w) :
    (landed w bases off a).isSome = true := by
  induction bases generalizing off with
  | nil => simp at hbase
  | cons b rest ih =>
      rw [landed, Option.isSome_or, Bool.or_eq_true]
      rcases List.mem_cons.mp hbase with rfl | hrest
      · exact .inr (by simp [hle, hlt])
      · exact .inl (ih _ hrest)

/-- No block after the one that landed has the address in it. -/
theorem le_of_landed {k : Nat} (h : landed w bases off a = some z) (hk : bases[k]? = some base)
    (hle : base ≤ a) (hlt : a < base + w) : off + w * k ≤ z := by
  induction bases generalizing off k with
  | nil => simp at hk
  | cons b rest ih =>
      cases k with
      | zero =>
          obtain ⟨k', -, -, -, -, rfl⟩ := landed_eq_some h
          rw [Nat.mul_zero]
          omega
      | succ k =>
          have hk : rest[k]? = some base := by simpa using hk
          obtain ⟨z', hz'⟩ := Option.isSome_iff_exists.mp
            (landed_isSome (off + w) (List.mem_iff_getElem?.mpr ⟨k, hk⟩) hle hlt)
          rw [landed, hz', Option.some_or] at h
          have := ih (hz'.trans h) hk
          rw [Nat.mul_succ]
          omega

/-- The last block stays as it was copied. -/
theorem landed_concat (bases : List Nat) (off : Nat) (hle : base ≤ a) (hlt : a < base + w) :
    landed w (bases ++ [base]) off a = some (off + w * bases.length + (a - base)) := by
  induction bases generalizing off with
  | nil => simp [landed, hle, hlt]
  | cons b rest ih =>
      rw [List.cons_append, landed, ih _, Option.some_or, List.length_cons]
      congr 2
      ring

/-- Scattering stores the bytes of the buffer at the addresses of the list. -/
def Scatters (w : Nat) (bases addrs : List Nat) (mem buf : Nat → α) : Prop :=
  (∀ x a, addrs[x]? = some a → scatterBlocks w buf bases 0 mem a = buf x) ∧
    ∀ a, a ∉ addrs → scatterBlocks w buf bases 0 mem a = mem a

/-- Where each byte has to come from, if scattering is right for all contents. -/
theorem landed_of_scatters [Nontrivial α]
    (h : ∀ mem buf : Nat → α, Scatters w bases addrs mem buf) :
    (∀ x a, addrs[x]? = some a → landed w bases 0 a = some x) ∧
      ∀ a, a ∉ addrs → landed w bases 0 a = none := by
  classical
  obtain ⟨u, v, huv⟩ := exists_pair_ne α
  constructor
  · intro x a hx
    have hget := (h (fun _ => v) (fun y => if y = x then u else v)).1 x a hx
    rw [scatterBlocks_apply] at hget
    cases hland : landed w bases 0 a with
    | none =>
        simp only [hland, if_true] at hget
        exact absurd hget.symm huv
    | some z =>
        by_contra hne
        have hzx : z ≠ x := fun heq => hne (by rw [heq])
        simp only [hland, if_true, if_neg hzx] at hget
        exact huv hget.symm
  · intro a ha
    have hget := (h (fun _ => v) (fun _ => u)).2 a ha
    rw [scatterBlocks_apply] at hget
    cases hland : landed w bases 0 a with
    | none => rfl
    | some z => rw [hland] at hget; exact absurd hget huv

section Landed

variable (hin : ∀ x a, addrs[x]? = some a → landed w bases 0 a = some x)
include hin

theorem strided_of_landed (hw : 0 < w) : Strided w bases addrs := by
  intro x a hx
  obtain ⟨k, base, hk, hle, hlt, rfl⟩ := landed_eq_some (hin x a hx)
  have hoff : a - base < w := by omega
  refine ⟨base, ?_, ?_⟩
  · rw [Nat.zero_add, Nat.mul_add_div hw, Nat.div_eq_of_lt hoff, Nat.add_zero]
    exact hk
  · rw [Nat.zero_add, Nat.mul_add_mod, Nat.mod_eq_of_lt hoff]
    omega

theorem nodup_of_landed : addrs.Nodup := by
  rw [List.nodup_iff_getElem?_ne_getElem?]
  intro i j hij hj heq
  have hi := hin i addrs[j] (by rw [heq, List.getElem?_eq_getElem hj])
  have hj := hin j addrs[j] (List.getElem?_eq_getElem hj)
  have := Option.some.inj (hi.symm.trans hj)
  omega

/-- The last byte of the last block is one of the list. -/
theorem length_le_of_landed (hout : ∀ a, a ∉ addrs → landed w bases 0 a = none) (hw : 0 < w) :
    w * bases.length ≤ addrs.length := by
  rcases List.eq_nil_or_concat' bases with rfl | ⟨init, last, rfl⟩
  · simp
  · have hland : landed w (init ++ [last]) 0 (last + (w - 1)) =
        some (w * init.length + (w - 1)) := by
      rw [landed_concat init 0 (by omega) (by omega)]
      congr 1
      omega
    have hmem : last + (w - 1) ∈ addrs := by
      by_contra hnot
      rw [hout _ hnot] at hland
      cases hland
    obtain ⟨x, hx⟩ := List.mem_iff_getElem?.mp hmem
    have hxe := Option.some.inj ((hin x _ hx).symm.trans hland)
    have hxl := (List.getElem?_eq_some_iff.mp hx).1
    rw [List.length_append, List.length_singleton, Nat.mul_succ]
    omega

end Landed

theorem Strided.length_le (h : Strided w bases addrs) (hw : 0 < w) :
    addrs.length ≤ w * bases.length := by
  by_contra hlong
  -- a byte past the last block would be in no block
  have hlt : w * bases.length < addrs.length := by omega
  obtain ⟨base, hbase, -⟩ := h _ _ (List.getElem?_eq_getElem hlt)
  rw [Nat.mul_div_cancel_left _ hw] at hbase
  simp at hbase

/-- With one block for each base, what landed at an address was copied to a byte of the
list. -/
theorem Strided.getElem?_of_landed (h : Strided w bases addrs) (hw : 0 < w)
    (hlen : addrs.length = w * bases.length) (hz : landed w bases 0 a = some z) :
    addrs[z]? = some a := by
  obtain ⟨k, base, hk, hle, hlt, rfl⟩ := landed_eq_some hz
  have hoff : a - base < w := by omega
  have hklt : k < bases.length := (List.getElem?_eq_some_iff.mp hk).1
  have hzl : w * k + (a - base) < addrs.length := by
    have hblock := Nat.mul_le_mul_left w (Nat.succ_le_of_lt hklt)
    rw [Nat.mul_succ] at hblock
    omega
  rw [Nat.zero_add]
  obtain ⟨base', hbase', heq⟩ := h _ _ (List.getElem?_eq_getElem hzl)
  rw [Nat.mul_add_div hw, Nat.div_eq_of_lt hoff, Nat.add_zero, hk] at hbase'
  rw [Nat.mul_add_mod, Nat.mod_eq_of_lt hoff, ← Option.some.inj hbase'] at heq
  rw [List.getElem?_eq_getElem hzl, heq]
  congr 1
  omega

/-- What landed at the last byte of the list with its address. -/
theorem Strided.landed_last {x : Nat} (h : Strided w bases addrs) (hw : 0 < w)
    (hlen : addrs.length = w * bases.length) (hx : addrs[x]? = some a)
    (hlast : ∀ y, x < y → addrs[y]? ≠ some a) : landed w bases 0 a = some x := by
  obtain ⟨base, hbase, rfl⟩ := h x a hx
  have hle : base ≤ base + x % w := Nat.le_add_right _ _
  have hlt : base + x % w < base + w := Nat.add_lt_add_left (Nat.mod_lt x hw) base
  obtain ⟨z, hz⟩ := Option.isSome_iff_exists.mp
    (landed_isSome 0 (List.mem_iff_getElem?.mpr ⟨_, hbase⟩) hle hlt)
  have hzx : z ≤ x := by
    by_contra hgt
    exact hlast z (by omega) (h.getElem?_of_landed hw hlen hz)
  -- so it is in the same block
  have hblock := le_of_landed hz hbase hle hlt
  obtain ⟨k, base', hk, hle', hlt', rfl⟩ := landed_eq_some hz
  have hdiv := Nat.div_add_mod x w
  have hkx : k = x / w := by
    apply Nat.le_antisymm
    · exact (Nat.le_div_iff_mul_le hw).mpr (by rw [Nat.mul_comm]; omega)
    · by_contra hgt
      have := Nat.mul_le_mul_left w (show k + 1 ≤ x / w by omega)
      rw [Nat.mul_succ] at this
      omega
  subst hkx
  rw [hbase] at hk
  obtain rfl := Option.some.inj hk
  rw [hz]
  congr 1
  omega

/-- Scattering is right for all contents exactly when the list is in blocks, without
repetition and with one block for each base. -/
theorem scatters_iff [Nontrivial α] (hw : 0 < w) :
    (∀ mem buf : Nat → α, Scatters w bases addrs mem buf) ↔
      addrs.Nodup ∧ Strided w bases addrs ∧ addrs.length = w * bases.length := by
  constructor
  · intro h
    obtain ⟨hin, hout⟩ := landed_of_scatters h
    have hstrided := strided_of_landed hin hw
    exact ⟨nodup_of_landed hin, hstrided,
      Nat.le_antisymm (hstrided.length_le hw) (length_le_of_landed hin hout hw)⟩
  · rintro ⟨hnodup, hstrided, hlen⟩ mem buf
    constructor
    · intro x a hx
      obtain ⟨base, hbase, rfl⟩ := hstrided x a hx
      have hsome := landed_isSome 0 (List.mem_iff_getElem?.mpr ⟨_, hbase⟩)
        (Nat.le_add_right base (x % w)) (Nat.add_lt_add_left (Nat.mod_lt x hw) base)
      obtain ⟨z, hz⟩ := Option.isSome_iff_exists.mp hsome
      have hback := hstrided.getElem?_of_landed hw hlen hz
      have hxl := (List.getElem?_eq_some_iff.mp hx).1
      have hzx : x = z := (List.getElem?_inj hxl hnodup).mp (hx.trans hback.symm)
      rw [scatterBlocks_apply, hz, hzx]
    · intro a ha
      rw [scatterBlocks_apply]
      cases hz : landed w bases 0 a with
      | none => rfl
      | some z =>
          exact absurd (List.mem_iff_getElem?.mpr ⟨z, hstrided.getElem?_of_landed hw hlen hz⟩) ha

end Scatter

/-! ## Chains of pieces -/

section Chain

variable {β : Type*} {data : β → Nat} {bytes : β → List Nat} {l : List β}

theorem strided_range' (base : Nat) : Strided w [base] (List.range' base w) := by
  intro x a hx
  obtain ⟨hlt, rfl⟩ := List.getElem?_eq_some_iff.mp hx
  rw [List.length_range'] at hlt
  refine ⟨base, by rw [Nat.div_eq_of_lt hlt]; rfl, ?_⟩
  rw [Nat.mod_eq_of_lt hlt]
  simp

/-- A list with its first block taken off. -/
theorem strided_cons_iff {base : Nat} {first rest : List Nat} (hw : 0 < w)
    (hlen : first.length = w) :
    Strided w (base :: bases) (first ++ rest) ↔
      first = List.range' base w ∧ Strided w bases rest := by
  constructor
  · intro h
    constructor
    · apply List.ext_getElem (by simp [hlen])
      intro x hx hx'
      obtain ⟨b, hb, ha⟩ := h x first[x] (by
        rw [List.getElem?_append_left hx, List.getElem?_eq_getElem hx])
      rw [hlen] at hx
      rw [Nat.div_eq_of_lt hx, List.getElem?_cons_zero] at hb
      rw [Nat.mod_eq_of_lt hx, ← Option.some.inj hb] at ha
      simp [ha]
    · intro x a hx
      obtain ⟨b, hb, ha⟩ := h (w + x) a (by
        rw [List.getElem?_append_right (by omega), hlen, show w + x - w = x by omega, hx])
      rw [Nat.add_div_left x hw, List.getElem?_cons_succ] at hb
      rw [Nat.add_mod_left] at ha
      exact ⟨b, hb, ha⟩
  · rintro ⟨rfl, hrest⟩ x a hx
    rcases Nat.lt_or_ge x w with hlt | hge
    · rw [List.getElem?_append_left (by simpa using hlt)] at hx
      obtain ⟨b, hb, ha⟩ := strided_range' (w := w) base x a hx
      rw [Nat.div_eq_of_lt hlt] at hb ⊢
      exact ⟨b, hb, ha⟩
    · rw [List.getElem?_append_right (by simpa using hge), List.length_range'] at hx
      obtain ⟨b, hb, ha⟩ := hrest (x - w) a hx
      obtain ⟨y, rfl⟩ := Nat.exists_eq_add_of_le hge
      rw [show w + y - w = y by omega] at hb ha
      refine ⟨b, ?_, ?_⟩
      · rw [Nat.add_div_left y hw, List.getElem?_cons_succ]
        exact hb
      · rw [Nat.add_mod_left]
        exact ha

/-- Blocks one after the other. -/
theorem strided_blocks (hw : 0 < w) (bases : List Nat) :
    Strided w bases (bases.flatMap (List.range' · w)) := by
  induction bases with
  | nil => simp [Strided]
  | cons base rest ih =>
      rw [List.flatMap_cons]
      exact (strided_cons_iff hw List.length_range').mpr ⟨rfl, ih⟩

theorem length_blocks (bases : List Nat) :
    (bases.flatMap (List.range' · w)).length = w * bases.length := by
  induction bases with
  | nil => rfl
  | cons base rest ih =>
      rw [List.flatMap_cons, List.length_append, List.length_range', ih, List.length_cons,
        Nat.mul_succ]
      omega

/-- Pieces that start at the bases and make up one block for each: every piece is a
block. -/
theorem strided_flatMap_iff (hw : 0 < w) (hhead : ∀ b ∈ l, (bytes b)[0]? = some (data b))
    (hnodup : (l.flatMap bytes).Nodup) :
    (Strided w (l.map data) (l.flatMap bytes) ∧
        (l.flatMap bytes).length = w * (l.map data).length) ↔
      ∀ b ∈ l, bytes b = List.range' (data b) w := by
  induction l with
  | nil => simp [Strided]
  | cons b rest ih =>
      rw [List.flatMap_cons] at hnodup ⊢
      have hrest := ih (fun c hc => hhead c (List.mem_cons_of_mem _ hc)) hnodup.of_append_right
      rw [List.map_cons, List.length_append, List.length_cons, Nat.mul_succ, List.forall_mem_cons]
      constructor
      · rintro ⟨hstrided, htotal⟩
        have hlen : (bytes b).length = w := by
          cases rest with
          | nil => simpa using htotal
          | cons c more =>
              -- byte `w` is where the second base is, and so is the end of the first piece
              have hlt : w < (bytes b ++ (c :: more).flatMap bytes).length := by
                rw [List.length_append, htotal, List.map_cons, List.length_cons, Nat.mul_succ]
                omega
              obtain ⟨base, hbase, hat⟩ := hstrided _ _ (List.getElem?_eq_getElem hlt)
              rw [Nat.div_self hw, List.map_cons] at hbase
              rw [Nat.mod_self, Nat.add_zero, ← Option.some.inj hbase] at hat
              have hc := hhead c (by simp)
              have hclt : 0 < (bytes c).length := (List.getElem?_eq_some_iff.mp hc).1
              have hend : (bytes b ++ (c :: more).flatMap bytes)[(bytes b).length]? =
                  some (data c) := by
                rw [List.getElem?_append_right le_rfl, Nat.sub_self, List.flatMap_cons,
                  List.getElem?_append_left hclt, hc]
              have hat' : (bytes b ++ (c :: more).flatMap bytes)[w]? = some (data c) := by
                rw [List.getElem?_eq_getElem hlt, hat]
              exact ((List.getElem?_inj hlt hnodup).mp (hat'.trans hend.symm)).symm
        obtain ⟨hfirst, hstrided⟩ := (strided_cons_iff hw hlen).mp hstrided
        exact ⟨hfirst, hrest.mp ⟨hstrided, by omega⟩⟩
      · rintro ⟨hfirst, hall⟩
        have hlen : (bytes b).length = w := by rw [hfirst, List.length_range']
        obtain ⟨hstrided, htotal⟩ := hrest.mpr hall
        exact ⟨(strided_cons_iff hw hlen).mpr ⟨hfirst, hstrided⟩, by omega⟩

end Chain

end Hydra.Foundation
