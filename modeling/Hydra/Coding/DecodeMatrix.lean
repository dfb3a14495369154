/-
  Coding/DecodeMatrix.lean --- the matrix that recovers lost pieces.

  Source: `gf_gen_decode_matrix` of `resilience_manager/is_main.c`.

  The first `k` surviving pieces give a square matrix.  When it is singular its last row
  is replaced by a later one, "skipping the erased parity line"; but the loop that skips
  ends at `nerrs - nsrcerrs`, short of the last entries of `src_err_list`.
-/
import Hydra.DataPath.ReadPlan
import Hydra.Coding.Invert

set_option autoImplicit false

namespace Hydra.Coding

open Hydra.Foundation Hydra.DataPath Finset

/-- What is lost: `src_in_err`, `src_err_list`, `nerrs` and `nsrcerrs`. -/
structure Erasures where
  srcInErr : Nat → Bool
  srcErrList : Nat → Nat
  nerrs : Nat
  nsrcerrs : Nat

/-- What `gf_gen_decode_matrix` fills in. -/
structure Decode where
  decodeIndex : Nat → Nat
  decodeMatrix : Rows

/-- Why it does not return: a read past `src_in_err`, or retries without end. -/
inductive Stuck where
  | stray (s : Stray)
  | running

namespace Erasures

variable (e : Erasures)

/-- The loop that skips the erased parity lines; returns `incr`. -/
def skipErased (last incr : Nat) : Nat :=
  (List.range' e.nsrcerrs (e.nerrs - e.nsrcerrs - e.nsrcerrs)).foldl
    (fun incr i => if e.srcErrList i = last + incr then incr + 1 else incr) incr

/-- The `while` around `gf_invert_matrix`; `none` is `NO_INVERT_MATRIX`.  `b` is given up
to an inversion that fails, and made again from `backup`. -/
def invertRows (encodeMatrix backup : Rows) (k m : Nat) :
    Nat → Rows → (Nat → Nat) → Nat → Except Stuck (Option (Rows × (Nat → Nat)))
  | 0, _, _, _ => .error .running
  | fuel + 1, b, decodeIndex, incr =>
      match gfInvertMatrix b k with
      | .ok invertMatrix => .ok (some (invertMatrix, decodeIndex))
      | .error _ =>
          if e.nerrs = m - k then .ok none
          else
            let incr := e.skipErased (decodeIndex (k - 1)) (incr + 1)
            if decodeIndex (k - 1) + incr ≥ m then .ok none
            else
              let last := decodeIndex (k - 1) + incr
              invertRows encodeMatrix backup k m fuel
                (Function.update backup (k - 1) (encodeMatrix last))
                (Function.update decodeIndex (k - 1) last) incr

/-- The two loops that fill in `decode_matrix`. -/
def decodeRows (encodeMatrix invertMatrix : Rows) (k : Nat) : Rows := fun p i =>
  if p < e.nsrcerrs then invertMatrix (e.srcErrList p) i
  else
    (List.range k).foldl
      (fun s j => s + invertMatrix j i * encodeMatrix (e.srcErrList p) j) 0

end Erasures

/-- `gf_gen_decode_matrix`. -/
def gfGenDecodeMatrix (encodeMatrix : Rows) (e : Erasures) (k m : Nat) :
    Except Stuck (Option Decode) :=
  match DataPath.decodeIndex e.srcInErr k m with
  | .error s => .error (.stray s)
  | .ok index =>
      let decodeIndex := fun i => index.getD i 0
      let b := fun i => encodeMatrix (decodeIndex i)
      (e.invertRows encodeMatrix b k m (m + 1) b decodeIndex 0).map fun found =>
        found.map fun (invertMatrix, decodeIndex) =>
          ⟨decodeIndex, e.decodeRows encodeMatrix invertMatrix k⟩

/-! ## What it is for -/

/-- Piece `r` of the data `d`: row `r` of the encode matrix times `d`. -/
def piece (encodeMatrix : Rows) (k : Nat) (d : Nat → Gf256) (r : Nat) : Gf256 :=
  ∑ c ∈ range k, encodeMatrix r c * d c

/-- The description of an erasure of at most `m - k` of `m` pieces. -/
structure Erasures.WellFormed (e : Erasures) (k m : Nat) : Prop where
  pos : 1 ≤ e.nerrs
  le : e.nerrs ≤ m - k
  increasing : ∀ p q, p < q → q < e.nerrs → e.srcErrList p < e.srcErrList q
  lt : ∀ p < e.nerrs, e.srcErrList p < m
  nsrcerrs_le : e.nsrcerrs ≤ e.nerrs
  sources : ∀ p < e.nerrs, e.srcErrList p < k ↔ p < e.nsrcerrs
  marks : ∀ r < m, e.srcInErr r = true ↔ ∃ p < e.nerrs, e.srcErrList p = r

/-- The decode matrix makes every lost piece out of `k` surviving ones. -/
structure Decode.Recovers (D : Decode) (encodeMatrix : Rows) (e : Erasures) (k m : Nat) :
    Prop where
  lt : ∀ j < k, D.decodeIndex j < m
  different : ∀ i < k, ∀ j < k, D.decodeIndex i = D.decodeIndex j → i = j
  surviving : ∀ j < k, e.srcInErr (D.decodeIndex j) = false
  recovers : ∀ (d : Nat → Gf256), ∀ p < e.nerrs,
    ∑ j ∈ range k, D.decodeMatrix p j * piece encodeMatrix k d (D.decodeIndex j) =
      piece encodeMatrix k d (e.srcErrList p)

namespace Erasures

variable (e : Erasures)

/-- The surviving pieces. -/
def survivors (m : Nat) : List Nat := (List.range m).filter fun r => !e.srcInErr r

/-- The first `k` of them. -/
def chosen (k m i : Nat) : Nat := ((e.survivors m).take k).getD i 0

/-- These with the last one replaced by `r`. -/
def replaced (k m r : Nat) : Nat → Nat := Function.update (e.chosen k m) (k - 1) r

/-- `gf_invert_matrix` fails with row `r` in the last place. -/
def Singular (encodeMatrix : Rows) (k m r : Nat) : Prop :=
  gfInvertMatrix (fun i => encodeMatrix (e.replaced k m r i)) k = .error ()

/-- A row in the part of `src_err_list` that the skipping loop looks at. -/
def Skipped (r : Nat) : Prop :=
  ∃ p, e.nsrcerrs ≤ p ∧ p < e.nerrs - e.nsrcerrs ∧ e.srcErrList p = r

/-- The rows the retries come to, with the increment that led there: each time the least
increment above the last one that does not meet a skipped row. -/
inductive Tried (encodeMatrix : Rows) (k m : Nat) : Nat → Nat → Prop
  | first (hk : 0 < k) : Tried encodeMatrix k m (e.chosen k m (k - 1)) 0
  | next {r incr incr' : Nat} (h : Tried encodeMatrix k m r incr)
      (hsingular : e.Singular encodeMatrix k m r) (hmore : e.nerrs ≠ m - k)
      (hlt : incr < incr') (hskip : ∀ i, incr < i → i < incr' → e.Skipped (r + i))
      (hnew : ¬e.Skipped (r + incr')) (hm : r + incr' < m) :
      Tried encodeMatrix k m (r + incr') incr'

end Erasures

/-! ## Linear algebra -/

section Recover

variable {encodeMatrix invertMatrix : Rows} {k r : Nat} {index : Nat → Nat}

theorem piece_of_identity
    (hE : ∀ r < k, ∀ c < k, encodeMatrix r c = Rows.identity r c) (hr : r < k)
    (d : Nat → Gf256) : piece encodeMatrix k d r = d r := by
  rw [piece, ← Rows.sum_identity_mul hr d]
  exact sum_congr rfl fun c hc => by rw [hE r hr c (mem_range.mp hc)]

/-- The inverse of the chosen rows gives any piece. -/
theorem sum_decode_piece
    (hinv : ∀ r < k, ∀ c < k,
      ∑ q ∈ range k, invertMatrix r q * encodeMatrix (index q) c = Rows.identity r c)
    (d : Nat → Gf256) :
    ∑ i ∈ range k, (∑ j ∈ range k, invertMatrix j i * encodeMatrix r j) *
        piece encodeMatrix k d (index i) = piece encodeMatrix k d r := by
  calc ∑ i ∈ range k, (∑ j ∈ range k, invertMatrix j i * encodeMatrix r j) *
        piece encodeMatrix k d (index i)
      = ∑ i ∈ range k, ∑ j ∈ range k,
          encodeMatrix r j * (invertMatrix j i * piece encodeMatrix k d (index i)) := by
        refine sum_congr rfl fun i _ => ?_
        rw [sum_mul]
        exact sum_congr rfl fun j _ => by rw [mul_comm (invertMatrix j i), mul_assoc]
    _ = ∑ j ∈ range k, encodeMatrix r j *
          ∑ i ∈ range k, invertMatrix j i * piece encodeMatrix k d (index i) := by
        rw [sum_comm]
        exact sum_congr rfl fun j _ => (mul_sum _ _ _).symm
    _ = piece encodeMatrix k d r :=
        sum_congr rfl fun j hj => congrArg _ (sum_inverse_dot hinv (mem_range.mp hj) d)

theorem foldl_add_eq_sum (f : Nat → Gf256) (k : Nat) :
    (List.range k).foldl (fun s j => s + f j) 0 = ∑ j ∈ range k, f j := by
  induction k with
  | zero => rfl
  | succ k ih =>
      rw [List.range_succ, List.foldl_append, ih, sum_range_succ]
      rfl

/-- The rows filled in are right whatever rows were chosen. -/
theorem Erasures.decodeRows_recovers (e : Erasures)
    (hE : ∀ r < k, ∀ c < k, encodeMatrix r c = Rows.identity r c)
    (hinv : gfInvertMatrix (fun i => encodeMatrix (index i)) k = .ok invertMatrix)
    (hsources : ∀ p < e.nsrcerrs, e.srcErrList p < k) (d : Nat → Gf256) (p : Nat) :
    ∑ j ∈ range k, e.decodeRows encodeMatrix invertMatrix k p j *
        piece encodeMatrix k d (index j) = piece encodeMatrix k d (e.srcErrList p) := by
  have hinv := gfInvertMatrix_ok hinv
  by_cases hp : p < e.nsrcerrs
  · simp only [Erasures.decodeRows, if_pos hp]
    rw [piece_of_identity hE (hsources p hp)]
    exact sum_inverse_dot hinv (hsources p hp) d
  · simp only [Erasures.decodeRows, if_neg hp, foldl_add_eq_sum]
    exact sum_decode_piece hinv d

end Recover

namespace Erasures

variable {e : Erasures} {encodeMatrix : Rows} {k m r incr : Nat}

/-! ## Skipping -/

theorem skipErased_spec (h : e.WellFormed k m) (last incr : Nat) :
    incr ≤ e.skipErased last incr ∧
      (∀ i, incr ≤ i → i < e.skipErased last incr → e.Skipped (last + i)) ∧
      ¬e.Skipped (last + e.skipErased last incr) := by
  -- The list is increasing, so one pass over it finds consecutive rows one by one.
  have hpass : ∀ len, e.nsrcerrs + len ≤ e.nerrs - e.nsrcerrs ∨ len = 0 →
      ∀ n, n = (List.range' e.nsrcerrs len).foldl
        (fun incr i => if e.srcErrList i = last + incr then incr + 1 else incr) incr →
      incr ≤ n ∧ (∀ i, incr ≤ i → i < n → e.Skipped (last + i)) ∧
        ∀ p, e.nsrcerrs ≤ p → p < e.nsrcerrs + len → e.srcErrList p ≠ last + n := by
    intro len
    induction len with
    | zero =>
        rintro - n rfl
        exact ⟨le_rfl, fun i hi hlt => absurd hi (by simpa using hlt), fun p hle hlt => by omega⟩
    | succ len ih =>
        intro hlen n hn
        obtain hlen : e.nsrcerrs + (len + 1) ≤ e.nerrs - e.nsrcerrs := by omega
        rw [List.range'_1_concat, List.foldl_append] at hn
        obtain ⟨hle, hbetween, hnone⟩ := ih (.inl (by omega)) _ rfl
        generalize (List.range' e.nsrcerrs len).foldl _ incr = n₀ at hn hle hbetween hnone
        simp only [List.foldl_cons, List.foldl_nil] at hn
        split at hn
        · rename_i hmeets
          subst hn
          refine ⟨by omega, fun i hi hlt => ?_, fun p hp hlt heq => ?_⟩
          · rcases Nat.lt_succ_iff_lt_or_eq.mp hlt with hlt | rfl
            · exact hbetween i hi hlt
            · exact ⟨e.nsrcerrs + len, by omega, by omega, hmeets⟩
          · rcases Nat.lt_or_ge p (e.nsrcerrs + len) with hlt | hge
            · have := h.increasing p (e.nsrcerrs + len) hlt (by omega)
              omega
            · obtain rfl : p = e.nsrcerrs + len := by omega
              omega
        · rename_i hmisses
          subst hn
          refine ⟨hle, hbetween, fun p hp hlt heq => ?_⟩
          rcases Nat.lt_or_ge p (e.nsrcerrs + len) with hlt | hge
          · exact hnone p hp hlt heq
          · obtain rfl : p = e.nsrcerrs + len := by omega
            exact hmisses heq
  obtain ⟨hle, hbetween, hnone⟩ :=
    hpass (e.nerrs - e.nsrcerrs - e.nsrcerrs) (by omega) _ rfl
  refine ⟨hle, hbetween, fun ⟨p, hp, hlt, heq⟩ => hnone p hp (by omega) heq⟩

/-- The increment is determined by what it is. -/
theorem skipErased_eq (h : e.WellFormed k m) {last incr incr' : Nat} (hlt : incr < incr')
    (hskip : ∀ i, incr < i → i < incr' → e.Skipped (last + i))
    (hnew : ¬e.Skipped (last + incr')) : e.skipErased last (incr + 1) = incr' := by
  obtain ⟨hle, hbetween, hnone⟩ := skipErased_spec h last (incr + 1)
  rcases Nat.lt_trichotomy (e.skipErased last (incr + 1)) incr' with hless | heq | hmore
  · exact absurd (hskip _ (by omega) hless) hnone
  · exact heq
  · exact absurd (hbetween incr' (by omega) hmore) hnew

/-! ## Surviving pieces -/

theorem mem_survivors : r ∈ e.survivors m ↔ r < m ∧ e.srcInErr r = false := by
  simp [survivors]

theorem survivors_pairwise : (e.survivors m).Pairwise (· < ·) :=
  List.Pairwise.filter _ List.pairwise_lt_range

/-- At most `nerrs` pieces are marked, so `k` survive. -/
theorem le_length_survivors (h : e.WellFormed k m) (hk : k ≤ m) :
    k ≤ (e.survivors m).length := by
  have hmarked : (List.range m).filter e.srcInErr ⊆ (List.range e.nerrs).map e.srcErrList := by
    intro r hr
    obtain ⟨hr, hmark⟩ := List.mem_filter.mp hr
    obtain ⟨p, hp, rfl⟩ := (h.marks r (List.mem_range.mp hr)).mp hmark
    exact List.mem_map_of_mem (List.mem_range.mpr hp)
  have hle : ((List.range m).filter e.srcInErr).length ≤ e.nerrs := by
    have := (List.nodup_range.filter e.srcInErr).subperm hmarked |>.length_le
    simpa using this
  have hsplit := (List.range m).length_eq_length_filter_add e.srcInErr
  have hnerrs := h.le
  rw [List.length_range] at hsplit
  rw [survivors]
  omega

theorem chosen_eq (h : e.WellFormed k m) (hk : k ≤ m) {i : Nat} (hi : i < k) :
    ∃ hlen : i < (e.survivors m).length, e.chosen k m i = (e.survivors m).get ⟨i, hlen⟩ := by
  have hlen : i < (e.survivors m).length := lt_of_lt_of_le hi (le_length_survivors h hk)
  refine ⟨hlen, ?_⟩
  rw [chosen, List.getD_eq_getElem?_getD, List.getElem?_take_of_lt hi,
    List.getElem?_eq_getElem hlen, Option.getD_some, List.get_eq_getElem]

theorem chosen_mem (h : e.WellFormed k m) (hk : k ≤ m) {i : Nat} (hi : i < k) :
    e.chosen k m i < m ∧ e.srcInErr (e.chosen k m i) = false := by
  obtain ⟨hlen, heq⟩ := chosen_eq h hk hi
  rw [← mem_survivors, heq]
  exact List.get_mem _ _

theorem chosen_lt (h : e.WellFormed k m) (hk : k ≤ m) {i j : Nat} (hij : i < j) (hj : j < k) :
    e.chosen k m i < e.chosen k m j := by
  obtain ⟨hlen, heq⟩ := chosen_eq h hk (by omega : i < k)
  obtain ⟨hlen', heq'⟩ := chosen_eq h hk hj
  rw [heq, heq']
  exact List.pairwise_iff_get.mp survivors_pairwise ⟨i, hlen⟩ ⟨j, hlen'⟩ hij

theorem replaced_lt (h : e.WellFormed k m) (hk : k ≤ m) (hr : e.chosen k m (k - 1) ≤ r)
    {i j : Nat} (hij : i < j) (hj : j < k) : e.replaced k m r i < e.replaced k m r j := by
  have hchosen := chosen_lt h hk hij hj
  rw [replaced, Function.update_of_ne (by omega)]
  by_cases hlast : j = k - 1
  · subst hlast
    rw [Function.update_self]
    omega
  · rwa [Function.update_of_ne hlast]

theorem replaced_chosen : e.replaced k m (e.chosen k m (k - 1)) = e.chosen k m :=
  Function.update_eq_self _ _

/-! ## The retries -/

theorem Tried.pos (htried : e.Tried encodeMatrix k m r incr) : 0 < k := by
  induction htried with
  | first hpos => exact hpos
  | next _ _ _ _ _ _ _ ih => exact ih

theorem Tried.bounds (h : e.WellFormed k m) (hk : k ≤ m)
    (htried : e.Tried encodeMatrix k m r incr) : e.chosen k m (k - 1) ≤ r ∧ r < m := by
  induction htried with
  | first hpos => exact ⟨le_rfl, (chosen_mem h hk (by omega)).1⟩
  | next _ _ _ _ _ _ hm ih => exact ⟨by omega, hm⟩

theorem le_chosen (h : e.WellFormed k m) (hk : k ≤ m) {i : Nat} (hi : i < k) :
    i ≤ e.chosen k m i := by
  induction i with
  | zero => exact Nat.zero_le _
  | succ i ih =>
      have hstep := chosen_lt h hk (Nat.lt_add_one i) hi
      have := ih (by omega)
      omega

/-- An erased row that is tried is listed where the skipping loop does not look. -/
theorem Tried.unskipped (h : e.WellFormed k m) (hk : k ≤ m)
    (htried : e.Tried encodeMatrix k m r incr) (hmark : e.srcInErr r = true) :
    ∃ p, e.nsrcerrs ≤ p ∧ e.nerrs - e.nsrcerrs ≤ p ∧ p < e.nerrs ∧ e.srcErrList p = r := by
  obtain ⟨hge, hlt⟩ := htried.bounds h hk
  have hpos := htried.pos
  obtain ⟨p, hp, hpr⟩ := (h.marks r hlt).mp hmark
  have hlast := chosen_mem h hk (by omega : k - 1 < k)
  have hne : r ≠ e.chosen k m (k - 1) := by
    rintro rfl
    rw [hlast.2] at hmark
    cases hmark
  have hparity : ¬r < k := by
    have := le_chosen h hk (by omega : k - 1 < k)
    omega
  have hsource : e.nsrcerrs ≤ p := by
    rw [← hpr, h.sources p hp] at hparity
    omega
  cases htried with
  | first => exact absurd rfl hne
  | next _ _ _ _ _ hnew _ =>
      refine ⟨p, hsource, ?_, hp, hpr⟩
      by_contra hearly
      exact hnew ⟨p, hsource, by omega, hpr⟩

/-- The loop from the attempt with row `r`. -/
def attempts (e : Erasures) (encodeMatrix : Rows) (k m fuel r incr : Nat) :
    Except Stuck (Option (Rows × (Nat → Nat))) :=
  e.invertRows encodeMatrix (fun i => encodeMatrix (e.chosen k m i)) k m fuel
    (fun i => encodeMatrix (e.replaced k m r i)) (e.replaced k m r) incr

theorem attempts_succ (fuel : Nat) :
    e.attempts encodeMatrix k m (fuel + 1) r incr =
      match gfInvertMatrix (fun i => encodeMatrix (e.replaced k m r i)) k with
      | .ok invertMatrix => .ok (some (invertMatrix, e.replaced k m r))
      | .error _ =>
          if e.nerrs = m - k then .ok none
          else if r + e.skipErased r (incr + 1) ≥ m then .ok none
          else
            e.attempts encodeMatrix k m fuel (r + e.skipErased r (incr + 1))
              (e.skipErased r (incr + 1)) := by
  have hlast : e.replaced k m r (k - 1) = r := Function.update_self _ _ _
  have hnext : ∀ last, Function.update (e.replaced k m r) (k - 1) last = e.replaced k m last :=
    fun last => Function.update_idem _ _ _
  have hrows : ∀ last, Function.update (fun i => encodeMatrix (e.chosen k m i)) (k - 1)
      (encodeMatrix last) = fun i => encodeMatrix (e.replaced k m last i) :=
    fun last => (Function.comp_update encodeMatrix (e.chosen k m) (k - 1) last).symm
  rw [attempts, invertRows]
  simp only [hlast, hnext, hrows, attempts]

/-- What is returned comes from a row tried. -/
theorem tried_of_attempts (h : e.WellFormed k m) {fuel : Nat} {x : Rows} {index : Nat → Nat}
    (htried : 0 < k → e.Tried encodeMatrix k m r incr)
    (hdone : e.attempts encodeMatrix k m fuel r incr = .ok (some (x, index))) :
    ∃ r' incr', (0 < k → e.Tried encodeMatrix k m r' incr') ∧ index = e.replaced k m r' ∧
      gfInvertMatrix (fun i => encodeMatrix (e.replaced k m r' i)) k = .ok x := by
  induction fuel generalizing r incr with
  | zero => cases hdone
  | succ fuel ih =>
      rw [attempts_succ] at hdone
      split at hdone
      · rename_i y hy
        obtain ⟨rfl, rfl⟩ : y = x ∧ e.replaced k m r = index := by simpa using hdone
        exact ⟨r, incr, htried, rfl, hy⟩
      · rename_i hsingular
        split at hdone
        · cases hdone
        split at hdone
        · cases hdone
        rename_i hmore hm
        obtain ⟨hle, hbetween, hnone⟩ := skipErased_spec h r (incr + 1)
        refine ih (fun hk => ?_) hdone
        exact (htried hk).next hsingular hmore (by omega)
          (fun i hi => hbetween i (by omega)) hnone (by omega)

/-- Every row tried is come to, with attempts left. -/
theorem Tried.attempts_eq (h : e.WellFormed k m)
    (htried : e.Tried encodeMatrix k m r incr) :
    ∃ fuel, m ≤ fuel + r ∧
      e.attempts encodeMatrix k m (m + 1) (e.chosen k m (k - 1)) 0 =
        e.attempts encodeMatrix k m (fuel + 1) r incr := by
  induction htried with
  | first _ => exact ⟨m, by omega, rfl⟩
  | @next r incr incr' htried hsingular hmore hlt hskip hnew hm ih =>
      obtain ⟨fuel, hfuel, heq⟩ := ih
      obtain ⟨fuel, rfl⟩ : ∃ n, fuel = n + 1 := ⟨fuel - 1, by omega⟩
      have hincr := skipErased_eq h hlt hskip hnew
      refine ⟨fuel, by omega, heq.trans ?_⟩
      rw [attempts_succ, hsingular]
      simp only [hincr, if_neg hmore]
      rw [if_neg (by omega)]

/-- The retries come to an end. -/
theorem attempts_total (h : e.WellFormed k m) {fuel : Nat} (hfuel : m ≤ fuel + r) :
    ∃ found, e.attempts encodeMatrix k m (fuel + 1) r incr = .ok found := by
  induction fuel generalizing r incr with
  | zero =>
      rw [attempts_succ]
      split
      · exact ⟨_, rfl⟩
      · split
        · exact ⟨none, rfl⟩
        · rw [if_pos (by omega)]
          exact ⟨none, rfl⟩
  | succ fuel ih =>
      have hle := (skipErased_spec h r (incr + 1)).1
      rw [attempts_succ]
      split
      · exact ⟨_, rfl⟩
      · split
        · exact ⟨none, rfl⟩
        · split
          · exact ⟨none, rfl⟩
          · exact ih (by omega)

theorem gfGenDecodeMatrix_eq (h : e.WellFormed k m) (hk : k ≤ m) :
    gfGenDecodeMatrix encodeMatrix e k m =
      (e.attempts encodeMatrix k m (m + 1) (e.chosen k m (k - 1)) 0).map fun found =>
        found.map fun (invertMatrix, decodeIndex) =>
          ⟨decodeIndex, e.decodeRows encodeMatrix invertMatrix k⟩ := by
  rw [gfGenDecodeMatrix, decodeIndex_eq (le_length_survivors h hk), attempts, replaced_chosen]
  rfl

end Erasures

/-! ## Soundness -/

/-- `gf_gen_decode_matrix` returns, and what it returns with 0 recovers the lost pieces. -/
def DecodesSoundly (encodeMatrix : Rows) (e : Erasures) (k m : Nat) : Prop :=
  ∃ result, gfGenDecodeMatrix encodeMatrix e k m = .ok result ∧
    ∀ D, result = some D → D.Recovers encodeMatrix e k m

/-- Rows filled in from a row that survives recover the lost pieces. -/
theorem Erasures.Tried.recovers {encodeMatrix x : Rows} {e : Erasures} {k m r incr : Nat}
    (hk : k ≤ m) (hE : ∀ r < k, ∀ c < k, encodeMatrix r c = Rows.identity r c)
    (h : e.WellFormed k m) (htried : 0 < k → e.Tried encodeMatrix k m r incr)
    (hmark : 0 < k → e.srcInErr r = false)
    (hinv : gfInvertMatrix (fun i => encodeMatrix (e.replaced k m r i)) k = .ok x) :
    Decode.Recovers ⟨e.replaced k m r, e.decodeRows encodeMatrix x k⟩ encodeMatrix e k m := by
  have hrow : ∀ j < k, e.replaced k m r j < m ∧ e.srcInErr (e.replaced k m r j) = false := by
    intro j hj
    by_cases hlast : j = k - 1
    · rw [hlast, Erasures.replaced, Function.update_self]
      exact ⟨((htried (by omega)).bounds h hk).2, hmark (by omega)⟩
    · rw [Erasures.replaced, Function.update_of_ne hlast]
      exact Erasures.chosen_mem h hk hj
  have hsources : ∀ p < e.nsrcerrs, e.srcErrList p < k := fun p hp =>
    (h.sources p (lt_of_lt_of_le hp h.nsrcerrs_le)).mpr hp
  refine ⟨fun j hj => (hrow j hj).1, fun i hi j hj heq => ?_, fun j hj => (hrow j hj).2,
    fun d p _ => e.decodeRows_recovers hE hinv hsources d p⟩
  have hge : e.chosen k m (k - 1) ≤ r := ((htried (by omega)).bounds h hk).1
  have hmono : StrictMonoOn (e.replaced k m r) (Set.Iio k) := fun i _ j hj hij =>
    Erasures.replaced_lt h hk hge hij hj
  exact hmono.injOn hi hj heq

/-- The result can be relied on just when the retries come to none of the erased rows the
skipping loop does not look at, unless the matrix is singular with it. -/
theorem decodesSoundly_iff (encodeMatrix : Rows) (e : Erasures) (k m : Nat) (hk : k ≤ m)
    (hE : ∀ r < k, ∀ c < k, encodeMatrix r c = Rows.identity r c) (h : e.WellFormed k m) :
    DecodesSoundly encodeMatrix e k m ↔
      ∀ p, e.nsrcerrs ≤ p → e.nerrs - e.nsrcerrs ≤ p → p < e.nerrs → ∀ incr,
        e.Tried encodeMatrix k m (e.srcErrList p) incr →
          e.Singular encodeMatrix k m (e.srcErrList p) := by
  constructor
  · rintro ⟨result, hresult, hrecovers⟩ p - - hp incr htried
    have hmark : e.srcInErr (e.srcErrList p) = true :=
      (h.marks _ (h.lt p hp)).mpr ⟨p, hp, rfl⟩
    generalize e.srcErrList p = r at htried hmark
    rw [Erasures.gfGenDecodeMatrix_eq h hk] at hresult
    obtain ⟨fuel, -, heq⟩ := htried.attempts_eq h
    rw [heq, Erasures.attempts_succ] at hresult
    rw [Erasures.Singular]
    cases hinv : gfInvertMatrix (fun i => encodeMatrix (e.replaced k m r i)) k with
    | error _ => rfl
    | ok x =>
        -- The row would be the last entry of `decode_index`.
        rw [hinv] at hresult
        have hD := hrecovers _ (Except.ok.inj hresult).symm
        have hpos := htried.pos
        have hlast : e.srcInErr (e.replaced k m r (k - 1)) = false :=
          hD.surviving (k - 1) (by omega)
        rw [Erasures.replaced, Function.update_self, hmark] at hlast
        cases hlast
  · intro hcond
    obtain ⟨found, hfound⟩ : ∃ found,
        e.attempts encodeMatrix k m (m + 1) (e.chosen k m (k - 1)) 0 = .ok found :=
      Erasures.attempts_total h (Nat.le_add_right m _)
    refine ⟨_, by rw [Erasures.gfGenDecodeMatrix_eq h hk, hfound]; rfl, fun D hD => ?_⟩
    obtain ⟨⟨x, index⟩, rfl, rfl⟩ := Option.map_eq_some_iff.mp hD
    obtain ⟨r, incr, htried, rfl, hinv⟩ :=
      Erasures.tried_of_attempts h (fun hpos => .first hpos) hfound
    refine Erasures.Tried.recovers hk hE h htried (fun hpos => ?_) hinv
    rw [← Bool.not_eq_true]
    intro hmark
    obtain ⟨p, hsource, hlate, hp, rfl⟩ := (htried hpos).unskipped h hk hmark
    have hsingular := hcond p hsource hlate hp incr (htried hpos)
    rw [Erasures.Singular, hinv] at hsingular
    cases hsingular

/-- One data piece and three parities, the first of them useless. -/
def zeroParity : Rows := fun r _ => if r = 1 then 0 else 1

/-- The data piece is lost. -/
def dataLost : Erasures where
  srcInErr := fun r => r = 0
  srcErrList := fun _ => 0
  nerrs := 1
  nsrcerrs := 1

theorem dataLost_wellFormed : dataLost.WellFormed 1 4 where
  pos := by decide
  le := by decide
  increasing := by
    intro p q hpq hq
    have : q < 1 := hq
    omega
  lt := by decide
  nsrcerrs_le := by decide
  sources := by decide
  marks := by decide

theorem decodesSoundly_iff_dataLost : DecodesSoundly zeroParity dataLost 1 4 :=
  (decodesSoundly_iff zeroParity dataLost 1 4 (by decide) (by decide)
    dataLost_wellFormed).mpr (by
      intro p hsource _ hp
      have : 1 ≤ p := hsource
      have : p < 1 := hp
      omega)

/-- The data piece is lost and with it the second parity. -/
def parityLost : Erasures where
  srcInErr := fun r => r = 0 || r = 2
  srcErrList := fun p => if p = 0 then 0 else 2
  nerrs := 2
  nsrcerrs := 1

/-- The first surviving row is zero, and the retry takes the lost row after it. -/
theorem decode_takes_lost_row : ¬∀ (encodeMatrix : Rows) (e : Erasures) (k m : Nat), k ≤ m →
    (∀ r < k, ∀ c < k, encodeMatrix r c = Rows.identity r c) → e.WellFormed k m →
    DecodesSoundly encodeMatrix e k m := by
  intro hall
  have hwell : parityLost.WellFormed 1 4 := by
    refine ⟨by decide, by decide, fun p q hpq hq => ?_, by decide, by decide, by decide,
      by decide⟩
    obtain ⟨rfl, rfl⟩ : p = 0 ∧ q = 1 := by
      have : q < 2 := hq
      omega
    decide
  obtain ⟨result, hresult, hrecovers⟩ :=
    hall zeroParity parityLost 1 4 (by decide) (by decide) hwell
  have hindex : (gfGenDecodeMatrix zeroParity parityLost 1 4).toOption.map
      (fun result => result.map fun D => D.decodeIndex 0) = some (some 2) := by
    decide +kernel
  rw [hresult] at hindex
  obtain ⟨D, hD, hrow⟩ := Option.map_eq_some_iff.mp (Option.some.inj hindex)
  have hlost := (hrecovers D hD).surviving 0 (by decide)
  rw [hrow] at hlost
  cases hlost

end Hydra.Coding
