/-
  DataPath/ReadPlan.lean --- which pieces a read goes to.

  Source: of `resilience_manager/is_main.c` the loops of `IS_rdma_read`, the first
  loop of `gf_gen_decode_matrix` and the replica scan of `client_read_done`; of
  `is_fault.c` `IS_fault_injection_access`.

  `DataPath/Path.lean` has what a read does to contexts and queues.  Here is how it
  finds its pieces, with every access to `cb_index`, `cb` and `ctx` checked and with
  the results of `ib_post_send`.
-/
import Hydra.Foundation.Checked
import Hydra.DataPath.Path

set_option autoImplicit false

namespace Hydra.DataPath

open Hydra.Foundation

/-! ## Pieces -/

/-- What `IS_rdma_read` goes by: for each piece whether `cb_index[i]` is a server and
whether `ctx[i]->fault` is set. -/
structure Pieces where
  ndatas : Nat
  ndisks : Nat
  mapped : Nat → Bool
  fault : Nat → Bool
  ndatas_le : ndatas ≤ ndisks

/-- An access the code should not make: an entry at or past `NDISKS`, or `cb[i]` of an
unmapped piece, which `IS_request` never set. -/
inductive Stray where
  | index (i : Nat)
  | unsetCb (i : Nat)
  deriving DecidableEq, Repr

namespace Pieces

variable (p : Pieces)

/-- A piece that can be read. -/
def isGood (i : Nat) : Bool := p.mapped i && !p.fault i

/-- The good pieces in index order. -/
def goodPieces : List Nat := (List.range p.ndisks).filter p.isGood

/-- The first `NDATAS` good pieces. -/
def chosen : List Nat := p.goodPieces.take p.ndatas

/-- Entry `i` of an array with `NDISKS` entries. -/
def entry (v : Nat → Bool) (i : Nat) : Except Stray Bool :=
  if i < p.ndisks then .ok (v i) else .error (.index i)

/-- The pointer `cb[i]`. -/
def cbAt (i : Nat) : Except Stray Unit := do
  if ← p.entry p.mapped i then pure () else throw (.unsetCb i)

/-- `cb_index[i] == NO_CB_MAPPED || ctx[i]->fault`. -/
def isBad (i : Nat) : Except Stray Bool := do
  if ← p.entry p.mapped i then p.entry p.fault i else pure true

end Pieces

/-! ## The loops of IS_rdma_read -/

/-- `struct IS_fault_injection_disk`. -/
structure DiskFault (Seed : Type) where
  accessCount : UInt64
  accessCountBeforeNextFault : Int64
  faultCount : UInt64
  seed : Seed

variable {Seed : Type}

/-- What `IS_fault_injection_access` does to the disk. -/
def DiskFault.access (d : DiskFault Seed) : DiskFault Seed :=
  { d with
    accessCount := d.accessCount + 1
    accessCountBeforeNextFault := d.accessCountBeforeNextFault - 1 }

/-- `IS_fault_injection_access`. -/
def isFaultInjectionAccess (disks : Nat → DiskFault Seed) (disk : Nat) : Nat → DiskFault Seed :=
  Function.update disks disk (disks disk).access

/-- The variables of a posting loop.  `tried` are the pieces `ib_post_send` was called
for, in order; `returned` is set when the function has returned `ret`. -/
structure Posting (Seed : Type) where
  j : Nat
  ret : Int
  tried : List Nat
  disks : Nat → DiskFault Seed
  returned : Bool

namespace Pieces

variable (p : Pieces) (post : Nat → Int)

/-- `for (; cb_index[NDATAS+j] == NO_CB_MAPPED || ctx[NDATAS+j]->fault; j++);` -/
def goodParity (j : Nat) : Except Stray Nat :=
  match scan (fun i => !p.isGood i) (p.ndisks - (p.ndatas + j)) (p.ndatas + j) with
  | .ok i => .ok (i - p.ndatas)
  | .error i => .error (.index i)

/-- `ib_post_send` for piece `i` and what follows it up to the `return`. -/
def postPiece (s : Posting Seed) (i : Nat) : Except Stray (Posting Seed) := do
  p.cbAt i
  return { s with ret := post i, tried := s.tried ++ [i], returned := decide (post i ≠ 0) }

/-- The same for a read, which is counted as an access. -/
def postRead (s : Posting Seed) (i : Nat) : Except Stray (Posting Seed) := do
  let s ← p.postPiece post s i
  return { s with disks := isFaultInjectionAccess s.disks i }

/-- One turn of the posting loop of `IS_rdma_read`. -/
def readTurn (s : Posting Seed) (i : Nat) : Except Stray (Posting Seed) := do
  if s.returned then return s
  if ← p.isBad i then
    let j ← p.goodParity s.j
    if j < p.ndisks - p.ndatas then
      let s ← p.postRead post s (p.ndatas + j)
      return { s with j := if s.returned then j else j + 1 }
    else
      return { s with j := j, returned := true }
  else
    p.postRead post s i

/-- The posting loop.  `ret` starts with whatever is on the stack. -/
def readPosts (uninit : Int) (disks : Nat → DiskFault Seed) : Except Stray (Posting Seed) :=
  (List.range p.ndatas).foldlM (p.readTurn post) ⟨0, uninit, [], disks, false⟩

/-- One turn of the waiting loop: the pieces whose queue was polled. -/
def waitTurn (waited : List Nat) (i : Nat) : Except Stray (List Nat) := do
  if ← p.isBad i then return waited
  p.cbAt i
  return waited ++ [i]

/-- The waiting loop, for the last value of `j`. -/
def readWaits (j : Nat) : Except Stray (List Nat) :=
  (List.range (p.ndatas + j)).foldlM p.waitTurn []

/-- What comes out of `IS_rdma_read`. -/
structure ReadRun (Seed : Type) where
  ret : Int
  tried : List Nat
  waited : List Nat
  disks : Nat → DiskFault Seed

/-- `IS_rdma_read` from its posting loop on. -/
def readLoops (uninit : Int) (disks : Nat → DiskFault Seed) : Except Stray (ReadRun Seed) := do
  let s ← p.readPosts post uninit disks
  if s.returned then return ⟨s.ret, s.tried, [], s.disks⟩
  let waited ← p.readWaits s.j
  return ⟨0, s.tried, waited, s.disks⟩

end Pieces

/-- One turn of the first loop of `gf_gen_decode_matrix`: `r` and `decode_index[0..i)`. -/
def decodeTurn (srcInErr : Nat → Bool) (m : Nat) (s : Nat × List Nat) (_ : Nat) :
    Except Stray (Nat × List Nat) :=
  match scan srcInErr (m - s.1) s.1 with
  | .ok r => .ok (r + 1, s.2 ++ [r])
  | .error r => .error (.index r)

/-- `decode_index` as the first loop of `gf_gen_decode_matrix` builds it. -/
def decodeIndex (srcInErr : Nat → Bool) (k m : Nat) : Except Stray (List Nat) := do
  let s ← (List.range k).foldlM (decodeTurn srcInErr m) (0, [])
  return s.2

/-! ## What the loops compute -/

namespace Pieces

variable {p : Pieces} {post : Nat → Int} {i j k : Nat}

theorem entry_of_lt {v : Nat → Bool} (h : i < p.ndisks) : p.entry v i = .ok (v i) := by
  rw [entry, if_pos h]

theorem isBad_of_lt (h : i < p.ndisks) : p.isBad i = .ok (!p.isGood i) := by
  cases hm : p.mapped i <;> simp [isBad, entry_of_lt h, isGood, hm, bind, Except.bind, pure,
    Except.pure]

theorem cbAt_eq_ok_iff : p.cbAt i = .ok () ↔ i < p.ndisks ∧ p.mapped i = true := by
  by_cases h : i < p.ndisks
  · cases hm : p.mapped i <;> simp [cbAt, entry_of_lt h, hm, h, bind, Except.bind, pure,
      Except.pure, throw, throwThe, MonadExceptOf.throw]
  · simp [cbAt, entry, h, bind, Except.bind]

theorem isGood_mapped (h : p.isGood i = true) : p.mapped i = true := by
  rw [isGood, Bool.and_eq_true] at h
  exact h.1

theorem goodParity_ok (h : p.goodParity j = .ok k) :
    scan (fun i => !p.isGood i) (p.ndisks - (p.ndatas + j)) (p.ndatas + j) =
      .ok (p.ndatas + k) := by
  rw [goodParity] at h
  split at h
  · rename_i i hscan
    obtain rfl : i - p.ndatas = k := by simpa using h
    have hle := (scan_ok hscan).1
    rw [hscan, show p.ndatas + (i - p.ndatas) = i by omega]
  · cases h

theorem postPiece_of_mapped {s : Posting Seed} (hlt : i < p.ndisks) (hm : p.mapped i = true) :
    p.postPiece post s i =
      .ok { s with ret := post i, tried := s.tried ++ [i], returned := decide (post i ≠ 0) } := by
  rw [postPiece, cbAt_eq_ok_iff.mpr ⟨hlt, hm⟩]
  rfl

/-- The variables after a read of piece `i` was tried. -/
def posted (post : Nat → Int) (s : Posting Seed) (i j : Nat) : Posting Seed where
  j := j
  ret := post i
  tried := s.tried ++ [i]
  disks := isFaultInjectionAccess s.disks i
  returned := decide (post i ≠ 0)

@[simp] theorem posted_j {s : Posting Seed} : (posted post s i j).j = j := rfl

@[simp] theorem posted_tried {s : Posting Seed} :
    (posted post s i j).tried = s.tried ++ [i] := rfl

@[simp] theorem posted_disks {s : Posting Seed} :
    (posted post s i j).disks = isFaultInjectionAccess s.disks i := rfl

@[simp] theorem posted_returned {s : Posting Seed} :
    (posted post s i j).returned = decide (post i ≠ 0) := rfl

theorem postRead_of_mapped {s : Posting Seed} (hlt : i < p.ndisks) (hm : p.mapped i = true) :
    p.postRead post s i = .ok (posted post s i s.j) := by
  rw [postRead, postPiece_of_mapped hlt hm]
  rfl

theorem readTurn_of_returned {s : Posting Seed} (hr : s.returned = true) :
    p.readTurn post s i = .ok s := by
  rw [readTurn, if_pos hr]
  rfl

/-- A good data piece is read itself. -/
theorem readTurn_of_good {s : Posting Seed} (hr : s.returned = false) (hi : i < p.ndatas)
    (hgood : p.isGood i = true) : p.readTurn post s i = .ok (posted post s i s.j) := by
  have hlt : i < p.ndisks := lt_of_lt_of_le hi p.ndatas_le
  rw [readTurn, hr, isBad_of_lt hlt, hgood]
  exact postRead_of_mapped hlt (isGood_mapped hgood)

/-- For a bad one the next good parity is. -/
theorem readTurn_of_bad {s : Posting Seed} (hr : s.returned = false) (hi : i < p.ndatas)
    (hbad : p.isGood i = false) (hj : p.goodParity s.j = .ok j) :
    p.readTurn post s i =
      .ok (posted post s (p.ndatas + j) (if post (p.ndatas + j) = 0 then j + 1 else j)) := by
  obtain ⟨hle, hlt, hgood, -⟩ := scan_ok (goodParity_ok hj)
  have hlt : p.ndatas + j < p.ndisks := by omega
  have hgood : p.isGood (p.ndatas + j) = true := by simpa using hgood
  rw [readTurn, hr, isBad_of_lt (lt_of_lt_of_le hi p.ndatas_le), hbad]
  simp only [bind, Except.bind, pure, Except.pure, Bool.not_false, if_true, hj,
    if_pos (show j < p.ndisks - p.ndatas by omega), postRead_of_mapped hlt (isGood_mapped hgood)]
  by_cases hpost : post (p.ndatas + j) = 0 <;> simp [posted, hpost]

/-- Everything one turn can do. -/
theorem readTurn_cases {s s' : Posting Seed} (hr : s.returned = false) (hi : i < p.ndatas)
    (h : p.readTurn post s i = .ok s') :
    (p.isGood i = true ∧ s' = posted post s i s.j) ∨
    (∃ j, p.isGood i = false ∧ p.goodParity s.j = .ok j ∧
      s' = posted post s (p.ndatas + j) (if post (p.ndatas + j) = 0 then j + 1 else j)) := by
  cases hgood : p.isGood i with
  | true =>
      rw [readTurn_of_good hr hi hgood] at h
      exact .inl ⟨rfl, (Except.ok.inj h).symm⟩
  | false =>
      cases hj : p.goodParity s.j with
      | ok j =>
          rw [readTurn_of_bad hr hi hgood hj] at h
          exact .inr ⟨j, rfl, rfl, (Except.ok.inj h).symm⟩
      | error e =>
          rw [readTurn, hr, isBad_of_lt (lt_of_lt_of_le hi p.ndatas_le), hgood] at h
          simp [bind, Except.bind, hj] at h

/-! ## The plan -/

/-- The pieces tried in the turns for `0..i`, with the parities before `j` used up: the
good ones among the data pieces seen and the parities passed. -/
structure Planned (p : Pieces) (tried : List Nat) (i j : Nat) : Prop where
  perm : tried.Perm
    ((List.range i).filter p.isGood ++ (List.range' p.ndatas j).filter p.isGood)
  length : tried.length = i
  bound : p.ndatas + j ≤ p.ndisks

variable {tried : List Nat}

theorem planned_nil : Planned p [] 0 0 := ⟨by simp, rfl, p.ndatas_le⟩

theorem Planned.data (h : Planned p tried i j) (hgood : p.isGood i = true) :
    Planned p (tried ++ [i]) (i + 1) j := by
  refine ⟨?_, by simp [h.length], h.bound⟩
  rw [List.range_succ, List.filter_append, List.filter_cons_of_pos hgood, List.filter_nil,
    List.append_assoc]
  refine (h.perm.append_right [i]).trans ?_
  rw [List.append_assoc]
  exact List.perm_append_comm.append_left _

theorem Planned.parity (h : Planned p tried i j) (hbad : p.isGood i = false)
    (hk : p.goodParity j = .ok k) : Planned p (tried ++ [p.ndatas + k]) (i + 1) (k + 1) := by
  have hscan := goodParity_ok hk
  obtain ⟨hle, hlt, -, -⟩ := scan_ok hscan
  refine ⟨?_, by simp [h.length], by omega⟩
  have hfound := filter_range'_scan (a := p.ndatas) (by omega) hscan
  simp only [Bool.not_not, show p.ndatas + k + 1 - p.ndatas = k + 1 by omega,
    show p.ndatas + j - p.ndatas = j by omega] at hfound
  rw [hfound, List.range_succ, List.filter_append, List.filter_cons_of_neg (by simp [hbad]),
    List.filter_nil, List.append_nil, ← List.append_assoc]
  exact h.perm.append_right _

/-- How many good pieces there are up to the parities used up. -/
theorem Planned.length_filter (h : Planned p tried i j) (hi : i ≤ p.ndatas) :
    ((List.range (p.ndatas + j)).filter p.isGood).length =
      i + ((List.range' i (p.ndatas - i)).filter p.isGood).length := by
  have hlen := h.perm.length_eq
  rw [h.length, List.length_append] at hlen
  have hsplit : List.range (p.ndatas + j) =
      List.range i ++ List.range' i (p.ndatas - i) ++ List.range' p.ndatas j := by
    rw [range_append_range', show i + (p.ndatas - i) = p.ndatas by omega, range_append_range']
  rw [hsplit, List.filter_append, List.filter_append, List.length_append, List.length_append]
  omega

theorem Planned.nodup (h : Planned p tried i j) (hi : i ≤ p.ndatas) : tried.Nodup := by
  rw [h.perm.nodup_iff, ← List.filter_append]
  apply List.Nodup.filter
  rw [List.nodup_append]
  refine ⟨List.nodup_range, List.nodup_range', ?_⟩
  intro a ha b hb
  rw [List.mem_range] at ha
  rw [List.mem_range'_1] at hb
  omega

/-- Only chosen pieces are tried. -/
theorem Planned.mem_chosen (h : Planned p tried i j) (hi : i ≤ p.ndatas) (hk : k ∈ tried) :
    k ∈ p.chosen := by
  have hmem : k ∈ (List.range (p.ndatas + j)).filter p.isGood := by
    have hk := h.perm.mem_iff.mp hk
    simp only [List.mem_append, List.mem_filter, List.mem_range, List.mem_range'_1] at hk ⊢
    rcases hk with ⟨hlt, hgood⟩ | ⟨⟨-, hlt⟩, hgood⟩
    · exact ⟨by omega, hgood⟩
    · exact ⟨hlt, hgood⟩
  have hrest : ((List.range' i (p.ndatas - i)).filter p.isGood).length ≤ p.ndatas - i :=
    (List.length_filter_le _ _).trans (by simp)
  have hlen := h.length_filter hi
  have hinit := filter_range_initial p.isGood h.bound
  rw [List.prefix_iff_eq_take] at hinit
  rw [hinit] at hmem
  exact (List.take_prefix_take_left (by omega)).subset hmem

/-- After the last turn all of them have been, and they are the good pieces up to the
parities used up. -/
theorem Planned.chosen_eq (h : Planned p tried p.ndatas j) :
    (List.range (p.ndatas + j)).filter p.isGood = p.chosen ∧ tried.Perm p.chosen := by
  have hsplit : (List.range (p.ndatas + j)).filter p.isGood =
      (List.range p.ndatas).filter p.isGood ++ (List.range' p.ndatas j).filter p.isGood := by
    rw [← List.filter_append, range_append_range']
  have hlen : ((List.range (p.ndatas + j)).filter p.isGood).length = p.ndatas := by
    rw [hsplit, ← h.perm.length_eq, h.length]
  have hinit := filter_range_initial p.isGood h.bound
  rw [List.prefix_iff_eq_take, hlen] at hinit
  exact ⟨hinit, by rw [chosen, goodPieces, ← hinit, hsplit]; exact h.perm⟩

/-! ## The posting loop -/

/-- The posting loop before turn `i`. -/
structure Posted (p : Pieces) (post : Nat → Int) (disks : Nat → DiskFault Seed) (i : Nat)
    (s : Posting Seed) : Prop where
  disks : s.disks = fun d => if d ∈ s.tried then (disks d).access else disks d
  going : s.returned = false → Planned p s.tried i s.j ∧ ∀ k ∈ s.tried, post k = 0
  stopped : s.returned = true →
    s.ret ≠ 0 ∧ (∃ m j, m ≤ i ∧ Planned p s.tried m j) ∧ ∃ k ∈ s.tried, post k ≠ 0

variable {disks : Nat → DiskFault Seed} {s s' : Posting Seed}

/-- Trying the next piece of the plan. -/
theorem Posted.posted (h : Posted p post disks i s) (hr : s.returned = false) (hi : i < p.ndatas)
    {j' : Nat} (hplan : Planned p (s.tried ++ [k]) (i + 1) j')
    (hj : post k = 0 → j = j') : Posted p post disks (i + 1) (posted post s k j) := by
  have hnodup := hplan.nodup hi
  have hnew : k ∉ s.tried := by
    rw [List.nodup_append] at hnodup
    intro hk
    exact hnodup.2.2 k hk k (by simp) rfl
  refine ⟨?_, ?_, ?_⟩
  · funext d
    by_cases hd : d = k
    · subst hd
      simp [isFaultInjectionAccess, h.disks, hnew]
    · simp [isFaultInjectionAccess, h.disks, hd]
  · intro hgo
    have hk : post k = 0 := by simpa using hgo
    refine ⟨by rw [posted_j, hj hk]; exact hplan, ?_⟩
    intro m hm
    rcases List.mem_append.mp hm with hm | hm
    · exact (h.going hr).2 m hm
    · rwa [List.mem_singleton.mp hm]
  · intro hstop
    have hk : post k ≠ 0 := by simpa using hstop
    exact ⟨hk, ⟨i + 1, j', le_rfl, hplan⟩, k, by simp, hk⟩

theorem Posted.step (h : Posted p post disks i s) (hi : i < p.ndatas)
    (hturn : p.readTurn post s i = .ok s') : Posted p post disks (i + 1) s' := by
  cases hr : s.returned with
  | true =>
      rw [readTurn_of_returned hr] at hturn
      obtain rfl := Except.ok.inj hturn
      obtain ⟨hret, ⟨m, j, hm, hplan⟩, hfail⟩ := h.stopped hr
      refine ⟨h.disks, fun hgo => ?_, fun _ => ⟨hret, ⟨m, j, by omega, hplan⟩, hfail⟩⟩
      rw [hr] at hgo
      cases hgo
  | false =>
      have hplan := (h.going hr).1
      rcases readTurn_cases hr hi hturn with ⟨hgood, rfl⟩ | ⟨j, hbad, hj, rfl⟩
      · exact h.posted hr hi (hplan.data hgood) (fun _ => rfl)
      · exact h.posted hr hi (hplan.parity hbad hj) (fun hpost => if_pos hpost)

theorem posted_init (uninit : Int) : Posted p post disks 0 ⟨0, uninit, [], disks, false⟩ where
  disks := by simp
  going := fun _ => ⟨planned_nil, by simp⟩
  stopped := fun h => by cases h

theorem readPosts_posted {uninit : Int} (h : p.readPosts post uninit disks = .ok s) :
    Posted p post disks p.ndatas s :=
  foldlM_range_keeps (fun _ hi _ _ hI hturn => hI.step hi hturn) (posted_init uninit) h

/-- With enough good pieces there is a parity left for every bad data piece. -/
theorem Planned.exists_parity (h : Planned p tried i j) (hi : i < p.ndatas)
    (hbad : p.isGood i = false) (hgood : p.ndatas ≤ p.goodPieces.length) :
    ∃ k, p.goodParity j = .ok k := by
  have hlen := h.length_filter hi.le
  have hrest : ((List.range' i (p.ndatas - i)).filter p.isGood).length ≤ p.ndatas - (i + 1) := by
    rw [show p.ndatas - i = p.ndatas - (i + 1) + 1 by omega, List.range'_succ,
      List.filter_cons_of_neg (by simp [hbad])]
    exact (List.length_filter_le _ _).trans (by simp)
  have hlt : ((List.range (p.ndatas + j)).filter p.isGood).length < p.goodPieces.length := by
    omega
  obtain ⟨k, hk⟩ := scan_total_of_length_lt (fun i => !p.isGood i) h.bound (by
    simp only [Bool.not_not]
    exact hlt)
  exact ⟨k - p.ndatas, by rw [goodParity, hk]⟩

theorem readPosts_total (uninit : Int) (disks : Nat → DiskFault Seed)
    (hgood : p.ndatas ≤ p.goodPieces.length) : ∃ s, p.readPosts post uninit disks = .ok s := by
  refine foldlM_range_total (I := Posted p post disks) (fun _ hi _ _ hI hturn => hI.step hi hturn)
    ?_ (posted_init uninit)
  intro i hi s hI
  cases hr : s.returned with
  | true => exact ⟨s, readTurn_of_returned hr⟩
  | false =>
      cases hg : p.isGood i with
      | true => exact ⟨_, readTurn_of_good hr hi hg⟩
      | false =>
          obtain ⟨k, hk⟩ := (hI.going hr).1.exists_parity hi hg hgood
          exact ⟨_, readTurn_of_bad hr hi hg hk⟩

/-- The waiting loop polls the good pieces in its range. -/
theorem readWaits_eq (hj : p.ndatas + j ≤ p.ndisks) :
    p.readWaits j = .ok ((List.range (p.ndatas + j)).filter p.isGood) := by
  have hturn : ∀ i < p.ndatas + j, ∀ w,
      p.waitTurn w i = .ok (w ++ [i].filter p.isGood) := by
    intro i hi w
    rw [waitTurn, isBad_of_lt (by omega)]
    cases hg : p.isGood i with
    | true =>
        simp [bind, Except.bind, pure, Except.pure, hg,
          cbAt_eq_ok_iff.mpr ⟨show i < p.ndisks by omega, isGood_mapped hg⟩]
    | false => simp [bind, Except.bind, pure, Except.pure, hg]
  have hkeep : ∀ i < p.ndatas + j, ∀ w w', w = (List.range i).filter p.isGood →
      p.waitTurn w i = .ok w' → w' = (List.range (i + 1)).filter p.isGood := by
    intro i hi w w' hw h
    rw [hturn i hi w] at h
    rw [← Except.ok.inj h, hw, List.range_succ, List.filter_append]
  obtain ⟨w, hw⟩ := foldlM_range_total hkeep (fun i hi w _ => ⟨_, hturn i hi w⟩) (s := []) rfl
  rw [readWaits, hw, foldlM_range_keeps hkeep rfl hw]

/-- The posting and the waiting loop together. -/
structure Loops (p : Pieces) (post : Nat → Int) (disks : Nat → DiskFault Seed)
    (r : ReadRun Seed) : Prop where
  nodup : r.tried.Nodup
  chosen : ∀ k ∈ r.tried, k ∈ p.chosen
  disks : ∀ d, r.disks d = if d ∈ r.tried then (disks d).access else disks d
  outcome :
    (r.ret = 0 ∧ r.tried.Perm p.chosen ∧ r.waited = p.chosen ∧ ∀ k ∈ p.chosen, post k = 0) ∨
    (r.ret ≠ 0 ∧ r.waited = [] ∧ ∃ k ∈ r.tried, post k ≠ 0)

theorem Posted.loops {uninit : Int} (h : Posted p post disks p.ndatas s)
    (hs : p.readPosts post uninit disks = .ok s) :
    ∃ r, p.readLoops post uninit disks = .ok r ∧ r.tried = s.tried ∧ Loops p post disks r := by
  have hrun : p.readLoops post uninit disks =
      (if s.returned then .ok ⟨s.ret, s.tried, [], s.disks⟩
        else (p.readWaits s.j).bind fun waited => .ok ⟨0, s.tried, waited, s.disks⟩) := by
    rw [readLoops, hs]
    rfl
  have hdisks : ∀ d, s.disks d = if d ∈ s.tried then (disks d).access else disks d :=
    fun d => by rw [h.disks]
  cases hr : s.returned with
  | true =>
      obtain ⟨hret, ⟨m, j, hm, hplan⟩, hfail⟩ := h.stopped hr
      exact ⟨_, by rw [hrun, if_pos hr], rfl, hplan.nodup hm, fun k hk => hplan.mem_chosen hm hk,
        hdisks, .inr ⟨hret, rfl, hfail⟩⟩
  | false =>
      obtain ⟨hplan, hposts⟩ := h.going hr
      obtain ⟨hfilter, hperm⟩ := hplan.chosen_eq
      have hwaits := readWaits_eq hplan.bound
      rw [hfilter] at hwaits
      refine ⟨_, by rw [hrun, if_neg (by simp [hr]), hwaits]; rfl, rfl, hplan.nodup le_rfl,
        fun k hk => hplan.mem_chosen le_rfl hk, hdisks, .inl ⟨rfl, hperm, rfl, fun k hk => ?_⟩⟩
      exact hposts k (hperm.mem_iff.mpr hk)

theorem readLoops_total (post : Nat → Int) (uninit : Int) (disks : Nat → DiskFault Seed)
    (hgood : p.ndatas ≤ p.goodPieces.length) :
    ∃ r, p.readLoops post uninit disks = .ok r ∧ Loops p post disks r := by
  obtain ⟨s, hs⟩ := readPosts_total uninit disks hgood
  obtain ⟨r, hr, -, hloops⟩ := (readPosts_posted hs).loops hs
  exact ⟨r, hr, hloops⟩

theorem readLoops_ok {uninit : Int} {r : ReadRun Seed}
    (h : p.readLoops post uninit disks = .ok r) :
    Loops p post disks r ∧ (r.ret = 0 → p.ndatas ≤ p.goodPieces.length) := by
  have hposts := h
  rw [readLoops, bind_eq_ok] at hposts
  obtain ⟨s, hs, -⟩ := hposts
  have hI := readPosts_posted hs
  obtain ⟨r', hr', htried, hloops⟩ := hI.loops hs
  obtain rfl : r = r' := Except.ok.inj (h.symm.trans hr')
  refine ⟨hloops, fun hret => ?_⟩
  rcases hloops.outcome with ⟨-, hperm, -, -⟩ | ⟨hret', -, -⟩
  · have hlen := hperm.length_eq
    rw [htried] at hlen
    cases hgo : s.returned with
    | false =>
        rw [(hI.going hgo).1.length, Pieces.chosen, List.length_take] at hlen
        omega
    | true =>
        obtain ⟨-, -, k, hk, hfail⟩ := hI.stopped hgo
        rcases hloops.outcome with ⟨-, -, -, hzero⟩ | ⟨hret', -, -⟩
        · exact absurd (hzero k (hloops.chosen k (htried ▸ hk))) hfail
        · exact absurd hret hret'
  · exact absurd hret hret'

end Pieces

/-! ## Rows of the decode matrix -/

theorem decodeTurn_ok {srcInErr : Nat → Bool} {m i : Nat} {s s' : Nat × List Nat}
    (hs : s.2 = (List.range s.1).filter (fun r => !srcInErr r) ∧ s.2.length = i ∧ s.1 ≤ m)
    (h : decodeTurn srcInErr m s i = .ok s') :
    s'.2 = (List.range s'.1).filter (fun r => !srcInErr r) ∧ s'.2.length = i + 1 ∧ s'.1 ≤ m := by
  obtain ⟨hrows, hlen, hle⟩ := hs
  rw [decodeTurn] at h
  split at h
  · rename_i r hscan
    obtain rfl := Except.ok.inj h
    have hlt := (scan_ok hscan).2.1
    have hfound := filter_range'_scan (Nat.zero_le _) hscan
    rw [Nat.sub_zero, Nat.sub_zero, ← List.range_eq_range', ← List.range_eq_range',
      ← hrows] at hfound
    exact ⟨hfound.symm, by simp [hlen], by simp only; omega⟩
  · cases h

/-- The rows are the first `k` that are not in error. -/
theorem decodeIndex_eq {srcInErr : Nat → Bool} {k m : Nat}
    (hk : k ≤ ((List.range m).filter fun r => !srcInErr r).length) :
    decodeIndex srcInErr k m = .ok (((List.range m).filter fun r => !srcInErr r).take k) := by
  have hgo : ∀ i < k, ∀ s : Nat × List Nat,
      (s.2 = (List.range s.1).filter (fun r => !srcInErr r) ∧ s.2.length = i ∧ s.1 ≤ m) →
      ∃ s', decodeTurn srcInErr m s i = .ok s' := by
    rintro i hi s ⟨hrows, hlen, hle⟩
    obtain ⟨r, hr⟩ := scan_total_of_length_lt srcInErr hle (by rw [← hrows, hlen]; omega)
    exact ⟨(r + 1, s.2 ++ [r]), by rw [decodeTurn, hr]⟩
  have hstep : ∀ i < k, ∀ s s' : Nat × List Nat,
      (s.2 = (List.range s.1).filter (fun r => !srcInErr r) ∧ s.2.length = i ∧ s.1 ≤ m) →
      decodeTurn srcInErr m s i = .ok s' →
      s'.2 = (List.range s'.1).filter (fun r => !srcInErr r) ∧ s'.2.length = i + 1 ∧ s'.1 ≤ m :=
    fun i _ s s' => decodeTurn_ok
  obtain ⟨s, hs⟩ := foldlM_range_total (s := ((0, []) : Nat × List Nat)) hstep hgo (by simp)
  obtain ⟨hrows, hlen, hle⟩ := foldlM_range_keeps hstep (by simp) hs
  have hinit := filter_range_initial (fun r => !srcInErr r) hle
  rw [← hrows, List.prefix_iff_eq_take, hlen] at hinit
  rw [decodeIndex, hs, ← hinit]
  rfl

/-! ## The posting loop of the data path -/

namespace Pieces

variable {p : Pieces} {post : Nat → Int}

theorem toOption_goodParity (j : Nat) :
    (p.goodParity j).toOption =
      ((List.range' (p.ndatas + j) (p.ndisks - (p.ndatas + j))).find? p.isGood).map
        (· - p.ndatas) := by
  rw [goodParity]
  have hscan : (scan (fun i => !p.isGood i) (p.ndisks - (p.ndatas + j)) (p.ndatas + j)).toOption =
      (List.range' (p.ndatas + j) (p.ndisks - (p.ndatas + j))).find? p.isGood := by
    rw [toOption_scan]
    simp only [Bool.not_not]
  rw [← hscan]
  cases scan (fun i => !p.isGood i) (p.ndisks - (p.ndatas + j)) (p.ndatas + j) <;> rfl

/-- The turns for the pieces of a list, when every post succeeds. -/
theorem foldlM_readTurn (hpost : ∀ i, post i = 0) {l : List Nat} (hl : ∀ i ∈ l, i < p.ndatas)
    {s : Posting Seed} (hr : s.returned = false) :
    (l.foldlM (p.readTurn post) s).toOption.map Posting.tried =
      (readTargets p.isGood p.ndisks l (p.ndatas + s.j)).map (s.tried ++ ·) := by
  induction l generalizing s with
  | nil => simp [readTargets, pure, Except.pure, Except.toOption]
  | cons i rest ih =>
      have hi : i < p.ndatas := hl i List.mem_cons_self
      have hrest : ∀ k ∈ rest, k < p.ndatas := fun k hk => hl k (List.mem_cons_of_mem _ hk)
      rw [List.foldlM_cons, readTargets]
      cases hgood : p.isGood i with
      | true =>
          rw [readTurn_of_good hr hi hgood]
          have htail := ih hrest (s := posted post s i s.j) (by simp [hpost i])
          simp only [posted_tried, posted_j, List.append_assoc, List.singleton_append] at htail
          simpa [bind, Except.bind, Function.comp_def] using htail
      | false =>
          have hfind := toOption_goodParity (p := p) s.j
          cases hj : p.goodParity s.j with
          | error e =>
              rw [hj] at hfind
              have hnone := Option.map_eq_none_iff.mp hfind.symm
              have hturn : p.readTurn post s i = .error e := by
                rw [readTurn, hr, isBad_of_lt (lt_of_lt_of_le hi p.ndatas_le), hgood]
                simp [bind, Except.bind, hj]
              rw [hturn, hnone]
              rfl
          | ok j =>
              rw [hj] at hfind
              obtain ⟨k, hk, hkj⟩ := Option.map_eq_some_iff.mp hfind.symm
              have hle : p.ndatas ≤ k := by
                have hmem := List.mem_of_find?_eq_some hk
                rw [List.mem_range'_1] at hmem
                omega
              obtain rfl : k = p.ndatas + j := by omega
              rw [readTurn_of_bad hr hi hgood hj, hk, if_pos (hpost _)]
              have htail := ih hrest (s := posted post s (p.ndatas + j) (j + 1))
                (by simp [hpost])
              simp only [posted_tried, posted_j, List.append_assoc, List.singleton_append,
                ← Nat.add_assoc] at htail
              simpa [bind, Except.bind, Function.comp_def] using htail

/-- With posts that succeed the loops try what `readTargets` lists. -/
theorem toOption_readLoops (uninit : Int) (disks : Nat → DiskFault Seed)
    (hpost : ∀ i, post i = 0) :
    (p.readLoops post uninit disks).toOption.map ReadRun.tried =
      readTargets p.isGood p.ndisks (List.range p.ndatas) p.ndatas := by
  have hposts : (p.readPosts post uninit disks).toOption.map Posting.tried =
      readTargets p.isGood p.ndisks (List.range p.ndatas) p.ndatas := by
    rw [readPosts, foldlM_readTurn hpost (fun i hi => List.mem_range.mp hi) rfl]
    simp
  rw [← hposts]
  cases hs : p.readPosts post uninit disks with
  | error e => rw [readLoops, hs]; rfl
  | ok s =>
      obtain ⟨r, hr, htried, -⟩ := (readPosts_posted hs).loops hs
      rw [hr]
      simp [Except.toOption, htried]

end Pieces

/-! ## The whole read -/

namespace Pieces

variable (p : Pieces)

/-- The loop of `IS_rdma_read` that fills the contexts. -/
def fillCtxs : Except Stray Unit :=
  (List.range p.ndisks).foldlM (fun _ i => do if ← p.entry p.mapped i then p.cbAt i) ()

/-- The loop that injects faults: the fault message goes to `cb[i]`. -/
def injectFaults : Except Stray Unit :=
  (List.range p.ndisks).foldlM (fun _ i => do if ← p.entry p.fault i then p.cbAt i) ()

/-- `IS_rdma_read`, for the faults the generators report. -/
def rdmaRead (post : Nat → Int) (uninit : Int) (disks : Nat → DiskFault Seed) :
    Except Stray (ReadRun Seed) := do
  p.fillCtxs
  p.injectFaults
  p.readLoops post uninit disks

/-- The reads, their accounting, the waits and the rows of the decoder are for the same
pieces, the first `NDATAS` good ones.  A post that fails ends the function early. -/
def PlanAgrees (post : Nat → Int) (uninit : Int) (disks : Nat → DiskFault Seed) : Prop :=
  (∃ r, p.rdmaRead post uninit disks = .ok r ∧
    r.tried.Nodup ∧ (∀ k ∈ r.tried, k ∈ p.chosen) ∧
    (∀ d, r.disks d = if d ∈ r.tried then (disks d).access else disks d) ∧
    ((∀ k ∈ p.chosen, post k = 0) →
      r.ret = 0 ∧ r.tried.Perm p.chosen ∧ r.waited = p.chosen)) ∧
  ∀ srcInErr : Nat → Bool, (∀ i < p.ndisks, srcInErr i = !p.isGood i) →
    decodeIndex srcInErr p.ndatas p.ndisks = .ok p.chosen

variable {p} {i : Nat}

theorem check_eq_ok_iff {v : Nat → Bool} (hi : i < p.ndisks) :
    (do if ← p.entry v i then p.cbAt i : Except Stray Unit) = .ok () ↔
      (v i = true → p.mapped i = true) := by
  cases hv : v i with
  | true =>
      have hcb : p.cbAt i = .ok () ↔ p.mapped i = true := by rw [cbAt_eq_ok_iff]; tauto
      simpa [entry_of_lt hi, hv, bind, Except.bind] using hcb
  | false => simp [entry_of_lt hi, hv, bind, Except.bind, pure, Except.pure]

theorem fillCtxs_eq : p.fillCtxs = .ok () :=
  foldlM_checks.mpr fun _ hi => (check_eq_ok_iff hi).mpr id

theorem injectFaults_eq_ok_iff :
    p.injectFaults = .ok () ↔ ∀ i < p.ndisks, p.fault i = true → p.mapped i = true := by
  rw [injectFaults, foldlM_checks]
  exact forall₂_congr fun i hi => check_eq_ok_iff hi

theorem rdmaRead_eq_ok_iff {post : Nat → Int} {uninit : Int} {disks : Nat → DiskFault Seed}
    {r : ReadRun Seed} :
    p.rdmaRead post uninit disks = .ok r ↔
      (∀ i < p.ndisks, p.fault i = true → p.mapped i = true) ∧
        p.readLoops post uninit disks = .ok r := by
  rw [rdmaRead, fillCtxs_eq, ← injectFaults_eq_ok_iff]
  change (p.injectFaults >>= fun _ => p.readLoops post uninit disks) = .ok r ↔ _
  rw [bind_eq_ok]
  exact ⟨fun ⟨_, h⟩ => h, fun h => ⟨(), h⟩⟩

theorem rdmaRead_ok {post : Nat → Int} {uninit : Int} {disks : Nat → DiskFault Seed}
    {r : ReadRun Seed} (h : p.rdmaRead post uninit disks = .ok r) :
    Loops p post disks r ∧ (r.ret = 0 → p.ndatas ≤ p.goodPieces.length) :=
  readLoops_ok (rdmaRead_eq_ok_iff.mp h).2

theorem rdmaRead_total (post : Nat → Int) (uninit : Int) (disks : Nat → DiskFault Seed)
    (hgood : p.ndatas ≤ p.goodPieces.length)
    (hmapped : ∀ i < p.ndisks, p.fault i = true → p.mapped i = true) :
    ∃ r, p.rdmaRead post uninit disks = .ok r ∧ Loops p post disks r := by
  obtain ⟨r, hr, hloops⟩ := readLoops_total post uninit disks hgood
  exact ⟨r, rdmaRead_eq_ok_iff.mpr ⟨hmapped, hr⟩, hloops⟩

theorem decodeIndex_of_bad (hgood : p.ndatas ≤ p.goodPieces.length) {srcInErr : Nat → Bool}
    (herr : ∀ i < p.ndisks, srcInErr i = !p.isGood i) :
    decodeIndex srcInErr p.ndatas p.ndisks = .ok p.chosen := by
  have hrows : ((List.range p.ndisks).filter fun r => !srcInErr r) = p.goodPieces := by
    apply List.filter_congr
    intro i hi
    rw [herr i (List.mem_range.mp hi), Bool.not_not]
  rw [decodeIndex_eq (by rw [hrows]; exact hgood), hrows]
  rfl

end Pieces

/-- With enough good pieces the plan of a read agrees with the decoder exactly when no fault
is injected for an unmapped piece: its fault message needs the pointer `cb[i]`. -/
theorem read_plan_is_decode_plan (p : Pieces) (post : Nat → Int) (uninit : Int)
    (disks : Nat → DiskFault Seed) (hgood : p.ndatas ≤ p.goodPieces.length) :
    p.PlanAgrees post uninit disks ↔ ∀ i < p.ndisks, p.fault i = true → p.mapped i = true := by
  constructor
  · rintro ⟨⟨r, hr, -⟩, -⟩
    exact (Pieces.rdmaRead_eq_ok_iff.mp hr).1
  · intro hmapped
    refine ⟨?_, fun srcInErr herr => Pieces.decodeIndex_of_bad hgood herr⟩
    obtain ⟨r, hr, hloops⟩ := Pieces.rdmaRead_total post uninit disks hgood hmapped
    refine ⟨r, hr, hloops.nodup, hloops.chosen, hloops.disks, fun hpost => ?_⟩
    rcases hloops.outcome with ⟨hret, hperm, hwaited, -⟩ | ⟨-, -, k, hk, hfail⟩
    · exact ⟨hret, hperm, hwaited⟩
    · exact absurd (hpost k (hloops.chosen k hk)) hfail

theorem four_le_six : 4 ≤ 6 := by decide

/-- Four data pieces and two parities, with one data piece lost and one faulty. -/
def twoBad : Pieces where
  ndatas := 4
  ndisks := 6
  mapped := fun i => i != 1
  fault := fun i => i == 2
  ndatas_le := four_le_six

theorem read_plan_is_decode_plan_twoBad :
    twoBad.chosen = [0, 3, 4, 5] ∧
    (∃ r, twoBad.rdmaRead (fun _ => 0) 7 (fun _ => (⟨0, 5, 0, ()⟩ : DiskFault Unit)) = .ok r ∧
      r.ret = 0 ∧ r.tried.Perm [0, 3, 4, 5] ∧ r.waited = [0, 3, 4, 5]) ∧
    decodeIndex (fun i => !twoBad.isGood i) 4 6 = .ok [0, 3, 4, 5] := by
  have hchosen : twoBad.chosen = [0, 3, 4, 5] := by decide
  obtain ⟨⟨r, hr, -, -, -, hrun⟩, hdecode⟩ := (read_plan_is_decode_plan twoBad (fun _ => 0) 7
    (fun _ => (⟨0, 5, 0, ()⟩ : DiskFault Unit)) (by decide)).mpr (by decide)
  obtain ⟨hret, htried, hwaited⟩ := hrun fun _ _ => rfl
  rw [hchosen] at htried hwaited
  exact ⟨hchosen, ⟨r, hr, hret, htried, hwaited⟩, hchosen ▸ hdecode _ fun _ _ => rfl⟩

/-- One data piece is lost, and its disk is due for a fault. -/
def lostAndDue : Pieces where
  ndatas := 4
  ndisks := 6
  mapped := fun i => i != 1
  fault := fun i => i == 1
  ndatas_le := four_le_six

/-- Five pieces are good, and yet nothing is read. -/
theorem fault_of_lost_piece_strays :
    lostAndDue.goodPieces = [0, 2, 3, 4, 5] ∧
    lostAndDue.rdmaRead (fun _ => 0) 0 (fun _ => (⟨0, 0, 0, ()⟩ : DiskFault Unit)) =
      .error (.unsetCb 1) ∧
    ¬ lostAndDue.PlanAgrees (fun _ => 0) 0 fun _ => (⟨0, 0, 0, ()⟩ : DiskFault Unit) := by
  have hstray : lostAndDue.rdmaRead (fun _ => 0) 0 (fun _ => (⟨0, 0, 0, ()⟩ : DiskFault Unit)) =
      .error (.unsetCb 1) := rfl
  refine ⟨by decide, hstray, ?_⟩
  rintro ⟨⟨r, hr, -⟩, -⟩
  rw [hstray] at hr
  cases hr

/-! ## Too few good pieces -/

namespace Pieces

variable (p : Pieces)

/-- The replica scan of `client_read_done` for data piece `i`.  Its bound is on `i`,
which is below `NDATAS`, and it goes on while `ctxs[j]->fault` is set. -/
def replicaScan (i : Nat) : Except Stray Nat :=
  match scan p.fault (p.ndisks - i) i with
  | .ok j => .ok j
  | .error j => .error (.index j)

/-- With posts that succeed, a read stays inside its arrays, its result says whether
there are too few good pieces, and so does the scan when its reads are done. -/
def ReadIsSafe (uninit : Int) (disks : Nat → DiskFault Seed) : Prop :=
  ∃ r, p.rdmaRead (fun _ => 0) uninit disks = .ok r ∧
    (r.ret ≠ 0 ↔ p.goodPieces.length < p.ndatas) ∧
    (r.ret = 0 → ∀ i < p.ndatas, ∃ j, p.replicaScan i = .ok j)

variable {p} {i : Nat}

/-- There is a piece without a fault for every data piece, since the last of `NDATAS`
good ones comes at the earliest where the last data piece is. -/
theorem replicaScan_total (hgood : p.ndatas ≤ p.goodPieces.length) (hi : i < p.ndatas) :
    ∃ j, p.replicaScan i = .ok j := by
  have hle : i ≤ p.ndisks := hi.le.trans p.ndatas_le
  have hfew : ((List.range i).filter p.isGood).length ≤ i :=
    (List.length_filter_le _ _).trans (by simp)
  obtain ⟨j, hj⟩ := scan_total_of_length_lt (fun i => !p.isGood i) hle (by
    simp only [Bool.not_not]
    exact lt_of_le_of_lt hfew (lt_of_lt_of_le hi hgood))
  obtain ⟨hij, hlt, hgoodj, -⟩ := scan_ok hj
  have hfault : p.fault j = false := by
    simp only [isGood, Bool.not_and, Bool.not_not, Bool.or_eq_false_iff] at hgoodj
    exact hgoodj.2
  obtain ⟨k, hk⟩ := scan_total hij hlt hfault
  exact ⟨k, by rw [replicaScan, hk]⟩

end Pieces

/-- A read is safe when there are enough good pieces and no fault is injected for an
unmapped one. -/
theorem read_is_safe_iff (p : Pieces) (uninit : Int) (disks : Nat → DiskFault Seed) :
    p.ReadIsSafe uninit disks ↔
      p.ndatas ≤ p.goodPieces.length ∧ ∀ i < p.ndisks, p.fault i = true → p.mapped i = true := by
  constructor
  · rintro ⟨r, hr, -, -⟩
    obtain ⟨hrun, henough⟩ := Pieces.rdmaRead_ok hr
    refine ⟨?_, (Pieces.rdmaRead_eq_ok_iff.mp hr).1⟩
    rcases hrun.outcome with ⟨hret, -⟩ | ⟨-, -, k, -, hfail⟩
    · exact henough hret
    · exact absurd rfl hfail
  · rintro ⟨hgood, hmapped⟩
    obtain ⟨r, hr, hrun⟩ := Pieces.rdmaRead_total (fun _ => 0) uninit disks hgood hmapped
    refine ⟨r, hr, ?_, fun _ i hi => Pieces.replicaScan_total hgood hi⟩
    rcases hrun.outcome with ⟨hret, -⟩ | ⟨-, -, k, -, hfail⟩
    · simp [hret, hgood]
    · exact absurd rfl hfail

/-- Three mapped replicas that all have a fault at the same read. -/
def allFaulty : Pieces where
  ndatas := 1
  ndisks := 3
  mapped := fun _ => true
  fault := fun _ => true
  ndatas_le := one_le_three

theorem all_faulty_read_strays :
    allFaulty.rdmaRead (fun _ => 0) 0 (fun _ => (⟨0, 0, 1, ()⟩ : DiskFault Unit)) =
      .error (.index 3) ∧
    ¬ allFaulty.ReadIsSafe 0 fun _ => (⟨0, 0, 1, ()⟩ : DiskFault Unit) := by
  have hstray : allFaulty.rdmaRead (fun _ => 0) 0 (fun _ => (⟨0, 0, 1, ()⟩ : DiskFault Unit)) =
      .error (.index 3) := rfl
  refine ⟨hstray, ?_⟩
  rintro ⟨r, hr, -⟩
  rw [hstray] at hr
  cases hr

end Hydra.DataPath
