/-
  Coding/ErrorLists.lean --- which pieces a disconnect records as lost.

  Source: `IS_disconnect_handler` of `resilience_manager/is_main.c`, its loop over
  `cb_index_map` and the globals `src_in_err`, `src_err_list`, `nerrs` and `nsrcerrs`.

  The loop looks at the first `NDISKS` entries of the map, those of slab 0, before the
  chunks of the server are taken out of it; the lists are then used for every slab.  It
  reads `cb_state_list` at the entry before it looks whether there is one.
-/
import Hydra.Foundation.Count
import Hydra.Manager.Disconnect
import Hydra.Manager.Independence
import Hydra.Coding.DecodeMatrix

set_option autoImplicit false

namespace Hydra.Coding

open Hydra.Foundation Hydra.Wire Hydra.Manager

/-! ## The loop -/

/-- `atomic_read(cb_index_map + c)`; `NO_CB_MAPPED` is -1. -/
def serverIndex (s : Session) (c : Nat) : Int :=
  match s.cbIndexMap c with
  | some j => j
  | none => -1

/-- Piece `c` is unmapped or on a `CB_FAIL` server. -/
def isLost (s : Session) (c : Nat) : Bool :=
  match s.cbIndexMap c with
  | some j => s.cbStateList j = .fail
  | none => true

/-- Piece `i` is recorded, of `k` data pieces. -/
def Erasures.add (k : Nat) (e : Erasures) (i : Nat) : Erasures where
  srcInErr := Function.update e.srcInErr i true
  srcErrList := Function.update e.srcErrList e.nerrs i
  nerrs := e.nerrs + 1
  nsrcerrs := if i < k then e.nsrcerrs + 1 else e.nsrcerrs

/-- The globals, and the indices at which `cb_state_list` has been read. -/
structure Recording where
  lists : Erasures
  reads : List Int

/-- One turn of the loop.  What `cb_state_list` has at -1 does not matter. -/
def recordTurn (cfg : Config) (s : Session) (r : Recording) (i : Nat) : Recording :=
  if r.lists.nerrs < cfg.ndisks - cfg.ndatas then
    { lists := if isLost s i then r.lists.add cfg.ndatas i else r.lists
      reads := r.reads ++ [serverIndex s i] }
  else r

/-- `IS_disconnect_handler` up to "disallow request to those cb chunks". -/
def recordLost (cfg : Config) (b : Nat) (old : Erasures) (s : Session) : Recording :=
  if s.cbStateList b = .connected then ⟨old, [(b : Int)]⟩
  else
    (List.range cfg.ndisks).foldl (recordTurn cfg (s.setState b .fail))
      ⟨{ old with srcInErr := fun _ => false, nerrs := 0, nsrcerrs := 0 }, [(b : Int)]⟩

/-! ## The property -/

/-- The lists name exactly the lost ones of `m` pieces, `k` of them data. -/
structure Erasures.Describes (e : Erasures) (k m : Nat) (lost : Nat → Bool) : Prop where
  increasing : ∀ p q, p < q → q < e.nerrs → e.srcErrList p < e.srcErrList q
  lists : ∀ i, (∃ p < e.nerrs, e.srcErrList p = i) ↔ i < m ∧ lost i = true
  marks : ∀ i, e.srcInErr i = true ↔ i < m ∧ lost i = true
  sources : e.nsrcerrs = ((List.range m).filter fun i => lost i && decide (i < k)).length

/-- The number of slabs. -/
def slabs (cfg : Config) : Nat := cfg.datasizeG / cfg.ndatas

/-- The session when the handler is through. -/
def afterDisconnect (b : Nat) (s : Session) : Session := forgetChunks b (disallowServer b s)

/-- Piece `i` of slab `g` is lost. -/
def slabLost (cfg : Config) (s : Session) (g i : Nat) : Bool := isLost s (g * cfg.ndisks + i)

/-- The handler reads `cb_state_list` at servers of the session only, and its lists fit
every slab it leaves. -/
structure RecordsErasures (cfg : Config) (b : Nat) (old : Erasures) (s : Session) : Prop where
  reads : ∀ j ∈ (recordLost cfg b old s).reads, 0 ≤ j ∧ j < s.cbNum
  describes : ∀ g < slabs cfg, (recordLost cfg b old s).lists.Describes cfg.ndatas cfg.ndisks
    (slabLost cfg (afterDisconnect b s) g)

/-- Before the handler: piece `c` is on a failed server or on the one being lost. -/
def OnLostServer (b : Nat) (s : Session) (c : Nat) : Prop :=
  ∃ j, s.cbIndexMap c = some j ∧ (j = b ∨ s.cbStateList j = .fail)

/-- Before the handler: piece `c` will be lost. -/
def WillBeLost (b : Nat) (s : Session) (c : Nat) : Prop :=
  s.cbIndexMap c = none ∨ OnLostServer b s c ∨ ∃ i, (s.cb b).remoteChunk.chunkMap i = some c

/-! ## What the lists say -/

namespace Erasures

variable {e : Erasures} {k m n : Nat} {lost lost' : Nat → Bool}

theorem Describes.skip (h : e.Describes k n lost) (hn : lost n = false) :
    e.Describes k (n + 1) lost := by
  have hless : ∀ i, i < n + 1 ∧ lost i = true ↔ i < n ∧ lost i = true := by
    intro i
    refine ⟨fun ⟨hi, hlost⟩ => ⟨?_, hlost⟩, fun ⟨hi, hlost⟩ => ⟨by omega, hlost⟩⟩
    rcases Nat.lt_succ_iff_lt_or_eq.mp hi with hi | rfl
    · exact hi
    · rw [hn] at hlost
      cases hlost
  refine ⟨h.increasing, fun i => ?_, fun i => ?_, ?_⟩
  · rw [hless, h.lists]
  · rw [hless, h.marks]
  · rw [h.sources, List.range_succ, List.filter_append]
    simp [hn]

theorem Describes.add (h : e.Describes k n lost) (hn : lost n = true) :
    (e.add k n).Describes k (n + 1) lost := by
  have hbefore : ∀ p < e.nerrs, e.srcErrList p < n := fun p hp =>
    ((h.lists _).mp ⟨p, hp, rfl⟩).1
  have hold : ∀ p < e.nerrs, (e.add k n).srcErrList p = e.srcErrList p := fun p hp =>
    Function.update_of_ne (by omega) _ _
  have hnew : (e.add k n).srcErrList e.nerrs = n := Function.update_self _ _ _
  refine ⟨fun p q hpq hq => ?_, fun i => ⟨?_, ?_⟩, fun i => ?_, ?_⟩
  · rcases Nat.lt_succ_iff_lt_or_eq.mp (show q < e.nerrs + 1 from hq) with hq | rfl
    · rw [hold p (by omega), hold q hq]
      exact h.increasing p q hpq hq
    · rw [hold p hpq, hnew]
      exact hbefore p hpq
  · rintro ⟨p, hp, rfl⟩
    rcases Nat.lt_succ_iff_lt_or_eq.mp (show p < e.nerrs + 1 from hp) with hp | rfl
    · rw [hold p hp]
      have := (h.lists _).mp ⟨p, hp, rfl⟩
      exact ⟨by omega, this.2⟩
    · rw [hnew]
      exact ⟨by omega, hn⟩
  · rintro ⟨hi, hlost⟩
    rcases Nat.lt_succ_iff_lt_or_eq.mp hi with hi | rfl
    · obtain ⟨p, hp, rfl⟩ := (h.lists i).mpr ⟨hi, hlost⟩
      exact ⟨p, Nat.lt_succ_of_lt hp, hold p hp⟩
    · exact ⟨e.nerrs, Nat.lt_succ_self _, hnew⟩
  · by_cases hi : i = n
    · subst hi
      simp [Erasures.add, hn]
    · have hmark : (e.add k n).srcInErr i = e.srcInErr i := Function.update_of_ne hi _ _
      rw [hmark, h.marks]
      exact and_congr_left fun _ => by omega
  · show (if n < k then e.nsrcerrs + 1 else e.nsrcerrs) = _
    rw [List.range_succ, List.filter_append, List.length_append, ← h.sources]
    split
    · rename_i hk
      simp [hn, hk]
    · rename_i hk
      simp [hk]

/-- The lists fit one set of pieces only. -/
theorem Describes.congr_iff (h : e.Describes k m lost) :
    e.Describes k m lost' ↔ ∀ i < m, lost' i = lost i := by
  constructor
  · intro h' i hi
    have hmark : lost' i = true ↔ lost i = true := by
      simpa [hi] using (h'.marks i).symm.trans (h.marks i)
    exact Bool.eq_iff_iff.mpr hmark
  · intro hsame
    have hboth : ∀ i, i < m ∧ lost' i = true ↔ i < m ∧ lost i = true := fun i =>
      and_congr_right fun hi => by rw [hsame i hi]
    refine ⟨h.increasing, fun i => (h.lists i).trans (hboth i).symm,
      fun i => (h.marks i).trans (hboth i).symm, ?_⟩
    rw [h.sources]
    congr 1
    refine List.filter_congr fun i hi => ?_
    rw [hsame i (List.mem_range.mp hi)]

/-- Lists that fit are what `gf_gen_decode_matrix` expects. -/
theorem Describes.wellFormed (h : e.Describes k m lost) (hpos : 1 ≤ e.nerrs)
    (hle : e.nerrs ≤ m - k) : e.WellFormed k m := by
  let data := (Finset.range e.nerrs).filter fun p => e.srcErrList p < k
  have hdata : ∀ p, p ∈ data ↔ p < e.nerrs ∧ e.srcErrList p < k := fun p => by simp [data]
  have himage : data.image e.srcErrList =
      ((List.range m).filter fun i => lost i && decide (i < k)).toFinset := by
    ext i
    simp only [Finset.mem_image, hdata, List.mem_toFinset, List.mem_filter, List.mem_range,
      Bool.and_eq_true, decide_eq_true_eq, ← and_assoc, ← h.lists]
    constructor
    · rintro ⟨p, ⟨hp, hk⟩, rfl⟩
      exact ⟨⟨p, hp, rfl⟩, hk⟩
    · rintro ⟨⟨p, hp, rfl⟩, hk⟩
      exact ⟨p, ⟨hp, hk⟩, rfl⟩
  have hcard : e.nsrcerrs = data.card := by
    have hmono : StrictMonoOn e.srcErrList data := fun p _ q hq hpq =>
      h.increasing p q hpq ((hdata q).mp hq).1
    rw [← Finset.card_image_of_injOn hmono.injOn, himage,
      List.toFinset_card_of_nodup (List.nodup_range.filter _), h.sources]
  -- The data pieces are listed first, as the list is increasing.
  have hfirst : ∀ p, p ∈ data ↔ p < e.nsrcerrs := by
    intro p
    rw [hcard]
    refine mem_iff_lt_card fun p q hpq hq => ?_
    obtain ⟨hq, hk⟩ := (hdata q).mp hq
    exact (hdata p).mpr ⟨by omega, (h.increasing p q hpq hq).trans hk⟩
  refine ⟨hpos, hle, h.increasing, fun p hp => ((h.lists _).mp ⟨p, hp, rfl⟩).1, ?_,
    fun p hp => ?_, fun r hr => ?_⟩
  · rw [hcard]
    exact (Finset.card_filter_le _ _).trans (Finset.card_range _).le
  · rw [← hfirst, hdata, and_iff_right hp]
  · rw [h.marks, ← h.lists]

end Erasures

/-! ## The loop -/

/-- The loop has gone over the first `n` pieces of slab 0. -/
structure Recorded (cfg : Config) (b : Nat) (s : Session) (n : Nat) (r : Recording) : Prop where
  describes : r.lists.Describes cfg.ndatas n (isLost s)
  count : r.lists.nerrs = ((List.range n).filter (isLost s)).length
  reads : ∀ j ∈ r.reads, j = b ∨ ∃ i < n, j = serverIndex s i
  visited : ∀ i < n, isLost s i = true → serverIndex s i ∈ r.reads

section Loop

variable {cfg : Config} {b n : Nat} {old : Erasures} {s : Session} {r : Recording}

theorem length_filter_range_succ (p : Nat → Bool) (n : Nat) :
    ((List.range (n + 1)).filter p).length =
      ((List.range n).filter p).length + if p n then 1 else 0 := by
  rw [List.range_succ, List.filter_append, List.length_append]
  cases hn : p n <;> simp [hn]

theorem length_filter_range_mono (p : Nat → Bool) {n m : Nat} (h : n ≤ m) :
    ((List.range n).filter p).length ≤ ((List.range m).filter p).length :=
  ((filter_range_initial p h).sublist).length_le

/-- The turns left out by the bound on `nerrs` have nothing to record. -/
theorem Recorded.turn (h : Recorded cfg b s n r) (hn : n < cfg.ndisks)
    (hbound : ((List.range cfg.ndisks).filter (isLost s)).length ≤ cfg.ndisks - cfg.ndatas) :
    Recorded cfg b s (n + 1) (recordTurn cfg s r n) := by
  have hcount := length_filter_range_succ (isLost s) n
  by_cases hmore : r.lists.nerrs < cfg.ndisks - cfg.ndatas
  · rw [recordTurn, if_pos hmore]
    refine ⟨?_, ?_, fun j hj => ?_, fun i hi hlost => ?_⟩
    · show Erasures.Describes (if isLost s n then _ else _) _ _ _
      split
      · rename_i hlost
        exact h.describes.add hlost
      · rename_i hlost
        exact h.describes.skip (by simpa using hlost)
    · show Erasures.nerrs (if isLost s n then _ else _) = _
      rw [hcount, ← h.count]
      split
      · rfl
      · rfl
    · rcases List.mem_append.mp hj with hj | hj
      · rcases h.reads j hj with rfl | ⟨i, hi, rfl⟩
        · exact .inl rfl
        · exact .inr ⟨i, by omega, rfl⟩
      · exact .inr ⟨n, by omega, List.mem_singleton.mp hj⟩
    · rcases Nat.lt_succ_iff_lt_or_eq.mp hi with hi | rfl
      · exact List.mem_append_left _ (h.visited i hi hlost)
      · exact List.mem_append_right _ (List.mem_singleton.mpr rfl)
  · rw [recordTurn, if_neg hmore]
    have hnot : isLost s n = false := by
      cases hlost : isLost s n with
      | false => rfl
      | true =>
          have := length_filter_range_mono (isLost s) (show n + 1 ≤ cfg.ndisks from hn)
          have := h.count
          rw [hlost, if_pos rfl] at hcount
          omega
    refine ⟨h.describes.skip hnot, ?_, fun j hj => ?_, fun i hi hlost => ?_⟩
    · rw [hcount, hnot, h.count]
      rfl
    · rcases h.reads j hj with rfl | ⟨i, hi, rfl⟩
      · exact .inl rfl
      · exact .inr ⟨i, by omega, rfl⟩
    · rcases Nat.lt_succ_iff_lt_or_eq.mp hi with hi | rfl
      · exact h.visited i hi hlost
      · rw [hnot] at hlost
        cases hlost

theorem recorded_recordLost (hstate : s.cbStateList b ≠ .connected)
    (hbound : ((List.range cfg.ndisks).filter (isLost (s.setState b .fail))).length ≤
      cfg.ndisks - cfg.ndatas) :
    Recorded cfg b (s.setState b .fail) cfg.ndisks (recordLost cfg b old s) := by
  have hturns : ∀ n ≤ cfg.ndisks, Recorded cfg b (s.setState b .fail) n
      ((List.range n).foldl (recordTurn cfg (s.setState b .fail))
        ⟨{ old with srcInErr := fun _ => false, nerrs := 0, nsrcerrs := 0 }, [(b : Int)]⟩) := by
    intro n
    induction n with
    | zero =>
        intro _
        refine ⟨⟨fun p q _ hq => absurd hq (Nat.not_lt_zero q), fun i => by simp,
          fun i => by simp, rfl⟩, rfl, fun j hj => .inl (List.mem_singleton.mp hj),
          fun i hi => absurd hi (Nat.not_lt_zero i)⟩
    | succ n ih =>
        intro hn
        rw [List.range_succ, List.foldl_append]
        exact (ih (by omega)).turn (by omega) hbound
  rw [recordLost, if_neg hstate]
  exact hturns cfg.ndisks le_rfl

/-! ## Lost pieces -/

theorem serverIndex_of_none {c : Nat} (h : s.cbIndexMap c = none) : serverIndex s c = -1 := by
  rw [serverIndex, h]

theorem serverIndex_of_some {c j : Nat} (h : s.cbIndexMap c = some j) :
    serverIndex s c = j := by
  rw [serverIndex, h]

theorem isLost_eq_true {c : Nat} :
    isLost s c = true ↔
      s.cbIndexMap c = none ∨ ∃ j, s.cbIndexMap c = some j ∧ s.cbStateList j = .fail := by
  rw [isLost]
  cases hc : s.cbIndexMap c with
  | none => simp
  | some j => simp

theorem isLost_setState {c : Nat} :
    isLost (s.setState b .fail) c = true ↔ s.cbIndexMap c = none ∨ OnLostServer b s c := by
  rw [isLost_eq_true]
  refine or_congr Iff.rfl (exists_congr fun j => and_congr_right fun _ => ?_)
  show Function.update s.cbStateList b .fail j = .fail ↔ _
  by_cases hj : j = b
  · simp [hj]
  · simp [hj]

theorem onLostServer_iff {c : Nat} (h : s.cbIndexMap c ≠ none) :
    OnLostServer b s c ↔ isLost (s.setState b .fail) c = true := by
  rw [isLost_setState, or_iff_right h]

theorem isLost_afterDisconnect {c : Nat} :
    isLost (afterDisconnect b s) c = true ↔ WillBeLost b s c := by
  have hforgotten := forgotten_foldl b (List.finRange maxMrSizeGb) (disallowServer b s)
  have hindex : (afterDisconnect b s).cbIndexMap c =
      if ∃ i, (s.cb b).remoteChunk.chunkMap i = some c then none else s.cbIndexMap c := by
    rw [afterDisconnect, forgetChunks, hforgotten.index]
    exact clearPicked_finRange _ _ _ _
  have hstates : (afterDisconnect b s).cbStateList = (s.setState b .fail).cbStateList := by
    rw [afterDisconnect, forgetChunks, hforgotten.states]
    rfl
  rw [WillBeLost, ← or_assoc, ← isLost_setState, isLost_eq_true, hstates, hindex, isLost_eq_true]
  by_cases hpicked : ∃ i, (s.cb b).remoteChunk.chunkMap i = some c
  · rw [if_pos hpicked]
    exact ⟨fun _ => .inr hpicked, fun _ => .inl rfl⟩
  · rw [if_neg hpicked]
    exact ⟨.inl, fun h => h.resolve_right hpicked⟩

/-- The handler records what is lost just when slab 0 was whole and every slab loses
what slab 0 loses. -/
theorem recordsErasures_of_servers (hslabs : 0 < slabs cfg)
    (hservers : ∀ c j, s.cbIndexMap c = some j → j < s.cbNum) (hb : b < s.cbNum)
    (hstate : s.cbStateList b ≠ .connected)
    (hbound : ∀ g < slabs cfg,
      ((List.range cfg.ndisks).filter (slabLost cfg (afterDisconnect b s) g)).length ≤
        cfg.ndisks - cfg.ndatas) :
    RecordsErasures cfg b old s ↔
      (∀ i < cfg.ndisks, s.cbIndexMap i ≠ none) ∧
        ∀ g < slabs cfg, ∀ i < cfg.ndisks,
          (WillBeLost b s (g * cfg.ndisks + i) ↔ OnLostServer b s i) := by
  have hfewer : ∀ i, isLost (s.setState b .fail) i = true →
      slabLost cfg (afterDisconnect b s) 0 i = true := by
    intro i hi
    rw [slabLost, Nat.zero_mul, Nat.zero_add, isLost_afterDisconnect]
    exact (isLost_setState.mp hi).imp_right .inl
  have hrec : Recorded cfg b (s.setState b .fail) cfg.ndisks (recordLost cfg b old s) :=
    recorded_recordLost hstate
      ((List.monotone_filter_right _ hfewer).length_le.trans (hbound 0 hslabs))
  have hfits : ∀ g, (recordLost cfg b old s).lists.Describes cfg.ndatas cfg.ndisks
        (slabLost cfg (afterDisconnect b s) g) ↔
      ∀ i < cfg.ndisks, (WillBeLost b s (g * cfg.ndisks + i) ↔
        isLost (s.setState b .fail) i = true) := by
    intro g
    rw [hrec.describes.congr_iff]
    refine forall₂_congr fun i _ => ?_
    rw [Bool.eq_iff_iff, slabLost, isLost_afterDisconnect]
  constructor
  · intro h
    have hmapped : ∀ i < cfg.ndisks, s.cbIndexMap i ≠ none := by
      intro i hi hnone
      have hread := hrec.visited i hi (isLost_setState.mpr (.inl hnone))
      have hindex : serverIndex (s.setState b .fail) i = -1 := serverIndex_of_none hnone
      rw [hindex] at hread
      have := h.reads _ hread
      omega
    refine ⟨hmapped, fun g hg i hi => ?_⟩
    rw [(hfits g).mp (h.describes g hg) i hi, onLostServer_iff (hmapped i hi)]
  · rintro ⟨hmapped, hsame⟩
    refine ⟨fun j hj => ?_, fun g hg => ?_⟩
    · rcases hrec.reads j hj with rfl | ⟨i, hi, rfl⟩
      · omega
      · obtain ⟨j, hj⟩ := Option.ne_none_iff_exists'.mp (hmapped i hi)
        have hindex : serverIndex (s.setState b .fail) i = j := serverIndex_of_some hj
        have := hservers i j hj
        omega
    · rw [hfits]
      intro i hi
      rw [hsame g hg i hi, onLostServer_iff (hmapped i hi)]

end Loop

/-! ## Runs -/

/-- Every piece is unmapped or on one of `n` servers. -/
structure OnServers (n : Nat) (s : Session) : Prop where
  cbNum : s.cbNum = n
  index : ∀ c j, s.cbIndexMap c = some j → j < n

section Runs

variable {cfg : Config} {n : Nat} {s t : Session}

theorem bindServers_cbNum {selectChunk k : Nat} {info : Nat → Message} {servers : List Nat}
    (h : bindServers cfg selectChunk info servers k s = some t) : t.cbNum = s.cbNum := by
  induction servers generalizing s k with
  | nil =>
      obtain rfl := Option.some.inj h
      rfl
  | cons d rest ih =>
      obtain ⟨u, hbind, hrest⟩ := Option.bind_eq_some_iff.mp h
      rw [ih hrest]
      rcases bindServer_cases cfg d (selectChunk + k) (info k) s with
        ⟨-, heq⟩ | ⟨i, -, -, heq⟩ | ⟨i, e, -, -, heq⟩
      · rw [heq] at hbind
        obtain rfl := Option.some.inj hbind
        exact sendBind_cbNum d (selectChunk + k) s
      · rw [heq] at hbind
        cases hbind
      · rw [heq] at hbind
        obtain rfl := Option.some.inj hbind
        exact sendBind_cbNum d (selectChunk + k) s

theorem OnServers.mapRound (hdisks : 0 < cfg.ndisks) (h : OnServers n s) {env : RoundEnv}
    {selectChunk : Nat} {r : Session × Int}
    (hround : isSingleChunkMap cfg s.cbNum env selectChunk s = some r) : OnServers n r.1 := by
  obtain ⟨queried, -, ⟨servers, hservers, heq⟩ | ⟨-, heq⟩⟩ :=
    isSingleChunkMap_eq cfg hdisks env selectChunk s
  · obtain ⟨hselected, -⟩ := roundServers_selected rfl hservers
    rw [heq] at hround
    obtain ⟨t, ht, rfl⟩ := Option.map_eq_some_iff.mp hround
    obtain ⟨hindex, hnum⟩ := queryServers_frame env.freeMem s queried
    refine ⟨by rw [bindServers_cbNum ht, hnum, h.cbNum], fun c j hc => ?_⟩
    rcases bindServers_cbIndexMap ht hc with ⟨k, hk, -⟩ | ⟨-, hold⟩
    · exact h.cbNum ▸ hselected.bound j (List.mem_of_getElem? hk)
    · rw [hindex] at hold
      exact h.index c j hold
  · rw [heq] at hround
    obtain rfl := Option.some.inj hround
    obtain ⟨hindex, hnum⟩ := queryServers_frame env.freeMem s queried
    exact ⟨hnum.trans h.cbNum, fun c j hc => h.index c j (by rwa [hindex] at hc)⟩

theorem OnServers.shrink (h : OnServers n s) (hnum : t.cbNum = s.cbNum)
    (hindex : ∀ c j, t.cbIndexMap c = some j → s.cbIndexMap c = some j) : OnServers n t :=
  ⟨hnum.trans h.cbNum, fun c j hc => h.index c j (hindex c j hc)⟩

theorem unmapPicked_cbNum {b : Nat} {pick : ChunkIx → Bool}
    (h : unmapPicked cfg b pick s = some t) : t.cbNum = s.cbNum := by
  simp only [unmapPicked] at h
  split at h
  · cases h
  · obtain rfl := Option.some.inj h
    rfl

theorem releaseServer_cbNum {b : Nat} {l : List ChunkIx} (h : releaseServer cfg b l s = some t) :
    t.cbNum = s.cbNum := by
  rw [releaseServer_eq h]
  clear h
  induction l generalizing s with
  | nil => rfl
  | cons i rest ih =>
      rw [List.foldl_cons, ih, forgetChunk]
      split <;> rfl

theorem isDisconnectHandler_cbNum {b : Nat} (h : isDisconnectHandler cfg b s = some t) :
    t.cbNum = s.cbNum := by
  rw [isDisconnectHandler] at h
  split at h
  · obtain rfl := Option.some.inj h
    rfl
  · obtain ⟨u, hu, hrest⟩ := Option.bind_eq_some_iff.mp h
    have hnum := unmapPicked_cbNum hu
    exact (releaseServer_cbNum hrest).trans hnum

theorem evictBegin_cbNum {b : Nat} {msg : Message} {r : Session × Option (List Nat)}
    (h : evictBegin cfg b msg s = some r) : r.1.cbNum = s.cbNum := by
  simp only [evictBegin] at h
  split at h
  · obtain rfl := Option.some.inj h
    rfl
  split at h
  · cases h
  · obtain ⟨u, hu, rfl⟩ := Option.map_eq_some_iff.mp h
    have hnum := unmapPicked_cbNum hu
    exact hnum

theorem OnServers.step (hdisks : 0 < cfg.ndisks) {s t : SlabState} {a : SlabAction}
    (h : OnServers n s.sess) (hstep : slabStep cfg s a = some t) : OnServers n t.sess := by
  cases a with
  | mapRound selectChunk env =>
      obtain ⟨r, hr, rfl⟩ := Option.map_eq_some_iff.mp hstep
      exact h.mapRound hdisks hr
  | disconnect b =>
      obtain ⟨u, hu, rfl⟩ := Option.map_eq_some_iff.mp hstep
      exact h.shrink (isDisconnectHandler_cbNum hu) fun c j => isDisconnectHandler_shrinks hu
  | evict b msg =>
      obtain ⟨r, hr, rfl⟩ := Option.map_eq_some_iff.mp hstep
      exact h.shrink (evictBegin_cbNum hr) fun c j => evictBegin_shrinks hr
  | remap env =>
      simp only [slabStep] at hstep
      split at hstep
      · obtain ⟨u, hu, hrest⟩ := Option.bind_eq_some_iff.mp hstep
        obtain ⟨r, hr, rfl⟩ := Option.map_eq_some_iff.mp hrest
        obtain ⟨-, -, hnum, hindex⟩ := releaseChunk_frame hu
        have hshrunk : OnServers n u := h.shrink hnum fun c j hc => by rwa [hindex] at hc
        exact hshrunk.mapRound hdisks hr
      · cases hstep
  | finish =>
      simp only [slabStep] at hstep
      split at hstep
      · obtain rfl := Option.some.inj hstep
        exact ⟨h.cbNum, h.index⟩
      · cases hstep

end Runs

/-- In every state of every run, a disconnect of a server with chunks reads the states of
servers only and records the erasures of every slab just when no piece of slab 0 was
unmapped before and every slab loses the pieces that slab 0 has on failed servers. -/
theorem recordsErasures_iff (cfg : Config) (hdisks : 0 < cfg.ndisks) (hslabs : 0 < slabs cfg)
    (cbNum : Nat) (s : SlabState)
    (hrun : Reach (slabStep cfg) (fun _ _ => True) (slabInit cfg cbNum) s)
    (old : Erasures) (b : Nat) (hb : b < cbNum) (hstate : s.sess.cbStateList b ≠ .connected)
    (hbound : ∀ g < slabs cfg,
      ((List.range cfg.ndisks).filter (slabLost cfg (afterDisconnect b s.sess) g)).length ≤
        cfg.ndisks - cfg.ndatas) :
    RecordsErasures cfg b old s.sess ↔
      (∀ i < cfg.ndisks, s.sess.cbIndexMap i ≠ none) ∧
        ∀ g < slabs cfg, ∀ i < cfg.ndisks,
          (WillBeLost b s.sess (g * cfg.ndisks + i) ↔ OnLostServer b s.sess i) := by
  have hon : OnServers cbNum s.sess := by
    refine hrun.invariant (I := fun s => OnServers cbNum s.sess) ⟨rfl, fun c j hc => ?_⟩ ?_
    · cases hc
    · exact fun u a v hu _ hstep => hu.step hdisks hstep
  obtain rfl := hon.cbNum
  exact recordsErasures_of_servers hslabs hon.index hb hstate hbound

/-- One slab is mapped to servers 0, 1 and 2. -/
def mapFirst : List SlabAction := [.mapRound 0 (roundEnv 0 0)]

/-- Then server 0 is lost. -/
def loseFirst : List SlabAction := mapFirst ++ [.disconnect 0]

theorem recordsErasures_iff_mapFirst :
    ∃ s, Reach (slabStep .rep) (fun _ _ => True) (slabInit .rep 4) s ∧
      ∀ old, RecordsErasures .rep 0 old s.sess := by
  have hrun : Reach (slabStep .rep) (fun _ _ => True) (slabInit .rep 4)
      ((runActions (slabStep .rep) (slabInit .rep 4) mapFirst).get (by rfl)) := by
    apply reach_of_runActions (Option.some_get _).symm
    exact ⟨trivial, fun _ _ => trivial⟩
  refine ⟨_, hrun, fun old => (recordsErasures_iff .rep (by decide) (by decide) 4 _ hrun old 0
    (by decide) (by decide) (by decide +kernel)).mpr ?_⟩
  have hmapped : ∀ i < Config.rep.ndisks, ((runActions (slabStep .rep) (slabInit .rep 4)
      mapFirst).get (by rfl)).sess.cbIndexMap i ≠ none := by
    decide +kernel
  refine ⟨hmapped, fun g hg i hi => ?_⟩
  rw [← isLost_afterDisconnect, onLostServer_iff (hmapped i hi)]
  revert g i
  decide +kernel

/-- The next disconnect reads `cb_state_list[-1]`. -/
theorem second_disconnect_strays :
    ∃ s, Reach (slabStep .rep) (fun _ _ => True) (slabInit .rep 4) s ∧
      s.sess.cbStateList 1 = .mapped ∧
      (∀ g < slabs .rep, ((List.range 3).filter
        (slabLost .rep (afterDisconnect 1 s.sess) g)).length ≤ 2) ∧
      ∀ old, ¬RecordsErasures .rep 1 old s.sess := by
  have hrun : Reach (slabStep .rep) (fun _ _ => True) (slabInit .rep 4)
      ((runActions (slabStep .rep) (slabInit .rep 4) loseFirst).get (by rfl)) := by
    apply reach_of_runActions (Option.some_get _).symm
    exact ⟨trivial, fun _ _ => ⟨trivial, fun _ _ => trivial⟩⟩
  refine ⟨_, hrun, rfl, by decide +kernel, fun old h => ?_⟩
  have hread := h.reads (-1) (List.mem_cons_of_mem _ List.mem_cons_self)
  exact absurd hread.1 (by decide)

end Hydra.Coding
