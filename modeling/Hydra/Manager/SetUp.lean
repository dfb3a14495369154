/-
  Manager/SetUp.lean --- servers that fail to come up or to supply.

  Source: `IS_single_chunk_map`, `rdma_connect_upper` and `rdma_connect_down` of
  `resilience_manager/is_main.c`.

  A mapping round connects the idle servers it has selected and asks all of them for
  their free memory, and ignores whether that worked.  A server that turned `CB_FAIL`
  leaves the sentinels `-1` and `NUM_CB` in its entry; what is ranked behind the first
  `NDISKS` is told apart by one comparison with zero.
-/
import Hydra.Manager.Ranking

set_option autoImplicit false

namespace Hydra.Manager

open Hydra.Foundation

/-! ## Set-up -/

/-- The results of the steps that bring a connection up. -/
structure SetUp where
  createId : Int
  bindClient : Int
  setupQp : Int
  setupBuffers : Int
  postRecv : Int
  connectClient : Int
  deriving DecidableEq, Repr

namespace SetUp

/-- What `rdma_connect_upper` returns. -/
def rdmaConnectUpper (u : SetUp) : Int :=
  if u.bindClient ≠ 0 then u.bindClient
  else if u.setupQp ≠ 0 then u.setupQp
  else u.setupBuffers

/-- What `rdma_connect_down` returns. -/
def rdmaConnectDown (u : SetUp) : Int :=
  if u.postRecv ≠ 0 then u.postRecv else u.connectClient

/-- All steps succeeded. -/
def ok (u : SetUp) : Bool :=
  decide (u.createId = 0) && decide (u.rdmaConnectUpper = 0) && decide (u.rdmaConnectDown = 0)

/-- Set-up without an error. -/
def fine : SetUp := ⟨0, 0, 0, 0, 0, 0⟩

end SetUp

/-- How a round goes: the servers that turned `CB_FAIL` between the selection and their
query, the set-up of each server, the free memory it reports and whether it answers a
bind. -/
structure RoundOutcome where
  failed : Nat → Bool
  setUp : Nat → SetUp
  freeMem : Nat → Int32
  answered : Nat → Bool

namespace RoundOutcome

variable (o : RoundOutcome)

/-- `cb_state_list` when the queries start. -/
def stateAtQuery (s : Session) (b : Nat) : CbState :=
  if o.failed b then .fail else s.cbStateList b

/-- The set-up of the server is run in this round and fails. -/
def setUpFails (s : Session) (b : Nat) : Bool :=
  decide (o.stateAtQuery s b = .idle) && !(o.setUp b).ok

/-- `target_size_g` after the query: what the server reported, or what was there when it
could not. -/
def targetSizeG (s : Session) (b : Nat) : Int32 :=
  if o.setUpFails s b then Int32.ofInt (s.cb b).remoteChunk.targetSizeG else o.freeMem b

/-- The entry of a selected server in `free_mem` and `free_mem_sorted`. -/
def entry (s : Session) (b : Nat) : Int32 × Nat :=
  if o.stateAtQuery s b = .fail then (-1, s.cbNum) else (o.targetSizeG s b, b)

/-- The entries after the sort. -/
def ranked (cfg : Config) (s : Session) (selection : List Nat) : List (Int32 × Nat) :=
  sortFirst lessFree cfg.ndisks (selection.map (o.entry s))

/-- The indices the bind loop sends `BIND_SINGLE` to; `none` when the round returns
before it. -/
def bindList (cfg : Config) (s : Session) (selection : List Nat) : Option (List Nat) :=
  if selection.length < cfg.ndisks then none
  else
    match (o.ranked cfg s selection)[cfg.ndisks - 1]? with
    | none => none
    | some last =>
        if last.1 = 0 then none
        else some (((o.ranked cfg s selection).take cfg.ndisks).map Prod.snd)

/-- `cb_state_list` after the queries. -/
def statesQueried (s : Session) (selection : List Nat) : Nat → CbState :=
  selection.foldl (fun states b =>
    if states b = .idle then Function.update states b .connected else states) (o.stateAtQuery s)

/-- `cb_state_list` after the bind loop. -/
def statesBound (servers : List Nat) (states : Nat → CbState) : Nat → CbState :=
  servers.foldl (fun states b =>
    if o.answered b then Function.update states b .mapped else states) states

/-- `cb_state_list` at the end of the round. -/
def statesAfter (cfg : Config) (s : Session) (selection : List Nat) : Nat → CbState :=
  if selection.length < cfg.ndisks then o.stateAtQuery s
  else o.statesBound ((o.bindList cfg s selection).getD []) (o.statesQueried s selection)

/-- The bind loop goes to servers that are there, were set up and have memory to supply,
and a server that could not be set up does not stay connected. -/
structure BindsSuppliers (cfg : Config) (s : Session) (selection : List Nat) : Prop where
  supplied : ∀ servers, o.bindList cfg s selection = some servers → ∀ b ∈ servers,
    b < s.cbNum ∧ o.stateAtQuery s b ≠ .fail ∧ o.setUpFails s b = false ∧ 1 ≤ o.freeMem b
  left : cfg.ndisks ≤ selection.length → ∀ b ∈ selection, o.setUpFails s b = true →
    o.statesAfter cfg s selection b ≠ .connected

/-- The server is up and does not report a negative size. -/
def reportsSize (s : Session) (b : Nat) : Bool :=
  decide (o.stateAtQuery s b ≠ .fail) && decide (0 ≤ o.freeMem b)

end RoundOutcome

/-! ## The states -/

/-- A loop that writes only at its own index leaves the others alone. -/
theorem foldl_of_notMem {step : (Nat → CbState) → Nat → Nat → CbState}
    (hstep : ∀ states c b, b ≠ c → step states c b = states b) {l : List Nat} {b : Nat}
    (hb : b ∉ l) (states : Nat → CbState) : l.foldl step states b = states b := by
  induction l generalizing states with
  | nil => rfl
  | cons c rest ih =>
      have hne : b ≠ c := fun heq => hb (heq ▸ List.mem_cons_self)
      rw [List.foldl_cons, ih fun hmem => hb (List.mem_cons_of_mem c hmem), hstep _ _ _ hne]

namespace RoundOutcome

variable {o : RoundOutcome} {cfg : Config} {s : Session} {selection : List Nat} {b : Nat}

/-- Without failures the indices are those of `roundServers`. -/
theorem bindList_eq_roundServers {env : RoundEnv} (hfailed : ∀ b, o.failed b = false)
    (hsetUp : ∀ b, (o.setUp b).ok = true) (hfree : o.freeMem = env.freeMem)
    (hselect : selectServers cfg s.cbNum env.random s = some selection) :
    o.bindList cfg s selection = roundServers cfg s.cbNum env s := by
  have hentry : o.entry s = queryEntry s.cbNum env.freeMem s := by
    funext b
    simp [entry, queryEntry, stateAtQuery, targetSizeG, setUpFails, hfailed, hsetUp, hfree]
  have hranked : o.ranked cfg s selection = rankServers cfg s.cbNum env.freeMem s selection := by
    rw [ranked, hentry]
    rfl
  rw [bindList, roundServers, hselect, hranked]
  rfl

/-- A selected idle server is connected after the queries, whatever its set-up did. -/
theorem statesQueried_of_idle (hnodup : selection.Nodup) (hb : b ∈ selection)
    (hidle : o.stateAtQuery s b = .idle) : o.statesQueried s selection b = .connected := by
  unfold statesQueried
  generalize o.stateAtQuery s = states at hidle
  induction selection generalizing states with
  | nil => cases hb
  | cons c rest ih =>
      obtain ⟨hc, hrest⟩ := List.nodup_cons.mp hnodup
      rw [List.foldl_cons]
      rcases List.mem_cons.mp hb with rfl | hb
      · rw [foldl_of_notMem _ hc, if_pos hidle, Function.update_self]
        intro states c b hne
        split
        · rw [Function.update_of_ne hne]
        · rfl
      · refine ih hrest hb _ ?_
        have hne : b ≠ c := fun heq => hc (heq ▸ hb)
        split
        · rw [Function.update_of_ne hne, hidle]
        · exact hidle

theorem statesBound_of_notMem {servers : List Nat} (hb : b ∉ servers) (states : Nat → CbState) :
    o.statesBound servers states b = states b := by
  refine foldl_of_notMem (fun states c b hne => ?_) hb states
  split
  · rw [Function.update_of_ne hne]
  · rfl

/-- A server whose set-up fails is bound or stays connected. -/
theorem statesAfter_of_setUpFails (hk : cfg.ndisks ≤ selection.length) (hnodup : selection.Nodup)
    (hb : b ∈ selection) (hfails : o.setUpFails s b = true) :
    (∃ servers, o.bindList cfg s selection = some servers ∧ b ∈ servers) ∨
      o.statesAfter cfg s selection b = .connected := by
  have hidle : o.stateAtQuery s b = .idle := by
    rw [setUpFails, Bool.and_eq_true] at hfails
    exact of_decide_eq_true hfails.1
  rw [statesAfter, if_neg (by omega)]
  cases hbind : o.bindList cfg s selection with
  | none => exact .inr (statesQueried_of_idle hnodup hb hidle)
  | some servers =>
      by_cases hmem : b ∈ servers
      · exact .inl ⟨servers, rfl, hmem⟩
      · refine .inr ?_
        rw [Option.getD_some, statesBound_of_notMem hmem]
        exact statesQueried_of_idle hnodup hb hidle

/-! ## The ranked entries -/

theorem one_le_of_ne_zero {x : Int32} (hx : 0 ≤ x) (hne : x ≠ 0) : 1 ≤ x := by
  rw [Int32.le_iff_toInt_le] at hx ⊢
  have hne : x.toInt ≠ 0 := fun h0 => hne (Int32.toInt_inj.mp h0)
  simp only [Int32.toInt_zero, Int32.toInt_one] at hx ⊢
  omega

theorem bindList_some (hk : cfg.ndisks ≤ selection.length) (hpos : 0 < cfg.ndisks) :
    ∃ last, (o.ranked cfg s selection)[cfg.ndisks - 1]? = some last ∧
      last ∈ (o.ranked cfg s selection).take cfg.ndisks ∧
      o.bindList cfg s selection = if last.1 = 0 then none
        else some (((o.ranked cfg s selection).take cfg.ndisks).map Prod.snd) := by
  have hlen : (o.ranked cfg s selection).length = selection.length := by
    rw [ranked, (sortFirst_perm _ _ _).length_eq, List.length_map]
  have hlt : cfg.ndisks - 1 < (o.ranked cfg s selection).length := by omega
  refine ⟨(o.ranked cfg s selection)[cfg.ndisks - 1], List.getElem?_eq_getElem hlt,
    List.mem_take_iff_getElem.mpr ⟨cfg.ndisks - 1, by omega, rfl⟩, ?_⟩
  rw [bindList, if_neg (by omega), List.getElem?_eq_getElem hlt]

/-- An entry of the front comes from a selected server. -/
theorem exists_of_mem_front {e : Int32 × Nat}
    (he : e ∈ (o.ranked cfg s selection).take cfg.ndisks) : ∃ b ∈ selection, o.entry s b = e := by
  have hmem := (sortFirst_perm lessFree cfg.ndisks _).mem_iff.mp (List.mem_of_mem_take he)
  exact List.mem_map.mp hmem

/-- The front is free of negative entries when enough servers report a size. -/
theorem forall_front_iff (hk : cfg.ndisks ≤ selection.length)
    (hup : ∀ b ∈ selection, o.setUpFails s b = false) :
    (∀ e ∈ (o.ranked cfg s selection).take cfg.ndisks, 0 ≤ e.1) ↔
      cfg.ndisks ≤ selection.countP (o.reportsSize s) := by
  have hcount : (selection.map (o.entry s)).countP (fun e => decide (0 ≤ e.1)) =
      selection.countP (o.reportsSize s) := by
    rw [List.countP_map]
    apply List.countP_congr
    intro b hb
    by_cases hfail : o.stateAtQuery s b = .fail
    · simp [entry, reportsSize, hfail]
    · simp [entry, reportsSize, hfail, targetSizeG, hup b hb]
  have hupward : ∀ x y : Int32 × Nat, lessFree x y = false → decide (0 ≤ y.1) = true →
      decide (0 ≤ x.1) = true := by
    intro x y hxy hy
    have hyx := Int32.not_lt.mp (of_decide_eq_false hxy)
    exact decide_eq_true (Int32.le_trans (of_decide_eq_true hy) hyx)
  have hfront := orders_lessFree.forall_front_iff hupward
    (show cfg.ndisks ≤ (selection.map (o.entry s)).length by rwa [List.length_map])
  rw [hcount] at hfront
  simpa only [decide_eq_true_eq, ranked] using hfront

/-- What a front entry that is not negative says of its server. -/
theorem supplies_of_entry (hup : o.setUpFails s b = false) (hpos : 1 ≤ (o.entry s b).1) :
    (o.entry s b).2 = b ∧ o.stateAtQuery s b ≠ .fail ∧ 1 ≤ o.freeMem b := by
  by_cases hfail : o.stateAtQuery s b = .fail
  · rw [entry, if_pos hfail] at hpos
    exact absurd hpos (show ¬ (1 : Int32) ≤ -1 by decide)
  · rw [entry, if_neg hfail] at hpos ⊢
    rw [targetSizeG, hup] at hpos
    exact ⟨rfl, hfail, hpos⟩

/-! ## Who is bound -/

/-- A set-up that fails shows, in the servers bound or in a state left behind. -/
theorem BindsSuppliers.up (h : o.BindsSuppliers cfg s selection)
    (hk : cfg.ndisks ≤ selection.length) (hnodup : selection.Nodup) :
    ∀ b ∈ selection, o.setUpFails s b = false := by
  intro b hb
  by_contra hfails
  have hfails := Bool.of_not_eq_false hfails
  rcases statesAfter_of_setUpFails hk hnodup hb hfails with ⟨servers, hs, hmem⟩ | hleft
  · have hok := (h.supplied servers hs b hmem).2.2.1
    rw [hfails] at hok
    cases hok
  · exact h.left hk b hb hfails hleft

/-- A negative entry in front puts a negative one last, which passes the test. -/
theorem BindsSuppliers.front (h : o.BindsSuppliers cfg s selection)
    (hk : cfg.ndisks ≤ selection.length) (hpos : 0 < cfg.ndisks)
    (hup : ∀ b ∈ selection, o.setUpFails s b = false) {e : Int32 × Nat}
    (he : e ∈ (o.ranked cfg s selection).take cfg.ndisks) : 0 ≤ e.1 := by
  obtain ⟨last, hlast, -, hbind⟩ := bindList_some (o := o) (s := s) hk hpos
  by_contra hneg
  have hle : last.1 ≤ e.1 :=
    Int32.not_lt.mp (of_decide_eq_false (orders_lessFree.front_last hlast e he))
  have hne : last.1 ≠ 0 := fun h0 => hneg (h0 ▸ hle)
  rw [if_neg hne] at hbind
  obtain ⟨hbound, -, -, hfree⟩ := h.supplied _ hbind e.2 (List.mem_map_of_mem he)
  obtain ⟨b, hb, rfl⟩ := exists_of_mem_front he
  by_cases hfail : o.stateAtQuery s b = .fail
  · rw [entry, if_pos hfail] at hbound
    exact absurd hbound (Nat.lt_irrefl _)
  · rw [entry, if_neg hfail] at hneg hfree
    rw [targetSizeG, hup b hb] at hneg
    exact hneg (Int32.le_trans (by decide) hfree)

/-- A round binds suppliers only, and leaves nothing half connected, exactly when it
gives up for want of servers, or when every set-up succeeds and `NDISKS` of the selected
servers are up and report a size that is not negative. -/
theorem bindsSuppliers_iff {random : Nat → Nat} (hpos : 0 < cfg.ndisks)
    (hselect : selectServers cfg s.cbNum random s = some selection) :
    o.BindsSuppliers cfg s selection ↔
      selection.length < cfg.ndisks ∨
        ((∀ b ∈ selection, o.setUpFails s b = false) ∧
          cfg.ndisks ≤ selection.countP (o.reportsSize s)) := by
  obtain ⟨l, hl, hselected⟩ := selectServers_spec cfg random s
  obtain rfl := Option.some.inj (hselect.symm.trans hl)
  rcases Nat.lt_or_ge selection.length cfg.ndisks with hfew | hk
  · refine ⟨fun _ => .inl hfew, fun _ => ⟨fun servers hbind => ?_, fun hk => ?_⟩⟩
    · rw [bindList, if_pos hfew] at hbind
      cases hbind
    · omega
  constructor
  · intro h
    have hup := h.up hk hselected.nodup
    exact .inr ⟨hup, (forall_front_iff hk hup).mp fun e he => h.front hk hpos hup he⟩
  · rintro (hfew | ⟨hup, hmany⟩)
    · omega
    obtain ⟨last, hlast, hin, hbind⟩ := bindList_some (o := o) (s := s) hk hpos
    have hall := (forall_front_iff hk hup).mpr hmany
    refine ⟨fun servers hs b hb => ?_, fun _ b hb hfails => ?_⟩
    · rw [hbind] at hs
      split at hs
      · cases hs
      rename_i hne
      obtain rfl := Option.some.inj hs
      obtain ⟨e, he, rfl⟩ := List.mem_map.mp hb
      have hone : 1 ≤ e.1 :=
        Int32.le_trans (one_le_of_ne_zero (hall last hin) hne)
          (Int32.not_lt.mp (of_decide_eq_false (orders_lessFree.front_last hlast e he)))
      obtain ⟨b, hsel, rfl⟩ := exists_of_mem_front he
      obtain ⟨heq, hlive, hfree⟩ := supplies_of_entry (hup b hsel) hone
      rw [heq]
      exact ⟨hselected.bound b hsel, hlive, hup b hsel, hfree⟩
    · rw [hup b hb] at hfails
      cases hfails

/-- Three connected servers of the replication setup. -/
def threeServers : Session :=
  { isSessionCreate .rep 3 with cbStateList := fun _ => .connected }

/-- A round in which nothing fails and every server reports two chunks. -/
def fineRound : RoundOutcome := ⟨fun _ => false, fun _ => .fine, fun _ => 2, fun _ => true⟩

theorem bindsSuppliers_fineRound :
    selectServers .rep 3 (fun _ => 0) threeServers = some [0, 1, 2] ∧
      fineRound.BindsSuppliers .rep threeServers [0, 1, 2] := by
  have hselect : selectServers .rep 3 (fun _ => 0) threeServers = some [0, 1, 2] := by decide
  refine ⟨hselect, (bindsSuppliers_iff (show 0 < Config.rep.ndisks by decide) hselect).mpr ?_⟩
  exact .inr (by decide)

/-- A server that fails after the selection is bound as number `NUM_CB`, one that reports
a negative size is bound as any other, and one that rejects the connection stays
connected. -/
theorem not_bindsSuppliers :
    ¬ RoundOutcome.BindsSuppliers { fineRound with failed := fun b => b == 0 }
        .rep threeServers [0, 1, 2] ∧
      ¬ RoundOutcome.BindsSuppliers { fineRound with freeMem := fun b => if b = 0 then -5 else 2 }
        .rep threeServers [0, 1, 2] ∧
      ¬ RoundOutcome.BindsSuppliers
        { fineRound with setUp := fun _ => { SetUp.fine with connectClient := -1 } }
        .rep (isSessionCreate .rep 3) [0, 1, 2] := by
  refine ⟨fun h => ?_, fun h => ?_, fun h => ?_⟩
  · have hbound := (h.supplied [1, 2, 3] (by decide) 3 (by decide)).1
    exact absurd hbound (by decide)
  · have hfree := (h.supplied [1, 2, 0] (by decide) 0 (by decide)).2.2.2
    exact absurd hfree (by decide)
  · exact h.left (by decide) 0 (by decide) (by decide) (by decide)

end RoundOutcome

end Hydra.Manager
