/-
  Manager/Selection.lean --- the servers a mapping round talks to.

  The random branch always finds the servers it looks for, both branches select
  different servers below `CB_EVICTING`, and ranking by free memory reorders them.
-/
import Hydra.Foundation.Probe
import Hydra.Manager.Session

set_option autoImplicit false

namespace Hydra.Manager

open Hydra.Foundation Hydra.Wire

/-- A list of different servers that may be selected. -/
structure Selected (numCb : Nat) (s : Session) (l : List Nat) : Prop where
  nodup : l.Nodup
  bound : ∀ b ∈ l, b < numCb
  selectable : ∀ b ∈ l, (s.cbStateList b).selectable = true

theorem selected_selectableServers (n : Nat) (s : Session) :
    Selected n s (selectableServers n s) := by
  refine ⟨List.nodup_range.filter _, ?_, ?_⟩
  · intro b hb
    exact List.mem_range.mp (List.mem_filter.mp hb).1
  · intro b hb
    exact (List.mem_filter.mp hb).2

/-! ## The random branch -/

theorem probeServer_spec {numCb start b : Nat} {s : Session} {chosen : List Nat}
    (h : probeServer numCb start s chosen = some b) :
    b < numCb ∧ (s.cbStateList b).selectable = true ∧ b ∉ chosen := by
  have htest := List.find?_some h
  simp only [Bool.and_eq_true, Bool.not_eq_true', List.contains_eq_mem, decide_eq_false_iff_not]
    at htest
  have hmem := List.mem_of_find?_eq_some h
  obtain ⟨k, hk, rfl⟩ := List.mem_map.mp hmem
  have hpos : 0 < numCb := Nat.lt_of_le_of_lt (Nat.zero_le k) (List.mem_range.mp hk)
  exact ⟨Nat.mod_lt _ hpos, htest.1, htest.2⟩

theorem Selected.append {numCb start b : Nat} {s : Session} {chosen : List Nat}
    (hchosen : Selected numCb s chosen) (h : probeServer numCb start s chosen = some b) :
    Selected numCb s (chosen ++ [b]) := by
  obtain ⟨hb, hselectable, hnew⟩ := probeServer_spec h
  refine ⟨hchosen.nodup.append (List.nodup_singleton b) (by simpa using hnew), ?_, ?_⟩
  · intro x hx
    rcases List.mem_append.mp hx with hx | hx
    · exact hchosen.bound x hx
    · rw [List.mem_singleton.mp hx]
      exact hb
  · intro x hx
    rcases List.mem_append.mp hx with hx | hx
    · exact hchosen.selectable x hx
    · rw [List.mem_singleton.mp hx]
      exact hselectable

/-- From any start the probe passes every server, so it stops at one that is left. -/
theorem probeServer_isSome {numCb b : Nat} {s : Session} {chosen : List Nat} (start : Nat)
    (hb : b < numCb) (hselectable : (s.cbStateList b).selectable = true) (hnew : b ∉ chosen) :
    (probeServer numCb start s chosen).isSome = true := by
  obtain ⟨k, hk, hkb⟩ := exists_turn start hb
  rw [probeServer, List.find?_isSome]
  exact ⟨b, List.mem_map.mpr ⟨k, List.mem_range.mpr hk, hkb⟩, by simp [hselectable, hnew]⟩

theorem drawServers_selected {numCb : Nat} {random : Nat → Nat} {s : Session} {count : Nat}
    {chosen l : List Nat} (hchosen : Selected numCb s chosen)
    (h : drawServers numCb random s count chosen = some l) :
    Selected numCb s l ∧ l.length = chosen.length + count := by
  induction count generalizing chosen with
  | zero =>
      obtain rfl := Option.some.inj h
      exact ⟨hchosen, rfl⟩
  | succ count ih =>
      obtain ⟨b, hprobe, hrest⟩ := Option.bind_eq_some_iff.mp h
      obtain ⟨hsel, hlen⟩ := ih (hchosen.append hprobe) hrest
      refine ⟨hsel, ?_⟩
      rw [hlen, List.length_append, List.length_singleton]
      omega

/-- As long as fewer servers are chosen than may be, drawing goes on to the end. -/
theorem drawServers_isSome {numCb : Nat} (random : Nat → Nat) {s : Session} {count : Nat}
    {chosen : List Nat} (hchosen : Selected numCb s chosen)
    (henough : chosen.length + count ≤ (selectableServers numCb s).length) :
    (drawServers numCb random s count chosen).isSome = true := by
  induction count generalizing chosen with
  | zero => rfl
  | succ count ih =>
      -- a list shorter than the selectable servers leaves one of them out
      obtain ⟨b, hb, hnew⟩ : ∃ b ∈ selectableServers numCb s, b ∉ chosen := by
        by_contra hall
        push Not at hall
        have hsub : selectableServers numCb s ⊆ chosen := hall
        have hle := (selected_selectableServers numCb s).nodup.subperm hsub |>.length_le
        omega
      have hsome := probeServer_isSome (random chosen.length % numCb)
        ((selected_selectableServers numCb s).bound b hb)
        ((selected_selectableServers numCb s).selectable b hb) hnew
      obtain ⟨x, hx⟩ := Option.isSome_iff_exists.mp hsome
      rw [drawServers, hx, Option.bind_some]
      apply ih (hchosen.append hx)
      rw [List.length_append, List.length_singleton]
      omega

/-! ## The selection -/

/-- The selection ends, and selects different servers below `CB_EVICTING`. -/
theorem selectServers_spec (cfg : Config) (random : Nat → Nat) (s : Session) :
    ∃ l, selectServers cfg s.cbNum random s = some l ∧ Selected s.cbNum s l := by
  unfold selectServers
  split
  · exact ⟨_, rfl, selected_selectableServers s.cbNum s⟩
  · rename_i hmany
    have hnil : Selected s.cbNum s [] := ⟨List.nodup_nil, by simp, by simp⟩
    have henough : ([] : List Nat).length + cfg.serverSelectNum ≤
        (selectableServers s.cbNum s).length := by
      rw [List.length_nil]
      omega
    have hsome := drawServers_isSome random hnil henough
    obtain ⟨l, hl⟩ := Option.isSome_iff_exists.mp hsome
    exact ⟨l, hl, (drawServers_selected hnil hl).1⟩

/-! ## The round -/

/-- The servers the bind loop of a round addresses, in order; `none` for a round
that returns before it. -/
def roundServers (cfg : Config) (numCb : Nat) (env : RoundEnv) (s : Session) :
    Option (List Nat) :=
  (selectServers cfg numCb env.random s).bind fun selection =>
    if selection.length < cfg.ndisks then none
    else
      match (rankServers cfg numCb env.freeMem s selection)[cfg.ndisks - 1]? with
      | none => none
      | some last =>
          if last.1 = 0 then none
          else some (((rankServers cfg numCb env.freeMem s selection).take cfg.ndisks).map Prod.snd)

theorem rankServers_perm (cfg : Config) {numCb : Nat} (freeMem : Nat → Int32) {s : Session}
    {selection : List Nat} (h : Selected numCb s selection) :
    ((rankServers cfg numCb freeMem s selection).map Prod.snd).Perm selection := by
  have hperm := (sortFirst_perm (fun (x y : Int32 × Nat) => decide (x.1 < y.1)) cfg.ndisks
    (selection.map (queryEntry numCb freeMem s))).map Prod.snd
  have hsame : (selection.map (queryEntry numCb freeMem s)).map Prod.snd = selection := by
    rw [List.map_map]
    conv_rhs => rw [← List.map_id selection]
    apply List.map_congr_left
    intro b hb
    have hlive : s.cbStateList b ≠ .fail := by
      intro hfail
      have hselectable := h.selectable b hb
      simp [hfail, CbState.selectable] at hselectable
    simp [queryEntry, hlive]
  rw [hsame] at hperm
  exact hperm

/-- The bind loop addresses different servers below `CB_EVICTING`, one for each
piece. -/
theorem roundServers_selected {cfg : Config} {numCb : Nat} {env : RoundEnv} {s : Session}
    (hnum : numCb = s.cbNum) {servers : List Nat}
    (h : roundServers cfg numCb env s = some servers) :
    Selected numCb s servers ∧ servers.length = cfg.ndisks := by
  subst hnum
  obtain ⟨selection, hselect, hrest⟩ := Option.bind_eq_some_iff.mp h
  obtain ⟨l, hl, hselected⟩ := selectServers_spec cfg env.random s
  obtain rfl := Option.some.inj (hselect.symm.trans hl)
  split at hrest
  · cases hrest
  rename_i hlen
  split at hrest
  · cases hrest
  split at hrest
  · cases hrest
  have hperm := rankServers_perm cfg env.freeMem hselected
  obtain rfl := Option.some.inj hrest
  rw [List.map_take]
  have hsub : ∀ b ∈ ((rankServers cfg s.cbNum env.freeMem s selection).map Prod.snd).take
      cfg.ndisks, b ∈ selection := fun b hb => hperm.subset (List.mem_of_mem_take hb)
  refine ⟨⟨?_, ?_, ?_⟩, ?_⟩
  · exact (hperm.nodup_iff.mpr hselected.nodup).sublist (List.take_sublist _ _)
  · exact fun b hb => hselected.bound b (hsub b hb)
  · exact fun b hb => hselected.selectable b (hsub b hb)
  · rw [List.length_take, hperm.length_eq]
    omega

/-- A mapping round is its queries followed by the bind loop over `roundServers`, or
no more than its queries. -/
theorem isSingleChunkMap_eq (cfg : Config) (hdisks : 0 < cfg.ndisks) (env : RoundEnv)
    (selectChunk : Nat) (s : Session) :
    ∃ queried, Selected s.cbNum s queried ∧
      ((∃ servers, roundServers cfg s.cbNum env s = some servers ∧
          isSingleChunkMap cfg s.cbNum env selectChunk s =
            (bindServers cfg selectChunk env.info servers 0
              (queried.foldl (queryServer env.freeMem) s)).map fun s => (s, 0)) ∨
        (roundServers cfg s.cbNum env s = none ∧
          isSingleChunkMap cfg s.cbNum env selectChunk s =
            some (queried.foldl (queryServer env.freeMem) s, -1))) := by
  obtain ⟨selection, hselect, hselected⟩ := selectServers_spec cfg env.random s
  unfold isSingleChunkMap roundServers
  rw [hselect]
  simp only [Option.bind_some]
  split
  · exact ⟨[], ⟨List.nodup_nil, by simp, by simp⟩, .inr ⟨rfl, rfl⟩⟩
  rename_i hlen
  refine ⟨selection, hselected, ?_⟩
  have hperm := rankServers_perm cfg env.freeMem hselected
  have hrank : cfg.ndisks - 1 < (rankServers cfg s.cbNum env.freeMem s selection).length := by
    have hsame := hperm.length_eq
    rw [List.length_map] at hsame
    omega
  rw [List.getElem?_eq_getElem hrank]
  simp only
  split
  · exact .inr ⟨rfl, rfl⟩
  · exact .inl ⟨_, rfl, rfl⟩

/-- The servers of a round depend on the states of the servers only. -/
theorem roundServers_congr {cfg : Config} {env : RoundEnv} {s t : Session}
    (hnum : t.cbNum = s.cbNum) (hstate : t.cbStateList = s.cbStateList) :
    roundServers cfg t.cbNum env t = roundServers cfg s.cbNum env s := by
  have hselectable : ∀ n, selectableServers n t = selectableServers n s := by
    intro n
    unfold selectableServers
    rw [hstate]
  have hdraw : ∀ numCb count chosen, drawServers numCb env.random t count chosen =
      drawServers numCb env.random s count chosen := by
    intro numCb count
    induction count with
    | zero => exact fun _ => rfl
    | succ count ih =>
        intro chosen
        unfold drawServers probeServer
        rw [hstate]
        simp only [ih]
  have hrank : ∀ selection, rankServers cfg t.cbNum env.freeMem t selection =
      rankServers cfg s.cbNum env.freeMem s selection := by
    intro selection
    unfold rankServers queryEntry
    rw [hstate, hnum]
  unfold roundServers selectServers
  rw [hnum]
  simp only [hselectable, hdraw, hnum ▸ hrank]

end Hydra.Manager
