/-
  Manager/Independence.lean --- the pieces of a slab are on different servers.

  A round binds to different servers.  A piece of the same slab that the round
  leaves where it is is safe only if no server the round may select holds it, and
  the selection does not look at that.
-/
import Hydra.Manager.SlabMap

set_option autoImplicit false

namespace Hydra.Manager

open Hydra.Foundation Hydra.Wire

/-- No two pieces of a slab are mapped to one server. -/
def Independent (cfg : Config) (s : Session) : Prop :=
  ∀ c c' b, c ≠ c' → c / cfg.ndisks = c' / cfg.ndisks →
    s.cbIndexMap c = some b → s.cbIndexMap c' ≠ some b

/-- Unmapping cannot put two pieces together. -/
theorem Independent.shrink {cfg : Config} {s t : Session} (h : Independent cfg s)
    (hsub : ∀ c b, t.cbIndexMap c = some b → s.cbIndexMap c = some b) : Independent cfg t :=
  fun c c' b hne hslab hc hc' => h c c' b hne hslab (hsub c b hc) (hsub c' b hc')

/-! ## What a round binds -/

/-- The bind at position `j` maps session chunk `c`. -/
def BindsAt (cfg : Config) (info : Nat → Message) (j c : Nat) : Prop :=
  assignedChunk (info j) ≠ none ∧ cfg.chunkIndex? (info j).sizeGb = some c

theorem bindServer_cbIndexMap {cfg : Config} {b chunk : Nat} {msg : Message} {s t : Session}
    (h : bindServer cfg b chunk msg s = some t) (c : Nat) :
    (assignedChunk msg ≠ none ∧ cfg.chunkIndex? msg.sizeGb = some c ∧ t.cbIndexMap c = some b) ∨
      (¬ (assignedChunk msg ≠ none ∧ cfg.chunkIndex? msg.sizeGb = some c) ∧
        t.cbIndexMap c = s.cbIndexMap c) := by
  rcases bindServer_cases cfg b chunk msg s with
    ⟨hnone, heq⟩ | ⟨i, -, -, heq⟩ | ⟨i, e, hi, he, heq⟩
  · rw [heq] at h
    obtain rfl := Option.some.inj h
    exact .inr ⟨fun hassigned => hassigned.1 hnone, by simp⟩
  · rw [heq] at h
    cases h
  · rw [heq] at h
    obtain rfl := Option.some.inj h
    by_cases hce : c = e
    · subst hce
      exact .inl ⟨by simp [hi], he, Function.update_self ..⟩
    · refine .inr ⟨fun hbinds => hce (Option.some.inj (hbinds.2.symm.trans he)), ?_⟩
      change Function.update (sendBind b chunk s).cbIndexMap e _ c = _
      rw [Function.update_of_ne hce, sendBind_cbIndexMap]

/-- After the bind loop a mapped chunk was bound at some position, to the server of
that position, or was bound at none and is where it was. -/
theorem bindServers_cbIndexMap {cfg : Config} {selectChunk k : Nat} {info : Nat → Message}
    {servers : List Nat} {s t : Session}
    (h : bindServers cfg selectChunk info servers k s = some t) {c b : Nat}
    (hc : t.cbIndexMap c = some b) :
    (∃ j, servers[j]? = some b ∧ BindsAt cfg info (k + j) c) ∨
      ((∀ j, j < servers.length → ¬ BindsAt cfg info (k + j) c) ∧ s.cbIndexMap c = some b) := by
  induction servers generalizing s k with
  | nil =>
      obtain rfl := Option.some.inj h
      exact .inr ⟨fun j hj => absurd hj (Nat.not_lt_zero j), hc⟩
  | cons d rest ih =>
      obtain ⟨u, hbind, hrest⟩ := Option.bind_eq_some_iff.mp h
      rcases ih hrest with ⟨j, hj, hbinds⟩ | ⟨hnone, hu⟩
      · exact .inl ⟨j + 1, hj, by rwa [show k + (j + 1) = k + 1 + j by omega]⟩
      · rcases bindServer_cbIndexMap hbind c with ⟨hassigned, hindex, hdc⟩ | ⟨hnot, hsame⟩
        · obtain rfl := Option.some.inj (hu.symm.trans hdc)
          exact .inl ⟨0, rfl, hassigned, hindex⟩
        · refine .inr ⟨?_, hsame ▸ hu⟩
          intro j hj
          cases j with
          | zero => exact hnot
          | succ j =>
              have hj' := hnone j (by simpa using hj)
              rwa [show k + 1 + j = k + (j + 1) by omega] at hj'

/-- Every piece of a slab that the round binds into and that the round leaves in
place is on a server the round cannot select. -/
def SurvivorsApart (cfg : Config) (info : Nat → Message) (s : Session) : Prop :=
  ∀ j c, j < cfg.ndisks → BindsAt cfg info j c →
    ∀ c' b, c' / cfg.ndisks = c / cfg.ndisks →
      (∀ j', j' < cfg.ndisks → ¬ BindsAt cfg info j' c') →
      s.cbIndexMap c' = some b → (s.cbStateList b).selectable = false

theorem Independent.mapRound {cfg : Config} (hdisks : 0 < cfg.ndisks) {env : RoundEnv}
    {selectChunk : Nat} {s : Session} {r : Session × Int} (h : Independent cfg s)
    (hapart : roundServers cfg s.cbNum env s ≠ none → SurvivorsApart cfg env.info s)
    (hround : isSingleChunkMap cfg s.cbNum env selectChunk s = some r) : Independent cfg r.1 := by
  obtain ⟨queried, -, ⟨servers, hservers, heq⟩ | ⟨-, heq⟩⟩ :=
    isSingleChunkMap_eq cfg hdisks env selectChunk s
  · obtain ⟨hselected, hlen⟩ := roundServers_selected rfl hservers
    have hsurvive := hapart (by simp [hservers])
    rw [heq] at hround
    obtain ⟨t, ht, rfl⟩ := Option.map_eq_some_iff.mp hround
    have hindex := (queryServers_frame env.freeMem s queried).1
    have hcases := fun c b (hc : t.cbIndexMap c = some b) => bindServers_cbIndexMap ht hc
    simp only [Nat.zero_add, hindex, hlen] at hcases
    -- a chunk bound in the round and one left in place are on different servers
    have hmixed : ∀ c c' b j, c' / cfg.ndisks = c / cfg.ndisks → servers[j]? = some b →
        BindsAt cfg env.info j c → (∀ j', j' < cfg.ndisks → ¬ BindsAt cfg env.info j' c') →
        s.cbIndexMap c' ≠ some b := by
      intro c c' b j hslab hj hbinds hleft hc'
      have hjlen : j < cfg.ndisks := by
        have hlt := (List.getElem?_eq_some_iff.mp hj).1
        omega
      have hfalse := hsurvive j c hjlen hbinds c' b hslab hleft hc'
      have htrue := hselected.selectable b (List.mem_of_getElem? hj)
      rw [htrue] at hfalse
      cases hfalse
    intro c c' b hne hslab hc hc'
    rcases hcases c b hc with ⟨j, hj, hbinds⟩ | ⟨hleft, hold⟩
    · rcases hcases c' b hc' with ⟨j', hj', hbinds'⟩ | ⟨hleft', hold'⟩
      · -- both bound: the round addresses a server once
        have hjj : j = j' := by
          obtain ⟨hlt, hget⟩ := List.getElem?_eq_some_iff.mp hj
          obtain ⟨hlt', hget'⟩ := List.getElem?_eq_some_iff.mp hj'
          exact (hselected.nodup.getElem_inj_iff).mp (hget.trans hget'.symm)
        subst hjj
        exact hne (Option.some.inj (hbinds.2.symm.trans hbinds'.2))
      · exact hmixed c c' b j hslab.symm hj hbinds hleft' hold'
    · rcases hcases c' b hc' with ⟨j', hj', hbinds'⟩ | ⟨-, hold'⟩
      · exact hmixed c' c b j' hslab hj' hbinds' hleft hold
      · exact h c c' b hne hslab hold hold'
  · rw [heq] at hround
    obtain rfl := Option.some.inj hround
    refine h.shrink fun c b hc => ?_
    rw [(queryServers_frame env.freeMem s queried).1] at hc
    exact hc

/-! ## What the other steps unmap -/

theorem unmapPicked_shrinks {cfg : Config} {b : Nat} {pick : ChunkIx → Bool} {s t : Session}
    (h : unmapPicked cfg b pick s = some t) {c d : Nat} (hc : t.cbIndexMap c = some d) :
    s.cbIndexMap c = some d := by
  unfold unmapPicked at h
  simp only at h
  split at h
  · cases h
  · obtain rfl := Option.some.inj h
    change clearPicked _ _ _ _ c = some d at hc
    rw [clearPicked_finRange] at hc
    split at hc
    · cases hc
    · exact hc

theorem releaseServer_cbIndexMap {cfg : Config} {b : Nat} {l : List ChunkIx} {s t : Session}
    (h : releaseServer cfg b l s = some t) : t.cbIndexMap = s.cbIndexMap := by
  induction l generalizing s with
  | nil =>
      obtain rfl := Option.some.inj h
      rfl
  | cons i rest ih =>
      unfold releaseServer at h
      split at h
      · exact ih h
      · obtain ⟨u, hu, hrest⟩ := Option.bind_eq_some_iff.mp h
        exact (ih hrest).trans (releaseChunk_frame hu).2.2.2

theorem isDisconnectHandler_shrinks {cfg : Config} {b : Nat} {s t : Session}
    (h : isDisconnectHandler cfg b s = some t) {c d : Nat} (hc : t.cbIndexMap c = some d) :
    s.cbIndexMap c = some d := by
  unfold isDisconnectHandler at h
  split at h
  · obtain rfl := Option.some.inj h
    exact hc
  · obtain ⟨u, hu, hrelease⟩ := Option.bind_eq_some_iff.mp h
    rw [releaseServer_cbIndexMap hrelease] at hc
    exact unmapPicked_shrinks hu hc

theorem evictBegin_shrinks {cfg : Config} {b : Nat} {msg : Message} {s : Session}
    {r : Session × Option (List Nat)} (h : evictBegin cfg b msg s = some r) {c d : Nat}
    (hc : r.1.cbIndexMap c = some d) : s.cbIndexMap c = some d := by
  unfold evictBegin at h
  simp only at h
  split at h
  · obtain rfl := Option.some.inj h
    exact hc
  split at h
  · cases h
  · obtain ⟨u, hu, rfl⟩ := Option.map_eq_some_iff.mp h
    exact unmapPicked_shrinks hu hc

/-! ## Runs -/

/-- The rounds of `rdma_trigger` start at a slab, and the monitors answer for the
chunk asked for; an eviction flags chunks the server holds. -/
def SlabRounds (cfg : Config) (s : SlabState) : SlabAction → Prop
  | .mapRound selectChunk env =>
      s.evicting = none ∧ cfg.ndisks ∣ selectChunk ∧ selectChunk < cfg.disksizeG ∧
        ∀ k, (env.info k).sizeGb = selectChunk + k
  | .disconnect b => s.evicting = none ∧ b < s.sess.cbNum
  | .evict b msg =>
      s.evicting = none ∧ b < s.sess.cbNum ∧
        ∀ i, msg.flagged i = true → (s.sess.cb b).remoteChunk.chunkMap i ≠ none
  | .remap env =>
      ∃ b c rest, s.evicting = some (b, c :: rest) ∧ ∀ k, (env.info k).sizeGb = c + k
  | .finish => ∃ b, s.evicting = some (b, [])

/-- A step that binds next to no piece a selectable server holds. -/
def BindsApart (cfg : Config) (s : SlabState) : SlabAction → Prop
  | .mapRound _ env | .remap env => roundServers cfg s.sess.cbNum env s.sess ≠ none →
      SurvivorsApart cfg env.info s.sess
  | _ => True

theorem Independent.step {cfg : Config} (hdisks : 0 < cfg.ndisks) {s t : SlabState}
    {a : SlabAction} (h : Independent cfg s.sess) (hapart : BindsApart cfg s a)
    (hstep : slabStep cfg s a = some t) : Independent cfg t.sess := by
  cases a with
  | mapRound selectChunk env =>
      obtain ⟨r, hr, rfl⟩ := Option.map_eq_some_iff.mp hstep
      exact h.mapRound hdisks hapart hr
  | disconnect b =>
      obtain ⟨u, hu, rfl⟩ := Option.map_eq_some_iff.mp hstep
      exact h.shrink fun c d => isDisconnectHandler_shrinks hu
  | evict b msg =>
      obtain ⟨r, hr, rfl⟩ := Option.map_eq_some_iff.mp hstep
      exact h.shrink fun c d => evictBegin_shrinks hr
  | remap env =>
      simp only [slabStep] at hstep
      split at hstep
      · obtain ⟨u, hu, hrest⟩ := Option.bind_eq_some_iff.mp hstep
        obtain ⟨r, hr, rfl⟩ := Option.map_eq_some_iff.mp hrest
        obtain ⟨-, hstate, hnum, hindex⟩ := releaseChunk_frame hu
        refine Independent.mapRound (s := u) hdisks ?_ ?_ hr
        · exact h.shrink fun c d hc => by rwa [hindex] at hc
        · intro hround
          rw [roundServers_congr hnum hstate] at hround
          have hold := hapart hround
          unfold SurvivorsApart at hold ⊢
          rw [hindex, hstate]
          exact hold
      · cases hstep
  | finish =>
      simp only [slabStep] at hstep
      split at hstep
      · obtain rfl := Option.some.inj hstep
        exact h
      · cases hstep

/-- Along every run of rounds that bind next to no piece a selectable server holds,
the mapped pieces of a slab are on different servers in every state. -/
theorem replicas_independent (cfg : Config) (hdisks : 0 < cfg.ndisks) (cbNum : Nat)
    (s : SlabState)
    (hrun : Reach (slabStep cfg) (BindsApart cfg) (slabInit cfg cbNum) s) :
    ∀ slab i j b, i < cfg.ndisks → j < cfg.ndisks → i ≠ j →
      s.sess.cbIndexMap (slab * cfg.ndisks + i) = some b →
        s.sess.cbIndexMap (slab * cfg.ndisks + j) ≠ some b := by
  have hind : Independent cfg s.sess := by
    refine hrun.invariant (I := fun s => Independent cfg s.sess) ?_ ?_
    · intro c c' b _ _ hc
      cases hc
    · exact fun u a v hu hguard hstep => hu.step hdisks hguard hstep
  intro slab i j b hi hj hij
  refine hind _ _ b (by omega) ?_
  rw [Nat.mul_comm, Nat.mul_add_div hdisks, Nat.mul_add_div hdisks, Nat.div_eq_of_lt hi,
    Nat.div_eq_of_lt hj]

/-- The first round with four servers, three chunks on three servers. -/
theorem replicas_independent_mapRound :
    ∃ s, Reach (slabStep .rep) (BindsApart .rep) (slabInit .rep 4) s ∧
      s.sess.cbIndexMap (0 * 3 + 0) = some 0 ∧ s.sess.cbIndexMap (0 * 3 + 1) ≠ some 0 := by
  have hrun : Reach (slabStep .rep) (BindsApart .rep) (slabInit .rep 4)
      ((slabStep .rep (slabInit .rep 4) (.mapRound 0 (roundEnv 0 0))).get (by rfl)) := by
    refine Reach.snoc (a := .mapRound 0 (roundEnv 0 0)) Relation.ReflTransGen.refl
      (fun _ j c _ _ c' b _ _ hc' => ?_) (Option.some_get _).symm
    cases hc'
  exact ⟨_, hrun, rfl, replicas_independent .rep (by decide) 4 _ hrun 0 0 1 0 (by decide)
    (by decide) (by decide) rfl⟩

/-- The replication setup with `DATASIZE_G` set to two gigabytes: two slabs. -/
def twoSlabs : Config := .replication 2

/-- Both slabs are mapped to servers 0, 1 and 2, then chunk 1 of the device is
evicted from server 1; the remap binds chunks 1, 2 and 3. -/
def evictOnto : List SlabAction :=
  [.mapRound 0 (roundEnv 0 0), .mapRound 3 (roundEnv 3 1), .evict 1 (stopOne 0),
    .remap (roundEnv 1 2), .finish]

theorem roundEnv_asks (selectChunk : Nat) (i : ChunkIx) (k : Nat) :
    ((roundEnv selectChunk i).info k).sizeGb = selectChunk + k := rfl

/-- Chunk 1 goes to server 0, where chunk 0 is. -/
theorem replicas_collide :
    ∃ s, Reach (slabStep twoSlabs) (SlabRounds twoSlabs) (slabInit twoSlabs 4) s ∧
      s.sess.cbIndexMap (0 * 3 + 0) = some 0 ∧ s.sess.cbIndexMap (0 * 3 + 1) = some 0 := by
  have hrun : Reach (slabStep twoSlabs) (SlabRounds twoSlabs) (slabInit twoSlabs 4)
      ((runActions (slabStep twoSlabs) (slabInit twoSlabs 4) evictOnto).get (by rfl)) := by
    apply reach_of_runActions (Option.some_get _).symm
    refine ⟨⟨rfl, by decide, by decide, roundEnv_asks 0 0⟩, fun s₁ h₁ => ?_⟩
    obtain rfl := Option.some.inj h₁
    refine ⟨⟨rfl, by decide, by decide, roundEnv_asks 3 1⟩, fun s₂ h₂ => ?_⟩
    obtain rfl := Option.some.inj h₂
    refine ⟨⟨rfl, by decide, (stopOne_stopsHeld (by decide)).held⟩, fun s₃ h₃ => ?_⟩
    obtain rfl := Option.some.inj h₃
    refine ⟨⟨1, 1, [], rfl, roundEnv_asks 1 2⟩, fun s₄ h₄ => ?_⟩
    obtain rfl := Option.some.inj h₄
    exact ⟨⟨1, rfl⟩, fun _ _ => trivial⟩
  exact ⟨_, hrun, rfl, rfl⟩

end Hydra.Manager
