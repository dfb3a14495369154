/-
  Manager/SlabMap.lean --- the session's tables and the servers' tables are inverse.

  `SlabOk` holds between the steps of a round as well: `waiting` are the chunks
  already unmapped whose entry in `chunk_map_cb_chunk` and place on the unmapped
  list are still to follow.  Binding keeps it when the chunk bound is unmapped and
  not waiting; nothing in `IS_single_chunk_map` looks at that.
-/
import Hydra.Manager.Rounds
import Hydra.Foundation.Loop

set_option autoImplicit false

namespace Hydra.Manager

open Hydra.Foundation Hydra.Wire

/-! ## The invariant -/

/-- The tables while the chunks in `waiting` are on their way to the unmapped list. -/
structure SlabOk (cfg : Config) (waiting : List Nat) (s : Session) : Prop where
  entry : ∀ b i c, (s.cb b).remoteChunk.chunkMap i = some c →
    c < cfg.disksizeG ∧ s.cbIndexMap c = some b ∧ s.chunkMapCbChunk c = some i
  mapped : ∀ c b, s.cbIndexMap c = some b → c < cfg.disksizeG ∧
    ∃ i, s.chunkMapCbChunk c = some i ∧ (s.cb b).remoteChunk.chunkMap i = some c
  chunk : ∀ c i, s.chunkMapCbChunk c = some i → s.cbIndexMap c ≠ none ∨ c ∈ waiting
  flag : ∀ b i, (s.cb b).remoteChunk.remoteMapped i = true ↔
    (s.cb b).remoteChunk.chunkMap i ≠ none
  size : ∀ b, (s.cb b).remoteChunk.chunkSizeG = (s.cb b).remoteChunk.mappedCount
  fresh : ∀ b, s.cbStateList b = .idle ∨ s.cbStateList b = .connected →
    ∀ i, (s.cb b).remoteChunk.chunkMap i = none
  pending : ∀ c ∈ waiting, c < cfg.disksizeG ∧ s.cbIndexMap c = none
  nodup : waiting.Nodup
  free : s.freeChunkIndex + 1 + waiting.length =
    countWhere fun c : Fin cfg.disksizeG => (s.cbIndexMap c).isNone

/-- Session and servers agree: `cb_index_map` and `chunk_map_cb_chunk` name the one
entry of the servers' tables for a chunk, and flags and sizes are those of the
mapped entries. -/
structure SlabMap (cfg : Config) (s : Session) : Prop where
  inverse : ∀ c, c < cfg.disksizeG → ∀ b, s.cbIndexMap c = some b ↔
    ∃ i, s.chunkMapCbChunk c = some i ∧ (s.cb b).remoteChunk.chunkMap i = some c
  unique : ∀ b i b' i' c, (s.cb b).remoteChunk.chunkMap i = some c →
    (s.cb b').remoteChunk.chunkMap i' = some c → b = b' ∧ i = i'
  flag : ∀ b i, (s.cb b).remoteChunk.remoteMapped i = true ↔
    (s.cb b).remoteChunk.chunkMap i ≠ none
  size : ∀ b, (s.cb b).remoteChunk.chunkSizeG = (s.cb b).remoteChunk.mappedCount

namespace SlabOk

variable {cfg : Config} {waiting : List Nat} {s : Session}

theorem slabMap (h : SlabOk cfg waiting s) : SlabMap cfg s := by
  refine ⟨?_, ?_, h.flag, h.size⟩
  · intro c _ b
    constructor
    · exact fun hb => (h.mapped c b hb).2
    · rintro ⟨i, -, hi⟩
      exact (h.entry b i c hi).2.1
  · intro b i b' i' c hi hi'
    obtain ⟨-, hb, hchunk⟩ := h.entry b i c hi
    obtain ⟨-, hb', hchunk'⟩ := h.entry b' i' c hi'
    exact ⟨Option.some.inj (hb.symm.trans hb'), Option.some.inj (hchunk.symm.trans hchunk')⟩

/-! ## Steps that leave the tables alone -/

/-- Buffers, reported sizes and states may change; a state of a server without
chunks needs a server without chunks. -/
theorem retouch (h : SlabOk cfg waiting s) {s' : Session}
    (hindex : s'.cbIndexMap = s.cbIndexMap) (hchunk : s'.chunkMapCbChunk = s.chunkMapCbChunk)
    (hfree : s'.freeChunkIndex = s.freeChunkIndex)
    (hmap : ∀ b, (s'.cb b).remoteChunk.chunkMap = (s.cb b).remoteChunk.chunkMap)
    (hflag : ∀ b i, (s'.cb b).remoteChunk.remoteMapped i =
      (s.cb b).remoteChunk.remoteMapped i)
    (hsize : ∀ b, (s'.cb b).remoteChunk.chunkSizeG = (s.cb b).remoteChunk.chunkSizeG)
    (hstate : ∀ b, s'.cbStateList b = .idle ∨ s'.cbStateList b = .connected →
      s.cbStateList b = .idle ∨ s.cbStateList b = .connected) : SlabOk cfg waiting s' := by
  refine ⟨?_, ?_, ?_, ?_, ?_, ?_, ?_, h.nodup, ?_⟩
  · intro b i c
    rw [hmap, hindex, hchunk]
    exact h.entry b i c
  · intro c b
    rw [hindex, hmap, hchunk]
    exact h.mapped c b
  · intro c i
    rw [hindex, hchunk]
    exact h.chunk c i
  · intro b i
    rw [hflag, hmap]
    exact h.flag b i
  · intro b
    rw [hsize, RemoteChunkList.mappedCount, hmap]
    exact h.size b
  · intro b hb
    rw [hmap]
    exact h.fresh b (hstate b hb)
  · rw [hindex]
    exact h.pending
  · rw [hindex, hfree]
    exact h.free

/-- A server replaced by one with the same chunks. -/
theorem putCb (h : SlabOk cfg waiting s) (b : Nat) (cb : KernelCb)
    (hmap : cb.remoteChunk.chunkMap = (s.cb b).remoteChunk.chunkMap)
    (hflag : ∀ i, cb.remoteChunk.remoteMapped i = (s.cb b).remoteChunk.remoteMapped i)
    (hsize : cb.remoteChunk.chunkSizeG = (s.cb b).remoteChunk.chunkSizeG) :
    SlabOk cfg waiting (s.putCb b cb) := by
  have hcases : ∀ d, ((s.putCb b cb).cb d = s.cb d) ∨ (d = b ∧ (s.putCb b cb).cb d = cb) := by
    intro d
    by_cases hd : d = b
    · subst hd
      exact .inr ⟨rfl, Function.update_self ..⟩
    · exact .inl (Function.update_of_ne hd _ _)
  refine h.retouch rfl rfl rfl ?_ ?_ ?_ (fun _ hb => hb)
  · intro d
    rcases hcases d with hd | ⟨rfl, hd⟩
    · rw [hd]
    · rw [hd, hmap]
  · intro d i
    rcases hcases d with hd | ⟨rfl, hd⟩
    · rw [hd]
    · rw [hd, hflag]
  · intro d
    rcases hcases d with hd | ⟨rfl, hd⟩
    · rw [hd]
    · rw [hd, hsize]

/-- A state that promises nothing about the server's chunks. -/
theorem setState (h : SlabOk cfg waiting s) (b : Nat) (state : CbState)
    (hidle : state ≠ .idle) (hconnected : state ≠ .connected) :
    SlabOk cfg waiting (s.setState b state) := by
  refine h.retouch rfl rfl rfl (fun _ => rfl) (fun _ _ => rfl) (fun _ => rfl) ?_
  intro d hd
  by_cases hdb : d = b
  · subst hdb
    simp [Session.setState, hidle, hconnected] at hd
  · simpa [Session.setState, hdb] using hd

theorem queryServer (h : SlabOk cfg waiting s) (freeMem : Nat → Int32) (b : Nat) :
    SlabOk cfg waiting (queryServer freeMem s b) := by
  cases hstate : s.cbStateList b with
  | fail =>
      simp only [Manager.queryServer, hstate]
      exact h
  | idle =>
      simp only [Manager.queryServer, hstate]
      have hnone := h.fresh b (.inl hstate)
      have hmap : (kernelCbInit (s.cb b)).remoteChunk.chunkMap =
          (s.cb b).remoteChunk.chunkMap := (funext hnone).symm
      have hput := h.putCb b
        { kernelCbInit (s.cb b) with
          remoteChunk :=
            { (kernelCbInit (s.cb b)).remoteChunk with targetSizeG := (freeMem b).toInt } }
        hmap
        (by
          intro i
          have hflag := (not_congr (h.flag b i)).mpr (not_not.mpr (hnone i))
          exact (Bool.eq_false_iff.mpr hflag).symm)
        (by
          rw [h.size b, RemoteChunkList.mappedCount, countWhere_eq_zero_iff.mpr]
          · rfl
          · intro i
            rw [hnone i]
            rfl)
      -- the server becomes connected, and it has no chunks
      refine hput.retouch rfl rfl rfl (fun _ => rfl) (fun _ _ => rfl) (fun _ => rfl) ?_
      intro d hd
      by_cases hdb : d = b
      · subst hdb
        exact .inl hstate
      · simpa [Session.setState, hdb] using hd
  | connected =>
      simp only [Manager.queryServer, hstate]
      exact h.putCb _ _ rfl (fun _ => rfl) rfl
  | mapped =>
      simp only [Manager.queryServer, hstate]
      exact h.putCb _ _ rfl (fun _ => rfl) rfl
  | evicting =>
      simp only [Manager.queryServer, hstate]
      exact h.putCb _ _ rfl (fun _ => rfl) rfl

theorem queryServers (h : SlabOk cfg waiting s) (freeMem : Nat → Int32) (l : List Nat) :
    SlabOk cfg waiting (l.foldl (Manager.queryServer freeMem) s) := by
  induction l generalizing s with
  | nil => exact h
  | cons b rest ih => exact ih (h.queryServer freeMem b)

/-- Flags, size and a fresh server's empty table, when one server is replaced by another
that has them in order. -/
theorem servers (h : SlabOk cfg waiting s) (b : Nat) (cb : KernelCb)
    (hflag : ∀ i, cb.remoteChunk.remoteMapped i = true ↔ cb.remoteChunk.chunkMap i ≠ none)
    (hsize : cb.remoteChunk.chunkSizeG = cb.remoteChunk.mappedCount)
    (hfresh : s.cbStateList b = .idle ∨ s.cbStateList b = .connected →
      ∀ i, cb.remoteChunk.chunkMap i = none) :
    (∀ d i, (Function.update s.cb b cb d).remoteChunk.remoteMapped i = true ↔
      (Function.update s.cb b cb d).remoteChunk.chunkMap i ≠ none) ∧
    (∀ d, (Function.update s.cb b cb d).remoteChunk.chunkSizeG =
      (Function.update s.cb b cb d).remoteChunk.mappedCount) ∧
    ∀ d, s.cbStateList d = .idle ∨ s.cbStateList d = .connected →
      ∀ i, (Function.update s.cb b cb d).remoteChunk.chunkMap i = none := by
  have hcases : ∀ d, Function.update s.cb b cb d = s.cb d ∨
      (d = b ∧ Function.update s.cb b cb d = cb) := by
    intro d
    by_cases hd : d = b
    · subst hd
      exact .inr ⟨rfl, Function.update_self ..⟩
    · exact .inl (Function.update_of_ne hd _ _)
  refine ⟨?_, ?_, ?_⟩
  · intro d i
    rcases hcases d with hd | ⟨-, hd⟩
    · rw [hd]
      exact h.flag d i
    · rw [hd]
      exact hflag i
  · intro d
    rcases hcases d with hd | ⟨-, hd⟩
    · rw [hd]
      exact h.size d
    · rw [hd]
      exact hsize
  · intro d hstate i
    rcases hcases d with hd | ⟨rfl, hd⟩
    · rw [hd]
      exact h.fresh d hstate i
    · rw [hd]
      exact hfresh hstate i

/-! ## Binding a chunk -/

/-- The entries of the servers' tables after a chunk was assigned: the new one and those of
before, which are for other session chunks. -/
theorem chunkMap_assign_iff (h : SlabOk cfg waiting s) (msg : Message) {b c : Nat} {i : ChunkIx}
    (hunused : (s.cb b).remoteChunk.chunkMap i = none) (hunmapped : s.cbIndexMap c = none)
    (d : Nat) (k : ChunkIx) (e : Nat) :
    (Function.update s.cb b { s.cb b with
      remoteChunk := (s.cb b).remoteChunk.assign msg i c } d).remoteChunk.chunkMap k = some e ↔
      (d = b ∧ k = i ∧ e = c) ∨ (e ≠ c ∧ (s.cb d).remoteChunk.chunkMap k = some e) := by
  have hold : (s.cb d).remoteChunk.chunkMap k = some e → e ≠ c := by
    rintro hentry rfl
    have hbound := (h.entry d k e hentry).2.1
    rw [hunmapped] at hbound
    cases hbound
  by_cases hd : d = b
  · subst hd
    rw [Function.update_self]
    change Function.update (s.cb d).remoteChunk.chunkMap i (some c) k = some e ↔ _
    by_cases hk : k = i
    · subst hk
      simp [hunused, eq_comm]
    · rw [Function.update_of_ne hk]
      simp only [hk, false_and, and_false, false_or]
      exact ⟨fun hentry => ⟨hold hentry, hentry⟩, And.right⟩
  · rw [Function.update_of_ne hd]
    simp only [hd, false_and, false_or]
    exact ⟨fun hentry => ⟨hold hentry, hentry⟩, And.right⟩

/-- A chunk of a server that is not in use now backs an unmapped session chunk. -/
theorem assign (h : SlabOk cfg waiting s) {b c : Nat} {i : ChunkIx} {msg : Message}
    (hunused : (s.cb b).remoteChunk.chunkMap i = none) (hc : c < cfg.disksizeG)
    (hunmapped : s.cbIndexMap c = none) (hwaiting : c ∉ waiting)
    (hstate : s.cbStateList b ≠ .idle ∧ s.cbStateList b ≠ .connected) :
    SlabOk cfg waiting
      ({ s with
        freeChunkIndex := s.freeChunkIndex - 1
        chunkMapCbChunk := Function.update s.chunkMapCbChunk c (some i)
        cbIndexMap := Function.update s.cbIndexMap c (some b) }.putCb b
        { s.cb b with remoteChunk := (s.cb b).remoteChunk.assign msg i c }) := by
  have hentries := h.chunkMap_assign_iff msg hunused hunmapped
  have hcount : ((s.cb b).remoteChunk.assign msg i c).mappedCount =
      (s.cb b).remoteChunk.mappedCount + 1 := by
    refine countWhere_turnOn (a := i) ?_ ?_ ?_
    · rw [hunused]
      rfl
    · simp [RemoteChunkList.assign]
    · intro k hk
      simp [RemoteChunkList.assign, hk]
  obtain ⟨hflag, hsize, hfresh⟩ := h.servers b
    { s.cb b with remoteChunk := (s.cb b).remoteChunk.assign msg i c }
    (by
      intro k
      change Function.update (s.cb b).remoteChunk.remoteMapped i true k = true ↔
        Function.update (s.cb b).remoteChunk.chunkMap i (some c) k ≠ none
      by_cases hk : k = i
      · subst hk
        simp
      · rw [Function.update_of_ne hk, Function.update_of_ne hk]
        exact h.flag b k)
    (by
      change (s.cb b).remoteChunk.chunkSizeG + 1 = _
      rw [hcount, h.size b]
      rfl)
    (fun hidle => absurd hidle (not_or.mpr hstate))
  refine ⟨?_, ?_, ?_, hflag, hsize, hfresh, ?_, h.nodup, ?_⟩
  · intro d k e he
    rcases (hentries d k e).mp he with ⟨rfl, rfl, rfl⟩ | ⟨hne, hold⟩
    · exact ⟨hc, Function.update_self .., Function.update_self ..⟩
    · obtain ⟨he', hindex, hchunk⟩ := h.entry d k e hold
      exact ⟨he', (Function.update_of_ne hne _ _).trans hindex,
        (Function.update_of_ne hne _ _).trans hchunk⟩
  · intro e d he
    change Function.update s.cbIndexMap c (some b) e = some d at he
    by_cases hec : e = c
    · subst hec
      rw [Function.update_self] at he
      obtain rfl := Option.some.inj he
      exact ⟨hc, i, Function.update_self .., (hentries b i e).mpr (.inl ⟨rfl, rfl, rfl⟩)⟩
    · rw [Function.update_of_ne hec] at he
      obtain ⟨he', k, hchunk, hentry⟩ := h.mapped e d he
      exact ⟨he', k, (Function.update_of_ne hec _ _).trans hchunk,
        (hentries d k e).mpr (.inr ⟨hec, hentry⟩)⟩
  · intro e k he
    change Function.update s.chunkMapCbChunk c (some i) e = some k at he
    change Function.update s.cbIndexMap c (some b) e ≠ none ∨ _
    by_cases hec : e = c
    · subst hec
      exact .inl (by simp)
    · rw [Function.update_of_ne hec] at he ⊢
      exact h.chunk e k he
  · intro e he
    obtain ⟨he', hnone⟩ := h.pending e he
    have hec : e ≠ c := fun hec => hwaiting (hec ▸ he)
    exact ⟨he', (Function.update_of_ne hec _ _).trans hnone⟩
  · have hturn := countWhere_turnOn (a := (⟨c, hc⟩ : Fin cfg.disksizeG))
      (p := fun e => (Function.update s.cbIndexMap c (some b) e.val).isNone)
      (q := fun e => (s.cbIndexMap e.val).isNone)
      (by simp) (by simp [hunmapped])
      (by
        intro e he
        have hec : e.val ≠ c := fun hec => he (Fin.ext hec)
        rw [Function.update_of_ne hec])
    have hfree := h.free
    change s.freeChunkIndex - 1 + 1 + (waiting.length : Int) =
      (countWhere fun e : Fin cfg.disksizeG =>
        (Function.update s.cbIndexMap c (some b) e.val).isNone : Nat)
    omega

theorem sendBind (h : SlabOk cfg waiting s) (b chunk : Nat) :
    SlabOk cfg waiting (sendBind b chunk s) := by
  have hcount : SlabOk cfg waiting
      (if s.cbStateList b = .connected then { s with mappedCbNum := s.mappedCbNum + 1 }
        else s) := by
    split
    · exact h.retouch rfl rfl rfl (fun _ => rfl) (fun _ _ => rfl) (fun _ => rfl) (fun _ hb => hb)
    · exact h
  have hput := hcount.putCb b (isSendBindSingle (Session.cb _ b) chunk) rfl
    (fun _ => rfl) rfl
  exact hput.setState b .mapped (by simp) (by simp)

end SlabOk

theorem chunkIndex?_lt {cfg : Config} {n : Int} {c : Nat} (h : cfg.chunkIndex? n = some c) :
    c < cfg.disksizeG ∧ (c : Int) = n := by
  unfold Config.chunkIndex? at h
  split at h
  · rename_i hn
    obtain rfl := Option.some.inj h
    omega
  · cases h

theorem chunkIndex?_of_lt {cfg : Config} {c : Nat} (h : c < cfg.disksizeG) :
    cfg.chunkIndex? (c : Int) = some c := by
  unfold Config.chunkIndex?
  rw [if_pos ⟨by omega, by omega⟩]
  simp

/-! ### What sending a bind leaves alone -/

@[simp] theorem sendBind_cbIndexMap (b chunk : Nat) (s : Session) :
    (sendBind b chunk s).cbIndexMap = s.cbIndexMap := by
  unfold sendBind
  split <;> rfl

@[simp] theorem sendBind_cbNum (b chunk : Nat) (s : Session) :
    (sendBind b chunk s).cbNum = s.cbNum := by
  unfold sendBind
  split <;> rfl

@[simp] theorem sendBind_remoteChunk (b chunk d : Nat) (s : Session) :
    ((sendBind b chunk s).cb d).remoteChunk = (s.cb d).remoteChunk := by
  by_cases hd : d = b
  · subst hd
    unfold sendBind
    split <;> simp [Session.setState, Session.putCb, isSendBindSingle]
  · unfold sendBind
    split <;> simp [Session.setState, Session.putCb, hd]

theorem sendBind_cbStateList_self (b chunk : Nat) (s : Session) :
    (sendBind b chunk s).cbStateList b = .mapped := by
  simp [sendBind, Session.setState]

/-! ## The bind loop -/

/-- Every entry of the servers' tables is still there. -/
def Session.Keeps (s t : Session) : Prop :=
  ∀ b i c, (s.cb b).remoteChunk.chunkMap i = some c → (t.cb b).remoteChunk.chunkMap i = some c

/-- Every bind answered with a chunk, from position `k` on, is for a session chunk
in range that is unmapped and not waiting, and no two are for the same one. -/
structure BindsFree (cfg : Config) (later : List Nat) (info : Nat → Message) (k n : Nat)
    (s : Session) : Prop where
  free : ∀ j, k ≤ j → j < n → ∀ i, assignedChunk (info j) = some i →
    ∃ c, cfg.chunkIndex? (info j).sizeGb = some c ∧ s.cbIndexMap c = none ∧ c ∉ later
  distinct : ∀ j j', k ≤ j → j < j' → j' < n → assignedChunk (info j) ≠ none →
    assignedChunk (info j') ≠ none → (info j).sizeGb ≠ (info j').sizeGb

/-- What one bind does: nothing to the tables, or the assignment. -/
theorem bindServer_cases (cfg : Config) (b chunk : Nat) (msg : Message) (s : Session) :
    (assignedChunk msg = none ∧ bindServer cfg b chunk msg s = some (sendBind b chunk s)) ∨
    (∃ i, assignedChunk msg = some i ∧ cfg.chunkIndex? msg.sizeGb = none ∧
      bindServer cfg b chunk msg s = none) ∨
    (∃ i c, assignedChunk msg = some i ∧ cfg.chunkIndex? msg.sizeGb = some c ∧
      bindServer cfg b chunk msg s = some
        ({ sendBind b chunk s with
          freeChunkIndex := (sendBind b chunk s).freeChunkIndex - 1
          chunkMapCbChunk :=
            Function.update (sendBind b chunk s).chunkMapCbChunk c (some i)
          cbIndexMap := Function.update (sendBind b chunk s).cbIndexMap c (some b) }.putCb b
          { (sendBind b chunk s).cb b with
            remoteChunk := ((sendBind b chunk s).cb b).remoteChunk.assign msg i c })) := by
  unfold bindServer isSingleChunkInit
  cases hmsg : assignedChunk msg with
  | none => exact .inl ⟨rfl, rfl⟩
  | some i =>
      cases hc : cfg.chunkIndex? msg.sizeGb with
      | none => exact .inr (.inl ⟨i, rfl, rfl, rfl⟩)
      | some c => exact .inr (.inr ⟨i, c, rfl, rfl, rfl⟩)

theorem SlabOk.bindServer {cfg : Config} {waiting : List Nat} {s : Session}
    (h : SlabOk cfg waiting s) (b chunk : Nat) (msg : Message)
    (hfresh : ∀ i, assignedChunk msg = some i → (s.cb b).remoteChunk.chunkMap i = none)
    (hfree : ∀ i, assignedChunk msg = some i →
      ∃ c, cfg.chunkIndex? msg.sizeGb = some c ∧ s.cbIndexMap c = none ∧ c ∉ waiting) :
    ∃ t, bindServer cfg b chunk msg s = some t ∧ SlabOk cfg waiting t ∧
      (∀ d, d ≠ b → (t.cb d).remoteChunk.chunkMap = (s.cb d).remoteChunk.chunkMap) ∧
      (∀ e, (assignedChunk msg ≠ none → cfg.chunkIndex? msg.sizeGb ≠ some e) →
        t.cbIndexMap e = s.cbIndexMap e) ∧ t.cbNum = s.cbNum ∧ s.Keeps t := by
  rcases bindServer_cases cfg b chunk msg s with ⟨-, heq⟩ | ⟨i, hi, hc, -⟩ | ⟨i, c, hi, hc, heq⟩
  · exact ⟨_, heq, h.sendBind b chunk, fun d _ => by simp, fun e _ => by simp, by simp,
      fun d i c hi => by simpa using hi⟩
  · obtain ⟨c, hc', -⟩ := hfree i hi
    rw [hc] at hc'
    cases hc'
  · obtain ⟨c', hc', hunmapped, hwaiting⟩ := hfree i hi
    obtain rfl := Option.some.inj (hc.symm.trans hc')
    refine ⟨_, heq, ?_, ?_, ?_, ?_, ?_⟩
    · refine (h.sendBind b chunk).assign ?_ (chunkIndex?_lt hc).1 ?_ hwaiting ?_
      · rw [sendBind_remoteChunk]
        exact hfresh i hi
      · rw [sendBind_cbIndexMap]
        exact hunmapped
      · rw [sendBind_cbStateList_self]
        exact ⟨by simp, by simp⟩
    · intro d hd
      change (Function.update (Manager.sendBind b chunk s).cb b _ d).remoteChunk.chunkMap = _
      rw [Function.update_of_ne hd, sendBind_remoteChunk]
    · intro e he
      have hec : e ≠ c := by
        rintro rfl
        exact he (by simp [hi]) hc
      change Function.update (Manager.sendBind b chunk s).cbIndexMap c _ e = _
      rw [Function.update_of_ne hec, sendBind_cbIndexMap]
    · exact sendBind_cbNum b chunk s
    · -- the chunk assigned was in no entry
      intro d k e hk
      change (Function.update (Manager.sendBind b chunk s).cb b _ d).remoteChunk.chunkMap k = _
      by_cases hd : d = b
      · subst hd
        rw [Function.update_self]
        change Function.update ((Manager.sendBind d chunk s).cb d).remoteChunk.chunkMap i _ k = _
        rw [sendBind_remoteChunk, Function.update_of_ne]
        · exact hk
        · rintro rfl
          rw [hfresh k hi] at hk
          cases hk
      · rw [Function.update_of_ne hd, sendBind_remoteChunk]
        exact hk

theorem SlabOk.bindServers {cfg : Config} {waiting : List Nat} {s : Session}
    (h : SlabOk cfg waiting s) (selectChunk : Nat) (info : Nat → Message) {n : Nat}
    {servers : List Nat} {k : Nat} (hnodup : servers.Nodup) (hlen : k + servers.length = n)
    (hfresh : ∀ j b i, servers[j]? = some b → assignedChunk (info (k + j)) = some i →
      (s.cb b).remoteChunk.chunkMap i = none)
    (hfree : BindsFree cfg waiting info k n s) :
    ∃ t, bindServers cfg selectChunk info servers k s = some t ∧ SlabOk cfg waiting t ∧
      t.cbNum = s.cbNum ∧ s.Keeps t := by
  induction servers generalizing s k with
  | nil => exact ⟨s, rfl, h, rfl, fun _ _ _ hi => hi⟩
  | cons b rest ih =>
      rw [List.length_cons] at hlen
      obtain ⟨hb, hrest⟩ := List.nodup_cons.mp hnodup
      obtain ⟨t, hbind, ht, hothers, hindex, hnum, hkeeps⟩ := h.bindServer b
        (selectChunk + k) (info k)
        (fun i hi => hfresh 0 b i rfl hi) (hfree.free k le_rfl (by omega))
      obtain ⟨u, hu, huok, hunum, hukeeps⟩ := ih ht (k := k + 1) hrest (by omega)
        (by
          intro j d i hd hi
          have hdb : d ≠ b := by
            rintro rfl
            exact hb (List.mem_of_getElem? hd)
          rw [hothers d hdb]
          exact hfresh (j + 1) d i hd (by rwa [show k + (j + 1) = k + 1 + j by omega]))
        ⟨by
          -- the chunk just bound is none of those still to be bound
          intro j hj hjn i hi
          obtain ⟨c, hc, hnone, hwaiting⟩ := hfree.free j (by omega) hjn i hi
          refine ⟨c, hc, ?_, hwaiting⟩
          rw [hindex]
          · exact hnone
          · intro hassigned hck
            have hne := hfree.distinct k j le_rfl (by omega) hjn hassigned (by simp [hi])
            exact hne ((chunkIndex?_lt hck).2.symm.trans (chunkIndex?_lt hc).2),
         fun j j' hj => hfree.distinct j j' (by omega)⟩
      refine ⟨u, ?_, huok, hunum.trans hnum, fun d i c hi => hukeeps d i c (hkeeps d i c hi)⟩
      rw [Manager.bindServers, hbind, Option.bind_some]
      exact hu

/-! ## A mapping round -/

theorem queryServer_frame (freeMem : Nat → Int32) (s : Session) (b : Nat) :
    (queryServer freeMem s b).cbIndexMap = s.cbIndexMap ∧
      (queryServer freeMem s b).cbNum = s.cbNum := by
  unfold queryServer
  split <;> exact ⟨rfl, rfl⟩

theorem queryServers_frame (freeMem : Nat → Int32) (s : Session) (l : List Nat) :
    (l.foldl (queryServer freeMem) s).cbIndexMap = s.cbIndexMap ∧
      (l.foldl (queryServer freeMem) s).cbNum = s.cbNum := by
  induction l generalizing s with
  | nil => exact ⟨rfl, rfl⟩
  | cons b rest ih =>
      obtain ⟨hindex, hnum⟩ := ih (queryServer freeMem s b)
      obtain ⟨hindex', hnum'⟩ := queryServer_frame freeMem s b
      exact ⟨hindex.trans hindex', hnum.trans hnum'⟩

theorem SlabOk.queryServers_chunkMap {cfg : Config} {waiting : List Nat} {s : Session}
    (h : SlabOk cfg waiting s) (freeMem : Nat → Int32) (l : List Nat) (d : Nat) :
    ((l.foldl (Manager.queryServer freeMem) s).cb d).remoteChunk.chunkMap =
      (s.cb d).remoteChunk.chunkMap := by
  induction l generalizing s with
  | nil => rfl
  | cons b rest ih =>
      refine (ih (h.queryServer freeMem b)).trans ?_
      by_cases hd : d = b
      · subst hd
        cases hstate : s.cbStateList d with
        | idle =>
            have hnone := h.fresh d (.inl hstate)
            simp only [Manager.queryServer, hstate, Session.setState, Session.putCb,
              Function.update_self]
            exact (funext hnone).symm
        | fail => simp only [Manager.queryServer, hstate]
        | connected | mapped | evicting =>
            simp only [Manager.queryServer, hstate, Session.putCb, Function.update_self]
            rfl
      · unfold Manager.queryServer
        split <;> simp [Session.setState, Session.putCb, hd]

/-- A round keeps the tables when what it binds is free. -/
theorem SlabOk.mapRound {cfg : Config} {waiting : List Nat} {s : Session}
    (h : SlabOk cfg waiting s) (hdisks : 0 < cfg.ndisks) (env : RoundEnv) (selectChunk : Nat)
    (hfresh : NamesFresh cfg env s)
    (hfree : roundServers cfg s.cbNum env s ≠ none →
      BindsFree cfg waiting env.info 0 cfg.ndisks s) :
    ∃ r, isSingleChunkMap cfg s.cbNum env selectChunk s = some r ∧
      SlabOk cfg waiting r.1 ∧ s.Keeps r.1 := by
  have hqueries : ∀ l : List Nat, s.Keeps (l.foldl (Manager.queryServer env.freeMem) s) := by
    intro l b i c hi
    rw [h.queryServers_chunkMap]
    exact hi
  obtain ⟨queried, -, ⟨servers, hservers, heq⟩ | ⟨-, heq⟩⟩ :=
    isSingleChunkMap_eq cfg hdisks env selectChunk s
  · obtain ⟨hselected, hlen⟩ := roundServers_selected rfl hservers
    have hindex := (queryServers_frame env.freeMem s queried).1
    have hbinds := hfree (by simp [hservers])
    obtain ⟨t, ht, htok, -, hkeeps⟩ := (h.queryServers env.freeMem queried).bindServers
      selectChunk env.info (n := cfg.ndisks) hselected.nodup
      (by omega)
      (by
        intro j b i hb hi
        rw [h.queryServers_chunkMap]
        exact hfresh servers hservers j b i hb (by simpa using hi))
      ⟨by
        rw [hindex]
        exact hbinds.free, hbinds.distinct⟩
    rw [heq, ht]
    exact ⟨_, rfl, htok, fun b i c hi => hkeeps b i c (hqueries queried b i c hi)⟩
  · exact ⟨_, heq, h.queryServers env.freeMem queried, hqueries queried⟩

/-! ## Releasing chunks -/

theorem releaseChunk_frame {cfg : Config} {c : Nat} {s t : Session}
    (h : releaseChunk cfg c s = some t) :
    t.cb = s.cb ∧ t.cbStateList = s.cbStateList ∧ t.cbNum = s.cbNum ∧
      t.cbIndexMap = s.cbIndexMap := by
  obtain ⟨c', -, hrest⟩ := Option.bind_eq_some_iff.mp h
  obtain ⟨k, -, rfl⟩ := Option.map_eq_some_iff.mp hrest
  exact ⟨rfl, rfl, rfl, rfl⟩

theorem releaseChunk_putCb (cfg : Config) (c b : Nat) (cb : KernelCb) (s : Session) :
    releaseChunk cfg c (s.putCb b cb) = (releaseChunk cfg c s).map fun s => s.putCb b cb := by
  unfold releaseChunk
  cases hc : cfg.chunkIndex? c with
  | none => rfl
  | some c' =>
      simp only [Option.bind_some, Session.putCb]
      cases cfg.chunkIndex? (s.freeChunkIndex + 1) <;> rfl

/-- The next waiting chunk goes to the unmapped list, which has room for it. -/
theorem SlabOk.releaseChunk {cfg : Config} {c : Nat} {rest : List Nat} {s : Session}
    (h : SlabOk cfg (c :: rest) s) :
    ∃ t, Manager.releaseChunk cfg c s = some t ∧ SlabOk cfg rest t := by
  obtain ⟨hc, hunmapped⟩ := h.pending c List.mem_cons_self
  obtain ⟨hnew, hnodup⟩ := List.nodup_cons.mp h.nodup
  -- the waiting chunks are among the unmapped ones
  have hroom : (c :: rest).length ≤
      countWhere fun e : Fin cfg.disksizeG => (s.cbIndexMap e).isNone := by
    rw [length_eq_countWhere h.nodup fun e he => (h.pending e he).1]
    apply Finset.card_le_card
    intro e he
    simp only [Finset.mem_filter, Finset.mem_univ, true_and, decide_eq_true_eq] at he ⊢
    rw [(h.pending e he).2]
    rfl
  have hall := countWhere_le_card fun e : Fin cfg.disksizeG => (s.cbIndexMap e).isNone
  rw [Fintype.card_fin] at hall
  have hfree := h.free
  rw [List.length_cons] at hfree hroom
  push_cast at hfree
  obtain ⟨k, hk⟩ : ∃ k, cfg.chunkIndex? (s.freeChunkIndex + 1) = some k := by
    unfold Config.chunkIndex?
    rw [if_pos ⟨by omega, by omega⟩]
    exact ⟨_, rfl⟩
  refine ⟨_, by rw [Manager.releaseChunk, chunkIndex?_of_lt hc, Option.bind_some, hk]; rfl, ?_⟩
  refine ⟨?_, ?_, ?_, h.flag, h.size, h.fresh, ?_, hnodup, ?_⟩
  · intro b i e he
    obtain ⟨he', hindex, hchunk⟩ := h.entry b i e he
    have hec : e ≠ c := by
      rintro rfl
      rw [hunmapped] at hindex
      cases hindex
    exact ⟨he', hindex, (Function.update_of_ne hec _ _).trans hchunk⟩
  · intro e b he
    obtain ⟨he', i, hchunk, hentry⟩ := h.mapped e b he
    have hec : e ≠ c := by
      rintro rfl
      rw [hunmapped] at he
      cases he
    exact ⟨he', i, (Function.update_of_ne hec _ _).trans hchunk, hentry⟩
  · intro e i he
    change Function.update s.chunkMapCbChunk c none e = some i at he
    by_cases hec : e = c
    · subst hec
      rw [Function.update_self] at he
      cases he
    · rw [Function.update_of_ne hec] at he
      rcases h.chunk e i he with hmapped | hwait
      · exact .inl hmapped
      · exact .inr ((List.mem_cons.mp hwait).resolve_left hec)
  · exact fun e he => h.pending e (List.mem_cons_of_mem c he)
  · change s.freeChunkIndex + 1 + 1 + (rest.length : Int) = _
    rw [← hfree]
    omega

/-! ## Unmapping -/

theorem pickedChunk_eq_some {rc : RemoteChunkList} {pick : ChunkIx → Bool} {i : ChunkIx}
    {c : Nat} : pickedChunk rc pick i = some c ↔ pick i = true ∧ rc.chunkMap i = some c := by
  unfold pickedChunk
  split <;> simp_all

/-- Some chunks of a server are unmapped; they wait for their release. -/
theorem SlabOk.unmap {cfg : Config} {s : Session} (h : SlabOk cfg [] s) (b : Nat)
    (pick : ChunkIx → Bool) (cb : KernelCb) (l : List Nat)
    (hmap : ∀ i, cb.remoteChunk.chunkMap i =
      if pick i then none else (s.cb b).remoteChunk.chunkMap i)
    (hflag : ∀ i, cb.remoteChunk.remoteMapped i = true ↔ cb.remoteChunk.chunkMap i ≠ none)
    (hsize : cb.remoteChunk.chunkSizeG = cb.remoteChunk.mappedCount) (hnodup : l.Nodup)
    (hmem : ∀ c, c ∈ l ↔ ∃ i, pickedChunk (s.cb b).remoteChunk pick i = some c) :
    SlabOk cfg l
      ({ s with
        cbIndexMap := clearPicked (pickedChunk (s.cb b).remoteChunk pick) none
          (List.finRange maxMrSizeGb) s.cbIndexMap }.putCb b cb) := by
  have hindex : ∀ c, clearPicked (pickedChunk (s.cb b).remoteChunk pick) none
      (List.finRange maxMrSizeGb) s.cbIndexMap c = if c ∈ l then none else s.cbIndexMap c := by
    intro c
    rw [clearPicked_finRange, if_congr (hmem c).symm rfl rfl]
  have hbound : ∀ c ∈ l, c < cfg.disksizeG ∧ s.cbIndexMap c = some b := by
    intro c hc
    obtain ⟨i, hi⟩ := (hmem c).mp hc
    obtain ⟨-, hentry⟩ := pickedChunk_eq_some.mp hi
    exact ⟨(h.entry b i c hentry).1, (h.entry b i c hentry).2.1⟩
  -- an entry that stays is not one of the unmapped chunks
  have hkeep : ∀ d i c, (Function.update s.cb b cb d).remoteChunk.chunkMap i = some c →
      (s.cb d).remoteChunk.chunkMap i = some c ∧ c ∉ l := by
    intro d i c hi
    by_cases hd : d = b
    · subst hd
      rw [Function.update_self, hmap] at hi
      split at hi
      · cases hi
      · rename_i hpick
        refine ⟨hi, fun hc => ?_⟩
        obtain ⟨k, hk⟩ := (hmem c).mp hc
        obtain ⟨hpicked, hentry⟩ := pickedChunk_eq_some.mp hk
        have hki : k = i := Option.some.inj
          ((h.entry d k c hentry).2.2.symm.trans (h.entry d i c hi).2.2)
        rw [hki] at hpicked
        exact hpick hpicked
    · rw [Function.update_of_ne hd] at hi
      refine ⟨hi, fun hc => hd ?_⟩
      exact Option.some.inj ((h.entry d i c hi).2.1.symm.trans (hbound c hc).2)
  obtain ⟨hflags, hsizes, hfresh⟩ := h.servers b cb hflag hsize (by
    intro hstate i
    rw [hmap, h.fresh b hstate i]
    split <;> rfl)
  refine ⟨?_, ?_, ?_, hflags, hsizes, hfresh, ?_, hnodup, ?_⟩
  · intro d i c hi
    obtain ⟨hold, hc⟩ := hkeep d i c hi
    obtain ⟨hlt, hown, hchunk⟩ := h.entry d i c hold
    refine ⟨hlt, ?_, hchunk⟩
    change clearPicked _ _ _ _ c = _
    rw [hindex, if_neg hc, hown]
  · intro c d hc
    change clearPicked _ _ _ _ c = _ at hc
    rw [hindex] at hc
    split at hc
    · cases hc
    · rename_i hcl
      obtain ⟨hlt, i, hchunk, hentry⟩ := h.mapped c d hc
      refine ⟨hlt, i, hchunk, ?_⟩
      change (Function.update s.cb b cb d).remoteChunk.chunkMap i = some c
      by_cases hd : d = b
      · subst hd
        rw [Function.update_self, hmap, if_neg]
        · exact hentry
        · intro hpick
          exact hcl ((hmem c).mpr ⟨i, pickedChunk_eq_some.mpr ⟨hpick, hentry⟩⟩)
      · rwa [Function.update_of_ne hd]
  · intro c i hc
    change clearPicked _ _ _ _ c ≠ _ ∨ _
    rw [hindex]
    by_cases hcl : c ∈ l
    · exact .inr hcl
    · rw [if_neg hcl]
      exact .inl ((h.chunk c i hc).resolve_right (by simp))
  · intro c hc
    refine ⟨(hbound c hc).1, ?_⟩
    change clearPicked _ _ _ _ c = _
    rw [hindex, if_pos hc]
  · have hcleared := countWhere_isNone_clear (t := s.cbIndexMap) hnodup fun c hc =>
      ⟨(hbound c hc).1, by simp [(hbound c hc).2]⟩
    have hfree := h.free
    rw [List.length_nil] at hfree
    change s.freeChunkIndex + 1 + (l.length : Int) = (countWhere fun c : Fin cfg.disksizeG =>
      (clearPicked (pickedChunk (s.cb b).remoteChunk pick) none (List.finRange maxMrSizeGb)
        s.cbIndexMap c.val).isNone : Nat)
    simp only [hindex]
    omega

/-- The check of `unmapPicked` passes: what a server backs is in range. -/
theorem SlabOk.unmapPicked {cfg : Config} {waiting : List Nat} {s : Session}
    (h : SlabOk cfg waiting s) (b : Nat) (pick : ChunkIx → Bool) (s' : Session)
    (hcb : s'.cb = s.cb) :
    unmapPicked cfg b pick s' = some
      { s' with
        cbIndexMap := clearPicked (pickedChunk (s.cb b).remoteChunk pick) none
          (List.finRange maxMrSizeGb) s'.cbIndexMap } := by
  unfold Manager.unmapPicked
  rw [if_neg, hcb]
  rintro ⟨i, c, hi, hc⟩
  rw [hcb] at hi
  have hlt := (h.entry b i c (pickedChunk_eq_some.mp hi).2).1
  omega

/-! ## Losing a server -/

/-- The session with the chunks of one server forgotten. -/
def Session.forgetServer (s : Session) (b : Nat) : Session :=
  s.putCb b { s.cb b with remoteChunk := (s.cb b).remoteChunk.forget }

theorem Session.forgetServer_self {s : Session} {b : Nat}
    (h : ∀ i, (s.cb b).remoteChunk.chunkMap i = none) : s.forgetServer b = s := by
  have hrc : (s.cb b).remoteChunk.forget = (s.cb b).remoteChunk := by
    unfold RemoteChunkList.forget
    rw [← funext h]
  unfold Session.forgetServer Session.putCb
  rw [hrc]
  simp

theorem Session.forgetServer_putCb (s : Session) (b : Nat) (rc : RemoteChunkList)
    (hrc : rc.forget = (s.cb b).remoteChunk.forget) :
    (s.putCb b { s.cb b with remoteChunk := rc }).forgetServer b = s.forgetServer b := by
  unfold Session.forgetServer Session.putCb
  simp [hrc]

/-- The release loop, for tables `P` with chunks that wait: what the server's table still
holds is what waits. -/
theorem releaseServer_total {cfg : Config} {P : List Nat → Session → Prop}
    (hrelease : ∀ c rest s, P (c :: rest) s → ∃ t, releaseChunk cfg c s = some t ∧ P rest t)
    {b : Nat} {l : List ChunkIx} (s : Session) (hnodup : l.Nodup)
    (h : P (l.filterMap (s.cb b).remoteChunk.chunkMap) (s.forgetServer b))
    (hdone : ∀ i, i ∉ l → (s.cb b).remoteChunk.chunkMap i = none) :
    ∃ t, releaseServer cfg b l s = some t ∧ P [] t ∧ t.cbNum = s.cbNum := by
  induction l generalizing s with
  | nil =>
      rw [Session.forgetServer_self fun i => hdone i (by simp)] at h
      exact ⟨s, rfl, h, rfl⟩
  | cons i rest ih =>
      obtain ⟨hi, hrest⟩ := List.nodup_cons.mp hnodup
      unfold Manager.releaseServer
      cases hentry : (s.cb b).remoteChunk.chunkMap i with
      | none =>
          simp only
          refine ih s hrest ?_ ?_
          · rw [List.filterMap_cons, hentry] at h
            exact h
          · intro k hk
            by_cases hki : k = i
            · rw [hki]
              exact hentry
            · exact hdone k (by simp [hki, hk])
      | some c =>
          rw [List.filterMap_cons, hentry] at h
          obtain ⟨t', ht', htok⟩ := hrelease _ _ _ h
          rw [Session.forgetServer, releaseChunk_putCb] at ht'
          obtain ⟨t, ht, rfl⟩ := Option.map_eq_some_iff.mp ht'
          obtain ⟨hcb, -, hnum, -⟩ := releaseChunk_frame ht
          simp only [ht, Option.bind_some]
          have hmap : ∀ k, ((t.putCb b
              { t.cb b with
                remoteChunk :=
                  { (t.cb b).remoteChunk with
                    chunkMap := Function.update (t.cb b).remoteChunk.chunkMap i none } }).cb
              b).remoteChunk.chunkMap k =
              Function.update (s.cb b).remoteChunk.chunkMap i none k := by
            intro k
            simp [Session.putCb, hcb]
          obtain ⟨u, hu, huok, hunum⟩ := ih (t.putCb b
              { t.cb b with
                remoteChunk :=
                  { (t.cb b).remoteChunk with
                    chunkMap := Function.update (t.cb b).remoteChunk.chunkMap i none } }) hrest
            (by
              rw [Session.forgetServer_putCb]
              · have hlist : rest.filterMap (Function.update (s.cb b).remoteChunk.chunkMap i none) =
                    rest.filterMap (s.cb b).remoteChunk.chunkMap := by
                  apply List.filterMap_congr
                  intro k hk
                  exact Function.update_of_ne (ne_of_mem_of_not_mem hk hi) _ _
                rw [funext hmap, hlist, Session.forgetServer, hcb]
                exact htok
              · rfl)
            (by
              intro k hk
              rw [hmap]
              by_cases hki : k = i
              · rw [hki, Function.update_self]
              · rw [Function.update_of_ne hki]
                exact hdone k (by simp [hki, hk]))
          exact ⟨u, hu, huok, hunum.trans hnum⟩

theorem Session.forgetServer_of_putCb (s : Session) (b : Nat) (cb : KernelCb) :
    (s.putCb b cb).forgetServer b = s.putCb b { cb with remoteChunk := cb.remoteChunk.forget } := by
  simp [Session.forgetServer, Session.putCb]

theorem SlabOk.disconnect {cfg : Config} {s : Session} (h : SlabOk cfg [] s) (b : Nat) :
    ∃ t, isDisconnectHandler cfg b s = some t ∧ SlabOk cfg [] t ∧ t.cbNum = s.cbNum := by
  unfold isDisconnectHandler
  split
  · exact ⟨_, rfl, h.setState _ _ (by simp) (by simp), rfl⟩
  rw [h.unmapPicked b _ (s.setState b .fail) rfl, Option.bind_some]
  -- forgetting the whole table is unmapping every chunk of it
  have hunmap := (h.setState b .fail (by simp) (by simp)).unmap b (fun _ => true)
    { s.cb b with remoteChunk := (s.cb b).remoteChunk.disallow.forget }
    ((List.finRange maxMrSizeGb).filterMap (s.cb b).remoteChunk.chunkMap)
    (fun i => rfl)
    (by
      intro i
      have hflag := h.flag b i
      change (if ((s.cb b).remoteChunk.chunkMap i).isSome then false
        else (s.cb b).remoteChunk.remoteMapped i) = true ↔ (none : Option Nat) ≠ none
      cases hi : (s.cb b).remoteChunk.chunkMap i with
      | none => simpa [hi] using hflag
      | some c => simp)
    (by
      have hzero : (s.cb b).remoteChunk.disallow.forget.mappedCount = 0 :=
        countWhere_eq_zero_iff.mpr fun _ => rfl
      change (0 : Int) = ((s.cb b).remoteChunk.disallow.forget.mappedCount : Int)
      rw [hzero]
      rfl)
    (by
      refine (List.nodup_finRange _).filterMap ?_
      intro i i' c hi hi'
      exact Option.some.inj ((h.entry b i c hi).2.2.symm.trans (h.entry b i' c hi').2.2))
    (by
      intro c
      simp [pickedChunk, Session.setState])
  let u : Session :=
    { s.setState b .fail with
      cbIndexMap := clearPicked (pickedChunk (s.cb b).remoteChunk fun _ => true) none
        (List.finRange maxMrSizeGb) s.cbIndexMap }
  have hself : (u.putCb b { s.cb b with remoteChunk := (s.cb b).remoteChunk.disallow }).cb b =
      { s.cb b with remoteChunk := (s.cb b).remoteChunk.disallow } := Function.update_self ..
  obtain ⟨t, ht, htok, hnum⟩ := releaseServer_total (P := SlabOk cfg)
    (fun _ _ _ hok => hok.releaseChunk)
    (u.putCb b { s.cb b with remoteChunk := (s.cb b).remoteChunk.disallow })
    (List.nodup_finRange _)
    (by
      rw [hself, Session.forgetServer_of_putCb]
      exact hunmap)
    (fun i hi => absurd (List.mem_finRange i) hi)
  exact ⟨t, ht, htok, hnum⟩

/-! ## An eviction round -/

theorem mem_evictList {cfg : Config} {rc : RemoteChunkList}
    (hbound : ∀ i c, rc.chunkMap i = some c → c < cfg.disksizeG) {c : Nat} :
    c ∈ evictList cfg rc ↔ ∃ i, pickedChunk rc (stopMarked rc) i = some c := by
  unfold evictList
  simp only [List.mem_filter, List.mem_range, decide_eq_true_eq]
  constructor
  · exact And.right
  · rintro ⟨i, hi⟩
    exact ⟨hbound i c (pickedChunk_eq_some.mp hi).2, i, hi⟩

theorem evictList_spec {cfg : Config} {s : Session} {b : Nat} (h : SlabOk cfg [] s)
    (rc : RemoteChunkList) (hrc : rc.chunkMap = (s.cb b).remoteChunk.chunkMap) :
    (evictList cfg rc).Nodup ∧
      ∀ c, c ∈ evictList cfg rc ↔
        ∃ i, pickedChunk (s.cb b).remoteChunk (stopMarked rc) i = some c := by
  refine ⟨List.nodup_range.filter _, fun c => ?_⟩
  rw [mem_evictList fun i e he => (h.entry b i e (hrc ▸ he)).1]
  simp only [pickedChunk, hrc]

theorem stopMarked_clientRecvStop (rc : RemoteChunkList) {msg : Message} (hsize : msg.sizeGb ≠ 0)
    (i : ChunkIx) : stopMarked (rc.clientRecvStop msg) i = msg.flagged i := by
  unfold stopMarked RemoteChunkList.clientRecvStop
  rw [if_neg hsize]
  cases hflag : msg.flagged i <;> simp [hflag]

theorem clientRecvStop_frame (rc : RemoteChunkList) (msg : Message) :
    (rc.clientRecvStop msg).chunkMap = rc.chunkMap ∧
      (rc.clientRecvStop msg).remoteMapped = rc.remoteMapped ∧
      (rc.clientRecvStop msg).chunkSizeG = rc.chunkSizeG ∧
      (rc.clientRecvStop msg).shrinkSizeG = msg.sizeGb := by
  unfold RemoteChunkList.clientRecvStop
  split <;> exact ⟨rfl, rfl, rfl, rfl⟩

/-- An eviction takes as many chunks off the server as the `STOP` flags. -/
theorem finishEvict_mappedCount {cb : KernelCb} {msg : Message} (hsize : msg.sizeGb ≠ 0)
    (hheld : ∀ i, msg.flagged i = true → cb.remoteChunk.chunkMap i ≠ none) :
    ((finishEvict msg.sizeGb (markEvicted
        { cb with
          remoteChunk := cb.remoteChunk.clientRecvStop msg })).remoteChunk.mappedCount : Int) =
      (cb.remoteChunk.mappedCount : Int) - countWhere msg.flagged := by
  have hsplit := countWhere_and_not_add (p := fun i => (cb.remoteChunk.chunkMap i).isSome)
    (q := msg.flagged) (fun i hi => Option.isSome_iff_ne_none.mpr (hheld i hi))
  have hcount : (finishEvict msg.sizeGb (markEvicted
      { cb with remoteChunk := cb.remoteChunk.clientRecvStop msg })).remoteChunk.mappedCount =
      countWhere fun i => (cb.remoteChunk.chunkMap i).isSome && !msg.flagged i := by
    apply countWhere_congr
    intro i
    have hmark := stopMarked_clientRecvStop cb.remoteChunk hsize i
    have hmap := (clientRecvStop_frame cb.remoteChunk msg).1
    change (if (cb.remoteChunk.clientRecvStop msg).evictChunkMap i = .stop then none
      else (cb.remoteChunk.clientRecvStop msg).chunkMap i).isSome = _
    rw [hmap, ← hmark, stopMarked]
    split <;> simp_all
  rw [hcount, RemoteChunkList.mappedCount]
  omega

theorem SlabOk.evictBegin {cfg : Config} {s : Session} (h : SlabOk cfg [] s) {b : Nat}
    {msg : Message} (hstop : StopsHeld msg (s.cb b).remoteChunk) :
    ∃ r, evictBegin cfg b msg s = some r ∧ SlabOk cfg (r.2.getD []) r.1 ∧
      r.1.cbNum = s.cbNum := by
  obtain ⟨hmap, hflag, hsize, hshrink⟩ := clientRecvStop_frame (s.cb b).remoteChunk msg
  have hself : ∀ cb, (s.putCb b cb).cb b = cb := fun cb => Function.update_self ..
  have hrecv : SlabOk cfg [] (s.putCb b
      { s.cb b with remoteChunk := (s.cb b).remoteChunk.clientRecvStop msg }) :=
    h.putCb _ _ hmap (fun i => by rw [hflag]) hsize
  unfold Manager.evictBegin
  simp only [hshrink]
  split
  · refine ⟨_, rfl, hrecv.putCb _ _ ?_ ?_ ?_, rfl⟩
    · rw [hself]
    · intro i
      rw [hself]
    · rw [hself]
  rename_i hne
  have hmarks := stopMarked_clientRecvStop (s.cb b).remoteChunk hne
  rw [if_neg]
  · rw [hrecv.unmapPicked b _ _ rfl, Option.map_some]
    refine ⟨_, rfl, ?_, rfl⟩
    obtain ⟨hnodup, hmem⟩ := evictList_spec (b := b) hrecv
      ((s.cb b).remoteChunk.clientRecvStop msg) (by rw [hself])
    have hunmap := hrecv.unmap b (stopMarked ((s.cb b).remoteChunk.clientRecvStop msg))
      (finishEvict msg.sizeGb (markEvicted
        { s.cb b with remoteChunk := (s.cb b).remoteChunk.clientRecvStop msg }))
      (evictList cfg ((s.cb b).remoteChunk.clientRecvStop msg))
      (by
        intro i
        rw [hself]
        simp only [stopMarked, decide_eq_true_eq]
        rfl)
      (by
        intro i
        have hold := h.flag b i
        rw [← hflag, ← hmap] at hold
        change (if ((s.cb b).remoteChunk.clientRecvStop msg).evictChunkMap i = .stop then false
            else ((s.cb b).remoteChunk.clientRecvStop msg).remoteMapped i) = true ↔
          (if ((s.cb b).remoteChunk.clientRecvStop msg).evictChunkMap i = .stop then none
            else ((s.cb b).remoteChunk.clientRecvStop msg).chunkMap i) ≠ none
        split
        · simp
        · exact hold)
      (by
        rw [finishEvict_mappedCount]
        · rw [← hstop.size, ← h.size b, ← hsize]
          rfl
        · exact hne
        · exact hstop.held)
      hnodup hmem
    refine (hunmap.setState b .evicting (by simp) (by simp)).retouch
      rfl rfl rfl ?_ ?_ ?_ (fun _ hd => hd) <;> intro d
    · simp [Session.setState, Session.putCb]
    · simp [Session.setState, Session.putCb]
    · simp [Session.setState, Session.putCb]
  · rintro ⟨i, hi, hnone⟩
    rw [hmarks] at hi
    rw [hmap] at hnone
    exact hstop.held i hi hnone

/-! ## Runs -/

theorem slabOk_create (cfg : Config) (cbNum : Nat) : SlabOk cfg [] (isSessionCreate cfg cbNum) := by
  refine ⟨?_, ?_, ?_, ?_, ?_, fun _ _ _ => rfl, by simp, List.nodup_nil, ?_⟩
  · intro b i c hi
    cases hi
  · intro c b hc
    cases hc
  · intro c i hc
    cases hc
  · intro b i
    simp [isSessionCreate, blankCb]
  · intro b
    have hzero : blankCb.remoteChunk.mappedCount = 0 := countWhere_eq_zero_iff.mpr fun _ => rfl
    change (0 : Int) = (blankCb.remoteChunk.mappedCount : Int)
    rw [hzero]
    rfl
  · have hall : (countWhere fun c : Fin cfg.disksizeG =>
        ((isSessionCreate cfg cbNum).cbIndexMap c).isNone) = cfg.disksizeG := by
      refine (countWhere_congr fun c => ?_).trans (countWhere_true.trans (Fintype.card_fin _))
      rfl
    rw [hall]
    change (cfg.disksizeG : Int) - 1 + 1 + 0 = _
    omega

/-- A step whose binds are free: every bind of its round that is answered with a
chunk is for a chunk in range that is unmapped before the step and is not an evicted
chunk whose turn is still to come, and no two of them are for the same chunk. -/
def BindsUnmapped (cfg : Config) (s : SlabState) : SlabAction → Prop
  | .mapRound _ env => roundServers cfg s.sess.cbNum env s.sess ≠ none →
      BindsFree cfg [] env.info 0 cfg.ndisks s.sess
  | .remap env => roundServers cfg s.sess.cbNum env s.sess ≠ none →
      BindsFree cfg s.later env.info 0 cfg.ndisks s.sess
  | _ => True

/-- One remap of an eviction round: the release of the chunk and its mapping round. -/
theorem SlabOk.remap {cfg : Config} (hdisks : 0 < cfg.ndisks) {c : Nat} {rest : List Nat}
    {s : Session} (h : SlabOk cfg (c :: rest) s) {env : RoundEnv} (hfresh : NamesFresh cfg env s)
    (hfree : roundServers cfg s.cbNum env s ≠ none →
      BindsFree cfg rest env.info 0 cfg.ndisks s) :
    ∃ u r, Manager.releaseChunk cfg c s = some u ∧
      isSingleChunkMap cfg u.cbNum env c u = some r ∧ SlabOk cfg rest r.1 ∧ s.Keeps r.1 := by
  obtain ⟨u, hu, huok⟩ := h.releaseChunk
  obtain ⟨hcb, hstate, hnum, hindex⟩ := releaseChunk_frame hu
  -- releasing the chunk changes nothing the round looks at
  have hround : roundServers cfg u.cbNum env u = roundServers cfg s.cbNum env s :=
    roundServers_congr hnum hstate
  obtain ⟨r, hr, hok, hkeeps⟩ := huok.mapRound hdisks env c
    (by
      intro servers hservers k d i hd hi
      rw [hcb]
      exact hfresh servers (hround ▸ hservers) k d i hd hi)
    (by
      intro hbinds
      rw [hround] at hbinds
      exact ⟨by rw [hindex]; exact (hfree hbinds).free, (hfree hbinds).distinct⟩)
  exact ⟨u, r, hu, hr, hok, fun d i e he => hkeeps d i e (by rw [hcb]; exact he)⟩

/-- One step: it stays within the arrays, and keeps the tables together. -/
theorem SlabOk.step {cfg : Config} (hdisks : 0 < cfg.ndisks) {s : SlabState} {a : SlabAction}
    (h : SlabOk cfg s.waiting s.sess) (hpermitted : SlabPermitted cfg s a)
    (hfree : BindsUnmapped cfg s a) :
    ∃ t, slabStep cfg s a = some t ∧ SlabOk cfg t.waiting t.sess := by
  cases a with
  | mapRound selectChunk env =>
      obtain ⟨hidle, hfresh⟩ := hpermitted
      rw [SlabState.waiting, hidle] at h
      obtain ⟨r, hr, hok, -⟩ := h.mapRound hdisks _ selectChunk hfresh hfree
      refine ⟨{ s with sess := r.1 }, by rw [slabStep, hr]; rfl, ?_⟩
      rw [SlabState.waiting, hidle]
      exact hok
  | disconnect b =>
      obtain ⟨hidle, -⟩ := hpermitted
      rw [SlabState.waiting, hidle] at h
      obtain ⟨t, ht, hok, -⟩ := h.disconnect b
      refine ⟨{ s with sess := t }, by rw [slabStep, ht]; rfl, ?_⟩
      rw [SlabState.waiting, hidle]
      exact hok
  | evict b msg =>
      obtain ⟨hidle, -, hstop⟩ := hpermitted
      rw [SlabState.waiting, hidle] at h
      obtain ⟨r, hr, hok, -⟩ := h.evictBegin hstop
      refine ⟨_, by rw [slabStep, hr]; rfl, ?_⟩
      rcases r with ⟨t, _ | l⟩
      · exact hok
      · exact hok
  | remap env =>
      obtain ⟨⟨b, c, rest, hevicting⟩, hfresh⟩ := hpermitted
      have hlater : s.later = rest := by simp [SlabState.later, SlabState.waiting, hevicting]
      rw [SlabState.waiting, hevicting] at h
      rw [BindsUnmapped, hlater] at hfree
      obtain ⟨u, r, hu, hr, hok, -⟩ := h.remap hdisks hfresh hfree
      refine ⟨{ sess := r.1, evicting := some (b, rest) }, ?_, hok⟩
      simp only [slabStep, hevicting, hu, Option.bind_some, hr, Option.map_some]
  | finish =>
      obtain ⟨b, hevicting⟩ := hpermitted
      rw [SlabState.waiting, hevicting] at h
      refine ⟨{ sess := s.sess.setState b .mapped, evicting := none }, ?_,
        h.setState _ _ (by simp) (by simp)⟩
      simp only [slabStep, hevicting]

/-- Along every run of complete rounds in which what is bound is free, the tables of
the session and of the servers are inverse to one another, flags and sizes are those
of the mapped entries, and the next such step indexes no array out of range. -/
theorem slab_map_consistent (cfg : Config) (hdisks : 0 < cfg.ndisks) (cbNum : Nat)
    (s : SlabState)
    (hrun : Reach (slabStep cfg) (fun s a => SlabPermitted cfg s a ∧ BindsUnmapped cfg s a)
      (slabInit cfg cbNum) s) :
    SlabMap cfg s.sess ∧
      ∀ a, SlabPermitted cfg s a → BindsUnmapped cfg s a → slabStep cfg s a ≠ none := by
  have hok : SlabOk cfg s.waiting s.sess := by
    refine hrun.invariant (I := fun s => SlabOk cfg s.waiting s.sess)
      (slabOk_create cfg cbNum) ?_
    rintro u a v hu ⟨hpermitted, hfree⟩ hstep
    obtain ⟨t, ht, htok⟩ := hu.step hdisks hpermitted hfree
    obtain rfl := Option.some.inj (ht.symm.trans hstep)
    exact htok
  refine ⟨hok.slabMap, fun a hpermitted hfree hnone => ?_⟩
  obtain ⟨t, ht, -⟩ := hok.step hdisks hpermitted hfree
  rw [ht] at hnone
  cases hnone

/-! ### One round, and one eviction -/

/-- An `INFO_SINGLE` for a session chunk that hands out one chunk of the server. -/
def infoSingle (selectChunk : Int) (i : ChunkIx) : Message :=
  { Message.plain .infoSingle selectChunk with rkey := fun k => if k = i then 1 else 0 }

/-- A round of which every bind is answered with chunk `i` of the server asked, for
the session chunk asked for, as the monitor does. -/
def roundEnv (selectChunk : Nat) (i : ChunkIx) : RoundEnv where
  random := fun _ => 0
  freeMem := fun _ => 5
  info := fun k => infoSingle (selectChunk + k) i

/-- A `STOP` for one chunk. -/
def stopOne (i : ChunkIx) : Message :=
  { Message.plain .stop 1 with rkey := fun k => if k = i then 1 else 0 }

theorem assignedChunk_infoSingle {selectChunk : Int} {i k : ChunkIx}
    (h : assignedChunk (infoSingle selectChunk i) = some k) : k = i := by
  have hflag := List.find?_some h
  by_contra hne
  simp [infoSingle, Message.flagged, hne] at hflag

theorem roundEnv_namesFresh {cfg : Config} {selectChunk : Nat} {i : ChunkIx} {s : Session}
    (h : ∀ b < s.cbNum, (s.cb b).remoteChunk.chunkMap i = none) :
    NamesFresh cfg (roundEnv selectChunk i) s := by
  intro servers hservers k b j hb hj
  rw [assignedChunk_infoSingle hj]
  exact h b ((roundServers_selected rfl hservers).1.bound b (List.mem_of_getElem? hb))

theorem stopOne_stopsHeld {i : ChunkIx} {rc : RemoteChunkList} (h : rc.chunkMap i ≠ none) :
    StopsHeld (stopOne i) rc := by
  refine ⟨?_, ?_⟩
  · intro k hk
    have hki : k = i := by
      by_contra hne
      simp [stopOne, Message.flagged, hne] at hk
    rwa [hki]
  · have hcount : countWhere (stopOne i).flagged = 1 := by
      rw [countWhere_turnOn (p := fun _ => false) (a := i) rfl]
      · rw [countWhere_eq_zero_iff.mpr fun _ => rfl]
      · simp [stopOne, Message.flagged]
      · intro k hk
        simp [stopOne, Message.flagged, hk]
    rw [hcount]
    rfl

theorem roundEnv_bindsFree {cfg : Config} {selectChunk : Nat} {i : ChunkIx} {s : Session}
    (hbound : selectChunk + cfg.ndisks ≤ cfg.disksizeG)
    (hunmapped : ∀ c, s.cbIndexMap c = none) :
    BindsFree cfg [] (roundEnv selectChunk i).info 0 cfg.ndisks s := by
  have hasked : ∀ j,
      ((roundEnv selectChunk i).info j).sizeGb = ((selectChunk + j : Nat) : Int) := by
    intro j
    push_cast
    rfl
  refine ⟨?_, ?_⟩
  · intro j _ hj k _
    rw [hasked]
    exact ⟨selectChunk + j, chunkIndex?_of_lt (by omega), hunmapped _, by simp⟩
  · intro j j' _ hlt _ _ _
    rw [hasked, hasked]
    omega

/-- With four servers the first round maps the three chunks of the device. -/
theorem slab_map_consistent_mapRound :
    ∃ s, Reach (slabStep .rep) (fun s a => SlabPermitted .rep s a ∧ BindsUnmapped .rep s a)
        (slabInit .rep 4) s ∧ SlabMap .rep s.sess ∧ s.sess.cbIndexMap 2 = some 2 := by
  have hrun : Reach (slabStep .rep) (fun s a => SlabPermitted .rep s a ∧ BindsUnmapped .rep s a)
      (slabInit .rep 4)
      ((slabStep .rep (slabInit .rep 4) (.mapRound 0 (roundEnv 0 0))).get (by rfl)) := by
    exact Reach.snoc (a := .mapRound 0 (roundEnv 0 0)) Relation.ReflTransGen.refl
      ⟨⟨rfl, roundEnv_namesFresh fun _ _ => rfl⟩,
        fun _ => roundEnv_bindsFree (by decide) fun _ => rfl⟩ (Option.some_get _).symm
  exact ⟨_, hrun, (slab_map_consistent .rep (by decide) 4 _ hrun).1, rfl⟩

/-- The first round, then the eviction of chunk 0 of the device from server 0. -/
def evictFirst : List SlabAction :=
  [.mapRound 0 (roundEnv 0 0), .evict 0 (stopOne 0), .remap (roundEnv 0 1), .finish]

/-- Its remap binds all three chunks again: chunk 1 of the device is then in the
tables of servers 1 and 2. -/
theorem slab_map_overlaps :
    ∃ s, Reach (slabStep .rep) (SlabPermitted .rep) (slabInit .rep 4) s ∧ s.evicting = none ∧
      (s.sess.cb 1).remoteChunk.chunkMap 0 = some 1 ∧
      (s.sess.cb 2).remoteChunk.chunkMap 1 = some 1 ∧ ¬ SlabMap .rep s.sess := by
  have hrun : Reach (slabStep .rep) (SlabPermitted .rep) (slabInit .rep 4)
      ((runActions (slabStep .rep) (slabInit .rep 4) evictFirst).get (by rfl)) := by
    apply reach_of_runActions (Option.some_get _).symm
    refine ⟨⟨rfl, roundEnv_namesFresh fun _ _ => rfl⟩, fun s₁ h₁ => ?_⟩
    obtain rfl := Option.some.inj h₁
    refine ⟨⟨rfl, by decide, stopOne_stopsHeld (by decide)⟩, fun s₂ h₂ => ?_⟩
    obtain rfl := Option.some.inj h₂
    refine ⟨⟨⟨0, 0, [], rfl⟩, roundEnv_namesFresh (by decide)⟩, fun s₃ h₃ => ?_⟩
    obtain rfl := Option.some.inj h₃
    exact ⟨⟨0, rfl⟩, fun _ _ => trivial⟩
  refine ⟨_, hrun, rfl, rfl, rfl, fun hmap => ?_⟩
  have hsame := (hmap.unique 1 0 2 1 1 rfl rfl).1
  cases hsame

end Hydra.Manager
