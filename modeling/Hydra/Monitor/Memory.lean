/-
  Monitor/Memory.lean --- what is in a chunk when it is handed out.

  Source: the `memset` calls of `rdma_session_init` and `free_mem`, `send_single_mr`,
  `send_mr`, `recv_done` and `destroy_connection` of `resource_monitor/rdma-common.c`.

  A chunk is zeroed when it is allocated.  `recv_done` frees the chunks it takes back, so
  that they are allocated anew before they are bound again; `destroy_connection` only
  unbinds them.  Clients write into the chunks bound to them without the monitor taking
  part.  `handed` remembers what every bind handed out, and is not part of the program.
-/
import Hydra.Monitor.Accounting

set_option autoImplicit false

namespace Hydra.Monitor

open Hydra.Foundation Hydra.Wire

variable {Data : Type} [Zero Data]

/-! ## The monitor and its memory -/

/-- The contents of a chunk, by offset. -/
abbrev Region (Data : Type) := Nat → Data

/-- The session, the contents of the chunks, and what the binds handed out: to whom,
which chunk and with which contents. -/
structure MemState (Data : Type) where
  session : Session
  mem : ChunkIx → Region Data
  handed : List (ConnIx × ChunkIx × Region Data)

/-- An action of the monitor, or a write of a client by RDMA. -/
inductive MemAction (Data : Type) where
  | act (a : Action)
  | write (c : ConnIx) (i : ChunkIx) (offset : Nat) (data : Data)

/-- Allocation zeroes, everything else leaves the contents. -/
def zeroAllocated (m m' : Session) (mem : ChunkIx → Region Data) : ChunkIx → Region Data :=
  fun i => if m.mallocMap i = .empty ∧ m'.mallocMap i = .malloced then 0 else mem i

/-- The chunks bound by a step, each with its new owner and what is in it. -/
def newlyBound (m m' : Session) (mem : ChunkIx → Region Data) :
    List (ConnIx × ChunkIx × Region Data) :=
  (List.finRange maxMrSizeGb).filterMap fun i =>
    if m'.connMap i = m.connMap i then none
    else (m'.connMap i).map fun c => (c, i, mem i)

/-- One step. -/
def memStep (s : MemState Data) : MemAction Data → Option (MemState Data)
  | .act a =>
      (step s.session a).map fun m =>
        { session := m
          mem := zeroAllocated s.session m s.mem
          handed := s.handed ++ newlyBound s.session m s.mem }
  | .write _ i offset data =>
      some { s with mem := Function.update s.mem i (Function.update (s.mem i) offset data) }

/-- A monitor just started: the chunks it allocated are zeroed, the others do not
exist. -/
def memInit (freeMemG : Int) (mem : ChunkIx → Region Data) : MemState Data where
  session := rdmaSessionInit freeMemG
  mem := fun i => if (i.val : Int) < initialSizeGb freeMemG then 0 else mem i
  handed := []

/-- Clients write into chunks bound to them. -/
def WritesOwn (s : MemState Data) : MemAction Data → Prop
  | .write c i _ _ => s.session.connMap i = some c
  | .act _ => True

/-- A disconnect gives up only chunks with nothing in them. -/
def GivesUpBlank (s : MemState Data) : MemAction Data → Prop
  | .act (.disconnect c) => ∀ conn, s.session.conns c = some conn → 0 < conn.mappedChunkSize →
      ∀ j i, conn.sessChunkMap j = some i → s.mem i = 0
  | .act _ | .write _ _ _ _ => True

/-- The monitor's part of an action. -/
def MemAction.act? : MemAction Data → Option Action
  | .act a => some a
  | .write _ _ _ _ => none

/-! ## What a step binds and frees -/

/-- A bind loop binds free chunks and leaves the others as they are. -/
structure BindsFree (m : Session) (st : Session × Connection) : Prop where
  malloc : st.1.mallocMap = m.mallocMap
  chunks : ∀ i, st.1.connMap i = m.connMap i ∨ m.freeChunk i = true ∧ st.1.connMap i ≠ none

theorem BindsFree.bindChunk {m : Session} {st : Session × Connection} (h : BindsFree m st)
    (mr : ChunkIx → Mr) {i : ChunkIx} (hfree : st.1.freeChunk i = true) :
    BindsFree m (bindChunk mr i st) := by
  obtain ⟨hmalloc, hunbound⟩ := freeChunk_iff.mp hfree
  refine ⟨h.malloc, fun k => ?_⟩
  have hmap : (Monitor.bindChunk mr i st).1.connMap =
      Function.update st.1.connMap i (some st.2.connIndex) := rfl
  rw [hmap]
  by_cases hki : k = i
  · subst hki
    right
    refine ⟨?_, by simp⟩
    rcases h.chunks k with hsame | ⟨-, hbound⟩
    · rw [freeChunk_iff, ← h.malloc, ← hsame]
      exact ⟨hmalloc, hunbound⟩
    · exact absurd hunbound hbound
  · rw [Function.update_of_ne hki]
    exact h.chunks k

/-- Everything `on_completion` does to the chunks: it binds free ones, or it unbinds some
and frees them. -/
theorem onCompletion_chunks {m : Session} {c : ConnIx} {msg : Message} {mr : ChunkIx → Mr}
    {r : Session × Option Message} (hrecv : onCompletion mr c msg m = some r) (i : ChunkIx) :
    (r.1.mallocMap i = m.mallocMap i ∧ (r.1.connMap i = m.connMap i ∨
        m.freeChunk i = true ∧ r.1.connMap i ≠ none)) ∨
      (r.1.mallocMap i = .empty ∧ r.1.connMap i = none) := by
  obtain ⟨conn₀, hc, conn, hconn, hcases⟩ := onCompletion_cases hrecv
  rcases hcases with ⟨-, heq, -⟩ | ⟨-, heq, -⟩ | ⟨-, heq, -⟩ | ⟨-, heq, -⟩ | ⟨-, heq, -⟩ |
    ⟨-, hdone, -⟩
  · rw [heq]
    exact Or.inl ⟨rfl, Or.inl rfl⟩
  · rw [heq]
    have hloop := doFirst_invariant msg.sizeGb (fun st => st.1.freeChunk) (bindChunk mr)
      (I := fun st _ => BindsFree m st) (fun st n k hst hfree => hst.bindChunk mr hfree)
      (List.finRange maxMrSizeGb) 0 (m, conn.clearReply msg.sizeGb) ⟨rfl, fun _ => Or.inl rfl⟩
    exact Or.inl ⟨congrFun hloop.malloc i, hloop.chunks i⟩
  · rw [heq]
    unfold sendSingleMr
    split
    · exact Or.inl ⟨rfl, Or.inl rfl⟩
    · rename_i k hk
      have hstart : BindsFree m (m, conn.clearReply msg.sizeGb) := ⟨rfl, fun _ => Or.inl rfl⟩
      have hbind := hstart.bindChunk mr (i := k) (List.find?_some hk)
      exact Or.inl ⟨congrFun hbind.malloc i, hbind.chunks i⟩
  · rw [heq]
    exact Or.inl ⟨rfl, Or.inl rfl⟩
  · rw [heq]
    exact Or.inl ⟨rfl, Or.inl rfl⟩
  · rw [(recvDone_cases hdone).2]
    change (clearPicked conn.released Alloc.empty _ m.mallocMap i = m.mallocMap i ∧
      (clearPicked conn.released none _ m.connMap i = m.connMap i ∨ _)) ∨
        (clearPicked conn.released Alloc.empty _ m.mallocMap i = .empty ∧
          clearPicked conn.released none _ m.connMap i = none)
    rw [clearPicked_finRange, clearPicked_finRange]
    by_cases hpicked : ∃ k, conn.released k = some i
    · rw [if_pos hpicked, if_pos hpicked]
      exact Or.inr ⟨rfl, rfl⟩
    · rw [if_neg hpicked, if_neg hpicked]
      exact Or.inl ⟨rfl, Or.inl rfl⟩

theorem evictFreeUnmapped_connMap (stopG : Int) (m : Session) :
    (evictFreeUnmapped stopG m).1.connMap = m.connMap := by
  exact doFirst_invariant stopG (fun (m : Session) => m.freeChunk)
    (fun i m => { m with mallocMap := Function.update m.mallocMap i .empty })
    (I := fun st _ => st.connMap = m.connMap) (fun _ _ _ hst _ => hst) _ 0 m rfl

/-- The connection gives the chunk up when it is destroyed. -/
def GivesUp (m : Session) (c : ConnIx) (i : ChunkIx) : Prop :=
  ∃ conn, m.conns c = some conn ∧ 0 < conn.mappedChunkSize ∧ ∃ j, conn.sessChunkMap j = some i

/-- Everything a step does to the binding of a chunk: nothing; it binds a free one; it
unbinds one and frees it; or a disconnect gives it up. -/
theorem step_chunks {m m' : Session} {a : Action} (hstep : step m a = some m') (i : ChunkIx) :
    m'.connMap i = m.connMap i ∨ (m.freeChunk i = true ∧ m'.connMap i ≠ none) ∨
      (m'.mallocMap i = .empty ∧ m'.connMap i = none) ∨
      (m'.connMap i = none ∧ ∃ c, a = .disconnect c ∧ GivesUp m c i) := by
  cases a with
  | connect sendBuf recvBuf =>
      simp only [step, Monitor.buildConnection] at hstep
      split at hstep
      · cases hstep
      · rw [← Option.some.inj hstep]
        exact Or.inl rfl
  | receive c msg mr =>
      obtain ⟨r, hrecv, rfl⟩ := Option.map_eq_some_iff.mp hstep
      rcases onCompletion_chunks hrecv i with ⟨-, hsame | hbinds⟩ | hfrees
      · exact Or.inl hsame
      · exact Or.inr (Or.inl hbinds)
      · exact Or.inr (Or.inr (Or.inl hfrees))
  | disconnect c =>
      simp only [step, Monitor.destroyConnection] at hstep
      split at hstep
      · cases hstep
      rename_i conn hc
      have hmap : m'.connMap = if conn.mappedChunkSize > 0 then
          clearPicked conn.sessChunkMap none (List.finRange maxMrSizeGb) m.connMap
          else m.connMap := by
        rw [← Option.some.inj hstep]
        split <;> rfl
      rw [hmap]
      split
      · rename_i hpos
        rw [clearPicked_finRange]
        split
        · rename_i hpicked
          exact Or.inr (Or.inr (Or.inr ⟨rfl, c, rfl, conn, hc, hpos, hpicked⟩))
        · exact Or.inl rfl
      · exact Or.inl rfl
  | expand lastFreeMemG =>
      rw [← Option.some.inj hstep]
      exact Or.inl rfl
  | freeUnmapped stopG =>
      rw [← Option.some.inj hstep]
      exact Or.inl (congrFun (evictFreeUnmapped_connMap stopG m) i)

/-! ## The invariant -/

/-- A chunk that may be handed out is blank. -/
def FreeBlank (s : MemState Data) : Prop := ∀ i, s.session.freeChunk i = true → s.mem i = 0

theorem freeBlank_init (freeMemG : Int) (mem : ChunkIx → Region Data) :
    FreeBlank (memInit freeMemG mem) := by
  intro i hfree
  obtain ⟨hmalloc, -⟩ := freeChunk_iff.mp hfree
  have hlt : (i.val : Int) < initialSizeGb freeMemG := by
    by_contra hge
    change (if _ then _ else _) = _ at hmalloc
    rw [if_neg hge] at hmalloc
    cases hmalloc
  exact if_pos hlt

theorem FreeBlank.step {s t : MemState Data} {a : MemAction Data} (h : FreeBlank s)
    (howns : WritesOwn s a) (hblank : GivesUpBlank s a) (hstep : memStep s a = some t) :
    FreeBlank t := by
  intro i hfree
  cases a with
  | write c k offset data =>
      obtain rfl := Option.some.inj hstep
      have hki : i ≠ k := by
        rintro rfl
        have hbound : s.session.connMap i = some c := howns
        have hnone : s.session.connMap i = none := (freeChunk_iff.mp hfree).2
        rw [hnone] at hbound
        cases hbound
      change Function.update s.mem k _ i = 0
      rw [Function.update_of_ne hki]
      exact h i hfree
  | act a =>
      obtain ⟨m, hm, rfl⟩ := Option.map_eq_some_iff.mp hstep
      obtain ⟨hmalloc, hunbound⟩ := freeChunk_iff.mp hfree
      change zeroAllocated s.session m s.mem i = 0
      unfold zeroAllocated
      split
      · rfl
      rename_i hold
      have hmalloced : s.session.mallocMap i = .malloced := by
        cases hwas : s.session.mallocMap i with
        | empty => exact absurd ⟨hwas, hmalloc⟩ hold
        | malloced => rfl
      rcases step_chunks hm i with hsame | ⟨-, hbound⟩ | ⟨hempty, -⟩ |
        ⟨-, c, rfl, conn, hc, hpos, j, hj⟩
      · exact h i (freeChunk_iff.mpr ⟨hmalloced, hsame ▸ hunbound⟩)
      · exact absurd hunbound hbound
      · rw [hempty] at hmalloc
        cases hmalloc
      · exact hblank conn hc hpos j i hj

/-- What a step hands out is blank. -/
theorem FreeBlank.newlyBound {s : MemState Data} (h : FreeBlank s) {m : Session} {a : Action}
    (hm : Monitor.step s.session a = some m) :
    Monitor.newlyBound s.session m s.mem = Monitor.newlyBound s.session m 0 := by
  unfold Monitor.newlyBound
  congr 1
  funext i
  split
  · rfl
  rename_i hchanged
  cases hbound : m.connMap i with
  | none => rfl
  | some c =>
      have hfree : s.session.freeChunk i = true := by
        rcases step_chunks hm i with hsame | ⟨hfree, -⟩ | ⟨-, hnone⟩ | ⟨hnone, -⟩
        · exact absurd hsame hchanged
        · exact hfree
        · rw [hbound] at hnone
          cases hnone
        · rw [hbound] at hnone
          cases hnone
      rw [Option.map_some, Option.map_some, h i hfree]
      rfl

/-! ## Runs -/

/-- The monitor by itself, with a log of what it hands out if all of it is blank. -/
def logStep (st : Session × List (ConnIx × ChunkIx × Region Data)) (a : Action) :
    Option (Session × List (ConnIx × ChunkIx × Region Data)) :=
  (step st.1 a).map fun m => (m, st.2 ++ newlyBound st.1 m 0)

/-- A run in which nothing but blank chunks is given up hands out what the monitor by
itself does, whatever the clients write. -/
theorem FreeBlank.run {s t : MemState Data} {actions : List (MemAction Data)} (h : FreeBlank s)
    (hmeet : AllMeet memStep (fun s a => WritesOwn s a ∧ GivesUpBlank s a) s actions)
    (hrun : runActions memStep s actions = some t) :
    runActions logStep (s.session, s.handed) (actions.filterMap MemAction.act?) =
      some (t.session, t.handed) := by
  induction actions generalizing s with
  | nil =>
      obtain rfl := Option.some.inj hrun
      rfl
  | cons a rest ih =>
      obtain ⟨u, hu, hrest⟩ := Option.bind_eq_some_iff.mp hrun
      obtain ⟨⟨howns, hblank⟩, hmore⟩ := hmeet
      have hlog := ih (h.step howns hblank hu) (hmore u hu) hrest
      cases a with
      | write c i offset data =>
          obtain rfl := Option.some.inj hu
          exact hlog
      | act a =>
          obtain ⟨m, hm, rfl⟩ := Option.map_eq_some_iff.mp hu
          rw [h.newlyBound hm] at hlog
          simpa [MemAction.act?, runActions, logStep, hm] using hlog

/-- The log has nothing but blank contents. -/
theorem logStep_blank {st st' : Session × List (ConnIx × ChunkIx × Region Data)}
    {actions : List Action} (hblank : ∀ e ∈ st.2, e.2.2 = 0)
    (hrun : runActions logStep st actions = some st') : ∀ e ∈ st'.2, e.2.2 = 0 := by
  induction actions generalizing st with
  | nil =>
      obtain rfl := Option.some.inj hrun
      exact hblank
  | cons a rest ih =>
      obtain ⟨u, hu, hrest⟩ := Option.bind_eq_some_iff.mp hrun
      obtain ⟨m, -, rfl⟩ := Option.map_eq_some_iff.mp hu
      refine ih (fun e he => ?_) hrest
      rcases List.mem_append.mp he with hold | hnew
      · exact hblank e hold
      · obtain ⟨i, -, hi⟩ := List.mem_filterMap.mp hnew
        split at hi
        · cases hi
        · obtain ⟨c, -, rfl⟩ := Option.map_eq_some_iff.mp hi
          rfl

/-- Two runs of the monitor that differ only in what the clients write hand out the same
chunks to the same connections with the same contents, all zero, if every disconnect in
them gives up only blank chunks. -/
theorem no_flow_between_clients (freeMemG : Int) (mem₁ mem₂ : ChunkIx → Region Data)
    (actions₁ actions₂ : List (MemAction Data)) (s₁ s₂ : MemState Data)
    (hsame : actions₁.filterMap MemAction.act? = actions₂.filterMap MemAction.act?)
    (hmeet₁ : AllMeet memStep (fun s a => WritesOwn s a ∧ GivesUpBlank s a)
      (memInit freeMemG mem₁) actions₁)
    (hmeet₂ : AllMeet memStep (fun s a => WritesOwn s a ∧ GivesUpBlank s a)
      (memInit freeMemG mem₂) actions₂)
    (hrun₁ : runActions memStep (memInit freeMemG mem₁) actions₁ = some s₁)
    (hrun₂ : runActions memStep (memInit freeMemG mem₂) actions₂ = some s₂) :
    s₁.handed = s₂.handed ∧ ∀ e ∈ s₁.handed, e.2.2 = 0 := by
  have hlog₁ := (freeBlank_init freeMemG mem₁).run hmeet₁ hrun₁
  have hlog₂ := (freeBlank_init freeMemG mem₂).run hmeet₂ hrun₂
  rw [← hsame] at hlog₂
  have heq : (s₁.session, s₁.handed) = (s₂.session, s₂.handed) :=
    Option.some.inj (hlog₁.symm.trans hlog₂)
  exact ⟨congrArg Prod.snd heq, logStep_blank (fun e he => by cases he) hlog₁⟩

/-- A client binds a chunk, writes to it, is stopped and answers `DONE`; the chunk is
allocated again and goes to the next client. -/
def stoppedThenBound (data : Nat) : List (MemAction Nat) :=
  [.act (.connect (.plain .done 0) (.plain .done 0)),
    .act (.receive 0 (.plain .bindSingle 0) fun _ => ⟨0, 1⟩), .write 0 0 5 data,
    .act (.receive 0 { Message.plain .done 1 with rkey := fun i => if i = 0 then 1 else 0 }
      fun _ => ⟨0, 1⟩),
    .act (.expand 21), .act (.connect (.plain .done 0) (.plain .done 0)),
    .act (.receive 1 (.plain .bindSingle 0) fun _ => ⟨0, 1⟩)]

/-- The same with a disconnect in place of the eviction. -/
def leftThenBound (data : Nat) : List (MemAction Nat) :=
  [.act (.connect (.plain .done 0) (.plain .done 0)),
    .act (.receive 0 (.plain .bindSingle 0) fun _ => ⟨0, 1⟩), .write 0 0 5 data,
    .act (.disconnect 0), .act (.connect (.plain .done 0) (.plain .done 0)),
    .act (.receive 0 (.plain .bindSingle 0) fun _ => ⟨0, 1⟩)]

instance (s : MemState Nat) (a : MemAction Nat) : Decidable (WritesOwn s a) :=
  match a with
  | .write c i _ _ => inferInstanceAs (Decidable (s.session.connMap i = some c))
  | .act _ => isTrue trivial

theorem no_flow_between_clients_stopped :
    ∃ s₁ s₂, runActions memStep (memInit 12 0) (stoppedThenBound 7) = some s₁ ∧
      runActions memStep (memInit 12 0) (stoppedThenBound 8) = some s₂ ∧
      s₁.handed.map (fun e => (e.1, e.2.1)) = [(0, 0), (1, 0)] ∧ s₁.handed = s₂.handed := by
  have hrun₁ : ((runActions memStep (memInit 12 0) (stoppedThenBound 7)).map fun s =>
      s.handed.map fun e => (e.1, e.2.1)) = some [(0, 0), (1, 0)] := by
    decide +kernel
  have hrun₂ : (runActions memStep (memInit 12 0) (stoppedThenBound 8)).isSome = true := by
    decide +kernel
  have hmeet : ∀ data, (∀ a ∈ stoppedThenBound data, ∀ s : MemState Nat, GivesUpBlank s a) := by
    intro data a ha s
    simp only [stoppedThenBound, List.mem_cons, List.not_mem_nil, or_false] at ha
    rcases ha with rfl | rfl | rfl | rfl | rfl | rfl | rfl <;> trivial
  have howns₁ : AllMeet memStep WritesOwn (memInit 12 0) (stoppedThenBound 7) := by
    decide +kernel
  have howns₂ : AllMeet memStep WritesOwn (memInit 12 0) (stoppedThenBound 8) := by
    decide +kernel
  obtain ⟨s₁, hs₁, hhanded⟩ := Option.map_eq_some_iff.mp hrun₁
  obtain ⟨s₂, hs₂⟩ := Option.isSome_iff_exists.mp hrun₂
  refine ⟨s₁, s₂, hs₁, hs₂, hhanded, ?_⟩
  exact (no_flow_between_clients 12 0 0 (stoppedThenBound 7) (stoppedThenBound 8) s₁ s₂ rfl
    (howns₁.mono fun s a ha hown => ⟨hown, hmeet 7 a ha s⟩)
    (howns₂.mono fun s a ha hown => ⟨hown, hmeet 8 a ha s⟩) hs₁ hs₂).1

/-- The next client finds what the last one wrote. -/
theorem disconnect_leaves_data :
    ∃ s₁ s₂, runActions memStep (memInit 12 0) (leftThenBound 7) = some s₁ ∧
      runActions memStep (memInit 12 0) (leftThenBound 8) = some s₂ ∧
      AllMeet memStep WritesOwn (memInit 12 0) (leftThenBound 7) ∧
      AllMeet memStep WritesOwn (memInit 12 0) (leftThenBound 8) ∧
      (leftThenBound 7).filterMap MemAction.act? = (leftThenBound 8).filterMap MemAction.act? ∧
      s₁.handed.map (fun e => (e.1, e.2.1, e.2.2 5)) = [(0, 0, 0), (0, 0, 7)] ∧
      s₂.handed.map (fun e => (e.1, e.2.1, e.2.2 5)) = [(0, 0, 0), (0, 0, 8)] ∧
      s₁.handed ≠ s₂.handed := by
  have hrun₁ : ((runActions memStep (memInit 12 0) (leftThenBound 7)).map fun s =>
      s.handed.map fun e => (e.1, e.2.1, e.2.2 5)) = some [(0, 0, 0), (0, 0, 7)] := by
    decide +kernel
  have hrun₂ : ((runActions memStep (memInit 12 0) (leftThenBound 8)).map fun s =>
      s.handed.map fun e => (e.1, e.2.1, e.2.2 5)) = some [(0, 0, 0), (0, 0, 8)] := by
    decide +kernel
  obtain ⟨s₁, hs₁, hhanded₁⟩ := Option.map_eq_some_iff.mp hrun₁
  obtain ⟨s₂, hs₂, hhanded₂⟩ := Option.map_eq_some_iff.mp hrun₂
  refine ⟨s₁, s₂, hs₁, hs₂, by decide +kernel, by decide +kernel, rfl, hhanded₁, hhanded₂,
    fun heq => ?_⟩
  rw [heq, hhanded₂] at hhanded₁
  exact absurd hhanded₁ (by decide)

end Hydra.Monitor
