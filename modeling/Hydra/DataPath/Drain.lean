/-
  DataPath/Drain.lean --- an eviction round beside requests in flight.

  Source: of `is_main.c` the part of `evict_handler` from the `STOP` message to
  `IS_send_done`, with `IS_chunk_wait_in_flight_requests`; the lookup loop of
  `IS_request` in `is_mq.c`.

  The eviction thread of a server takes chunks out of the tables, waits and sends
  `DONE`.  The wait knows an outstanding operation by `in_flight` and `chunk_index` of
  its context; a read does not set `chunk_index` and a write does not set `in_flight`.
-/
import Hydra.DataPath.Completion

set_option autoImplicit false

namespace Hydra.DataPath

open Hydra.Foundation Hydra.Wire Hydra.Manager

variable {Data : Type} {B : Build Data}

/-! ## Steps -/

/-- What the eviction thread of a server is doing.  `todo` is what the wait has still to
look at before it is through. -/
inductive Round where
  | ready
  | wait (flags : ChunkIx → Bool) (todo : List CtxId)
  | done (flags : ChunkIx → Bool)

/-- The chunks of the round: those flagged in `STOP`, and in `DONE`. -/
def Round.flagged : Round → ChunkIx → Bool
  | .ready, _ => false
  | .wait flags _, i => flags i
  | .done flags, i => flags i

/-- A request `IS_request` is looking up, with what it has found so far. -/
structure Lookup (Data : Type) where
  req : Request Data
  found : List (Option (Nat × ChunkIx))

/-- Where the pieces were when they were looked up. -/
def Lookup.place (u : Lookup Data) : Nat → Option (Nat × ChunkIx) := fun i => u.found[i]?.join

/-- The data path with its lookups, and the `chunk_map` and eviction thread of each
server. -/
structure Drain (Data : Type) where
  path : Path Data
  looking : List (Lookup Data)
  chunkMap : Nat → ChunkIx → Option Nat
  round : Nat → Round

/-- The test of `IS_chunk_wait_in_flight_requests` on one context.  With no chunk index
the entry read is the word before the array: `word` says whether that is `-1`. -/
def waitsFor (chunkMap : ChunkIx → Option Nat) (word : Bool) (x : Ctx Data) : Bool :=
  decide (x.inFlight ≠ .idle) &&
    match x.chunkIndex with
    | none => word
    | some i => (chunkMap i).isNone

/-- The loop of `evict_handler` over the flagged chunks: their session chunks are
unmapped, and they leave `chunk_map`.  A flagged chunk that is not held sends the source
to session chunk `-1`. -/
def evictStop (B : Build Data) (s : Drain Data) (b : Nat) (flags : ChunkIx → Bool) :
    Option (Drain Data) :=
  if ∃ i, flags i = true ∧ s.chunkMap b i = none then none
  else
    some
      { s with
        path :=
          { s.path with
            map := clearPicked (fun i => if flags i then s.chunkMap b i else none) none
              (List.finRange maxMrSizeGb) s.path.map }
        chunkMap := Function.update s.chunkMap b fun i =>
          if flags i then none else s.chunkMap b i
        round := Function.update s.round b (.wait flags (poolCtxs B b)) }

/-- What can happen next. -/
inductive DrainAction (Data : Type) where
  | request (r : Request Data)
  | lookup (k : Nat)
  | transfer (k : Nat) (fault : Nat → Bool)
  | execute (b : Nat)
  | poll (b : Nat)
  | stop (b : Nat) (flags : ChunkIx → Bool)
  | look (b : Nat) (word : Bool)
  | sendDone (b : Nat)

/-- One step.  A request looks its pieces up one after another and is then posted; the
wait looks at one context after another and starts again when it has to wait. -/
def drainStep (B : Build Data) (s : Drain Data) : DrainAction Data → Option (Drain Data)
  | .request r =>
      let r := { r with id := s.path.nextReq }
      some
        { s with
          path :=
            { s.path with
              nextReq := s.path.nextReq + 1
              trace := .submit r :: s.path.trace }
          looking := s.looking ++ [⟨r, []⟩] }
  | .lookup k =>
      s.looking[k]?.map fun u =>
        let entry := s.path.map (u.req.slab * B.ndisks + u.found.length)
        { s with looking := s.looking.set k { u with found := u.found ++ [entry] } }
  | .transfer k fault =>
      s.looking[k]?.bind fun u =>
        if u.found.length = B.ndisks then
          (isTransferChunk B s.path u.req u.place fault).map fun path =>
            { s with path := path, looking := s.looking.eraseIdx k }
        else none
  | .execute b => (execute s.path b).map fun path => { s with path := path }
  | .poll b => (rdmaCqEventHandler B s.path b).map fun path => { s with path := path }
  | .stop b flags =>
      match s.round b with
      | .wait _ _ => none
      | _ => evictStop B s b flags
  | .look b word =>
      match s.round b with
      | .wait flags (c :: todo) =>
          let todo := if waitsFor (s.chunkMap b) word (s.path.ctx c) then poolCtxs B b else todo
          some { s with round := Function.update s.round b (.wait flags todo) }
      | _ => none
  | .sendDone b =>
      match s.round b with
      | .wait flags [] => some { s with round := Function.update s.round b (.done flags) }
      | _ => none

/-- Before the first request. -/
def drainInit [Zero Data] (B : Build Data) (map : Nat → Option (Nat × ChunkIx))
    (cbState : Nat → CbState) (ready : Nat → Bool) (mem : Nat × ChunkIx × Nat → Data)
    (chunkMap : Nat → ChunkIx → Option Nat) : Drain Data where
  path := pathInit B map cbState ready mem
  looking := []
  chunkMap := chunkMap
  round := fun _ => .ready

/-- Stopping chunks takes them out of both tables, and the wait begins. -/
theorem evictStop_cases {s s' : Drain Data} {b : Nat} {flags : ChunkIx → Bool}
    (hstop : evictStop B s b flags = some s') :
    (∃ map, s'.path = { s.path with map := map } ∧ ∀ c e, map c = some e →
        s.path.map c = some e ∧ ∀ i, flags i = true → s.chunkMap b i ≠ some c) ∧
      s'.looking = s.looking ∧
      (∀ b' i, s'.chunkMap b' i = if b' = b ∧ flags i = true then none else s.chunkMap b' i) ∧
      s'.round = Function.update s.round b (.wait flags (poolCtxs B b)) := by
  rw [evictStop] at hstop
  split at hstop
  · cases hstop
  · obtain rfl := Option.some.inj hstop
    refine ⟨⟨_, rfl, fun c e hc => ?_⟩, rfl, fun b' i => ?_, rfl⟩
    · rw [clearPicked_finRange] at hc
      split at hc
      · cases hc
      · rename_i hnot
        refine ⟨hc, fun i hflag heq => hnot ⟨i, ?_⟩⟩
        rw [if_pos hflag]
        exact heq
    · show Function.update s.chunkMap b _ b' i = _
      by_cases hb : b' = b
      · subst hb
        simp
      · simp [hb]

/-! ## The property -/

/-- When `DONE` has been sent, nothing is outstanding on the chunks it flags. -/
def Drained (s : Drain Data) : Prop :=
  ∀ b flags, s.round b = .done flags → ∀ o ∈ s.path.wire, o.server = b → flags o.chunk = false

/-- The wait will find the operation of this context: it is flagged in flight and names a
chunk that has left the table. -/
def Marked (chunkMap : ChunkIx → Option Nat) (x : Ctx Data) : Prop :=
  x.inFlight ≠ .idle ∧ ∃ i ∈ x.chunkIndex, chunkMap i = none

/-- When chunks are stopped, every operation outstanding on one of them is marked, and no
request has looked one of them up and not been posted. -/
def StopsMarked (s : Drain Data) : DrainAction Data → Prop
  | .stop b flags =>
      (∀ o ∈ s.path.wire, o.server = b → flags o.chunk = true →
        Marked (fun i => if flags i then none else s.chunkMap b i) (s.path.ctx o.ctx)) ∧
      ∀ u ∈ s.looking, ∀ p ∈ u.found, ∀ e ∈ p, e.1 = b → flags e.2 = false
  | _ => True

/-- An entry of the slab map has its chunk in the table of its server. -/
def TablesAgree (map : Nat → Option (Nat × ChunkIx)) (chunkMap : Nat → ChunkIx → Option Nat) :
    Prop :=
  ∀ c b i, map c = some (b, i) → chunkMap b i = some c

instance (chunkMap : ChunkIx → Option Nat) (x : Ctx Data) : Decidable (Marked chunkMap x) :=
  inferInstanceAs (Decidable (_ ∧ _))

instance (s : Drain Data) (a : DrainAction Data) : Decidable (StopsMarked s a) :=
  match a with
  | .stop b flags => inferInstanceAs (Decidable ((∀ o ∈ s.path.wire, _ → _ → Marked _ _) ∧
      ∀ u ∈ s.looking, ∀ p ∈ u.found, ∀ e ∈ p, e.1 = b → flags e.2 = false))
  | .request _ | .lookup _ | .transfer _ _ | .execute _ | .poll _ | .look _ _ | .sendDone _ =>
      isTrue trivial

/-! ## The invariant -/

/-- What holds in every state of a run whose rounds stop marked operations only. -/
structure DrainInv (B : Build Data) (s : Drain Data) : Prop where
  orderly : Orderly (fun _ => true) s.path
  ranged : Ranged B s.path
  agree : TablesAgree s.path.map s.chunkMap
  cleared : ∀ b i, (s.round b).flagged i = true → s.chunkMap b i = none
  found : ∀ u ∈ s.looking, ∀ p ∈ u.found, ∀ e ∈ p, (s.round e.1).flagged e.2 = false
  busy : ∀ o ∈ s.path.wire, (s.round o.server).flagged o.chunk = true →
    ∃ flags todo, s.round o.server = .wait flags todo ∧ o.ctx ∈ todo ∧
      Marked (s.chunkMap o.server) (s.path.ctx o.ctx)

theorem Marked.waitsFor {chunkMap : ChunkIx → Option Nat} {x : Ctx Data}
    (h : Marked chunkMap x) (word : Bool) : waitsFor chunkMap word x = true := by
  obtain ⟨hflag, i, hi, hnone⟩ := h
  rw [Option.mem_def] at hi
  simp [DataPath.waitsFor, hflag, hi, hnone]

theorem Marked.congr {chunkMap : ChunkIx → Option Nat} {x y : Ctx Data} (h : Marked chunkMap x)
    (hflag : y.inFlight = x.inFlight) (hchunk : y.chunkIndex = x.chunkIndex) :
    Marked chunkMap y := by
  rw [Marked, hflag, hchunk]
  exact h

namespace DrainInv

variable {s s' : Drain Data}

theorem drained (h : DrainInv B s) : Drained s := by
  intro b flags hdone o ho hserver
  by_contra hflag
  have hround : (s.round o.server).flagged o.chunk = true := by
    rw [hserver, hdone]
    exact Bool.eq_true_of_not_eq_false hflag
  obtain ⟨flags', todo, hwait, -⟩ := h.busy o ho hround
  rw [hserver, hdone] at hwait
  cases hwait

/-- A chunk that is being evicted is in no entry of the slab map. -/
theorem flagged_of_map (h : DrainInv B s) {c : Nat} {e : Nat × ChunkIx}
    (he : s.path.map c = some e) : (s.round e.1).flagged e.2 = false := by
  by_contra hflag
  have hnone := h.cleared e.1 e.2 (by simpa using hflag)
  rw [h.agree c e.1 e.2 he] at hnone
  cases hnone

theorem request (h : DrainInv B s) {r : Request Data}
    (hstep : drainStep B s (.request r) = some s') : DrainInv B s' := by
  obtain rfl := Option.some.inj hstep
  refine ⟨⟨h.orderly.sound, h.orderly.server⟩, ⟨h.ranged.posted, h.ranged.held, h.ranged.range⟩,
    h.agree, h.cleared, ?_, h.busy⟩
  intro u hu p hp
  rcases List.mem_append.mp hu with hu | hu
  · exact h.found u hu p hp
  · rw [List.mem_singleton.mp hu] at hp
    cases hp

theorem lookup (h : DrainInv B s) {k : Nat}
    (hstep : drainStep B s (.lookup k) = some s') : DrainInv B s' := by
  obtain ⟨u, hu, rfl⟩ := Option.map_eq_some_iff.mp hstep
  refine ⟨h.orderly, h.ranged, h.agree, h.cleared, ?_, h.busy⟩
  intro u' hu' p hp e he
  rcases List.mem_or_eq_of_mem_set hu' with hold | rfl
  · exact h.found u' hold p hp e he
  · rcases List.mem_append.mp hp with hp | hp
    · exact h.found u (List.mem_of_getElem? hu) p hp e he
    · rw [List.mem_singleton.mp hp] at he
      exact h.flagged_of_map he

theorem transfer (h : DrainInv B s) {k : Nat} {fault : Nat → Bool}
    (hstep : drainStep B s (.transfer k fault) = some s') : DrainInv B s' := by
  obtain ⟨u, hu, hrest⟩ := Option.bind_eq_some_iff.mp hstep
  split at hrest
  · obtain ⟨path, hpath, rfl⟩ := Option.map_eq_some_iff.mp hrest
    have hplace : ∀ i b c, u.place i = some (b, c) → (fun _ : Nat => true) b = true :=
      fun _ _ _ _ => rfl
    -- what is posted was looked up, so it is on no chunk that is being evicted
    have hpost : ∀ ids pieces, ∀ o ∈ posts u.place ids u.req pieces,
        (s.round o.server).flagged o.chunk = false := by
      intro ids pieces o ho
      obtain ⟨i, -, e, c, he, -, rfl⟩ := mem_posts.mp ho
      have hfound : u.found[i]? = some (some e) := Option.join_eq_some_iff.mp he
      exact h.found u (List.mem_of_getElem? hu) _ (List.mem_of_getElem? hfound) e rfl
    obtain ⟨hmap, ids, pieces, hwire⟩ := isTransferChunk_wire h.orderly.sound.free_own hpath
    refine ⟨h.orderly.isTransferChunk hplace hpath, h.ranged.isTransferChunk h.orderly hplace hpath,
      by rw [show path.map = s.path.map from hmap]; exact h.agree, h.cleared,
      fun u' hu' => h.found u' (List.mem_of_mem_eraseIdx hu'), ?_⟩
    intro o ho hflag
    rw [show path.wire = _ from hwire] at ho
    rcases List.mem_append.mp ho with ho | ho
    · rw [isTransferChunk_ctx h.orderly hpath ho]
      exact h.busy o ho hflag
    · rw [hpost ids pieces o ho] at hflag
      cases hflag
  · cases hrest

theorem execute (h : DrainInv B s) {b : Nat}
    (hstep : drainStep B s (.execute b) = some s') : DrainInv B s' := by
  obtain ⟨path, hexec, rfl⟩ := Option.map_eq_some_iff.mp hstep
  obtain ⟨hctx, hwire, -, -, -, hmap, -⟩ := execute_same hexec
  refine ⟨h.orderly.execute hexec, h.ranged.execute hexec, by rw [hmap]; exact h.agree, h.cleared,
    h.found, ?_⟩
  intro o ho hflag
  rw [hwire] at ho
  obtain ⟨flags, todo, hwait, htodo, hmarked⟩ := h.busy o ho hflag
  obtain ⟨buf, hbuf⟩ := hctx o.ctx
  exact ⟨flags, todo, hwait, htodo, hmarked.congr (by rw [hbuf]) (by rw [hbuf])⟩

theorem poll (h : DrainInv B s) {b : Nat}
    (hstep : drainStep B s (.poll b) = some s') : DrainInv B s' := by
  obtain ⟨path, hpoll, rfl⟩ := Option.map_eq_some_iff.mp hstep
  obtain ⟨o, pre, post, hp⟩ := rdmaCqEventHandler_cases hpoll
  refine ⟨hp.orderly h.orderly, h.ranged.polled h.orderly hp,
    by rw [hp.finished.same.1]; exact h.agree, h.cleared, h.found, ?_⟩
  intro o' ho' hflag
  rw [hp.ctx_eq (hp.ctx_ne h.orderly ho')]
  exact h.busy o' (hp.mem_of_mem ho') hflag

theorem stop (h : DrainInv B s) {b : Nat} {flags : ChunkIx → Bool}
    (hmarked : StopsMarked s (.stop b flags))
    (hstep : drainStep B s (.stop b flags) = some s') : DrainInv B s' := by
  have hstop : evictStop B s b flags = some s' := by
    simp only [drainStep] at hstep
    split at hstep
    · cases hstep
    · exact hstep
  obtain ⟨⟨map, hpath, hmap⟩, hlooking, hchunks, hround⟩ := evictStop_cases hstop
  refine ⟨?_, ?_, ?_, ?_, ?_, ?_⟩
  · rw [hpath]
    exact ⟨h.orderly.sound, h.orderly.server⟩
  · rw [hpath]
    exact ⟨h.ranged.posted, h.ranged.held, h.ranged.range⟩
  · intro c b' i hc
    rw [hpath] at hc
    obtain ⟨hold, hkept⟩ := hmap c _ hc
    have hentry := h.agree c b' i hold
    rw [hchunks, if_neg]
    · exact hentry
    · rintro ⟨rfl, hflag⟩
      exact hkept i hflag hentry
  · intro b' i hflag
    rw [hround] at hflag
    rw [hchunks]
    by_cases hb : b' = b
    · subst hb
      rw [Function.update_self] at hflag
      exact if_pos ⟨rfl, hflag⟩
    · rw [Function.update_of_ne hb] at hflag
      rw [h.cleared b' i hflag, ite_self]
  · intro u hu p hp e he
    rw [hlooking] at hu
    rw [hround]
    by_cases hb : e.1 = b
    · rw [hb, Function.update_self]
      exact hmarked.2 u hu p hp e he hb
    · rw [Function.update_of_ne hb]
      exact h.found u hu p hp e he
  · intro o ho hflag
    rw [hpath] at ho ⊢
    rw [hround] at hflag ⊢
    by_cases hb : o.server = b
    · have hnew : s'.chunkMap b = fun i => if flags i then none else s.chunkMap b i := by
        funext i
        rw [hchunks]
        simp
      rw [hb, Function.update_self] at hflag ⊢
      refine ⟨flags, _, rfl, ?_, ?_⟩
      · rw [← hb]
        exact h.ranged.posted o ho
      · rw [hnew]
        exact hmarked.1 o ho hb hflag
    · have hsame : s'.chunkMap o.server = s.chunkMap o.server := by
        funext i
        rw [hchunks, if_neg fun hand => hb hand.1]
      rw [Function.update_of_ne hb] at hflag ⊢
      rw [hsame]
      exact h.busy o ho hflag

/-- The round of a server goes on with the same chunks. -/
theorem advance (h : DrainInv B s) {b : Nat} {r : Round}
    (hflags : r.flagged = (s.round b).flagged)
    (hbusy : ∀ o ∈ s.path.wire, o.server = b → r.flagged o.chunk = true →
      ∃ flags todo, r = .wait flags todo ∧ o.ctx ∈ todo) :
    DrainInv B { s with round := Function.update s.round b r } := by
  have hsame : ∀ b', (Function.update s.round b r b').flagged = (s.round b').flagged := by
    intro b'
    by_cases hb : b' = b
    · rw [hb, Function.update_self, hflags]
    · rw [Function.update_of_ne hb]
  refine ⟨h.orderly, h.ranged, h.agree, fun b' i hflag => ?_, fun u hu p hp e he => ?_,
    fun o ho hflag => ?_⟩
  · exact h.cleared b' i ((congrFun (hsame b') i).symm.trans hflag)
  · exact (congrFun (hsame e.1) e.2).trans (h.found u hu p hp e he)
  · obtain ⟨flags, todo, hwait, htodo, hmarked⟩ :=
      h.busy o ho ((congrFun (hsame o.server) o.chunk).symm.trans hflag)
    by_cases hb : o.server = b
    · subst hb
      have hself : Function.update s.round o.server r o.server = r := Function.update_self ..
      obtain ⟨flags', todo', hr, htodo'⟩ := hbusy o ho rfl (hself ▸ hflag)
      exact ⟨flags', todo', hself.trans hr, htodo', hmarked⟩
    · exact ⟨flags, todo, (Function.update_of_ne hb ..).trans hwait, htodo, hmarked⟩

/-- The wait passes a context over only when nothing marked is outstanding on it. -/
theorem look (h : DrainInv B s) {b : Nat} {word : Bool}
    (hstep : drainStep B s (.look b word) = some s') : DrainInv B s' := by
  simp only [drainStep] at hstep
  split at hstep
  · rename_i flags c todo hround
    obtain rfl := Option.some.inj hstep
    refine h.advance (by rw [hround]; rfl) fun o ho hserver hflag => ⟨flags, _, rfl, ?_⟩
    have hold : (s.round o.server).flagged o.chunk = true := by
      rw [hserver, hround]
      exact hflag
    obtain ⟨flags', todo', hwait, htodo, hmarked⟩ := h.busy o ho hold
    rw [hserver, hround] at hwait
    obtain ⟨rfl, rfl⟩ := Round.wait.inj hwait
    split
    · rw [← hserver]
      exact h.ranged.posted o ho
    · rename_i hpass
      rcases List.mem_cons.mp htodo with rfl | htodo
      · rw [hserver] at hmarked
        exact absurd (hmarked.waitsFor word) hpass
      · exact htodo
  · cases hstep

theorem sendDone (h : DrainInv B s) {b : Nat}
    (hstep : drainStep B s (.sendDone b) = some s') : DrainInv B s' := by
  simp only [drainStep] at hstep
  split at hstep
  · rename_i flags hround
    obtain rfl := Option.some.inj hstep
    refine h.advance (by rw [hround]; rfl) fun o ho hserver hflag => ?_
    have hold : (s.round o.server).flagged o.chunk = true := by
      rw [hserver, hround]
      exact hflag
    obtain ⟨flags', todo', hwait, htodo, -⟩ := h.busy o ho hold
    rw [hserver, hround] at hwait
    obtain ⟨-, rfl⟩ := Round.wait.inj hwait
    cases htodo
  · cases hstep

theorem step {a : DrainAction Data} (h : DrainInv B s) (hmarked : StopsMarked s a)
    (hstep : drainStep B s a = some s') : DrainInv B s' := by
  cases a with
  | request r => exact h.request hstep
  | lookup k => exact h.lookup hstep
  | transfer k fault => exact h.transfer hstep
  | execute b => exact h.execute hstep
  | poll b => exact h.poll hstep
  | stop b flags => exact h.stop hmarked hstep
  | look b word => exact h.look hstep
  | sendDone b => exact h.sendDone hstep

end DrainInv

/-! ## Whole runs -/

theorem drainInit_inv [Zero Data] {map : Nat → Option (Nat × ChunkIx)} (cbState : Nat → CbState)
    (ready : Nat → Bool) (mem : Nat × ChunkIx × Nat → Data) {chunkMap : Nat → ChunkIx → Option Nat}
    (hagree : TablesAgree map chunkMap) :
    DrainInv B (drainInit B map cbState ready mem chunkMap) where
  orderly := pathInit_orderly B map cbState ready mem
  ranged :=
    { posted := fun o ho => by cases ho
      held := fun o ho => by cases ho
      range := by
        intro p c hc
        obtain ⟨-, ⟨hk, -, hj⟩, -⟩ := mem_pathInit_free.mp hc
        exact mem_poolCtxs.mpr ⟨hk, rfl, hj⟩ }
  agree := hagree
  cleared := fun b i hflag => by cases hflag
  found := fun u hu => by cases hu
  busy := fun o ho => by cases ho

/-- In every run in which chunks are stopped only when all that is outstanding on them is
marked, nothing is outstanding on the chunks of a round when `DONE` is sent. -/
theorem eviction_drains [Zero Data] {map : Nat → Option (Nat × ChunkIx)} {cbState : Nat → CbState}
    {ready : Nat → Bool} {mem : Nat × ChunkIx × Nat → Data} {chunkMap : Nat → ChunkIx → Option Nat}
    {s : Drain Data} (hagree : TablesAgree map chunkMap)
    (hrun : Reach (drainStep B) StopsMarked (drainInit B map cbState ready mem chunkMap) s) :
    Drained s :=
  (hrun.invariant (drainInit_inv cbState ready mem hagree) fun _ _ _ hinv hmarked hstep =>
    hinv.step hmarked hstep).drained

/-- Slab 0 with a replica on each of three servers, as the tables of the manager have it. -/
def drainReplicas : Drain Nat :=
  drainInit (Build.rep Nat 1 4) (fun i => if i < 3 then some (i, 0) else none) (fun _ => .mapped)
    (fun _ => true) (fun _ => 0) fun b i => if i = 0 ∧ b < 3 then some b else none

theorem drainReplicas_agree : TablesAgree drainReplicas.path.map drainReplicas.chunkMap := by
  intro c b i hc
  simp only [drainReplicas, drainInit, pathInit, Option.ite_none_right_eq_some,
    Option.some.injEq] at hc
  obtain ⟨hlt, heq⟩ := hc
  obtain ⟨rfl, rfl⟩ := Prod.mk.inj heq
  simp [drainReplicas, drainInit, hlt]

/-- One request from its submission to its posting. -/
def issue (r : Request Nat) : List (DrainAction Nat) :=
  [.request r, .lookup 0, .lookup 0, .lookup 0, .transfer 0 noFault]

/-- A whole round for chunk 0 of a server. -/
def evictChunk (b : Nat) : List (DrainAction Nat) :=
  .stop b (fun i => decide (i = 0)) :: (List.replicate 256 (.look b false) ++ [.sendDone b])

/-- A read leaves the context it took from server 1 flagged; the write after it gets that
context and completes before the round of server 1 has looked at it. -/
def readWriteEvict : List (DrainAction Nat) :=
  issue (pageRequest false 0) ++ [.execute 0, .poll 0] ++ issue (pageRequest true 7) ++
    [.stop 1 fun i => decide (i = 0), .execute 1, .poll 1] ++
    List.replicate 256 (.look 1 false) ++ [.sendDone 1]

theorem eviction_drains_readWriteEvict :
    ∃ s, runActions (drainStep (Build.rep Nat 1 4)) drainReplicas readWriteEvict = some s ∧
      Drained s := by
  have hsome : (runActions (drainStep (Build.rep Nat 1 4)) drainReplicas
      readWriteEvict).isSome := by
    decide +kernel
  obtain ⟨s, hs⟩ := Option.isSome_iff_exists.mp hsome
  exact ⟨s, hs, eviction_drains drainReplicas_agree (reach_of_runActions hs (by decide +kernel))⟩

/-- A write is not flagged in flight, so the wait passes it over: `DONE` is sent for a chunk
with the write still outstanding on it. -/
theorem done_sent_under_write :
    ∃ s flags o, runActions (drainStep (Build.rep Nat 1 4)) drainReplicas
        (issue (pageRequest true 7) ++ evictChunk 0) = some s ∧
      s.round 0 = .done flags ∧ o ∈ s.path.wire ∧ o.server = 0 ∧ flags o.chunk = true ∧
      ¬ Drained s := by
  have hrun : ((runActions (drainStep (Build.rep Nat 1 4)) drainReplicas
      (issue (pageRequest true 7) ++ evictChunk 0)).map fun s =>
        match s.round 0 with
        | .done flags => s.path.wire.any fun o => decide (o.server = 0) && flags o.chunk
        | _ => false) = some true := by
    decide +kernel
  obtain ⟨s, hs, hdone⟩ := Option.map_eq_some_iff.mp hrun
  split at hdone
  · rename_i flags hflags
    obtain ⟨o, ho, hop⟩ := List.any_eq_true.mp hdone
    obtain ⟨hserver, hflag⟩ : o.server = 0 ∧ flags o.chunk = true := by simpa using hop
    refine ⟨s, flags, o, hs, hflags, ho, hserver, hflag, fun hdrained => ?_⟩
    rw [hdrained 0 flags hflags o ho hserver] at hflag
    cases hflag
  · cases hdone

end Hydra.DataPath
