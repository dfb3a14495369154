/-
  Manager/FreeStack.lean --- the list of unmapped chunks of a session.

  Source: `unmapped_chunk_list` and `free_chunk_index` in `IS_session_create`,
  `IS_disconnect_handler` and `evict_handler` of `resilience_manager/is_main.c`, and in
  `IS_chunk_list_init` and `IS_single_chunk_init` of `is_mq.c`.

  The list is a stack.  `IS_chunk_list_init` maps the chunk it pops; a reply to
  `BIND_SINGLE` is for a chunk of the caller's choice, and `IS_single_chunk_init` pops
  without looking.
-/
import Hydra.Foundation.Stack
import Hydra.Manager.SlabMap

set_option autoImplicit false

namespace Hydra.Manager

open Hydra.Foundation Hydra.Wire

/-! ## An `INFO` message -/

/-- One turn of `IS_chunk_list_init`: chunk `i` of the server backs the session chunk on
top of the list. -/
def chunkListTurn (cfg : Config) (b : Nat) (msg : Message) (s : Session) (i : ChunkIx) :
    Option Session :=
  if msg.flagged i then
    (cfg.chunkIndex? s.freeChunkIndex).bind fun k =>
      (cfg.chunkIndex? (s.unmappedChunkList k)).map fun c =>
        { s with
          freeChunkIndex := s.freeChunkIndex - 1
          cbIndexMap := Function.update s.cbIndexMap c (some b)
          chunkMapCbChunk := Function.update s.chunkMapCbChunk c (some i) }.putCb b
          { s.cb b with
            remoteChunk :=
              { (s.cb b).remoteChunk with
                chunkList := Function.update (s.cb b).remoteChunk.chunkList i
                  { remoteRkey := htonl (msg.rkey i), remoteAddr := ntohll (msg.buf i) }
                remoteMapped := Function.update (s.cb b).remoteChunk.remoteMapped i true
                chunkMap := Function.update (s.cb b).remoteChunk.chunkMap i (some c) } }
  else some s

/-- `IS_chunk_list_init`. -/
def isChunkListInit (cfg : Config) (b : Nat) (msg : Message) (s : Session) : Option Session :=
  ((List.finRange maxMrSizeGb).foldlM (chunkListTurn cfg b msg) s).map fun s =>
    s.putCb b
      { s.cb b with
        remoteChunk :=
          { (s.cb b).remoteChunk with
            chunkSizeG := (s.cb b).remoteChunk.chunkSizeG + msg.sizeGb
            cState := .ready } }

/-! ## Steps -/

/-- A session, and the chunks that an `evict_handler` has unmapped and not yet pushed. -/
structure FreeState where
  sess : Session
  waiting : List Nat

/-- What changes the list: the two replies that assign chunks, a lost server, and an
eviction, which first unmaps its chunks and then pushes one after the other. -/
inductive FreeAction where
  | info (b : Nat) (msg : Message)
  | infoSingle (b : Nat) (msg : Message)
  | disconnect (b : Nat)
  | evict (b : Nat) (msg : Message)
  | release (c : Nat)

/-- One step; `none` where an array is indexed out of range. -/
def freeStep (cfg : Config) (s : FreeState) : FreeAction → Option FreeState
  | .info b msg => (isChunkListInit cfg b msg s.sess).map fun sess => { s with sess := sess }
  | .infoSingle b msg =>
      (isSingleChunkInit cfg b msg s.sess).map fun sess => { s with sess := sess }
  | .disconnect b => (isDisconnectHandler cfg b s.sess).map fun sess => { s with sess := sess }
  | .evict b msg =>
      (evictBegin cfg b msg s.sess).map fun r =>
        { sess := r.1, waiting := r.2.getD [] ++ s.waiting }
  | .release c =>
      if c ∈ s.waiting then
        (releaseChunk cfg c s.sess).map fun sess =>
          { sess := sess, waiting := s.waiting.erase c }
      else none

/-- The session just created. -/
def freeInit (cfg : Config) (cbNum : Nat) : FreeState where
  sess := isSessionCreate cfg cbNum
  waiting := []

/-! ## The property -/

/-- The number of session chunks without a server. -/
def unmappedCount (cfg : Config) (s : Session) : Nat :=
  countWhere fun c : Fin cfg.disksizeG => (s.cbIndexMap c).isNone

/-- The session chunks without a server, those in `waiting` left out. -/
def freeSet (cfg : Config) (waiting : List Nat) (s : Session) : Set Int :=
  { x | ∃ c : Nat, (c : Int) = x ∧ c < cfg.disksizeG ∧ s.cbIndexMap c = none ∧ c ∉ waiting }

/-- The unmapped list from the bottom up. -/
def Session.freeChunks (s : Session) : List Int := stackOf s.unmappedChunkList s.freeChunkIndex

/-- The chunk on top. -/
def Session.topChunk (s : Session) : Option Int :=
  if 0 ≤ s.freeChunkIndex then some (s.unmappedChunkList s.freeChunkIndex.toNat) else none

/-- The list has the chunks without a server, each once. -/
structure FreeStack (cfg : Config) (s : Session) : Prop where
  low : -1 ≤ s.freeChunkIndex
  high : s.freeChunkIndex ≤ (cfg.disksizeG : Int) - 1
  lists : Lists s.freeChunks (freeSet cfg [] s)

/-- An `INFO` has no more keys than there are chunks without a server, and an
`INFO_SINGLE` is for one of these. -/
def RepliesUnmapped (cfg : Config) (s : FreeState) : FreeAction → Prop
  | .info _ msg => countWhere msg.flagged ≤ unmappedCount cfg s.sess
  | .infoSingle _ msg => ∃ c : Nat, msg.sizeGb = c ∧ c < cfg.disksizeG ∧ s.sess.cbIndexMap c = none
  | .disconnect _ | .evict _ _ | .release _ => True

/-- An `INFO_SINGLE` that assigns something is for the chunk on top of the list. -/
def TakesTop (s : FreeState) : FreeAction → Prop
  | .infoSingle _ msg => assignedChunk msg ≠ none → s.sess.topChunk = some msg.sizeGb
  | .info _ _ | .disconnect _ | .evict _ _ | .release _ => True

/-- The list while chunks wait, and the servers' tables as far as it depends on them. -/
structure StackOk (cfg : Config) (waiting : List Nat) (s : Session) : Prop where
  entry : ∀ b i c, (s.cb b).remoteChunk.chunkMap i = some c →
    c < cfg.disksizeG ∧ s.cbIndexMap c = some b
  unique : ∀ b i k c, (s.cb b).remoteChunk.chunkMap i = some c →
    (s.cb b).remoteChunk.chunkMap k = some c → i = k
  low : -1 ≤ s.freeChunkIndex
  lists : Lists s.freeChunks (freeSet cfg waiting s)
  pending : ∀ c ∈ waiting, c < cfg.disksizeG ∧ s.cbIndexMap c = none
  nodup : waiting.Nodup

namespace StackOk

variable {cfg : Config} {waiting : List Nat} {s t : Session} {b c : Nat} {i : ChunkIx}

theorem freeSet_lt {x : Int} (hx : x ∈ freeSet cfg waiting s) :
    ∃ c < cfg.disksizeG, (c : Int) = x := by
  obtain ⟨c, rfl, hc, -⟩ := hx
  exact ⟨c, hc, rfl⟩

theorem high (h : StackOk cfg waiting s) : s.freeChunkIndex ≤ (cfg.disksizeG : Int) - 1 := by
  have hlen := h.lists.length_le fun _ => freeSet_lt
  rw [Session.freeChunks, length_stackOf] at hlen
  omega

theorem freeStack (h : StackOk cfg [] s) : FreeStack cfg s := ⟨h.low, h.high, h.lists⟩

/-! ## Assigning the chunk on top -/

theorem freeSet_assign (hindex : t.cbIndexMap = Function.update s.cbIndexMap c (some b)) :
    freeSet cfg waiting t = freeSet cfg waiting s \ {(c : Int)} := by
  ext x
  constructor
  · rintro ⟨a, rfl, ha, hnone, hwait⟩
    rw [hindex] at hnone
    have hac : a ≠ c := by
      rintro rfl
      rw [Function.update_self] at hnone
      cases hnone
    rw [Function.update_of_ne hac] at hnone
    exact ⟨⟨a, rfl, ha, hnone, hwait⟩, fun heq => hac (Int.ofNat_inj.mp heq)⟩
  · rintro ⟨⟨a, rfl, ha, hnone, hwait⟩, hne⟩
    have hac : a ≠ c := fun heq => hne (by rw [heq]; rfl)
    exact ⟨a, rfl, ha, by rw [hindex, Function.update_of_ne hac]; exact hnone, hwait⟩

theorem topChunk_mem (h : StackOk cfg waiting s) {x : Int} (hx : s.topChunk = some x) :
    x ∈ freeSet cfg waiting s := by
  rw [Session.topChunk] at hx
  split at hx
  · rename_i hpos
    have hlists := h.lists
    rw [Session.freeChunks, stackOf_eq_concat _ hpos, Option.some.inj hx] at hlists
    exact hlists.top_mem
  · cases hx

/-- An entry of the tables after a chunk was assigned is the new one or an old one, which is
for another session chunk. -/
theorem entry_of_assign (h : StackOk cfg waiting s) (hunmapped : s.cbIndexMap c = none)
    (hcb : ∀ d, d ≠ b → t.cb d = s.cb d)
    (hmap : (t.cb b).remoteChunk.chunkMap =
      Function.update (s.cb b).remoteChunk.chunkMap i (some c))
    {d a : Nat} {k : ChunkIx} (ha : (t.cb d).remoteChunk.chunkMap k = some a) :
    (d = b ∧ k = i ∧ a = c) ∨ ((s.cb d).remoteChunk.chunkMap k = some a ∧ a ≠ c) := by
  have hold : (s.cb d).remoteChunk.chunkMap k = some a → a ≠ c := by
    rintro hk rfl
    rw [(h.entry d k a hk).2] at hunmapped
    cases hunmapped
  by_cases hd : d = b
  · subst hd
    rw [hmap] at ha
    by_cases hk : k = i
    · rw [hk, Function.update_self] at ha
      exact .inl ⟨rfl, hk, (Option.some.inj ha).symm⟩
    · rw [Function.update_of_ne hk] at ha
      exact .inr ⟨ha, hold ha⟩
  · rw [hcb d hd] at ha
    exact .inr ⟨ha, hold ha⟩

theorem assign (h : StackOk cfg waiting s) (htop : s.topChunk = some (c : Int))
    (hcb : ∀ d, d ≠ b → t.cb d = s.cb d)
    (hmap : (t.cb b).remoteChunk.chunkMap =
      Function.update (s.cb b).remoteChunk.chunkMap i (some c))
    (hindex : t.cbIndexMap = Function.update s.cbIndexMap c (some b))
    (hfree : t.freeChunkIndex = s.freeChunkIndex - 1)
    (hlist : t.unmappedChunkList = s.unmappedChunkList) : StackOk cfg waiting t := by
  obtain ⟨e, he, hlt, hunmapped, hnew⟩ := h.topChunk_mem htop
  obtain rfl : e = c := by exact_mod_cast he
  have hpos : 0 ≤ s.freeChunkIndex := by
    by_contra hneg
    rw [Session.topChunk, if_neg hneg] at htop
    cases htop
  refine ⟨?_, ?_, by omega, ?_, ?_, h.nodup⟩
  · intro d k a ha
    rw [hindex]
    rcases h.entry_of_assign hunmapped hcb hmap ha with ⟨rfl, -, rfl⟩ | ⟨hk, hne⟩
    · exact ⟨hlt, Function.update_self ..⟩
    · rw [Function.update_of_ne hne]
      exact h.entry d k a hk
  · intro d k k' a ha ha'
    rcases h.entry_of_assign hunmapped hcb hmap ha with ⟨rfl, rfl, rfl⟩ | ⟨hk, hne⟩
    · rcases h.entry_of_assign hunmapped hcb hmap ha' with ⟨-, rfl, -⟩ | ⟨-, hne⟩
      · rfl
      · exact absurd rfl hne
    · rcases h.entry_of_assign hunmapped hcb hmap ha' with ⟨-, -, heq⟩ | ⟨hk', -⟩
      · exact absurd heq hne
      · exact h.unique d k k' a hk hk'
  · have hlists := h.lists
    rw [Session.topChunk, if_pos hpos, Option.some.injEq] at htop
    rw [Session.freeChunks, stackOf_eq_concat _ hpos, htop] at hlists
    rw [Session.freeChunks, hfree, hlist, freeSet_assign hindex]
    exact hlists.pop
  · intro a ha
    have hae : a ≠ e := fun heq => hnew (heq ▸ ha)
    rw [hindex, Function.update_of_ne hae]
    exact h.pending a ha

/-! ## Pushing chunks -/

/-- A waiting chunk is pushed, and there is room for it. -/
theorem releaseChunk (h : StackOk cfg waiting s) (hc : c ∈ waiting) :
    ∃ t, Manager.releaseChunk cfg c s = some t ∧ StackOk cfg (waiting.erase c) t := by
  obtain ⟨hlt, hunmapped⟩ := h.pending c hc
  have hlow := h.low
  have hset : freeSet cfg (waiting.erase c) s = insert (c : Int) (freeSet cfg waiting s) := by
    ext x
    rw [Set.mem_insert_iff]
    constructor
    · rintro ⟨a, rfl, ha, hnone, hwait⟩
      by_cases hac : a = c
      · exact .inl (by rw [hac])
      · refine .inr ⟨a, rfl, ha, hnone, fun hmem => hwait ?_⟩
        exact (List.mem_erase_of_ne hac).mpr hmem
    · rintro (rfl | ⟨a, rfl, ha, hnone, hwait⟩)
      · exact ⟨c, rfl, hlt, hunmapped, h.nodup.not_mem_erase⟩
      · exact ⟨a, rfl, ha, hnone, fun hmem => hwait (List.mem_of_mem_erase hmem)⟩
  have hnew : (c : Int) ∉ freeSet cfg waiting s := by
    rintro ⟨a, ha, -, -, hwait⟩
    exact hwait (by rwa [Int.ofNat_inj.mp ha])
  have hlists := h.lists.push hnew
  -- the list with the chunk on it is still one of chunks
  rw [← hset] at hlists
  have hroom : s.freeChunkIndex + 1 < cfg.disksizeG := by
    have hlen := hlists.length_le fun _ => freeSet_lt
    rw [List.length_append, Session.freeChunks, length_stackOf, List.length_singleton] at hlen
    omega
  have hindex : cfg.chunkIndex? (s.freeChunkIndex + 1) = some (s.freeChunkIndex + 1).toNat :=
    if_pos ⟨by omega, hroom⟩
  refine ⟨_, by rw [Manager.releaseChunk, chunkIndex?_of_lt hlt, Option.bind_some, hindex]; rfl, ?_⟩
  refine ⟨h.entry, h.unique, ?_, ?_, ?_, h.nodup.erase c⟩
  · change -1 ≤ s.freeChunkIndex + 1
    omega
  · change Lists (stackOf (Function.update s.unmappedChunkList _ _) (s.freeChunkIndex + 1))
      (freeSet cfg (waiting.erase c) s)
    rw [stackOf_push _ _ hlow]
    exact hlists
  · exact fun a ha => h.pending a (List.mem_of_mem_erase ha)

/-! ## Unmapping chunks -/

/-- Chunks of a server are unmapped and wait. -/
theorem unmap (h : StackOk cfg waiting s) (pick : ChunkIx → Bool) {l : List Nat}
    (hcb : ∀ d, d ≠ b → (t.cb d).remoteChunk.chunkMap = (s.cb d).remoteChunk.chunkMap)
    (hmap : ∀ i, (t.cb b).remoteChunk.chunkMap i =
      if pick i then none else (s.cb b).remoteChunk.chunkMap i)
    (hindex : t.cbIndexMap = clearPicked (pickedChunk (s.cb b).remoteChunk pick) none
      (List.finRange maxMrSizeGb) s.cbIndexMap)
    (hfree : t.freeChunkIndex = s.freeChunkIndex)
    (hlist : t.unmappedChunkList = s.unmappedChunkList) (hnodup : l.Nodup)
    (hmem : ∀ c, c ∈ l ↔ ∃ i, pickedChunk (s.cb b).remoteChunk pick i = some c) :
    StackOk cfg (l ++ waiting) t := by
  have hclear : ∀ c, t.cbIndexMap c = if c ∈ l then none else s.cbIndexMap c := by
    intro c
    rw [hindex, clearPicked_finRange, if_congr (hmem c).symm rfl rfl]
  have hown : ∀ c ∈ l, c < cfg.disksizeG ∧ s.cbIndexMap c = some b := by
    intro c hc
    obtain ⟨i, hi⟩ := (hmem c).mp hc
    exact h.entry b i c (pickedChunk_eq_some.mp hi).2
  have hentry : ∀ d i c, (t.cb d).remoteChunk.chunkMap i = some c →
      (s.cb d).remoteChunk.chunkMap i = some c ∧ c ∉ l := by
    intro d i c hi
    by_cases hd : d = b
    · subst hd
      rw [hmap] at hi
      split at hi
      · cases hi
      · rename_i hpick
        refine ⟨hi, fun hc => hpick ?_⟩
        obtain ⟨k, hk⟩ := (hmem c).mp hc
        obtain ⟨hpicked, hentry⟩ := pickedChunk_eq_some.mp hk
        rwa [h.unique d k i c hentry hi] at hpicked
    · rw [hcb d hd] at hi
      refine ⟨hi, fun hc => hd ?_⟩
      exact Option.some.inj ((h.entry d i c hi).2.symm.trans (hown c hc).2)
  have hset : freeSet cfg (l ++ waiting) t = freeSet cfg waiting s := by
    ext x
    constructor
    · rintro ⟨a, rfl, ha, hnone, hwait⟩
      rw [List.mem_append, not_or] at hwait
      rw [hclear, if_neg hwait.1] at hnone
      exact ⟨a, rfl, ha, hnone, hwait.2⟩
    · rintro ⟨a, rfl, ha, hnone, hwait⟩
      have hal : a ∉ l := fun hal => by
        rw [(hown a hal).2] at hnone
        cases hnone
      exact ⟨a, rfl, ha, by rw [hclear, if_neg hal]; exact hnone, by simp [hal, hwait]⟩
  refine ⟨?_, ?_, by rw [hfree]; exact h.low, ?_, ?_, ?_⟩
  · intro d i c hi
    obtain ⟨hold, hc⟩ := hentry d i c hi
    rw [hclear, if_neg hc]
    exact h.entry d i c hold
  · intro d i k c hi hk
    exact h.unique d i k c (hentry d i c hi).1 (hentry d k c hk).1
  · rw [Session.freeChunks, hfree, hlist, hset]
    exact h.lists
  · intro c hc
    rw [hclear]
    rcases List.mem_append.mp hc with hc | hc
    · rw [if_pos hc]
      exact ⟨(hown c hc).1, rfl⟩
    · refine ⟨(h.pending c hc).1, ?_⟩
      split
      · rfl
      · exact (h.pending c hc).2
  · rw [List.nodup_append]
    refine ⟨hnodup, h.nodup, ?_⟩
    rintro c hc a ha rfl
    have hnone := (h.pending c ha).2
    rw [(hown c hc).2] at hnone
    cases hnone

/-! ## The operations -/

/-- Only the chunk tables of the servers, `cb_index_map` and the list matter. -/
theorem retouch (h : StackOk cfg waiting s)
    (hmap : ∀ d, (t.cb d).remoteChunk.chunkMap = (s.cb d).remoteChunk.chunkMap)
    (hindex : t.cbIndexMap = s.cbIndexMap) (hfree : t.freeChunkIndex = s.freeChunkIndex)
    (hlist : t.unmappedChunkList = s.unmappedChunkList) : StackOk cfg waiting t := by
  refine ⟨?_, ?_, by rw [hfree]; exact h.low, ?_, ?_, h.nodup⟩
  · intro d i c hi
    rw [hmap] at hi
    rw [hindex]
    exact h.entry d i c hi
  · intro d i k c hi hk
    rw [hmap] at hi hk
    exact h.unique d i k c hi hk
  · rw [Session.freeChunks, hfree, hlist, freeSet, hindex]
    exact h.lists
  · rw [hindex]
    exact h.pending

/-- Replacing a server by one with the same chunk table. -/
theorem putCb (h : StackOk cfg waiting s) {cb : KernelCb}
    (hmap : cb.remoteChunk.chunkMap = (s.cb b).remoteChunk.chunkMap) :
    StackOk cfg waiting (s.putCb b cb) := by
  refine h.retouch (fun d => ?_) rfl rfl rfl
  by_cases hd : d = b
  · subst hd
    rw [Session.putCb_cb_self, hmap]
  · rw [Session.putCb_cb_of_ne _ hd]

theorem isSingleChunkInit (h : StackOk cfg waiting s) {msg : Message}
    (htop : assignedChunk msg ≠ none → s.topChunk = some msg.sizeGb)
    (hinit : isSingleChunkInit cfg b msg s = some t) : StackOk cfg waiting t := by
  rw [Manager.isSingleChunkInit] at hinit
  cases hassigned : assignedChunk msg with
  | none =>
      rw [hassigned] at hinit
      rwa [← Option.some.inj hinit]
  | some i =>
      rw [hassigned] at hinit htop
      obtain ⟨c, hc, rfl⟩ := Option.map_eq_some_iff.mp hinit
      rw [← (chunkIndex?_lt hc).2] at htop
      exact h.assign (i := i) (htop (by simp)) (fun d hd => Session.putCb_cb_of_ne _ hd _)
        (by rw [Session.putCb_cb_self]; rfl) rfl rfl rfl

theorem chunkListTurn (h : StackOk cfg waiting s) {msg : Message}
    (hturn : chunkListTurn cfg b msg s i = some t) : StackOk cfg waiting t := by
  rw [Manager.chunkListTurn] at hturn
  split at hturn
  · obtain ⟨k, hk, hrest⟩ := Option.bind_eq_some_iff.mp hturn
    obtain ⟨c, hc, rfl⟩ := Option.map_eq_some_iff.mp hrest
    have hk := (chunkIndex?_lt hk).2
    have htop : s.topChunk = some (c : Int) := by
      rw [Session.topChunk, if_pos (by omega), (chunkIndex?_lt hc).2, ← hk, Int.toNat_natCast]
    exact h.assign (i := i) htop (fun d hd => Session.putCb_cb_of_ne _ hd _)
      (by rw [Session.putCb_cb_self]) rfl rfl rfl
  · rwa [← Option.some.inj hturn]

theorem chunkListLoop (h : StackOk cfg waiting s) {msg : Message} {l : List ChunkIx}
    (hrun : l.foldlM (Manager.chunkListTurn cfg b msg) s = some t) : StackOk cfg waiting t := by
  induction l generalizing s with
  | nil => rwa [← Option.some.inj hrun]
  | cons i rest ih =>
      obtain ⟨u, hu, hrest⟩ := Option.bind_eq_some_iff.mp hrun
      exact ih (h.chunkListTurn hu) hrest

theorem isChunkListInit (h : StackOk cfg waiting s) {msg : Message}
    (hinit : isChunkListInit cfg b msg s = some t) : StackOk cfg waiting t := by
  obtain ⟨u, hu, rfl⟩ := Option.map_eq_some_iff.mp hinit
  exact (h.chunkListLoop hu).putCb rfl

/-- The check of `unmapPicked` passes: what a server backs is in range. -/
theorem unmapPicked (h : StackOk cfg waiting s) (pick : ChunkIx → Bool) (hcb : t.cb = s.cb) :
    Manager.unmapPicked cfg b pick t = some
      { t with
        cbIndexMap := clearPicked (pickedChunk (s.cb b).remoteChunk pick) none
          (List.finRange maxMrSizeGb) t.cbIndexMap } := by
  unfold Manager.unmapPicked
  rw [if_neg, hcb]
  rintro ⟨i, c, hi, hc⟩
  rw [hcb] at hi
  have hlt := (h.entry b i c (pickedChunk_eq_some.mp hi).2).1
  omega

theorem isDisconnectHandler (h : StackOk cfg waiting s) (b : Nat) :
    ∃ t, isDisconnectHandler cfg b s = some t ∧ StackOk cfg waiting t := by
  unfold Manager.isDisconnectHandler
  split
  · exact ⟨_, rfl, h.retouch (fun _ => rfl) rfl rfl rfl⟩
  rw [h.unmapPicked (t := s.setState b .fail) _ rfl, Option.bind_some]
  obtain ⟨t, ht, hok, -⟩ := releaseServer_total (P := fun l u => StackOk cfg (l ++ waiting) u)
    (b := b) (l := List.finRange maxMrSizeGb)
    (fun c rest u hu => by
      obtain ⟨v, hv, hok⟩ := hu.releaseChunk (c := c) (by simp)
      exact ⟨v, hv, by simpa using hok⟩)
    (({ s.setState b .fail with
        cbIndexMap := clearPicked (pickedChunk (s.cb b).remoteChunk fun _ => true) none
          (List.finRange maxMrSizeGb) s.cbIndexMap } : Session).putCb b
      { s.cb b with remoteChunk := (s.cb b).remoteChunk.disallow })
    (List.nodup_finRange _)
    (by
      rw [Session.forgetServer_of_putCb]
      refine h.unmap (b := b) (fun _ => true) (fun d hd => ?_) (fun i => ?_) rfl rfl rfl
        ?_ (fun c => ?_)
      · rw [Session.putCb_cb_of_ne _ hd]
        rfl
      · rw [Session.putCb_cb_self]
        rfl
      · refine (List.nodup_finRange _).filterMap ?_
        intro i k c hi hk
        rw [Session.putCb_cb_self] at hi hk
        exact h.unique b i k c hi hk
      · simp [pickedChunk, Session.putCb, RemoteChunkList.disallow])
    (fun i hi => absurd (List.mem_finRange i) hi)
  exact ⟨t, ht, hok⟩

theorem evictBegin (h : StackOk cfg waiting s) {msg : Message} {r : Session × Option (List Nat)}
    (hbegin : evictBegin cfg b msg s = some r) : StackOk cfg (r.2.getD [] ++ waiting) r.1 := by
  obtain ⟨hmap, -⟩ := clientRecvStop_frame (s.cb b).remoteChunk msg
  have hrecv : StackOk cfg waiting
      (s.putCb b { s.cb b with remoteChunk := (s.cb b).remoteChunk.clientRecvStop msg }) :=
    h.putCb hmap
  unfold Manager.evictBegin at hbegin
  simp only at hbegin
  split at hbegin
  · obtain rfl := Option.some.inj hbegin
    exact hrecv.putCb (by rw [Session.putCb_cb_self])
  split at hbegin
  · cases hbegin
  rw [hrecv.unmapPicked _ rfl, Session.putCb_cb_self, Option.map_some] at hbegin
  obtain rfl := Option.some.inj hbegin
  have hbound : ∀ i c, ((s.cb b).remoteChunk.clientRecvStop msg).chunkMap i = some c →
      c < cfg.disksizeG := by
    intro i c hi
    rw [hmap] at hi
    exact (h.entry b i c hi).1
  refine hrecv.unmap (b := b) (stopMarked ((s.cb b).remoteChunk.clientRecvStop msg))
    (fun d hd => ?_) (fun i => ?_) ?_ rfl rfl (List.nodup_range.filter _) (fun c => ?_)
  · exact congrArg (·.remoteChunk.chunkMap) (Session.putCb_cb_of_ne _ hd _)
  · rw [Session.putCb_cb_self]
    simp [Session.setState, Session.putCb, finishEvict, isSendDone, markEvicted, stopMarked]
  · rw [Session.putCb_cb_self]
    rfl
  · rw [Session.putCb_cb_self]
    exact mem_evictList hbound

end StackOk

/-! ## Runs -/

section Runs

variable {cfg : Config} {cbNum : Nat} {s t : FreeState} {a : FreeAction}

theorem stackOk_init (hsize : cfg.disksizeG = cfg.datasizeG ∨ cfg.disksizeG = 0) :
    StackOk cfg [] (isSessionCreate cfg cbNum) := by
  refine ⟨fun b i c hi => (by cases hi), fun b i k c hi => (by cases hi), ?_,
    ⟨?_, fun x => ?_⟩, by simp, List.nodup_nil⟩
  · change (-1 : Int) ≤ (cfg.disksizeG : Int) - 1
    omega
  · rw [Session.freeChunks, stackOf]
    refine List.nodup_range.map fun i k hik => ?_
    change (cfg.datasizeG : Int) - 1 - i = (cfg.datasizeG : Int) - 1 - k at hik
    omega
  · have hlen : ((isSessionCreate cfg cbNum).freeChunkIndex + 1).toNat = cfg.disksizeG := by
      change ((cfg.disksizeG : Int) - 1 + 1).toNat = cfg.disksizeG
      omega
    rw [Session.freeChunks, stackOf, hlen, List.mem_map]
    constructor
    · rintro ⟨i, hi, rfl⟩
      rw [List.mem_range] at hi
      refine ⟨cfg.datasizeG - 1 - i, ?_, by omega, rfl, by simp⟩
      change ((cfg.datasizeG - 1 - i : Nat) : Int) = (cfg.datasizeG : Int) - 1 - i
      omega
    · rintro ⟨c, rfl, hc, -⟩
      refine ⟨cfg.datasizeG - 1 - c, List.mem_range.mpr (by omega), ?_⟩
      change (cfg.datasizeG : Int) - 1 - (cfg.datasizeG - 1 - c : Nat) = c
      omega

/-- What one step preserves. -/
theorem stackOk_step (h : StackOk cfg s.waiting s.sess) (htop : TakesTop s a)
    (hstep : freeStep cfg s a = some t) : StackOk cfg t.waiting t.sess := by
  cases a with
  | info b msg =>
      obtain ⟨u, hu, rfl⟩ := Option.map_eq_some_iff.mp hstep
      exact h.isChunkListInit hu
  | infoSingle b msg =>
      obtain ⟨u, hu, rfl⟩ := Option.map_eq_some_iff.mp hstep
      exact h.isSingleChunkInit htop hu
  | disconnect b =>
      obtain ⟨u, hu, rfl⟩ := Option.map_eq_some_iff.mp hstep
      obtain ⟨v, hv, hok⟩ := h.isDisconnectHandler b
      rwa [Option.some.inj (hu.symm.trans hv)]
  | evict b msg =>
      obtain ⟨r, hr, rfl⟩ := Option.map_eq_some_iff.mp hstep
      exact h.evictBegin hr
  | release c =>
      rw [freeStep] at hstep
      split at hstep
      · rename_i hc
        obtain ⟨u, hu, rfl⟩ := Option.map_eq_some_iff.mp hstep
        obtain ⟨v, hv, hok⟩ := h.releaseChunk hc
        rwa [Option.some.inj (hu.symm.trans hv)]
      · cases hstep

/-- And a run. -/
theorem stackOk_reach {guard : FreeState → FreeAction → Prop}
    (hguard : ∀ s a, guard s a → TakesTop s a)
    (hsize : cfg.disksizeG = cfg.datasizeG ∨ cfg.disksizeG = 0)
    (hreach : Reach (freeStep cfg) guard (freeInit cfg cbNum) s) :
    StackOk cfg s.waiting s.sess :=
  hreach.invariant (I := fun s => StackOk cfg s.waiting s.sess) (stackOk_init hsize)
    fun u a _ hu ha hstep => stackOk_step hu (hguard u a ha) hstep

end Runs

/-! ## What `IS_chunk_list_init` takes off the list -/

/-- Every chunk with a key backs a session chunk that had no server, each a different one. -/
structure AssignsFresh (b : Nat) (msg : Message) (s t : Session) : Prop where
  fresh : ∀ i, msg.flagged i = true → ∃ c, (t.cb b).remoteChunk.chunkMap i = some c ∧
    s.cbIndexMap c = none
  distinct : ∀ i k c, (t.cb b).remoteChunk.chunkMap i = some c →
    (t.cb b).remoteChunk.chunkMap k = some c → i = k

namespace StackOk

variable {cfg : Config} {waiting : List Nat} {s : Session} {b : Nat} {msg : Message}

theorem chunkListTurn_total (h : StackOk cfg waiting s) {i : ChunkIx} (hflag : msg.flagged i = true)
    (hpos : 0 ≤ s.freeChunkIndex) :
    ∃ t c, Manager.chunkListTurn cfg b msg s i = some t ∧ s.cbIndexMap c = none ∧
      t.cbIndexMap = Function.update s.cbIndexMap c (some b) ∧
      (t.cb b).remoteChunk.chunkMap =
        Function.update (s.cb b).remoteChunk.chunkMap i (some c) ∧
      t.freeChunkIndex = s.freeChunkIndex - 1 := by
  obtain ⟨c, hc, hlt, hunmapped, -⟩ := h.topChunk_mem (x := s.unmappedChunkList _) (if_pos hpos)
  have hhigh := h.high
  have hindex : cfg.chunkIndex? s.freeChunkIndex = some s.freeChunkIndex.toNat :=
    if_pos ⟨hpos, by omega⟩
  rw [Manager.chunkListTurn, if_pos hflag, hindex, Option.bind_some, ← hc, chunkIndex?_of_lt hlt]
  exact ⟨_, c, rfl, hunmapped, rfl, by rw [Session.putCb_cb_self], rfl⟩

theorem chunkListLoop_total (h : StackOk cfg waiting s) {l : List ChunkIx} (hnodup : l.Nodup)
    (hlen : (l.filter msg.flagged).length ≤ s.freeChunks.length) :
    ∃ t, l.foldlM (Manager.chunkListTurn cfg b msg) s = some t ∧
      (∀ i ∈ l, msg.flagged i = true → ∃ c, (t.cb b).remoteChunk.chunkMap i = some c ∧
        s.cbIndexMap c = none) ∧
      ∀ i, i ∉ l → (t.cb b).remoteChunk.chunkMap i = (s.cb b).remoteChunk.chunkMap i := by
  induction l generalizing s with
  | nil => exact ⟨s, rfl, by simp, fun _ _ => rfl⟩
  | cons i rest ih =>
      obtain ⟨hi, hrest⟩ := List.nodup_cons.mp hnodup
      by_cases hflag : msg.flagged i = true
      · rw [List.filter_cons_of_pos hflag, List.length_cons, Session.freeChunks,
          length_stackOf] at hlen
        obtain ⟨u, c, hu, hunmapped, hindex, hmap, hfree⟩ :=
          h.chunkListTurn_total (b := b) hflag (by omega)
        obtain ⟨t, ht, hfresh, hkeep⟩ := ih (h.chunkListTurn hu) hrest (by
          rw [Session.freeChunks, length_stackOf, hfree]
          omega)
        refine ⟨t, by rw [List.foldlM_cons, hu]; exact ht, ?_, ?_⟩
        · intro k hk hkflag
          rcases List.mem_cons.mp hk with rfl | hk
          · refine ⟨c, ?_, hunmapped⟩
            rw [hkeep k hi, hmap, Function.update_self]
          · obtain ⟨e, he, hnone⟩ := hfresh k hk hkflag
            refine ⟨e, he, ?_⟩
            -- a chunk that has no server after the turn had none before
            rw [hindex] at hnone
            by_cases hec : e = c
            · rw [hec]
              exact hunmapped
            · rwa [Function.update_of_ne hec] at hnone
        · intro k hk
          rw [List.mem_cons, not_or] at hk
          rw [hkeep k hk.2, hmap, Function.update_of_ne hk.1]
      · rw [List.filter_cons_of_neg hflag] at hlen
        obtain ⟨t, ht, hfresh, hkeep⟩ := ih h hrest hlen
        have hu : Manager.chunkListTurn cfg b msg s i = some s := if_neg hflag
        refine ⟨t, by rw [List.foldlM_cons, hu]; exact ht, ?_, ?_⟩
        · intro k hk hkflag
          rcases List.mem_cons.mp hk with rfl | hk
          · exact absurd hkflag hflag
          · exact hfresh k hk hkflag
        · intro k hk
          rw [List.mem_cons, not_or] at hk
          exact hkeep k hk.2

theorem unmappedCount_le (h : StackOk cfg [] s) : unmappedCount cfg s ≤ s.freeChunks.length := by
  refine le_trans ?_ (List.toFinset_card_le s.freeChunks)
  rw [unmappedCount, countWhere]
  refine Finset.card_le_card_of_injOn (fun c : Fin cfg.disksizeG => (c.val : Int)) ?_ ?_
  · intro c hc
    have hnone : s.cbIndexMap c = none := by simpa using hc
    exact List.mem_toFinset.mpr ((h.lists.mem _).mpr ⟨c, rfl, c.isLt, hnone, by simp⟩)
  · intro c _ e _ hce
    exact Fin.ext (Int.ofNat_inj.mp hce)

theorem isChunkListInit_total (h : StackOk cfg [] s)
    (hkeys : countWhere msg.flagged ≤ unmappedCount cfg s) (b : Nat) :
    ∃ t, Manager.isChunkListInit cfg b msg s = some t ∧ AssignsFresh b msg s t := by
  have hlen : ((List.finRange maxMrSizeGb).filter msg.flagged).length ≤ s.freeChunks.length := by
    rw [length_filter_finRange]
    exact hkeys.trans h.unmappedCount_le
  obtain ⟨u, hu, hfresh, -⟩ :=
    h.chunkListLoop_total (b := b) (List.nodup_finRange maxMrSizeGb) hlen
  rw [Manager.isChunkListInit, hu]
  refine ⟨_, rfl, ?_, ?_⟩
  · intro i hi
    rw [Session.putCb_cb_self]
    exact hfresh i (List.mem_finRange i) hi
  · intro i k c hi hk
    rw [Session.putCb_cb_self] at hi hk
    exact (h.chunkListLoop hu).unique b i k c hi hk

end StackOk

/-! ## When the list is right -/

/-- In a build with as many chunks on its disks as in its data, and with every
`INFO_SINGLE` for the chunk on top of the list, the list has exactly the chunks without a
server whenever no eviction is half done, and an `INFO` maps chunks that had none. -/
theorem freeStack_of_reach {cfg : Config} {cbNum : Nat} {s : FreeState}
    (hsize : cfg.disksizeG = cfg.datasizeG ∨ cfg.disksizeG = 0)
    (hreach : Reach (freeStep cfg) (fun s a => RepliesUnmapped cfg s a ∧ TakesTop s a)
      (freeInit cfg cbNum) s) (hidle : s.waiting = []) :
    FreeStack cfg s.sess ∧
      ∀ b msg, RepliesUnmapped cfg s (.info b msg) →
        ∃ t, isChunkListInit cfg b msg s.sess = some t ∧ AssignsFresh b msg s.sess t := by
  have hok := stackOk_reach (fun _ _ h => h.2) hsize hreach
  rw [hidle] at hok
  exact ⟨hok.freeStack, fun b msg hkeys => hok.isChunkListInit_total hkeys b⟩

/-- The first reply of a session. -/
theorem reach_infoSingle (cfg : Config) (cbNum b : Nat) (msg : Message)
    (guard : FreeState → FreeAction → Prop) {t : Session}
    (hguard : guard (freeInit cfg cbNum) (.infoSingle b msg))
    (hinit : isSingleChunkInit cfg b msg (isSessionCreate cfg cbNum) = some t) :
    Reach (freeStep cfg) guard (freeInit cfg cbNum) ⟨t, []⟩ :=
  Reach.snoc .refl hguard (by rw [freeStep, freeInit, hinit]; rfl)

/-- A build with one disk, for two gigabytes. -/
def oneDisk : Config := ⟨1, 1, 2⟩

/-- A server answers for the chunk on top of the list. -/
theorem freeStack_of_reach_oneDisk :
    ∃ s, Reach (freeStep oneDisk) (fun s a => RepliesUnmapped oneDisk s a ∧ TakesTop s a)
        (freeInit oneDisk 1) s ∧ s.waiting = [] ∧ s.sess.cbIndexMap 0 = some 0 ∧
      (FreeStack oneDisk s.sess ∧
        ∀ b msg, RepliesUnmapped oneDisk s (.info b msg) →
          ∃ t, isChunkListInit oneDisk b msg s.sess = some t ∧ AssignsFresh b msg s.sess t) := by
  have hreach := reach_infoSingle oneDisk 1 0 (infoSingle 0 0)
    (fun s a => RepliesUnmapped oneDisk s a ∧ TakesTop s a)
    ⟨⟨0, rfl, by decide, rfl⟩, fun _ => rfl⟩ rfl
  exact ⟨_, hreach, rfl, rfl, freeStack_of_reach (.inl rfl) hreach rfl⟩

/-- In other builds it is wrong from the start. -/
theorem freeStack_init_iff {cfg : Config} {cbNum : Nat} :
    FreeStack cfg (isSessionCreate cfg cbNum) ↔
      cfg.disksizeG = cfg.datasizeG ∨ cfg.disksizeG = 0 := by
  constructor
  · intro h
    by_contra hne
    rw [not_or] at hne
    have hentry : ∀ i < cfg.disksizeG, ∃ c : Nat, (c : Int) = cfg.datasizeG - 1 - i ∧
        c < cfg.disksizeG := by
      intro i hi
      have hmem : ((cfg.datasizeG : Int) - 1 - i) ∈ (isSessionCreate cfg cbNum).freeChunks := by
        refine List.mem_map.mpr ⟨i, List.mem_range.mpr ?_, rfl⟩
        change i < ((cfg.disksizeG : Int) - 1 + 1).toNat
        omega
      obtain ⟨c, hc, hlt, -⟩ := (h.lists.mem _).mp hmem
      exact ⟨c, hc, hlt⟩
    obtain ⟨c, hc, hlt⟩ := hentry 0 (by omega)
    obtain ⟨e, he, -⟩ := hentry (cfg.disksizeG - 1) (by omega)
    omega
  · exact fun hsize => (stackOk_init hsize).freeStack

/-- An `INFO_SINGLE` for a chunk without a server keeps the list right only if that chunk is
on top. -/
theorem freeStack_isSingleChunkInit_iff {cfg : Config} {b c : Nat} {i : ChunkIx} {msg : Message}
    {s t : Session} (h : StackOk cfg [] s) (hassigned : assignedChunk msg = some i)
    (hsize : msg.sizeGb = c) (hfree : (c : Int) ∈ freeSet cfg [] s)
    (hinit : isSingleChunkInit cfg b msg s = some t) :
    FreeStack cfg t ↔ s.topChunk = some (c : Int) := by
  constructor
  · intro ht
    have hpos : 0 ≤ s.freeChunkIndex := by
      have hlen := List.length_pos_of_mem ((h.lists.mem _).mpr hfree)
      rw [Session.freeChunks, length_stackOf] at hlen
      omega
    rw [isSingleChunkInit, hassigned, hsize] at hinit
    obtain ⟨e, he, rfl⟩ := Option.map_eq_some_iff.mp hinit
    obtain rfl : e = c := Int.ofNat_inj.mp (chunkIndex?_lt he).2
    have hlists := h.lists
    rw [Session.freeChunks, stackOf_eq_concat _ hpos] at hlists
    have hpop := ht.lists
    rw [StackOk.freeSet_assign (s := s) (c := e) (b := b) rfl] at hpop
    rw [Session.topChunk, if_pos hpos, (hlists.pop_iff hfree).mp hpop]
  · intro htop
    exact (h.isSingleChunkInit (fun _ => by rw [hsize]; exact htop) hinit).freeStack

/-- With replication the list holds negative numbers, and an `INFO` takes one; with one disk
a reply for the chunk at the bottom leaves that chunk on the list. -/
theorem freeStack_fails :
    (¬ FreeStack .rep (freeInit .rep 3).sess ∧
      isChunkListInit .rep 0 (infoSingle 1 0) (freeInit .rep 3).sess = none) ∧
    ∃ s, Reach (freeStep oneDisk) (RepliesUnmapped oneDisk) (freeInit oneDisk 1) s ∧
      s.waiting = [] ∧ ¬ FreeStack oneDisk s.sess := by
  refine ⟨⟨fun h => ?_, rfl⟩, ?_⟩
  · rcases freeStack_init_iff.mp h with hsize | hsize <;> exact absurd hsize (by decide)
  · have hreach := reach_infoSingle oneDisk 1 0 (infoSingle 1 0) (RepliesUnmapped oneDisk)
      ⟨1, rfl, by decide, rfl⟩ rfl
    refine ⟨_, hreach, rfl, fun h => ?_⟩
    have hok : StackOk oneDisk [] (isSessionCreate oneDisk 1) := stackOk_init (.inl rfl)
    have hassigned : assignedChunk (infoSingle 1 0) = some 0 := rfl
    have htop := (freeStack_isSingleChunkInit_iff (b := 0) (c := 1) hok hassigned rfl
      ⟨1, rfl, by decide, rfl, by simp⟩ rfl).mp h
    exact absurd htop (by decide)

end Hydra.Manager
