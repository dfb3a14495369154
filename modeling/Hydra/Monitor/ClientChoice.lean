/-
  Monitor/ClientChoice.lean --- `evict_mem` up to its first `STOP`.

  Source: `evict_mem` of `resource_monitor/rdma-common.c`, from its start to the
  selection of the chunks, and the evict branch of `free_mem`.

  The unmapped chunks go first.  For what is left the clients to ask are chosen, all of
  them or the owners of chunks drawn at random; the `while` of a draw has no other exit
  than a chunk that is mapped and not yet drawn.  That there is one rests on
  `mapped_size`, and not on the table the loop looks at.
-/
import Hydra.Foundation.Probe
import Hydra.Monitor.EvictMem
import Hydra.Monitor.Tables

set_option autoImplicit false

namespace Hydra.Monitor

open Hydra.Foundation Hydra.Wire

/-! ## Choosing the clients -/

/-- `EXTRA_CHUNK_NUM`. -/
def extraChunkNum : Int := 2

/-- `random_chunk_select[r] != 0`: not mapped, or drawn before. -/
def notSelectable (m : Session) (drawn : List ChunkIx) (r : Nat) : Bool :=
  if h : r < maxMrSizeGb then (m.connMap ⟨r, h⟩).isNone || drawn.contains ⟨r, h⟩ else true

/-- The loop that draws, `count` chunks to go, each `while` with at most `fuel` tests. -/
def drawChunks (fuel : Nat) (random : Nat → Nat) (m : Session) :
    Nat → List ChunkIx → Option (List ChunkIx)
  | 0, drawn => some drawn
  | count + 1, drawn =>
      (probe maxMrSizeGb (notSelectable m drawn) fuel (random drawn.length % maxMrSizeGb)).bind
        fun r =>
          if h : r < maxMrSizeGb then drawChunks fuel random m count (drawn ++ [⟨r, h⟩]) else none

/-- `send_list[conn_map[i]] = 1`. -/
def markOwner (m : Session) (sendList : ConnIx → SendMark) (i : ChunkIx) : ConnIx → SendMark :=
  match m.connMap i with
  | none => sendList
  | some c => Function.update sendList c .evict

/-- `send_list` after the draws. -/
def markOwners (m : Session) (drawn : List ChunkIx) : ConnIx → SendMark :=
  drawn.foldl (markOwner m) (fun _ => .none)

/-- What the choice settles: `send_list` and `j`. -/
structure Choice where
  sendList : ConnIx → SendMark
  j : Int

/-- All clients with chunks, or the owners of `evict_g + EXTRA_CHUNK_NUM` chunks. -/
def chooseClients (fuel : Nat) (random : Nat → Nat) (evictG : Int) (m : Session) :
    Option Choice :=
  if m.mappedSize < evictG + extraChunkNum then
    some
      { sendList := fun c => if m.connsState c = .mapped then .evict else .none
        j := if m.mappedSize < evictG then m.mappedSize else evictG }
  else
    (drawChunks fuel random m (evictG + extraChunkNum).toNat []).map fun drawn =>
      { sendList := markOwners m drawn, j := evictG }

/-- `evict_mem` up to the choice.  It returns without one when the unmapped chunks are
enough. -/
def evictBegin (fuel : Nat) (random : Nat → Nat) (stopG : Int) (m : Session) :
    Option (Session × Option Choice) :=
  let r := evictFreeUnmapped stopG m
  if r.2 = stopG then some (r.1, none)
  else (chooseClients fuel random (stopG - r.2) r.1).map fun choice => (r.1, some choice)

/-! ## Asking them -/

/-- `send_evict` to the clients chosen. -/
def sendEvict (choice : Choice) (m : Session) : Session :=
  { m with
    conns := fun c =>
      if choice.sendList c = .evict then
        (m.conns c).map fun conn =>
          { conn with
            sendMsg :=
              { conn.sendMsg with type := .evict, sizeGb := choice.j, rkey := fun _ => 0 } }
      else m.conns c }

/-- The `ACTIVITY` replies as they arrive in the receive buffers. -/
def receiveActivity (choice : Choice) (replies : ConnIx → Message) (m : Session) : Session :=
  { m with
    conns := fun c =>
      if choice.sendList c = .evict then
        (m.conns c).map fun conn => { conn with recvMsg := replies c }
      else m.conns c }

/-- What the `k` entries of `evict_list` hold: what was written, and behind it what
`malloc` left there.  More entries than room are written past the end. -/
def EvictList.memory (list : EvictList) (garbage : Nat → ChunkActivity) :
    Option (List ChunkActivity) :=
  if (list.entries.length : Int) ≤ list.room then
    some (list.entries ++
      (List.range (list.room.toNat - list.entries.length)).map garbage)
  else none

/-- From the choice to the end of the selection. -/
def evictFinish (replies : ConnIx → Message) (garbage : Nat → ChunkActivity) (choice : Choice)
    (m : Session) : Option StopRun :=
  (evictCollect (receiveActivity choice replies (sendEvict choice m)) choice.sendList).bind
    fun r =>
      (r.2.memory garbage).bind fun memory =>
        evictSelect r.1 choice.sendList choice.j.toNat memory

/-! ## The draws -/

/-- Chunks that were drawn: different ones, all mapped. -/
structure Drawn (m : Session) (l : List ChunkIx) : Prop where
  nodup : l.Nodup
  mapped : ∀ i ∈ l, m.connMap i ≠ none

/-- There are no more of them than mapped chunks. -/
theorem Drawn.length_le {m : Session} {l : List ChunkIx} (h : Drawn m l) :
    l.length ≤ m.mapCount :=
  length_le_countWhere h.nodup fun i hi => Option.isSome_iff_ne_none.mpr (h.mapped i hi)

theorem notSelectable_val {m : Session} {drawn : List ChunkIx} {i : ChunkIx} :
    notSelectable m drawn i.val = false ↔ m.connMap i ≠ none ∧ i ∉ drawn := by
  rw [notSelectable, dif_pos i.isLt, Bool.or_eq_false_iff, Option.isNone_eq_false_iff,
    Option.isSome_iff_ne_none, List.contains_eq_mem, decide_eq_false_iff_not]

/-- Fewer drawn than mapped leave one to draw. -/
theorem exists_selectable {m : Session} {l : List ChunkIx}
    (hlt : l.length < m.mapCount) : ∃ i : ChunkIx, notSelectable m l i.val = false := by
  by_contra hnone
  push Not at hnone
  have hle : m.mapCount ≤ l.length := by
    refine countWhere_le_length fun i hi => ?_
    by_contra hnot
    exact hnone i (notSelectable_val.mpr ⟨Option.isSome_iff_ne_none.mp hi, hnot⟩)
  omega

theorem Drawn.append {m : Session} {l : List ChunkIx} {i : ChunkIx} (h : Drawn m l)
    (hi : notSelectable m l i.val = false) : Drawn m (l ++ [i]) := by
  obtain ⟨hmapped, hnew⟩ := notSelectable_val.mp hi
  refine ⟨h.nodup.append (List.nodup_singleton i) (by simpa using hnew), fun k hk => ?_⟩
  rcases List.mem_append.mp hk with hk | hk
  · exact h.mapped k hk
  · rw [List.mem_singleton.mp hk]
    exact hmapped

theorem random_mod_lt (random : Nat → Nat) (n : Nat) : random n % maxMrSizeGb < maxMrSizeGb :=
  Nat.mod_lt _ (by decide)

theorem drawChunks_drawn {fuel : Nat} {random : Nat → Nat} {m : Session} {count : Nat}
    {drawn l : List ChunkIx} (hdrawn : Drawn m drawn)
    (h : drawChunks fuel random m count drawn = some l) :
    Drawn m l ∧ l.length = drawn.length + count := by
  induction count generalizing drawn with
  | zero =>
      obtain rfl := Option.some.inj h
      exact ⟨hdrawn, rfl⟩
  | succ count ih =>
      obtain ⟨r, hr, hrest⟩ := Option.bind_eq_some_iff.mp h
      obtain ⟨hlt, hfree⟩ := probe_some (random_mod_lt random _) hr
      rw [dif_pos hlt] at hrest
      obtain ⟨hfinal, hlen⟩ := ih (hdrawn.append (i := ⟨r, hlt⟩) hfree) hrest
      refine ⟨hfinal, ?_⟩
      rw [hlen, List.length_append, List.length_singleton]
      omega

/-- The draws end when there are as many mapped chunks. -/
theorem drawChunks_total (random : Nat → Nat) {m : Session} {count : Nat} {drawn : List ChunkIx}
    (hdrawn : Drawn m drawn) (hmany : drawn.length + count ≤ m.mapCount) :
    ∃ l, ∀ fuel, maxMrSizeGb ≤ fuel → drawChunks fuel random m count drawn = some l := by
  induction count generalizing drawn with
  | zero => exact ⟨drawn, fun _ _ => rfl⟩
  | succ count ih =>
      obtain ⟨i, hi⟩ := exists_selectable (m := m) (l := drawn) (by omega)
      obtain ⟨r, hr⟩ := probe_total (random_mod_lt random drawn.length) i.isLt hi
      obtain ⟨hlt, hfree⟩ := probe_some (random_mod_lt random _) (hr maxMrSizeGb le_rfl)
      obtain ⟨l, hl⟩ := ih (hdrawn.append (i := ⟨r, hlt⟩) hfree) (by
        rw [List.length_append, List.length_singleton]
        omega)
      refine ⟨l, fun fuel hfuel => ?_⟩
      rw [drawChunks, hr fuel hfuel, Option.bind_some, dif_pos hlt]
      exact hl fuel hfuel

/-- They never do when there are not. -/
theorem drawChunks_stuck (fuel : Nat) (random : Nat → Nat) {m : Session} {count : Nat}
    (hfew : m.mapCount < count) : drawChunks fuel random m count [] = none := by
  cases hdraw : drawChunks fuel random m count [] with
  | none => rfl
  | some l =>
      obtain ⟨hdrawn, hlen⟩ := drawChunks_drawn ⟨List.nodup_nil, by simp⟩ hdraw
      have hle := hdrawn.length_le
      rw [hlen, List.length_nil] at hle
      omega

/-! ## The total stays below the table -/

/-- The entries of a connection's table. -/
def Connection.entered (conn : Connection) : Nat := countWhere fun i => (conn.sessChunkMap i).isSome

/-- What a slot has of `mapped_size`. -/
def slotSize (slot : Option Connection) : Int := (slot.map (·.mappedChunkSize)).getD 0

/-- No total counts chunks that are not mapped. -/
structure Covers (m : Session) : Prop extends Tables m where
  share : ∀ c conn, m.conns c = some conn → conn.mappedChunkSize ≤ conn.entered
  total : m.mappedSize ≤ ∑ c, slotSize (m.conns c)

/-- The steps that keep it so: a `BIND_SINGLE` finds a free chunk, and a `DONE` takes off
at least as many chunks as it flags.  A manager sends no `BIND`. -/
def Counted (m : Session) : Action → Prop
  | .receive _ msg _ =>
      msg.type ≠ .bind ∧ (msg.type = .bindSingle → SingleCovered m) ∧
        (msg.type = .done → (countWhere msg.flagged : Int) ≤ msg.sizeGb)
  | .connect _ _ | .disconnect _ | .expand _ | .freeUnmapped _ => True

theorem slotSize_some (conn : Connection) : slotSize (some conn) = conn.mappedChunkSize := rfl

theorem slotSize_none : slotSize none = 0 := rfl

theorem sum_slotSize_update (conns : ConnIx → Option Connection) (c : ConnIx)
    (slot : Option Connection) :
    ∑ d, slotSize (Function.update conns c slot d) =
      ∑ d, slotSize (conns d) - slotSize (conns c) + slotSize slot := by
  have hcomp : (fun d => slotSize (Function.update conns c slot d)) =
      Function.update (fun d => slotSize (conns d)) c (slotSize slot) :=
    Function.comp_update slotSize conns c slot
  have hsplit := Finset.sum_eq_sum_sdiff_singleton_add (Finset.mem_univ c)
    fun d => slotSize (conns d)
  rw [hcomp, Finset.sum_update_of_mem (Finset.mem_univ c)]
  omega

/-- `mapped_size` does not exceed the number of mapped chunks. -/
theorem Covers.mappedSize_le {m : Session} (h : Covers m) : m.mappedSize ≤ m.mapCount := by
  have hslot : ∀ c, slotSize (m.conns c) ≤ m.mapCountOf c := by
    intro c
    cases hc : m.conns c with
    | none =>
        rw [slotSize_none]
        exact Int.natCast_nonneg _
    | some conn =>
        have hentered : conn.entered ≤ m.mapCountOf c := by
          refine countWhere_mono fun i hi => ?_
          obtain ⟨j, hj⟩ := Option.isSome_iff_exists.mp hi
          exact decide_eq_true (h.owned c conn hc i j hj).2.1
        have hshare := h.share c conn hc
        rw [slotSize_some]
        omega
  calc m.mappedSize ≤ ∑ c, slotSize (m.conns c) := h.total
    _ ≤ ∑ c, (m.mapCountOf c : Int) := Finset.sum_le_sum fun c _ => hslot c
    _ = m.mapCount := by
      rw [Session.mapCount, countWhere_isSome_eq_sum]
      push_cast
      rfl

theorem covers_rdmaSessionInit (freeMemG : Int) : Covers (rdmaSessionInit freeMemG) := by
  refine ⟨tables_rdmaSessionInit freeMemG, fun c conn hc => ?_, ?_⟩
  · cases hc
  · simp [rdmaSessionInit, slotSize]

/-- One slot rewritten, the total not rising more than the slot's. -/
theorem Covers.rewrite {m : Session} (h : Covers m) {m' : Session} (htables : Tables m')
    {c : ConnIx} {slot : Option Connection} (hconns : m'.conns = Function.update m.conns c slot)
    (hshare : ∀ conn, slot = some conn → conn.mappedChunkSize ≤ conn.entered)
    (htotal : m'.mappedSize - m.mappedSize ≤ slotSize slot - slotSize (m.conns c)) :
    Covers m' := by
  refine ⟨htables, fun d conn hd => ?_, ?_⟩
  · rw [hconns] at hd
    by_cases hdc : d = c
    · subst hdc
      rw [Function.update_self] at hd
      exact hshare conn hd
    · rw [Function.update_of_ne hdc] at hd
      exact h.share d conn hd
  · have hsum := sum_slotSize_update m.conns c slot
    have hold := h.total
    rw [hconns, hsum]
    omega

/-- A handler that writes only buffers and semaphores. -/
theorem Covers.putConn {m : Session} (h : Covers m) {c : ConnIx} {conn conn' : Connection}
    (hc : m.conns c = some conn) (htables : Tables (m.putConn c conn'))
    (hsess : conn'.sessChunkMap = conn.sessChunkMap)
    (hsize : conn'.mappedChunkSize = conn.mappedChunkSize) : Covers (m.putConn c conn') := by
  refine h.rewrite htables rfl (fun other hother => ?_) ?_
  · obtain rfl := Option.some.inj hother
    rw [hsize, Connection.entered, hsess]
    exact h.share c conn hc
  · rw [hc, slotSize_some, slotSize_some, hsize]
    show m.mappedSize - m.mappedSize ≤ _
    omega

theorem Covers.sendSingleMr {m : Session} (h : Covers m) {c : ConnIx} {conn₀ : Connection}
    (hc : m.conns c = some conn₀) {msg : Message} (hcovered : SingleCovered m) (mr : ChunkIx → Mr)
    {k : ConnIx} (htables : Tables ((sendSingleMr mr c { conn₀ with recvMsg := msg }
      msg.sizeGb m).1.markMapped k)) :
    Covers ((sendSingleMr mr c { conn₀ with recvMsg := msg } msg.sizeGb m).1.markMapped k) := by
  obtain ⟨i, hi⟩ : ∃ i, (List.finRange maxMrSizeGb).find? m.freeChunk = some i := by
    obtain ⟨i, hi⟩ := countWhere_pos_iff.mp hcovered
    exact Option.isSome_iff_exists.mp (List.find?_isSome.mpr ⟨i, List.mem_finRange i, hi⟩)
  have hunbound := (freeChunk_iff.mp (List.find?_some hi)).2
  have hnew : conn₀.sessChunkMap i = none := by
    cases hsess : conn₀.sessChunkMap i with
    | none => rfl
    | some j =>
        have hown := (h.owned c conn₀ hc i j hsess).2.1
        rw [hunbound] at hown
        cases hown
  have hentered : (countWhere fun j => (Function.update conn₀.sessChunkMap i (some i) j).isSome) =
      conn₀.entered + 1 := by
    refine countWhere_turnOn (a := i) (by simp [hnew]) (by simp) fun j hj => ?_
    rw [Function.update_of_ne hj]
  have hshare := h.share c conn₀ hc
  revert htables
  rw [Monitor.sendSingleMr, hi]
  intro htables
  refine h.rewrite htables rfl (fun other hother => ?_) ?_
  · obtain rfl := Option.some.inj hother
    show conn₀.mappedChunkSize + 1 ≤ (countWhere fun j =>
      (Function.update conn₀.sessChunkMap i (some i) j).isSome : Nat)
    rw [hentered]
    push_cast
    omega
  · rw [hc, slotSize_some, slotSize_some]
    show m.mappedSize + 1 - m.mappedSize ≤ conn₀.mappedChunkSize + 1 - conn₀.mappedChunkSize
    omega

theorem Covers.recvDone {m m' : Session} (h : Covers m) {c : ConnIx} {conn₀ : Connection}
    (hc : m.conns c = some conn₀) {msg : Message}
    (hcount : (countWhere msg.flagged : Int) ≤ msg.sizeGb)
    (hdone : recvDone c { conn₀ with recvMsg := msg } m = some m') (htables : Tables m') :
    Covers m' := by
  obtain ⟨hbound, rfl⟩ := recvDone_cases hdone
  have hentered : (countWhere fun i =>
      (if msg.flagged i then none else conn₀.sessChunkMap i).isSome) + countWhere msg.flagged =
        conn₀.entered := by
    refine countWhere_clear msg.flagged (fun i hi => ?_) fun i => ?_
    · exact Option.isSome_iff_ne_none.mpr (hbound i hi)
    · cases msg.flagged i <;> simp
  have hshare := h.share c conn₀ hc
  refine h.rewrite htables rfl (fun other hother => ?_) ?_
  · obtain rfl := Option.some.inj hother
    show conn₀.mappedChunkSize - msg.sizeGb ≤ (countWhere fun i =>
      (if msg.flagged i then none else conn₀.sessChunkMap i).isSome : Nat)
    omega
  · rw [hc, slotSize_some, slotSize_some]
    show m.mappedSize - msg.sizeGb - m.mappedSize ≤
      conn₀.mappedChunkSize - msg.sizeGb - conn₀.mappedChunkSize
    omega

theorem Covers.onCompletion {m : Session} (h : Covers m) {c : ConnIx} {msg : Message}
    {mr : ChunkIx → Mr} {r : Session × Option Message}
    (hcounted : Counted m (.receive c msg mr)) (hrecv : onCompletion mr c msg m = some r) :
    Covers r.1 := by
  obtain ⟨hbind, hsingle, hdone⟩ := hcounted
  obtain ⟨-, -, -, -, htables, -⟩ := h.toTables.onCompletion hbind hrecv
  obtain ⟨conn₀, hc, conn, rfl, hcases⟩ := onCompletion_cases hrecv
  rcases hcases with ⟨-, heq, -⟩ | ⟨ht, -, -⟩ | ⟨ht, heq, -⟩ | ⟨-, heq, -⟩ | ⟨-, heq, -⟩ |
    ⟨ht, heq, -⟩
  · rw [heq] at htables ⊢
    exact h.putConn hc htables rfl rfl
  · exact absurd ht hbind
  · rw [heq] at htables ⊢
    exact h.sendSingleMr hc (hsingle ht) mr htables
  · rw [heq] at htables ⊢
    exact h.putConn hc htables rfl rfl
  · rw [heq] at htables ⊢
    exact h.putConn hc htables rfl rfl
  · exact h.recvDone hc (hdone ht) heq htables

theorem Covers.buildConnection {m m' : Session} {sendBuf recvBuf : Message} (h : Covers m)
    (hbuild : buildConnection sendBuf recvBuf m = some m') : Covers m' := by
  obtain ⟨c, -, hslot, -, -, -, htables, -⟩ := h.toTables.buildConnection hbuild
  have hfree : m.conns c = none := by
    rw [← h.idle c]
    simpa using List.find?_some hslot
  unfold Monitor.buildConnection at hbuild
  rw [hslot] at hbuild
  obtain rfl := Option.some.inj hbuild
  refine h.rewrite htables rfl (fun other hother => ?_) ?_
  · obtain rfl := Option.some.inj hother
    exact Int.natCast_nonneg _
  · rw [hfree, slotSize_none]
    show m.mappedSize - m.mappedSize ≤ (0 : Int) - 0
    omega

/-- A slot that is given up takes its share off the total, or had none. -/
theorem destroyConnection_total {m m' : Session} {c : ConnIx}
    (hdestroy : destroyConnection c m = some m') :
    ∃ conn, m.conns c = some conn ∧
      m'.conns = Function.update m.conns conn.connIndex none ∧
      m'.mappedSize - m.mappedSize ≤ -conn.mappedChunkSize := by
  unfold Monitor.destroyConnection at hdestroy
  split at hdestroy
  · cases hdestroy
  rename_i conn hc
  refine ⟨conn, hc, ?_⟩
  by_cases hpos : conn.mappedChunkSize > 0
  · simp only [if_pos hpos] at hdestroy
    obtain rfl := Option.some.inj hdestroy
    refine ⟨rfl, ?_⟩
    show m.mappedSize - conn.mappedChunkSize - m.mappedSize ≤ _
    omega
  · simp only [if_neg hpos] at hdestroy
    obtain rfl := Option.some.inj hdestroy
    refine ⟨rfl, ?_⟩
    show m.mappedSize - m.mappedSize ≤ _
    omega

theorem Covers.destroyConnection {m m' : Session} {c : ConnIx} (h : Covers m)
    (hdestroy : destroyConnection c m = some m') : Covers m' := by
  have htables := (h.toTables.destroyConnection hdestroy).2.1
  obtain ⟨conn, hc, hconns, hless⟩ := destroyConnection_total hdestroy
  rw [h.index c conn hc] at hconns
  refine h.rewrite htables hconns (fun other hother => by cases hother) ?_
  rw [hc, slotSize_none, slotSize_some]
  omega

theorem Covers.step {m m' : Session} {a : Action} (h : Covers m) (hcounted : Counted m a)
    (hstep : step m a = some m') : Covers m' := by
  cases a with
  | connect sendBuf recvBuf => exact h.buildConnection hstep
  | receive c msg mr =>
      obtain ⟨r, hrecv, rfl⟩ := Option.map_eq_some_iff.mp hstep
      exact h.onCompletion hcounted hrecv
  | disconnect c => exact h.destroyConnection hstep
  | expand lastFreeMemG =>
      obtain rfl := Option.some.inj hstep
      exact ⟨h.toTables.freeMemExpand lastFreeMemG, h.share, h.total⟩
  | freeUnmapped stopG =>
      obtain rfl := Option.some.inj hstep
      have htables := h.toTables.evictFreeUnmapped stopG
      obtain ⟨mallocMap, hframe, -⟩ := evictFreeUnmapped_frame stopG m
      rw [hframe] at htables ⊢
      exact ⟨htables, h.share, h.total⟩

/-! ## The draws of an eviction end -/

theorem chooseClients_total (random : Nat → Nat) (evictG : Int) {m : Session}
    (hle : m.mappedSize ≤ m.mapCount) :
    ∃ choice, ∀ fuel, maxMrSizeGb ≤ fuel → chooseClients fuel random evictG m = some choice := by
  by_cases hfew : m.mappedSize < evictG + extraChunkNum
  · exact ⟨_, fun fuel _ => if_pos hfew⟩
  · have hmany : ([] : List ChunkIx).length + (evictG + extraChunkNum).toNat ≤ m.mapCount := by
      rw [List.length_nil]
      omega
    obtain ⟨l, hl⟩ := drawChunks_total random ⟨List.nodup_nil, by simp⟩ hmany
    refine ⟨⟨markOwners m l, evictG⟩, fun fuel hfuel => ?_⟩
    rw [chooseClients, if_neg hfew, hl fuel hfuel, Option.map_some]

/-- Freeing unmapped chunks leaves what the choice looks at. -/
theorem evictFreeUnmapped_mapped (stopG : Int) (m : Session) :
    (evictFreeUnmapped stopG m).1.conns = m.conns ∧
      (evictFreeUnmapped stopG m).1.connsState = m.connsState ∧
      (evictFreeUnmapped stopG m).1.connMap = m.connMap ∧
      (evictFreeUnmapped stopG m).1.mappedSize = m.mappedSize := by
  obtain ⟨mallocMap, hframe, -⟩ := evictFreeUnmapped_frame stopG m
  rw [hframe]
  exact ⟨rfl, rfl, rfl, rfl⟩

/-- `mapped_size` promises more chunks than there are, and `evict_mem` draws for ever. -/
theorem evictBegin_stuck (fuel : Nat) (random : Nat → Nat) {stopG : Int} {m : Session}
    (hleft : (evictFreeUnmapped stopG m).2 ≠ stopG)
    (hpromised : stopG - (evictFreeUnmapped stopG m).2 + extraChunkNum ≤ m.mappedSize)
    (hfew : (m.mapCount : Int) < stopG - (evictFreeUnmapped stopG m).2 + extraChunkNum) :
    evictBegin fuel random stopG m = none := by
  obtain ⟨-, -, hmap, hsize⟩ := evictFreeUnmapped_mapped stopG m
  have hcount : (evictFreeUnmapped stopG m).1.mapCount <
      (stopG - (evictFreeUnmapped stopG m).2 + extraChunkNum).toNat := by
    rw [Session.mapCount, hmap]
    show m.mapCount < _
    omega
  rw [evictBegin, if_neg hleft, chooseClients, hsize, if_neg (by omega),
    drawChunks_stuck fuel random hcount]
  rfl

/-- In every run whose binds find a free chunk and whose `DONE`s take off what they flag,
`evict_mem` gets through its draws, whatever the random numbers are. -/
theorem eviction_draws_end (freeMemG : Int) (m : Session)
    (hrun : Reach step Counted (rdmaSessionInit freeMemG) m) (stopG : Int) (random : Nat → Nat) :
    ∃ r, ∀ fuel, maxMrSizeGb ≤ fuel → evictBegin fuel random stopG m = some r := by
  have hcovers : Covers m := hrun.invariant (covers_rdmaSessionInit freeMemG)
    fun u a v hu hcounted hstep => hu.step hcounted hstep
  by_cases henough : (evictFreeUnmapped stopG m).2 = stopG
  · exact ⟨_, fun fuel _ => if_pos henough⟩
  · obtain ⟨-, -, hmap, hsize⟩ := evictFreeUnmapped_mapped stopG m
    have hmapped : (evictFreeUnmapped stopG m).1.mappedSize ≤
        (evictFreeUnmapped stopG m).1.mapCount := by
      rw [hsize, Session.mapCount, hmap]
      exact hcovers.mappedSize_le
    obtain ⟨choice, hchoice⟩ :=
      chooseClients_total random (stopG - (evictFreeUnmapped stopG m).2) hmapped
    refine ⟨((evictFreeUnmapped stopG m).1, some choice), fun fuel hfuel => ?_⟩
    rw [evictBegin, if_neg henough, hchoice fuel hfuel, Option.map_some]

/-- One client connects and binds `n` chunks, one after the other. -/
def manyBinds (n : Nat) : List Action :=
  .connect (.plain .done 0) (.plain .done 0) ::
    List.replicate n (.receive 0 (.plain .bindSingle 0) (fun _ => ⟨0, 1⟩))

theorem counted_bind {m : Session} {i : ChunkIx} (hfree : m.freeChunk i = true) :
    Counted m (.receive 0 (.plain .bindSingle 0) (fun _ => ⟨0, 1⟩)) := by
  refine ⟨by simp [Message.plain], fun _ => countWhere_pos_iff.mpr ⟨i, hfree⟩, fun hdone => ?_⟩
  simp [Message.plain] at hdone

/-- Three chunks, all bound: an eviction of one draws all of them. -/
theorem eviction_draws_end_three :
    ∃ m, Reach step Counted (rdmaSessionInit 13) m ∧ 1 ≤ m.sizeGb ∧ 1 + 2 ≤ m.mappedSize ∧
      ∃ r, ∀ fuel, maxMrSizeGb ≤ fuel → evictBegin fuel (fun _ => 7) 1 m = some r := by
  have hrun : Reach step Counted (rdmaSessionInit 13)
      ((runActions step (rdmaSessionInit 13) (manyBinds 3)).get (by rfl)) := by
    apply reach_of_runActions (Option.some_get _).symm
    refine ⟨trivial, fun m₁ h₁ => ?_⟩
    obtain rfl := Option.some.inj h₁
    refine ⟨counted_bind (i := 0) (by decide), fun m₂ h₂ => ?_⟩
    obtain rfl := Option.some.inj h₂
    refine ⟨counted_bind (i := 1) (by decide), fun m₃ h₃ => ?_⟩
    obtain rfl := Option.some.inj h₃
    exact ⟨counted_bind (i := 2) (by decide), fun _ _ => trivial⟩
  exact ⟨_, hrun, by decide, by decide, eviction_draws_end 13 _ hrun 1 _⟩

/-- Two chunks and three binds: an eviction of one looks for a third chunk for ever. -/
theorem eviction_draws_forever :
    ∃ m, runActions step (rdmaSessionInit 12) (manyBinds 3) = some m ∧
      (0 : Int) < 1 ∧ 1 ≤ m.sizeGb ∧ ∀ fuel random, evictBegin fuel random 1 m = none := by
  refine ⟨(runActions step (rdmaSessionInit 12) (manyBinds 3)).get (by decide),
    (Option.some_get _).symm, by decide, by decide, fun fuel random => ?_⟩
  have hcount : ((runActions step (rdmaSessionInit 12) (manyBinds 3)).get (by decide)).mapCount ≤
      2 := countWhere_le_length (l := [0, 1]) (by decide)
  refine evictBegin_stuck fuel random (by decide) (by decide) (Int.lt_of_le_of_lt (b := 2) ?_ ?_)
  · exact_mod_cast hcount
  · decide

end Hydra.Monitor
