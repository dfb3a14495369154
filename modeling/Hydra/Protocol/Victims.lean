/-
  Protocol/Victims.lean --- which chunks an eviction takes.

  Source: `evict_mem` of `resource_monitor/rdma-common.c` up to its first `STOP`.

  The clients are chosen in one of two ways, their replies gathered into one list, the
  least active entries moved to its front and scattered over the send buffers.  Its
  bounds come from different places: `j` from the demand and `mapped_size`, `k` from the
  `mapped_chunk_size` of the clients asked, the entries from their replies.
-/
import Hydra.Monitor.ClientChoice
import Hydra.Protocol.StopMessages

set_option autoImplicit false

namespace Hydra.Protocol

open Hydra.Foundation Hydra.Wire Hydra.Monitor

/-! ## The property -/

/-- Totals that agree with the tables: `mapped_size`, `mapped_chunk_size` of every
connection and the connections that are `CONN_MAPPED`. -/
structure Accounted (m : Session) : Prop where
  total : m.mappedSize = m.mapCount
  owner : ∀ i c, m.connMap i = some c → m.conns c ≠ none
  share : ∀ c conn, m.conns c = some conn → conn.mappedChunkSize = m.mapCountOf c
  mapped : ∀ c, m.connsState c = .mapped ↔
    ∃ conn, m.conns c = some conn ∧ 0 < conn.mappedChunkSize

/-- The replies of the clients asked: activity for the chunks they map and no others. -/
def Reports (m : Session) (choice : Choice) (replies : ConnIx → Message) : Prop :=
  ∀ c, choice.sendList c = .evict → ∀ i, (replies c).buf i ≠ 0 ↔ m.connMap i = some c

/-- The victims of an eviction that has `remaining` chunks to find. -/
structure VictimsChosen (m : Session) (remaining : Int) (choice : Choice)
    (replies : ConnIx → Message) (s : StopRun) : Prop where
  count : (s.victims.length : Int) = min remaining m.mappedSize
  distinct : (s.victims.map Prod.snd).Nodup
  owner : ∀ v ∈ s.victims, m.connMap v.2 = some v.1 ∧ choice.sendList v.1 = .evict
  flags : ∀ c, choice.sendList c = .evict → ∃ conn, s.m.conns c = some conn ∧
    (∀ i, conn.sendMsg.flagged i = true ↔ (c, i) ∈ s.victims) ∧
    conn.sendMsg.sizeGb = countWhere conn.sendMsg.flagged
  least : ∀ c i, choice.sendList c = .evict → (replies c).buf i ≠ 0 → (c, i) ∉ s.victims →
    ∀ v ∈ s.victims, ntohll ((replies v.1).buf v.2) ≤ ntohll ((replies c).buf i)

/-! ## The clients -/

/-- A choice that asks enough clients. -/
structure Asks (m : Session) (evictG : Int) (choice : Choice) : Prop where
  size : choice.j = min evictG m.mappedSize
  live : ∀ c, choice.sendList c = .evict → m.conns c ≠ none
  enough : ∃ l : List ChunkIx, l.Nodup ∧ choice.j ≤ l.length ∧
    ∀ i ∈ l, ∃ c, m.connMap i = some c ∧ choice.sendList c = .evict

theorem markOwners_eq_evict {m : Session} {drawn : List ChunkIx} {c : ConnIx} :
    markOwners m drawn c = .evict ↔ ∃ i ∈ drawn, m.connMap i = some c := by
  suffices hfrom : ∀ sendList : ConnIx → SendMark,
      drawn.foldl (markOwner m) sendList c = .evict ↔
        sendList c = .evict ∨ ∃ i ∈ drawn, m.connMap i = some c by
    rw [markOwners, hfrom]
    simp
  induction drawn with
  | nil => simp
  | cons i rest ih =>
      intro sendList
      rw [List.foldl_cons, ih]
      cases hi : m.connMap i with
      | none => simp [markOwner, hi]
      | some d =>
          by_cases hcd : c = d
          · subst hcd
            simp [markOwner, hi]
          · simp [markOwner, hi, hcd, Ne.symm hcd]

theorem Accounted.asks {m : Session} (hok : Accounted m) {fuel : Nat} {random : Nat → Nat}
    {evictG : Int} (hpos : 0 < evictG) {choice : Choice}
    (h : chooseClients fuel random evictG m = some choice) : Asks m evictG choice := by
  unfold chooseClients at h
  split at h
  · obtain rfl := Option.some.inj h
    have hmarked : ∀ c, (if m.connsState c = .mapped then SendMark.evict else .none) = .evict ↔
        m.connsState c = .mapped := fun c => by simp
    refine ⟨?_, fun c hc => ?_, (List.finRange maxMrSizeGb).filter fun i => (m.connMap i).isSome,
      (List.nodup_finRange _).filter _, ?_, fun i hi => ?_⟩
    · show (if m.mappedSize < evictG then m.mappedSize else evictG) = _
      split <;> omega
    · obtain ⟨conn, hconn, -⟩ := (hok.mapped c).mp ((hmarked c).mp hc)
      simp [hconn]
    · have htotal := hok.total
      rw [length_filter_finRange]
      show (if m.mappedSize < evictG then m.mappedSize else evictG) ≤ (m.mapCount : Int)
      split <;> omega
    · obtain ⟨c, hc⟩ := Option.isSome_iff_exists.mp (List.mem_filter.mp hi).2
      obtain ⟨conn, hconn⟩ := Option.ne_none_iff_exists'.mp (hok.owner i c hc)
      refine ⟨c, hc, (hmarked c).mpr ((hok.mapped c).mpr ⟨conn, hconn, ?_⟩)⟩
      have hcount : 0 < m.mapCountOf c := countWhere_pos_iff.mpr ⟨i, decide_eq_true hc⟩
      rw [hok.share c conn hconn]
      omega
  · rename_i hmany
    obtain ⟨drawn, hdraw, rfl⟩ := Option.map_eq_some_iff.mp h
    obtain ⟨hdrawn, hlen⟩ := drawChunks_drawn ⟨List.nodup_nil, by simp⟩ hdraw
    rw [List.length_nil, Nat.zero_add] at hlen
    have hextra : extraChunkNum = 2 := rfl
    refine ⟨?_, fun c hc => ?_, drawn, hdrawn.nodup, ?_, fun i hi => ?_⟩
    · show evictG = _
      omega
    · obtain ⟨i, -, hi⟩ := markOwners_eq_evict.mp hc
      exact hok.owner i c hi
    · show evictG ≤ _
      omega
    · obtain ⟨c, hc⟩ := Option.ne_none_iff_exists'.mp (hdrawn.mapped i hi)
      exact ⟨c, hc, markOwners_eq_evict.mpr ⟨i, hi, hc⟩⟩

/-! ## The gathered list -/

/-- The clients asked, in the order of their slots. -/
def asked (sendList : ConnIx → SendMark) (l : List ConnIx) : List ConnIx :=
  l.filter fun c => decide (sendList c = .evict)

/-- Their entries. -/
def gathered (sendList : ConnIx → SendMark) (replies : ConnIx → Message) (l : List ConnIx) :
    List ChunkActivity :=
  (asked sendList l).flatMap fun c => activityEntries (replies c)

theorem gathered_cons_of_evict {sendList : ConnIx → SendMark} {replies : ConnIx → Message}
    {c : ConnIx} {l : List ConnIx} (hc : sendList c = .evict) :
    gathered sendList replies (c :: l) =
      activityEntries (replies c) ++ gathered sendList replies l := by
  simp [gathered, asked, hc]

theorem gathered_cons_of_not {sendList : ConnIx → SendMark} {replies : ConnIx → Message}
    {c : ConnIx} {l : List ConnIx} (hc : sendList c ≠ .evict) :
    gathered sendList replies (c :: l) = gathered sendList replies l := by
  simp [gathered, asked, hc]

/-- The clients have replied, each with as many entries as its `mapped_chunk_size`. -/
def HaveReplied (m : Session) (sendList : ConnIx → SendMark) (replies : ConnIx → Message)
    (l : List ConnIx) : Prop :=
  ∀ c ∈ l, sendList c = .evict → ∃ conn, m.conns c = some conn ∧ conn.recvMsg = replies c ∧
    conn.mappedChunkSize = (activityEntries (replies c)).length

variable {m : Session} {sendList : ConnIx → SendMark} {replies : ConnIx → Message}
  {l : List ConnIx}

/-- `k` is the number of entries. -/
theorem HaveReplied.totalSelected (h : HaveReplied m sendList replies l) (k : Int) :
    totalSelected m sendList l k = some (k + (gathered sendList replies l).length) := by
  induction l generalizing k with
  | nil => simp [Monitor.totalSelected, gathered, asked]
  | cons c rest ih =>
      have hrest := fun k => ih (fun d hd => h d (List.mem_cons_of_mem c hd)) k
      unfold Monitor.totalSelected
      by_cases hc : sendList c = .evict
      · obtain ⟨conn, hconn, -, hsize⟩ := h c List.mem_cons_self hc
        rw [if_pos hc, hconn, gathered_cons_of_evict hc, List.length_append]
        simp only
        rw [hrest, hsize]
        push_cast
        rw [Int.add_assoc]
      · rw [if_neg hc, hrest, gathered_cons_of_not hc]

theorem HaveReplied.collectActivity (h : HaveReplied m sendList replies l) (hnodup : l.Nodup)
    (entries : List ChunkActivity) :
    ∃ m', collectActivity sendList l (m, entries) =
      some (m', entries ++ gathered sendList replies l) := by
  induction l generalizing m entries with
  | nil => exact ⟨m, by simp [Monitor.collectActivity, gathered, asked]⟩
  | cons c rest ih =>
      obtain ⟨hnew, hrest⟩ := List.nodup_cons.mp hnodup
      unfold Monitor.collectActivity
      by_cases hc : sendList c = .evict
      · obtain ⟨conn, hconn, hrecv, -⟩ := h c List.mem_cons_self hc
        rw [if_pos hc, hconn, gathered_cons_of_evict hc, ← List.append_assoc, ← hrecv]
        refine ih (fun d hd hevict => ?_) hrest _
        -- the buffer that was reset is not one of those still to be read
        obtain ⟨other, hother, hreply⟩ := h d (List.mem_cons_of_mem c hd) hevict
        have hne : d ≠ c := fun heq => hnew (heq ▸ hd)
        exact ⟨other, (putConn_conns_of_ne hne).trans hother, hreply⟩
      · rw [if_neg hc, gathered_cons_of_not hc]
        exact ih (fun d hd => h d (List.mem_cons_of_mem c hd)) hrest entries

theorem mem_activityEntries {msg : Message} {e : ChunkActivity} :
    e ∈ activityEntries msg ↔
      msg.buf e.chunkIndex ≠ 0 ∧ e.activity = ntohll (msg.buf e.chunkIndex) := by
  rw [activityEntries, List.mem_filterMap]
  constructor
  · rintro ⟨i, -, hi⟩
    split at hi
    · rename_i hbuf
      obtain rfl := Option.some.inj hi
      exact ⟨hbuf, rfl⟩
    · cases hi
  · rintro ⟨hbuf, hact⟩
    refine ⟨e.chunkIndex, List.mem_finRange _, ?_⟩
    rw [if_pos hbuf, ← hact]

/-- The chunks of a reply. -/
theorem chunks_activityEntries (msg : Message) :
    (activityEntries msg).map ChunkActivity.chunkIndex =
      (List.finRange maxMrSizeGb).filter fun i => decide (msg.buf i ≠ 0) := by
  rw [activityEntries, List.map_filterMap, ← List.filterMap_eq_filter]
  congr 1
  funext i
  by_cases hi : msg.buf i = 0
  · simp [hi, Option.guard]
  · simp [hi, Option.guard]

variable {choice : Choice}

/-- A reply has as many entries as chunks mapped. -/
theorem Reports.length (h : Reports m choice replies) {c : ConnIx}
    (hc : choice.sendList c = .evict) : (activityEntries (replies c)).length = m.mapCountOf c := by
  rw [← List.length_map ChunkActivity.chunkIndex, chunks_activityEntries, length_filter_finRange]
  refine countWhere_congr fun i => ?_
  simp only [ne_eq, decide_eq_decide]
  exact h c hc i

/-- All entries an eviction gathers. -/
def reported (choice : Choice) (replies : ConnIx → Message) : List ChunkActivity :=
  gathered choice.sendList replies (List.finRange maxClient)

/-- They are those of the chunks of clients asked. -/
theorem mem_reported {e : ChunkActivity} :
    e ∈ reported choice replies ↔
      ∃ c, choice.sendList c = .evict ∧ (replies c).buf e.chunkIndex ≠ 0 ∧
        e.activity = ntohll ((replies c).buf e.chunkIndex) := by
  simp [reported, gathered, asked, mem_activityEntries]

theorem Reports.mem (h : Reports m choice replies) {c : ConnIx} {i : ChunkIx}
    (hc : choice.sendList c = .evict) (hown : m.connMap i = some c) :
    ⟨ntohll ((replies c).buf i), i⟩ ∈ reported choice replies :=
  mem_reported.mpr ⟨c, hc, (h c hc i).mpr hown, rfl⟩

theorem Reports.nodup (h : Reports m choice replies) :
    ((reported choice replies).map ChunkActivity.chunkIndex).Nodup := by
  rw [reported, gathered, List.map_flatMap, List.nodup_flatMap]
  refine ⟨fun c _ => ?_, ?_⟩
  · rw [chunks_activityEntries]
    exact (List.nodup_finRange _).filter _
  · refine List.Pairwise.imp_of_mem ?_ ((List.nodup_finRange maxClient).filter _)
    intro c d hc hd hne i hic hid
    simp only [chunks_activityEntries] at hic hid
    have hmarked : ∀ {b}, b ∈ (List.finRange maxClient).filter
        (fun c => decide (choice.sendList c = .evict)) → choice.sendList b = .evict :=
      fun hb => of_decide_eq_true (List.mem_filter.mp hb).2
    have hown := (h c (hmarked hc) i).mp (of_decide_eq_true (List.mem_filter.mp hic).2)
    have hother := (h d (hmarked hd) i).mp (of_decide_eq_true (List.mem_filter.mp hid).2)
    exact hne (Option.some.inj (hown.symm.trans hother))

/-! ## The selection -/

/-- The selection goes through when every chunk taken has a connection. -/
theorem selectVictims_total {picks : List ChunkIx} {s : StopRun}
    (hpicks : ∀ i ∈ picks, ∃ c, s.m.connMap i = some c ∧ s.m.conns c ≠ none) :
    ∃ s', selectVictims s picks = some s' ∧
      ∀ v ∈ s'.victims, v ∈ s.victims ∨ s.m.connMap v.2 = some v.1 := by
  induction picks generalizing s with
  | nil => exact ⟨s, rfl, fun v hv => .inl hv⟩
  | cons i rest ih =>
      obtain ⟨c, hc, hlive⟩ := hpicks i List.mem_cons_self
      obtain ⟨conn, hconn⟩ := Option.ne_none_iff_exists'.mp hlive
      obtain ⟨u, hu⟩ : ∃ u, selectVictim s i = some u := by
        rw [selectVictim, hc, Option.bind_some, hconn]
        exact ⟨_, rfl⟩
      obtain ⟨hmap, hconns, hvictims⟩ : u.m.connMap = s.m.connMap ∧
          (∀ d, s.m.conns d ≠ none → u.m.conns d ≠ none) ∧ u.victims = s.victims ++ [(c, i)] := by
        rw [selectVictim, hc, Option.bind_some, hconn] at hu
        obtain rfl := Option.some.inj hu
        refine ⟨rfl, fun d hd => ?_, rfl⟩
        by_cases hdc : d = c
        · subst hdc
          simp [Session.putConn]
        · simpa [Session.putConn, hdc] using hd
      obtain ⟨s', hs', hfinal⟩ := ih (s := u) fun k hk => by
        obtain ⟨d, hd, hlive⟩ := hpicks k (List.mem_cons_of_mem i hk)
        exact ⟨d, by rw [hmap, hd], hconns d hlive⟩
      refine ⟨s', by rw [selectVictims, hu, Option.bind_some, hs'], fun v hv => ?_⟩
      rcases hfinal v hv with hv | hv
      · rw [hvictims] at hv
        rcases List.mem_append.mp hv with hv | hv
        · exact .inl hv
        · rw [List.mem_singleton.mp hv]
          exact .inr hc
      · rw [hmap] at hv
        exact .inr hv

/-- The order the activities are exchanged by. -/
theorem orders_activity :
    Orders (fun x y : ChunkActivity => decide (y.activity < x.activity)) where
  asymm := by
    intro x y hlt
    exact decide_eq_false (UInt64.not_lt.mpr (UInt64.le_of_lt (of_decide_eq_true hlt)))
  trans := by
    intro x y z hxy hyz
    have hxy := UInt64.not_lt.mp (of_decide_eq_false hxy)
    have hyz := UInt64.not_lt.mp (of_decide_eq_false hyz)
    exact decide_eq_false (UInt64.not_lt.mpr (UInt64.le_trans hxy hyz))

/-- The chunks taken: `j` different ones, none more active than one left. -/
theorem victimOrder_spec {memory : List ChunkActivity} {j : Nat}
    (hnodup : (memory.map ChunkActivity.chunkIndex).Nodup) (hj : j ≤ memory.length) :
    (victimOrder j memory).Nodup ∧ (victimOrder j memory).length = j ∧
      (∀ i ∈ victimOrder j memory, ∃ e ∈ memory, e.chunkIndex = i) ∧
      ∀ a ∈ memory, ∀ b ∈ memory, a.chunkIndex ∈ victimOrder j memory →
        b.chunkIndex ∉ victimOrder j memory → a.activity ≤ b.activity := by
  have hperm :=
    sortFirst_perm (fun x y : ChunkActivity => decide (y.activity < x.activity)) j memory
  have hmem : ∀ {e}, e ∈ (sortFirst (fun x y => decide (y.activity < x.activity)) j memory).take j →
      e ∈ memory := fun he => hperm.mem_iff.mp (List.mem_of_mem_take he)
  refine ⟨?_, ?_, fun i hi => ?_, fun a ha b hb htaken hleft => ?_⟩
  · refine List.Nodup.sublist ?_ ((hperm.map ChunkActivity.chunkIndex).nodup_iff.mpr hnodup)
    exact (List.take_sublist j _).map _
  · rw [victimOrder, List.length_map, List.length_take, hperm.length_eq, Nat.min_eq_left hj]
  · obtain ⟨e, he, rfl⟩ := List.mem_map.mp hi
    exact ⟨e, hmem he, rfl⟩
  · obtain ⟨e, he, hea⟩ := List.mem_map.mp htaken
    obtain rfl := List.inj_on_of_nodup_map hnodup (hmem he) ha hea
    have hdrop : b ∈ (sortFirst (fun x y => decide (y.activity < x.activity)) j memory).drop j := by
      have hb := hperm.mem_iff.mpr hb
      rw [← List.take_append_drop j (sortFirst _ j memory)] at hb
      rcases List.mem_append.mp hb with hb | hb
      · exact absurd (List.mem_map_of_mem hb) hleft
      · exact hb
    have hnot := (orders_activity.sortFirst_front j memory).2 e he b hdrop
    exact UInt64.not_lt.mp (of_decide_eq_false hnot)

/-! ## From the choice to the victims -/

theorem Accounted.replied (hok : Accounted m) (hreports : Reports m choice replies)
    (hlive : ∀ c, choice.sendList c = .evict → m.conns c ≠ none) :
    HaveReplied (receiveActivity choice replies (sendEvict choice m)) choice.sendList replies
      (List.finRange maxClient) := by
  intro c _ hc
  obtain ⟨conn, hconn⟩ := Option.ne_none_iff_exists'.mp (hlive c hc)
  refine ⟨{ conn with
      recvMsg := replies c
      sendMsg :=
        { conn.sendMsg with type := .evict, sizeGb := choice.j, rkey := fun _ => 0 } }, ?_, rfl, ?_⟩
  · simp [receiveActivity, sendEvict, hc, hconn]
  · rw [hreports.length hc]
    exact hok.share c conn hconn

/-- The list is filled to its last entry. -/
theorem Accounted.evictCollect (hok : Accounted m) (hreports : Reports m choice replies)
    (hlive : ∀ c, choice.sendList c = .evict → m.conns c ≠ none) :
    ∃ m₁, evictCollect (receiveActivity choice replies (sendEvict choice m)) choice.sendList =
      some (m₁, ⟨(reported choice replies).length, reported choice replies⟩) := by
  have hreplied := hok.replied hreports hlive
  obtain ⟨m₁, hcollected⟩ := hreplied.collectActivity (List.nodup_finRange _) []
  refine ⟨m₁, ?_⟩
  rw [Monitor.evictCollect, hreplied.totalSelected, hcollected]
  simp [reported]

/-- Enough clients are asked for `j` entries. -/
theorem Asks.room {evictG : Int} (hasks : Asks m evictG choice)
    (hreports : Reports m choice replies) :
    choice.j.toNat ≤ (reported choice replies).length := by
  obtain ⟨l, hnodup, hle, hl⟩ := hasks.enough
  have hsub : l.length ≤ ((reported choice replies).map ChunkActivity.chunkIndex).length := by
    refine (hnodup.subperm fun i hi => ?_).length_le
    obtain ⟨c, hown, hc⟩ := hl i hi
    exact List.mem_map.mpr ⟨_, hreports.mem hc hown, rfl⟩
  rw [List.length_map] at hsub
  omega

/-- The victims of a choice that asks enough. -/
theorem Accounted.evictFinish (hok : Accounted m) {evictG : Int} (hpos : 0 < evictG)
    (hasks : Asks m evictG choice) (hreports : Reports m choice replies)
    (garbage : Nat → ChunkActivity) :
    ∃ s, evictFinish replies garbage choice m = some s ∧
      VictimsChosen m evictG choice replies s := by
  obtain ⟨m₁, hcollect⟩ := hok.evictCollect hreports hasks.live
  have hstart := selecting_start hcollect
  have hroom := hasks.room hreports
  obtain ⟨hdistinct, hlen, htaken, hleast⟩ := victimOrder_spec hreports.nodup hroom
  have hpicks : ∀ i ∈ victimOrder choice.j.toNat (reported choice replies),
      ∃ c, m.connMap i = some c ∧ choice.sendList c = .evict := by
    intro i hi
    obtain ⟨e, he, rfl⟩ := htaken i hi
    obtain ⟨c, hc, hbuf, -⟩ := mem_reported.mp he
    exact ⟨c, (hreports c hc e.chunkIndex).mp hbuf, hc⟩
  obtain ⟨s, hs, howner⟩ := selectVictims_total (s := stopRunStart m₁ choice.sendList)
    fun i hi => by
      obtain ⟨c, hown, hc⟩ := hpicks i hi
      obtain ⟨conn, hconn, -⟩ := hstart.buf c hc
      exact ⟨c, (congrFun hstart.bound i).trans hown, by rw [hconn]; exact Option.some_ne_none _⟩
  obtain ⟨hselecting, hvictims, -⟩ := hstart.selectVictims (fun i hi c hc => by
    obtain ⟨d, hown, hd⟩ := hpicks i hi
    obtain rfl := Option.some.inj (hown.symm.trans hc)
    exact hd) hs
  rw [stopRunStart, List.map_nil, List.nil_append] at hvictims
  have howns : ∀ v ∈ s.victims, m.connMap v.2 = some v.1 ∧ choice.sendList v.1 = .evict := by
    intro v hv
    have hown : m.connMap v.2 = some v.1 := by
      rcases howner v hv with hv | hv
      · cases hv
      · exact (congrFun hstart.bound v.2).symm.trans hv
    obtain ⟨c, hown', hc⟩ := hpicks v.2 (hvictims ▸ List.mem_map_of_mem hv)
    obtain rfl := Option.some.inj (hown.symm.trans hown')
    exact ⟨hown, hc⟩
  refine ⟨s, ?_, ⟨?_, hvictims ▸ hdistinct, howns, fun c hc => ?_, ?_⟩⟩
  · have hmemory : EvictList.memory ⟨(reported choice replies).length, reported choice replies⟩
        garbage = some (reported choice replies) := by simp [EvictList.memory]
    rw [Monitor.evictFinish, hcollect, Option.bind_some, hmemory, Option.bind_some, evictSelect,
      if_pos hroom, hs]
  · have hsize := hasks.size
    have htotal := hok.total
    rw [← List.length_map Prod.snd, hvictims, hlen]
    omega
  · obtain ⟨conn, hconn, hflags, hsize⟩ := hselecting.buf c hc
    refine ⟨conn, hconn, hflags, ?_⟩
    rw [hsize, countWhere_flagged (List.Nodup.of_map Prod.snd (hvictims ▸ hdistinct)) hflags]
  · intro c i hc hbuf hnot v hv
    obtain ⟨hown, hd⟩ := howns v hv
    have hreported := (hreports c hc i).mp hbuf
    refine hleast _ (hreports.mem hd hown) _ (hreports.mem hc hreported)
      (hvictims ▸ List.mem_map_of_mem hv) fun hmem => ?_
    obtain ⟨⟨e, k⟩, he, hk⟩ := List.mem_map.mp (hvictims ▸ hmem)
    obtain rfl : k = i := hk
    obtain rfl := Option.some.inj ((howns _ he).1.symm.trans hreported)
    exact hnot he

/-! ## The eviction -/

/-- An eviction frees unmapped chunks first.  What is left of the demand, up to the number
of mapped chunks, is taken from clients that were sent `EVICT`: different chunks, flagged
and counted in the buffer of their owner, and none more active than a reported chunk that
stays. -/
theorem victim_selection {m : Session} (hok : Accounted m) {stopG : Int} (hstop : 1 ≤ stopG)
    (random : Nat → Nat) :
    (stopG ≤ m.freeCount → ∀ fuel,
      evictBegin fuel random stopG m = some ((evictFreeUnmapped stopG m).1, none)) ∧
    (m.freeCount < stopG → ∃ choice,
      (∀ fuel, maxMrSizeGb ≤ fuel →
        evictBegin fuel random stopG m = some ((evictFreeUnmapped stopG m).1, some choice)) ∧
      ∀ replies garbage, Reports m choice replies →
        ∃ s, evictFinish replies garbage choice (evictFreeUnmapped stopG m).1 = some s ∧
          VictimsChosen m (stopG - m.freeCount) choice replies s) := by
  have hfreed := evictFreeUnmapped_freed hstop m
  refine ⟨fun henough fuel => ?_, fun hleft => ?_⟩
  · rw [evictBegin, if_pos (by omega)]
  obtain ⟨hconns, hstates, hmap, hsize⟩ := evictFreeUnmapped_mapped stopG m
  have hfreed : (evictFreeUnmapped stopG m).2 = m.freeCount := by omega
  have hok' : Accounted (evictFreeUnmapped stopG m).1 := by
    refine ⟨?_, ?_, ?_, ?_⟩
    · rw [hsize, Session.mapCount, hmap]
      exact hok.total
    · rw [hmap, hconns]
      exact hok.owner
    · rw [hconns]
      intro c conn hconn
      rw [Session.mapCountOf, hmap]
      exact hok.share c conn hconn
    · rw [hconns, hstates]
      exact hok.mapped
  obtain ⟨choice, hchoice⟩ := chooseClients_total random (stopG - m.freeCount) hok'.total.le
  refine ⟨choice, fun fuel hfuel => ?_, fun replies garbage hreports => ?_⟩
  · rw [evictBegin, if_neg (by omega), hfreed, hchoice fuel hfuel, Option.map_some]
  · have hasks := hok'.asks (by omega) (hchoice maxMrSizeGb le_rfl)
    obtain ⟨s, hs, hvictims⟩ := hok'.evictFinish (by omega) hasks
      (fun c hc i => by rw [hmap]; exact hreports c hc i) garbage
    refine ⟨s, hs, ⟨?_, hvictims.distinct, ?_, hvictims.flags, hvictims.least⟩⟩
    · rw [hvictims.count, hsize]
    · rw [← hmap]
      exact hvictims.owner

/-- Three chunks, all bound to one client. -/
def oneClient : Session :=
  { rdmaSessionInit 13 with
    conns := fun c =>
      if c = 0 then
        some
          { connIndex := 0
            sessChunkMap := fun i => if i.val < 3 then some i else none
            mappedChunkSize := 3
            evictSem := 0
            stopSem := 0
            sendMsg := .plain .infoSingle 0
            recvMsg := .plain .bindSingle 0 }
      else none
    connsState := fun c => if c = 0 then .mapped else .idle
    connNum := 1
    mappedSize := 3
    connMap := fun i => if i.val < 3 then some 0 else none }

/-- The higher its number, the less active a chunk. -/
def oneReply (c : ConnIx) : Message :=
  { Message.plain .activity 0 with
    buf := fun i => if oneClient.connMap i = some c then htonll (32 - UInt64.ofNat i.val) else 0 }

theorem accounted_oneClient : Accounted oneClient := by
  refine ⟨by decide, fun i c hi => ?_, fun c conn hc => ?_, fun c => ?_⟩
  · by_cases hlt : i.val < 3
    · obtain rfl : 0 = c := by simpa [oneClient, hlt] using hi
      simp [oneClient]
    · simp [oneClient, hlt] at hi
  · by_cases h0 : c = 0
    · subst h0
      obtain rfl := Option.some.inj hc
      decide
    · simp [oneClient, h0] at hc
  · by_cases h0 : c = 0
    · simp [oneClient, h0]
    · simp [oneClient, h0]

theorem victim_selection_oneClient :
    Accounted oneClient ∧ ∃ choice s,
      evictFinish oneReply (fun _ => ⟨0, 0⟩) choice (evictFreeUnmapped 1 oneClient).1 = some s ∧
        VictimsChosen oneClient 1 choice oneReply s := by
  have hfree : oneClient.freeCount = 0 := by decide
  obtain ⟨choice, -, hvictims⟩ :=
    (victim_selection accounted_oneClient (le_refl 1) (fun _ => 0)).2 (by rw [hfree]; decide)
  rw [hfree] at hvictims
  have hword : ∀ i : ChunkIx, htonll (32 - UInt64.ofNat i.val) ≠ 0 := by decide
  refine ⟨accounted_oneClient, choice, hvictims oneReply _ fun c _ i => ?_⟩
  by_cases hi : oneClient.connMap i = some c
  · simp [oneReply, hi, hword i]
  · simp [oneReply, hi]

end Hydra.Protocol
