/-
  Manager/Disconnect.lean --- the slab map while a server is lost.

  Source: `IS_disconnect_handler` of `resilience_manager/is_main.c`, its two loops over
  `cb_chunk_map`, and the part of `IS_request` that reads the map.

  The first loop takes the chunks of the server out of `cb_index_map`; the second, after
  the requests in flight have been sent again, forgets where they were.  In between the
  map is half updated, and requests go through it.
-/
import Hydra.Manager.SlabMap

set_option autoImplicit false

namespace Hydra.Manager

open Hydra.Foundation Hydra.Wire

/-! ## The two loops -/

/-- The handler up to the requests in flight, for a server with chunks. -/
def disallowServer (b : Nat) (s : Session) : Session :=
  Session.putCb
    { s.setState b .fail with
      cbIndexMap := clearPicked (s.cb b).remoteChunk.chunkMap none (List.finRange maxMrSizeGb)
        s.cbIndexMap }
    b { s.cb b with remoteChunk := (s.cb b).remoteChunk.disallow }

/-- One turn of the last loop.  Where the unmapped list ends is not looked at. -/
def forgetChunk (b : Nat) (s : Session) (i : ChunkIx) : Session :=
  match (s.cb b).remoteChunk.chunkMap i with
  | none => s
  | some c =>
      Session.putCb
        { s with
          chunkMapCbChunk := Function.update s.chunkMapCbChunk c none
          freeChunkIndex := s.freeChunkIndex + 1
          unmappedChunkList :=
            Function.update s.unmappedChunkList (s.freeChunkIndex + 1).toNat c }
        b
        { s.cb b with
          remoteChunk :=
            { (s.cb b).remoteChunk with
              chunkMap := Function.update (s.cb b).remoteChunk.chunkMap i none } }

/-- The last loop. -/
def forgetChunks (b : Nat) (s : Session) : Session :=
  (List.finRange maxMrSizeGb).foldl (forgetChunk b) s

/-! ## The property -/

/-- `cb_index_map`, `chunk_map_cb_chunk` and the servers' `chunk_map` say the same. -/
structure InverseMaps (cfg : Config) (s : Session) : Prop where
  entry : ∀ b i c, (s.cb b).remoteChunk.chunkMap i = some c →
    c < cfg.disksizeG ∧ s.cbIndexMap c = some b ∧ s.chunkMapCbChunk c = some i
  mapped : ∀ c b, s.cbIndexMap c = some b → c < cfg.disksizeG ∧
    ∃ i, s.chunkMapCbChunk c = some i ∧ (s.cb b).remoteChunk.chunkMap i = some c
  chunk : ∀ c i, s.chunkMapCbChunk c = some i → s.cbIndexMap c ≠ none

section Loops

variable {cfg : Config} {b : Nat} {s t : Session}

@[simp] theorem disallowServer_cb_self (b : Nat) (s : Session) :
    (disallowServer b s).cb b = { s.cb b with remoteChunk := (s.cb b).remoteChunk.disallow } :=
  Function.update_self ..

/-- The last loop has gone over the entries `l`. -/
structure Forgotten (b : Nat) (l : List ChunkIx) (s t : Session) : Prop where
  chunkMap : ∀ i, (t.cb b).remoteChunk.chunkMap i =
    if i ∈ l then none else (s.cb b).remoteChunk.chunkMap i
  chunk : ∀ c, t.chunkMapCbChunk c =
    if ∃ i ∈ l, (s.cb b).remoteChunk.chunkMap i = some c then none else s.chunkMapCbChunk c
  remoteMapped : (t.cb b).remoteChunk.remoteMapped = (s.cb b).remoteChunk.remoteMapped
  chunkSizeG : (t.cb b).remoteChunk.chunkSizeG = (s.cb b).remoteChunk.chunkSizeG
  servers : ∀ d, d ≠ b → t.cb d = s.cb d
  index : t.cbIndexMap = s.cbIndexMap
  states : t.cbStateList = s.cbStateList

theorem forgotten_turn (b : Nat) (s : Session) (i : ChunkIx) :
    Forgotten b [i] s (forgetChunk b s i) := by
  unfold forgetChunk
  split
  · rename_i hentry
    refine ⟨fun k => ?_, fun c => ?_, rfl, rfl, fun _ _ => rfl, rfl, rfl⟩
    · by_cases hk : k = i
      · simp [hk, hentry]
      · simp [hk]
    · simp [hentry]
  · rename_i e hentry
    refine ⟨fun k => ?_, fun c => ?_, ?_, ?_, fun d hd => Function.update_of_ne hd _ _, rfl, rfl⟩
    · by_cases hk : k = i
      · simp [Session.putCb, hk]
      · simp [Session.putCb, hk]
    · by_cases hc : c = e
      · simp [Session.putCb, hentry, hc]
      · simp [Session.putCb, hentry, hc, Ne.symm hc]
    · simp [Session.putCb]
    · simp [Session.putCb]

theorem Forgotten.trans {l l' : List ChunkIx} {u : Session} (h : Forgotten b l s t)
    (h' : Forgotten b l' t u) : Forgotten b (l ++ l') s u := by
  refine ⟨fun i => ?_, fun c => ?_, h'.remoteMapped.trans h.remoteMapped,
    h'.chunkSizeG.trans h.chunkSizeG, fun d hd => (h'.servers d hd).trans (h.servers d hd),
    h'.index.trans h.index, h'.states.trans h.states⟩
  · rw [h'.chunkMap, h.chunkMap]
    by_cases hi : i ∈ l
    · simp [hi]
    · simp [hi]
  · rw [h'.chunk, h.chunk]
    simp only [h.chunkMap]
    by_cases hl : ∃ i ∈ l, (s.cb b).remoteChunk.chunkMap i = some c
    · have hboth : ∃ i ∈ l ++ l', (s.cb b).remoteChunk.chunkMap i = some c := by
        obtain ⟨i, hi, hentry⟩ := hl
        exact ⟨i, List.mem_append_left l' hi, hentry⟩
      rw [if_pos hl, ite_self, if_pos hboth]
    · have hlater : (∃ i ∈ l', (if i ∈ l then none else (s.cb b).remoteChunk.chunkMap i) = some c) ↔
          ∃ i ∈ l ++ l', (s.cb b).remoteChunk.chunkMap i = some c := by
        constructor
        · rintro ⟨i, hi, hentry⟩
          split at hentry
          · cases hentry
          · exact ⟨i, List.mem_append_right l hi, hentry⟩
        · rintro ⟨i, hi, hentry⟩
          have hnot : i ∉ l := fun hmem => hl ⟨i, hmem, hentry⟩
          exact ⟨i, (List.mem_append.mp hi).resolve_left hnot, by rw [if_neg hnot, hentry]⟩
      rw [if_neg hl, if_congr hlater rfl rfl]

theorem forgotten_foldl (b : Nat) (l : List ChunkIx) (s : Session) :
    Forgotten b l s (l.foldl (forgetChunk b) s) := by
  induction l generalizing s with
  | nil => exact ⟨by simp, by simp, rfl, rfl, fun _ _ => rfl, rfl, rfl⟩
  | cons i rest ih => exact (forgotten_turn b s i).trans (ih (forgetChunk b s i))

/-- The map half updated: the chunks of the lost server are out of `cb_index_map`. -/
theorem InverseMaps.disallowServer_cbIndexMap (h : InverseMaps cfg s) (c : Nat) :
    (disallowServer b s).cbIndexMap c =
      if s.cbIndexMap c = some b then none else s.cbIndexMap c := by
  show clearPicked (s.cb b).remoteChunk.chunkMap none (List.finRange maxMrSizeGb) s.cbIndexMap c = _
  rw [clearPicked_finRange]
  refine if_congr ⟨?_, fun hc => ?_⟩ rfl rfl
  · rintro ⟨i, hi⟩
    exact (h.entry b i c hi).2.1
  · obtain ⟨-, i, -, hi⟩ := h.mapped c b hc
    exact ⟨i, hi⟩

/-- The tables when both loops are done. -/
structure Disconnected (b : Nat) (s t : Session) : Prop where
  index : ∀ c, t.cbIndexMap c = if s.cbIndexMap c = some b then none else s.cbIndexMap c
  chunk : ∀ c, t.chunkMapCbChunk c =
    if s.cbIndexMap c = some b then none else s.chunkMapCbChunk c
  chunkMap : ∀ i, (t.cb b).remoteChunk.chunkMap i = none
  remoteMapped : ∀ i, (t.cb b).remoteChunk.remoteMapped i =
    (((s.cb b).remoteChunk.chunkMap i).isNone && (s.cb b).remoteChunk.remoteMapped i)
  chunkSizeG : (t.cb b).remoteChunk.chunkSizeG = 0
  servers : ∀ d, d ≠ b → t.cb d = s.cb d ∧ t.cbStateList d = s.cbStateList d
  state : t.cbStateList b = .fail

theorem InverseMaps.disconnected (h : InverseMaps cfg s) (b : Nat) :
    Disconnected b s (forgetChunks b (disallowServer b s)) := by
  have hlast := forgotten_foldl b (List.finRange maxMrSizeGb) (disallowServer b s)
  refine ⟨fun c => ?_, fun c => ?_, fun i => ?_, fun i => ?_, ?_, fun d hd => ⟨?_, ?_⟩, ?_⟩
  · rw [forgetChunks, hlast.index, h.disallowServer_cbIndexMap]
  · rw [forgetChunks, hlast.chunk, disallowServer_cb_self]
    refine if_congr ⟨?_, fun hc => ?_⟩ rfl rfl
    · rintro ⟨i, -, hi⟩
      exact (h.entry b i c hi).2.1
    · obtain ⟨-, i, -, hi⟩ := h.mapped c b hc
      exact ⟨i, List.mem_finRange i, hi⟩
  · rw [forgetChunks, hlast.chunkMap, if_pos (List.mem_finRange i)]
  · rw [forgetChunks, hlast.remoteMapped, disallowServer_cb_self]
    cases hi : (s.cb b).remoteChunk.chunkMap i with
    | none => simp [RemoteChunkList.disallow, hi]
    | some c => simp [RemoteChunkList.disallow, hi]
  · rw [forgetChunks, hlast.chunkSizeG, disallowServer_cb_self]
    rfl
  · rw [forgetChunks, hlast.servers d hd]
    exact Function.update_of_ne hd _ _
  · rw [forgetChunks, hlast.states]
    exact Function.update_of_ne hd _ _
  · rw [forgetChunks, hlast.states]
    exact Function.update_self ..

/-- Where the checked loop of the rounds gets through, it is this loop. -/
theorem releaseServer_eq {l : List ChunkIx} (h : releaseServer cfg b l s = some t) :
    t = l.foldl (forgetChunk b) s := by
  induction l generalizing s with
  | nil => exact (Option.some.inj h).symm
  | cons i rest ih =>
      rw [List.foldl_cons]
      unfold releaseServer at h
      split at h
      · rename_i hentry
        have hsame : forgetChunk b s i = s := by rw [forgetChunk, hentry]
        rw [hsame]
        exact ih h
      · rename_i c hentry
        obtain ⟨u, hu, hrest⟩ := Option.bind_eq_some_iff.mp h
        obtain ⟨c', hc', hpush⟩ := Option.bind_eq_some_iff.mp hu
        obtain ⟨k, hk, rfl⟩ := Option.map_eq_some_iff.mp hpush
        obtain rfl : c' = c := by exact_mod_cast (chunkIndex?_lt hc').2
        obtain rfl : k = (s.freeChunkIndex + 1).toNat := by
          have hk := (chunkIndex?_lt hk).2
          omega
        rw [ih hrest, forgetChunk, hentry]

end Loops

end Hydra.Manager
