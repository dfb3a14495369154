/-
  DataPath/Queues.lean --- remote memory behind the queue pairs.

  The operations of one queue pair are executed in the order they were posted, so
  what a cell holds once they are done depends on the writes still waiting.  The
  lemmas say how the waiting operations of each server move with every step.
-/
import Hydra.DataPath.Completion

set_option autoImplicit false

namespace Hydra.DataPath

open Hydra.Foundation Hydra.Wire Hydra.Manager

variable {Data : Type} {B : Build Data} {s s' : Path Data} {ok : Nat → Bool}

/-- The operations posted to a server and not yet finished, oldest first. -/
def queue (s : Path Data) (b : Nat) : List Op := s.wire.filter fun o => decide (o.server = b)

/-- Those the adapter has not executed. -/
def waiting (s : Path Data) (b : Nat) : List Op := (queue s b).drop (s.executed b)

/-- Those it has. -/
def fetched (s : Path Data) (b : Nat) : List Op := (queue s b).take (s.executed b)

/-- What an operation writes, and where. -/
def written (s : Path Data) (o : Op) : Option ((Nat × ChunkIx × Nat) × Data) :=
  if o.write then some (o.cell, (s.ctx o.ctx).rdmaBuf) else none

/-- The memory of the servers after some operations. -/
def memAfter (s : Path Data) (l : List Op) : Nat × ChunkIx × Nat → Data :=
  afterWrites (written s) l s.mem

/-- The adapter has executed no more than was posted. -/
def ExecutedPosted (s : Path Data) : Prop := ∀ b, s.executed b ≤ (queue s b).length

theorem mem_queue {b : Nat} {o : Op} : o ∈ queue s b ↔ o ∈ s.wire ∧ o.server = b := by
  simp [queue]

theorem mem_of_mem_waiting {b : Nat} {o : Op} (ho : o ∈ waiting s b) :
    o ∈ s.wire ∧ o.server = b :=
  mem_queue.mp (List.mem_of_mem_drop ho)

theorem mem_of_mem_fetched {b : Nat} {o : Op} (ho : o ∈ fetched s b) :
    o ∈ s.wire ∧ o.server = b :=
  mem_queue.mp (List.mem_of_mem_take ho)

theorem written_congr {o : Op} (hctx : s'.ctx o.ctx = s.ctx o.ctx) :
    written s' o = written s o := by
  simp [written, hctx]

theorem memAfter_congr {l : List Op} (hmem : s'.mem = s.mem)
    (hctx : ∀ o ∈ l, s'.ctx o.ctx = s.ctx o.ctx) : memAfter s' l = memAfter s l := by
  rw [memAfter, memAfter, hmem]
  exact afterWrites_congr fun o ho => written_congr (hctx o ho)

theorem memAfter_append {l l' : List Op} :
    memAfter s (l ++ l') = afterWrites (written s) l' (memAfter s l) :=
  afterWrites_append

/-- Operations that are not writes leave the memory alone. -/
theorem memAfter_append_reads {l l' : List Op} (hreads : ∀ o ∈ l', o.write = false) :
    memAfter s (l ++ l') = memAfter s l := by
  rw [memAfter_append]
  funext k
  refine afterWrites_of_ne fun o ho e he => ?_
  rw [written, if_neg (by simp [hreads o ho])] at he
  cases he

/-! ## Issuing -/

/-- The wire grows at its end, and what was on it sees the same contexts. -/
structure Grows (s s' : Path Data) (new : List Op) : Prop where
  wire : s'.wire = s.wire ++ new
  executed : s'.executed = s.executed
  mem : s'.mem = s.mem
  ctx : ∀ o ∈ s.wire, s'.ctx o.ctx = s.ctx o.ctx

namespace Grows

variable {new : List Op}

theorem queue_eq (hg : Grows s s' new) (b : Nat) :
    queue s' b = queue s b ++ new.filter fun o => decide (o.server = b) := by
  rw [queue, hg.wire, List.filter_append]
  rfl

theorem waiting_eq (hg : Grows s s' new) (hexec : ExecutedPosted s) (b : Nat) :
    waiting s' b = waiting s b ++ new.filter fun o => decide (o.server = b) := by
  rw [waiting, hg.queue_eq, hg.executed, List.drop_append_of_le_length (hexec b)]
  rfl

theorem fetched_eq (hg : Grows s s' new) (hexec : ExecutedPosted s) (b : Nat) :
    fetched s' b = fetched s b := by
  rw [fetched, hg.queue_eq, hg.executed, List.take_append_of_le_length (hexec b)]
  rfl

theorem executedPosted (hg : Grows s s' new) (hexec : ExecutedPosted s) : ExecutedPosted s' := by
  intro b
  rw [hg.queue_eq, hg.executed, List.length_append]
  exact Nat.le_add_right_of_le (hexec b)

theorem memAfter_eq (hg : Grows s s' new) {l : List Op} (hl : ∀ o ∈ l, o ∈ s.wire) :
    memAfter s' l = memAfter s l :=
  memAfter_congr hg.mem fun o ho => hg.ctx o (hl o ho)

end Grows

/-! ## Completions -/

namespace Polled

variable {b : Nat} {o : Op} {pre post : List Op}

theorem queue_self (hp : Polled B s s' b o pre post) : queue s b = o :: queue s' b := by
  have hpre : (pre.filter fun o => decide (o.server = b)) = [] := by
    rw [List.filter_eq_nil_iff]
    intro o' ho'
    simpa using hp.first o' ho'
  rw [queue, queue, hp.wire, hp.wire', List.filter_append, List.filter_append, hpre,
    List.filter_cons_of_pos (by simp [hp.server])]
  rfl

theorem queue_of_ne (hp : Polled B s s' b o pre post) {b' : Nat} (hne : b' ≠ b) :
    queue s' b' = queue s b' := by
  have hserver : o.server ≠ b' := by
    rw [hp.server]
    exact Ne.symm hne
  rw [queue, queue, hp.wire, hp.wire', List.filter_append, List.filter_append,
    List.filter_cons_of_neg (by simpa using hserver)]

theorem waiting_eq (hp : Polled B s s' b o pre post) (b' : Nat) : waiting s' b' = waiting s b' := by
  by_cases hb : b' = b
  · subst hb
    obtain ⟨n, hn⟩ := Nat.exists_eq_succ_of_ne_zero hp.executed.ne'
    rw [waiting, waiting, hp.queue_self, hp.executed', Function.update_self, hn]
    rfl
  · rw [waiting, waiting, hp.queue_of_ne hb, hp.executed', Function.update_of_ne hb]

theorem mem_fetched (hp : Polled B s s' b o pre post) : o ∈ fetched s b := by
  obtain ⟨n, hn⟩ := Nat.exists_eq_succ_of_ne_zero hp.executed.ne'
  rw [fetched, hp.queue_self, hn]
  exact List.mem_cons_self

theorem fetched_subset (hp : Polled B s s' b o pre post) {b' : Nat} {o' : Op}
    (ho' : o' ∈ fetched s' b') : o' ∈ fetched s b' := by
  by_cases hb : b' = b
  · subst hb
    obtain ⟨n, hn⟩ := Nat.exists_eq_succ_of_ne_zero hp.executed.ne'
    rw [fetched, hp.executed', Function.update_self, hn] at ho'
    rw [fetched, hp.queue_self, hn]
    exact List.mem_cons_of_mem o ho'
  · rw [fetched, hp.queue_of_ne hb, hp.executed', Function.update_of_ne hb] at ho'
    exact ho'

theorem executedPosted (hp : Polled B s s' b o pre post) (hexec : ExecutedPosted s) :
    ExecutedPosted s' := by
  intro b'
  have hle := hexec b'
  by_cases hb : b' = b
  · subst hb
    rw [hp.queue_self, List.length_cons] at hle
    rw [hp.executed', Function.update_self]
    omega
  · rw [hp.queue_of_ne hb, hp.executed', Function.update_of_ne hb]
    exact hle

theorem memAfter_eq (hp : Polled B s s' b o pre post) (h : Orderly ok s) {l : List Op}
    (hl : ∀ o' ∈ l, o' ∈ s'.wire) : memAfter s' l = memAfter s l :=
  memAfter_congr hp.finished.same.2.2.2.1 fun o' ho' =>
    hp.ctx_eq (hp.ctx_ne h (hl o' ho'))

end Polled

/-! ## The adapter -/

/-- One operation of `b` is executed. -/
structure Executed (s s' : Path Data) (b : Nat) (o : Op) : Prop where
  waiting : waiting s b = o :: waiting s' b
  fetched : fetched s' b = fetched s b ++ [o]
  others : ∀ b', b' ≠ b → DataPath.waiting s' b' = DataPath.waiting s b' ∧
    DataPath.fetched s' b' = DataPath.fetched s b'
  posted : ExecutedPosted s → ExecutedPosted s'
  effect : (o.write = true ∧ s'.ctx = s.ctx ∧
      s'.mem = Function.update s.mem o.cell (s.ctx o.ctx).rdmaBuf) ∨
    (o.write = false ∧ s'.mem = s.mem ∧
      s'.ctx = Function.update s.ctx o.ctx { s.ctx o.ctx with rdmaBuf := s.mem o.cell })

theorem execute_executed {b : Nat} (hexec : execute s b = some s') : ∃ o, Executed s s' b o := by
  obtain ⟨o, ho, hs'⟩ := execute_cases hexec
  have hwire := (execute_same hexec).2.1
  have hqueue : ∀ b', queue s' b' = queue s b' := fun b' => by rw [queue, queue, hwire]
  have hexecuted : s'.executed = Function.update s.executed b (s.executed b + 1) := by
    rw [hs']
    split <;> rfl
  have hnext : (queue s b)[s.executed b]? = some o := ho
  obtain ⟨hlt, hget⟩ := List.getElem?_eq_some_iff.mp hnext
  refine ⟨o, ?_, ?_, ?_, ?_, ?_⟩
  · rw [waiting, waiting, hqueue, hexecuted, Function.update_self, List.drop_eq_getElem_cons hlt,
      hget]
  · rw [fetched, fetched, hqueue, hexecuted, Function.update_self, List.take_add_one, hnext]
    rfl
  · intro b' hne
    rw [waiting, waiting, fetched, fetched, hqueue, hexecuted, Function.update_of_ne hne]
    exact ⟨rfl, rfl⟩
  · intro hposted b'
    rw [hqueue, hexecuted]
    by_cases hb : b' = b
    · rw [hb, Function.update_self]
      exact hlt
    · rw [Function.update_of_ne hb]
      exact hposted b'
  · rw [hs']
    split
    · rename_i hwrite
      exact Or.inl ⟨hwrite, rfl, rfl⟩
    · rename_i hwrite
      exact Or.inr ⟨by simpa using hwrite, rfl, rfl⟩

namespace Executed

variable {b : Nat} {o : Op}

theorem mem (he : Executed s s' b o) : o ∈ s.wire ∧ o.server = b :=
  mem_of_mem_waiting (by rw [he.waiting]; exact List.mem_cons_self)

/-- Other operations see their contexts as they were. -/
theorem ctx_eq (he : Executed s s' b o) (h : Orderly ok s) {o' : Op} (ho' : o' ∈ s.wire)
    (hne : o' ≠ o ∨ o'.write = true) : s'.ctx o'.ctx = s.ctx o'.ctx := by
  rcases he.effect with ⟨-, hctx, -⟩ | ⟨hread, -, hctx⟩
  · rw [hctx]
  · have hne' : o' ≠ o := by
      rcases hne with hne | hwrite
      · exact hne
      · rintro rfl
        rw [hread] at hwrite
        cases hwrite
    rw [hctx, Function.update_of_ne fun heq => hne' (h.eq_of_ctx ho' he.mem.1 heq)]

theorem written_eq (he : Executed s s' b o) (h : Orderly ok s) {o' : Op} (ho' : o' ∈ s.wire) :
    written s' o' = written s o' := by
  by_cases hwrite : o'.write = true
  · exact written_congr (he.ctx_eq h ho' (Or.inr hwrite))
  · rw [written, written, if_neg hwrite, if_neg hwrite]

/-- Executing the first of some operations of a server leaves what the memory will be. -/
theorem memAfter_self (he : Executed s s' b o) (h : Orderly ok s) {l : List Op}
    (hl : ∀ o' ∈ l, o' ∈ s.wire) : memAfter s' l = memAfter s (o :: l) := by
  rw [memAfter, memAfter, afterWrites_congr fun o' ho' => he.written_eq h (hl o' ho')]
  rcases he.effect with ⟨hwrite, -, hmem⟩ | ⟨hread, hmem, -⟩
  · rw [hmem]
    simp [afterWrites, written, hwrite]
  · rw [hmem]
    simp [afterWrites, written, hread]

/-- The memory of other servers is not touched. -/
theorem memAfter_of_ne (he : Executed s s' b o) (h : Orderly ok s) {l : List Op}
    (hl : ∀ o' ∈ l, o' ∈ s.wire) {k : Nat × ChunkIx × Nat} (hk : k.1 ≠ b) :
    memAfter s' l k = memAfter s l k := by
  rw [memAfter, memAfter, afterWrites_congr fun o' ho' => he.written_eq h (hl o' ho')]
  refine afterWrites_apply_congr ?_
  rcases he.effect with ⟨-, -, hmem⟩ | ⟨-, hmem, -⟩
  · have hne : k ≠ o.cell := by
      rintro rfl
      exact hk he.mem.2
    rw [hmem, Function.update_of_ne hne]
  · rw [hmem]

end Executed

/-! ## Losing a server -/

namespace Disconnected

variable {b : Nat}

theorem queue_of_ne (hd : Disconnected B s s' b) {b' : Nat} (hne : b' ≠ b) :
    queue s' b' = queue s b' := by
  rw [queue, queue, hd.wire, List.filter_filter]
  refine List.filter_congr fun o _ => ?_
  by_cases ho : o.server = b'
  · simp [ho, hne]
  · simp [ho]

theorem queue_self (hd : Disconnected B s s' b) : queue s' b = [] := by
  rw [queue, hd.wire, List.filter_filter, List.filter_eq_nil_iff]
  intro o _
  by_cases ho : o.server = b <;> simp [ho]

theorem waiting_of_ne (hd : Disconnected B s s' b) {b' : Nat} (hne : b' ≠ b) :
    waiting s' b' = waiting s b' := by
  rw [waiting, waiting, hd.queue_of_ne hne, hd.executed, Function.update_of_ne hne]

theorem fetched_of_ne (hd : Disconnected B s s' b) {b' : Nat} (hne : b' ≠ b) :
    fetched s' b' = fetched s b' := by
  rw [fetched, fetched, hd.queue_of_ne hne, hd.executed, Function.update_of_ne hne]

theorem executedPosted (hd : Disconnected B s s' b) (hexec : ExecutedPosted s) :
    ExecutedPosted s' := by
  intro b'
  by_cases hb : b' = b
  · rw [hd.executed, hb, Function.update_self]
    exact Nat.zero_le _
  · rw [hd.queue_of_ne hb, hd.executed, Function.update_of_ne hb]
    exact hexec b'

theorem memAfter_eq (hd : Disconnected B s s' b) (l : List Op) : memAfter s' l = memAfter s l :=
  memAfter_congr hd.same.2.2.2.2.1 fun o _ => by rw [hd.same.2.1]

end Disconnected

end Hydra.DataPath
