/-
  DataPath/Hctx.lean --- the node a hardware queue gets its memory from.

  Source: `IS_alloc_hctx` of `resilience_manager/is_mq.c`.

  `nr_hw_queues` is `submit_queues`, and `nr_online_nodes` is the number of nodes that
  `for_each_online_node` goes over.  The loop variables are bounded by these two, so an
  `int` holds them (`inRange_hctxLoop`).
-/
import Hydra.Foundation.Checked
import Hydra.Foundation.Spread

set_option autoImplicit false

namespace Hydra.DataPath

open Hydra.Foundation

/-! ## The function -/

/-- `DIV_ROUND_UP`. -/
def divRoundUp (n d : Nat) : Nat := (n + d - 1) / d

/-- The variables of the loop. -/
structure HctxLoop where
  bSize : Nat
  tip : Int
  node : Nat
  n : Nat
  deriving DecidableEq, Repr

/-- A remainder by zero. -/
inductive HctxFault where
  | byZero
  deriving DecidableEq, Repr

/-- The variables before the loop. -/
def hctxInit (nrHwQueues nrOnlineNodes : Nat) : HctxLoop where
  bSize := divRoundUp nrHwQueues nrOnlineNodes
  tip := (nrHwQueues % nrOnlineNodes : Nat)
  node := 0
  n := 1

/-- One turn, with the `n++` at its end. -/
def hctxTurn (nrHwQueues nrOnlineNodes : Nat) (s : HctxLoop) : Except HctxFault HctxLoop :=
  if s.bSize = 0 then .error .byZero
  else if s.n % s.bSize = 0 then
    let tip := s.tip - 1
    .ok { bSize := if tip = 0 then nrHwQueues / nrOnlineNodes else s.bSize
          tip := tip
          node := s.node + 1
          n := 0 + 1 }
  else .ok { s with n := s.n + 1 }

/-- The loop up to `hctx_index`. -/
def hctxLoop (nrHwQueues nrOnlineNodes hctxIndex : Nat) : Except HctxFault HctxLoop :=
  (List.range hctxIndex).foldlM (fun s _ => hctxTurn nrHwQueues nrOnlineNodes s)
    (hctxInit nrHwQueues nrOnlineNodes)

/-- The relative node the loop ends with. -/
def relativeNode (nrHwQueues nrOnlineNodes hctxIndex : Nat) : Except HctxFault Nat :=
  (hctxLoop nrHwQueues nrOnlineNodes hctxIndex).map HctxLoop.node

/-- `for_each_online_node`: the node so many online nodes on, `MAX_NUMNODES` behind the
last. -/
def onlineNode (maxNumnodes : Nat) : List Nat → Nat → Nat
  | [], _ => maxNumnodes
  | n :: _, 0 => n
  | _ :: online, node + 1 => onlineNode maxNumnodes online node

/-- `IS_alloc_hctx`: the node `kzalloc_node` is told. -/
def isAllocHctx (maxNumnodes : Nat) (online : List Nat) (nrHwQueues hctxIndex : Nat) :
    Except HctxFault Nat :=
  (relativeNode nrHwQueues online.length hctxIndex).map (onlineNode maxNumnodes online)

/-! ## One turn -/

variable {q nodes i : Nat} {s : HctxLoop}

/-- Before turn `i`: queue `i` belongs to `node`, of which it is the `n`-th, and the bucket
size is the share of `node`. -/
structure HctxInvariant (q nodes i : Nat) (s : HctxLoop) : Prop where
  node : SpreadsTo q nodes i s.node
  n : spreadStart q nodes s.node + s.n = i + 1
  bSize : s.bSize = spreadSize q nodes s.node
  tip : s.tip = (q % nodes : Nat) - (s.node : Int)

theorem hctxInvariant_init (hnodes : 0 < nodes) (hq : 0 < q) :
    HctxInvariant q nodes 0 (hctxInit q nodes) where
  node := by
    refine ⟨Nat.le_of_eq spreadStart_zero, ?_⟩
    rw [spreadStart_succ hnodes]
    exact Nat.lt_add_left _ (spreadSize_pos hnodes (spreadStart_zero.trans_lt hq))
  n := by rw [hctxInit, spreadStart_zero]
  bSize := by
    rw [hctxInit, divRoundUp, ← Nat.ceilDiv_eq_add_pred_div, spreadSize]
    rcases Nat.eq_zero_or_pos (q % nodes) with hzero | hpos
    · rw [if_neg (by omega), ceilDiv_eq_div hnodes hzero]
    · rw [if_pos hpos]
  tip := by rw [hctxInit, Int.natCast_zero, Int.sub_zero]

/-- The bucket size changes when the last place with one more has got its share.  With no
such place `tip` starts at zero and only falls. -/
theorem spreadSize_succ {m : Nat} :
    spreadSize q nodes (m + 1) =
      if ((q % nodes : Nat) : Int) - m - 1 = 0 then q / nodes else spreadSize q nodes m := by
  unfold spreadSize
  by_cases hlast : ((q % nodes : Nat) : Int) - m - 1 = 0
  · rw [if_pos hlast, if_neg (by omega)]
  · rw [if_neg hlast]
    by_cases hm : m < q % nodes
    · rw [if_pos hm, if_pos (by omega)]
    · rw [if_neg hm, if_neg (by omega)]

/-- A turn gets through and goes on to the next queue. -/
theorem hctxTurn_invariant (hnodes : 0 < nodes) (h : HctxInvariant q nodes i s)
    (hi : i + 1 < q) :
    ∃ t, hctxTurn q nodes s = .ok t ∧ HctxInvariant q nodes (i + 1) t := by
  have hstart := h.node.1
  have hstop := h.node.2
  have hn := h.n
  have hsize := h.bSize
  rw [spreadStart_succ hnodes] at hstop
  rw [hctxTurn, if_neg (by omega)]
  by_cases hfull : s.n = s.bSize
  · -- queue `i` is the last of its node
    rw [if_pos (by rw [hfull, Nat.mod_self])]
    refine ⟨_, rfl, ?_⟩
    have hnext : spreadStart q nodes (s.node + 1) = i + 1 := by
      rw [spreadStart_succ hnodes]
      omega
    have hpos : 0 < spreadSize q nodes (s.node + 1) := spreadSize_pos hnodes (by omega)
    refine ⟨⟨by rw [hnext], ?_⟩, by rw [hnext], ?_, ?_⟩
    · rw [spreadStart_succ hnodes, hnext]
      exact Nat.lt_add_of_pos_right hpos
    · rw [spreadSize_succ, h.tip, hsize]
    · rw [h.tip]
      push_cast
      omega
  · rw [if_neg (by rw [Nat.mod_eq_of_lt (by omega)]; omega)]
    refine ⟨_, rfl, ⟨hstart.trans (Nat.le_succ i), ?_⟩, ?_, hsize, h.tip⟩
    · rw [spreadStart_succ hnodes]
      simp only
      omega
    · rw [← Nat.add_assoc, hn]

/-! ## The loop -/

theorem hctxLoop_invariant (hnodes : 0 < nodes) (hi : i < q) :
    ∃ s, hctxLoop q nodes i = .ok s ∧ HctxInvariant q nodes i s := by
  have hstep : ∀ k < i, ∀ s s', HctxInvariant q nodes k s → hctxTurn q nodes s = .ok s' →
      HctxInvariant q nodes (k + 1) s' := by
    intro k hk s s' hs hturn
    obtain ⟨t, ht, hinv⟩ := hctxTurn_invariant hnodes hs (by omega)
    rw [ht] at hturn
    rwa [← Except.ok.inj hturn]
  have hgo : ∀ k < i, ∀ s, HctxInvariant q nodes k s → ∃ s', hctxTurn q nodes s = .ok s' := by
    intro k hk s hs
    obtain ⟨t, ht, -⟩ := hctxTurn_invariant hnodes hs (by omega)
    exact ⟨t, ht⟩
  have hinit := hctxInvariant_init (q := q) hnodes (by omega)
  obtain ⟨s, hs⟩ := foldlM_range_total hstep hgo hinit
  exact ⟨s, hs, foldlM_range_keeps hstep hinit hs⟩

/-- Between its start and its end, no variable of the loop gets larger than the number of
queues or that of nodes. -/
theorem inRange_hctxLoop (hnodes : 0 < nodes) (hi : i < q) (h : hctxLoop q nodes i = .ok s) :
    s.bSize ≤ q ∧ s.n ≤ q ∧ s.node < nodes ∧ -(nodes : Int) < s.tip ∧ s.tip < nodes := by
  obtain ⟨t, ht, hinv⟩ := hctxLoop_invariant hnodes hi
  rw [ht] at h
  obtain rfl := Except.ok.inj h
  have hnode := hinv.node.lt hnodes hi
  have hn := hinv.n
  have htip := hinv.tip
  have hmod := Nat.mod_lt q hnodes
  have hsize : spreadStart q nodes t.node + t.bSize ≤ q := by
    rw [hinv.bSize, ← spreadStart_succ hnodes]
    exact (spreadStart_mono hnode).trans_eq (spreadStart_self hnodes)
  exact ⟨by omega, by omega, hnode, by omega, by omega⟩

/-- The loop finds the node of a queue. -/
theorem relativeNode_eq_ok (hnodes : 0 < nodes) (hi : i < q) {m : Nat} :
    relativeNode q nodes i = .ok m ↔ SpreadsTo q nodes i m := by
  obtain ⟨s, hs, hinv⟩ := hctxLoop_invariant hnodes hi
  rw [relativeNode, hs]
  constructor
  · intro h
    obtain rfl : s.node = m := Except.ok.inj h
    exact hinv.node
  · intro h
    exact congrArg Except.ok (hinv.node.unique h)

/-- Every queue gets a node that is online. -/
theorem isAllocHctx_online {online : List Nat} (maxNumnodes : Nat) (honline : online ≠ [])
    (hi : i < q) : ∃ n ∈ online, isAllocHctx maxNumnodes online q i = .ok n := by
  have hnodes : 0 < online.length := List.length_pos_iff.mpr honline
  obtain ⟨s, hs, hinv⟩ := hctxLoop_invariant hnodes hi
  have hwalk : ∀ (l : List Nat) (m : Nat), m < l.length → onlineNode maxNumnodes l m ∈ l := by
    intro l
    induction l with
    | nil => exact fun m hm => absurd hm (Nat.not_lt_zero m)
    | cons n l ih =>
        intro m hm
        cases m with
        | zero => exact List.mem_cons_self
        | succ m => exact List.mem_cons_of_mem _ (ih m (Nat.lt_of_succ_lt_succ hm))
  refine ⟨_, hwalk online s.node (hinv.node.lt hnodes hi), ?_⟩
  rw [isAllocHctx, relativeNode, hs]
  rfl

/-- The queues are spread over the nodes in order: the loop never takes a remainder by
zero, every queue gets a node, and the first `q % nodes` nodes get one queue more than the
others. -/
theorem hctx_even_spread (q nodes : Nat) (hnodes : 1 ≤ nodes) :
    (∀ h < q, ∃ node < nodes, relativeNode q nodes h = .ok node) ∧
    (∀ h h' node node', h ≤ h' → h' < q → relativeNode q nodes h = .ok node →
      relativeNode q nodes h' = .ok node' → node ≤ node') ∧
    ∀ m < nodes, ((Finset.range q).filter fun h => relativeNode q nodes h = .ok m).card =
      if m < q % nodes then q ⌈/⌉ nodes else q / nodes := by
  refine ⟨?_, ?_, ?_⟩
  · intro h hh
    obtain ⟨s, hs, hinv⟩ := hctxLoop_invariant hnodes hh
    refine ⟨s.node, hinv.node.lt hnodes hh, ?_⟩
    rw [relativeNode, hs]
    rfl
  · intro h h' node node' hle hh' hnode hnode'
    have hto := (relativeNode_eq_ok hnodes (by omega)).mp hnode
    have hto' := (relativeNode_eq_ok hnodes hh').mp hnode'
    exact hto.mono hto' hle
  · intro m hm
    exact card_filter_spreadsTo hnodes hm fun h hh => relativeNode_eq_ok hnodes hh

/-- Five queues over three nodes: two, two and one. -/
theorem hctx_even_spread_five :
    (List.range 5).map (relativeNode 5 3) = [.ok 0, .ok 0, .ok 1, .ok 1, .ok 2] ∧
    ∀ m < 3, ((Finset.range 5).filter fun h => relativeNode 5 3 h = .ok m).card =
      if m < 2 then 2 else 1 :=
  ⟨by decide, (hctx_even_spread 5 3 (by decide)).2.2⟩

end Hydra.DataPath
