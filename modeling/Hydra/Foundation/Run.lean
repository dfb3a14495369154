import Mathlib.Logic.Relation
import Mathlib.Data.List.Basic

set_option autoImplicit false

/-!
# Foundation: runs of a partial step function

A component is a state type, a type of actions and a partial step function;
`none` is an action the component does not survive or does not offer.  A *guard*
restricts which actions the environment takes in which states.  Reachability
under a guard is Mathlib's reflexive transitive closure, so the only thing stated
here is the invariant rule and the passage from an explicit list of actions.
-/

namespace Hydra.Foundation

variable {σ α : Type*}

/-- One step whose action meets the guard in the state it is taken from. -/
def GuardedStep (step : σ → α → Option σ) (guard : σ → α → Prop) (s t : σ) : Prop :=
  ∃ a, guard s a ∧ step s a = some t

/-- Reachability by steps that all meet the guard. -/
def Reach (step : σ → α → Option σ) (guard : σ → α → Prop) : σ → σ → Prop :=
  Relation.ReflTransGen (GuardedStep step guard)

variable {step : σ → α → Option σ} {guard : σ → α → Prop}

/-- The invariant rule: what holds at the start and survives every guarded step
holds in every state reached. -/
theorem Reach.invariant {I : σ → Prop} {s t : σ} (hrun : Reach step guard s t)
    (hstart : I s)
    (hstep : ∀ (u : σ) (a : α) (v : σ), I u → guard u a → step u a = some v → I v) :
    I t := by
  induction hrun with
  | refl => exact hstart
  | tail _ hlast ih =>
      obtain ⟨a, hguard, heq⟩ := hlast
      exact hstep _ a _ ih hguard heq

/-- A longer run by one guarded step. -/
theorem Reach.snoc {s t u : σ} {a : α} (hrun : Reach step guard s t)
    (hguard : guard t a) (heq : step t a = some u) : Reach step guard s u :=
  hrun.tail ⟨a, hguard, heq⟩

/-- Weakening the guard keeps a run. -/
theorem Reach.mono {guard' : σ → α → Prop} {s t : σ} (hrun : Reach step guard s t)
    (hweaker : ∀ u a, guard u a → guard' u a) : Reach step guard' s t := by
  induction hrun with
  | refl => exact .refl
  | tail _ hlast ih =>
      obtain ⟨a, hguard, heq⟩ := hlast
      exact ih.snoc (hweaker _ a hguard) heq

/-- Take a list of actions in order. -/
def runActions (step : σ → α → Option σ) : σ → List α → Option σ
  | s, [] => some s
  | s, a :: rest => (step s a).bind fun t => runActions step t rest

/-- Every action of the list meets the guard in the state it is taken from. -/
def AllMeet (step : σ → α → Option σ) (guard : σ → α → Prop) : σ → List α → Prop
  | _, [] => True
  | s, a :: rest => guard s a ∧ ∀ t, step s a = some t → AllMeet step guard t rest

/-- A weaker guard is met as well. -/
theorem AllMeet.mono {guard' : σ → α → Prop} {actions : List α}
    (hweaker : ∀ s, ∀ a ∈ actions, guard s a → guard' s a) {s : σ}
    (h : AllMeet step guard s actions) : AllMeet step guard' s actions := by
  induction actions generalizing s with
  | nil => trivial
  | cons a rest ih =>
      refine ⟨hweaker s a List.mem_cons_self h.1, fun t ht => ?_⟩
      exact ih (fun s b hb => hweaker s b (List.mem_cons_of_mem a hb)) (h.2 t ht)

instance decidableAllMeet [∀ s a, Decidable (guard s a)] (s : σ) (actions : List α) :
    Decidable (AllMeet step guard s actions) :=
  match actions with
  | [] => isTrue trivial
  | a :: rest =>
      match hstep : step s a with
      | none => decidable_of_iff (guard s a) (by simp [AllMeet, hstep])
      | some t =>
          have := decidableAllMeet t rest
          decidable_of_iff (guard s a ∧ AllMeet step guard t rest) (by simp [AllMeet, hstep])

/-- A completed list of guarded actions is a run. -/
theorem reach_of_runActions {actions : List α} {s t : σ}
    (hrun : runActions step s actions = some t) (hmeet : AllMeet step guard s actions) :
    Reach step guard s t := by
  induction actions generalizing s with
  | nil =>
      obtain rfl : s = t := by simpa [runActions] using hrun
      exact .refl
  | cons a rest ih =>
      obtain ⟨u, hu, hrest⟩ := Option.bind_eq_some_iff.mp hrun
      obtain ⟨hguard, hmore⟩ := hmeet
      exact Relation.ReflTransGen.head ⟨a, hguard, hu⟩ (ih hrest (hmore u hu))

end Hydra.Foundation
