import Mathlib.Tactic.Common

/-!
# Runs of a labelled step function

A system is a partial step function on states; an action that is not enabled has
no result.  A run is a list of actions.
-/

namespace HyperParallel.Foundation.StepRuns

variable {State Action : Type*} (step : State → Action → Option State)

def run : State → List Action → Option State
  | state, [] => some state
  | state, action :: rest => (step state action).bind fun next => run next rest

def Along (condition : State → Action → Prop) : State → List Action → Prop
  | _, [] => True
  | state, action :: rest =>
    condition state action ∧ ∀ next, step state action = some next → Along condition next rest

variable {step} {condition : State → Action → Prop}

variable {actions : List Action} {state : State}

variable {final : State} {Inv : State → Prop}

theorem run_cons {action : Action} {rest : List Action} :
    run step state (action :: rest) = some final ↔
      ∃ next, step state action = some next ∧ run step next rest = some final := by
  simp [run, Option.bind_eq_some_iff]

theorem invariant_along
    (hstep : ∀ state action next, Inv state → condition state action →
      step state action = some next → Inv next) (hinv : Inv state)
    (halong : Along step condition state actions) (hrun : run step state actions = some final) :
    Inv final := by
  induction actions generalizing state with
  | nil =>
    cases hrun
    exact hinv
  | cons action rest ih =>
    obtain ⟨next, hnext, hrest⟩ := run_cons.mp hrun
    exact ih (hstep state action next hinv halong.1 hnext) (halong.2 next hnext) hrest

theorem along_of_forall_mem (h : ∀ action ∈ actions, ∀ state, condition state action) :
    Along step condition state actions := by
  induction actions generalizing state with
  | nil => trivial
  | cons action rest ih =>
    exact ⟨h action List.mem_cons_self state,
      fun next _ => ih fun other hother => h other (List.mem_cons_of_mem _ hother)⟩

theorem invariant
    (hstep : ∀ state action next, Inv state → step state action = some next → Inv next)
    (hinv : Inv state) (hrun : run step state actions = some final) : Inv final := by
  have halong : Along step (fun _ _ => True) state actions :=
    along_of_forall_mem fun _ _ _ => trivial
  exact invariant_along (fun state action next hinv _ hnext => hstep state action next hinv hnext)
    hinv halong hrun

theorem along_iff_of_invariant {first second : State → Action → Prop}
    (hstep : ∀ state action next, Inv state → step state action = some next → Inv next)
    (hiff : ∀ state action, Inv state → (first state action ↔ second state action))
    (hinv : Inv state) : Along step first state actions ↔ Along step second state actions := by
  induction actions generalizing state with
  | nil => exact Iff.rfl
  | cons action rest ih =>
    apply and_congr (hiff state action hinv)
    apply forall_congr'
    intro next
    apply imp_congr_right
    intro hnext
    exact ih (hstep state action next hinv hnext)

end HyperParallel.Foundation.StepRuns
