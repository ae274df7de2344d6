import Mathlib.Data.List.Basic

/-!
# The subgraphs of a pipeline

The pass cuts one traced graph into a forward and a backward subgraph for each
stage.  Both ends of a boundary list the values that cross it with the same
query, so what one stage ships is as long as what its neighbour receives.
-/

namespace HyperParallel.Compile

structure StageGraphs (α : Type*) where
  state : List α
  ownedMb : Nat → List α
  fwdGm : List α → List α
  bwdGm : List α → List α
  numTrainable : Nat

/-- The number of values that cross each boundary, forward values only or values of any phase. -/
abbrev Crossing := Nat → Nat → Bool → Nat

section Boundaries

variable (numStages : Nat) (crossing : Crossing) (k : Nat)

def actIn : Nat := if 0 < k then crossing (k - 1) k true else 0

def actOut : Nat := if k = numStages - 1 then 0 else crossing k (k + 1) true

def gradIn : Nat := if k = numStages - 1 then 0 else crossing (k + 1) k false

def gradOut : Nat := if 0 < k then crossing k (k - 1) false else 0

end Boundaries

/-- A cut graph; the subgraphs return what the pass lists as their outputs. -/
structure Split (α : Type*) (numStages : Nat) where
  stage : Nat → StageGraphs α
  crossing : Crossing
  onesLike : α → α
  fwd_length : ∀ k args,
    actOut numStages crossing k ≤ ((stage k).fwdGm args).length ∧ (stage k).fwdGm args ≠ []
  bwd_length : ∀ k args, ((stage k).bwdGm args).length = (stage k).numTrainable + gradOut crossing k

variable {α : Type*} {numStages : Nat}

theorem actOut_eq_actIn {k : Nat} (crossing : Crossing) (hk : k + 1 < numStages) :
    actOut numStages crossing k = actIn crossing (k + 1) := by
  rw [actOut, actIn, if_neg (by omega), if_pos (Nat.succ_pos k)]
  rfl

theorem gradIn_eq_gradOut {k : Nat} (crossing : Crossing) (hk : k + 1 < numStages) :
    gradIn numStages crossing k = gradOut crossing (k + 1) := by
  rw [gradIn, gradOut, if_neg (by omega), if_pos (Nat.succ_pos k)]
  rfl

theorem gradOut_zero (crossing : Crossing) : gradOut crossing 0 = 0 := rfl

/-! ## What the whole graph computes for a micro-batch -/

namespace Split

variable (split : Split α numStages)

def applyForward (k : Nat) (actIn : List α) (micro : Nat) : List α :=
  let graphs := split.stage k
  if k = 0 then graphs.fwdGm (graphs.state ++ graphs.ownedMb micro)
  else graphs.fwdGm (graphs.state ++ actIn ++ graphs.ownedMb micro)

def applyBackward (k : Nat) (gradIn fwdOuts : List α) : List α :=
  let graphs := split.stage k
  graphs.bwdGm (graphs.state ++ gradIn ++ fwdOuts)

def fwdOutput : Nat → Nat → List α
  | 0, micro => split.applyForward 0 [] micro
  | k + 1, micro => split.applyForward (k + 1)
      ((fwdOutput k micro).take (actOut numStages split.crossing k)) micro

def activation (k micro : Nat) : List α :=
  if k = 0 then [] else (split.fwdOutput (k - 1) micro).take (actOut numStages split.crossing (k - 1))

/-- The gradient of the last stage stands in for one that is received. -/
def seed (fwdOuts : List α) : List α := fwdOuts.head?.toList.map split.onesLike

/-- The backward outputs of the stage that is `d` before the last. -/
def bwdOutputFrom : Nat → Nat → List α
  | 0, micro =>
    let k := numStages - 1
    split.applyBackward k (split.seed (split.fwdOutput k micro)) (split.fwdOutput k micro)
  | d + 1, micro =>
    let k := numStages - 1 - (d + 1)
    split.applyBackward k
      ((bwdOutputFrom d micro).drop (split.stage (numStages - 1 - d)).numTrainable)
      (split.fwdOutput k micro)

def bwdOutput (k micro : Nat) : List α := split.bwdOutputFrom (numStages - 1 - k) micro

def boundaryGrads (k micro : Nat) : List α :=
  (split.bwdOutput k micro).drop (split.stage k).numTrainable

def paramGrads (k micro : Nat) : List α :=
  (split.bwdOutput k micro).take (split.stage k).numTrainable

def gradient (k micro : Nat) : List α :=
  if k = numStages - 1 then split.seed (split.fwdOutput k micro)
  else split.boundaryGrads (k + 1) micro

theorem fwdOutput_eq (k micro : Nat) :
    split.fwdOutput k micro = split.applyForward k (split.activation k micro) micro := by
  cases k with
  | zero => rfl
  | succ k => rfl

theorem bwdOutput_eq {k : Nat} (hk : k < numStages) (micro : Nat) :
    split.bwdOutput k micro =
      split.applyBackward k (split.gradient k micro) (split.fwdOutput k micro) := by
  by_cases hlast : k = numStages - 1
  · subst hlast
    simp [bwdOutput, gradient, bwdOutputFrom]
  · obtain ⟨d, hd⟩ : ∃ d, numStages - 1 - k = d + 1 := ⟨numStages - 2 - k, by omega⟩
    have hnext : numStages - 1 - (k + 1) = d := by omega
    rw [bwdOutput, hd, gradient, if_neg hlast, boundaryGrads, bwdOutput, hnext, bwdOutputFrom,
      show numStages - 1 - (d + 1) = k by omega, show numStages - 1 - d = k + 1 by omega]

theorem fwdOutput_length (k micro : Nat) :
    actOut numStages split.crossing k ≤ (split.fwdOutput k micro).length := by
  rw [split.fwdOutput_eq, applyForward]
  split
  · exact (split.fwd_length k _).1
  · exact (split.fwd_length k _).1

theorem activation_length {k : Nat} (hk : k < numStages) (micro : Nat) :
    (split.activation k micro).length = actIn split.crossing k := by
  cases k with
  | zero => rfl
  | succ k =>
    rw [activation, if_neg (Nat.succ_ne_zero k), Nat.add_sub_cancel, List.length_take,
      ← actOut_eq_actIn split.crossing hk, Nat.min_eq_left (split.fwdOutput_length k micro)]

theorem fwdOutput_ne_nil (k micro : Nat) : split.fwdOutput k micro ≠ [] := by
  rw [split.fwdOutput_eq, applyForward]
  split
  · exact (split.fwd_length k _).2
  · exact (split.fwd_length k _).2

theorem boundaryGrads_length {k : Nat} (hk : k < numStages) (micro : Nat) :
    (split.boundaryGrads k micro).length = gradOut split.crossing k := by
  rw [boundaryGrads, split.bwdOutput_eq hk, applyBackward, List.length_drop, split.bwd_length]
  omega

theorem gradient_length {k : Nat} (hk : k + 1 < numStages) (micro : Nat) :
    (split.gradient k micro).length = gradIn numStages split.crossing k := by
  rw [gradient, if_neg (by omega), split.boundaryGrads_length hk, gradIn_eq_gradOut _ hk]

end Split

end HyperParallel.Compile
