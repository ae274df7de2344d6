import HyperParallel.Shard.PartialProduct

/-!
# Sums of partial results

A pending sum is linear.  An operand that is held equally by the ranks of a
dimension of the other one is counted once there, when only the first rank of
the dimension contributes it.
-/

namespace HyperParallel.Shard

open DTensor
open Foundation.AxisReduce

def SumOnly (out : Signature) (order : List Nat) : Prop :=
  ∀ d ∈ order, out d = none ∨ out d = some .sum

variable {sizes : Nat → Nat} {own out : Signature}

variable {order : List Nat}

theorem reducePartial_linear (hsum : SumOnly out order) (a b : ℚ) (left right : Coordinate → ℚ) :
    reducePartial sizes out order (fun ρ => a * left ρ + b * right ρ) =
      fun ρ => a * reducePartial sizes out order left ρ +
        b * reducePartial sizes out order right ρ := by
  induction order generalizing left right with
  | nil => rfl
  | cons d order ih =>
    obtain ⟨hd, hsum⟩ := List.forall_mem_cons.mp hsum
    simp only [reducePartial_cons]
    rcases hd with hd | hd
    · simp only [reduceDim_none hd, ih hsum]
    · have hstep : reduceAlong (ReduceOp.sum.allReduce (sizes d)) d
          (fun ρ => a * left ρ + b * right ρ) =
          fun ρ => a * reduceAlong (ReduceOp.sum.allReduce (sizes d)) d left ρ +
            b * reduceAlong (ReduceOp.sum.allReduce (sizes d)) d right ρ := by
        funext ρ
        have hadd := foldRanks_zip (· + ·) (add_add_add_comm (G := ℚ))
          (fun k => a * left (Function.update ρ d k))
          (fun k => b * right (Function.update ρ d k)) (sizes d - 1)
        have hscale : ∀ (c : ℚ) (values : Nat → ℚ), foldRanks (· + ·) (fun k => c * values k)
            (sizes d - 1) = c * foldRanks (· + ·) values (sizes d - 1) := fun c values =>
          (foldRanks_hom (c * ·) (fun u v => mul_add c u v) values _).symm
        simp only [hscale] at hadd
        exact hadd
      simp only [reduceDim_some hd, hstep, ih hsum]

def Contributes (own out : Signature) (order : List Nat) (ρ : Coordinate) : Prop :=
  ∀ d ∈ order, out d ≠ none → own d = none → ρ d = 0

instance (own out : Signature) (order : List Nat) : DecidablePred (Contributes own out order) :=
  fun ρ => inferInstanceAs (Decidable (∀ d ∈ order, out d ≠ none → own d = none → ρ d = 0))

def contribution (own out : Signature) (order : List Nat) (value : Coordinate → ℚ) :
    Coordinate → ℚ :=
  fun ρ => if Contributes own out order ρ then value ρ else 0

theorem contributes_cons {d : Nat} {ρ : Coordinate} :
    Contributes own out (d :: order) ρ ↔
      (out d ≠ none → own d = none → ρ d = 0) ∧ Contributes own out order ρ :=
  List.forall_mem_cons

theorem contributes_update {d : Nat} (hd : d ∉ order) (ρ : Coordinate) (k : Nat) :
    Contributes own out order (Function.update ρ d k) ↔
      Contributes own out order ρ := by
  refine forall₂_congr fun e he => ?_
  have hne : e ≠ d := fun heq => hd (heq ▸ he)
  rw [Function.update_of_ne hne]

theorem sum_first {size : Nat} (values : Nat → ℚ) (h : ∀ k, 0 < k → values k = 0) :
    ReduceOp.sum.allReduce size values = values 0 := by
  simp only [ReduceOp.allReduce, allReduceValues]
  induction size - 1 with
  | zero => rfl
  | succ n ih => rw [foldRanks, ih, h (n + 1) n.succ_pos, add_zero]

theorem allReduce_sum_zero (size : Nat) :
    ReduceOp.sum.allReduce size (fun _ => 0) = 0 :=
  foldRanks_const (add_zero 0) _

theorem reducePartial_contribution (hsum : SumOnly out order) (hnodup : order.Nodup)
    (hown : ∀ d ∈ order, own d ≠ none → own d = out d) {value : Coordinate → ℚ}
    (hequal : EqualFor own out order value) :
    reducePartial sizes out order (contribution own out order value) =
      reducePartial sizes own order value := by
  induction order generalizing value with
  | nil =>
    funext ρ
    simp [contribution, Contributes]
  | cons d order ih =>
    obtain ⟨hd, hsum⟩ := List.forall_mem_cons.mp hsum
    obtain ⟨hownd, hown⟩ := List.forall_mem_cons.mp hown
    obtain ⟨hnot, hnodup⟩ := List.nodup_cons.mp hnodup
    have hstep : reduceDim sizes out d (contribution own out (d :: order) value) =
        contribution own out order (reduceDim sizes own d value) := by
      rcases hd with hd | hd
      · have hnone : own d = none := by
          by_contra hne
          exact hne ((hownd hne).trans hd)
        rw [reduceDim_none hd, reduceDim_none hnone]
        funext ρ
        simp [contribution, contributes_cons, hd]
      · rw [reduceDim_some hd]
        funext ρ
        cases hop : own d with
        | none =>
          rw [reduceDim_none hop]
          have hequal' := hequal d (by simp) hop (by simp [hd])
          simp only [reduceAlong, contribution, contributes_cons, hd, hop,
            contributes_update hnot, Function.update_self, hequal' ρ]
          rw [sum_first _ fun k hk => by simp [hk.ne']]
          simp
        | some op =>
          obtain rfl : op = .sum := by
            have := hownd (by simp [hop])
            rw [hop, hd] at this
            exact Option.some.inj this
          rw [reduceDim_some hop]
          by_cases hρ : Contributes own out order ρ <;>
            simp [reduceAlong, contribution, contributes_cons, hd, hop,
              contributes_update hnot, hρ, allReduce_sum_zero]
    rw [reducePartial_cons, reducePartial_cons, hstep]
    refine ih hsum hnodup hown fun e he hnone hpending => ?_
    have hrep := hequal e (by simp [he]) hnone hpending
    unfold reduceDim
    split
    · exact hrep.reduceAlong _ _
    · exact hrep

end HyperParallel.Shard
