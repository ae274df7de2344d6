import Mathlib.Analysis.SpecialFunctions.Log.Deriv
import Mathlib.Algebra.BigOperators.Field
import Mathlib.Topology.Algebra.Module.ModuleTopology

/-!
# Log-sum-exp

The logarithm of a sum of exponentials over a finite set of coordinates.  Its
shifted form, with any number taken off every coordinate first, is the one that
is computed; its derivative along a coordinate is the softmax.
-/

namespace HyperParallel.Foundation

open Finset

variable {ι : Type*} {s : Finset ι}

noncomputable def logSumExp (s : Finset ι) (x : ι → ℝ) : ℝ :=
  Real.log (∑ c ∈ s, Real.exp (x c))

noncomputable def softmax (s : Finset ι) (x : ι → ℝ) (c : ι) : ℝ :=
  Real.exp (x c - logSumExp s x)

theorem sum_exp_pos (hs : s.Nonempty) (x : ι → ℝ) : 0 < ∑ c ∈ s, Real.exp (x c) :=
  sum_pos (fun _ _ => Real.exp_pos _) hs

theorem log_sum_exp_sub (hs : s.Nonempty) (x : ι → ℝ) (m : ℝ) :
    Real.log (∑ c ∈ s, Real.exp (x c - m)) = logSumExp s x - m := by
  have hscaled : ∑ c ∈ s, Real.exp (x c - m) = (∑ c ∈ s, Real.exp (x c)) / Real.exp m := by
    rw [sum_div]
    exact sum_congr rfl fun c _ => Real.exp_sub (x c) m
  rw [hscaled, Real.log_div (sum_exp_pos hs x).ne' (Real.exp_pos m).ne', Real.log_exp, logSumExp]

theorem softmax_pos (x : ι → ℝ) (c : ι) : 0 < softmax s x c := Real.exp_pos _

theorem softmax_eq (hs : s.Nonempty) (x : ι → ℝ) (c : ι) :
    softmax s x c = Real.exp (x c) / ∑ d ∈ s, Real.exp (x d) := by
  rw [softmax, Real.exp_sub, logSumExp, Real.exp_log (sum_exp_pos hs x)]

theorem sum_softmax (hs : s.Nonempty) (x : ι → ℝ) : ∑ c ∈ s, softmax s x c = 1 := by
  rw [sum_congr rfl fun c _ => softmax_eq hs x c, ← sum_div]
  exact div_self (sum_exp_pos hs x).ne'

theorem lt_logSumExp {x : ι → ℝ} {c d : ι} (hc : c ∈ s) (hd : d ∈ s) (hne : d ≠ c) :
    x c < logSumExp s x := by
  rw [logSumExp, Real.lt_log_iff_exp_lt (sum_exp_pos ⟨c, hc⟩ x)]
  exact single_lt_sum hne hc hd (Real.exp_pos _) fun _ _ _ => (Real.exp_pos _).le

theorem hasDerivAt_logSumExp [DecidableEq ι] {x : ι → ℝ} {c : ι} (hc : c ∈ s) :
    HasDerivAt (fun t => logSumExp s (Function.update x c t)) (softmax s x c) (x c) := by
  have hsplit : ∀ t, ∑ d ∈ s, Real.exp (Function.update x c t d) =
      Real.exp t + ∑ d ∈ s.erase c, Real.exp (x d) := by
    intro t
    rw [← add_sum_erase s _ hc, Function.update_self]
    congr 1
    refine sum_congr rfl fun d hd => ?_
    rw [Function.update_of_ne (ne_of_mem_erase hd)]
  have hsum : Real.exp (x c) + ∑ d ∈ s.erase c, Real.exp (x d) = ∑ d ∈ s, Real.exp (x d) :=
    add_sum_erase s (fun d => Real.exp (x d)) hc
  have hpos := sum_exp_pos ⟨c, hc⟩ x
  have hderiv := ((Real.hasDerivAt_exp (x c)).add_const
    (∑ d ∈ s.erase c, Real.exp (x d))).log (by rw [hsum]; exact hpos.ne')
  rw [hsum] at hderiv
  rw [softmax_eq ⟨c, hc⟩]
  simp only [logSumExp, hsplit]
  exact hderiv

end HyperParallel.Foundation
