import HyperParallel.Shard.PartialProduct
import Mathlib.Tactic.Linarith
import Mathlib.Tactic.Positivity

/-!
# The combinations a product does not keep

Each combination that `SoundProduct` leaves out is met by values, and by an
order of the mesh dimensions, where the reduction of the products is not the
product of the reductions.  Values that all ranks share keep apart from zero
what is not zero, so most cases break the law on the first dimensions of the
order and carry the difference to its end.
-/

namespace HyperParallel.Shard

open DTensor List
open Foundation.AxisReduce

/-! ## Values of two ranks -/

def spike (rank : Nat) (value : ℚ) : Nat → ℚ := fun k => if k = rank then value else 0

variable {op : ReduceOp} {size : Nat} {values : Nat → ℚ}

theorem allReduceValues_two {combine : ℚ → ℚ → ℚ} (hsize : 2 ≤ size) (h : ∀ k, 2 ≤ k →
      combine (combine (values 0) (values 1)) (values k) = combine (values 0) (values 1)) :
    allReduceValues combine size values = combine (values 0) (values 1) := by
  obtain ⟨n, rfl⟩ := Nat.exists_eq_add_of_le' hsize
  exact foldRanks_two h n

section

variable (hsize : 2 ≤ size) (h : ∀ k, 2 ≤ k → values k = 0)

include hsize h

theorem sum_of_two : ReduceOp.sum.allReduce size values = values 0 + values 1 :=
  allReduceValues_two hsize fun k hk => by rw [h k hk, add_zero]

theorem max_of_two (hnonneg : 0 ≤ max (values 0) (values 1)) :
    ReduceOp.max.allReduce size values = max (values 0) (values 1) :=
  allReduceValues_two hsize fun k hk => by rw [h k hk, max_eq_left hnonneg]

theorem min_of_two (hnonpos : min (values 0) (values 1) ≤ 0) :
    ReduceOp.min.allReduce size values = min (values 0) (values 1) :=
  allReduceValues_two hsize fun k hk => by rw [h k hk, min_eq_left hnonpos]

end

theorem spike_later {rank : Nat} (hrank : rank ≤ 1) (value : ℚ) {k : Nat} (hk : 2 ≤ k) :
    spike rank value k = 0 := by
  rw [spike, if_neg (by omega)]

theorem avg_eq_zero_iff (hsize : 0 < size) (values : Nat → ℚ) :
    ReduceOp.avg.allReduce size values = 0 ↔ ReduceOp.sum.allReduce size values = 0 := by
  have hne : (size : ℚ) ≠ 0 := by exact_mod_cast hsize.ne'
  simp [ReduceOp.allReduce, hne]

theorem extremum_breaks (hsize : 2 ≤ size) (hop : op = .max ∨ op = .min) {factor : ℚ}
    (hfactor : factor < 0) :
    ∃ values : Nat → ℚ, op.allReduce size (fun k => values k * factor) ≠ 0 ∧
      op.allReduce size values = 0 := by
  rcases hop with rfl | rfl
  · refine ⟨spike 1 (-1), ?_, ?_⟩
    · rw [max_of_two hsize (fun k hk => by rw [spike_later le_rfl _ hk, zero_mul])] <;>
        simp [spike, hfactor.le, hfactor.ne]
    · rw [max_of_two hsize (fun k hk => spike_later le_rfl _ hk)] <;> simp [spike]
  · refine ⟨spike 1 1, ?_, ?_⟩
    · rw [min_of_two hsize (fun k hk => by rw [spike_later le_rfl _ hk, zero_mul])] <;>
        simp [spike, hfactor.le, hfactor.ne]
    · rw [min_of_two hsize (fun k hk => spike_later le_rfl _ hk)] <;> simp [spike]

theorem spike_mul_spike (a b : ℚ) : (fun k => spike 0 a k * spike 1 b k) = fun _ => (0 : ℚ) := by
  funext k
  by_cases h : k = 0 <;> simp [spike, h]

theorem both_breaks (hsize : 2 ≤ size) (hprod : op ≠ .prod) (hall : op ≠ .all) :
    ∃ left right : Nat → ℚ, op.allReduce size (fun k => left k * right k) = 0 ∧
      op.allReduce size left ≠ 0 ∧ op.allReduce size right ≠ 0 := by
  have hpos : 0 < size := by omega
  have hzero : ∀ a b : ℚ, op.allReduce size (fun k => spike 0 a k * spike 1 b k) = 0 := by
    intro a b
    rw [spike_mul_spike, allReduce_const hpos, ofEqual_eq_zero_iff hpos]
  have hsum : ∀ rank ≤ 1, ReduceOp.sum.allReduce size (spike rank 1) ≠ 0 := by
    intro rank hrank
    rw [sum_of_two hsize fun k hk => spike_later hrank 1 hk]
    rcases Nat.le_one_iff_eq_zero_or_eq_one.mp hrank with rfl | rfl <;> simp [spike]
  cases op with
  | sum => exact ⟨spike 0 1, spike 1 1, hzero 1 1, hsum 0 (by omega), hsum 1 le_rfl⟩
  | avg =>
    refine ⟨spike 0 1, spike 1 1, hzero 1 1, ?_, ?_⟩
    · exact (avg_eq_zero_iff hpos _).not.mpr (hsum 0 (by omega))
    · exact (avg_eq_zero_iff hpos _).not.mpr (hsum 1 le_rfl)
  | max =>
    refine ⟨spike 0 1, spike 1 1, hzero 1 1, ?_, ?_⟩
    · rw [max_of_two hsize fun k hk => spike_later (by omega) 1 hk] <;> simp [spike]
    · rw [max_of_two hsize fun k hk => spike_later le_rfl 1 hk] <;> simp [spike]
  | min =>
    refine ⟨spike 0 (-1), spike 1 (-1), hzero (-1) (-1), ?_, ?_⟩
    · rw [min_of_two hsize fun k hk => spike_later (by omega) (-1) hk] <;> simp [spike]
    · rw [min_of_two hsize fun k hk => spike_later le_rfl (-1) hk] <;> simp [spike]
  | prod => exact absurd rfl hprod
  | all => exact absurd rfl hall

/-! ## Orders that begin or end with given dimensions -/

theorem exists_order_from {ndim : Nat} (first : List Nat) (hnodup : first.Nodup)
    (hlt : ∀ d ∈ first, d < ndim) :
    ∃ rest, (first ++ rest).Perm (range ndim) := by
  refine ⟨(range ndim).diff first, subperm_append_diff_self_of_count_le ?_⟩
  intro d hd
  rw [count_eq_one_of_mem hnodup hd, count_eq_one_of_mem nodup_range (mem_range.mpr (hlt d hd))]

theorem exists_order_to {ndim : Nat} (last : List Nat) (hnodup : last.Nodup)
    (hlt : ∀ d ∈ last, d < ndim) :
    ∃ rest, (rest ++ last).Perm (range ndim) ∧ ∀ d ∈ last, d ∉ rest := by
  obtain ⟨rest, hperm⟩ := exists_order_from last hnodup hlt
  refine ⟨rest, perm_append_comm.trans hperm, fun d hd hmem => ?_⟩
  exact disjoint_of_nodup_append (hperm.nodup_iff.mpr nodup_range) hd hmem

/-! ## Breaking the law -/

variable {ndim : Nat} {sizes : Nat → Nat} {sharded : Nat → Prop} {x y : Signature}

theorem ProductLaw.zero_iff (hlaw : ProductLaw ndim sizes sharded x y)
    (hpos : ∀ d < ndim, 0 < sizes d) {first rest : List Nat}
    (horder : (first ++ rest).Perm (range ndim)) {valueX valueY : Coordinate → ℚ}
    (hvalueX : Replicates ndim sharded x valueX)
    (hvalueY : Replicates ndim sharded y valueY) {o a b : ℚ}
    (ho : reducePartial sizes (mergedSignature x y) first (fun ρ => valueX ρ * valueY ρ) =
      fun _ => o)
    (ha : reducePartial sizes x first valueX = fun _ => a)
    (hb : reducePartial sizes y first valueY = fun _ => b) :
    o = 0 ↔ a = 0 ∨ b = 0 := by
  have hrest : ∀ d ∈ rest, 0 < sizes d := fun d hd =>
    hpos d (mem_range.mp (horder.mem_iff.mp (mem_append_right first hd)))
  have heq := congrFun (hlaw valueX valueY hvalueX hvalueY _ horder) fun _ => 0
  simp only [reducePartial_append, ho, ha, hb, reducePartial_const hrest] at heq
  rw [← equalOver_eq_zero_iff (mergedSignature x y) hrest o,
    ← equalOver_eq_zero_iff x hrest a, ← equalOver_eq_zero_iff y hrest b, heq, mul_eq_zero]

theorem const_replicates (own : Signature) (value : ℚ) :
    Replicates ndim sharded own fun _ => value :=
  fun d _ _ _ => const_replicatedAlong d value

theorem onAxis_replicates {own : Signature} (axis : Nat) (h : own axis ≠ none)
    (values : Nat → ℚ) : Replicates ndim sharded own (onAxis axis values) :=
  fun d _ hown _ => onAxis_replicatedAlong (by rintro rfl; exact h hown) values

theorem ProductLaw.symm (hcompat : ∀ d < ndim, ∀ op op', x d = some op → y d = some op' → op = op')
    (hlaw : ProductLaw ndim sizes sharded x y) : ProductLaw ndim sizes sharded y x := by
  intro valueY valueX hvalueY hvalueX order horder
  have hmerged : ∀ values, reducePartial sizes (mergedSignature y x) order values =
      reducePartial sizes (mergedSignature x y) order values := by
    have hlt : ∀ d ∈ order, d < ndim := fun d hd => mem_range.mp (horder.mem_iff.mp hd)
    clear horder
    induction order with
    | nil => exact fun _ => rfl
    | cons d order ih =>
      intro values
      obtain ⟨hd, hlt⟩ := forall_mem_cons.mp hlt
      have hsame : mergedSignature y x d = mergedSignature x y d := by
        simp only [mergedSignature]
        cases hx : x d with
        | none => cases y d <;> rfl
        | some op =>
          cases hy : y d with
          | none => rfl
          | some op' => rw [hcompat d hd op op' hx hy]
      simp only [reducePartial_cons, reduceDim, hsame, ih hlt]
  have heq := hlaw valueX valueY hvalueX hvalueY order horder
  have hcomm : (fun ρ => valueY ρ * valueX ρ) = fun ρ => valueX ρ * valueY ρ :=
    funext fun ρ => mul_comm _ _
  rw [hmerged, hcomm, heq]
  exact funext fun ρ => mul_comm _ _

theorem not_extremum_of_law (hlaw : ProductLaw ndim sizes sharded x y)
    (hpos : ∀ d < ndim, 0 < sizes d) {d : Nat} (hd : d < ndim) (hx : x d = some op)
    (hy : y d = none) : (op ≠ .max ∧ op ≠ .min) ∨ sizes d = 1 := by
  by_contra hcontra
  have hop : op = .max ∨ op = .min := by
    by_contra hnot
    exact hcontra (.inl (by tauto))
  have hsize : 2 ≤ sizes d := by
    have := hpos d hd
    by_contra hlt
    exact hcontra (.inr (by omega))
  obtain ⟨values, hbreak, hzero⟩ := extremum_breaks hsize hop neg_one_lt_zero
  obtain ⟨rest, horder⟩ := exists_order_from [d] (nodup_singleton d) (by simpa using hd)
  have hout : mergedSignature x y d = some op := by simp [mergedSignature, hx]
  have hiff := hlaw.zero_iff hpos horder
    (onAxis_replicates d (by simp [hx]) values) (const_replicates y (-1))
    (by rw [reducePartial_cons, reduceDim_some hout]
        exact reduceAlong_onAxis d _ fun k => values k * -1)
    (by rw [reducePartial_cons, reduceDim_some hx]; exact reduceAlong_onAxis d _ values)
    (by rw [reducePartial_cons, reduceDim_none hy]; rfl)
  exact hbreak (hiff.mpr (.inl hzero))

theorem soundPair_of_law (hcompat : ∀ d < ndim, ∀ op op', x d = some op → y d = some op' → op = op')
    (hlaw : ProductLaw ndim sizes sharded x y) (hpos : ∀ d < ndim, 0 < sizes d) {d : Nat}
    (hd : d < ndim) : SoundPair (sizes d) (x d) (y d) := by
  cases hx : x d with
  | none =>
    cases hy : y d with
    | none => trivial
    | some op => exact not_extremum_of_law (hlaw.symm hcompat) hpos hd hy hx
  | some op =>
    cases hy : y d with
    | none => exact not_extremum_of_law hlaw hpos hd hx hy
    | some op' =>
      obtain rfl := hcompat d hd op op' hx hy
      refine ⟨rfl, ?_⟩
      by_contra hcontra
      simp only [not_or] at hcontra
      obtain ⟨hprod, hall, hone⟩ := hcontra
      have hsize : 2 ≤ sizes d := by
        have := hpos d hd
        omega
      obtain ⟨left, right, hzero, hleft, hright⟩ := both_breaks hsize hprod hall
      obtain ⟨rest, horder⟩ := exists_order_from [d] (nodup_singleton d) (by simpa using hd)
      have hout : mergedSignature x y d = some op := by simp [mergedSignature, hx]
      have hiff := hlaw.zero_iff hpos horder
        (onAxis_replicates d (by simp [hx]) left)
        (onAxis_replicates d (by simp [hy]) right)
        (by rw [reducePartial_cons, reduceDim_some hout]
            exact reduceAlong_onAxis d _ fun k => left k * right k)
        (by rw [reducePartial_cons, reduceDim_some hx]; exact reduceAlong_onAxis d _ left)
        (by rw [reducePartial_cons, reduceDim_some hy]; exact reduceAlong_onAxis d _ right)
      rcases hiff.mp hzero with h | h
      · exact hleft h
      · exact hright h

/-! ## Multiplied up -/

theorem one_lt_equalOver {signature : Signature} {order : List Nat}
    (hpos : ∀ d ∈ order, 0 < sizes d) (hall : ∀ d ∈ order, signature d ≠ some .all)
    {value : ℚ} (h : 1 < value) : 1 < equalOver sizes signature order value := by
  induction order generalizing value with
  | nil => exact h
  | cons d order ih =>
    obtain ⟨hsize, hpos⟩ := forall_mem_cons.mp hpos
    obtain ⟨hd, hall⟩ := forall_mem_cons.mp hall
    refine ih hpos hall ?_
    have hcast : (1 : ℚ) ≤ sizes d := by exact_mod_cast hsize
    cases hop : signature d with
    | none => exact h
    | some op =>
      cases op with
      | sum =>
        calc (1 : ℚ) < value := h
          _ = 1 * value := (one_mul value).symm
          _ ≤ sizes d * value := by gcongr
      | prod => exact one_lt_pow₀ h hsize.ne'
      | all => exact absurd hop hd
      | max | min | avg => exact h

/-- A truth value of `x` alone, at the end of the order. -/
theorem exists_all_of_all (hlaw : ProductLaw ndim sizes sharded x y) (hpos : ∀ d < ndim, 0 < sizes d)
    {d : Nat} (hd : d < ndim) (hx : x d = some .all) (hy : y d = none) :
    ∃ e < ndim, y e = some .all := by
  by_contra hnone
  push Not at hnone
  obtain ⟨rest, horder, -⟩ := exists_order_to [d] (nodup_singleton d) (by simpa using hd)
  have hmem : ∀ e ∈ rest, e < ndim := fun e he =>
    mem_range.mp (horder.mem_iff.mp (mem_append_left _ he))
  have hrest : ∀ e ∈ rest, 0 < sizes e := fun e he => hpos e (hmem e he)
  have hout : mergedSignature x y d = some .all := by simp [mergedSignature, hx]
  have heq := congrFun (hlaw (fun _ => 1) (fun _ => 2) (const_replicates _ _)
    (const_replicates _ _) _ horder) fun _ => 0
  simp only [reducePartial_append, reducePartial_const hrest, reducePartial_cons,
    reducePartial_nil, reduceDim_some hout, reduceDim_some hx, reduceDim_none hy, reduceAlong,
    allReduce_const (hpos d hd), ReduceOp.ofEqual, one_mul] at heq
  rw [truth_of_ne_zero ((equalOver_eq_zero_iff _ hrest _).not.mpr two_ne_zero),
    truth_of_ne_zero ((equalOver_eq_zero_iff _ hrest _).not.mpr one_ne_zero), one_mul] at heq
  have hlt := one_lt_equalOver hrest (fun e he => hnone e (hmem e he)) (one_lt_two (α := ℚ))
  exact hlt.ne heq

theorem equalDim_strict (hsize : 0 < size) {a b : Option ReduceOp} (hpair : SoundPair size a b)
    (ha : a ≠ some .all) (hb : b ≠ some .all) {u v w : ℚ} (hu : 1 ≤ u) (hv : 1 ≤ v)
    (hw : u * v < w) :
    1 ≤ equalDim size a u ∧ 1 ≤ equalDim size b v ∧
      equalDim size a u * equalDim size b v < equalDim size (a.or b) w := by
  have hcast : (1 : ℚ) ≤ size := by exact_mod_cast hsize
  have hpow : u ^ size * v ^ size < w ^ size := by
    rw [← mul_pow]
    exact pow_lt_pow_left₀ hw (by positivity) hsize.ne'
  have hu' : 1 ≤ u ^ size := one_le_pow₀ hu
  have hv' : 1 ≤ v ^ size := one_le_pow₀ hv
  have hule : u * v ^ size ≤ u ^ size * v ^ size :=
    mul_le_mul_of_nonneg_right (le_self_pow₀ hu hsize.ne') (by positivity)
  have hvle : u ^ size * v ≤ u ^ size * v ^ size :=
    mul_le_mul_of_nonneg_left (le_self_pow₀ hv hsize.ne') (by positivity)
  have hsumu : 1 ≤ (size : ℚ) * u := one_le_mul_of_one_le_of_one_le hcast hu
  have hsumv : 1 ≤ (size : ℚ) * v := one_le_mul_of_one_le_of_one_le hcast hv
  have hsum : (size : ℚ) * (u * v) < size * w := by gcongr
  cases a with
  | none =>
    cases b with
    | none => exact ⟨hu, hv, hw⟩
    | some op =>
      cases op with
      | sum => exact ⟨hu, hsumv, by simpa [equalDim, ReduceOp.ofEqual, mul_left_comm] using hsum⟩
      | prod => exact ⟨hu, hv', hule.trans_lt hpow⟩
      | all => exact absurd rfl hb
      | max | min | avg => exact ⟨hu, hv, hw⟩
  | some op =>
    cases b with
    | none =>
      cases op with
      | sum => exact ⟨hsumu, hv, by simpa [equalDim, ReduceOp.ofEqual, mul_assoc] using hsum⟩
      | prod => exact ⟨hu', hv, hvle.trans_lt hpow⟩
      | all => exact absurd rfl ha
      | max | min | avg => exact ⟨hu, hv, hw⟩
    | some op' =>
      obtain ⟨rfl, hop⟩ := hpair
      rcases hop with rfl | rfl | rfl
      · exact ⟨hu', hv', hpow⟩
      · exact absurd rfl ha
      · cases op <;> simp_all [equalDim, ReduceOp.ofEqual]

theorem equalOver_strict {order : List Nat} (hpos : ∀ d ∈ order, 0 < sizes d)
    (hpair : ∀ d ∈ order, SoundPair (sizes d) (x d) (y d)) (hx : ∀ d ∈ order, x d ≠ some .all)
    (hy : ∀ d ∈ order, y d ≠ some .all) {u v w : ℚ} (hu : 1 ≤ u) (hv : 1 ≤ v) (hw : u * v < w) :
    equalOver sizes x order u * equalOver sizes y order v <
      equalOver sizes (mergedSignature x y) order w := by
  induction order generalizing u v w with
  | nil => exact hw
  | cons d order ih =>
    obtain ⟨hsize, hpos⟩ := forall_mem_cons.mp hpos
    obtain ⟨hd, hpair⟩ := forall_mem_cons.mp hpair
    obtain ⟨hxd, hx⟩ := forall_mem_cons.mp hx
    obtain ⟨hyd, hy⟩ := forall_mem_cons.mp hy
    obtain ⟨hu', hv', hw'⟩ := equalDim_strict hsize hd hxd hyd hu hv hw
    exact ih hpos hpair hx hy hu' hv' hw'

theorem exists_all_of_prod (hlaw : ProductLaw ndim sizes sharded x y) (hpos : ∀ d < ndim, 0 < sizes d)
    (hpair : ∀ d < ndim, SoundPair (sizes d) (x d) (y d)) {d : Nat} (hd : d < ndim)
    (hx : x d = some .prod) (hy : y d = none) (hsize : 2 ≤ sizes d) :
    ∃ e < ndim, y e = some .all := by
  by_contra hnone
  push Not at hnone
  have hnoneX : ∀ e < ndim, x e ≠ some .all := by
    intro e he hall
    cases hye : y e with
    | none =>
      obtain ⟨f, hf, hyf⟩ := exists_all_of_all hlaw hpos he hall hye
      exact hnone f hf hyf
    | some op =>
      have hp := hpair e he
      rw [hall, hye] at hp
      exact hnone e he (by rw [hye, ← hp.1])
  obtain ⟨rest, horder⟩ := exists_order_from [d] (nodup_singleton d) (by simpa using hd)
  have hmem : ∀ e ∈ rest, e < ndim := fun e he =>
    mem_range.mp (horder.mem_iff.mp (mem_append_right _ he))
  have hrest : ∀ e ∈ rest, 0 < sizes e := fun e he => hpos e (hmem e he)
  have hout : mergedSignature x y d = some .prod := by simp [mergedSignature, hx]
  have heq := congrFun (hlaw (fun _ => 1) (fun _ => 2) (const_replicates _ _)
    (const_replicates _ _) _ horder) fun _ => 0
  have hconst : ∀ value : ℚ, reduceAlong (ReduceOp.prod.allReduce (sizes d)) d
      (fun _ => value) = fun _ => value ^ sizes d := fun value =>
    funext fun _ => allReduce_prod_const (hpos d hd) value
  simp only [reducePartial_append, reducePartial_cons, reducePartial_nil, reduceDim_some hout,
    reduceDim_some hx, reduceDim_none hy, hconst, reducePartial_const hrest, one_mul,
    one_pow] at heq
  have hlt := equalOver_strict hrest (fun e he => hpair e (hmem e he))
    (fun e he => hnoneX e (hmem e he)) (fun e he => hnone e (hmem e he)) (le_refl (1 : ℚ))
    one_le_two (w := 2 ^ sizes d) (by
      rw [one_mul]
      exact lt_self_pow₀ one_lt_two hsize)
  exact hlt.ne heq.symm

/-! ## Multiplied up and summed -/

/-- Opposite values on two ranks, whose sum hides that they are there. -/
def opposites : Nat → ℚ := fun k => spike 0 1 k + spike 1 (-1) k

section

variable (hsize : 2 ≤ size) (hop : op = .sum ∨ op = .avg)

include hsize hop

theorem linear_opposites :
    op.allReduce size opposites = 0 ∧ op.allReduce size (fun k => truth (opposites k)) ≠ 0 := by
  have hpos : 0 < size := by omega
  have hlater : ∀ k, 2 ≤ k → opposites k = 0 := fun k hk => by
    rw [opposites, spike_later (by omega) _ hk, spike_later le_rfl _ hk, add_zero]
  have hsum : ReduceOp.sum.allReduce size opposites = 0 := by
    rw [sum_of_two hsize hlater]
    simp [opposites, spike]
  have htruth : ReduceOp.sum.allReduce size (fun k => truth (opposites k)) ≠ 0 := by
    rw [sum_of_two hsize fun k hk => by rw [hlater k hk]; rfl]
    norm_num [opposites, spike, truth]
  rcases hop with rfl | rfl
  · exact ⟨hsum, htruth⟩
  · exact ⟨(avg_eq_zero_iff hpos _).mpr hsum, (avg_eq_zero_iff hpos _).not.mpr htruth⟩

theorem linear_leaves_truth :
    ∃ values : Nat → ℚ, (∀ k, values k = 0 ∨ values k = 1) ∧
      ∀ n, 2 ≤ n → op.allReduce size values ^ n ≠ op.allReduce size values := by
  have hcast : (1 : ℚ) < size := by exact_mod_cast hsize
  rcases hop with rfl | rfl
  · refine ⟨fun _ => 1, fun _ => .inr rfl, fun n hn => ?_⟩
    rw [allReduce_sum_const (by omega), mul_one]
    exact (lt_self_pow₀ hcast hn).ne'
  · refine ⟨spike 0 1, fun k => by by_cases h : k = 0 <;> simp [spike, h], fun n hn => ?_⟩
    have havg : ReduceOp.avg.allReduce size (spike 0 1) = 1 / size := by
      have hsum := sum_of_two hsize fun k hk => spike_later (Nat.zero_le 1) 1 hk
      simp only [ReduceOp.allReduce] at hsum ⊢
      rw [hsum]
      simp [spike]
    have hlt : (1 / size : ℚ) < 1 := (div_lt_one (by linarith)).mpr hcast
    rw [havg]
    exact (pow_lt_self_of_lt_one₀ (by positivity) hlt hn).ne

theorem not_pending_with_linear {a : Option ReduceOp} (h : SoundPair size a (some op)) :
    a = none := by
  cases a with
  | none => rfl
  | some op' =>
    obtain ⟨rfl, hcase⟩ := h
    rcases hop with rfl | rfl <;> simp at hcase <;> omega

end

section

variable {d e : Nat} (hlaw : ProductLaw ndim sizes sharded x y) (hpos : ∀ d < ndim, 0 < sizes d)

include hlaw hpos

theorem linear_of_all (hpair : ∀ d < ndim, SoundPair (sizes d) (x d) (y d)) (hd : d < ndim)
    (he : e < ndim) (hx : x d = some .all) (hy : y d = none) (hop : op = .sum ∨ op = .avg)
    (hye : y e = some op) : sizes e = 1 := by
  by_contra hone
  have hsize : 2 ≤ sizes e := by
    have := hpos e he
    omega
  have hne : e ≠ d := by
    rintro rfl
    simp [hy] at hye
  have hxe : x e = none := not_pending_with_linear hsize hop (hye ▸ hpair e he)
  obtain ⟨rest, horder⟩ := exists_order_from [d, e]
    (by simpa using hne.symm)
    (show ∀ f ∈ [d, e], f < ndim by simp [hd, he])
  have hout : mergedSignature x y d = some .all := by simp [mergedSignature, hx]
  have houte : mergedSignature x y e = some op := by simp [mergedSignature, hxe, hye]
  have htruth : ∀ values : Nat → ℚ, reduceAlong (ReduceOp.all.allReduce (sizes d)) d
      (onAxis e values) = onAxis e fun k => truth (values k) := by
    intro values
    rw [reduceAlong_onAxis_of_ne hne.symm]
    simp only [allReduce_const (hpos d hd), ReduceOp.ofEqual]
  obtain ⟨hhidden, hthere⟩ := linear_opposites hsize hop
  have hiff := hlaw.zero_iff hpos horder (const_replicates x 1)
    (onAxis_replicates e (by simp [hye]) opposites)
    (o := op.allReduce (sizes e) fun k => truth (opposites k)) (a := 1)
    (b := op.allReduce (sizes e) opposites)
    (by simp only [one_mul, reducePartial_cons, reducePartial_nil, reduceDim_some hout, htruth,
          reduceDim_some houte, reduceAlong_onAxis])
    (by simp only [reducePartial_cons, reducePartial_nil, reduceDim_some hx, reduceDim_none hxe]
        funext ρ
        simp [reduceAlong, allReduce_const (hpos d hd), ReduceOp.ofEqual, truth])
    (by simp only [reducePartial_cons, reducePartial_nil, reduceDim_none hy, reduceDim_some hye,
          reduceAlong_onAxis])
  exact hthere (hiff.mpr (.inr hhidden))

theorem exists_all_both (hcompat : ∀ d < ndim, ∀ op op', x d = some op → y d = some op' → op = op')
    (hpair : ∀ d < ndim, SoundPair (sizes d) (x d) (y d)) (hd : d < ndim) (he : e < ndim)
    (hx : x d = some .prod) (hy : y d = none) (hsize : 2 ≤ sizes d) (hop : op = .sum ∨ op = .avg)
    (hye : y e = some op) (hne : sizes e ≠ 1) : ∃ a < ndim, x a = some .all ∧ y a = some .all := by
  obtain ⟨a, ha, hya⟩ := exists_all_of_prod hlaw hpos hpair hd hx hy hsize
  cases hxa : x a with
  | some op' => exact ⟨a, ha, by rw [hxa, hcompat a ha op' .all hxa hya], hya⟩
  | none =>
    obtain ⟨b, hb, hxb⟩ := exists_all_of_all (hlaw.symm hcompat) hpos ha hya hxa
    cases hyb : y b with
    | some op' => exact ⟨b, hb, hxb, by rw [hyb, hcompat b hb .all op' hxb hyb]⟩
    | none => exact absurd (linear_of_all hlaw hpos hpair hb he hxb hyb hop hye) hne

theorem linear_of_prod (hcompat : ∀ d < ndim, ∀ op op', x d = some op → y d = some op' → op = op')
    (hpair : ∀ d < ndim, SoundPair (sizes d) (x d) (y d)) (hd : d < ndim) (he : e < ndim)
    (hx : x d = some .prod) (hy : y d = none) (hsize : 2 ≤ sizes d) (hop : op = .sum ∨ op = .avg)
    (hye : y e = some op) : sizes e = 1 := by
  by_contra hone
  have hsizee : 2 ≤ sizes e := by
    have := hpos e he
    omega
  obtain ⟨a, ha, hxa, hya⟩ := exists_all_both hlaw hpos hcompat hpair hd he hx hy hsize hop hye hone
  have hxe : x e = none := not_pending_with_linear hsizee hop (hye ▸ hpair e he)
  have hae : a ≠ e := by rintro rfl; simp [hxe] at hxa
  have had : a ≠ d := by rintro rfl; simp [hy] at hya
  have hed : e ≠ d := by rintro rfl; simp [hy] at hye
  obtain ⟨rest, horder, hnot⟩ := exists_order_to [a, e, d]
    (by simp [hae, had, hed])
    (show ∀ f ∈ [a, e, d], f < ndim by simp [ha, he, hd])
  have hrest : ∀ f ∈ rest, 0 < sizes f := fun f hf =>
    hpos f (mem_range.mp (horder.mem_iff.mp (mem_append_left _ hf)))
  have henot : e ∉ rest := hnot e (by simp)
  obtain ⟨values, hcases, hbreak⟩ := linear_leaves_truth hsizee hop
  have houta : mergedSignature x y a = some .all := by simp [mergedSignature, hxa]
  have houte : mergedSignature x y e = some op := by simp [mergedSignature, hxe, hye]
  have houtd : mergedSignature x y d = some .prod := by simp [mergedSignature, hx]
  -- read as truth values, what the earlier dimensions made of the values is forgotten
  have hread : ∀ signature : Signature, reduceAlong (ReduceOp.all.allReduce (sizes a)) a
      (onAxis e fun k => equalOver sizes signature rest (values k)) = onAxis e values := by
    intro signature
    rw [reduceAlong_onAxis_of_ne hae]
    congr 1
    funext k
    rw [allReduce_const (hpos a ha), ReduceOp.ofEqual,
      truth_congr (equalOver_eq_zero_iff _ hrest _), truth_of_cases (hcases k)]
  have hone : reduceAlong (ReduceOp.all.allReduce (sizes a)) a
      (fun _ => equalOver sizes x rest 1) = fun _ => 1 := by
    funext ρ
    simp only [reduceAlong, allReduce_const (hpos a ha), ReduceOp.ofEqual]
    exact truth_of_ne_zero ((equalOver_eq_zero_iff _ hrest _).not.mpr one_ne_zero)
  have hprod : ∀ value : ℚ, reduceAlong (ReduceOp.prod.allReduce (sizes d)) d
      (fun _ => value) = fun _ => value ^ sizes d := fun value =>
    funext fun _ => allReduce_prod_const (hpos d hd) value
  have heq := congrFun (hlaw (fun _ => 1) (onAxis e values) (const_replicates _ _)
    (onAxis_replicates e (by simp [hye]) _) _ horder) fun _ => 0
  simp only [one_mul, reducePartial_append, reducePartial_onAxis hrest henot,
    reducePartial_const hrest, reducePartial_cons, reducePartial_nil, reduceDim_some houta,
    reduceDim_some houte, reduceDim_some houtd, reduceDim_some hxa, reduceDim_some hya,
    reduceDim_none hxe, reduceDim_some hye, reduceDim_some hx, reduceDim_none hy, hread, hone,
    reduceAlong_onAxis, hprod, one_pow] at heq
  exact hbreak _ hsize heq

end

theorem settled_of_law (hlaw : ProductLaw ndim sizes sharded x y) (hpos : ∀ d < ndim, 0 < sizes d)
    (hcompat : ∀ d < ndim, ∀ op op', x d = some op → y d = some op' → op = op') :
    Settled ndim sizes y x := by
  have hpair : ∀ d < ndim, SoundPair (sizes d) (x d) (y d) := fun d hd =>
    soundPair_of_law hcompat hlaw hpos hd
  rintro ⟨d, hd, hy, hx⟩
  rcases hx with hx | ⟨hx, hsize⟩
  · refine ⟨exists_all_of_all hlaw hpos hd hx hy, fun e he hop => ?_⟩
    rcases hop with hye | hye
    · exact linear_of_all hlaw hpos hpair hd he hx hy (.inl rfl) hye
    · exact linear_of_all hlaw hpos hpair hd he hx hy (.inr rfl) hye
  · refine ⟨exists_all_of_prod hlaw hpos hpair hd hx hy hsize, fun e he hop => ?_⟩
    rcases hop with hye | hye
    · exact linear_of_prod hlaw hpos hcompat hpair hd he hx hy hsize (.inl rfl) hye
    · exact linear_of_prod hlaw hpos hcompat hpair hd he hx hy hsize (.inr rfl) hye

theorem productLaw_iff (hpos : ∀ d < ndim, 0 < sizes d)
    (hfree : ∀ d < ndim, x d ≠ none ∨ y d ≠ none → ¬sharded d)
    (hcompat : ∀ d < ndim, ∀ op op', x d = some op → y d = some op' → op = op') :
    ProductLaw ndim sizes sharded x y ↔ SoundProduct ndim sizes x y := by
  refine ⟨fun hlaw => ⟨fun d hd => soundPair_of_law hcompat hlaw hpos hd, ?_, ?_⟩,
    fun hsound => hsound.productLaw hpos hfree⟩
  · refine settled_of_law (hlaw.symm hcompat) hpos fun d hd op op' hy hx => ?_
    exact (hcompat d hd op' op hx hy).symm
  · exact settled_of_law hlaw hpos hcompat

end HyperParallel.Shard
