import HyperParallel.Losses.CrossEntropy

/-!
# When the sharded loss is the plain one

The condition says which inputs are safe; a single target in a shard beyond the
longer ones, an unreduced loss over two ranks, or a mean over less than the
clamp of the backward pass each break the equality.
-/

namespace HyperParallel.Losses

open Finset DTensor Foundation

attribute [local instance] tenAtLeastTwo

def AgreesWhen (args : LossArgs) (vocabSize tpSize : ℕ) : Prop :=
  match args.reduction with
  | .none => tpSize = 1 ∨ ∀ row < args.batchSize, args.rowWeight row = 0
  | .sum => Located args vocabSize tpSize
  | .mean => Located args vocabSize tpSize ∧ (1 / 10 ^ 12 ≤ args.targetWeight ∨ vocabSize = 1)

section Agreement

variable {args : LossArgs} {vocabSize tpSize : ℕ} {x : ℕ → ℕ → ℝ}

theorem wellPlaced_of_one (vocabSize t : ℕ) : WellPlaced vocabSize 1 t :=
  .inl (Nat.mod_one vocabSize)

theorem AgreesWhen.located (h : AgreesWhen args vocabSize tpSize) :
    Located args vocabSize tpSize := by
  unfold AgreesWhen at h
  cases hred : args.reduction with
  | none =>
    rw [hred] at h
    rcases h with rfl | hzero
    · exact fun row _ _ => wellPlaced_of_one vocabSize _
    · exact fun row hrow hweight => absurd (hzero row hrow) hweight
  | sum =>
    rw [hred] at h
    exact h
  | mean =>
    rw [hred] at h
    exact h.1

variable {row : ℕ}

theorem picked_iff_target (htp : 0 < tpSize) (hvalid : ValidTargets args vocabSize)
    (hlocated : Located args vocabSize tpSize) {rank c : ℕ} (hrow : row < args.batchSize)
    (hc : c < shardSize vocabSize tpSize rank) (hweight : args.rowWeight row ≠ 0) :
    (Picks args vocabSize tpSize rank row ∧
      shardStart vocabSize tpSize rank + c = pickedClass args vocabSize tpSize rank row) ↔
        shardStart vocabSize tpSize rank + c = (args.target row).toNat := by
  obtain ⟨hne, hnonneg, -⟩ := target_of_rowWeight hvalid hrow hweight
  constructor
  · rintro ⟨hpicks, hclass⟩
    obtain ⟨owner, -, howner⟩ := picks_of_located htp hvalid hlocated hrow hweight
    obtain rfl := (howner rank).1.mp hpicks
    rw [hclass, (howner rank).2]
  · intro hclass
    have hsame := (claims_iff_wellPlaced htp (Nat.le.intro hclass) (by omega)).mpr
      (hlocated row hrow hweight)
    refine ⟨(picks_iff hne hnonneg).mpr ⟨by omega, by omega⟩, ?_⟩
    rw [pickedClass, hsame, hclass]
    omega

theorem totalWeight_eq (htp : 0 < tpSize) (hvalid : ValidTargets args vocabSize)
    (hlocated : Located args vocabSize tpSize) (hmean : args.reduction = .mean) :
    totalWeight args vocabSize (shardLogits vocabSize tpSize x) = args.targetWeight := by
  simp only [totalWeight, hmean]
  exact sum_localWeight htp hvalid hlocated

theorem AgreesWhen.loss (htp : 0 < tpSize) (hvocab : 0 < vocabSize)
    (hvalid : ValidTargets args vocabSize) (hmean : args.reduction = .mean → args.targetWeight ≠ 0)
    (h : AgreesWhen args vocabSize tpSize) {rank : ℕ} (hrank : rank < tpSize) :
    ∃ loss, forward args vocabSize (shardLogits vocabSize tpSize x) rank = some loss ∧
      ∀ k < args.lossSize, loss k = args.crossEntropy vocabSize x k := by
  have hlocated := h.located
  have hall : ∑ rank ∈ range tpSize, ∑ row ∈ range args.batchSize,
      pickedLoss args vocabSize tpSize x rank row =
        ∑ row ∈ range args.batchSize, args.rowLoss vocabSize x row := by
    rw [sum_comm]
    exact sum_congr rfl fun row hrow => sum_pickedLoss htp hvalid hlocated (mem_range.mp hrow)
  cases hred : args.reduction with
  | none =>
    simp only [forward, hred]
    refine ⟨_, rfl, fun k hk => ?_⟩
    rw [localNll_loss htp hvocab rank hk]
    simp only [hred, LossArgs.crossEntropy]
    simp only [LossArgs.lossSize, hred] at hk
    simp only [AgreesWhen, hred] at h
    rcases h with rfl | hzero
    · obtain rfl : rank = 0 := by omega
      rw [← sum_pickedLoss htp hvalid hlocated hk, sum_range_one]
    · rw [pickedLoss, LossArgs.rowLoss, hzero k hk, zero_mul, zero_mul, ite_self]
  | sum =>
    simp only [forward, hred]
    refine ⟨_, rfl, fun k hk => ?_⟩
    have hlocal : ∀ other ∈ range tpSize,
        (localNll args vocabSize (shardLogits vocabSize tpSize x) other).1 k =
          ∑ row ∈ range args.batchSize, pickedLoss args vocabSize tpSize x other row := by
      intro other _
      rw [localNll_loss htp hvocab other hk]
      simp only [hred]
    simp only [LossArgs.crossEntropy, hred]
    exact (sum_congr rfl hlocal).trans hall
  | mean =>
    have hweight := hmean hred
    simp only [forward, hred, totalWeight_eq htp hvalid hlocated hred, if_neg hweight]
    refine ⟨_, rfl, fun k hk => ?_⟩
    have hlocal : ∀ other ∈ range tpSize,
        (localNll args vocabSize (shardLogits vocabSize tpSize x) other).1 k =
          ∑ row ∈ range args.batchSize, pickedLoss args vocabSize tpSize x other row := by
      intro other _
      rw [localNll_loss htp hvocab other hk]
      simp only [hred]
    simp only [LossArgs.crossEntropy, hred]
    exact congrArg (· / args.targetWeight) ((sum_congr rfl hlocal).trans hall)

theorem class_lt (htp : 0 < tpSize) {rank c : ℕ} (hrank : rank < tpSize)
    (hc : c < shardSize vocabSize tpSize rank) :
    shardStart vocabSize tpSize rank + c < vocabSize := by
  have hmono := @shardStart_mono vocabSize tpSize (rank + 1) tpSize hrank
  rw [shardStart_succ, shardStart_last htp] at hmono
  omega

theorem softmaxMinus_congr {c : ℕ} {p q : Prop} [Decidable p] [Decidable q] (h : p ↔ q) :
    softmaxMinus vocabSize x row c p = softmaxMinus vocabSize x row c q := by
  rw [softmaxMinus, softmaxMinus, if_congr h rfl rfl]

theorem softmaxMinus_single {picked : Prop} [Decidable picked] (hpicked : picked) :
    softmaxMinus 1 x row 0 picked = 0 := by
  have hsum := sum_softmax (nonempty_range_iff.mpr one_ne_zero) (x row)
  rw [sum_range_one] at hsum
  rw [softmaxMinus, if_pos hpicked, hsum, sub_self]

theorem AgreesWhen.gradient (htp : 0 < tpSize) (hvocab : 0 < vocabSize)
    (hvalid : ValidTargets args vocabSize) (h : AgreesWhen args vocabSize tpSize) {rank c : ℕ}
    (hrank : rank < tpSize) (gradOutput : ℕ → ℝ) (hrow : row < args.batchSize)
    (hc : c < shardSize vocabSize tpSize rank) :
    HasDerivAt
      (fun v => args.upstreamLoss vocabSize gradOutput
        (withLogit x row (shardStart vocabSize tpSize rank + c) v))
      (computeCrossEntropyGradient args
        (savedContext args vocabSize (shardLogits vocabSize tpSize x) rank) gradOutput row c)
      (x row (shardStart vocabSize tpSize rank + c)) := by
  have hclass := class_lt htp hrank hc
  have hderiv : HasDerivAt
      (fun v => args.upstreamLoss vocabSize gradOutput
        (withLogit x row (shardStart vocabSize tpSize rank + c) v)) _ _ :=
    hasDerivAt_upstreamLoss gradOutput hrow hclass
  rw [gradient_eq htp hvocab gradOutput hrow]
  refine hderiv.congr_deriv ?_
  by_cases hweight : args.rowWeight row = 0
  · rw [hweight, mul_zero, mul_zero, zero_mul, zero_mul]
  · have hiff := picked_iff_target htp hvalid h.located hrow hc hweight
    rw [softmaxMinus_congr hiff]
    cases hred : args.reduction with
    | none => simp only [plainScale, backwardScale, hred]
    | sum => simp only [plainScale, backwardScale, hred]
    | mean =>
      simp only [AgreesWhen, hred] at h
      simp only [plainScale, backwardScale, hred, totalWeight_eq htp hvalid h.1 hred]
      rcases h.2 with hclamp | rfl
      · rw [max_eq_left hclamp]
      · obtain ⟨-, hnonneg, hlt⟩ := target_of_rowWeight hvalid hrow hweight
        have hzero : shardStart 1 tpSize rank + c = 0 := by omega
        rw [hzero, softmaxMinus_single (by omega), mul_zero, mul_zero]

/-! ## Nothing else agrees -/

section

variable (htp : 0 < tpSize) (hvocab : 0 < vocabSize) (h : EqualsPlain args vocabSize tpSize x)

include htp hvocab h

theorem EqualsPlain.entry {rank c : ℕ} (hrank : rank < tpSize) (hrow : row < args.batchSize)
    (hc : c < shardSize vocabSize tpSize rank) (gradOutput : ℕ → ℝ) :
    backwardScale args (totalWeight args vocabSize (shardLogits vocabSize tpSize x)) gradOutput
        row * args.rowWeight row *
      softmaxMinus vocabSize x row (shardStart vocabSize tpSize rank + c)
        (Picks args vocabSize tpSize rank row ∧
          shardStart vocabSize tpSize rank + c = pickedClass args vocabSize tpSize rank row) =
    plainScale args gradOutput row * args.rowWeight row *
      softmaxMinus vocabSize x row (shardStart vocabSize tpSize rank + c)
        (shardStart vocabSize tpSize rank + c = (args.target row).toNat) := by
  rw [← gradient_eq htp hvocab gradOutput hrow]
  exact (h.gradient rank hrank gradOutput row hrow c hc).unique
    (hasDerivAt_upstreamLoss gradOutput hrow (class_lt htp hrank hc))

theorem EqualsPlain.scale_eq {d : ℕ} (hrow : row < args.batchSize)
    (hweight : args.rowWeight row ≠ 0) (hd : d < vocabSize) (htarget : d ≠ (args.target row).toNat)
    (hpicked : ∀ rank, Picks args vocabSize tpSize rank row →
      d ≠ pickedClass args vocabSize tpSize rank row)
    (gradOutput : ℕ → ℝ) :
    backwardScale args (totalWeight args vocabSize (shardLogits vocabSize tpSize x)) gradOutput
      row = plainScale args gradOutput row := by
  obtain ⟨rank, hrank, hstart, hstop⟩ := exists_owner htp hd
  have hentry := h.entry htp hvocab hrank hrow
    (show d - shardStart vocabSize tpSize rank < shardSize vocabSize tpSize rank by omega) gradOutput
  rw [Nat.add_sub_cancel' hstart, softmaxMinus, softmaxMinus, if_neg htarget,
    if_neg fun hboth => hpicked rank hboth.1 hboth.2, sub_zero] at hentry
  have hsoftmax : softmax (range vocabSize) (x row) d ≠ 0 := (softmax_pos (x row) d).ne'
  exact mul_right_cancel₀ hweight (mul_right_cancel₀ hsoftmax hentry)

/-- Where the holder of the target does not find it, the backward scale cannot be positive and
the plain one. -/
theorem EqualsPlain.not_same_scale (hvalid : ValidTargets args vocabSize)
    (hrow : row < args.batchSize) (hweight : args.rowWeight row ≠ 0)
    (hlost : ¬WellPlaced vocabSize tpSize (args.target row).toNat) (gradOutput : ℕ → ℝ)
    (hsame : backwardScale args (totalWeight args vocabSize (shardLogits vocabSize tpSize x))
      gradOutput row = plainScale args gradOutput row) :
    plainScale args gradOutput row = 0 := by
  obtain ⟨hne, hnonneg, hlt⟩ := target_of_rowWeight hvalid hrow hweight
  have hclass : (args.target row).toNat < vocabSize := by omega
  obtain ⟨rank, hrank, hstart, hstop⟩ := exists_owner htp hclass
  have hstarts : computeVocabStart vocabSize tpSize rank ≠ shardStart vocabSize tpSize rank :=
    fun heq => hlost ((claims_iff_wellPlaced htp hstart hstop).mp heq)
  have hentry := h.entry htp hvocab hrank hrow
    (show (args.target row).toNat - shardStart vocabSize tpSize rank <
      shardSize vocabSize tpSize rank by omega) gradOutput
  have hunpicked : ¬(Picks args vocabSize tpSize rank row ∧
      (args.target row).toNat = pickedClass args vocabSize tpSize rank row) := by
    rintro ⟨hpicks, hplace⟩
    have hmask := hpicks.1.1
    rw [pickedClass] at hplace
    omega
  rw [Nat.add_sub_cancel' hstart, softmaxMinus, softmaxMinus, if_neg hunpicked, if_pos rfl,
    hsame, sub_zero] at hentry
  have hscaled : plainScale args gradOutput row * args.rowWeight row = 0 := by linarith
  exact (mul_eq_zero.mp hscaled).resolve_right hweight

end

theorem three_le_of_not_wellPlaced {t : ℕ} (hle : tpSize ≤ vocabSize) (htp : 0 < tpSize)
    (h : ¬WellPlaced vocabSize tpSize t) : 3 ≤ t := by
  rw [WellPlaced, not_or, not_lt] at h
  have hquotient : 1 ≤ vocabSize / tpSize := (Nat.one_le_div_iff htp).mpr hle
  have hmul : 1 * (vocabSize / tpSize + 1) ≤
      vocabSize % tpSize * (vocabSize / tpSize + 1) :=
    Nat.mul_le_mul_right _ (Nat.one_le_iff_ne_zero.mpr h.1)
  omega

theorem exists_free_class (args : LossArgs) (htp : 0 < tpSize) :
    ∃ d < 3, d ≠ (args.target row).toNat ∧
      ∀ rank, Picks args vocabSize tpSize rank row →
        d ≠ pickedClass args vocabSize tpSize rank row := by
  have hfree : ∀ a b : ℕ, ∃ d < 3, d ≠ a ∧ d ≠ b := by
    intro a b
    by_cases h0 : 0 ≠ a ∧ 0 ≠ b
    · exact ⟨0, by omega, h0⟩
    · by_cases h1 : 1 ≠ a ∧ 1 ≠ b
      · exact ⟨1, by omega, h1⟩
      · exact ⟨2, by omega, by omega, by omega⟩
  by_cases hany : ∃ rank, Picks args vocabSize tpSize rank row
  · obtain ⟨picker, hpicker⟩ := hany
    obtain ⟨d, hd, htarget, hother⟩ := hfree (args.target row).toNat
      (pickedClass args vocabSize tpSize picker row)
    refine ⟨d, hd, htarget, fun rank hrank => ?_⟩
    rw [hrank.unique htp hpicker]
    exact hother
  · obtain ⟨d, hd, htarget, -⟩ := hfree (args.target row).toNat 0
    exact ⟨d, hd, htarget, fun rank hrank => absurd ⟨rank, hrank⟩ hany⟩

theorem EqualsPlain.located (htp : 0 < tpSize) (hle : tpSize ≤ vocabSize)
    (hvalid : ValidTargets args vocabSize) (hred : args.reduction ≠ .none)
    (hmean : args.reduction = .mean → args.targetWeight ≠ 0)
    (h : EqualsPlain args vocabSize tpSize x) : Located args vocabSize tpSize := by
  intro row hrow hweight
  by_contra hlost
  obtain ⟨-, hnonneg, hlt⟩ := target_of_rowWeight hvalid hrow hweight
  have hthree := three_le_of_not_wellPlaced hle htp hlost
  obtain ⟨d, hd, htarget, hpicked⟩ := exists_free_class args htp
  have hsame := h.scale_eq htp (by omega) hrow hweight (by omega) htarget hpicked fun _ => 1
  have hzero := h.not_same_scale htp (by omega) hvalid hrow hweight hlost (fun _ => 1) hsame
  cases hcase : args.reduction with
  | none => exact hred hcase
  | sum =>
    simp only [plainScale, hcase] at hzero
    exact one_ne_zero hzero
  | mean =>
    simp only [plainScale, hcase] at hzero
    exact one_div_ne_zero (hmean hcase) hzero

theorem EqualsPlain.unreduced (htp : 0 < tpSize) (hle : tpSize ≤ vocabSize)
    (hvalid : ValidTargets args vocabSize) (hred : args.reduction = .none)
    (h : EqualsPlain args vocabSize tpSize x) (htwo : tpSize ≠ 1) (hrow : row < args.batchSize) :
    args.rowWeight row = 0 := by
  by_contra hweight
  obtain ⟨-, hnonneg, hlt⟩ := target_of_rowWeight hvalid hrow hweight
  have hrank : ∃ rank < tpSize, ¬Picks args vocabSize tpSize rank row := by
    by_cases hfirst : Picks args vocabSize tpSize 0 row
    · exact ⟨1, by omega, fun hsecond => absurd (hfirst.unique htp hsecond) (by omega)⟩
    · exact ⟨0, htp, hfirst⟩
  obtain ⟨rank, hrank, hunpicked⟩ := hrank
  obtain ⟨loss, hloss, hequal⟩ := h.loss rank hrank
  simp only [forward, hred, Option.some.injEq] at hloss
  have hk : row < args.lossSize := by
    simp only [LossArgs.lossSize, hred]
    exact hrow
  have hplain := hequal row hk
  rw [← hloss, localNll_loss htp (by omega) rank hk] at hplain
  simp only [hred, LossArgs.crossEntropy] at hplain
  rw [pickedLoss, if_neg hunpicked, LossArgs.rowLoss] at hplain
  have hother : ∃ d ∈ range vocabSize, d ≠ (args.target row).toNat := by
    by_cases hzero : 0 = (args.target row).toNat
    · exact ⟨1, mem_range.mpr (by omega), by omega⟩
    · exact ⟨0, mem_range.mpr (by omega), hzero⟩
  obtain ⟨d, hd, hne⟩ := hother
  have hpositive := lt_logSumExp (x := x row) (mem_range.mpr (by omega)) hd hne
  rcases mul_eq_zero.mp hplain.symm with hzero | hzero
  · exact hweight hzero
  · linarith

theorem EqualsPlain.unclamped (htp : 0 < tpSize)
    (hvalid : ValidTargets args vocabSize) (hred : args.reduction = .mean)
    (hmean : args.targetWeight ≠ 0) (h : EqualsPlain args vocabSize tpSize x)
    (hlocated : Located args vocabSize tpSize) (hmany : vocabSize ≠ 1) :
    1 / 10 ^ 12 ≤ args.targetWeight := by
  obtain ⟨row, hrow, hweight⟩ := exists_ne_zero_of_sum_ne_zero hmean
  have hrow := mem_range.mp hrow
  obtain ⟨-, hnonneg, hlt⟩ := target_of_rowWeight hvalid hrow hweight
  obtain ⟨owner, -, howner⟩ := picks_of_located htp hvalid hlocated hrow hweight
  have hother : ∃ d < vocabSize, d ≠ (args.target row).toNat := by
    by_cases hzero : 0 = (args.target row).toNat
    · exact ⟨1, by omega, by omega⟩
    · exact ⟨0, by omega, hzero⟩
  obtain ⟨d, hd, hne⟩ := hother
  have hpicked : ∀ rank, Picks args vocabSize tpSize rank row →
      d ≠ pickedClass args vocabSize tpSize rank row := by
    intro rank hrank
    rw [(howner rank).1.mp hrank, (howner rank).2]
    exact hne
  have hsame := h.scale_eq htp (by omega) hrow hweight hd hne hpicked fun _ => 1
  simp only [backwardScale, plainScale, hred, totalWeight_eq htp hvalid hlocated hred] at hsame
  have hinverse : max args.targetWeight (1 / 10 ^ 12) = args.targetWeight :=
    inv_injective (by simpa only [one_div] using hsame)
  exact max_eq_left_iff.mp hinverse

/-- For every input: the sharded loss and its gradient are the plain ones exactly then. -/
theorem equalsPlain_iff (htp : 0 < tpSize) (hle : tpSize ≤ vocabSize)
    (hvalid : ValidTargets args vocabSize)
    (hmean : args.reduction = .mean → args.targetWeight ≠ 0) :
    EqualsPlain args vocabSize tpSize x ↔ AgreesWhen args vocabSize tpSize := by
  have hvocab : 0 < vocabSize := by omega
  constructor
  · intro h
    cases hred : args.reduction with
    | none =>
      simp only [AgreesWhen, hred]
      by_cases hone : tpSize = 1
      · exact .inl hone
      · exact .inr fun row hrow => h.unreduced htp hle hvalid hred hone hrow
    | sum =>
      simp only [AgreesWhen, hred]
      exact h.located htp hle hvalid (by simp [hred]) hmean
    | mean =>
      have hlocated := h.located htp hle hvalid (by simp [hred]) hmean
      simp only [AgreesWhen, hred]
      refine ⟨hlocated, ?_⟩
      by_cases hone : vocabSize = 1
      · exact .inr hone
      · exact .inl (h.unclamped htp hvalid hred (hmean hred) hlocated hone)
  · intro h
    exact ⟨fun rank hrank => h.loss htp hvocab hvalid hmean hrank,
      fun rank hrank gradOutput row hrow c hc =>
        h.gradient htp hvocab hvalid hrank gradOutput hrow hc⟩

noncomputable def twoRows : LossArgs where
  batchSize := 2
  target row := if row = 0 then 4 else -100
  weight := none
  ignoreIndex := -100
  reduction := .sum

theorem equalsPlain_iff_twoRows : EqualsPlain twoRows 5 2 fun _ _ => 0 := by
  refine (equalsPlain_iff (by decide) (by decide) ?_ (by simp [twoRows])).mpr ?_
  · intro row _
    rcases Nat.eq_zero_or_pos row with rfl | hpos
    · exact .inr (by decide)
    · exact .inl (if_neg hpos.ne')
  · intro row _ _
    rcases Nat.eq_zero_or_pos row with rfl | hpos
    · exact .inr (by decide)
    · refine .inr ?_
      rw [show twoRows.target row = -100 from if_neg hpos.ne']
      decide

noncomputable def lastOfFour : LossArgs where
  batchSize := 1
  target _ := 3
  weight := none
  ignoreIndex := -100
  reduction := .sum

theorem equalsPlain_fails_lastOfFour : ¬EqualsPlain lastOfFour 4 3 fun _ _ => 0 := by
  intro h
  have hvalid : ValidTargets lastOfFour 4 := fun _ _ =>
    .inr (show (0 : ℤ) ≤ 3 ∧ (3 : ℤ) < 4 by decide)
  have hlocated := h.located (by decide) (by decide) hvalid (by decide) (by decide)
  have hweight : lastOfFour.rowWeight 0 ≠ 0 := by
    rw [LossArgs.rowWeight, if_neg (by decide)]
    exact one_ne_zero
  exact absurd (hlocated 0 Nat.one_pos hweight) (by decide)

end Agreement

end HyperParallel.Losses
