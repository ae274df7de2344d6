import HyperParallel.Losses.VocabParallel

/-!
# The class ranges of the ranks

A rank recomputes where its classes start with a ceiling division, while its
shard was cut by balanced chunks.  The two agree on the ranks up to the number
of longer shards, and on every rank when all shards are equally long.
-/

namespace HyperParallel.Losses

open Finset DTensor

variable {vocabSize tpSize : ℕ}

/-- A class whose owner, by the shards, also claims it. -/
def WellPlaced (vocabSize tpSize t : ℕ) : Prop :=
  vocabSize % tpSize = 0 ∨ t < vocabSize % tpSize * (vocabSize / tpSize + 1) + vocabSize / tpSize

instance (vocabSize tpSize t : ℕ) : Decidable (WellPlaced vocabSize tpSize t) :=
  inferInstanceAs (Decidable (_ ∨ _))

theorem shardStart_eq (rank : ℕ) :
    shardStart vocabSize tpSize rank =
      rank * (vocabSize / tpSize) + min rank (vocabSize % tpSize) := rfl

theorem shardSize_eq (rank : ℕ) :
    shardSize vocabSize tpSize rank =
      vocabSize / tpSize + if rank < vocabSize % tpSize then 1 else 0 := by
  simp only [shardSize, inferBalancedChunkRange, Nat.add_assoc, Nat.add_sub_add_left,
    Nat.add_sub_cancel_left]

theorem shardStart_succ (rank : ℕ) :
    shardStart vocabSize tpSize (rank + 1) =
      shardStart vocabSize tpSize rank + shardSize vocabSize tpSize rank := by
  rw [shardStart_eq, shardStart_eq, shardSize_eq, Nat.succ_mul]
  split <;> omega

theorem shardStart_mono {r k : ℕ} (h : r ≤ k) :
    shardStart vocabSize tpSize r ≤ shardStart vocabSize tpSize k := by
  induction k, h using Nat.le_induction with
  | base => exact Nat.le_refl _
  | succ k _ ih =>
    rw [shardStart_succ]
    omega

theorem shardStart_last (htp : 0 < tpSize) : shardStart vocabSize tpSize tpSize = vocabSize := by
  have hmod := Nat.mod_lt vocabSize htp
  rw [shardStart_eq, Nat.min_eq_right hmod.le, Nat.div_add_mod]

theorem sum_shards (f : ℕ → ℝ) (count : ℕ) :
    ∑ rank ∈ range count, ∑ c ∈ range (shardSize vocabSize tpSize rank),
        f (shardStart vocabSize tpSize rank + c) =
      ∑ c ∈ range (shardStart vocabSize tpSize count), f c := by
  induction count with
  | zero => simp [shardStart_eq]
  | succ count ih => rw [sum_range_succ, ih, shardStart_succ, sum_range_add]

theorem exists_owner {t : ℕ} (htp : 0 < tpSize) (ht : t < vocabSize) :
    ∃ rank < tpSize, shardStart vocabSize tpSize rank ≤ t ∧
      t < shardStart vocabSize tpSize rank + shardSize vocabSize tpSize rank := by
  obtain ⟨rank, hrank, hstart, hstop⟩ := balancedRule.covers vocabSize tpSize t htp ht
  rw [balancedRule_range] at hstart hstop
  refine ⟨rank, hrank, hstart, ?_⟩
  simp only [shardStart, shardSize]
  omega

def Claims (vocabSize tpSize rank t : ℕ) : Prop :=
  computeVocabStart vocabSize tpSize rank ≤ t ∧
    t < computeVocabStart vocabSize tpSize rank + shardSize vocabSize tpSize rank

theorem chunkSize_eq (htp : 0 < tpSize) :
    (vocabSize + tpSize - 1) / tpSize =
      vocabSize / tpSize + if vocabSize % tpSize = 0 then 0 else 1 := by
  have hdiv := Nat.div_add_mod vocabSize tpSize
  have hmod := Nat.mod_lt vocabSize htp
  have hcomm := Nat.mul_comm tpSize (vocabSize / tpSize)
  split
  · refine Nat.div_eq_of_lt_le ?_ ?_
    · rw [Nat.add_zero]
      omega
    · rw [Nat.add_zero, Nat.succ_mul]
      omega
  · refine Nat.div_eq_of_lt_le ?_ ?_
    · rw [Nat.succ_mul]
      omega
    · rw [Nat.succ_mul, Nat.succ_mul]
      omega

theorem shardSize_le (htp : 0 < tpSize) (rank : ℕ) :
    shardSize vocabSize tpSize rank ≤ (vocabSize + tpSize - 1) / tpSize := by
  rw [shardSize_eq, chunkSize_eq htp]
  split <;> split <;> omega

theorem Claims.unique {r k t : ℕ} (htp : 0 < tpSize) (hr : Claims vocabSize tpSize r t)
    (hk : Claims vocabSize tpSize k t) : r = k := by
  have hle : ∀ {a b : ℕ}, Claims vocabSize tpSize a t → Claims vocabSize tpSize b t → a ≤ b := by
    intro a b ha hb
    by_contra hlt
    have hsize := @shardSize_le vocabSize tpSize htp b
    have hmul := Nat.mul_le_mul_right ((vocabSize + tpSize - 1) / tpSize) (show b + 1 ≤ a by omega)
    rw [Nat.succ_mul] at hmul
    have hstart := ha.1
    have hstop := hb.2
    simp only [computeVocabStart] at hstart hstop
    omega
  exact Nat.le_antisymm (hle hr hk) (hle hk hr)

theorem claims_iff_wellPlaced {rank t : ℕ} (htp : 0 < tpSize)
    (hstart : shardStart vocabSize tpSize rank ≤ t)
    (hstop : t < shardStart vocabSize tpSize rank + shardSize vocabSize tpSize rank) :
    computeVocabStart vocabSize tpSize rank = shardStart vocabSize tpSize rank ↔
      WellPlaced vocabSize tpSize t := by
  rw [computeVocabStart, chunkSize_eq htp, shardStart_eq]
  by_cases hzero : vocabSize % tpSize = 0
  · simp [WellPlaced, hzero]
  · rw [if_neg hzero, Nat.mul_add, Nat.mul_one]
    have hlimit : vocabSize % tpSize * (vocabSize / tpSize + 1) + vocabSize / tpSize =
        shardStart vocabSize tpSize (vocabSize % tpSize + 1) := by
      rw [shardStart_eq, Nat.min_eq_right (by omega), Nat.succ_mul, Nat.mul_succ]
      omega
    rw [WellPlaced, hlimit]
    constructor
    · intro heq
      have hle : rank ≤ vocabSize % tpSize := by omega
      have hmono := @shardStart_mono vocabSize tpSize (rank + 1) (vocabSize % tpSize + 1) (by omega)
      rw [shardStart_succ] at hmono
      exact .inr (by omega)
    · rintro (heq | hlt)
      · exact absurd heq hzero
      · have hle : rank ≤ vocabSize % tpSize := by
          by_contra hgt
          have hmono := @shardStart_mono vocabSize tpSize (vocabSize % tpSize + 1) rank (by omega)
          omega
        omega

end HyperParallel.Losses
