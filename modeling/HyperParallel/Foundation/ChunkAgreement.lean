import HyperParallel.Foundation.Chunking

/-!
# Where chunk rules agree

The last chunk tells the rules apart: it is the shortest.  Nested cuts whose
last chunks are quotients end in a quotient, and a size one short of a multiple
is cut like the multiple, its last chunk one shorter.
-/

namespace HyperParallel.Foundation.Chunking

open MixedRadix List

namespace ChunkRule

def lastLength (rule : ChunkRule) (size count : Nat) : Nat :=
  (rule.range size count (count - 1)).2 - (rule.range size count (count - 1)).1

def LastAtMost (rule : ChunkRule) : Prop :=
  ∀ size count, 0 < count → rule.lastLength size count ≤ size / count

def LastExact (rule : ChunkRule) : Prop :=
  ∀ size count, 0 < count → rule.lastLength size count = size / count

def OneShort (rule : ChunkRule) : Prop :=
  ∀ size count k, 0 < size → k < count →
    rule.range (count * size - 1) count k = (k * size, min ((k + 1) * size) (count * size - 1))

theorem LastExact.atMost {rule : ChunkRule} (h : rule.LastExact) : rule.LastAtMost :=
  fun size count hcount => (h size count hcount).le

end ChunkRule

def lastIndices (levels : List Level) : List Nat := levels.map (·.count - 1)

def counts (levels : List Level) : Nat := (levels.map Level.count).prod

variable {levels : List Level}

theorem narrow_last_le (hpos : ∀ level ∈ levels, 0 < level.count)
    (h : ∀ level ∈ levels, level.rule.LastAtMost) (size : Nat) :
    (narrow levels (lastIndices levels) size).2 - (narrow levels (lastIndices levels) size).1 ≤
      size / counts levels := by
  induction levels generalizing size with
  | nil => simp [narrow, counts]
  | cons level levels ih =>
    have hlast := h level mem_cons_self size _ (hpos level mem_cons_self)
    have hrest := ih (fun l hl => hpos l (by simp [hl])) (fun l hl => h l (by simp [hl]))
      (level.rule.lastLength size level.count)
    have hdiv := Nat.div_le_div_right (c := counts levels) hlast
    rw [Nat.div_div_eq_div_mul] at hdiv
    simp only [lastIndices, map_cons, narrow, counts, prod_cons] at hrest hdiv ⊢
    rw [ChunkRule.lastLength] at hrest hdiv
    omega

theorem narrow_last_eq (hpos : ∀ level ∈ levels, 0 < level.count)
    (h : ∀ level ∈ levels, level.rule.LastExact) (size : Nat) :
    (narrow levels (lastIndices levels) size).2 - (narrow levels (lastIndices levels) size).1 =
      size / counts levels := by
  induction levels generalizing size with
  | nil => simp [narrow, counts]
  | cons level levels ih =>
    have hlast := h level mem_cons_self size _ (hpos level mem_cons_self)
    have hrest := ih (fun l hl => hpos l (by simp [hl])) (fun l hl => h l (by simp [hl]))
      (level.rule.lastLength size level.count)
    rw [hlast, Nat.div_div_eq_div_mul] at hrest
    rw [ChunkRule.lastLength] at hlast
    simp only [lastIndices, map_cons, narrow, counts, prod_cons, hlast] at hrest ⊢
    omega

theorem value_succ_le {ks : List Nat} (h : InLevels ks levels) :
    value (levels.map Level.count) ks + 1 ≤ counts levels :=
  value_lt (List.forall₂_map_right_iff.mpr h)

/-- Nested cuts of a size one short of a multiple are those of the multiple, cut off at the end. -/
theorem narrow_of_oneShort {ks : List Nat} (h : InLevels ks levels)
    (heven : ∀ level ∈ levels, level.rule.Even) (hshort : ∀ level ∈ levels, level.rule.OneShort)
    {size : Nat} (hsize : 0 < size) :
    narrow levels ks (counts levels * size - 1) =
      (value (levels.map Level.count) ks * size,
        min ((value (levels.map Level.count) ks + 1) * size) (counts levels * size - 1)) := by
  induction h with
  | nil => simp [narrow, value, counts]
  | @cons k level ks levels hk htail ih =>
    have hcount : 0 < counts levels * size := by
      have hlt := value_succ_le htail
      exact Nat.mul_pos (by omega) hsize
    have hrange := hshort level mem_cons_self _ level.count k hcount hk
    have hfits : (value (levels.map Level.count) ks + 1) * size ≤ counts levels * size :=
      Nat.mul_le_mul_right _ (value_succ_le htail)
    have hcounts : counts (level :: levels) * size = level.count * (counts levels * size) := by
      rw [counts, map_cons, prod_cons, Nat.mul_assoc, counts]
    have hvalue : ∀ extra, (value ((level :: levels).map Level.count) (k :: ks) + extra) * size =
        k * (counts levels * size) + (value (levels.map Level.count) ks + extra) * size := by
      intro extra
      rw [map_cons, value, counts]
      ring
    have hmore : (k + 1) * (counts levels * size) = k * (counts levels * size) + counts levels * size := by
      ring
    have hvalue₀ := hvalue 0
    simp only [Nat.add_zero] at hvalue₀
    rw [hcounts, narrow, hrange, hvalue, hvalue₀, hmore]
    rcases Nat.lt_or_ge (k + 1) level.count with hinner | hlast
    · -- an inner chunk is whole
      have hlong : (k + 1 + 1) * (counts levels * size) ≤ level.count * (counts levels * size) :=
        Nat.mul_le_mul_right _ hinner
      rw [Nat.add_mul (k + 1), hmore] at hlong
      have hwhole : min (k * (counts levels * size) + counts levels * size)
          (level.count * (counts levels * size) - 1) - k * (counts levels * size) =
            counts levels * size := by omega
      have hnarrow := narrow_of_even htail (fun l hl => heven l (mem_cons_of_mem _ hl)) size
      rw [← counts] at hnarrow
      dsimp only
      rw [hwhole, hnarrow, Prod.mk.injEq]
      dsimp only
      omega
    · have hall : level.count = k + 1 := by omega
      have hcut : min (k * (counts levels * size) + counts levels * size)
          (k * (counts levels * size) + counts levels * size - 1) -
            k * (counts levels * size) = counts levels * size - 1 := by omega
      rw [hall, hmore]
      dsimp only
      rw [hcut, ih (fun l hl => heven l (mem_cons_of_mem _ hl))
        (fun l hl => hshort l (mem_cons_of_mem _ hl)), Prod.mk.injEq]
      dsimp only
      omega

end HyperParallel.Foundation.Chunking
