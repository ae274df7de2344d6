import HyperParallel.Foundation.MixedRadix

/-!
# Nested cuts of an interval

A `ChunkRule` cuts `[0, size)` into `count` half-open chunks, possibly empty,
such that every position lies in exactly one of them.  Cutting a chunk again,
by any rule, gives nested cuts: `narrow` follows a list of chunk indices down a
list of levels, and every position has one `address`, the only list of indices
whose final interval contains it.
-/

namespace HyperParallel.Foundation.Chunking

structure ChunkRule where
  range : Nat → Nat → Nat → Nat × Nat
  start_le_stop : ∀ size count k, k < count → (range size count k).1 ≤ (range size count k).2
  stop_le_size : ∀ size count k, k < count → (range size count k).2 ≤ size
  covers : ∀ size count x, 0 < count → x < size →
    ∃ k < count, (range size count k).1 ≤ x ∧ x < (range size count k).2
  disjoint : ∀ size count x k l, k < count → l < count →
    (range size count k).1 ≤ x → x < (range size count k).2 →
    (range size count l).1 ≤ x → x < (range size count l).2 → k = l

namespace ChunkRule

open Classical in
/-- The chunk that contains `x`. -/
noncomputable def owner (rule : ChunkRule) (size count x : Nat) : Nat :=
  if h : ∃ k < count, (rule.range size count k).1 ≤ x ∧ x < (rule.range size count k).2
  then h.choose
  else 0

variable (rule : ChunkRule) {size count x : Nat}

theorem owner_spec (hcount : 0 < count) (hx : x < size) :
    rule.owner size count x < count ∧
      (rule.range size count (rule.owner size count x)).1 ≤ x ∧
      x < (rule.range size count (rule.owner size count x)).2 := by
  have h := rule.covers size count x hcount hx
  rw [owner, dif_pos h]
  exact h.choose_spec

theorem mem_range_iff_owner (hx : x < size) {k : Nat} (hk : k < count) :
    (rule.range size count k).1 ≤ x ∧ x < (rule.range size count k).2 ↔
      k = rule.owner size count x := by
  obtain ⟨hlt, hstart, hstop⟩ := rule.owner_spec (Nat.lt_of_le_of_lt k.zero_le hk) hx
  constructor
  · rintro ⟨h₁, h₂⟩
    exact rule.disjoint size count x _ _ hk hlt h₁ h₂ hstart hstop
  · rintro rfl
    exact ⟨hstart, hstop⟩

/--
Consecutive boundaries `0 = b 0 ≤ b 1 ≤ … ≤ b count = size` cut the interval,
chunk `k` being `[b k, b (k + 1))`.
-/
def ofBoundaries (boundary : Nat → Nat → Nat → Nat)
    (mono : ∀ size count, Monotone (boundary size count))
    (zero : ∀ size count, boundary size count 0 = 0)
    (last : ∀ size count, 0 < count → boundary size count count = size) :
    ChunkRule where
  range size count k := (boundary size count k, boundary size count (k + 1))
  start_le_stop size count k _ := mono size count k.le_succ
  stop_le_size size count k hk := by
    have hcount := last size count (Nat.lt_of_le_of_lt k.zero_le hk)
    exact le_of_le_of_eq (mono size count hk) hcount
  covers size count x hcount hx := by
    have hbelow : ∀ n, x < boundary size count n →
        ∃ k < n, boundary size count k ≤ x ∧ x < boundary size count (k + 1) := by
      intro n hn
      induction n with
      | zero => simp [zero] at hn
      | succ n ih =>
        by_cases hstep : x < boundary size count n
        · obtain ⟨k, hk, hmem⟩ := ih hstep
          exact ⟨k, Nat.lt_succ_of_lt hk, hmem⟩
        · exact ⟨n, n.lt_succ_self, Nat.le_of_not_lt hstep, hn⟩
    exact hbelow count (by rwa [last size count hcount])
  disjoint size count x k l _ _ hk hk' hl hl' := by
    rcases Nat.lt_trichotomy k l with hlt | heq | hlt
    · have : boundary size count (k + 1) ≤ boundary size count l :=
        mono size count hlt
      omega
    · exact heq
    · have : boundary size count (l + 1) ≤ boundary size count k :=
        mono size count hlt
      omega

end ChunkRule

/-- A cut into `count` chunks by `rule`. -/
structure Level where
  rule : ChunkRule
  count : Nat

def narrow : List Level → List Nat → Nat → Nat × Nat
  | level :: levels, k :: ks, size =>
    let chunk := level.rule.range size level.count k
    let inner := narrow levels ks (chunk.2 - chunk.1)
    (chunk.1 + inner.1, chunk.1 + inner.2)
  | _, _, size => (0, size)

noncomputable def address : List Level → Nat → Nat → List Nat
  | [], _, _ => []
  | level :: levels, size, x =>
    let k := level.rule.owner size level.count x
    let chunk := level.rule.range size level.count k
    k :: address levels (chunk.2 - chunk.1) (x - chunk.1)

abbrev InLevels (ks : List Nat) (levels : List Level) : Prop :=
  List.Forall₂ (fun k level => k < level.count) ks levels

variable {levels : List Level}

theorem narrow_bounds {ks : List Nat} (h : InLevels ks levels) (size : Nat) :
    (narrow levels ks size).1 ≤ (narrow levels ks size).2 ∧ (narrow levels ks size).2 ≤ size := by
  induction h generalizing size with
  | nil => simp [narrow]
  | @cons k level ks levels hk _ ih =>
    have hle := level.rule.start_le_stop size level.count k hk
    have hsize := level.rule.stop_le_size size level.count k hk
    obtain ⟨hinner, hinnerSize⟩ := ih
      ((level.rule.range size level.count k).2 - (level.rule.range size level.count k).1)
    simp only [narrow]
    omega

theorem address_inLevels (hpos : ∀ level ∈ levels, 0 < level.count) {size x : Nat} (hx : x < size) :
    InLevels (address levels size x) levels := by
  induction levels generalizing size x with
  | nil => exact .nil
  | cons level levels ih =>
    obtain ⟨hlt, hstart, hstop⟩ := level.rule.owner_spec (hpos level (by simp)) hx
    refine .cons hlt (ih (fun l hl => hpos l (by simp [hl])) ?_)
    omega

/--
A position lies in the interval reached by `ks` exactly when `ks` is its address.
-/
theorem mem_narrow_iff {ks : List Nat} (h : InLevels ks levels) {size x : Nat} (hx : x < size) :
    (narrow levels ks size).1 ≤ x ∧ x < (narrow levels ks size).2 ↔ ks = address levels size x := by
  induction h generalizing size x with
  | nil => simp [narrow, address, hx]
  | @cons k level ks levels hk htail ih =>
    have howner := level.rule.mem_range_iff_owner hx hk
    have hbounds := narrow_bounds htail
      ((level.rule.range size level.count k).2 - (level.rule.range size level.count k).1)
    simp only [narrow, address, List.cons.injEq]
    constructor
    · intro hmem
      have hin : (level.rule.range size level.count k).1 ≤ x ∧
          x < (level.rule.range size level.count k).2 := by omega
      have hk' := howner.mp hin
      refine ⟨hk', ?_⟩
      rw [← hk', ← ih (by omega)]
      omega
    · rintro ⟨hk', hks⟩
      have hin := howner.mpr hk'
      rw [← hk'] at hks
      have hinner := (ih (x := x - (level.rule.range size level.count k).1) (by omega)).mpr hks
      omega

/-! ## Even cuts -/

def ChunkRule.Even (rule : ChunkRule) : Prop :=
  ∀ size count k, 0 < count → k < count →
    rule.range (count * size) count k = (k * size, (k + 1) * size)

theorem narrow_of_even {ks : List Nat} (h : InLevels ks levels)
    (heven : ∀ level ∈ levels, level.rule.Even) (size : Nat) :
    narrow levels ks ((levels.map Level.count).prod * size) =
      (MixedRadix.value (levels.map Level.count) ks * size,
        (MixedRadix.value (levels.map Level.count) ks + 1) * size) := by
  induction h with
  | nil => simp [narrow, MixedRadix.value]
  | @cons k level ks levels hk htail ih =>
    have hrest := ih fun other hother => heven other (List.mem_cons_of_mem _ hother)
    rw [List.map_cons, List.prod_cons, Nat.mul_assoc, narrow,
      heven level List.mem_cons_self _ _ _ (Nat.lt_of_le_of_lt k.zero_le hk) hk]
    dsimp only
    rw [← Nat.sub_mul, Nat.add_sub_cancel_left, Nat.one_mul, hrest, MixedRadix.value]
    dsimp only
    rw [Prod.mk.injEq]
    constructor <;> ring

end HyperParallel.Foundation.Chunking
