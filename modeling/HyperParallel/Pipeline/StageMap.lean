import HyperParallel.Foundation.ListOrder
import HyperParallel.Foundation.PyDict
import HyperParallel.Pipeline.Step

/-!
# Where the stages live

The runtime builds its stage map by walking over the ranks, back and forth for
the V layout.  The passes that insert and check communications compute the rank
of a stage by a formula instead, each with its own copy of it.
-/

namespace HyperParallel.Pipeline

open Foundation List

/-- The mapping so far, and `rank_index`. -/
abbrev StageWalk := PyDict Nat Int × Int

def placeStage (realStageNum : Nat) (walk : StageWalk) (stageIndex : Nat) : StageWalk :=
  let mapping := walk.1.set stageIndex walk.2
  if (stageIndex + 1) % realStageNum = 0 then (mapping, walk.2)
  else if stageIndex / realStageNum % 2 = 0 then (mapping, walk.2 + 1)
  else (mapping, walk.2 - 1)

def generateStageToRankMapping (realStageNum stageNum : Nat) :
    Style → Except String (PyDict Nat Int)
  | .loop =>
    .ok ((List.range stageNum).foldl
      (fun mapping stageIndex => mapping.set stageIndex (stageIndex % realStageNum : Nat)) .empty)
  | .v =>
    if stageNum % realStageNum ≠ 0 then
      .error s!"stage_num {stageNum} must be evenly divisible by real_stage_num {realStageNum} for V schedules."
    else .ok ((List.range stageNum).foldl (placeStage realStageNum) (.empty, 0)).1

/-- The copy of the formula that the alignment pass has. -/
def autoAlignStageToRank (stageNum realStageNum : Nat) (style : Style) : Nat → Nat :=
  stageToRank stageNum realStageNum style

def operationsStageToRank (realStage chunkNum : Nat) (style : Style) : Nat → Nat :=
  stageToRank (realStage * chunkNum) realStage style

/-! ## The walk, in closed form -/

/-- Every second pass over the ranks runs downward. -/
def zigzag (realStageNum stageIndex : Nat) : Nat :=
  if stageIndex / realStageNum % 2 = 0 then stageIndex % realStageNum
  else realStageNum - 1 - stageIndex % realStageNum

section Zigzag

variable {realStageNum : Nat}

section

variable (hpos : 0 < realStageNum)

include hpos

theorem zigzag_row (row : Nat) {i : Nat} (hi : i < realStageNum) :
    zigzag realStageNum (realStageNum * row + i) =
      if row % 2 = 0 then i else realStageNum - 1 - i := by
  have hdiv : (realStageNum * row + i) / realStageNum = row := by
    rw [Nat.mul_add_div hpos, Nat.div_eq_of_lt hi, Nat.add_zero]
  have hmod : (realStageNum * row + i) % realStageNum = i := by
    rw [Nat.mul_add_mod, Nat.mod_eq_of_lt hi]
  rw [zigzag, hdiv, hmod]

theorem zigzag_lt (stageIndex : Nat) : zigzag realStageNum stageIndex < realStageNum := by
  have hmod := Nat.mod_lt stageIndex hpos
  unfold zigzag
  split <;> omega

/-- What the walk does to `rank_index` after a stage. -/
theorem zigzag_succ (stageIndex : Nat) :
    (zigzag realStageNum (stageIndex + 1) : Int) =
      if (stageIndex + 1) % realStageNum = 0 then (zigzag realStageNum stageIndex : Int)
      else if stageIndex / realStageNum % 2 = 0 then (zigzag realStageNum stageIndex : Int) + 1
      else (zigzag realStageNum stageIndex : Int) - 1 := by
  obtain ⟨row, i, hi, rfl⟩ : ∃ row i, i < realStageNum ∧ stageIndex = realStageNum * row + i :=
    ⟨stageIndex / realStageNum, stageIndex % realStageNum, Nat.mod_lt _ hpos,
      (Nat.div_add_mod _ _).symm⟩
  have hdiv : (realStageNum * row + i) / realStageNum = row := by
    rw [Nat.mul_add_div hpos, Nat.div_eq_of_lt hi, Nat.add_zero]
  rw [hdiv, zigzag_row hpos row hi]
  by_cases hlast : i + 1 = realStageNum
  · -- the turn: the next stage is the first of a row and stays on this rank
    have hnext : realStageNum * row + i + 1 = realStageNum * (row + 1) + 0 := by
      rw [Nat.mul_succ]
      omega
    rw [hnext, zigzag_row hpos _ hpos, Nat.mul_add_mod, Nat.zero_mod, if_pos rfl]
    split <;> split <;> omega
  · have hlt : i + 1 < realStageNum := by omega
    have hmod : (realStageNum * row + i + 1) % realStageNum = i + 1 := by
      rw [Nat.add_assoc, Nat.mul_add_mod, Nat.mod_eq_of_lt hlt]
    rw [hmod, Nat.add_assoc, zigzag_row hpos row hlt, if_neg (by omega : i + 1 ≠ 0)]
    split <;> omega

theorem zigzag_adjacent (stageIndex : Nat) :
    ((zigzag realStageNum stageIndex : Int) - zigzag realStageNum (stageIndex + 1)).natAbs ≤ 1 := by
  rw [zigzag_succ hpos]
  split
  · omega
  · split <;> omega

theorem count_zigzag_row (row : Nat) {rank : Nat} (hrank : rank < realStageNum) :
    (range realStageNum).countP (fun i => zigzag realStageNum (realStageNum * row + i) = rank)
      = 1 := by
  rw [countP_eq_length_filter]
  apply ListOrder.length_filter_eq_one nodup_range
  · refine ⟨if row % 2 = 0 then rank else realStageNum - 1 - rank, ?_, ?_⟩
    · rw [mem_range]
      split <;> omega
    · rw [decide_eq_true_iff]
      split
      · rename_i heven
        rw [zigzag_row hpos row hrank, if_pos heven]
      · rename_i hodd
        rw [zigzag_row hpos row (by omega), if_neg hodd]
        omega
  · intro i hi j hj hrow hrow'
    rw [mem_range] at hi hj
    rw [decide_eq_true_iff] at hrow hrow'
    rw [zigzag_row hpos row hi] at hrow
    rw [zigzag_row hpos row hj] at hrow'
    split at hrow
    · rename_i heven
      rw [if_pos heven] at hrow'
      omega
    · rename_i hodd
      rw [if_neg hodd] at hrow'
      omega

theorem count_zigzag (rows : Nat) {rank : Nat} (hrank : rank < realStageNum) :
    (range (realStageNum * rows)).countP (fun stage => zigzag realStageNum stage = rank)
      = rows := by
  induction rows with
  | zero => simp
  | succ rows ih =>
    rw [Nat.mul_succ, range_add, countP_append, ih, countP_map]
    have hrow := count_zigzag_row hpos rows hrank
    simpa [Function.comp_def] using hrow

/-- The walk keeps `rank_index` at the zigzag of the stage to come. -/
theorem foldl_placeStage (stages : Nat) :
    let walk := (range stages).foldl (placeStage realStageNum) (.empty, 0)
    walk.1.entries = (range stages).map (fun stage => (stage, (zigzag realStageNum stage : Int))) ∧
      walk.2 = zigzag realStageNum stages := by
  induction stages with
  | zero => simp [zigzag, PyDict.empty]
  | succ stages ih =>
    obtain ⟨hentries, hrank⟩ := ih
    rw [range_succ, foldl_append, foldl_cons, foldl_nil]
    set walk := (range stages).foldl (placeStage realStageNum) (.empty, 0)
    have hfresh : stages ∉ walk.1.keys := by simp [PyDict.keys, hentries]
    have hset : (walk.1.set stages walk.2).entries =
        (range stages ++ [stages]).map
          (fun stage => (stage, (zigzag realStageNum stage : Int))) := by
      rw [PyDict.entries_set_of_notMem _ _ hfresh, hentries, hrank, map_append]
      rfl
    have hsucc := zigzag_succ hpos stages
    rw [← hrank] at hsucc
    unfold placeStage
    split
    · rename_i hturn
      rw [if_pos hturn] at hsucc
      exact ⟨hset, hsucc.symm⟩
    · rename_i hturn
      rw [if_neg hturn] at hsucc
      split
      · rename_i hdown
        rw [if_pos hdown] at hsucc
        exact ⟨hset, hsucc.symm⟩
      · rename_i hdown
        rw [if_neg hdown] at hsucc
        exact ⟨hset, hsucc.symm⟩

theorem generate_v_eq {stageNum : Nat} (hdvd : realStageNum ∣ stageNum) :
    ∃ mapping, generateStageToRankMapping realStageNum stageNum .v = .ok mapping ∧
      mapping.entries =
        (range stageNum).map (fun stage => (stage, (zigzag realStageNum stage : Int))) := by
  refine ⟨_, ?_, (foldl_placeStage hpos stageNum).1⟩
  rw [generateStageToRankMapping, if_neg (by simpa using Nat.mod_eq_zero_of_dvd hdvd)]

end

end Zigzag

/-! ## The copies against the walk -/

structure ConsistentPlacement (realStageNum stageNum : Nat) (mapping : PyDict Nat Int) : Prop where
  stages : mapping.keys = List.range stageNum
  addSendRecv : ∀ stage < stageNum,
    mapping.get? stage = some (stageToRank stageNum realStageNum .v stage : Int)
  autoAlign : ∀ stage < stageNum,
    mapping.get? stage = some (autoAlignStageToRank stageNum realStageNum .v stage : Int)
  operations : ∀ chunkNum, realStageNum * chunkNum = stageNum → ∀ stage < stageNum,
    mapping.get? stage = some (operationsStageToRank realStageNum chunkNum .v stage : Int)
  inRange : ∀ rank ∈ mapping.values, 0 ≤ rank ∧ rank < realStageNum
  balanced : ∀ rank < realStageNum, ∀ rank' < realStageNum,
    mapping.values.count (rank : Int) = mapping.values.count (rank' : Int)
  adjacent : ∀ stage rank rank', mapping.get? stage = some rank →
    mapping.get? (stage + 1) = some rank' → (rank - rank').natAbs ≤ 1

section Copies

variable {realStageNum stageNum : Nat}

theorem stageToRank_v_eq_zigzag (hpos : 0 < realStageNum) (hdvd : realStageNum ∣ stageNum)
    (htwo : stageNum ≤ 2 * realStageNum) {stage : Nat} (hstage : stage < stageNum) :
    stageToRank stageNum realStageNum .v stage = zigzag realStageNum stage := by
  obtain ⟨rows, rfl⟩ := hdvd
  have hrows : rows ≤ 2 := by
    rw [Nat.mul_comm 2] at htwo
    exact Nat.le_of_mul_le_mul_left htwo hpos
  rw [stageToRank]
  split
  · rename_i hfirst
    have hrow := zigzag_row hpos 0 hfirst
    rw [if_pos rfl, Nat.mul_zero, Nat.zero_add] at hrow
    exact hrow.symm
  · rename_i hsecond
    -- a stage beyond the first pass: there are two of them
    obtain rfl : rows = 2 := by
      rcases Nat.lt_or_ge rows 2 with hlt | hge
      · have := Nat.mul_le_mul_left realStageNum (show rows ≤ 1 by omega)
        omega
      · omega
    have hrow := zigzag_row hpos 1 (show stage - realStageNum < realStageNum by omega)
    rw [if_neg (by omega), Nat.mul_one, Nat.add_sub_cancel' (by omega)] at hrow
    rw [hrow]
    omega

theorem realStageNum_le_stageToRank (hthree : 2 * realStageNum < stageNum) :
    realStageNum ≤ stageToRank stageNum realStageNum .v realStageNum := by
  rw [stageToRank, if_neg (by omega)]
  omega

variable {mapping : PyDict Nat Int}

theorem get?_of_entries
    (hentries : mapping.entries =
      (range stageNum).map (fun stage => (stage, (zigzag realStageNum stage : Int))))
    {stage : Nat} {rank : Int} :
    mapping.get? stage = some rank ↔ stage < stageNum ∧ rank = zigzag realStageNum stage := by
  rw [← PyDict.mem_entries_iff, hentries]
  simp [eq_comm]

theorem values_of_entries
    (hentries : mapping.entries =
      (range stageNum).map (fun stage => (stage, (zigzag realStageNum stage : Int)))) :
    mapping.values = (range stageNum).map (fun stage => (zigzag realStageNum stage : Int)) := by
  rw [PyDict.values, hentries, map_map]
  rfl

theorem count_values (hpos : 0 < realStageNum) {rows : Nat}
    (hentries : mapping.entries = (range (realStageNum * rows)).map
      (fun stage => (stage, (zigzag realStageNum stage : Int))))
    {rank : Nat} (hrank : rank < realStageNum) : mapping.values.count (rank : Int) = rows := by
  rw [values_of_entries hentries, List.count, countP_map]
  refine Eq.trans (countP_congr fun stage _ => ?_) (count_zigzag hpos rows hrank)
  rw [Function.comp_apply, beq_iff_eq, decide_eq_true_iff]
  exact Int.ofNat_inj

/-- The copies of the formula follow the walk as long as it makes no third pass. -/
theorem generate_consistent_iff (hpos : 0 < realStageNum) (hdvd : realStageNum ∣ stageNum) :
    (∃ mapping, generateStageToRankMapping realStageNum stageNum .v = .ok mapping ∧
        ConsistentPlacement realStageNum stageNum mapping) ↔
      stageNum ≤ 2 * realStageNum := by
  obtain ⟨mapping, hgenerate, hentries⟩ := generate_v_eq hpos hdvd
  constructor
  · rintro ⟨found, hfound, hconsistent⟩
    obtain rfl : mapping = found := Except.ok.inj (hgenerate.symm.trans hfound)
    by_contra hmore
    have hthree : 2 * realStageNum < stageNum := by omega
    have hat := hconsistent.addSendRecv realStageNum (by omega)
    obtain ⟨_, hrank⟩ := (get?_of_entries hentries).mp hat
    have hlt := zigzag_lt hpos realStageNum
    have hge := realStageNum_le_stageToRank hthree
    omega
  · intro htwo
    have hformula : ∀ stage < stageNum,
        mapping.get? stage = some (stageToRank stageNum realStageNum .v stage : Int) := by
      intro stage hstage
      refine (get?_of_entries hentries).mpr ⟨hstage, ?_⟩
      rw [stageToRank_v_eq_zigzag hpos hdvd htwo hstage]
    refine ⟨mapping, hgenerate, ?_, hformula, hformula, ?_, ?_, ?_, ?_⟩
    · rw [PyDict.keys, hentries, map_map]
      exact map_id' _
    · rintro chunkNum rfl
      exact hformula
    · intro rank hrank
      rw [values_of_entries hentries] at hrank
      obtain ⟨stage, -, rfl⟩ := mem_map.mp hrank
      have hlt := zigzag_lt hpos stage
      omega
    · obtain ⟨rows, rfl⟩ := hdvd
      intro rank hrank rank' hrank'
      rw [count_values hpos hentries hrank, count_values hpos hentries hrank']
    · intro stage rank rank' hat hnext
      obtain ⟨-, rfl⟩ := (get?_of_entries hentries).mp hat
      obtain ⟨-, rfl⟩ := (get?_of_entries hentries).mp hnext
      exact zigzag_adjacent hpos stage

theorem generate_consistent_two_passes :
    0 < 2 ∧ 2 ∣ 4 ∧
      ((∃ mapping, generateStageToRankMapping 2 4 .v = .ok mapping ∧
        ConsistentPlacement 2 4 mapping) ↔ 4 ≤ 2 * 2) :=
  ⟨by decide, by decide, generate_consistent_iff (by decide) (by decide)⟩

/-- Six stages on two ranks: the formula sends the third one to rank 3. -/
theorem generate_inconsistent_three_passes :
    ¬ ∃ mapping, generateStageToRankMapping 2 6 .v = .ok mapping ∧
        ConsistentPlacement 2 6 mapping := by
  rintro ⟨mapping, hgenerate, hconsistent⟩
  have hat := hconsistent.addSendRecv 2 (by decide)
  have hrank := hconsistent.inRange 3 (by
    obtain rfl := Except.ok.inj hgenerate
    revert hat
    decide)
  exact absurd hrank.2 (by decide)

end Copies

end HyperParallel.Pipeline
