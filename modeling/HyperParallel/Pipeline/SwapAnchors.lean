import HyperParallel.Foundation.PySequence
import HyperParallel.Pipeline.PipelineSwap
import Mathlib.Data.List.TakeWhile

/-!
# Where swap steps go

A container is found again by how many containers that compute come before it.
Of a managed chunk, the next container after the forward and the last one before
the backward are apart, and only transfers follow up to the place for the wait.
-/

namespace HyperParallel.Pipeline

open Foundation List

/-! ## Containers -/

section Containers

variable {order : List Action}

def computeBefore (order : List Action) (index : Nat) : Nat :=
  (order.take index).countP fun action => iterComputeLeafSteps action ≠ []

def HasCompute (order : List Action) (index : Nat) : Prop :=
  iterComputeLeafSteps order[index]?.join ≠ []

theorem computeBefore_mono (order : List Action) {i j : Nat} (h : i ≤ j) :
    computeBefore order i ≤ computeBefore order j :=
  List.Sublist.countP_le (List.take_sublist_take_left h)

theorem computeBefore_succ (index : Nat) :
    computeBefore order (index + 1) = computeBefore order index +
      if iterComputeLeafSteps order[index]?.join ≠ [] then 1 else 0 := by
  rw [computeBefore, computeBefore]
  cases hget : order[index]? with
  | none =>
    have hlength := getElem?_eq_none_iff.mp hget
    rw [take_of_length_le hlength, take_of_length_le (by omega)]
    simp [iterComputeLeafSteps]
  | some action =>
    rw [take_add_one, hget, countP_append]
    simp [countP_singleton]

theorem computeBefore_lt {i j : Nat} (hlt : i < j) (hcompute : HasCompute order i) :
    computeBefore order i < computeBefore order j := by
  have hstep := computeBefore_mono order (Nat.succ_le_of_lt hlt)
  rw [Nat.succ_eq_add_one, computeBefore_succ,
    if_pos (show iterComputeLeafSteps order[i]?.join ≠ [] from hcompute)] at hstep
  omega

theorem collect_containers (containerIndex computeIndex : Nat) (order : List Action) :
    (collectComputeLeavesFrom containerIndex computeIndex order).2 =
      ((order.zipIdx containerIndex).filter fun entry =>
        iterComputeLeafSteps entry.1 ≠ []).map Prod.snd := by
  induction order generalizing containerIndex computeIndex with
  | nil => rfl
  | cons action order ih =>
    rw [collectComputeLeavesFrom, zipIdx_cons]
    by_cases hnone : iterComputeLeafSteps action = [] <;> simp [hnone, ih]

theorem mem_collect_leaves {containerIndex computeIndex : Nat} {order : List Action}
    {leaf : ComputeLeaf} :
    leaf ∈ (collectComputeLeavesFrom containerIndex computeIndex order).1 ↔
      ∃ index, leaf.step ∈ iterComputeLeafSteps order[index]?.join ∧
        leaf.containerIndex = containerIndex + index ∧
        leaf.computeIndex = computeIndex + computeBefore order index := by
  induction order generalizing containerIndex computeIndex with
  | nil => simp [collectComputeLeavesFrom, iterComputeLeafSteps]
  | cons action order ih =>
    have hbefore : ∀ index, computeBefore (action :: order) (index + 1) =
        (if iterComputeLeafSteps action ≠ [] then 1 else 0) + computeBefore order index := by
      intro index
      simp [computeBefore, countP_cons, Nat.add_comm]
    have hzero : computeBefore (action :: order) 0 = 0 := rfl
    rw [collectComputeLeavesFrom]
    by_cases hnone : iterComputeLeafSteps action = []
    · rw [if_pos hnone, ih]
      constructor
      · rintro ⟨index, hmem, hcontainer, hcompute⟩
        refine ⟨index + 1, hmem, by omega, ?_⟩
        rw [hbefore, hcompute]
        simp [hnone]
      · rintro ⟨index, hmem, hcontainer, hcompute⟩
        cases index with
        | zero =>
          have hmem' : leaf.step ∈ iterComputeLeafSteps action := hmem
          simp [hnone] at hmem'
        | succ index =>
          refine ⟨index, hmem, by omega, ?_⟩
          rw [hcompute, hbefore]
          simp [hnone]
    · rw [if_neg hnone, mem_append, ih]
      constructor
      · rintro (hmem | ⟨index, hmem, hcontainer, hcompute⟩)
        · obtain ⟨step, hstep, rfl⟩ := mem_map.mp hmem
          exact ⟨0, hstep, rfl, rfl⟩
        · refine ⟨index + 1, hmem, by omega, ?_⟩
          rw [hbefore, hcompute]
          simp [hnone]
          omega
      · rintro ⟨index, hmem, hcontainer, hcompute⟩
        cases index with
        | zero =>
          obtain ⟨step, container, compute⟩ := leaf
          refine .inl (mem_map.mpr ⟨step, hmem, ?_⟩)
          simp_all
        | succ index =>
          refine .inr ⟨index, hmem, by omega, ?_⟩
          rw [hcompute, hbefore]
          simp [hnone]
          omega

theorem collect_leaves_sorted (containerIndex computeIndex : Nat) (order : List Action) :
    (collectComputeLeavesFrom containerIndex computeIndex order).1.Pairwise
      fun leaf later => leaf.containerIndex ≤ later.containerIndex := by
  induction order generalizing containerIndex computeIndex with
  | nil => exact .nil
  | cons action order ih =>
    rw [collectComputeLeavesFrom]
    by_cases hnone : iterComputeLeafSteps action = []
    · rw [if_pos hnone]
      exact ih _ _
    · rw [if_neg hnone, pairwise_append]
      refine ⟨pairwise_map.mpr (pairwise_of_forall fun _ _ => le_rfl), ih _ _, ?_⟩
      intro leaf hleaf later hlater
      obtain ⟨step, -, rfl⟩ := mem_map.mp hleaf
      obtain ⟨index, -, hcontainer, -⟩ := mem_collect_leaves.mp hlater
      simp [hcontainer]
      omega

theorem containers_get {index : Nat} (hcompute : HasCompute order index) :
    (collectComputeLeaves order).2[computeBefore order index]? = some index := by
  have hgeneral : ∀ (order : List Action) (start index : Nat), HasCompute order index →
      (((order.zipIdx start).filter fun entry =>
        iterComputeLeafSteps entry.1 ≠ []).map Prod.snd)[computeBefore order index]? =
          some (start + index) := by
    intro order
    induction order with
    | nil =>
      intro start index hcompute
      simp [HasCompute, iterComputeLeafSteps] at hcompute
    | cons action order ih =>
      intro start index hcompute
      cases index with
      | zero =>
        have haction : iterComputeLeafSteps action ≠ [] := hcompute
        simp [zipIdx_cons, haction, computeBefore]
      | succ index =>
        have hrest := ih (start + 1) index hcompute
        have hnext : start + 1 + index = start + (index + 1) := by omega
        rw [hnext] at hrest
        by_cases hnone : iterComputeLeafSteps action = []
        · have hplace : computeBefore (action :: order) (index + 1) =
              computeBefore order index := by simp [computeBefore, hnone]
          rw [hplace, zipIdx_cons, filter_cons_of_neg (by simp [hnone])]
          exact hrest
        · have hplace : computeBefore (action :: order) (index + 1) =
              computeBefore order index + 1 := by simp [computeBefore, hnone]
          rw [hplace, zipIdx_cons, filter_cons_of_pos (by simp [hnone])]
          exact hrest
  rw [collectComputeLeaves, collect_containers, hgeneral order 0 index hcompute, Nat.zero_add]

theorem containers_get_iff {place index : Nat} :
    (collectComputeLeaves order).2[place]? = some index ↔
      HasCompute order index ∧ computeBefore order index = place := by
  constructor
  · intro hget
    have hmem := mem_of_getElem? hget
    rw [collectComputeLeaves, collect_containers, mem_map] at hmem
    obtain ⟨⟨action, index'⟩, hmem, rfl⟩ := hmem
    obtain ⟨hin, hnone⟩ := mem_filter.mp hmem
    have haction := mk_mem_zipIdx_iff_getElem?.mp hin
    have hcompute : HasCompute order index' := by
      rw [HasCompute, haction]
      simpa using hnone
    refine ⟨hcompute, ?_⟩
    have hnodup : (collectComputeLeaves order).2.Nodup := by
      rw [collectComputeLeaves, collect_containers]
      refine List.Nodup.sublist ((filter_sublist).map _) ?_
      rw [zipIdx_map_snd]
      exact nodup_range'
    have hsame := containers_get hcompute
    obtain ⟨hlt, heq⟩ := List.getElem?_eq_some_iff.mp hget
    obtain ⟨hlt', heq'⟩ := List.getElem?_eq_some_iff.mp hsame
    exact (hnodup.getElem_inj_iff).mp (heq'.trans heq.symm)
  · rintro ⟨hcompute, rfl⟩
    exact containers_get hcompute

theorem hasCompute_of_lastContainer {selects : StepKind → Prop} {chunk : ChunkKey} {index : Nat}
    (h : LastContainer selects order chunk index) :
    HasCompute order index := by
  obtain ⟨⟨step, hstep, -⟩, -⟩ := h
  exact ne_nil_of_mem hstep

end Containers

/-! ## The leaves of a chunk -/

section Leaves

variable {order : List Action} {selects : StepKind → Prop} [DecidablePred selects]
  {chunk : ChunkKey} {leaf : ComputeLeaf}

theorem get?_foldl_chunk (leaves : List ComputeLeaf) (index : PyDict ChunkKey ComputeLeaf)
    (chunk : ChunkKey) :
    (leaves.foldl (fun index leaf => index.set leaf.step.chunk leaf) index).get? chunk =
      ((leaves.filter fun leaf => leaf.step.chunk = chunk).getLast?).or (index.get? chunk) := by
  induction leaves using reverseRecOn with
  | nil => rfl
  | append_singleton leaves leaf ih =>
    rw [foldl_append, foldl_cons, foldl_nil, PyDict.get?_set, filter_append]
    by_cases heq : chunk = leaf.step.chunk
    · simp [heq]
    · have hne : ¬leaf.step.chunk = chunk := fun h => heq h.symm
      simp [heq, hne, ih]

theorem indexLeaves_get? (leaves : List ComputeLeaf) (chunk : ChunkKey) :
    (indexLeaves selects leaves).get? chunk =
      (leaves.filter fun leaf => selects leaf.step.kind ∧ leaf.step.chunk = chunk).getLast? := by
  rw [indexLeaves, get?_foldl_chunk, PyDict.get?_empty, Option.or_none, filter_filter]
  congr 2
  funext leaf
  simp [Bool.and_comm]

theorem indexLeaves_spec
    (h : (indexLeaves selects (collectComputeLeaves order).1).get? chunk = some leaf) :
    LastContainer selects order chunk leaf.containerIndex ∧ leaf.step.chunk = chunk ∧
      leaf.computeIndex = computeBefore order leaf.containerIndex := by
  rw [indexLeaves_get?] at h
  have hmem := mem_of_getLast? h
  rw [mem_filter, decide_eq_true_eq] at hmem
  obtain ⟨hleaf, hselects, hchunk⟩ := hmem
  obtain ⟨index, hstep, hcontainer, hcompute⟩ := mem_collect_leaves.mp hleaf
  rw [Nat.zero_add] at hcontainer hcompute
  rw [hcontainer]
  refine ⟨⟨⟨leaf.step, hstep, hselects, hchunk⟩, ?_⟩, hchunk, hcompute⟩
  rintro later hlater ⟨step, hstep', hselects', hchunk'⟩
  -- a later leaf would come after the last one
  have hleaf' : ⟨step, later, computeBefore order later⟩ ∈ (collectComputeLeaves order).1 :=
    mem_collect_leaves.mpr ⟨later, hstep', by simp, by simp⟩
  have hsorted := (collect_leaves_sorted 0 0 order).filter fun leaf =>
    decide (selects leaf.step.kind ∧ leaf.step.chunk = chunk)
  have hin : ⟨step, later, computeBefore order later⟩ ∈ (collectComputeLeaves order).1.filter
      fun leaf => decide (selects leaf.step.kind ∧ leaf.step.chunk = chunk) :=
    mem_filter.mpr ⟨hleaf', by simp [hselects', hchunk']⟩
  obtain ⟨front, hfront⟩ := getLast?_eq_some_iff.mp h
  change (List.filter _ (collectComputeLeaves order).1).Pairwise _ at hsorted
  rw [hfront] at hin hsorted
  rcases mem_append.mp hin with hmem | hmem
  · have hle := (pairwise_append.mp hsorted).2.2 _ hmem leaf (mem_singleton_self _)
    simp only at hle
    omega
  · have heq := congrArg ComputeLeaf.containerIndex (mem_singleton.mp hmem)
    simp only at heq
    omega

theorem indexLeaves_exists {index : Nat} (h : LastContainer selects order chunk index) :
    ∃ leaf, (indexLeaves selects (collectComputeLeaves order).1).get? chunk = some leaf ∧
      leaf.containerIndex = index := by
  obtain ⟨⟨step, hstep, hselects, hchunk⟩, hlast⟩ := h
  have hleaf : ⟨step, index, computeBefore order index⟩ ∈ (collectComputeLeaves order).1 :=
    mem_collect_leaves.mpr ⟨index, hstep, by simp, by simp⟩
  cases hget : (indexLeaves selects (collectComputeLeaves order).1).get? chunk with
  | none =>
    rw [indexLeaves_get?, getLast?_eq_none_iff, filter_eq_nil_iff] at hget
    exact absurd (by simp [hselects, hchunk]) (hget _ hleaf)
  | some leaf =>
    obtain ⟨⟨hthere, hlast'⟩, -, -⟩ := indexLeaves_spec hget
    refine ⟨leaf, rfl, ?_⟩
    rcases Nat.lt_trichotomy leaf.containerIndex index with hlt | heq | hgt
    · exact absurd ⟨step, hstep, hselects, hchunk⟩ (hlast' index hlt)
    · exact heq
    · exact absurd hthere (hlast leaf.containerIndex hgt)

end Leaves

/-! ## Between the containers of a managed chunk -/

section Between

variable {order : List Action} {chunk : ChunkKey} {fwd bwd : Nat}

theorem countP_between (order : List Action) {i j : Nat} (h : i ≤ j) :
    ((order.take j).drop i).countP (fun action => iterComputeLeafSteps action ≠ []) =
      computeBefore order j - computeBefore order i := by
  have hsplit := @countP_append _ (fun action => iterComputeLeafSteps action ≠ [])
    ((order.take j).take i) ((order.take j).drop i)
  rw [take_append_drop, take_take, Nat.min_eq_left h] at hsplit
  rw [computeBefore, computeBefore, hsplit]
  omega

theorem managed_gap_iff (hfwd : LastContainer IsForward order chunk fwd)
    (hbwd : LastContainer IsBackward order chunk bwd) :
    Managed order chunk fwd bwd ↔
      computeBefore order fwd + minSwapGap ≤ computeBefore order bwd := by
  have hcompute := hasCompute_of_lastContainer hfwd
  have hstep : computeBefore order (fwd + 1) = computeBefore order fwd + 1 := by
    rw [computeBefore_succ, if_pos (show iterComputeLeafSteps order[fwd]?.join ≠ [] from hcompute)]
  rcases Nat.lt_or_ge fwd bwd with hlt | hge
  · have hbetween := countP_between order (Nat.succ_le_of_lt hlt)
    rw [Nat.succ_eq_add_one] at hbetween
    constructor
    · intro h
      have hgap := h.gap
      rw [hbetween, hstep] at hgap
      simp only [minSwapGap] at hgap ⊢
      omega
    · intro h
      refine ⟨hfwd, hbwd, ?_⟩
      rw [hbetween, hstep]
      simp only [minSwapGap] at h ⊢
      omega
  · have hmono := computeBefore_mono order hge
    constructor
    · intro h
      have hgap := h.gap
      rw [drop_eq_nil_of_le (by rw [length_take]; omega)] at hgap
      simp [minSwapGap] at hgap
    · intro h
      simp only [minSwapGap] at h
      omega

/-- The containers that compute between those of a managed chunk: the next one, the one after
it and the last one. -/
structure Middle (order : List Action) (fwd bwd : Nat) (computeBetween : List Nat)
    (first second last : Nat) : Prop where
  head : computeBetween.head? = some first
  getLast : computeBetween.getLast? = some last
  fwd_lt : fwd < first
  first_lt : first < second
  second_le : second ≤ last
  last_lt : last < bwd
  firstComputes : HasCompute order first
  secondComputes : HasCompute order second
  next : ∀ index, fwd < index → index < first → ¬HasCompute order index

theorem managed_middle (hfwd : HasCompute order fwd) (hbwd : HasCompute order bwd)
    (hgap : computeBefore order fwd + minSwapGap ≤ computeBefore order bwd) :
    ∃ first second last, Middle order fwd bwd
      ((List.range' (computeBefore order fwd + 1)
        (computeBefore order bwd - (computeBefore order fwd + 1))).filterMap fun index =>
          (collectComputeLeaves order).2[index]?) first second last := by
  simp only [minSwapGap] at hgap
  obtain ⟨hlength, -⟩ := List.getElem?_eq_some_iff.mp (containers_get hbwd)
  have hplace : ∀ place ≤ computeBefore order bwd, ∃ index,
      (collectComputeLeaves order).2[place]? = some index := fun place hplace =>
    ⟨_, getElem?_eq_getElem (by omega)⟩
  obtain ⟨first, hfirst⟩ := hplace (computeBefore order fwd + 1) (by omega)
  obtain ⟨second, hsecond⟩ := hplace (computeBefore order fwd + 2) (by omega)
  obtain ⟨last, hlast⟩ := hplace (computeBefore order bwd - 1) (by omega)
  obtain ⟨hfirst', hfirstPlace⟩ := containers_get_iff.mp hfirst
  obtain ⟨hsecond', hsecondPlace⟩ := containers_get_iff.mp hsecond
  obtain ⟨hlast', hlastPlace⟩ := containers_get_iff.mp hlast
  have hless : ∀ {i j}, computeBefore order i < computeBefore order j → i < j := by
    intro i j hlt
    by_contra hge
    have hmono := computeBefore_mono order (Nat.le_of_not_lt hge)
    omega
  refine ⟨first, second, last, ?_, ?_, hless (by omega), hless (by omega), ?_, hless (by omega),
    hfirst', hsecond', ?_⟩
  · obtain ⟨count, hcount⟩ : ∃ count, computeBefore order bwd - (computeBefore order fwd + 1) =
      count + 1 := ⟨computeBefore order bwd - (computeBefore order fwd + 1) - 1, by omega⟩
    rw [hcount, List.range'_succ, filterMap_cons_some hfirst]
    rfl
  · obtain ⟨count, hcount⟩ : ∃ count, computeBefore order bwd - (computeBefore order fwd + 1) =
      count + 1 := ⟨computeBefore order bwd - (computeBefore order fwd + 1) - 1, by omega⟩
    have hend : computeBefore order fwd + 1 + 1 * count = computeBefore order bwd - 1 := by omega
    rw [hcount, List.range'_concat, hend, filterMap_append,
      filterMap_cons_some hlast, filterMap_nil, getLast?_append]
    rfl
  · by_contra hlt
    have hmore := computeBefore_lt (Nat.lt_of_not_le hlt) hlast'
    omega
  · intro index hfwdIndex hindexFirst hindex
    have hmore := computeBefore_lt hfwdIndex hfwd
    have hmore' := computeBefore_lt hindexFirst hindex
    omega

end Between

/-! ## Anchors -/

section Anchors

variable {order : List Action} {index : Nat}

theorem commBlockAnchor_spec (order : List Action) (index : Nat) :
    ∀ later, index < later → later ≤ commBlockAnchor order index →
      IsCommAction order[later]?.join := by
  intro later hlt hle
  rw [commBlockAnchor] at hle
  have hlength : later - (index + 1) <
      ((order.drop (index + 1)).takeWhile fun action => IsCommAction action).length := by omega
  have hget : order[later]? =
      some ((order.drop (index + 1)).takeWhile fun action => IsCommAction action)[
        later - (index + 1)] := by
    have hfront : ((order.drop (index + 1)).takeWhile fun action => IsCommAction action) <+:
        order.drop (index + 1) := takeWhile_prefix _
    rw [hfront.getElem hlength, ← getElem?_eq_getElem, getElem?_drop]
    congr 1
    omega
  rw [hget]
  simpa using mem_takeWhile_imp (getElem_mem hlength)

theorem postComputeAnchor_bounds (order : List Action) (index : Nat) :
    index ≤ postComputeAnchor order index ∧
      postComputeAnchor order index ≤ commBlockAnchor order index := by
  have hfallback : index ≤ commBlockAnchor order index := Nat.le_add_right _ _
  rw [postComputeAnchor]
  cases order[index]?.join with
  | none => exact ⟨hfallback, le_rfl⟩
  | some step =>
    dsimp only
    cases sendType step.kind with
    | none => exact ⟨hfallback, le_rfl⟩
    | some send =>
      dsimp only
      cases hfind : (List.range' (index + 1) (commBlockAnchor order index - index)).find?
          fun next => sendsFor send step order[next]?.join with
      | none => exact ⟨hfallback, le_rfl⟩
      | some next =>
        have hmem := mem_of_find?_eq_some hfind
        rw [mem_range'_1] at hmem
        simp only [Option.getD_some]
        omega

def LastUnshard (order : List Action) (stage : Option Nat) (fwd bwd unshard : Nat) : Prop :=
  fwd < unshard ∧ unshard < bwd ∧ IsUnshardOf stage order[unshard]?.join ∧
    ∀ later, unshard < later → later < bwd → ¬IsUnshardOf stage order[later]?.join

theorem find_reverse_range' {p : Nat → Bool} {start count found : Nat} :
    (List.range' start count).reverse.find? p = some found ↔
      start ≤ found ∧ found < start + count ∧ p found = true ∧
        ∀ later, found < later → later < start + count → p later = false := by
  induction count with
  | zero => simp; omega
  | succ count ih =>
    rw [List.range'_concat, reverse_append, reverse_singleton, singleton_append,
      find?_cons, Nat.one_mul]
    cases hp : p (start + count) with
    | true =>
      constructor
      · intro h
        cases h
        exact ⟨by omega, by omega, hp, fun later h h' => by omega⟩
      · rintro ⟨hle, hlt, hfound, hlater⟩
        by_contra hne
        have hbefore : found < start + count := by
          have : found ≠ start + count := fun h => hne (by rw [h])
          omega
        rw [hlater (start + count) hbefore (by omega)] at hp
        cases hp
    | false =>
      dsimp only
      rw [ih]
      constructor
      · rintro ⟨hle, hlt, hfound, hlater⟩
        refine ⟨hle, by omega, hfound, fun later h h' => ?_⟩
        rcases Nat.lt_or_ge later (start + count) with hin | hout
        · exact hlater later h hin
        · rw [show later = start + count by omega]
          exact hp
      · rintro ⟨hle, hlt, hfound, hlater⟩
        have hne : found ≠ start + count := by
          rintro rfl
          rw [hp] at hfound
          cases hfound
        exact ⟨hle, by omega, hfound, fun later h h' => hlater later h (by omega)⟩

theorem loadLaunchAnchor_cases {fwdLeaf bwdLeaf : ComputeLeaf} {computeBetween : List Nat}
    {first second last : Nat}
    (hmiddle : Middle order fwdLeaf.containerIndex bwdLeaf.containerIndex computeBetween first
      second last) :
    LastUnshard order bwdLeaf.step.stageIndex fwdLeaf.containerIndex bwdLeaf.containerIndex
        (loadLaunchAnchor order fwdLeaf bwdLeaf computeBetween) ∨
      ((¬∃ unshard, LastUnshard order bwdLeaf.step.stageIndex fwdLeaf.containerIndex
          bwdLeaf.containerIndex unshard) ∧
        (loadLaunchAnchor order fwdLeaf bwdLeaf computeBetween = last ∨
          loadLaunchAnchor order fwdLeaf bwdLeaf computeBetween = bwdLeaf.containerIndex)) := by
  have hlt := hmiddle.fwd_lt
  have hlt' := hmiddle.first_lt
  have hle := hmiddle.second_le
  have hlast := hmiddle.last_lt
  rw [loadLaunchAnchor]
  split
  · rename_i hnone
    refine .inr ⟨?_, .inl (by rw [hmiddle.getLast]; rfl)⟩
    rintro ⟨unshard, -, -, ⟨step, hstep, hkind, -⟩, -⟩
    have hget : order[unshard]? = some (some step) := Option.join_eq_some_iff.mp hstep
    exact hnone ⟨some step, mem_of_getElem? hget, step, rfl, .inl hkind⟩
  · have hcount : fwdLeaf.containerIndex + 1 +
        (bwdLeaf.containerIndex - 1 - fwdLeaf.containerIndex) = bwdLeaf.containerIndex := by omega
    have hiff : ∀ unshard, ((List.range' (fwdLeaf.containerIndex + 1)
        (bwdLeaf.containerIndex - 1 - fwdLeaf.containerIndex)).reverse.find? fun index =>
          IsUnshardOf bwdLeaf.step.stageIndex order[index]?.join) = some unshard ↔
        LastUnshard order bwdLeaf.step.stageIndex fwdLeaf.containerIndex bwdLeaf.containerIndex
          unshard := by
      intro unshard
      rw [find_reverse_range', hcount, LastUnshard]
      simp [Nat.succ_le_iff]
    cases hfind : (List.range' (fwdLeaf.containerIndex + 1)
        (bwdLeaf.containerIndex - 1 - fwdLeaf.containerIndex)).reverse.find? fun index =>
          IsUnshardOf bwdLeaf.step.stageIndex order[index]?.join with
    | none =>
      refine .inr ⟨?_, .inr rfl⟩
      rintro ⟨unshard, hunshard⟩
      rw [(hiff unshard).mpr hunshard] at hfind
      cases hfind
    | some unshard => exact .inl ((hiff unshard).mp hfind)

end Anchors

end HyperParallel.Pipeline
