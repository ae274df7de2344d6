import HyperParallel.Foundation.OrderCode
import HyperParallel.DTensor.Layout

/-!
# The order of a multi-axis shard

A tensor dimension split over several mesh dimensions keeps the order of the
splits in the split factors of its placements only.  A placement carries the
code of its mesh dimension in that order, and reading the placements back sorts
by that code.
-/

namespace HyperParallel.DTensor

open Foundation List
open Layout List

/-- The mesh dimensions that split one tensor dimension, outermost split first. -/
def meshOrder (meshNdim : Nat) (mapping : DimMapping) : List Nat :=
  mapping.usedAxes.map (meshDimOf meshNdim)

def meshDimSize (meshShape : MeshShape) (meshIdx : Nat) : Nat := meshShape.getD meshIdx 1

/-! ## Split factors are codes -/

theorem foldl_orderPosition_of_notMem {shardOrder : List Nat} {meshIdx : Nat} {k position : Nat}
    (h : meshIdx ∉ shardOrder) :
    (shardOrder.zipIdx k).foldl
      (fun position entry => if entry.1 = meshIdx then entry.2 else position) position =
      position := by
  induction shardOrder generalizing k with
  | nil => rfl
  | cons m shardOrder ih =>
    simp only [mem_cons, not_or] at h
    rw [zipIdx_cons, foldl_cons, if_neg (Ne.symm h.1)]
    exact ih h.2

theorem orderPosition_eq {p q : List Nat} {meshIdx : Nat} (hnodup : (p ++ meshIdx :: q).Nodup) :
    orderPosition (p ++ meshIdx :: q) meshIdx = p.length := by
  have hq : meshIdx ∉ q := (nodup_cons.mp (nodup_append.mp hnodup).2.1).1
  rw [orderPosition, zipIdx_append, foldl_append, zipIdx_cons, foldl_cons,
    if_pos rfl, foldl_orderPosition_of_notMem hq]
  omega

theorem orderPosition_lt_iff {p q : List Nat} {meshIdx right : Nat}
    (hnodup : (p ++ meshIdx :: q).Nodup) (hmem : right ∈ p ++ meshIdx :: q) :
    orderPosition (p ++ meshIdx :: q) right < orderPosition (p ++ meshIdx :: q) meshIdx ↔
      right ∈ p := by
  rw [orderPosition_eq hnodup]
  constructor
  · intro hlt
    rcases mem_append.mp hmem with hp | hq
    · exact hp
    · obtain ⟨q₁, q₂, hsplit⟩ := append_of_mem hq
      rw [hsplit, ← append_assoc] at hlt hnodup
      rw [orderPosition_eq hnodup, length_append] at hlt
      omega
  · intro hp
    obtain ⟨p₁, p₂, rfl⟩ := append_of_mem hp
    have hassoc : p₁ ++ right :: p₂ ++ meshIdx :: q = p₁ ++ right :: (p₂ ++ meshIdx :: q) := by simp
    rw [hassoc] at hnodup ⊢
    rw [orderPosition_eq hnodup]
    simp

theorem foldl_mul_eq_prod (counts : Nat → Prop) [DecidablePred counts] (w : Nat → Nat)
    (axes : List Nat) (splitFactor : Nat) :
    axes.foldl (fun splitFactor right =>
      if counts right then splitFactor * w right else splitFactor) splitFactor =
      splitFactor * ((axes.filter fun right => counts right).map w).prod := by
  induction axes generalizing splitFactor with
  | nil => simp
  | cons right axes ih =>
    rw [foldl_cons, ih, filter_cons]
    by_cases h : counts right
    · simp [h, mul_assoc]
    · simp [h]

section

variable {meshShape : MeshShape} {shardAxes shardOrder : List Nat}
  (hrange : ∀ m ∈ shardOrder, m < meshShape.length) (hnodup : shardOrder.Nodup)
  (hperm : shardAxes ~ shardOrder)

include hrange hnodup hperm

theorem expectedSplitFactor_eq {meshIdx : Nat} (hmem : meshIdx ∈ shardOrder) :
    expectedSplitFactor meshShape shardAxes shardOrder meshIdx =
      .ok (OrderCode.code (meshDimSize meshShape) shardOrder meshIdx) := by
  obtain ⟨p, q, rfl⟩ := append_of_mem hmem
  set order := p ++ meshIdx :: q with horder
  have hfold : expectedSplitFactor meshShape shardAxes order meshIdx =
      .ok (shardAxes.foldl (fun splitFactor right =>
        if meshIdx < right ∧ right ∈ p then splitFactor * meshDimSize meshShape right
        else splitFactor) 1) := by
    refine foldlM_eq_ok (P := fun _ => True) trivial fun splitFactor right hright _ => ⟨?_, trivial⟩
    have hrightOrder := hperm.subset hright
    have hlt := orderPosition_lt_iff hnodup hrightOrder
    have hget := getElem?_eq_getElem (hrange right hrightOrder)
    rcases Nat.lt_or_ge meshIdx right with hgt | hle
    · rw [if_neg (by omega)]
      by_cases hp : right ∈ p
      · rw [if_pos (hlt.mpr hp), if_pos ⟨hgt, hp⟩, hget, meshDimSize, getD_eq_getElem?_getD, hget]
        rfl
      · rw [if_neg (mt hlt.mp hp), if_neg fun h => hp h.2]
    · rw [if_pos hle, if_neg fun h => by omega]
  have hfilter : (order.filter fun right => meshIdx < right ∧ right ∈ p) =
      p.filter (meshIdx < ·) := by
    have hdisj := (nodup_append.mp hnodup).2.2
    have hback : ((meshIdx :: q).filter fun right => meshIdx < right ∧ right ∈ p) = [] := by
      refine filter_eq_nil_iff.mpr fun right hright => ?_
      simpa using fun _ hp => hdisj right hp right hright rfl
    rw [horder, filter_append, hback, append_nil]
    exact filter_congr fun right hright => by simp [hright]
  have hpermProd := ((hperm.filter fun right => meshIdx < right ∧ right ∈ p).map
    (meshDimSize meshShape)).prod_eq
  rw [hfold, foldl_mul_eq_prod, one_mul, hpermProd, hfilter, OrderCode.code_split hnodup]

theorem computeExpectedSplitFactors_eq :
    computeExpectedSplitFactors meshShape shardAxes shardOrder =
      .ok (shardAxes.map fun m => (m, OrderCode.code (meshDimSize meshShape) shardOrder m)) := by
  refine mapM_eq_ok fun meshIdx hmem => ?_
  rw [expectedSplitFactor_eq hrange hnodup hperm (hperm.subset hmem)]
  rfl

end

theorem meshDimSize_ge {meshShape : MeshShape} (hsizes : ∀ size ∈ meshShape, 2 ≤ size)
    {order : List Nat} (hrange : ∀ m ∈ order, m < meshShape.length) :
    ∀ m ∈ order, 2 ≤ meshDimSize meshShape m := by
  intro m hm
  have hget := getElem?_eq_getElem (hrange m hm)
  rw [meshDimSize, getD_eq_getElem?_getD, hget]
  exact hsizes _ (getElem_mem _)

/-! ## Writing the placements -/

theorem length_assignPlacements (placements : List Placement) (assigned : List (Nat × Placement)) :
    (assignPlacements placements assigned).length = placements.length := by
  induction assigned generalizing placements with
  | nil => rfl
  | cons entry assigned ih => simpa [assignPlacements] using ih (placements.set entry.1 entry.2)

variable {assigned : List (Nat × Placement)}

theorem assignPlacements_of_notMem {placements : List Placement} {m : Nat}
    (h : m ∉ assigned.map Prod.fst) :
    (assignPlacements placements assigned)[m]? = placements[m]? := by
  induction assigned generalizing placements with
  | nil => rfl
  | cons entry assigned ih =>
    simp only [map_cons, mem_cons, not_or] at h
    rw [assignPlacements, foldl_cons]
    exact (ih h.2).trans (getElem?_set_ne (Ne.symm h.1))

variable {placement : Placement} {mapping : DimMapping} {layout : Layout}
  {state : List (List Nat) × List (Option String)}

theorem assignPlacements_of_mem {placements : List Placement}
    (hnodup : (assigned.map Prod.fst).Nodup) {m : Nat}
    (hmem : (m, placement) ∈ assigned) (hlt : m < placements.length) :
    (assignPlacements placements assigned)[m]? = some placement := by
  induction assigned generalizing placements with
  | nil => cases hmem
  | cons entry assigned ih =>
    rw [map_cons, nodup_cons] at hnodup
    rcases mem_cons.mp hmem with rfl | hmem
    · exact (assignPlacements_of_notMem hnodup.1).trans (getElem?_set_self hlt)
    · exact ih hnodup.2 hmem (by simpa using hlt)

theorem forall_mem_iff_zipIdx {tensorMap : TensorMap} {p : DimMapping → Prop} :
    (∀ mapping ∈ tensorMap, p mapping) ↔ ∀ entry ∈ tensorMap.zipIdx, p entry.1 := by
  constructor
  · exact fun h entry hentry => h entry.1 (fst_mem_of_mem_zipIdx hentry)
  · intro h mapping hmem
    obtain ⟨d, hd, rfl⟩ := getElem_of_mem hmem
    exact h (tensorMap[d], d) (by simp [mem_zipIdx_iff_getElem?, hd])

def entryAssignments (meshShape : MeshShape) (previous : Option (List Placement))
    (tensorDim : Nat) (mapping : DimMapping) : List (Nat × Placement) :=
  let order := meshOrder meshShape.length mapping
  order.mergeSort.map fun m =>
    (m, shardPlacement tensorDim (OrderCode.code (meshDimSize meshShape) order m)
      (unevenShardDim previous m == some (tensorDim : Int)))

section

variable {meshNdim : Nat} {tensorMap : TensorMap} (hwf : WellFormed meshNdim tensorMap)

include hwf

theorem meshOrder_lt {mapping : DimMapping} (hmem : mapping ∈ tensorMap) :
    ∀ m ∈ meshOrder meshNdim mapping, m < meshNdim := by
  intro m hm
  obtain ⟨axis, haxis, rfl⟩ := mem_map.mp hm
  exact meshDimOf_lt (hwf.entry hmem axis haxis)

theorem nodup_flatMap_meshOrder : (tensorMap.flatMap (meshOrder meshNdim)).Nodup := by
  have heq : tensorMap.flatMap (meshOrder meshNdim) =
      (usedAxes tensorMap).map (meshDimOf meshNdim) := map_flatMap.symm
  rw [heq]
  exact hwf.nodup.map_on fun a ha b hb =>
    meshDimOf_injOn (hwf.inRange a ha) (hwf.inRange b hb)

theorem nodup_meshOrder {mapping : DimMapping} (hmem : mapping ∈ tensorMap) :
    (meshOrder meshNdim mapping).Nodup :=
  (List.nodup_flatMap.mp (nodup_flatMap_meshOrder hwf)).1 mapping hmem

end

theorem entryPlacements_eq {meshShape : MeshShape} {tensorMap : TensorMap}
    (hwf : WellFormed meshShape.length tensorMap) (previous : Option (List Placement))
    (tensorDim : Nat) (hmem : mapping ∈ tensorMap) :
    entryPlacements meshShape previous tensorDim mapping =
      .ok (entryAssignments meshShape previous tensorDim mapping) := by
  have hexpected := computeExpectedSplitFactors_eq (meshOrder_lt hwf hmem)
    (nodup_meshOrder hwf hmem) (mergeSort_perm (meshOrder meshShape.length mapping)
      fun a b => decide (a ≤ b))
  change (computeExpectedSplitFactors meshShape (meshOrder meshShape.length mapping).mergeSort
    (meshOrder meshShape.length mapping) >>= _) = _
  rw [hexpected]
  simp [bind, Except.bind, entryAssignments, Function.comp_def]

structure Encodes (meshShape : MeshShape) (tensorMap : TensorMap)
    (placements : List Placement) : Prop where
  length_eq : placements.length = meshShape.length
  used : ∀ entry ∈ tensorMap.zipIdx, ∀ m ∈ meshOrder meshShape.length entry.1,
    ∃ unevenShard, placements[m]? = some (shardPlacement entry.2
      (OrderCode.code (meshDimSize meshShape) (meshOrder meshShape.length entry.1) m) unevenShard)
  unused : ∀ m placement, placements[m]? = some placement → placement.asShard ≠ none →
    ∃ entry ∈ tensorMap.zipIdx, m ∈ meshOrder meshShape.length entry.1

theorem encodes_assignments {meshShape : MeshShape} {tensorMap : TensorMap}
    (hwf : WellFormed meshShape.length tensorMap) (previous : Option (List Placement)) :
    Encodes meshShape tensorMap
      (assignPlacements (replicate meshShape.length .replicate)
        (tensorMap.zipIdx.flatMap fun entry =>
          entryAssignments meshShape previous entry.2 entry.1)) := by
  set assigned := tensorMap.zipIdx.flatMap fun entry =>
    entryAssignments meshShape previous entry.2 entry.1 with hassigned
  have hkeys : assigned.map Prod.fst ~ tensorMap.flatMap (meshOrder meshShape.length) := by
    have hmap : tensorMap.flatMap (meshOrder meshShape.length) =
        tensorMap.zipIdx.flatMap fun entry => meshOrder meshShape.length entry.1 := by
      conv_lhs => rw [← zipIdx_map_fst 0 tensorMap]
      rw [flatMap_map]
    rw [hassigned, map_flatMap, hmap]
    refine List.Perm.flatMap_left _ fun entry _ => ?_
    simpa [entryAssignments, Function.comp_def] using mergeSort_perm _ _
  have hnodup := hkeys.nodup_iff.mpr (nodup_flatMap_meshOrder hwf)
  refine ⟨by simp [length_assignPlacements], ?_, ?_⟩
  · intro entry hentry m hm
    have hmem := fst_mem_of_mem_zipIdx hentry
    refine ⟨_, assignPlacements_of_mem hnodup (mem_flatMap.mpr ⟨entry, hentry,
      mem_map.mpr ⟨m, ?_, rfl⟩⟩) ?_⟩
    · exact (mergeSort_perm _ _).mem_iff.mpr hm
    · simpa using meshOrder_lt hwf hmem m hm
  · intro m placement hget hshard
    by_contra hnot
    have hkey : m ∉ assigned.map Prod.fst := by
      intro hkey
      obtain ⟨mapping, hmapping, hm⟩ := mem_flatMap.mp (hkeys.subset hkey)
      obtain ⟨d, hd, rfl⟩ := getElem_of_mem hmapping
      exact hnot ⟨(tensorMap[d], d), by simp [mem_zipIdx_iff_getElem?, hd], hm⟩
    rw [assignPlacements_of_notMem hkey] at hget
    rw [eq_of_mem_replicate (mem_of_getElem? hget)] at hshard
    exact hshard rfl

theorem Encodes.set {meshShape : MeshShape} {tensorMap : TensorMap} {placements : List Placement}
    (h : Encodes meshShape tensorMap placements) {m : Nat}
    (hshard : placement.asShard = none)
    (hfree : ∀ mapping ∈ tensorMap, m ∉ meshOrder meshShape.length mapping) :
    Encodes meshShape tensorMap (placements.set m placement) := by
  refine ⟨by simpa using h.length_eq, ?_, ?_⟩
  · intro entry hentry m' hm'
    obtain ⟨unevenShard, hget⟩ := h.used entry hentry m' hm'
    refine ⟨unevenShard, ?_⟩
    rw [getElem?_set_ne, hget]
    rintro rfl
    exact hfree entry.1 (fst_mem_of_mem_zipIdx hentry) hm'
  · intro m' placement' hget hshard'
    by_cases heq : m = m'
    · subst heq
      obtain ⟨-, rfl⟩ : m < placements.length ∧ placement = placement' := by
        simpa [getElem?_set, ite_eq_iff] using hget
      exact absurd hshard hshard'
    · rw [getElem?_set_ne heq] at hget
      exact h.unused m' placement' hget hshard'

theorem Encodes.assign {meshShape : MeshShape} {tensorMap : TensorMap} {placements : List Placement}
    (h : Encodes meshShape tensorMap placements)
    (hassigned : ∀ entry ∈ assigned, entry.2.asShard = none ∧
      ∀ mapping ∈ tensorMap, entry.1 ∉ meshOrder meshShape.length mapping) :
    Encodes meshShape tensorMap (assignPlacements placements assigned) := by
  induction assigned generalizing placements with
  | nil => exact h
  | cons entry assigned ih =>
    have hentry := hassigned entry mem_cons_self
    exact ih (h.set hentry.1 hentry.2) fun e he => hassigned e (mem_cons_of_mem entry he)

theorem mem_assignPlacements {placements : List Placement}
    (h : placement ∈ assignPlacements placements assigned) :
    placement ∈ placements ∨ placement ∈ assigned.map Prod.snd := by
  induction assigned generalizing placements with
  | nil => exact Or.inl h
  | cons entry assigned ih =>
    rw [map_cons, mem_cons]
    rcases ih h with hset | hrest
    · rcases mem_or_eq_of_mem_set hset with hold | rfl
      · exact Or.inl hold
      · exact Or.inr (Or.inl rfl)
    · exact Or.inr (Or.inr hrest)

theorem shardPlacement_asRaggedShard (tensorDim splitFactor : Nat) (unevenShard : Bool) :
    (shardPlacement tensorDim splitFactor unevenShard).asRaggedShard = none := by
  rw [shardPlacement]
  split <;> rfl

theorem partialPlacements_entry {partialOps : List (Option String)} {entry : Nat × Placement}
    (h : entry ∈ partialPlacements partialOps) :
    ∃ op, entry.2 = .partialReduce op ∧ partialOps[entry.1]? = some (some op) := by
  obtain ⟨⟨slot, m⟩, hslot, hentry⟩ := mem_filterMap.mp h
  obtain ⟨op, rfl, rfl⟩ := Option.map_eq_some_iff.mp hentry
  exact ⟨op, rfl, mem_zipIdx_iff_getElem?.mp hslot⟩

theorem foldlM_recordRaggedShard_ok {placements : List Placement} {found : Option RaggedShardInfo}
    {k : Nat}
    (hpair : placements.Pairwise fun a b => a.asRaggedShard = none ∨ b.asRaggedShard = none)
    (hfound : found ≠ none → ∀ placement ∈ placements, placement.asRaggedShard = none) :
    ∃ info, (placements.zipIdx k).foldlM recordRaggedShard found = .ok info := by
  induction placements generalizing k found with
  | nil => exact ⟨found, rfl⟩
  | cons placement placements ih =>
    rw [pairwise_cons] at hpair
    rw [zipIdx_cons, foldlM_cons]
    cases hragged : placement.asRaggedShard with
    | none =>
      have hstep : recordRaggedShard found (placement, k) = .ok found := by
        simp [recordRaggedShard, hragged]
      rw [hstep]
      exact ih hpair.2 fun hne p hp => hfound hne p (mem_cons_of_mem _ hp)
    | some ragged =>
      obtain rfl : found = none := by
        by_contra hne
        rw [hfound hne placement mem_cons_self] at hragged
        cases hragged
      have hstep : recordRaggedShard none (placement, k) = .ok (some ⟨k, ragged⟩) := by
        simp [recordRaggedShard, hragged]
      rw [hstep]
      refine ih hpair.2 fun _ p hp => (hpair.1 p hp).resolve_left ?_
      simp [hragged]

structure Settled (layout : Layout) (tensorMap : TensorMap) : Prop where
  partial_length : layout.partialOps.length = layout.mesh.meshShape.length
  partial_free : ∀ m op, layout.partialOps[m]? = some (some op) → ∀ mapping ∈ tensorMap,
    m ∉ meshOrder layout.mesh.meshShape.length mapping
  ragged_lt : ∀ info ∈ layout.raggedShard, info.meshDim < layout.mesh.meshShape.length
  ragged_free : ∀ info ∈ layout.raggedShard, ∀ mapping ∈ tensorMap,
    info.meshDim ∉ meshOrder layout.mesh.meshShape.length mapping

def plainPlacements (layout : Layout) (tensorMap : TensorMap) : List Placement :=
  assignPlacements
    (assignPlacements (List.replicate layout.mesh.meshShape.length .replicate)
      (tensorMap.zipIdx.flatMap fun entry =>
        entryAssignments layout.mesh.meshShape layout.placements entry.2 entry.1))
    (partialPlacements layout.partialOps)

theorem plainPlacements_encodes {tensorMap : TensorMap}
    (hwf : WellFormed layout.mesh.meshShape.length tensorMap)
    (hsettled : Settled layout tensorMap) :
    Encodes layout.mesh.meshShape tensorMap (plainPlacements layout tensorMap) := by
  refine (encodes_assignments hwf layout.placements).assign fun entry hentry => ?_
  obtain ⟨op, hop, hget⟩ := partialPlacements_entry hentry
  exact ⟨by rw [hop]; rfl, hsettled.partial_free entry.1 op hget⟩

theorem plainPlacements_asRaggedShard {tensorMap : TensorMap}
    (hmem : placement ∈ plainPlacements layout tensorMap) :
    placement.asRaggedShard = none := by
  rcases mem_assignPlacements hmem with hmem | hmem
  · rcases mem_assignPlacements hmem with hmem | hmem
    · rw [eq_of_mem_replicate hmem]
      rfl
    · obtain ⟨entry, hentry, rfl⟩ := mem_map.mp hmem
      obtain ⟨_, _, hentry⟩ := mem_flatMap.mp hentry
      obtain ⟨_, _, rfl⟩ := mem_map.mp hentry
      exact shardPlacement_asRaggedShard _ _ _
  · obtain ⟨entry, hentry, rfl⟩ := mem_map.mp hmem
    obtain ⟨op, hop, -⟩ := partialPlacements_entry hentry
    rw [hop]
    rfl

theorem placeRaggedShard_encodes {tensorMap : TensorMap}
    (hwf : WellFormed layout.mesh.meshShape.length tensorMap)
    (hsettled : Settled layout tensorMap) :
    ∃ placements,
      placeRaggedShard layout.raggedShard (plainPlacements layout tensorMap) = .ok placements ∧
      Encodes layout.mesh.meshShape tensorMap placements ∧
      placements.Pairwise fun a b => a.asRaggedShard = none ∨ b.asRaggedShard = none := by
  have hencodes := plainPlacements_encodes hwf hsettled
  cases hragged : layout.raggedShard with
  | none =>
    refine ⟨_, rfl, hencodes, pairwise_of_forall_mem_list fun a ha b _ => Or.inl ?_⟩
    exact plainPlacements_asRaggedShard ha
  | some info =>
    have hlt : info.meshDim < (plainPlacements layout tensorMap).length := by
      rw [hencodes.length_eq]
      exact hsettled.ragged_lt info hragged
    refine ⟨_, if_pos hlt, hencodes.set rfl (hsettled.ragged_free info hragged), ?_⟩
    rw [pairwise_iff_getElem]
    intro i j hi hj hij
    by_cases hk : info.meshDim = i
    · right
      rw [getElem_set_ne (by omega)]
      exact plainPlacements_asRaggedShard (getElem_mem _)
    · left
      rw [getElem_set_ne hk]
      exact plainPlacements_asRaggedShard (getElem_mem _)

theorem tensorMapToPlacement_encodes (py : PyStr) {tensorMap : TensorMap}
    (hmap : layout.tensorMap = some tensorMap)
    (hwf : WellFormed layout.mesh.meshShape.length tensorMap)
    (hsettled : Settled layout tensorMap) :
    ∃ written placements, layout.tensorMapToPlacement py = .ok (written, placements) ∧
      written.placements = some placements ∧ written.mesh = layout.mesh ∧
      written.partialOps = layout.partialOps ∧
      Encodes layout.mesh.meshShape tensorMap placements := by
  have hmapM : tensorMap.zipIdx.mapM (fun (entry : DimMapping × Nat) =>
      entryPlacements layout.mesh.meshShape layout.placements entry.2 entry.1) =
      .ok (tensorMap.zipIdx.map fun entry =>
        entryAssignments layout.mesh.meshShape layout.placements entry.2 entry.1) :=
    mapM_eq_ok fun entry hentry =>
      entryPlacements_eq hwf layout.placements entry.2 (fst_mem_of_mem_zipIdx hentry)
  obtain ⟨placements, hragged, hencodes, hpair⟩ := placeRaggedShard_encodes hwf hsettled
  obtain ⟨info, hinfo⟩ := foldlM_recordRaggedShard_ok (k := 0) hpair (fun hne => absurd rfl hne)
  refine ⟨({ layout with placements := some placements, raggedShard := info }).updateCompactStr py,
    placements, ?_, rfl, rfl, rfl, hencodes⟩
  rw [plainPlacements] at hragged
  simp only [tensorMapToPlacement, hmap, hmapM, bind, Except.bind, ← flatMap_def, hragged,
    setPlacements, extractRaggedShard, hinfo]

/-! ## Reading the placements -/

def shardAxesOf (entries : List (Placement × Nat)) (tensorDim : Nat) : List Nat :=
  (entries.filter fun entry => entry.1.asShard.map Prod.fst = some (tensorDim : Int)).map Prod.snd

def ShardsWithin (dim : Nat) (placement : Placement) : Prop :=
  ∀ shardDim unevenShard, placement.asShard = some (shardDim, unevenShard) →
    0 ≤ shardDim ∧ shardDim < dim

def readPartial (py : PyStr) (partialOps : List (Option String)) (entry : Placement × Nat) :
    List (Option String) :=
  match entry.1 with
  | .partialReduce reduceOp => partialOps.set entry.2 (some (extractReduceOp py reduceOp))
  | _ => partialOps

def readPlacement (py : PyStr) (state : List (List Nat) × List (Option String))
    (entry : Placement × Nat) : List (List Nat) × List (Option String) :=
  match entry.1.asShard with
  | some (shardDim, _) => (state.1.modify shardDim.toNat (· ++ [entry.2]), state.2)
  | none => (state.1, readPartial py state.2 entry)

theorem recordPartial_eq (py : PyStr) {partialOps : List (Option String)}
    {entry : Placement × Nat} (h : entry.2 < partialOps.length) :
    recordPartial py partialOps entry = .ok (readPartial py partialOps entry) ∧
      (readPartial py partialOps entry).length = partialOps.length := by
  obtain ⟨placement, m⟩ := entry
  rw [recordPartial, readPartial]
  cases placement with
  | partialReduce reduceOp => exact ⟨if_pos h, by simp⟩
  | _ => exact ⟨rfl, rfl⟩

theorem recordPlacement_eq (py : PyStr) {dim : Nat}
    {entry : Placement × Nat}
    (hshard : ShardsWithin dim entry.1) (hops : entry.2 < state.2.length) :
    recordPlacement py dim state entry = .ok (readPlacement py state entry) ∧
      (readPlacement py state entry).2.length = state.2.length := by
  rw [recordPlacement, readPlacement]
  cases hcase : entry.1.asShard with
  | some shard =>
    obtain ⟨shardDim, unevenShard⟩ := shard
    obtain ⟨hpos, hlt⟩ := hshard shardDim unevenShard hcase
    have hrecord : recordShardAxis dim state.1 shardDim entry.2 =
        .ok (state.1.modify shardDim.toNat (· ++ [entry.2])) := by
      rw [recordShardAxis, if_neg (by omega)]
      simp only [if_neg (not_lt.mpr hpos)]
    simp [hrecord, bind, Except.bind]
  | none =>
    obtain ⟨hrecord, hlength⟩ := recordPartial_eq py hops
    simp [hrecord, hlength, bind, Except.bind]

theorem foldl_readPlacement (py : PyStr) {entries : List (Placement × Nat)}
    {dim : Nat}
    (hshard : ∀ entry ∈ entries, ShardsWithin dim entry.1) (tensorDim : Nat) :
    (entries.foldl (readPlacement py) state).1[tensorDim]? =
      state.1[tensorDim]?.map (· ++ shardAxesOf entries tensorDim) := by
  induction entries generalizing state with
  | nil => simp [shardAxesOf]
  | cons entry entries ih =>
    have hentry := hshard entry mem_cons_self
    rw [foldl_cons, ih fun e he => hshard e (mem_cons_of_mem entry he),
      shardAxesOf, shardAxesOf, filter_cons, readPlacement]
    cases hcase : entry.1.asShard with
    | none => simp
    | some shard =>
      obtain ⟨shardDim, unevenShard⟩ := shard
      obtain ⟨hpos, -⟩ := hentry shardDim unevenShard hcase
      by_cases heq : shardDim = tensorDim
      · subst heq
        simp [Function.comp_def]
      · have hne : shardDim.toNat ≠ tensorDim := by omega
        simp [hne, heq]

theorem shardAxesOf_pairwise (placements : List Placement) (tensorDim : Nat) :
    (shardAxesOf placements.zipIdx tensorDim).Pairwise (· < ·) := by
  have hsub : shardAxesOf placements.zipIdx tensorDim <+ List.range' 0 placements.length := by
    rw [← zipIdx_map_snd 0 placements]
    exact filter_sublist.map _
  exact List.Pairwise.sublist hsub pairwise_lt_range'

theorem asShard_replaceRagged (placements : List Placement) :
    (replaceRaggedWithReplicate placements).map Placement.asShard =
      placements.map Placement.asShard := by
  rw [replaceRaggedWithReplicate, map_map]
  refine map_congr_left fun placement _ => ?_
  cases placement <;> rfl

theorem shardPlacement_asShard (tensorDim splitFactor : Nat) (unevenShard : Bool) :
    (shardPlacement tensorDim splitFactor unevenShard).asShard =
      some ((tensorDim : Int), unevenShard) := by
  rw [shardPlacement]
  split <;> rfl

section Encoded

variable {meshShape : MeshShape} {tensorMap : TensorMap} {placements : List Placement}

variable {entry : DimMapping × Nat}

section

variable (h : Encodes meshShape tensorMap placements)

include h

theorem Encodes.asShard_iff (hentry : entry ∈ tensorMap.zipIdx) {m : Nat} :
    (∃ placement, placements[m]? = some placement ∧
      placement.asShard.map Prod.fst = some (entry.2 : Int)) ↔
      m ∈ meshOrder meshShape.length entry.1 := by
  constructor
  · rintro ⟨placement, hget, hshard⟩
    obtain ⟨entry', hentry', hm⟩ := h.unused m placement hget (by
      intro hnone
      simp [hnone] at hshard)
    obtain ⟨unevenShard, hget'⟩ := h.used entry' hentry' m hm
    rw [hget] at hget'
    rw [Option.some.inj hget', shardPlacement_asShard] at hshard
    have hdim : entry'.2 = entry.2 := by simpa using hshard
    rw [mem_zipIdx_iff_getElem?] at hentry hentry'
    rw [hdim, hentry] at hentry'
    rwa [Option.some.inj hentry']
  · intro hm
    obtain ⟨unevenShard, hget⟩ := h.used entry hentry m hm
    exact ⟨_, hget, by rw [shardPlacement_asShard]; rfl⟩

theorem Encodes.shardsWithin :
    ∀ entry ∈ (replaceRaggedWithReplicate placements).zipIdx,
      ShardsWithin tensorMap.length entry.1 := by
  rintro ⟨placement, m⟩ hentry shardDim unevenShard hshard
  rw [mem_zipIdx_iff_getElem?] at hentry
  have hmap := congrArg (·[m]?) (asShard_replaceRagged placements)
  simp only [getElem?_map, hentry, Option.map_some, hshard] at hmap
  obtain ⟨placement', hget, hshard'⟩ := Option.map_eq_some_iff.mp hmap.symm
  obtain ⟨entry, hentry', hm⟩ := h.unused m placement' hget (by simp [hshard'])
  obtain ⟨unevenShard', hget'⟩ := h.used entry hentry' m hm
  rw [hget] at hget'
  rw [Option.some.inj hget', shardPlacement_asShard] at hshard'
  have hdim : (entry.2 : Int) = shardDim := congrArg Prod.fst (Option.some.inj hshard')
  have hlt : entry.2 < tensorMap.length := by simpa using snd_lt_of_mem_zipIdx hentry'
  omega

theorem Encodes.index_lt :
    ∀ entry ∈ (replaceRaggedWithReplicate placements).zipIdx, entry.2 < meshShape.length := by
  intro entry hentry
  have hlt := snd_lt_of_mem_zipIdx hentry
  simpa [replaceRaggedWithReplicate, h.length_eq] using hlt

theorem Encodes.shardAxesOf_perm (hwf : WellFormed meshShape.length tensorMap)
    (hentry : entry ∈ tensorMap.zipIdx) :
    shardAxesOf (replaceRaggedWithReplicate placements).zipIdx entry.2 ~
      meshOrder meshShape.length entry.1 := by
  have hsorted := shardAxesOf_pairwise (replaceRaggedWithReplicate placements) entry.2
  refine (perm_ext_iff_of_nodup (hsorted.imp fun hlt => hlt.ne)
    (nodup_meshOrder hwf (fst_mem_of_mem_zipIdx hentry))).mpr fun m => ?_
  rw [← h.asShard_iff hentry]
  have hmap := congrArg (·[m]?) (asShard_replaceRagged placements)
  simp only [getElem?_map] at hmap
  simp only [shardAxesOf, mem_map, mem_filter, mem_zipIdx_iff_getElem?, decide_eq_true_eq]
  constructor
  · rintro ⟨⟨placement, m'⟩, ⟨hget, hshard⟩, rfl⟩
    simp only at hget hshard
    rw [hget, Option.map_some] at hmap
    obtain ⟨placement', hget', hshard'⟩ := Option.map_eq_some_iff.mp hmap.symm
    exact ⟨placement', hget', by rw [hshard', hshard]⟩
  · rintro ⟨placement, hget, hshard⟩
    rw [hget, Option.map_some] at hmap
    obtain ⟨placement', hget', hshard'⟩ := Option.map_eq_some_iff.mp hmap
    exact ⟨(placement', m), ⟨hget', by rw [hshard', hshard]⟩, rfl⟩

theorem Encodes.actualSplitFactor_eq (hwf : WellFormed meshShape.length tensorMap)
    (hsizes : ∀ size ∈ meshShape, 2 ≤ size) (hentry : entry ∈ tensorMap.zipIdx) :
    ∀ m ∈ meshOrder meshShape.length entry.1, actualSplitFactor placements m =
      OrderCode.code (meshDimSize meshShape) (meshOrder meshShape.length entry.1) m := by
  intro m hm
  have hrange := meshOrder_lt hwf (fst_mem_of_mem_zipIdx hentry)
  have hpos := OrderCode.code_pos (m := m) (meshDimSize_ge hsizes hrange)
  obtain ⟨unevenShard, hget⟩ := h.used entry hentry m hm
  rw [actualSplitFactor, getD_eq_getElem?_getD, hget, Option.getD_some, shardPlacement]
  split
  · rfl
  · simp only [placementSplitFactor]
    omega

end

end Encoded

/-! ## The round trip -/

/-- A tuple of the map shards with two mesh axes or more, all of them real. -/
def DimMapping.Regular : DimMapping → Prop
  | .axis _ => True
  | .axes mapped => 2 ≤ mapped.length ∧ NONE ∉ mapped

variable {meshNdim : Nat}

theorem map_meshOrder
    (hrange : ∀ a ∈ mapping.usedAxes, 0 ≤ a ∧ a < meshNdim) :
    (meshOrder meshNdim mapping).map (fun axis : Nat => (meshNdim : Int) - 1 - axis) =
      mapping.usedAxes := by
  rw [meshOrder, map_map]
  refine (map_congr_left fun a ha => ?_).trans (map_id _)
  have hcast := meshDimOf_cast (hrange a ha)
  simp only [Function.comp_apply, id_eq]
  omega

theorem convertMeshAxes_meshOrder
    (hrange : ∀ a ∈ mapping.usedAxes, 0 ≤ a ∧ a < meshNdim) (hregular : mapping.Regular) :
    convertMeshAxes meshNdim (meshOrder meshNdim mapping) = mapping := by
  rw [convertMeshAxes, map_meshOrder hrange]
  cases mapping with
  | axis mapped =>
    by_cases hnone : mapped = NONE
    · simp [DimMapping.usedAxes, DimMapping.mappedDims, hnone]
    · simp [DimMapping.usedAxes, DimMapping.mappedDims, hnone]
  | axes mapped =>
    obtain ⟨hlength, hnone⟩ := hregular
    have hused : (DimMapping.axes mapped).usedAxes = mapped :=
      filter_eq_self.mpr fun a ha => by
        have hne : a ≠ NONE := by
          rintro rfl
          exact hnone ha
        simpa using hne
    rw [hused]
    rcases mapped with _ | ⟨a, _ | ⟨b, rest⟩⟩
    · cases hlength
    · exact absurd hlength (by simp)
    · rfl

theorem convertMeshAxes_inj {left right : List Nat}
    (hleft : ∀ m ∈ left, m < meshNdim) (hright : ∀ m ∈ right, m < meshNdim)
    (h : convertMeshAxes meshNdim left = convertMeshAxes meshNdim right) : left = right := by
  have hinj : Function.Injective fun axis : Nat => (meshNdim : Int) - 1 - axis := by
    intro a b hab
    simp only at hab
    omega
  match left, right, h with
  | [], [], _ => rfl
  | [], [m], h =>
    have hlt := hright m (by simp)
    simp only [convertMeshAxes, map_nil, map_cons, DimMapping.axis.injEq, NONE] at h
    omega
  | [m], [], h =>
    have hlt := hleft m (by simp)
    simp only [convertMeshAxes, map_nil, map_cons, DimMapping.axis.injEq, NONE] at h
    omega
  | [m], [m'], h =>
    simp only [convertMeshAxes, map_nil, map_cons, DimMapping.axis.injEq] at h
    rw [hinj h]
  | a :: b :: left, c :: d :: right, h =>
    simp only [convertMeshAxes, map_cons, DimMapping.axes.injEq] at h
    exact map_injective_iff.mpr hinj (by simpa using h)

theorem recoverable_meshOrder_iff
    (hrange : ∀ a ∈ mapping.usedAxes, 0 ≤ a ∧ a < meshNdim) :
    OrderCode.Recoverable (meshOrder meshNdim mapping) ↔
      mapping.usedAxes.Triplewise fun x a b => ¬(b < x ∧ x < a) := by
  rw [OrderCode.Recoverable, meshOrder, triplewise_map, triplewise_iff_getElem,
    triplewise_iff_getElem]
  have hcast : ∀ i (hi : i < mapping.usedAxes.length),
      (meshDimOf meshNdim mapping.usedAxes[i] : Int) = meshNdim - mapping.usedAxes[i] - 1 :=
    fun i hi => meshDimOf_cast (hrange _ (getElem_mem hi))
  constructor
  all_goals
    intro h i j k hij hjk hk
    have hrel := h i j k hij hjk hk
    have hi := hcast i (by omega)
    have hj := hcast j (by omega)
    have hk := hcast k hk
    omega

theorem reorderShardAxes_perm (placements : List Placement) (shardAxes : List Nat) :
    reorderShardAxes placements shardAxes ~ shardAxes := by
  rw [reorderShardAxes]
  split
  · exact List.Perm.refl _
  · exact mergeSort_perm _ _

section Encoded

variable {meshShape : MeshShape} {tensorMap : TensorMap} {placements : List Placement}

variable {entry : DimMapping × Nat}

section

variable (h : Encodes meshShape tensorMap placements)
  (hwf : WellFormed meshShape.length tensorMap) (hsizes : ∀ size ∈ meshShape, 2 ≤ size)
  (hentry : entry ∈ tensorMap.zipIdx)

include h hwf hsizes hentry

theorem Encodes.getEffectiveShardAxes_eq_iff :
    getEffectiveShardAxes placements
        (shardAxesOf (replaceRaggedWithReplicate placements).zipIdx entry.2) =
        meshOrder meshShape.length entry.1 ↔
      OrderCode.Recoverable (meshOrder meshShape.length entry.1) := by
  have hmem := fst_mem_of_mem_zipIdx hentry
  have hnodup := nodup_meshOrder hwf hmem
  rw [getEffectiveShardAxes, OrderCode.mergeSort_eq_iff hnodup (h.shardAxesOf_perm hwf hentry)
    ((shardAxesOf_pairwise _ _).imp fun hlt => hlt.le)
    (h.actualSplitFactor_eq hwf hsizes hentry)]
  exact OrderCode.codeLT_iff_recoverable hnodup (meshDimSize_ge hsizes (meshOrder_lt hwf hmem))

theorem Encodes.reorderShardAxes_eq_iff :
    reorderShardAxes placements
        (shardAxesOf (replaceRaggedWithReplicate placements).zipIdx entry.2) =
        meshOrder meshShape.length entry.1 ↔
      OrderCode.Recoverable (meshOrder meshShape.length entry.1) := by
  have hperm := h.shardAxesOf_perm hwf hentry
  rw [reorderShardAxes]
  split
  · -- up to one axis there is nothing to reorder
    rename_i hshort
    have hlen := hperm.length_eq
    match hcase : shardAxesOf (replaceRaggedWithReplicate placements).zipIdx entry.2,
      hcase' : meshOrder meshShape.length entry.1 with
    | [], [] => simp [OrderCode.Recoverable]
    | [a], [b] =>
      rw [hcase, hcase'] at hperm
      simp [OrderCode.Recoverable, singleton_perm_singleton.mp hperm]
    | _ :: _ :: _, _ => simp [hcase] at hshort
    | [_], [] => simp [hcase, hcase'] at hlen
    | [], _ :: _ => simp [hcase, hcase'] at hlen
    | [_], _ :: _ :: _ => simp [hcase, hcase'] at hlen
  · exact h.getEffectiveShardAxes_eq_iff hwf hsizes hentry

end

section

variable {partialOps : List (Option String)} (py : PyStr)
  (h : Encodes meshShape tensorMap placements) (hops : partialOps.length = meshShape.length)

include py h hops

theorem Encodes.foldlM_recordPlacement :
    ∃ partialOps', (replaceRaggedWithReplicate placements).zipIdx.foldlM
      (recordPlacement py tensorMap.length) (replicate tensorMap.length [], partialOps) =
      .ok (tensorMap.zipIdx.map fun entry =>
        shardAxesOf (replaceRaggedWithReplicate placements).zipIdx entry.2, partialOps') := by
  set entries := (replaceRaggedWithReplicate placements).zipIdx with hentries
  have hloop := foldlM_eq_ok (f := recordPlacement py tensorMap.length) (g := readPlacement py)
    (P := fun state => state.2.length = meshShape.length)
    (b := (replicate tensorMap.length [], partialOps)) hops
    fun state entry hentry hstate => by
      obtain ⟨hok, hlen⟩ := recordPlacement_eq py (h.shardsWithin entry hentry)
        (by rw [hstate]; exact h.index_lt entry hentry)
      exact ⟨hok, hlen.trans hstate⟩
  refine ⟨(entries.foldl (readPlacement py) (replicate tensorMap.length [], partialOps)).2, ?_⟩
  rw [hloop]
  congr 1
  refine Prod.ext (ext_getElem? fun d => ?_) rfl
  rw [foldl_readPlacement py h.shardsWithin d, getElem?_map, getElem?_zipIdx, getElem?_replicate]
  split
  · rename_i hlt
    simp [getElem?_eq_getElem hlt, hentries]
  · rename_i hge
    simp [getElem?_eq_none (not_lt.mp hge)]

theorem Encodes.foldlM_recordPartial :
    ∃ partialOps', (replaceRaggedWithReplicate placements).zipIdx.foldlM (recordPartial py)
      partialOps = .ok partialOps' := by
  refine ⟨_, foldlM_eq_ok (g := readPartial py)
    (P := fun partialOps => partialOps.length = meshShape.length) hops
    fun partialOps entry hentry hlength => ?_⟩
  obtain ⟨hok, hlen⟩ := recordPartial_eq py (by rw [hlength]; exact h.index_lt entry hentry)
  exact ⟨hok, hlen.trans hlength⟩

end

theorem Encodes.validateShardAxes_ok (h : Encodes meshShape tensorMap placements)
    (hwf : WellFormed meshShape.length tensorMap) (hsizes : ∀ size ∈ meshShape, 2 ≤ size)
    (hentry : entry ∈ tensorMap.zipIdx)
    (hrecoverable : OrderCode.Recoverable (meshOrder meshShape.length entry.1)) :
    validateShardAxes meshShape placements
      (shardAxesOf (replaceRaggedWithReplicate placements).zipIdx entry.2) = .ok () := by
  have hmem := fst_mem_of_mem_zipIdx hentry
  have hperm := h.shardAxesOf_perm hwf hentry
  rw [validateShardAxes, (h.getEffectiveShardAxes_eq_iff hwf hsizes hentry).mpr hrecoverable,
    computeExpectedSplitFactors_eq (meshOrder_lt hwf hmem) (nodup_meshOrder hwf hmem) hperm]
  refine forM_eq_ok fun expected hexpected => ?_
  obtain ⟨m, hm, rfl⟩ := mem_map.mp hexpected
  exact if_pos (h.actualSplitFactor_eq hwf hsizes hentry m (hperm.subset hm))

theorem Encodes.convert_eq_iff (h : Encodes meshShape tensorMap placements)
    (hwf : WellFormed meshShape.length tensorMap) (hsizes : ∀ size ∈ meshShape, 2 ≤ size)
    (hregular : ∀ mapping ∈ tensorMap, mapping.Regular) :
    convertDimMapToTensorMap meshShape.length (reorderDimMapForStridedShard placements
        (tensorMap.zipIdx.map fun entry =>
          shardAxesOf (replaceRaggedWithReplicate placements).zipIdx entry.2)) = tensorMap ↔
      ∀ mapping ∈ tensorMap, OrderCode.Recoverable (meshOrder meshShape.length mapping) := by
  have hmap : tensorMap = tensorMap.zipIdx.map fun entry =>
      convertMeshAxes meshShape.length (meshOrder meshShape.length entry.1) := by
    conv_lhs => rw [← zipIdx_map_fst 0 tensorMap]
    refine map_congr_left fun entry hentry => ?_
    have hmem := fst_mem_of_mem_zipIdx hentry
    exact (convertMeshAxes_meshOrder (hwf.entry hmem) (hregular _ hmem)).symm
  rw [forall_mem_iff_zipIdx]
  conv_lhs => rhs; rw [hmap]
  rw [convertDimMapToTensorMap, reorderDimMapForStridedShard, map_map, map_map, map_inj_left]
  refine forall₂_congr fun entry hentry => ?_
  rw [← h.reorderShardAxes_eq_iff hwf hsizes hentry]
  have hmem := fst_mem_of_mem_zipIdx hentry
  constructor
  · refine convertMeshAxes_inj (fun m hm => ?_) (meshOrder_lt hwf hmem)
    refine meshOrder_lt hwf hmem m ((h.shardAxesOf_perm hwf hentry).subset ?_)
    exact (reorderShardAxes_perm placements _).subset hm
  · exact fun heq => congrArg (convertMeshAxes meshShape.length) heq

end Encoded

/-- Write the placements of a layout's map, and read them back for a tensor of rank `dim`. -/
def roundTrip (py : PyStr) (layout : Layout) (dim : Int) : Except LayoutError TensorMap := do
  let (written, _) ← layout.tensorMapToPlacement py
  let (_, tensorMap) ← written.placementToTensorMap py dim
  .ok tensorMap

theorem buildDimMap_convert_iff (py : PyStr) {meshShape : MeshShape} {tensorMap : TensorMap}
    {placements : List Placement} (h : Encodes meshShape tensorMap placements)
    (hwf : WellFormed meshShape.length tensorMap) (hsizes : ∀ size ∈ meshShape, 2 ≤ size)
    (hregular : ∀ mapping ∈ tensorMap, mapping.Regular)
    {partialOps : List (Option String)} (hops : partialOps.length = meshShape.length) :
    (∃ dimMap partialOps', buildDimMapFromPlacements py meshShape tensorMap.length placements
        partialOps = .ok (dimMap, partialOps') ∧
        convertDimMapToTensorMap meshShape.length dimMap = tensorMap) ↔
      ∀ mapping ∈ tensorMap, OrderCode.Recoverable (meshOrder meshShape.length mapping) := by
  obtain ⟨partialOps', hloop⟩ := h.foldlM_recordPlacement py hops
  rw [← h.convert_eq_iff hwf hsizes hregular]
  simp only [buildDimMapFromPlacements, hloop, bind, Except.bind]
  constructor
  · rintro ⟨dimMap, partialOps'', hbuild, hconvert⟩
    split at hbuild
    · cases hbuild
    · simp only [Except.ok.injEq, Prod.mk.injEq] at hbuild
      rw [hbuild.1, hconvert]
  · intro hconvert
    have hrecoverable := (h.convert_eq_iff hwf hsizes hregular).mp hconvert
    rw [forall_mem_iff_zipIdx] at hrecoverable
    have hvalid : validateStridedShardSplitFactor meshShape placements
        (tensorMap.zipIdx.map fun entry =>
          shardAxesOf (replaceRaggedWithReplicate placements).zipIdx entry.2) = .ok () := by
      refine forM_eq_ok fun shardAxes hmem => ?_
      obtain ⟨entry, hentry, rfl⟩ := mem_map.mp hmem
      exact h.validateShardAxes_ok hwf hsizes hentry (hrecoverable entry hentry)
    rw [hvalid]
    exact ⟨_, _, rfl, hconvert⟩

theorem roundTrip_eq_ok_iff (py : PyStr) {tensorMap : TensorMap}
    (hmap : layout.tensorMap = some tensorMap)
    (hwf : WellFormed layout.mesh.meshShape.length tensorMap)
    (hregular : ∀ mapping ∈ tensorMap, mapping.Regular)
    (hsizes : ∀ size ∈ layout.mesh.meshShape, 2 ≤ size) (hsettled : Settled layout tensorMap) :
    roundTrip py layout tensorMap.length = .ok tensorMap ↔ ∀ mapping ∈ tensorMap,
      OrderCode.Recoverable (meshOrder layout.mesh.meshShape.length mapping) := by
  obtain ⟨written, placements, hwritten, hplacements, hmesh, hops, hencodes⟩ :=
    tensorMapToPlacement_encodes py hmap hwf hsettled
  have hops : written.partialOps.length = layout.mesh.meshShape.length := by
    rw [hops, hsettled.partial_length]
  by_cases hzero : tensorMap = []
  · -- a tensor of rank 0 takes the path of its own
    subst hzero
    obtain ⟨partialOps, hloop⟩ := hencodes.foldlM_recordPartial py hops
    refine iff_of_true ?_ (by simp)
    simp [roundTrip, hwritten, placementToTensorMap, handleZeroDimPlacement, hplacements, hloop,
      bind, Except.bind]
  · have hpos : 0 < tensorMap.length := length_pos_iff.mpr hzero
    rw [← buildDimMap_convert_iff py hencodes hwf hsizes hregular hops]
    simp only [roundTrip, hwritten, placementToTensorMap, hplacements, hmesh, bind, Except.bind,
      if_neg (show ¬(tensorMap.length : Int) < 0 by omega),
      if_neg (show ¬(tensorMap.length : Int) = 0 by omega), Int.toNat_natCast]
    cases hbuild : buildDimMapFromPlacements py layout.mesh.meshShape tensorMap.length placements
        written.partialOps with
    | error err => simp
    | ok built =>
      obtain ⟨dimMap, partialOps⟩ := built
      simp

/-- A map whose placements read back: no axis of a tuple stands before two that it lies between. -/
def Recoverable (mapping : DimMapping) : Prop :=
  mapping.usedAxes.Triplewise fun x a b => ¬(b < x ∧ x < a)

theorem tensorMap_roundTrip_iff_recoverable (py : PyStr) (layout : Layout)
    (tensorMap : TensorMap) (hmap : layout.tensorMap = some tensorMap)
    (hwf : WellFormed layout.mesh.meshShape.length tensorMap)
    (hregular : ∀ mapping ∈ tensorMap, mapping.Regular)
    (hsizes : ∀ size ∈ layout.mesh.meshShape, 2 ≤ size)
    (hsettled : Settled layout tensorMap) :
    roundTrip py layout tensorMap.length = .ok tensorMap ↔
      ∀ mapping ∈ tensorMap, Recoverable mapping := by
  rw [roundTrip_eq_ok_iff py hmap hwf hregular hsizes hsettled]
  exact forall₂_congr fun mapping hmem => recoverable_meshOrder_iff (hwf.entry hmem)

/-! Eight ranks in a cube, one tensor dimension split over all three mesh dimensions. -/

def cubeMesh : DeviceMesh where
  meshShape := [2, 2, 2]
  meshDimNames := some ["dp", "sp", "mp"]
  rankList := [0, 1, 2, 3, 4, 5, 6, 7]
  names_ok := by simp
  ranks_ok := by simp

def cubeLayout (tensorMap : TensorMap) : Layout where
  mesh := cubeMesh
  tensorMap := some tensorMap
  partialOps := [none, none, none]
  placements := none
  raggedShard := none
  tensorShape := none
  tensorStride := none
  tensorDtype := "None"
  compactStr := ""

theorem cubeLayout_settled (tensorMap : TensorMap) : Settled (cubeLayout tensorMap) tensorMap where
  partial_length := rfl
  partial_free m op h := by
    simp only [cubeLayout] at h
    match m with
    | 0 | 1 | 2 | _ + 3 => simp at h
  ragged_lt _ h := by cases h
  ragged_free _ h := by cases h

theorem tensorMap_roundTrip_innermost_last :
    roundTrip asciiStr (cubeLayout [.axes [1, 0, 2]]) 1 = .ok [.axes [1, 0, 2]] ↔
      ∀ mapping ∈ [DimMapping.axes [1, 0, 2]], Recoverable mapping :=
  tensorMap_roundTrip_iff_recoverable asciiStr (cubeLayout [.axes [1, 0, 2]]) _ rfl
    ⟨by decide, by decide⟩ (by simp [DimMapping.Regular, NONE]) (by simp [cubeLayout, cubeMesh])
    (cubeLayout_settled _)

/-- Mesh dimensions 0, 1 and 2 get the factors 2, 1 and 1, which are those of no order. -/
theorem tensorMap_roundTrip_fails_middle_first :
    roundTrip asciiStr (cubeLayout [.axes [1, 2, 0]]) 1 ≠ .ok [.axes [1, 2, 0]] := by
  intro h
  have hall := (roundTrip_eq_ok_iff asciiStr
    (show (cubeLayout [.axes [1, 2, 0]]).tensorMap = some [.axes [1, 2, 0]] from rfl)
    ⟨by decide, by decide⟩ (by simp [DimMapping.Regular, NONE]) (by simp [cubeLayout, cubeMesh])
    (cubeLayout_settled _)).mp h
  have horder := hall _ mem_cons_self
  rw [show meshOrder (cubeLayout [.axes [1, 2, 0]]).mesh.meshShape.length (.axes [1, 2, 0]) =
    [1, 0, 2] from rfl, OrderCode.Recoverable, triplewise_triple] at horder
  omega

end HyperParallel.DTensor
