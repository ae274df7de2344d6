import HyperParallel.DTensor.Layout

/-!
# The compact string as a cache key

The text of a layout determines the fields it is printed from, so two layouts
whose text was refreshed after their last change share a key only when they
agree.  The inferred layouts of an operator and the operators of a
redistribution are kept under such keys.  A ragged placement is not part of the
text, and ragged layouts use neither cache.
-/

namespace HyperParallel.DTensor

open Foundation List
open Layout

variable {py : PyStr}

def Fresh (py : PyStr) (layout : Layout) : Prop := layout.compactStr = layout.toCompactString py

/-- The same key fields: what a cached inference may depend on. -/
structure Agree (left right : Layout) : Prop where
  meshShape : left.mesh.meshShape = right.mesh.meshShape
  meshDimNames : left.mesh.meshDimNames = right.mesh.meshDimNames
  rankList : left.mesh.rankList = right.mesh.rankList
  tensorMap : left.tensorMap = right.tensorMap
  partialOps : left.partialOps = right.partialOps
  unevenShard : unevenShardMeshDims left.placements = unevenShardMeshDims right.placements
  tensorShape : left.tensorShape = right.tensorShape
  tensorStride : left.tensorStride = right.tensorStride
  tensorDtype : left.tensorDtype = right.tensorDtype

variable {left right : Layout}

theorem agree_of_key_eq (h : left.key = right.key) : Agree left right := by
  simp only [Layout.key, Prod.mk.injEq] at h
  obtain ⟨htensorMap, hpartial, huneven, hshape, hstride, hdtype, hmesh, hnames, hranks⟩ := h
  exact ⟨hmesh, hnames, hranks, htensorMap, hpartial, huneven, hshape, hstride, hdtype⟩

theorem Fresh.agree_of_append (hleft : Fresh py left)
    (hright : Fresh py right) {rest rest' : List Char}
    (h : left.compactStr.toList ++ rest = right.compactStr.toList ++ rest') :
    Agree left right ∧ rest = rest' := by
  rw [hleft, hright, Layout.toCompactString, Layout.toCompactString, String.toList_ofList,
    String.toList_ofList] at h
  obtain ⟨hkey, hrest⟩ := PyRepr.Printer.closed_cancel _ h
  exact ⟨agree_of_key_eq hkey, hrest⟩

theorem Fresh.agree (hleft : Fresh py left) (hright : Fresh py right)
    (h : left.compactStr = right.compactStr) : Agree left right :=
  (hleft.agree_of_append hright
    (show left.compactStr.toList ++ [] = right.compactStr.toList ++ [] by rw [h])).1

/-! ## What refreshes the text -/

theorem setTensorMeta_fresh (layout : Layout) (shape stride : List Int) (dtype : String) :
    Fresh py (layout.setTensorMeta py shape stride dtype) := rfl

variable {layout layout' : Layout}

theorem placementToTensorMap_fresh {dim : Int} {tensorMap : TensorMap} (hdim : dim ≠ 0)
    (h : layout.placementToTensorMap py dim = .ok (layout', tensorMap)) :
    Fresh py layout' := by
  rw [placementToTensorMap, if_neg hdim] at h
  split at h
  · cases h
  · split at h
    · cases h
    · simp only [bind, Except.bind] at h
      split at h
      · cases h
      · cases h
        rfl

theorem callAlias_fresh {aliasDims : List AliasDim}
    (h : layout.callAlias py aliasDims = .ok layout') : Fresh py layout' := by
  rw [callAlias] at h
  split at h
  · cases h
  · simp only [bind, Except.bind] at h
    split at h
    · cases h
    · split at h
      · cases h
      · cases h
        rfl

theorem setPartialByDevAxis_fresh {axis : String} {op : Option String}
    (h : layout.setPartialByDevAxis py axis op = .ok layout') : Fresh py layout' := by
  rw [setPartialByDevAxis] at h
  split at h
  · cases h
  · simp only [bind, Except.bind] at h
    split at h
    · cases h
    · split at h
      · cases h
      · split at h
        · cases h
        · split at h
          · cases h
          · cases h
            rfl

theorem resetPartial_fresh (h : layout.resetPartial py = .ok layout') : Fresh py layout' := by
  simp only [resetPartial, bind, Except.bind] at h
  split at h
  · cases h
  · cases h
    rfl

/-! ## Histories -/

inductive Changed (py : PyStr) (layout : Layout) : Layout → Prop where
  | setPartial {axis : String} {op : Option String} {layout' : Layout}
      (h : layout.setPartialByDevAxis py axis op = .ok layout') : Changed py layout layout'
  | reset {layout' : Layout} (h : layout.resetPartial py = .ok layout') : Changed py layout layout'
  | tensorMeta (shape stride : List Int) (dtype : String) :
      Changed py layout (layout.setTensorMeta py shape stride dtype)

inductive Built (py : PyStr) : Layout → Prop where
  | placements {mesh : DeviceMesh} {placements : List Placement} {dim : Int}
      {called layout : Layout} {tensorMap : TensorMap}
      (hcall : (fromDeviceMesh py mesh).callPlacements placements = .ok called)
      (hmap : called.placementToTensorMap py dim = .ok (layout, tensorMap)) : Built py layout
  | aliased {mesh : DeviceMesh} {aliasDims : List AliasDim} {layout : Layout}
      (h : (fromDeviceMesh py mesh).callAlias py aliasDims = .ok layout) : Built py layout
  | changed {layout layout' : Layout} (hbuilt : Built py layout)
      (h : Changed py layout layout') : Built py layout'

/--
The built layouts whose last construction or change was not the path of a
tensor of rank 0.
-/
inductive Refreshed (py : PyStr) : Layout → Prop where
  | placements {mesh : DeviceMesh} {placements : List Placement} {dim : Int}
      {called layout : Layout} {tensorMap : TensorMap} (hdim : dim ≠ 0)
      (hcall : (fromDeviceMesh py mesh).callPlacements placements = .ok called)
      (hmap : called.placementToTensorMap py dim = .ok (layout, tensorMap)) : Refreshed py layout
  | aliased {mesh : DeviceMesh} {aliasDims : List AliasDim} {layout : Layout}
      (h : (fromDeviceMesh py mesh).callAlias py aliasDims = .ok layout) : Refreshed py layout
  | changed {layout layout' : Layout} (hbuilt : Built py layout)
      (h : Changed py layout layout') : Refreshed py layout'

theorem Changed.fresh (h : Changed py layout layout') : Fresh py layout' := by
  cases h with
  | setPartial h => exact setPartialByDevAxis_fresh h
  | reset h => exact resetPartial_fresh h
  | tensorMeta shape stride dtype => exact setTensorMeta_fresh layout shape stride dtype

theorem Refreshed.fresh (h : Refreshed py layout) : Fresh py layout := by
  cases h with
  | placements hdim hcall hmap => exact placementToTensorMap_fresh hdim hmap
  | aliased h => exact callAlias_fresh h
  | changed hbuilt h => exact h.fresh

/-! ## The caches -/

inductive CacheValue where
  | layout (value : Layout)
  | raw (text : String)

def stringifyCacheValue : CacheValue → String
  | .layout value => value.compactStr
  | .raw text => text

def layoutCacheKey (cacheValues : List CacheValue) : List String :=
  cacheValues.map stringifyCacheValue

abbrev LayoutCache (ρ : Type*) := List ((String × List String) × ρ)

def lookupOrInferLayout {ρ : Type*} (inferLayout : String → List CacheValue → ρ)
    (layoutCache : LayoutCache ρ) (funcName : String) (cacheValues : List CacheValue) :
    ρ × LayoutCache ρ :=
  let cacheKey := (funcName, layoutCacheKey cacheValues)
  match layoutCache.lookup cacheKey with
  | some result => (result, layoutCache)
  | none =>
    let result := inferLayout funcName cacheValues
    (result, (cacheKey, result) :: layoutCache)

def lookups {ρ : Type*} (inferLayout : String → List CacheValue → ρ) :
    LayoutCache ρ → List (String × List CacheValue) → List ρ
  | _, [] => []
  | layoutCache, (funcName, cacheValues) :: calls =>
    let (result, layoutCache) :=
      lookupOrInferLayout inferLayout layoutCache funcName cacheValues
    result :: lookups inferLayout layoutCache calls

def transformCacheKey (fromLayout toLayout : Layout) (rankId : Nat) (fullShape : String) :
    String :=
  fromLayout.compactStr ++ toLayout.compactStr ++ toString rankId ++ fullShape

def RefreshedValues (py : PyStr) (cacheValues : List CacheValue) : Prop :=
  ∀ value, .layout value ∈ cacheValues → Refreshed py value

def AgreeValues (left right : List CacheValue) : Prop :=
  left.length = right.length ∧
    ∀ (i : Nat) (value value' : Layout), left[i]? = some (.layout value) →
      right[i]? = some (.layout value') → Agree value value'

theorem agreeValues_of_key_eq {left right : List CacheValue} (hleft : RefreshedValues py left)
    (hright : RefreshedValues py right) (h : layoutCacheKey left = layoutCacheKey right) :
    AgreeValues left right := by
  refine ⟨by simpa [layoutCacheKey] using congrArg List.length h, ?_⟩
  intro i value value' hvalue hvalue'
  have hget := congrArg (·[i]?) h
  simp only [layoutCacheKey, getElem?_map, hvalue, hvalue', Option.map_some,
    Option.some.injEq, stringifyCacheValue] at hget
  exact (hleft value (mem_of_getElem? hvalue)).fresh.agree
    (hright value' (mem_of_getElem? hvalue')).fresh hget

def LayoutCache.Sound {ρ : Type*} (py : PyStr) (inferLayout : String → List CacheValue → ρ)
    (layoutCache : LayoutCache ρ) : Prop :=
  ∀ entry ∈ layoutCache, ∃ cacheValues, RefreshedValues py cacheValues ∧
    entry.1.2 = layoutCacheKey cacheValues ∧ entry.2 = inferLayout entry.1.1 cacheValues

theorem lookupOrInferLayout_sound {ρ : Type*} {inferLayout : String → List CacheValue → ρ}
    {layoutCache : LayoutCache ρ} (hsound : layoutCache.Sound py inferLayout) (funcName : String)
    {cacheValues : List CacheValue} (hrefreshed : RefreshedValues py cacheValues) :
    (lookupOrInferLayout inferLayout layoutCache funcName cacheValues).2.Sound py inferLayout ∧
      ∃ inferred, AgreeValues cacheValues inferred ∧
        (lookupOrInferLayout inferLayout layoutCache funcName cacheValues).1 =
          inferLayout funcName inferred := by
  rw [lookupOrInferLayout]
  cases hlookup : layoutCache.lookup (funcName, layoutCacheKey cacheValues) with
  | some result =>
    obtain ⟨front, back, rfl, -⟩ := lookup_eq_some_iff.mp hlookup
    obtain ⟨inferred, hinferred, hkey, hresult⟩ :=
      hsound ((funcName, layoutCacheKey cacheValues), result) (by simp)
    exact ⟨hsound, inferred, agreeValues_of_key_eq hrefreshed hinferred hkey, hresult⟩
  | none =>
    refine ⟨?_, cacheValues, agreeValues_of_key_eq hrefreshed hrefreshed rfl, rfl⟩
    intro entry hentry
    rcases mem_cons.mp hentry with rfl | hentry
    · exact ⟨cacheValues, hrefreshed, rfl, rfl⟩
    · exact hsound entry hentry

theorem lookups_agree {ρ : Type*} {inferLayout : String → List CacheValue → ρ}
    {layoutCache : LayoutCache ρ} (hsound : layoutCache.Sound py inferLayout)
    {calls : List (String × List CacheValue)}
    (hrefreshed : ∀ call ∈ calls, RefreshedValues py call.2) :
    Forall₂ (fun call result => ∃ inferred, AgreeValues call.2 inferred ∧
      result = inferLayout call.1 inferred) calls (lookups inferLayout layoutCache calls) := by
  induction calls generalizing layoutCache with
  | nil => exact .nil
  | cons call calls ih =>
    obtain ⟨hnext, hresult⟩ := lookupOrInferLayout_sound hsound call.1
      (hrefreshed call mem_cons_self)
    exact .cons hresult (ih hnext fun c hc => hrefreshed c (mem_cons_of_mem call hc))

theorem transformCacheKey_agree {source target source' target' : Layout}
    (hsource : Fresh py source) (htarget : Fresh py target)
    (hsource' : Fresh py source') (htarget' : Fresh py target') {rankId : Nat}
    {fullShape fullShape' : String}
    (h : transformCacheKey source target rankId fullShape =
      transformCacheKey source' target' rankId fullShape') :
    Agree source source' ∧ Agree target target' := by
  have htext := congrArg String.toList h
  simp only [transformCacheKey, String.toList_append, append_assoc] at htext
  obtain ⟨hsourceAgree, hrest⟩ := hsource.agree_of_append hsource' htext
  exact ⟨hsourceAgree, (htarget.agree_of_append htarget' hrest).1⟩

/-! Two ragged layouts on a pair of ranks that differ in the share of each rank only. -/

theorem pairMesh_names : ∀ names ∈ some ["dp"], names.length = [2].length ∧ names.Nodup := by simp

theorem pairMesh_ranks : [0, 1].length = [2].prod := rfl

def pairMesh : DeviceMesh where
  meshShape := [2]
  meshDimNames := some ["dp"]
  rankList := [0, 1]
  names_ok := pairMesh_names
  ranks_ok := pairMesh_ranks

theorem zeroDims_ne_nil : [0] ≠ [] := List.cons_ne_nil 0 []

theorem zeroDims_prefix : [0] = range [0].length := rfl

def pairShares (first : Nat) : RaggedShard where
  dims := [0]
  localUnits := [first, 1]
  dims_ne_nil := zeroDims_ne_nil
  dims_prefix := zeroDims_prefix
  units_pos := by simp

def raggedCalled (py : PyStr) (first : Nat) : Layout :=
  { fromDeviceMesh py pairMesh with
    placements := some [.raggedShard (pairShares first)]
    raggedShard := some ⟨0, pairShares first⟩ }

def raggedLayout (py : PyStr) (first : Nat) : Layout :=
  ({ raggedCalled py first with tensorMap := some [.axis NONE] }).updateCompactStr py

theorem raggedCalled_eq (py : PyStr) (first : Nat) :
    (fromDeviceMesh py pairMesh).callPlacements [.raggedShard (pairShares first)] =
      .ok (raggedCalled py first) := rfl

theorem raggedLayout_eq (py : PyStr) (first : Nat) :
    (raggedCalled py first).placementToTensorMap py 1 =
      .ok (raggedLayout py first, [.axis NONE]) := by
  have hbuild : buildDimMapFromPlacements py [2] 1 [.raggedShard (pairShares first)] [none] =
      .ok ([[]], [none]) := rfl
  rw [placementToTensorMap, if_neg (by decide), if_neg (by decide)]
  change (buildDimMapFromPlacements py [2] 1 [.raggedShard (pairShares first)] [none] >>= _) = _
  rw [hbuild]
  rfl

theorem raggedLayout_refreshed (py : PyStr) (first : Nat) :
    Refreshed py (raggedLayout py first) :=
  .placements (by decide) (raggedCalled_eq py first) (raggedLayout_eq py first)

theorem raggedLayout_compactStr (py : PyStr) (first second : Nat) :
    (raggedLayout py first).compactStr = (raggedLayout py second).compactStr := by
  have hkey : (raggedLayout py first).key = (raggedLayout py second).key := rfl
  have hfresh : ∀ n, Fresh py (raggedLayout py n) := fun n => (raggedLayout_refreshed py n).fresh
  rw [hfresh first, hfresh second, Layout.toCompactString, Layout.toCompactString, hkey]

/--
Refreshed layouts with the same text agree, and neither cache serves what was
inferred for layouts that do not agree.
-/
theorem compactStr_faithful (py : PyStr) :
    (∀ left right : Layout, Refreshed py left → Refreshed py right →
      left.compactStr = right.compactStr → Agree left right) ∧
    (∀ (ρ : Type) (inferLayout : String → List CacheValue → ρ)
      (calls : List (String × List CacheValue)),
      (∀ call ∈ calls, RefreshedValues py call.2) →
      List.Forall₂ (fun call result => ∃ inferred, AgreeValues call.2 inferred ∧
        result = inferLayout call.1 inferred) calls (lookups inferLayout [] calls)) ∧
    (∀ (source target source' target' : Layout) (rankId : Nat) (fullShape fullShape' : String),
      Refreshed py source → Refreshed py target → Refreshed py source' → Refreshed py target' →
      transformCacheKey source target rankId fullShape =
        transformCacheKey source' target' rankId fullShape' →
      Agree source source' ∧ Agree target target') := by
  refine ⟨?_, ?_, ?_⟩
  · intro left right hleft hright h
    exact hleft.fresh.agree hright.fresh h
  · intro ρ inferLayout calls hrefreshed
    exact lookups_agree (fun entry hentry => by cases hentry) hrefreshed
  · intro source target source' target' rankId fullShape fullShape' hs ht hs' ht' h
    exact transformCacheKey_agree hs.fresh ht.fresh hs'.fresh ht'.fresh h

theorem compactStr_faithful_pair : Agree (raggedLayout asciiStr 1) (raggedLayout asciiStr 2) :=
  (compactStr_faithful asciiStr).1 _ _ (raggedLayout_refreshed _ 1) (raggedLayout_refreshed _ 2)
    (raggedLayout_compactStr _ 1 2)

theorem compactStr_omits_raggedShard :
    ∃ left right, Built asciiStr left ∧ Built asciiStr right ∧
      left.compactStr = right.compactStr ∧ left.raggedShard ≠ right.raggedShard :=
  ⟨raggedLayout asciiStr 1, raggedLayout asciiStr 2,
    .placements (raggedCalled_eq _ 1) (raggedLayout_eq _ 1),
    .placements (raggedCalled_eq _ 2) (raggedLayout_eq _ 2),
    raggedLayout_compactStr _ 1 2, by
      change some (RaggedShardInfo.mk 0 (pairShares 1)) ≠ some (.mk 0 (pairShares 2))
      decide⟩

end HyperParallel.DTensor
