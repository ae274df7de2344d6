import HyperParallel.DTensor.SubGroups
import HyperParallel.Foundation.ListOrder
import HyperParallel.Foundation.MixedRadix
import Mathlib.Data.List.GetD

/-!
# The ranks along some axes

The rank list of a group, expanded axis by axis, has the ranks that share a place
on all other axes, each once.
-/

namespace HyperParallel.DTensor

open Foundation List
open Foundation.MixedRadix

def SamePlace (dims axes : List Nat) (rank other : Nat) : Prop :=
  ∀ axis < dims.length, axis ∉ axes → (digits dims other)[axis]? = (digits dims rank)[axis]?

instance (dims axes : List Nat) (rank other : Nat) : Decidable (SamePlace dims axes rank other) :=
  inferInstanceAs (Decidable (∀ axis < dims.length, _))

def alongAxes (dims axes : List Nat) (rank : Nat) : List Nat :=
  (List.range dims.prod).filter (SamePlace dims axes rank ·)

variable {axes ranks : List Nat}

@[simp] theorem mem_alongAxes_iff {dims : List Nat} {rank other : Nat} :
    other ∈ alongAxes dims axes rank ↔ other < dims.prod ∧ SamePlace dims axes rank other := by
  simp [alongAxes]

theorem alongAxes_nodup (dims axes : List Nat) (rank : Nat) : (alongAxes dims axes rank).Nodup :=
  List.nodup_range.filter _

theorem alongAxes_sorted (dims axes : List Nat) (rank : Nat) :
    (alongAxes dims axes rank).Pairwise (· ≤ ·) :=
  (List.pairwise_lt_range.imp Nat.le_of_lt).filter _

theorem SamePlace.refl (dims axes : List Nat) (rank : Nat) : SamePlace dims axes rank rank :=
  fun _ _ _ => rfl

theorem dims_pos {dims : List Nat} {rank : Nat} (hrank : rank < dims.prod) :
    ∀ size ∈ dims, 0 < size := by
  intro size hsize
  refine Nat.pos_of_ne_zero fun hzero => ?_
  rw [prod_eq_zero (hzero ▸ hsize)] at hrank
  exact Nat.not_lt_zero _ hrank

/-! ## Moving along one axis -/

def moveTo (dims : List Nat) (axis rank place : Nat) : Nat :=
  value dims ((digits dims rank).set axis place)

variable {dims : List Nat} {axis rank : Nat}
theorem forall₂_set_digits (hpos : ∀ size ∈ dims, 0 < size) (haxis : axis < dims.length)
    {place : Nat} (hplace : place < dims[axis]) (rank : Nat) :
    List.Forall₂ (· < ·) ((digits dims rank).set axis place) dims := by
  have hdigits := forall₂_digits_lt hpos rank
  rw [forall₂_iff_get] at hdigits ⊢
  refine ⟨by simp, fun i hi hi' => ?_⟩
  simp only [get_eq_getElem, getElem_set]
  split
  · rename_i heq
    subst heq
    exact hplace
  · exact hdigits.2 i (by simpa using hi) hi'

theorem digits_moveTo (hpos : ∀ size ∈ dims, 0 < size) (haxis : axis < dims.length)
    {place : Nat} (hplace : place < dims[axis]) (rank : Nat) :
    digits dims (moveTo dims axis rank place) = (digits dims rank).set axis place :=
  digits_value (forall₂_set_digits hpos haxis hplace rank)

theorem moveTo_lt (hpos : ∀ size ∈ dims, 0 < size) (haxis : axis < dims.length)
    {place : Nat} (hplace : place < dims[axis]) (rank : Nat) :
    moveTo dims axis rank place < dims.prod :=
  value_lt (forall₂_set_digits hpos haxis hplace rank)

theorem moveTo_add (hrank : rank < dims.prod) (haxis : axis < dims.length) (place : Nat) :
    moveTo dims axis rank place +
        rank / (dims.drop (axis + 1)).prod % dims[axis] * (dims.drop (axis + 1)).prod =
      rank + place * (dims.drop (axis + 1)).prod := by
  have hlen : axis < (digits dims rank).length := by simpa using haxis
  have hset := value_set (length_digits dims rank) hlen place
  have hdigit : getElem (digits dims rank) axis hlen =
      rank / (dims.drop (axis + 1)).prod % dims[axis] := by
    have hget := getElem?_digits rank haxis
    rw [getElem?_eq_getElem hlen] at hget
    exact Option.some.inj hget
  rw [hdigit, value_digits hrank] at hset
  exact hset

theorem samePlace_moveTo (hpos : ∀ size ∈ dims, 0 < size) (haxis : axis < dims.length)
    {place : Nat} (hplace : place < dims[axis]) (rank : Nat) :
    SamePlace dims [axis] rank (moveTo dims axis rank place) := by
  intro axis' _ hnot
  rw [digits_moveTo hpos haxis hplace, getElem?_set_ne]
  rintro rfl
  exact hnot (mem_singleton_self _)

def onAxis (dims : List Nat) (axis rank : Nat) : List Nat :=
  (List.range (dims.getD axis 0)).map (moveTo dims axis rank)

theorem mem_onAxis_iff (hrank : rank < dims.prod) (haxis : axis < dims.length) {other : Nat} :
    other ∈ onAxis dims axis rank ↔ other < dims.prod ∧ SamePlace dims [axis] rank other := by
  have hpos := dims_pos hrank
  simp only [onAxis, mem_map, mem_range, getD_eq_getElem dims 0 haxis]
  constructor
  · rintro ⟨place, hplace, rfl⟩
    exact ⟨moveTo_lt hpos haxis hplace rank, samePlace_moveTo hpos haxis hplace rank⟩
  · rintro ⟨hother, hsame⟩
    have hplace := digits_lt hpos other axis haxis
    refine ⟨_, hplace, digits_injOn (moveTo_lt hpos haxis hplace rank) hother ?_⟩
    rw [digits_moveTo hpos haxis hplace]
    refine ext_getElem? fun i => ?_
    by_cases hi : i < dims.length
    · by_cases heq : axis = i
      · subst heq
        rw [getElem?_set_self (by simpa using haxis), getElem?_eq_getElem]
      · rw [getElem?_set_ne heq]
        exact (hsame i hi (by simpa using Ne.symm heq)).symm
    · rw [getElem?_eq_none (by simpa using hi), getElem?_eq_none (by simpa using hi)]

theorem onAxis_nodup (hrank : rank < dims.prod) (haxis : axis < dims.length) :
    (onAxis dims axis rank).Nodup := by
  have hpos := dims_pos hrank
  refine List.Nodup.map_on (fun a ha b hb heq => ?_) nodup_range
  have ha : a < dims[axis] := by simpa [haxis] using ha
  have hb : b < dims[axis] := by simpa [haxis] using hb
  have hdigits := congrArg (digits dims) heq
  rw [digits_moveTo hpos haxis ha, digits_moveTo hpos haxis hb] at hdigits
  have hget := congrArg (·[axis]?) hdigits
  simpa [haxis] using hget

theorem getD_idxOf {rankList : List Nat} (hrank : rank ∈ rankList) :
    rankList.getD (rankList.idxOf rank) 0 = rank := by
  have hidx := idxOf_lt_length_iff.mpr hrank
  rw [getD_eq_getElem _ _ hidx, getElem_idxOf hidx]

theorem onAxis_one (hrank : rank < dims.prod) (haxis : axis < dims.length) (hone : dims[axis] = 1) :
    onAxis dims axis rank = [rank] := by
  have hmove := moveTo_add hrank haxis 0
  simp only [hone, Nat.mod_one, Nat.zero_mul, Nat.add_zero] at hmove
  rw [onAxis, getD_eq_getElem dims 0 haxis, hone]
  simp [hmove]

theorem getDevicesAlongOneDim_ranks {rankList : List Nat} (hlen : rankList.length = dims.prod)
    (hrank : rank ∈ rankList) (haxis : axis < dims.length) :
    (DevMat.mk dims).getDevicesAlongOneDim rank rankList axis =
      .ok ((onAxis dims axis (rankList.idxOf rank)).map (rankList.getD · 0)) := by
  have hidx : rankList.idxOf rank < dims.prod := hlen ▸ idxOf_lt_length_iff.mpr hrank
  have hpos := dims_pos hidx
  have hguard : ¬((axis : Int) < 0 ∨ (dims.length : Int) ≤ axis) := by omega
  simp only [DevMat.getDevicesAlongOneDim, if_neg hguard, Int.toNat_natCast,
    getD_eq_getElem dims 0 haxis]
  split
  · rename_i hone
    rw [onAxis_one hidx haxis hone, map_singleton, getD_idxOf hrank]
  · rw [if_neg (not_not.mpr hlen)]
    rw [onAxis, getD_eq_getElem dims 0 haxis, map_map]
    refine mapM_eq_ok fun place hplace => ?_
    have hplace : place < dims[axis] := mem_range.mp hplace
    have hmove := moveTo_add hidx haxis place
    have hlt := moveTo_lt hpos haxis hplace (rankList.idxOf rank)
    have hle : rankList.idxOf rank / (dims.drop (axis + 1)).prod % dims[axis] *
        (dims.drop (axis + 1)).prod ≤ rankList.idxOf rank :=
      (Nat.mul_le_mul_right _ (Nat.mod_le _ _)).trans (Nat.div_mul_le_self _ _)
    have hindex : rankList.idxOf rank - rankList.idxOf rank / (dims.drop (axis + 1)).prod %
        dims[axis] * (dims.drop (axis + 1)).prod + place * (dims.drop (axis + 1)).prod =
          moveTo dims axis (rankList.idxOf rank) place := by omega
    have hget : rankList[moveTo dims axis (rankList.idxOf rank) place]? =
        some (rankList.getD (moveTo dims axis (rankList.idxOf rank) place) 0) := by
      rw [getElem?_eq_getElem (by omega), getD_eq_getElem _ _ (by omega)]
    rw [hindex, hget]
    rfl

theorem getDevicesAlongOneDim_eq (hrank : rank < dims.prod) (haxis : axis < dims.length) :
    (DevMat.mk dims).getDevicesAlongOneDim rank (range dims.prod) axis =
      .ok (onAxis dims axis rank) := by
  have hidx : (range dims.prod).idxOf rank = rank := by
    have hget := (@nodup_range dims.prod).idxOf_getElem rank (by simpa using hrank)
    simpa using hget
  rw [getDevicesAlongOneDim_ranks length_range (mem_range.mpr hrank) haxis, hidx]
  refine congrArg _ ((map_congr_left fun other hother => ?_).trans (map_id _))
  have hlt := ((mem_onAxis_iff hrank haxis).mp hother).1
  rw [getD_eq_getElem _ _ (by simpa using hlt), getElem_range, id]

/-! ## Along several axes -/

theorem expandLayer_eq {devices : Nat → Except GroupError (List Nat)} {along : Nat → List Nat}
    {layer : List Nat} (h : ∀ rank ∈ layer, devices rank = .ok (along rank)) (back : List Nat) :
    DevMat.expandLayer devices layer.length (layer ++ back) =
      .ok (back ++ layer.flatMap along) := by
  induction layer generalizing back with
  | nil => simp [DevMat.expandLayer]
  | cons rank layer ih =>
    rw [length_cons, cons_append, DevMat.expandLayer, h rank (by simp),
      flatMap_cons, ← append_assoc, ← ih fun sub hsub => h sub (by simp [hsub])]
    simp [Bind.bind, Except.bind]

def Covers (dims axes : List Nat) (rank : Nat) (ranks : List Nat) : Prop :=
  ranks.Nodup ∧ ∀ other, other ∈ ranks ↔ other < dims.prod ∧ SamePlace dims axes rank other

theorem SamePlace.moveBack {dims : List Nat} {axis rank other : Nat}
    (h : SamePlace dims (axes ++ [axis]) rank other) (hrank : rank < dims.prod)
    (haxis : axis < dims.length) :
    ∃ sub < dims.prod, SamePlace dims axes rank sub ∧ SamePlace dims [axis] sub other := by
  have hpos := dims_pos hrank
  have hplace := digits_lt hpos rank axis haxis
  refine ⟨_, moveTo_lt hpos haxis hplace other, fun axis' haxis' hnot => ?_,
    fun axis' haxis' hnot => (samePlace_moveTo hpos haxis hplace other axis' haxis' hnot).symm⟩
  rw [digits_moveTo hpos haxis hplace]
  by_cases heq : axis = axis'
  · subst heq
    rw [getElem?_set_self (by simpa using haxis), getElem?_eq_getElem]
  · rw [getElem?_set_ne heq]
    exact h axis' haxis' (by simp [hnot, Ne.symm heq])

theorem Covers.flatMap {dims : List Nat} {axis rank : Nat} (h : Covers dims axes rank ranks)
    (hrank : rank < dims.prod) (haxis : axis < dims.length) (hnot : axis ∉ axes) :
    Covers dims (axes ++ [axis]) rank (ranks.flatMap (onAxis dims axis)) := by
  have hlt : ∀ sub ∈ ranks, sub < dims.prod := fun sub hsub => ((h.2 sub).mp hsub).1
  constructor
  · refine nodup_flatMap.mpr ⟨fun sub hsub => onAxis_nodup (hlt sub hsub) haxis, ?_⟩
    refine h.1.imp_of_mem fun {a b} ha hb hne other hother hother' => hne ?_
    have hsame := ((mem_onAxis_iff (hlt a ha) haxis).mp hother).2
    have hsame' := ((mem_onAxis_iff (hlt b hb) haxis).mp hother').2
    -- off the axis both are where `other` is, on the axis where `rank` is
    refine digits_injOn (hlt a ha) (hlt b hb) (ext_getElem? fun i => ?_)
    by_cases hi : i < dims.length
    · by_cases heq : i = axis
      · subst heq
        rw [((h.2 a).mp ha).2 i hi hnot, ((h.2 b).mp hb).2 i hi hnot]
      · rw [← hsame i hi (by simpa using heq), ← hsame' i hi (by simpa using heq)]
    · rw [getElem?_eq_none (by simpa using hi), getElem?_eq_none (by simpa using hi)]
  · intro other
    rw [mem_flatMap]
    constructor
    · rintro ⟨sub, hsub, hother⟩
      obtain ⟨hbelow, hsame⟩ := (mem_onAxis_iff (hlt sub hsub) haxis).mp hother
      refine ⟨hbelow, fun axis' haxis' hnot' => ?_⟩
      have hnot' : axis' ∉ axes ∧ axis' ≠ axis := by simpa using hnot'
      rw [hsame axis' haxis' (by simpa using hnot'.2), ((h.2 sub).mp hsub).2 axis' haxis' hnot'.1]
    · rintro ⟨hbelow, hsame⟩
      obtain ⟨sub, hsub, hleft, hright⟩ := hsame.moveBack hrank haxis
      exact ⟨sub, (h.2 sub).mpr ⟨hsub, hleft⟩, (mem_onAxis_iff hsub haxis).mpr ⟨hbelow, hright⟩⟩

theorem Covers.ne_nil {dims : List Nat} {rank : Nat} (h : Covers dims axes rank ranks)
    (hrank : rank < dims.prod) : ranks ≠ [] := by
  rintro rfl
  exact not_mem_nil ((h.2 rank).mpr ⟨hrank, .refl dims axes rank⟩)

theorem expandDims_covers {dims : List Nat} {rank : Nat} (hrank : rank < dims.prod)
    (rest : List Nat) (h : Covers dims axes rank ranks) (hlt : ∀ axis ∈ rest, axis < dims.length)
    (hnodup : (axes ++ rest).Nodup) :
    ∃ ranks', (DevMat.mk dims).expandDims (range dims.prod) (rest.map Nat.cast) ranks =
      .ok ranks' ∧ Covers dims (axes ++ rest) rank ranks' := by
  induction rest generalizing axes ranks with
  | nil => exact ⟨ranks, rfl, by simpa using h⟩
  | cons axis rest ih =>
    have haxis := hlt axis (by simp)
    have hnot : axis ∉ axes := fun hmem => by
      have hdisjoint := (nodup_append.mp hnodup).2.2
      exact hdisjoint axis hmem axis (by simp) rfl
    have hlayer := @expandLayer_eq
      (fun sub => (DevMat.mk dims).getDevicesAlongOneDim sub (range dims.prod) axis)
      (onAxis dims axis) ranks
      (fun sub hsub => getDevicesAlongOneDim_eq ((h.2 sub).mp hsub).1 haxis) []
    obtain ⟨ranks', hranks', hcovers⟩ := ih (h.flatMap hrank haxis hnot)
      (fun axis' hmem => hlt axis' (by simp [hmem])) (by simpa using hnodup)
    refine ⟨ranks', ?_, by simpa using hcovers⟩
    cases ranks with
    | nil => exact absurd rfl (h.ne_nil hrank)
    | cons first ranks =>
      rw [map_cons, DevMat.expandDims]
      simp only [append_nil, nil_append, length_cons] at hlayer
      rw [hlayer]
      exact hranks'

theorem getDevicesAlongDim_covers {dims : List Nat} {rank : Nat} (hrank : rank < dims.prod)
    (hne : axes ≠ []) (hlt : ∀ axis ∈ axes, axis < dims.length) (hnodup : axes.Nodup) :
    ∃ ranks, (DevMat.mk dims).getDevicesAlongDim rank (range dims.prod)
      (.dims (axes.map Nat.cast)) = .ok ranks ∧ Covers dims axes rank ranks := by
  cases axes with
  | nil => exact absurd rfl hne
  | cons axis axes =>
    have haxis := hlt axis (by simp)
    have hone : Covers dims [axis] rank (onAxis dims axis rank) :=
      ⟨onAxis_nodup hrank haxis, fun _ => mem_onAxis_iff hrank haxis⟩
    obtain ⟨ranks, hranks, hcovers⟩ := expandDims_covers hrank axes hone
      (fun axis' hmem => hlt axis' (by simp [hmem])) hnodup
    refine ⟨ranks, ?_, hcovers⟩
    rw [map_cons, DevMat.getDevicesAlongDim, getDevicesAlongOneDim_eq hrank haxis]
    exact hranks

theorem mergeSort_covers {dims : List Nat} {rank : Nat} (h : Covers dims axes rank ranks) :
    ranks.mergeSort = alongAxes dims axes rank := by
  have hperm : ranks.mergeSort.Perm (alongAxes dims axes rank) :=
    (mergeSort_perm _ _).trans
      ((perm_ext_iff_of_nodup h.1 (alongAxes_nodup dims axes rank)).mpr fun other => by
        rw [h.2 other, mem_alongAxes_iff])
  exact ListOrder.eq_of_perm_of_sorted hperm (ListOrder.mergeSort_sorted ranks)
    (alongAxes_sorted dims axes rank)

end HyperParallel.DTensor
