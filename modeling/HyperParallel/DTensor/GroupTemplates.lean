import HyperParallel.DTensor.AlongAxes
import Mathlib.Data.Nat.ModEq

/-!
# Groups from templates

A template is accepted exactly when it is a progression, and the ranks along some
axes are one exactly when no other axis lies between them.  Axes of one rank do
not count.
-/

namespace HyperParallel.DTensor

open Foundation List
open Foundation.MixedRadix
open Foundation.StridedBlocks

/-! ## Accepted templates -/

theorem zip_tail_progression (start stride count : Nat) :
    (progression start stride (count + 1)).zip (progression start stride (count + 1)).tail =
      (range count).map fun k => (start + k * stride, start + (k + 1) * stride) := by
  refine ext_getElem (by simp) fun k hk hk' => ?_
  simp [progression]

theorem validateIntraStep_eq_ok_iff {normalizedTemplate : List Nat} {stride : Nat} :
    validateIntraStep normalizedTemplate = .ok stride ↔
      normalizedTemplate.zip normalizedTemplate.tail ≠ [] ∧
        ∀ pair ∈ normalizedTemplate.zip normalizedTemplate.tail, pair.2 - pair.1 = stride := by
  rw [validateIntraStep]
  cases normalizedTemplate.zip normalizedTemplate.tail with
  | nil => simp
  | cons head pairs =>
    obtain ⟨first, second⟩ := head
    simp only [ne_eq, reduceCtorEq, not_false_eq_true, true_and, forall_mem_cons]
    constructor
    · intro h
      obtain ⟨_, hpairs, hstride⟩ := bind_eq_ok h
      have hstride : second - first = stride := Except.ok.inj hstride
      refine ⟨hstride, fun pair hpair => ?_⟩
      have hok := forM_eq_ok_iff.mp hpairs pair hpair
      by_contra hne
      rw [if_neg (hstride ▸ hne)] at hok
      cases hok
    · rintro ⟨rfl, hpairs⟩
      have hok : pairs.forM (fun pair : Nat × Nat =>
          if pair.2 - pair.1 = second - first then .ok ⟨⟩
          else .error (.inconsistentStep (pair.2 - pair.1) (second - first))) =
            (.ok ⟨⟩ : Except GroupError PUnit) :=
        forM_eq_ok fun pair hpair => if_pos (hpairs pair hpair)
      rw [hok]
      rfl

theorem validateIntraStep_progression (stride count : Nat) :
    validateIntraStep (progression 0 stride (count + 2)) = .ok stride := by
  rw [validateIntraStep_eq_ok_iff, zip_tail_progression]
  refine ⟨by simp, fun pair hpair => ?_⟩
  obtain ⟨k, -, rfl⟩ := mem_map.mp hpair
  rw [Nat.add_mul]
  omega

theorem progression_of_steps {first : Nat} {members : List Nat} {stride : Nat}
    (hsorted : (first :: members).Pairwise (· ≤ ·))
    (h : ∀ pair ∈ (first :: members).zip members, pair.2 - pair.1 = stride) :
    first :: members = progression first stride (members.length + 1) := by
  induction members generalizing first with
  | nil => simp [progression]
  | cons second members ih =>
    have hle : first ≤ second := (pairwise_cons.mp hsorted).1 second (by simp)
    have hstep : second - first = stride := h (first, second) (by simp)
    obtain rfl : second = first + stride := by omega
    rw [ih (pairwise_cons.mp hsorted).2 fun pair hpair => h pair (by
      rw [zip_cons_cons]
      exact mem_cons_of_mem _ hpair)]
    rw [length_progression, progression, progression,
      range_succ_eq_map (n := members.length + 1), map_cons, map_map]
    refine congrArg₂ List.cons (by simp) (map_congr_left fun k _ => ?_)
    simp only [Function.comp_apply, Nat.succ_eq_add_one]
    ring

theorem rangeFromZero_mul {step : Nat} (hstep : 0 < step) (number : Nat) :
    rangeFromZero (number * step) step = (range number).map (· * step) := by
  have hcount : (number * step + step - 1) / step = number := by
    have hsum : number * step + step - 1 = step - 1 + step * number := by
      rw [Nat.mul_comm step]
      omega
    rw [hsum, Nat.add_mul_div_left _ _ hstep, Nat.div_eq_of_lt (by omega), Nat.zero_add]
  rw [rangeFromZero, hcount]

theorem mul_add_le {a b c : Nat} (h : a < b) : a * c + c ≤ b * c := by
  have hmul : (a + 1) * c ≤ b * c := Nat.mul_le_mul_right _ h
  rwa [Nat.add_mul, Nat.one_mul] at hmul

theorem buildGroupsForBlocks_progression {number stride count : Nat} (hstride : 0 < stride)
    (hcount : 0 < count) :
    buildGroupsForBlocks
        (computeGroupStarts (number * (count * stride)) (count * stride) (count * stride))
        (count * stride) ((count - 1) * stride) (progression 0 stride count)
        (number * (count * stride)) = blocks number stride count := by
  have hblock : 0 < count * stride := Nat.mul_pos hcount hstride
  have hslide : count * stride - (count - 1) * stride = stride := by
    rw [Nat.sub_mul]
    have := Nat.mul_le_mul_right stride hcount
    omega
  have hstarts : computeGroupStarts (number * (count * stride)) (count * stride)
      (count * stride) = (range number).map (· * (count * stride)) := by
    rw [computeGroupStarts, rangeFromZero_mul hblock, filter_eq_self]
    intro start hstart
    obtain ⟨block, hblock, rfl⟩ := mem_map.mp hstart
    simpa using mul_add_le (mem_range.mp hblock)
  rw [buildGroupsForBlocks, hstarts, hslide, blocks, flatMap_map]
  refine flatMap_congr fun block hblock => ?_
  have hblock := mem_range.mp hblock
  have hmap : ∀ place, (progression 0 stride count).map
      (block * (count * stride) + place + ·) =
        progression (block * (count * stride) + place) stride count := by
    intro place
    simp [progression]
  simp only [hmap]
  rw [filter_eq_self]
  intro group hgroup
  obtain ⟨place, hplace, rfl⟩ := mem_map.mp hgroup
  rw [all_eq_true]
  intro rank hrank
  obtain ⟨hdiv, -⟩ := (mem_progression_iff (mem_range.mp hplace) hcount block rank).mp hrank
  have hlt := (Nat.div_lt_iff_lt_mul (Nat.mul_pos hcount hstride)).mp (hdiv ▸ hblock)
  simpa using hlt

theorem groupOrder_of_lt {a b : List Nat} (h : a.headD 0 < b.headD 0) : groupOrder a b = true := by
  rw [groupOrder, decide_eq_true h, Bool.true_or]

theorem generateGroupsFromTemplate_progression {template : List Nat}
    {start number stride count : Nat} (hstride : 0 < stride) (hcount : 2 ≤ count)
    (h : template.mergeSort = progression start stride count) :
    generateGroupsFromTemplate template (number * (count * stride)) =
      .ok (blocks number stride count) := by
  have hpos : 0 < count := by omega
  obtain ⟨n, rfl⟩ := Nat.exists_eq_add_of_le' hcount
  have hhead : ∀ first, (progression first stride (n + 2)).headD 0 = first := fun first => by
    rw [progression, range_succ_eq_map]
    simp
  have hnormal : (progression start stride (n + 2)).map (· - start) =
      progression 0 stride (n + 2) := by
    simp [progression]
  have hspan : (progression 0 stride (n + 2)).getLastD 0 = (n + 2 - 1) * stride := by
    rw [progression, range_succ]
    simp
  have hblock : (n + 2) * stride ≠ 0 := (Nat.mul_pos hpos hstride).ne'
  simp only [generateGroupsFromTemplate, h, length_progression, hhead, hnormal, hspan]
  rw [if_neg (by omega), if_neg (by omega), validateIntraStep_progression]
  simp only [Bind.bind, Except.bind, Nat.mul_comm stride, Nat.sub_zero]
  rw [if_neg hblock, buildGroupsForBlocks_progression hstride hpos,
    if_pos (flatten_blocks_nodup hpos hstride)]
  refine congrArg Except.ok (mergeSort_of_pairwise ?_)
  exact (blocks_pairwise hpos).imp fun h => groupOrder_of_lt h.1

theorem progression_of_generateGroups {template : List Nat} {worldSize : Nat}
    {groups : List (List Nat)} (h : generateGroupsFromTemplate template worldSize = .ok groups) :
    template.length = 1 ∨ ∃ start stride count, 0 < stride ∧
      template.mergeSort = progression start stride count := by
  have hsorted := ListOrder.mergeSort_sorted template
  simp only [generateGroupsFromTemplate] at h
  split at h
  · rename_i hone
    exact .inl (by simpa using hone)
  split at h
  · cases h
  obtain ⟨stride, hstride, h⟩ := bind_eq_ok h
  split at h
  · cases h
  rename_i hblock
  refine .inr ?_
  obtain ⟨-, hsteps⟩ := validateIntraStep_eq_ok_iff.mp hstride
  cases hcase : template.mergeSort with
  | nil => exact ⟨0, 1, 0, by omega, rfl⟩
  | cons first members =>
    rw [hcase] at hsorted hsteps hblock
    refine ⟨first, stride, _, Nat.pos_of_ne_zero fun hzero => hblock (by simp [hzero]),
      progression_of_steps hsorted fun pair hpair => ?_⟩
    have hmin := pairwise_cons.mp hsorted
    have hmem := of_mem_zip hpair
    have hfirst : first ≤ pair.1 := by
      rcases mem_cons.mp hmem.1 with heq | hmem
      · exact heq.ge
      · exact hmin.1 _ hmem
    have hnormal : pair.2 - first - (pair.1 - first) = stride := hsteps (pair.1 - first, pair.2 - first) (by
      rw [← map_tail, tail_cons, headD_cons, zip_map]
      exact mem_map.mpr ⟨pair, hpair, rfl⟩)
    omega

/-! ## Axes with no other between them -/

def Adjacent (dims axes : List Nat) : Prop :=
  ∀ i j k, i < j → j < k → i ∈ axes → k ∈ axes → 1 < dims.getD i 0 → 1 < dims.getD j 0 →
    1 < dims.getD k 0 → j ∈ axes

structure Window (dims axes front middle back : List Nat) : Prop where
  eq : dims = front ++ (middle ++ back)
  mem_iff : ∀ axis < dims.length, 1 < dims.getD axis 0 →
    (axis ∈ axes ↔ front.length ≤ axis ∧ axis < front.length + middle.length)

theorem exists_window {dims axes : List Nat} (h : Adjacent dims axes) :
    ∃ front middle back, Window dims axes front middle back := by
  classical
  by_cases hnone : ∃ axis, axis < dims.length ∧ axis ∈ axes ∧ 1 < dims.getD axis 0
  · obtain ⟨first, ⟨hfirst, hmem, hsize⟩, hmin⟩ :
        ∃ first, (first < dims.length ∧ first ∈ axes ∧ 1 < dims.getD first 0) ∧
          ∀ axis, axis < dims.length ∧ axis ∈ axes ∧ 1 < dims.getD axis 0 → first ≤ axis :=
      ⟨Nat.find hnone, Nat.find_spec hnone, fun _ h => Nat.find_min' hnone h⟩
    let big := fun axis => axis < dims.length ∧ axis ∈ axes ∧ 1 < dims.getD axis 0
    obtain ⟨last, ⟨hlast, hmem', hsize'⟩, hmax⟩ :
        ∃ last, big last ∧ ∀ axis, big axis → axis ≤ last :=
      ⟨Nat.findGreatest big dims.length, Nat.findGreatest_spec hfirst.le ⟨hfirst, hmem, hsize⟩,
        fun axis haxis => Nat.le_findGreatest haxis.1.le haxis⟩
    have hle := hmin last ⟨hlast, hmem', hsize'⟩
    refine ⟨dims.take first, (dims.drop first).take (last + 1 - first), dims.drop (last + 1), ?_, ?_⟩
    · have hdrop : dims.drop (last + 1) = (dims.drop first).drop (last + 1 - first) := by
        rw [drop_drop]
        congr 1
        omega
      rw [hdrop, take_append_drop, take_append_drop]
    · intro axis haxis hbig
      have hlen : first + min (last + 1 - first) (dims.length - first) = last + 1 := by omega
      simp only [length_take, length_drop, Nat.min_eq_left hfirst.le, hlen]
      constructor
      · intro hin
        exact ⟨hmin axis ⟨haxis, hin, hbig⟩, Nat.lt_succ_of_le (hmax axis ⟨haxis, hin, hbig⟩)⟩
      · rintro ⟨hlo, hhi⟩
        rcases Nat.eq_or_lt_of_le hlo with rfl | hlo
        · exact hmem
        rcases Nat.eq_or_lt_of_le (Nat.le_of_lt_succ hhi) with rfl | hhi
        · exact hmem'
        exact h first axis last hlo hhi hmem hmem' hsize hbig hsize'
  · refine ⟨[], [], dims, rfl, fun axis haxis hbig => ?_⟩
    have hout : axis ∉ axes := fun hin => hnone ⟨axis, haxis, hin, hbig⟩
    simpa using hout

variable {dims axes front middle back : List Nat}

theorem digit_of_size_one {axis : Nat} (haxis : axis < dims.length)
    (hsize : ¬1 < dims.getD axis 0) {rank other : Nat} (hrank : rank < dims.prod) :
    (digits dims other)[axis]? = (digits dims rank)[axis]? := by
  have hone : dims[axis] = 1 := by
    have hpos := dims_pos hrank _ (getElem_mem haxis)
    rw [getD_eq_getElem dims 0 haxis] at hsize
    omega
  rw [getElem?_digits other haxis, getElem?_digits rank haxis, hone, Nat.mod_one, Nat.mod_one]

namespace Window

section

variable (h : Window dims axes front middle back)

include h

theorem length_eq : dims.length = front.length + (middle.length + back.length) := by
  rw [h.eq]
  simp

theorem prod_eq : dims.prod = front.prod * (middle.prod * back.prod) := by
  rw [h.eq, prod_append, prod_append]

theorem prod_pos {rank : Nat} (hrank : rank < dims.prod) : 0 < middle.prod ∧ 0 < back.prod := by
  constructor <;>
    refine Nat.pos_of_ne_zero fun hzero => ?_ <;>
    simp [h.prod_eq, hzero] at hrank

theorem digits_eq (rank : Nat) :
    digits dims rank = digits front (rank / (middle.prod * back.prod)) ++
      (digits middle (rank / back.prod) ++ digits back rank) := by
  rw [h.eq, digits_append, digits_append, prod_append]

theorem samePlace_iff_digits {rank other : Nat} (hrank : rank < dims.prod) :
    SamePlace dims axes rank other ↔
      digits front (other / (middle.prod * back.prod)) =
          digits front (rank / (middle.prod * back.prod)) ∧
        digits back other = digits back rank := by
  have hlen := h.length_eq
  constructor
  · intro hsame
    have hout : ∀ axis < dims.length,
        ¬(front.length ≤ axis ∧ axis < front.length + middle.length) →
          (digits dims other)[axis]? = (digits dims rank)[axis]? := fun axis haxis hout => by
      by_cases hbig : 1 < dims.getD axis 0
      · exact hsame axis haxis fun hin => hout ((h.mem_iff axis haxis hbig).mp hin)
      · exact digit_of_size_one haxis hbig hrank
    constructor
    · refine ext_getElem? fun axis => ?_
      by_cases haxis : axis < front.length
      · have hget := hout axis (by omega) (by omega)
        rwa [h.digits_eq, h.digits_eq, getElem?_append_left (by simpa using haxis),
          getElem?_append_left (by simpa using haxis)] at hget
      · rw [getElem?_eq_none (by simpa using haxis), getElem?_eq_none (by simpa using haxis)]
    · refine ext_getElem? fun place => ?_
      by_cases hplace : place < back.length
      · have hget := hout (front.length + (middle.length + place)) (by omega) (by omega)
        simpa [h.digits_eq, getElem?_append_right] using hget
      · rw [getElem?_eq_none (by simpa using hplace), getElem?_eq_none (by simpa using hplace)]
  · rintro ⟨hfront, hback⟩ axis haxis hnot
    by_cases hbig : 1 < dims.getD axis 0
    · have hcase := (h.mem_iff axis haxis hbig).not.mp hnot
      rw [h.digits_eq, h.digits_eq]
      by_cases hlt : axis < front.length
      · rw [getElem?_append_left (by simpa using hlt),
          getElem?_append_left (by simpa using hlt), hfront]
      · obtain ⟨place, rfl⟩ : ∃ place, axis = front.length + (middle.length + place) :=
          ⟨axis - front.length - middle.length, by omega⟩
        simp [getElem?_append_right, hback]
    · exact digit_of_size_one haxis hbig hrank

theorem samePlace_iff {rank other : Nat} (hrank : rank < dims.prod) (hother : other < dims.prod) :
    SamePlace dims axes rank other ↔
      other / (middle.prod * back.prod) = rank / (middle.prod * back.prod) ∧
        other % back.prod = rank % back.prod := by
  obtain ⟨hmiddle, hback⟩ := h.prod_pos hrank
  have hbelow : ∀ n < dims.prod, n / (middle.prod * back.prod) < front.prod := fun n hn =>
    (Nat.div_lt_iff_lt_mul (Nat.mul_pos hmiddle hback)).mpr (h.prod_eq ▸ hn)
  rw [h.samePlace_iff_digits hrank]
  refine and_congr ⟨digits_injOn (hbelow other hother) (hbelow rank hrank), fun heq => by rw [heq]⟩
    ⟨fun heq => ?_, fun heq => ?_⟩
  · rw [← digits_mod back other, ← digits_mod back rank] at heq
    exact digits_injOn (Nat.mod_lt _ hback) (Nat.mod_lt _ hback) heq
  · rw [← digits_mod back other, heq, digits_mod]

theorem alongAxes_eq {rank : Nat} (hrank : rank < dims.prod) :
    alongAxes dims axes rank =
      progression (rank / (middle.prod * back.prod) * (middle.prod * back.prod) +
        rank % back.prod) back.prod middle.prod := by
  obtain ⟨hmiddle, hback⟩ := h.prod_pos hrank
  have hplace : rank % back.prod < back.prod := Nat.mod_lt _ hback
  refine ListOrder.eq_of_perm_of_sorted
    ((perm_ext_iff_of_nodup (alongAxes_nodup dims axes rank)
      (progression_nodup _ hback _)).mpr fun other => ?_)
    (alongAxes_sorted dims axes rank) (progression_sorted _ _ _)
  rw [mem_alongAxes_iff, mem_progression_iff hplace hmiddle]
  constructor
  · rintro ⟨hother, hsame⟩
    exact (h.samePlace_iff hrank hother).mp hsame
  · intro hsame
    have hother : other < dims.prod := by
      rw [h.prod_eq, ← Nat.div_lt_iff_lt_mul (Nat.mul_pos hmiddle hback), hsame.1,
        Nat.div_lt_iff_lt_mul (Nat.mul_pos hmiddle hback), ← h.prod_eq]
      exact hrank
    exact ⟨hother, (h.samePlace_iff hrank hother).mpr hsame⟩

end

end Window

/-! ## Creating the groups of some axes -/

def AreGroupsAlong (dims axes : List Nat) (groups : List (List Nat)) : Prop :=
  groups.flatten.Perm (List.range dims.prod) ∧
    ∀ rank < dims.prod, ∀ group ∈ groups, rank ∈ group → group = alongAxes dims axes rank

def GroupsCreated (dims axes : List Nat) (rank : Nat) : Prop :=
  ∃ template groups,
    (DevMat.mk dims).getDevicesAlongDim rank (List.range dims.prod) (.dims (axes.map Nat.cast)) =
        .ok template ∧
      generateGroupsFromTemplate template dims.prod = .ok groups ∧ AreGroupsAlong dims axes groups

variable {rank : Nat} {groups : List (List Nat)}

theorem Window.areGroupsAlong (h : Window dims axes front middle back) (hrank : rank < dims.prod) :
    AreGroupsAlong dims axes (blocks front.prod back.prod middle.prod) := by
  obtain ⟨hmiddle, hback⟩ := h.prod_pos hrank
  refine ⟨h.prod_eq ▸ flatten_blocks_perm hmiddle hback, fun other hother group hgroup hmem => ?_⟩
  rw [h.alongAxes_eq hother]
  exact group_eq_of_mem hmiddle hgroup hmem

theorem Window.generateGroups (h : Window dims axes front middle back) (hrank : rank < dims.prod)
    {template : List Nat} (hcovers : Covers dims axes rank template) :
    generateGroupsFromTemplate template dims.prod =
      .ok (if middle.prod = 1 then (range dims.prod).map fun rank => [rank]
        else blocks front.prod back.prod middle.prod) := by
  obtain ⟨hmiddle, hback⟩ := h.prod_pos hrank
  have hsort := (mergeSort_covers hcovers).trans (h.alongAxes_eq hrank)
  split
  · rename_i hone
    have hlen : template.mergeSort.length = 1 := by rw [hsort, length_progression, hone]
    simp only [generateGroupsFromTemplate, if_pos hlen]
  · rw [h.prod_eq]
    exact generateGroupsFromTemplate_progression hback (by omega) hsort

theorem Window.areGroupsAlong_singletons (h : Window dims axes front middle back)
    (hone : middle.prod = 1) :
    AreGroupsAlong dims axes ((range dims.prod).map fun rank => [rank]) := by
  constructor
  · rw [← flatMap_def, flatMap_singleton']
  · intro rank hrank group hgroup hmem
    obtain ⟨other, -, rfl⟩ := mem_map.mp hgroup
    obtain rfl : rank = other := mem_singleton.mp hmem
    have hsplit := Nat.mod_add_div rank back.prod
    rw [h.alongAxes_eq hrank, hone, Nat.one_mul, progression]
    simp only [range_one, map_cons, map_nil, Nat.zero_mul, Nat.add_zero]
    rw [Nat.mul_comm, Nat.add_comm, hsplit]

theorem groupsCreated_of_adjacent (hrank : rank < dims.prod) (hne : axes ≠ [])
    (hlt : ∀ axis ∈ axes, axis < dims.length) (hnodup : axes.Nodup) (h : Adjacent dims axes) :
    GroupsCreated dims axes rank := by
  obtain ⟨front, middle, back, hwindow⟩ := exists_window h
  obtain ⟨template, htemplate, hcovers⟩ := getDevicesAlongDim_covers hrank hne hlt hnodup
  refine ⟨template, _, htemplate, hwindow.generateGroups hrank hcovers, ?_⟩
  split
  · exact hwindow.areGroupsAlong_singletons ‹_›
  · exact hwindow.areGroupsAlong hrank

/-! ## Axes with another one between them -/

theorem weight_dvd {i j : Nat} (hij : i ≤ j) :
    (dims.drop (j + 1)).prod ∣ (dims.drop (i + 1)).prod := by
  have hdrop : dims.drop (j + 1) = (dims.drop (i + 1)).drop (j - i) := by
    rw [drop_drop]
    congr 1
    omega
  rw [hdrop, ← prod_take_mul_prod_drop (dims.drop (i + 1)) (j - i)]
  exact Nat.dvd_mul_left _ _

theorem size_mul_weight_dvd {i j : Nat} (hij : i < j) (hj : j < dims.length) :
    dims[j] * (dims.drop (j + 1)).prod ∣ (dims.drop (i + 1)).prod := by
  have hcons : dims[j] * (dims.drop (j + 1)).prod = (dims.drop (j - 1 + 1)).prod := by
    rw [Nat.sub_add_cancel (by omega), drop_eq_getElem_cons hj, prod_cons]
  rw [hcons]
  exact weight_dvd (by omega)

theorem digit_add_ne {j : Nat} (hj : j < dims.length) (hbig : 1 < dims[j])
    (hpos : 0 < (dims.drop (j + 1)).prod) :
    (digits dims (rank + (dims.drop (j + 1)).prod))[j]? ≠ (digits dims rank)[j]? := by
  intro hdigit
  rw [getElem?_digits _ hj, getElem?_digits _ hj, Nat.add_div_right _ hpos] at hdigit
  have hmod := Option.some.inj hdigit
  have hdvd : dims[j] ∣ 1 := by
    have hsub := (Nat.modEq_iff_dvd' (Nat.le_succ _)).mp hmod.symm
    simpa using hsub
  exact absurd (Nat.dvd_one.mp hdvd) hbig.ne'

theorem samePlace_moveTo_of_mem {axis other place : Nat} (hrank : rank < dims.prod)
    (haxis : axis < dims.length) (hmem : axis ∈ axes) (hplace : place < dims[axis])
    (h : SamePlace dims axes rank other) :
    SamePlace dims axes rank (moveTo dims axis other place) := by
  intro axis' haxis' hnot
  have hne : axis' ≠ axis := fun heq => hnot (heq ▸ hmem)
  rw [samePlace_moveTo (dims_pos hrank) haxis hplace other axis' haxis' (by simpa using hne)]
  exact h axis' haxis' hnot

theorem moveTo_one {axis other : Nat} (hother : other < dims.prod) (haxis : axis < dims.length)
    (hstart : (digits dims other)[axis]? = some 0) :
    moveTo dims axis other 1 = other + (dims.drop (axis + 1)).prod := by
  rw [getElem?_digits other haxis] at hstart
  have hmove := moveTo_add hother haxis 1
  rw [Option.some.inj hstart, Nat.zero_mul, Nat.one_mul] at hmove
  exact hmove

theorem exists_corner {i k : Nat} (hrank : rank < dims.prod) (hik : i < k) (hk : k < dims.length)
    (hi : i ∈ axes) (hk' : k ∈ axes) :
    ∃ corner < dims.prod, SamePlace dims axes rank corner ∧
      (digits dims corner)[i]? = some 0 ∧ (digits dims corner)[k]? = some 0 := by
  have hpos := dims_pos hrank
  have hil : i < dims.length := by omega
  have hik₀ : 0 < dims[k] := hpos _ (getElem_mem hk)
  have hi₀ : 0 < dims[i] := hpos _ (getElem_mem hil)
  refine ⟨moveTo dims i (moveTo dims k rank 0) 0, moveTo_lt hpos hil hi₀ _, ?_, ?_, ?_⟩
  · exact samePlace_moveTo_of_mem hrank hil hi hi₀
      (samePlace_moveTo_of_mem hrank hk hk' hik₀ (.refl dims axes rank))
  · rw [digits_moveTo hpos hil hi₀, getElem?_set_self (by simpa using hil)]
  · rw [digits_moveTo hpos hil hi₀, getElem?_set_ne hik.ne, digits_moveTo hpos hk hik₀,
      getElem?_set_self (by simpa using hk)]

/--
A step along the inner axis is a multiple of the template's step, so the ranks a
step of a middle axis away are members too, and they are at another place.
-/
theorem adjacent_of_progression {rank start stride count : Nat} (hrank : rank < dims.prod)
    (hlt : ∀ axis ∈ axes, axis < dims.length)
    (h : alongAxes dims axes rank = progression start stride count) : Adjacent dims axes := by
  intro i j k hij hjk hi hk hsi hsj hsk
  by_contra hnot
  have hkl := hlt k hk
  have hjl : j < dims.length := by omega
  have hil : i < dims.length := by omega
  rw [getD_eq_getElem dims 0 hil] at hsi
  rw [getD_eq_getElem dims 0 hjl] at hsj
  rw [getD_eq_getElem dims 0 hkl] at hsk
  have hmem : ∀ other, (∃ n < count, start + n * stride = other) ↔
      other < dims.prod ∧ SamePlace dims axes rank other := fun other => by
    rw [← mem_alongAxes_iff, h]
    simp [progression]
  have hpos := dims_pos hrank
  obtain ⟨corner, hcorner, hsame, hzero, hzero'⟩ := exists_corner hrank (hij.trans hjk) hkl hi hk
  have hstep : ∀ axis (haxis : axis < dims.length), axis ∈ axes → 1 < dims[axis] →
      (digits dims corner)[axis]? = some 0 →
        ∃ n < count, start + n * stride = corner + (dims.drop (axis + 1)).prod := by
    intro axis haxis hin hbig hstart
    rw [hmem, ← moveTo_one hcorner haxis hstart]
    exact ⟨moveTo_lt hpos haxis hbig corner, samePlace_moveTo_of_mem hrank haxis hin hbig hsame⟩
  obtain ⟨a, -, ha⟩ := (hmem corner).mpr ⟨hcorner, hsame⟩
  obtain ⟨b, -, hb⟩ := hstep k hkl hk hsk hzero'
  obtain ⟨c, hc, hc'⟩ := hstep i hil hi hsi hzero
  have hweight : ∀ axis, 0 < (dims.drop (axis + 1)).prod := fun axis =>
    Nat.pos_of_ne_zero fun hzero => by
      have hprod := prod_take_mul_prod_drop dims (axis + 1)
      rw [hzero, Nat.mul_zero] at hprod
      omega
  obtain ⟨m, hm⟩ := @weight_dvd dims _ _ hjk.le
  have hinner : (b - a) * stride = (dims.drop (k + 1)).prod := by
    rw [Nat.sub_mul]
    omega
  have houter : (dims.drop (j + 1)).prod < (dims.drop (i + 1)).prod := by
    have hle := Nat.le_of_dvd (hweight i) (size_mul_weight_dvd hij hjl)
    have htwo := Nat.mul_le_mul_right (dims.drop (j + 1)).prod hsj
    have := hweight j
    omega
  have hmiddle : start + (a + m * (b - a)) * stride = corner + (dims.drop (j + 1)).prod := by
    rw [hm, ← hinner, ← ha]
    ring
  have hbelow : a + m * (b - a) < c := Nat.lt_of_mul_lt_mul_right (a := stride) (by omega)
  have hmember := (hmem _).mp ⟨_, hbelow.trans hc, hmiddle⟩
  have hsame' := hmember.2 j hjl hnot
  rw [← hsame j hjl hnot] at hsame'
  exact digit_add_ne hjl hsj (hweight j) hsame'

theorem adjacent_of_groupsCreated (hrank : rank < dims.prod) (hne : axes ≠ [])
    (hlt : ∀ axis ∈ axes, axis < dims.length) (hnodup : axes.Nodup)
    (h : GroupsCreated dims axes rank) : Adjacent dims axes := by
  obtain ⟨template, groups, htemplate, hgroups, -⟩ := h
  obtain ⟨template', htemplate', hcovers⟩ := getDevicesAlongDim_covers hrank hne hlt hnodup
  obtain rfl : template = template' := Except.ok.inj (htemplate.symm.trans htemplate')
  have hsort := mergeSort_covers hcovers
  rcases progression_of_generateGroups hgroups with hone | ⟨start, stride, count, -, hprogression⟩
  · obtain ⟨only, rfl⟩ := length_eq_one_iff.mp hone
    rw [mergeSort_singleton] at hsort
    exact @adjacent_of_progression _ _ _ only 0 1 hrank hlt (by simp [← hsort, progression])
  · exact adjacent_of_progression hrank hlt (hsort.symm.trans hprogression)

/-- The groups of some axes are created, and are the right ones, exactly when no axis of
more than one rank lies between two of them. -/
theorem groupsCreated_iff_adjacent {rank : Nat} (hrank : rank < dims.prod) (hne : axes ≠ [])
    (hlt : ∀ axis ∈ axes, axis < dims.length) (hnodup : axes.Nodup) :
    GroupsCreated dims axes rank ↔ Adjacent dims axes :=
  ⟨adjacent_of_groupsCreated hrank hne hlt hnodup, groupsCreated_of_adjacent hrank hne hlt hnodup⟩

theorem groupsCreated_iff_adjacent_inner :
    GroupsCreated [2, 2, 2] [2, 1] 3 ↔ Adjacent [2, 2, 2] [2, 1] :=
  groupsCreated_iff_adjacent (by decide) (by decide) (by decide) (by decide)

/-- The outer and the inner axis of a cube: the template is `0, 1, 4, 5`. -/
theorem groupsCreated_fails_outer_inner :
    ¬∀ (dims axes : List Nat) (rank : Nat), rank < dims.prod → axes ≠ [] →
      (∀ axis ∈ axes, axis < dims.length) → axes.Nodup → GroupsCreated dims axes rank := by
  intro h
  obtain ⟨template, groups, htemplate, hgroups, -⟩ :=
    h [2, 2, 2] [0, 2] 0 (by decide) (by decide) (by decide) (by decide)
  obtain rfl : [0, 1, 4, 5] = template := by
    have heq : (DevMat.mk [2, 2, 2]).getDevicesAlongDim 0 (List.range 8) (.dims [0, 2]) =
        .ok [0, 1, 4, 5] := by decide +kernel
    exact Except.ok.inj (heq.symm.trans htemplate)
  have hsort : [0, 1, 4, 5].mergeSort = [0, 1, 4, 5] := mergeSort_of_pairwise (by decide)
  have hraises : generateGroupsFromTemplate [0, 1, 4, 5] 8 = .error (.inconsistentStep 3 1) := by
    rw [generateGroupsFromTemplate, hsort]
    rfl
  exact absurd (hgroups.symm.trans hraises) (by simp)

/-! ## The communicator of a rank -/

theorem validateGroups_ok (hne : ∀ group ∈ groups, group ≠ []) (hnodup : groups.flatten.Nodup) :
    validateGroups groups = .ok () := by
  refine forM_eq_ok fun group hgroup => ?_
  rw [if_neg (hne group hgroup), if_pos ((nodup_flatten.mp hnodup).1 group hgroup)]

def creationOrder (groups : List (List Nat)) : List (List Nat) :=
  (groups.mergeSort fun a b => a.headD 0 ≤ b.headD 0).map fun group => group.mergeSort

theorem creationOrder_perm (h : AreGroupsAlong dims axes groups)
    (hne : ∀ group ∈ groups, group ≠ []) : (creationOrder groups).Perm groups := by
  suffices hsorted : groups.map (fun group => group.mergeSort) = groups by
    conv_rhs => rw [← hsorted]
    exact (mergeSort_perm groups _).map _
  refine (map_congr_left fun group hgroup => ?_).trans (map_id groups)
  obtain ⟨rank, hrank⟩ := exists_mem_of_ne_nil group (hne group hgroup)
  have hlt : rank < dims.prod := by
    have hmem := h.1.mem_iff.mp (mem_flatten.mpr ⟨group, hgroup, hrank⟩)
    exact mem_range.mp hmem
  rw [h.2 rank hlt group hgroup hrank]
  exact mergeSort_of_pairwise ((alongAxes_sorted dims axes rank).imp fun h => by simpa using h)

theorem createSubGroups_eq {template : List Nat}
    (hgroups : generateGroupsFromTemplate template dims.prod = .ok groups)
    (h : AreGroupsAlong dims axes groups) (hne : ∀ group ∈ groups, group ≠ [])
    (hrank : rank < dims.prod) :
    createSubGroups template dims.prod rank =
      .ok (creationOrder groups, [alongAxes dims axes rank]) := by
  have hperm := creationOrder_perm h hne
  have hflat : groups.flatten.Nodup := h.1.nodup_iff.mpr nodup_range
  have hnodup : groups.Nodup := by
    refine (nodup_flatten.mp hflat).2.imp_of_mem fun {a b} ha _ hdisjoint heq => ?_
    obtain ⟨member, hmember⟩ := exists_mem_of_ne_nil a (hne a ha)
    exact hdisjoint hmember (heq ▸ hmember)
  have hown : (creationOrder groups).filter (rank ∈ ·) = [alongAxes dims axes rank] := by
    have hall : ∀ group ∈ creationOrder groups, rank ∈ group → group = alongAxes dims axes rank :=
      fun group hgroup => h.2 rank hrank group (hperm.mem_iff.mp hgroup)
    obtain ⟨group, hgroup, hmem⟩ := mem_flatten.mp (h.1.mem_iff.mpr (mem_range.mpr hrank))
    have hone := ListOrder.length_filter_eq_one (p := (rank ∈ ·)) (hperm.nodup_iff.mpr hnodup)
      ⟨group, hperm.mem_iff.mpr hgroup, by simpa using hmem⟩
      fun a ha b hb hpa hpb => by
        rw [hall a ha (by simpa using hpa), hall b hb (by simpa using hpb)]
    obtain ⟨own, hown⟩ := length_eq_one_iff.mp hone
    have hmem' := mem_filter.mp (hown ▸ mem_singleton_self own :
      own ∈ (creationOrder groups).filter (rank ∈ ·))
    rw [hown, hall own hmem'.1 (by simpa using hmem'.2)]
  simp only [createSubGroups, hgroups, Bind.bind, Except.bind, validateGroups_ok hne hflat]
  exact congrArg (fun own => Except.ok (creationOrder groups, own)) hown

/-- The communicator made from a rank's template has the ranks along the axes. -/
theorem createGroup_eq (hrank : rank < dims.prod) (hne : axes ≠ [])
    (hlt : ∀ axis ∈ axes, axis < dims.length) (hnodup : axes.Nodup) (h : Adjacent dims axes) :
    ∃ template, (DevMat.mk dims).getDevicesAlongDim rank (range dims.prod)
        (.dims (axes.map Nat.cast)) = .ok template ∧
      createGroup template dims.prod rank = .ok (alongAxes dims axes rank) := by
  obtain ⟨template, htemplate, hcovers⟩ := getDevicesAlongDim_covers hrank hne hlt hnodup
  refine ⟨template, htemplate, ?_⟩
  obtain ⟨front, middle, back, hwindow⟩ := exists_window h
  obtain ⟨hmiddle, hback⟩ := hwindow.prod_pos hrank
  have hgroups := hwindow.generateGroups hrank hcovers
  simp only [createGroup, mergeSort_covers hcovers]
  split
  · rfl
  split at hgroups
  · rename_i hone
    rw [createSubGroups_eq hgroups (hwindow.areGroupsAlong_singletons hone)
      (fun group hgroup => by
        obtain ⟨other, -, rfl⟩ := mem_map.mp hgroup
        exact cons_ne_nil _ _) hrank]
    exact if_pos (mem_singleton_self _)
  · rw [createSubGroups_eq hgroups (hwindow.areGroupsAlong hrank)
      (fun group hgroup => by
        obtain ⟨block, -, place, -, rfl⟩ := mem_blocks_iff.mp hgroup
        exact ne_nil_of_length_pos (by rw [length_progression]; exact hmiddle)) hrank]
    exact if_pos (mem_singleton_self _)

theorem createGroup_inner :
    ∃ template, (DevMat.mk [2, 2, 2]).getDevicesAlongDim 3 (range 8) (.dims [2, 1]) =
        .ok template ∧ createGroup template 8 3 = .ok (alongAxes [2, 2, 2] [2, 1] 3) :=
  @createGroup_eq [2, 2, 2] [2, 1] 3 (by decide) (by decide) (by decide) (by decide)
    fun i j k hij hjk hi hk => by simp at hi hk; omega

end HyperParallel.DTensor
