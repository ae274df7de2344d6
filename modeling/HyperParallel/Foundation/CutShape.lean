import HyperParallel.Foundation.DenseTensor

/-!
# Cut shapes

Each dimension of a shape is cut into equal parts, of which one is kept.  The
part that is kept is a smaller tensor; `position` says where its elements lie in
the whole.  Where only the first of some dimensions is cut, they can be taken as
one dimension, and the positions stay.
-/

namespace HyperParallel.Foundation

open MixedRadix List

structure Cut where
  size : Nat
  count : Nat
  index : Nat

namespace Cut

/-- A dimension that is kept whole. -/
def plain (size : Nat) : Cut := ⟨size, 1, 0⟩

def width (cut : Cut) : Nat := cut.size / cut.count

def start (cut : Cut) : Nat := cut.index * cut.width

/-- The part is one of equal parts. -/
structure Even (cut : Cut) : Prop where
  pos : 0 < cut.count
  dvd : cut.count ∣ cut.size

@[simp] theorem width_plain (size : Nat) : (plain size).width = size := Nat.div_one size

@[simp] theorem start_plain (size : Nat) : (plain size).start = 0 := Nat.zero_mul _

theorem plain_even (size : Nat) : (plain size).Even := ⟨Nat.one_pos, Nat.one_dvd size⟩

/-- The dimension with an uncut one behind it. -/
def widen (cut : Cut) (size : Nat) : Cut := ⟨cut.size * size, cut.count, cut.index⟩

theorem Even.widen {cut : Cut} (h : cut.Even) (size : Nat) : (cut.widen size).Even :=
  ⟨h.pos, h.dvd.mul_right size⟩

theorem width_widen {cut : Cut} (h : cut.Even) (size : Nat) :
    (cut.widen size).width = cut.width * size := by
  obtain ⟨w, hw⟩ := h.dvd
  rw [width, width, widen, hw, Nat.mul_assoc, Nat.mul_div_cancel_left _ h.pos,
    Nat.mul_div_cancel_left _ h.pos]

theorem start_widen {cut : Cut} (h : cut.Even) (size : Nat) :
    (cut.widen size).start = cut.start * size := by
  rw [start, width_widen h, start, Nat.mul_assoc]
  rfl

end Cut

namespace CutShape

def sizes (cuts : List Cut) : List Nat := cuts.map Cut.size

def widths (cuts : List Cut) : List Nat := cuts.map Cut.width

/-- Where the element at a place of the part lies in the whole. -/
def position (cuts : List Cut) (n : Nat) : Nat :=
  value (sizes cuts) (List.zipWith (fun cut digit => cut.start + digit) cuts
    (digits (widths cuts) n))

theorem position_cons (cut : Cut) (cuts : List Cut) (n : Nat) :
    position (cut :: cuts) n =
      (cut.start + n / (widths cuts).prod % cut.width) * (sizes cuts).prod + position cuts n := rfl

theorem position_plain_one (cuts : List Cut) (n : Nat) :
    position (.plain 1 :: cuts) n = position cuts n := by
  rw [position_cons, Cut.start_plain, Cut.width_plain, Nat.mod_one, Nat.zero_mul, Nat.zero_add]

variable {cut : Cut} {cuts groups : List Cut}

theorem position_widen (h : cut.Even) (size : Nat) (cuts : List Cut) (n : Nat) :
    position (cut :: .plain size :: cuts) n = position (cut.widen size :: cuts) n := by
  have hplace : n / (widths cuts).prod % (cut.width * size) =
      n / (size * (widths cuts).prod) % cut.width * size + n / (widths cuts).prod % size := by
    rw [Nat.mul_comm cut.width, Nat.mod_mul, Nat.div_div_eq_div_mul, Nat.mul_comm _ size,
      Nat.add_comm, Nat.mul_comm size (n / _ % _)]
  rw [position_cons, position_cons, position_cons, Cut.width_widen h, Cut.start_widen h, hplace]
  simp only [sizes, widths, map_cons, prod_cons, Cut.width_plain, Cut.start_plain]
  simp only [Cut.plain]
  ring

/-- Dimensions that make up groups: in each only the first is cut; whole ones of size one do not
count. -/
inductive Regroup : List Cut → List Cut → Prop where
  | nil : Regroup [] []
  | one {cuts groups : List Cut} : Regroup cuts groups → Regroup (.plain 1 :: cuts) groups
  | dropOne {cuts groups : List Cut} : Regroup cuts groups → Regroup cuts (.plain 1 :: groups)
  | lead {cuts groups : List Cut} (cut : Cut) (pending : List Nat) : Regroup cuts groups →
      Regroup (cut :: (pending.map .plain ++ cuts)) (cut.widen pending.prod :: groups)

structure SameParts (cuts groups : List Cut) : Prop where
  position : ∀ n, position cuts n = CutShape.position groups n
  widths : (widths cuts).prod = (CutShape.widths groups).prod
  sizes : (sizes cuts).prod = (CutShape.sizes groups).prod

theorem SameParts.trans {first second third : List Cut} (h : SameParts first second)
    (h' : SameParts second third) : SameParts first third :=
  ⟨fun n => (h.position n).trans (h'.position n), h.widths.trans h'.widths, h.sizes.trans h'.sizes⟩

theorem SameParts.symm {first second : List Cut} (h : SameParts first second) :
    SameParts second first :=
  ⟨fun n => (h.position n).symm, h.widths.symm, h.sizes.symm⟩

theorem SameParts.cons (h : SameParts cuts groups) (cut : Cut) :
    SameParts (cut :: cuts) (cut :: groups) where
  position n := by rw [position_cons, position_cons, h.position, h.widths, h.sizes]
  widths := by
    have hrest := h.widths
    simp only [CutShape.widths, map_cons, prod_cons] at hrest ⊢
    rw [hrest]
  sizes := by
    have hrest := h.sizes
    simp only [CutShape.sizes, map_cons, prod_cons] at hrest ⊢
    rw [hrest]

theorem sameParts_plain_one (cuts : List Cut) : SameParts (.plain 1 :: cuts) cuts where
  position := position_plain_one cuts
  widths := by simp [CutShape.widths]
  sizes := by simp [CutShape.sizes, Cut.plain]

theorem sameParts_widen (h : cut.Even) (size : Nat) (cuts : List Cut) :
    SameParts (cut :: .plain size :: cuts) (cut.widen size :: cuts) where
  position := position_widen h size cuts
  widths := by
    simp only [CutShape.widths, map_cons, prod_cons, Cut.width_plain, Cut.width_widen h]
    ring
  sizes := by
    simp only [CutShape.sizes, map_cons, prod_cons, Cut.plain, Cut.widen]
    ring

theorem sameParts_lead (h : cut.Even) (pending : List Nat) (cuts : List Cut) :
    SameParts (cut :: (pending.map .plain ++ cuts)) (cut.widen pending.prod :: cuts) := by
  induction pending generalizing cut with
  | nil =>
    have hsame : cut.widen ([] : List Nat).prod = cut := by simp [Cut.widen]
    rw [hsame]
    exact ⟨fun n => rfl, rfl, rfl⟩
  | cons size pending ih =>
    have hwiden : cut.widen (size :: pending).prod = (cut.widen size).widen pending.prod := by
      simp [Cut.widen, Nat.mul_assoc]
    rw [hwiden]
    exact (sameParts_widen h size _).trans (ih (h.widen size))

theorem Regroup.even (h : Regroup cuts groups)
    (heven : ∀ cut ∈ cuts, cut.Even) : ∀ cut ∈ groups, cut.Even := by
  induction h with
  | nil => exact heven
  | one _ ih => exact ih fun cut hcut => heven cut (mem_cons_of_mem _ hcut)
  | dropOne _ ih =>
    intro cut hcut
    rcases mem_cons.mp hcut with rfl | hold
    · exact Cut.plain_even 1
    · exact ih heven cut hold
  | lead cut pending _ ih =>
    intro other hother
    rcases mem_cons.mp hother with rfl | hold
    · exact (heven cut mem_cons_self).widen pending.prod
    · exact ih (fun cut' hcut' => heven cut' (mem_cons_of_mem _
        (mem_append_right _ hcut'))) other hold

theorem Regroup.sameParts (h : Regroup cuts groups)
    (heven : ∀ cut ∈ cuts, cut.Even) : SameParts cuts groups := by
  induction h with
  | nil => exact ⟨fun n => rfl, rfl, rfl⟩
  | @one cuts groups _ ih =>
    exact (sameParts_plain_one cuts).trans (ih fun cut hcut => heven cut (mem_cons_of_mem _ hcut))
  | @dropOne cuts groups _ ih => exact (ih heven).trans (sameParts_plain_one groups).symm
  | @lead cuts groups cut pending _ ih =>
    have hrest : ∀ other ∈ cuts, other.Even := fun other hother =>
      heven other (mem_cons_of_mem _ (mem_append_right _ hother))
    exact (sameParts_lead (heven cut mem_cons_self) pending cuts).trans
      ((ih hrest).cons (cut.widen pending.prod))

end CutShape

/-! ## Parts of a tensor -/

namespace Dense

open CutShape

variable {α : Type*}

/-- The part of a tensor between a start and a stop in each dimension. -/
def slice (t : Dense α) (area : List (Nat × Nat)) : Dense α :=
  ofFn (area.map fun range => range.2 - range.1) fun idx =>
    t.get (List.zipWith (fun range i => range.1 + i) area idx)

def areaOf (cuts : List Cut) : List (Nat × Nat) :=
  cuts.map fun cut => (cut.start, cut.start + cut.width)

theorem slice_areaOf (t : Dense α) {cuts : List Cut} (hshape : t.shape = sizes cuts) :
    t.slice (areaOf cuts) = ⟨widths cuts, fun n => t.flat (position cuts n)⟩ := by
  have hwidths : (areaOf cuts).map (fun range => range.2 - range.1) = widths cuts := by
    rw [areaOf, map_map, widths]
    refine map_congr_left fun cut _ => ?_
    simp
  rw [slice, ofFn, hwidths]
  congr 1
  funext n
  rw [get, hshape, position, areaOf, zipWith_map_left]

theorem slice_reshape_same (t : Dense α) {cuts groups : List Cut} (hsame : SameParts cuts groups)
    (hshape : t.shape = sizes cuts) :
    ∃ part, (t.slice (areaOf cuts)).reshape (widths groups) = some part ∧
      part.Same ((⟨sizes groups, t.flat⟩ : Dense α).slice (areaOf groups)) := by
  refine ⟨⟨widths groups, fun n => t.flat (position cuts n)⟩, ?_, ?_⟩
  · rw [slice_areaOf t hshape, reshape_of_prod]
    exact hsame.widths.symm
  · rw [slice_areaOf _ rfl]
    exact ⟨rfl, fun n _ => congrArg t.flat (hsame.position n)⟩

end Dense

end HyperParallel.Foundation
