import Mathlib.Data.List.Basic

/-!
# Grids

A two-dimensional array is a list of rows.  An assignment to a rectangle changes
every entry by a function of its own place, so it is read back entry by entry.
-/

namespace HyperParallel.Foundation.Grid

open List

variable {α β : Type*}

def table (height width : Nat) (f : Nat → Nat → α) : List (List α) :=
  (List.range height).map fun i => (List.range width).map (f i)

def update (f : Nat → Nat → α → β) (rows : List (List α)) : List (List β) :=
  rows.mapIdx fun i row => row.mapIdx (f i)

@[simp] theorem length_table (height width : Nat) (f : Nat → Nat → α) :
    (table height width f).length = height := by
  simp [table]

@[simp] theorem length_update (f : Nat → Nat → α → β) (rows : List (List α)) :
    (update f rows).length = rows.length := by
  simp [update]

theorem getElem?_map_range {width j : Nat} (f : Nat → α) :
    ((range width).map f)[j]? = if j < width then some (f j) else none := by
  rw [getElem?_map]
  split
  · rename_i h
    rw [getElem?_range h]
    rfl
  · rename_i h
    rw [getElem?_eq_none (by simpa using h)]
    rfl

theorem update_table (height width : Nat) (f : Nat → Nat → α) (g : Nat → Nat → α → β) :
    update g (table height width f) = table height width fun i j => g i j (f i j) := by
  apply ext_getElem (by simp)
  intro i hi _
  simp only [update, table, getElem_mapIdx, getElem_map, getElem_range]
  apply ext_getElem (by simp)
  intro j _ _
  simp

theorem table_congr {height width : Nat} {f g : Nat → Nat → α}
    (h : ∀ i < height, ∀ j < width, f i j = g i j) : table height width f = table height width g := by
  refine map_congr_left fun i hi => map_congr_left fun j hj => ?_
  exact h i (mem_range.mp hi) j (mem_range.mp hj)

theorem modify_table {height width : Nat} (f : Nat → Nat → α) (row : Nat) (g : Nat → α → α) :
    (table height width f).modify row (List.mapIdx g) =
      table height width fun i j => if i = row then g j (f i j) else f i j := by
  apply ext_getElem (by simp)
  intro i hi _
  rw [getElem_modify]
  simp only [table, getElem_map, getElem_range]
  by_cases h : row = i
  · rw [if_pos h]
    apply ext_getElem (by simp)
    intro j _ _
    simp [h]
  · rw [if_neg h]
    apply ext_getElem (by simp)
    intro j _ _
    simp [Ne.symm h]

end HyperParallel.Foundation.Grid
