import Mathlib.Algebra.BigOperators.Group.List.Basic
import Mathlib.Algebra.Ring.Nat

/-!
# Rows packed into one buffer

Items of given sizes stand in a flat buffer one after the other; each item owns
the slot that starts where the items before it end.
-/

namespace HyperParallel.Foundation.Packing

open List

variable {ι α : Type*} (size : ι → Nat)

def total (items : List ι) : Nat := (items.map size).sum

def layoutFrom (start : Nat) : List ι → List (ι × Nat)
  | [] => []
  | item :: rest => (item, start) :: layoutFrom (start + size item) rest

def pack [Zero α] (row : ι → Nat → α) : List ι → Nat → α
  | [], _ => 0
  | item :: rest, j => if j < size item then row item j else pack row rest (j - size item)

variable {size}

@[simp] theorem total_nil : total size ([] : List ι) = 0 := rfl

@[simp] theorem total_cons (item : ι) (rest : List ι) :
    total size (item :: rest) = size item + total size rest := by
  simp [total]

theorem total_append (items rest : List ι) :
    total size (items ++ rest) = total size items + total size rest := by
  simp [total]

theorem layoutFrom_append (start : Nat) (items rest : List ι) :
    layoutFrom size start (items ++ rest) =
      layoutFrom size start items ++ layoutFrom size (start + total size items) rest := by
  induction items generalizing start with
  | nil => rfl
  | cons item items ih =>
    rw [cons_append, layoutFrom, ih, layoutFrom, total_cons, cons_append, Nat.add_assoc]

theorem map_fst_layoutFrom (start : Nat) (items : List ι) :
    (layoutFrom size start items).map Prod.fst = items := by
  induction items generalizing start with
  | nil => rfl
  | cons item rest ih => rw [layoutFrom, map_cons, ih]

theorem layoutFrom_map {κ : Type*} (f : κ → ι) (start : Nat) (items : List κ) :
    layoutFrom size start (items.map f)
      = (layoutFrom (fun item => size (f item)) start items).map
        fun entry => (f entry.1, entry.2) := by
  induction items generalizing start with
  | nil => rfl
  | cons item rest ih => rw [map_cons, layoutFrom, ih, layoutFrom, map_cons]

variable {items : List ι}

theorem mem_of_mem_layoutFrom {start : Nat} {entry : ι × Nat}
    (h : entry ∈ layoutFrom size start items) : entry.1 ∈ items := by
  rw [← map_fst_layoutFrom start items]
  exact mem_map_of_mem h

theorem exists_mem_layoutFrom {start : Nat} {items : List ι} {item : ι} (h : item ∈ items) :
    ∃ offset, (item, offset) ∈ layoutFrom size start items := by
  rw [← @map_fst_layoutFrom _ size start items] at h
  obtain ⟨⟨_, offset⟩, hentry, rfl⟩ := mem_map.mp h
  exact ⟨offset, hentry⟩

theorem le_of_mem_layoutFrom {start : Nat} {entry : ι × Nat}
    (h : entry ∈ layoutFrom size start items) :
    start ≤ entry.2 ∧ entry.2 + size entry.1 ≤ start + total size items := by
  induction items generalizing start with
  | nil => cases h
  | cons item rest ih =>
    rw [total_cons]
    rcases mem_cons.mp h with rfl | hmem
    · exact ⟨Nat.le_refl _, by dsimp only; omega⟩
    · have hrest := ih hmem
      exact ⟨by omega, by omega⟩

theorem pack_of_mem_layoutFrom [Zero α] {row : ι → Nat → α} {start : Nat} {items : List ι}
    {entry : ι × Nat} (h : entry ∈ layoutFrom size start items) {k : Nat}
    (hk : k < size entry.1) : pack size row items (entry.2 - start + k) = row entry.1 k := by
  induction items generalizing start with
  | nil => cases h
  | cons item rest ih =>
    rcases mem_cons.mp h with rfl | hmem
    · dsimp only at hk ⊢
      rw [Nat.sub_self, Nat.zero_add, pack, if_pos hk]
    · have hstart := (le_of_mem_layoutFrom hmem).1
      have hrest := ih hmem
      rw [pack, if_neg (by omega), ← hrest]
      congr 1
      omega

theorem layoutFrom_filter {keeps : ι → Bool}
    (h : ∀ item ∈ items, keeps item = false → size item = 0) (start : Nat) :
    layoutFrom size start (items.filter keeps) =
      (layoutFrom size start items).filter fun entry => keeps entry.1 := by
  induction items generalizing start with
  | nil => rfl
  | cons item rest ih =>
    have hrest := ih fun other hother => h other (mem_cons_of_mem _ hother)
    rw [layoutFrom]
    cases hkeeps : keeps item with
    | true => rw [filter_cons_of_pos hkeeps, layoutFrom, hrest,
        filter_cons_of_pos (by simpa using hkeeps)]
    | false => rw [filter_cons_of_neg (by simp [hkeeps]), hrest,
        filter_cons_of_neg (by simp [hkeeps]), h item mem_cons_self hkeeps,
        Nat.add_zero]

theorem total_filter {keeps : ι → Bool} (h : ∀ item ∈ items, keeps item = false → size item = 0) :
    total size (items.filter keeps) = total size items := by
  induction items with
  | nil => rfl
  | cons item rest ih =>
    have hrest := ih fun other hother => h other (mem_cons_of_mem _ hother)
    cases hkeeps : keeps item with
    | true => rw [filter_cons_of_pos hkeeps, total_cons, total_cons, hrest]
    | false => rw [filter_cons_of_neg (by simp [hkeeps]), hrest, total_cons,
        h item mem_cons_self hkeeps, Nat.zero_add]

theorem total_le_of_sublist {all : List ι} (hsub : items.Sublist all) :
    total size items ≤ total size all := by
  induction hsub with
  | slnil => exact Nat.le_refl _
  | cons item _ ih =>
    rw [total_cons]
    exact Nat.le_add_left_of_le ih
  | cons_cons item _ ih =>
    rw [total_cons, total_cons]
    exact Nat.add_le_add_left ih _

theorem eq_of_sublist_of_total_eq {all : List ι} (hsub : items.Sublist all)
    (hpos : ∀ item ∈ all, 0 < size item) (htotal : total size items = total size all) :
    items = all := by
  induction hsub with
  | slnil => rfl
  | @cons items all item hsub ih =>
    have hle : total size items ≤ total size all := total_le_of_sublist hsub
    have := hpos item mem_cons_self
    rw [total_cons] at htotal
    omega
  | @cons_cons items all item hsub ih =>
    rw [total_cons, total_cons] at htotal
    rw [ih (fun other hother => hpos other (mem_cons_of_mem _ hother)) (by omega)]

end HyperParallel.Foundation.Packing
