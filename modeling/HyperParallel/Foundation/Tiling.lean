import Mathlib.Algebra.Order.Group.Defs
import Mathlib.Data.List.Induction
import Mathlib.Data.List.Nodup
import Mathlib.Data.List.Perm.Subperm

/-!
# Tiling by translates

A region is tiled by translates of a tile.  The least uncovered point of a
region must be the anchor of its tile, so peeling the tiles off in order finds
the tiling when there is one.
-/

namespace HyperParallel.Foundation.Tiling

open List

section Translates

variable {α : Type*} [Add α]

def translate (tile : List α) (anchor : α) : List α := tile.map fun offset => anchor + offset

def cover (tile anchors : List α) : List α := anchors.flatMap (translate tile)

def Tiles (tile anchors region : List α) : Prop := (cover tile anchors).Perm region

theorem cover_append (tile front back : List α) :
    cover tile (front ++ back) = cover tile front ++ cover tile back := by
  simp [cover]

theorem cover_cons (tile : List α) (anchor : α) (anchors : List α) :
    cover tile (anchor :: anchors) = translate tile anchor ++ cover tile anchors := by
  simp [cover]

@[simp] theorem cover_singleton (tile : List α) (anchor : α) :
    cover tile [anchor] = translate tile anchor := by
  simp [cover]

theorem mem_cover {tile anchors : List α} {point : α} :
    point ∈ cover tile anchors ↔ ∃ anchor ∈ anchors, ∃ offset ∈ tile, anchor + offset = point := by
  simp [cover, translate]

def Fits (tile region chosen : List α) (anchor : α) : Prop :=
  anchor ∉ cover tile chosen ∧
    ∀ point ∈ translate tile anchor, point ∈ region ∧ point ∉ cover tile chosen

instance [DecidableEq α] (tile region chosen : List α) (anchor : α) :
    Decidable (Fits tile region chosen anchor) :=
  inferInstanceAs (Decidable (_ ∧ _))

def peel [DecidableEq α] (tile region chosen : List α) (anchor : α) : List α :=
  if Fits tile region chosen anchor then chosen ++ [anchor] else chosen

end Translates

variable {α : Type*} [AddCommGroup α] {tile region : List α}

theorem nodup_translate (htile : tile.Nodup) (anchor : α) : (translate tile anchor).Nodup :=
  List.Nodup.map (add_right_injective anchor) htile

theorem peel_sound [DecidableEq α] (htile : tile.Nodup) (points : List α) :
    (cover tile (points.foldl (peel tile region) [])).Nodup ∧
      cover tile (points.foldl (peel tile region) []) ⊆ region := by
  induction points using reverseRecOn with
  | nil => exact ⟨nodup_nil, nil_subset region⟩
  | append_singleton points anchor ih =>
    obtain ⟨hnodup, hsub⟩ := ih
    rw [foldl_append, foldl_cons, foldl_nil]
    generalize points.foldl (peel tile region) [] = chosen at hnodup hsub
    unfold peel
    split
    · rename_i hfits
      rw [cover_append, cover_singleton]
      constructor
      · refine nodup_append.mpr ⟨hnodup, nodup_translate htile anchor, ?_⟩
        rintro point hold _ hnew rfl
        exact (hfits.2 point hnew).2 hold
      · exact append_subset.mpr ⟨hsub, fun point hpoint => (hfits.2 point hpoint).1⟩
    · exact ⟨hnodup, hsub⟩

theorem anchor_unique {anchors : List α} (hnodup : (cover tile anchors).Nodup) {a b o p : α}
    (ha : a ∈ anchors) (hb : b ∈ anchors) (ho : o ∈ tile) (hp : p ∈ tile) (h : a + o = b + p) :
    a = b := by
  have hpoint : ∀ {x : α} {y : α}, y ∈ tile → x + y ∈ translate tile x :=
    fun hy => mem_map_of_mem hy
  induction anchors with
  | nil => cases ha
  | cons first rest ih =>
    obtain ⟨-, hrest, hdisjoint⟩ := nodup_append.mp (cover_cons tile first rest ▸ hnodup)
    rcases mem_cons.mp ha with rfl | hrestA
    · rcases mem_cons.mp hb with rfl | hrestB
      · rfl
      · exact absurd h (hdisjoint _ (hpoint ho) _ (mem_cover.mpr ⟨b, hrestB, p, hp, rfl⟩))
    · rcases mem_cons.mp hb with rfl | hrestB
      · exact absurd h.symm (hdisjoint _ (hpoint hp) _ (mem_cover.mpr ⟨a, hrestA, o, ho, rfl⟩))
      · exact ih hrest hrestA hrestB

section Ordered

variable [LinearOrder α] [IsOrderedAddMonoid α]

theorem mem_peel_iff {anchors : List α} (hzero : 0 ∈ tile) (hpos : ∀ offset ∈ tile, 0 ≤ offset)
    (hsorted : region.Pairwise (· < ·)) (htiles : Tiles tile anchors region)
    {front back : List α} (hsplit : front ++ back = region) (anchor : α) :
    anchor ∈ front.foldl (peel tile region) [] ↔ anchor ∈ anchors ∧ anchor ∈ front := by
  have hnodup : (cover tile anchors).Nodup := htiles.nodup_iff.mpr (hsorted.imp fun h => ne_of_lt h)
  induction front using reverseRecOn generalizing back anchor with
  | nil => simp
  | append_singleton front point ih =>
    have hfront : ∀ anchor, anchor ∈ front.foldl (peel tile region) [] ↔
        anchor ∈ anchors ∧ anchor ∈ front :=
      ih (by rw [← hsplit, append_assoc, singleton_append])
    have hbefore : ∀ x ∈ front, x < point := by
      intro x hx
      rw [← hsplit, append_assoc] at hsorted
      exact (pairwise_append.mp hsorted).2.2 x hx point (by simp)
    have hafter : ∀ x ∈ region, x < point → x ∈ front := by
      intro x hx hlt
      rw [← hsplit, append_assoc] at hx hsorted
      rcases mem_append.mp hx with hold | hnew
      · exact hold
      · rcases mem_cons.mp hnew with rfl | hback
        · exact absurd hlt (lt_irrefl x)
        · have hlast := (pairwise_append.mp hsorted).2.1
          exact absurd hlt (lt_asymm ((pairwise_cons.mp hlast).1 x hback))
    rw [foldl_append, foldl_cons, foldl_nil]
    generalize front.foldl (peel tile region) [] = chosen at hfront
    have hchosen : Fits tile region chosen point ↔ point ∈ anchors := by
      constructor
      · -- A point that is no anchor is covered from an earlier one.
        intro hfits
        have hpoint : point ∈ cover tile anchors := htiles.mem_iff.mpr (by rw [← hsplit]; simp)
        obtain ⟨a, ha, o, ho, hao⟩ := mem_cover.mp hpoint
        by_cases hzeroOffset : o = 0
        · rw [← hao, hzeroOffset, add_zero]
          exact ha
        · have hlt : a < point := by
            rw [← hao]
            exact lt_add_of_pos_right a (lt_of_le_of_ne (hpos o ho) (Ne.symm hzeroOffset))
          have haregion : a ∈ region :=
            htiles.mem_iff.mp (mem_cover.mpr ⟨a, ha, 0, hzero, add_zero a⟩)
          exact absurd (mem_cover.mpr ⟨a, (hfront a).mpr ⟨ha, hafter a haregion hlt⟩, o, ho, hao⟩)
            hfits.1
      · intro hanchor
        have hapart : ∀ o ∈ tile, point + o ∉ cover tile chosen := by
          intro o ho hcovered
          obtain ⟨a, ha, p, hp, hap⟩ := mem_cover.mp hcovered
          obtain ⟨haanchor, hafront⟩ := (hfront a).mp ha
          have heq := anchor_unique hnodup haanchor hanchor hp ho hap
          exact absurd (hbefore a hafront) (by rw [heq]; exact lt_irrefl point)
        refine ⟨by simpa using hapart 0 hzero, ?_⟩
        intro x hx
        obtain ⟨o, ho, rfl⟩ := mem_map.mp hx
        exact ⟨htiles.mem_iff.mp (mem_cover.mpr ⟨point, hanchor, o, ho, rfl⟩), hapart o ho⟩
    unfold peel
    by_cases hfits : Fits tile region chosen point
    · rw [if_pos hfits, mem_append, mem_singleton, hfront anchor, mem_append, mem_singleton]
      constructor
      · rintro (⟨ha, hf⟩ | rfl)
        · exact ⟨ha, .inl hf⟩
        · exact ⟨hchosen.mp hfits, .inr rfl⟩
      · rintro ⟨ha, hf | rfl⟩
        · exact .inl ⟨ha, hf⟩
        · exact .inr rfl
    · rw [if_neg hfits, hfront anchor, mem_append, mem_singleton]
      constructor
      · exact fun ⟨ha, hf⟩ => ⟨ha, .inl hf⟩
      · rintro ⟨ha, hf | rfl⟩
        · exact ⟨ha, hf⟩
        · exact absurd (hchosen.mpr ha) hfits

theorem peel_tiles_iff (htile : tile.Nodup) (hzero : 0 ∈ tile) (hpos : ∀ offset ∈ tile, 0 ≤ offset)
    (hsorted : region.Pairwise (· < ·)) :
    Tiles tile (region.foldl (peel tile region) []) region ↔ ∃ anchors, Tiles tile anchors region := by
  refine ⟨fun h => ⟨_, h⟩, ?_⟩
  rintro ⟨anchors, htiles⟩
  have hsound : (cover tile (region.foldl (peel tile region) [])).Nodup ∧
      cover tile (region.foldl (peel tile region) []) ⊆ region := peel_sound htile region
  obtain ⟨hnodup, hsub⟩ := hsound
  have hchosen := mem_peel_iff hzero hpos hsorted htiles (append_nil region)
  refine (perm_ext_iff_of_nodup hnodup (hsorted.imp fun h => ne_of_lt h)).mpr fun point => ?_
  refine ⟨fun hpoint => hsub hpoint, fun hpoint => ?_⟩
  obtain ⟨a, ha, o, ho, hao⟩ := mem_cover.mp (htiles.mem_iff.mpr hpoint)
  have haregion : a ∈ region := htiles.mem_iff.mp (mem_cover.mpr ⟨a, ha, 0, hzero, add_zero a⟩)
  exact mem_cover.mpr ⟨a, (hchosen a).mpr ⟨ha, haregion⟩, o, ho, hao⟩

end Ordered

theorem tiles_iff_length {anchors : List α} (hnodup : (cover tile anchors).Nodup)
    (hsub : cover tile anchors ⊆ region) :
    Tiles tile anchors region ↔ (cover tile anchors).length = region.length := by
  refine ⟨fun h => h.length_eq, fun hlen => ?_⟩
  exact (subperm_of_subset hnodup hsub).perm_of_length_le hlen.ge

end HyperParallel.Foundation.Tiling
