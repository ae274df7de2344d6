import Mathlib.Data.List.Sort

/-!
# Cut points

Increasing cut points divide an interval into segments.  A position belongs to
the segment that starts at the last cut before it, whichever way that start is
found: by passing over the cuts, by the pair of cuts around the position, or as
the greatest cut that is not past it.
-/

namespace HyperParallel.Foundation.CutPoints

open List

/-- The last of the cuts that is not past the position, or `first` when all are. -/
def lastCut (first : Nat) (cuts : List Nat) (position : Nat) : Nat :=
  cuts.foldl (fun last cut => if cut ≤ position then cut else last) first

@[simp] theorem lastCut_nil (first position : Nat) : lastCut first [] position = first := rfl

theorem lastCut_cons (first cut : Nat) (cuts : List Nat) (position : Nat) :
    lastCut first (cut :: cuts) position =
      lastCut (if cut ≤ position then cut else first) cuts position := rfl

variable {cuts : List Nat} {first position : Nat}

theorem lastCut_of_gt (h : ∀ cut ∈ cuts, position < cut) : lastCut first cuts position = first := by
  induction cuts generalizing first with
  | nil => rfl
  | cons cut cuts ih =>
    rw [lastCut_cons, if_neg (by have := h cut mem_cons_self; omega)]
    exact ih fun other hother => h other (mem_cons_of_mem cut hother)

theorem lastCut_le (first : Nat) (cuts : List Nat) (h : first ≤ position) :
    lastCut first cuts position ≤ position := by
  induction cuts generalizing first with
  | nil => exact h
  | cons cut cuts ih =>
    rw [lastCut_cons]
    split
    · rename_i hcut
      exact ih cut hcut
    · exact ih first h

structure IsSegmentStart (first : Nat) (cuts : List Nat) (position start : Nat) : Prop where
  mem : start = first ∨ start ∈ cuts
  le : start ≤ position
  greatest : ∀ cut ∈ cuts, cut ≤ position → cut ≤ start
  first_le : first ≤ start

theorem IsSegmentStart.unique {start start' : Nat} (h : IsSegmentStart first cuts position start)
    (h' : IsSegmentStart first cuts position start') : start = start' := by
  have hle : ∀ {s s' : Nat}, IsSegmentStart first cuts position s →
      IsSegmentStart first cuts position s' → s ≤ s' := by
    intro s s' hs hs'
    rcases hs.mem with rfl | hmem
    · exact hs'.first_le
    · exact hs'.greatest s hmem hs.le
  exact Nat.le_antisymm (hle h h') (hle h' h)

theorem lastCut_isSegmentStart (hfirst : first ≤ position) (hcuts : ∀ cut ∈ cuts, first < cut)
    (hsorted : cuts.Pairwise (· < ·)) :
    IsSegmentStart first cuts position (lastCut first cuts position) := by
  induction cuts generalizing first with
  | nil => exact ⟨.inl rfl, hfirst, by simp, Nat.le_refl _⟩
  | cons cut cuts ih =>
    obtain ⟨hafter, hsorted⟩ := pairwise_cons.mp hsorted
    have hcut := hcuts cut mem_cons_self
    rw [lastCut_cons]
    by_cases hle : cut ≤ position
    · rw [if_pos hle]
      have hrest := ih hle hafter hsorted
      refine ⟨?_, hrest.le, ?_, by have := hrest.first_le; omega⟩
      · rcases hrest.mem with heq | hmem
        · rw [heq]
          exact .inr mem_cons_self
        · exact .inr (mem_cons_of_mem cut hmem)
      · intro other hother hbefore
        rcases mem_cons.mp hother with rfl | hother
        · exact hrest.first_le
        · exact hrest.greatest other hother hbefore
    · rw [if_neg hle, lastCut_of_gt fun other hother => by have := hafter other hother; omega]
      refine ⟨.inl rfl, hfirst, fun other hother hbefore => ?_, Nat.le_refl _⟩
      rcases mem_cons.mp hother with rfl | hother
      · omega
      · have := hafter other hother
        omega

theorem exists_segment {stop : Nat} (hsorted : (first :: cuts).Pairwise (· < ·))
    (hlast : (first :: cuts).getLast? = some stop) (hfirst : first ≤ position)
    (hstop : position < stop) :
    ∃ segment ∈ (first :: cuts).zip cuts, segment.1 ≤ position ∧ position < segment.2 := by
  induction cuts generalizing first with
  | nil =>
    obtain rfl : first = stop := by simpa using hlast
    omega
  | cons cut cuts ih =>
    by_cases hcut : position < cut
    · exact ⟨(first, cut), by simp, hfirst, hcut⟩
    · obtain ⟨segment, hmem, hbetween⟩ := ih (pairwise_cons.mp hsorted).2
        (by simpa using hlast) (by omega)
      exact ⟨segment, by rw [zip_cons_cons]; exact mem_cons_of_mem _ hmem, hbetween⟩

theorem segment_spec (hsorted : (first :: cuts).Pairwise (· < ·)) {segment : Nat × Nat}
    (h : segment ∈ (first :: cuts).zip cuts) :
    segment.1 ∈ first :: cuts ∧ segment.2 ∈ cuts ∧ segment.1 < segment.2 ∧
      ∀ cut ∈ first :: cuts, cut ≤ segment.1 ∨ segment.2 ≤ cut := by
  induction cuts generalizing first with
  | nil => cases h
  | cons next cuts ih =>
    obtain ⟨hafter, hrest⟩ := pairwise_cons.mp hsorted
    rw [zip_cons_cons] at h
    rcases mem_cons.mp h with rfl | h
    · refine ⟨by simp, by simp, hafter next (by simp), fun cut hcut => ?_⟩
      rcases mem_cons.mp hcut with rfl | hcut
      · exact .inl (Nat.le_refl _)
      · rcases mem_cons.mp hcut with rfl | hcut
        · exact .inr (Nat.le_refl _)
        · exact .inr (Nat.le_of_lt ((pairwise_cons.mp hrest).1 cut hcut))
    · obtain ⟨hstart, hstop, hlt, hcuts⟩ := ih hrest h
      refine ⟨mem_cons_of_mem _ hstart, mem_cons_of_mem _ hstop, hlt, fun cut hcut => ?_⟩
      rcases mem_cons.mp hcut with rfl | hcut
      · exact .inl (Nat.le_of_lt (hafter segment.1 hstart))
      · exact hcuts cut hcut

theorem lt_of_getLast?_ne {stop : Nat} (hsorted : cuts.Pairwise (· < ·))
    (hle : ∀ cut ∈ cuts, cut ≤ stop) (hlast : cuts.getLast? ≠ some stop) {cut : Nat}
    (h : cut ∈ cuts) : cut < stop := by
  rcases eq_nil_or_concat' cuts with rfl | ⟨front, last, rfl⟩
  · cases h
  · have hstop : last < stop := by
      have := hle last (by simp)
      have : last ≠ stop := fun heq => hlast (by simp [heq])
      omega
    rcases mem_append.mp h with h | h
    · have := (pairwise_append.mp hsorted).2.2 cut h last (by simp)
      omega
    · rw [mem_singleton.mp h]
      exact hstop

theorem mem_dropLast_of_ne {cut : Nat} (h : cut ∈ cuts) (hlast : cuts.getLast? ≠ some cut) :
    cut ∈ cuts.dropLast := by
  rcases eq_nil_or_concat' cuts with rfl | ⟨front, last, rfl⟩
  · cases h
  · rw [dropLast_concat]
    rcases mem_append.mp h with h | h
    · exact h
    · exact absurd (by simp [mem_singleton.mp h]) hlast

theorem lt_of_mem_dropLast {cut stop : Nat} (hsorted : cuts.Pairwise (· < ·))
    (hlast : cuts.getLast? = some stop) (h : cut ∈ cuts.dropLast) : cut < stop := by
  rcases eq_nil_or_concat' cuts with rfl | ⟨front, last, rfl⟩
  · cases h
  · obtain rfl : last = stop := by simpa using hlast
    rw [dropLast_concat] at h
    exact (pairwise_append.mp hsorted).2.2 cut h last (by simp)

theorem segments_pairwise (hsorted : (first :: cuts).Pairwise (· < ·)) :
    ((first :: cuts).zip cuts).Pairwise fun segment later => segment.2 ≤ later.1 := by
  induction cuts generalizing first with
  | nil => exact .nil
  | cons next cuts ih =>
    obtain ⟨-, hrest⟩ := pairwise_cons.mp hsorted
    rw [zip_cons_cons]
    refine .cons (fun later hlater => ?_) (ih hrest)
    rcases mem_cons.mp (segment_spec hrest hlater).1 with heq | hmem
    · exact Nat.le_of_eq heq.symm
    · exact Nat.le_of_lt ((pairwise_cons.mp hrest).1 later.1 hmem)

end HyperParallel.Foundation.CutPoints
