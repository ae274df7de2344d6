import Mathlib.Data.List.Nodup

/-!
# One element before another

`[a, b]` is a sublist of `l` when `a` stands somewhere before `b` in `l`.
-/

namespace HyperParallel.Foundation.ListOrder

open List List

theorem pair_split {α : Type*} {a b : α} {l : List α} (h : [a, b] <+ l) :
    ∃ p q r, l = p ++ a :: (q ++ b :: r) := by
  obtain ⟨front, back, rfl, ha, hb⟩ := cons_sublist_iff.mp h
  obtain ⟨p, q, rfl⟩ := append_of_mem ha
  obtain ⟨q', r, rfl⟩ := append_of_mem (singleton_sublist.mp hb)
  exact ⟨p, q ++ q', r, by simp⟩

theorem idxOf_lt_of_pair {α : Type*} [DecidableEq α] {a b : α} {l : List α} (hnodup : l.Nodup)
    (h : [a, b] <+ l) : l.idxOf a < l.idxOf b := by
  have hpair : l.Pairwise fun x y => l.idxOf x < l.idxOf y := by
    rw [pairwise_iff_getElem]
    intro i j hi hj hij
    rw [hnodup.idxOf_getElem i hi, hnodup.idxOf_getElem j hj]
    exact hij
  exact hpair.forall_sublist h

theorem pair_sublist_or {α : Type*} {a b : α} {l : List α} (ha : a ∈ l) (hb : b ∈ l)
    (hne : a ≠ b) : [a, b] <+ l ∨ [b, a] <+ l := by
  induction l with
  | nil => cases ha
  | cons c l ih =>
    rcases mem_cons.mp ha with rfl | ha'
    · have hb' := (mem_cons.mp hb).resolve_left hne.symm
      exact Or.inl ((singleton_sublist.mpr hb').cons_cons a)
    rcases mem_cons.mp hb with rfl | hb'
    · exact Or.inr ((singleton_sublist.mpr ha').cons_cons b)
    rcases ih ha' hb' with h | h
    · exact Or.inl (h.cons c)
    · exact Or.inr (h.cons c)

theorem pair_of_key_lt {α : Type*} (key : α → Nat) {a b : α} {l : List α}
    (hsorted : l.Pairwise (key · ≤ key ·)) (ha : a ∈ l) (hb : b ∈ l) (hlt : key a < key b) :
    [a, b] <+ l := by
  have hne : a ≠ b := by
    rintro rfl
    exact Nat.lt_irrefl _ hlt
  refine (pair_sublist_or ha hb hne).resolve_right fun h => ?_
  exact absurd (hsorted.forall_sublist h) (by omega)

theorem count_of_sorted {α : Type*} [DecidableEq α] {key : α → Nat} {a : α} {l : List α}
    (hsorted : l.Pairwise (key · < key ·)) (ha : a ∈ l) : l.count a = 1 := by
  refine count_eq_one_of_mem (hsorted.imp fun {x y} hlt => ?_) ha
  rintro rfl
  exact Nat.lt_irrefl _ hlt

/-! ## Lists with tags -/

section Tags

variable {α : Type*} {a b : α} {tagged : List (Nat × α)}

theorem pair_map_of_tag_lt (hsorted : tagged.Pairwise (·.1 ≤ ·.1)) {s t : Nat}
    (ha : (s, a) ∈ tagged) (hb : (t, b) ∈ tagged) (hlt : s < t) : [a, b] <+ tagged.map Prod.snd :=
  (pair_of_key_lt Prod.fst hsorted ha hb hlt).map Prod.snd

theorem tag_le_of_pair_map (hsorted : tagged.Pairwise (·.1 ≤ ·.1))
    (h : [a, b] <+ tagged.map Prod.snd) :
    ∃ s t, (s, a) ∈ tagged ∧ (t, b) ∈ tagged ∧ s ≤ t := by
  obtain ⟨pair, hpair, hmap⟩ := sublist_map_iff.mp h
  obtain ⟨⟨s, x⟩, rest, rfl, rfl, hrest⟩ := map_eq_cons_iff.mp hmap.symm
  obtain ⟨⟨t, y⟩, rest, rfl, rfl, hrest⟩ := map_eq_cons_iff.mp hrest
  refine ⟨s, t, hpair.subset (by simp), hpair.subset (by simp), ?_⟩
  exact (pairwise_cons.mp (hsorted.sublist hpair)).1 (t, y) (by simp)

end Tags

/-! ## Positions -/

theorem length_flatMap_range {α : Type*} (block : Nat → List α) (start : Nat → Nat) {n : Nat}
    (hzero : start 0 = 0) (hstart : ∀ k < n, start (k + 1) = start k + (block k).length) :
    ((range n).flatMap block).length = start n := by
  induction n with
  | zero => rw [hzero]; rfl
  | succ n ih =>
    rw [range_succ, flatMap_append, length_append, flatMap_singleton,
      ih fun k hk => hstart k (by omega), hstart n (by omega)]

theorem getElem?_flatMap_range {α : Type*} (block : Nat → List α) (start : Nat → Nat) {n k r : Nat}
    (hzero : start 0 = 0) (hstart : ∀ j < k, start (j + 1) = start j + (block j).length)
    (hk : k < n) (hr : r < (block k).length) :
    ((range n).flatMap block)[start k + r]? = (block k)[r]? := by
  have hfront : ((range k).flatMap block).length = start k :=
    length_flatMap_range block start hzero hstart
  obtain ⟨rest, rfl⟩ := Nat.exists_eq_add_of_lt hk
  rw [show k + rest + 1 = k + 1 + rest by omega, range_add, flatMap_append,
    range_succ, flatMap_append, flatMap_singleton]
  rw [getElem?_append_left (by simp [hfront, hr]),
    getElem?_append_right (by omega), hfront, Nat.add_sub_cancel_left]

theorem flatMap_range_single {α : Type*} (block : Nat → List α) {n r : Nat} (hr : r < n)
    (hother : ∀ k < n, k ≠ r → block k = []) : (range n).flatMap block = block r := by
  obtain ⟨rest, rfl⟩ := Nat.exists_eq_add_of_lt hr
  rw [show r + rest + 1 = r + 1 + rest by omega, range_add, range_succ,
    flatMap_append, flatMap_append, flatMap_singleton]
  have hfront : (range r).flatMap block = [] :=
    flatMap_eq_nil_iff.mpr fun k hk => by
      rw [mem_range] at hk
      exact hother k (by omega) (by omega)
  have hback : ((range rest).map (r + 1 + ·)).flatMap block = [] :=
    flatMap_eq_nil_iff.mpr fun k hk => by
      obtain ⟨j, hj, rfl⟩ := mem_map.mp hk
      rw [mem_range] at hj
      exact hother _ (by omega) (by omega)
  rw [hfront, hback, nil_append, append_nil]

theorem flatMap_range_getElem? {α β : Type*} (f : Option α → List β) (hnone : f none = [])
    (l : List α) {n : Nat} (hn : l.length ≤ n) :
    ((range n).flatMap fun k => f l[k]?) = l.flatMap fun x => f (some x) := by
  induction l generalizing n with
  | nil => simp [hnone]
  | cons x l ih =>
    obtain ⟨n, rfl⟩ := Nat.exists_eq_add_one_of_ne_zero (show n ≠ 0 by
      rintro rfl
      simp at hn)
    rw [range_succ_eq_map, flatMap_cons, flatMap_map, flatMap_cons, ← ih (by simpa using hn)]
    rfl

/-- A value that `f` takes once is taken at one position. -/
theorem position_unique {α β : Type*} {f : α → Option β} {l : List α}
    (hnodup : (l.filterMap f).Nodup) {i j : Nat} {a b : α} {x : β} (ha : l[i]? = some a)
    (hb : l[j]? = some b) (hfa : f a = some x) (hfb : f b = some x) : i = j := by
  have hpair := pairwise_iff_getElem.mp (pairwise_filterMap.mp hnodup)
  obtain ⟨hi, rfl⟩ := List.getElem?_eq_some_iff.mp ha
  obtain ⟨hj, rfl⟩ := List.getElem?_eq_some_iff.mp hb
  rcases Nat.lt_trichotomy i j with hlt | heq | hlt
  · exact absurd rfl (hpair i j hi hj hlt x hfa x hfb)
  · exact heq
  · exact absurd rfl (hpair j i hj hi hlt x hfb x hfa)

theorem length_filter_eq_one {α : Type*} {l : List α} (hnodup : l.Nodup) {p : α → Bool}
    (hex : ∃ a ∈ l, p a = true) (hunique : ∀ a ∈ l, ∀ b ∈ l, p a = true → p b = true → a = b) :
    (l.filter p).length = 1 := by
  obtain ⟨a, ha, hpa⟩ := hex
  have hall : ∀ b ∈ l.filter p, b = a := by
    intro b hb
    obtain ⟨hmem, hpb⟩ := mem_filter.mp hb
    exact hunique b hmem a ha hpb hpa
  have hle : (l.filter p).length ≤ 1 := by
    by_contra hlong
    have hpair := pairwise_iff_getElem.mp (hnodup.filter p) 0 1 (by omega) (by omega)
      Nat.zero_lt_one
    exact hpair ((hall _ (getElem_mem _)).trans (hall _ (getElem_mem _)).symm)
  have hpos := length_pos_of_mem (mem_filter.mpr ⟨ha, hpa⟩)
  omega

theorem flatMap_filter_perm {α : Type*} (key : α → Nat) (n : Nat) {l : List α}
    (h : ∀ a ∈ l, key a < n) :
    ((range n).flatMap fun r => l.filter fun a => decide (key a = r)).Perm l := by
  induction n generalizing l with
  | zero =>
    have hnil : l = [] := eq_nil_iff_forall_not_mem.mpr fun a ha => absurd (h a ha) (by omega)
    simp [hnil]
  | succ n ih =>
    have hfront := ih (l := l.filter fun a => decide (key a < n)) fun a ha => by
      simpa using (mem_filter.mp ha).2
    have hclasses : (range n).flatMap (fun r => l.filter fun a => decide (key a = r)) =
        (range n).flatMap fun r =>
          (l.filter fun a => decide (key a < n)).filter fun a => decide (key a = r) := by
      apply flatMap_congr
      intro r hr
      rw [filter_filter]
      apply filter_congr
      intro a _
      have hlt : r < n := mem_range.mp hr
      by_cases heq : key a = r <;> simp [heq, hlt]
    have hlast : (l.filter fun a => decide (key a = n)) =
        l.filter fun a => !decide (key a < n) := by
      apply filter_congr
      intro a ha
      have := h a ha
      by_cases heq : key a = n
      · simp [heq]
      · have hlt : key a < n := by omega
        simp [heq, hlt]
    rw [range_succ, flatMap_append, hclasses, flatMap_singleton, hlast]
    exact (hfront.append_right _).trans (filter_append_perm _ l)

theorem mergeSort_sorted (l : List Nat) : l.mergeSort.Pairwise (· ≤ ·) := by
  have hsorted := @pairwise_mergeSort Nat (fun a b => decide (a ≤ b))
    (fun a b c => by simpa using Nat.le_trans) (fun a b => by simpa using Nat.le_total a b) l
  exact hsorted.imp fun h => by simpa using h

theorem eq_of_perm_of_sorted {l l' : List Nat} (h : l.Perm l') (hl : l.Pairwise (· ≤ ·))
    (hl' : l'.Pairwise (· ≤ ·)) : l = l' :=
  h.eq_of_pairwise (fun _ _ _ _ hab hba => Nat.le_antisymm hab hba) hl hl'

theorem flatMap_filter_eq {α β : Type*} (p : α → Bool) (f : α → List β) (l : List α) :
    (l.filter p).flatMap f = l.flatMap fun a => if p a then f a else [] := by
  induction l with
  | nil => rfl
  | cons a l ih =>
    rw [filter_cons, flatMap_cons, ← ih]
    split <;> simp

/-! ## Occurrences -/

section Occurrences

variable {α β : Type*} {x : β} {front back before after : List β}

theorem occurrence_in_back (hx : x ∉ front) (h : front ++ back = before ++ x :: after) :
    ∃ middle, before = front ++ middle ∧ back = middle ++ x :: after := by
  rcases append_eq_append_iff.mp h with ⟨middle, hbefore, hback⟩ | ⟨middle, hfront, hback⟩
  · exact ⟨middle, hbefore, hback⟩
  · cases middle with
    | nil => exact ⟨[], by simp [hfront], by simpa using hback.symm⟩
    | cons y middle =>
      obtain ⟨rfl, -⟩ := cons.inj hback
      simp [hfront] at hx

theorem occurrence_in_front (hx : x ∉ back) (h : front ++ back = before ++ x :: after) :
    ∃ rest, front = before ++ x :: rest := by
  rcases append_eq_append_iff.mp h with ⟨middle, -, hback⟩ | ⟨middle, hfront, hback⟩
  · simp [hback] at hx
  · cases middle with
    | nil =>
      rw [nil_append] at hback
      simp [← hback] at hx
    | cons y middle =>
      obtain ⟨rfl, -⟩ := cons.inj hback
      exact ⟨middle, hfront⟩

theorem occurrence_in_block {f : α → List β} {l : List α} (h : l.flatMap f = before ++ x :: after) :
    ∃ a ∈ l, ∃ front back, f a = front ++ x :: back ∧ front ⊆ before := by
  induction l generalizing before with
  | nil => simp at h
  | cons a l ih =>
    rw [flatMap_cons] at h
    by_cases hx : x ∈ f a
    · rcases append_eq_append_iff.mp h with ⟨rest, hbefore, -⟩ | ⟨rest, hblock, hrest⟩
      · obtain ⟨front, back, hblock⟩ := append_of_mem hx
        refine ⟨a, mem_cons_self, front, back, hblock, fun y hy => ?_⟩
        simp [hbefore, hblock, hy]
      · cases rest with
        | nil =>
          obtain ⟨front, back, hblock'⟩ := append_of_mem hx
          refine ⟨a, mem_cons_self, front, back, hblock', fun y hy => ?_⟩
          rw [hblock', append_nil] at hblock
          simp [← hblock, hy]
        | cons y rest =>
          obtain ⟨rfl, -⟩ := cons.inj hrest
          exact ⟨a, mem_cons_self, before, rest, hblock, fun y hy => hy⟩
    · obtain ⟨middle, rfl, hrest⟩ := occurrence_in_back hx h
      obtain ⟨b, hb, front, back, hblock, hsub⟩ := ih hrest
      exact ⟨b, mem_cons_of_mem a hb, front, back, hblock, fun y hy => mem_append_right _ (hsub hy)⟩

end Occurrences

end HyperParallel.Foundation.ListOrder
