import HyperParallel.Foundation.ListOrder
import Mathlib.Algebra.BigOperators.Group.List.Lemmas
import Mathlib.Algebra.BigOperators.Ring.List
import Mathlib.Algebra.Order.BigOperators.Group.List
import Mathlib.Data.List.Sort
import Mathlib.Data.List.Triplewise
import Mathlib.Tactic.Linarith
import Mathlib.Tactic.Ring

/-!
# Orders told by a product of weights

The code of an element of a duplicate-free list is the product of the weights
of the larger elements before it.  Sorting the elements by code, smaller
elements first among equal codes, gives the list back exactly when no three of
its elements stand in the order middle, smallest, largest.
-/

namespace HyperParallel.Foundation.OrderCode

open Foundation.ListOrder List List

theorem prod_map_pos {α : Type*} {w : α → Nat} {l : List α} (hw : ∀ m ∈ l, 2 ≤ w m) :
    0 < (l.map w).prod := by
  refine Nat.pos_of_ne_zero (prod_ne_zero fun hzero => ?_)
  obtain ⟨m, hm, hmzero⟩ := mem_map.mp hzero
  have := hw m hm
  omega

/-! ## Codes -/

variable {α : Type*} [LinearOrder α] (w : α → Nat)

def code (order : List α) (m : α) : Nat :=
  (((order.takeWhile (· ≠ m)).filter (m < ·)).map w).prod

/-- No element stands before two others that it lies between. -/
def Recoverable (order : List α) : Prop :=
  order.Triplewise fun x a b => ¬(a < x ∧ x < b)

def CodeLT (order : List α) (a b : α) : Prop :=
  code w order a < code w order b ∨ code w order a = code w order b ∧ a < b

variable {w}

theorem code_split {p q : List α} {m : α} (h : (p ++ m :: q).Nodup) :
    code w (p ++ m :: q) m = ((p.filter (m < ·)).map w).prod := by
  have hm : m ∉ p := by
    have := (nodup_append.mp h).2.2
    exact fun hp => this m hp m (by simp) rfl
  have htake : (p ++ m :: q).takeWhile (· ≠ m) = p := by
    rw [takeWhile_append_of_pos]
    · simp
    · intro x hx
      have hne : x ≠ m := by
        rintro rfl
        exact hm hx
      simpa using hne
  rw [code, htake]

variable {order : List α}

theorem pairwise_of_code_le_one (hnodup : order.Nodup) (hw : ∀ m ∈ order, 0 < w m)
    (hcode : ∀ m ∈ order, code w order m ≤ 1) :
    order.Pairwise fun front back => back < front → w front = 1 := by
  rw [pairwise_iff_getElem]
  intro i j hi hj hij hlt
  have hsplit : order = order.take j ++ order[j] :: order.drop (j + 1) := by
    rw [cons_getElem_drop_succ, take_append_drop]
  have hfront : order[i] ∈ order.take j := mem_take_iff_getElem.mpr ⟨i, by omega, rfl⟩
  have hle := hcode order[j] (getElem_mem hj)
  generalize order[i] = front at hfront hlt ⊢
  generalize order[j] = back at hsplit hle hlt
  generalize order.take j = p at hsplit hfront
  generalize order.drop (j + 1) = q at hsplit
  subst hsplit
  rw [code_split hnodup] at hle
  have hmem : front ∈ p.filter (back < ·) := mem_filter.mpr ⟨hfront, by simpa using hlt⟩
  have hprod : 0 < ((p.filter (back < ·)).map w).prod := by
    refine Nat.pos_of_ne_zero (prod_ne_zero fun hzero => ?_)
    obtain ⟨m, hm, hmzero⟩ := mem_map.mp hzero
    exact absurd hmzero (hw m (by simp [(mem_filter.mp hm).1])).ne'
  have hdvd := Nat.le_of_dvd hprod (dvd_prod (mem_map_of_mem hmem))
  have hpos := hw front (by simp [hfront])
  omega

theorem code_pos (hw : ∀ m ∈ order, 2 ≤ w m) {m : α} : 0 < code w order m :=
  prod_map_pos fun k hk =>
    hw k ((List.takeWhile_sublist _).subset (List.mem_filter.mp hk).1)

/-- Going up past `x` has a step that passes it. -/
theorem exists_step {x a b : α} {l : List α} (h : [a, b] <+ l) (hx : x ∉ l)
    (ha : a < x) (hb : x < b) :
    ∃ p u v q, l = p ++ u :: v :: q ∧ u < x ∧ x < v := by
  induction l generalizing a with
  | nil => cases h
  | cons c l ih =>
    cases h with
    | cons _ h =>
      obtain ⟨p, u, v, q, rfl, hlt⟩ := ih h (fun hmem => hx (by simp [hmem])) ha
      exact ⟨c :: p, u, v, q, rfl, hlt⟩
    | cons_cons _ h =>
      have hbmem := singleton_sublist.mp h
      cases l with
      | nil => simp at hbmem
      | cons d l =>
        by_cases hd : x < d
        · exact ⟨[], c, d, l, rfl, ha, hd⟩
        · have hdx : d < x := lt_of_le_of_ne (not_lt.mp hd) fun heq => hx (by simp [heq])
          have hdb : [d, b] <+ d :: l := by
            rcases mem_cons.mp hbmem with rfl | hmem
            · exact absurd hb hd
            · exact (singleton_sublist.mpr hmem).cons_cons d
          obtain ⟨p, u, v, q, heq, hlt⟩ := ih hdb (fun hmem => hx (by simp [hmem])) hdx
          exact ⟨c :: p, u, v, q, by rw [heq]; rfl, hlt⟩

theorem recoverable_iff_split (order : List α) :
    Recoverable order ↔ ∀ p x s, order = p ++ x :: s → s.Pairwise fun a b => ¬(a < x ∧ x < b) := by
  constructor
  · rintro h p x s rfl
    exact (triplewise_cons.mp (triplewise_append.mp h).2.1).1
  · intro h
    induction order with
    | nil => exact .nil
    | cons x order ih =>
      refine .cons (h [] x order rfl) (ih fun p y s heq => ?_)
      exact h (x :: p) y s (by rw [heq]; rfl)

section

variable (hnodup : order.Nodup) (hw : ∀ m ∈ order, 2 ≤ w m)

include hnodup hw

theorem codeLT_of_recoverable (h : Recoverable order) : order.Pairwise (CodeLT w order) := by
  rw [pairwise_iff_forall_sublist]
  intro a b hab
  obtain ⟨p, q, r, heq⟩ := pair_split hab
  have hcodeA : code w order a = ((p.filter (a < ·)).map w).prod := by
    rw [heq]
    exact code_split (heq ▸ hnodup)
  have hcodeB : code w order b = (((p ++ a :: q).filter (b < ·)).map w).prod := by
    have hassoc : order = (p ++ a :: q) ++ b :: r := by simp [heq]
    rw [hassoc]
    exact code_split (hassoc ▸ hnodup)
  have hne : a ≠ b := by
    rintro rfl
    rw [heq, nodup_append, nodup_cons] at hnodup
    exact hnodup.2.1.1 (by simp)
  have hposB : 0 < code w order b := by
    rw [hcodeB]
    refine prod_map_pos fun m hm => hw m ?_
    rw [heq]
    have := (mem_filter.mp hm).1
    simp only [mem_append, mem_cons] at this ⊢
    tauto
  rcases lt_or_gt_of_ne hne with hlt | hgt
  · -- larger than `a` and before it means larger than `b`, by the missing pattern
    have hsub : p.filter (a < ·) <+ (p ++ a :: q).filter (b < ·) := by
      rw [filter_append]
      refine List.Sublist.trans ?_ (sublist_append_left _ _)
      have hsame : p.filter (a < ·) = (p.filter (a < ·)).filter (b < ·) := by
        refine (filter_eq_self.mpr fun k hk => ?_).symm
        obtain ⟨hkp, hka⟩ := mem_filter.mp hk
        obtain ⟨p₁, p₂, rfl⟩ := append_of_mem hkp
        have hpair := (recoverable_iff_split order).mp h p₁ k (p₂ ++ a :: (q ++ b :: r))
          (by simp [heq])
        have hsubAB : [a, b] <+ p₂ ++ a :: (q ++ b :: r) :=
          (List.Sublist.cons_cons a (by simp)).trans (sublist_append_right _ _)
        have hnot := hpair.forall_sublist hsubAB
        have hkb : k ≠ b := by
          rintro rfl
          rw [heq] at hnodup
          simp [nodup_append] at hnodup
        have hak : a < k := by simpa using hka
        rw [decide_eq_true_eq]
        exact lt_of_le_of_ne (not_lt.mp fun hkb' => hnot ⟨hak, hkb'⟩) hkb.symm
      rw [hsame, filter_filter]
      refine monotone_filter_right p fun k hk => ?_
      simp only [Bool.and_eq_true, decide_eq_true_eq] at hk ⊢
      exact hk.1
    have hdvd : code w order a ∣ code w order b := by
      rw [hcodeA, hcodeB]
      exact (hsub.map w).prod_dvd_prod
    rcases (Nat.le_of_dvd hposB hdvd).lt_or_eq with hcode | hcode
    · exact Or.inl hcode
    · exact Or.inr ⟨hcode, hlt⟩
  · -- `a` itself counts for `b`, with everything that counts for `a`
    have hsub : p.filter (a < ·) ++ [a] <+ (p ++ a :: q).filter (b < ·) := by
      rw [filter_append, filter_cons, if_pos (by simpa using hgt)]
      refine List.Sublist.append ?_ (by simp)
      exact monotone_filter_right p fun k hk => by
        simp only [decide_eq_true_eq] at hk ⊢
        exact hgt.trans hk
    have hdvd : code w order a * w a ∣ code w order b := by
      rw [hcodeA, hcodeB]
      simpa using (hsub.map w).prod_dvd_prod
    have hle := Nat.le_of_dvd hposB hdvd
    have hwa : 2 ≤ w a := hw a (by simp [heq])
    have hposA : 0 < code w order a := Nat.pos_of_dvd_of_pos (Dvd.intro _ rfl |>.trans hdvd) hposB
    left
    nlinarith

theorem recoverable_of_codeLT (h : order.Pairwise (CodeLT w order)) : Recoverable order := by
  rw [recoverable_iff_split]
  intro p x s heq
  rw [pairwise_iff_forall_sublist]
  rintro a b hab ⟨hax, hxb⟩
  have hxs : x ∉ s := by
    rw [heq] at hnodup
    exact (nodup_cons.mp (nodup_append.mp hnodup).2.1).1
  obtain ⟨s₁, u, v, s₂, rfl, hux, hxv⟩ := exists_step hab hxs hax hxb
  have hsplitU : order = (p ++ x :: s₁) ++ u :: (v :: s₂) := by simp [heq]
  have hsplitV : order = (p ++ x :: s₁ ++ [u]) ++ v :: s₂ := by simp [heq]
  have hcodeU : code w order u = (((p ++ x :: s₁).filter (u < ·)).map w).prod := by
    rw [hsplitU]
    exact code_split (hsplitU ▸ hnodup)
  have hcodeV : code w order v = (((p ++ x :: s₁).filter (v < ·)).map w).prod := by
    rw [hsplitV, code_split (hsplitV ▸ hnodup), filter_append _ [u]]
    simp [(hux.trans hxv).not_gt]
  have hle : code w order u ≤ code w order v := by
    have hsubUV : [u, v] <+ order := by
      rw [hsplitU]
      exact (List.Sublist.cons_cons u (by simp)).trans (sublist_append_right _ _)
    rcases h.forall_sublist hsubUV with hlt | ⟨hcode, -⟩
    · exact hlt.le
    · exact hcode.le
  -- `x` counts for `u` but not for `v`
  have hmono : ∀ l : List α, l.filter (v < ·) <+ l.filter (u < ·) := fun l =>
    monotone_filter_right l fun k hk => by
      simp only [decide_eq_true_eq] at hk ⊢
      exact (hux.trans hxv).trans hk
  have hdvd : w x * code w order v ∣ code w order u := by
    have hsub : (p.filter (v < ·)) ++ x :: (s₁.filter (v < ·)) <+
        (p ++ x :: s₁).filter (u < ·) := by
      rw [filter_append, filter_cons, if_pos (by simpa using hux)]
      exact (hmono p).append ((hmono s₁).cons_cons x)
    have hprod := (hsub.map w).prod_dvd_prod
    rw [hcodeU, hcodeV]
    refine (dvd_of_eq ?_).trans hprod
    rw [filter_append, filter_cons, if_neg (by simpa using hxv.not_gt)]
    simp only [map_append, map_cons, prod_append, prod_cons]
    ring
  have hposU : 0 < code w order u := by
    rw [hcodeU]
    refine prod_map_pos fun m hm => hw m ?_
    rw [hsplitU]
    exact mem_append_left _ (mem_filter.mp hm).1
  have hwx : 2 ≤ w x := hw x (by simp [heq])
  have hbig := Nat.le_of_dvd hposU hdvd
  nlinarith

theorem codeLT_iff_recoverable : order.Pairwise (CodeLT w order) ↔ Recoverable order :=
  ⟨recoverable_of_codeLT hnodup hw, codeLT_of_recoverable hnodup hw⟩

end

theorem codeLT_antisymm {a b : α} (hab : CodeLT w order a b) (hba : CodeLT w order b a) :
    a = b := by
  rcases hab with hab | ⟨hab, hlt⟩ <;> rcases hba with hba | ⟨hba, hgt⟩
  · omega
  · omega
  · omega
  · exact absurd hlt hgt.not_gt

section

variable {axes : List α} {key : α → Nat} (hnodup : order.Nodup) (hperm : axes ~ order)
  (hsorted : axes.Pairwise (· ≤ ·)) (hkey : ∀ m ∈ order, key m = code w order m)

include hnodup hperm hsorted hkey

theorem mergeSort_pairwise_codeLT :
    (axes.mergeSort fun a b => key a ≤ key b).Pairwise (CodeLT w order) := by
  have htrans : ∀ a b c : α, decide (key a ≤ key b) = true → decide (key b ≤ key c) = true →
      decide (key a ≤ key c) = true := fun a b c hab hbc => by
    simp only [decide_eq_true_eq] at *
    omega
  have htotal : ∀ a b : α, (decide (key a ≤ key b) || decide (key b ≤ key a)) = true :=
    fun a b => by
      simp only [Bool.or_eq_true, decide_eq_true_eq]
      omega
  have hsort := mergeSort_perm axes fun a b => decide (key a ≤ key b)
  have hnodupSort := (hsort.trans hperm).nodup_iff.mpr hnodup
  refine pairwise_of_forall_sublist fun {a b} hab => ?_
  have hmem : ∀ m ∈ [a, b], m ∈ axes := fun m hm => hsort.subset (hab.subset hm)
  have hle : key a ≤ key b := by
    simpa using (pairwise_mergeSort htrans htotal axes).forall_sublist hab
  rw [CodeLT, ← hkey a (hperm.subset (hmem a (by simp))),
    ← hkey b (hperm.subset (hmem b (by simp)))]
  rcases hle.lt_or_eq with hlt | heq
  · exact Or.inl hlt
  refine Or.inr ⟨heq, ?_⟩
  have hpos := idxOf_lt_of_pair hnodupSort hab
  by_contra hnot
  -- the sort would keep the smaller `b` before `a`
  have hne : a ≠ b := by
    rintro rfl
    exact lt_irrefl _ hpos
  have hba : [b, a] <+ axes := by
    refine (pair_sublist_or (hmem b (by simp)) (hmem a (by simp)) hne.symm).resolve_right ?_
    intro h
    exact hnot (lt_of_le_of_ne (hsorted.forall_sublist h) hne)
  have hle' : decide (key b ≤ key a) = true := by simp [heq]
  have hpos' := idxOf_lt_of_pair hnodupSort (pair_sublist_mergeSort htrans htotal hle' hba)
  omega

theorem mergeSort_eq_iff :
    axes.mergeSort (fun a b => key a ≤ key b) = order ↔ order.Pairwise (CodeLT w order) := by
  have hpair := mergeSort_pairwise_codeLT hnodup hperm hsorted hkey
  constructor
  · intro heq
    rwa [heq] at hpair
  · intro horder
    exact List.Perm.eq_of_pairwise (fun a b _ _ => codeLT_antisymm) hpair horder
      ((mergeSort_perm _ _).trans hperm)

end

end HyperParallel.Foundation.OrderCode
