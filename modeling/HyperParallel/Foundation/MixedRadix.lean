import Mathlib.Algebra.BigOperators.Fin
import Mathlib.Tactic.Ring

/-!
# Row-major mixed-radix numerals

A list of bases names a box of digit lists; the last digit changes fastest.
`digits` and `value` are inverse on the numbers below the product of the bases,
and the number of values with some digits fixed is the product of the bases of
the digits left free.
-/

namespace HyperParallel.Foundation.MixedRadix

open List

def digits : List Nat → Nat → List Nat
  | [], _ => []
  | base :: bases, n => n / bases.prod % base :: digits bases n

def value : List Nat → List Nat → Nat
  | _ :: bases, digit :: ds => digit * bases.prod + value bases ds
  | _, _ => 0

@[simp] theorem length_digits (bases : List Nat) (n : Nat) :
    (digits bases n).length = bases.length := by
  induction bases with
  | nil => rfl
  | cons base bases ih => simp [digits, ih]

variable {bases : List Nat}

theorem digits_lt (hpos : ∀ b ∈ bases, 0 < b) (n j : Nat) (hj : j < bases.length) :
    getElem (digits bases n) j (by simpa using hj) < bases[j] := by
  induction bases generalizing j with
  | nil => simp at hj
  | cons base bases ih =>
    cases j with
    | zero => exact Nat.mod_lt _ (hpos base (by simp))
    | succ j => exact ih (fun b hb => hpos b (by simp [hb])) j (by simpa using hj)

theorem digits_add_mul (bases : List Nat) (n k : Nat) :
    digits bases (n + bases.prod * k) = digits bases n := by
  induction bases generalizing k with
  | nil => rfl
  | cons base bases ih =>
    have hshift : n + (base :: bases).prod * k = n + bases.prod * (base * k) := by
      simp only [prod_cons]
      ring
    rw [hshift, digits, digits, ih]
    rcases Nat.eq_zero_or_pos bases.prod with hzero | hpos
    · simp [hzero]
    · rw [Nat.add_mul_div_left _ _ hpos, Nat.add_mul_mod_self_left]

theorem digits_mod (bases : List Nat) (n : Nat) :
    digits bases (n % bases.prod) = digits bases n := by
  conv_rhs => rw [← Nat.mod_add_div n bases.prod]
  rw [digits_add_mul]

theorem getElem?_digits (n : Nat) {j : Nat} (hj : j < bases.length) :
    (digits bases n)[j]? = some (n / (bases.drop (j + 1)).prod % bases[j]) := by
  induction bases generalizing j with
  | nil => simp at hj
  | cons base bases ih =>
    cases j with
    | zero => rfl
    | succ j => exact ih (by simpa using hj)

theorem digits_append (front back : List Nat) (n : Nat) :
    digits (front ++ back) n = digits front (n / back.prod) ++ digits back n := by
  induction front with
  | nil => rfl
  | cons base front ih =>
    rw [cons_append, digits, digits, ih, prod_append, Nat.div_div_eq_div_mul,
      Nat.mul_comm front.prod]
    rfl

theorem value_set {ds : List Nat} (hlen : ds.length = bases.length) {j : Nat} (hj : j < ds.length)
    (digit : Nat) :
    value bases (ds.set j digit) + ds[j] * (bases.drop (j + 1)).prod =
      value bases ds + digit * (bases.drop (j + 1)).prod := by
  induction bases generalizing ds j with
  | nil => exact absurd hj (by rw [hlen]; exact Nat.not_lt_zero j)
  | cons base bases ih =>
    cases ds with
    | nil => simp at hj
    | cons d ds =>
      cases j with
      | zero =>
        simp only [set_cons_zero, value, getElem_cons_zero, drop_succ_cons, drop_zero]
        omega
      | succ j =>
        have htail := @ih ds (by simpa using hlen) j (by simpa using hj)
        simp only [set_cons_succ, value, getElem_cons_succ, drop_succ_cons]
        omega

theorem value_lt {ds : List Nat} (h : Forall₂ (· < ·) ds bases) : value bases ds < bases.prod := by
  induction h with
  | nil => simp [value]
  | @cons digit base ds bases hlt _ ih =>
    have hmul : (digit + 1) * bases.prod ≤ base * bases.prod := Nat.mul_le_mul_right _ hlt
    rw [Nat.add_mul] at hmul
    simp only [value, prod_cons]
    omega

theorem digits_value {ds : List Nat} (h : Forall₂ (· < ·) ds bases) :
    digits bases (value bases ds) = ds := by
  induction h with
  | nil => rfl
  | @cons digit base ds bases hlt htail ih =>
    have hbelow := value_lt htail
    have hpos : 0 < bases.prod := Nat.lt_of_le_of_lt (Nat.zero_le _) hbelow
    have hcomm : digit * bases.prod + value bases ds =
        value bases ds + bases.prod * digit := by ring
    rw [value, hcomm, digits, digits_add_mul, ih, Nat.add_mul_div_left _ _ hpos,
      Nat.div_eq_of_lt hbelow, Nat.zero_add, Nat.mod_eq_of_lt hlt]

theorem value_digits {n : Nat} (h : n < bases.prod) : value bases (digits bases n) = n := by
  suffices hmod : ∀ m, value bases (digits bases m) = m % bases.prod by
    rw [hmod, Nat.mod_eq_of_lt h]
  clear h
  intro m
  induction bases with
  | nil => simp [value, Nat.mod_one]
  | cons base bases ih =>
    rw [digits, value, ih, prod_cons, Nat.mul_comm base, Nat.mod_mul]
    ring

theorem digits_injOn {m n : Nat} (hm : m < bases.prod) (hn : n < bases.prod)
    (h : digits bases m = digits bases n) : m = n := by
  rw [← value_digits hm, ← value_digits hn, h]

theorem forall₂_digits_lt (hpos : ∀ b ∈ bases, 0 < b) (n : Nat) :
    Forall₂ (· < ·) (digits bases n) bases := by
  induction bases with
  | nil => exact .nil
  | cons base bases ih =>
    exact .cons (Nat.mod_lt _ (hpos base (by simp))) (ih fun b hb => hpos b (by simp [hb]))

theorem value_append {front back ds es : List Nat} (hlen : ds.length = front.length) :
    value (front ++ back) (ds ++ es) = value front ds * back.prod + value back es := by
  induction front generalizing ds with
  | nil =>
    obtain rfl := eq_nil_of_length_eq_zero hlen
    simp [value]
  | cons base front ih =>
    cases ds with
    | nil => cases hlen
    | cons d ds =>
      rw [cons_append, cons_append, value, ih (by simpa using hlen), value, prod_append]
      ring

section Ones

variable {α : Type*} (size digit : α → Nat)

theorem prod_filter_ones (axes : List α) :
    ((axes.filter fun axis => size axis ≠ 1).map size).prod = (axes.map size).prod := by
  induction axes with
  | nil => rfl
  | cons axis axes ih =>
    by_cases hone : size axis = 1
    · rw [filter_cons_of_neg (by simp [hone]), ih, map_cons, prod_cons, hone, Nat.one_mul]
    · rw [filter_cons_of_pos (by simp [hone]), map_cons, prod_cons, ih, map_cons, prod_cons]

theorem value_filter_ones {axes : List α} (hlt : ∀ axis ∈ axes, digit axis < size axis) :
    value ((axes.filter fun axis => size axis ≠ 1).map size)
        ((axes.filter fun axis => size axis ≠ 1).map digit) =
      value (axes.map size) (axes.map digit) := by
  induction axes with
  | nil => rfl
  | cons axis axes ih =>
    have hrest := ih fun other hother => hlt other (mem_cons_of_mem axis hother)
    by_cases hone : size axis = 1
    · have hzero : digit axis = 0 := by
        have hbelow := hlt axis mem_cons_self
        omega
      rw [filter_cons_of_neg (by simp [hone]), hrest, map_cons, map_cons,
        value, hzero, Nat.zero_mul, Nat.zero_add]
    · rw [filter_cons_of_pos (by simp [hone]), map_cons, map_cons, map_cons,
        map_cons, value, value, hrest, prod_filter_ones]

end Ones

/-- The digit choices that agree with `fixed` where it is defined. -/
def choices (bases : List Nat) (fixed : Nat → Option Nat) :
    Finset (Fin bases.length → Nat) :=
  Fintype.piFinset fun j =>
    match fixed j with
    | some digit => {digit}
    | none => Finset.range bases[j]

theorem mem_choices {fixed : Nat → Option Nat}
    (hfixed : ∀ j (hj : j < bases.length), ∀ digit, fixed j = some digit →
      digit < bases[j]) (c : Fin bases.length → Nat) :
    c ∈ choices bases fixed ↔
      (∀ j, c j < bases[j]) ∧ ∀ j digit, fixed j.val = some digit → c j = digit := by
  rw [choices, Fintype.mem_piFinset]
  constructor
  · intro h
    refine ⟨fun j => ?_, fun j digit hj => ?_⟩
    · have hmem := h j
      cases hcase : fixed j.val with
      | none => simpa [hcase] using hmem
      | some digit =>
        have heq : c j = digit := by simpa [hcase] using hmem
        exact heq ▸ hfixed j.val j.isLt digit hcase
    · simpa [hj] using h j
  · rintro ⟨hlt, heq⟩ j
    cases hcase : fixed j.val with
    | none => simpa [hcase] using hlt j
    | some digit => simpa [hcase] using heq j digit hcase

theorem card_choices (bases : List Nat) (fixed : Nat → Option Nat) :
    (choices bases fixed).card =
      ∏ j : Fin bases.length, if (fixed j).isSome then 1 else bases[j] := by
  rw [choices, Fintype.card_piFinset]
  refine Finset.prod_congr rfl fun j _ => ?_
  cases fixed j.val <;> simp

/--
Fixing some digits leaves as many numerals as there are choices for the others.
-/
theorem card_filter_digits (hpos : ∀ b ∈ bases, 0 < b) (fixed : Nat → Option Nat)
    (hfixed : ∀ j (hj : j < bases.length), ∀ digit, fixed j = some digit →
      digit < bases[j]) (p : List Nat → Prop) [DecidablePred p]
    (hp : ∀ ds, Forall₂ (· < ·) ds bases →
      (p ds ↔ ∀ j digit, fixed j = some digit → j < bases.length → ds[j]? = some digit)) :
    ((Finset.range bases.prod).filter fun n => p (digits bases n)).card =
      ∏ j : Fin bases.length, if (fixed j).isSome then 1 else bases[j] := by
  rw [← card_choices]
  refine Finset.card_nbij'
    (fun n j => getElem (digits bases n) j.val (by simp))
    (fun c => value bases (ofFn c)) ?_ ?_ ?_ ?_
  · intro n hn
    have hmem := Finset.mem_filter.mp (Finset.mem_coe.mp hn)
    refine Finset.mem_coe.mpr ((mem_choices hfixed _).mpr ⟨fun j => ?_, ?_⟩)
    · exact digits_lt hpos n j j.isLt
    · intro j digit hj
      have hget := (hp _ (forall₂_digits_lt hpos n)).mp hmem.2 j digit hj j.isLt
      rw [getElem?_eq_getElem (by simp)] at hget
      exact Option.some.inj hget
  · intro c hc
    obtain ⟨hlt, heq⟩ := (mem_choices hfixed c).mp (Finset.mem_coe.mp hc)
    have hbelow : Forall₂ (· < ·) (ofFn c) bases := by
      rw [forall₂_iff_get]
      refine ⟨by simp, fun j h₁ h₂ => ?_⟩
      simpa using hlt ⟨j, h₂⟩
    refine Finset.mem_coe.mpr (Finset.mem_filter.mpr ⟨Finset.mem_range.mpr (value_lt hbelow), ?_⟩)
    rw [digits_value hbelow, hp _ hbelow]
    intro j digit hj hlen
    rw [getElem?_eq_getElem (by simpa using hlen)]
    simpa using heq ⟨j, hlen⟩ digit hj
  · intro n hn
    have hmem := Finset.mem_filter.mp (Finset.mem_coe.mp hn)
    have hofFn : ofFn (fun j : Fin bases.length =>
        getElem (digits bases n) j.val (by simp)) = digits bases n :=
      ext_getElem (by simp) (by simp)
    change value bases (ofFn _) = n
    rw [hofFn, value_digits (Finset.mem_range.mp hmem.1)]
  · intro c hc
    obtain ⟨hlt, -⟩ := (mem_choices hfixed c).mp (Finset.mem_coe.mp hc)
    have hbelow : Forall₂ (· < ·) (ofFn c) bases := by
      rw [forall₂_iff_get]
      refine ⟨by simp, fun j h₁ h₂ => ?_⟩
      simpa using hlt ⟨j, h₂⟩
    funext j
    simp [digits_value hbelow]

/-- Reading the digits at `dims` as `ds` is fixing each of those digits. -/
theorem map_getD_eq_iff {dims ds : List Nat} (hnodup : dims.Nodup)
    (hlt : ∀ j ∈ dims, j < bases.length) (hlen : ds.length = dims.length) {digits : List Nat}
    (hdigits : digits.length = bases.length) :
    dims.map (digits.getD · 0) = ds ↔
      ∀ j digit, ds[dims.idxOf j]? = some digit → j < bases.length → digits[j]? = some digit := by
  constructor
  · rintro rfl j digit hj hbound
    obtain ⟨hidx, hget⟩ := List.getElem?_eq_some_iff.mp hj
    have hmem : dims.idxOf j < dims.length := by simpa using hidx
    rw [getElem_map, getElem_idxOf hmem, getD_eq_getElem?_getD,
      getElem?_eq_getElem (by omega)] at hget
    rw [getElem?_eq_getElem (by omega)]
    exact congrArg some hget
  · intro h
    refine ext_getElem (by simp [hlen]) fun i hi hi' => ?_
    have hi'' : i < dims.length := by simpa using hi
    have hget := h dims[i] ds[i] (by
      rw [hnodup.idxOf_getElem i hi'', getElem?_eq_getElem hi'])
      (hlt _ (getElem_mem hi''))
    simp [hget]

/-- Fixing the digits at `dims` divides the number of numerals by their bases. -/
theorem card_digits_at (hpos : ∀ b ∈ bases, 0 < b) {dims ds : List Nat} (hnodup : dims.Nodup)
    (hlt : ∀ j ∈ dims, j < bases.length)
    (hds : Forall₂ (fun digit j => digit < bases.getD j 0) ds dims) :
    ((Finset.range bases.prod).filter fun n =>
        dims.map ((digits bases n).getD · 0) = ds).card *
      (dims.map (bases.getD · 0)).prod = bases.prod := by
  have hlen := hds.length_eq
  have hsome : ∀ j, (ds[dims.idxOf j]?).isSome ↔ j ∈ dims := by
    intro j
    rw [Option.isSome_iff_exists, ← idxOf_lt_length_iff, ← hlen]
    simp [getElem?_eq_some_iff]
  rw [card_filter_digits hpos (fun j => ds[dims.idxOf j]?) ?_ _
    fun digits hdigits => map_getD_eq_iff hnodup hlt hlen hdigits.length_eq]
  · have hbases : bases.prod = ∏ j ∈ Finset.range bases.length, bases.getD j 0 := by
      rw [Finset.prod_range]
      simp [getD_eq_getElem?_getD, ← prod_ofFn]
    have hdims : (dims.map (bases.getD · 0)).prod =
        ∏ j ∈ Finset.range bases.length, if j ∈ dims then bases.getD j 0 else 1 := by
      rw [← prod_toFinset _ hnodup, ← Finset.prod_filter]
      refine Finset.prod_congr ?_ fun _ _ => rfl
      ext j
      simpa using fun hj => hlt j hj
    have hfree : (∏ j : Fin bases.length,
          if (ds[dims.idxOf j.val]?).isSome then 1 else bases[j]) =
        ∏ j ∈ Finset.range bases.length, if j ∈ dims then 1 else bases.getD j 0 := by
      rw [Finset.prod_range]
      refine Finset.prod_congr rfl fun j _ => ?_
      simp [hsome, getD_eq_getElem?_getD]
    rw [hfree, hdims, hbases, ← Finset.prod_mul_distrib]
    refine Finset.prod_congr rfl fun j _ => ?_
    split <;> simp
  · intro j hj digit hdigit
    obtain ⟨hidx, rfl⟩ := List.getElem?_eq_some_iff.mp hdigit
    have hmem : dims.idxOf j < dims.length := by omega
    have hbelow := hds.get hidx hmem
    simpa [getElem_idxOf hmem, getD_eq_getElem?_getD, hj] using hbelow

end HyperParallel.Foundation.MixedRadix
