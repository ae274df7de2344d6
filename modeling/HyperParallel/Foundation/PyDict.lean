import Mathlib.Data.List.Induction
import Mathlib.Data.List.Nodup

/-!
# Insertion-ordered dictionaries

A dictionary is its list of entries in the order their keys first came up, with
no key twice.  Assigning to a key that is there changes its value in place;
assigning to a new key appends it.
-/

namespace HyperParallel.Foundation

open List

variable {κ ν : Type*}

structure PyDict (κ ν : Type*) where
  entries : List (κ × ν)
  nodup : (entries.map Prod.fst).Nodup

namespace PyDict

def keys (d : PyDict κ ν) : List κ := d.entries.map Prod.fst

def values (d : PyDict κ ν) : List ν := d.entries.map Prod.snd

def empty : PyDict κ ν := ⟨[], List.nodup_nil⟩

@[simp] theorem keys_empty : (empty : PyDict κ ν).keys = [] := rfl

@[simp] theorem values_empty : (empty : PyDict κ ν).values = [] := rfl

variable (d : PyDict κ ν)

theorem keys_nodup : d.keys.Nodup := d.nodup

theorem ext_entries {d e : PyDict κ ν} (h : d.entries = e.entries) : d = e := by
  cases d
  cases e
  simp_all

variable [DecidableEq κ]

instance [DecidableEq ν] : DecidableEq (PyDict κ ν) := fun left right =>
  decidable_of_iff (left.entries = right.entries) (by cases left; cases right; simp)

def get? (d : PyDict κ ν) (k : κ) : Option ν := d.entries.lookup k

def contains (d : PyDict κ ν) (k : κ) : Bool := (d.get? k).isSome

def setEntry (k : κ) (v : ν) : List (κ × ν) → List (κ × ν)
  | [] => [(k, v)]
  | entry :: rest => if entry.1 = k then (entry.1, v) :: rest else entry :: setEntry k v rest

theorem setEntry_setEntry (k : κ) (v : ν) (entries : List (κ × ν)) :
    setEntry k v (setEntry k v entries) = setEntry k v entries := by
  induction entries with
  | nil => simp [setEntry]
  | cons entry rest ih =>
    by_cases hk : entry.1 = k
    · simp [setEntry, hk]
    · simp [setEntry, hk, ih]

variable {k : κ} {entries : List (κ × ν)} {v : ν}

theorem setEntry_of_notMem (h : k ∉ entries.map Prod.fst) :
    setEntry k v entries = entries ++ [(k, v)] := by
  induction entries with
  | nil => rfl
  | cons entry rest ih =>
    simp only [map_cons, mem_cons, not_or] at h
    rw [setEntry, if_neg (Ne.symm h.1), ih h.2, cons_append]

theorem map_fst_setEntry_of_mem (h : k ∈ entries.map Prod.fst) :
    (setEntry k v entries).map Prod.fst = entries.map Prod.fst := by
  induction entries with
  | nil => simp at h
  | cons entry rest ih =>
    rw [setEntry]
    split
    · rfl
    · rename_i hne
      have hrest : k ∈ rest.map Prod.fst := by
        rcases mem_cons.mp h with heq | hmem
        · exact absurd heq.symm hne
        · exact hmem
      rw [map_cons, ih hrest, map_cons]

theorem map_fst_setEntry (k : κ) (v : ν) (entries : List (κ × ν)) :
    (setEntry k v entries).map Prod.fst =
      if k ∈ entries.map Prod.fst then entries.map Prod.fst else entries.map Prod.fst ++ [k] := by
  split
  · rename_i h
    exact map_fst_setEntry_of_mem h
  · rename_i h
    rw [setEntry_of_notMem h, map_append]
    rfl

theorem lookup_setEntry (k : κ) (v : ν) (entries : List (κ × ν)) (k' : κ) :
    (setEntry k v entries).lookup k' = if k' = k then some v else entries.lookup k' := by
  induction entries with
  | nil =>
    by_cases hk : k' = k
    · simp [setEntry, hk]
    · have hfalse : (k' == k) = false := by simpa using hk
      simp [setEntry, lookup_cons, hk, hfalse]
  | cons entry rest ih =>
    obtain ⟨k₀, v₀⟩ := entry
    rw [setEntry]
    split
    · rename_i heq
      obtain rfl : k₀ = k := heq
      rw [lookup_cons, lookup_cons]
      by_cases hk : k' = k₀
      · simp [hk]
      · have hfalse : (k' == k₀) = false := by simpa using hk
        rw [hfalse, if_neg hk]
    · rename_i hne
      rw [lookup_cons, lookup_cons, ih]
      by_cases hk : k' = k
      · have hfalse : (k' == k₀) = false := by simpa [hk] using Ne.symm hne
        rw [hfalse, if_pos hk]
      · rw [if_neg hk, if_neg hk]

/-- `d[k] = v`. -/
def set (d : PyDict κ ν) (k : κ) (v : ν) : PyDict κ ν where
  entries := setEntry k v d.entries
  nodup := by
    rw [map_fst_setEntry]
    split
    · exact d.nodup
    · rename_i h
      exact nodup_append.mpr ⟨d.nodup, nodup_singleton k, by
        rintro a ha b hb rfl
        exact h (mem_singleton.mp hb ▸ ha)⟩

/-- `d.update(other)`. -/
def update (d other : PyDict κ ν) : PyDict κ ν :=
  other.entries.foldl (fun d entry => d.set entry.1 entry.2) d

@[simp] theorem get?_empty (k : κ) : (empty : PyDict κ ν).get? k = none := rfl

theorem get?_set (k : κ) (v : ν) (k' : κ) :
    (d.set k v).get? k' = if k' = k then some v else d.get? k' :=
  lookup_setEntry k v d.entries k'

@[simp] theorem get?_set_self (k : κ) (v : ν) : (d.set k v).get? k = some v := by
  rw [get?_set, if_pos rfl]

theorem get?_set_of_ne {k' : κ} (v : ν) (h : k' ≠ k) : (d.set k v).get? k' = d.get? k' := by
  rw [get?_set, if_neg h]

theorem keys_set (k : κ) (v : ν) :
    (d.set k v).keys = if k ∈ d.keys then d.keys else d.keys ++ [k] :=
  map_fst_setEntry k v d.entries

theorem entries_set_of_notMem (v : ν) (h : k ∉ d.keys) :
    (d.set k v).entries = d.entries ++ [(k, v)] :=
  setEntry_of_notMem h

theorem mem_keys_set (k : κ) (v : ν) (k' : κ) : k' ∈ (d.set k v).keys ↔ k' = k ∨ k' ∈ d.keys := by
  rw [keys_set]
  split
  · rename_i h
    constructor
    · exact Or.inr
    · rintro (rfl | hmem)
      · exact h
      · exact hmem
  · rw [mem_append, mem_singleton, or_comm]

theorem mem_entries_iff : (k, v) ∈ d.entries ↔ d.get? k = some v := by
  obtain ⟨entries, hnodup⟩ := d
  simp only [get?]
  induction entries with
  | nil => simp
  | cons entry rest ih =>
    obtain ⟨k₀, v₀⟩ := entry
    obtain ⟨hhead, htail⟩ := nodup_cons.mp hnodup
    rw [mem_cons, lookup_cons, ih htail]
    by_cases hk : k = k₀
    · have hnone : rest.lookup k₀ = none :=
        lookup_eq_none_iff.mpr fun p hp => by
          have hne : k₀ ≠ p.1 := by
            intro heq
            apply hhead
            exact mem_map.mpr ⟨p, hp, heq.symm⟩
          simpa using hne
      simp [hk, hnone, eq_comm]
    · have hfalse : (k == k₀) = false := by simpa using hk
      simp [hfalse, hk]

theorem mem_keys_iff : k ∈ d.keys ↔ ∃ v, d.get? k = some v := by
  simp only [keys, mem_map, Prod.exists, exists_and_right, exists_eq_right, mem_entries_iff]

theorem get?_eq_none_iff : d.get? k = none ↔ k ∉ d.keys := by
  rw [mem_keys_iff, Option.eq_none_iff_forall_ne_some, not_exists]

theorem mem_values_iff : v ∈ d.values ↔ ∃ k, d.get? k = some v := by
  simp only [values, mem_map, Prod.exists, exists_eq_right, mem_entries_iff]

/-! ### Deleting keys -/

/-- `del d[k]`, which leaves a dictionary without the key as it is. -/
def erase (d : PyDict κ ν) (k : κ) : PyDict κ ν where
  entries := d.entries.filter fun entry => entry.1 ≠ k
  nodup := List.Nodup.sublist (List.Sublist.map _ List.filter_sublist) d.nodup

theorem keys_erase (k : κ) : (d.erase k).keys = d.keys.filter (· ≠ k) := by
  simp [keys, erase, filter_map, Function.comp_def]

theorem mem_values_of_mem_erase (h : v ∈ (d.erase k).values) :
    v ∈ d.values :=
  (List.filter_sublist.map _).subset h

theorem get?_erase (k k' : κ) : (d.erase k).get? k' = if k' = k then none else d.get? k' := by
  ext v
  rw [← mem_entries_iff]
  simp only [erase, mem_filter, mem_entries_iff, decide_eq_true_eq]
  split
  · rename_i heq
    simp [heq]
  · rename_i hne
    simp [hne]

theorem entries_foldl_erase (ks : List κ) :
    (ks.foldl erase d).entries = d.entries.filter fun entry => entry.1 ∉ ks := by
  induction ks generalizing d with
  | nil => simp
  | cons k ks ih =>
    rw [foldl_cons, ih]
    simp only [erase, filter_filter, mem_cons, not_or]
    apply filter_congr
    intro entry _
    simp [Bool.and_comm]

theorem values_perm_erase (h : d.get? k = some v) : d.values.Perm (v :: (d.erase k).values) := by
  have hmem := d.mem_entries_iff.mpr h
  obtain ⟨front, back, heq⟩ := append_of_mem hmem
  have hnodup := d.nodup
  rw [heq, map_append, map_cons] at hnodup
  have hkept : ∀ entry ∈ front ++ back, entry.1 ≠ k := by
    rintro entry hentry rfl
    have hdisjoint := nodup_middle.mp hnodup
    apply (nodup_cons.mp hdisjoint).1
    rw [← map_append]
    exact mem_map.mpr ⟨entry, hentry, rfl⟩
  have hfilter : d.entries.filter (fun entry => entry.1 ≠ k) = front ++ back := by
    rw [heq, filter_append, filter_cons_of_neg (by simp), ← filter_append]
    exact filter_eq_self.mpr fun entry hentry => by simpa using hkept entry hentry
  have hvalues : d.values = front.map Prod.snd ++ v :: back.map Prod.snd := by
    rw [values, heq, map_append, map_cons]
  have hentries : (d.erase k).entries = front ++ back := hfilter
  have herased : (d.erase k).values = front.map Prod.snd ++ back.map Prod.snd := by
    rw [values, hentries, map_append]
  rw [hvalues, herased]
  exact perm_middle

theorem values_set_of_notMem (v : ν) (h : k ∉ d.keys) : (d.set k v).values = d.values ++ [v] := by
  simp [values, entries_set_of_notMem d v h]

theorem get?_foldl_set {μ : Type*} (f : μ → ν) {entries : List (κ × μ)}
    (hnodup : (entries.map Prod.fst).Nodup) (d : PyDict κ ν) (k : κ) :
    (entries.foldl (fun d entry => d.set entry.1 (f entry.2)) d).get? k =
      match entries.lookup k with
      | some v => some (f v)
      | none => d.get? k := by
  induction entries generalizing d with
  | nil => rfl
  | cons entry rest ih =>
    obtain ⟨k₀, v₀⟩ := entry
    obtain ⟨hhead, htail⟩ := nodup_cons.mp hnodup
    rw [foldl_cons, ih htail, lookup_cons, get?_set]
    by_cases hk : k = k₀
    · subst hk
      have hnone : rest.lookup k = none :=
        lookup_eq_none_iff.mpr fun p hp => by
          have hne : k ≠ p.1 := by
            intro heq
            apply hhead
            exact mem_map.mpr ⟨p, hp, heq.symm⟩
          simpa using hne
      simp [hnone]
    · have hfalse : (k == k₀) = false := by simpa using hk
      rw [hfalse, if_neg hk]

theorem get?_update (d other : PyDict κ ν) (k : κ) :
    (d.update other).get? k =
      match other.get? k with
      | some v => some v
      | none => d.get? k :=
  get?_foldl_set id other.nodup d k

/-! ### Mapping values -/

/-- `{k: f(k, v) for k, v in d.items()}`. -/
def mapWithKey {μ : Type*} (d : PyDict κ ν) (f : κ → ν → μ) : PyDict κ μ where
  entries := d.entries.map fun entry => (entry.1, f entry.1 entry.2)
  nodup := by
    rw [map_map]
    exact d.nodup

theorem get?_mapWithKey {μ : Type*} (d : PyDict κ ν) (f : κ → ν → μ) (k : κ) :
    (d.mapWithKey f).get? k = (d.get? k).map (f k) := by
  change (d.entries.map fun entry => (entry.1, f entry.1 entry.2)).lookup k =
    (d.entries.lookup k).map (f k)
  induction d.entries with
  | nil => rfl
  | cons entry rest ih =>
    rw [map_cons, lookup_cons, lookup_cons, ih]
    cases hk : k == entry.1
    · rfl
    · obtain rfl : k = entry.1 := by simpa using hk
      rfl

/-! ## Grouping -/

/-- `d.setdefault(key, []).append(value)`. -/
def appendTo (d : PyDict κ (List ν)) (k : κ) (v : ν) : PyDict κ (List ν) :=
  d.set k ((d.get? k).getD [] ++ [v])

/-- The values of each key, in the order they come in. -/
def group (pairs : List (κ × ν)) : PyDict κ (List ν) :=
  pairs.foldl (fun d pair => d.appendTo pair.1 pair.2) .empty

theorem setEntry_flatten_perm (k : κ) (group : List ν) (entries : List (κ × List ν)) :
    (((setEntry k group entries).map Prod.snd).flatten ++ (entries.lookup k).getD []).Perm
      ((entries.map Prod.snd).flatten ++ group) := by
  induction entries with
  | nil => simp [setEntry]
  | cons entry rest ih =>
    obtain ⟨k₀, old⟩ := entry
    rw [setEntry]
    split
    · rename_i heq
      obtain rfl : k₀ = k := heq
      simp only [map_cons, flatten_cons, lookup_cons, beq_self_eq_true, Option.getD_some]
      exact perm_append_comm.trans ((perm_append_comm.append_left old).trans (by simp))
    · rename_i hne
      have hfalse : (k == k₀) = false := by simpa using Ne.symm hne
      simp only [lookup_cons, hfalse, map_cons, flatten_cons, append_assoc]
      exact ih.append_left old

theorem setEntry_append_perm (k : κ) (v : ν) (entries : List (κ × List ν)) :
    ((setEntry k ((entries.lookup k).getD [] ++ [v]) entries).map Prod.snd).flatten.Perm
      ((entries.map Prod.snd).flatten ++ [v]) := by
  have hset := setEntry_flatten_perm k ((entries.lookup k).getD [] ++ [v]) entries
  refine (perm_append_right_iff _).mp (hset.trans ?_)
  rw [append_assoc]
  exact perm_append_comm.append_left _

theorem group_flatten_perm (pairs : List (κ × ν)) :
    ((group pairs).values.flatten).Perm (pairs.map Prod.snd) := by
  induction pairs using reverseRecOn with
  | nil => exact List.Perm.refl _
  | append_singleton pairs pair ih =>
    have hstep : group (pairs ++ [pair]) = (group pairs).appendTo pair.1 pair.2 := by simp [group]
    rw [hstep, map_append]
    exact (setEntry_append_perm _ _ _).trans (ih.append_right _)

theorem get?_group (pairs : List (κ × ν)) (k : κ) :
    (group pairs).get? k =
      if pairs.filter (fun pair => pair.1 = k) = [] then none
      else some ((pairs.filter fun pair => pair.1 = k).map Prod.snd) := by
  induction pairs using reverseRecOn with
  | nil => rfl
  | append_singleton pairs pair ih =>
    have hstep : group (pairs ++ [pair]) = (group pairs).appendTo pair.1 pair.2 := by simp [group]
    rw [hstep, appendTo, get?_set, filter_append]
    by_cases hk : k = pair.1
    · subst hk
      rw [if_pos rfl, ih, filter_cons_of_pos (by simp)]
      split
      · rename_i hnone
        simp [hnone]
      · simp
    · rw [if_neg hk, ih, filter_cons_of_neg (by simpa using Ne.symm hk), filter_nil, append_nil]

theorem mem_group {pairs : List (κ × ν)} {values : List ν}
    (h : (group pairs).get? k = some values) :
    values ≠ [] ∧ ∀ v ∈ values, (k, v) ∈ pairs := by
  induction pairs using reverseRecOn generalizing values with
  | nil => cases h
  | append_singleton pairs pair ih =>
    have hstep : group (pairs ++ [pair]) = (group pairs).appendTo pair.1 pair.2 := by simp [group]
    rw [hstep, appendTo, get?_set] at h
    split at h
    · rename_i heq
      obtain rfl : k = pair.1 := heq
      cases h
      refine ⟨by simp, fun v hv => ?_⟩
      rcases mem_append.mp hv with hold | hnew
      · cases hget : (group pairs).get? pair.1 with
        | none => simp [hget] at hold
        | some values =>
          rw [hget] at hold
          exact mem_append_left _ ((ih hget).2 v hold)
      · obtain rfl := mem_singleton.mp hnew
        simp
    · obtain ⟨hne, hmem⟩ := ih h
      exact ⟨hne, fun v hv => mem_append_left _ (hmem v hv)⟩

/-! ## Lists of values -/

theorem setEntry_lookup (h : entries.lookup k = some v) : setEntry k v entries = entries := by
  induction entries with
  | nil => simp at h
  | cons entry rest ih =>
    obtain ⟨k₀, v₀⟩ := entry
    by_cases hk : k₀ = k
    · simp_all [setEntry]
    · have hne : (k == k₀) = false := by simpa using Ne.symm hk
      simp only [lookup_cons, hne] at h
      simp [setEntry, hk, ih h]

theorem set_get?_self (h : d.get? k = some v) : d.set k v = d := by
  apply ext_entries
  exact setEntry_lookup h

def listAt (d : PyDict κ (List ν)) (k : κ) : List ν := (d.get? k).getD []

@[simp] theorem listAt_empty (k : κ) : (empty : PyDict κ (List ν)).listAt k = [] := rfl

theorem listAt_set (d : PyDict κ (List ν)) (k : κ) (group : List ν) (k' : κ) :
    (d.set k group).listAt k' = if k' = k then group else d.listAt k' := by
  rw [listAt, get?_set]
  split <;> rfl

theorem listAt_appendTo (d : PyDict κ (List ν)) (k : κ) (v : ν) (k' : κ) :
    (d.appendTo k v).listAt k' = if k' = k then d.listAt k ++ [v] else d.listAt k' :=
  listAt_set d k _ k'

theorem listAt_of_get? {d : PyDict κ (List ν)} {group : List ν} (h : d.get? k = some group) :
    d.listAt k = group := by
  simp [listAt, h]

theorem mem_flatten_values {d : PyDict κ (List ν)} :
    v ∈ d.values.flatten ↔ ∃ k, v ∈ d.listAt k := by
  simp only [mem_flatten, mem_values_iff]
  constructor
  · rintro ⟨group, ⟨k, hk⟩, hv⟩
    exact ⟨k, by rwa [listAt_of_get? hk]⟩
  · rintro ⟨k, hv⟩
    cases hk : d.get? k with
    | none => simp [listAt, hk] at hv
    | some group => exact ⟨group, ⟨k, hk⟩, by rwa [listAt_of_get? hk] at hv⟩

theorem flatten_set_perm (d : PyDict κ (List ν)) (k : κ) (group : List ν) :
    ((d.set k group).values.flatten ++ d.listAt k).Perm (d.values.flatten ++ group) :=
  setEntry_flatten_perm k group d.entries

theorem listAt_foldl_appendTo (group : List ν) (d : PyDict κ (List ν)) (k k' : κ) :
    (group.foldl (fun d v => d.appendTo k v) d).listAt k' =
      if k' = k then d.listAt k ++ group else d.listAt k' := by
  induction group generalizing d with
  | nil => simp +contextual
  | cons v rest ih =>
    rw [foldl_cons, ih, listAt_appendTo, listAt_appendTo]
    split <;> simp

theorem flatten_appendTo_perm (d : PyDict κ (List ν)) (k : κ) (v : ν) :
    (d.appendTo k v).values.flatten.Perm (d.values.flatten ++ [v]) :=
  setEntry_append_perm k v d.entries

theorem flatten_foldl_appendTo_perm (group : List ν) (d : PyDict κ (List ν)) (k : κ) :
    (group.foldl (fun d v => d.appendTo k v) d).values.flatten.Perm
      (d.values.flatten ++ group) := by
  induction group generalizing d with
  | nil => simp
  | cons v rest ih =>
    have hfirst := (flatten_appendTo_perm d k v).append_right rest
    exact (ih (d.appendTo k v)).trans (hfirst.trans (by simp))

/-! ## Sizes -/

theorem length_set_of_notMem (v : ν) (h : k ∉ d.keys) :
    (d.set k v).entries.length = d.entries.length + 1 := by
  simp [entries_set_of_notMem d v h]

theorem length_erase (h : d.get? k = some v) :
    (d.erase k).entries.length + 1 = d.entries.length := by
  have hlength := (d.values_perm_erase h).length_eq
  simpa [values] using hlength.symm

theorem mem_keys_erase {k' : κ} : k' ∈ (d.erase k).keys ↔ k' ∈ d.keys ∧ k' ≠ k := by
  simp [keys_erase]

theorem mem_keys_foldl_erase {ks : List κ} : k ∈ (ks.foldl erase d).keys ↔ k ∈ d.keys ∧ k ∉ ks := by
  induction ks generalizing d with
  | nil => simp
  | cons first rest ih =>
    rw [foldl_cons, ih, mem_keys_erase]
    simp only [mem_cons, not_or, and_assoc]

theorem get?_of_get?_foldl_erase {d : PyDict κ ν} {ks : List κ}
    (h : (ks.foldl erase d).get? k = some v) : d.get? k = some v := by
  rw [← mem_entries_iff, entries_foldl_erase] at h
  exact mem_entries_iff _ |>.mp (mem_of_mem_filter h)

theorem length_foldl_erase {d : PyDict κ ν} {ks : List κ} (hnodup : ks.Nodup)
    (hmem : ∀ k ∈ ks, k ∈ d.keys) :
    (ks.foldl erase d).entries.length + ks.length = d.entries.length := by
  induction ks generalizing d with
  | nil => simp
  | cons k rest ih =>
    obtain ⟨hk, hrest⟩ := nodup_cons.mp hnodup
    obtain ⟨v, hv⟩ := d.mem_keys_iff.mp (hmem k mem_cons_self)
    have hlength := d.length_erase hv
    have hkept : ∀ other ∈ rest, other ∈ (d.erase k).keys := by
      intro other hother
      refine d.mem_keys_erase.mpr ⟨hmem other (mem_cons_of_mem _ hother), ?_⟩
      rintro rfl
      exact hk hother
    have := ih hrest hkept
    simp only [foldl_cons, length_cons]
    omega

end PyDict

end HyperParallel.Foundation
