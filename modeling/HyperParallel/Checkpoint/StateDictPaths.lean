import HyperParallel.Checkpoint.StateDict

/-!
# The leaves of a state dict and their paths

Traversing a state dict visits values that stand at paths none of which goes
through another.  Flattening it succeeds exactly when their dotted names are
distinct, and writing to the path of a visited leaf replaces that leaf alone,
unless it stands directly in a tuple.
-/

namespace HyperParallel.Checkpoint

open Foundation List
open Foundation.Nested (Diverge diverge_of_ne)

variable {α β : Type}

namespace StateValue

mutual

theorem get?_of_mem_traverseObj (path : ObjectPath) (value : StateValue α β)
    (hdistinct : value.DistinctKeys) {visit : ObjectPath × StateValue α β}
    (h : visit ∈ traverseObj path value) :
    ∃ rest, visit.1 = path ++ rest ∧ value.get? rest = some visit.2 := by
  cases value with
  | leaf leaf =>
    obtain rfl := mem_singleton.mp h
    exact ⟨[], by simp, rfl⟩
  | mapping entries =>
    obtain ⟨key, inner, rest, hmem, hpath, hget⟩ :=
      get?_of_mem_traverseEntries path entries hdistinct.2 h
    refine ⟨.name key :: rest, hpath, ?_⟩
    have hlookup : entries.lookup key = some inner :=
      (PyDict.mem_entries_iff ⟨entries, hdistinct.1⟩).mp hmem
    rw [Nested.get?_cons, Nested.child?, hlookup]
    exact hget
  | sequence type items =>
    rw [traverseObj] at h
    split at h
    · obtain rfl := mem_singleton.mp h
      exact ⟨[], by simp, rfl⟩
    · obtain ⟨j, inner, rest, hitem, hpath, hget⟩ :=
        get?_of_mem_traverseItems path 0 items hdistinct h
      refine ⟨.position j :: rest, by simpa using hpath, ?_⟩
      rw [Nested.get?_cons, Nested.child?, hitem]
      exact hget

theorem get?_of_mem_traverseEntries (path : ObjectPath) (entries : List (String × StateValue α β))
    (hdistinct : Nested.DistinctEntries entries) {visit : ObjectPath × StateValue α β}
    (h : visit ∈ traverseEntries path entries) :
    ∃ key inner rest, (key, inner) ∈ entries ∧ visit.1 = path ++ .name key :: rest ∧
      Nested.get? inner rest = some visit.2 := by
  cases entries with
  | nil => cases h
  | cons entry entries =>
    obtain ⟨key, inner⟩ := entry
    rw [traverseEntries, mem_append] at h
    rcases h with hfirst | hrest
    · obtain ⟨rest, hpath, hget⟩ := get?_of_mem_traverseObj _ inner hdistinct.1 hfirst
      exact ⟨key, inner, rest, mem_cons_self, by simpa using hpath, hget⟩
    · obtain ⟨key', inner', rest, hmem, hpath, hget⟩ :=
        get?_of_mem_traverseEntries path entries hdistinct.2 hrest
      exact ⟨key', inner', rest, mem_cons_of_mem _ hmem, hpath, hget⟩

theorem get?_of_mem_traverseItems (path : ObjectPath) (i : Nat) (items : List (StateValue α β))
    (hdistinct : Nested.DistinctItems items) {visit : ObjectPath × StateValue α β}
    (h : visit ∈ traverseItems path i items) :
    ∃ j inner rest, items[j]? = some inner ∧ visit.1 = path ++ .position (i + j) :: rest ∧
      Nested.get? inner rest = some visit.2 := by
  cases items with
  | nil => cases h
  | cons inner items =>
    rw [traverseItems, mem_append] at h
    rcases h with hfirst | hrest
    · obtain ⟨rest, hpath, hget⟩ := get?_of_mem_traverseObj _ inner hdistinct.1 hfirst
      exact ⟨0, inner, rest, rfl, by simpa using hpath, hget⟩
    · obtain ⟨j, inner', rest, hitem, hpath, hget⟩ :=
        get?_of_mem_traverseItems path (i + 1) items hdistinct.2 hrest
      refine ⟨j + 1, inner', rest, by simpa using hitem, ?_, hget⟩
      rw [hpath, Nat.add_right_comm, Nat.add_assoc]

end

mutual

theorem traverseObj_diverge (path : ObjectPath) (value : StateValue α β)
    (hdistinct : value.DistinctKeys) :
    (traverseObj path value).Pairwise fun visit other => Diverge visit.1 other.1 := by
  cases value with
  | leaf leaf => exact pairwise_singleton _ _
  | mapping entries => exact traverseEntries_diverge path entries hdistinct.1 hdistinct.2
  | sequence type items =>
    rw [traverseObj]
    split
    · exact pairwise_singleton _ _
    · exact traverseItems_diverge path 0 items hdistinct

theorem traverseEntries_diverge (path : ObjectPath) (entries : List (String × StateValue α β))
    (hnodup : (entries.map Prod.fst).Nodup) (hdistinct : Nested.DistinctEntries entries) :
    (traverseEntries path entries).Pairwise fun visit other => Diverge visit.1 other.1 := by
  cases entries with
  | nil => exact .nil
  | cons entry entries =>
    obtain ⟨key, inner⟩ := entry
    obtain ⟨hkey, hnodup⟩ := nodup_cons.mp hnodup
    rw [traverseEntries, pairwise_append]
    refine ⟨traverseObj_diverge _ inner hdistinct.1,
      traverseEntries_diverge path entries hnodup hdistinct.2, ?_⟩
    intro visit hvisit other hother
    obtain ⟨rest, hpath, -⟩ := get?_of_mem_traverseObj _ inner hdistinct.1 hvisit
    obtain ⟨key', _, rest', hmem, hpath', -⟩ :=
      get?_of_mem_traverseEntries path entries hdistinct.2 hother
    have hne : key ≠ key' := fun heq =>
      hkey (mem_map.mpr ⟨_, hmem, heq.symm⟩)
    rw [hpath, hpath', append_assoc]
    exact (diverge_of_ne (by simpa using hne) rest rest').append_left path

theorem traverseItems_diverge (path : ObjectPath) (i : Nat) (items : List (StateValue α β))
    (hdistinct : Nested.DistinctItems items) :
    (traverseItems path i items).Pairwise fun visit other => Diverge visit.1 other.1 := by
  cases items with
  | nil => exact .nil
  | cons inner items =>
    rw [traverseItems, pairwise_append]
    refine ⟨traverseObj_diverge _ inner hdistinct.1,
      traverseItems_diverge path (i + 1) items hdistinct.2, ?_⟩
    intro visit hvisit other hother
    obtain ⟨rest, hpath, -⟩ := get?_of_mem_traverseObj _ inner hdistinct.1 hvisit
    obtain ⟨j, _, rest', -, hpath', -⟩ :=
      get?_of_mem_traverseItems path (i + 1) items hdistinct.2 hother
    rw [hpath, hpath', append_assoc]
    have hne : PathKey.position i ≠ .position (i + 1 + j) := by
      rw [ne_eq, PathKey.position.injEq]
      omega
    exact (diverge_of_ne hne rest rest').append_left path

end

end StateValue

section Flat

def visitName (visit : ObjectPath × StateValue α β) : String := dottedName visit.1

theorem foldlM_flatCopy (visits : List (ObjectPath × StateValue α β)) (flat : FlatStateDict α β)
    (hkeys : flat.mappings.keys = flat.fqnNames.keys) :
    match visits.foldlM flatCopy flat with
    | .ok flat' => (visits.map visitName).Nodup ∧
        (∀ visit ∈ visits, visitName visit ∉ flat.fqnNames.keys) ∧
        flat'.fqnNames.entries =
          flat.fqnNames.entries ++ visits.map (fun visit => (visitName visit, visit.2)) ∧
        flat'.mappings.entries =
          flat.mappings.entries ++ visits.map (fun visit => (visitName visit, visit.1))
    | .error error => (∃ fqn, error = .duplicateFqn fqn) ∧
        ¬ ((visits.map visitName).Nodup ∧ ∀ visit ∈ visits, visitName visit ∉ flat.fqnNames.keys) := by
  induction visits generalizing flat with
  | nil => simp [pure, Except.pure]
  | cons visit visits ih =>
    rw [foldlM_cons]
    by_cases htaken : visitName visit ∈ flat.fqnNames.keys
    · have hstep : flatCopy flat visit = .error (.duplicateFqn (visitName visit)) := by
        unfold flatCopy
        exact if_pos htaken
      rw [hstep]
      exact ⟨⟨_, rfl⟩, fun h => h.2 visit mem_cons_self htaken⟩
    · have hstep : flatCopy flat visit = .ok
          { fqnNames := flat.fqnNames.set (visitName visit) visit.2
            mappings := flat.mappings.set (visitName visit) visit.1 } := by
        unfold flatCopy
        exact if_neg htaken
      have hnext := ih
        { fqnNames := flat.fqnNames.set (visitName visit) visit.2
          mappings := flat.mappings.set (visitName visit) visit.1 }
        (by rw [PyDict.keys_set, PyDict.keys_set, hkeys])
      rw [hstep]
      simp only [bind, Except.bind]
      have hsplit : ((visits.map visitName).Nodup ∧ ∀ other ∈ visits, visitName other ∉
          (flat.fqnNames.set (visitName visit) visit.2).keys) ↔
          (((visit :: visits).map visitName).Nodup ∧
            ∀ other ∈ visit :: visits, visitName other ∉ flat.fqnNames.keys) := by
        simp only [PyDict.mem_keys_set, not_or, map_cons, nodup_cons, mem_cons,
          forall_eq_or_imp, mem_map, not_exists, not_and]
        constructor
        · rintro ⟨hnodup, hfresh⟩
          exact ⟨⟨fun other hother => (hfresh other hother).1, hnodup⟩, htaken,
            fun other hother => (hfresh other hother).2⟩
        · rintro ⟨⟨hne, hnodup⟩, -, hfresh⟩
          exact ⟨hnodup, fun other hother => ⟨hne other hother, hfresh other hother⟩⟩
      split at hnext
      · obtain ⟨hnodup, hfresh, hnames, hmappings⟩ := hnext
        obtain ⟨hnodup', hfresh'⟩ := hsplit.mp ⟨hnodup, hfresh⟩
        refine ⟨hnodup', hfresh', ?_, ?_⟩
        · rw [hnames, PyDict.entries_set_of_notMem _ _ htaken]
          simp
        · rw [hmappings, PyDict.entries_set_of_notMem _ _ (hkeys ▸ htaken)]
          simp
      · exact ⟨hnext.1, fun h => hnext.2 (hsplit.mpr h)⟩

theorem flattenStateDict_entries {stateDict : StateValue α β} {flat : FlatStateDict α β}
    (h : flattenStateDict stateDict = .ok flat) :
    ((traverseStateDict stateDict).map visitName).Nodup ∧
    flat.fqnNames.entries =
      (traverseStateDict stateDict).map (fun visit => (visitName visit, visit.2)) ∧
    flat.mappings.entries =
      (traverseStateDict stateDict).map (fun visit => (visitName visit, visit.1)) := by
  have hrun := foldlM_flatCopy (traverseStateDict stateDict) ⟨.empty, .empty⟩ rfl
  unfold flattenStateDict at h
  rw [h] at hrun
  exact ⟨hrun.1, hrun.2.2⟩

theorem flattenStateDict_cases (stateDict : StateValue α β) :
    (∃ flat, flattenStateDict stateDict = .ok flat ∧
      ((traverseStateDict stateDict).map visitName).Nodup) ∨
    ∃ fqn, flattenStateDict stateDict = .error (.duplicateFqn fqn) ∧
      ¬ ((traverseStateDict stateDict).map visitName).Nodup := by
  have hrun := foldlM_flatCopy (traverseStateDict stateDict) ⟨.empty, .empty⟩ rfl
  unfold flattenStateDict
  split at hrun
  · rename_i flat heq
    exact .inl ⟨flat, heq, hrun.1⟩
  · rename_i error heq
    obtain ⟨⟨fqn, rfl⟩, hdup⟩ := hrun
    exact .inr ⟨fqn, heq, fun hnodup => hdup ⟨hnodup, by simp⟩⟩

variable {stateDict : StateValue α β} {flat : FlatStateDict α β}

theorem get?_fqnNames_iff (h : flattenStateDict stateDict = .ok flat) {fqn : String}
    {value : StateValue α β} : flat.fqnNames.get? fqn = some value ↔
      ∃ path, (path, value) ∈ traverseStateDict stateDict ∧ dottedName path = fqn := by
  rw [← PyDict.mem_entries_iff, (flattenStateDict_entries h).2.1, mem_map]
  constructor
  · rintro ⟨⟨path, value'⟩, hmem, heq⟩
    obtain ⟨rfl, rfl⟩ := Prod.mk.inj heq
    exact ⟨path, hmem, rfl⟩
  · rintro ⟨path, hmem, rfl⟩
    exact ⟨_, hmem, rfl⟩

theorem get?_mappings_iff (h : flattenStateDict stateDict = .ok flat) {fqn : String}
    {path : ObjectPath} : flat.mappings.get? fqn = some path ↔
      ∃ value, (path, value) ∈ traverseStateDict stateDict ∧ dottedName path = fqn := by
  rw [← PyDict.mem_entries_iff, (flattenStateDict_entries h).2.2, mem_map]
  constructor
  · rintro ⟨⟨path', value⟩, hmem, heq⟩
    obtain ⟨rfl, rfl⟩ := Prod.mk.inj heq
    exact ⟨value, hmem, rfl⟩
  · rintro ⟨value, hmem, rfl⟩
    exact ⟨_, hmem, rfl⟩

theorem visit_unique (h : flattenStateDict stateDict = .ok flat)
    {visit other : ObjectPath × StateValue α β} (hvisit : visit ∈ traverseStateDict stateDict)
    (hother : other ∈ traverseStateDict stateDict) (hname : visitName visit = visitName other) :
    visit = other :=
  List.inj_on_of_nodup_map (flattenStateDict_entries h).1 hvisit hother hname

end Flat

/-! ## Writing to a path that is there -/

theorem extendList_of_lt {items : List (StateValue α β)} {i : Nat} (h : i < items.length) :
    extendList items i = items := by
  rw [extendList, Nat.sub_eq_zero_of_le h, replicate_zero, append_nil]

def InTuple (value : StateValue α β) (path : ObjectPath) : Prop :=
  (value.get? path.dropLast).map Nested.isTuple = some true

instance (value : StateValue α β) (path : ObjectPath) : Decidable (InTuple value path) :=
  inferInstanceAs (Decidable (_ = _))

variable {value : StateValue α β}

theorem assignItem_of_child? {old : StateValue α β} {key : PathKey}
    (h : value.child? key = some old) (new : StateValue α β) :
    assignItem value key new =
      if value.isTuple = true then .error .typeError else .ok (value.setChild key new) := by
  cases value with
  | leaf _ => cases key <;> cases h
  | mapping entries =>
    cases key with
    | name key => rfl
    | position i => cases h
  | sequence type items =>
    cases key with
    | name key => cases type <;> cases h
    | position i =>
      have hi : i < items.length := (List.getElem?_eq_some_iff.mp h).1
      cases type with
      | list => simp [assignItem, extendList_of_lt hi, Nested.isTuple, Nested.setChild]
      | tuple => simp [assignItem, hi, Nested.isTuple]

theorem enterItem_of_child? {child : StateValue α β} {key : PathKey}
    (h : value.child? key = some child) (hchild : child ≠ .leaf .none) (default : StateValue α β) :
    enterItem value key default = .ok (value, child) := by
  cases value with
  | leaf _ => cases key <;> cases h
  | mapping entries =>
    cases key with
    | name key =>
      have hlookup : entries.lookup key = some child := h
      simp [enterItem, hlookup]
    | position i => cases h
  | sequence type items =>
    cases key with
    | name key => cases type <;> cases h
    | position i =>
      have hitem : items[i]? = some child := h
      have hi : i < items.length := (List.getElem?_eq_some_iff.mp hitem).1
      cases type with
      | list => simp only [enterItem, extendList_of_lt hi, hitem]
      | tuple => simp only [enterItem, hitem]

theorem setElement_of_get? (setItem : TensorSetItem α β) {old : StateValue α β} {path : ObjectPath}
    (hne : path ≠ []) (h : value.get? path = some old) (new : StateValue α β) :
    setElement setItem value path new =
      if InTuple value path then .error .typeError else .ok (value.replaceAt path new) := by
  induction path generalizing value with
  | nil => exact absurd rfl hne
  | cons key path ih =>
    rw [Nested.get?_cons, Option.bind_eq_some_iff] at h
    obtain ⟨child, hchild, hget⟩ := h
    have hleaf : ∀ tensor info, value ≠ .leaf (.tensor tensor info) := by
      rintro tensor info rfl
      cases key <;> cases hchild
    cases path with
    | nil =>
      obtain rfl : child = old := Option.some.inj hget
      rw [setElement, assignItem_of_child? hchild]
      · simp only [InTuple, dropLast_singleton, Nested.get?_nil, Option.map_some,
          Option.some.injEq, Nested.replaceAt, hchild]
      · exact hleaf
    | cons next rest =>
      have hnone : child ≠ .leaf .none := by
        rintro rfl
        cases next <;> cases hget
      have htuple : InTuple value (key :: next :: rest) ↔ InTuple child (next :: rest) := by
        simp only [InTuple, dropLast_cons_cons]
        rw [Nested.get?_cons, hchild, Option.bind_some]
      rw [setElement, enterItem_of_child? hchild hnone]
      · simp only [bind, Except.bind]
        rw [ih (by simp) hget]
        by_cases hin : InTuple child (next :: rest)
        · rw [if_pos hin, if_pos (htuple.mpr hin)]
        · rw [if_neg hin, if_neg (fun h => hin (htuple.mp h))]
          have hreplace : value.replaceAt (key :: next :: rest) new =
              value.setChild key (child.replaceAt (next :: rest) new) := by
            rw [Nested.replaceAt, hchild]
          rw [hreplace]
          cases value <;> cases key <;> rfl
      · exact hleaf

end HyperParallel.Checkpoint
