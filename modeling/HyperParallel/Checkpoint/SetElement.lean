import HyperParallel.Checkpoint.StateDictPaths

/-!
# Tensors placed in a growing state dict

`setElement` makes the containers it needs on its way.  It leaves a tensor at
its path unless the path leads through a tensor, turns no tensor elsewhere into
anything else and puts no tensor anywhere else.
-/

namespace HyperParallel.Checkpoint

open Foundation List

variable {α β : Type}

def TensorAt (value : StateValue α β) (path : ObjectPath) : Prop :=
  ∃ tensor info, value.get? path = some (.leaf (.tensor tensor info))

variable {path : ObjectPath} {items : List (StateValue α β)} {key : PathKey}
  {inner : StateValue α β}

variable {value : StateValue α β}

theorem tensorAt_cons_iff :
    TensorAt value (key :: path) ↔ ∃ child, value.child? key = some child ∧ TensorAt child path := by
  constructor
  · rintro ⟨tensor, info, h⟩
    rw [Nested.get?_cons, Option.bind_eq_some_iff] at h
    obtain ⟨child, hchild, hpath⟩ := h
    exact ⟨child, hchild, tensor, info, hpath⟩
  · rintro ⟨child, hchild, tensor, info, h⟩
    exact ⟨tensor, info, by rw [Nested.get?_cons, hchild]; exact h⟩

theorem tensorAt_leaf {leaf : Leaf α β} (h : TensorAt (.leaf leaf : StateValue α β) path) :
    path = [] ∧ ∃ tensor info, leaf = .tensor tensor info := by
  cases path with
  | nil =>
    obtain ⟨tensor, info, h⟩ := h
    cases h
    exact ⟨rfl, tensor, info, rfl⟩
  | cons key path =>
    obtain ⟨child, hchild, -⟩ := tensorAt_cons_iff.mp h
    cases key <;> cases hchild

theorem not_tensorAt_defVal : ¬ TensorAt (defVal key : StateValue α β) path := by
  intro h
  cases path with
  | nil =>
    obtain ⟨tensor, info, h⟩ := h
    cases key <;> cases h
  | cons next path =>
    obtain ⟨child, hchild, -⟩ := tensorAt_cons_iff.mp h
    cases key <;> cases next <;> simp [defVal, Nested.child?] at hchild

/-! ## One step into a container -/

theorem child?_extendList {i j : Nat} {child : StateValue α β}
    (h : (extendList items i)[j]? = some child) (hne : child ≠ .leaf .none) :
    items[j]? = some child := by
  rw [extendList, getElem?_append] at h
  split at h
  · exact h
  · rw [getElem?_replicate] at h
    split at h
    · exact absurd (Option.some.inj h).symm hne
    · cases h

theorem tensor_ne_none (h : TensorAt value path) :
    value ≠ .leaf .none := by
  rintro rfl
  obtain ⟨-, tensor, info, hleaf⟩ := tensorAt_leaf h
  cases hleaf

structure Placed (container : StateValue α β) (key : PathKey) (inner result : StateValue α β) :
    Prop where
  not_tensor : ¬ TensorAt container []
  self : result.child? key = some inner
  others : ∀ other, other ≠ key → ∀ found, found ≠ .leaf .none →
    (result.child? other = some found ↔ container.child? other = some found)

theorem not_tensorAt_mapping {entries : List (String × StateValue α β)} :
    ¬ TensorAt (.mapping entries : StateValue α β) [] := by
  rintro ⟨tensor, info, h⟩
  cases h

theorem not_tensorAt_sequence {type : SequenceType} :
    ¬ TensorAt (.sequence type items : StateValue α β) [] := by
  rintro ⟨tensor, info, h⟩
  cases h

section

variable {container result : StateValue α β} (h : Placed container key inner result)

include h

theorem Placed.not_tensor_result : ¬ TensorAt result [] := by
  rintro ⟨tensor, info, hresult⟩
  have hself := h.self
  cases hresult
  cases key <;> cases hself

theorem Placed.tensorAt_self_iff : TensorAt result (key :: path) ↔ TensorAt inner path := by
  rw [tensorAt_cons_iff, h.self]
  simp

theorem Placed.tensorAt_iff_of_ne {other : PathKey} (hne : other ≠ key) :
    TensorAt result (other :: path) ↔ TensorAt container (other :: path) := by
  rw [tensorAt_cons_iff, tensorAt_cons_iff]
  constructor
  · rintro ⟨child, hchild, hat⟩
    exact ⟨child, (h.others other hne child (tensor_ne_none hat)).mp hchild, hat⟩
  · rintro ⟨child, hchild, hat⟩
    exact ⟨child, (h.others other hne child (tensor_ne_none hat)).mpr hchild, hat⟩

end

theorem placed_mapping (entries : List (String × StateValue α β)) (key : String)
    (inner : StateValue α β) : Placed (.mapping entries) (.name key) inner
      (.mapping (PyDict.setEntry key inner entries)) where
  not_tensor := not_tensorAt_mapping
  self := by simp [Nested.child?, PyDict.lookup_setEntry]
  others := by
    intro other hne found _
    cases other with
    | name other =>
      have hne : other ≠ key := fun heq => hne (heq ▸ rfl)
      simp [Nested.child?, PyDict.lookup_setEntry, hne]
    | position i => exact Iff.rfl

theorem placed_list (items : List (StateValue α β)) (i : Nat) (inner : StateValue α β) :
    Placed (.sequence .list items) (.position i) inner
      (.sequence .list ((extendList items i).set i inner)) where
  not_tensor := not_tensorAt_sequence
  self := by
    have hlength : i < (extendList items i).length := by
      simp only [extendList, length_append, length_replicate]
      omega
    simp [Nested.child?, hlength]
  others := by
    intro other hne found hfound
    cases other with
    | name other => exact Iff.rfl
    | position j =>
      have hne : i ≠ j := fun heq => hne (heq ▸ rfl)
      simp only [Nested.child?, getElem?_set_ne hne]
      constructor
      · exact fun h => child?_extendList h hfound
      · intro h
        have hlt := (List.getElem?_eq_some_iff.mp h).1
        rw [extendList, List.getElem?_append_left hlt, h]

theorem placed_tuple {i : Nat} (h : i < items.length) (inner : StateValue α β) :
    Placed (.sequence .tuple items) (.position i) inner (.sequence .tuple (items.set i inner)) where
  not_tensor := not_tensorAt_sequence
  self := by simp [Nested.child?, h]
  others := by
    intro other hne found _
    cases other with
    | name other => exact Iff.rfl
    | position j =>
      have hne : i ≠ j := fun heq => hne (heq ▸ rfl)
      simp [Nested.child?, getElem?_set_ne hne]

theorem assignItem_placed {container new result : StateValue α β}
    (h : assignItem container key new = .ok result) : Placed container key new result := by
  unfold assignItem at h
  split at h
  · cases h
    exact placed_mapping _ _ _
  · cases h
    exact placed_list _ _ _
  · split at h <;> cases h
  · cases h

/-- `enterItem` goes on in what is there, or in a new container where nothing is. -/
theorem enterItem_placed {container default padded child : StateValue α β}
    (h : enterItem container key default = .ok (padded, child)) :
    (container.child? key = some child ∨ child = default ∧
      ∀ found, container.child? key = some found → found = .leaf .none) ∧
    ∀ inner, Placed container key inner (padded.setChild key inner) := by
  unfold enterItem at h
  split at h
  · rename_i entries key
    cases h
    refine ⟨?_, fun inner => placed_mapping _ _ _⟩
    cases hlookup : entries.lookup key with
    | none => exact .inr ⟨rfl, fun found hfound => by simp [Nested.child?, hlookup] at hfound⟩
    | some found => exact .inl hlookup
  · rename_i items i
    have hplaced (inner : StateValue α β) := placed_list items i inner
    dsimp only at h
    split at h
    · rename_i hitem
      cases h
      refine ⟨.inr ⟨rfl, fun found hfound => ?_⟩, hplaced⟩
      have hlt := (List.getElem?_eq_some_iff.mp hfound).1
      rw [extendList_of_lt hlt] at hitem
      exact Option.some.inj (hfound.symm.trans hitem)
    · rename_i found hnone hitem
      cases h
      exact ⟨.inl (child?_extendList hitem fun heq => hnone (heq ▸ rfl)), hplaced⟩
    · cases h
  · rename_i items i
    split at h
    · cases h
    · rename_i found hnone hitem
      cases h
      exact ⟨.inl hitem, fun inner => placed_tuple (List.getElem?_eq_some_iff.mp hitem).1 inner⟩
    · cases h
  · cases h

/-! ## Along a path -/

section SetElement

variable {setItem : TensorSetItem α β} {container new result : StateValue α β}

theorem setElement_cases (h : setElement setItem container (key :: path) new = .ok result) :
    (∃ tensor info tensor', container = .leaf (.tensor tensor info) ∧
      result = .leaf (.tensor tensor' info)) ∨
    (path = [] ∧ Placed container key new result) ∨
    ∃ next rest child child', path = next :: rest ∧
      (container.child? key = some child ∨ child = defVal next ∧
        ∀ found, container.child? key = some found → found = .leaf .none) ∧
      setElement setItem child path new = .ok child' ∧ Placed container key child' result := by
  unfold setElement at h
  split at h
  · obtain ⟨tensor', -, rfl⟩ := map_eq_ok h
    exact .inl ⟨_, _, tensor', rfl, rfl⟩
  · exact .inr (.inl ⟨rfl, assignItem_placed h⟩)
  · rename_i next rest _
    obtain ⟨⟨padded, child⟩, henter, h⟩ := bind_eq_ok h
    obtain ⟨child', hset, h⟩ := bind_eq_ok h
    obtain ⟨hchild, hplaced⟩ := enterItem_placed henter
    refine .inr (.inr ⟨next, rest, child, child', rfl, hchild, hset, ?_⟩)
    have hresult : result = padded.setChild key child' := by split at h <;> cases h <;> rfl
    rw [hresult]
    exact hplaced child'

theorem setElement_get?
    (hopen : ∀ front rest, path = front ++ rest → rest ≠ [] → ¬ TensorAt container front)
    (h : setElement setItem container path new = .ok result) :
    result.get? path = some new := by
  induction path generalizing container result with
  | nil => cases h
  | cons key path ih =>
    rcases setElement_cases h with ⟨tensor, info, -, rfl, -⟩ | ⟨rfl, hplaced⟩ |
      ⟨next, rest, child, child', rfl, hchild, hset, hplaced⟩
    · exact absurd ⟨tensor, info, rfl⟩ (hopen [] (key :: path) rfl (by simp))
    · rw [Nested.get?_cons, hplaced.self]
      rfl
    · rw [Nested.get?_cons, hplaced.self]
      refine ih (fun front tail hpath htail hat => ?_) hset
      rcases hchild with hchild | ⟨rfl, -⟩
      · exact hopen (key :: front) tail (by rw [hpath]; rfl) htail
          (tensorAt_cons_iff.mpr ⟨child, hchild, hat⟩)
      · exact not_tensorAt_defVal hat

theorem setElement_keeps {other : ObjectPath} (hpath : ¬ path <+: other)
    (hat : TensorAt container other) (h : setElement setItem container path new = .ok result) :
    TensorAt result other := by
  induction path generalizing container result other with
  | nil => exact absurd nil_prefix hpath
  | cons key path ih =>
    rcases setElement_cases h with ⟨tensor, info, tensor', rfl, rfl⟩ | ⟨rfl, hplaced⟩ |
      ⟨next, rest, child, child', rfl, hchild, hset, hplaced⟩
    · obtain ⟨rfl, -⟩ := tensorAt_leaf hat
      exact ⟨tensor', info, rfl⟩
    · cases other with
      | nil => exact absurd hat hplaced.not_tensor
      | cons otherKey other =>
        have hne : otherKey ≠ key := by
          rintro rfl
          exact hpath (by simp)
        exact (hplaced.tensorAt_iff_of_ne hne).mpr hat
    · cases other with
      | nil => exact absurd hat hplaced.not_tensor
      | cons otherKey other =>
        by_cases hne : otherKey = key
        · subst hne
          obtain ⟨found, hfound, hinner⟩ := tensorAt_cons_iff.mp hat
          rcases hchild with hchild | ⟨-, hnone⟩
          · obtain rfl := Option.some.inj (hchild.symm.trans hfound)
            exact hplaced.tensorAt_self_iff.mpr (ih
              (fun hpre => hpath ((prefix_cons_inj otherKey).mpr hpre)) hinner hset)
          · exact absurd (hnone found hfound) (tensor_ne_none hinner)
        · exact (hplaced.tensorAt_iff_of_ne hne).mpr hat

theorem setElement_tensorAt {leaf : Leaf α β} {other : ObjectPath}
    (h : setElement setItem container path (.leaf leaf) = .ok result) (hat : TensorAt result other) :
    other = path ∨ TensorAt container other := by
  induction path generalizing container result other with
  | nil => cases h
  | cons key path ih =>
    rcases setElement_cases h with ⟨tensor, info, tensor', rfl, rfl⟩ | ⟨rfl, hplaced⟩ |
      ⟨next, rest, child, child', rfl, hchild, hset, hplaced⟩
    · obtain ⟨rfl, -⟩ := tensorAt_leaf hat
      exact .inr ⟨tensor, info, rfl⟩
    · cases other with
      | nil => exact absurd hat hplaced.not_tensor_result
      | cons otherKey other =>
        by_cases hne : otherKey = key
        · subst hne
          rw [(tensorAt_leaf (hplaced.tensorAt_self_iff.mp hat)).1]
          exact .inl rfl
        · exact .inr ((hplaced.tensorAt_iff_of_ne hne).mp hat)
    · cases other with
      | nil => exact absurd hat hplaced.not_tensor_result
      | cons otherKey other =>
        by_cases hne : otherKey = key
        · subst hne
          rcases ih hset (hplaced.tensorAt_self_iff.mp hat) with rfl | hinner
          · exact .inl rfl
          · rcases hchild with hchild | ⟨rfl, -⟩
            · exact .inr (tensorAt_cons_iff.mpr ⟨child, hchild, hinner⟩)
            · exact absurd hinner not_tensorAt_defVal
        · exact .inr ((hplaced.tensorAt_iff_of_ne hne).mp hat)

end SetElement

/-! ## Every tensor is visited -/

namespace StateValue

theorem isTerminal_of_mem (h : terminalItems items = true) {item : StateValue α β}
    (hitem : item ∈ items) :
    (∃ leaf, item = .leaf leaf ∧ leaf.isTensor = false) ∨
      ∃ type inner, item = .sequence type inner ∧ terminalItems inner = true := by
  induction items with
  | nil => cases hitem
  | cons first rest ih =>
    have hboth : ((∃ leaf, first = .leaf leaf ∧ leaf.isTensor = false) ∨
        ∃ type inner, first = .sequence type inner ∧ terminalItems inner = true) ∧
          terminalItems rest = true := by
      cases first with
      | leaf leaf =>
        simp only [terminalItems, Bool.and_eq_true, Bool.not_eq_true'] at h
        exact ⟨.inl ⟨leaf, rfl, h.1⟩, h.2⟩
      | mapping entries => simp [terminalItems] at h
      | sequence type inner =>
        simp only [terminalItems, Bool.and_eq_true] at h
        exact ⟨.inr ⟨type, inner, rfl, h.1⟩, h.2⟩
    rcases mem_cons.mp hitem with rfl | hitem
    · exact hboth.1
    · exact ih hboth.2 hitem

theorem not_tensorAt_of_terminal (h : terminalItems items = true) {item : StateValue α β}
    (hitem : item ∈ items) : ¬ TensorAt item path := by
  intro hat
  induction path generalizing items item with
  | nil =>
    obtain ⟨tensor, info, hvalue⟩ := hat
    rcases isTerminal_of_mem h hitem with ⟨leaf, rfl, hleaf⟩ | ⟨type, inner, rfl, -⟩
    · cases hvalue
      cases hleaf
    · cases hvalue
  | cons key path ih =>
    obtain ⟨child, hchild, hinside⟩ := tensorAt_cons_iff.mp hat
    rcases isTerminal_of_mem h hitem with ⟨leaf, rfl, -⟩ | ⟨type, inner, rfl, hinner⟩
    · cases key <;> cases hchild
    · cases key with
      | name key => cases hchild
      | position i => exact ih hinner (mem_of_getElem? hchild) hinside

theorem traverseEntries_of_mem {front : ObjectPath} {entries : List (String × StateValue α β)}
    {key : String} {child : StateValue α β} (h : (key, child) ∈ entries) :
    traverseObj (front ++ [.name key]) child ⊆ traverseEntries front entries := by
  induction entries with
  | nil => cases h
  | cons entry rest ih =>
    obtain ⟨firstKey, first⟩ := entry
    rw [traverseEntries]
    rcases mem_cons.mp h with heq | h
    · cases heq
      exact subset_append_left _ _
    · exact fun visit hvisit => mem_append_right _ (ih h hvisit)

theorem traverseItems_of_getElem? (front : ObjectPath) (start : Nat) {i : Nat}
    {child : StateValue α β} (h : items[i]? = some child) :
    traverseObj (front ++ [.position (start + i)]) child ⊆ traverseItems front start items := by
  induction items generalizing start i with
  | nil => cases h
  | cons first rest ih =>
    rw [traverseItems]
    cases i with
    | zero =>
      obtain rfl := Option.some.inj h
      exact subset_append_left _ _
    | succ i =>
      intro visit hvisit
      refine mem_append_right _ (ih (start + 1) h ?_)
      rwa [show start + 1 + i = start + (i + 1) by omega]

theorem mem_traverseObj_of_tensorAt (front : ObjectPath) {value : StateValue α β}
    (h : TensorAt value path) :
    ∃ leaf, (front ++ path, .leaf leaf) ∈ traverseObj front value := by
  induction path generalizing front value with
  | nil =>
    obtain ⟨tensor, info, hvalue⟩ := h
    cases hvalue
    exact ⟨.tensor tensor info, by simp [traverseObj]⟩
  | cons key path ih =>
    obtain ⟨child, hchild, hat⟩ := tensorAt_cons_iff.mp h
    obtain ⟨leaf, hleaf⟩ := ih (front ++ [key]) hat
    rw [append_assoc, singleton_append] at hleaf
    refine ⟨leaf, ?_⟩
    cases value with
    | leaf _ => cases key <;> cases hchild
    | mapping entries =>
      cases key with
      | position i => cases hchild
      | name key =>
        rw [traverseObj]
        obtain ⟨before, after, rfl, -⟩ := lookup_eq_some_iff.mp hchild
        exact traverseEntries_of_mem (by simp) hleaf
    | sequence type items =>
      cases key with
      | name key => cases hchild
      | position i =>
        have hterminal : terminalItems items = false := by
          rw [← Bool.not_eq_true]
          exact fun h => not_tensorAt_of_terminal h (mem_of_getElem? hchild) hat
        rw [traverseObj, isTerminal, hterminal]
        have hitems := traverseItems_of_getElem? front 0 hchild
        rw [Nat.zero_add] at hitems
        exact hitems hleaf

end StateValue

theorem flattenStateDict_unique {flat : FlatStateDict α β}
    (h : flattenStateDict value = .ok flat) {other : ObjectPath} (hpath : TensorAt value path)
    (hother : TensorAt value other) (hname : dottedName path = dottedName other) :
    path = other := by
  obtain ⟨leaf, hleaf⟩ := StateValue.mem_traverseObj_of_tensorAt [] hpath
  obtain ⟨leaf', hleaf'⟩ := StateValue.mem_traverseObj_of_tensorAt [] hother
  exact congrArg Prod.fst (visit_unique h hleaf hleaf' hname)

end HyperParallel.Checkpoint
