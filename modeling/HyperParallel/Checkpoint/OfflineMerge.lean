import HyperParallel.Checkpoint.SetElement
import HyperParallel.Checkpoint.Load

/-!
# Merging a checkpoint into one state dict

The merge planner fills an empty state dict from the metadata: every entry goes
to the top level under its dotted name, and to its path where one was saved.
What came of it is flattened and loaded into.
-/

namespace HyperParallel.Checkpoint

open Foundation List
open Foundation.Nested (Diverge)

variable {α β : Type}

inductive MergeError where
  | dtype (dtypeStr : Option String)
  | stateDict (error : StateDictError)
  | load (error : LoadError)
deriving DecidableEq, Repr

/-- `torchDtype` is `getattr(torch, name)` where that is a dtype, by the text of the dtype. -/
def strToDtype (torchDtype : String → Option String) (dtypeStr : Option String) :
    Except MergeError String :=
  match dtypeStr with
  | none => .error (.dtype none)
  | some text =>
    match text.toList.span (· ≠ '.') with
    | (front, '.' :: name) =>
      if front = "torch".toList then
        match torchDtype (String.ofList name) with
        | some dtype => .ok dtype
        | none => .error (.dtype text)
      else .error (.dtype text)
    | _ => .error (.dtype text)

section Merge

variable (torchDtype : String → Option String) (uninitialized : List Nat → α) (bytesMetadata : β)
  (setItem : TensorSetItem α β)

def mergeValue : StorageMetadata → Except MergeError (StateValue α β)
  | .tensor md => (strToDtype torchDtype md.properties.dtype).map fun dtype =>
    .leaf (.tensor ⟨dtype, md.size, uninitialized⟩ none)
  | .bytes => .ok (.leaf (.object bytesMetadata))

def liftStateDict {γ : Type} : Except StateDictError γ → Except MergeError γ
  | .ok value => .ok value
  | .error e => .error (.stateDict e)

/-- One entry of the metadata: `state_dict[k] = v`, then the write to its saved path. -/
def mergeEntry (plannerData : Option (PyDict String ObjectPath)) (stateDict : StateValue α β)
    (entry : String × StorageMetadata) : Except MergeError (StateValue α β) := do
  let value ← mergeValue torchDtype uninitialized bytesMetadata entry.2
  let stateDict ← liftStateDict (assignItem stateDict (.name entry.1) value)
  match plannerData.bind fun data => data.get? entry.1 with
  | none => return stateDict
  | some path => liftStateDict (setElement setItem stateDict path value)

def populate (metadata : Metadata) : Except MergeError (StateValue α β) :=
  metadata.stateDictMetadata.entries.foldlM
    (mergeEntry torchDtype uninitialized bytesMetadata setItem metadata.plannerData) (.mapping [])

def liftLoad {γ : Type} : Except LoadError γ → Except MergeError γ
  | .ok value => .ok value
  | .error e => .error (.load e)

/--
The merged state dict.  The only plan is the reader's own, so nothing in it has another source.
-/
def dcpToFullStateDict (pickle : Pickle α β) (isOnHost : StateValue α β → Bool)
    (metadata : Metadata) (reader : FileSystemReader α) : Except MergeError (StateValue α β) := do
  let stateDict ← populate torchDtype uninitialized bytesMetadata setItem metadata
  let planner ← liftLoad (configureLoadPlanner 0 stateDict metadata)
  let final ← liftLoad (load pickle setItem isOnHost planner reader)
  return final.originalStateDict

end Merge

/-! ## Names and paths -/

theorem dottedName_cons_cons (key next : PathKey) (rest : ObjectPath) :
    dottedName (key :: next :: rest) = PathKey.text key ++ "." ++ dottedName (next :: rest) := by
  simp [dottedName, String.intercalate_cons_cons]

@[simp] theorem dottedName_singleton (key : PathKey) : dottedName [key] = PathKey.text key := by
  simp [dottedName]

theorem text_length_lt (key next : PathKey) (rest : ObjectPath) :
    (PathKey.text key).length < (dottedName (key :: next :: rest)).length := by
  have hdot : ".".length = 1 := rfl
  rw [dottedName_cons_cons, String.length_append, String.length_append, hdot]
  omega

theorem setElement_singleton {setItem : TensorSetItem α β} {container new : StateValue α β}
    {key : PathKey} (h : ¬ TensorAt container []) :
    setElement setItem container [key] new = assignItem container key new := by
  unfold setElement
  split
  · exact absurd ⟨_, _, rfl⟩ h
  · rfl
  · contradiction

structure Placeable (metadata : Metadata) : Prop where
  tensor : ∀ name md, metadata.stateDictMetadata.get? name = some md → ∃ info, md = .tensor info
  path : ∀ name md, metadata.stateDictMetadata.get? name = some md → ∃ data head rest,
    metadata.plannerData = some data ∧ data.get? name = some (.name head :: rest) ∧
      dottedName (.name head :: rest) = name
  diverge : ∀ data name name' path path', metadata.plannerData = some data →
    data.get? name = some path → data.get? name' = some path' → name ≠ name' → Diverge path path'

section Populate

variable {torchDtype : String → Option String} {uninitialized : List Nat → α} {bytesMetadata : β}
  {setItem : TensorSetItem α β} {metadata : Metadata}

theorem liftStateDict_eq_ok {γ : Type} {x : Except StateDictError γ} {value : γ}
    (h : liftStateDict x = .ok value) : x = .ok value := by
  cases x with
  | error e => cases h
  | ok found => exact congrArg Except.ok (Except.ok.inj h)

theorem liftLoad_eq_ok {γ : Type} {x : Except LoadError γ} {value : γ}
    (h : liftLoad x = .ok value) : x = .ok value := by
  cases x with
  | error e => cases h
  | ok found => exact congrArg Except.ok (Except.ok.inj h)

variable {data : PyDict String ObjectPath} {state state' : StateValue α β} {path : ObjectPath}

theorem mergeEntry_cases {name : String} {info : TensorStorageMetadata}
    (hpath : data.get? name = some path) (hstate : ¬ TensorAt state [])
    (h : mergeEntry torchDtype uninitialized bytesMetadata setItem (some data) state
      (name, .tensor info) = .ok state') :
    ∃ tensor mid, setElement setItem state [.name name] (.leaf (.tensor tensor none)) = .ok mid ∧
      setElement setItem mid path (.leaf (.tensor tensor none)) = .ok state' := by
  obtain ⟨value, hvalue, h⟩ := bind_eq_ok h
  obtain ⟨mid, hmid, h⟩ := bind_eq_ok h
  obtain ⟨dtype, -, rfl⟩ := map_eq_ok hvalue
  rw [Option.bind_some, hpath] at h
  refine ⟨_, mid, ?_, liftStateDict_eq_ok h⟩
  rw [setElement_singleton hstate]
  exact liftStateDict_eq_ok hmid

def OpenTo (state : StateValue α β) (path : ObjectPath) : Prop :=
  ∀ front rest, path = front ++ rest → rest ≠ [] → ¬ TensorAt state front

theorem OpenTo.not_tensor (h : OpenTo state path) (hne : path ≠ []) : ¬ TensorAt state [] :=
  h [] path rfl hne

theorem OpenTo.setElement {written : ObjectPath} {leaf : Leaf α β} (h : OpenTo state path)
    (hwritten : ∀ rest, path = written ++ rest → rest = [])
    (hset : setElement setItem state written (.leaf leaf) = .ok state') : OpenTo state' path := by
  intro front rest hpath hrest hat
  rcases setElement_tensorAt hset hat with rfl | hat
  · exact hrest (hwritten rest hpath)
  · exact h front rest hpath hrest hat

structure FilledIn (name : String) (path : ObjectPath) (seen : Prop) (state : StateValue α β) :
    Prop where
  way : OpenTo state path
  placed : seen → TensorAt state [.name name] ∧ TensorAt state path

theorem FilledIn.mergeEntry {name other head : String} {info : TensorStorageMetadata}
    {next : PathKey} {rest otherPath : ObjectPath} {seen : Prop}
    (h : FilledIn name (.name head :: next :: rest) seen state)
    (hother : data.get? other = some otherPath) (hdotted : dottedName otherPath = other)
    (hhead : other ≠ head) (hsame : other = name → otherPath = .name head :: next :: rest)
    (hdiverge : other ≠ name → Diverge otherPath (.name head :: next :: rest))
    (hstep : mergeEntry torchDtype uninitialized bytesMetadata setItem (some data) state
      (other, .tensor info) = .ok state') :
    FilledIn name (.name head :: next :: rest) (seen ∨ other = name) state' := by
  obtain ⟨tensor, mid, hfirst, hsecond⟩ :=
    mergeEntry_cases hother (h.way.not_tensor (by simp)) hstep
  have hfirstPath : ¬ [PathKey.name other] <+: .name head :: next :: rest := by simpa using hhead
  have hmid : OpenTo mid (.name head :: next :: rest) := h.way.setElement
    (fun tail htail => absurd ⟨tail, htail.symm⟩ hfirstPath) hfirst
  have hsecondWay : ∀ tail, (.name head :: next :: rest : ObjectPath) = otherPath ++ tail →
      tail = [] := by
    intro tail htail
    by_cases heq : other = name
    · rw [hsame heq] at htail
      exact append_right_eq_self.mp htail.symm
    · exact absurd ⟨tail, htail.symm⟩ (hdiverge heq).1
  refine ⟨hmid.setElement hsecondWay hsecond, fun hseen => ?_⟩
  by_cases heq : other = name
  · -- The entry itself: its name was written first, and its path next.
    have hpath := hsame heq
    have hnot : ¬ otherPath <+: [.name other] := by
      rw [hpath]
      simp
    refine ⟨heq ▸ setElement_keeps hnot ⟨tensor, none, setElement_get? ?_ hfirst⟩ hsecond,
      hpath ▸ ⟨tensor, none, setElement_get? (hpath ▸ hmid) hsecond⟩⟩
    intro front tail hsplit htail
    cases front with
    | nil => exact h.way.not_tensor (by simp)
    | cons key front =>
      rw [cons_append, cons.injEq, nil_eq, append_eq_nil_iff] at hsplit
      exact absurd hsplit.2.2 htail
  · obtain ⟨hname, hat⟩ := h.placed (hseen.resolve_right heq)
    have hotherName : ¬ [PathKey.name other] <+: [.name name] := by simpa using heq
    have hotherPath : ¬ otherPath <+: [.name name] := by
      intro hpre
      rcases prefix_cons_iff.mp hpre with rfl | ⟨tail, rfl, htail⟩
      · exact (hdiverge heq).1 nil_prefix
      · rw [prefix_nil.mp htail, dottedName_singleton] at hdotted
        exact heq hdotted.symm
    exact ⟨setElement_keeps hotherPath (setElement_keeps hotherName hname hfirst) hsecond,
      setElement_keeps (hdiverge heq).1 (setElement_keeps hfirstPath hat hfirst) hsecond⟩

section

variable {name head : String} {next : PathKey} {rest : ObjectPath} (h : Placeable metadata)
  (hpopulate : populate torchDtype uninitialized bytesMetadata setItem metadata = .ok state)
  (hdata : metadata.plannerData = some data) (hname : name ∈ metadata.stateDictMetadata.keys)
  (hpath : data.get? name = some (.name head :: next :: rest))

include h hpopulate hdata hname hpath

theorem populate_twice (hhead : head ∉ metadata.stateDictMetadata.keys) :
    TensorAt state [.name name] ∧ TensorAt state (.name head :: next :: rest) := by
  unfold populate at hpopulate
  rw [hdata] at hpopulate
  have hfilled := foldlM_invariant (fun seen state =>
    (∀ entry ∈ seen, entry ∈ metadata.stateDictMetadata.entries) →
      FilledIn name (.name head :: next :: rest) (name ∈ seen.map Prod.fst) state) ?_ ?_ hpopulate
  · exact (hfilled fun _ => id).placed hname
  · intro seen state entry state' hinv hstep hmem
    obtain ⟨other, md⟩ := entry
    have hentry := metadata.stateDictMetadata.mem_entries_iff.mp (hmem (other, md) (by simp))
    obtain ⟨info, rfl⟩ := h.tensor other md hentry
    obtain ⟨data', otherHead, otherRest, hdata', hother, hdotted⟩ := h.path other _ hentry
    obtain rfl : data = data' := Option.some.inj (hdata.symm.trans hdata')
    have hseen := hinv fun entry hold => hmem entry (mem_append_left _ hold)
    have hnext := hseen.mergeEntry hother hdotted
      (fun heq => hhead (heq ▸ metadata.stateDictMetadata.mem_keys_iff.mpr ⟨_, hentry⟩))
      (fun heq => Option.some.inj (hother.symm.trans (heq ▸ hpath)))
      (fun heq => h.diverge data other name _ _ hdata hother hpath heq) hstep
    refine ⟨hnext.way, fun hin => hnext.placed ?_⟩
    rw [map_append, mem_append] at hin
    exact hin.imp id fun hlast => (by simpa using hlast : name = other).symm
  · intro _
    refine ⟨fun front tail hsplit htail => ?_, fun hin => by cases hin⟩
    rintro ⟨tensor, info, hat⟩
    cases front with
    | nil => cases hat
    | cons key front => cases key <;> cases hat

theorem populate_not_flat (flat : FlatStateDict α β) : flattenStateDict state ≠ .ok flat := by
  intro hflat
  -- By induction on the length of the name: the first key of its path is no shorter name.
  induction hlength : name.length using Nat.strong_induction_on generalizing name head next rest with
  | _ length ih =>
    obtain ⟨md, hmd⟩ := metadata.stateDictMetadata.mem_keys_iff.mp hname
    obtain ⟨data', _, _, hdata', hown, hdotted⟩ := h.path name md hmd
    obtain rfl : data = data' := Option.some.inj (hdata.symm.trans hdata')
    rw [← Option.some.inj (hpath.symm.trans hown)] at hdotted
    have hshorter : head.length < name.length := by
      rw [← hdotted]
      exact text_length_lt (.name head) next rest
    by_cases hhead : head ∈ metadata.stateDictMetadata.keys
    · obtain ⟨headMd, hheadMd⟩ := metadata.stateDictMetadata.mem_keys_iff.mp hhead
      obtain ⟨data', first, tail, hdata', hheadPath, hheadName⟩ := h.path head headMd hheadMd
      obtain rfl : data = data' := Option.some.inj (hdata.symm.trans hdata')
      cases tail with
      | nil =>
        obtain rfl : first = head := by simpa [PathKey.text] using hheadName
        have hne : first ≠ name := by
          rintro rfl
          exact absurd hshorter (Nat.lt_irrefl _)
        exact (h.diverge data first name _ _ hdata hheadPath hpath hne).1 (by simp)
      | cons following tail => exact ih head.length (hlength ▸ hshorter) hhead hheadPath rfl
    · obtain ⟨hplain, hnested⟩ := populate_twice h hpopulate hdata hname hpath hhead
      have hsame := flattenStateDict_unique hflat hplain hnested
        (by rw [dottedName_singleton, hdotted]; rfl)
      cases hsame

end

/-! ## Flat state dicts -/

def emptyValue (uninitialized : List Nat → α) (bytesMetadata : β) : StorageMetadata → StateValue α β
  | .tensor info => .leaf (.tensor ⟨info.properties.dtype.getD "", info.size, uninitialized⟩ none)
  | .bytes => .leaf (.object bytesMetadata)

def emptyEntries (uninitialized : List Nat → α) (bytesMetadata : β) (metadata : Metadata) :
    PyDict String (StateValue α β) :=
  metadata.stateDictMetadata.entries.foldl
    (fun dict entry => dict.set entry.1 (emptyValue uninitialized bytesMetadata entry.2)) .empty

theorem get?_emptyEntries (name : String) :
    (emptyEntries uninitialized bytesMetadata metadata).get? name =
      (metadata.stateDictMetadata.get? name).map (emptyValue uninitialized bytesMetadata) := by
  rw [emptyEntries, PyDict.get?_foldl_set _ metadata.stateDictMetadata.nodup]
  unfold PyDict.get?
  cases metadata.stateDictMetadata.entries.lookup name <;> rfl

def TopLevel (torchDtype : String → Option String) (metadata : Metadata) : Prop :=
  ∀ name md, metadata.stateDictMetadata.get? name = some md → ∃ info dtype data,
    md = .tensor info ∧ info.properties.dtype = some dtype ∧
    strToDtype torchDtype (some dtype) = .ok dtype ∧
    metadata.plannerData = some data ∧ data.get? name = some [.name name]

theorem populate_topLevel (h : TopLevel torchDtype metadata) :
    populate torchDtype uninitialized bytesMetadata setItem metadata =
      .ok (.mapping (emptyEntries uninitialized bytesMetadata metadata).entries) := by
  have hall : ∀ entry ∈ metadata.stateDictMetadata.entries, ∀ dict : PyDict String (StateValue α β),
      mergeEntry torchDtype uninitialized bytesMetadata setItem metadata.plannerData
        (.mapping dict.entries) entry =
      .ok (.mapping (dict.set entry.1 (emptyValue uninitialized bytesMetadata entry.2)).entries) := by
    rintro ⟨name, md⟩ hentry dict
    obtain ⟨info, dtype, data, rfl, hdtype, hresolves, hdata, hpath⟩ :=
      h name md (metadata.stateDictMetadata.mem_entries_iff.mp hentry)
    have hvalue : mergeValue torchDtype uninitialized bytesMetadata (.tensor info) =
        .ok (emptyValue uninitialized bytesMetadata (.tensor info)) := by
      rw [mergeValue, hdtype, hresolves, emptyValue, hdtype]
      rfl
    have hset := @setElement_singleton _ _ setItem
      (.mapping (dict.set name (emptyValue uninitialized bytesMetadata (.tensor info))).entries)
      (emptyValue uninitialized bytesMetadata (.tensor info)) (.name name) not_tensorAt_mapping
    rw [mergeEntry, hvalue]
    simp only [bind, Except.bind, assignItem, liftStateDict, hdata, hpath, Option.bind_some]
    rw [PyDict.set] at hset
    rw [hset]
    simp only [assignItem, PyDict.set, PyDict.setEntry_setEntry]
  suffices hgeneral : ∀ entries ⊆ metadata.stateDictMetadata.entries,
      ∀ dict : PyDict String (StateValue α β), entries.foldlM
        (mergeEntry torchDtype uninitialized bytesMetadata setItem metadata.plannerData)
        (.mapping dict.entries) = .ok (.mapping (entries.foldl (fun dict entry =>
          dict.set entry.1 (emptyValue uninitialized bytesMetadata entry.2)) dict).entries) from
    hgeneral _ (List.Subset.refl _) .empty
  intro entries hsub
  induction entries with
  | nil => exact fun dict => rfl
  | cons entry entries ih =>
    intro dict
    obtain ⟨hentry, hsub⟩ := cons_subset.mp hsub
    rw [foldlM_cons, hall entry hentry dict]
    exact ih hsub _

theorem distinctEntries_of_leaves {entries : List (String × StateValue α β)}
    (h : ∀ entry ∈ entries, ∃ leaf, entry.2 = .leaf leaf) : Nested.DistinctEntries entries := by
  induction entries with
  | nil => trivial
  | cons entry entries ih =>
    obtain ⟨leaf, hleaf⟩ := h entry mem_cons_self
    refine ⟨?_, ih fun other hother => h other (mem_cons_of_mem _ hother)⟩
    rw [hleaf]
    trivial

theorem emptyEntries_leaf {entry : String × StateValue α β}
    (h : entry ∈ (emptyEntries uninitialized bytesMetadata metadata).entries) :
    ∃ leaf, entry.2 = .leaf leaf := by
  have hget := (emptyEntries uninitialized bytesMetadata metadata).mem_entries_iff.mp h
  rw [get?_emptyEntries] at hget
  obtain ⟨md, -, hvalue⟩ := Option.map_eq_some_iff.mp hget
  rw [← hvalue]
  cases md <;> exact ⟨_, rfl⟩

def emptyStateDict (uninitialized : List Nat → α) (bytesMetadata : β) (metadata : Metadata) :
    StateDict α β where
  entries := (emptyEntries uninitialized bytesMetadata metadata).entries
  distinct := ⟨(emptyEntries uninitialized bytesMetadata metadata).nodup,
    distinctEntries_of_leaves fun _ => emptyEntries_leaf⟩

theorem traverseEntries_of_leaves {entries : List (String × StateValue α β)}
    (h : ∀ entry ∈ entries, ∃ leaf, entry.2 = .leaf leaf) :
    StateValue.traverseEntries [] entries =
      entries.map fun entry => ([.name entry.1], entry.2) := by
  induction entries with
  | nil => rfl
  | cons entry entries ih =>
    obtain ⟨name, value⟩ := entry
    obtain ⟨leaf, hleaf⟩ := h (name, value) mem_cons_self
    obtain rfl : value = .leaf leaf := hleaf
    rw [StateValue.traverseEntries, ih fun other hother => h other (mem_cons_of_mem _ hother)]
    rfl

theorem traverse_emptyStateDict :
    traverseStateDict (emptyStateDict uninitialized bytesMetadata metadata).value =
      (emptyEntries uninitialized bytesMetadata metadata).entries.map fun entry =>
        ([.name entry.1], entry.2) :=
  traverseEntries_of_leaves fun _ => emptyEntries_leaf

theorem mem_traverse_emptyStateDict {value : StateValue α β} :
    (path, value) ∈ traverseStateDict (emptyStateDict uninitialized bytesMetadata metadata).value ↔
      ∃ name md, path = [.name name] ∧ metadata.stateDictMetadata.get? name = some md ∧
        value = emptyValue uninitialized bytesMetadata md := by
  rw [traverse_emptyStateDict, mem_map]
  constructor
  · rintro ⟨⟨name, value'⟩, hentry, heq⟩
    obtain ⟨rfl, rfl⟩ := Prod.mk.inj heq
    have hget := (emptyEntries uninitialized bytesMetadata metadata).mem_entries_iff.mp hentry
    rw [get?_emptyEntries] at hget
    obtain ⟨md, hmd, hvalue⟩ := Option.map_eq_some_iff.mp hget
    exact ⟨name, md, rfl, hmd, hvalue.symm⟩
  · rintro ⟨name, md, rfl, hmd, rfl⟩
    refine ⟨(name, emptyValue uninitialized bytesMetadata md), ?_, rfl⟩
    rw [PyDict.mem_entries_iff, get?_emptyEntries, hmd]
    rfl

theorem exists_flat_emptyStateDict : ∃ flat, flattenStateDict
    (emptyStateDict uninitialized bytesMetadata metadata).value = .ok flat := by
  rcases flattenStateDict_cases (emptyStateDict uninitialized bytesMetadata metadata).value with
    ⟨flat, hflat, -⟩ | ⟨fqn, -, hdup⟩
  · exact ⟨flat, hflat⟩
  · refine absurd ?_ hdup
    rw [traverse_emptyStateDict, map_map]
    have hnames : (emptyEntries uninitialized bytesMetadata metadata).entries.map
        (visitName ∘ fun entry => ([.name entry.1], entry.2)) =
        (emptyEntries uninitialized bytesMetadata metadata).entries.map Prod.fst :=
      map_congr_left fun entry _ => dottedName_singleton (.name entry.1)
    rw [hnames]
    exact (emptyEntries uninitialized bytesMetadata metadata).nodup

end Populate

end HyperParallel.Checkpoint
