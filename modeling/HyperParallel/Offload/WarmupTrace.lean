import HyperParallel.Offload.ResidencyRuns

/-!
# The trace that a warm-up records

The tracker numbers the storages it meets; those that an operation makes are
activations.  An operation is recorded with the activations it takes and the ones
it gives, and its guide binds the latter.  So an activation is first accessed by
the operation that made it, and what the planner gets can be replayed.
-/

namespace HyperParallel.Offload

open Foundation List

/-! ## Tensors -/

structure UntypedStorage where
  key : Nat
  size : Nat
  onCpu : Bool
  ofShadow : Bool
deriving DecidableEq, Repr

structure OpTensor where
  storage : Option UntypedStorage
  shadowSid : Option Nat
  own : ∀ untyped ∈ storage, untyped.ofShadow = shadowSid.isSome

/-! ## The tracker -/

structure ActivationTracker where
  storageTracker : PyDict UntypedStorage Nat
  nextStorageId : Nat
  storageSizes : PyDict Nat Nat
  activationSids : List Nat
  fresh : ∀ untyped sid, storageTracker.get? untyped = some sid → sid < nextStorageId
  distinct : ∀ untyped untyped' sid, storageTracker.get? untyped = some sid →
    storageTracker.get? untyped' = some sid → untyped = untyped'
  known : ∀ sid ∈ activationSids, sid < nextStorageId
  sized : ∀ sid ∈ activationSids, storageSizes.contains sid

namespace ActivationTracker

def initial : ActivationTracker where
  storageTracker := .empty
  nextStorageId := 1
  storageSizes := .empty
  activationSids := []
  fresh := fun _ _ h => nomatch h
  distinct := fun _ _ _ h => nomatch h
  known := fun _ h => nomatch h
  sized := fun _ h => nomatch h

/-- `storage_sizes.setdefault(sid, size)` -/
def setDefaultSize (sizes : PyDict Nat Nat) (sid size : Nat) : PyDict Nat Nat :=
  if sizes.contains sid then sizes else sizes.set sid size

theorem contains_setDefaultSize (sizes : PyDict Nat Nat) (sid size sid' : Nat) :
    (setDefaultSize sizes sid size).contains sid' = (sizes.contains sid' || sid' == sid) := by
  rw [setDefaultSize]
  by_cases hcontains : sizes.contains sid
  · rw [if_pos hcontains]
    by_cases heq : sid' = sid
    · rw [heq, hcontains]
      rfl
    · rw [beq_eq_false_iff_ne.mpr heq, Bool.or_false]
  · rw [if_neg hcontains, PyDict.contains, PyDict.get?_set]
    by_cases heq : sid' = sid
    · simp [heq]
    · rw [if_neg heq, beq_eq_false_iff_ne.mpr heq, Bool.or_false]
      rfl

def idOf (tracker : ActivationTracker) (untyped : UntypedStorage) : Nat :=
  (tracker.storageTracker.get? untyped).getD tracker.nextStorageId

/-- Get or create the ID of a storage. -/
def ensure (tracker : ActivationTracker) (untyped : UntypedStorage) : ActivationTracker :=
  match hget : tracker.storageTracker.get? untyped with
  | some sid =>
    { tracker with
      storageSizes := setDefaultSize tracker.storageSizes sid untyped.size
      sized := fun sid' hactive => by
        rw [contains_setDefaultSize, tracker.sized sid' hactive]
        rfl }
  | none =>
    { storageTracker := tracker.storageTracker.set untyped tracker.nextStorageId
      nextStorageId := tracker.nextStorageId + 1
      storageSizes := setDefaultSize tracker.storageSizes tracker.nextStorageId untyped.size
      activationSids := tracker.activationSids
      fresh := fun untyped' sid h => by
        rw [PyDict.get?_set] at h
        split at h
        · cases h
          exact Nat.lt_succ_self _
        · exact Nat.lt_succ_of_lt (tracker.fresh _ _ h)
      distinct := fun left right sid hleft hright => by
        rw [PyDict.get?_set] at hleft hright
        split at hleft <;> split at hright
        · rename_i hl hr
          exact hl.trans hr.symm
        · cases hleft
          exact absurd (tracker.fresh _ _ hright) (lt_irrefl _)
        · cases hright
          exact absurd (tracker.fresh _ _ hleft) (lt_irrefl _)
        · exact tracker.distinct _ _ _ hleft hright
      known := fun sid hactive => Nat.lt_succ_of_lt (tracker.known sid hactive)
      sized := fun sid hactive => by
        rw [contains_setDefaultSize, tracker.sized sid hactive]
        rfl }

/-- `_ensure_id`: nothing for a tensor without a storage. -/
def ensureId (tracker : ActivationTracker) (tensor : OpTensor) :
    Option Nat × ActivationTracker :=
  match tensor.storage with
  | none => (none, tracker)
  | some untyped => (some (tracker.idOf untyped), tracker.ensure untyped)

def ensureIds (tracker : ActivationTracker) : List OpTensor → List Nat × ActivationTracker
  | [] => ([], tracker)
  | tensor :: tensors =>
    let ensured := tracker.ensureId tensor
    let rest := ensureIds ensured.2 tensors
    (ensured.1.toList ++ rest.1, rest.2)

def activate (tracker : ActivationTracker) (sid : Nat) (hknown : sid < tracker.nextStorageId)
    (hsized : tracker.storageSizes.contains sid) : ActivationTracker :=
  { tracker with
    activationSids := sid :: tracker.activationSids
    known := List.forall_mem_cons.mpr ⟨hknown, tracker.known⟩
    sized := List.forall_mem_cons.mpr ⟨hsized, tracker.sized⟩ }

theorem idOf_known (tracker : ActivationTracker) (untyped : UntypedStorage) :
    tracker.idOf untyped < (tracker.ensure untyped).nextStorageId := by
  rw [idOf, ensure]
  split
  · rename_i sid hget
    rw [hget]
    exact tracker.fresh _ _ hget
  · rename_i hget
    rw [hget]
    exact Nat.lt_succ_self _

theorem idOf_sized (tracker : ActivationTracker) (untyped : UntypedStorage) :
    (tracker.ensure untyped).storageSizes.contains (tracker.idOf untyped) := by
  rw [idOf, ensure]
  split
  · rename_i sid hget
    rw [hget]
    simp [contains_setDefaultSize]
  · rename_i hget
    rw [hget]
    simp [contains_setDefaultSize]

def registerOutput (inputSids : List Nat) (tracker : ActivationTracker) (tensor : OpTensor) :
    ActivationTracker :=
  match tensor.storage with
  | none => tracker
  | some untyped =>
    if tracker.idOf untyped ∈ inputSids then tracker.ensure untyped
    else (tracker.ensure untyped).activate (tracker.idOf untyped) (tracker.idOf_known untyped)
      (tracker.idOf_sized untyped)

def registerOpActivations (tracker : ActivationTracker) (inputs outputs : List OpTensor) :
    ActivationTracker :=
  let ensured := tracker.ensureIds inputs
  outputs.foldl (registerOutput ensured.1) ensured.2

def getActivationSid (tracker : ActivationTracker) (tensor : OpTensor) : Option Nat :=
  tensor.shadowSid.or (tensor.storage.bind fun untyped =>
    if untyped.onCpu then none
    else (tracker.storageTracker.get? untyped).filter (· ∈ tracker.activationSids))

theorem getActivationSid_plain {tracker : ActivationTracker} {tensor : OpTensor} {sid : Nat}
    (hplain : tensor.shadowSid = none) (h : tracker.getActivationSid tensor = some sid) :
    ∃ untyped, tensor.storage = some untyped ∧ untyped.onCpu = false ∧
      tracker.storageTracker.get? untyped = some sid ∧ sid ∈ tracker.activationSids := by
  rw [getActivationSid, hplain, Option.none_or, Option.bind_eq_some_iff] at h
  obtain ⟨untyped, hstorage, h⟩ := h
  split at h
  · cases h
  · rename_i hcpu
    obtain ⟨hget, hactive⟩ := Option.filter_eq_some_iff.mp h
    exact ⟨untyped, hstorage, Bool.eq_false_iff.mpr hcpu, hget, of_decide_eq_true hactive⟩

theorem getActivationSid_of_active {tracker : ActivationTracker} {tensor : OpTensor}
    {untyped : UntypedStorage} {sid : Nat} (hplain : tensor.shadowSid = none)
    (hstorage : tensor.storage = some untyped) (hcpu : untyped.onCpu = false)
    (hget : tracker.storageTracker.get? untyped = some sid)
    (hactive : sid ∈ tracker.activationSids) :
    tracker.getActivationSid tensor = some sid := by
  rw [getActivationSid, hplain, hstorage, Option.none_or, Option.bind_some, hcpu,
    if_neg Bool.false_ne_true, hget]
  exact Option.filter_eq_some_iff.mpr ⟨rfl, by simpa using hactive⟩

/-- What becomes of a tracker: storages keep their IDs, and new activations are of `made`. -/
structure Grows (made : List OpTensor) (before after : ActivationTracker) : Prop where
  sizes : ∀ sid, before.storageSizes.contains sid → after.storageSizes.contains sid
  kept : ∀ untyped sid, before.storageTracker.get? untyped = some sid →
    after.storageTracker.get? untyped = some sid
  stays : ∀ sid ∈ before.activationSids, sid ∈ after.activationSids
  active : ∀ untyped sid, after.storageTracker.get? untyped = some sid →
    sid ∈ after.activationSids →
      (before.storageTracker.get? untyped = some sid ∧ sid ∈ before.activationSids) ∨
        ∃ tensor ∈ made, tensor.storage = some untyped

variable {tracker : ActivationTracker}

theorem Grows.refl (tracker : ActivationTracker) : Grows [] tracker tracker :=
  ⟨fun _ h => h, fun _ _ h => h, fun _ h => h, fun _ _ h hactive => .inl ⟨h, hactive⟩⟩

theorem Grows.trans {made made' : List OpTensor} {before middle after : ActivationTracker}
    (h : Grows made before middle) (h' : Grows made' middle after) :
    Grows (made ++ made') before after where
  sizes sid hsized := h'.sizes sid (h.sizes sid hsized)
  kept untyped sid hget := h'.kept untyped sid (h.kept untyped sid hget)
  stays sid hactive := h'.stays sid (h.stays sid hactive)
  active untyped sid hget hactive := by
    rcases h'.active untyped sid hget hactive with ⟨hget', hactive'⟩ | ⟨tensor, htensor, heq⟩
    · rcases h.active untyped sid hget' hactive' with hbefore | ⟨tensor, htensor, heq⟩
      · exact .inl hbefore
      · exact .inr ⟨tensor, mem_append_left _ htensor, heq⟩
    · exact .inr ⟨tensor, mem_append_right _ htensor, heq⟩

theorem ensure_activationSids (tracker : ActivationTracker) (untyped : UntypedStorage) :
    (tracker.ensure untyped).activationSids = tracker.activationSids := by
  rw [ensure]
  split <;> rfl

theorem ensure_get? (tracker : ActivationTracker) (untyped untyped' : UntypedStorage) :
    (tracker.ensure untyped).storageTracker.get? untyped' =
      if untyped' = untyped then some (tracker.idOf untyped)
      else tracker.storageTracker.get? untyped' := by
  rw [idOf, ensure]
  split
  · rename_i sid hget
    rw [hget]
    split
    · rename_i heq
      rw [heq]
      exact hget
    · rfl
  · rename_i hget
    rw [hget]
    exact PyDict.get?_set _ _ _ _

theorem ensure_grows (tracker : ActivationTracker) (untyped : UntypedStorage) :
    Grows [] tracker (tracker.ensure untyped) where
  sizes sid hsized := by
    rw [ensure]
    split
    · rw [contains_setDefaultSize, hsized]
      rfl
    · rw [contains_setDefaultSize, hsized]
      rfl
  kept untyped' sid hget := by
    rw [ensure_get?]
    split
    · rename_i heq
      rw [idOf, ← heq, hget]
      rfl
    · exact hget
  stays sid hactive := by
    rw [ensure_activationSids]
    exact hactive
  active untyped' sid hget hactive := by
    rw [ensure_activationSids] at hactive
    rw [ensure_get?] at hget
    refine .inl ⟨?_, hactive⟩
    split at hget
    · -- an ID that is new is no activation's
      rename_i heq
      rw [heq]
      cases hold : tracker.storageTracker.get? untyped with
      | some sid' =>
        rw [idOf, hold] at hget
        exact hget
      | none =>
        rw [idOf, hold] at hget
        cases hget
        exact absurd (tracker.known _ hactive) (lt_irrefl _)
    · exact hget

theorem ensureIds_grows (tracker : ActivationTracker) (tensors : List OpTensor) :
    Grows [] tracker (tracker.ensureIds tensors).2 := by
  induction tensors generalizing tracker with
  | nil => exact .refl tracker
  | cons tensor tensors ih =>
    have hone : Grows [] tracker (tracker.ensureId tensor).2 := by
      rw [ensureId]
      cases tensor.storage with
      | none => exact .refl tracker
      | some untyped => exact ensure_grows tracker untyped
    exact hone.trans (ih _)

theorem registerOutput_grows (inputSids : List Nat) (tracker : ActivationTracker)
    (tensor : OpTensor) : Grows [tensor] tracker (registerOutput inputSids tracker tensor) := by
  have hmore : ∀ {after}, Grows [] tracker after → Grows [tensor] tracker after := fun h =>
    ⟨h.sizes, h.kept, h.stays, fun untyped sid hget hactive =>
      .inl ((h.active untyped sid hget hactive).resolve_right fun ⟨_, hmem, _⟩ => nomatch hmem)⟩
  rw [registerOutput]
  cases hstorage : tensor.storage with
  | none => exact hmore (.refl tracker)
  | some untyped =>
    have hensure := ensure_grows tracker untyped
    dsimp only
    split
    · exact hmore hensure
    · refine ⟨hensure.sizes, hensure.kept,
        fun sid hactive => mem_cons_of_mem _ (hensure.stays sid hactive),
        fun untyped' sid hget hactive => ?_⟩
      rcases mem_cons.mp hactive with rfl | hold
      · -- the storage of the ID is the output's
        refine .inr ⟨tensor, mem_singleton_self _, ?_⟩
        have hself : (tracker.ensure untyped).storageTracker.get? untyped =
            some (tracker.idOf untyped) := by
          rw [ensure_get?, if_pos rfl]
        rw [hstorage, (tracker.ensure untyped).distinct _ _ _ hself hget]
      · exact .inl ((hensure.active untyped' sid hget hold).resolve_right
          fun ⟨_, hmem, _⟩ => nomatch hmem)

theorem registerOpActivations_grows (tracker : ActivationTracker) (inputs outputs : List OpTensor) :
    Grows outputs tracker (tracker.registerOpActivations inputs outputs) := by
  rw [registerOpActivations]
  have houtputs : ∀ start : ActivationTracker,
      Grows outputs start (outputs.foldl (registerOutput (tracker.ensureIds inputs).1) start) := by
    intro start
    induction outputs generalizing start with
    | nil => exact .refl start
    | cons tensor outputs ih => exact (registerOutput_grows _ start tensor).trans (ih _)
  exact (ensureIds_grows tracker inputs).trans (houtputs _)

end ActivationTracker

/-! ## Recording -/

structure OpRun where
  inputs : List (OpTensor × Bool)
  outputs : List (Option OpTensor)

structure WarmupExecutor where
  tracker : ActivationTracker
  ops : List TraceOp
  guide : List (List Nat)

def addAccess (accesses : List StorageAccess) (access : StorageAccess) : List StorageAccess :=
  if access ∈ accesses then accesses else accesses ++ [access]

theorem mem_foldl_addAccess {access : StorageAccess} (found : List StorageAccess)
    (accesses : List StorageAccess) :
    access ∈ found.foldl addAccess accesses ↔ access ∈ accesses ∨ access ∈ found := by
  induction found generalizing accesses with
  | nil => simp
  | cons first found ih =>
    rw [foldl_cons, ih, addAccess]
    split
    · rename_i hseen
      constructor
      · rintro (h | h)
        · exact .inl h
        · exact .inr (mem_cons_of_mem _ h)
      · rintro (h | h)
        · exact .inl h
        · rcases mem_cons.mp h with rfl | h
          · exact .inl hseen
          · exact .inr h
    · rw [mem_append, mem_singleton, mem_cons, or_assoc]

namespace WarmupExecutor

def inputAccesses (tracker : ActivationTracker) (opIdx : Nat) (inputs : List (OpTensor × Bool)) :
    List StorageAccess :=
  inputs.filterMap fun input => (tracker.getActivationSid input.1).map fun sid =>
    ⟨opIdx, sid, if input.2 then .write else .read⟩

def outputAccesses (opIdx : Nat) (bindings : List Nat) : List StorageAccess :=
  bindings.map fun sid => ⟨opIdx, sid, .write⟩

def outputBindings (tracker : ActivationTracker) (outputs : List (Option OpTensor)) : List Nat :=
  outputs.filterMap fun leaf => leaf.bind tracker.getActivationSid

def onOpEnd (executor : WarmupExecutor) (run : OpRun) : WarmupExecutor :=
  let tracker := executor.tracker.registerOpActivations (run.inputs.map Prod.fst)
    (run.outputs.filterMap id)
  let opIdx := executor.ops.length
  let bindings := outputBindings tracker run.outputs
  let accesses := (inputAccesses tracker opIdx run.inputs ++
    outputAccesses opIdx bindings).foldl addAccess []
  ⟨tracker, executor.ops ++ [⟨accesses⟩], executor.guide ++ [bindings]⟩

def finish (executor : WarmupExecutor) (retainedSids : List Nat) (limit : Int) :
    ActivationTrace × List (List Nat) :=
  (⟨executor.ops, executor.tracker.storageSizes, retainedSids, some limit⟩, executor.guide)

/-- An output bound before; a shadow tensor carries no other ID. -/
def Bound (guide : List (List Nat)) (sid : Nat) : Prop := ∃ sids ∈ guide, sid ∈ sids

inductive Recorded : WarmupExecutor → Prop
  | start : Recorded ⟨.initial, [], []⟩
  | op {executor : WarmupExecutor} {run : OpRun} (h : Recorded executor)
      (shadows : ∀ tensor ∈ run.inputs.map Prod.fst ++ run.outputs.filterMap id,
        ∀ sid ∈ tensor.shadowSid, Bound executor.guide sid) :
      Recorded (executor.onOpEnd run)

/-! ## What is recorded can be replayed -/

structure Records (executor : WarmupExecutor) : Prop where
  length_eq : executor.guide.length = executor.ops.length
  opIds : ∀ (i : Nat) op, executor.ops[i]? = some op → ∀ access ∈ op.accesses, access.opId = i
  sized : ∀ sid, Bound executor.guide sid → executor.tracker.storageSizes.contains sid
  bound : ∀ (i : Nat) sids, executor.guide[i]? = some sids → ∀ sid ∈ sids, ∃ op,
    executor.ops[i]? = some op ∧ ∃ access ∈ op.accesses, access.storageId = sid
  first : ∀ (i : Nat) op, executor.ops[i]? = some op → ∀ access ∈ op.accesses, ∃ j ≤ i,
    ∃ sids, executor.guide[j]? = some sids ∧ access.storageId ∈ sids
  active : ∀ untyped sid, executor.tracker.storageTracker.get? untyped = some sid →
    sid ∈ executor.tracker.activationSids → untyped.onCpu = false → untyped.ofShadow = false →
      Bound executor.guide sid

variable {executor : WarmupExecutor} {run : OpRun}

theorem getElem?_append_singleton {α : Type*} {items : List α} {item item' : α} {i : Nat} :
    (items ++ [item])[i]? = some item' ↔
      items[i]? = some item' ∨ (i = items.length ∧ item = item') := by
  rcases Nat.lt_trichotomy i items.length with hlt | heq | hgt
  · rw [getElem?_append_left hlt]
    exact ⟨.inl, fun h => h.resolve_right fun hend => absurd hend.1 hlt.ne⟩
  · subst heq
    simp
  · rw [getElem?_eq_none (by simp; omega), getElem?_eq_none hgt.le]
    simp [hgt.ne']

theorem mem_accesses {tracker : ActivationTracker} {opIdx : Nat} {access : StorageAccess} :
    access ∈ (inputAccesses tracker opIdx run.inputs ++
        outputAccesses opIdx (outputBindings tracker run.outputs)).foldl addAccess [] →
      access.opId = opIdx ∧
        ∃ tensor ∈ run.inputs.map Prod.fst ++ run.outputs.filterMap id,
          tracker.getActivationSid tensor = some access.storageId := by
  rw [mem_foldl_addAccess, mem_append]
  rintro (hnone | hinput | houtput)
  · cases hnone
  · obtain ⟨input, hmem, heq⟩ := mem_filterMap.mp hinput
    obtain ⟨sid, hsid, rfl⟩ := Option.map_eq_some_iff.mp heq
    exact ⟨rfl, input.1, mem_append_left _ (mem_map_of_mem hmem), hsid⟩
  · obtain ⟨sid, hsid, rfl⟩ := mem_map.mp houtput
    obtain ⟨leaf, hmem, heq⟩ := mem_filterMap.mp hsid
    obtain ⟨tensor, rfl, hsid⟩ := Option.bind_eq_some_iff.mp heq
    exact ⟨rfl, tensor, mem_append_right _ (mem_filterMap.mpr ⟨_, hmem, rfl⟩), hsid⟩

section

variable (hrecords : Records executor)
  (shadows : ∀ tensor ∈ run.inputs.map Prod.fst ++ run.outputs.filterMap id,
    ∀ sid ∈ tensor.shadowSid, Bound executor.guide sid)

include hrecords shadows

theorem activation_bound {tensor : OpTensor}
    (htensor : tensor ∈ run.inputs.map Prod.fst ++ run.outputs.filterMap id)
    {sid : Nat} (hsid : (executor.onOpEnd run).tracker.getActivationSid tensor = some sid) :
    Bound (executor.onOpEnd run).guide sid := by
  have hold : ∀ {sid}, Bound executor.guide sid → Bound (executor.onOpEnd run).guide sid :=
    fun ⟨sids, hmem, hin⟩ => ⟨sids, mem_append_left _ hmem, hin⟩
  have hgrows := executor.tracker.registerOpActivations_grows (run.inputs.map Prod.fst)
    (run.outputs.filterMap id)
  cases hshadow : tensor.shadowSid with
  | some shadowSid =>
    rw [ActivationTracker.getActivationSid, hshadow] at hsid
    cases hsid
    exact hold (shadows tensor htensor sid hshadow)
  | none =>
    obtain ⟨untyped, hstorage, hcpu, hget, hactive⟩ :=
      ActivationTracker.getActivationSid_plain hshadow hsid
    have hown := tensor.own untyped hstorage
    rw [hshadow] at hown
    rcases hgrows.active untyped sid hget hactive with ⟨hget', hactive'⟩ | ⟨output, hmem, heq⟩
    · exact hold (hrecords.active untyped sid hget' hactive' hcpu hown)
    · -- the storage is an output's, which is bound here
      have hplain : output.shadowSid = none := by
        have hown' := output.own untyped heq
        rw [hown] at hown'
        exact Option.isNone_iff_eq_none.mp (Option.isSome_eq_false_iff.mp hown'.symm)
      have hbinding : (executor.onOpEnd run).tracker.getActivationSid output = some sid :=
        ActivationTracker.getActivationSid_of_active hplain heq hcpu hget hactive
      obtain ⟨leaf, hleaf, hid⟩ := mem_filterMap.mp hmem
      refine ⟨_, mem_append_right _ (mem_singleton_self _), ?_⟩
      refine mem_filterMap.mpr ⟨leaf, hleaf, ?_⟩
      rw [show leaf = some output from hid]
      exact hbinding

theorem Records.onOpEnd : Records (executor.onOpEnd run) := by
  have hgrows := executor.tracker.registerOpActivations_grows (run.inputs.map Prod.fst)
    (run.outputs.filterMap id)
  refine ⟨?_, ?_, ?_, ?_, ?_, ?_⟩
  · rw [WarmupExecutor.onOpEnd, length_append, length_append, hrecords.length_eq]
    rfl
  · intro i op hop access haccess
    rcases getElem?_append_singleton.mp hop with hold | ⟨rfl, rfl⟩
    · exact hrecords.opIds i op hold access haccess
    · exact (mem_accesses haccess).1
  · rintro sid ⟨sids, hsids, hsid⟩
    rcases mem_append.mp hsids with hold | hnew
    · exact hgrows.sizes sid (hrecords.sized sid ⟨sids, hold, hsid⟩)
    · rw [mem_singleton.mp hnew] at hsid
      obtain ⟨leaf, hleaf, heq⟩ := mem_filterMap.mp hsid
      obtain ⟨tensor, rfl, hactivation⟩ := Option.bind_eq_some_iff.mp heq
      cases hshadow : tensor.shadowSid with
      | some shadowSid =>
        rw [ActivationTracker.getActivationSid, hshadow] at hactivation
        cases hactivation
        exact hgrows.sizes sid (hrecords.sized sid (shadows tensor
          (mem_append_right _ (mem_filterMap.mpr ⟨_, hleaf, rfl⟩)) sid hshadow))
      | none =>
        obtain ⟨untyped, -, -, -, hactive⟩ :=
          ActivationTracker.getActivationSid_plain hshadow hactivation
        exact ActivationTracker.sized _ sid hactive
  · intro i sids hsids sid hsid
    rcases getElem?_append_singleton.mp hsids with hold | ⟨rfl, rfl⟩
    · obtain ⟨op, hop, haccess⟩ := hrecords.bound i sids hold sid hsid
      exact ⟨op, getElem?_append_singleton.mpr (.inl hop), haccess⟩
    · refine ⟨_, getElem?_append_singleton.mpr (.inr ⟨hrecords.length_eq, rfl⟩),
        ⟨executor.ops.length, sid, .write⟩, ?_, rfl⟩
      rw [mem_foldl_addAccess]
      exact .inr (mem_append_right _ (mem_map.mpr ⟨sid, hsid, rfl⟩))
  · intro i op hop access haccess
    rcases getElem?_append_singleton.mp hop with hold | ⟨rfl, rfl⟩
    · obtain ⟨j, hj, sids, hsids, hin⟩ := hrecords.first i op hold access haccess
      exact ⟨j, hj, sids, getElem?_append_singleton.mpr (.inl hsids), hin⟩
    · obtain ⟨-, tensor, htensor, hsid⟩ := mem_accesses haccess
      obtain ⟨sids, hsids, hin⟩ := activation_bound hrecords shadows htensor hsid
      obtain ⟨j, hj⟩ := mem_iff_getElem?.mp hsids
      refine ⟨j, ?_, sids, hj, hin⟩
      have hlt := (List.getElem?_eq_some_iff.mp hj).1
      rw [WarmupExecutor.onOpEnd, length_append, hrecords.length_eq, length_singleton] at hlt
      omega
  · intro untyped sid hget hactive hcpu hshadow
    rcases hgrows.active untyped sid hget hactive with ⟨hget', hactive'⟩ | ⟨output, hmem, heq⟩
    · obtain ⟨sids, hsids, hin⟩ := hrecords.active untyped sid hget' hactive' hcpu hshadow
      exact ⟨sids, mem_append_left _ hsids, hin⟩
    · have hplain : output.shadowSid = none := by
        have hown := output.own untyped heq
        rw [hshadow] at hown
        exact Option.isNone_iff_eq_none.mp (Option.isSome_eq_false_iff.mp hown.symm)
      exact activation_bound hrecords shadows (mem_append_right _ hmem)
        (ActivationTracker.getActivationSid_of_active hplain heq hcpu hget hactive)

end

theorem Recorded.records {executor : WarmupExecutor} (h : Recorded executor) :
    Records executor := by
  induction h with
  | start =>
    refine ⟨rfl, fun i op hop => ?_, fun sid hsid => ?_, fun i sids hsids => ?_,
      fun i op hop => ?_, fun untyped sid hget => ?_⟩
    · cases hop
    · obtain ⟨sids, hmem, -⟩ := hsid
      cases hmem
    · cases hsids
    · cases hop
    · cases hget
  | op h shadows ih => exact ih.onOpEnd shadows

theorem Recorded.replayable {executor : WarmupExecutor} (h : Recorded executor)
    (retainedSids : List Nat) (limit : Int) :
    Replayable (executor.finish retainedSids limit).1 (executor.finish retainedSids limit).2 := by
  have hrecords := h.records
  have htouches : ∀ {sid opId : Nat}, Touches (executor.finish retainedSids limit).1 sid opId ↔
      ∃ op, executor.ops[opId]? = some op ∧ ∃ access ∈ op.accesses, access.storageId = sid := by
    intro sid opId
    constructor
    · rintro ⟨access, haccess, rfl, rfl⟩
      obtain ⟨op, hop, hin⟩ := mem_flatMap.mp haccess
      obtain ⟨i, hi⟩ := mem_iff_getElem?.mp hop
      exact ⟨op, (hrecords.opIds i op hi access hin).symm ▸ hi, access, hin, rfl⟩
    · rintro ⟨op, hop, access, hin, rfl⟩
      exact ⟨access, mem_flatMap.mpr ⟨op, mem_of_getElem? hop, hin⟩, rfl,
        hrecords.opIds opId op hop access hin⟩
  refine ⟨hrecords.length_eq, ?_, ?_, ?_⟩
  · intro sid opId htouch
    obtain ⟨op, hop, access, hin, rfl⟩ := htouches.mp htouch
    obtain ⟨j, -, sids, hsids, hbound⟩ := hrecords.first opId op hop access hin
    exact Option.isSome_iff_exists.mp (hrecords.sized _ ⟨sids, mem_of_getElem? hsids, hbound⟩)
  · intro opId sids hsids sid hsid
    exact htouches.mpr (hrecords.bound opId sids hsids sid hsid)
  · intro sid opId htouch hfirst
    obtain ⟨op, hop, access, hin, rfl⟩ := htouches.mp htouch
    obtain ⟨j, hj, sids, hsids, hbound⟩ := hrecords.first opId op hop access hin
    have hle := hfirst j (htouches.mpr (hrecords.bound j sids hsids _ hbound))
    exact ⟨sids, le_antisymm hj hle ▸ hsids, hbound⟩

def oneOutput : OpRun := ⟨[], [some ⟨some ⟨0, 8, false, false⟩, none, by simp⟩]⟩

theorem Recorded.replayable_one :
    Replayable ((onOpEnd ⟨.initial, [], []⟩ oneOutput).finish [] 0).1
      ((onOpEnd ⟨.initial, [], []⟩ oneOutput).finish [] 0).2 :=
  replayable (.op .start (by simp [oneOutput])) [] 0

end WarmupExecutor

end HyperParallel.Offload
