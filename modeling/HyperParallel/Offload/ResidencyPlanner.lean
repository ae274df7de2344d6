import HyperParallel.Foundation.PyDict
import Mathlib.Data.Prod.Lex

/-!
# Planning residency

A trace says which storages each operation accesses.  A storage is resident from
its first access to its last one; between two adjacent accesses it can be
evicted.  The planner takes the longest gaps first, as long as some operation
inside them is over the limit, and schedules the copies and releases.
-/

namespace HyperParallel.Offload

open Foundation

/-! ## Traces -/

inductive AccessKind where
  | read
  | write
deriving DecidableEq, Repr

structure StorageAccess where
  opId : Nat
  storageId : Nat
  kind : AccessKind
deriving DecidableEq, Repr

structure TraceOp where
  accesses : List StorageAccess

structure ActivationTrace where
  ops : List TraceOp
  storageSizes : PyDict Nat Nat
  retainedSids : List Nat
  memoryLimitBytes : Option Int

/-! ## Schedules -/

inductive ResidencyActionType where
  | copyD2h
  | copyH2d
  | releaseDevice
  | releaseHost
deriving DecidableEq, Repr

structure ResidencyAction where
  opId : Nat
  storageId : Nat
  kind : ResidencyActionType
deriving DecidableEq, Repr

structure ResidencySchedule where
  pre : PyDict Nat (List ResidencyAction)
  post : PyDict Nat (List ResidencyAction)

namespace ResidencySchedule

def empty : ResidencySchedule := ⟨.empty, .empty⟩

def addPre (schedule : ResidencySchedule) (opId : Nat) (kind : ResidencyActionType)
    (storageId : Nat) : ResidencySchedule :=
  { schedule with pre := schedule.pre.appendTo opId ⟨opId, storageId, kind⟩ }

def addPost (schedule : ResidencySchedule) (opId : Nat) (kind : ResidencyActionType)
    (storageId : Nat) : ResidencySchedule :=
  { schedule with post := schedule.post.appendTo opId ⟨opId, storageId, kind⟩ }

def preActions (schedule : ResidencySchedule) (opId : Nat) : List ResidencyAction :=
  (schedule.pre.get? opId).getD []

def postActions (schedule : ResidencySchedule) (opId : Nat) : List ResidencyAction :=
  (schedule.post.get? opId).getD []

variable (schedule : ResidencySchedule) (opId opId' : Nat) (kind : ResidencyActionType)
  (storageId : Nat)

@[simp] theorem preActions_empty : empty.preActions opId = [] := rfl

@[simp] theorem postActions_empty : empty.postActions opId = [] := rfl

@[simp] theorem preActions_addPre :
    (schedule.addPre opId kind storageId).preActions opId' =
      schedule.preActions opId' ++ if opId = opId' then [⟨opId, storageId, kind⟩] else [] := by
  rw [preActions, addPre, PyDict.appendTo, PyDict.get?_set]
  by_cases h : opId' = opId
  · rw [if_pos h, if_pos h.symm, h]
    rfl
  · rw [if_neg h, if_neg (Ne.symm h), List.append_nil]
    rfl

@[simp] theorem postActions_addPost :
    (schedule.addPost opId kind storageId).postActions opId' =
      schedule.postActions opId' ++ if opId = opId' then [⟨opId, storageId, kind⟩] else [] := by
  rw [postActions, addPost, PyDict.appendTo, PyDict.get?_set]
  by_cases h : opId' = opId
  · rw [if_pos h, if_pos h.symm, h]
    rfl
  · rw [if_neg h, if_neg (Ne.symm h), List.append_nil]
    rfl

@[simp] theorem preActions_addPost :
    (schedule.addPost opId kind storageId).preActions opId' = schedule.preActions opId' := rfl

@[simp] theorem postActions_addPre :
    (schedule.addPre opId kind storageId).postActions opId' = schedule.postActions opId' := rfl

end ResidencySchedule

/-! ## Gaps between accesses -/

/-- An open interval between two adjacent accesses. -/
structure EvictionCandidate where
  storageId : Nat
  sizeBytes : Nat
  copyStart : StorageAccess
  releaseStart : StorageAccess
  finish : StorageAccess
deriving DecidableEq, Repr

namespace EvictionCandidate

def distance (candidate : EvictionCandidate) : Int :=
  (candidate.finish.opId : Int) - candidate.releaseStart.opId

def startInterior (candidate : EvictionCandidate) : Nat := candidate.releaseStart.opId + 1

def endInterior (candidate : EvictionCandidate) : Nat := candidate.finish.opId - 1

/-- `range(start_interior, end_interior + 1)` -/
def affectedOps (candidate : EvictionCandidate) : List Nat :=
  List.range' candidate.startInterior (candidate.endInterior + 1 - candidate.startInterior)

def sortKey (candidate : EvictionCandidate) : Int ×ₗ Nat ×ₗ Int :=
  toLex (candidate.distance, toLex (candidate.sizeBytes, -(candidate.releaseStart.opId : Int)))

end EvictionCandidate

structure Footprint where
  sizeBytes : Nat
  firstOpId : Nat
  lastOpId : Nat
  candidacies : List EvictionCandidate
  lastAccess : StorageAccess

def earliestSafeCopyStart (accesses : List StorageAccess) (releaseIndex : Nat) :
    Option StorageAccess :=
  ((accesses.take (releaseIndex + 1)).reverse.find? fun access => access.kind = .write).or
    accesses.head?

def orderedAccesses (accesses : List StorageAccess) : List StorageAccess :=
  accesses.mergeSort fun left right => left.opId ≤ right.opId

def gapCandidate (sid sizeBytes : Nat) (ordered : List StorageAccess)
    (gap : (StorageAccess × StorageAccess) × Nat) : Option EvictionCandidate := do
  let copyStart ← earliestSafeCopyStart ordered gap.2
  let candidate : EvictionCandidate := ⟨sid, sizeBytes, copyStart, gap.1.1, gap.1.2⟩
  if candidate.startInterior ≤ candidate.endInterior then some candidate else none

def processStorageAccesses (sid sizeBytes : Nat) (accesses : List StorageAccess) :
    Option Footprint := do
  let ordered := orderedAccesses accesses
  let first ← ordered.head?
  let last ← ordered.getLast?
  return ⟨sizeBytes, first.opId, last.opId,
    (ordered.zip ordered.tail).zipIdx.filterMap (gapCandidate sid sizeBytes ordered), last⟩

/-! ## The footprint of a trace -/

def groupAccessesByStorage (trace : ActivationTrace) : PyDict Nat (List StorageAccess) :=
  PyDict.group ((trace.ops.flatMap TraceOp.accesses).map fun access => (access.storageId, access))

/-- `for op_id in op_ids: resident_bytes[op_id] += size_bytes` -/
def addAt (residentBytes : List Int) (opIds : List Nat) (sizeBytes : Int) : List Int :=
  opIds.foldl (fun bytes opId => bytes.modify opId (· + sizeBytes)) residentBytes

structure ResidentFootprint where
  residentBytes : List Int
  candidates : List EvictionCandidate
  releasable : PyDict Nat StorageAccess

def footprintStep (trace : ActivationTrace) (footprints : ResidentFootprint)
    (entry : Nat × List StorageAccess) : ResidentFootprint :=
  match trace.storageSizes.get? entry.1 with
  | none => footprints
  | some sizeBytes =>
    match processStorageAccesses entry.1 sizeBytes entry.2 with
    | none => footprints
    | some footprint =>
      ⟨addAt footprints.residentBytes
          (List.range' footprint.firstOpId (footprint.lastOpId + 1 - footprint.firstOpId))
          sizeBytes,
        footprints.candidates ++ footprint.candidacies,
        footprints.releasable.set entry.1 footprint.lastAccess⟩

def sortCandidates (candidates : List EvictionCandidate) : List EvictionCandidate :=
  candidates.mergeSort fun left right => right.sortKey ≤ left.sortKey

def maxOpId (trace : ActivationTrace) : Nat :=
  ((trace.ops.flatMap TraceOp.accesses).map StorageAccess.opId).foldr max 0

def buildResidentFootprint (trace : ActivationTrace)
    (accessesByStorage : PyDict Nat (List StorageAccess)) : ResidentFootprint :=
  let footprints := accessesByStorage.entries.foldl (footprintStep trace)
    ⟨List.replicate (maxOpId trace + 1) 0, [], .empty⟩
  { footprints with candidates := sortCandidates footprints.candidates }

/-! ## Selection -/

def greedySelect (limit : Int) : List EvictionCandidate → List Int →
    List EvictionCandidate × List Int
  | [], residentBytes => ([], residentBytes)
  | candidate :: candidates, residentBytes =>
    if (residentBytes.max?.getD 0) ≤ limit then ([], residentBytes)
    else if !candidate.affectedOps.any fun opId => limit < residentBytes[opId]?.getD 0 then
      greedySelect limit candidates residentBytes
    else
      let rest := greedySelect limit candidates
        (addAt residentBytes candidate.affectedOps (-(candidate.sizeBytes : Int)))
      (candidate :: rest.1, rest.2)

/-! ## The schedule -/

def addEvictionActions (schedule : ResidencySchedule) (candidate : EvictionCandidate) :
    ResidencySchedule :=
  ((schedule.addPost candidate.copyStart.opId .copyD2h candidate.copyStart.storageId).addPost
    candidate.releaseStart.opId .releaseDevice candidate.releaseStart.storageId).addPre
      candidate.finish.opId .copyH2d candidate.finish.storageId

def emitReleaseStep (evictedSids retainedSids : List Nat) (schedule : ResidencySchedule)
    (entry : Nat × StorageAccess) : ResidencySchedule :=
  if entry.1 ∈ retainedSids then schedule
  else
    let schedule := schedule.addPost entry.2.opId .releaseDevice entry.1
    if entry.1 ∈ evictedSids then schedule.addPost entry.2.opId .releaseHost entry.1
    else schedule

def emitReleaseActions (schedule : ResidencySchedule) (selected : List EvictionCandidate)
    (trace : ActivationTrace) (releasable : PyDict Nat StorageAccess) : ResidencySchedule :=
  releasable.entries.foldl
    (emitReleaseStep (selected.map EvictionCandidate.storageId) trace.retainedSids) schedule

def selectFor (trace : ActivationTrace) (limit : Int) : List EvictionCandidate × List Int :=
  let footprint := buildResidentFootprint trace (groupAccessesByStorage trace)
  greedySelect limit footprint.candidates footprint.residentBytes

def buildSchedule (trace : ActivationTrace) : ResidencySchedule :=
  match trace.memoryLimitBytes with
  | none => .empty
  | some limit =>
    if trace.ops = [] then .empty
    else
      let footprint := buildResidentFootprint trace (groupAccessesByStorage trace)
      let selected := (selectFor trace limit).1
      emitReleaseActions (selected.foldl addEvictionActions .empty) selected trace
        footprint.releasable

end HyperParallel.Offload
