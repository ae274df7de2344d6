import HyperParallel.Foundation.PySequence
import HyperParallel.Offload.ResidencyPlanner
import Mathlib.Algebra.Ring.Nat

/-!
# Replaying a schedule

The manager holds, for each storage, a buffer on the device and a copy on the
host.  A replayed operation runs its pre-actions, binds its outputs, and runs its
post-actions.  Only taking a host buffer from the pool depends on more than that.
-/

namespace HyperParallel.Offload

open Foundation

variable {π : Type}

/-! ## Buffers -/

structure PhysicalBuffer where
  hostBuffer : Option Nat
  deviceBuffer : Option Nat
deriving DecidableEq, Repr

inductive ReplayError where
  | noPhysicalBuffer (storageId : Nat)
  | noDeviceData (storageId : Nat)
  | noHostData (storageId : Nat)
  | poolExhausted
  | unsupportedAction (action : ResidencyAction)
  | opCountExceeds (opId : Nat)
deriving DecidableEq, Repr

structure HostPool (π : Type) where
  acquire : π → Nat → Option π
  release : π → Nat → π

structure ResidencyManager (π : Type) where
  residency : PyDict Nat PhysicalBuffer
  hostPool : π

namespace ResidencyManager

variable (pool : HostPool π) (manager : ResidencyManager π) (sid : Nat)

def residentBytes : Nat :=
  (manager.residency.values.map fun buffer => buffer.deviceBuffer.getD 0).sum

def bind (size : Nat) : ResidencyManager π :=
  let buffer := (manager.residency.get? sid).getD ⟨none, none⟩
  { manager with residency := manager.residency.set sid { buffer with deviceBuffer := some size } }

def copyD2h : Except ReplayError (ResidencyManager π) :=
  match manager.residency.get? sid with
  | none => .error (.noPhysicalBuffer sid)
  | some buffer =>
    if buffer.hostBuffer.isSome then .ok manager
    else
      match buffer.deviceBuffer with
      | none => .error (.noDeviceData sid)
      | some size =>
        match pool.acquire manager.hostPool size with
        | none => .error .poolExhausted
        | some hostPool =>
          .ok ⟨manager.residency.set sid { buffer with hostBuffer := some size }, hostPool⟩

def copyH2d : Except ReplayError (ResidencyManager π) :=
  match manager.residency.get? sid with
  | none => .error (.noPhysicalBuffer sid)
  | some buffer =>
    if buffer.deviceBuffer.isSome then .ok manager
    else
      match buffer.hostBuffer with
      | none => .error (.noHostData sid)
      | some size =>
        .ok { manager with
          residency := manager.residency.set sid { buffer with deviceBuffer := some size } }

def releaseDevice : ResidencyManager π :=
  match manager.residency.get? sid with
  | none => manager
  | some buffer =>
    if buffer.deviceBuffer.isNone then manager
    else if buffer.hostBuffer.isNone then
      { manager with residency := manager.residency.erase sid }
    else
      { manager with
        residency := manager.residency.set sid { buffer with deviceBuffer := none } }

def releaseHost : ResidencyManager π :=
  match manager.residency.get? sid with
  | none => manager
  | some buffer =>
    match buffer.hostBuffer with
    | none => manager
    | some size =>
      let hostPool := pool.release manager.hostPool size
      if buffer.deviceBuffer.isNone then ⟨manager.residency.erase sid, hostPool⟩
      else ⟨manager.residency.set sid { buffer with hostBuffer := none }, hostPool⟩

end ResidencyManager

/-! ## Operations -/

section Replay

variable (pool : HostPool π) (schedule : ResidencySchedule) (sizeOf : Nat → Nat)
  (guide : List (List Nat))

def runPreAction (manager : ResidencyManager π) (action : ResidencyAction) :
    Except ReplayError (ResidencyManager π) :=
  match action.kind with
  | .copyH2d => manager.copyH2d action.storageId
  | _ => .error (.unsupportedAction action)

def runPostAction (manager : ResidencyManager π) (action : ResidencyAction) :
    Except ReplayError (ResidencyManager π) :=
  match action.kind with
  | .copyD2h => manager.copyD2h pool action.storageId
  | .releaseDevice => .ok (manager.releaseDevice action.storageId)
  | .releaseHost => .ok (manager.releaseHost pool action.storageId)
  | .copyH2d => .error (.unsupportedAction action)

def onOpBegin (opId : Nat) (manager : ResidencyManager π) :
    Except ReplayError (ResidencyManager π) :=
  if guide.length ≤ opId then .error (.opCountExceeds opId)
  else (schedule.preActions opId).foldlM runPreAction manager

def applyShadows (opId : Nat) (manager : ResidencyManager π) : ResidencyManager π :=
  ((guide[opId]?).getD []).foldl (fun manager sid => manager.bind sid (sizeOf sid)) manager

def runPostActions (opId : Nat) (manager : ResidencyManager π) :
    Except ReplayError (ResidencyManager π) :=
  (schedule.postActions opId).foldlM (runPostAction pool) manager

/-- One operation up to its output binding. -/
def duringOp (opId : Nat) (manager : ResidencyManager π) :
    Except ReplayError (ResidencyManager π) :=
  (onOpBegin schedule guide opId manager).map (applyShadows sizeOf guide opId)

def replayOp (manager : ResidencyManager π) (opId : Nat) :
    Except ReplayError (ResidencyManager π) := do
  let manager ← duringOp schedule sizeOf guide opId manager
  runPostActions pool schedule opId manager

def replayBefore (hostPool : π) (opId : Nat) : Except ReplayError (ResidencyManager π) :=
  (List.range opId).foldlM (replayOp pool schedule sizeOf guide) ⟨.empty, hostPool⟩

def residentDuring (hostPool : π) (opId : Nat) : Except ReplayError Nat := do
  let manager ← replayBefore pool schedule sizeOf guide hostPool opId
  let manager ← duringOp schedule sizeOf guide opId manager
  return manager.residentBytes

end Replay

end HyperParallel.Offload
