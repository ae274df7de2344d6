import HyperParallel.Foundation.PyDict
import HyperParallel.Foundation.StepRuns
import Mathlib.Algebra.Order.Group.Nat

/-!
# The pool of pinned host buffers

Buffers handed back wait under the size of their bucket: in the pool when they may be
reused at once, among the pending ones while a transfer may still read them.  An event
is known by the tick of the clock it finishes at, and every look at an event takes one
tick, so any order of finishing and looking is some choice of the ticks.
-/

namespace HyperParallel.Offload.PinnedMemory

open Foundation List

structure Storage where
  address : ℕ
  size : ℕ
  pinned : Bool
  device : String
deriving DecidableEq

/-- A byte tensor: the first `numel` bytes of its storage. -/
structure Tensor where
  storage : Storage
  numel : ℕ
deriving DecidableEq

/-- `tensor[:size]`. -/
def Tensor.head (tensor : Tensor) (size : ℕ) : Tensor :=
  { tensor with numel := min size tensor.numel }

def Storage.fullTensor (storage : Storage) : Tensor := ⟨storage, storage.size⟩

def bucketSizes : List ℕ := (List.range' 10 22).map (2 ^ ·)

/-- The smallest bucket that holds `size` bytes; a larger request is its own bucket. -/
def alignToBucket (size : ℕ) : ℕ := (bucketSizes.find? (size ≤ ·)).getD size

def bucketFor (size : ℕ) : ℕ := alignToBucket size

def reusableBuckets (bucket : ℕ) : List ℕ := bucket :: bucketSizes.filter (bucket < ·)

structure PinnedMemoryPool (Event : Type*) where
  pool : PyDict ℕ (List Tensor)
  pending : PyDict ℕ (List (Tensor × Event))
  totalAllocated : ℕ
  maxHostBytes : ℕ

variable {Event : Type*} (finishTime : Event → ℕ)

/-- The loop of `_reclaim_locked` from the tick `now` on: the grown pool, the entries that
are still pending and the tick after the last look. -/
def sweep (bucket : ℕ) : List (Tensor × Event) → PyDict ℕ (List Tensor) → ℕ →
    PyDict ℕ (List Tensor) × List (Tensor × Event) × ℕ
  | [], pool, now => (pool, [], now)
  | (tensor, event) :: rest, pool, now =>
    if finishTime event ≤ now then
      sweep bucket rest (pool.appendTo bucket tensor) (now + 1)
    else
      let swept := sweep bucket rest pool (now + 1)
      (swept.1, (tensor, event) :: swept.2.1, swept.2.2)

namespace PinnedMemoryPool

def start (maxHostBytes : ℕ) : PinnedMemoryPool Event := ⟨.empty, .empty, 0, maxHostBytes⟩

def reclaimLocked (pool : PinnedMemoryPool Event) (bucket now : ℕ) : PinnedMemoryPool Event × ℕ :=
  match pool.pending.get? bucket with
  | none => (pool, now)
  | some entries =>
    let swept := sweep finishTime bucket entries pool.pool now
    ({ pool with pool := swept.1, pending := pool.pending.set bucket swept.2.1 }, swept.2.2)

/-- The loop of `acquire` over the buckets it may reuse. -/
def takeReady (pool : PinnedMemoryPool Event) (now : ℕ) :
    List ℕ → Option Tensor × PinnedMemoryPool Event × ℕ
  | [] => (none, pool, now)
  | bucket :: rest =>
    let reclaimed := pool.reclaimLocked finishTime bucket now
    match (reclaimed.1.pool.listAt bucket).getLast? with
    | some tensor =>
      (some tensor,
        { reclaimed.1 with
          pool := reclaimed.1.pool.set bucket (reclaimed.1.pool.listAt bucket).dropLast },
        reclaimed.2)
    | none => takeReady reclaimed.1 reclaimed.2 rest

def exhausted (pool : PinnedMemoryPool Event) (size : ℕ) : String :=
  s!"PinnedMemoryPool exhausted: total_allocated={pool.totalAllocated}, " ++
    s!"max_host_bytes={pool.maxHostBytes}, requested={size}"

/-- `acquire`, called at the tick `now`; `address` is where a new storage would lie. -/
def acquire (pool : PinnedMemoryPool Event) (now address size : ℕ) :
    Except String Tensor × PinnedMemoryPool Event × ℕ :=
  let bucket := bucketFor size
  match pool.takeReady finishTime now (reusableBuckets bucket) with
  | (some tensor, pool, now) => (.ok (tensor.head size), pool, now)
  | (none, pool, now) =>
    let aligned := alignToBucket size
    if pool.totalAllocated + aligned ≤ pool.maxHostBytes then
      (.ok ((Storage.fullTensor ⟨address, aligned, true, "cpu"⟩).head size),
        { pool with totalAllocated := pool.totalAllocated + aligned }, now)
    else
      let reclaimed := pool.reclaimLocked finishTime bucket now
      match reclaimed.1.pending.listAt bucket with
      | (tensor, event) :: rest =>
        -- `event.synchronize()` waits until the event has finished
        (.ok (tensor.head size),
          { reclaimed.1 with pending := reclaimed.1.pending.set bucket rest },
          max reclaimed.2 (finishTime event))
      | [] => (.error (reclaimed.1.exhausted size), reclaimed.1, reclaimed.2)

def notPinned (tensor : Tensor) : String :=
  "release() expects a pinned (page-locked) tensor, " ++
    s!"got tensor on {tensor.storage.device} with pin_memory=" ++
    if tensor.storage.pinned then "True" else "False"

def release (pool : PinnedMemoryPool Event) (tensor : Tensor) (event : Option Event) :
    Except String (PinnedMemoryPool Event) :=
  if ¬ tensor.storage.pinned then .error (notPinned tensor)
  else
    let full := tensor.storage.fullTensor
    let bucket := bucketFor full.numel
    match event with
    | some event => .ok { pool with pending := pool.pending.appendTo bucket (full, event) }
    | none => .ok { pool with pool := pool.pool.appendTo bucket full }

/-- The buffers that may be reused at once. -/
def pooled (pool : PinnedMemoryPool Event) : List Tensor := pool.pool.values.flatten

def awaited (pool : PinnedMemoryPool Event) : List Tensor :=
  pool.pending.values.flatten.map Prod.fst

def storages (pool : PinnedMemoryPool Event) : List Storage :=
  (pool.pooled ++ pool.awaited).map Tensor.storage

end PinnedMemoryPool

/-! ## Buckets -/

theorem bucketSizes_sorted : bucketSizes.Pairwise (· < ·) := by decide

theorem alignToBucket_cases (size : ℕ) :
    (alignToBucket size ∈ bucketSizes ∧ size ≤ alignToBucket size ∧
      ∀ other ∈ bucketSizes, size ≤ other → alignToBucket size ≤ other) ∨
    alignToBucket size = size ∧ ∀ other ∈ bucketSizes, other < size := by
  unfold alignToBucket
  cases h : bucketSizes.find? (size ≤ ·) with
  | none =>
    right
    simpa using h
  | some bucket =>
    obtain ⟨hle, before, after, heq, hbefore⟩ := find?_eq_some_iff_append.mp h
    have hsorted := bucketSizes_sorted
    simp only [heq, pairwise_append, pairwise_cons] at hsorted
    simp only [decide_eq_true_eq, Bool.not_eq_true', decide_eq_false_iff_not] at hle hbefore
    refine Or.inl ⟨by simp [heq], hle, fun other hother hsize => ?_⟩
    rw [heq, mem_append, mem_cons] at hother
    rcases hother with hother | rfl | hother
    · exact absurd hsize (hbefore other hother)
    · exact le_rfl
    · exact (hsorted.2.1.1 other hother).le

theorem le_alignToBucket (size : ℕ) : size ≤ alignToBucket size := by
  rcases alignToBucket_cases size with ⟨-, hle, -⟩ | ⟨heq, -⟩
  · exact hle
  · exact heq.ge

theorem alignToBucket_of_mem {bucket : ℕ} (h : bucket ∈ bucketSizes) :
    alignToBucket bucket = bucket := by
  rcases alignToBucket_cases bucket with ⟨-, hle, hleast⟩ | ⟨heq, -⟩
  · exact (hleast bucket h le_rfl).antisymm hle
  · exact heq

@[simp] theorem alignToBucket_idem (size : ℕ) :
    alignToBucket (alignToBucket size) = alignToBucket size := by
  rcases alignToBucket_cases size with ⟨hmem, -, -⟩ | ⟨heq, -⟩
  · exact alignToBucket_of_mem hmem
  · rw [heq, heq]

/-- A bucket that holds `size` bytes is no smaller than the bucket of `size`. -/
theorem alignToBucket_le {size bucket : ℕ} (haligned : alignToBucket bucket = bucket)
    (hle : size ≤ bucket) : alignToBucket size ≤ bucket := by
  rcases alignToBucket_cases size with ⟨hmem, -, hleast⟩ | ⟨heq, -⟩
  · rcases alignToBucket_cases bucket with ⟨hbucket, -, -⟩ | ⟨-, hover⟩
    · rw [haligned] at hbucket
      exact hleast bucket hbucket hle
    · exact (hover _ hmem).le
  · exact heq.trans_le hle

theorem le_of_mem_reusableBuckets {size bucket : ℕ}
    (h : bucket ∈ reusableBuckets (bucketFor size)) : size ≤ bucket := by
  have hsize : size ≤ bucketFor size := le_alignToBucket size
  rcases mem_cons.mp h with rfl | hlarger
  · exact hsize
  · have := (mem_filter.mp hlarger).2
    simp only [decide_eq_true_eq] at this
    omega

/-! ## One sweep over the pending buffers of a bucket -/

/-- The entries a sweep from the tick `now` finds finished. -/
def finished : List (Tensor × Event) → ℕ → List (Tensor × Event)
  | [], _ => []
  | entry :: rest, now =>
    if finishTime entry.2 ≤ now then entry :: finished rest (now + 1)
    else finished rest (now + 1)

/-- The entries a sweep from the tick `now` finds unfinished. -/
def unfinished : List (Tensor × Event) → ℕ → List (Tensor × Event)
  | [], _ => []
  | entry :: rest, now =>
    if finishTime entry.2 ≤ now then unfinished rest (now + 1)
    else entry :: unfinished rest (now + 1)

variable {finishTime}

theorem finished_unfinished_perm (entries : List (Tensor × Event)) (now : ℕ) :
    (finished finishTime entries now ++ unfinished finishTime entries now).Perm entries := by
  induction entries generalizing now with
  | nil => exact .nil
  | cons entry rest ih =>
    unfold finished unfinished
    split
    · exact (ih (now + 1)).cons entry
    · exact perm_middle.trans ((ih (now + 1)).cons entry)

theorem unfinished_of_finished_nil {entries : List (Tensor × Event)} {now : ℕ}
    (h : finished finishTime entries now = []) : unfinished finishTime entries now = entries := by
  induction entries generalizing now with
  | nil => rfl
  | cons entry rest ih =>
    unfold finished at h
    unfold unfinished
    split at h
    · simp at h
    · rename_i hlate
      simp [hlate, ih h]

theorem finishTime_of_mem_finished {entries : List (Tensor × Event)} {now : ℕ}
    {entry : Tensor × Event} (h : entry ∈ finished finishTime entries now) :
    finishTime entry.2 ≤ now + entries.length := by
  induction entries generalizing now with
  | nil => simp [finished] at h
  | cons first rest ih =>
    unfold finished at h
    simp only [length_cons]
    split at h
    · rename_i hearly
      rcases mem_cons.mp h with rfl | hrest
      · omega
      · have := ih hrest
        omega
    · have := ih h
      omega

theorem sweep_eq (bucket : ℕ) (entries : List (Tensor × Event)) (pool : PyDict ℕ (List Tensor))
    (now : ℕ) :
    sweep finishTime bucket entries pool now =
      (((finished finishTime entries now).map Prod.fst).foldl (fun d t => d.appendTo bucket t) pool,
        unfinished finishTime entries now, now + entries.length) := by
  induction entries generalizing pool now with
  | nil => rfl
  | cons entry rest ih =>
    have hlength : now + 1 + rest.length = now + (entry :: rest).length := by
      simp only [length_cons]
      omega
    unfold sweep finished unfinished
    split
    · rw [ih]
      simp [*]
    · rw [ih]
      simp [*]

namespace PinnedMemoryPool

/-! ## One reclaim -/

theorem reclaimLocked_now (pool : PinnedMemoryPool Event) (bucket now : ℕ) :
    (pool.reclaimLocked finishTime bucket now).2 = now + (pool.pending.listAt bucket).length := by
  unfold reclaimLocked
  cases h : pool.pending.get? bucket with
  | none => simp [PyDict.listAt, h]
  | some entries => simp [PyDict.listAt_of_get? h, sweep_eq]

theorem reclaimLocked_pool (pool : PinnedMemoryPool Event) (bucket now k : ℕ) :
    (pool.reclaimLocked finishTime bucket now).1.pool.listAt k =
      if k = bucket then
        pool.pool.listAt bucket ++
          (finished finishTime (pool.pending.listAt bucket) now).map Prod.fst
      else pool.pool.listAt k := by
  unfold reclaimLocked
  cases h : pool.pending.get? bucket with
  | none =>
    simp only [PyDict.listAt, h, Option.getD_none, finished, map_nil, append_nil]
    split
    · simp [*]
    · rfl
  | some entries =>
    simp only [PyDict.listAt_of_get? h, sweep_eq]
    exact PyDict.listAt_foldl_appendTo _ _ _ _

theorem reclaimLocked_pending (pool : PinnedMemoryPool Event) (bucket now k : ℕ) :
    (pool.reclaimLocked finishTime bucket now).1.pending.listAt k =
      if k = bucket then unfinished finishTime (pool.pending.listAt bucket) now
      else pool.pending.listAt k := by
  unfold reclaimLocked
  cases h : pool.pending.get? bucket with
  | none =>
    by_cases hk : k = bucket
    · simp [PyDict.listAt, hk, h, unfinished]
    · simp [hk]
  | some entries => simp [PyDict.listAt_of_get? h, sweep_eq, PyDict.listAt_set]

/-- What any number of reclaims does: buffers go from pending to the pool once their event
has finished, and nothing else changes. -/
structure Reclaimed (finishTime : Event → ℕ) (before : PinnedMemoryPool Event) (start : ℕ)
    (after : PinnedMemoryPool Event) (now : ℕ) : Prop where
  later : start ≤ now
  totalAllocated : after.totalAllocated = before.totalAllocated
  maxHostBytes : after.maxHostBytes = before.maxHostBytes
  storages : after.storages.Perm before.storages
  pooled : ∀ k tensor, tensor ∈ after.pool.listAt k → tensor ∈ before.pool.listAt k ∨
    ∃ event, (tensor, event) ∈ before.pending.listAt k ∧ finishTime event ≤ now
  pending : ∀ k entry, entry ∈ after.pending.listAt k → entry ∈ before.pending.listAt k

theorem Reclaimed.trans {first second third : PinnedMemoryPool Event} {start middle now : ℕ}
    (h : Reclaimed finishTime first start second middle)
    (h' : Reclaimed finishTime second middle third now) :
    Reclaimed finishTime first start third now where
  later := h.later.trans h'.later
  totalAllocated := h'.totalAllocated.trans h.totalAllocated
  maxHostBytes := h'.maxHostBytes.trans h.maxHostBytes
  storages := h'.storages.trans h.storages
  pooled := by
    intro k tensor htensor
    rcases h'.pooled k tensor htensor with hpool | ⟨event, hpending, hdone⟩
    · rcases h.pooled k tensor hpool with hpool | ⟨event, hpending, hdone⟩
      · exact Or.inl hpool
      · exact Or.inr ⟨event, hpending, hdone.trans h'.later⟩
    · exact Or.inr ⟨event, h.pending k _ hpending, hdone⟩
  pending k entry hentry := h.pending k entry (h'.pending k entry hentry)

variable (pool : PinnedMemoryPool Event)

theorem reclaimLocked_storages (bucket now : ℕ) :
    (pool.reclaimLocked finishTime bucket now).1.storages.Perm pool.storages := by
  apply List.Perm.map
  unfold reclaimLocked
  cases h : pool.pending.get? bucket with
  | none => exact .refl _
  | some entries =>
    simp only [pooled, awaited, sweep_eq]
    have hpool := PyDict.flatten_foldl_appendTo_perm
      ((finished finishTime entries now).map Prod.fst) pool.pool bucket
    have hpending := (PyDict.flatten_set_perm pool.pending bucket
      (unfinished finishTime entries now)).map Prod.fst
    have hentries := (@finished_unfinished_perm Event finishTime entries now).map Prod.fst
    rw [PyDict.listAt_of_get? h] at hpending
    rw [perm_iff_count]
    intro tensor
    have := hpool.count_eq tensor
    have := hpending.count_eq tensor
    have := hentries.count_eq tensor
    simp only [map_append, count_append] at *
    omega

theorem reclaimLocked_reclaimed (pool : PinnedMemoryPool Event) (bucket now : ℕ) :
    Reclaimed finishTime pool now (pool.reclaimLocked finishTime bucket now).1
      (pool.reclaimLocked finishTime bucket now).2 where
  later := by
    rw [reclaimLocked_now]
    exact Nat.le_add_right _ _
  totalAllocated := by
    unfold reclaimLocked
    split <;> rfl
  maxHostBytes := by
    unfold reclaimLocked
    split <;> rfl
  storages := reclaimLocked_storages pool bucket now
  pooled := by
    intro k tensor htensor
    rw [reclaimLocked_pool] at htensor
    rw [reclaimLocked_now]
    split at htensor
    · rename_i hk
      rw [hk]
      rcases mem_append.mp htensor with hpool | hdone
      · exact Or.inl hpool
      · obtain ⟨⟨_, event⟩, hentry, rfl⟩ := mem_map.mp hdone
        refine Or.inr ⟨event, ?_, finishTime_of_mem_finished hentry⟩
        exact (finished_unfinished_perm _ now).subset (mem_append_left _ hentry)
    · exact Or.inl htensor
  pending := by
    intro k entry hentry
    rw [reclaimLocked_pending] at hentry
    split at hentry
    · rename_i hk
      rw [hk]
      exact (@finished_unfinished_perm Event finishTime _ now).subset
        (mem_append_right _ hentry)
    · exact hentry

theorem reclaimLocked_of_finished_nil {pool : PinnedMemoryPool Event} {bucket now : ℕ}
    (h : finished finishTime (pool.pending.listAt bucket) now = []) :
    (pool.reclaimLocked finishTime bucket now).1 = pool := by
  unfold reclaimLocked
  cases hget : pool.pending.get? bucket with
  | none => rfl
  | some entries =>
    rw [PyDict.listAt_of_get? hget] at h
    simp only [sweep_eq, h, unfinished_of_finished_nil h, map_nil, foldl_nil,
      PyDict.set_get?_self _ hget]

/-! ## Looking through the buckets -/

/-- A look through the buckets from the tick `now` on finds no buffer to reuse. -/
def NothingReady (finishTime : Event → ℕ) (pool : PinnedMemoryPool Event) : List ℕ → ℕ → Prop
  | [], _ => True
  | bucket :: rest, now =>
    pool.pool.listAt bucket = [] ∧
    finished finishTime (pool.pending.listAt bucket) now = [] ∧
    NothingReady finishTime pool rest (now + (pool.pending.listAt bucket).length)

def timeAfter (pool : PinnedMemoryPool Event) : List ℕ → ℕ → ℕ
  | [], now => now
  | bucket :: rest, now => timeAfter pool rest (now + (pool.pending.listAt bucket).length)

theorem le_timeAfter (buckets : List ℕ) (now : ℕ) : now ≤ pool.timeAfter buckets now := by
  induction buckets generalizing now with
  | nil => exact le_rfl
  | cons bucket rest ih => exact (Nat.le_add_right _ _).trans (ih _)

theorem takeReady_cases (pool : PinnedMemoryPool Event) (buckets : List ℕ) (now : ℕ) :
    (NothingReady finishTime pool buckets now ∧
      pool.takeReady finishTime now buckets = (none, pool, pool.timeAfter buckets now)) ∨
    ¬ NothingReady finishTime pool buckets now ∧
      ∃ bucket ∈ buckets, ∃ middle time, Reclaimed finishTime pool now middle time ∧
      ∃ tensor, (middle.pool.listAt bucket).getLast? = some tensor ∧
      pool.takeReady finishTime now buckets =
        (some tensor,
          { middle with pool := middle.pool.set bucket (middle.pool.listAt bucket).dropLast },
          time) := by
  induction buckets generalizing now with
  | nil => exact Or.inl ⟨trivial, rfl⟩
  | cons bucket rest ih =>
    have hpool := @reclaimLocked_pool Event finishTime pool bucket now bucket
    rw [if_pos rfl] at hpool
    unfold takeReady
    cases hlast : ((pool.reclaimLocked finishTime bucket now).1.pool.listAt bucket).getLast? with
    | some tensor =>
      refine Or.inr ⟨?_, bucket, mem_cons_self, _, _,
        reclaimLocked_reclaimed pool bucket now, tensor, hlast, by simp [hlast]⟩
      rintro ⟨hempty, hnone, _⟩
      simp [hpool, hempty, hnone] at hlast
    | none =>
      rw [getLast?_eq_none_iff, hpool, append_eq_nil_iff, map_eq_nil_iff] at hlast
      have hsame := reclaimLocked_of_finished_nil hlast.2
      have hnow := @reclaimLocked_now Event finishTime pool bucket now
      have hempty : (pool.pool.listAt bucket).getLast? = none := by simp [hlast.1]
      simp only [hsame, hnow, hempty]
      rcases ih (now + (pool.pending.listAt bucket).length) with
        ⟨hready, hresult⟩ | ⟨hready, found, hfound, middle, time, hmoved, tensor, htaken, hresult⟩
      · exact Or.inl ⟨⟨hlast.1, hlast.2, hready⟩, hresult⟩
      · refine Or.inr ⟨fun h => hready h.2.2, found, mem_cons_of_mem _ hfound, middle, time,
          ?_, tensor, htaken, hresult⟩
        have hfirst := @reclaimLocked_reclaimed Event finishTime pool bucket now
        rw [hsame, hnow] at hfirst
        exact hfirst.trans hmoved

/-! ## What an acquire does -/

def secondLook (pool : PinnedMemoryPool Event) (size now : ℕ) : ℕ :=
  pool.timeAfter (reusableBuckets (bucketFor size)) now

def HasRoom (pool : PinnedMemoryPool Event) (size : ℕ) : Prop :=
  pool.totalAllocated + bucketFor size ≤ pool.maxHostBytes

/-- Nothing to reuse, no room, and no buffer of the own bucket left to wait for when it is
looked at again. -/
def Exhausts (finishTime : Event → ℕ) (pool : PinnedMemoryPool Event) (size now : ℕ) : Prop :=
  NothingReady finishTime pool (reusableBuckets (bucketFor size)) now ∧ ¬ pool.HasRoom size ∧
    unfinished finishTime (pool.pending.listAt (bucketFor size)) (pool.secondLook size now) = []

/-- The four ends of an acquire: a buffer of the pool, a new buffer, a buffer waited for, or the
exhausted error. -/
inductive Acquired (finishTime : Event → ℕ) (pool : PinnedMemoryPool Event)
    (now address size : ℕ) : Except String Tensor × PinnedMemoryPool Event × ℕ → Prop
  | reused {middle : PinnedMemoryPool Event} {time bucket : ℕ} {tensor : Tensor}
      (served : ¬ pool.Exhausts finishTime size now)
      (mem : bucket ∈ reusableBuckets (bucketFor size))
      (moved : Reclaimed finishTime pool now middle time)
      (last : (middle.pool.listAt bucket).getLast? = some tensor) :
      Acquired finishTime pool now address size (.ok (tensor.head size),
        { middle with pool := middle.pool.set bucket (middle.pool.listAt bucket).dropLast }, time)
  | allocated (served : ¬ pool.Exhausts finishTime size now) (room : pool.HasRoom size) :
      Acquired finishTime pool now address size
        (.ok ((Storage.fullTensor ⟨address, bucketFor size, true, "cpu"⟩).head size),
          { pool with totalAllocated := pool.totalAllocated + bucketFor size },
          pool.secondLook size now)
  | waited {middle : PinnedMemoryPool Event} {time : ℕ} {tensor : Tensor} {event : Event}
      {rest : List (Tensor × Event)} (served : ¬ pool.Exhausts finishTime size now)
      (moved : Reclaimed finishTime pool now middle time)
      (first : middle.pending.listAt (bucketFor size) = (tensor, event) :: rest) :
      Acquired finishTime pool now address size (.ok (tensor.head size),
        { middle with pending := middle.pending.set (bucketFor size) rest },
        max time (finishTime event))
  | raised {after : PinnedMemoryPool Event} {time : ℕ}
      (exhausts : pool.Exhausts finishTime size now)
      (moved : Reclaimed finishTime pool now after time) :
      Acquired finishTime pool now address size (.error (after.exhausted size), after, time)

theorem reclaimed_secondLook (size now : ℕ) :
    Reclaimed finishTime pool now pool (pool.secondLook size now) where
  later := pool.le_timeAfter _ now
  totalAllocated := rfl
  maxHostBytes := rfl
  storages := .refl _
  pooled _ _ h := Or.inl h
  pending _ _ h := h

theorem acquire_acquired (pool : PinnedMemoryPool Event) (now address size : ℕ) :
    Acquired finishTime pool now address size (pool.acquire finishTime now address size) := by
  unfold acquire
  rcases @takeReady_cases Event finishTime pool (reusableBuckets (bucketFor size)) now with
    ⟨hready, hresult⟩ | ⟨hready, bucket, hmem, middle, time, hmoved, tensor, hlast, hresult⟩
  · simp only [hresult]
    split
    · rename_i hroom
      exact .allocated (fun h => h.2.1 hroom) hroom
    · rename_i hroom
      have hpending := @reclaimLocked_pending Event finishTime pool (bucketFor size)
        (pool.secondLook size now) (bucketFor size)
      rw [if_pos rfl] at hpending
      have hagain := (pool.reclaimed_secondLook size now).trans
        (@reclaimLocked_reclaimed Event finishTime pool (bucketFor size) _)
      split
      · rename_i tensor event rest hfirst
        refine .waited (fun h => ?_) hagain hfirst
        have hnil := hpending.symm.trans hfirst
        simp [h.2.2] at hnil
      · rename_i hnil
        exact .raised ⟨hready, hroom, hpending.symm.trans hnil⟩ hagain
  · simp only [hresult]
    exact .reused (fun h => hready h.1) hmem hmoved hlast

end PinnedMemoryPool

end HyperParallel.Offload.PinnedMemory
