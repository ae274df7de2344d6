import HyperParallel.Offload.PinnedPool
import Mathlib.Algebra.Ring.Nat

/-!
# Runs of acquires and releases

Besides the pool a session keeps the clock, the buffers that are out, and for every storage
the event it was last released with.
-/

namespace HyperParallel.Offload.PinnedMemory

open Foundation List

variable {Event : Type*} (finishTime : Event → ℕ)

structure Session (Event : Type*) where
  allocator : PinnedMemoryPool Event
  now : ℕ
  nextAddress : ℕ
  outstanding : List Tensor
  releaseEvent : ℕ → Option Event

inductive Action (Event : Type*)
  | acquire (size : ℕ)
  | release (tensor : Tensor) (event : Option Event)
  | elapse (ticks : ℕ)

namespace Session

def start (maxHostBytes : ℕ) : Session Event :=
  ⟨.start maxHostBytes, 0, 0, [], fun _ => none⟩

def acquired (session : Session Event) (size : ℕ) :
    Except String Tensor × PinnedMemoryPool Event × ℕ :=
  session.allocator.acquire finishTime session.now session.nextAddress size

/-- Only a buffer that is out is released; a call that raises leaves it out. -/
def step (session : Session Event) : Action Event → Option (Session Event)
  | .acquire size =>
    let result := session.acquired finishTime size
    some { session with
      allocator := result.2.1
      now := result.2.2
      nextAddress := session.nextAddress + 1
      outstanding := match result.1 with
        | .ok tensor => session.outstanding ++ [tensor]
        | .error _ => session.outstanding }
  | .release tensor event =>
    if tensor ∈ session.outstanding then
      match session.allocator.release tensor event with
      | .ok allocator =>
        some { session with
          allocator := allocator
          outstanding := session.outstanding.erase tensor
          releaseEvent := Function.update session.releaseEvent tensor.storage.address event }
      | .error _ => some session
    else none
  | .elapse ticks => some { session with now := session.now + ticks }

def storages (session : Session Event) : List Storage :=
  session.allocator.storages ++ session.outstanding.map Tensor.storage

/-- The pool's total is the sum of the full sizes, within the limit, and no two buffers share a
storage. -/
structure Accounted (maxHostBytes : ℕ) (session : Session Event) : Prop where
  total : session.allocator.totalAllocated =
    (session.allocator.pooled.map Tensor.numel).sum +
      (session.allocator.awaited.map Tensor.numel).sum +
      (session.outstanding.map fun tensor => tensor.storage.size).sum
  limit : session.allocator.totalAllocated ≤ maxHostBytes
  apart : (session.outstanding.map fun tensor => tensor.storage.address).Nodup

/-- An acquire returns a buffer of the requested length whose last release event has finished;
it raises only when the pool holds no buffer of that length. -/
def Delivers (session : Session Event) : Action Event → Prop
  | .acquire size =>
    let result := session.acquired finishTime size
    match result.1 with
    | .ok tensor => tensor.numel = size ∧
        ∀ event, session.releaseEvent tensor.storage.address = some event →
          finishTime event ≤ result.2.2
    | .error _ => ∀ tensor ∈ result.2.1.pooled ++ result.2.1.awaited, tensor.numel < size
  | _ => True

/-- An acquire that finds nothing to reuse and no room passes a buffer by: one of its own bucket
that finished between the two looks, one of a larger bucket whose event is not waited for, or one
beyond the bucket sizes, which only a request of the very same size looks at. -/
def PassesBy (session : Session Event) : Action Event → Prop
  | .acquire size =>
    session.allocator.Exhausts finishTime size session.now ∧
      ((∃ bucket ∈ reusableBuckets (bucketFor size),
          session.allocator.pending.listAt bucket ≠ []) ∨
        ∃ bucket ∉ bucketSizes, size ≤ bucket ∧
          (session.allocator.pool.listAt bucket ≠ [] ∨
            session.allocator.pending.listAt bucket ≠ []))
  | _ => False

/-- What every step keeps. -/
structure Invariant (maxHostBytes : ℕ) (session : Session Event) : Prop where
  total : session.allocator.totalAllocated = (session.storages.map Storage.size).sum
  limit : session.allocator.totalAllocated ≤ session.allocator.maxHostBytes
  given : session.allocator.maxHostBytes = maxHostBytes
  apart : (session.storages.map Storage.address).Nodup
  fresh : ∀ storage ∈ session.storages, storage.address < session.nextAddress
  unreleased : ∀ address, session.nextAddress ≤ address → session.releaseEvent address = none
  aligned : ∀ storage ∈ session.storages,
    bucketFor storage.size = storage.size ∧ storage.pinned = true
  pooled : ∀ k, ∀ tensor ∈ session.allocator.pool.listAt k,
    tensor = tensor.storage.fullTensor ∧ tensor.numel = k ∧
      ∀ event, session.releaseEvent tensor.storage.address = some event →
        finishTime event ≤ session.now
  awaited : ∀ k, ∀ entry ∈ session.allocator.pending.listAt k,
    entry.1 = entry.1.storage.fullTensor ∧ entry.1.numel = k ∧
      session.releaseEvent entry.1.storage.address = some entry.2

variable {finishTime} {maxHostBytes : ℕ}

theorem invariant_start (maxHostBytes : ℕ) :
    (start maxHostBytes : Session Event).Invariant finishTime maxHostBytes where
  total := rfl
  limit := Nat.zero_le _
  given := rfl
  apart := nodup_nil
  fresh _ h := by cases h
  unreleased _ _ := rfl
  aligned _ h := by cases h
  pooled _ _ h := by cases h
  awaited _ _ h := by cases h

variable {session : Session Event}

theorem Invariant.of_perm {next : Session Event} (h : session.Invariant finishTime maxHostBytes)
    (hperm : next.storages.Perm session.storages)
    (htotal : next.allocator.totalAllocated = session.allocator.totalAllocated)
    (hmax : next.allocator.maxHostBytes = session.allocator.maxHostBytes)
    (hnext : session.nextAddress ≤ next.nextAddress)
    (hunreleased : ∀ address, next.nextAddress ≤ address → next.releaseEvent address = none)
    (hpooled : ∀ k, ∀ tensor ∈ next.allocator.pool.listAt k,
      tensor = tensor.storage.fullTensor ∧ tensor.numel = k ∧
        ∀ event, next.releaseEvent tensor.storage.address = some event →
          finishTime event ≤ next.now) (hawaited : ∀ k, ∀ entry ∈ next.allocator.pending.listAt k,
      entry.1 = entry.1.storage.fullTensor ∧ entry.1.numel = k ∧
        next.releaseEvent entry.1.storage.address = some entry.2) :
    next.Invariant finishTime maxHostBytes where
  total := by
    rw [htotal, h.total]
    exact ((hperm.map Storage.size).sum_nat).symm
  limit := by
    rw [htotal, hmax]
    exact h.limit
  given := hmax.trans h.given
  apart := (hperm.map Storage.address).nodup_iff.mpr h.apart
  fresh storage hmem := (h.fresh storage (hperm.subset hmem)).trans_le hnext
  unreleased := hunreleased
  aligned storage hmem := h.aligned storage (hperm.subset hmem)
  pooled := hpooled
  awaited := hawaited

theorem Invariant.reclaimed {middle : PinnedMemoryPool Event} {time : ℕ}
    (h : session.Invariant finishTime maxHostBytes)
    (hmoved : session.allocator.Reclaimed finishTime session.now middle time) :
    { session with allocator := middle, now := time }.Invariant finishTime maxHostBytes := by
  apply h.of_perm
  · exact hmoved.storages.append_right _
  · exact hmoved.totalAllocated
  · exact hmoved.maxHostBytes
  · exact le_rfl
  · exact h.unreleased
  · intro k tensor htensor
    rcases hmoved.pooled k tensor htensor with hpool | ⟨event, hpending, hdone⟩
    · obtain ⟨hfull, hk, hevent⟩ := h.pooled k tensor hpool
      exact ⟨hfull, hk, fun event hlast => (hevent event hlast).trans hmoved.later⟩
    · obtain ⟨hfull, hk, hevent⟩ := h.awaited k _ hpending
      refine ⟨hfull, hk, fun other hlast => ?_⟩
      rw [hevent] at hlast
      cases hlast
      exact hdone
  · intro k entry hentry
    exact h.awaited k entry (hmoved.pending k entry hentry)

theorem Invariant.later {time : ℕ} (h : session.Invariant finishTime maxHostBytes)
    (htime : session.now ≤ time) :
    { session with now := time }.Invariant finishTime maxHostBytes := by
  apply h.of_perm
  · exact .refl _
  · rfl
  · rfl
  · exact le_rfl
  · exact h.unreleased
  · intro k tensor htensor
    obtain ⟨hfull, hk, hevent⟩ := h.pooled k tensor htensor
    exact ⟨hfull, hk, fun event hlast => (hevent event hlast).trans htime⟩
  · exact h.awaited

theorem Invariant.handOut {bucket : ℕ} {tensor : Tensor} (size : ℕ)
    (h : session.Invariant finishTime maxHostBytes)
    (hlast : (session.allocator.pool.listAt bucket).getLast? = some tensor) :
    { session with
      allocator := { session.allocator with
        pool := session.allocator.pool.set bucket (session.allocator.pool.listAt bucket).dropLast }
      nextAddress := session.nextAddress + 1
      outstanding := session.outstanding ++ [tensor.head size] }.Invariant
        finishTime maxHostBytes := by
  obtain ⟨front, hfront⟩ : ∃ front, session.allocator.pool.listAt bucket = front ++ [tensor] :=
    ⟨_, (dropLast_append_getLast? tensor hlast).symm⟩
  rw [hfront, dropLast_concat]
  apply h.of_perm
  · have hpool := (PyDict.flatten_set_perm session.allocator.pool bucket front).map Tensor.storage
    rw [perm_iff_count]
    intro storage
    have hcount := hpool.count_eq storage
    rw [hfront] at hcount
    have hawaited : ({ session.allocator with
        pool := session.allocator.pool.set bucket front }).awaited =
          session.allocator.awaited := rfl
    simp only [storages, PinnedMemoryPool.storages, PinnedMemoryPool.pooled, map_append,
      count_append, map_cons, map_nil, Tensor.head, hawaited] at hcount ⊢
    omega
  · rfl
  · rfl
  · exact Nat.le_succ _
  · exact fun address haddress => h.unreleased address (Nat.le_of_succ_le haddress)
  · intro k other hother
    rw [PyDict.listAt_set] at hother
    split at hother
    · rename_i hk
      refine h.pooled k other ?_
      rw [hk, hfront]
      exact mem_append_left _ hother
    · exact h.pooled k other hother
  · exact h.awaited

theorem Invariant.await {bucket : ℕ} {tensor : Tensor} {event : Event}
    {rest : List (Tensor × Event)} (size : ℕ) (h : session.Invariant finishTime maxHostBytes)
    (hfirst : session.allocator.pending.listAt bucket = (tensor, event) :: rest) :
    { session with
      allocator := { session.allocator with
        pending := session.allocator.pending.set bucket rest }
      nextAddress := session.nextAddress + 1
      outstanding := session.outstanding ++ [tensor.head size] }.Invariant
        finishTime maxHostBytes := by
  apply h.of_perm
  · have hpending := (PyDict.flatten_set_perm session.allocator.pending bucket rest).map
      (fun entry => entry.1.storage)
    rw [perm_iff_count]
    intro storage
    have hcount := hpending.count_eq storage
    rw [hfirst] at hcount
    simp only [storages, PinnedMemoryPool.storages, PinnedMemoryPool.awaited, map_append,
      count_append, map_cons, map_nil, Tensor.head, map_map, count_cons, count_nil] at hcount ⊢
    have hpooled : ({ session.allocator with
        pending := session.allocator.pending.set bucket rest }).pooled =
          session.allocator.pooled := rfl
    have hcomp : (Tensor.storage ∘ Prod.fst : Tensor × Event → Storage) =
        fun entry => entry.1.storage := rfl
    rw [hcomp, hpooled]
    omega
  · rfl
  · rfl
  · exact Nat.le_succ _
  · exact fun address haddress => h.unreleased address (Nat.le_of_succ_le haddress)
  · exact h.pooled
  · intro k entry hentry
    rw [PyDict.listAt_set] at hentry
    split at hentry
    · rename_i hk
      refine h.awaited k entry ?_
      rw [hk, hfirst]
      exact mem_cons_of_mem _ hentry
    · exact h.awaited k entry hentry

theorem Invariant.allocate (size : ℕ) (h : session.Invariant finishTime maxHostBytes)
    (hroom : session.allocator.HasRoom size) :
    { session with
      allocator := { session.allocator with
        totalAllocated := session.allocator.totalAllocated + bucketFor size }
      nextAddress := session.nextAddress + 1
      outstanding := session.outstanding ++
        [(Storage.fullTensor ⟨session.nextAddress, bucketFor size, true, "cpu"⟩).head size]
      }.Invariant finishTime maxHostBytes := by
  generalize hnext : ({ session with
    allocator := { session.allocator with
      totalAllocated := session.allocator.totalAllocated + bucketFor size }
    nextAddress := session.nextAddress + 1
    outstanding := session.outstanding ++
      [(Storage.fullTensor ⟨session.nextAddress, bucketFor size, true, "cpu"⟩).head size] } :
      Session Event) = next
  have hstorages : next.storages =
      session.storages ++ [⟨session.nextAddress, bucketFor size, true, "cpu"⟩] := by
    subst hnext
    simp only [storages, map_append, append_assoc]
    rfl
  have hnew : ∀ storage ∈ session.storages, storage.address ≠ session.nextAddress :=
    fun storage hmem => (h.fresh storage hmem).ne
  have hmem : ∀ storage ∈ next.storages, storage ∈ session.storages ∨
      storage = ⟨session.nextAddress, bucketFor size, true, "cpu"⟩ := by simp [hstorages]
  constructor
  · rw [hstorages]
    subst hnext
    simp [h.total]
  · subst hnext
    exact hroom
  · subst hnext
    exact h.given
  · simpa [hstorages, nodup_append, h.apart] using hnew
  · intro storage hstorage
    subst hnext
    rcases hmem storage hstorage with hold | rfl
    · exact (h.fresh storage hold).trans (Nat.lt_succ_self _)
    · exact Nat.lt_succ_self _
  · subst hnext
    exact fun address haddress => h.unreleased address (Nat.le_of_succ_le haddress)
  · intro storage hstorage
    rcases hmem storage hstorage with hold | rfl
    · exact h.aligned storage hold
    · exact ⟨alignToBucket_idem size, rfl⟩
  · subst hnext
    exact h.pooled
  · subst hnext
    exact h.awaited

theorem Invariant.handBack {tensor : Tensor} {event : Option Event}
    {allocator : PinnedMemoryPool Event} (h : session.Invariant finishTime maxHostBytes)
    (hmem : tensor ∈ session.outstanding)
    (hreleased : session.allocator.release tensor event = .ok allocator) :
    { session with
      allocator := allocator
      outstanding := session.outstanding.erase tensor
      releaseEvent := Function.update session.releaseEvent tensor.storage.address event }.Invariant
        finishTime maxHostBytes := by
  have hout : tensor.storage ∈ session.storages := mem_append_right _ (mem_map_of_mem hmem)
  obtain ⟨hbucket, hpinned⟩ := h.aligned _ hout
  have hapart := h.apart
  rw [storages, map_append, nodup_append] at hapart
  have hother : ∀ other ∈ session.allocator.pooled ++ session.allocator.awaited,
      Function.update session.releaseEvent tensor.storage.address event other.storage.address =
        session.releaseEvent other.storage.address := by
    intro other hother
    apply Function.update_of_ne
    exact hapart.2.2 _ (mem_map_of_mem (mem_map_of_mem hother)) _
      (mem_map_of_mem (mem_map_of_mem hmem))
  have hpooled : ∀ k, ∀ other ∈ session.allocator.pool.listAt k,
      Function.update session.releaseEvent tensor.storage.address event other.storage.address =
        session.releaseEvent other.storage.address := fun k other hk =>
    hother other (mem_append_left _ (PyDict.mem_flatten_values.mpr ⟨k, hk⟩))
  have hawaited : ∀ k, ∀ entry ∈ session.allocator.pending.listAt k,
      Function.update session.releaseEvent tensor.storage.address event
        entry.1.storage.address = session.releaseEvent entry.1.storage.address := fun k entry hk =>
    hother entry.1 (mem_append_right _
      (mem_map_of_mem (PyDict.mem_flatten_values.mpr ⟨k, hk⟩)))
  have herase := (perm_cons_erase hmem).map Tensor.storage
  have hunreleased : ∀ address, session.nextAddress ≤ address →
      Function.update session.releaseEvent tensor.storage.address event address = none := by
    intro address haddress
    rw [Function.update_of_ne ((h.fresh _ hout).trans_le haddress).ne']
    exact h.unreleased address haddress
  simp only [PinnedMemoryPool.release, hpinned, not_true_eq_false, if_false] at hreleased
  cases event with
  | none =>
    obtain rfl := Except.ok.inj hreleased
    apply h.of_perm
    · have hpool := (PyDict.flatten_appendTo_perm session.allocator.pool
        (bucketFor tensor.storage.size) tensor.storage.fullTensor).map Tensor.storage
      rw [perm_iff_count]
      intro storage
      have hin := hpool.count_eq storage
      have hout := herase.count_eq storage
      simp only [storages, PinnedMemoryPool.storages, PinnedMemoryPool.pooled,
        PinnedMemoryPool.awaited, map_append, map_cons, map_nil,
        count_append, count_cons, count_nil, Storage.fullTensor] at hin hout ⊢
      omega
    · rfl
    · rfl
    · exact le_rfl
    · exact hunreleased
    · intro k other hk
      rw [PyDict.listAt_appendTo] at hk
      split at hk
      · rename_i hkey
        rcases mem_append.mp hk with hold | hnew
        · rw [← hkey] at hold
          simp only [hpooled k other hold]
          exact h.pooled k other hold
        · obtain rfl := mem_singleton.mp hnew
          refine ⟨rfl, hbucket.symm.trans hkey.symm, fun event hlast => ?_⟩
          simp [Storage.fullTensor] at hlast
      · simp only [hpooled k other hk]
        exact h.pooled k other hk
    · intro k entry hk
      simp only [hawaited k entry hk]
      exact h.awaited k entry hk
  | some event =>
    obtain rfl := Except.ok.inj hreleased
    apply h.of_perm
    · have hpending := (PyDict.flatten_appendTo_perm session.allocator.pending
        (bucketFor tensor.storage.size) (tensor.storage.fullTensor, event)).map
          (Tensor.storage ∘ Prod.fst)
      rw [perm_iff_count]
      intro storage
      have hin := hpending.count_eq storage
      have hout := herase.count_eq storage
      simp only [storages, PinnedMemoryPool.storages, PinnedMemoryPool.pooled,
        PinnedMemoryPool.awaited, map_append, map_cons, map_nil, map_map, count_append, count_cons,
        count_nil, Function.comp_apply, Storage.fullTensor] at hin hout ⊢
      omega
    · rfl
    · rfl
    · exact le_rfl
    · exact hunreleased
    · intro k other hk
      simp only [hpooled k other hk]
      exact h.pooled k other hk
    · intro k entry hk
      rw [PyDict.listAt_appendTo] at hk
      split at hk
      · rename_i hkey
        rcases mem_append.mp hk with hold | hnew
        · rw [← hkey] at hold
          simp only [hawaited k entry hold]
          exact h.awaited k entry hold
        · obtain rfl := mem_singleton.mp hnew
          exact ⟨rfl, hbucket.symm.trans hkey.symm, by simp [Storage.fullTensor]⟩
      · simp only [hawaited k entry hk]
        exact h.awaited k entry hk

theorem Invariant.step {next : Session Event} {action : Action Event}
    (h : session.Invariant finishTime maxHostBytes)
    (hstep : session.step finishTime action = some next) :
    next.Invariant finishTime maxHostBytes := by
  cases action with
  | acquire size =>
    simp only [Session.step, Option.some.injEq] at hstep
    subst hstep
    have hcases := @PinnedMemoryPool.acquire_acquired Event finishTime session.allocator
      session.now session.nextAddress size
    change PinnedMemoryPool.Acquired _ _ _ _ _ (session.acquired finishTime size) at hcases
    generalize session.acquired finishTime size = result at hcases
    cases hcases with
    | reused _ _ hmoved hlast => exact (h.reclaimed hmoved).handOut size hlast
    | allocated _ hroom => exact (h.allocate size hroom).later (session.allocator.le_timeAfter _ _)
    | waited _ hmoved hfirst =>
      exact ((h.reclaimed hmoved).await size hfirst).later (le_max_left _ _)
    | raised _ hmoved =>
      have hreclaimed := h.reclaimed hmoved
      exact hreclaimed.of_perm (.refl _) rfl rfl (Nat.le_succ _)
        (fun address haddress => h.unreleased address (Nat.le_of_succ_le haddress))
        hreclaimed.pooled hreclaimed.awaited
  | release tensor event =>
    simp only [Session.step] at hstep
    split at hstep
    · rename_i hmem
      cases hreleased : session.allocator.release tensor event with
      | ok allocator =>
        rw [hreleased] at hstep
        cases hstep
        exact h.handBack hmem hreleased
      | error text =>
        rw [hreleased] at hstep
        cases hstep
        exact h
    · cases hstep
  | elapse ticks =>
    simp only [Session.step, Option.some.injEq] at hstep
    subst hstep
    exact h.later (Nat.le_add_right _ _)

theorem Invariant.numel_eq {session : Session Event} (h : session.Invariant finishTime maxHostBytes)
    {tensor : Tensor} (hmem : tensor ∈ session.allocator.pooled ++ session.allocator.awaited) :
    tensor.numel = tensor.storage.size := by
  rcases mem_append.mp hmem with hpooled | hawaited
  · obtain ⟨k, hk⟩ := PyDict.mem_flatten_values.mp hpooled
    rw [(h.pooled k tensor hk).1]
    rfl
  · obtain ⟨entry, hentry, rfl⟩ := mem_map.mp hawaited
    obtain ⟨k, hk⟩ := PyDict.mem_flatten_values.mp hentry
    rw [(h.awaited k entry hk).1]
    rfl

theorem Invariant.accounted (h : session.Invariant finishTime maxHostBytes) :
    session.Accounted maxHostBytes where
  total := by
    have hsizes : (session.allocator.pooled ++ session.allocator.awaited).map Tensor.numel =
        (session.allocator.pooled ++ session.allocator.awaited).map fun tensor =>
          tensor.storage.size := map_congr_left fun tensor hmem => h.numel_eq hmem
    have htotal := h.total
    simp only [storages, PinnedMemoryPool.storages, map_append, map_map, sum_append] at htotal
    rw [map_append, map_append] at hsizes
    have hsum := congrArg List.sum hsizes
    simp only [sum_append] at hsum
    exact htotal.trans (congrArg (· + _) hsum.symm)
  limit := h.limit.trans h.given.le
  apart := by
    have hapart := h.apart
    rw [storages, map_append, nodup_append, map_map] at hapart
    exact hapart.2.1

end Session

variable {finishTime} {maxHostBytes : ℕ}

theorem PinnedMemoryPool.NothingReady.pool_nil {pool : PinnedMemoryPool Event}
    {buckets : List ℕ} {now bucket : ℕ} (h : pool.NothingReady finishTime buckets now)
    (hmem : bucket ∈ buckets) : pool.pool.listAt bucket = [] := by
  induction buckets generalizing now with
  | nil => cases hmem
  | cons first rest ih =>
    rcases mem_cons.mp hmem with rfl | hrest
    · exact h.1
    · exact ih h.2.2 hrest

namespace Session

theorem mem_reusableBuckets_or {size bucket : ℕ} (haligned : bucketFor bucket = bucket)
    (hle : size ≤ bucket) : bucket ∈ reusableBuckets (bucketFor size) ∨ bucket ∉ bucketSizes := by
  have hown : bucketFor size ≤ bucket := alignToBucket_le haligned hle
  by_cases heq : bucket = bucketFor size
  · exact Or.inl (heq ▸ mem_cons_self)
  · by_cases hsizes : bucket ∈ bucketSizes
    · have hlt : bucketFor size < bucket := by omega
      exact Or.inl (mem_cons_of_mem _ (mem_filter.mpr ⟨hsizes, by simpa using hlt⟩))
    · exact Or.inr hsizes

theorem Invariant.holds_iff_passesBy {session : Session Event} {size : ℕ}
    (h : session.Invariant finishTime maxHostBytes)
    (hexhausts : session.allocator.Exhausts finishTime size session.now) :
    (∃ storage ∈ session.allocator.storages, size ≤ storage.size) ↔
      session.PassesBy finishTime (.acquire size) := by
  have hpooled : ∀ k, ∀ tensor ∈ session.allocator.pool.listAt k,
      tensor.storage ∈ session.allocator.storages ∧ tensor.storage.size = k := by
    intro k tensor hk
    have hmem := mem_append_left session.allocator.awaited
      (PyDict.mem_flatten_values.mpr ⟨k, hk⟩)
    exact ⟨mem_map_of_mem hmem, (h.numel_eq hmem).symm.trans (h.pooled k tensor hk).2.1⟩
  have hawaited : ∀ k, ∀ entry ∈ session.allocator.pending.listAt k,
      entry.1.storage ∈ session.allocator.storages ∧ entry.1.storage.size = k := by
    intro k entry hk
    have hmem := mem_append_right session.allocator.pooled
      (mem_map_of_mem (f := Prod.fst) (PyDict.mem_flatten_values.mpr ⟨k, hk⟩))
    exact ⟨mem_map_of_mem hmem, (h.numel_eq hmem).symm.trans (h.awaited k entry hk).2.1⟩
  constructor
  · rintro ⟨storage, hstorage, hsize⟩
    refine ⟨hexhausts, ?_⟩
    have haligned := (h.aligned storage (mem_append_left _ hstorage)).1
    have hplace : session.allocator.pool.listAt storage.size ≠ [] ∨
        session.allocator.pending.listAt storage.size ≠ [] := by
      obtain ⟨tensor, hmem, rfl⟩ := mem_map.mp hstorage
      rcases mem_append.mp hmem with hpool | hpending
      · obtain ⟨k, hk⟩ := PyDict.mem_flatten_values.mp hpool
        rw [(hpooled k tensor hk).2]
        exact Or.inl (ne_nil_of_mem hk)
      · obtain ⟨entry, hentry, rfl⟩ := mem_map.mp hpending
        obtain ⟨k, hk⟩ := PyDict.mem_flatten_values.mp hentry
        rw [(hawaited k entry hk).2]
        exact Or.inr (ne_nil_of_mem hk)
    rcases mem_reusableBuckets_or haligned hsize with hbucket | hbeyond
    · left
      refine ⟨storage.size, hbucket, hplace.resolve_left ?_⟩
      simp [hexhausts.1.pool_nil hbucket]
    · exact Or.inr ⟨storage.size, hbeyond, hsize, hplace⟩
  · rintro ⟨-, ⟨bucket, hbucket, hpending⟩ | ⟨bucket, -, hsize, hheld⟩⟩
    · obtain ⟨entry, hentry⟩ := exists_mem_of_ne_nil _ hpending
      obtain ⟨hmem, hk⟩ := hawaited bucket entry hentry
      exact ⟨_, hmem, (le_of_mem_reusableBuckets hbucket).trans hk.ge⟩
    · rcases hheld with hpool | hpending
      · obtain ⟨tensor, htensor⟩ := exists_mem_of_ne_nil _ hpool
        obtain ⟨hmem, hk⟩ := hpooled bucket tensor htensor
        exact ⟨_, hmem, hsize.trans hk.ge⟩
      · obtain ⟨entry, hentry⟩ := exists_mem_of_ne_nil _ hpending
        obtain ⟨hmem, hk⟩ := hawaited bucket entry hentry
        exact ⟨_, hmem, hsize.trans hk.ge⟩

theorem head_numel {tensor : Tensor} {size : ℕ} (h : size ≤ tensor.numel) :
    (tensor.head size).numel = size := min_eq_left h

theorem Invariant.delivers_iff {session : Session Event} (action : Action Event)
    (h : session.Invariant finishTime maxHostBytes) :
    session.Delivers finishTime action ↔ ¬ session.PassesBy finishTime action := by
  cases action with
  | acquire size =>
    have hcases := @PinnedMemoryPool.acquire_acquired Event finishTime session.allocator
      session.now session.nextAddress size
    change PinnedMemoryPool.Acquired _ _ _ _ _ (session.acquired finishTime size) at hcases
    simp only [Delivers]
    generalize session.acquired finishTime size = result at hcases ⊢
    cases hcases with
    | reused served hmem hmoved hlast =>
      obtain ⟨-, hnumel, hevent⟩ := (h.reclaimed hmoved).pooled _ _ (mem_of_getLast? hlast)
      have hle := (le_of_mem_reusableBuckets hmem).trans hnumel.ge
      exact iff_of_true ⟨head_numel hle, hevent⟩ fun hpass => served hpass.1
    | allocated served _ =>
      refine iff_of_true ⟨head_numel (le_alignToBucket size), fun event hevent => ?_⟩
        fun hpass => served hpass.1
      simp [Tensor.head, Storage.fullTensor, h.unreleased _ le_rfl] at hevent
    | waited served hmoved hfirst =>
      obtain ⟨-, hnumel, hevent⟩ := (h.reclaimed hmoved).awaited _ _ (hfirst ▸ mem_cons_self)
      have hle := (le_alignToBucket size).trans hnumel.ge
      refine iff_of_true ⟨head_numel hle, fun event hlast => ?_⟩ fun hpass => served hpass.1
      obtain rfl := Option.some.inj (hevent.symm.trans hlast)
      exact le_max_right _ _
    | @raised after time hexhausts hmoved =>
      rw [← h.holds_iff_passesBy hexhausts]
      have hnumel := fun tensor hmem =>
        @Invariant.numel_eq Event finishTime maxHostBytes _ (h.reclaimed hmoved) tensor hmem
      constructor
      · rintro hall ⟨storage, hstorage, hsize⟩
        obtain ⟨tensor, hmem, rfl⟩ := mem_map.mp (hmoved.storages.symm.subset hstorage)
        have := hall tensor hmem
        rw [hnumel tensor hmem] at this
        omega
      · intro hnone tensor hmem
        by_contra hlarge
        refine hnone ⟨tensor.storage, hmoved.storages.subset (mem_map_of_mem hmem), ?_⟩
        rw [← hnumel tensor hmem]
        omega
  | release tensor event => exact iff_of_true trivial id
  | elapse ticks => exact iff_of_true trivial id

end Session

/-- The run keeps its account, returns buffers of the right length that are no longer read, and
raises only when the pool holds nothing large enough. -/
def RunSound (finishTime : Event → ℕ) (maxHostBytes : ℕ) (actions : List (Action Event)) : Prop :=
  (∀ taken final, taken <+: actions →
    StepRuns.run (Session.step finishTime) (.start maxHostBytes) taken = some final →
    final.Accounted maxHostBytes) ∧
  StepRuns.Along (Session.step finishTime) (Session.Delivers finishTime)
    (.start maxHostBytes) actions

/-- A run is sound exactly when no acquire of it passes a buffer by. -/
theorem runSound_iff (finishTime : Event → ℕ) (maxHostBytes : ℕ)
    (actions : List (Action Event)) :
    RunSound finishTime maxHostBytes actions ↔
      StepRuns.Along (Session.step finishTime)
        (fun session action => ¬ session.PassesBy finishTime action)
        (.start maxHostBytes) actions := by
  have hstep : ∀ (session : Session Event) action next,
      session.Invariant finishTime maxHostBytes → session.step finishTime action = some next →
      next.Invariant finishTime maxHostBytes := fun _ _ _ h hnext => h.step hnext
  have hstart := @Session.invariant_start Event finishTime maxHostBytes
  have hiff : StepRuns.Along (Session.step finishTime) (Session.Delivers finishTime)
      (.start maxHostBytes) actions ↔ _ :=
    StepRuns.along_iff_of_invariant hstep (fun session action h => h.delivers_iff action) hstart
  constructor
  · rintro ⟨-, hdelivers⟩
    exact hiff.mp hdelivers
  · intro hserved
    refine ⟨fun taken final _ hrun => ?_, hiff.mpr hserved⟩
    exact (StepRuns.invariant hstep hstart hrun).accounted

/-- With room for one buffer of 1024 bytes: it is released with an event that finishes between the
two looks of the next acquire, which moves it to the pool and raises. -/
theorem finished_between_looks :
    ¬ RunSound (fun _ : Unit => 1) 1024
      [.acquire 1024, .release (Storage.fullTensor ⟨0, 1024, true, "cpu"⟩) (some ()),
        .acquire 100] := by
  rintro ⟨-, -, hrest⟩
  have hlast := ((hrest _ rfl).2 _ rfl).1
  exact absurd (hlast (Storage.fullTensor ⟨0, 1024, true, "cpu"⟩) (by decide)) (by decide)

end HyperParallel.Offload.PinnedMemory
