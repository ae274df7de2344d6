import HyperParallel.Checkpoint.LocalPlan

/-!
# The save plan cache

Every process keeps the final plans and the metadata of its earlier saves under
the joined names of the state dict it saved.  A save whose names are known
gathers nothing and uses what is kept.
-/

namespace HyperParallel.Checkpoint

open Foundation List

variable {α β : Type}

structure CachedSaveResult where
  finalPlan : SavePlan
  metadata : Metadata
deriving DecidableEq

/-- `StandardSavePlanner.cached_save_result` of one process. -/
abbrev PlanCache := PyDict String CachedSaveResult

structure SaveRequest (α β : Type) where
  planner : StandardSavePlanner
  stateDict : StateDict α β

inductive SaveError where
  | stateDict (error : StateDictError)
  | plan (error : PlanError)
  | gatherMismatch
deriving DecidableEq, Repr

/-- A planner once `configure_planner` has run, with collectives on. -/
structure ConfiguredPlanner (α β : Type) where
  planner : StandardSavePlanner
  flat : FlatStateDict α β

def ConfiguredPlanner.cachedPlansKey (configured : ConfiguredPlanner α β) : String :=
  "StandardSavePlanner:" ++ "||".intercalate configured.flat.fqnNames.keys

def configurePlanner (rank : Nat) (request : SaveRequest α β) :
    Except SaveError (ConfiguredPlanner α β) :=
  match flattenStateDict request.stateDict.value with
  | .error error => .error (.stateDict error)
  | .ok flat =>
    .ok { planner := { request.planner with rank := rank, flattenStateDict := true }
          flat := flat }

def configureAll (requests : List (SaveRequest α β)) :
    Except SaveError (List (ConfiguredPlanner α β)) :=
  requests.zipIdx.mapM fun request => configurePlanner request.2 request.1

def ConfiguredPlanner.getCached (configured : ConfiguredPlanner α β) (cache : PlanCache) :
    Option CachedSaveResult :=
  if configured.planner.enablePlanCaching then cache.get? configured.cachedPlansKey else none

def ConfiguredPlanner.cacheResult (configured : ConfiguredPlanner α β) (cache : PlanCache)
    (result : CachedSaveResult) : PlanCache :=
  if configured.planner.enablePlanCaching then cache.set configured.cachedPlansKey result
  else cache

def liftPlan {γ : Type} : Except PlanError γ → Except SaveError γ
  | .error error => .error (.plan error)
  | .ok value => .ok value

def localPlans (configured : List (ConfiguredPlanner α β)) : Except SaveError (List SavePlan) :=
  configured.mapM fun rank => liftPlan (buildLocalPlan rank.planner rank.flat)

/-- `generate_final_plan_and_metadata` on every rank. -/
def generateResults (configured : List (ConfiguredPlanner α β)) :
    Except SaveError (List CachedSaveResult) := do
  let allLocalPlans ← localPlans configured
  configured.mapM fun rank =>
    (liftPlan (buildGlobalPlan rank.planner allLocalPlans)).map fun result =>
      ⟨result.1, result.2⟩

def uncachedSave (requests : List (SaveRequest α β)) : Except SaveError (List CachedSaveResult) :=
  configureAll requests >>= generateResults

def storeResults (configured : List (ConfiguredPlanner α β)) (results : List CachedSaveResult)
    (caches : Nat → PlanCache) (rank : Nat) : PlanCache :=
  match configured[rank]?, results[rank]? with
  | some configured, some result => configured.cacheResult (caches rank) result
  | _, _ => caches rank

/--
One save on all ranks, each with its own cache.  A rank that hits does not take part in the
gather of the plans, which the other ranks then cannot complete.
-/
def cachedSave (caches : Nat → PlanCache) (requests : List (SaveRequest α β)) :
    Except SaveError (List CachedSaveResult) × (Nat → PlanCache) :=
  match configureAll requests with
  | .error error => (.error error, caches)
  | .ok configured =>
    let cached := configured.zipIdx.map fun rank => rank.1.getCached (caches rank.2)
    if cached.all Option.isSome then (.ok (cached.filterMap id), caches)
    else if cached.any Option.isSome then (.error .gatherMismatch, caches)
    else
      match generateResults configured with
      | .error error => (.error error, caches)
      | .ok results => (.ok results, storeResults configured results caches)

def cachedSaves (caches : Nat → PlanCache) :
    List (List (SaveRequest α β)) → List (Except SaveError (List CachedSaveResult))
  | [] => []
  | requests :: saves =>
    (cachedSave caches requests).1 :: cachedSaves (cachedSave caches requests).2 saves

def cacheKeys (requests : List (SaveRequest α β)) : List String :=
  match configureAll requests with
  | .error _ => []
  | .ok configured => configured.map ConfiguredPlanner.cachedPlansKey

structure SameInputs (earlier later : List (SaveRequest α β)) : Prop where
  keys : cacheKeys earlier = cacheKeys later
  planners : earlier.map SaveRequest.planner = later.map SaveRequest.planner
  localPlans : configureAll earlier >>= localPlans = configureAll later >>= localPlans

def Compatible (earlier later : List (SaveRequest α β)) : Prop :=
  ∀ (rank : Nat) (key : String), (cacheKeys earlier)[rank]? = some key →
    (cacheKeys later)[rank]? = some key → SameInputs earlier later

def rankPlanners (planners : List StandardSavePlanner) : List StandardSavePlanner :=
  planners.zipIdx.map fun planner =>
    { planner.1 with rank := planner.2, flattenStateDict := true }

theorem configureAll_planners {requests : List (SaveRequest α β)}
    {configured : List (ConfiguredPlanner α β)} (h : configureAll requests = .ok configured) :
    configured.map ConfiguredPlanner.planner = rankPlanners (requests.map SaveRequest.planner) := by
  unfold configureAll at h
  unfold rankPlanners
  rw [zipIdx_map, map_map]
  have hforall := mapM_eq_ok_iff.mp h
  generalize requests.zipIdx = indexed at hforall ⊢
  clear h
  induction hforall with
  | nil => rfl
  | cons hx _ ih =>
    rw [map_cons, map_cons, ih]
    unfold configurePlanner at hx
    split at hx
    · cases hx
    · cases hx
      rfl

theorem uncachedSave_eq (requests : List (SaveRequest α β)) :
    uncachedSave requests = (configureAll requests >>= localPlans) >>= fun allLocalPlans =>
      (rankPlanners (requests.map SaveRequest.planner)).mapM fun planner =>
        (liftPlan (buildGlobalPlan planner allLocalPlans)).map fun result =>
          ⟨result.1, result.2⟩ := by
  unfold uncachedSave
  cases hconfigured : configureAll requests with
  | error e => rfl
  | ok configured =>
    rw [← configureAll_planners hconfigured]
    simp only [bind, Except.bind]
    unfold generateResults
    cases localPlans configured with
    | error e => rfl
    | ok plans =>
      simp only [bind, Except.bind]
      rw [mapM_map]
      rfl

theorem SameInputs.uncachedSave_eq {earlier later : List (SaveRequest α β)}
    (h : SameInputs earlier later) : uncachedSave earlier = uncachedSave later := by
  rw [Checkpoint.uncachedSave_eq, Checkpoint.uncachedSave_eq, h.planners, h.localPlans]

theorem uncachedSave_length {requests : List (SaveRequest α β)} {results : List CachedSaveResult}
    (h : uncachedSave requests = .ok results) {configured : List (ConfiguredPlanner α β)}
    (hconfigured : configureAll requests = .ok configured) :
    results.length = configured.length := by
  unfold uncachedSave at h
  rw [hconfigured] at h
  have hgenerate : generateResults configured = .ok results := h
  obtain ⟨plans, -, hresults⟩ := bind_eq_ok hgenerate
  exact (mapM_eq_ok_iff.mp hresults).length_eq.symm

theorem cacheKeys_eq {requests : List (SaveRequest α β)}
    {configured : List (ConfiguredPlanner α β)} (h : configureAll requests = .ok configured) :
    cacheKeys requests = configured.map ConfiguredPlanner.cachedPlansKey := by
  unfold cacheKeys
  rw [h]

def CachingOn (requests : List (SaveRequest α β)) : Prop :=
  ∀ request ∈ requests, request.planner.enablePlanCaching = true

theorem CachingOn.configured {requests : List (SaveRequest α β)} (h : CachingOn requests)
    {configured : List (ConfiguredPlanner α β)} (hconfigured : configureAll requests = .ok configured)
    {rank : ConfiguredPlanner α β} (hrank : rank ∈ configured) :
    rank.planner.enablePlanCaching = true := by
  have hmem : rank.planner ∈ rankPlanners (requests.map SaveRequest.planner) := by
    rw [← configureAll_planners hconfigured]
    exact mem_map_of_mem hrank
  obtain ⟨⟨planner, i⟩, hplanner, heq⟩ := mem_map.mp hmem
  obtain ⟨request, hrequest, rfl⟩ :=
    mem_map.mp (mem_of_getElem? (mk_mem_zipIdx_iff_getElem?.mp hplanner))
  rw [← heq]
  exact h request hrequest

def CacheInv (history : List (List (SaveRequest α β))) (caches : Nat → PlanCache) : Prop :=
  ∀ rank key result, (caches rank).get? key = some result →
    ∃ save ∈ history, (cacheKeys save)[rank]? = some key ∧
      (∃ results, uncachedSave save = .ok results ∧ results[rank]? = some result) ∧
      ∀ (rank' : Nat) (key' : String), (cacheKeys save)[rank']? = some key' →
        ∃ result', (caches rank').get? key' = some result'

theorem CacheInv.more {history : List (List (SaveRequest α β))} {caches : Nat → PlanCache}
    (h : CacheInv history caches) (requests : List (SaveRequest α β)) :
    CacheInv (history ++ [requests]) caches := by
  intro rank key result hget
  obtain ⟨save, hmem, hrest⟩ := h rank key result hget
  exact ⟨save, mem_append_left _ hmem, hrest⟩

section Step

variable {history : List (List (SaveRequest α β))} {caches : Nat → PlanCache}
  {requests : List (SaveRequest α β)} {configured : List (ConfiguredPlanner α β)}

theorem getElem?_cached (hon : CachingOn requests)
    (hconfigured : configureAll requests = .ok configured) (rank : Nat) :
    (configured.zipIdx.map fun rank => rank.1.getCached (caches rank.2))[rank]? =
      ((cacheKeys requests)[rank]?).map fun key => (caches rank).get? key := by
  rw [cacheKeys_eq hconfigured, getElem?_map, getElem?_map, getElem?_zipIdx]
  cases hrank : configured[rank]? with
  | none => rfl
  | some planner =>
    have htrue := hon.configured hconfigured (mem_of_getElem? hrank)
    simp [ConfiguredPlanner.getCached, htrue]

theorem hit_all (hinv : CacheInv history caches)
    (hcompatible : ∀ save ∈ history, Compatible save requests) {rank : Nat} {key : String}
    {result : CachedSaveResult} (hkey : (cacheKeys requests)[rank]? = some key)
    (hget : (caches rank).get? key = some result) :
    (∃ results, uncachedSave requests = .ok results ∧ results[rank]? = some result) ∧
      ∀ (rank' : Nat) (key' : String), (cacheKeys requests)[rank']? = some key' →
        ∃ result', (caches rank').get? key' = some result' := by
  obtain ⟨save, hmem, hsave, ⟨results, hresults, hresult⟩, hall⟩ := hinv rank key result hget
  have hsame := hcompatible save hmem rank key hsave hkey
  refine ⟨⟨results, hsame.uncachedSave_eq ▸ hresults, hresult⟩, ?_⟩
  rw [← hsame.keys]
  exact hall

theorem storeResults_inv (hinv : CacheInv history caches) (hon : CachingOn requests)
    (hconfigured : configureAll requests = .ok configured) {results : List CachedSaveResult}
    (hresults : uncachedSave requests = .ok results) :
    CacheInv (history ++ [requests]) (storeResults configured results caches) := by
  have hlength := uncachedSave_length hresults hconfigured
  have hsame : ∀ (rank : Nat) (key : String), (cacheKeys requests)[rank]? = none ∨
      results[rank]? = none →
      (storeResults configured results caches rank).get? key = (caches rank).get? key := by
    intro rank key hnone
    unfold storeResults
    rw [cacheKeys_eq hconfigured, getElem?_map, Option.map_eq_none_iff] at hnone
    cases hnone with
    | inl hkey => rw [hkey]
    | inr hresult =>
      rw [hresult]
      cases configured[rank]? <;> rfl
  have hstored : ∀ (rank : Nat) (key key' : String) result,
      (cacheKeys requests)[rank]? = some key' → results[rank]? = some result →
      (storeResults configured results caches rank).get? key =
        if key = key' then some result else (caches rank).get? key := by
    intro rank key key' result hkey hresult
    unfold storeResults
    rw [cacheKeys_eq hconfigured, getElem?_map, Option.map_eq_some_iff] at hkey
    obtain ⟨planner, hrank, rfl⟩ := hkey
    have htrue := hon.configured hconfigured (mem_of_getElem? hrank)
    rw [hrank, hresult]
    simp only [ConfiguredPlanner.cacheResult, htrue, if_true]
    rw [PyDict.get?_set]
  have hkept : ∀ (rank : Nat) (key : String) result, (caches rank).get? key = some result →
      ∃ result', (storeResults configured results caches rank).get? key = some result' := by
    intro rank key result hget
    cases hkey : (cacheKeys requests)[rank]? with
    | none => exact ⟨_, (hsame rank key (.inl hkey)).trans hget⟩
    | some key' =>
      cases hfound : results[rank]? with
      | none => exact ⟨_, (hsame rank key (.inr hfound)).trans hget⟩
      | some found =>
        rw [hstored rank key key' found hkey hfound]
        split
        · exact ⟨_, rfl⟩
        · exact ⟨_, hget⟩
  have hnew : ∀ (rank : Nat) (key : String), (cacheKeys requests)[rank]? = some key →
      ∃ result, (storeResults configured results caches rank).get? key = some result := by
    intro rank key hkey
    have hrank : rank < results.length := by
      rw [hlength]
      simpa [cacheKeys_eq hconfigured] using (List.getElem?_eq_some_iff.mp hkey).1
    exact ⟨results[rank], (hstored rank key key _ hkey (List.getElem?_eq_getElem hrank)).trans
      (if_pos rfl)⟩
  have hold : ∀ (rank : Nat) (key : String) result, (caches rank).get? key = some result →
      ∃ save ∈ history ++ [requests], (cacheKeys save)[rank]? = some key ∧
        (∃ results, uncachedSave save = .ok results ∧ results[rank]? = some result) ∧
        ∀ (rank' : Nat) (key' : String), (cacheKeys save)[rank']? = some key' →
          ∃ result', (storeResults configured results caches rank').get? key' = some result' := by
    intro rank key result hget
    obtain ⟨save, hmem, hkey, hresult, hall⟩ := hinv rank key result hget
    refine ⟨save, mem_append_left _ hmem, hkey, hresult, ?_⟩
    intro rank' key' hkey'
    obtain ⟨result', hresult'⟩ := hall rank' key' hkey'
    exact hkept rank' key' result' hresult'
  intro rank key result hget
  cases hkey' : (cacheKeys requests)[rank]? with
  | none => exact hold rank key result ((hsame rank key (.inl hkey')).symm.trans hget)
  | some key' =>
    cases hfound : results[rank]? with
    | none => exact hold rank key result ((hsame rank key (.inr hfound)).symm.trans hget)
    | some found =>
      rw [hstored rank key key' found hkey' hfound] at hget
      split at hget
      · rename_i heq
        cases hget
        subst heq
        exact ⟨requests, by simp, hkey', ⟨results, hresults, hfound⟩, hnew⟩
      · exact hold rank key result hget

theorem cachedSave_eq (hinv : CacheInv history caches) (hon : CachingOn requests)
    (hcompatible : ∀ save ∈ history, Compatible save requests) :
    (cachedSave caches requests).1 = uncachedSave requests ∧
      CacheInv (history ++ [requests]) (cachedSave caches requests).2 := by
  unfold cachedSave
  cases hconfigured : configureAll requests with
  | error error =>
    refine ⟨?_, hinv.more requests⟩
    unfold uncachedSave
    rw [hconfigured]
    rfl
  | ok configured =>
    have hcached := @getElem?_cached _ _ caches _ _ hon hconfigured
    dsimp only
    generalize (configured.zipIdx.map fun rank => rank.1.getCached (caches rank.2)) = cached
      at hcached
    -- Every rank's key is known as soon as one rank's is.
    have hall : (∃ (rank : Nat) (result : CachedSaveResult), cached[rank]? = some (some result)) →
        ∃ results, uncachedSave requests = .ok results ∧ cached = results.map some := by
      rintro ⟨rank, result, hhit⟩
      rw [hcached, Option.map_eq_some_iff] at hhit
      obtain ⟨key, hkey, hget⟩ := hhit
      obtain ⟨⟨results, hresults, -⟩, hknown⟩ := hit_all hinv hcompatible hkey hget
      refine ⟨results, hresults, ext_getElem? fun i => ?_⟩
      rw [hcached, getElem?_map]
      cases hi : (cacheKeys requests)[i]? with
      | none =>
        have hlength := uncachedSave_length hresults hconfigured
        rw [cacheKeys_eq hconfigured, getElem?_eq_none_iff, length_map] at hi
        rw [getElem?_eq_none (by omega)]
        rfl
      | some key' =>
        obtain ⟨result', hget'⟩ := hknown i key' hi
        obtain ⟨⟨results', hresults', hresult'⟩, -⟩ := hit_all hinv hcompatible hi hget'
        obtain rfl : results = results' := by
          rw [hresults] at hresults'
          exact Except.ok.inj hresults'
        rw [hresult', Option.map_some, Option.map_some, hget']
    split
    · rename_i hsome
      refine ⟨?_, hinv.more requests⟩
      cases hfirst : cached[0]? with
      | none =>
        have hempty : configured = [] := by
          rw [hcached, Option.map_eq_none_iff, cacheKeys_eq hconfigured] at hfirst
          simpa using hfirst
        have hnone : cached = [] := by
          rw [getElem?_eq_none_iff, Nat.le_zero, length_eq_zero_iff] at hfirst
          exact hfirst
        unfold uncachedSave
        rw [hconfigured, hempty, hnone]
        rfl
      | some first =>
        have hhit := all_eq_true.mp hsome first (mem_of_getElem? hfirst)
        obtain ⟨result, rfl⟩ := Option.isSome_iff_exists.mp hhit
        obtain ⟨results, hresults, rfl⟩ := hall ⟨0, result, hfirst⟩
        rw [hresults]
        simp
    · rename_i hnotall
      split
      · rename_i hany
        obtain ⟨found, hmem, hfound⟩ := any_eq_true.mp hany
        obtain ⟨result, rfl⟩ := Option.isSome_iff_exists.mp hfound
        obtain ⟨rank, hrank⟩ := mem_iff_getElem?.mp hmem
        obtain ⟨results, -, rfl⟩ := hall ⟨rank, result, hrank⟩
        exact absurd (by simp) hnotall
      · have hfresh : uncachedSave requests = generateResults configured := by
          unfold uncachedSave
          rw [hconfigured]
          rfl
        rw [hfresh]
        cases hgenerated : generateResults configured with
        | error error => exact ⟨rfl, hinv.more requests⟩
        | ok results =>
          exact ⟨rfl, storeResults_inv hinv hon hconfigured (hfresh.trans hgenerated)⟩

end Step

/--
In a run of saves of which any two that share a cache key plan from the same, every save uses
the plans and the metadata it would have built without the cache.
-/
theorem cachedSaves_transparent (saves : List (List (SaveRequest α β)))
    (hon : ∀ requests ∈ saves, CachingOn requests) (hcompatible : saves.Pairwise Compatible) :
    cachedSaves (fun _ => .empty) saves = saves.map uncachedSave := by
  suffices hrun : ∀ history caches, CacheInv history caches →
      (∀ save ∈ history, ∀ requests ∈ saves, Compatible save requests) →
      cachedSaves caches saves = saves.map uncachedSave from
    hrun [] (fun _ => .empty) (fun _ _ _ hget => by simp at hget) (by simp)
  induction saves with
  | nil => exact fun _ _ _ _ => rfl
  | cons requests saves ih =>
    intro history caches hinv hhistory
    obtain ⟨hhead, htail⟩ := pairwise_cons.mp hcompatible
    obtain ⟨hresult, hnext⟩ := cachedSave_eq hinv (hon requests mem_cons_self)
      fun save hsave => hhistory save hsave requests mem_cons_self
    rw [cachedSaves, map_cons, hresult]
    congr 1
    apply ih (fun requests' hmem => hon requests' (mem_cons_of_mem _ hmem)) htail _ _ hnext
    intro save hsave later hlater
    rcases mem_append.mp hsave with hold | hnew
    · exact hhistory save hold later (mem_cons_of_mem _ hlater)
    · obtain rfl := mem_singleton.mp hnew
      exact hhead later hlater

def singleTensor (shape : List Nat) : StateDict Nat Nat where
  entries := [("w", .leaf (.tensor { dtype := "torch.float32", shape := shape, elem := fun _ => 0 }
    none))]
  distinct := ⟨by simp, trivial, trivial⟩

def singleRequest (shape : List Nat) : SaveRequest Nat Nat where
  planner := { rank := 0 }
  stateDict := singleTensor shape

theorem cachedSaves_transparent_same_shape :
    cachedSaves (fun _ => .empty) (List.replicate 2 (List.replicate 2 (singleRequest [3]))) =
      (List.replicate 2 (List.replicate 2 (singleRequest [3]))).map uncachedSave := by
  apply cachedSaves_transparent
  · intro requests hmem request hrequest
    rw [eq_of_mem_replicate hmem] at hrequest
    rw [eq_of_mem_replicate hrequest]
    rfl
  · rw [pairwise_replicate]
    exact .inr fun _ _ _ _ => ⟨rfl, rfl, rfl⟩

/-- A tensor saved with two elements and then with three is planned with two both times. -/
theorem cachedSaves_stale_shape :
    CachingOn [singleRequest [2]] ∧ CachingOn [singleRequest [3]] ∧
      cachedSaves (fun _ => .empty) [[singleRequest [2]], [singleRequest [3]]] ≠
        [[singleRequest [2]], [singleRequest [3]]].map uncachedSave := by
  refine ⟨by simp [CachingOn, singleRequest], by simp [CachingOn, singleRequest], ?_⟩
  decide

end HyperParallel.Checkpoint
