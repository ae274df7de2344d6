import HyperParallel.Multicore.RouteMetadata

/-!
# Routes through a workspace

A workspace keeps the last table its host has summarised and, once that table is
seen again, its metadata.  What a forward call uses is what the device path gives
for the table of the call, whatever the workspace keeps.
-/

namespace HyperParallel.Multicore.MegaMoe

open Foundation List

/-- `_route_cache_signature` -/
structure RouteSignature where
  epSize : Nat
  epGroup : Nat
  rankId : Nat
  numExperts : Nat
  topK : Nat
  hiddenSize : Nat
  dispatchMode : DispatchMode
  autoTokens : Bool
  maxLocalNumTokens : Nat
  device : Nat
deriving DecidableEq

def routeCacheSignature (spec : MegaMoeSpec) (device : Nat) : RouteSignature :=
  ⟨spec.epSize, spec.epGroup, spec.rankId, spec.numExperts, spec.topK, spec.hiddenSize,
    spec.dispatchMode, spec.autoTokens, spec.maxLocalNumTokens, device⟩

structure HostRouteCache where
  signature : RouteSignature
  raw : Table
  summary : RouteSummary
  metadata : Option RouteMetadata

structure Workspace where
  routeCache : Option HostRouteCache := none
  routeCacheProbeAfter : Nat := 0

def hostRouteMaxCounts : Nat := 2048

def hostDescriptorMaxCounts : Nat := 1024

def routeCacheReprobeSteps : Nat := 8

/-- `_read_dynamic_route` -/
def readDynamicRoute (payload : Table) (spec : MegaMoeSpec) :
    Except String (RouteSummary × Option Table) :=
  if spec.epSize * spec.numExperts > hostRouteMaxCounts then
    (dynamicSummary payload spec).map fun summary => (summary, none)
  else (summarizeHostRoute payload spec).map fun summary => (summary, some payload)

abbrev Read := RouteSummary × Option Table × Option RouteMetadata

/-- `_read_cached_route`: a workspace is changed also when the checks fail. -/
def readCachedRoute (payload : Table) (spec : MegaMoeSpec) (workspace : Workspace) (device : Nat) :
    Except String Read × Workspace :=
  if ¬spec.autoTokens ∨ spec.epSize * spec.numExperts > hostRouteMaxCounts then
    ((readDynamicRoute payload spec).map fun (summary, raw) => (summary, raw, none), workspace)
  else
    let cached := workspace.routeCache.filter (·.signature = routeCacheSignature spec device)
    let remaining := workspace.routeCacheProbeAfter
    if cached.isSome ∧ remaining > 0 then
      ((dynamicSummary payload spec).map fun summary => (summary, none, none),
        { workspace with routeCacheProbeAfter := remaining - 1 })
    else match cached.filter (·.raw = payload) with
      | some hit => (.ok (hit.summary, some payload, hit.metadata),
          { workspace with routeCacheProbeAfter := 0 })
      | none =>
        let summary := summarizeHostRoute payload spec
        let wide := spec.epSize * spec.numExperts > hostDescriptorMaxCounts
        let probe := if summary.isOk ∧ cached.isSome ∧ wide then routeCacheReprobeSteps else 0
        (summary.map fun summary => (summary, some payload, none),
          { workspace with routeCacheProbeAfter := probe })

/-- `_cache_host_route` -/
def cacheHostRoute (workspace : Workspace) (spec : MegaMoeSpec) (raw : Table)
    (summary : RouteSummary) (metadata : RouteMetadata) (device : Nat) : Workspace :=
  if ¬spec.autoTokens then workspace
  else
    let signature := routeCacheSignature spec device
    let repeated := workspace.routeCache.any fun previous =>
      previous.signature = signature ∧ previous.raw = raw
    { workspace with
      routeCache := some ⟨signature, raw, summary, if repeated then some metadata else none⟩ }

/-- `_dynamic_route_metadata` -/
def dynamicRouteMetadata (counts : List Int) (gathered : Table) (hostRows : Option Table)
    (spec : MegaMoeSpec) (capacity : Int) : Except String RouteMetadata :=
  match hostRows.filter fun _ => spec.epSize * spec.numExperts ≤ hostDescriptorMaxCounts with
  | some rows => hostRouteMetadata rows spec capacity
  | none =>
    let bySource := countsBySource gathered
    let received source expert := bySource source (spec.rankId * spec.localExperts + expert)
    let localCounts := if spec.autoTokens then
      (List.range spec.numExperts).map (bySource spec.rankId) else counts
    .ok (computeRouteMetadata localCounts bySource received spec capacity)

/-! ## A forward call of the group -/

structure RouteInput (numExperts : Nat) where
  device : Nat
  tokens : Nat
  counts : Fin numExperts → Int
  autogradMask : Int
  prepareWorkspace : Int → Int → Except String Unit
  publish : Except String Unit

/-- `_dynamic_route_payload`: the counts of the rank and the row it sends. -/
def dynamicRoutePayload (spec : MegaMoeSpec) (input : RouteInput spec.numExperts) :
    List Int × List Int :=
  let invalid : Bool := if spec.autoTokens then
    input.tokens * max spec.hiddenSize spec.topK > 2 ^ 31 - 1
    else input.tokens > spec.maxLocalNumTokens
  let counts := if invalid then List.replicate spec.numExperts 0 else List.ofFn input.counts
  let headerTokens := if spec.autoTokens then min input.tokens (2 ^ 31 - 1) else input.tokens
  (counts, invalid.toNat :: headerTokens :: input.autogradMask :: counts)

structure PreparedTopKRoute where
  tokensPerExpert : List Int
  receivedCounts : List Int
  maximumReceivedSlots : Int
  metadata : RouteMetadata
deriving DecidableEq

def prepared (tokens : Nat) (counts : List Int) (summary : RouteSummary)
    (metadata : RouteMetadata) : PreparedTopKRoute :=
  ⟨counts, metadata.combineSize, summary.maximum,
    { metadata with localNumTokens := some tokens, planTokens := some summary.planTokens }⟩

/-- The end of `_prepare_dynamic_route`, once the summary is read. -/
def finishRoute (spec : MegaMoeSpec) (input : RouteInput spec.numExperts) (counts : List Int)
    (gathered : Table) (workspace : Workspace) : Read → Except String PreparedTopKRoute × Workspace
  | (summary, _, some metadata) => (.ok (prepared input.tokens counts summary metadata), workspace)
  | (summary, hostRows, none) =>
    match dynamicRouteMetadata counts gathered hostRows spec summary.capacity with
    | .error e => (.error e, workspace)
    | .ok metadata => (.ok (prepared input.tokens counts summary metadata),
        hostRows.elim workspace fun raw =>
          cacheHostRoute workspace spec raw summary metadata input.device)

/-- `_prepare_dynamic_route`, once the rows are gathered. -/
def prepareDynamicRoute (spec : MegaMoeSpec) (input : RouteInput spec.numExperts)
    (counts : List Int) (gathered : Table) (workspace : Workspace) :
    Except String PreparedTopKRoute × Workspace :=
  if spec.autoTokens then
    let (read, workspace) := readCachedRoute gathered spec workspace input.device
    match (do
      let read ← read
      input.prepareWorkspace read.1.planTokens read.1.maximum
      input.publish
      return read) with
    | .error e => (.error e, workspace)
    | .ok read => finishRoute spec input counts gathered workspace read
  else
    match (do
      (if input.tokens ≤ spec.maxLocalNumTokens then input.publish else .ok ())
      readDynamicRoute gathered spec) with
    | .error e => (.error e, workspace)
    | .ok (summary, raw) => finishRoute spec input counts gathered workspace (summary, raw, none)

structure ForwardCall where
  spec : MegaMoeSpec
  input : Fin spec.epSize → RouteInput spec.numExperts

namespace ForwardCall

def payload (call : ForwardCall) (rank : Fin call.spec.epSize) : List Int × List Int :=
  dynamicRoutePayload call.spec (call.input rank)

def gathered (call : ForwardCall) : Table := List.ofFn fun rank => (call.payload rank).2

def routeAt (call : ForwardCall) (workspaces : Nat → Workspace) (rank : Fin call.spec.epSize) :
    Except String PreparedTopKRoute × Workspace :=
  prepareDynamicRoute (call.spec.atRank rank) (call.input rank) (call.payload rank).1 call.gathered
    (workspaces rank)

def after (call : ForwardCall) (workspaces : Nat → Workspace) (n : Nat) : Workspace :=
  if h : n < call.spec.epSize then (call.routeAt workspaces ⟨n, h⟩).2 else workspaces n

end ForwardCall

def runCalls (workspaces : Nat → Workspace) :
    List ForwardCall → List (List (Except String PreparedTopKRoute))
  | [] => []
  | call :: rest =>
    List.ofFn (fun rank => (call.routeAt workspaces rank).1) ::
      runCalls (call.after workspaces) rest

/-! ## What the device path gives -/

def deviceRoute (spec : MegaMoeSpec) (input : RouteInput spec.numExperts) (counts : List Int)
    (gathered : Table) : Except String PreparedTopKRoute :=
  let route := fun summary : RouteSummary =>
    prepared input.tokens counts summary (deviceMetadata gathered spec summary.capacity)
  if spec.autoTokens then do
    let summary ← dynamicSummary gathered spec
    input.prepareWorkspace summary.planTokens summary.maximum
    input.publish
    return route summary
  else do
    (if input.tokens ≤ spec.maxLocalNumTokens then input.publish else .ok ())
    let summary ← dynamicSummary gathered spec
    return route summary

def ForwardCall.deviceRoutes (call : ForwardCall) : List (Except String PreparedTopKRoute) :=
  List.ofFn fun rank => deviceRoute (call.spec.atRank rank) (call.input rank) (call.payload rank).1
    call.gathered

section Agreement

variable {spec : MegaMoeSpec} {table : Table} {workspace : Workspace}

theorem eq_of_signature {spec' : MegaMoeSpec} {device device' : Nat}
    (h : routeCacheSignature spec device = routeCacheSignature spec' device') :
    spec' = { spec with localNumTokens := spec'.localNumTokens } := by
  cases spec
  cases spec'
  simp only [routeCacheSignature, RouteSignature.mk.injEq] at h
  simp [h]

theorem summarizeDynamicRows_localNumTokens (hauto : spec.autoTokens = true) (tokens : Nat)
    (rows : List RouteRow) : summarizeDynamicRows rows { spec with localNumTokens := tokens } =
      summarizeDynamicRows rows spec := by
  unfold summarizeDynamicRows
  dsimp only
  rw [if_pos hauto, if_pos hauto]
  rfl

theorem dynamicSummary_localNumTokens (hauto : spec.autoTokens = true) (tokens : Nat) :
    dynamicSummary table { spec with localNumTokens := tokens } = dynamicSummary table spec :=
  summarizeDynamicRows_localNumTokens hauto tokens _

def Workspace.Sound (workspace : Workspace) : Prop :=
  ∀ cached, workspace.routeCache = some cached → ∀ spec device,
    cached.signature = routeCacheSignature spec device → spec.autoTokens = true →
      dynamicSummary cached.raw spec = .ok cached.summary ∧ ∀ metadata,
        cached.metadata = some metadata →
          metadata = deviceMetadata cached.raw spec cached.summary.capacity

def Agrees (table : Table) (spec : MegaMoeSpec) (read : Except String Read) : Prop :=
  read.map Prod.fst = dynamicSummary table spec ∧ ∀ found, read = .ok found →
    (∀ raw, found.2.1 = some raw → raw = table) ∧ ∀ metadata, found.2.2 = some metadata →
      metadata = deviceMetadata table spec found.1.capacity

theorem agrees_map {raw : Option Table} (hraw : ∀ rows, raw = some rows → rows = table) :
    Agrees table spec ((dynamicSummary table spec).map fun summary => (summary, raw, none)) := by
  refine ⟨?_, ?_⟩
  · cases dynamicSummary table spec <;> rfl
  · intro found hfound
    obtain ⟨summary, -, rfl⟩ := map_eq_ok hfound
    exact ⟨hraw, by simp⟩

theorem readDynamicRoute_agrees (h : Gathered spec table) :
    Agrees table spec ((readDynamicRoute table spec).map fun (summary, raw) =>
      (summary, raw, none)) := by
  have hmap (raw : Option Table) : (((dynamicSummary table spec).map fun summary =>
      (summary, raw)).map fun (summary, raw) => ((summary, raw, none) : Read)) =
      (dynamicSummary table spec).map fun summary => (summary, raw, none) := by
    cases dynamicSummary table spec <;> rfl
  unfold readDynamicRoute
  rw [summarizeHostRoute_eq h]
  split
  · rw [hmap]
    exact agrees_map (by simp)
  · rw [hmap]
    exact agrees_map (by simp)

theorem readCachedRoute_agrees (h : Gathered spec table) (hsound : workspace.Sound)
    (device : Nat) : Agrees table spec (readCachedRoute table spec workspace device).1 ∧
      (readCachedRoute table spec workspace device).2.routeCache = workspace.routeCache := by
  unfold readCachedRoute
  split
  · exact ⟨readDynamicRoute_agrees h, rfl⟩
  rename_i hhost
  dsimp only
  split
  · exact ⟨agrees_map (by simp), rfl⟩
  split
  · rename_i hit hfound
    simp only [Option.filter_eq_some_iff, decide_eq_true_eq] at hfound
    obtain ⟨⟨hcache, hsignature⟩, rfl⟩ := hfound
    have hkept := hsound hit hcache spec device hsignature (by simp_all)
    refine ⟨⟨hkept.1.symm, ?_⟩, rfl⟩
    intro found hfound
    cases hfound
    exact ⟨by simp, hkept.2⟩
  · rw [summarizeHostRoute_eq h]
    exact ⟨agrees_map (by simp), rfl⟩

theorem Workspace.Sound.congr {next : Workspace} (h : workspace.Sound)
    (hcache : next.routeCache = workspace.routeCache) : next.Sound := by
  unfold Workspace.Sound
  rw [hcache]
  exact h

theorem cacheHostRoute_sound {summary : RouteSummary} (hsound : workspace.Sound)
    (h : dynamicSummary table spec = .ok summary) (device : Nat) :
    (cacheHostRoute workspace spec table summary (deviceMetadata table spec summary.capacity)
      device).Sound := by
  unfold cacheHostRoute
  split
  · exact hsound
  rename_i hauto
  intro cached hcached spec' device' hsignature _
  cases hcached
  rw [eq_of_signature hsignature]
  have hauto' : spec.autoTokens = true := by simpa using hauto
  refine ⟨(dynamicSummary_localNumTokens hauto' _).trans h, fun metadata hkept => ?_⟩
  dsimp only at hkept
  split at hkept
  · cases hkept
    rfl
  · cases hkept

theorem dynamicRouteMetadata_eq {counts : List Int} {hostRows : Option Table}
    (h : Gathered spec table) (hfits : Fits spec table)
    (hcounts : (range spec.numExperts).map (countsBySource table spec.rankId) = counts)
    (hrows : ∀ raw, hostRows = some raw → raw = table) (capacity : Int) :
    dynamicRouteMetadata counts table hostRows spec capacity =
      .ok (deviceMetadata table spec capacity) := by
  unfold dynamicRouteMetadata
  split
  · rename_i rows hfound
    rw [hrows rows (Option.filter_eq_some_iff.mp hfound).1]
    exact hostRouteMetadata_eq h hfits capacity
  · dsimp only
    rw [hcounts, ite_self, ← hcounts]
    rfl

section

variable {counts : List Int} (h : Gathered spec table) (hsound : workspace.Sound)
  (hcounts : (range spec.numExperts).map (countsBySource table spec.rankId) = counts)

include h hsound hcounts

theorem finishRoute_eq {input : RouteInput spec.numExperts} {found : Read}
    (hread : Agrees table spec (.ok found)) :
    (finishRoute spec input counts table workspace found).1 = .ok (prepared input.tokens counts
      found.1 (deviceMetadata table spec found.1.capacity)) ∧
      (finishRoute spec input counts table workspace found).2.Sound := by
  obtain ⟨hsummary, hfound⟩ := hread
  obtain ⟨hrows, hmetadata⟩ := hfound found rfl
  obtain ⟨summary, hostRows, metadata⟩ := found
  cases metadata with
  | some metadata =>
    rw [finishRoute, hmetadata metadata rfl]
    exact ⟨rfl, hsound⟩
  | none =>
    have hfits := fits_of_dynamicSummary hsummary.symm
    rw [finishRoute, dynamicRouteMetadata_eq h hfits hcounts hrows]
    refine ⟨rfl, ?_⟩
    cases hostRows with
    | none => exact hsound
    | some raw =>
      obtain rfl := hrows raw rfl
      exact cacheHostRoute_sound hsound hsummary.symm _

theorem prepareDynamicRoute_eq {input : RouteInput spec.numExperts} :
    (prepareDynamicRoute spec input counts table workspace).1 =
      deviceRoute spec input counts table ∧
      (prepareDynamicRoute spec input counts table workspace).2.Sound := by
  unfold prepareDynamicRoute deviceRoute
  split
  · obtain ⟨hread, hcache⟩ := readCachedRoute_agrees h hsound input.device
    generalize readCachedRoute table spec workspace input.device = result at hread hcache ⊢
    obtain ⟨read, next⟩ := result
    have hnext : next.Sound := hsound.congr hcache
    rw [← hread.1]
    cases read with
    | error e => exact ⟨rfl, hnext⟩
    | ok found =>
      simp only [bind, Except.bind, Except.map]
      cases input.prepareWorkspace found.1.planTokens found.1.maximum with
      | error e => exact ⟨rfl, hnext⟩
      | ok _ =>
        cases input.publish with
        | error e => exact ⟨rfl, hnext⟩
        | ok _ => exact finishRoute_eq h hnext hcounts hread
  · have hread := readDynamicRoute_agrees h
    cases (if input.tokens ≤ spec.maxLocalNumTokens then input.publish else .ok ()) with
    | error e => exact ⟨rfl, hsound⟩
    | ok _ =>
      rw [← hread.1]
      cases hfound : readDynamicRoute table spec with
      | error e => exact ⟨rfl, hsound⟩
      | ok found =>
        rw [hfound] at hread
        exact finishRoute_eq h hsound hcounts hread

end

end Agreement

theorem ForwardCall.length_payload (call : ForwardCall) (rank : Fin call.spec.epSize) :
    (call.payload rank).1.length = call.spec.numExperts := by
  unfold payload dynamicRoutePayload
  dsimp only
  rw [apply_ite List.length, length_replicate, length_ofFn, ite_self]

theorem ForwardCall.gathered_shape (call : ForwardCall) (rank : Fin call.spec.epSize) :
    Gathered (call.spec.atRank rank) call.gathered where
  ranks := List.length_ofFn
  widths := by
    intro row hrow
    obtain ⟨source, rfl⟩ := (mem_ofFn' ..).mp hrow
    have hlength := call.length_payload source
    change (call.payload source).1.length + 3 = 3 + call.spec.numExperts
    omega

theorem ForwardCall.counts_gathered (call : ForwardCall) (rank : Fin call.spec.epSize) :
    (range call.spec.numExperts).map (countsBySource call.gathered rank) =
      (call.payload rank).1 := by
  have hrow : call.gathered.getD rank [] = (call.payload rank).2 := by simp [gathered]
  have hlength := call.length_payload rank
  apply ext_getElem
  · simp [hlength]
  · intro i _ hi
    simp only [getElem_map, getElem_range, countsBySource, cell]
    rw [hrow, Nat.add_comm]
    change (call.payload rank).1.getD i 0 = _
    simp [getElem?_eq_getElem hi]

theorem ForwardCall.routeAt_eq (call : ForwardCall) {workspaces : Nat → Workspace}
    (hsound : ∀ n, (workspaces n).Sound) (rank : Fin call.spec.epSize) :
    (call.routeAt workspaces rank).1 = deviceRoute (call.spec.atRank rank) (call.input rank)
      (call.payload rank).1 call.gathered ∧ (call.routeAt workspaces rank).2.Sound :=
  prepareDynamicRoute_eq (call.gathered_shape rank) (hsound rank) (call.counts_gathered rank)

theorem runCalls_eq {workspaces : Nat → Workspace} (hsound : ∀ n, (workspaces n).Sound)
    (calls : List ForwardCall) :
    runCalls workspaces calls = calls.map ForwardCall.deviceRoutes := by
  induction calls generalizing workspaces with
  | nil => rfl
  | cons call rest ih =>
    have hafter : ∀ n, (call.after workspaces n).Sound := by
      intro n
      unfold ForwardCall.after
      split
      · exact (call.routeAt_eq hsound _).2
      · exact hsound n
    rw [runCalls, ih hafter, map_cons, ForwardCall.deviceRoutes]
    simp only [(call.routeAt_eq hsound _).1]

/-- The summary of a call's table, whichever rank reads it. -/
theorem deviceRoute_schedule {spec : MegaMoeSpec} {input : RouteInput spec.numExperts}
    {counts : List Int} {table : Table} {route : PreparedTopKRoute}
    (h : deviceRoute spec input counts table = .ok route) :
    ∃ summary, dynamicSummary table spec = .ok summary ∧
      route.metadata.planTokens = some summary.planTokens ∧
      route.maximumReceivedSlots = summary.maximum := by
  unfold deviceRoute at h
  split at h
  · obtain ⟨summary, hsummary, h⟩ := bind_eq_ok h
    obtain ⟨_, -, h⟩ := bind_eq_ok h
    obtain ⟨_, -, h⟩ := bind_eq_ok h
    cases h
    exact ⟨summary, hsummary, rfl, rfl⟩
  · obtain ⟨_, -, h⟩ := bind_eq_ok h
    obtain ⟨summary, hsummary, h⟩ := bind_eq_ok h
    cases h
    exact ⟨summary, hsummary, rfl, rfl⟩

/-- Every call of a run uses the device's summary and metadata, and its ranks the same schedule. -/
theorem routes_match_device (calls : List ForwardCall) :
    runCalls (fun _ => {}) calls = calls.map ForwardCall.deviceRoutes ∧
      ∀ call ∈ calls, ∃ planTokens maximum, ∀ route, .ok route ∈ call.deviceRoutes →
        route.metadata.planTokens = some planTokens ∧ route.maximumReceivedSlots = maximum := by
  refine ⟨runCalls_eq (fun _ _ hcache => by cases hcache) calls, fun call _ => ?_⟩
  let rows := deviceRows call.gathered call.spec
  refine ⟨max 128 (alignCapacity ((rows.map (·.tokens)).max?.getD 0)),
    (rows.map (·.load)).max?.getD 0, fun route hroute => ?_⟩
  obtain ⟨rank, hrank⟩ := (mem_ofFn' ..).mp hroute
  obtain ⟨summary, hsummary, hplan, hmaximum⟩ := deviceRoute_schedule hrank
  obtain ⟨hplanTokens, hload, -⟩ := summarizeDynamicRows_ok hsummary
  rw [hplan, hmaximum, hplanTokens, hload]
  exact ⟨rfl, rfl⟩

end HyperParallel.Multicore.MegaMoe
