import HyperParallel.Foundation.Dealing
import HyperParallel.Foundation.Grid
import HyperParallel.Foundation.PySequence
import Mathlib.Algebra.Order.Ring.Int

/-!
# Route metadata from a gathered count table

The rows of the ranks, each a header and the counts of its experts, give the
summary and the offsets of a call.  The host scans nested lists, the device
reduces and scans reshaped tensors; on a table that passes the checks both give
the same.
-/

namespace HyperParallel.Multicore.MegaMoe

open Foundation List

inductive DispatchMode
  | push
  | pull
deriving DecidableEq

/-- A specification that the constructor has validated, with dynamic tokens. -/
structure MegaMoeSpec where
  localNumTokens : Nat
  hiddenSize : Nat
  numExperts : Nat
  topK : Nat
  epSize : Nat
  epGroup : Nat
  rankId : Nat
  dispatchMode : DispatchMode
  maxLocalNumTokens : Nat
  autoTokens : Bool
  hidden_pos : 0 < hiddenSize
  experts_pos : 0 < numExperts
  divides : epSize ∣ numExperts
  rank_lt : rankId < epSize

namespace MegaMoeSpec

def localExperts (spec : MegaMoeSpec) : Nat := spec.numExperts / spec.epSize

def atRank (spec : MegaMoeSpec) (rank : Fin spec.epSize) : MegaMoeSpec :=
  { spec with rankId := rank, rank_lt := rank.isLt }

theorem mul_localExperts (spec : MegaMoeSpec) : spec.epSize * spec.localExperts = spec.numExperts :=
  Nat.mul_div_cancel' spec.divides

end MegaMoeSpec

abbrev Table := List (List Int)

def cell (rows : Table) (i j : Nat) : Int := (rows.getD i []).getD j 0

def cells (rows columns : Nat) (f : Nat → Nat → Int) : List Int :=
  (List.range rows).flatMap fun i => (List.range columns).map (f i)

structure Gathered (spec : MegaMoeSpec) (table : Table) : Prop where
  ranks : table.length = spec.epSize
  widths : ∀ row ∈ table, row.length = 3 + spec.numExperts

/-! ## The summary of a table -/

structure RouteRow where
  invalid : Int
  tokens : Int
  mask : Int
  total : Int
  least : Int
  most : Int
  load : Int

def RouteRow.ofCounts (header counts : List Int) (load : Int) : RouteRow :=
  ⟨header.getD 0 0, header.getD 1 0, header.getD 2 0, counts.sum, counts.min?.getD 0,
    counts.max?.getD 0, load⟩

structure RouteSummary where
  capacity : Int
  planTokens : Int
  maximum : Int
deriving DecidableEq

def alignCapacity (capacity : Int) : Int := (capacity + 128 - 1) / 128 * 128

/-- `_valid_route_counts` -/
def validRouteCounts (row : RouteRow) (topK : Nat) : Bool :=
  row.total = row.tokens * topK ∧ row.least ≥ 0 ∧ row.most ≤ row.tokens

def validateDynamicSizes (rows : List RouteRow) (spec : MegaMoeSpec) : Except String Unit :=
  if spec.autoTokens ∧ rows.any (fun row => row.invalid ≠ 0 ∨ row.tokens < 0) then
    .error "MegaMoe dynamic route exceeds native INT32 size limits"
  else if ¬spec.autoTokens ∧ rows.any (fun row => row.invalid ≠ 0 ∨
      ¬(0 ≤ row.tokens ∧ row.tokens ≤ spec.maxLocalNumTokens)) then
    let limit := spec.maxLocalNumTokens
    let actual := rows.map (·.tokens)
    .error s!"MegaMoe token capacity overflow: limit={limit}, actual={actual}"
  else .ok ()

def validateDynamicRows (rows : List RouteRow) (spec : MegaMoeSpec) : Except String Unit := do
  validateDynamicSizes rows spec
  if rows.any fun row => row.mask ≠ (rows.map (·.mask)).headD 0 then
    .error "MegaMoe autograd participation differs across EP ranks"
  else if rows.any fun row => ¬validRouteCounts row spec.topK then
    .error "MegaMoe counts must describe the actual distinct Top-K routes"
  else .ok ()

/-- `_summarize_dynamic_rows` -/
def summarizeDynamicRows (rows : List RouteRow) (spec : MegaMoeSpec) :
    Except String RouteSummary := do
  validateDynamicRows rows spec
  let maximum := (rows.map (·.load)).max?.getD 0
  let tokens := (rows.map (·.tokens)).max?.getD 0
  let maximumTokens : Int := if spec.autoTokens then tokens else spec.localNumTokens
  let maximumCapacity := alignCapacity (spec.epSize * maximumTokens * spec.topK)
  let planTokens := max 128 (alignCapacity tokens)
  if maximum > maximumCapacity then
    .error (s!"MegaMoe receive capacity overflow: configured_capacity={maximumCapacity}, " ++
      s!"actual_maximum={maximum}")
  else if planTokens * (max spec.hiddenSize spec.topK : Nat) > 2 ^ 31 - 1 ∨
      maximum > 2 ^ 31 - 1 then
    .error "MegaMoe dynamic route exceeds native INT32 size limits"
  else .ok ⟨max 1 ((rows.map (·.load)).getD spec.rankId 0), planTokens, maximum⟩

/-- `counts_by_source` as a device tensor. -/
def countsBySource (table : Table) (source expert : Nat) : Int := cell table source (3 + expert)

/-- The columns that `_dynamic_summary` reads back; the loads reduce a reshape of the counts. -/
def deviceRows (payload : Table) (spec : MegaMoeSpec) : List RouteRow :=
  let loads target := ((List.range spec.epSize).map fun source =>
    ((List.range spec.localExperts).map fun expert =>
      countsBySource payload source (target * spec.localExperts + expert)).sum).sum
  (List.range spec.epSize).map fun source => .ofCounts (payload.getD source [])
    ((List.range spec.numExperts).map (countsBySource payload source)) (loads source)

def dynamicSummary (payload : Table) (spec : MegaMoeSpec) : Except String RouteSummary :=
  summarizeDynamicRows (deviceRows payload spec) spec

/-- `_summarize_host_route` -/
def summarizeHostRoute (raw : Table) (spec : MegaMoeSpec) : Except String RouteSummary :=
  let counts := raw.map (List.drop 3)
  let starts := (List.range ((spec.numExperts + spec.localExperts - 1) / spec.localExperts)).map
    (· * spec.localExperts)
  let loads := starts.map fun start =>
    (counts.map fun values => ((values.drop start).take spec.localExperts).sum).sum
  summarizeDynamicRows
    ((raw.zip (counts.zip loads)).map fun (row, values, load) => .ofCounts (row.take 3) values load)
    spec

/-! ## The offsets and sizes -/

structure RouteMetadata where
  dispatchSrcOff : List Int
  dispatchTargetOff : List Int
  dispatchSize : List Int
  combineSrcOff : List Int
  combineTargetOff : List Int
  combineSize : List Int
  groupList : List Int
  expertCapacity : Int
  localNumTokens : Option Nat := none
  planTokens : Option Int := none
deriving DecidableEq

def toInt32 (value : Int) : Int := Int.bmod value (2 ^ 32)

/-- `row.cumsum() - row` at an index -/
def exclusiveCumsum (row : Nat → Int) (i : Nat) : Int :=
  ((List.range (i + 1)).map row).sum - row i

/-- `destination_flat`: the counts of a destination, expert by expert and source by source. -/
def destinationFlat (counts : Nat → Nat → Int) (spec : MegaMoeSpec) (target i : Nat) : Int :=
  counts (i % spec.epSize) (target * spec.localExperts + i / spec.epSize)

def destinationPrefix (counts : Nat → Nat → Int) (spec : MegaMoeSpec)
    (target expert source : Nat) : Int :=
  exclusiveCumsum (destinationFlat counts spec target) (expert * spec.epSize + source)

/-- `_compute_route_metadata` -/
def computeRouteMetadata (counts : List Int) (bySource received : Nat → Nat → Int)
    (spec : MegaMoeSpec) (expertCapacity : Int) : RouteMetadata :=
  let sourcePrefix source := exclusiveCumsum (bySource source)
  let localPrefix := destinationPrefix bySource spec spec.rankId
  let localStart := spec.rankId * spec.localExperts
  let sourceOff := cells spec.epSize spec.localExperts fun source expert =>
    sourcePrefix source (localStart + expert)
  let targetOff := cells spec.epSize spec.localExperts fun source expert =>
    localPrefix expert source
  let sizes := (cells spec.epSize spec.localExperts received).map toInt32
  { dispatchSrcOff := match spec.dispatchMode with
      | .pull => sourceOff
      | .push => (List.range spec.numExperts).map (sourcePrefix spec.rankId)
    dispatchTargetOff := match spec.dispatchMode with
      | .pull => targetOff
      | .push => cells spec.epSize spec.localExperts fun target expert =>
        destinationPrefix bySource spec target expert spec.rankId
    dispatchSize := match spec.dispatchMode with
      | .pull => sizes
      | .push => counts.map toInt32
    combineSrcOff := targetOff
    combineTargetOff := sourceOff
    combineSize := sizes
    groupList := (List.range spec.localExperts).map fun expert =>
      localPrefix expert (spec.epSize - 1) + bySource (spec.epSize - 1) (localStart + expert)
    expertCapacity }

/-- `list(accumulate(row, initial=0))[:-1]` -/
def accumulated (row : List Int) : List Int := (row.scanl (· + ·) 0).dropLast

/-- `_host_route_prefixes` -/
def hostRoutePrefixes (counts : Table) (spec : MegaMoeSpec) : Table × Table × Table :=
  let destinations := (List.range spec.epSize).map fun target =>
    (List.range' (target * spec.localExperts) spec.localExperts).flatMap fun expert =>
      (List.range spec.epSize).map fun source => cell counts source expert
  (counts.map accumulated, destinations, destinations.map accumulated)

/-- `array("i", values)` refuses what does not fit. -/
def encodeSizes (values : List Int) : Except String (List Int) :=
  if ∀ v ∈ values, -2 ^ 31 ≤ v ∧ v < 2 ^ 31 then .ok values else .error "OverflowError"

/-- `_host_route_metadata`, with the fields that `_pack_host_route` encodes. -/
def hostRouteMetadata (raw : Table) (spec : MegaMoeSpec) (capacity : Int) :
    Except String RouteMetadata := do
  let counts := raw.map (List.drop 3)
  let start := spec.rankId * spec.localExperts
  let (prefixes, destinations, destinationPrefixes) := hostRoutePrefixes counts spec
  let sourceOffsets := cells spec.epSize spec.localExperts fun source expert =>
    cell prefixes source (start + expert)
  let targetOffsets := cells spec.epSize spec.localExperts fun source expert =>
    cell destinationPrefixes spec.rankId (expert * spec.epSize + source)
  let received := cells spec.epSize spec.localExperts fun source expert =>
    cell counts source (start + expert)
  let dispatchSource := match spec.dispatchMode with
    | .pull => sourceOffsets
    | .push => prefixes.getD spec.rankId []
  let dispatchTarget := match spec.dispatchMode with
    | .pull => targetOffsets
    | .push => cells spec.epSize spec.localExperts fun target expert =>
      cell destinationPrefixes target (expert * spec.epSize + spec.rankId)
  let dispatchSizes := match spec.dispatchMode with
    | .pull => received
    | .push => counts.getD spec.rankId []
  let groups := (List.range spec.localExperts).map fun expert =>
    cell destinationPrefixes spec.rankId ((expert + 1) * spec.epSize - 1) +
      cell destinations spec.rankId ((expert + 1) * spec.epSize - 1)
  let sizes ← encodeSizes dispatchSizes
  let combineSize ← encodeSizes received
  return { dispatchSrcOff := dispatchSource, dispatchTargetOff := dispatchTarget,
           dispatchSize := sizes, combineSrcOff := targetOffsets,
           combineTargetOff := sourceOffsets, combineSize, groupList := groups,
           expertCapacity := capacity }

/-! ## Both sides read the same table -/

section Agreement

variable {spec : MegaMoeSpec} {table : Table}

theorem exclusiveCumsum_eq (row : Nat → Int) (i : Nat) :
    exclusiveCumsum row i = ((range i).map row).sum := by
  simp [exclusiveCumsum, range_succ]

theorem accumulated_map_range (row : Nat → Int) (n : Nat) :
    accumulated ((range n).map row) = (range n).map (exclusiveCumsum row) := by
  apply ext_getElem
  · simp [accumulated]
  · intro i hi hi'
    have hlt : i < n := by simpa using hi'
    simp only [accumulated, getElem_dropLast, getElem_scanl, getElem_map, getElem_range,
      exclusiveCumsum_eq, ← map_take, take_range, Nat.min_eq_left hlt.le]
    exact (sum_eq_foldl ..).symm

theorem cell_table (f : Nat → Nat → Int) {n m i j : Nat} (hi : i < n) (hj : j < m) :
    cell (Grid.table n m f) i j = f i j := by
  simp [cell, Grid.table, hi, hj]

theorem getD_table (f : Nat → Nat → Int) {n m i : Nat} (hi : i < n) :
    (Grid.table n m f).getD i [] = (range m).map (f i) := by
  simp [Grid.table, hi]

theorem map_accumulated_table (f : Nat → Nat → Int) (n m : Nat) :
    (Grid.table n m f).map accumulated = Grid.table n m fun i => exclusiveCumsum (f i) := by
  simp [Grid.table, accumulated_map_range]

theorem cells_table {f : Nat → Nat → Int} {n m rows columns : Nat} {row column : Nat → Nat → Nat}
    (h : ∀ i < rows, ∀ j < columns, row i j < n ∧ column i j < m) :
    (cells rows columns fun i j => cell (Grid.table n m f) (row i j) (column i j)) =
      cells rows columns fun i j => f (row i j) (column i j) := by
  apply flatMap_congr
  intro i hi
  apply map_congr_left
  intro j hj
  have hlt := h i (mem_range.mp hi) j (mem_range.mp hj)
  exact cell_table f hlt.1 hlt.2

theorem block_lt {block width offset count : Nat} (hblock : block < count)
    (hoffset : offset < width) : block * width + offset < count * width := by
  have hle := Nat.mul_le_mul_right width (Nat.succ_le_of_lt hblock)
  rw [Nat.succ_mul] at hle
  omega

theorem column_lt {target expert : Nat} (ht : target < spec.epSize)
    (he : expert < spec.localExperts) : target * spec.localExperts + expert < spec.numExperts :=
  spec.mul_localExperts ▸ block_lt ht he

theorem localExperts_pos (spec : MegaMoeSpec) : 0 < spec.localExperts := by
  apply Nat.pos_of_ne_zero
  intro hzero
  have hpos := spec.experts_pos
  rw [← spec.mul_localExperts, hzero] at hpos
  exact absurd hpos (lt_irrefl 0)

theorem Gathered.rows (h : Gathered spec table) :
    table = (range spec.epSize).map (table.getD · []) := by
  apply ext_getElem
  · simp [h.ranks]
  · intro i hi _
    simp [getElem?_eq_getElem hi]

theorem Gathered.counts (h : Gathered spec table) :
    table.map (List.drop 3) = Grid.table spec.epSize spec.numExperts (countsBySource table) := by
  nth_rewrite 1 [h.rows]
  rw [map_map]
  apply map_congr_left
  intro source hsource
  have hlt : source < table.length := h.ranks ▸ mem_range.mp hsource
  have hwidth := h.widths _ (getElem_mem hlt)
  apply ext_getElem
  · simp [getElem?_eq_getElem hlt, hwidth]
  · intro i hi _
    have hbound : 3 + i < table[source].length := by
      simp [getElem?_eq_getElem hlt] at hi
      omega
    simp [getElem?_eq_getElem hlt, countsBySource, cell, getElem?_eq_getElem hbound]

theorem ofCounts_take (row values : List Int) (load : Int) :
    RouteRow.ofCounts (row.take 3) values load = .ofCounts row values load := by
  simp [RouteRow.ofCounts]

theorem summarizeHostRoute_eq (h : Gathered spec table) :
    summarizeHostRoute table spec = dynamicSummary table spec := by
  have hpos := localExperts_pos spec
  have hstarts : (spec.numExperts + spec.localExperts - 1) / spec.localExperts = spec.epSize := by
    rw [← spec.mul_localExperts, Nat.add_sub_assoc (by omega), Nat.mul_comm,
      Nat.mul_add_div hpos, Nat.div_eq_of_lt (by omega), Nat.add_zero]
  unfold summarizeHostRoute dynamicSummary deviceRows
  dsimp only
  rw [h.counts, hstarts]
  nth_rewrite 1 [h.rows]
  rw [map_map, Grid.table, zip_map', zip_map', map_map]
  apply congrArg (summarizeDynamicRows · spec)
  apply map_congr_left
  intro target htarget
  rw [Function.comp_apply, ofCounts_take, Function.comp_apply, map_map]
  apply congrArg (RouteRow.ofCounts _ _)
  apply congrArg List.sum
  apply map_congr_left
  intro source _
  rw [Function.comp_apply]
  apply congrArg List.sum
  have hlast : target * spec.localExperts + (spec.localExperts - 1) < spec.numExperts :=
    column_lt (mem_range.mp htarget) (Nat.sub_one_lt_of_lt hpos)
  apply ext_getElem
  · simp
    omega
  · intro i _ _
    simp

theorem destinationFlat_position {counts : Nat → Nat → Int} {target expert source : Nat}
    (hs : source < spec.epSize) :
    destinationFlat counts spec target (expert * spec.epSize + source) =
      counts source (target * spec.localExperts + expert) := by
  rw [destinationFlat, Nat.mul_comm, Nat.mul_add_mod, Nat.mod_eq_of_lt hs,
    Nat.mul_add_div (by omega), Nat.div_eq_of_lt hs, Nat.add_zero]

theorem hostRoutePrefixes_eq (counts : Nat → Nat → Int) :
    hostRoutePrefixes (Grid.table spec.epSize spec.numExperts counts) spec =
      (Grid.table spec.epSize spec.numExperts fun source => exclusiveCumsum (counts source),
        Grid.table spec.epSize (spec.localExperts * spec.epSize) (destinationFlat counts spec),
        Grid.table spec.epSize (spec.localExperts * spec.epSize) fun target =>
          exclusiveCumsum (destinationFlat counts spec target)) := by
  have hdestinations : ((range spec.epSize).map fun target =>
      (List.range' (target * spec.localExperts) spec.localExperts).flatMap fun expert =>
        (range spec.epSize).map fun source =>
          cell (Grid.table spec.epSize spec.numExperts counts) source expert) =
      Grid.table spec.epSize (spec.localExperts * spec.epSize) (destinationFlat counts spec) := by
    apply map_congr_left
    intro target htarget
    rw [← Dealing.flatMap_range_shift, List.range'_eq_map_range, flatMap_map]
    apply flatMap_congr
    intro expert hexpert
    apply map_congr_left
    intro source hsource
    have hs := mem_range.mp hsource
    rw [cell_table _ hs (column_lt (mem_range.mp htarget) (mem_range.mp hexpert)),
      destinationFlat_position hs]
  unfold hostRoutePrefixes
  dsimp only
  rw [hdestinations, map_accumulated_table, map_accumulated_table]

def Fits (spec : MegaMoeSpec) (table : Table) : Prop :=
  ∀ source < spec.epSize, ∀ expert < spec.numExperts,
    0 ≤ countsBySource table source expert ∧ countsBySource table source expert ≤ 2 ^ 31 - 1

variable {values : List Int}

theorem encodeSizes_eq (h : ∀ v ∈ values, 0 ≤ v ∧ v ≤ 2 ^ 31 - 1) :
    encodeSizes values = .ok (values.map toInt32) := by
  have hmap : values.map toInt32 = values := by
    refine (map_congr_left fun v hv => ?_).trans (map_id values)
    have hbounds := h v hv
    exact Int.bmod_eq_of_le (by omega) (by omega)
  rw [hmap, encodeSizes, if_pos]
  intro v hv
  have hbounds := h v hv
  omega

theorem le_maximum {v : Int} (h : v ∈ values) : v ≤ values.max?.getD 0 := by
  have hne : values ≠ [] := ne_nil_of_mem h
  rw [max?_eq_some_max hne, Option.getD_some]
  exact le_max_of_mem h

theorem minimum_le {v : Int} (h : v ∈ values) : values.min?.getD 0 ≤ v := by
  have hne : values ≠ [] := ne_nil_of_mem h
  rw [min?_eq_some_min hne, Option.getD_some]
  exact min_le_of_mem h

theorem summarizeDynamicRows_ok {rows : List RouteRow} {summary : RouteSummary}
    (h : summarizeDynamicRows rows spec = .ok summary) :
    summary.planTokens = max 128 (alignCapacity ((rows.map (·.tokens)).max?.getD 0)) ∧
      summary.maximum = (rows.map (·.load)).max?.getD 0 ∧
      ∀ row ∈ rows, 0 ≤ row.least ∧ row.most ≤ row.tokens ∧ row.tokens ≤ 2 ^ 31 - 1 := by
  unfold summarizeDynamicRows at h
  obtain ⟨_, hvalid, h⟩ := bind_eq_ok h
  unfold validateDynamicRows at hvalid
  obtain ⟨_, -, hvalid⟩ := bind_eq_ok hvalid
  split at hvalid
  · cases hvalid
  split at hvalid
  · cases hvalid
  rename_i hcounts
  dsimp only at h
  generalize alignCapacity (_ * _ * _) = capacity at h
  split at h
  · cases h
  split at h
  · cases h
  rename_i hsize
  cases h
  refine ⟨rfl, rfl, fun row hrow => ?_⟩
  have hvalidRow : row.total = row.tokens * spec.topK ∧ row.least ≥ 0 ∧ row.most ≤ row.tokens := by
    simpa [validRouteCounts] using fun hbad => hcounts (any_eq_true.mpr ⟨row, hrow, hbad⟩)
  have htokens : row.tokens ≤ (rows.map (·.tokens)).max?.getD 0 := le_maximum (mem_map_of_mem hrow)
  have hplan := (not_or.mp hsize).1
  have hone : (1 : Int) ≤ (max spec.hiddenSize spec.topK : Nat) := by
    have hpos := spec.hidden_pos
    omega
  have hle := le_mul_of_one_le_right (show 0 ≤ max 128 (alignCapacity
    ((rows.map (·.tokens)).max?.getD 0)) by omega) hone
  have halign : row.tokens ≤ max 128 (alignCapacity ((rows.map (·.tokens)).max?.getD 0)) := by
    unfold alignCapacity
    omega
  exact ⟨hvalidRow.2.1, hvalidRow.2.2, by omega⟩

theorem fits_of_dynamicSummary {summary : RouteSummary}
    (h : dynamicSummary table spec = .ok summary) : Fits spec table := by
  intro source hs expert he
  unfold dynamicSummary deviceRows at h
  obtain ⟨-, -, hrows⟩ := summarizeDynamicRows_ok h
  obtain ⟨hleast, hmost, htokens⟩ := hrows _ (mem_map_of_mem (mem_range.mpr hs))
  have hmem : countsBySource table source expert ∈
      (range spec.numExperts).map (countsBySource table source) :=
    mem_map_of_mem (mem_range.mpr he)
  exact ⟨hleast.trans (minimum_le hmem), ((le_maximum hmem).trans hmost).trans htokens⟩

def deviceMetadata (table : Table) (spec : MegaMoeSpec) (capacity : Int) : RouteMetadata :=
  computeRouteMetadata ((List.range spec.numExperts).map (countsBySource table spec.rankId))
    (countsBySource table)
    (fun source expert => countsBySource table source (spec.rankId * spec.localExperts + expert))
    spec capacity

theorem hostRouteMetadata_eq (h : Gathered spec table) (hfits : Fits spec table) (capacity : Int) :
    hostRouteMetadata table spec capacity = .ok (deviceMetadata table spec capacity) := by
  have hrank := spec.rank_lt
  have hreceived : ∀ v ∈ cells spec.epSize spec.localExperts fun source expert =>
      countsBySource table source (spec.rankId * spec.localExperts + expert),
      0 ≤ v ∧ v ≤ 2 ^ 31 - 1 := by
    intro v hv
    obtain ⟨source, hs, expert, he, rfl⟩ := by simpa [cells] using hv
    exact hfits source hs _ (column_lt hrank he)
  have hsent : ∀ v ∈ (range spec.numExperts).map (countsBySource table spec.rankId),
      0 ≤ v ∧ v ≤ 2 ^ 31 - 1 := by
    intro v hv
    obtain ⟨expert, he, rfl⟩ := mem_map.mp hv
    exact hfits spec.rankId hrank expert (mem_range.mp he)
  unfold hostRouteMetadata deviceMetadata computeRouteMetadata
  dsimp only
  rw [h.counts, hostRoutePrefixes_eq]
  dsimp only
  rw [cells_table fun source hs expert he => ⟨hs, column_lt hrank he⟩,
    cells_table fun source hs expert he => ⟨hrank, block_lt he hs⟩,
    cells_table fun target ht expert he => ⟨ht, block_lt he hrank⟩,
    cells_table fun source hs expert he => ⟨hs, column_lt hrank he⟩,
    getD_table _ hrank, getD_table _ hrank, encodeSizes_eq hreceived]
  have hgroups : (range spec.localExperts).map (fun expert =>
      cell (Grid.table spec.epSize (spec.localExperts * spec.epSize) fun target =>
        exclusiveCumsum (destinationFlat (countsBySource table) spec target)) spec.rankId
          ((expert + 1) * spec.epSize - 1) +
      cell (Grid.table spec.epSize (spec.localExperts * spec.epSize)
        (destinationFlat (countsBySource table) spec)) spec.rankId
          ((expert + 1) * spec.epSize - 1)) =
      (range spec.localExperts).map fun expert =>
        destinationPrefix (countsBySource table) spec spec.rankId expert (spec.epSize - 1) +
          countsBySource table (spec.epSize - 1) (spec.rankId * spec.localExperts + expert) := by
    apply map_congr_left
    intro expert hexpert
    have hlast : spec.epSize - 1 < spec.epSize := by omega
    have hlt := block_lt (mem_range.mp hexpert) hlast
    have hposition : (expert + 1) * spec.epSize - 1 = expert * spec.epSize + (spec.epSize - 1) := by
      rw [Nat.succ_mul, Nat.add_sub_assoc (by omega)]
    rw [hposition, cell_table _ hrank hlt, cell_table _ hrank hlt, destinationFlat_position hlast]
    rfl
  rw [hgroups]
  cases spec.dispatchMode with
  | push =>
    dsimp only
    rw [encodeSizes_eq hsent]
    rfl
  | pull =>
    dsimp only
    rw [encodeSizes_eq hreceived]
    rfl

end Agreement

end HyperParallel.Multicore.MegaMoe
