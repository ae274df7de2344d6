import HyperParallel.FullyAsync.Ownership

/-!
# Every selected group is fresh

The invariant of every reachable state: the buffer and the channels agree, and
the first groups of the buffer stay fresh from their eviction check to their
selection, whatever arrives behind them.
-/

namespace HyperParallel.FullyAsync

open Foundation ExperienceBuffer List

variable {settings : Settings}

def Fresh (settings : Settings) (update : Int) (group : SampleGroup) : Prop :=
  ∀ source ∈ group.sourceUpdates, update - settings.maxPolicyLagUpdates ≤ source ∧ source ≤ update

structure Batch (settings : Settings) (buffer : ExperienceBuffer) (update : Int) : Prop where
  complete : settings.required ≤ buffer.ready.entries.length
  fresh : ∀ group ∈ buffer.ready.values.take settings.required, Fresh settings update group

theorem Batch.accepted {buffer : ExperienceBuffer} {update : Int} {group : SampleGroup}
    {reserved : PyDict Nat SamplingTask} (h : Batch settings buffer update)
    (hfresh : group.task.identity ∉ buffer.ready.keys) :
    Batch settings { buffer with
      reserved := reserved
      ready := buffer.ready.set group.task.identity group } update := by
  have hentries := buffer.ready.entries_set_of_notMem group hfresh
  have hvalues := buffer.ready.values_set_of_notMem group hfresh
  constructor
  case complete =>
    dsimp only
    rw [hentries, length_append]
    exact h.complete.trans (Nat.le_add_right _ _)
  case fresh =>
    dsimp only
    rw [hvalues, take_append_of_le_length (by simpa [PyDict.values] using h.complete)]
    exact h.fresh

def Command.task? : Command → Option SamplingTask
  | .task t => some t
  | .snapshot => none

def Control.discarded? : Control → Option SamplingTask
  | .discarded t => some t
  | _ => none

def Control.isSnapshot : Control → Bool
  | .snapshot _ => true
  | _ => false

namespace World

def places (w : World) : Multiset SamplingTask :=
  (w.commands.filterMap Command.task? : Multiset SamplingTask) + (w.groups.map InFlight.task)
    + (w.results.map SampleGroup.task) + (w.controls.filterMap Control.discarded?)

def snapshots (w : World) : Nat :=
  w.commands.count .snapshot + w.controls.countP Control.isSnapshot
    + if w.snapshotMessage.isSome then 1 else 0

/-- The coordinator is between a vetted batch and its selection. -/
def selecting (w : World) : Prop := w.pc = .pumping (.fill true) ∨ w.pc = .reserving true

structure CheckpointOk (settings : Settings) (checkpoint : Checkpoint) : Prop where
  update_nonneg : 0 ≤ checkpoint.learnerUpdate
  nodup : ((checkpoint.buffer.ready.map fun group => group.task.identity)
    ++ checkpoint.updates.flatten).Nodup
  lt : ∀ identity ∈ (checkpoint.buffer.ready.map fun group => group.task.identity)
    ++ checkpoint.updates.flatten, identity < checkpoint.buffer.nextIdentity
  ready : ∀ group ∈ checkpoint.buffer.ready, GroupOk settings (checkpoint.learnerUpdate + 1) group

/-- What does not depend on where the coordinator stands. -/
structure Consistent (settings : Settings) (w : World) : Prop where
  version_eq : w.version = w.sourceUpdate + 1
  committed_eq : w.committed = w.version
  source_nonneg : 0 ≤ w.sourceUpdate
  source_le : w.sourceUpdate ≤ w.globalStep
  places_eq : w.places = w.buffer.reserved.values
  keyed : Keyed w.buffer w.updates
  tasks : ∀ task ∈ w.buffer.reserved.values, TaskOk w.committed task
  groups : ∀ group ∈ w.groups, InFlightOk settings w.committed group
  results : ∀ group ∈ w.results, GroupOk settings w.committed group
  ready : ∀ group ∈ w.buffer.ready.values, GroupOk settings w.committed group
  inflight : w.buffer.reserved.entries.length ≤ settings.maxInflightGroups
  no_error : .error ∉ w.controls
  checkpoints : ∀ checkpoint ∈ w.checkpoints, CheckpointOk settings checkpoint

/-- What holds where the coordinator stands. -/
structure Located (settings : Settings) (w : World) : Prop where
  snapshots_eq : w.snapshots = if w.pc = .pumping .snapshot then 1 else 0
  snapshot_drained : w.pc = .pumping .snapshot → w.buffer.reserved.entries = []
  unselected : w.pc ≠ .updating → w.buffer.selected = []
  selected : w.pc = .updating → w.buffer.selected = w.buffer.ready.keys.take settings.required
  batch : w.selecting ∨ w.pc = .updating → Batch settings w.buffer w.globalStep
  pump_ok : w.pc ≠ .pumpRaised
  ok : w.pc ≠ .raised

structure Inv (settings : Settings) (w : World) : Prop where
  consistent : Consistent settings w
  located : Located settings w

/-! ### The pump -/

theorem Consistent.get?_of_mem_places {w : World} (h : Consistent settings w) {task : SamplingTask}
    (hmem : task ∈ w.places) : w.buffer.reserved.get? task.identity = some task := by
  apply h.keyed.get?_of_mem
  rw [h.places_eq] at hmem
  exact hmem

theorem length_places {w : World} (h : Consistent settings w) :
    w.places.card = w.buffer.reserved.entries.length := by
  rw [h.places_eq, Multiset.coe_card, PyDict.values, length_map]

theorem Inv.receiveResult {w w' : World} (h : Inv settings w)
    (hstep : w.receiveResult settings = some w') : Inv settings w' := by
  obtain ⟨hc, hl⟩ := h
  unfold World.receiveResult at hstep
  split at hstep
  case h_2 => cases hstep
  case h_1 after group rest hpc hresults =>
    have hget : w.buffer.reserved.get? group.task.identity = some group.task := by
      apply hc.get?_of_mem_places
      simp [places, hresults]
    have hok := hc.results group (by simp [hresults])
    rw [accept_eq_ok hok.valid hget] at hstep
    cases hstep
    have hfresh := hc.keyed.notMem_ready (mem_reserved_keys hget)
    have hvalues := hc.places_eq
    rw [values_erase_eq hget] at hvalues
    refine ⟨{ hc with
      places_eq := ?_
      keyed := hc.keyed.accepted hget
      tasks := ?_
      results := ?_
      ready := ?_
      inflight := ?_ }, { hl with
      snapshot_drained := ?_
      selected := ?_
      batch := ?_ }⟩
    · apply (Multiset.cons_inj_right group.task).mp
      rw [← hvalues]
      simp only [places, hresults, map_cons, ← Multiset.cons_coe, Multiset.cons_add,
        Multiset.add_cons]
    · exact fun task htask => hc.tasks task (PyDict.mem_values_of_mem_erase _ htask)
    · exact fun other hother => hc.results other (hresults ▸ mem_cons_of_mem _ hother)
    · intro other hother
      dsimp only at hother
      rw [PyDict.values_set_of_notMem _ _ hfresh] at hother
      rcases mem_append.mp hother with hother | hother
      · exact hc.ready other hother
      · exact mem_singleton.mp hother ▸ hok
    · exact (length_filter_le ..).trans hc.inflight
    · intro hsnapshot
      simp [PyDict.erase, hl.snapshot_drained hsnapshot]
    · intro hupdating
      dsimp only at hupdating
      rw [hpc] at hupdating
      cases hupdating
    · intro hselecting
      exact (hl.batch hselecting).accepted hfresh

theorem Inv.receiveControl {w w' : World} (h : Inv settings w)
    (hstep : w.receiveControl = some w') : Inv settings w' := by
  obtain ⟨hc, hl⟩ := h
  unfold World.receiveControl at hstep
  split at hstep
  case h_2 => cases hstep
  case h_1 after message rest hpc hcontrols =>
    have hnoError : Control.error ∉ rest := by
      have := hc.no_error
      simp only [hcontrols, mem_cons, not_or] at this
      exact this.2
    have hsnapshots := hl.snapshots_eq
    cases message with
    | discarded task =>
      have hget : w.buffer.reserved.get? task.identity = some task := by
        apply hc.get?_of_mem_places
        simp [places, hcontrols, Control.discarded?]
      simp only [discard_eq_ok hget] at hstep
      cases hstep
      have hvalues := hc.places_eq
      rw [values_erase_eq hget] at hvalues
      refine ⟨{ hc with
        places_eq := ?_
        keyed := hc.keyed.discarded hget _
        tasks := ?_
        inflight := ?_
        no_error := hnoError }, { hl with
        snapshots_eq := ?_
        snapshot_drained := ?_
        batch := ?_ }⟩
      · apply (Multiset.cons_inj_right task).mp
        rw [← hvalues]
        simp only [places, hcontrols, filterMap_cons, Control.discarded?,
          ← Multiset.cons_coe, Multiset.add_cons]
      · exact fun other hother => hc.tasks other (PyDict.mem_values_of_mem_erase _ hother)
      · exact (length_filter_le ..).trans hc.inflight
      · simpa [snapshots, hcontrols, Control.isSnapshot] using hsnapshots
      · intro hsnapshot
        simp [PyDict.erase, hl.snapshot_drained hsnapshot]
      · intro hselecting
        have hbatch := hl.batch hselecting
        exact ⟨hbatch.complete, hbatch.fresh⟩
    | error => exact absurd (by simp [hcontrols]) hc.no_error
    | ready =>
      cases hstep
      refine ⟨{ hc with places_eq := ?_, no_error := hnoError }, { hl with snapshots_eq := ?_ }⟩
      · refine Eq.trans ?_ hc.places_eq
        simp only [places, hcontrols, filterMap_cons, Control.discarded?]
      · simpa [snapshots, hcontrols, Control.isSnapshot] using hsnapshots
    | snapshot cursor =>
      cases hstep
      refine ⟨{ hc with places_eq := ?_, no_error := hnoError }, { hl with snapshots_eq := ?_ }⟩
      · refine Eq.trans ?_ hc.places_eq
        simp only [places, hcontrols, filterMap_cons, Control.discarded?]
      · simp only [snapshots, hcontrols, countP_cons, Control.isSnapshot,
          Option.isSome_some, if_true] at hsnapshots ⊢
        split_ifs at hsnapshots ⊢ <;> omega

/-! ### After the pump -/

end World

def Pc.plain : Pc → Bool
  | .pumping .snapshot | .pumping (.fill true) | .reserving true | .updating
  | .pumpRaised | .raised => false
  | _ => true

namespace World

variable {w : World}

theorem located_of_plain (hplain : w.pc.plain = true) (hsnapshots : w.snapshots = 0)
    (hselected : w.buffer.selected = []) : Located settings w := by
  have hne : ∀ p : Pc, p.plain = false → w.pc ≠ p := by
    rintro p hp rfl
    exact absurd (hp.symm.trans hplain) Bool.false_ne_true
  constructor
  case snapshots_eq => rw [hsnapshots, if_neg (hne _ rfl)]
  case snapshot_drained => exact fun hpc => absurd hpc (hne _ rfl)
  case unselected => exact fun _ => hselected
  case selected => exact fun hpc => absurd hpc (hne _ rfl)
  case batch =>
    rintro ((hpc | hpc) | hpc)
    · exact absurd hpc (hne _ rfl)
    · exact absurd hpc (hne _ rfl)
    · exact absurd hpc (hne _ rfl)
  case pump_ok => exact hne _ rfl
  case ok => exact hne _ rfl

theorem Inv.of_plain (hc : Consistent settings w) (hplain : w.pc.plain = true)
    (hsnapshots : w.snapshots = 0) (hselected : w.buffer.selected = []) : Inv settings w :=
  ⟨hc, located_of_plain hplain hsnapshots hselected⟩

theorem Consistent.setPc (h : Consistent settings w) (pc : Pc) :
    Consistent settings { w with pc := pc } :=
  { h with }

theorem inv_loop (hc : Consistent settings w) (hsnapshots : w.snapshots = 0)
    (hselected : w.buffer.selected = []) : Inv settings (w.loop settings) := by
  unfold loop
  refine Inv.of_plain (hc.setPc _) ?_ hsnapshots hselected
  dsimp only
  split <;> rfl

theorem inv_evict (hc : Consistent settings w) (hselected : w.buffer.selected = [])
    {next : World → World}
    (hnext : ∀ buffer, Consistent settings { w with buffer := buffer } → buffer.selected = [] →
      (∀ group ∈ buffer.ready.values, Fresh settings w.globalStep group) →
      Inv settings (next { w with buffer := buffer })) :
    Inv settings (w.evict settings next) := by
  have hsources : ∀ group ∈ w.buffer.ready.values, ∀ source ∈ group.sourceUpdates,
      source ≤ w.globalStep := by
    intro group hgroup source hsource
    have hlt := (hc.ready group hgroup).sources_lt source hsource
    have := hc.committed_eq
    have := hc.version_eq
    have := hc.source_le
    omega
  obtain ⟨buffer, hevict, hready, hreserved, hnone, hidentity⟩ :=
    @evictStale_eq_ok settings w.buffer w.globalStep hselected fun group hgroup =>
      ⟨SampleGroup.sourceUpdates_ne_nil (hc.ready group hgroup).valid, hsources group hgroup⟩
  have hmem : ∀ group ∈ buffer.ready.values, group ∈ w.buffer.ready.values ∧
      stale settings w.globalStep group = false := by
    intro group hgroup
    obtain ⟨entry, hentry, rfl⟩ := mem_map.mp hgroup
    rw [hready] at hentry
    obtain ⟨hold, hkeep⟩ := mem_filter.mp hentry
    exact ⟨mem_map_of_mem hold, by simpa using hkeep⟩
  unfold evict
  simp only [hevict]
  apply hnext buffer _ hnone
  · intro group hgroup source hsource
    obtain ⟨hold, hstale⟩ := hmem group hgroup
    exact ⟨le_of_not_stale hstale source hsource, hsources group hold source hsource⟩
  · exact { hc with
      places_eq := by
        rw [hreserved]
        exact hc.places_eq
      keyed := hc.keyed.evicted hready hreserved hidentity
      tasks := hreserved ▸ hc.tasks
      ready := fun group hgroup => hc.ready group (hmem group hgroup).1
      inflight := hreserved ▸ hc.inflight }

theorem inv_collect (hc : Consistent settings w) (hsnapshots : w.snapshots = 0)
    (hselected : w.buffer.selected = [])
    (hfresh : ∀ group ∈ w.buffer.ready.values, Fresh settings w.globalStep group) :
    Inv settings (w.collect settings) := by
  unfold collect
  by_cases hcomplete : settings.required ≤ w.buffer.ready.entries.length
  · rw [decide_eq_true hcomplete]
    refine ⟨hc.setPc _, ?_⟩
    constructor
    case snapshots_eq => exact hsnapshots
    case snapshot_drained => exact fun hpc => by cases hpc
    case unselected => exact fun _ => hselected
    case selected => exact fun hpc => by cases hpc
    case batch =>
      exact fun _ => ⟨hcomplete, fun group hgroup => hfresh group (mem_of_mem_take hgroup)⟩
    case pump_ok => exact fun hpc => by cases hpc
    case ok => exact fun hpc => by cases hpc
  · rw [decide_eq_false hcomplete]
    exact Inv.of_plain (hc.setPc _) rfl hsnapshots hselected

theorem inv_checkpoint (hc : Consistent settings w) (hsnapshots : w.snapshots = 0)
    (hselected : w.buffer.selected = []) (hreserved : w.buffer.reserved.entries = []) :
    Inv settings (w.afterDrain .checkpoint) := by
  unfold afterDrain
  simp only [stateDict_eq_ok hreserved hselected]
  have hkeys : w.buffer.reserved.keys = [] := by simp [PyDict.keys, hreserved]
  have hready : (w.buffer.ready.values.map fun group => group.task.identity)
      = w.buffer.ready.keys := by
    unfold PyDict.values PyDict.keys
    rw [map_map]
    exact map_congr_left fun entry hentry => (hc.keyed.ready entry hentry).symm
  have hidentities : w.buffer.identities w.updates
      = ((w.buffer.ready.keys ++ w.updates.flatten : List Nat) : Multiset Nat) := by
    simp [identities, hkeys]
  refine ⟨{ hc with
    places_eq := ?_
    checkpoints := ?_ }, ?_⟩
  · refine Eq.trans ?_ hc.places_eq
    have hsnapshot : [Command.snapshot].filterMap Command.task? = [] := rfl
    simp only [places, filterMap_append, hsnapshot, append_nil]
  · intro checkpoint hmem
    rcases mem_append.mp hmem with hmem | hmem
    · exact hc.checkpoints checkpoint hmem
    · obtain rfl := mem_singleton.mp hmem
      constructor
      case update_nonneg => exact hc.source_nonneg.trans hc.source_le
      case nodup =>
        rw [hready, ← Multiset.coe_nodup, ← hidentities]
        exact hc.keyed.nodup
      case lt =>
        rw [hready]
        exact fun identity hidentity => hc.keyed.lt identity (hidentities ▸ hidentity)
      case ready =>
        intro group hgroup
        apply (hc.ready group hgroup).mono
        have := hc.committed_eq
        have := hc.version_eq
        have := hc.source_le
        dsimp only
        omega
  · constructor
    case snapshots_eq =>
      simp only [snapshots] at hsnapshots ⊢
      simp only [count_append, count_singleton_self, if_true]
      omega
    case snapshot_drained => exact fun _ => hreserved
    case unselected => exact fun _ => hselected
    case selected => exact fun hpc => by cases hpc
    case batch =>
      rintro ((hpc | hpc) | hpc)
      · cases hpc
      · cases hpc
      · cases hpc
    case pump_ok => exact fun hpc => by cases hpc
    case ok => exact fun hpc => by cases hpc

theorem Inv.pumpDone {w' : World} {due : Bool} (h : Inv settings w)
    (hstep : w.pumpDone settings due = some w') : Inv settings w' := by
  obtain ⟨hc, hl⟩ := h
  have hsnapshots := hl.snapshots_eq
  have hselected := hl.unselected
  unfold World.pumpDone at hstep
  split at hstep
  case h_1 hpc =>
    rw [hpc] at hsnapshots hselected
    split at hstep <;> cases hstep
    exact inv_loop { hc with } hsnapshots (hselected (by simp))
  case h_2 hpc =>
    rw [hpc] at hsnapshots hselected
    cases hstep
    apply inv_evict hc (hselected (by simp))
    intro buffer hbuffer hnone hfresh
    unfold afterCommand
    split
    · exact Inv.of_plain (hbuffer.setPc _) rfl hsnapshots hnone
    · exact inv_collect hbuffer hsnapshots hnone hfresh
  case h_3 final hpc =>
    rw [hpc] at hsnapshots hselected
    cases hstep
    cases final with
    | false => exact Inv.of_plain (hc.setPc _) rfl hsnapshots (hselected (by simp))
    | true =>
      refine ⟨hc.setPc _, ?_⟩
      constructor
      case snapshots_eq => exact hsnapshots
      case snapshot_drained => exact fun hpc => by cases hpc
      case unselected => exact fun _ => hselected (by simp)
      case selected => exact fun hpc => by cases hpc
      case batch => exact fun _ => hl.batch (Or.inl (Or.inl hpc))
      case pump_ok => exact fun hpc => by cases hpc
      case ok => exact fun hpc => by cases hpc
  case h_4 hpc =>
    rw [hpc] at hsnapshots hselected
    cases hstep
    apply inv_evict hc (hselected (by simp))
    intro buffer hbuffer hnone hfresh
    unfold afterProgress
    split
    · exact Inv.of_plain (hbuffer.setPc _) rfl hsnapshots hnone
    · exact inv_collect hbuffer hsnapshots hnone hfresh
  case h_5 hpc =>
    rw [hpc] at hsnapshots hselected
    cases hstep
    unfold afterUpdate
    split
    · split
      · exact Inv.of_plain (hc.setPc _) rfl hsnapshots (hselected (by simp))
      · exact Inv.of_plain (hc.setPc _) rfl hsnapshots (hselected (by simp))
    · exact inv_loop hc hsnapshots (hselected (by simp))
  case h_6 next hpc =>
    rw [hpc] at hsnapshots hselected
    split at hstep <;> cases hstep
    rename_i hreserved
    have hnone := hselected (by simp)
    cases next with
    | publish => exact Inv.of_plain (hc.setPc _) rfl hsnapshots hnone
    | checkpointPublish => exact Inv.of_plain (hc.setPc _) rfl hsnapshots hnone
    | checkpoint => exact inv_checkpoint hc hsnapshots hnone hreserved
    | finish => exact Inv.of_plain (hc.setPc _) rfl hsnapshots hnone
  case h_7 hpc =>
    rw [hpc] at hsnapshots hselected
    split at hstep <;> cases hstep
    rename_i hmessage
    refine inv_loop { hc with } ?_ (hselected (by simp))
    simp only [snapshots, hmessage, if_true] at hsnapshots ⊢
    simp only [Option.isSome_none, Bool.false_eq_true, if_false]
    omega
  case h_8 => cases hstep

end World

end HyperParallel.FullyAsync
