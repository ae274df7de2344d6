import HyperParallel.FullyAsync.Staleness

/-!
# Updates are fresh and disjoint

The remaining steps keep the invariant: reservation and selection, the update,
publication, and everything the rollouter does.  A restart begins from what a
checkpoint kept.
-/

namespace HyperParallel.FullyAsync

open Foundation ExperienceBuffer List

variable {settings : Settings}

namespace World

/-! ### The coordinator -/

variable {w w' : World}

theorem Inv.reserve (h : Inv settings w) (hstep : w.reserve settings = some w') :
    Inv settings w' := by
  obtain ⟨hc, hl⟩ := h
  unfold World.reserve at hstep
  split at hstep
  case h_2 => cases hstep
  case h_1 final hpc =>
    have hselected := hl.unselected (by simp [hpc])
    have hsnapshots := hl.snapshots_eq
    rw [hpc] at hsnapshots
    split at hstep
    case h_1 task buffer hreserve =>
      cases hstep
      obtain ⟨hkeyed, hvalues, hversion, hsource, hinflight, hready, hnone⟩ :=
        hc.keyed.reserve hreserve
      refine ⟨{ hc with
        places_eq := ?_
        keyed := hkeyed
        tasks := ?_
        ready := ?_
        inflight := hinflight }, ?_⟩
      · have htask : [Command.task task].filterMap Command.task? = [task] := rfl
        rw [hvalues, ← hc.places_eq]
        simp only [places, filterMap_append, htask, coe_snoc, Multiset.cons_add]
      · intro other hother
        rw [← Multiset.mem_coe, hvalues, Multiset.mem_cons] at hother
        rcases hother with rfl | hother
        · have hversion_eq := hc.version_eq
          have hcommitted := hc.committed_eq
          have hsource_nonneg := hc.source_nonneg
          constructor
          case source_nonneg => omega
          case version_eq => omega
          case version_le =>
            dsimp only
            omega
        · exact hc.tasks other hother
      · exact hready ▸ hc.ready
      · constructor
        case snapshots_eq =>
          dsimp only
          rw [hpc, ← hsnapshots]
          have hcount : [Command.task task].count .snapshot = 0 := rfl
          simp only [snapshots, count_append, hcount, Nat.add_zero]
        case snapshot_drained =>
          intro hsnapshot
          dsimp only at hsnapshot
          rw [hpc] at hsnapshot
          cases hsnapshot
        case unselected => exact fun _ => hnone.trans hselected
        case selected =>
          intro hupdating
          dsimp only at hupdating
          rw [hpc] at hupdating
          cases hupdating
        case batch =>
          intro hselecting
          have hbatch := hl.batch hselecting
          exact ⟨hready ▸ hbatch.complete, hready ▸ hbatch.fresh⟩
        case pump_ok => exact hl.pump_ok
        case ok => exact hl.ok
    case h_2 =>
      cases final with
      | false =>
        cases hstep
        exact Inv.of_plain (hc.setPc _) rfl hsnapshots hselected
      | true =>
        have hbatch := hl.batch (Or.inl (Or.inr hpc))
        simp only [if_true, select_eq_ok hselected hbatch.complete] at hstep
        cases hstep
        refine ⟨{ hc with keyed := ⟨hc.keyed.reserved, hc.keyed.ready, hc.keyed.nodup,
          hc.keyed.lt⟩ }, ?_⟩
        constructor
        case snapshots_eq => exact hsnapshots
        case snapshot_drained => exact fun hsnapshot => by cases hsnapshot
        case unselected => exact fun hne => absurd rfl hne
        case selected => exact fun _ => rfl
        case batch => exact fun _ => ⟨hbatch.complete, hbatch.fresh⟩
        case pump_ok => exact fun hraised => by cases hraised
        case ok => exact fun hraised => by cases hraised

theorem Inv.update (h : Inv settings w) (hstep : w.update = some w') : Inv settings w' := by
  obtain ⟨hc, hl⟩ := h
  unfold World.update at hstep
  split at hstep
  case h_2 => cases hstep
  case h_1 hpc =>
    have hselected := hl.selected hpc
    have hsnapshots := hl.snapshots_eq
    rw [hpc] at hsnapshots
    have hne : w.buffer.selected ≠ [] := by
      have hcomplete := (hl.batch (Or.inr hpc)).complete
      have hrequired := settings.required_pos
      have hlength : w.buffer.selected.length = settings.required := by
        rw [hselected, length_take, PyDict.keys, length_map]
        omega
      exact ne_nil_of_length_pos (by omega)
    simp only [commit, if_neg hne] at hstep
    cases hstep
    refine Inv.of_plain ?_ rfl hsnapshots rfl
    have hsource_le := hc.source_le
    exact { hc with
      source_le := by
        dsimp only
        omega
      places_eq := hc.places_eq
      keyed := hc.keyed.committed _ hselected
      ready := by
        intro group hgroup
        apply hc.ready group
        dsimp only [PyDict.values] at hgroup ⊢
        rw [PyDict.entries_foldl_erase] at hgroup
        exact (filter_sublist.map _).subset hgroup }

theorem Consistent.publish (h : Consistent settings w) (pc : Pc) :
    Consistent settings { w with
      sourceUpdate := w.globalStep
      version := w.globalStep + 1
      committed := w.globalStep + 1
      lastPublication := w.globalStep
      pc := pc } := by
  have hle : w.committed ≤ w.globalStep + 1 := by
    have := h.committed_eq
    have := h.version_eq
    have := h.source_le
    omega
  exact { h with
    version_eq := rfl
    committed_eq := rfl
    source_nonneg := Int.le_trans h.source_nonneg h.source_le
    source_le := Int.le_refl _
    tasks := fun task htask => (h.tasks task htask).mono hle
    groups := fun group hgroup => (h.groups group hgroup).mono hle
    results := fun group hgroup => (h.results group hgroup).mono hle
    ready := fun group hgroup => (h.ready group hgroup).mono hle }

theorem Inv.commitPolicy (h : Inv settings w) (hstep : w.commitPolicy settings = some w') :
    Inv settings w' := by
  obtain ⟨hc, hl⟩ := h
  unfold World.commitPolicy at hstep
  split at hstep
  case h_2 => cases hstep
  case h_1 resume hpc =>
    have hselected := hl.unselected (by simp [hpc])
    have hsnapshots := hl.snapshots_eq
    rw [hpc] at hsnapshots
    cases hstep
    cases resume with
    | true => exact inv_loop (hc.publish w.pc) hsnapshots hselected
    | false => exact Inv.of_plain (hc.publish _) rfl hsnapshots hselected

/-! ### The rollouter -/

theorem Located.frame (h : Located settings w) (hbuffer : w'.buffer = w.buffer) (hpc : w'.pc = w.pc)
    (hstep : w'.globalStep = w.globalStep) (hsnapshots : w'.snapshots = w.snapshots) :
    Located settings w' := by
  constructor
  case snapshots_eq => rw [hsnapshots, hpc, h.snapshots_eq]
  case snapshot_drained => rw [hpc, hbuffer]; exact h.snapshot_drained
  case unselected => rw [hpc, hbuffer]; exact h.unselected
  case selected => rw [hpc, hbuffer]; exact h.selected
  case batch =>
    rw [hbuffer, hstep]
    unfold selecting
    rw [hpc]
    exact h.batch
  case pump_ok => rw [hpc]; exact h.pump_ok
  case ok => rw [hpc]; exact h.ok

theorem Inv.take {w w' : World} (h : Inv settings w) (hstep : w.take settings = some w') :
    Inv settings w' := by
  obtain ⟨hc, hl⟩ := h
  have hcard := length_places hc
  unfold World.take at hstep
  split at hstep
  case h_1 task rest hcommands =>
    have hroom : ¬settings.maxInflightGroups ≤ w.groups.length := by
      have hinflight := hc.inflight
      simp only [places, hcommands, filterMap_cons, Command.task?, Multiset.card_add,
        Multiset.coe_card, length_cons, length_map] at hcard
      omega
    simp only [if_neg hroom] at hstep
    cases hstep
    refine ⟨{ hc with places_eq := ?_, groups := ?_ }, ?_⟩
    · refine Eq.trans ?_ hc.places_eq
      simp only [places, hcommands, map_append, map_cons, map_nil, coe_snoc, filterMap_cons,
        Command.task?, ← Multiset.cons_coe, Multiset.cons_add, Multiset.add_cons]
    · intro group hgroup
      rcases mem_append.mp hgroup with hgroup | hgroup
      · exact hc.groups group hgroup
      · obtain rfl := mem_singleton.mp hgroup
        refine ⟨length_replicate, fun c hmem => ?_⟩
        obtain rfl := eq_of_mem_replicate hmem
        exact CandidateOk.initial task w.committed 0
    · refine hl.frame rfl rfl rfl ?_
      simp only [snapshots, hcommands, count_cons]
      rfl
  case h_2 rest hcommands =>
    have hcount : 1 ≤ w.snapshots := by
      simp only [snapshots, hcommands, count_cons_self]
      omega
    have hpc : w.pc = .pumping .snapshot := by
      by_contra hne
      rw [hl.snapshots_eq, if_neg hne] at hcount
      cases hcount
    have hgroups : w.groups = [] := by
      rw [hl.snapshot_drained hpc] at hcard
      simp only [places, Multiset.card_add, Multiset.coe_card, length_map, length_nil] at hcard
      exact eq_nil_of_length_eq_zero (by omega)
    simp only [hgroups, ne_eq, not_true_eq_false, if_false] at hstep
    cases hstep
    refine ⟨{ hc with places_eq := ?_, groups := ?_, no_error := ?_ }, ?_⟩
    · refine Eq.trans ?_ hc.places_eq
      have hnone : [Control.snapshot w.cursor].filterMap Control.discarded? = [] := rfl
      simp only [places, hcommands, hgroups, filterMap_append, hnone, append_nil,
        filterMap_cons, Command.task?]
    · simp
    · simp [hc.no_error]
    · refine hl.frame rfl rfl rfl ?_
      have hone : [Control.snapshot w.cursor].countP Control.isSnapshot = 1 := rfl
      simp only [snapshots, hcommands, count_cons_self, countP_append, hone]
      omega
  case h_3 => cases hstep

theorem Inv.modifyCandidate {group candidate : Nat} {next : Candidate → Option Candidate}
    (h : Inv settings w)
    (hnext : ∀ task c c', TaskOk w.committed task → CandidateOk task w.committed c →
      next c = some c' → CandidateOk task w.committed c')
    (hstep : w.modifyCandidate group candidate next = some w') : Inv settings w' := by
  obtain ⟨hc, hl⟩ := h
  unfold World.modifyCandidate at hstep
  obtain ⟨inFlight, hgroup, hstep⟩ := Option.bind_eq_some_iff.mp hstep
  obtain ⟨old, hold, hstep⟩ := Option.bind_eq_some_iff.mp hstep
  dsimp only at hstep
  split at hstep
  case isFalse => cases hstep
  case isTrue =>
  obtain ⟨new, hnew, hstep⟩ := Option.bind_eq_some_iff.mp hstep
  cases hstep
  have hmem := mem_of_getElem? hgroup
  have hok := hc.groups inFlight hmem
  have htask : TaskOk w.committed inFlight.task := by
    apply hc.tasks
    rw [← Multiset.mem_coe, ← hc.places_eq]
    simp only [places, Multiset.mem_add, Multiset.mem_coe]
    exact Or.inl (Or.inl (Or.inr (mem_map_of_mem hmem)))
  have hsame : (w.groups.set group { inFlight with
      candidates := inFlight.candidates.set candidate new }).map InFlight.task
      = w.groups.map InFlight.task := by
    have htasks : (w.groups.map InFlight.task)[group]? = some inFlight.task := by
      rw [getElem?_map, hgroup]
      rfl
    obtain ⟨hlt, hget⟩ := List.getElem?_eq_some_iff.mp htasks
    rw [map_set, ← hget]
    exact set_getElem_self hlt
  refine ⟨{ hc with places_eq := ?_, groups := ?_ }, hl.frame rfl rfl rfl rfl⟩
  · refine Eq.trans ?_ hc.places_eq
    simp only [places, hsame]
  · intro other hother
    rcases mem_or_eq_of_mem_set hother with hother | rfl
    · exact hc.groups other hother
    · refine ⟨(length_set ..).trans hok.count, fun c hmem => ?_⟩
      rcases mem_or_eq_of_mem_set hmem with hmem | rfl
      · exact hok.candidates c hmem
      · exact hnext _ old _ htask (hok.candidates old (mem_of_getElem? hold)) hnew

theorem Inv.finishGroup {group : Nat} (h : Inv settings w)
    (hstep : w.finishGroup settings group = some w') : Inv settings w' := by
  obtain ⟨hc, hl⟩ := h
  have hcard := length_places hc
  unfold World.finishGroup at hstep
  obtain ⟨inFlight, hgroup, hstep⟩ := Option.bind_eq_some_iff.mp hstep
  have hmem := mem_of_getElem? hgroup
  have hok := hc.groups inFlight hmem
  have htask : TaskOk w.committed inFlight.task := by
    apply hc.tasks
    rw [← Multiset.mem_coe, ← hc.places_eq]
    simp only [places, Multiset.mem_add, Multiset.mem_coe]
    exact Or.inl (Or.inl (Or.inr (mem_map_of_mem hmem)))
  have hleft : (w.groups.map InFlight.task : Multiset SamplingTask)
      = inFlight.task ::ₘ ((w.groups.eraseIdx group).map InFlight.task) := by
    obtain ⟨hlt, rfl⟩ := List.getElem?_eq_some_iff.mp hgroup
    rw [Multiset.cons_coe, Multiset.coe_eq_coe, ← map_cons]
    exact (getElem_cons_eraseIdx_perm hlt).symm.map _
  have hrest : ∀ other ∈ w.groups.eraseIdx group, InFlightOk settings w.committed other :=
    fun other hother => hc.groups other (mem_of_mem_eraseIdx hother)
  split at hstep
  case isTrue => cases hstep
  case isFalse hrunning =>
  simp only [any_eq_true, decide_eq_true_eq, not_exists, not_and] at hrunning
  split at hstep
  case isTrue =>
    cases hstep
    have hnotice : [Control.discarded inFlight.task].filterMap Control.discarded?
        = [inFlight.task] := rfl
    refine ⟨{ hc with places_eq := ?_, groups := hrest, no_error := ?_ }, ?_⟩
    · refine Eq.trans ?_ hc.places_eq
      simp only [places, hleft, filterMap_append, hnotice, coe_snoc, Multiset.cons_add,
        Multiset.add_cons]
    · simp [hc.no_error]
    · refine hl.frame rfl rfl rfl ?_
      have hcount : [Control.discarded inFlight.task].countP Control.isSnapshot = 0 := rfl
      simp only [snapshots, countP_append, hcount, Nat.add_zero]
  case isFalse hfailed =>
    simp only [any_eq_true, decide_eq_true_eq, not_exists, not_and] at hfailed
    have hfinished : ∀ c ∈ inFlight.candidates, c.outcome = .finished := by
      intro c hmem
      cases houtcome : c.outcome with
      | running => exact absurd houtcome (hrunning c hmem)
      | finished => rfl
      | failed => exact absurd houtcome (hfailed c hmem)
    have hresult := hok.result htask hfinished
    have hroom : ¬settings.maxBufferGroups ≤ w.results.length := by
      have hpositive : 0 < w.groups.length := length_pos_of_mem hmem
      have hinflight := hc.inflight
      have hbuffer := settings.inflight_le
      simp only [places, Multiset.card_add, Multiset.coe_card, length_map] at hcard
      omega
    rw [if_neg (by simp [hresult.valid, hroom])] at hstep
    cases hstep
    refine ⟨{ hc with places_eq := ?_, groups := hrest, results := ?_ }, hl.frame rfl rfl rfl rfl⟩
    · refine Eq.trans ?_ hc.places_eq
      have hname : inFlight.result.task = inFlight.task := rfl
      simp only [places, hleft, map_append, map_cons, map_nil, hname, coe_snoc,
        Multiset.cons_add, Multiset.add_cons]
    · intro other hother
      rcases mem_append.mp hother with hother | hother
      · exact hc.results other hother
      · exact mem_singleton.mp hother ▸ hresult

theorem Inv.step {action : Action} (h : Inv settings w) (hstep : w.step settings action = some w') :
    Inv settings w' := by
  cases action with
  | receiveResult => exact h.receiveResult hstep
  | receiveControl => exact h.receiveControl hstep
  | pumpDone due => exact h.pumpDone hstep
  | reserve => exact h.reserve hstep
  | update => exact h.update hstep
  | commitPolicy => exact h.commitPolicy hstep
  | take => exact h.take hstep
  | startSegment group candidate =>
    exact h.modifyCandidate (fun task c c' htask hc => hc.start htask.version_le) hstep
  | finishSegment group candidate tokens newCall =>
    exact h.modifyCandidate (fun task c c' _ hc => hc.finishSegment) hstep
  | finishCandidate group candidate =>
    exact h.modifyCandidate (fun task c c' _ hc => hc.finishCandidate) hstep
  | failCandidate group candidate =>
    exact h.modifyCandidate (fun task c c' _ hc => hc.failCandidate) hstep
  | finishGroup group => exact h.finishGroup hstep

/-! ### Starting and restarting -/

theorem inv_start {buffer : ExperienceBuffer} {globalStep : Int} {updates : List (List Nat)}
    (hnonneg : 0 ≤ globalStep) (hreserved : buffer.reserved = .empty)
    (hselected : buffer.selected = []) (hkeyed : Keyed buffer updates)
    (hready : ∀ group ∈ buffer.ready.values, GroupOk settings (globalStep + 1) group) :
    Inv settings (start buffer globalStep updates) := by
  refine Inv.of_plain ?_ rfl rfl hselected
  constructor
  case version_eq => rfl
  case committed_eq => rfl
  case source_nonneg => exact hnonneg
  case source_le => exact Int.le_refl _
  case places_eq =>
    dsimp only [start]
    rw [hreserved]
    rfl
  case keyed => exact hkeyed
  case tasks =>
    intro task htask
    dsimp only [start] at htask
    rw [hreserved] at htask
    cases htask
  case groups => exact fun group hgroup => by cases hgroup
  case results => exact fun group hgroup => by cases hgroup
  case ready => exact hready
  case inflight =>
    dsimp only [start]
    rw [hreserved]
    exact Nat.zero_le _
  case no_error => simp [start]
  case checkpoints => exact fun checkpoint hmem => by cases hmem

theorem entries_foldl_set {groups : List SampleGroup} {d : PyDict Nat SampleGroup}
    (hnodup : (d.keys ++ groups.map fun group => group.task.identity).Nodup) :
    (groups.foldl (fun ready group => ready.set group.task.identity group) d).entries
      = d.entries ++ groups.map fun group => (group.task.identity, group) := by
  induction groups generalizing d with
  | nil => simp
  | cons group rest ih =>
    have hfresh : group.task.identity ∉ d.keys := by
      intro hmem
      exact (nodup_append.mp hnodup).2.2 _ hmem _ (by simp) rfl
    have hkeys : (d.set group.task.identity group).keys = d.keys ++ [group.task.identity] := by
      rw [PyDict.keys_set, if_neg hfresh]
    rw [foldl_cons, ih, PyDict.entries_set_of_notMem _ _ hfresh]
    · simp
    · rw [hkeys]
      simpa using hnodup

theorem Inv.restart (h : Inv settings w) {checkpoint : Checkpoint} {buffer : ExperienceBuffer}
    (hmem : checkpoint ∈ w.checkpoints)
    (hload : loadStateDict settings checkpoint.buffer = some buffer) :
    Inv settings (start buffer checkpoint.learnerUpdate checkpoint.updates) := by
  have hcheckpoint := h.consistent.checkpoints checkpoint hmem
  unfold loadStateDict at hload
  split at hload
  case isFalse => cases hload
  case isTrue hvalid =>
    have hentries := @entries_foldl_set checkpoint.buffer.ready PyDict.empty
      (by simpa using hvalid.2.1)
    have hempty : (PyDict.empty : PyDict Nat SampleGroup).entries = [] := rfl
    rw [hempty, nil_append] at hentries
    have hnone : (PyDict.empty : PyDict Nat SamplingTask).entries = [] := rfl
    cases hload
    apply inv_start hcheckpoint.update_nonneg rfl rfl
    · constructor
      case reserved => exact fun entry hentry => by cases hentry
      case ready =>
        intro entry hentry
        dsimp only at hentry
        rw [hentries] at hentry
        obtain ⟨group, -, rfl⟩ := mem_map.mp hentry
        rfl
      case nodup =>
        simpa [identities, PyDict.keys, hentries, hnone, Function.comp_def] using hcheckpoint.nodup
      case lt =>
        simpa [identities, PyDict.keys, hentries, hnone, Function.comp_def] using hcheckpoint.lt
    · intro group hgroup
      apply hcheckpoint.ready group
      simpa [PyDict.values, hentries, Function.comp_def] using hgroup

theorem Reachable.inv (h : Reachable settings w) : Inv settings w := by
  induction h with
  | fresh =>
    apply inv_start (Int.le_refl 0) rfl rfl
    · constructor
      case reserved => exact fun entry hentry => by cases hentry
      case ready => exact fun entry hentry => by cases hentry
      case nodup => exact Multiset.nodup_zero
      case lt => exact fun identity hmem => absurd hmem (Multiset.notMem_zero identity)
    · exact fun group hgroup => by cases hgroup
  | step _ hstep ih => exact ih.step hstep
  | restart _ hmem hload ih => exact ih.restart hmem hload

theorem Reachable.run {w w' : World} {actions : List Action} (h : Reachable settings w)
    (hrun : StepRuns.run (World.step settings) w actions = some w') : Reachable settings w' :=
  StepRuns.invariant (fun _ _ _ hw hstep => .step hw hstep) h hrun

/-- Whatever the order of the messages, a selected group is within the policy lag, no
identity takes part in two updates, and nothing the rollouter sends makes the pump raise. -/
theorem updates_fresh_and_disjoint {w : World} (h : Reachable settings w) :
    (w.pc = .updating → w.buffer.selected.length = settings.required ∧
      ∀ identity ∈ w.buffer.selected, ∃ group, w.buffer.ready.get? identity = some group ∧
        group.task.identity = identity ∧ ∀ source ∈ group.sourceUpdates,
          w.globalStep - settings.maxPolicyLagUpdates ≤ source ∧ source ≤ w.globalStep) ∧
      (w.updates.flatten ++ w.buffer.selected).Nodup ∧ w.pc ≠ .pumpRaised := by
  obtain ⟨hc, hl⟩ := h.inv
  refine ⟨fun hpc => ?_, ?_, hl.pump_ok⟩
  · have hbatch := hl.batch (Or.inr hpc)
    rw [hl.selected hpc]
    constructor
    · rw [length_take, PyDict.keys, length_map]
      have := hbatch.complete
      omega
    · intro identity hidentity
      rw [PyDict.keys, ← map_take] at hidentity
      obtain ⟨entry, hentry, rfl⟩ := mem_map.mp hidentity
      have hmem := mem_of_mem_take hentry
      refine ⟨entry.2, w.buffer.ready.mem_entries_iff.mp hmem, (hc.keyed.ready entry hmem).symm, ?_⟩
      apply hbatch.fresh
      rw [PyDict.values, ← map_take]
      exact mem_map_of_mem hentry
  · have hselected : w.buffer.selected.Sublist w.buffer.ready.keys := by
      by_cases hpc : w.pc = .updating
      · exact hl.selected hpc ▸ take_sublist ..
      · rw [hl.unselected hpc]
        exact nil_sublist _
    have hnodup : (w.buffer.ready.keys ++ w.updates.flatten).Nodup := by
      have hidentities := hc.keyed.nodup
      rw [identities, add_assoc] at hidentities
      rw [← Multiset.coe_nodup, ← Multiset.coe_add]
      exact (Multiset.nodup_add.mp hidentities).2.1
    exact (nodup_append_comm.mp hnodup).sublist (hselected.append_left _)

/-- One group in flight, none stale, one group a batch. -/
def single : Settings where
  maxInflightGroups := 1
  maxBufferGroups := 1
  maxPolicyLagUpdates := 0
  publishEveryUpdates := 1
  required := 1
  candidates := 1
  maxCandidateRetries := 0
  maxSteps := 1
  inflight_le := Nat.one_pos
  required_pos := Nat.one_pos
  candidates_pos := Nat.one_pos

def firstBatch : List Action :=
  [.receiveControl, .pumpDone false, .pumpDone false, .pumpDone false, .reserve, .take,
    .startSegment 0 0, .finishSegment 0 0 3 true, .finishCandidate 0 0, .finishGroup 0,
    .reserve, .receiveResult, .pumpDone false, .pumpDone false, .reserve]

theorem updates_fresh_and_disjoint_first : ∃ w,
    StepRuns.run (World.step single) (start {} 0 []) firstBatch = some w ∧
      w.pc = .updating ∧ w.buffer.selected = [0] ∧
      ∃ group, w.buffer.ready.get? 0 = some group ∧ group.sourceUpdates = [0] ∧
        ∀ source ∈ group.sourceUpdates, (0 : Int) - 0 ≤ source ∧ source ≤ 0 := by
  have hsome : (StepRuns.run (World.step single) (start {} 0 []) firstBatch).isSome = true := by
    decide +kernel
  have hfinal : (StepRuns.run (World.step single) (start {} 0 []) firstBatch).map
      (fun w => (w.pc, w.buffer.selected, w.globalStep,
        (w.buffer.ready.get? 0).map SampleGroup.sourceUpdates))
      = some (.updating, [0], 0, some [0]) := by
    decide +kernel
  obtain ⟨w, hw⟩ := Option.isSome_iff_exists.mp hsome
  rw [hw, Option.map_some, Option.some.injEq, Prod.mk.injEq, Prod.mk.injEq, Prod.mk.injEq] at hfinal
  obtain ⟨hpc, hselected, hstep, hsources⟩ := hfinal
  have hupdating := (updates_fresh_and_disjoint (Reachable.run .fresh hw)).1 hpc
  obtain ⟨group, hget, -, hfresh⟩ := hupdating.2 0 (by simp [hselected])
  rw [hget, Option.map_some, Option.some.injEq] at hsources
  rw [hstep] at hfresh
  exact ⟨w, hw, hpc, hselected, group, hget, hsources, hfresh⟩

end World

end HyperParallel.FullyAsync
