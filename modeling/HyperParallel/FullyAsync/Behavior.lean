import HyperParallel.FullyAsync.Coordinator

/-!
# Candidates keep their versions in order

Versions are committed in order, so the segments of a candidate cover its actions
without gaps under growing versions, and the finished group validates.
-/

namespace HyperParallel.FullyAsync

open Foundation List

namespace Candidate

def versions (c : Candidate) : List Int := c.calls.flatten.map Prod.fst ++ c.pending.toList

end Candidate

structure CandidateOk (task : SamplingTask) (committed : Int) (c : Candidate) : Prop where
  calls : ∀ call ∈ c.calls, call ≠ [] ∧ ∀ segment ∈ call, 0 < segment.2
  ordered : (task.policyVersion :: c.versions).Pairwise (· ≤ ·)
  bounded : ∀ version ∈ c.versions, version ≤ committed
  finished : c.outcome = .finished → c.calls ≠ []

namespace CandidateOk

variable {task : SamplingTask} {committed : Int} {c c' : Candidate}

theorem initial (task : SamplingTask) (committed : Int) (attempt : Nat) :
    CandidateOk task committed { attempt := attempt } where
  calls := by simp
  ordered := by simp [Candidate.versions]
  bounded := by simp [Candidate.versions]
  finished := by simp

theorem mono {committed' : Int} (h : CandidateOk task committed c) (hle : committed ≤ committed') :
    CandidateOk task committed' c :=
  { h with bounded := fun version hversion => Int.le_trans (h.bounded version hversion) hle }

theorem start (h : CandidateOk task committed c) (htask : task.policyVersion ≤ committed)
    (hstep : World.startSegment committed c = some c') : CandidateOk task committed c' := by
  unfold World.startSegment at hstep
  split at hstep
  · rename_i hpending
    cases hstep
    have hversions : Candidate.versions { c with pending := some committed }
        = c.versions ++ [committed] := by
      simp [Candidate.versions, hpending]
    refine { h with ordered := ?_, bounded := ?_ }
    · rw [hversions, ← cons_append, pairwise_append]
      refine ⟨h.ordered, pairwise_singleton .., fun version hversion last hlast => ?_⟩
      obtain rfl := mem_singleton.mp hlast
      rcases mem_cons.mp hversion with rfl | hversion
      · exact htask
      · exact h.bounded version hversion
    · rw [hversions]
      intro version hversion
      rcases mem_append.mp hversion with hversion | hversion
      · exact h.bounded version hversion
      · exact Int.le_of_eq (mem_singleton.mp hversion)
  · cases hstep

theorem flatten_extendLast (segment : Int × Nat) (calls : List (List (Int × Nat))) :
    (World.extendLast segment calls).flatten = calls.flatten ++ [segment] := by
  induction calls with
  | nil => rfl
  | cons call rest ih =>
    cases rest with
    | nil => simp [World.extendLast]
    | cons next rest => simp [World.extendLast, ih]

theorem mem_extendLast {segment : Int × Nat} {calls : List (List (Int × Nat))}
    {call : List (Int × Nat)} (h : call ∈ World.extendLast segment calls) :
    call ∈ calls ∨ call = [segment] ∨ ∃ old ∈ calls, call = old ++ [segment] := by
  induction calls with
  | nil => exact Or.inr (Or.inl (mem_singleton.mp h))
  | cons first rest ih =>
    cases rest with
    | nil =>
      obtain rfl := mem_singleton.mp h
      exact Or.inr (Or.inr ⟨first, mem_cons_self, rfl⟩)
    | cons next rest =>
      rcases mem_cons.mp h with rfl | h
      · exact Or.inl mem_cons_self
      · rcases ih h with hmem | heq | ⟨old, hold, heq⟩
        · exact Or.inl (mem_cons_of_mem _ hmem)
        · exact Or.inr (Or.inl heq)
        · exact Or.inr (Or.inr ⟨old, mem_cons_of_mem _ hold, heq⟩)

theorem finishSegment {tokens : Nat} {newCall : Bool} (h : CandidateOk task committed c)
    (hstep : World.finishSegment tokens newCall c = some c') : CandidateOk task committed c' := by
  unfold World.finishSegment at hstep
  split at hstep
  · rename_i version hpending
    cases hstep
    have hsub : ∀ calls, calls.flatten = c.calls.flatten ∨
        calls.flatten = c.calls.flatten ++ [(version, tokens)] →
        (Candidate.versions { c with pending := none, calls := calls }).Sublist c.versions := by
      intro calls hcalls
      simp only [Candidate.versions, hpending, Option.toList_none, append_nil, Option.toList_some]
      rcases hcalls with heq | heq <;> rw [heq]
      · exact sublist_append_left ..
      · simp
    have hvalid : ∀ calls, (calls.flatten = c.calls.flatten ∨
        calls.flatten = c.calls.flatten ++ [(version, tokens)]) →
        (∀ call ∈ calls, call ≠ [] ∧ ∀ segment ∈ call, 0 < segment.2) →
        (c.calls ≠ [] → calls ≠ []) →
        CandidateOk task committed { c with pending := none, calls := calls } := by
      intro calls hflatten hcalls hne
      have hsub := hsub calls hflatten
      exact {
        calls := hcalls
        ordered := h.ordered.sublist (hsub.cons_cons _)
        bounded := fun v hv => h.bounded v (hsub.subset hv)
        finished := fun hfinished => hne (h.finished hfinished) }
    split_ifs with hzero hnew
    · exact hvalid _ (Or.inl rfl) h.calls id
    · refine hvalid _ (Or.inr (by simp)) (fun call hcall => ?_) (by simp)
      rcases mem_append.mp hcall with hcall | hcall
      · exact h.calls call hcall
      · obtain rfl := mem_singleton.mp hcall
        simpa using Nat.pos_of_ne_zero hzero
    · refine hvalid _ (Or.inr (flatten_extendLast ..)) (fun call hcall => ?_) (fun _ hempty => ?_)
      · have hpos : ∀ segment ∈ [(version, tokens)], 0 < segment.2 := by
          simpa using Nat.pos_of_ne_zero hzero
        rcases mem_extendLast hcall with hmem | rfl | ⟨old, hold, rfl⟩
        · exact h.calls call hmem
        · exact ⟨by simp, hpos⟩
        · refine ⟨by simp, fun segment hsegment => ?_⟩
          rcases mem_append.mp hsegment with hsegment | hsegment
          · exact (h.calls old hold).2 segment hsegment
          · exact hpos segment hsegment
      · have := flatten_extendLast (version, tokens) c.calls
        rw [hempty] at this
        simp at this
  · cases hstep

theorem finishCandidate (h : CandidateOk task committed c)
    (hstep : World.finishCandidate c = some c') : CandidateOk task committed c' := by
  unfold World.finishCandidate at hstep
  split at hstep
  · rename_i hdone
    cases hstep
    exact { h with finished := fun _ => hdone.2 }
  · cases hstep

theorem failCandidate {settings : Settings} (h : CandidateOk task committed c)
    (hstep : World.failCandidate settings c = some c') : CandidateOk task committed c' := by
  unfold World.failCandidate at hstep
  cases hstep
  split
  · exact { h with finished := fun hfinished => by cases hfinished }
  · exact initial task committed _

end CandidateOk

/-! ### What a finished group carries -/

variable {call : List (Int × Nat)}

theorem followSegments_segmentsFrom {start previous : Int} (hstart : 0 ≤ start)
    (hprevious : 1 ≤ previous) (hpos : ∀ segment ∈ call, 0 < segment.2)
    (hordered : (previous :: call.map Prod.fst).Pairwise (· ≤ ·)) :
    followSegments (start, previous) (segmentsFrom start call)
      = some (start + (call.map fun segment => (segment.2 : Int)).sum,
        (call.map Prod.fst).getLastD previous) := by
  induction call generalizing start previous with
  | nil => simp [segmentsFrom, followSegments]
  | cons segment rest ih =>
    obtain ⟨version, tokens⟩ := segment
    have htokens : 0 < tokens := hpos (version, tokens) mem_cons_self
    obtain ⟨hfirst, hrest⟩ := pairwise_cons.mp hordered
    have hversion : previous ≤ version := hfirst version (by simp)
    have hguard : 0 ≤ start ∧ 0 ≤ version ∧ 0 ≤ version - 1 ∧ start = start ∧
        start < start + tokens ∧ previous ≤ version ∧ version = version - 1 + 1 := by
      omega
    have hfollow := @ih (start + tokens) version (by omega) (by omega)
      (fun other hother => hpos other (mem_cons_of_mem _ hother)) hrest
    rw [segmentsFrom, followSegments, if_pos hguard, hfollow, map_cons, map_cons,
      getLastD_cons, sum_cons, Int.add_assoc]

theorem sourceUpdate_segmentsFrom {start source : Int}
    (h : source ∈ (segmentsFrom start call).map Segment.sourceUpdate) :
    ∃ segment ∈ call, source = segment.1 - 1 := by
  induction call generalizing start with
  | nil => cases h
  | cons segment rest ih =>
    rcases mem_cons.mp h with rfl | h
    · exact ⟨segment, mem_cons_self, rfl⟩
    · obtain ⟨other, hother, heq⟩ := ih h
      exact ⟨other, mem_cons_of_mem _ hother, heq⟩

theorem buildRow_policyVersion_mem (hne : call ≠ []) :
    (buildRow call).policyVersion ∈ call.map Prod.fst := by
  rw [buildRow, getLastD_eq_getLast?, getLast?_eq_getLast_of_ne_nil (by simpa using hne)]
  exact getLast_mem _

theorem validateBehavior_buildRow {task : SamplingTask} (htask : 1 ≤ task.policyVersion)
    (hne : call ≠ []) (hpos : ∀ segment ∈ call, 0 < segment.2)
    (hordered : (task.policyVersion :: call.map Prod.fst).Pairwise (· ≤ ·)) :
    validateBehavior (buildRow call) task = true := by
  have hfollow := followSegments_segmentsFrom (Int.le_refl 0) htask hpos hordered
  have hlast : (call.map Prod.fst).getLastD task.policyVersion = (call.map Prod.fst).getLastD 0 := by
    simp [getLastD_eq_getLast?, getLast?_eq_getLast_of_ne_nil, hne]
  have hnonempty : segmentsFrom 0 call ≠ [] := by
    cases call with
    | nil => exact absurd rfl hne
    | cons segment rest => exact cons_ne_nil _ _
  simp only [validateBehavior, behaviorSegments, buildRow, Option.getD_some]
  rw [hfollow, hlast]
  simp [hnonempty]

theorem pairwise_rows {calls : List (List (Int × Nat))} (hne : ∀ call ∈ calls, call ≠ [])
    (hordered : (calls.flatten.map Prod.fst).Pairwise (· ≤ ·)) :
    ((calls.map buildRow).map Row.policyVersion).Pairwise (· ≤ ·) := by
  induction calls with
  | nil => exact List.Pairwise.nil
  | cons call rest ih =>
    rw [flatten_cons, map_append, pairwise_append] at hordered
    obtain ⟨-, hrest, hcross⟩ := hordered
    rw [map_cons, map_cons, pairwise_cons]
    refine ⟨fun version hversion => ?_,
      ih (fun other hother => hne other (mem_cons_of_mem _ hother)) hrest⟩
    rw [map_map] at hversion
    obtain ⟨other, hother, rfl⟩ := mem_map.mp hversion
    have hother' := buildRow_policyVersion_mem (hne other (mem_cons_of_mem _ hother))
    obtain ⟨segment, hsegment, heq⟩ := mem_map.mp hother'
    apply hcross _ (buildRow_policyVersion_mem (hne call mem_cons_self))
    exact mem_map.mpr ⟨segment, mem_flatten.mpr ⟨other, hother, hsegment⟩, heq⟩

structure TaskOk (committed : Int) (task : SamplingTask) : Prop where
  source_nonneg : 0 ≤ task.sourceUpdate
  version_eq : task.policyVersion = task.sourceUpdate + 1
  version_le : task.policyVersion ≤ committed

theorem TaskOk.mono {committed committed' : Int} {task : SamplingTask} (h : TaskOk committed task)
    (hle : committed ≤ committed') : TaskOk committed' task :=
  { h with version_le := Int.le_trans h.version_le hle }

structure GroupOk (settings : Settings) (committed : Int) (group : SampleGroup) : Prop where
  valid : group.validate settings.candidates = true
  sources_lt : ∀ source ∈ group.sourceUpdates, source < committed

theorem GroupOk.mono {settings : Settings} {committed committed' : Int} {group : SampleGroup}
    (h : GroupOk settings committed group) (hle : committed ≤ committed') :
    GroupOk settings committed' group :=
  { h with sources_lt := fun source hsource => Int.lt_of_lt_of_le (h.sources_lt source hsource) hle }

structure InFlightOk (settings : Settings) (committed : Int) (group : InFlight) : Prop where
  count : group.candidates.length = settings.candidates
  candidates : ∀ c ∈ group.candidates, CandidateOk group.task committed c

theorem InFlightOk.mono {settings : Settings} {committed committed' : Int} {group : InFlight}
    (h : InFlightOk settings committed group) (hle : committed ≤ committed') :
    InFlightOk settings committed' group :=
  { h with candidates := fun c hc => (h.candidates c hc).mono hle }

theorem InFlightOk.result {settings : Settings} {committed : Int} {group : InFlight}
    (h : InFlightOk settings committed group) (htask : TaskOk committed group.task)
    (hfinished : ∀ c ∈ group.candidates, c.outcome = .finished) :
    GroupOk settings committed group.result := by
  have hversion : 1 ≤ group.task.policyVersion := by
    have := htask.source_nonneg
    have := htask.version_eq
    omega
  have hrows : ∀ row ∈ group.result.rows, ∃ c ∈ group.candidates, ∃ call ∈ c.calls,
      row = buildRow call := by
    intro row hrow
    obtain ⟨episode, hepisode, hrow⟩ := mem_flatten.mp hrow
    obtain ⟨c, hc, rfl⟩ := mem_map.mp hepisode
    obtain ⟨call, hcall, rfl⟩ := mem_map.mp hrow
    exact ⟨c, hc, call, hcall, rfl⟩
  have hcall : ∀ c ∈ group.candidates, ∀ call ∈ c.calls,
      (call.map Prod.fst).Sublist c.versions := by
    intro c hc call hcall
    apply List.Sublist.trans _ (sublist_append_left ..)
    exact (sublist_flatten_of_mem hcall).map _
  constructor
  case valid =>
    simp only [SampleGroup.validate, Bool.and_eq_true, decide_eq_true_eq, all_eq_true]
    refine ⟨⟨⟨⟨htask.source_nonneg, htask.version_eq⟩, ?_⟩, fun episode hepisode => ?_⟩,
      fun row hrow => ?_⟩
    · rw [InFlight.result, length_map]
      exact h.count
    · obtain ⟨c, hc, rfl⟩ := mem_map.mp hepisode
      have hok := h.candidates c hc
      refine ⟨by simpa using hok.finished (hfinished c hc), ?_⟩
      apply pairwise_rows fun call hcall => (hok.calls call hcall).1
      have hordered := (pairwise_cons.mp hok.ordered).2
      exact (pairwise_append.mp hordered).1
    · obtain ⟨c, hc, call, hmem, rfl⟩ := hrows row hrow
      have hok := h.candidates c hc
      apply validateBehavior_buildRow hversion (hok.calls call hmem).1 (hok.calls call hmem).2
      exact hok.ordered.sublist ((hcall c hc call hmem).cons_cons _)
  case sources_lt =>
    intro source hsource
    obtain ⟨row, hrow, hsource⟩ := mem_flatMap.mp hsource
    obtain ⟨c, hc, call, hmem, rfl⟩ := hrows row hrow
    obtain ⟨segment, hsegment, rfl⟩ := sourceUpdate_segmentsFrom hsource
    have hbound := (h.candidates c hc).bounded segment.1
      ((hcall c hc call hmem).subset (mem_map_of_mem hsegment))
    omega

end HyperParallel.FullyAsync
