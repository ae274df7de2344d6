import HyperParallel.FullyAsync.Behavior

/-!
# Partial generation

A candidate is generated over as many requests as the server interrupts it; its row
records the version of every segment.
-/

namespace HyperParallel.FullyAsync

open Foundation List

variable {Score : Type}

inductive Reply (Score : Type) where
  | paused
  | segment (tokenIds : List Int) (logProbs : List Score) (finishReason : String)
      (policyVersion : Int)

namespace Reply

def tokens : Reply Score → List Int
  | paused => []
  | segment tokenIds _ _ _ => tokenIds

def scores : Reply Score → List Score
  | paused => []
  | segment _ logProbs _ _ => logProbs

def version : Reply Score → Option Int
  | paused => none
  | segment _ _ _ policyVersion => some policyVersion

end Reply

structure SegmentRequest where
  promptTokenIds : List Int
  maxTokens : Nat
  deriving DecidableEq, Repr

structure Generation (Score : Type) where
  requests : List SegmentRequest := []
  tokens : List Int := []
  scores : List Score := []
  segments : List Segment := []
  interruptions : Nat := 0
  reason : Option String := none

structure GenerationSettings (Score : Type) where
  maxNewTokens : Nat
  padTokenId : Int
  eosTokenIds : List Int
  ignoreEos : Bool
  validScore : Score → Bool

namespace GenerationSettings

variable (settings : GenerationSettings Score) (prompt : List Int)

def validSegment (part : List Int) (probabilities : List Score) (total : Nat) : Bool :=
  part.length = probabilities.length && total + part.length ≤ settings.maxNewTokens &&
    part.all (0 ≤ ·) && probabilities.all settings.validScore

def aborted (reason : String) : Bool := reason = "abort" || reason = "aborted"

/-- The loop's body on one reply; the flag says whether the loop is left. -/
def takeReply (generation : Generation Score) (reply : Reply Score) :
    Except String (Generation Score × Bool) :=
  let sent := { generation with requests := generation.requests ++
    [⟨prompt ++ generation.tokens, settings.maxNewTokens - generation.tokens.length⟩] }
  match reply with
  | .paused => .ok (sent, false)
  | .segment part probabilities reason version =>
    if settings.validSegment part probabilities generation.tokens.length = false then
      .error "Invalid partial token/probability payload"
    else
      let start := generation.tokens.length
      let taken := if part = [] then sent else { sent with
        segments := sent.segments ++
          [⟨start, ((start + part.length : Nat) : Int), version, version - 1⟩]
        tokens := sent.tokens ++ part
        scores := sent.scores ++ probabilities }
      let taken := { taken with reason := some reason }
      if aborted reason then
        .ok ({ taken with interruptions := taken.interruptions + 1 }, false)
      else if reason = "stop" ∨ reason = "length" then .ok (taken, true)
      else .error s!"Unexpected partial completion finish reason: {reason}"

/-- The generation loop; `none` while it waits for another reply. -/
def followReplies (generation : Generation Score) :
    List (Reply Score) → Except String (Option (Generation Score))
  | [] =>
    if generation.tokens.length < settings.maxNewTokens then .ok none else .ok (some generation)
  | reply :: rest =>
    if generation.tokens.length < settings.maxNewTokens then
      match settings.takeReply prompt generation reply with
      | .error error => .error error
      | .ok (taken, true) => .ok (some taken)
      | .ok (taken, false) => followReplies taken rest
    else .ok (some generation)

def finish (generation : Generation Score) : Generation Score :=
  if generation.tokens.length = settings.maxNewTokens ∧ generation.reason.any aborted then
    { generation with reason := some "length" }
  else generation

def generate (replies : List (Reply Score)) : Except String (Option (Generation Score)) :=
  (settings.followReplies prompt {} replies).map (·.map settings.finish)

/-- Whether no end-of-sequence token stands before a position, `seen` of them earlier. -/
def eosPrefixMask (seen : Nat) : List Int → List Bool
  | [] => []
  | token :: rest =>
    decide (seen = 0) :: eosPrefixMask (seen + if token ∈ settings.eosTokenIds then 1 else 0) rest

def responseMask (generation : Generation Score) : List Bool :=
  let missing := settings.maxNewTokens - generation.tokens.length
  let responseIds := generation.tokens ++ List.replicate missing settings.padTokenId
  let explicitMask :=
    List.replicate generation.tokens.length true ++ List.replicate missing false
  if settings.ignoreEos then explicitMask
  else List.zipWith (· && ·) explicitMask (settings.eosPrefixMask 0 responseIds)

def actionMask (generation : Generation Score) (observation : Nat) : List Bool :=
  List.replicate prompt.length false ++
    ((settings.responseMask generation).filter id).map (fun _ => true) ++
    List.replicate observation false

def collect (generation : Generation Score) (observation : Nat) : Except String Row :=
  match generation.segments.getLast? with
  | none => .error "Async internal candidate must contain sampled actions"
  | some last => .ok {
      segments := some generation.segments
      actions := (settings.actionMask prompt generation observation).count true
      policyVersion := last.policyVersion
      workerPolicyVersion := last.policyVersion }

/-! ## What the replies leave -/

def segmentCalls (served : List (Reply Score)) : List (Int × Nat) :=
  served.filterMap fun reply =>
    if reply.tokens = [] then none else reply.version.map (·, reply.tokens.length)

def requestAfter (served : List (Reply Score)) : SegmentRequest :=
  ⟨prompt ++ served.flatMap Reply.tokens,
    settings.maxNewTokens - (served.flatMap Reply.tokens).length⟩

structure Follows (served : List (Reply Score)) (generation : Generation Score) : Prop where
  requests : generation.requests =
    (List.range served.length).map fun count => settings.requestAfter prompt (served.take count)
  tokens : generation.tokens = served.flatMap Reply.tokens
  scores : generation.scores = served.flatMap Reply.scores
  bound : generation.tokens.length ≤ settings.maxNewTokens
  segments : generation.segments = segmentsFrom 0 (segmentCalls served)

end GenerationSettings

theorem segmentsFrom_snoc (start : Int) (call : List (Int × Nat)) (version : Int) (count : Nat) :
    segmentsFrom start (call ++ [(version, count)]) = segmentsFrom start call ++
      [⟨start + (call.map fun segment => (segment.2 : Int)).sum,
        start + (call.map fun segment => (segment.2 : Int)).sum + count, version,
        version - 1⟩] := by
  induction call generalizing start with
  | nil => simp [segmentsFrom]
  | cons segment rest ih => simp [segmentsFrom, ih, Int.add_assoc]

namespace GenerationSettings

variable {settings : GenerationSettings Score} {prompt : List Int}

theorem segmentCalls_paused (rest : List (Reply Score)) :
    segmentCalls (.paused :: rest) = segmentCalls rest := rfl

theorem segmentCalls_segment (part : List Int) (probabilities : List Score) (reason : String)
    (version : Int) (rest : List (Reply Score)) :
    segmentCalls (.segment part probabilities reason version :: rest) =
      if part = [] then segmentCalls rest else (version, part.length) :: segmentCalls rest := by
  by_cases hpart : part = [] <;> simp [segmentCalls, Reply.tokens, Reply.version, hpart]

theorem sum_segmentCalls (served : List (Reply Score)) :
    ((segmentCalls served).map fun segment => (segment.2 : Int)).sum =
      (served.flatMap Reply.tokens).length := by
  induction served with
  | nil => rfl
  | cons reply rest ih =>
    cases reply with
    | paused => simpa [segmentCalls_paused, Reply.tokens] using ih
    | segment part probabilities reason version =>
      rw [segmentCalls_segment, flatMap_cons]
      by_cases hpart : part = [] <;> simp [Reply.tokens, hpart, ih]

theorem Follows.initial : settings.Follows prompt [] {} where
  requests := rfl
  tokens := rfl
  scores := rfl
  bound := Nat.zero_le _
  segments := rfl

theorem requests_snoc (served : List (Reply Score)) (reply : Reply Score) :
    ((range served.length).map fun count =>
        settings.requestAfter prompt (served.take count)) ++ [settings.requestAfter prompt served] =
      (range (served ++ [reply]).length).map fun count =>
        settings.requestAfter prompt ((served ++ [reply]).take count) := by
  rw [length_append, length_singleton, range_succ, map_append]
  congr 1
  · apply map_congr_left
    intro count hcount
    rw [take_append_of_le_length (Nat.le_of_lt (mem_range.mp hcount))]
  · simp

variable {served : List (Reply Score)} {generation : Generation Score}

theorem Follows.takeReply {taken : Generation Score} {reply : Reply Score} {done : Bool}
    (h : settings.Follows prompt served generation)
    (hstep : settings.takeReply prompt generation reply = .ok (taken, done)) :
    settings.Follows prompt (served ++ [reply]) taken := by
  have hrequests : generation.requests ++ [⟨prompt ++ generation.tokens,
      settings.maxNewTokens - generation.tokens.length⟩] =
      (range (served ++ [reply]).length).map fun count =>
        settings.requestAfter prompt ((served ++ [reply]).take count) := by
    rw [← requests_snoc, ← h.requests, requestAfter, ← h.tokens]
  unfold GenerationSettings.takeReply at hstep
  cases reply with
  | paused =>
    cases hstep
    exact ⟨hrequests, by simp [h.tokens, Reply.tokens], by simp [h.scores, Reply.scores],
      h.bound, by simp [h.segments, segmentCalls, Reply.tokens]⟩
  | segment part probabilities reason version =>
    simp only at hstep
    split at hstep
    · cases hstep
    rename_i hvalid
    simp only [validSegment, Bool.not_eq_false, Bool.and_eq_true, decide_eq_true_eq] at hvalid
    obtain ⟨⟨⟨hlength, hbound⟩, -⟩, -⟩ := hvalid
    -- whatever the reason, only it and the interruptions differ
    have hfollows : ∀ kept : Generation Score,
        kept.requests = generation.requests ++ [⟨prompt ++ generation.tokens,
          settings.maxNewTokens - generation.tokens.length⟩] →
        kept.tokens = generation.tokens ++ part → kept.scores = generation.scores ++ probabilities →
        kept.segments = (if part = [] then generation.segments else generation.segments ++
          [⟨generation.tokens.length, ((generation.tokens.length + part.length : Nat) : Int),
            version, version - 1⟩]) →
        settings.Follows prompt (served ++ [.segment part probabilities reason version]) kept := by
      intro kept hkept htokens hscores hsegments
      refine ⟨hkept.trans hrequests, ?_, ?_, ?_, ?_⟩
      · simp [htokens, h.tokens, Reply.tokens]
      · simp [hscores, h.scores, Reply.scores]
      · simpa [htokens] using hbound
      · rw [hsegments, h.segments]
        by_cases hpart : part = []
        · simp [segmentCalls, Reply.tokens, hpart]
        · have hsnoc : segmentCalls (served ++ [.segment part probabilities reason version]) =
              segmentCalls served ++ [(version, part.length)] := by
            simp [segmentCalls, Reply.tokens, Reply.version, hpart]
          rw [if_neg hpart, hsnoc, segmentsFrom_snoc, sum_segmentCalls, ← h.tokens]
          simp
    have hempty : part = [] → probabilities = [] := by
      rintro rfl
      simpa using hlength.symm
    by_cases hpart : part = []
    · rw [if_pos hpart] at hstep
      split at hstep
      · cases hstep
        exact hfollows _ rfl (by simp [hpart]) (by simp [hempty hpart]) (by simp [hpart])
      split at hstep
      · cases hstep
        exact hfollows _ rfl (by simp [hpart]) (by simp [hempty hpart]) (by simp [hpart])
      · cases hstep
    · rw [if_neg hpart] at hstep
      split at hstep
      · cases hstep
        exact hfollows _ rfl rfl rfl (by simp [hpart])
      split at hstep
      · cases hstep
        exact hfollows _ rfl rfl rfl (by simp [hpart])
      · cases hstep

theorem Follows.followReplies {replies : List (Reply Score)} {result : Generation Score}
    (h : settings.Follows prompt served generation)
    (hrun : settings.followReplies prompt generation replies = .ok (some result)) :
    ∃ taken, taken <+: replies ∧ settings.Follows prompt (served ++ taken) result := by
  induction replies generalizing served generation with
  | nil =>
    unfold GenerationSettings.followReplies at hrun
    split at hrun
    · cases hrun
    · cases hrun
      exact ⟨[], nil_prefix, by simpa using h⟩
  | cons reply rest ih =>
    unfold GenerationSettings.followReplies at hrun
    split at hrun
    · split at hrun
      · cases hrun
      · rename_i hstep
        cases hrun
        exact ⟨[reply], by simp, h.takeReply hstep⟩
      · rename_i hstep
        obtain ⟨taken, htaken, hfollows⟩ := ih (h.takeReply hstep) hrun
        refine ⟨reply :: taken, cons_prefix_cons.mpr ⟨rfl, htaken⟩, ?_⟩
        simpa using hfollows
    · cases hrun
      exact ⟨[], nil_prefix, by simpa using h⟩

theorem Follows.finish {served : List (Reply Score)} {generation : Generation Score}
    (h : settings.Follows prompt served generation) :
    settings.Follows prompt served (settings.finish generation) := by
  unfold GenerationSettings.finish
  split
  · exact ⟨h.requests, h.tokens, h.scores, h.bound, h.segments⟩
  · exact h

/-! ## The row -/

theorem length_eosPrefixMask (seen : Nat) (tokens : List Int) :
    (settings.eosPrefixMask seen tokens).length = tokens.length := by
  induction tokens generalizing seen with
  | nil => rfl
  | cons token rest ih => simp [eosPrefixMask, ih]

theorem eosPrefixMask_append (seen : Nat) (tokens more : List Int) : ∃ later,
    settings.eosPrefixMask seen (tokens ++ more) =
      settings.eosPrefixMask seen tokens ++ settings.eosPrefixMask later more := by
  induction tokens generalizing seen with
  | nil => exact ⟨seen, rfl⟩
  | cons token rest ih =>
    obtain ⟨later, hlater⟩ := ih (seen + if token ∈ settings.eosTokenIds then 1 else 0)
    exact ⟨later, by simp [eosPrefixMask, hlater]⟩

theorem eosPrefixMask_all_iff (seen : Nat) (tokens : List Int) :
    (∀ kept ∈ settings.eosPrefixMask seen tokens, true = kept) ↔
      tokens = [] ∨ seen = 0 ∧ ∀ token ∈ tokens.dropLast, token ∉ settings.eosTokenIds := by
  induction tokens generalizing seen with
  | nil => simp [eosPrefixMask]
  | cons token rest ih =>
    rw [eosPrefixMask, forall_mem_cons, ih]
    cases rest with
    | nil => simp
    | cons next rest => by_cases htoken : token ∈ settings.eosTokenIds <;> simp [htoken]

theorem zipWith_true (mask : List Bool) :
    zipWith (· && ·) (replicate mask.length true) mask = mask := by
  induction mask with
  | nil => rfl
  | cons kept rest ih => simpa [replicate_succ] using ih

theorem count_zipWith_false (missing : Nat) (mask : List Bool) :
    (zipWith (· && ·) (replicate missing false) mask).count true = 0 := by
  induction missing generalizing mask with
  | zero => rfl
  | succ missing ih => cases mask <;> simp [replicate_succ, ih]

theorem count_responseMask (generation : Generation Score) :
    (settings.responseMask generation).count true =
      if settings.ignoreEos then generation.tokens.length
      else (settings.eosPrefixMask 0 generation.tokens).count true := by
  unfold responseMask
  cases settings.ignoreEos with
  | true => simp [count_replicate]
  | false =>
    obtain ⟨later, hlater⟩ := @eosPrefixMask_append _ settings 0 generation.tokens
      (replicate (settings.maxNewTokens - generation.tokens.length) settings.padTokenId)
    have hfront := zipWith_true (settings.eosPrefixMask 0 generation.tokens)
    rw [length_eosPrefixMask] at hfront
    have hback := count_zipWith_false (settings.maxNewTokens - generation.tokens.length)
      (settings.eosPrefixMask later (replicate
        (settings.maxNewTokens - generation.tokens.length) settings.padTokenId))
    rw [if_neg Bool.false_ne_true, if_neg Bool.false_ne_true, hlater, zipWith_append
      (by simp [length_eosPrefixMask]), count_append, hfront, hback, Nat.add_zero]

theorem count_actionMask (generation : Generation Score) (observation : Nat) :
    (settings.actionMask prompt generation observation).count true =
      (settings.responseMask generation).count true := by
  have hones : (((settings.responseMask generation).filter id).map fun _ => true).count true =
      (settings.responseMask generation).count true := by
    rw [count_eq_length.mpr (by simp), length_map, ← countP_eq_length_filter]
    exact countP_congr fun kept _ => by simp
  rw [actionMask, count_append, count_append, hones]
  simp [count_replicate]

theorem count_actionMask_eq_length_iff (generation : Generation Score) (observation : Nat) :
    (settings.actionMask prompt generation observation).count true = generation.tokens.length ↔
      settings.ignoreEos = true ∨
        ∀ token ∈ generation.tokens.dropLast, token ∉ settings.eosTokenIds := by
  rw [count_actionMask, count_responseMask]
  cases settings.ignoreEos with
  | true => simp
  | false =>
    have hlength := @length_eosPrefixMask _ settings 0 generation.tokens
    rw [if_neg Bool.false_ne_true, ← hlength, count_eq_length, eosPrefixMask_all_iff]
    by_cases hnone : generation.tokens = [] <;> simp [hnone]

theorem pos_of_mem_segmentCalls {served : List (Reply Score)} {segment : Int × Nat}
    (h : segment ∈ segmentCalls served) : 0 < segment.2 := by
  obtain ⟨reply, -, hreply⟩ := mem_filterMap.mp h
  split at hreply
  · cases hreply
  · rename_i htokens
    obtain ⟨version, -, rfl⟩ := Option.map_eq_some_iff.mp hreply
    exact length_pos_of_ne_nil htokens

theorem segmentCalls_sublist (served : List (Reply Score)) :
    ((segmentCalls served).map Prod.fst).Sublist (served.filterMap Reply.version) := by
  induction served with
  | nil => exact List.Sublist.slnil
  | cons reply rest ih =>
    cases reply with
    | paused => exact ih
    | segment part probabilities reason version =>
      rw [segmentCalls_segment]
      by_cases hpart : part = []
      · rw [if_pos hpart]
        exact ih.cons version
      · rw [if_neg hpart]
        exact ih.cons_cons version

theorem Follows.collect {row : Row} {observation : Nat}
    (h : settings.Follows prompt served generation)
    (hrow : settings.collect prompt generation observation = .ok row) :
    segmentCalls served ≠ [] ∧ row = { buildRow (segmentCalls served) with
      actions := (settings.actionMask prompt generation observation).count true } := by
  unfold GenerationSettings.collect at hrow
  split at hrow
  · cases hrow
  · rename_i last hlast
    cases hrow
    rw [h.segments] at hlast
    have hne : segmentCalls served ≠ [] := by
      intro hnil
      simp [hnil, segmentsFrom] at hlast
    obtain ⟨calls, ⟨version, count⟩, hcalls⟩ :=
      (eq_nil_or_concat' (segmentCalls served)).resolve_left hne
    refine ⟨hne, ?_⟩
    rw [hcalls, segmentsFrom_snoc, getLast?_concat, Option.some.injEq] at hlast
    subst hlast
    simp [buildRow, h.segments, hcalls]

theorem Follows.validateBehavior_iff {row : Row} {observation : Nat} {task : SamplingTask}
    (h : settings.Follows prompt served generation) (htask : 1 ≤ task.policyVersion)
    (hversions : (task.policyVersion :: (segmentCalls served).map Prod.fst).Pairwise (· ≤ ·))
    (hrow : settings.collect prompt generation observation = .ok row) :
    validateBehavior row task = true ↔
      (settings.actionMask prompt generation observation).count true =
        generation.tokens.length := by
  obtain ⟨hne, rfl⟩ := h.collect hrow
  have hpos := fun segment => @pos_of_mem_segmentCalls _ served segment
  have hbuilt := validateBehavior_buildRow htask hne hpos hversions
  have hactions : (buildRow (segmentCalls served)).actions = generation.tokens.length := by
    rw [h.tokens, ← sum_segmentCalls]
    rfl
  have hfollow := followSegments_segmentsFrom (Int.le_refl 0) htask hpos hversions
  constructor
  · intro hvalid
    simp only [validateBehavior, behaviorSegments, buildRow, Option.getD_some, hfollow,
      sum_segmentCalls, ← h.tokens, Bool.and_eq_true, decide_eq_true_eq] at hvalid
    omega
  · intro hcount
    rw [hcount, ← hactions]
    exact hbuilt

end GenerationSettings

/-- What a generation returns is its replies' payloads in order, requested from the exact
prefix, and its segments cover it.  Validation accepts the collected row exactly when no
token follows an end-of-sequence token, where the response mask ends. -/
theorem generate_reassembles (settings : GenerationSettings Score) (prompt : List Int)
    {replies : List (Reply Score)} {generation : Generation Score} {task : SamplingTask}
    (hreturns : settings.generate prompt replies = .ok (some generation))
    (htask : 1 ≤ task.policyVersion)
    (hversions : (task.policyVersion :: replies.filterMap Reply.version).Pairwise (· ≤ ·)) :
    (∃ served, served <+: replies ∧ generation.tokens = served.flatMap Reply.tokens ∧
      generation.scores = served.flatMap Reply.scores ∧
      generation.requests = (List.range served.length).map fun count =>
        ⟨prompt ++ (served.take count).flatMap Reply.tokens,
          settings.maxNewTokens - ((served.take count).flatMap Reply.tokens).length⟩) ∧
    generation.tokens.length ≤ settings.maxNewTokens ∧
    (∃ last, followSegments (0, task.policyVersion) generation.segments =
      some ((generation.tokens.length : Int), last)) ∧
    ∀ observation row, settings.collect prompt generation observation = .ok row →
      (validateBehavior row task = true ↔ settings.ignoreEos = true ∨
        ∀ token ∈ generation.tokens.dropLast, token ∉ settings.eosTokenIds) := by
  obtain ⟨result, hrun, hfinish⟩ := map_eq_ok hreturns
  obtain ⟨generation', rfl, rfl⟩ := Option.map_eq_some_iff.mp hfinish
  obtain ⟨served, htaken, h⟩ := GenerationSettings.Follows.initial.followReplies hrun
  replace h := h.finish
  rw [nil_append] at h
  have hcalls := (GenerationSettings.segmentCalls_sublist served).trans
    (htaken.sublist.filterMap Reply.version)
  have hordered := hversions.sublist (hcalls.cons_cons _)
  refine ⟨⟨served, htaken, h.tokens, h.scores, h.requests⟩, h.bound, ?_, ?_⟩
  · have hfollow := followSegments_segmentsFrom (Int.le_refl 0) htask
      (fun _ => GenerationSettings.pos_of_mem_segmentCalls) hordered
    rw [GenerationSettings.sum_segmentCalls, ← h.tokens, Int.zero_add, ← h.segments] at hfollow
    exact ⟨_, hfollow⟩
  · intro observation row hrow
    rw [h.validateBehavior_iff htask hordered hrow,
      GenerationSettings.count_actionMask_eq_length_iff]

/-- An interrupted generation, with a paused reply and one without tokens. -/
theorem generate_interrupted :
    ∃ last, followSegments (0, 3) [⟨0, 2, 3, 2⟩, ⟨2, 4, 4, 3⟩] = some (4, last) :=
  (@generate_reassembles Unit ⟨4, 0, [2], false, fun _ => true⟩ [9]
    [.paused, .segment [5, 6] [(), ()] "abort" 3, .segment [] [] "aborted" 3,
      .segment [7, 2] [(), ()] "stop" 4]
    ⟨[⟨[9], 4⟩, ⟨[9], 4⟩, ⟨[9, 5, 6], 2⟩, ⟨[9, 5, 6], 2⟩], [5, 6, 7, 2], [(), (), (), ()],
      [⟨0, 2, 3, 2⟩, ⟨2, 4, 4, 3⟩], 2, some "stop"⟩ ⟨0, 3, 2⟩ rfl (by decide)
    (by decide)).2.2.1

theorem covered_past_end :
    (GenerationSettings.generate ⟨4, 0, [2], false, fun _ => true⟩ [9]
        [.segment [2, 7] [(), ()] "stop" 3]).map (·.map fun generation =>
      (GenerationSettings.collect ⟨4, 0, [2], false, fun _ => true⟩ [9] generation 0).map
        fun row => validateBehavior row ⟨0, 3, 2⟩) = .ok (some (.ok false)) :=
  rfl

end HyperParallel.FullyAsync
