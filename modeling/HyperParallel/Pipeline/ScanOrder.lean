import HyperParallel.Foundation.ListOrder
import HyperParallel.Pipeline.ColumnScan

/-!
# Where the column scan puts a slot

Every pass of the scan only appends, so the list of a rank is one block for each
column: what the rank emits there, then the communications of the column.  A
receive stands before its consumer when its sender's column is the earlier one.
-/

namespace HyperParallel.Pipeline

open Foundation List

/-! ## Passes that append -/

/-- A pass that adds the same slots whatever the lists hold already. -/
def Appends (pass : Schedule → Schedule) : Prop :=
  ∀ schedule rank, pass schedule rank = schedule rank ++ pass (fun _ => []) rank

theorem Appends.refl : Appends fun schedule => schedule := fun _ _ => by simp

theorem Appends.trans {first second : Schedule → Schedule} (hfirst : Appends first)
    (hsecond : Appends second) : Appends fun schedule => second (first schedule) := by
  intro schedule rank
  dsimp only
  rw [hsecond, hfirst, hsecond (first fun _ => []), append_assoc]

theorem appendTo_appends (rank : Nat) (slots : List Slot) :
    Appends fun schedule => appendTo schedule rank slots := by
  intro schedule k
  by_cases hk : k = rank
  · subst hk
    simp [appendTo]
  · simp [appendTo, hk]

theorem appendTo_nil (rank : Nat) (slots : List Slot) (target : Nat) :
    appendTo (fun _ => []) rank slots target = if target = rank then slots else [] := by
  by_cases h : target = rank
  · subst h
    simp [appendTo]
  · simp [appendTo, h]

section Scan

variable (style : Style) (stageNum realStageNum : Nat)

theorem insertCommsForStep_appends (step : MetaStep) (rank : Nat) :
    Appends (insertCommsForStep style stageNum realStageNum step rank) := by
  unfold insertCommsForStep
  split
  · split
    · exact (appendTo_appends rank _).trans (appendTo_appends _ _)
    · exact .refl
  · split
    · exact (appendTo_appends rank _).trans (appendTo_appends _ _)
    · exact .refl
  · exact .refl

theorem insertCommsForItem_appends (item : ScanItem) (rank : Nat) :
    Appends (insertCommsForItem style stageNum realStageNum item rank) := by
  unfold insertCommsForItem
  split
  · exact insertCommsForStep_appends style stageNum realStageNum _ rank
  · exact insertCommsForStep_appends style stageNum realStageNum _ rank
  · exact .refl

theorem emitItem_appends (item : ScanItem) (rank : Nat) : Appends (emitItem item rank) :=
  appendTo_appends rank _

/-- What visiting one rank's item adds to the list of `target`. -/
def visited (expanded : Nat → List ScanItem) (timeStep : Nat)
    (visit : ScanItem → Nat → Schedule → Schedule) (target rank : Nat) : List Slot :=
  match (expanded rank)[timeStep]? with
  | some item => visit item rank (fun _ => []) target
  | none => []

variable {style stageNum realStageNum}

theorem mem_visited {expanded : Nat → List ScanItem} {timeStep : Nat}
    {visit : ScanItem → Nat → Schedule → Schedule} {target rank : Nat} {slot : Slot} :
    slot ∈ visited expanded timeStep visit target rank ↔
      ∃ item, (expanded rank)[timeStep]? = some item ∧
        slot ∈ visit item rank (fun _ => []) target := by
  rw [visited]
  split <;> simp [*]

theorem visitColumn_eq {visit : ScanItem → Nat → Schedule → Schedule}
    (hvisit : ∀ item rank, Appends (visit item rank)) (expanded : Nat → List ScanItem)
    (timeStep : Nat) (ranks : List Nat) (schedule : Schedule) (target : Nat) :
    visitColumn expanded timeStep visit ranks schedule target =
      schedule target ++ ranks.flatMap (visited expanded timeStep visit target) := by
  induction ranks generalizing schedule with
  | nil => simp [visitColumn]
  | cons rank ranks ih =>
    rw [visitColumn, foldl_cons, ← visitColumn, ih, flatMap_cons, ← append_assoc]
    congr 1
    cases hget : (expanded rank)[timeStep]? with
    | none => simp [visited, hget]
    | some item => simpa [visited, hget] using hvisit item rank schedule target

variable (style stageNum realStageNum)

def emittedAt (expanded : Nat → List ScanItem) (timeStep target : Nat) : List Slot :=
  (List.range realStageNum).flatMap (visited expanded timeStep emitItem target)

def commsAt (expanded : Nat → List ScanItem) (timeStep target : Nat) : List Slot :=
  (evenRanks realStageNum ++ oddRanks realStageNum).flatMap
    (visited expanded timeStep (insertCommsForItem style stageNum realStageNum) target)

variable (expanded : Nat → List ScanItem)

theorem scanColumn_eq (schedule : Schedule) (timeStep target : Nat) :
    scanColumn style stageNum realStageNum expanded schedule timeStep target =
      schedule target ++ (emittedAt realStageNum expanded timeStep target ++
        commsAt style stageNum realStageNum expanded timeStep target) := by
  have hcomms := insertCommsForItem_appends style stageNum realStageNum
  rw [scanColumn, visitColumn_eq hcomms, visitColumn_eq hcomms, visitColumn_eq emitItem_appends,
    emittedAt, commsAt, flatMap_append]
  simp

theorem columnScan_eq (target : Nat) :
    columnScanInsertComms style stageNum realStageNum expanded target =
      (range (maxLength realStageNum expanded)).flatMap fun timeStep =>
        emittedAt realStageNum expanded timeStep target ++
          commsAt style stageNum realStageNum expanded timeStep target := by
  have hfold : ∀ (columns : List Nat) (schedule : Schedule),
      columns.foldl (scanColumn style stageNum realStageNum expanded) schedule target =
        schedule target ++ columns.flatMap fun timeStep =>
          emittedAt realStageNum expanded timeStep target ++
            commsAt style stageNum realStageNum expanded timeStep target := by
    intro columns
    induction columns with
    | nil => simp
    | cons timeStep columns ih =>
      intro schedule
      rw [foldl_cons, ih, scanColumn_eq, flatMap_cons, append_assoc]
  rw [columnScanInsertComms, hfold, nil_append]

def taggedScan (expanded : Nat → List ScanItem) (target : Nat) : List (Nat × Slot) :=
  (List.range (maxLength realStageNum expanded)).flatMap fun timeStep =>
    (emittedAt realStageNum expanded timeStep target).map (2 * timeStep, ·) ++
      (commsAt style stageNum realStageNum expanded timeStep target).map (2 * timeStep + 1, ·)

theorem map_snd_taggedScan (target : Nat) :
    (taggedScan style stageNum realStageNum expanded target).map Prod.snd =
      columnScanInsertComms style stageNum realStageNum expanded target := by
  simp [taggedScan, columnScan_eq, map_flatMap, Function.comp_def]

theorem taggedScan_sorted (target : Nat) :
    (taggedScan style stageNum realStageNum expanded target).Pairwise (·.1 ≤ ·.1) := by
  have hplace : ∀ timeStep, ∀ e ∈
      (emittedAt realStageNum expanded timeStep target).map (2 * timeStep, ·) ++
        (commsAt style stageNum realStageNum expanded timeStep target).map (2 * timeStep + 1, ·),
      2 * timeStep ≤ e.1 ∧ e.1 ≤ 2 * timeStep + 1 := by
    intro timeStep e he
    rcases mem_append.mp he with h | h
    · obtain ⟨slot, -, rfl⟩ := mem_map.mp h
      exact ⟨Nat.le_refl _, Nat.le_succ _⟩
    · obtain ⟨slot, -, rfl⟩ := mem_map.mp h
      exact ⟨Nat.le_succ _, Nat.le_refl _⟩
  refine pairwise_flatMap.mpr ⟨fun timeStep _ => ?_, ?_⟩
  · refine pairwise_append.mpr ⟨?_, ?_, ?_⟩
    · exact pairwise_map.mpr (pairwise_of_forall fun _ _ => Nat.le_refl _)
    · exact pairwise_map.mpr (pairwise_of_forall fun _ _ => Nat.le_refl _)
    · intro a ha b hb
      obtain ⟨slot, -, rfl⟩ := mem_map.mp ha
      obtain ⟨slot', -, rfl⟩ := mem_map.mp hb
      exact Nat.le_succ _
  · refine pairwise_lt_range.imp fun {s t} hlt a ha b hb => ?_
    have := hplace s a ha
    have := hplace t b hb
    omega

end Scan

/-! ## The column of a step -/

def ScanItem.step? : ScanItem → Option MetaStep
  | .phantom _ subStep _ => some subStep
  | .slot (.step step) => some step
  | .slot _ => none

def ItemAt (property : ScanItem → Prop) (slots : List Slot) (timeStep : Nat) : Prop :=
  ∃ item, (slots.flatMap expandSlot)[timeStep]? = some item ∧ property item

abbrev InColumn (slots : List Slot) (step : MetaStep) (timeStep : Nat) : Prop :=
  ItemAt (fun item => item.step? = some step) slots timeStep

abbrev EmittedIn (slots : List Slot) (slot : Slot) (timeStep : Nat) : Prop :=
  ItemAt (fun item => slot ∈ item.emitted) slots timeStep

theorem filterMap_expandOverlapSlots (scheduler : Schedule) (rank : Nat) :
    (expandOverlapSlots scheduler rank).filterMap ScanItem.step? =
      (scheduler rank).flatMap Slot.leafSteps := by
  rw [expandOverlapSlots, filterMap_flatMap]
  congr 1
  funext slot
  cases slot <;> rfl

theorem flatMap_emitted_expandOverlapSlots (scheduler : Schedule) (rank : Nat) :
    (expandOverlapSlots scheduler rank).flatMap ScanItem.emitted = scheduler rank := by
  have hslot : ∀ slot, (expandSlot slot).flatMap ScanItem.emitted = [slot] := by
    intro slot
    cases slot <;> rfl
  rw [expandOverlapSlots, flatMap_assoc]
  simp [hslot]

variable {slots : List Slot}

theorem InColumn.unique {step : MetaStep} {s t : Nat}
    (hnodup : (slots.flatMap Slot.leafSteps).Nodup) (hs : InColumn slots step s)
    (ht : InColumn slots step t) : s = t := by
  obtain ⟨a, ha, hfa⟩ := hs
  obtain ⟨b, hb, hfb⟩ := ht
  rw [← filterMap_expandOverlapSlots (fun _ => slots) 0] at hnodup
  exact ListOrder.position_unique hnodup ha hb hfa hfb

theorem EmittedIn.mem {slot : Slot} {timeStep : Nat} (h : EmittedIn slots slot timeStep) :
    slot ∈ slots := by
  obtain ⟨item, hget, hslot⟩ := h
  rw [← flatMap_emitted_expandOverlapSlots (fun _ => slots) 0]
  exact mem_flatMap.mpr ⟨item, mem_of_getElem? hget, hslot⟩

theorem EmittedIn.unique {slot : Slot} {s t : Nat} (hnodup : (slots.flatMap Slot.leafSteps).Nodup)
    (hleaf : slot.leafSteps ≠ []) (hs : EmittedIn slots slot s) (ht : EmittedIn slots slot t) :
    s = t := by
  have hhead : ∀ k, EmittedIn slots slot k → InColumn slots (slot.leafSteps.head hleaf) k := by
    rintro k ⟨item, hget, hmem⟩
    refine ⟨item, hget, ?_⟩
    obtain ⟨source, -, hitem⟩ := mem_flatMap.mp (mem_of_getElem? hget)
    cases source with
    | bubble =>
      obtain rfl := mem_singleton.mp hitem
      obtain rfl := mem_singleton.mp hmem
      exact absurd rfl hleaf
    | step leaf =>
      obtain rfl := mem_singleton.mp hitem
      obtain rfl := mem_singleton.mp hmem
      rfl
    | overlap type first second =>
      rcases mem_pair.mp hitem with rfl | rfl
      · obtain rfl := mem_singleton.mp hmem
        rfl
      · cases hmem
  exact InColumn.unique hnodup (hhead s hs) (hhead t ht)

theorem slot_unique (hnodup : (slots.flatMap Slot.leafSteps).Nodup) {a b : Slot} (ha : a ∈ slots)
    (hb : b ∈ slots) {step : MetaStep} (hstep : step ∈ a.leafSteps) (hstep' : step ∈ b.leafSteps) :
    a = b := by
  obtain ⟨i, hi, rfl⟩ := getElem_of_mem ha
  obtain ⟨j, hj, rfl⟩ := getElem_of_mem hb
  have hdisjoint := pairwise_iff_getElem.mp (nodup_flatMap.mp hnodup).2
  rcases Nat.lt_trichotomy i j with hlt | rfl | hlt
  · exact absurd hstep' (hdisjoint i j hi hj hlt hstep)
  · rfl
  · exact absurd hstep (hdisjoint j i hj hi hlt hstep')

theorem exists_columns {scheduler : Schedule} {rank : Nat} {slot : Slot} {step : MetaStep}
    (hslot : slot ∈ scheduler rank) (hstep : step ∈ slot.leafSteps) :
    ∃ s t, EmittedIn (scheduler rank) slot s ∧ InColumn (scheduler rank) step t ∧ s ≤ t := by
  obtain ⟨front, back, hsplit⟩ := append_of_mem hslot
  have hget : ∀ k, (expandOverlapSlots scheduler rank)[(front.flatMap expandSlot).length + k]? =
      (expandSlot slot ++ back.flatMap expandSlot)[k]? := by
    intro k
    rw [expandOverlapSlots, hsplit, flatMap_append, flatMap_cons,
      getElem?_append_right (by omega), Nat.add_sub_cancel_left]
  have hemitted : EmittedIn (scheduler rank) slot (front.flatMap expandSlot).length := by
    cases slot with
    | bubble => cases hstep
    | step leaf => exact ⟨.slot (.step leaf), hget 0, mem_singleton.mpr rfl⟩
    | overlap type first second =>
      exact ⟨.phantom (.overlap type first second) first true, hget 0, mem_singleton.mpr rfl⟩
  cases slot with
  | bubble => cases hstep
  | step leaf =>
    obtain rfl := mem_singleton.mp hstep
    exact ⟨_, _, hemitted, ⟨_, hget 0, rfl⟩, Nat.le_refl _⟩
  | overlap type first second =>
    rcases mem_pair.mp hstep with rfl | rfl
    · exact ⟨_, _, hemitted, ⟨_, hget 0, rfl⟩, Nat.le_refl _⟩
    · exact ⟨_, _, hemitted, ⟨_, hget 1, rfl⟩, Nat.le_succ _⟩

/-! ## Columns of a longer list -/

def width (slots : List Slot) : Nat := (slots.flatMap expandSlot).length

@[simp] theorem width_nil : width [] = 0 := rfl

@[simp] theorem width_append (front back : List Slot) :
    width (front ++ back) = width front + width back := by
  simp [width, flatMap_append]

@[simp] theorem width_cons (slot : Slot) (slots : List Slot) :
    width (slot :: slots) = (expandSlot slot).length + width slots := by
  simp [width]

@[simp] theorem length_expandSlot_step (step : MetaStep) : (expandSlot (.step step)).length = 1 := rfl

@[simp] theorem length_expandSlot_bubble : (expandSlot .bubble).length = 1 := rfl

section ItemAt

variable {property : ScanItem → Prop} {front back : List Slot} {timeStep : Nat}

theorem ItemAt.append_left (back : List Slot) (h : ItemAt property front timeStep) :
    ItemAt property (front ++ back) timeStep := by
  obtain ⟨item, hget, hitem⟩ := h
  refine ⟨item, ?_, hitem⟩
  rw [flatMap_append, List.getElem?_append_left (List.getElem?_eq_some_iff.mp hget).1, hget]

theorem ItemAt.append_right (front : List Slot) (h : ItemAt property back timeStep) :
    ItemAt property (front ++ back) (width front + timeStep) := by
  obtain ⟨item, hget, hitem⟩ := h
  refine ⟨item, ?_, hitem⟩
  rw [flatMap_append, width, getElem?_append_right (by omega), Nat.add_sub_cancel_left, hget]

theorem ItemAt.flatMap_range (block : Nat → List Slot) (start : Nat → Nat) {n k : Nat}
    (hzero : start 0 = 0) (hstart : ∀ j < k, start (j + 1) = start j + width (block j)) (hk : k < n)
    (h : ItemAt property (block k) timeStep) :
    ItemAt property ((range n).flatMap block) (start k + timeStep) := by
  obtain ⟨item, hget, hitem⟩ := h
  refine ⟨item, ?_, hitem⟩
  rw [flatMap_assoc, ListOrder.getElem?_flatMap_range _ start hzero hstart hk
    (List.getElem?_eq_some_iff.mp hget).1, hget]

end ItemAt

theorem width_flatMap_range (block : Nat → List Slot) (start : Nat → Nat) {n : Nat}
    (hzero : start 0 = 0) (hstart : ∀ k < n, start (k + 1) = start k + width (block k)) :
    width ((range n).flatMap block) = start n := by
  rw [width, flatMap_assoc]
  exact ListOrder.length_flatMap_range _ start hzero hstart

section Members

variable {stageNum realStageNum : Nat} {scheduler : Schedule}

theorem length_le_maxLength (expanded : Nat → List ScanItem) {rank : Nat}
    (hrank : rank < realStageNum) : (expanded rank).length ≤ maxLength realStageNum expanded := by
  have hfold : ∀ lengths : List Nat, ∀ n ∈ lengths, n ≤ lengths.foldr max 0 := by
    intro lengths
    induction lengths with
    | nil => simp
    | cons m lengths ih =>
      intro n hn
      rw [foldr_cons]
      rcases mem_cons.mp hn with rfl | hn
      · exact Nat.le_max_left _ _
      · exact Nat.le_trans (ih n hn) (Nat.le_max_right _ _)
  exact hfold _ _ (mem_map.mpr ⟨rank, mem_range.mpr hrank, rfl⟩)

variable {slot : Slot} {step : MetaStep} {timeStep : Nat}

theorem lt_maxLength {expanded : Nat → List ScanItem} {rank : Nat} {item : ScanItem}
    (hrank : rank < realStageNum) (hget : (expanded rank)[timeStep]? = some item) :
    timeStep < maxLength realStageNum expanded := by
  obtain ⟨hlt, -⟩ := List.getElem?_eq_some_iff.mp hget
  exact Nat.lt_of_lt_of_le hlt (length_le_maxLength expanded hrank)

variable {target : Nat} {micro stage : Nat}

theorem mem_emittedAt :
    slot ∈ emittedAt realStageNum (expandOverlapSlots scheduler) timeStep target ↔
      target < realStageNum ∧ EmittedIn (scheduler target) slot timeStep := by
  simp only [emittedAt, mem_flatMap, mem_range, mem_visited, emitItem, appendTo_nil,
    mem_ite_nil_right]
  constructor
  · rintro ⟨rank, hrank, item, hget, rfl, hslot⟩
    exact ⟨hrank, item, hget, hslot⟩
  · rintro ⟨hrank, item, hget, hslot⟩
    exact ⟨target, hrank, item, hget, rfl, hslot⟩

theorem insertCommsForItem_step (item : ScanItem) (rank : Nat) (schedule : Schedule) :
    insertCommsForItem .loop stageNum realStageNum item rank schedule =
      match item.step? with
      | some step => insertCommsForStep .loop stageNum realStageNum step rank schedule
      | none => schedule := by
  unfold insertCommsForItem
  split <;> simp_all [ScanItem.step?]

theorem mem_commsAt :
    slot ∈ commsAt .loop stageNum realStageNum (expandOverlapSlots scheduler) timeStep target ↔
      ∃ rank < realStageNum, ∃ step, InColumn (scheduler rank) step timeStep ∧
        slot ∈ insertCommsForStep .loop stageNum realStageNum step rank (fun _ => []) target := by
  have hranks : ∀ rank, rank ∈ evenRanks realStageNum ++ oddRanks realStageNum ↔
      rank < realStageNum := by
    intro rank
    simp only [evenRanks, oddRanks, mem_append, mem_filter, mem_range, decide_eq_true_eq]
    omega
  simp only [commsAt, mem_flatMap, hranks, mem_visited, insertCommsForItem_step]
  constructor
  · rintro ⟨rank, hrank, item, hget, hslot⟩
    cases hstep : item.step? with
    | none => simp [hstep] at hslot
    | some step =>
      rw [hstep] at hslot
      exact ⟨rank, hrank, step, ⟨item, hget, hstep⟩, hslot⟩
  · rintro ⟨rank, hrank, step, ⟨item, hget, hstep⟩, hslot⟩
    refine ⟨rank, hrank, item, hget, ?_⟩
    rw [hstep]
    exact hslot

theorem mem_insertCommsForStep {rank target : Nat}
    (howner : step.stageIndex % realStageNum = rank) :
    slot ∈ insertCommsForStep .loop stageNum realStageNum step rank (fun _ => []) target ↔
      (step.type = .fwd ∧ step.stageIndex + 1 < stageNum ∧
        (step.stageIndex + 1) % realStageNum ≠ rank ∧
        (target = rank ∧ (slot = .step ⟨step.microIndex, .dataSend, step.stageIndex⟩ ∨
            slot = .step ⟨step.microIndex, .fwdSend, step.stageIndex⟩) ∨
          target = (step.stageIndex + 1) % realStageNum ∧
            (slot = .step ⟨step.microIndex, .dataRecv, step.stageIndex + 1⟩ ∨
              slot = .step ⟨step.microIndex, .fwdRecv, step.stageIndex + 1⟩))) ∨
      (step.type = .bwd ∧ 0 < step.stageIndex ∧ (step.stageIndex - 1) % realStageNum ≠ rank ∧
        (target = rank ∧ slot = .step ⟨step.microIndex, .bwdSend, step.stageIndex⟩ ∨
          target = (step.stageIndex - 1) % realStageNum ∧
            slot = .step ⟨step.microIndex, .bwdRecv, step.stageIndex - 1⟩)) := by
  have hpair : ∀ (peer : Nat) (sends receives : List Slot), rank ≠ peer →
      (slot ∈ appendTo (appendTo (fun _ => []) rank sends) peer receives target ↔
        target = rank ∧ slot ∈ sends ∨ target = peer ∧ slot ∈ receives) := by
    intro peer sends receives hne
    have happend := appendTo_appends peer receives (appendTo (fun _ => []) rank sends) target
    dsimp only at happend
    rw [happend, mem_append, appendTo_nil, appendTo_nil, mem_ite_nil_right, mem_ite_nil_right]
  subst howner
  obtain ⟨micro, type, stage⟩ := step
  dsimp only
  cases type with
  | fwd =>
    simp only [insertCommsForStep, fwdPeer, stageToRank]
    by_cases hlast : stageNum - 1 ≤ stage
    · simp only [hlast, if_true]
      constructor
      · intro h
        cases h
      · rintro (⟨-, hlt, -⟩ | ⟨h, -⟩)
        · omega
        · cases h
    · by_cases hpeer : (stage + 1) % realStageNum = stage % realStageNum
      · simp [hlast, hpeer]
      · simp [hlast, hpeer, hpair _ _ _ (Ne.symm hpeer), show stage + 1 < stageNum by omega]
  | bwd =>
    simp only [insertCommsForStep, bwdPeer, stageToRank]
    by_cases hfirst : stage ≤ 0
    · simp [hfirst, show ¬0 < stage by omega]
    · by_cases hpeer : (stage - 1) % realStageNum = stage % realStageNum
      · simp [hfirst, hpeer]
      · simp [hfirst, hpeer, hpair _ _ _ (Ne.symm hpeer), show 0 < stage by omega]
  | _ => simp [insertCommsForStep]

/-! ## Computing and communicating -/

def Slot.isCompute : Slot → Bool
  | .step ⟨_, type, _⟩ => type = .fwd ∨ type = .bwd ∨ type = .bwdInput ∨ type = .bwdWeight
  | _ => true

def Slot.isLoad : Slot → Bool
  | .step ⟨_, .dataLoad, _⟩ => true
  | _ => false

theorem isLoad_of_isCompute (h : slot.isCompute = true) : slot.isLoad = false := by
  cases slot with
  | step leaf =>
    obtain ⟨micro, type, stage⟩ := leaf
    cases type <;> first | rfl | cases h
  | bubble => rfl
  | overlap type first second => rfl

theorem loadsFor_isLoad {load : Slot} (h : load ∈ loadsFor slot) :
    load.isLoad = true ∧ load.isCompute = false := by
  obtain ⟨step, -, rfl⟩ := mem_map.mp h
  exact ⟨rfl, rfl⟩

theorem filter_not_load_insertDataload {schedule : Schedule} {rank : Nat}
    (hload : ∀ slot ∈ schedule rank, slot.isLoad = false) :
    (insertDataloadBeforeFwd schedule rank).filter (fun slot => !slot.isLoad) = schedule rank := by
  rw [insertDataloadBeforeFwd, filter_flatMap]
  revert hload
  induction schedule rank with
  | nil => exact fun _ => rfl
  | cons slot slots ih =>
    intro hload
    rw [flatMap_cons, ih fun s hs => hload s (mem_cons_of_mem slot hs),
      filter_append, filter_eq_nil_iff.mpr fun load h => by simp [(loadsFor_isLoad h).1]]
    simp [hload slot mem_cons_self]

theorem mem_insertDataload_iff {schedule : Schedule} {rank : Nat} (hload : slot.isLoad = false) :
    slot ∈ insertDataloadBeforeFwd schedule rank ↔ slot ∈ schedule rank := by
  simp only [insertDataloadBeforeFwd, mem_flatMap, mem_append, mem_singleton]
  constructor
  · rintro ⟨other, hother, h | rfl⟩
    · simp [(loadsFor_isLoad h).1] at hload
    · exact hother
  · exact fun h => ⟨slot, h, Or.inr rfl⟩

theorem filter_insertDataload (schedule : Schedule) (rank : Nat) :
    (insertDataloadBeforeFwd schedule rank).filter Slot.isCompute =
      (schedule rank).filter Slot.isCompute := by
  rw [insertDataloadBeforeFwd, filter_flatMap]
  induction schedule rank with
  | nil => rfl
  | cons slot slots ih =>
    rw [flatMap_cons, ih, filter_append,
      filter_eq_nil_iff.mpr fun load h => by simp [(loadsFor_isLoad h).2]]
    simp only [filter_cons]
    split <;> rfl

theorem count_leafSteps_filter {keep : Slot → Bool}
    (hdrop : ∀ slot, keep slot = false → step ∉ slot.leafSteps) (slots : List Slot) :
    ((slots.filter keep).flatMap Slot.leafSteps).count step =
      (slots.flatMap Slot.leafSteps).count step := by
  induction slots with
  | nil => rfl
  | cons slot slots ih =>
    rw [filter_cons, flatMap_cons, count_append]
    split
    · rw [flatMap_cons, count_append, ih]
    · rename_i hkeep
      rw [ih, count_eq_zero.mpr (hdrop slot (by simpa using hkeep)), Nat.zero_add]

theorem not_mem_leafSteps_of_comm
    (hstep : step.type = .fwd ∨ step.type = .bwd ∨ step.type = .bwdInput ∨ step.type = .bwdWeight)
    (slot : Slot) (hslot : slot.isCompute = false) : step ∉ slot.leafSteps := by
  intro hmem
  cases slot with
  | step leaf =>
    obtain rfl := mem_singleton.mp hmem
    simp [Slot.isCompute] at hslot
    tauto
  | bubble => cases hslot
  | overlap type first second => cases hslot

variable (hcompute : IsComputeSchedule realStageNum scheduler) {rank : Nat}
  (hrank : rank < realStageNum)
include hcompute hrank

theorem isCompute_of_mem (hslot : slot ∈ scheduler rank) : slot.isCompute = true := by
  cases slot with
  | bubble => rfl
  | step leaf =>
    obtain ⟨htype, -⟩ := hcompute rank hrank _ hslot leaf (mem_singleton.mpr rfl)
    obtain ⟨micro, type, stage⟩ := leaf
    rcases htype with rfl | rfl <;> rfl
  | overlap type first second => rfl

theorem InColumn.spec (h : InColumn (scheduler rank) step timeStep) :
    (step.type = .fwd ∨ step.type = .bwd) ∧ step.stageIndex % realStageNum = rank := by
  obtain ⟨item, hget, hstep⟩ := h
  have hmem : step ∈ (expandOverlapSlots scheduler rank).filterMap ScanItem.step? :=
    mem_filterMap.mpr ⟨item, mem_of_getElem? hget, hstep⟩
  rw [filterMap_expandOverlapSlots] at hmem
  obtain ⟨slot, hslot, hleaf⟩ := mem_flatMap.mp hmem
  exact hcompute rank hrank slot hslot step hleaf

omit hrank in
theorem isCompute_of_comm
    (h : slot ∈ commsAt .loop stageNum realStageNum (expandOverlapSlots scheduler) timeStep target) :
    slot.isCompute = false := by
  obtain ⟨source, hsource, step, hcolumn, hslot⟩ := mem_commsAt.mp h
  rcases (mem_insertCommsForStep (hcolumn.spec hcompute hsource).2).mp hslot with
    ⟨-, -, -, ⟨-, rfl | rfl⟩ | ⟨-, rfl | rfl⟩⟩ | ⟨-, -, -, ⟨-, rfl⟩ | ⟨-, rfl⟩⟩ <;> rfl

omit hcompute in
theorem mem_taggedScan {place : Nat} :
    (place, slot) ∈ taggedScan .loop stageNum realStageNum (expandOverlapSlots scheduler) rank ↔
      ∃ timeStep, place = 2 * timeStep ∧ EmittedIn (scheduler rank) slot timeStep ∨
        place = 2 * timeStep + 1 ∧ slot ∈ commsAt .loop stageNum realStageNum
          (expandOverlapSlots scheduler) timeStep rank := by
  simp only [taggedScan, mem_flatMap, mem_range, mem_append, mem_map, mem_emittedAt, Prod.mk.injEq]
  constructor
  · rintro ⟨timeStep, -, ⟨_, ⟨-, hemitted⟩, rfl, rfl⟩ | ⟨_, hcomm, rfl, rfl⟩⟩
    · exact ⟨timeStep, Or.inl ⟨rfl, hemitted⟩⟩
    · exact ⟨timeStep, Or.inr ⟨rfl, hcomm⟩⟩
  · rintro ⟨timeStep, ⟨rfl, hemitted⟩ | ⟨rfl, hcomm⟩⟩
    · obtain ⟨item, hget, hslot⟩ := hemitted
      exact ⟨timeStep, lt_maxLength hrank hget, Or.inl ⟨slot, ⟨hrank, item, hget, hslot⟩, rfl, rfl⟩⟩
    · obtain ⟨source, hsource, step, ⟨item, hget, -⟩, -⟩ := mem_commsAt.mp hcomm
      exact ⟨timeStep, lt_maxLength hsource hget, Or.inr ⟨slot, hcomm, rfl, rfl⟩⟩

theorem comm_before_iff {comm : Slot} (hcomm : comm.isCompute = false)
    (hslot : slot.isCompute = true) :
    [comm, slot].Sublist (columnScanInsertComms .loop stageNum realStageNum
        (expandOverlapSlots scheduler) rank) ↔
      ∃ s t, s < t ∧ EmittedIn (scheduler rank) slot t ∧
        comm ∈ commsAt .loop stageNum realStageNum (expandOverlapSlots scheduler) s rank := by
  rw [← map_snd_taggedScan]
  have hsorted := taggedScan_sorted .loop stageNum realStageNum (expandOverlapSlots scheduler) rank
  constructor
  · intro hpair
    obtain ⟨p, q, hp, hq, hle⟩ := ListOrder.tag_le_of_pair_map hsorted hpair
    obtain ⟨s, ⟨-, hemitted⟩ | ⟨rfl, hs⟩⟩ := (mem_taggedScan hrank).mp hp
    · simp [isCompute_of_mem hcompute hrank hemitted.mem] at hcomm
    obtain ⟨t, ⟨rfl, ht⟩ | ⟨-, hcomm'⟩⟩ := (mem_taggedScan hrank).mp hq
    · exact ⟨s, t, by omega, ht, hs⟩
    · simp [isCompute_of_comm hcompute hcomm'] at hslot
  · rintro ⟨s, t, hlt, ht, hs⟩
    exact ListOrder.pair_map_of_tag_lt hsorted ((mem_taggedScan hrank).mpr ⟨s, Or.inr ⟨rfl, hs⟩⟩)
      ((mem_taggedScan hrank).mpr ⟨t, Or.inl ⟨rfl, ht⟩⟩) (by omega)

omit hcompute in
theorem slot_before_comm {comm : Slot} {s t : Nat} (hle : s ≤ t)
    (hs : EmittedIn (scheduler rank) slot s)
    (ht : comm ∈ commsAt .loop stageNum realStageNum (expandOverlapSlots scheduler) t rank) :
    [slot, comm].Sublist (columnScanInsertComms .loop stageNum realStageNum
      (expandOverlapSlots scheduler) rank) := by
  rw [← map_snd_taggedScan]
  exact ListOrder.pair_map_of_tag_lt (taggedScan_sorted _ _ _ _ rank)
    ((mem_taggedScan hrank).mpr ⟨s, Or.inl ⟨rfl, hs⟩⟩)
    ((mem_taggedScan hrank).mpr ⟨t, Or.inr ⟨rfl, ht⟩⟩) (by omega)

theorem filter_columnScan (stageNum : Nat) :
    (columnScanInsertComms .loop stageNum realStageNum (expandOverlapSlots scheduler) rank).filter
      Slot.isCompute = scheduler rank := by
  have hcolumn : ∀ timeStep, (emittedAt realStageNum (expandOverlapSlots scheduler) timeStep rank ++
      commsAt .loop stageNum realStageNum (expandOverlapSlots scheduler) timeStep rank).filter
        Slot.isCompute =
      visited (expandOverlapSlots scheduler) timeStep emitItem rank rank := by
    intro timeStep
    have hcomms : (commsAt .loop stageNum realStageNum (expandOverlapSlots scheduler) timeStep
        rank).filter Slot.isCompute = [] :=
      filter_eq_nil_iff.mpr fun slot hslot => by
        simp [isCompute_of_comm hcompute hslot]
    have hemitted : emittedAt realStageNum (expandOverlapSlots scheduler) timeStep rank =
        visited (expandOverlapSlots scheduler) timeStep emitItem rank rank := by
      refine ListOrder.flatMap_range_single _ hrank fun k _ hk => ?_
      rw [visited]
      split
      · simp [emitItem, appendTo_nil, Ne.symm hk]
      · rfl
    rw [filter_append, hcomms, append_nil, hemitted, filter_eq_self]
    intro slot hslot
    obtain ⟨item, hget, hmem⟩ := mem_visited.mp hslot
    rw [emitItem, appendTo_nil, if_pos rfl] at hmem
    exact isCompute_of_mem hcompute hrank (EmittedIn.mem ⟨item, hget, hmem⟩)
  rw [columnScan_eq, filter_flatMap]
  simp only [hcolumn, visited, emitItem, appendTo_nil, if_true]
  rw [← flatMap_emitted_expandOverlapSlots scheduler rank]
  exact ListOrder.flatMap_range_getElem?
    (fun item => match item with
      | some item => item.emitted
      | none => []) rfl _ (length_le_maxLength _ hrank)

omit hrank in
theorem not_load_of_mem_columnScan (stageNum : Nat) (hrank : rank < realStageNum)
    (hslot : slot ∈ columnScanInsertComms .loop stageNum realStageNum
      (expandOverlapSlots scheduler) rank) : slot.isLoad = false := by
  rw [← map_snd_taggedScan] at hslot
  obtain ⟨⟨place, slot⟩, hplace, rfl⟩ := mem_map.mp hslot
  obtain ⟨timeStep, ⟨-, hemitted⟩ | ⟨-, hcomm⟩⟩ := (mem_taggedScan hrank).mp hplace
  · exact isLoad_of_isCompute (isCompute_of_mem hcompute hrank hemitted.mem)
  · obtain ⟨source, hsource, step, hcolumn, hmem⟩ := mem_commsAt.mp hcomm
    rcases (mem_insertCommsForStep (hcolumn.spec hcompute hsource).2).mp hmem with
      ⟨-, -, -, ⟨-, rfl | rfl⟩ | ⟨-, rfl | rfl⟩⟩ | ⟨-, -, -, ⟨-, rfl⟩ | ⟨-, rfl⟩⟩ <;> rfl

theorem addSendRecv_pair_iff (stageNum : Nat) {first second : Slot} (hfirst : first.isLoad = false)
    (hsecond : second.isLoad = false) :
    [first, second].Sublist (addSendRecv .loop stageNum realStageNum scheduler rank) ↔
      [first, second].Sublist (columnScanInsertComms .loop stageNum realStageNum
        (expandOverlapSlots scheduler) rank) := by
  have hfilter := filter_not_load_insertDataload fun slot hslot =>
    not_load_of_mem_columnScan hcompute stageNum hrank hslot
  constructor
  · intro h
    rw [← hfilter]
    have hkeep := h.filter fun slot => !slot.isLoad
    rwa [filter_eq_self.mpr (by simp [hfirst, hsecond])] at hkeep
  · intro h
    refine h.trans ?_
    rw [← hfilter]
    exact filter_sublist

theorem filter_addSendRecv (stageNum : Nat) :
    (addSendRecv .loop stageNum realStageNum scheduler rank).filter Slot.isCompute =
      scheduler rank := by
  rw [addSendRecv, filter_insertDataload, filter_columnScan hcompute hrank]

theorem count_addSendRecv (stageNum : Nat)
    (hstep : step.type = .fwd ∨ step.type = .bwd ∨ step.type = .bwdInput ∨ step.type = .bwdWeight) :
    ((addSendRecv .loop stageNum realStageNum scheduler rank).flatMap Slot.leafSteps).count step =
      ((scheduler rank).flatMap Slot.leafSteps).count step := by
  rw [← filter_addSendRecv hcompute hrank stageNum]
  exact (count_leafSteps_filter (not_mem_leafSteps_of_comm hstep) _).symm

/-! ## Receives before, sends after -/

theorem fwdRecv_before_iff (hstage : stage + 1 < stageNum)
    (howner : (stage + 1) % realStageNum = rank) (hpeer : stage % realStageNum ≠ rank)
    (hslot : slot.isCompute = true) :
    [.step ⟨micro, .fwdRecv, stage + 1⟩, slot].Sublist
        (addSendRecv .loop stageNum realStageNum scheduler rank) ↔
      ∃ s t, s < t ∧ EmittedIn (scheduler rank) slot t ∧
        InColumn (scheduler (stage % realStageNum)) ⟨micro, .fwd, stage⟩ s := by
  rw [addSendRecv_pair_iff hcompute hrank stageNum rfl (isLoad_of_isCompute hslot),
    comm_before_iff hcompute hrank rfl hslot]
  refine exists_congr fun s => exists_congr fun t => and_congr_right fun _ =>
    and_congr_right fun _ => ?_
  rw [mem_commsAt]
  constructor
  · rintro ⟨source, hsource, step, hcolumn, hmem⟩
    have hspec := (hcolumn.spec hcompute hsource).2
    rcases (mem_insertCommsForStep hspec).mp hmem with
      ⟨htype, -, -, ⟨-, h | h⟩ | ⟨-, h | h⟩⟩ | ⟨-, -, -, ⟨-, h⟩ | ⟨-, h⟩⟩ <;>
      simp only [Slot.step.injEq, MetaStep.mk.injEq, reduceCtorEq, false_and, and_false,
        true_and, Nat.add_right_cancel_iff] at h
    obtain ⟨hmicro, hstage⟩ := h
    obtain ⟨micro', type, stage'⟩ := step
    obtain rfl : type = .fwd := htype
    obtain rfl : micro = micro' := hmicro
    obtain rfl : stage = stage' := hstage
    obtain rfl : stage % realStageNum = source := hspec
    exact hcolumn
  · intro hcolumn
    refine ⟨_, Nat.mod_lt _ (by omega), _, hcolumn, (mem_insertCommsForStep rfl).mpr
      (Or.inl ⟨rfl, hstage, ?_, Or.inr ⟨howner.symm, Or.inr rfl⟩⟩)⟩
    rw [howner]
    exact hpeer.symm

theorem bwdRecv_before_iff (howner : stage % realStageNum = rank)
    (hpeer : (stage + 1) % realStageNum ≠ rank) (hslot : slot.isCompute = true) :
    [.step ⟨micro, .bwdRecv, stage⟩, slot].Sublist
        (addSendRecv .loop stageNum realStageNum scheduler rank) ↔
      ∃ s t, s < t ∧ EmittedIn (scheduler rank) slot t ∧
        InColumn (scheduler ((stage + 1) % realStageNum)) ⟨micro, .bwd, stage + 1⟩ s := by
  rw [addSendRecv_pair_iff hcompute hrank stageNum rfl (isLoad_of_isCompute hslot),
    comm_before_iff hcompute hrank rfl hslot]
  refine exists_congr fun s => exists_congr fun t => and_congr_right fun _ =>
    and_congr_right fun _ => ?_
  rw [mem_commsAt]
  constructor
  · rintro ⟨source, hsource, step, hcolumn, hmem⟩
    have hspec := (hcolumn.spec hcompute hsource).2
    rcases (mem_insertCommsForStep hspec).mp hmem with
      ⟨-, -, -, ⟨-, h | h⟩ | ⟨-, h | h⟩⟩ | ⟨htype, hpos, -, ⟨-, h⟩ | ⟨-, h⟩⟩ <;>
      simp only [Slot.step.injEq, MetaStep.mk.injEq, reduceCtorEq, false_and, and_false,
        true_and] at h
    obtain ⟨hmicro, hstage⟩ := h
    obtain ⟨micro', type, stage'⟩ := step
    obtain rfl : type = .bwd := htype
    obtain rfl : micro = micro' := hmicro
    obtain rfl : stage + 1 = stage' := by
      dsimp only at hpos hstage
      omega
    obtain rfl : (stage + 1) % realStageNum = source := hspec
    exact hcolumn
  · intro hcolumn
    refine ⟨_, Nat.mod_lt _ (by omega), _, hcolumn, (mem_insertCommsForStep rfl).mpr
      (Or.inr ⟨rfl, Nat.succ_pos _, ?_, Or.inr ⟨howner.symm, rfl⟩⟩)⟩
    rw [Nat.add_sub_cancel, howner]
    exact hpeer.symm

theorem send_after_slot (hnodup : ((scheduler rank).flatMap Slot.leafSteps).Nodup)
    {type sendType : MetaStepType}
    (hsend : sendType = .fwdSend ∧ type = .fwd ∨ sendType = .bwdSend ∧ type = .bwd)
    (hmem : .step ⟨micro, sendType, stage⟩ ∈
      addSendRecv .loop stageNum realStageNum scheduler rank) :
    ∃ slot ∈ scheduler rank, ⟨micro, type, stage⟩ ∈ slot.leafSteps ∧
      [slot, .step ⟨micro, sendType, stage⟩].Sublist
        (addSendRecv .loop stageNum realStageNum scheduler rank) := by
  have hload : (Slot.step ⟨micro, sendType, stage⟩).isLoad = false := by
    rcases hsend with ⟨rfl, rfl⟩ | ⟨rfl, rfl⟩ <;> rfl
  have hcomm : (Slot.step ⟨micro, sendType, stage⟩).isCompute = false := by
    rcases hsend with ⟨rfl, rfl⟩ | ⟨rfl, rfl⟩ <;> rfl
  have hscan := (mem_insertDataload_iff hload).mp hmem
  rw [← map_snd_taggedScan] at hscan
  obtain ⟨⟨place, slot⟩, hplace, rfl⟩ := mem_map.mp hscan
  obtain ⟨t, ⟨-, hemitted⟩ | ⟨-, hat⟩⟩ := (mem_taggedScan hrank).mp hplace
  · simp [isCompute_of_mem hcompute hrank hemitted.mem] at hcomm
  obtain ⟨source, hsource, step, hcolumn, hinsert⟩ := mem_commsAt.mp hat
  have hown : source = rank ∧ step = ⟨micro, type, stage⟩ := by
    obtain ⟨micro', type', stage'⟩ := step
    rcases hsend with ⟨rfl, rfl⟩ | ⟨rfl, rfl⟩ <;>
      rcases (mem_insertCommsForStep (hcolumn.spec hcompute hsource).2).mp hinsert with
        ⟨rfl, -, -, ⟨rfl, h | h⟩ | ⟨-, h | h⟩⟩ | ⟨rfl, -, -, ⟨rfl, h⟩ | ⟨-, h⟩⟩ <;>
      simp_all
  obtain ⟨rfl, rfl⟩ := hown
  have hleaf : ⟨micro, type, stage⟩ ∈ (scheduler source).flatMap Slot.leafSteps := by
    obtain ⟨item, hget, hstep⟩ := hcolumn
    rw [← filterMap_expandOverlapSlots]
    exact mem_filterMap.mpr ⟨item, mem_of_getElem? hget, hstep⟩
  obtain ⟨slot, hslot, hstep⟩ := mem_flatMap.mp hleaf
  obtain ⟨s, t', hs, ht', hle⟩ := exists_columns hslot hstep
  obtain rfl := ht'.unique hnodup hcolumn
  refine ⟨slot, hslot, hstep, ?_⟩
  rw [addSendRecv_pair_iff hcompute hrank stageNum
    (isLoad_of_isCompute (isCompute_of_mem hcompute hrank hslot)) hload]
  exact slot_before_comm hrank hle hs hat

end Members

end HyperParallel.Pipeline
