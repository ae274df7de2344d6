import HyperParallel.Foundation.ListOrder
import HyperParallel.Pipeline.Step

/-!
# The 1F1B schedule

Every stage warms up with forwards, then alternates backward and forward, and
cools down with backwards.  Each communication gets a stamp from its stage and
micro-batch alone; the order of every stage rises in the stamps, so that all
orders are the views of one list of events.
-/

namespace HyperParallel.Pipeline.OneFOneB

open Foundation List

def leaf (micro : Nat) (type : MetaStepType) (stage : Nat) : Slot := .step ⟨micro, type, stage⟩

/-- The order built so far, and the next forward and backward micro-batch. -/
structure OrderState where
  orderList : List Slot
  fwdIndex : Nat
  bwdIndex : Nat

def OrderState.emit (block : Nat → Nat → List Slot) (fwdStep bwdStep : Nat) (state : OrderState) :
    OrderState where
  orderList := state.orderList ++ block state.fwdIndex state.bwdIndex
  fwdIndex := state.fwdIndex + fwdStep
  bwdIndex := state.bwdIndex + bwdStep

section Order

variable (realStageNum microBatchNum stageIndex : Nat)

def warmupMicroBatches : Nat := min (realStageNum - stageIndex) microBatchNum

def sendPair (micro : Nat) : List Slot :=
  [leaf micro .dataSend stageIndex, leaf micro .fwdSend stageIndex]

def recvPair (micro : Nat) : List Slot :=
  [leaf micro .dataRecv stageIndex, leaf micro .fwdRecv stageIndex]

def warmupBlock (fwdIndex _bwdIndex : Nat) : List Slot :=
  [leaf fwdIndex .dataLoad stageIndex] ++
  (if stageIndex ≠ 0 then recvPair stageIndex fwdIndex else []) ++
  if stageIndex % 2 = 0 then
    [leaf fwdIndex .fwd stageIndex] ++
    if fwdIndex ≠ warmupMicroBatches realStageNum microBatchNum stageIndex - 1 then
      sendPair stageIndex fwdIndex
    else []
  else
    (if 0 < fwdIndex then sendPair stageIndex (fwdIndex - 1) else []) ++
    [leaf fwdIndex .fwd stageIndex]

/-- The last send of a warmup that the micro-batches do not fill. -/
def shortBlock (fwdIndex _bwdIndex : Nat) : List Slot := sendPair stageIndex (fwdIndex - 1)

def steadyBlock (fwdIndex bwdIndex : Nat) : List Slot :=
  (if stageIndex ≠ realStageNum - 1 then
    leaf bwdIndex .bwdRecv stageIndex :: sendPair stageIndex (fwdIndex - 1)
  else []) ++
  [leaf bwdIndex .bwd stageIndex, leaf fwdIndex .dataLoad stageIndex] ++
  (if stageIndex ≠ 0 then
    leaf bwdIndex .bwdSend stageIndex :: recvPair stageIndex fwdIndex
  else []) ++
  [leaf fwdIndex .fwd stageIndex]

def cooldownBlock (fwdIndex bwdIndex : Nat) : List Slot :=
  (if stageIndex ≠ realStageNum - 1 then
    leaf bwdIndex .bwdRecv stageIndex ::
    if bwdIndex = microBatchNum - warmupMicroBatches realStageNum microBatchNum stageIndex ∧
        fwdIndex ≤ microBatchNum then
      sendPair stageIndex (fwdIndex - 1)
    else []
  else []) ++
  [leaf bwdIndex .bwd stageIndex] ++
  if stageIndex ≠ 0 then [leaf bwdIndex .bwdSend stageIndex] else []

def constructStageOrder : List Slot :=
  let warmup := warmupMicroBatches realStageNum microBatchNum stageIndex
  let warm := (OrderState.emit (warmupBlock realStageNum microBatchNum stageIndex) 1 0)^[warmup]
    ⟨[], 0, 0⟩
  let filled :=
    if microBatchNum < realStageNum - stageIndex then warm.emit (shortBlock stageIndex) 1 0
    else warm
  let steady := (OrderState.emit (steadyBlock realStageNum stageIndex) 1 1)^[microBatchNum - warmup]
    filled
  let cool := (OrderState.emit (cooldownBlock realStageNum microBatchNum stageIndex) 0 1)^[warmup]
    steady
  cool.orderList

end Order

def constructExecOrder (realStageNum microBatchNum : Nat) : Schedule := fun rank =>
  if rank < realStageNum then constructStageOrder realStageNum microBatchNum rank else []

/-! ## The blocks of an order -/

theorem iterate_emit (block : Nat → Nat → List Slot) (fwdStep bwdStep n : Nat)
    (state : OrderState) :
    (OrderState.emit block fwdStep bwdStep)^[n] state =
      { orderList := state.orderList ++ (range n).flatMap fun k =>
          block (state.fwdIndex + fwdStep * k) (state.bwdIndex + bwdStep * k)
        fwdIndex := state.fwdIndex + fwdStep * n
        bwdIndex := state.bwdIndex + bwdStep * n } := by
  induction n with
  | zero => simp
  | succ n ih =>
    rw [Function.iterate_succ_apply', ih, OrderState.emit, range_succ, flatMap_append]
    simp [Nat.mul_succ, Nat.add_assoc]

section Blocks

variable (realStageNum microBatchNum stageIndex : Nat)

abbrev Short : Prop := microBatchNum < realStageNum - stageIndex

theorem constructStageOrder_eq :
    constructStageOrder realStageNum microBatchNum stageIndex =
      let warmup := warmupMicroBatches realStageNum microBatchNum stageIndex
      (range warmup).flatMap
        (fun k => warmupBlock realStageNum microBatchNum stageIndex k 0) ++
      (if Short realStageNum microBatchNum stageIndex then
        sendPair stageIndex (microBatchNum - 1) else []) ++
      (range (microBatchNum - warmup)).flatMap
        (fun k => steadyBlock realStageNum stageIndex (warmup + k) k) ++
      (range warmup).flatMap fun k =>
        cooldownBlock realStageNum microBatchNum stageIndex
          (if Short realStageNum microBatchNum stageIndex then microBatchNum + 1
            else microBatchNum)
          (microBatchNum - warmup + k) := by
  simp only [constructStageOrder]
  by_cases hshort : Short realStageNum microBatchNum stageIndex
  · have hwarm : warmupMicroBatches realStageNum microBatchNum stageIndex = microBatchNum := by
      simp only [warmupMicroBatches, Short] at *
      omega
    simp [iterate_emit, OrderState.emit, hshort, hwarm, shortBlock]
  · have hwarm : warmupMicroBatches realStageNum microBatchNum stageIndex ≤ microBatchNum := by
      simp only [warmupMicroBatches]
      omega
    simp [iterate_emit, hshort, Nat.add_sub_cancel' hwarm]

/-! ## Stamps -/

def fwdTime (stageIndex micro : Nat) : Nat :=
  if micro < warmupMicroBatches realStageNum microBatchNum stageIndex then stageIndex + micro
  else stageIndex + 2 * micro

def bwdTime (stageIndex micro : Nat) : Nat := 2 * realStageNum - 1 - stageIndex + 2 * micro

def sendPhase (stageIndex : Nat) : Nat := if stageIndex % 2 = 0 then 3 else 6

def loadPhase (stageIndex micro : Nat) : Nat :=
  if micro < warmupMicroBatches realStageNum microBatchNum stageIndex ∧ stageIndex % 2 = 0 then 5
  else 1

def stampOf (micro : Nat) (type : MetaStepType) (stageIndex : Nat) : Nat :=
  let fwdTime := fwdTime realStageNum microBatchNum
  match type with
  | .dataLoad => 10 * fwdTime stageIndex micro + loadPhase realStageNum microBatchNum stageIndex micro
  | .fwd => 10 * fwdTime stageIndex micro + 9
  | .bwd => 10 * bwdTime realStageNum stageIndex micro + 9
  | .dataSend => 10 * fwdTime (stageIndex + 1) micro + sendPhase stageIndex
  | .fwdSend => 10 * fwdTime (stageIndex + 1) micro + sendPhase stageIndex + 1
  | .dataRecv => 10 * fwdTime stageIndex micro + sendPhase (stageIndex - 1)
  | .fwdRecv => 10 * fwdTime stageIndex micro + sendPhase (stageIndex - 1) + 1
  | .bwdSend => 10 * bwdTime realStageNum (stageIndex - 1) micro + 2
  | .bwdRecv => 10 * bwdTime realStageNum stageIndex micro + 2
  | _ => 0

def stamp : Slot → Nat
  | .step ⟨micro, type, stage⟩ => stampOf realStageNum microBatchNum micro type stage
  | _ => 0

/-- A list that rises in its stamps, from `low` up to but not at `high`. -/
structure Rising (low high : Nat) (slots : List Slot) : Prop where
  sorted : slots.Pairwise fun a b =>
    stamp realStageNum microBatchNum a < stamp realStageNum microBatchNum b
  within : ∀ slot ∈ slots, low ≤ stamp realStageNum microBatchNum slot ∧
    stamp realStageNum microBatchNum slot < high

variable {realStageNum microBatchNum stageIndex}

theorem Rising.append {low mid mid' high : Nat} {front back : List Slot}
    (hfront : Rising realStageNum microBatchNum low mid front)
    (hback : Rising realStageNum microBatchNum mid' high back) (hmid : mid ≤ mid')
    (hlow : low ≤ mid') (hhigh : mid ≤ high) :
    Rising realStageNum microBatchNum low high (front ++ back) where
  sorted := List.pairwise_append.mpr ⟨hfront.sorted, hback.sorted, fun a ha b hb => by
    have := hfront.within a ha
    have := hback.within b hb
    omega⟩
  within slot hslot := by
    rcases mem_append.mp hslot with h | h
    · have := hfront.within slot h
      omega
    · have := hback.within slot h
      omega

theorem Rising.mono {low low' high high' : Nat} {slots : List Slot}
    (h : Rising realStageNum microBatchNum low high slots) (hlow : low' ≤ low)
    (hhigh : high ≤ high') : Rising realStageNum microBatchNum low' high' slots :=
  ⟨h.sorted, fun slot hslot => by
    have := h.within slot hslot
    omega⟩

theorem Rising.nil {low high : Nat} : Rising realStageNum microBatchNum low high [] :=
  ⟨.nil, by simp⟩

theorem Rising.flatMap (edge : Nat → Nat) {block : Nat → List Slot} {n : Nat}
    (hedge : ∀ k < n, edge k ≤ edge (k + 1))
    (hblock : ∀ k < n, Rising realStageNum microBatchNum (edge k) (edge (k + 1)) (block k)) :
    Rising realStageNum microBatchNum (edge 0) (edge n) ((range n).flatMap block) := by
  induction n with
  | zero => exact .nil
  | succ n ih =>
    have hmono : edge 0 ≤ edge n := by
      clear ih hblock
      induction n with
      | zero => exact Nat.le_refl _
      | succ n ih => exact Nat.le_trans (ih fun k hk => hedge k (by omega)) (hedge n (by omega))
    rw [range_succ, flatMap_append, flatMap_singleton]
    exact (ih (fun k hk => hedge k (by omega)) fun k hk => hblock k (by omega)).append
      (hblock n (by omega)) (Nat.le_refl _) hmono (hedge n (by omega))

def warmupEdge (realStageNum microBatchNum stageIndex k : Nat) : Nat :=
  if k < warmupMicroBatches realStageNum microBatchNum stageIndex then
    10 * (stageIndex + k) + if stageIndex % 2 = 0 then 5 else 1
  else 10 * (stageIndex + k)

@[simp] theorem stamp_leaf (micro : Nat) (type : MetaStepType) (stage : Nat) :
    stamp realStageNum microBatchNum (leaf micro type stage) =
      stampOf realStageNum microBatchNum micro type stage := rfl

theorem sendPhase_of_even (h : stageIndex % 2 = 0) : sendPhase stageIndex = 3 := if_pos h

theorem sendPhase_of_odd (h : ¬stageIndex % 2 = 0) : sendPhase stageIndex = 6 := if_neg h

theorem sendPhase_pred_of_even (h : stageIndex % 2 = 0) (hpos : stageIndex ≠ 0) :
    sendPhase (stageIndex - 1) = 6 := if_neg (by omega)

theorem sendPhase_pred_of_odd (h : ¬stageIndex % 2 = 0) : sendPhase (stageIndex - 1) = 3 :=
  if_pos (by omega)

variable {k : Nat}

theorem fwdTime_of_warmup
    (hk : k < warmupMicroBatches realStageNum microBatchNum stageIndex) :
    fwdTime realStageNum microBatchNum stageIndex k = stageIndex + k := if_pos hk

theorem fwdTime_succ_of_warmup
    (hk : k + 1 < warmupMicroBatches realStageNum microBatchNum stageIndex) :
    fwdTime realStageNum microBatchNum (stageIndex + 1) k = stageIndex + 1 + k := by
  refine if_pos ?_
  simp only [warmupMicroBatches] at hk ⊢
  omega

theorem fwdTime_succ_of_short (hshort : Short realStageNum microBatchNum stageIndex)
    (hk : k < microBatchNum) :
    fwdTime realStageNum microBatchNum (stageIndex + 1) k = stageIndex + 1 + k := by
  refine if_pos ?_
  simp only [warmupMicroBatches, Short] at hshort ⊢
  omega

theorem fwdTime_of_steady
    (hk : warmupMicroBatches realStageNum microBatchNum stageIndex ≤ k) :
    fwdTime realStageNum microBatchNum stageIndex k = stageIndex + 2 * k := if_neg (by omega)

theorem fwdTime_succ_of_steady (hlong : ¬Short realStageNum microBatchNum stageIndex)
    (hstage : stageIndex + 1 < realStageNum)
    (hk : warmupMicroBatches realStageNum microBatchNum stageIndex ≤ k + 1) :
    fwdTime realStageNum microBatchNum (stageIndex + 1) k = stageIndex + 1 + 2 * k := by
  refine if_neg ?_
  simp only [warmupMicroBatches, Short] at hlong hk ⊢
  omega

theorem leaf_rising (realStageNum microBatchNum micro : Nat) (type : MetaStepType) (stage : Nat) :
    Rising realStageNum microBatchNum (stampOf realStageNum microBatchNum micro type stage)
      (stampOf realStageNum microBatchNum micro type stage + 1) [leaf micro type stage] :=
  ⟨List.pairwise_singleton _ _, by simp⟩

theorem sendPair_rising (realStageNum microBatchNum stageIndex micro : Nat) :
    Rising realStageNum microBatchNum
      (10 * fwdTime realStageNum microBatchNum (stageIndex + 1) micro + sendPhase stageIndex)
      (10 * fwdTime realStageNum microBatchNum (stageIndex + 1) micro + sendPhase stageIndex + 2)
      (sendPair stageIndex micro) :=
  (leaf_rising _ _ micro .dataSend stageIndex).append (leaf_rising _ _ micro .fwdSend stageIndex)
    (Nat.le_refl _) (Nat.le_succ _) (Nat.le_succ _)

theorem recvPair_rising (realStageNum microBatchNum stageIndex micro : Nat) :
    Rising realStageNum microBatchNum
      (10 * fwdTime realStageNum microBatchNum stageIndex micro + sendPhase (stageIndex - 1))
      (10 * fwdTime realStageNum microBatchNum stageIndex micro + sendPhase (stageIndex - 1) + 2)
      (recvPair stageIndex micro) :=
  (leaf_rising _ _ micro .dataRecv stageIndex).append (leaf_rising _ _ micro .fwdRecv stageIndex)
    (Nat.le_refl _) (Nat.le_succ _) (Nat.le_succ _)

theorem Rising.ite {low high : Nat} {slots : List Slot} {c : Prop} [Decidable c]
    (h : c → Rising realStageNum microBatchNum low high slots) :
    Rising realStageNum microBatchNum low high (if c then slots else []) := by
  split
  · rename_i hc
    exact h hc
  · exact .nil

theorem recvBefore_rising (realStageNum microBatchNum stageIndex k : Nat) :
    Rising realStageNum microBatchNum
      (10 * fwdTime realStageNum microBatchNum stageIndex k + if stageIndex % 2 = 0 then 6 else 3)
      (10 * fwdTime realStageNum microBatchNum stageIndex k + if stageIndex % 2 = 0 then 8 else 5)
      (if stageIndex ≠ 0 then recvPair stageIndex k else []) := by
  refine Rising.ite fun hpos => (recvPair_rising _ _ _ k).mono ?_ ?_
  · by_cases heven : stageIndex % 2 = 0
    · rw [sendPhase_pred_of_even heven hpos, if_pos heven]
    · rw [sendPhase_pred_of_odd heven, if_neg heven]
  · by_cases heven : stageIndex % 2 = 0
    · rw [sendPhase_pred_of_even heven hpos, if_pos heven]
    · rw [sendPhase_pred_of_odd heven, if_neg heven]

theorem warmupBlock_rising
    (hk : k < warmupMicroBatches realStageNum microBatchNum stageIndex) :
    Rising realStageNum microBatchNum (warmupEdge realStageNum microBatchNum stageIndex k)
      (warmupEdge realStageNum microBatchNum stageIndex (k + 1))
      (warmupBlock realStageNum microBatchNum stageIndex k 0) := by
  have hfwd := fwdTime_of_warmup hk
  have hload := leaf_rising realStageNum microBatchNum k .dataLoad stageIndex
  have hrecv := recvBefore_rising realStageNum microBatchNum stageIndex k
  have hrun := leaf_rising realStageNum microBatchNum k .fwd stageIndex
  simp only [stampOf, hfwd] at hload hrecv hrun
  have hedge : 10 * (stageIndex + k + 1) ≤
      warmupEdge realStageNum microBatchNum stageIndex (k + 1) := by
    simp only [warmupEdge]
    split <;> omega
  rw [warmupBlock]
  by_cases heven : stageIndex % 2 = 0
  · have hphase : loadPhase realStageNum microBatchNum stageIndex k = 5 := if_pos ⟨hk, heven⟩
    rw [hphase] at hload
    simp only [heven, if_true] at hrecv ⊢
    rw [warmupEdge, if_pos hk, if_pos heven]
    have hsend : Rising realStageNum microBatchNum (10 * (stageIndex + k + 1) + 3)
        (warmupEdge realStageNum microBatchNum stageIndex (k + 1))
        (if k ≠ warmupMicroBatches realStageNum microBatchNum stageIndex - 1 then
          sendPair stageIndex k else []) := by
      refine Rising.ite fun hlast => ?_
      have hnext : k + 1 < warmupMicroBatches realStageNum microBatchNum stageIndex := by omega
      have hsend := sendPair_rising realStageNum microBatchNum stageIndex k
      rw [fwdTime_succ_of_warmup hnext, sendPhase_of_even heven] at hsend
      rw [warmupEdge, if_pos hnext, if_pos heven]
      exact hsend.mono (by omega) (by omega)
    exact (hload.append hrecv (by omega) (by omega) (by omega)).append
      (hrun.append hsend (by omega) (by omega) (by omega)) (by omega) (by omega) (by omega)
  · have hphase : loadPhase realStageNum microBatchNum stageIndex k = 1 :=
      if_neg fun h => heven h.2
    rw [hphase] at hload
    simp only [heven, if_false] at hrecv ⊢
    rw [warmupEdge, if_pos hk, if_neg heven]
    have hsend : Rising realStageNum microBatchNum (10 * (stageIndex + k) + 6)
        (10 * (stageIndex + k) + 8) (if 0 < k then sendPair stageIndex (k - 1) else []) := by
      refine Rising.ite fun hpos => ?_
      have hsend := sendPair_rising realStageNum microBatchNum stageIndex (k - 1)
      rw [fwdTime_succ_of_warmup (by omega), sendPhase_of_odd heven] at hsend
      exact hsend.mono (by omega) (by omega)
    have hlast := hrun.mono (Nat.le_refl _) (show _ ≤
      warmupEdge realStageNum microBatchNum stageIndex (k + 1) by omega)
    exact (hload.append hrecv (by omega) (by omega) (by omega)).append
      (hsend.append hlast (by omega) (by omega) (by omega)) (by omega) (by omega) (by omega)

theorem shortBlock_rising (hstage : stageIndex < realStageNum) (hmicro : 0 < microBatchNum) :
    Rising realStageNum microBatchNum
      (10 * (stageIndex + warmupMicroBatches realStageNum microBatchNum stageIndex))
      (10 * bwdTime realStageNum stageIndex 0)
      (if Short realStageNum microBatchNum stageIndex then
        sendPair stageIndex (microBatchNum - 1) else []) := by
  refine Rising.ite fun hshort => ?_
  have hsend := sendPair_rising realStageNum microBatchNum stageIndex (microBatchNum - 1)
  rw [fwdTime_succ_of_short hshort (by omega)] at hsend
  have hphase : sendPhase stageIndex ≤ 6 := by
    simp only [sendPhase]
    split <;> omega
  simp only [Short] at hshort
  refine hsend.mono ?_ ?_
  · simp only [warmupMicroBatches]
    omega
  · simp only [bwdTime]
    omega

theorem bwdRecv_sendPair_rising {k micro : Nat}
    (htime : fwdTime realStageNum microBatchNum (stageIndex + 1) micro =
      bwdTime realStageNum stageIndex k) :
    Rising realStageNum microBatchNum (10 * bwdTime realStageNum stageIndex k + 2)
      (10 * bwdTime realStageNum stageIndex k + 9)
      (leaf k .bwdRecv stageIndex :: sendPair stageIndex micro) := by
  have hsend := sendPair_rising realStageNum microBatchNum stageIndex micro
  have hrecv := leaf_rising realStageNum microBatchNum k .bwdRecv stageIndex
  rw [htime] at hsend
  simp only [stampOf] at hrecv
  have hphase : 3 ≤ sendPhase stageIndex ∧ sendPhase stageIndex ≤ 6 := by
    simp only [sendPhase]
    split <;> omega
  have hlast := hsend.mono (Nat.le_refl _) (show _ ≤
    10 * bwdTime realStageNum stageIndex k + 9 by omega)
  exact hrecv.append hlast (by omega) (by omega) (by omega)

theorem bwdSend_rising (microBatchNum : Nat) (hstage : stageIndex < realStageNum)
    (hpos : stageIndex ≠ 0) (k : Nat) :
    Rising realStageNum microBatchNum (10 * bwdTime realStageNum stageIndex k + 12)
      (10 * bwdTime realStageNum stageIndex k + 13) [leaf k .bwdSend stageIndex] := by
  have hsend := leaf_rising realStageNum microBatchNum k .bwdSend stageIndex
  have htime : bwdTime realStageNum (stageIndex - 1) k =
      bwdTime realStageNum stageIndex k + 1 := by
    simp only [bwdTime]
    omega
  simp only [stampOf, htime] at hsend
  exact hsend.mono (by omega) (by omega)

theorem steadyBlock_rising (hstage : stageIndex < realStageNum)
    (hlong : ¬Short realStageNum microBatchNum stageIndex) (k : Nat) :
    Rising realStageNum microBatchNum (10 * bwdTime realStageNum stageIndex k)
      (10 * bwdTime realStageNum stageIndex (k + 1))
      (steadyBlock realStageNum stageIndex
        (warmupMicroBatches realStageNum microBatchNum stageIndex + k) k) := by
  set warmup := warmupMicroBatches realStageNum microBatchNum stageIndex with hwarmup
  have hwarm : warmup = realStageNum - stageIndex := by
    simp only [hwarmup, warmupMicroBatches, Short] at hlong ⊢
    omega
  have hfwd : fwdTime realStageNum microBatchNum stageIndex (warmup + k) =
      bwdTime realStageNum stageIndex k + 1 := by
    rw [fwdTime_of_steady (by omega), bwdTime]
    omega
  have hphase : loadPhase realStageNum microBatchNum stageIndex (warmup + k) = 1 :=
    if_neg fun h => by omega
  have hnext : bwdTime realStageNum stageIndex (k + 1) = bwdTime realStageNum stageIndex k + 2 := by
    simp only [bwdTime]
    omega
  have hsend : Rising realStageNum microBatchNum (10 * bwdTime realStageNum stageIndex k + 2)
      (10 * bwdTime realStageNum stageIndex k + 9)
      (if stageIndex ≠ realStageNum - 1 then
        leaf k .bwdRecv stageIndex :: sendPair stageIndex (warmup + k - 1) else []) := by
    refine Rising.ite fun hlast => bwdRecv_sendPair_rising ?_
    rw [fwdTime_succ_of_steady hlong (by omega) (by omega), bwdTime]
    omega
  have hrecv : Rising realStageNum microBatchNum (10 * bwdTime realStageNum stageIndex k + 12)
      (10 * bwdTime realStageNum stageIndex k + 19)
      (if stageIndex ≠ 0 then
        leaf k .bwdSend stageIndex :: recvPair stageIndex (warmup + k) else []) := by
    refine Rising.ite fun hpos => ?_
    have hrecv := recvBefore_rising realStageNum microBatchNum stageIndex (warmup + k)
    rw [if_pos hpos, hfwd] at hrecv
    have hback := bwdSend_rising microBatchNum hstage hpos k
    exact hback.append (hrecv.mono (Nat.le_refl _) (by split <;> omega)) (by split <;> omega)
      (by split <;> omega) (by omega)
  have hbwd := leaf_rising realStageNum microBatchNum k .bwd stageIndex
  have hload := leaf_rising realStageNum microBatchNum (warmup + k) .dataLoad stageIndex
  have hrun := leaf_rising realStageNum microBatchNum (warmup + k) .fwd stageIndex
  simp only [stampOf, hfwd, hphase] at hbwd hload hrun
  rw [steadyBlock, hnext]
  have hmiddle := hbwd.append hload (by omega) (by omega) (by omega)
  have hlast := hrun.mono (Nat.le_refl _) (show _ ≤
    10 * (bwdTime realStageNum stageIndex k + 2) by omega)
  have hall := ((hsend.append hmiddle (by omega) (by omega) (by omega)).append hrecv (by omega)
    (by omega) (by omega)).append hlast (by omega) (by omega) (by omega)
  exact hall.mono (by omega) (Nat.le_refl _)

theorem cooldownBlock_rising (microBatchNum : Nat) (hstage : stageIndex < realStageNum) (k : Nat) :
    Rising realStageNum microBatchNum (10 * bwdTime realStageNum stageIndex k)
      (10 * bwdTime realStageNum stageIndex (k + 1))
      (cooldownBlock realStageNum microBatchNum stageIndex
        (if Short realStageNum microBatchNum stageIndex then microBatchNum + 1
          else microBatchNum) k) := by
  have hnext : bwdTime realStageNum stageIndex (k + 1) = bwdTime realStageNum stageIndex k + 2 := by
    simp only [bwdTime]
    omega
  have hbwd := leaf_rising realStageNum microBatchNum k .bwd stageIndex
  simp only [stampOf] at hbwd
  have hsend : Rising realStageNum microBatchNum (10 * bwdTime realStageNum stageIndex k + 12)
      (10 * bwdTime realStageNum stageIndex k + 20)
      (if stageIndex ≠ 0 then [leaf k .bwdSend stageIndex] else []) :=
    Rising.ite fun hpos => (bwdSend_rising microBatchNum hstage hpos k).mono (Nat.le_refl _) (by omega)
  rw [cooldownBlock, hnext]
  have hrecv : Rising realStageNum microBatchNum (10 * bwdTime realStageNum stageIndex k + 2)
      (10 * bwdTime realStageNum stageIndex k + 9)
      (if stageIndex ≠ realStageNum - 1 then
        leaf k .bwdRecv stageIndex ::
        if k = microBatchNum - warmupMicroBatches realStageNum microBatchNum stageIndex ∧
            (if Short realStageNum microBatchNum stageIndex then microBatchNum + 1
              else microBatchNum) ≤ microBatchNum then
          sendPair stageIndex ((if Short realStageNum microBatchNum stageIndex then
            microBatchNum + 1 else microBatchNum) - 1)
        else []
      else []) := by
    refine Rising.ite fun hlast => ?_
    by_cases hlong : Short realStageNum microBatchNum stageIndex
    · -- the last forward is sent already
      rw [if_pos hlong, if_neg (by omega)]
      exact (leaf_rising _ _ k .bwdRecv stageIndex).mono (Nat.le_refl _) (by simp [stampOf])
    · rw [if_neg hlong]
      by_cases hfirst : k = microBatchNum -
          warmupMicroBatches realStageNum microBatchNum stageIndex
      · rw [if_pos ⟨hfirst, Nat.le_refl _⟩]
        refine bwdRecv_sendPair_rising ?_
        have hwarm : warmupMicroBatches realStageNum microBatchNum stageIndex =
            realStageNum - stageIndex := by
          simp only [warmupMicroBatches, Short] at hlong ⊢
          omega
        simp only [Short] at hlong
        rw [fwdTime_succ_of_steady (by simpa [Short] using hlong) (by omega) (by omega), bwdTime]
        omega
      · rw [if_neg fun h => hfirst h.1]
        exact (leaf_rising _ _ k .bwdRecv stageIndex).mono (Nat.le_refl _) (by simp [stampOf])
  have hall := (hrecv.append hbwd (by omega) (by omega) (by omega)).append hsend (by omega)
    (by omega) (by omega)
  exact hall.mono (by omega) (by omega)

theorem constructStageOrder_rising (hstage : stageIndex < realStageNum)
    (hmicro : 0 < microBatchNum) :
    ∃ low high, Rising realStageNum microBatchNum low high
      (constructStageOrder realStageNum microBatchNum stageIndex) := by
  rw [constructStageOrder_eq]
  set warmup := warmupMicroBatches realStageNum microBatchNum stageIndex with hwarmup
  have hwarm : warmup = min (realStageNum - stageIndex) microBatchNum := hwarmup
  have hwarmPhase := Rising.flatMap (warmupEdge realStageNum microBatchNum stageIndex)
    (fun k (hk : k < warmup) => by
      simp only [warmupEdge]
      split_ifs <;> omega)
    fun k hk => warmupBlock_rising hk
  rw [show warmupEdge realStageNum microBatchNum stageIndex warmup =
    10 * (stageIndex + warmup) from if_neg (Nat.lt_irrefl _)] at hwarmPhase
  have hstart : warmupEdge realStageNum microBatchNum stageIndex 0 ≤
      10 * (stageIndex + warmup) := by
    simp only [warmupEdge]
    split_ifs <;> omega
  have hsteady := Rising.flatMap (n := microBatchNum - warmup)
    (fun k => 10 * bwdTime realStageNum stageIndex k)
    (fun k _ => by
      simp only [bwdTime]
      omega)
    fun k hk => steadyBlock_rising hstage
      (show ¬Short realStageNum microBatchNum stageIndex by
        simp only [Short]
        omega) k
  have hcool := Rising.flatMap (n := warmup)
    (fun k => 10 * bwdTime realStageNum stageIndex (microBatchNum - warmup + k))
    (fun k _ => by
      simp only [bwdTime]
      omega)
    fun k _ => cooldownBlock_rising microBatchNum hstage (microBatchNum - warmup + k)
  have hshort := shortBlock_rising hstage hmicro
  rw [← hwarmup] at hshort
  have hlong : 10 * (stageIndex + warmup) ≤ 10 * bwdTime realStageNum stageIndex 0 := by
    simp only [bwdTime]
    omega
  have hrise : 10 * bwdTime realStageNum stageIndex 0 ≤
      10 * bwdTime realStageNum stageIndex (microBatchNum - warmup) := by
    simp only [bwdTime]
    omega
  have hrest : 10 * bwdTime realStageNum stageIndex (microBatchNum - warmup) ≤
      10 * bwdTime realStageNum stageIndex (microBatchNum - warmup + warmup) := by
    simp only [bwdTime]
    omega
  have hfront := hwarmPhase.append hshort (Nat.le_refl _) hstart hlong
  have hmiddle := hfront.append hsteady (Nat.le_refl _) (hstart.trans hlong) hrise
  exact ⟨_, _, hmiddle.append hcool (Nat.le_refl _) ((hstart.trans hlong).trans hrise) hrest⟩

/-! ## What an order contains -/

def stageSteps (realStageNum stageIndex micro : Nat) : List Slot :=
  [leaf micro .dataLoad stageIndex, leaf micro .fwd stageIndex, leaf micro .bwd stageIndex] ++
  (if stageIndex ≠ 0 then recvPair stageIndex micro ++ [leaf micro .bwdSend stageIndex] else []) ++
  if stageIndex ≠ realStageNum - 1 then
    sendPair stageIndex micro ++ [leaf micro .bwdRecv stageIndex] else []

theorem mem_warmupPhase (warmup : Nat)
    (hwarmup : warmup = warmupMicroBatches realStageNum microBatchNum stageIndex) (slot : Slot) :
    slot ∈ (range warmup).flatMap
        (fun k => warmupBlock realStageNum microBatchNum stageIndex k 0) ↔
      (∃ k < warmup, slot = leaf k .dataLoad stageIndex ∨ slot = leaf k .fwd stageIndex ∨
        stageIndex ≠ 0 ∧ slot ∈ recvPair stageIndex k) ∨
      ∃ k, k + 1 < warmup ∧ slot ∈ sendPair stageIndex k := by
  simp only [mem_flatMap, mem_range, warmupBlock, ← hwarmup]
  by_cases heven : stageIndex % 2 = 0
  · simp only [heven, if_true, mem_append, mem_ite_nil_right, mem_singleton]
    constructor
    · rintro ⟨k, hk, (h | h) | h | h⟩
      · exact Or.inl ⟨k, hk, Or.inl h⟩
      · exact Or.inl ⟨k, hk, Or.inr (Or.inr h)⟩
      · exact Or.inl ⟨k, hk, Or.inr (Or.inl h)⟩
      · exact Or.inr ⟨k, by omega, h.2⟩
    · rintro (⟨k, hk, h | h | h⟩ | ⟨k, hk, h⟩)
      · exact ⟨k, hk, Or.inl (Or.inl h)⟩
      · exact ⟨k, hk, Or.inr (Or.inl h)⟩
      · exact ⟨k, hk, Or.inl (Or.inr h)⟩
      · exact ⟨k, by omega, Or.inr (Or.inr ⟨by omega, h⟩)⟩
  · simp only [heven, if_false, mem_append, mem_ite_nil_right, mem_singleton]
    constructor
    · rintro ⟨k, hk, (h | h) | h | h⟩
      · exact Or.inl ⟨k, hk, Or.inl h⟩
      · exact Or.inl ⟨k, hk, Or.inr (Or.inr h)⟩
      · exact Or.inr ⟨k - 1, by omega, h.2⟩
      · exact Or.inl ⟨k, hk, Or.inr (Or.inl h)⟩
    · rintro (⟨k, hk, h | h | h⟩ | ⟨k, hk, h⟩)
      · exact ⟨k, hk, Or.inl (Or.inl h)⟩
      · exact ⟨k, hk, Or.inr (Or.inr h)⟩
      · exact ⟨k, hk, Or.inl (Or.inr h)⟩
      · exact ⟨k + 1, hk, Or.inr (Or.inl ⟨by omega, h⟩)⟩

theorem mem_steadyBlock (fwdIndex bwdIndex : Nat) (slot : Slot) :
    slot ∈ steadyBlock realStageNum stageIndex fwdIndex bwdIndex ↔
      (slot = leaf bwdIndex .bwd stageIndex ∨
        stageIndex ≠ 0 ∧ slot = leaf bwdIndex .bwdSend stageIndex ∨
        stageIndex ≠ realStageNum - 1 ∧ slot = leaf bwdIndex .bwdRecv stageIndex) ∨
      (slot = leaf fwdIndex .dataLoad stageIndex ∨ slot = leaf fwdIndex .fwd stageIndex ∨
        stageIndex ≠ 0 ∧ slot ∈ recvPair stageIndex fwdIndex) ∨
      stageIndex ≠ realStageNum - 1 ∧ slot ∈ sendPair stageIndex (fwdIndex - 1) := by
  simp only [steadyBlock, mem_append, mem_ite_nil_right, mem_cons, not_mem_nil, or_false]
  tauto

theorem mem_cooldownBlock (fwdIndex bwdIndex : Nat) (slot : Slot) :
    slot ∈ cooldownBlock realStageNum microBatchNum stageIndex fwdIndex bwdIndex ↔
      (slot = leaf bwdIndex .bwd stageIndex ∨
        stageIndex ≠ 0 ∧ slot = leaf bwdIndex .bwdSend stageIndex ∨
        stageIndex ≠ realStageNum - 1 ∧ slot = leaf bwdIndex .bwdRecv stageIndex) ∨
      stageIndex ≠ realStageNum - 1 ∧
        (bwdIndex = microBatchNum - warmupMicroBatches realStageNum microBatchNum stageIndex ∧
          fwdIndex ≤ microBatchNum) ∧ slot ∈ sendPair stageIndex (fwdIndex - 1) := by
  simp only [cooldownBlock, mem_append, mem_ite_nil_right, mem_cons, not_mem_nil, or_false]
  tauto

theorem mem_stageSteps (micro : Nat) (slot : Slot) :
    slot ∈ stageSteps realStageNum stageIndex micro ↔
      (slot = leaf micro .bwd stageIndex ∨
        stageIndex ≠ 0 ∧ slot = leaf micro .bwdSend stageIndex ∨
        stageIndex ≠ realStageNum - 1 ∧ slot = leaf micro .bwdRecv stageIndex) ∨
      (slot = leaf micro .dataLoad stageIndex ∨ slot = leaf micro .fwd stageIndex ∨
        stageIndex ≠ 0 ∧ slot ∈ recvPair stageIndex micro) ∨
      stageIndex ≠ realStageNum - 1 ∧ slot ∈ sendPair stageIndex micro := by
  simp only [stageSteps, mem_append, mem_ite_nil_right, mem_cons, not_mem_nil, or_false]
  tauto

theorem mem_constructStageOrder (hstage : stageIndex < realStageNum) (hmicro : 0 < microBatchNum)
    (slot : Slot) :
    slot ∈ constructStageOrder realStageNum microBatchNum stageIndex ↔
      ∃ micro < microBatchNum, slot ∈ stageSteps realStageNum stageIndex micro := by
  rw [constructStageOrder_eq]
  set warmup := warmupMicroBatches realStageNum microBatchNum stageIndex with hwarmup
  have hwarm : warmup = min (realStageNum - stageIndex) microBatchNum := hwarmup
  simp only [mem_append, mem_warmupPhase warmup hwarmup, mem_flatMap, mem_range,
    mem_steadyBlock, mem_cooldownBlock, mem_ite_nil_right, mem_stageSteps, ← hwarmup, Short]
  constructor
  · rintro ((((⟨k, hk, h⟩ | ⟨k, hk, h⟩) | ⟨hshort, h⟩) | ⟨k, hk, h | h | h⟩) | ⟨k, hk, h | h⟩)
    · exact ⟨k, by omega, Or.inr (Or.inl h)⟩
    · exact ⟨k, by omega, Or.inr (Or.inr ⟨by omega, h⟩)⟩
    · exact ⟨microBatchNum - 1, by omega, Or.inr (Or.inr ⟨by omega, h⟩)⟩
    · exact ⟨k, by omega, Or.inl h⟩
    · exact ⟨warmup + k, by omega, Or.inr (Or.inl h)⟩
    · exact ⟨warmup + k - 1, by omega, Or.inr (Or.inr h)⟩
    · exact ⟨microBatchNum - warmup + k, by omega, Or.inl h⟩
    · obtain ⟨hlast, ⟨-, hle⟩, h⟩ := h
      have hlong : ¬microBatchNum < realStageNum - stageIndex := fun hshort => by
        rw [if_pos hshort] at hle
        omega
      rw [if_neg hlong] at h
      exact ⟨microBatchNum - 1, by omega, Or.inr (Or.inr ⟨hlast, h⟩)⟩
  · rintro ⟨micro, hlt, h | h | ⟨hlast, h⟩⟩
    · by_cases hsteady : micro < microBatchNum - warmup
      · exact Or.inl (Or.inr ⟨micro, hsteady, Or.inl h⟩)
      · refine Or.inr ⟨micro - (microBatchNum - warmup), by omega, Or.inl ?_⟩
        rwa [Nat.add_sub_cancel' (by omega)]
    · by_cases hwarming : micro < warmup
      · exact Or.inl (Or.inl (Or.inl (Or.inl ⟨micro, hwarming, h⟩)))
      · refine Or.inl (Or.inr ⟨micro - warmup, by omega, Or.inr (Or.inl ?_)⟩)
        rwa [Nat.add_sub_cancel' (by omega)]
    · -- the send comes with the forward after it, or last
      by_cases hwarming : micro + 1 < warmup
      · exact Or.inl (Or.inl (Or.inl (Or.inr ⟨micro, hwarming, h⟩)))
      by_cases hnext : micro + 1 < microBatchNum
      · refine Or.inl (Or.inr ⟨micro + 1 - warmup, by omega, Or.inr (Or.inr ⟨hlast, ?_⟩)⟩)
        rwa [Nat.add_sub_cancel' (by omega), Nat.add_sub_cancel]
      have hmicro : microBatchNum - 1 = micro := by omega
      by_cases hshort : microBatchNum < realStageNum - stageIndex
      · exact Or.inl (Or.inl (Or.inr ⟨hshort, by rwa [hmicro]⟩))
      · refine Or.inr ⟨0, by omega, Or.inr ⟨hlast, ⟨by omega, ?_⟩, ?_⟩⟩
        · rw [if_neg hshort]
        · rwa [if_neg hshort, hmicro]

/-! ## The orders together -/

variable (realStageNum microBatchNum)

/-- What goes over between two ranks, and when. -/
inductive Crosses : Nat → Nat → Nat → Payload → Prop where
  | data {stage micro : Nat} (hstage : stage + 1 < realStageNum) (hmicro : micro < microBatchNum) :
      Crosses (stampOf realStageNum microBatchNum micro .dataSend stage) stage (stage + 1)
        ⟨.data, stage, micro⟩
  | fwd {stage micro : Nat} (hstage : stage + 1 < realStageNum) (hmicro : micro < microBatchNum) :
      Crosses (stampOf realStageNum microBatchNum micro .fwdSend stage) stage (stage + 1)
        ⟨.fwd, stage, micro⟩
  | bwd {stage micro : Nat} (hstage : stage + 1 < realStageNum) (hmicro : micro < microBatchNum) :
      Crosses (stampOf realStageNum microBatchNum micro .bwdRecv stage) (stage + 1) stage
        ⟨.bwd, stage + 1, micro⟩

def stampedQueues (rank : Nat) : List (Nat × Rendezvous.Action Nat Slot Payload) :=
  (constructExecOrder realStageNum microBatchNum rank).map fun slot =>
    (stamp realStageNum microBatchNum slot, action realStageNum slot)

variable {realStageNum microBatchNum}

section

variable (hmicro : 0 < microBatchNum)

include hmicro

theorem mem_constructExecOrder (rank : Nat) (slot : Slot) :
    slot ∈ constructExecOrder realStageNum microBatchNum rank ↔
      rank < realStageNum ∧ ∃ micro < microBatchNum, slot ∈ stageSteps realStageNum rank micro := by
  rw [constructExecOrder]
  split
  · rename_i hrank
    rw [mem_constructStageOrder hrank hmicro, and_iff_right hrank]
  · rename_i hrank
    simp [hrank]

theorem constructExecOrder_sorted (rank : Nat) :
    (constructExecOrder realStageNum microBatchNum rank).Pairwise fun a b =>
      stamp realStageNum microBatchNum a < stamp realStageNum microBatchNum b := by
  rw [constructExecOrder]
  split
  · rename_i hrank
    obtain ⟨low, high, hrising⟩ := constructStageOrder_rising hrank hmicro
    exact hrising.sorted
  · exact .nil

theorem send_mem_iff (i j t : Nat) (x : Payload) :
    (t, .send j x) ∈ stampedQueues realStageNum microBatchNum i ↔
      Crosses realStageNum microBatchNum t i j x := by
  simp only [stampedQueues, mem_map, mem_constructExecOrder hmicro, Prod.mk.injEq]
  constructor
  · rintro ⟨slot, ⟨hi, micro, hlt, hslot⟩, rfl, haction⟩
    rcases (mem_stageSteps micro slot).mp hslot with
      (rfl | ⟨hpos, rfl⟩ | ⟨hlast, rfl⟩) | (rfl | rfl | ⟨hpos, hslot⟩) | ⟨hlast, hslot⟩
    · simp [leaf, action] at haction
    · obtain ⟨stage, rfl⟩ := Nat.exists_eq_add_one_of_ne_zero hpos
      simp only [leaf, action, Rendezvous.Action.send.injEq] at haction
      obtain ⟨rfl, rfl⟩ := haction
      rw [Nat.add_sub_cancel, Nat.mod_eq_of_lt (by omega)]
      exact .bwd hi hlt
    · simp [leaf, action] at haction
    · simp [leaf, action] at haction
    · simp [leaf, action] at haction
    · simp only [recvPair, mem_cons, not_mem_nil, or_false] at hslot
      rcases hslot with rfl | rfl <;> simp [leaf, action] at haction
    · have hnext : i + 1 < realStageNum := by omega
      simp only [sendPair, mem_cons, not_mem_nil, or_false] at hslot
      rcases hslot with rfl | rfl <;>
        simp only [leaf, action, Rendezvous.Action.send.injEq] at haction <;>
        obtain ⟨rfl, rfl⟩ := haction <;>
        rw [Nat.mod_eq_of_lt hnext]
      · exact .data hnext hlt
      · exact .fwd hnext hlt
  · intro hcross
    cases hcross with
    | @data _ micro hstage hlt =>
      refine ⟨leaf micro .dataSend i, ⟨by omega, micro, hlt, ?_⟩, rfl, ?_⟩
      · simp [mem_stageSteps, sendPair, show i ≠ realStageNum - 1 by omega]
      · simp [leaf, action, Nat.mod_eq_of_lt hstage]
    | @fwd _ micro hstage hlt =>
      refine ⟨leaf micro .fwdSend i, ⟨by omega, micro, hlt, ?_⟩, rfl, ?_⟩
      · simp [mem_stageSteps, sendPair, show i ≠ realStageNum - 1 by omega]
      · simp [leaf, action, Nat.mod_eq_of_lt hstage]
    | @bwd _ micro hstage hlt =>
      refine ⟨leaf micro .bwdSend (j + 1), ⟨hstage, micro, hlt, ?_⟩, rfl, ?_⟩
      · simp [mem_stageSteps]
      · simp [leaf, action, Nat.mod_eq_of_lt (show j < realStageNum by omega)]

theorem recv_mem_iff (i j t : Nat) (x : Payload) :
    (t, .recv i x) ∈ stampedQueues realStageNum microBatchNum j ↔
      Crosses realStageNum microBatchNum t i j x := by
  simp only [stampedQueues, mem_map, mem_constructExecOrder hmicro, Prod.mk.injEq]
  constructor
  · rintro ⟨slot, ⟨hj, micro, hlt, hslot⟩, rfl, haction⟩
    rcases (mem_stageSteps micro slot).mp hslot with
      (rfl | ⟨hpos, rfl⟩ | ⟨hlast, rfl⟩) | (rfl | rfl | ⟨hpos, hslot⟩) | ⟨hlast, hslot⟩
    · simp [leaf, action] at haction
    · simp [leaf, action] at haction
    · have hnext : j + 1 < realStageNum := by omega
      simp only [leaf, action, Rendezvous.Action.recv.injEq] at haction
      obtain ⟨rfl, rfl⟩ := haction
      rw [Nat.mod_eq_of_lt hnext]
      exact .bwd hnext hlt
    · simp [leaf, action] at haction
    · simp [leaf, action] at haction
    · obtain ⟨stage, rfl⟩ := Nat.exists_eq_add_one_of_ne_zero hpos
      simp only [recvPair, mem_cons, not_mem_nil, or_false] at hslot
      rcases hslot with rfl | rfl <;>
        simp only [leaf, action, Rendezvous.Action.recv.injEq, Nat.add_sub_cancel] at haction <;>
        obtain ⟨rfl, rfl⟩ := haction <;>
        rw [Nat.mod_eq_of_lt (show stage < realStageNum by omega)]
      · exact .data hj hlt
      · exact .fwd hj hlt
    · simp only [sendPair, mem_cons, not_mem_nil, or_false] at hslot
      rcases hslot with rfl | rfl <;> simp [leaf, action] at haction
  · intro hcross
    cases hcross with
    | @data _ micro hstage hlt =>
      refine ⟨leaf micro .dataRecv (i + 1), ⟨hstage, micro, hlt, ?_⟩, rfl, ?_⟩
      · simp [mem_stageSteps, recvPair]
      · simp [leaf, action, Nat.mod_eq_of_lt (show i < realStageNum by omega)]
    | @fwd _ micro hstage hlt =>
      refine ⟨leaf micro .fwdRecv (i + 1), ⟨hstage, micro, hlt, ?_⟩, rfl, ?_⟩
      · simp [mem_stageSteps, recvPair]
      · simp [leaf, action, Nat.mod_eq_of_lt (show i < realStageNum by omega)]
    | @bwd _ micro hstage hlt =>
      refine ⟨leaf micro .bwdRecv j, ⟨by omega, micro, hlt, ?_⟩, rfl, ?_⟩
      · simp [mem_stageSteps, show j ≠ realStageNum - 1 by omega]
      · simp [leaf, action, Nat.mod_eq_of_lt hstage]

theorem stampedQueues_timed :
    Rendezvous.Timed (stampedQueues realStageNum microBatchNum) where
  sorted rank := List.pairwise_map.mpr (constructExecOrder_sorted hmicro rank)
  send_iff_recv i j t x := by rw [send_mem_iff hmicro, recv_mem_iff hmicro]
  send_ne i j t x hsend := by cases (send_mem_iff hmicro i j t x).mp hsend <;> omega

end

theorem constructExecOrder_realizes (realStageNum : Nat) (hmicro : 0 < microBatchNum) :
    ∃ events, Rendezvous.Realizes events
      (actions realStageNum (constructExecOrder realStageNum microBatchNum)) := by
  have hranks : ∀ rank, rank ∉ Finset.range realStageNum →
      stampedQueues realStageNum microBatchNum rank = [] := by
    intro rank hrank
    rw [Finset.mem_range] at hrank
    simp [stampedQueues, constructExecOrder, hrank]
  obtain ⟨events, hevents⟩ := (stampedQueues_timed hmicro).realizes (Finset.range realStageNum) hranks
  refine ⟨events, fun rank => ?_⟩
  rw [← hevents rank]
  simp [actions, stampedQueues, Function.comp_def]

theorem fwdTime_lt_succ (realStageNum microBatchNum stage micro : Nat) :
    fwdTime realStageNum microBatchNum stage micro <
      fwdTime realStageNum microBatchNum (stage + 1) micro := by
  simp only [fwdTime, warmupMicroBatches, lt_min_iff]
  split_ifs <;> omega

theorem fwdTime_lt_bwdTime (microBatchNum : Nat) {stage : Nat} (hstage : stage < realStageNum)
    (micro : Nat) :
    fwdTime realStageNum microBatchNum stage micro < bwdTime realStageNum stage micro := by
  simp only [fwdTime, bwdTime]
  split <;> omega

theorem sendPhase_bounds (stage : Nat) : 3 ≤ sendPhase stage ∧ sendPhase stage ≤ 6 := by
  simp only [sendPhase]
  split <;> omega

theorem loadPhase_le (realStageNum microBatchNum stage micro : Nat) :
    loadPhase realStageNum microBatchNum stage micro ≤ 5 := by
  simp only [loadPhase]
  split <;> omega

theorem precedes (hmicro : 0 < microBatchNum) {stage micro : Nat} (hstage : stage < realStageNum)
    (hlt : micro < microBatchNum) {first second : Slot}
    (hfirst : first ∈ stageSteps realStageNum stage micro)
    (hsecond : second ∈ stageSteps realStageNum stage micro)
    (hstamp : stamp realStageNum microBatchNum first < stamp realStageNum microBatchNum second) :
    [first, second].Sublist (constructExecOrder realStageNum microBatchNum stage) :=
  ListOrder.pair_of_key_lt _ ((constructExecOrder_sorted hmicro stage).imp Nat.le_of_lt)
    ((mem_constructExecOrder hmicro stage _).mpr ⟨hstage, micro, hlt, hfirst⟩)
    ((mem_constructExecOrder hmicro stage _).mpr ⟨hstage, micro, hlt, hsecond⟩) hstamp

end Blocks

/-- What a schedule of one stage per rank has to do for its micro-batches. -/
structure DataCorrect (realStageNum microBatchNum : Nat) (schedule : Schedule) : Prop where
  fwdOnce : ∀ rank stage micro, stage < realStageNum → micro < microBatchNum →
    (schedule rank).count (leaf micro .fwd stage) = if rank = stage then 1 else 0
  bwdOnce : ∀ rank stage micro, stage < realStageNum → micro < microBatchNum →
    (schedule rank).count (leaf micro .bwd stage) = if rank = stage then 1 else 0
  fwdThenBwd : ∀ stage micro, stage < realStageNum → micro < microBatchNum →
    [leaf micro .fwd stage, leaf micro .bwd stage].Sublist (schedule stage)
  recvThenFwd : ∀ stage micro, 0 < stage → stage < realStageNum → micro < microBatchNum →
    [leaf micro .dataRecv stage, leaf micro .fwd stage].Sublist (schedule stage) ∧
      [leaf micro .fwdRecv stage, leaf micro .fwd stage].Sublist (schedule stage)
  recvThenBwd : ∀ stage micro, stage + 1 < realStageNum → micro < microBatchNum →
    [leaf micro .bwdRecv stage, leaf micro .bwd stage].Sublist (schedule stage)
  dataThenSend : ∀ stage micro, stage + 1 < realStageNum → micro < microBatchNum →
    [leaf micro .dataLoad stage, leaf micro .dataSend stage].Sublist (schedule stage) ∧
      (0 < stage → [leaf micro .dataRecv stage, leaf micro .dataSend stage].Sublist
        (schedule stage))
  fwdThenSend : ∀ stage micro, stage + 1 < realStageNum → micro < microBatchNum →
    [leaf micro .fwd stage, leaf micro .fwdSend stage].Sublist (schedule stage)
  bwdThenSend : ∀ stage micro, 0 < stage → stage < realStageNum → micro < microBatchNum →
    [leaf micro .bwd stage, leaf micro .bwdSend stage].Sublist (schedule stage)

theorem constructExecOrder_count {realStageNum microBatchNum : Nat} (hmicro : 0 < microBatchNum)
    {stage micro : Nat} {type : MetaStepType} (hstage : stage < realStageNum)
    (hlt : micro < microBatchNum)
    (hmem : leaf micro type stage ∈ stageSteps realStageNum stage micro) (rank : Nat) :
    (constructExecOrder realStageNum microBatchNum rank).count (leaf micro type stage) =
      if rank = stage then 1 else 0 := by
  split
  · rename_i hrank
    rw [hrank]
    exact ListOrder.count_of_sorted (constructExecOrder_sorted hmicro stage)
      ((mem_constructExecOrder hmicro stage _).mpr ⟨hstage, micro, hlt, hmem⟩)
  · rename_i hrank
    rw [count_eq_zero, mem_constructExecOrder hmicro]
    rintro ⟨-, micro', -, hmem'⟩
    simp [mem_stageSteps, recvPair, sendPair, leaf, Ne.symm hrank] at hmem'

theorem constructExecOrder_dataCorrect (realStageNum : Nat) {microBatchNum : Nat}
    (hmicro : 0 < microBatchNum) :
    DataCorrect realStageNum microBatchNum (constructExecOrder realStageNum microBatchNum) where
  fwdOnce rank stage micro hstage hlt :=
    constructExecOrder_count hmicro hstage hlt (by simp [mem_stageSteps]) rank
  bwdOnce rank stage micro hstage hlt :=
    constructExecOrder_count hmicro hstage hlt (by simp [mem_stageSteps]) rank
  fwdThenBwd stage micro hstage hlt := by
    refine precedes hmicro hstage hlt (by simp [mem_stageSteps]) (by simp [mem_stageSteps]) ?_
    have := fwdTime_lt_bwdTime microBatchNum hstage micro
    simp only [stamp_leaf, stampOf]
    omega
  recvThenFwd stage micro hpos hstage hlt := by
    have hphase := sendPhase_bounds (stage - 1)
    constructor <;>
      refine precedes hmicro hstage hlt (by simp [mem_stageSteps, recvPair]; omega)
        (by simp [mem_stageSteps]) ?_ <;>
      simp only [stamp_leaf, stampOf] <;>
      omega
  recvThenBwd stage micro hstage hlt := by
    refine precedes hmicro (by omega) hlt (by simp [mem_stageSteps]; omega)
      (by simp [mem_stageSteps]) ?_
    simp only [stamp_leaf, stampOf]
    omega
  dataThenSend stage micro hstage hlt := by
    have htime := fwdTime_lt_succ realStageNum microBatchNum stage micro
    have hphase := sendPhase_bounds stage
    have hsend : leaf micro .dataSend stage ∈ stageSteps realStageNum stage micro := by
      simp [mem_stageSteps, sendPair]
      omega
    refine ⟨precedes hmicro (by omega) hlt (by simp [mem_stageSteps]) hsend ?_, fun hpos =>
      precedes hmicro (by omega) hlt (by simp [mem_stageSteps, recvPair]; omega) hsend ?_⟩
    · have hload := loadPhase_le realStageNum microBatchNum stage micro
      simp only [stamp_leaf, stampOf]
      omega
    · have hphase' := sendPhase_bounds (stage - 1)
      simp only [stamp_leaf, stampOf]
      omega
  fwdThenSend stage micro hstage hlt := by
    refine precedes hmicro (by omega) hlt (by simp [mem_stageSteps])
      (by simp [mem_stageSteps, sendPair]; omega) ?_
    have htime := fwdTime_lt_succ realStageNum microBatchNum stage micro
    have hphase := sendPhase_bounds stage
    simp only [stamp_leaf, stampOf]
    omega
  bwdThenSend stage micro hpos hstage hlt := by
    refine precedes hmicro hstage hlt (by simp [mem_stageSteps])
      (by simp [mem_stageSteps]; omega) ?_
    simp only [stamp_leaf, stampOf, bwdTime]
    omega

/-! ## Main result -/

/--
1F1B computes every micro-batch, its sends and receives match in order, and from
any reachable state of rendezvous transport all ranks can still finish.
-/
theorem constructExecOrder_correct (realStageNum microBatchNum : Nat) (hmicro : 0 < microBatchNum) :
    DataCorrect realStageNum microBatchNum (constructExecOrder realStageNum microBatchNum) ∧
    let queues := actions realStageNum (constructExecOrder realStageNum microBatchNum)
    (∀ i j, Rendezvous.sentTo j (queues i) = Rendezvous.receivedFrom i (queues j)) ∧
    ∀ queues', Rendezvous.Reachable queues queues' →
      (¬Rendezvous.Finished queues' → ∃ queues'', Rendezvous.Step queues' queues'') ∧
      ∃ final, Rendezvous.Reachable queues' final ∧ Rendezvous.Finished final := by
  obtain ⟨events, hevents⟩ := constructExecOrder_realizes realStageNum hmicro
  refine ⟨constructExecOrder_dataCorrect realStageNum hmicro, hevents.sent_eq_received,
    fun queues' hreach => ⟨hevents.not_stuck hreach, ?_⟩⟩
  obtain ⟨events', hevents'⟩ := hevents.reachable hreach
  exact hevents'.finishes

theorem constructExecOrder_correct_three_four :
    DataCorrect 3 4 (constructExecOrder 3 4) ∧
    ∀ queues', Rendezvous.Reachable (actions 3 (constructExecOrder 3 4)) queues' →
      ∃ final, Rendezvous.Reachable queues' final ∧ Rendezvous.Finished final :=
  have h := constructExecOrder_correct 3 4 (by decide)
  ⟨h.1, fun queues' hreach => (h.2.2 queues' hreach).2⟩

end HyperParallel.Pipeline.OneFOneB
