import Mathlib.Data.List.GetD
import Mathlib.Data.List.Nodup
import Mathlib.Tactic.Ring

/-!
# Load-balanced Colossal attention

A rank attends the head of its own queries and the tail of its mirrored peer's, then
gets the outputs of its own tail back.  Attention is any function of a query row, its
global position, the global query length and the full keys and values.
-/

namespace HyperParallel.Shard.HeadTail

open List

variable {α Query KeyValue Out : Type*}

/-- `tensor.narrow(seq_dim, start, length)`. -/
def narrow (rows : List α) (start length : ℕ) : List α := (rows.drop start).take length

/-- One attention call on the rows of the part `splitId` out of `splitNum`. -/
def attention (attend : Query → ℕ → ℕ → List KeyValue → Out) (keyValues : List KeyValue)
    (splitId splitNum : ℕ) (queries : List Query) : List Out :=
  queries.mapIdx fun index query =>
    attend query (splitId * queries.length + index) (queries.length * splitNum) keyValues

structure Submesh where
  rankList : List ℕ
  nodup : rankList.Nodup

namespace Submesh

variable (mesh : Submesh)

def worldSize : ℕ := mesh.rankList.length

def localIdx (rank : ℕ) : ℕ := mesh.rankList.idxOf rank

def targetIdx (rank : ℕ) : ℕ := mesh.worldSize - 1 - mesh.localIdx rank

def peerRank (rank : ℕ) : ℕ := mesh.rankList.getD (mesh.targetIdx rank) rank

/-- `p2p_exchange` with every rank's tensor in view: what comes in has the shape of what goes
out, and a message comes only from a peer that sends to this rank. -/
def p2pExchange (tensors : ℕ → Option (List α)) (rank : ℕ) : Option (List α) := do
  let mine ← tensors rank
  if mesh.peerRank rank = rank then pure mine
  else
    let theirs ← tensors (mesh.peerRank rank)
    if mesh.peerRank (mesh.peerRank rank) = rank ∧ theirs.length = mine.length then pure theirs
    else none

def gatherSeq (locals : ℕ → List α) : List α := mesh.rankList.flatMap locals

variable (attend : Query → ℕ → ℕ → List KeyValue → Out) (queries : ℕ → List Query)
  (keyValues : ℕ → List KeyValue)

def peerTail (rank : ℕ) : Option (List Out) :=
  let qMine := fun other =>
    let half := (queries other).length / 2
    narrow (queries other) half half
  (mesh.p2pExchange (fun other => some (qMine other)) rank).map
    (attention attend (mesh.gatherSeq keyValues) (2 * mesh.targetIdx rank + 1) (2 * mesh.worldSize))

def lbColossalForward (rank : ℕ) : Option (List Out) :=
  let half := (queries rank).length / 2
  let fa1Out := attention attend (mesh.gatherSeq keyValues) (2 * mesh.localIdx rank)
    (2 * mesh.worldSize) (narrow (queries rank) 0 half)
  let fa2Our := mesh.p2pExchange (mesh.peerTail attend queries keyValues) rank
  fa2Our.map (fa1Out ++ ·)

def colossalForward (rank : ℕ) : List Out :=
  attention attend (mesh.gatherSeq keyValues) (mesh.localIdx rank) mesh.worldSize (queries rank)

end Submesh

/-! ## Two calls for one -/

@[simp] theorem length_attention (attend : Query → ℕ → ℕ → List KeyValue → Out)
    (keyValues : List KeyValue) (splitId splitNum : ℕ) (queries : List Query) :
    (attention attend keyValues splitId splitNum queries).length = queries.length := by
  simp [attention]

/-- Parts `2 * splitId` and `2 * splitId + 1` of the halved cut are part `splitId`. -/
theorem attention_halves (attend : Query → ℕ → ℕ → List KeyValue → Out) (keyValues : List KeyValue)
    (splitId splitNum : ℕ) {head tail : List Query} (h : head.length = tail.length) :
    attention attend keyValues (2 * splitId) (2 * splitNum) head ++
        attention attend keyValues (2 * splitId + 1) (2 * splitNum) tail =
      attention attend keyValues splitId splitNum (head ++ tail) := by
  have hglobal : (head ++ tail).length * splitNum = head.length * (2 * splitNum) := by
    rw [length_append, ← h]
    ring
  have hhead : ∀ index, splitId * (head ++ tail).length + index =
      2 * splitId * head.length + index := by
    intro index
    rw [length_append, ← h]
    ring
  have htail : ∀ index, 2 * splitId * head.length + (index + head.length) =
      (2 * splitId + 1) * tail.length + index := by
    intro index
    rw [h]
    ring
  have hcalls : tail.length * (2 * splitNum) = head.length * (2 * splitNum) := by rw [h]
  simp only [attention, mapIdx_append, hglobal, hhead, htail, hcalls]

namespace Submesh

variable {mesh : Submesh}

variable {rank : ℕ}

section

variable (h : rank ∈ mesh.rankList)

include h

theorem localIdx_lt : mesh.localIdx rank < mesh.worldSize := List.idxOf_lt_length_iff.mpr h

theorem targetIdx_lt : mesh.targetIdx rank < mesh.rankList.length := by
  have := localIdx_lt h
  unfold targetIdx worldSize at *
  omega

theorem peerRank_mem : mesh.peerRank rank ∈ mesh.rankList := by
  rw [peerRank, getD_eq_getElem _ _ (targetIdx_lt h)]
  exact getElem_mem _

theorem localIdx_peerRank : mesh.localIdx (mesh.peerRank rank) = mesh.targetIdx rank := by
  rw [peerRank, getD_eq_getElem _ _ (targetIdx_lt h)]
  exact mesh.nodup.idxOf_getElem _ _

theorem targetIdx_peerRank : mesh.targetIdx (mesh.peerRank rank) = mesh.localIdx rank := by
  have := localIdx_lt h
  rw [targetIdx, localIdx_peerRank h, targetIdx]
  omega

theorem peerRank_peerRank : mesh.peerRank (mesh.peerRank rank) = rank := by
  have htarget := targetIdx_peerRank h
  have hlt := localIdx_lt h
  rw [peerRank, htarget, getD_eq_getElem _ _ hlt]
  exact getElem_idxOf hlt

theorem p2pExchange_eq {tensors : ℕ → Option (List α)} {mine theirs : List α}
    (hmine : tensors rank = some mine) (htheirs : tensors (mesh.peerRank rank) = some theirs)
    (hlength : theirs.length = mine.length) : mesh.p2pExchange tensors rank = some theirs := by
  by_cases hself : mesh.peerRank rank = rank
  · rw [hself, hmine] at htheirs
    simp [p2pExchange, hmine, hself, htheirs]
  · simp [p2pExchange, hmine, htheirs, hself, peerRank_peerRank h, hlength]

end

@[simp] theorem length_narrow_half (rows : List α) :
    (narrow rows (rows.length / 2) (rows.length / 2)).length = rows.length / 2 := by
  simp only [narrow, length_take, length_drop]
  omega

variable {attend : Query → ℕ → ℕ → List KeyValue → Out} {queries : ℕ → List Query}
  {keyValues : ℕ → List KeyValue}

theorem lbColossalForward_eq {length : ℕ}
    (hlength : ∀ other ∈ mesh.rankList, (queries other).length = length)
    (h : rank ∈ mesh.rankList) :
    mesh.lbColossalForward attend queries keyValues rank =
      some (attention attend (mesh.gatherSeq keyValues) (2 * mesh.localIdx rank)
          (2 * mesh.worldSize) (narrow (queries rank) 0 (length / 2)) ++
        attention attend (mesh.gatherSeq keyValues) (2 * mesh.localIdx rank + 1)
          (2 * mesh.worldSize) (narrow (queries rank) (length / 2) (length / 2))) := by
  have hnarrow : ∀ other ∈ mesh.rankList,
      (narrow (queries other) (length / 2) (length / 2)).length = length / 2 := by
    intro other hother
    rw [← hlength other hother]
    exact length_narrow_half _
  have htail : ∀ other ∈ mesh.rankList,
      mesh.peerTail attend queries keyValues other = some (attention attend
        (mesh.gatherSeq keyValues) (2 * mesh.targetIdx other + 1) (2 * mesh.worldSize)
        (narrow (queries (mesh.peerRank other)) (length / 2) (length / 2))) := by
    intro other hother
    have hpeer := peerRank_mem hother
    have hexchange : mesh.p2pExchange (fun other => some (narrow (queries other)
        ((queries other).length / 2) ((queries other).length / 2))) other =
          some (narrow (queries (mesh.peerRank other)) (length / 2) (length / 2)) := by
      refine p2pExchange_eq hother rfl ?_ ?_
      · rw [hlength _ hpeer]
      · rw [hnarrow _ hpeer, hlength other hother, hnarrow other hother]
    simp only [peerTail, hexchange, Option.map_some]
  have hback := p2pExchange_eq h (htail rank h) (htail _ (peerRank_mem h)) (by
    rw [peerRank_peerRank h, length_attention, length_attention, hnarrow rank h,
      hnarrow _ (peerRank_mem h)])
  rw [peerRank_peerRank h, targetIdx_peerRank h] at hback
  simp only [lbColossalForward, hback, Option.map_some, hlength rank h]

end Submesh

/-- The ranks are paired, and every rank returns its plain outputs row for row, exactly when the
local query length is even. -/
theorem lbColossalForward_eq_colossalForward_iff (mesh : Submesh)
    (attend : Query → ℕ → ℕ → List KeyValue → Out) (queries : ℕ → List Query)
    (keyValues : ℕ → List KeyValue) (length : ℕ) (hranks : mesh.rankList ≠ [])
    (hlength : ∀ rank ∈ mesh.rankList, (queries rank).length = length) :
    (∀ rank ∈ mesh.rankList,
      mesh.peerRank rank ∈ mesh.rankList ∧ mesh.peerRank (mesh.peerRank rank) = rank ∧
      mesh.lbColossalForward attend queries keyValues rank =
        some (mesh.colossalForward attend queries keyValues rank)) ↔ Even length := by
  constructor
  · intro hall
    obtain ⟨rank, hrank⟩ := exists_mem_of_ne_nil _ hranks
    have hplain := (hall rank hrank).2.2
    rw [Submesh.lbColossalForward_eq hlength hrank, Option.some.injEq] at hplain
    have hrows := congrArg List.length hplain
    simp only [length_append, length_attention, narrow, length_take, length_drop,
      Submesh.colossalForward, hlength rank hrank] at hrows
    rw [Nat.even_iff]
    omega
  · rintro ⟨half, rfl⟩ rank hrank
    refine ⟨Submesh.peerRank_mem hrank, Submesh.peerRank_peerRank hrank, ?_⟩
    rw [Submesh.lbColossalForward_eq hlength hrank, Option.some.injEq]
    have hhalf : (half + half) / 2 = half := by omega
    have hrows := hlength rank hrank
    have hhead : narrow (queries rank) 0 half = (queries rank).take half := by simp [narrow]
    have htail : narrow (queries rank) half half = (queries rank).drop half := by
      rw [narrow, take_of_length_le]
      simp [hrows]
    rw [hhalf, hhead, htail, attention_halves, take_append_drop, Submesh.colossalForward]
    simp [hrows]

/-- Two ranks with four queries each. -/
theorem lbColossalForward_pair :
    (∀ rank ∈ [5, 7],
      (⟨[5, 7], by decide⟩ : Submesh).peerRank rank ∈ [5, 7] ∧
      (⟨[5, 7], by decide⟩ : Submesh).peerRank
        ((⟨[5, 7], by decide⟩ : Submesh).peerRank rank) = rank ∧
      (⟨[5, 7], by decide⟩ : Submesh).lbColossalForward
          (fun query index _ keys => (query, index, keys)) (fun rank => [rank, 1, 2, 3])
          (fun rank => [rank]) rank =
        some ((⟨[5, 7], by decide⟩ : Submesh).colossalForward
          (fun query index _ keys => (query, index, keys)) (fun rank => [rank, 1, 2, 3])
          (fun rank => [rank]) rank)) ↔ Even 4 :=
  lbColossalForward_eq_colossalForward_iff ⟨[5, 7], by decide⟩ _ _ _ 4 (by decide) (by decide)

/-- One rank with three queries returns two outputs. -/
theorem last_query_dropped :
    (⟨[0], by decide⟩ : Submesh).lbColossalForward
        (fun query index _ (_ : List ℕ) => (query, index)) (fun _ => [10, 11, 12])
        (fun _ => []) 0 ≠
      some ((⟨[0], by decide⟩ : Submesh).colossalForward
        (fun query index _ (_ : List ℕ) => (query, index)) (fun _ => [10, 11, 12])
        (fun _ => []) 0) := by
  decide

end HyperParallel.Shard.HeadTail
