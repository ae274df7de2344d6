import HyperParallel.Checkpoint.LoadPlanner

/-!
# Writing a checkpoint

Every rank packs its pickled entries into one bytes file, one after the other,
and its tensors into one safetensors file.  The coordinator gathers where every
item went.
-/

namespace HyperParallel.Checkpoint

open Foundation List

variable {α β : Type}

inductive WriteError where
  | plan (error : PlanError)
  | pickling (fqn : String)
  | typeError
deriving DecidableEq, Repr

structure WriteResult where
  index : MetadataIndex
  storageData : StorageInfo
deriving DecidableEq, Repr

def bytesFileName (rank : Nat) : String := "_rank" ++ toString rank ++ "_.bytes"

def tensorFileName (rank : Nat) : String := "_rank" ++ toString rank ++ "_.safetensors"

structure BytesWrite where
  results : List WriteResult
  content : List UInt8
deriving DecidableEq, Repr

section Writer

variable (pickle : Pickle α β) (rank : Nat) (stateDict : FlatStateDict α β)

def serializeBytesItem (item : WriteItem) : Except WriteError (List UInt8) :=
  match getData rank stateDict.fqnNames item with
  | .error e => .error (.plan e)
  | .ok (.tensor _) => .error .typeError
  | .ok (.object (.leaf (.bytes content))) => .ok content
  | .ok (.object data) =>
    match pickle.dumps data with
    | none => .error (.pickling item.index.fqn)
    | some content => .ok content

def writeBytesItem (file : BytesWrite) (item : WriteItem) : Except WriteError BytesWrite :=
  (serializeBytesItem pickle rank stateDict item).map fun payload => {
    results := file.results ++ [{
      index := item.index
      storageData := {
        relativePath := bytesFileName rank
        offset := file.content.length
        length := payload.length } }]
    content := file.content ++ payload }

def byteItems (plan : SavePlan) : List WriteItem :=
  plan.items.filter fun item => decide (item.type = .byteIo)

def writeBytesItems (plan : SavePlan) : Except WriteError BytesWrite :=
  (byteItems plan).foldlM (writeBytesItem pickle rank stateDict) ⟨[], []⟩

/-- `tensorKey` names the tensor of an item in the safetensors file of its rank. -/
def writeTensors (tensorKey : MetadataIndex → String) (plan : SavePlan) : List WriteResult :=
  (plan.items.filter fun item => decide (item.type = .tensor) && item.tensorData.isSome).map
    fun item => {
      index := item.index
      storageData := {
        relativePath := tensorFileName rank
        offset := 0
        length := -1
        tensorKey := some (tensorKey item.index) } }

def executeWrite (tensorKey : MetadataIndex → String) (plan : SavePlan) :
    Except WriteError (BytesWrite × List WriteResult) :=
  (writeBytesItems pickle rank stateDict plan).map fun file =>
    (file, file.results ++ writeTensors rank tensorKey plan)

end Writer

/-- `metadata.storage_data`, from the results of every rank. -/
def finalizeCheckpoint (results : List (List WriteResult)) :
    PyDict (String × List Nat) StorageInfo :=
  results.flatten.foldl (fun storageMd result =>
    storageMd.set result.index.key result.storageData) .empty

def bytesFileOf (written : List (BytesWrite × List WriteResult)) (name : String) :
    Option (List UInt8) :=
  written.zipIdx.findSome? fun entry =>
    if entry.1.1.results ≠ [] ∧ bytesFileName entry.2 = name then some entry.1.1.content else none

/-- All ranks write their final plans; `tensorFile` is what the safetensors files hold. -/
def writeCheckpoint (pickle : Pickle α β) (tensorKey : MetadataIndex → String)
    (stateDicts : List (FlatStateDict α β)) (finals : List SavePlan)
    (tensorFile : String × List Nat → Option (Tensor α)) :
    Except WriteError (FileSystemReader α) := do
  let written ← (stateDicts.zip finals).zipIdx.mapM fun entry =>
    executeWrite pickle entry.2 entry.1.1 tensorKey entry.1.2
  return {
    storageData := finalizeCheckpoint (written.map Prod.snd)
    bytesFile := bytesFileOf written
    tensorFile := tensorFile }

/-! ## One bytes file -/

section OneFile

variable {pickle : Pickle α β} {rank : Nat} {stateDict : FlatStateDict α β}

theorem readAt_append (content payload tail : List UInt8) :
    FileSystemReader.readAt (content ++ payload ++ tail) content.length payload.length =
      payload := by
  rw [FileSystemReader.readAt, if_neg (by omega), Int.toNat_natCast, append_assoc,
    drop_left, take_left]

structure FileHolds (pickle : Pickle α β) (rank : Nat) (stateDict : FlatStateDict α β)
    (items : List WriteItem) (file : BytesWrite) : Prop where
  indices : file.results.map (·.index) = items.map (·.index)
  payload : ∀ result ∈ file.results, result.storageData.relativePath = bytesFileName rank ∧
    ∃ item ∈ items, result.index = item.index ∧ ∃ front payload tail,
      serializeBytesItem pickle rank stateDict item = .ok payload ∧
      file.content = front ++ payload ++ tail ∧
      result.storageData.offset = front.length ∧ result.storageData.length = payload.length

theorem writeBytesItem_holds {items : List WriteItem} {file file' : BytesWrite} {item : WriteItem}
    (h : FileHolds pickle rank stateDict items file)
    (hstep : writeBytesItem pickle rank stateDict file item = .ok file') :
    FileHolds pickle rank stateDict (items ++ [item]) file' := by
  obtain ⟨payload, hpayload, rfl⟩ := map_eq_ok hstep
  constructor
  · simp [h.indices]
  · intro result hresult
    rcases mem_append.mp hresult with hold | hnew
    · obtain ⟨hpath, old, hmem, hindex, front, inner, tail, hinner, hcontent, hrest⟩ :=
        h.payload result hold
      refine ⟨hpath, old, mem_append_left _ hmem, hindex, front, inner, tail ++ payload,
        hinner, ?_, hrest⟩
      dsimp only
      rw [hcontent, append_assoc]
    · obtain rfl := mem_singleton.mp hnew
      exact ⟨rfl, item, by simp, rfl, file.content, payload, [], hpayload, by simp, rfl, rfl⟩

theorem writeBytesItems_holds {plan : SavePlan} {file : BytesWrite}
    (h : writeBytesItems pickle rank stateDict plan = .ok file) :
    FileHolds pickle rank stateDict (byteItems plan) file :=
  foldlM_invariant (FileHolds pickle rank stateDict) (fun _ _ _ _ => writeBytesItem_holds)
    ⟨rfl, by simp⟩ h

theorem FileHolds.readBack {items : List WriteItem} {file : BytesWrite}
    (h : FileHolds pickle rank stateDict items file) {result : WriteResult}
    (hresult : result ∈ file.results) : ∃ item ∈ items, result.index = item.index ∧
      serializeBytesItem pickle rank stateDict item = .ok (FileSystemReader.readAt file.content
        result.storageData.offset result.storageData.length) := by
  obtain ⟨-, item, hitem, hindex, front, payload, tail, hpayload, hcontent, hoffset, hlength⟩ :=
    h.payload result hresult
  refine ⟨item, hitem, hindex, ?_⟩
  rw [hcontent, hoffset, hlength, readAt_append]
  exact hpayload

end OneFile

/-! ## The files of all ranks -/

theorem bytesFileName_injective {rank rank' : Nat} (h : bytesFileName rank = bytesFileName rank') :
    rank = rank' := by
  unfold bytesFileName at h
  have hmiddle := (String.append_right_inj _).mp ((String.append_left_inj _).mp h)
  have hdigits : Nat.toDigits 10 rank ++ [] = Nat.toDigits 10 rank' ++ [] := by
    simpa using congrArg String.toList hmiddle
  exact (PyRepr.toDigits_cancel PyRepr.delimited_nil PyRepr.delimited_nil hdigits).1

theorem get?_finalizeCheckpoint {results : List (List WriteResult)} {key : String × List Nat} :
    (∀ info, (finalizeCheckpoint results).get? key = some info →
      ∃ result ∈ results.flatten, result.index.key = key ∧ result.storageData = info) ∧
    ((finalizeCheckpoint results).get? key = none →
      ∀ result ∈ results.flatten, result.index.key ≠ key) := by
  unfold finalizeCheckpoint
  apply foldl_invariant fun (seen : List WriteResult)
      (storageMd : PyDict (String × List Nat) StorageInfo) =>
    (∀ info, storageMd.get? key = some info →
      ∃ result ∈ seen, result.index.key = key ∧ result.storageData = info) ∧
    (storageMd.get? key = none → ∀ result ∈ seen, result.index.key ≠ key)
  · exact ⟨fun info h => by simp at h, by simp⟩
  · rintro seen storageMd result - ⟨hsome, hnone⟩
    rw [PyDict.get?_set]
    by_cases hkey : key = result.index.key
    · rw [if_pos hkey]
      exact ⟨fun info h => ⟨result, by simp, hkey.symm, Option.some.inj h⟩, by simp⟩
    · rw [if_neg hkey]
      refine ⟨fun info h => ?_, fun h other hother => ?_⟩
      · obtain ⟨old, hold, hrest⟩ := hsome info h
        exact ⟨old, mem_append_left _ hold, hrest⟩
      · rcases mem_append.mp hother with hold | hnew
        · exact hnone h other hold
        · obtain rfl := mem_singleton.mp hnew
          exact Ne.symm hkey

theorem findSome?_unique {γ δ : Type*} {entries : List γ} {f : γ → Option δ} {entry : γ}
    {value : δ} (hmem : entry ∈ entries) (hvalue : f entry = some value)
    (hunique : ∀ other ∈ entries, ∀ found, f other = some found → found = value) :
    entries.findSome? f = some value := by
  cases hfind : entries.findSome? f with
  | none => rw [findSome?_eq_none_iff.mp hfind entry hmem] at hvalue; cases hvalue
  | some found =>
    obtain ⟨other, hother, hfound⟩ := exists_of_findSome?_eq_some hfind
    rw [hunique other hother found hfound]

section Checkpoint

variable {pickle : Pickle α β} {tensorKey : MetadataIndex → String}
  {stateDicts : List (FlatStateDict α β)} {finals : List SavePlan}
  {tensorFile : String × List Nat → Option (Tensor α)} {reader : FileSystemReader α}

def RankWrote (pickle : Pickle α β) (tensorKey : MetadataIndex → String)
    (stateDicts : List (FlatStateDict α β)) (finals : List SavePlan) (rank : Nat)
    (file : BytesWrite) (results : List WriteResult) : Prop :=
  ∃ stateDict final, stateDicts[rank]? = some stateDict ∧ finals[rank]? = some final ∧
    writeBytesItems pickle rank stateDict final = .ok file ∧
    results = file.results ++ writeTensors rank tensorKey final

section

variable (h : writeCheckpoint pickle tensorKey stateDicts finals tensorFile = .ok reader)

include h

theorem writeCheckpoint_ranks :
    ∃ written : List (BytesWrite × List WriteResult),
      reader = { storageData := finalizeCheckpoint (written.map Prod.snd)
                 bytesFile := bytesFileOf written
                 tensorFile := tensorFile } ∧
      (∀ (rank : Nat) entry, written[rank]? = some entry →
        RankWrote pickle tensorKey stateDicts finals rank entry.1 entry.2) ∧
      ∀ rank < stateDicts.length, rank < finals.length → ∃ entry, written[rank]? = some entry := by
  obtain ⟨written, hwritten, hreader⟩ := bind_eq_ok h
  refine ⟨written, (Except.ok.inj hreader).symm, ?_, ?_⟩
  · intro rank entry hentry
    have hall := mapM_eq_ok_iff.mp hwritten
    have hrank : rank < ((stateDicts.zip finals).zipIdx).length := by
      rw [hall.length_eq]
      exact (List.getElem?_eq_some_iff.mp hentry).1
    obtain ⟨hlt, rfl⟩ := List.getElem?_eq_some_iff.mp hentry
    have hat := (forall₂_iff_get.mp hall).2 rank hrank hlt
    simp only [get_eq_getElem, getElem_zipIdx, getElem_zip, Nat.zero_add] at hat
    obtain ⟨file, hfile, heq⟩ := map_eq_ok hat
    rw [length_zipIdx, length_zip] at hrank
    refine ⟨_, _, getElem?_eq_getElem (by omega), getElem?_eq_getElem (by omega), ?_, ?_⟩
    · rw [← heq]
      exact hfile
    · rw [← heq]
  · intro rank hdict hfinal
    have hlength := (mapM_eq_ok_iff.mp hwritten).length_eq
    rw [length_zipIdx, length_zip] at hlength
    exact ⟨_, getElem?_eq_getElem (by omega)⟩

theorem writeCheckpoint_storageData {key : String × List Nat} {info : StorageInfo}
    (hinfo : reader.storageData.get? key = some info) :
    ∃ rank stateDict final, stateDicts[rank]? = some stateDict ∧ finals[rank]? = some final ∧
      ((∃ item ∈ byteItems final, item.index.key = key ∧ info.relativePath = bytesFileName rank ∧
        ∃ content, reader.bytesFile info.relativePath = some content ∧
          serializeBytesItem pickle rank stateDict item =
            .ok (FileSystemReader.readAt content info.offset info.length)) ∨
      (∃ item ∈ final.items, item.type = .tensor ∧ item.index.key = key ∧
        info.relativePath = tensorFileName rank)) := by
  obtain ⟨written, rfl, hranks, -⟩ := writeCheckpoint_ranks h
  obtain ⟨result, hresult, hkey, hdata⟩ := get?_finalizeCheckpoint.1 info hinfo
  obtain ⟨results, hresults, hmem⟩ := mem_flatten.mp hresult
  obtain ⟨entry, hentry, rfl⟩ := mem_map.mp hresults
  obtain ⟨rank, hrank⟩ := mem_iff_getElem?.mp hentry
  obtain ⟨stateDict, final, hdict, hfinal, hfile, hall⟩ := hranks rank entry hrank
  refine ⟨rank, stateDict, final, hdict, hfinal, ?_⟩
  rw [hall] at hmem
  rcases mem_append.mp hmem with hbytes | htensor
  · have hholds := writeBytesItems_holds hfile
    obtain ⟨item, hitem, hindex, hpayload⟩ := hholds.readBack hbytes
    have hpath := (hholds.payload result hbytes).1
    rw [hdata] at hpayload hpath
    refine .inl ⟨item, hitem, by rw [← hindex, hkey], hpath, entry.1.content, ?_, hpayload⟩
    rw [hpath]
    apply findSome?_unique (mk_mem_zipIdx_iff_getElem?.mpr hrank)
    · dsimp only
      rw [if_pos ⟨ne_nil_of_mem hbytes, rfl⟩]
    · rintro ⟨other, otherRank⟩ hother found hfound
      dsimp only at hfound
      split at hfound
      · rename_i hname
        have hother := mk_mem_zipIdx_iff_getElem?.mp hother
        rw [bytesFileName_injective hname.2, hrank] at hother
        cases hother
        exact (Option.some.inj hfound).symm
      · cases hfound
  · obtain ⟨item, hitem, rfl⟩ := mem_map.mp htensor
    obtain ⟨hitem, htype⟩ := mem_filter.mp hitem
    simp only [Bool.and_eq_true, decide_eq_true_eq] at htype
    refine .inr ⟨item, hitem, htype.1, hkey, ?_⟩
    rw [← hdata]

theorem writeCheckpoint_located {rank : Nat} {final : SavePlan}
    (hfinal : finals[rank]? = some final) (hrank : rank < stateDicts.length) {item : WriteItem}
    (hitem : item ∈ final.items) (htype : item.type = .byteIo ∨ item.tensorData.isSome = true) :
    ∃ info, reader.storageData.get? item.index.key = some info := by
  obtain ⟨written, rfl, hranks, hall⟩ := writeCheckpoint_ranks h
  obtain ⟨entry, hentry⟩ := hall rank hrank (List.getElem?_eq_some_iff.mp hfinal).1
  obtain ⟨stateDict, final', hdict, hfinal', hfile, hresults⟩ := hranks rank entry hentry
  obtain rfl : final = final' := Option.some.inj (hfinal.symm.trans hfinal')
  have hindex : ∃ result ∈ entry.2, result.index = item.index := by
    rw [hresults]
    cases hkind : item.type with
    | byteIo =>
      have hmem : item.index ∈ entry.1.results.map (·.index) := by
        rw [(writeBytesItems_holds hfile).indices]
        exact mem_map_of_mem (mem_filter.mpr ⟨hitem, by simpa using hkind⟩)
      obtain ⟨result, hresult, heq⟩ := mem_map.mp hmem
      exact ⟨result, mem_append_left _ hresult, heq⟩
    | tensor =>
      have hdata : item.tensorData.isSome = true := by
        rcases htype with hbytes | hdata
        · rw [hkind] at hbytes
          cases hbytes
        · exact hdata
      exact ⟨_, mem_append_right _ (mem_map_of_mem
        (mem_filter.mpr ⟨hitem, by simp [hkind, hdata]⟩)), rfl⟩
  obtain ⟨result, hresult, hindex⟩ := hindex
  dsimp only
  cases hget : (finalizeCheckpoint (written.map Prod.snd)).get? item.index.key with
  | some info => exact ⟨info, rfl⟩
  | none =>
    have hmem : result ∈ (written.map Prod.snd).flatten := mem_flatten.mpr
      ⟨entry.2, mem_map_of_mem (mem_of_getElem? hentry), hresult⟩
    exact absurd (by rw [hindex]) (get?_finalizeCheckpoint.2 hget result hmem)

end

end Checkpoint

end HyperParallel.Checkpoint
