import HyperParallel.Foundation.DenseTensor
import HyperParallel.Foundation.PySequence

/-!
# The all-to-all operator

Each rank brings the dimension to be split to the front, the group exchanges
equal parts of it, and each rank moves the dimension the exchange has added to
the dimension to be joined.  Leading dimensions of size one are dropped on the
way in and put back on the way out.
-/

namespace HyperParallel.Redistribution

open Foundation Foundation.Dense
open List (prod_append prod_cons)

inductive AllToAllError where
  | unevenSplit (dim size count : Nat)
  | viewShape (shape newShape : List Nat)
  | collectiveShapes
  | rankNotInGroup (rank : Nat)
  deriving DecidableEq, Repr

variable {α : Type*}

def view (t : Dense α) (shape : List Nat) : Except AllToAllError (Dense α) :=
  match t.reshape shape with
  | some viewed => .ok viewed
  | none => .error (.viewShape t.shape shape)

def allOnesBefore (shape : List Nat) (dim : Nat) : Bool := (shape.take dim).all (· = 1)

/-- Two neighbouring dimensions made one. -/
def mergeDims (shape : List Nat) (dim : Nat) : List Nat :=
  (shape.set dim (shape.getD dim 0 * shape.getD (dim + 1) 0)).eraseIdx (dim + 1)

section Operator

variable (splitDim concatDim splitCount : Nat)

/-- What a rank hands to the collective. -/
def prepareAllToAll (x : Dense α) : Except AllToAllError (Dense α) :=
  let dimSize := x.shape.getD splitDim 0
  if dimSize % splitCount ≠ 0 then .error (.unevenSplit splitDim dimSize splitCount)
  else
    let splitSize := dimSize / splitCount
    if allOnesBefore x.shape splitDim then
      view x ((splitCount * splitSize) :: x.shape.drop (splitDim + 1))
    else
      let reshapeDims := (x.shape.set splitDim splitCount).insertIdx (splitDim + 1) splitSize
      match view x reshapeDims with
      | .error error => .error error
      | .ok reshaped =>
        let moved := reshaped.permute (frontDims reshapeDims.length splitDim)
        view moved (mergeDims moved.shape 0)

def exchangeEqual (inputs : List (Dense α)) (r : Nat) : Except AllToAllError (Dense α) :=
  match inputs[r]? with
  | none => .error (.rankNotInGroup r)
  | some own =>
    if (∀ input ∈ inputs, input.shape = own.shape) ∧ own.shape.getD 0 0 % inputs.length = 0 then
      let chunk := own.numel / inputs.length
      .ok ⟨own.shape, fun n => (inputs.getD (n / chunk) own).flat (r * chunk + n % chunk)⟩
    else .error .collectiveShapes

def finalShape (originalShape : List Nat) : List Nat :=
  let splitSize := originalShape.getD splitDim 0 / splitCount
  if splitDim ≠ concatDim then
    (originalShape.set splitDim splitSize).set concatDim
      ((originalShape.set splitDim splitSize).getD concatDim 0 * splitCount)
  else originalShape

/-- What a rank makes of the output of the collective. -/
def finishAllToAll (originalShape : List Nat) (output : Dense α) :
    Except AllToAllError (Dense α) :=
  let final := finalShape splitDim concatDim splitCount originalShape
  if allOnesBefore final concatDim then view output final
  else
    let preSpecialHandle := allOnesBefore originalShape splitDim
    let reconConcatDim := if preSpecialHandle then concatDim - splitDim else concatDim
    let outputReshape := (output.shape.set 0 splitCount).insertIdx 1
      (output.shape.getD 0 0 / splitCount)
    match view output outputReshape with
    | .error error => .error error
    | .ok reshaped =>
      let moved := reshaped.permute (backDims outputReshape.length reconConcatDim)
      let finalReshape :=
        if reconConcatDim < moved.shape.length - 1 then mergeDims moved.shape reconConcatDim
        else moved.shape
      match view moved finalReshape with
      | .error error => .error error
      | .ok result => if preSpecialHandle then view result final else .ok result

/-- `_construct_all_to_all` on every rank of the group; the result of the `r`-th one. -/
def constructAllToAll (group : List (Dense α)) (r : Nat) : Except AllToAllError (Dense α) :=
  match group.mapM (prepareAllToAll splitDim splitCount) with
  | .error error => .error error
  | .ok inputs =>
    match exchangeEqual inputs r, group[r]? with
    | .error error, _ => .error error
    | .ok _, none => .error (.rankNotInGroup r)
    | .ok output, some own => finishAllToAll splitDim concatDim splitCount own.shape output

end Operator

/-! ## On the way in -/

variable {shape : List Nat}

theorem view_of_prod {t : Dense α} (h : shape.prod = t.numel) :
    view t shape = .ok ⟨shape, t.flat⟩ := by
  rw [view, reshape_of_prod h]

theorem prod_of_allOnes (h : shape.all (· = 1) = true) : shape.prod = 1 := by
  refine List.prod_eq_one fun size hsize => ?_
  simpa using List.all_eq_true.mp h size hsize

@[simp] theorem allOnesBefore_append (front back : List Nat) :
    allOnesBefore (front ++ back) front.length = front.all (· = 1) := by
  simp [allOnesBefore]

theorem mergeDims_append (front back : List Nat) (first second : Nat) :
    mergeDims (front ++ first :: second :: back) front.length =
      front ++ (first * second) :: back := by
  have hlen : front.length + 1 = (front ++ [first * second]).length := by simp
  have hlist : front ++ (first * second) :: second :: back =
      (front ++ [first * second]) ++ second :: back := by simp
  have hfirst : (front ++ first :: second :: back).getD front.length 0 = first := by simp
  have hsecond : (front ++ first :: second :: back).getD (front.length + 1) 0 = second := by
    simp [List.getD_eq_getElem?_getD]
  have hset : (front ++ first :: second :: back).set front.length (first * second) =
      front ++ (first * second) :: second :: back := by
    simp
  rw [mergeDims, hfirst, hsecond, hset, hlist, hlen, eraseIdx_length_append]
  simp

def exchangedShape (front back : List Nat) (size : Nat) : List Nat :=
  if front.all (· = 1) then size :: back else front ++ size :: back

section Prepare

variable {front back : List Nat} {splitCount splitSize : Nat} {x : Dense α}

theorem prepareAllToAll_ok (hshape : x.shape = front ++ (splitCount * splitSize) :: back)
    (hcount : 0 < splitCount) :
    ∃ y, prepareAllToAll front.length splitCount x = .ok y ∧
      (∃ head tail, exchangedShape front back splitSize = head :: tail ∧
        y.shape = (splitCount * head) :: tail) ∧
      ∀ r < splitCount, ∀ m < (front ++ splitSize :: back).prod,
        y.flat (r * (front ++ splitSize :: back).prod + m) =
          x.flat ((m / (splitSize * back.prod) * splitCount + r) * (splitSize * back.prod) +
            m % (splitSize * back.prod)) := by
  have hdim : x.shape.getD front.length 0 = splitCount * splitSize := by simp [hshape]
  have hdiv : splitCount * splitSize / splitCount = splitSize := Nat.mul_div_cancel_left _ hcount
  have hwidth : (front ++ splitSize :: back).prod = front.prod * (splitSize * back.prod) := by simp
  have hnumel : x.numel = front.prod * (splitCount * splitSize * back.prod) := by
    simp [numel, hshape]
  rw [prepareAllToAll, hdim, Nat.mul_mod_right, if_neg (not_not.mpr rfl), hdiv]
  dsimp only
  rw [hshape, allOnesBefore_append]
  by_cases hones : front.all (· = 1) = true
  · -- leading ones are dropped, the elements stay
    have hfront := prod_of_allOnes hones
    have hdrop : (front ++ (splitCount * splitSize) :: back).drop (front.length + 1) = back := by
      rw [List.drop_append, List.drop_of_length_le (by omega)]
      simp
    have hview : ((splitCount * splitSize) :: back).prod = x.numel := by
      rw [hnumel, hfront, prod_cons, Nat.one_mul]
    rw [if_pos hones, hdrop, view_of_prod hview]
    refine ⟨_, rfl, ⟨splitSize, back, by rw [exchangedShape, if_pos hones], rfl⟩, ?_⟩
    intro r _ m hm
    rw [hwidth, hfront, Nat.one_mul] at hm ⊢
    rw [Nat.div_eq_of_lt hm, Nat.mod_eq_of_lt hm, Nat.zero_mul, Nat.zero_add]
  · have hset : ((front ++ (splitCount * splitSize) :: back).set front.length splitCount).insertIdx
        (front.length + 1) splitSize = front ++ splitCount :: splitSize :: back := by
      have hinsert := insertIdx_length_append (front ++ [splitCount]) back splitSize
      simpa using hinsert
    have hview : (front ++ splitCount :: splitSize :: back).prod = x.numel := by
      rw [hnumel]
      simp only [prod_append, prod_cons]
      ring
    rw [if_neg hones, hset, view_of_prod hview]
    dsimp only
    have hmoved : ((⟨front ++ splitCount :: splitSize :: back, x.flat⟩ : Dense α).permute
        (frontDims (front ++ splitCount :: splitSize :: back).length front.length)).shape =
        splitCount :: (front ++ splitSize :: back) :=
      permuted_frontDims front (splitSize :: back) splitCount
    cases front with
    | nil => exact absurd rfl hones
    | cons head rest =>
      have hmerge : mergeDims (splitCount :: (head :: rest ++ splitSize :: back)) 0 =
          (splitCount * head) :: (rest ++ splitSize :: back) :=
        mergeDims_append [] (rest ++ splitSize :: back) splitCount head
      rw [hmoved, hmerge, view_of_prod (by
        rw [numel, hmoved]
        simp only [prod_cons, List.cons_append, Nat.mul_assoc])]
      refine ⟨_, rfl, ⟨head, rest ++ splitSize :: back, by rw [exchangedShape, if_neg hones]; rfl,
        rfl⟩, ?_⟩
      intro r hr m hm
      rw [hwidth] at hm ⊢
      have hpos : 0 < splitSize * back.prod := by
        refine Nat.pos_of_ne_zero fun hzero => ?_
        rw [hzero] at hm
        exact Nat.not_lt_zero _ hm
      have hflat := @flat_frontDims _ (head :: rest) (splitSize :: back) splitCount
        (m / (splitSize * back.prod)) r (m % (splitSize * back.prod))
        ⟨head :: rest ++ splitCount :: splitSize :: back, x.flat⟩ rfl
        (Nat.div_lt_of_lt_mul (Nat.mul_comm (head :: rest).prod _ ▸ hm)) hr
        (by rw [prod_cons]; exact Nat.mod_lt _ hpos)
      rw [prod_cons (l := back)] at hflat
      have hoffset : r * ((head :: rest).prod * (splitSize * back.prod)) + m =
          (r * (head :: rest).prod + m / (splitSize * back.prod)) * (splitSize * back.prod) +
            m % (splitSize * back.prod) := by
        rw [Nat.add_mul, Nat.add_assoc, Nat.mul_assoc, Nat.div_add_mod']
      rw [hoffset]
      exact hflat

end Prepare

/-! ## In the collective -/

theorem exchangeEqual_ok {inputs : List (Dense α)} {count head : Nat} {tail : List Nat} {r : Nat}
    (hlen : inputs.length = count) (hr : r < count)
    (hshapes : ∀ input ∈ inputs, input.shape = (count * head) :: tail) :
    ∃ output, exchangeEqual inputs r = .ok output ∧ output.shape = (count * head) :: tail ∧
      ∀ q (hq : q < inputs.length), ∀ m < (head :: tail).prod,
        output.flat (q * (head :: tail).prod + m) =
          inputs[q].flat (r * (head :: tail).prod + m) := by
  have hrlen : r < inputs.length := hlen.symm ▸ hr
  have hcount : 0 < count := Nat.lt_of_le_of_lt (Nat.zero_le _) hr
  have hown := hshapes inputs[r] (List.getElem_mem hrlen)
  have hchunk : inputs[r].numel / inputs.length = (head :: tail).prod := by
    rw [numel, hown, hlen, prod_cons, Nat.mul_assoc, Nat.mul_div_cancel_left _ hcount, prod_cons]
  have hcheck : (∀ input ∈ inputs, input.shape = inputs[r].shape) ∧
      inputs[r].shape.getD 0 0 % inputs.length = 0 := by
    refine ⟨fun input hinput => by rw [hshapes input hinput, hown], ?_⟩
    rw [hown, hlen]
    exact Nat.mul_mod_right count head
  rw [exchangeEqual, List.getElem?_eq_getElem hrlen]
  dsimp only
  rw [if_pos hcheck]
  refine ⟨_, rfl, hown, fun q hq m hm => ?_⟩
  have hpos : 0 < (head :: tail).prod := Nat.lt_of_le_of_lt (Nat.zero_le _) hm
  have hdiv : (q * (head :: tail).prod + m) / (head :: tail).prod = q := by
    rw [Nat.add_comm, Nat.add_mul_div_right _ _ hpos, Nat.div_eq_of_lt hm, Nat.zero_add]
  have hmod : (q * (head :: tail).prod + m) % (head :: tail).prod = m := by
    rw [Nat.add_comm, Nat.add_mul_mod_self_right, Nat.mod_eq_of_lt hm]
  dsimp only
  rw [hchunk, hdiv, hmod, List.getD_eq_getElem?_getD, List.getElem?_eq_getElem hq, Option.getD_some]

/-! ## On the way out -/

section Finish

variable {front back joinFront joinBack : List Nat} {splitCount splitSize joinSize : Nat}

structure TwoViews (front back joinFront joinBack : List Nat) (splitSize joinSize : Nat) : Prop where
  same : front ++ splitSize :: back = joinFront ++ joinSize :: joinBack
  differ : front.length ≠ joinFront.length

section

variable (h : TwoViews front back joinFront joinBack splitSize joinSize)

include h

theorem finalShape_eq (hcount : 0 < splitCount) :
    finalShape front.length joinFront.length splitCount
        (front ++ (splitCount * splitSize) :: back) =
      joinFront ++ (splitCount * joinSize) :: joinBack := by
  have hset : (front ++ (splitCount * splitSize) :: back).set front.length splitSize =
      joinFront ++ joinSize :: joinBack := by
    rw [← h.same]
    simp
  have hsize : (front ++ (splitCount * splitSize) :: back).getD front.length 0 / splitCount =
      splitSize := by
    simp [Nat.mul_div_cancel_left _ hcount]
  rw [finalShape, if_pos h.differ, hsize, hset, Nat.mul_comm splitCount]
  simp

theorem exchangedShape_prod :
    (exchangedShape front back splitSize).prod = joinFront.prod * (joinSize * joinBack.prod) := by
  have hjoin : (joinFront ++ joinSize :: joinBack).prod =
      joinFront.prod * (joinSize * joinBack.prod) := by simp
  rw [← hjoin, ← h.same, exchangedShape]
  split
  · rename_i hones
    rw [prod_append, prod_of_allOnes hones, Nat.one_mul]
  · rfl

theorem exists_exchangedFront (hones : ¬ joinFront.all (· = 1) = true) :
    ∃ exchangedFront, exchangedShape front back splitSize =
        exchangedFront ++ joinSize :: joinBack ∧
      exchangedFront.length =
        (if front.all (· = 1) then joinFront.length - front.length else joinFront.length) ∧
      exchangedFront.prod = joinFront.prod := by
  by_cases hpre : front.all (· = 1) = true
  · rw [exchangedShape, if_pos hpre, if_pos hpre]
    rcases List.append_eq_append_iff.mp h.same with ⟨middle, hjoin, hback⟩ | ⟨middle, hfront, _⟩
    · refine ⟨middle, hback, by simp [hjoin], ?_⟩
      rw [hjoin, prod_append, prod_of_allOnes hpre, Nat.one_mul]
    · -- everything before the split dimension has size one, so what precedes the joined one has
      refine absurd ?_ hones
      rw [hfront, List.all_append, Bool.and_eq_true] at hpre
      exact hpre.1
  · rw [exchangedShape, if_neg hpre, if_neg hpre]
    exact ⟨joinFront, h.same, rfl, rfl⟩

theorem finishAllToAll_ok (hcount : 0 < splitCount) {head : Nat} {tail : List Nat}
    (hexchanged : exchangedShape front back splitSize = head :: tail) {output : Dense α}
    (hshape : output.shape = (splitCount * head) :: tail) :
    ∃ result, finishAllToAll front.length joinFront.length splitCount
        (front ++ (splitCount * splitSize) :: back) output = .ok result ∧
      result.shape = joinFront ++ (splitCount * joinSize) :: joinBack ∧
      ∀ a < joinFront.prod, ∀ q < splitCount, ∀ j < joinSize * joinBack.prod,
        result.flat ((a * splitCount + q) * (joinSize * joinBack.prod) + j) =
          output.flat (q * (head :: tail).prod + (a * (joinSize * joinBack.prod) + j)) := by
  have hprod := exchangedShape_prod h
  rw [hexchanged] at hprod
  have hnumel : output.numel = splitCount * (joinFront.prod * (joinSize * joinBack.prod)) := by
    rw [numel, hshape, ← hprod, prod_cons, prod_cons, Nat.mul_assoc]
  have hfinalProd : (joinFront ++ (splitCount * joinSize) :: joinBack).prod = output.numel := by
    rw [hnumel]
    simp only [prod_append, prod_cons]
    ring
  rw [finishAllToAll, finalShape_eq h hcount, allOnesBefore_append]
  dsimp only
  by_cases hones : joinFront.all (· = 1) = true
  · rw [if_pos hones, view_of_prod hfinalProd]
    refine ⟨_, rfl, rfl, fun a ha q _ j _ => ?_⟩
    rw [prod_of_allOnes hones, Nat.lt_one_iff] at ha
    rw [ha, hprod, prod_of_allOnes hones]
    simp
  · obtain ⟨exchangedFront, hsplit, hlen, hfront⟩ := exists_exchangedFront h hones
    rw [hexchanged] at hsplit
    have hreshape : (output.shape.set 0 splitCount).insertIdx 1
        (output.shape.getD 0 0 / splitCount) =
        splitCount :: (exchangedFront ++ joinSize :: joinBack) := by
      rw [hshape, ← hsplit]
      simp [Nat.mul_div_cancel_left _ hcount]
    have hview : (splitCount :: (exchangedFront ++ joinSize :: joinBack)).prod = output.numel := by
      rw [hnumel, prod_cons, prod_append, prod_cons, hfront]
    have hmoved : ((⟨splitCount :: (exchangedFront ++ joinSize :: joinBack), output.flat⟩ :
        Dense α).permute (backDims (splitCount :: (exchangedFront ++ joinSize :: joinBack)).length
          exchangedFront.length)).shape =
        exchangedFront ++ splitCount :: joinSize :: joinBack :=
      permuted_backDims exchangedFront (joinSize :: joinBack) splitCount
    have hmerged : (exchangedFront ++ (splitCount * joinSize) :: joinBack).prod =
        (exchangedFront ++ splitCount :: joinSize :: joinBack).prod := by
      simp only [prod_append, prod_cons]
      ring
    have hfinal : (joinFront ++ (splitCount * joinSize) :: joinBack).prod =
        (exchangedFront ++ (splitCount * joinSize) :: joinBack).prod := by
      rw [prod_append, prod_append, hfront]
    have hflat := fun a q j => @flat_backDims _ exchangedFront (joinSize :: joinBack) splitCount a q j
      ⟨splitCount :: (exchangedFront ++ joinSize :: joinBack), output.flat⟩ rfl
    rw [if_neg hones, hreshape, view_of_prod hview, allOnesBefore_append, ← hlen]
    dsimp only
    rw [hmoved, if_pos (by simp), mergeDims_append,
      view_of_prod (by rw [numel, hmoved]; exact hmerged)]
    dsimp only
    have hresult : ∀ a < joinFront.prod, ∀ q < splitCount, ∀ j < joinSize * joinBack.prod,
        ((⟨splitCount :: (exchangedFront ++ joinSize :: joinBack), output.flat⟩ :
          Dense α).permute (backDims (splitCount :: (exchangedFront ++ joinSize :: joinBack)).length
            exchangedFront.length)).flat ((a * splitCount + q) * (joinSize * joinBack.prod) + j) =
          output.flat (q * (head :: tail).prod + (a * (joinSize * joinBack.prod) + j)) := by
      intro a ha q hq j hj
      have hthis := hflat a q j (hfront.symm ▸ ha) hq (by rw [prod_cons]; exact hj)
      rw [prod_cons (l := joinBack), hfront] at hthis
      rw [hprod]
      have hoffset : q * (joinFront.prod * (joinSize * joinBack.prod)) +
          (a * (joinSize * joinBack.prod) + j) =
          (q * joinFront.prod + a) * (joinSize * joinBack.prod) + j := by ring
      rw [hoffset]
      exact hthis
    by_cases hpre : front.all (· = 1) = true
    · rw [if_pos hpre, view_of_prod (by rw [numel]; exact hfinal)]
      exact ⟨_, rfl, rfl, hresult⟩
    · rw [if_neg hpre] at hlen ⊢
      refine ⟨_, rfl, ?_, hresult⟩
      -- nothing was dropped, so the space of the exchange is the local one
      have hsame : exchangedFront ++ joinSize :: joinBack = joinFront ++ joinSize :: joinBack := by
        rw [← hsplit, ← hexchanged, exchangedShape, if_neg hpre, h.same]
      rw [List.append_cancel_right hsame]

end

end Finish

/-! ## The operator -/

theorem exists_split_at {dim : Nat} (hdim : dim < shape.length) :
    ∃ front back, shape = front ++ shape.getD dim 0 :: back ∧ front.length = dim := by
  refine ⟨shape.take dim, shape.drop (dim + 1), ?_, by simp; omega⟩
  have hget : shape.getD dim 0 = shape[dim] := by simp [hdim]
  rw [hget, ← List.drop_eq_getElem_cons hdim, List.take_append_drop]

theorem div_mod_offset {a q j count width : Nat} (hq : q < count) (hj : j < width) :
    ((a * count + q) * width + j) / width % count = q ∧
      ((a * count + q) * width + j) / (count * width) = a ∧
      ((a * count + q) * width + j) % width = j := by
  have hwidth : 0 < width := Nat.lt_of_le_of_lt (Nat.zero_le _) hj
  have hdiv : ((a * count + q) * width + j) / width = a * count + q := by
    rw [Nat.add_comm, Nat.add_mul_div_right _ _ hwidth, Nat.div_eq_of_lt hj, Nat.zero_add]
  refine ⟨?_, ?_, ?_⟩
  · rw [hdiv, Nat.add_comm, Nat.add_mul_mod_self_right, Nat.mod_eq_of_lt hq]
  · rw [Nat.mul_comm count, ← Nat.div_div_eq_div_mul, hdiv, Nat.add_comm,
      Nat.add_mul_div_right _ _ (Nat.lt_of_le_of_lt (Nat.zero_le _) hq), Nat.div_eq_of_lt hq,
      Nat.zero_add]
  · rw [Nat.add_comm, Nat.add_mul_mod_self_right, Nat.mod_eq_of_lt hj]

theorem exists_offset {n front count width : Nat} (hn : n < front * (count * width)) :
    ∃ a < front, ∃ q < count, ∃ j < width, n = (a * count + q) * width + j := by
  have hpos : 0 < count * width := by
    refine Nat.pos_of_ne_zero fun hzero => ?_
    rw [hzero] at hn
    exact Nat.not_lt_zero _ hn
  have hwidth : 0 < width := Nat.pos_of_mul_pos_left hpos
  have hcount : 0 < count := Nat.pos_of_mul_pos_right hpos
  refine ⟨n / (count * width), Nat.div_lt_of_lt_mul (Nat.mul_comm front _ ▸ hn),
    n / width % count, Nat.mod_lt _ hcount, n % width, Nat.mod_lt _ hwidth, ?_⟩
  rw [Nat.mul_comm count width, ← Nat.div_div_eq_div_mul, Nat.div_add_mod', Nat.div_add_mod']

/-- Split, exchange, join: every rank ends with its piece of every rank's tensor, in group order. -/
theorem constructAllToAll_splitConcat {shape : List Nat} {splitDim concatDim splitCount : Nat}
    (hsplit : splitDim < shape.length) (hconcat : concatDim < shape.length)
    (hne : splitDim ≠ concatDim) (hdvd : splitCount ∣ shape.getD splitDim 0)
    (tensors : Nat → Dense α) (hshapes : ∀ q < splitCount, (tensors q).shape = shape) {r : Nat}
    (hr : r < splitCount) :
    ∃ result,
      constructAllToAll splitDim concatDim splitCount ((List.range splitCount).map tensors) r =
        .ok result ∧
      result.Same (concat (shape.set splitDim (shape.getD splitDim 0 / splitCount))
        (fun q => (tensors q).piece splitDim splitCount r) splitCount concatDim) := by
  have hcount : 0 < splitCount := Nat.lt_of_le_of_lt (Nat.zero_le _) hr
  obtain ⟨splitSize, hsize⟩ := hdvd
  obtain ⟨front, back, hshape, rfl⟩ := exists_split_at hsplit
  rw [hsize] at hshape ⊢
  rw [Nat.mul_div_cancel_left _ hcount]
  obtain ⟨joinFront, joinBack, hjoin, hlen⟩ :=
    @exists_split_at (front ++ splitSize :: back) concatDim (by
      rw [hshape] at hconcat
      simpa using hconcat)
  obtain ⟨joinSize, hjoinSize⟩ :
      ∃ joinSize, joinSize = (front ++ splitSize :: back).getD concatDim 0 := ⟨_, rfl⟩
  rw [← hjoinSize] at hjoin
  obtain rfl := hlen
  have hviews : TwoViews front back joinFront joinBack splitSize joinSize := ⟨hjoin, hne⟩
  have hlocal : shape.set front.length splitSize = joinFront ++ joinSize :: joinBack := by
    rw [hshape, ← hjoin]
    simp
  -- every rank's input of the collective
  have hprepared : ∀ q, ∃ y, q < splitCount →
      prepareAllToAll front.length splitCount (tensors q) = .ok y ∧
      (∃ head tail, exchangedShape front back splitSize = head :: tail ∧
        y.shape = (splitCount * head) :: tail) ∧
      ∀ r < splitCount, ∀ m < (front ++ splitSize :: back).prod,
        y.flat (r * (front ++ splitSize :: back).prod + m) =
          (tensors q).flat ((m / (splitSize * back.prod) * splitCount + r) *
            (splitSize * back.prod) + m % (splitSize * back.prod)) := by
    intro q
    by_cases hq : q < splitCount
    · obtain ⟨y, hy⟩ := prepareAllToAll_ok ((hshapes q hq).trans hshape) hcount
      exact ⟨y, fun _ => hy⟩
    · exact ⟨tensors q, fun hlt => absurd hlt hq⟩
  choose prepared hprepared using hprepared
  obtain ⟨head, tail, hexchanged, -⟩ := (hprepared r hr).2.1
  have hinputShape : ∀ q < splitCount, (prepared q).shape = (splitCount * head) :: tail := by
    intro q hq
    obtain ⟨head', tail', hexchanged', hthis⟩ := (hprepared q hq).2.1
    obtain ⟨rfl, rfl⟩ := List.cons.inj (hexchanged.symm.trans hexchanged')
    exact hthis
  have hinputs : ((List.range splitCount).map tensors).mapM (prepareAllToAll front.length splitCount) =
      .ok ((List.range splitCount).map prepared) := by
    rw [List.mapM_map]
    exact mapM_eq_ok fun q hq => (hprepared q (List.mem_range.mp hq)).1
  obtain ⟨output, houtput, houtputShape, houtputFlat⟩ :=
    @exchangeEqual_ok _ ((List.range splitCount).map prepared) splitCount head tail r (by simp) hr
      (by
        intro input hinput
        obtain ⟨q, hq, rfl⟩ := List.mem_map.mp hinput
        exact hinputShape q (List.mem_range.mp hq))
  obtain ⟨result, hresult, hresultShape, hresultFlat⟩ :=
    finishAllToAll_ok hviews hcount hexchanged houtputShape
  have hrun : constructAllToAll front.length joinFront.length splitCount
      ((List.range splitCount).map tensors) r = .ok result := by
    have hown : ((List.range splitCount).map tensors)[r]? = some (tensors r) := by simp [hr]
    rw [constructAllToAll, hinputs]
    dsimp only
    rw [houtput, hown]
    dsimp only
    rw [hshapes r hr, hshape, hresult]
  have hprod : (head :: tail).prod = (front ++ splitSize :: back).prod := by
    rw [← hexchanged, exchangedShape_prod hviews, hjoin]
    simp
  refine ⟨result, hrun, ?_, ?_⟩
  · rw [hresultShape, hlocal, concat, ofFn]
    simp
  · intro n hn
    have hwide : result.numel = joinFront.prod * (splitCount * (joinSize * joinBack.prod)) := by
      rw [numel, hresultShape]
      simp only [prod_append, prod_cons]
      ring
    obtain ⟨a, ha, q, hq, j, hj, rfl⟩ := exists_offset (hwide ▸ hn)
    obtain ⟨hthird, hfirst, hlast⟩ := @div_mod_offset a q j splitCount _ hq hj
    have hm : a * (joinSize * joinBack.prod) + j < (front ++ splitSize :: back).prod := by
      have hmul : (a + 1) * (joinSize * joinBack.prod) ≤
          joinFront.prod * (joinSize * joinBack.prod) := Nat.mul_le_mul_right _ ha
      have hlocalProd : (front ++ splitSize :: back).prod =
          joinFront.prod * (joinSize * joinBack.prod) := by
        rw [hjoin]
        simp
      rw [Nat.add_mul] at hmul
      omega
    have hpieces : ∀ p < splitCount, ((tensors p).piece front.length splitCount r).shape =
        joinFront ++ joinSize :: joinBack := by
      intro p hp
      rw [← hlocal, piece, ofFn]
      dsimp only
      rw [hshapes p hp, hsize, Nat.mul_div_cancel_left _ hcount]
    have hlt : (a * splitCount + q) * (joinSize * joinBack.prod) + j <
        (joinFront ++ (splitCount * joinSize) :: joinBack).prod := by
      rw [numel, hresultShape] at hn
      exact hn
    have hconcatFlat := flat_concat hpieces hlt
    rw [hthird, hfirst, hlast] at hconcatFlat
    have hpieceFlat := @flat_piece _ front back splitCount splitSize r (tensors q)
      ((hshapes q hq).trans hshape) hcount _ hm
    have hinput := (hprepared q hq).2.2 r hr _ hm
    have hexchange := houtputFlat q (by simpa using hq) _ (hprod ▸ hm)
    rw [hlocal, hconcatFlat, hpieceFlat, ← hinput, hresultFlat a ha q hq j hj, hexchange, hprod]
    simp

/-- Two ranks with a matrix of two rows each: the second one gets the right halves. -/
theorem constructAllToAll_splitConcat_halves :
    ∃ result,
      constructAllToAll 1 0 2 ((List.range 2).map fun q => (⟨[2, 4], fun n => 8 * q + n⟩ : Dense Nat)) 1 =
        .ok result ∧
      result.Same (concat ([2, 4].set 1 ([2, 4].getD 1 0 / 2))
        (fun q => (⟨[2, 4], fun n => 8 * q + n⟩ : Dense Nat).piece 1 2 1) 2 0) :=
  @constructAllToAll_splitConcat _ [2, 4] 1 0 2 (by decide) (by decide) (by decide) (by decide) _
    (fun _ _ => rfl) 1 (by decide)

end HyperParallel.Redistribution
