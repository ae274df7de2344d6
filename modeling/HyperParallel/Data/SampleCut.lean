import HyperParallel.Data.SampleIndex

/-!
# Samples cut the token stream

The cursor before a sample is at a multiple of the sequence length in the stream,
and the one after it is where the sample ends, less the extra token.  So two
consecutive cursors bound the sample's own range of tokens.
-/

namespace HyperParallel.Data

open Foundation List

variable {τ : Type}

def documentsOf (documents : List (List τ)) (order : List Nat) : List (List τ) :=
  order.map fun documentId => documents[documentId]?.getD []

def tokenStream (documents : List (List τ)) (order : List Nat) : List τ :=
  (documentsOf documents order).flatten

/-! ## Places of cursors -/

section Places

variable {parts : List (List τ)} {extra : Nat}

def StartsAt (parts : List (List τ)) (row : Nat × Int) (token : Nat) : Prop :=
  ∃ part offset, parts[row.1]? = some part ∧ row.2 = (offset : Nat) ∧ offset ≤ part.length ∧
    JoinedLists.start parts row.1 + offset = token

def EndsAt (parts : List (List τ)) (extra : Nat) (row : Nat × Int) (token : Nat) : Prop :=
  ∃ part stop, parts[row.1]? = some part ∧ row.2 = (stop : Nat) - (extra : Nat) ∧
    stop ≤ part.length ∧ JoinedLists.start parts row.1 + stop = token

/-- Two consecutive rows around a range of the stream. -/
structure Bounds (parts : List (List τ)) (extra : Nat) (first last : Nat × Int)
    (start stop : Nat) : Prop where
  position_le : first.1 ≤ last.1
  startsAt : StartsAt parts first start
  endsAt : EndsAt parts extra last stop

/--
From a cursor on, the inner loop ends after the tokens that remain, or after all tokens when these
are too few and the sample is the last one.
-/
theorem endSample_spec {sequenceLengths ids : List Int} {lastSample : Bool}
    (hparts : Forall₂ (fun id (part : List τ) => lengthAt sequenceLengths id = part.length)
      ids parts) (hextra : extra ≤ 1) {position offset remaining : Nat} {first : List τ}
    (hfirst : parts.head? = some first) (hoffset : offset ≤ first.length) (hpos : 1 ≤ remaining)
    (henough : lastSample = true ∨ offset + remaining ≤ parts.flatten.length) :
    ∃ k part stop, endSample sequenceLengths extra lastSample ids position offset remaining =
        .ok (position + k, (stop : Nat) - (extra : Nat)) ∧
      parts[k]? = some part ∧ stop ≤ part.length ∧
      JoinedLists.start parts k + stop = min (offset + remaining) parts.flatten.length ∧
      (offset + remaining ≤ parts.flatten.length → extra ≤ stop) := by
  induction hparts generalizing position offset remaining first with
  | nil => cases hfirst
  | @cons id part ids parts hlength hrest ih =>
    obtain rfl : part = first := Option.some.inj hfirst
    rw [endSample]
    rw [flatten_cons, length_append] at henough ⊢
    rw [hlength]
    by_cases hfull : (remaining : Int) - ((part.length : Int) - offset) ≤ 0
    · refine ⟨0, part, offset + remaining, ?_, rfl, by omega, ?_, by omega⟩
      · rw [if_pos hfull, Nat.add_zero]
        refine congrArg (fun place : Int => Except.ok (position, place)) ?_
        push_cast
        omega
      · rw [JoinedLists.start_zero]
        omega
    · rw [if_neg hfull]
      cases hrest with
      | nil =>
        have hlast : lastSample = true := by
          rcases henough with hlast | hle
          · exact hlast
          · rw [flatten_nil, length_nil] at hle
            omega
        subst hlast
        refine ⟨0, part, part.length, rfl, rfl, le_rfl, ?_, ?_⟩
        · rw [JoinedLists.start_zero, flatten_nil, length_nil]
          omega
        · rw [flatten_nil, length_nil]
          omega
      | @cons id' part' ids parts hlength' hrest =>
        rw [if_pos (by simp)]
        have hleft : (remaining : Int) - ((part.length : Int) - offset) =
            ((offset + remaining - part.length : Nat) : Int) := by omega
        rw [hleft]
        obtain ⟨k, found, stop, hrun, hfound, hstop, hsum, hkept⟩ :=
          @ih (position + 1) 0 (offset + remaining - part.length) part' rfl (Nat.zero_le _)
            (by omega) (by
              rcases henough with hlast | hle
              · exact .inl hlast
              · exact .inr (by omega))
        refine ⟨k + 1, found, stop, ?_, hfound, hstop, ?_, ?_⟩
        · rw [show position + (k + 1) = position + 1 + k by omega]
          exact hrun
        · rw [JoinedLists.start, map_cons, take_succ_cons, sum_cons, ← JoinedLists.start]
          omega
        · intro hle
          exact hkept (by omega)

end Places

/-! ## All rows -/

section Rows

variable {documents : List (List τ)} {order : List Nat}

def InStore (documents : List (List τ)) (order : List Nat) : Prop :=
  ∀ documentId ∈ order, documentId < documents.length

theorem validateDocumentIds_ok (h : InStore documents order) :
    validateDocumentIds (order.map Nat.cast) documents.length = .ok () := by
  rw [validateDocumentIds, if_neg]
  simp only [any_eq_true, Bool.or_eq_true, decide_eq_true_eq, mem_map, not_exists, not_and, not_or]
  rintro _ ⟨documentId, hmem, rfl⟩
  have hlt := h documentId hmem
  omega

theorem lengthAt_natCast {documentId : Nat} :
    lengthAt (documents.map fun document => (document.length : Int)) documentId =
      (documents[documentId]?.getD []).length := by
  rw [lengthAt, Int.toNat_natCast, getElem?_map]
  cases documents[documentId]? <;> rfl

theorem forall₂_documentsOf (documents : List (List τ)) (order : List Nat) :
    Forall₂ (fun id (part : List τ) =>
        lengthAt (documents.map fun document => (document.length : Int)) id = part.length)
      (order.map Nat.cast) (documentsOf documents order) := by
  rw [documentsOf, forall₂_map_left_iff, forall₂_map_right_iff, forall₂_same]
  intro documentId _
  exact lengthAt_natCast

def sampleCount (tokens sequenceLength extra : Nat) (dropLast : Bool) : Nat :=
  if dropLast then (tokens - extra) / sequenceLength
  else (tokens - extra + sequenceLength - 1) / sequenceLength

section Count

variable {tokens sequenceLength extra samplePosition : Nat} {dropLast : Bool}

theorem complete_of_succ_lt (hlength : 0 < sequenceLength) (hextra : extra ≤ tokens)
    (h : samplePosition + 1 < sampleCount tokens sequenceLength extra dropLast) :
    samplePosition * sequenceLength + (sequenceLength + extra) ≤ tokens := by
  have hnext : (samplePosition + 2) * sequenceLength ≤ tokens - extra + sequenceLength - 1 := by
    rw [sampleCount] at h
    cases dropLast with
    | true =>
      have hle := (Nat.le_div_iff_mul_le hlength).mp (Nat.succ_le_of_lt h)
      exact hle.trans (by omega)
    | false => exact (Nat.le_div_iff_mul_le hlength).mp (Nat.succ_le_of_lt h)
  have hexpand : (samplePosition + 2) * sequenceLength =
      samplePosition * sequenceLength + sequenceLength + sequenceLength := by ring
  omega

theorem complete_of_dropLast (hlength : 0 < sequenceLength) (hextra : extra ≤ tokens)
    (h : samplePosition < sampleCount tokens sequenceLength extra true) :
    samplePosition * sequenceLength + (sequenceLength + extra) ≤ tokens := by
  have hle : (samplePosition + 1) * sequenceLength ≤ tokens - extra :=
    (Nat.le_div_iff_mul_le hlength).mp (Nat.succ_le_of_lt h)
  rw [Nat.succ_mul] at hle
  omega

theorem starts_before_end (hlength : 0 < sequenceLength)
    (h : samplePosition < sampleCount tokens sequenceLength extra dropLast) :
    samplePosition * sequenceLength + extra < tokens := by
  have hnext : (samplePosition + 1) * sequenceLength ≤ tokens - extra + sequenceLength - 1 := by
    rw [sampleCount] at h
    cases dropLast with
    | true =>
      have hle := (Nat.le_div_iff_mul_le hlength).mp (Nat.succ_le_of_lt h)
      exact hle.trans (by omega)
    | false => exact (Nat.le_div_iff_mul_le hlength).mp (Nat.succ_le_of_lt h)
  rw [Nat.succ_mul] at hnext
  omega

theorem le_sampleCount (hlength : 0 < sequenceLength)
    (h : samplePosition * sequenceLength + extra ≤ tokens) :
    samplePosition ≤ sampleCount tokens sequenceLength extra dropLast := by
  rw [sampleCount]
  cases dropLast with
  | true => exact (Nat.le_div_iff_mul_le hlength).mpr (by omega)
  | false => exact (Nat.le_div_iff_mul_le hlength).mpr (by omega)

end Count

structure RowsBound (parts : List (List τ)) (sequenceLength extra count done : Nat)
    (rows : List (Nat × Int)) : Prop where
  length_eq : rows.length = done + 1
  bounds : ∀ i < done, ∃ first last, rows[i]? = some first ∧ rows[i + 1]? = some last ∧
    Bounds parts extra first last (i * sequenceLength)
      (min (i * sequenceLength + (sequenceLength + extra)) parts.flatten.length)
  cursor : done < count → ∃ row, rows.getLast? = some row ∧
    StartsAt parts row (done * sequenceLength)

theorem RowsBound.step {sequenceLength extra count done : Nat} {dropLast : Bool}
    {rows : List (Nat × Int)} (hlength : 0 < sequenceLength) (hextra : extra ≤ 1)
    (hcount : count =
      sampleCount (tokenStream documents order).length sequenceLength extra dropLast)
    (hcover : extra ≤ (tokenStream documents order).length)
    (h : RowsBound (documentsOf documents order) sequenceLength extra count done rows)
    (hdone : done < count) :
    ∃ rows', sampleStep (documents.map fun document => (document.length : Int))
        (order.map Nat.cast) sequenceLength extra count rows (done + 1) = .ok rows' ∧
      RowsBound (documentsOf documents order) sequenceLength extra count (done + 1) rows' := by
  obtain ⟨⟨position, offsetValue⟩, hrow, part, offset, hpart, hvalue, hle, htoken⟩ := h.cursor hdone
  dsimp only at hpart hvalue htoken
  subst hvalue
  have htotal : JoinedLists.start (documentsOf documents order) position +
      ((documentsOf documents order).drop position).flatten.length =
        (tokenStream documents order).length := by
    rw [JoinedLists.start_eq_length_take, ← length_append, ← flatten_append,
      take_append_drop, tokenStream]
  have hcomplete : decide (((done + 1 : Nat) : Int) = count) = true ∨
      offset + (sequenceLength + extra) ≤
        ((documentsOf documents order).drop position).flatten.length := by
    rcases Nat.lt_or_ge (done + 1) count with hlt | hge
    · right
      have hfits := complete_of_succ_lt hlength hcover (hcount ▸ hlt)
      omega
    · left
      rw [decide_eq_true_iff]
      omega
  have hhead : ((documentsOf documents order).drop position).head? = some part := by
    rw [head?_drop, hpart]
  obtain ⟨k, found, stop, hrun, hfound, hstop, hsum, hkept⟩ :=
    @endSample_spec _ _ extra _ _ _ (forall₂_drop position (forall₂_documentsOf documents order))
      hextra position _ _ _ hhead hle (by omega) hcomplete
  have hplace : (documentsOf documents order)[position + k]? = some found := by
    rw [← getElem?_drop]
    exact hfound
  have hend : JoinedLists.start (documentsOf documents order) (position + k) + stop =
      min (done * sequenceLength + (sequenceLength + extra))
        (documentsOf documents order).flatten.length := by
    rw [JoinedLists.start_add, ← tokenStream]
    omega
  refine ⟨rows ++ [(position + k, (stop : Int) - (extra : Int))], ?_, ?_, ?_, ?_⟩
  · rw [sampleStep, hrow, Option.getD_some, ← Nat.cast_add]
    dsimp only
    rw [hrun]
    rfl
  · rw [length_append, h.length_eq, length_singleton]
  · intro i hi
    rcases Nat.lt_or_ge i done with hlt | hge
    · obtain ⟨first, last, hfirst, hlast, hbounds⟩ := h.bounds i hlt
      refine ⟨first, last, ?_, ?_, hbounds⟩
      · rw [getElem?_append_left (by rw [h.length_eq]; omega)]
        exact hfirst
      · rw [getElem?_append_left (by rw [h.length_eq]; omega)]
        exact hlast
    · obtain rfl : i = done := by omega
      refine ⟨(position, (offset : Int)), (position + k, (stop : Int) - (extra : Int)), ?_, ?_, ?_⟩
      · rw [getElem?_append_left (by rw [h.length_eq]; omega), ← hrow,
          getLast?_eq_getElem?, h.length_eq, Nat.add_sub_cancel]
      · rw [← h.length_eq, getElem?_concat_length]
      · exact ⟨Nat.le_add_right _ _, ⟨part, offset, hpart, rfl, hle, htoken⟩,
          ⟨found, stop, hplace, rfl, hstop, hend⟩⟩
  · intro hnext
    have hfits := complete_of_succ_lt hlength hcover (hcount ▸ hnext)
    have hover : extra ≤ stop := hkept (by omega)
    refine ⟨_, getLast?_concat, found, stop - extra, hplace, by omega, by omega, ?_⟩
    rw [← tokenStream] at hend
    rw [Nat.succ_mul]
    dsimp only
    omega

def extraTokens (addExtraTokenToSequence : Bool) : Nat := if addExtraTokenToSequence then 1 else 0

theorem extraTokens_le (addExtra : Bool) : extraTokens addExtra ≤ 1 := by cases addExtra <;> decide

theorem cast_extraTokens (addExtra : Bool) :
    ((extraTokens addExtra : Nat) : Int) = if addExtra then 1 else 0 := by
  cases addExtra <;> rfl

theorem cast_sampleCount {tokens sequenceLength extra : Nat} (hlength : 0 < sequenceLength)
    (hcover : extra ≤ tokens) (dropLast : Bool) :
    (if dropLast then ((tokens : Int) - extra).tdiv sequenceLength
      else ((tokens : Int) - extra + sequenceLength - 1).tdiv sequenceLength) =
        (sampleCount tokens sequenceLength extra dropLast : Nat) := by
  have havailable : (tokens : Int) - extra = ((tokens - extra : Nat) : Int) := by omega
  have hround : (tokens : Int) - extra + sequenceLength - 1 =
      ((tokens - extra + sequenceLength - 1 : Nat) : Int) := by omega
  rw [hround, havailable, ← Int.ofNat_tdiv, ← Int.ofNat_tdiv, sampleCount]
  cases dropLast <;> rfl

theorem buildSampleIdx_rowsBound {sequenceLength numEpochs numTokensPerEpoch : Nat}
    {dropLast addExtra : Bool} (hlength : 0 < sequenceLength) (hvalid : InStore documents order)
    (htokens : (tokenStream documents order).length = numEpochs * numTokensPerEpoch)
    (hcover : extraTokens addExtra ≤ (tokenStream documents order).length) :
    ∃ rows, buildSampleIdx (documents.map fun document => (document.length : Int))
        (order.map Nat.cast) sequenceLength numEpochs numTokensPerEpoch dropLast addExtra =
          .ok rows ∧
      let count := sampleCount (tokenStream documents order).length sequenceLength
        (extraTokens addExtra) dropLast
      RowsBound (documentsOf documents order) sequenceLength (extraTokens addExtra) count count
        rows := by
  obtain ⟨count, hcount⟩ : ∃ count, sampleCount (tokenStream documents order).length
    sequenceLength (extraTokens addExtra) dropLast = count := ⟨_, rfl⟩
  have hproduct : (numEpochs : Int) * numTokensPerEpoch =
      ((tokenStream documents order).length : Nat) := by
    rw [htokens, Nat.cast_mul]
  have hsamples := cast_sampleCount hlength hcover dropLast
  rw [hcount] at hsamples
  have hsome : 0 < count → order ≠ [] := by
    rintro hpos rfl
    have hbefore := starts_before_end hlength (hcount.symm ▸ hpos)
    simp [tokenStream, documentsOf] at hbefore
  rw [buildSampleIdx]
  simp only [hproduct, ← cast_extraTokens, hsamples, Int.toNat_natCast]
  rw [if_neg (by omega), if_neg (by omega), if_neg (by
    rintro ⟨hpos, hnone⟩
    exact hsome (by omega) (map_eq_nil_iff.mp (length_eq_zero_iff.mp hnone))),
    length_map, validateDocumentIds_ok hvalid, hcount]
  have hrun := @exists_foldlM _ _ _ (sampleStep
      (documents.map fun document => (document.length : Int)) (order.map Nat.cast) sequenceLength
        (extraTokens addExtra) count)
    (fun seen rows => RowsBound (documentsOf documents order) sequenceLength
      (extraTokens addExtra) count seen.length rows)
    ((range count).map (· + 1)) [(0, 0)] ?_ ?_
  · simp only [length_map, length_range] at hrun
    exact hrun
  · intro seen samplePosition rest rows hsplit hrows
    have hposition : samplePosition = seen.length + 1 := by
      have hget := congrArg (fun xs : List Nat => xs[seen.length]?) hsplit
      simp only [getElem?_map, getElem?_append_right (Nat.le_refl _), Nat.sub_self,
        getElem?_cons_zero, Option.map_eq_some_iff] at hget
      obtain ⟨i, hi, rfl⟩ := hget
      obtain ⟨-, rfl⟩ := List.getElem?_eq_some_iff.mp hi
      rw [getElem_range]
    have hlt : seen.length < count := by
      have hlen := congrArg List.length hsplit
      simp only [length_map, length_range, length_append, length_cons] at hlen
      omega
    obtain ⟨rows', hstep, hbound⟩ := hrows.step hlength (extraTokens_le addExtra) hcount.symm
      hcover hlt
    refine ⟨rows', ?_, ?_⟩
    · rw [hposition]
      exact hstep
    · rw [length_append, length_singleton]
      exact hbound
  · refine ⟨rfl, by simp, fun hpos => ⟨(0, 0), rfl, ?_⟩⟩
    obtain ⟨part, parts, hparts⟩ : ∃ part parts, documentsOf documents order = part :: parts :=
      exists_cons_of_ne_nil (by simpa [documentsOf] using hsome hpos)
    exact ⟨part, 0, by rw [hparts]; rfl, rfl, Nat.zero_le _, by simp⟩

end Rows

/-! ## Samples from rows -/

section Samples

variable {documents : List (List τ)} {order : List Nat}

theorem readDocument_eq {position : Nat} {part : List τ} (hvalid : InStore documents order)
    (hpart : (documentsOf documents order)[position]? = some part) :
    ∃ documentId : Int, ∀ (offset length : Nat) (asked : Option Int),
      offset + length ≤ part.length → asked.getD ((part.length : Int) - offset) = length →
        readDocument (readRange documents) (order.map Nat.cast) position offset asked =
          .ok (documentId, (part.drop offset).take length) := by
  rw [documentsOf, getElem?_map, Option.map_eq_some_iff] at hpart
  obtain ⟨documentId, hid, hpart⟩ := hpart
  have hlt := hvalid documentId (mem_of_getElem? hid)
  rw [getElem?_eq_getElem hlt, Option.getD_some] at hpart
  refine ⟨documentId, fun offset length asked hle hasked => ?_⟩
  have hat : documentAt (order.map Nat.cast) position = .ok (documentId : Int) := by
    rw [documentAt, getElem?_map, hid]
    rfl
  have hread : readRange documents documentId offset asked =
      .ok ((part.drop offset).take length) := by
    rw [readRange, pyGet?_natCast, getElem?_eq_getElem hlt, hpart]
    dsimp only
    rw [hasked, if_neg (by omega), Int.toNat_natCast, Int.toNat_natCast]
  rw [readDocument, hat]
  change (readRange documents documentId offset asked >>= _) = _
  rw [hread]
  rfl

theorem sampleParts_eq {addExtra : Bool} {first last : Nat × Int} {start stop : Nat}
    (hvalid : InStore documents order) (hle : start ≤ stop)
    (h : Bounds (documentsOf documents order) (extraTokens addExtra) first last start stop) :
    ∃ parts, sampleParts (readRange documents) (order.map Nat.cast) addExtra first last =
        .ok parts ∧
      (parts.map Prod.snd).flatten =
        ((tokenStream documents order).drop start).take (stop - start) := by
  obtain ⟨p, o⟩ := first
  obtain ⟨p', o'⟩ := last
  obtain ⟨hposition, ⟨part, offset, hpart, hoffset, hoffsetle, rfl⟩,
    ⟨part', stop', hpart', hstop, hstople, rfl⟩⟩ := h
  dsimp only at hposition hpart hoffset hpart' hstop hle ⊢
  subst hoffset hstop
  obtain ⟨documentId, hread⟩ := readDocument_eq hvalid hpart
  obtain ⟨documentId', hread'⟩ := readDocument_eq hvalid hpart'
  rw [sampleParts, ← cast_extraTokens]
  dsimp only
  by_cases hsame : p = p'
  · -- one slice of one document
    subst hsame
    obtain rfl : part = part' := Option.some.inj (hpart.symm.trans hpart')
    rw [if_pos rfl, hread offset (stop' - offset) _ (by omega) (by
      rw [Option.getD_some]
      omega)]
    refine ⟨_, rfl, ?_⟩
    have hwidth : JoinedLists.start (documentsOf documents order) p + stop' -
        (JoinedLists.start (documentsOf documents order) p + offset) = stop' - offset := by omega
    rw [map_singleton, flatten_singleton, hwidth,
      JoinedLists.range_within hpart (by omega), tokenStream]
  · -- the rest of a document, the documents between and the beginning of another
    rw [if_neg hsame]
    obtain ⟨k, hk⟩ := Nat.exists_eq_add_of_le
      (Nat.succ_le_of_lt (Nat.lt_of_le_of_ne hposition hsame))
    obtain rfl : p' = p + 1 + k := hk
    obtain ⟨piece, hpiece⟩ : ∃ piece : Nat → List τ, ∀ q, piece q =
        if q = p then part.drop offset
        else if q = p + 1 + k then part'.take stop'
        else (documentsOf documents order)[q]?.getD [] := ⟨_, fun _ => rfl⟩
    have hpositions : (range (p + 1 + k + 1 - p)).map (p + ·) =
        p :: (List.range' (p + 1) k ++ [p + 1 + k]) := by
      rw [← List.range'_eq_map_range, show p + 1 + k + 1 - p = k + 1 + 1 by omega,
        List.range'_succ, List.range'_concat, Nat.one_mul]
    obtain ⟨hlast, -⟩ := List.getElem?_eq_some_iff.mp hpart'
    have hmiddle : (List.range' (p + 1) k).map piece =
        ((documentsOf documents order).drop (p + 1)).take k := by
      refine ext_getElem (by simp; omega) fun i hi _ => ?_
      rw [length_map, length_range'] at hi
      rw [getElem_map, getElem_range', hpiece, if_neg (by omega), if_neg (by omega),
        getElem?_eq_getElem (by omega), Option.getD_some, getElem_take, getElem_drop]
      simp
    obtain ⟨pieces, hrun, hsnd⟩ := @exists_mapM_snd _ _ _ _ (fun documentPosition =>
        readDocument (readRange documents) (order.map Nat.cast) documentPosition
          (if p < documentPosition then 0 else (offset : Int))
          (if documentPosition < p + 1 + k then none
            else some ((stop' : Int) - (extraTokens addExtra : Nat) + (extraTokens addExtra : Nat))))
      piece ((range (p + 1 + k + 1 - p)).map (p + ·)) (by
        intro q hq
        rw [hpositions, mem_cons, mem_append, mem_range'_1, mem_singleton] at hq
        rw [hpiece]
        rcases hq with rfl | hmid | rfl
        · refine ⟨documentId, ?_⟩
          rw [if_neg (by omega), if_pos (by omega), if_pos rfl,
            hread offset (part.length - offset) none (by omega) (by
              rw [Option.getD_none]
              omega),
            take_of_length_le (by rw [length_drop])]
        · obtain ⟨between, hbetween⟩ : ∃ between, (documentsOf documents order)[q]? =
            some between := ⟨_, getElem?_eq_getElem (by omega)⟩
          obtain ⟨id, hid⟩ := readDocument_eq hvalid hbetween
          refine ⟨id, ?_⟩
          rw [if_pos (by omega), if_pos (by omega), if_neg (by omega), if_neg (by omega), hbetween,
            Option.getD_some]
          have hall := hid 0 between.length none (by omega) (by simp)
          rwa [drop_zero, take_length] at hall
        · refine ⟨documentId', ?_⟩
          rw [if_pos (by omega), if_neg (by omega), if_neg (by omega), if_pos rfl]
          exact hread' 0 stop' _ (by omega) (by
            rw [Option.getD_some]
            omega))
    refine ⟨pieces, hrun, ?_⟩
    rw [hsnd, hpositions, map_cons, map_append, hmiddle, map_singleton, hpiece p, if_pos rfl,
      hpiece (p + 1 + k), if_neg (by omega), if_pos rfl, flatten_cons, flatten_append,
      flatten_singleton, JoinedLists.range_across hpart hpart' hoffsetle hstople, tokenStream]

def sampleWindow (stream : List τ) (sequenceLength extra i : Nat) : List τ :=
  (stream.drop (i * sequenceLength)).take (sequenceLength + extra)

theorem last_of_length_lt {stream : List τ} {sequenceLength extra i : Nat} {dropLast : Bool}
    (hlength : 0 < sequenceLength) (hcover : extra ≤ stream.length)
    (hi : i < sampleCount stream.length sequenceLength extra dropLast)
    (hshort : (sampleWindow stream sequenceLength extra i).length < sequenceLength + extra) :
    i + 1 = sampleCount stream.length sequenceLength extra dropLast ∧ dropLast = false := by
  rw [sampleWindow, length_take, length_drop] at hshort
  constructor
  · by_contra hne
    have hfits := @complete_of_succ_lt _ _ _ i dropLast hlength hcover (by omega)
    omega
  · cases dropLast with
    | false => rfl
    | true =>
      have hfits := complete_of_dropLast hlength hcover hi
      omega

structure CutsStream (documents : List (List τ)) (order : List Nat) (sequenceLength : Nat)
    (addExtra dropLast : Bool) (padTokenId : τ) (rows : List (Nat × Int)) : Prop where
  length_eq : rows.length = sampleCount (tokenStream documents order).length sequenceLength
    (extraTokens addExtra) dropLast + 1
  sample : ∀ i : Nat, i + 1 < rows.length →
    let window := sampleWindow (tokenStream documents order) sequenceLength (extraTokens addExtra) i
    ∃ sample, assembleSample (readRange documents) (order.map Nat.cast) rows sequenceLength
        addExtra padTokenId i = .ok sample ∧
      sample.text = window ++
        List.replicate (sequenceLength + extraTokens addExtra - window.length) padTokenId ∧
      (window.length < sequenceLength + extraTokens addExtra →
        i + 2 = rows.length ∧ dropLast = false)

theorem RowsBound.cutsStream {sequenceLength : Nat} {addExtra dropLast : Bool}
    {rows : List (Nat × Int)} (padTokenId : τ) (hlength : 0 < sequenceLength)
    (hvalid : InStore documents order)
    (hcover : extraTokens addExtra ≤ (tokenStream documents order).length)
    (h : let count := sampleCount (tokenStream documents order).length sequenceLength
          (extraTokens addExtra) dropLast
      RowsBound (documentsOf documents order) sequenceLength (extraTokens addExtra) count count
        rows) :
    CutsStream documents order sequenceLength addExtra dropLast padTokenId rows := by
  refine ⟨h.length_eq, fun i hi => ?_⟩
  rw [h.length_eq, Nat.add_lt_add_iff_right] at hi
  obtain ⟨first, last, hfirst, hlast, hbounds⟩ := h.bounds i hi
  have hbefore := starts_before_end hlength hi
  rw [← tokenStream] at hbounds
  obtain ⟨parts, hparts, htext⟩ := sampleParts_eq hvalid (by omega) hbounds
  have hwindow : (parts.map Prod.snd).flatten = sampleWindow (tokenStream documents order)
      sequenceLength (extraTokens addExtra) i := by
    rw [htext, sampleWindow, take_eq_take_iff, length_drop]
    omega
  obtain ⟨window, hshort⟩ : ∃ window, sampleWindow (tokenStream documents order)
    sequenceLength (extraTokens addExtra) i = window := ⟨_, rfl⟩
  rw [hshort] at hwindow
  have hwidth : (sequenceLength + if addExtra then 1 else 0) =
      sequenceLength + extraTokens addExtra := by rw [extraTokens]
  refine ⟨_, by
    rw [assembleSample, ← Nat.cast_succ, pyGet?_natCast, pyGet?_natCast, hfirst, hlast]
    change (sampleParts (readRange documents) (order.map Nat.cast) addExtra first last >>= _) = _
    rw [hparts]
    rfl, ?_, fun hless => ?_⟩
  · dsimp only
    rw [hwindow, hshort, hwidth]
    split
    · rfl
    · rename_i hlong
      rw [Nat.sub_eq_zero_of_le (by omega), replicate_zero, append_nil]
  · rw [h.length_eq]
    obtain ⟨hend, hdrop⟩ := last_of_length_lt hlength hcover hi hless
    exact ⟨by omega, hdrop⟩

end Samples

end HyperParallel.Data
