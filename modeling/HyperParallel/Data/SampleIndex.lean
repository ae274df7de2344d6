import HyperParallel.Data.IndexedReader
import HyperParallel.Foundation.JoinedLists

/-!
# The sample index

Documents in some order are one stream of tokens, and samples of a fixed length
are cut from it.  The builder keeps a document and an offset in it as a cursor;
the reader puts a sample together from two consecutive cursors.
-/

namespace HyperParallel.Data

open Foundation

variable {τ : Type}

/-! ## Building -/

def validateDocumentIds (documentIndex : List Int) (sequenceCount : Nat) : Except String Unit :=
  if documentIndex.any fun id => id < 0 || (sequenceCount : Int) ≤ id then
    .error "Document ID is outside sequence_lengths"
  else .ok ()

def lengthAt (sequenceLengths : List Int) (documentId : Int) : Int :=
  sequenceLengths[documentId.toNat]?.getD 0

/-- The inner loop, over the documents from the cursor's on. -/
def endSample (sequenceLengths : List Int) (extraToken : Int) (lastSample : Bool) :
    List Int → Nat → Int → Int → Except String (Nat × Int)
  | [], _, _, _ => .error "no document left"
  | documentId :: rest, documentPosition, documentOffset, remainingLength =>
    let documentLength := lengthAt sequenceLengths documentId - documentOffset
    let remaining := remainingLength - documentLength
    -- a full sequence steps back by the extra token, which the next one reads again
    if remaining ≤ 0 then
      .ok (documentPosition, documentOffset + (remaining + documentLength - extraToken))
    else if rest ≠ [] then
      endSample sequenceLengths extraToken lastSample rest (documentPosition + 1) 0 remaining
    else if !lastSample then
      .error "The final partial sample was reached before the last sample index"
    else .ok (documentPosition, lengthAt sequenceLengths documentId - extraToken)

def sampleStep (sequenceLengths documentIndex : List Int) (sequenceLength extraToken numSamples : Int)
    (rows : List (Nat × Int)) (samplePosition : Nat) : Except String (List (Nat × Int)) :=
  let cursor := rows.getLast?.getD (0, 0)
  (endSample sequenceLengths extraToken (samplePosition = numSamples)
    (documentIndex.drop cursor.1) cursor.1 cursor.2 (sequenceLength + extraToken)).map
      fun row => rows ++ [row]

/-- The template's element type is chosen so that it holds every position and every length. -/
def buildSampleIdx (sequenceLengths documentIndex : List Int)
    (sequenceLength numEpochs numTokensPerEpoch : Int) (dropLastPartialSequence : Bool)
    (addExtraTokenToSequence : Bool) : Except String (List (Nat × Int)) :=
  let extraToken : Int := if addExtraTokenToSequence then 1 else 0
  let availableTokens := numEpochs * numTokensPerEpoch - extraToken
  let numSamples :=
    if dropLastPartialSequence then availableTokens.tdiv sequenceLength
    else (availableTokens + sequenceLength - 1).tdiv sequenceLength
  if sequenceLength ≤ 0 ∨ numEpochs < 0 ∨ numTokensPerEpoch < 0 then
    .error "Sequence length must be positive and token/epoch counts nonnegative"
  else if availableTokens < 0 then .error "Token count must cover the extra token"
  else if 0 < numSamples ∧ documentIndex.length = 0 then
    .error "Document index must not be empty when building samples"
  else do
    validateDocumentIds documentIndex sequenceLengths.length
    ((List.range numSamples.toNat).map (· + 1)).foldlM
      (sampleStep sequenceLengths documentIndex sequenceLength extraToken numSamples) [(0, 0)]

/-! ## Reading -/

structure TokenSample (τ : Type) where
  text : List τ
  documentIds : List Int
  documentLengths : List Nat
deriving DecidableEq, Repr

/-- `get` of the low-level reader. -/
abbrev RangeReader (τ : Type) := Int → Int → Option Int → Except String (List τ)

section Reading

variable (get : RangeReader τ) (documentIndex : List Int)

def documentAt (documentPosition : Nat) : Except String Int :=
  match documentIndex[documentPosition]? with
  | some documentId => .ok documentId
  | none => .error "index is out of bounds"

def readDocument (documentPosition : Nat) (offset : Int) (length : Option Int) :
    Except String (Int × List τ) := do
  let documentId ← documentAt documentIndex documentPosition
  let part ← get documentId offset length
  return (documentId, part)

def sampleParts (addExtraTokenToSequence : Bool) (first last : Nat × Int) :
    Except String (List (Int × List τ)) :=
  let extra : Int := if addExtraTokenToSequence then 1 else 0
  if first.1 = last.1 then
    (readDocument get documentIndex first.1 first.2 (some (last.2 - first.2 + extra))).map
      fun part => [part]
  else
    ((List.range (last.1 + 1 - first.1)).map (first.1 + ·)).mapM fun documentPosition =>
      readDocument get documentIndex documentPosition
        (if first.1 < documentPosition then 0 else first.2)
        (if documentPosition < last.1 then none else some (last.2 + extra))

def assembleSample (sampleIndex : List (Nat × Int)) (sequenceLength : Nat)
    (addExtraTokenToSequence : Bool) (padTokenId : τ) (shuffledIndex : Int) :
    Except String (TokenSample τ) :=
  match pyGet? sampleIndex shuffledIndex, pyGet? sampleIndex (shuffledIndex + 1) with
  | some first, some last => do
      let parts ← sampleParts get documentIndex addExtraTokenToSequence first last
      let text := (parts.map Prod.snd).flatten
      let length := sequenceLength + if addExtraTokenToSequence then 1 else 0
      return ⟨if text.length < length then text ++ List.replicate (length - text.length) padTokenId
        else text, parts.map Prod.fst, parts.map fun part => part.2.length⟩
  | _, _ => .error "index is out of bounds"

end Reading

/-! ## The documents in a store -/

/-- `get` on the sequences themselves. -/
def readRange (documents : List (List τ)) : RangeReader τ := fun index offset length =>
  match pyGet? documents index with
  | none => .error "index is out of bounds"
  | some sequence =>
    let readLength := length.getD (sequence.length - offset)
    if offset < 0 ∨ readLength < 0 ∨ (sequence.length : Int) < offset + readLength then
      .error "Token range exceeds sequence length"
    else .ok ((sequence.drop offset.toNat).take readLength.toNat)

end HyperParallel.Data
