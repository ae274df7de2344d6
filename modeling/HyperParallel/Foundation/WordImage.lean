import HyperParallel.Foundation.FixedWidth

/-!
# Images of 32-bit words

A binary image made of sections of little-endian words.  `Holds words start
part` says that a part is found `start` words into the image; a section is found
behind all the words of the sections before it.
-/

namespace HyperParallel.Foundation.WordImage

open Foundation.FixedWidth List

def encode (words : List UInt32) : List UInt8 := words.flatMap fun word => littleEndian 4 word.toNat

def readWord (bytes : List UInt8) (address : Nat) : UInt32 :=
  UInt32.ofNat (ofLittleEndian ((bytes.drop address).take 4))

def Holds (words : List UInt32) (start : Nat) (part : List UInt32) : Prop :=
  part <+: words.drop start

variable {words part : List UInt32} {start inner : Nat}

theorem holds_flatten {sections : List (List UInt32)} {i : Nat} (h : sections[i]? = some part) :
    Holds sections.flatten (sections.take i).flatten.length part := by
  obtain ⟨hlt, hget⟩ := List.getElem?_eq_some_iff.mp h
  have hsplit : sections = sections.take i ++ part :: sections.drop (i + 1) := by
    rw [← hget, ← drop_eq_getElem_cons hlt, take_append_drop]
  have hflatten : sections.flatten
      = (sections.take i).flatten ++ (part ++ (sections.drop (i + 1)).flatten) := by
    rw [← flatten_cons, ← flatten_append, ← hsplit]
  rw [Holds, hflatten, drop_left]
  exact prefix_append _ _

theorem Holds.trans {sub : List UInt32} (h : Holds words start part)
    (hsub : Holds part inner sub) : Holds words (start + inner) sub := by
  obtain ⟨tail, htail⟩ := h
  obtain ⟨tail', htail'⟩ := hsub
  rw [Holds, ← drop_drop, ← htail]
  by_cases hle : inner ≤ part.length
  · rw [drop_append_of_le_length hle, ← htail', append_assoc]
    exact prefix_append _ _
  · rw [drop_of_length_le (Nat.le_of_not_le hle)] at htail'
    rw [(append_eq_nil_iff.mp htail').1]
    exact nil_prefix

theorem Holds.getElem? (h : Holds words start part) {j : Nat} (hj : j < part.length) :
    words[start + j]? = some part[j] := by
  obtain ⟨tail, htail⟩ := h
  rw [← getElem?_drop, ← htail, getElem?_append_left hj, getElem?_eq_getElem hj]

theorem readWord_encode {i : Nat} {word : UInt32} (h : words[i]? = some word) :
    readWord (encode words) (4 * i) = word := by
  obtain ⟨hlt, hget⟩ := List.getElem?_eq_some_iff.mp h
  have hdrop : (encode words).drop (4 * i) = encode (words.drop i) :=
    drop_flatMap (fun _ => length_littleEndian 4 _) words i
  have htake : (encode (words.drop i)).take 4 = littleEndian 4 word.toNat := by
    rw [drop_eq_getElem_cons hlt, hget, encode, flatMap_cons]
    exact take_left' (length_littleEndian 4 _)
  have hbound : word.toNat < 256 ^ 4 := word.toNat_lt
  rw [readWord, hdrop, htake, ofLittleEndian_of_lt hbound, UInt32.ofNat_toNat]

theorem Holds.readWord_of_getElem? (h : Holds words start part) {j : Nat} {word : UInt32}
    (hj : part[j]? = some word) : readWord (encode words) (4 * start + 4 * j) = word := by
  obtain ⟨hlt, rfl⟩ := List.getElem?_eq_some_iff.mp hj
  rw [← Nat.mul_add]
  exact readWord_encode (h.getElem? hlt)

theorem Holds.readWord (h : Holds words start part) {j : Nat} (hj : j < part.length) :
    readWord (encode words) (4 * start + 4 * j) = part[j] :=
  h.readWord_of_getElem? (List.getElem?_eq_getElem hj)

/-- The records of an array of `width` words each. -/
theorem holds_flatMap {α : Type*} {width : Nat} {record : α → List UInt32}
    (hrecord : ∀ x, (record x).length = width) {xs : List α} {i : Nat} {x : α}
    (hx : xs[i]? = some x) : Holds (xs.flatMap record) (width * i) (record x) := by
  obtain ⟨hlt, hget⟩ := List.getElem?_eq_some_iff.mp hx
  rw [Holds, drop_flatMap hrecord, drop_eq_getElem_cons hlt, hget, flatMap_cons]
  exact prefix_append _ _

end HyperParallel.Foundation.WordImage
