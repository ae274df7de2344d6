import HyperParallel.Foundation.MixedRadix

/-!
# Dense tensors

A tensor is its shape and its elements in row-major order.  Reshaping keeps the
elements where they are; permuting the dimensions moves them.  What is stored
past the last element does not count.
-/

namespace HyperParallel.Foundation

open MixedRadix List

structure Dense (α : Type*) where
  shape : List Nat
  flat : Nat → α

namespace Dense

variable {α : Type*}

def numel (t : Dense α) : Nat := t.shape.prod

/-- The element at a multi-index. -/
def get (t : Dense α) (idx : List Nat) : α := t.flat (value t.shape idx)

def ofFn (shape : List Nat) (elem : List Nat → α) : Dense α := ⟨shape, fun n => elem (digits shape n)⟩

def Same (t u : Dense α) : Prop := t.shape = u.shape ∧ ∀ n < t.numel, t.flat n = u.flat n

def reshape (t : Dense α) (shape : List Nat) : Option (Dense α) :=
  if shape.prod = t.numel then some ⟨shape, t.flat⟩ else none

theorem reshape_of_prod {t : Dense α} {shape : List Nat} (h : shape.prod = t.numel) :
    t.reshape shape = some ⟨shape, t.flat⟩ := if_pos h

/-! ## Permutations of the dimensions -/

def permuted (dims xs : List Nat) : List Nat := dims.map fun axis => xs.getD axis 0

def restored (dims xs : List Nat) : List Nat :=
  (List.range dims.length).map fun axis => xs.getD (dims.idxOf axis) 0

def permute (t : Dense α) (dims : List Nat) : Dense α :=
  ofFn (permuted dims t.shape) fun idx => t.get (restored dims idx)

theorem restored_permuted {dims xs : List Nat} (hdims : dims.Perm (range xs.length)) :
    restored dims (permuted dims xs) = xs := by
  have hlen : dims.length = xs.length := by simpa using hdims.length_eq
  apply ext_getElem
  · simp [restored, hlen]
  · intro axis _ haxis
    have hmem : axis ∈ dims := hdims.mem_iff.mpr (mem_range.mpr haxis)
    have hlt := idxOf_lt_length_of_mem hmem
    simp [restored, permuted, hlt, haxis]

theorem get_permute (t : Dense α) {dims idx : List Nat} (hlen : idx.length = t.shape.length)
    (hdims : dims.Perm (range t.shape.length))
    (hidx : Forall₂ (· < ·) (permuted dims idx) (permuted dims t.shape)) :
    (t.permute dims).flat (value (permuted dims t.shape) (permuted dims idx)) = t.get idx := by
  rw [permute, ofFn]
  dsimp only
  rw [digits_value hidx, restored_permuted (hlen ▸ hdims)]

/-! ## One dimension moved to the front, and back -/

/-- `dims.remove(axis)`, then `dims.insert(0, axis)`. -/
def frontDims (n axis : Nat) : List Nat := ((List.range n).erase axis).insertIdx 0 axis

/-- The first dimension taken out and put before the one at a place. -/
def backDims (n place : Nat) : List Nat :=
  if (List.range n).tail.length ≤ place then (List.range n).tail ++ [0]
  else (List.range n).tail.insertIdx place 0

theorem map_getD_range (xs : List Nat) :
    (range xs.length).map (fun axis => xs.getD axis 0) = xs := by
  apply ext_getElem
  · simp
  · intro i _ hi
    simp [hi]

theorem eraseIdx_length_append {β : Type*} (front back : List β) (mid : β) :
    (front ++ mid :: back).eraseIdx front.length = front ++ back := by
  rw [eraseIdx_append_of_length_le (Nat.le_refl _), Nat.sub_self, eraseIdx_cons_zero]

theorem insertIdx_length_append {β : Type*} (front back : List β) (mid : β) :
    (front ++ back).insertIdx front.length mid = front ++ mid :: back := by
  induction front with
  | nil => simp
  | cons x front ih => simp [insertIdx_succ_cons, ih]

theorem frontDims_eq {n axis : Nat} (haxis : axis < n) :
    frontDims n axis = axis :: (range n).eraseIdx axis := by
  have hget : (range n).idxOf axis = axis := by
    have hidx := (nodup_range (n := n)).idxOf_getElem axis (by simpa using haxis)
    rwa [getElem_range] at hidx
  rw [frontDims, insertIdx_zero, erase_eq_eraseIdx_of_idxOf hget]

theorem permuted_frontDims (front back : List Nat) (mid : Nat) :
    permuted (frontDims (front ++ mid :: back).length front.length) (front ++ mid :: back) =
      mid :: (front ++ back) := by
  rw [frontDims_eq (by simp), permuted, map_cons, ← eraseIdx_map, map_getD_range,
    eraseIdx_length_append]
  simp

theorem permuted_backDims (front back : List Nat) (mid : Nat) :
    permuted (backDims (mid :: (front ++ back)).length front.length) (mid :: (front ++ back)) =
      front ++ mid :: back := by
  have htail : (range (mid :: (front ++ back)).length).tail.map
      (fun axis => (mid :: (front ++ back)).getD axis 0) = front ++ back := by
    rw [map_tail, map_getD_range]
    rfl
  rw [backDims]
  split
  · rename_i hend
    have hback : back = [] := by
      have hlen : (front ++ back).length ≤ front.length := by simpa using hend
      rw [length_append] at hlen
      exact eq_nil_of_length_eq_zero (by omega)
    rw [permuted, map_append, htail, hback]
    simp
  · rw [permuted, map_insertIdx, htail]
    exact insertIdx_length_append front back mid

theorem frontDims_perm {n axis : Nat} (haxis : axis < n) : (frontDims n axis).Perm (range n) := by
  have hmem : axis ∈ range n := mem_range.mpr haxis
  rw [frontDims, insertIdx_zero]
  exact (perm_cons_erase hmem).symm

theorem backDims_perm {n place : Nat} (hpos : 0 < n) (hplace : place < n) :
    (backDims n place).Perm (range n) := by
  obtain ⟨m, rfl⟩ : ∃ m, n = m + 1 := ⟨n - 1, by omega⟩
  have hrange : range (m + 1) = 0 :: (range (m + 1)).tail := by
    rw [range_succ_eq_map]
    rfl
  rw [backDims]
  split
  · conv_rhs => rw [hrange]
    exact perm_append_singleton 0 _
  · conv_rhs => rw [hrange]
    exact perm_insertIdx _ _ (by simp; omega)

/-! ## Row-major offsets -/

theorem pos_of_lt_prod {shape : List Nat} {n : Nat} (h : n < shape.prod) :
    ∀ size ∈ shape, 0 < size := by
  intro size hsize
  refine Nat.pos_of_ne_zero fun hzero => ?_
  rw [prod_eq_zero (hzero ▸ hsize)] at h
  exact Nat.not_lt_zero n h

section Moves

variable {front back : List Nat} {count a d b : Nat}

theorem forall₂_middle (ha : a < front.prod) (hd : d < count) (hb : b < back.prod) :
    Forall₂ (· < ·) (digits front a ++ d :: digits back b) (front ++ count :: back) :=
  List.rel_append (forall₂_digits_lt (pos_of_lt_prod ha) a)
    (.cons hd (forall₂_digits_lt (pos_of_lt_prod hb) b))

theorem forall₂_first (ha : a < front.prod) (hd : d < count) (hb : b < back.prod) :
    Forall₂ (· < ·) (d :: (digits front a ++ digits back b)) (count :: (front ++ back)) :=
  .cons hd (List.rel_append (forall₂_digits_lt (pos_of_lt_prod ha) a)
    (forall₂_digits_lt (pos_of_lt_prod hb) b))

theorem value_middle (ha : a < front.prod) (hb : b < back.prod) :
    value (front ++ count :: back) (digits front a ++ d :: digits back b) =
      (a * count + d) * back.prod + b := by
  rw [value_append (length_digits front a), value_digits ha, value, value_digits hb, prod_cons]
  ring

theorem value_first (ha : a < front.prod) (hb : b < back.prod) :
    value (count :: (front ++ back)) (d :: (digits front a ++ digits back b)) =
      (d * front.prod + a) * back.prod + b := by
  rw [value, value_append (length_digits front a), value_digits ha, value_digits hb, prod_append]
  ring

theorem flat_frontDims {t : Dense α} (hshape : t.shape = front ++ count :: back)
    (ha : a < front.prod) (hd : d < count) (hb : b < back.prod) :
    (t.permute (frontDims t.shape.length front.length)).flat ((d * front.prod + a) * back.prod + b) =
      t.flat ((a * count + d) * back.prod + b) := by
  have hidx : permuted (frontDims t.shape.length front.length)
      (digits front a ++ d :: digits back b) = d :: (digits front a ++ digits back b) := by
    have hmoved := permuted_frontDims (digits front a) (digits back b) d
    simpa [hshape] using hmoved
  have hperm : permuted (frontDims t.shape.length front.length) t.shape =
      count :: (front ++ back) := by
    rw [hshape]
    exact permuted_frontDims front back count
  have hdims : (frontDims t.shape.length front.length).Perm (range t.shape.length) :=
    frontDims_perm (by simp [hshape])
  have hget := @get_permute _ t _ (digits front a ++ d :: digits back b) (by simp [hshape]) hdims
    (by rw [hidx, hperm]; exact forall₂_first ha hd hb)
  rw [hidx, hperm, value_first ha hb] at hget
  rw [hget, get, hshape, value_middle ha hb]

theorem flat_backDims {t : Dense α} (hshape : t.shape = count :: (front ++ back))
    (ha : a < front.prod) (hd : d < count) (hb : b < back.prod) :
    (t.permute (backDims t.shape.length front.length)).flat ((a * count + d) * back.prod + b) =
      t.flat ((d * front.prod + a) * back.prod + b) := by
  have hidx : permuted (backDims t.shape.length front.length)
      (d :: (digits front a ++ digits back b)) = digits front a ++ d :: digits back b := by
    have hmoved := permuted_backDims (digits front a) (digits back b) d
    simpa [hshape] using hmoved
  have hperm : permuted (backDims t.shape.length front.length) t.shape =
      front ++ count :: back := by
    rw [hshape]
    exact permuted_backDims front back count
  have hlen : t.shape.length = front.length + back.length + 1 := by simp [hshape]
  have hdims : (backDims t.shape.length front.length).Perm (range t.shape.length) :=
    backDims_perm (by omega) (by omega)
  have hget := @get_permute _ t _ (d :: (digits front a ++ digits back b)) (by simp [hshape]) hdims
    (by rw [hidx, hperm]; exact forall₂_middle ha hd hb)
  rw [hidx, hperm, value_middle ha hb] at hget
  rw [hget, get, hshape, value_first ha hb]

end Moves

/-! ## Cutting along a dimension, and putting together again -/

/-- The `r`-th of `count` equal pieces along a dimension. -/
def piece (t : Dense α) (dim count r : Nat) : Dense α :=
  let size := t.shape.getD dim 0 / count
  ofFn (t.shape.set dim size) fun idx => t.get (idx.set dim (r * size + idx.getD dim 0))

def concat (shape : List Nat) (ts : Nat → Dense α) (count dim : Nat) : Dense α :=
  let size := shape.getD dim 0
  ofFn (shape.set dim (count * size)) fun idx =>
    (ts (idx.getD dim 0 / size)).get (idx.set dim (idx.getD dim 0 % size))

section Pieces

variable {front back : List Nat} {count size r : Nat}

theorem mod_mul_split (m base size : Nat) :
    m % (size * base) = m / base % size * base + m % base := by
  rw [Nat.mul_comm size, Nat.mod_mul]
  ring

theorem value_digits_mod {shape : List Nat} (hpos : 0 < shape.prod) (n : Nat) :
    value shape (digits shape n) = n % shape.prod := by
  rw [← digits_mod, value_digits (Nat.mod_lt n hpos)]

theorem digits_middle (front back : List Nat) (size n : Nat) :
    digits (front ++ size :: back) n =
      digits front (n / (size * back.prod)) ++ (n / back.prod % size) :: digits back n := by
  rw [digits_append, prod_cons, digits]

theorem flat_piece {t : Dense α} (hshape : t.shape = front ++ (count * size) :: back)
    (hcount : 0 < count) {m : Nat} (hm : m < (front ++ size :: back).prod) :
    (piece t front.length count r).flat m =
      t.flat ((m / (size * back.prod) * count + r) * (size * back.prod) +
        m % (size * back.prod)) := by
  have hprod : (front ++ size :: back).prod = front.prod * (size * back.prod) := by simp
  rw [hprod] at hm
  have hwidth : 0 < size * back.prod := by
    refine Nat.pos_of_ne_zero fun hzero => ?_
    rw [hzero] at hm
    exact Nat.not_lt_zero _ hm
  have hback : 0 < back.prod := Nat.pos_of_mul_pos_left hwidth
  have hfront : m / (size * back.prod) < front.prod :=
    Nat.div_lt_of_lt_mul (Nat.mul_comm front.prod _ ▸ hm)
  have hset : (front ++ (count * size) :: back).set front.length size = front ++ size :: back := by
    simp
  have hsize : (front ++ (count * size) :: back).getD front.length 0 / count = size := by
    simp [Nat.mul_div_cancel_left _ hcount]
  have hidx : (digits (front ++ size :: back) m).set front.length
      (r * size + (digits (front ++ size :: back) m).getD front.length 0) =
      digits front (m / (size * back.prod)) ++
        (r * size + m / back.prod % size) :: digits back m := by
    rw [digits_middle]
    simp [getD_eq_getElem?_getD]
  have hoffset : m / (size * back.prod) * ((count * size) * back.prod) +
      ((r * size + m / back.prod % size) * back.prod + m % back.prod) =
      (m / (size * back.prod) * count + r) * (size * back.prod) + m % (size * back.prod) := by
    rw [mod_mul_split]
    ring
  rw [piece, ofFn]
  dsimp only
  rw [hshape, hsize, hset, hidx, get, hshape, value_append (length_digits front _),
    value_digits hfront, value, value_digits_mod hback, prod_cons, hoffset]

theorem flat_concat {ts : Nat → Dense α} (hts : ∀ q < count, (ts q).shape = front ++ size :: back)
    {n : Nat} (hn : n < (front ++ (count * size) :: back).prod) :
    (concat (front ++ size :: back) ts count front.length).flat n =
      (ts (n / (size * back.prod) % count)).flat
        (n / (count * (size * back.prod)) * (size * back.prod) + n % (size * back.prod)) := by
  have hprod : (front ++ (count * size) :: back).prod =
      front.prod * (count * (size * back.prod)) := by
    simp only [prod_append, prod_cons]
    ring
  rw [hprod] at hn
  have hwide : 0 < count * (size * back.prod) := by
    refine Nat.pos_of_ne_zero fun hzero => ?_
    rw [hzero] at hn
    exact Nat.not_lt_zero _ hn
  have hcount : 0 < count := Nat.pos_of_mul_pos_right hwide
  have hwidth : 0 < size * back.prod := Nat.pos_of_mul_pos_left hwide
  have hback : 0 < back.prod := Nat.pos_of_mul_pos_left hwidth
  have hfront : n / (count * size * back.prod) < front.prod := by
    rw [Nat.mul_assoc]
    exact Nat.div_lt_of_lt_mul (Nat.mul_comm front.prod _ ▸ hn)
  have hgetD : (front ++ size :: back).getD front.length 0 = size := by simp
  have hset : (front ++ size :: back).set front.length (count * size) =
      front ++ (count * size) :: back := by
    simp
  have hcoord : n / back.prod % (count * size) / size = n / (size * back.prod) % count := by
    rw [Nat.mul_comm count, Nat.mod_mul_right_div_self, Nat.div_div_eq_div_mul,
      Nat.mul_comm back.prod]
  have hidx : (digits (front ++ (count * size) :: back) n).set front.length
      ((digits (front ++ (count * size) :: back) n).getD front.length 0 % size) =
      digits front (n / (count * size * back.prod)) ++ (n / back.prod % size) :: digits back n := by
    rw [digits_middle]
    simp [getD_eq_getElem?_getD]
  have hfirst : (digits (front ++ (count * size) :: back) n).getD front.length 0 / size =
      n / (size * back.prod) % count := by
    rw [digits_middle, ← hcoord]
    simp [getD_eq_getElem?_getD]
  have hlt : n / (size * back.prod) % count < count := Nat.mod_lt _ hcount
  rw [concat, ofFn]
  dsimp only
  rw [hgetD, hset, hidx, hfirst, get, hts _ hlt, value_append (length_digits front _),
    value_digits hfront, value, value_digits_mod hback, prod_cons, mod_mul_split, Nat.mul_assoc]

end Pieces

end Dense

end HyperParallel.Foundation
