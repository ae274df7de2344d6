import HyperParallel.Foundation.ListOrder
import HyperParallel.FullyShard.ParkedBuffers
import HyperParallel.FullyShard.Unshard
import Mathlib.Tactic.Ring

/-!
# Chunks and gathered rows

Every element of a parameter is in one chunk, and unpacking takes it from the row of
that chunk, at its place in it.
-/

namespace HyperParallel.FullyShard

open Foundation List

namespace HsdpParam

variable (param : HsdpParam) (worldSize index : Nat)

def outer : Nat := (param.shape.take param.shardDim).prod

def inner : Nat := (param.shape.drop (param.shardDim + 1)).prod

def extent : Nat := param.shape.getD param.shardDim 0

def chunkRows : Nat := (param.extent + worldSize - 1) / worldSize

def chunkFirst : Nat := min param.extent (index * param.chunkRows worldSize)

def chunkLast : Nat := min param.extent ((index + 1) * param.chunkRows worldSize)

def chunkRun : Nat := (param.chunkLast worldSize index - param.chunkFirst worldSize index) *
  param.inner

theorem prod_shape : param.shape.prod = param.outer * (param.extent * param.inner) :=
  param.prod_shape_eq

theorem chunk_eq : param.chunk worldSize index = (range param.outer).flatMap fun o =>
    List.range' ((o * param.extent + param.chunkFirst worldSize index) * param.inner)
      (param.chunkRun worldSize index) := rfl

theorem length_chunk_eq :
    (param.chunk worldSize index).length = param.outer * param.chunkRun worldSize index := by
  rw [chunk_eq]
  refine ListOrder.length_flatMap_range _ (· * param.chunkRun worldSize index) (Nat.zero_mul _) ?_
  intro o _
  rw [length_range', Nat.add_mul, Nat.one_mul]

variable {param worldSize index}

theorem getElem?_chunk {o y : Nat} (ho : o < param.outer)
    (hy : y < param.chunkRun worldSize index) :
    (param.chunk worldSize index)[o * param.chunkRun worldSize index + y]? =
      some ((o * param.extent + param.chunkFirst worldSize index) * param.inner + y) := by
  rw [chunk_eq, ListOrder.getElem?_flatMap_range _ (· * param.chunkRun worldSize index)
    (Nat.zero_mul _) (fun o _ => by rw [length_range', Nat.add_mul, Nat.one_mul]) ho
    (by rwa [length_range'])]
  rw [getElem?_range' hy, Nat.one_mul]

variable {position : Nat}

theorem getElem?_chunk_iff {j : Nat} :
    (param.chunk worldSize index)[j]? = some position ↔
      ∃ o < param.outer, ∃ y < param.chunkRun worldSize index,
        j = o * param.chunkRun worldSize index + y ∧
          position = (o * param.extent + param.chunkFirst worldSize index) * param.inner + y := by
  constructor
  · intro h
    obtain ⟨hj, -⟩ := List.getElem?_eq_some_iff.mp h
    rw [length_chunk_eq] at hj
    have hrun : 0 < param.chunkRun worldSize index :=
      Nat.pos_of_ne_zero fun hzero => by simp [hzero] at hj
    have ho : j / param.chunkRun worldSize index < param.outer :=
      (Nat.div_lt_iff_lt_mul hrun).mpr hj
    have hy := Nat.mod_lt j hrun
    have hsplit : j = j / param.chunkRun worldSize index * param.chunkRun worldSize index +
        j % param.chunkRun worldSize index := by rw [Nat.div_add_mod']
    refine ⟨_, ho, _, hy, hsplit, ?_⟩
    rw [hsplit, getElem?_chunk ho hy] at h
    exact (Option.some.inj h).symm
  · rintro ⟨o, ho, y, hy, rfl, rfl⟩
    exact getElem?_chunk ho hy

/-! ## Whole chunks -/

theorem chunkRows_mul_ge (hworld : 0 < worldSize) (param : HsdpParam) :
    param.extent ≤ worldSize * param.chunkRows worldSize := by
  have hdiv := Nat.div_add_mod (param.extent + worldSize - 1) worldSize
  have hmod := Nat.mod_lt (param.extent + worldSize - 1) hworld
  rw [chunkRows]
  omega

theorem chunkRows_le (hworld : 0 < worldSize) (hextent : 0 < param.extent) :
    param.chunkRows worldSize ≤ param.extent := by
  rw [chunkRows]
  refine Nat.div_le_of_le_mul ?_
  obtain ⟨n, hn⟩ := Nat.exists_eq_succ_of_ne_zero hextent.ne'
  rw [hn, Nat.mul_succ]
  have := Nat.le_mul_of_pos_left n hworld
  omega

section

variable (hdim : param.shardDim = 0) (hworld : 0 < worldSize)

include hdim hworld

theorem paddedNumel_of_dim_zero (hextent : 0 < param.extent) :
    param.paddedNumel worldSize = param.chunkRows worldSize * param.inner := by
  have hrows := chunkRows_le hworld hextent
  have houter : param.outer = 1 := by rw [outer, hdim, take_zero, prod_nil]
  rw [paddedNumel, length_chunk_eq, houter, Nat.one_mul, chunkRun, chunkFirst, chunkLast]
  congr 1
  omega

omit hworld in
theorem chunk_of_dim_zero {j : Nat} (h : (param.chunk worldSize index)[j]? = some position) :
    0 < param.extent ∧ j < param.chunkRows worldSize * param.inner ∧
      position = index * (param.chunkRows worldSize * param.inner) + j := by
  obtain ⟨o, ho, y, hy, rfl, rfl⟩ := getElem?_chunk_iff.mp h
  have houter : param.outer = 1 := by rw [outer, hdim, take_zero, prod_nil]
  obtain rfl : o = 0 := by omega
  have hlast : param.chunkFirst worldSize index < param.chunkLast worldSize index := by
    by_contra hle
    rw [chunkRun, Nat.sub_eq_zero_of_le (by omega), Nat.zero_mul] at hy
    omega
  have hextent : 0 < param.extent := by
    rw [chunkLast] at hlast
    omega
  have hfirst : param.chunkFirst worldSize index = index * param.chunkRows worldSize := by
    rw [chunkFirst, chunkLast] at hlast
    rw [chunkFirst]
    omega
  refine ⟨hextent, ?_, ?_⟩
  · rw [Nat.zero_mul, Nat.zero_add]
    refine hy.trans_le (Nat.mul_le_mul_right _ ?_)
    rw [chunkLast, hfirst, Nat.add_mul]
    omega
  · rw [hfirst]
    ring

theorem unpack_of_dim_zero {K : Type} [Zero K] {j : Nat}
    (h : (param.chunk worldSize index)[j]? = some position) (rows : Nat → Nat → K) :
    param.unpack worldSize rows position = rows index j := by
  obtain ⟨hextent, hj, rfl⟩ := chunk_of_dim_zero hdim h
  have hpos : 0 < param.chunkRows worldSize * param.inner := by omega
  rw [unpack, if_pos hdim, paddedNumel_of_dim_zero hdim hworld hextent, Nat.mul_comm index,
    Nat.mul_add_div hpos, Nat.div_eq_of_lt hj, Nat.mul_add_mod, Nat.mod_eq_of_lt hj, Nat.add_zero]

end

theorem chunk_of_dvd {size : Nat} (hindex : index < worldSize)
    (hsize : param.extent = worldSize * size) :
    param.chunkFirst worldSize index = index * size ∧
      param.chunkRun worldSize index = size * param.inner := by
  have hworld : 0 < worldSize := by omega
  have hrows : param.chunkRows worldSize = size := by
    rw [chunkRows, hsize, show worldSize * size + worldSize - 1 = worldSize - 1 + worldSize * size
      by omega, Nat.add_mul_div_left _ _ hworld, Nat.div_eq_of_lt (by omega), Nat.zero_add]
  have hmul : (index + 1) * size ≤ worldSize * size := Nat.mul_le_mul_right _ hindex
  have hfirst : param.chunkFirst worldSize index = index * size := by
    rw [chunkFirst, hrows, hsize]
    rw [Nat.add_mul] at hmul
    omega
  refine ⟨hfirst, ?_⟩
  rw [chunkRun, hfirst, chunkLast, hrows, hsize, Nat.min_eq_right hmul, Nat.add_mul, Nat.one_mul,
    Nat.add_sub_cancel_left]

theorem unpack_of_dim_ne_zero {K : Type} [Zero K] (hdim : param.shardDim ≠ 0)
    (hindex : index < worldSize) (heven : worldSize ∣ param.extent) {j : Nat}
    (h : (param.chunk worldSize index)[j]? = some position) (rows : Nat → Nat → K) :
    param.unpack worldSize rows position = rows index j := by
  obtain ⟨o, ho, y, hy, rfl, rfl⟩ := getElem?_chunk_iff.mp h
  obtain ⟨size, hsize⟩ := heven
  have hworld : 0 < worldSize := by omega
  have hmul : (index + 1) * size ≤ worldSize * size := Nat.mul_le_mul_right _ hindex
  obtain ⟨hfirst, hrun⟩ := chunk_of_dvd hindex hsize
  rw [hrun] at hy ⊢
  have hpos : 0 < size * param.inner := by omega
  have hwithin : index * (size * param.inner) + y < param.extent * param.inner := by
    have hbelow : (index + 1) * size * param.inner ≤ worldSize * size * param.inner :=
      Nat.mul_le_mul_right _ hmul
    rw [hsize, ← Nat.mul_assoc]
    rw [Nat.add_mul, Nat.one_mul, Nat.add_mul] at hbelow
    omega
  have hplace : (o * param.extent + param.chunkFirst worldSize index) * param.inner + y =
      index * (size * param.inner) + y + param.extent * param.inner * o := by
    rw [hfirst]
    ring
  have hdiv : param.extent / worldSize = size := by rw [hsize, Nat.mul_div_cancel_left _ hworld]
  rw [unpack, if_neg hdim, catRows]
  change rows _ _ = _
  simp only [show (param.shape.drop (param.shardDim + 1)).prod = param.inner from rfl,
    show param.shape.getD param.shardDim 0 = param.extent from rfl, hplace, hdiv,
    Nat.add_mul_div_left _ _ (Nat.lt_of_le_of_lt (Nat.zero_le _) hwithin),
    Nat.div_eq_of_lt hwithin, Nat.zero_add, Nat.add_mul_mod_self_left, Nat.mod_eq_of_lt hwithin]
  rw [Nat.add_comm (index * _), Nat.mul_comm index, Nat.add_mul_div_left _ _ hpos,
    Nat.div_eq_of_lt hy, Nat.zero_add, Nat.add_mul_mod_self_left, Nat.mod_eq_of_lt hy]

theorem unpack_chunk {K : Type} [Zero K] (hindex : index < worldSize)
    (heven : param.shardDim ≠ 0 → worldSize ∣ param.extent) {j : Nat}
    (h : (param.chunk worldSize index)[j]? = some position) (rows : Nat → Nat → K) :
    param.unpack worldSize rows position = rows index j := by
  by_cases hdim : param.shardDim = 0
  · exact unpack_of_dim_zero hdim (by omega) h rows
  · exact unpack_of_dim_ne_zero hdim hindex (heven hdim) h rows

theorem exists_chunk (hworld : 0 < worldSize) (hposition : position < param.shape.prod) :
    ∃ index < worldSize, ∃ j : Nat, (param.chunk worldSize index)[j]? = some position := by
  rw [prod_shape] at hposition
  have hextent : 0 < param.extent := Nat.pos_of_ne_zero fun h => by simp [h] at hposition
  have hinner : 0 < param.inner := Nat.pos_of_ne_zero fun h => by simp [h] at hposition
  have hblock : 0 < param.extent * param.inner := Nat.mul_pos hextent hinner
  have hrows : 0 < param.chunkRows worldSize := by
    have hge := chunkRows_mul_ge hworld param
    exact Nat.pos_of_ne_zero fun h => by
      rw [h, Nat.mul_zero] at hge
      omega
  -- the run, the row of the shard dimension in it, and what is left
  obtain ⟨o, ho⟩ : ∃ o, o = position / (param.extent * param.inner) := ⟨_, rfl⟩
  obtain ⟨x, hx⟩ : ∃ x, x = position % (param.extent * param.inner) / param.inner := ⟨_, rfl⟩
  have hout : o < param.outer := ho ▸ (Nat.div_lt_iff_lt_mul hblock).mpr hposition
  have hxlt : x < param.extent := hx ▸ (Nat.div_lt_iff_lt_mul hinner).mpr (Nat.mod_lt _ hblock)
  have hsplit : position = o * (param.extent * param.inner) + (x * param.inner +
      position % (param.extent * param.inner) % param.inner) := by
    rw [hx, Nat.div_add_mod', ho, Nat.div_add_mod']
  have hlt := Nat.mod_lt (position % (param.extent * param.inner)) hinner
  have hchunk : x / param.chunkRows worldSize < worldSize :=
    (Nat.div_lt_iff_lt_mul hrows).mpr (hxlt.trans_le (chunkRows_mul_ge hworld param))
  have hbetween := Nat.div_add_mod' x (param.chunkRows worldSize)
  have hrest := Nat.mod_lt x hrows
  have hfirst : param.chunkFirst worldSize (x / param.chunkRows worldSize) =
      x / param.chunkRows worldSize * param.chunkRows worldSize := by
    rw [chunkFirst]
    omega
  have hlast : x + 1 ≤ param.chunkLast worldSize (x / param.chunkRows worldSize) := by
    rw [chunkLast, Nat.add_mul, Nat.one_mul]
    omega
  refine ⟨_, hchunk, _, getElem?_chunk_iff.mpr ⟨o, hout,
    x % param.chunkRows worldSize * param.inner +
      position % (param.extent * param.inner) % param.inner, ?_, rfl, ?_⟩⟩
  · rw [chunkRun, hfirst]
    have hle : (x % param.chunkRows worldSize + 1) * param.inner ≤
        (param.chunkLast worldSize (x / param.chunkRows worldSize) -
          x / param.chunkRows worldSize * param.chunkRows worldSize) * param.inner :=
      Nat.mul_le_mul_right _ (by omega)
    rw [Nat.add_mul] at hle
    omega
  · conv_lhs => rw [hsplit]
    rw [hfirst, Nat.add_mul, Nat.mul_assoc, Nat.add_assoc, ← Nat.add_assoc (_ * param.inner),
      ← Nat.add_mul, hbetween]

/-! ## Packed gradients -/

theorem lt_prod_of_mem_chunk (h : position ∈ param.chunk worldSize index) :
    position < param.shape.prod := by
  obtain ⟨j, hj⟩ := mem_iff_getElem?.mp h
  obtain ⟨o, ho, y, hy, -, rfl⟩ := getElem?_chunk_iff.mp hj
  have hlast : param.chunkFirst worldSize index + (param.chunkLast worldSize index -
      param.chunkFirst worldSize index) ≤ param.extent := by
    have hfirst : param.chunkFirst worldSize index ≤ param.extent := Nat.min_le_left _ _
    have hlast : param.chunkLast worldSize index ≤ param.extent := Nat.min_le_left _ _
    omega
  have hrun : param.chunkFirst worldSize index * param.inner + param.chunkRun worldSize index ≤
      param.extent * param.inner := by
    rw [chunkRun, ← Nat.add_mul]
    exact Nat.mul_le_mul_right _ hlast
  have houter : (o + 1) * (param.extent * param.inner) ≤
      param.outer * (param.extent * param.inner) := Nat.mul_le_mul_right _ ho
  rw [prod_shape, Nat.add_mul, Nat.mul_assoc]
  rw [Nat.add_mul, Nat.one_mul] at houter
  omega

theorem packGrad_spec {K : Type} [Zero K] (heven : param.shardDim ≠ 0 → worldSize ∣ param.extent)
    (hpackable : ¬param.Unpackable) (grad : Nat → K) :
    ∃ rows, param.packGrad worldSize grad = .ok rows ∧ ∀ index < worldSize, ∀ j position : Nat,
      (param.chunk worldSize index)[j]? = some position → rows index j = grad position := by
  by_cases hdim : param.shardDim = 0
  · have hprod : param.shape.prod ≠ 0 := fun hzero => hpackable ⟨hdim, hzero⟩
    refine ⟨_, by rw [packGrad, if_pos hdim, chunkCat, if_neg hprod], ?_⟩
    intro index hindex j position h
    have hworld : 0 < worldSize := by omega
    have hbelow := lt_prod_of_mem_chunk (mem_iff_getElem?.mpr ⟨j, h⟩)
    obtain ⟨-, -, rfl⟩ := chunk_of_dim_zero hdim h
    exact if_pos hbelow
  · obtain ⟨size, hsize⟩ := heven hdim
    refine ⟨_, by rw [packGrad, if_neg hdim], ?_⟩
    intro index hindex j position h
    have hworld : 0 < worldSize := by omega
    have hlength : ∀ index < worldSize,
        (param.chunk worldSize index).length = param.outer * (size * param.inner) :=
      fun index hindex => by rw [length_chunk_eq, (chunk_of_dvd hindex hsize).2]
    have hsucc : ∀ k < worldSize, (k + 1) * (param.outer * (size * param.inner)) =
        k * (param.outer * (size * param.inner)) + (param.chunk worldSize k).length :=
      fun k hk => by rw [hlength k hk, Nat.add_mul, Nat.one_mul]
    have hall := ListOrder.length_flatMap_range (param.chunk worldSize)
      (· * (param.outer * (size * param.inner))) (Nat.zero_mul _) hsucc
    have hj := (List.getElem?_eq_some_iff.mp h).1
    have hget := ListOrder.getElem?_flatMap_range (param.chunk worldSize)
      (· * (param.outer * (size * param.inner))) (Nat.zero_mul _)
      (fun k hk => hsucc k (hk.trans hindex)) hindex hj
    simp only [catChunks, hall, Nat.mul_div_cancel_left _ hworld, hget, h]

end HsdpParam

end HyperParallel.FullyShard
