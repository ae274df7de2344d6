import Mathlib.Data.List.Nodup
import Mathlib.Data.List.Perm.Basic
import Mathlib.Tactic.Ring

/-!
# Strided blocks

The numbers below `blocks * (count * stride)` fall into progressions of one step
and one length: a number is told by its block, by its place below the stride and
by its position in the progression.  Reading the progressions block by block and
place by place meets every number once.
-/

namespace HyperParallel.Foundation.StridedBlocks

open List

def progression (start stride count : Nat) : List Nat :=
  (List.range count).map fun k => start + k * stride

@[simp] theorem length_progression (start stride count : Nat) :
    (progression start stride count).length = count := by
  simp [progression]

theorem progression_nodup (start : Nat) {stride : Nat} (hstride : 0 < stride) (count : Nat) :
    (progression start stride count).Nodup := by
  refine List.Nodup.map (fun a b h => ?_) nodup_range
  exact Nat.eq_of_mul_eq_mul_right hstride (Nat.add_left_cancel h)

theorem progression_sorted (start stride count : Nat) :
    (progression start stride count).Pairwise (· ≤ ·) := by
  rw [progression, pairwise_map]
  refine pairwise_lt_range.imp fun {a b} h => ?_
  exact Nat.add_le_add_left (Nat.mul_le_mul_right _ h.le) _

theorem mem_progression_iff {stride count place : Nat} (hplace : place < stride) (hcount : 0 < count)
    (block n : Nat) :
    n ∈ progression (block * (count * stride) + place) stride count ↔
      n / (count * stride) = block ∧ n % stride = place := by
  simp only [progression, mem_map, mem_range]
  constructor
  · rintro ⟨k, hk, rfl⟩
    have hbelow : place + k * stride < count * stride := by
      have hmul : (k + 1) * stride ≤ count * stride := Nat.mul_le_mul_right _ hk
      rw [Nat.add_mul] at hmul
      omega
    refine ⟨?_, ?_⟩
    · rw [Nat.add_assoc, Nat.add_comm, Nat.mul_comm block,
        Nat.add_mul_div_left _ _ (Nat.lt_of_le_of_lt (Nat.zero_le _) hbelow),
        Nat.div_eq_of_lt hbelow, Nat.zero_add]
    · rw [← Nat.mul_assoc, Nat.add_mul_mod_self_right, Nat.add_comm,
        Nat.add_mul_mod_self_right, Nat.mod_eq_of_lt hplace]
  · rintro ⟨hdiv, hmod⟩
    refine ⟨n / stride % count, Nat.mod_lt _ hcount, ?_⟩
    have hsplit : n % (count * stride) = n % stride + stride * (n / stride % count) := by
      rw [Nat.mul_comm count, Nat.mod_mul]
    have hn := Nat.mod_add_div n (count * stride)
    rw [hdiv, hsplit, hmod, Nat.mul_comm (count * stride), Nat.mul_comm stride] at hn
    omega

def blocks (number stride count : Nat) : List (List Nat) :=
  (List.range number).flatMap fun block =>
    (List.range stride).map fun place => progression (block * (count * stride) + place) stride count

variable {number stride count : Nat}

theorem mem_blocks_iff {group : List Nat} :
    group ∈ blocks number stride count ↔ ∃ block < number, ∃ place < stride,
      progression (block * (count * stride) + place) stride count = group := by
  simp [blocks]

theorem group_eq_of_mem {group : List Nat} (hcount : 0 < count)
    (hgroup : group ∈ blocks number stride count) {n : Nat} (hn : n ∈ group) :
    group = progression (n / (count * stride) * (count * stride) + n % stride) stride count := by
  obtain ⟨block, -, place, hplace, rfl⟩ := mem_blocks_iff.mp hgroup
  obtain ⟨hdiv, hmod⟩ := (mem_progression_iff hplace hcount block n).mp hn
  rw [hdiv, hmod]

theorem mem_flatten_blocks_iff (hcount : 0 < count) (hstride : 0 < stride) {n : Nat} :
    n ∈ (blocks number stride count).flatten ↔ n < number * (count * stride) := by
  rw [mem_flatten]
  constructor
  · rintro ⟨group, hgroup, hn⟩
    obtain ⟨block, hblock, place, hplace, rfl⟩ := mem_blocks_iff.mp hgroup
    obtain ⟨hdiv, -⟩ := (mem_progression_iff hplace hcount block n).mp hn
    exact (Nat.div_lt_iff_lt_mul (Nat.mul_pos hcount hstride)).mp (hdiv ▸ hblock)
  · intro hn
    have hblock : n / (count * stride) < number :=
      (Nat.div_lt_iff_lt_mul (Nat.mul_pos hcount hstride)).mpr hn
    refine ⟨_, mem_blocks_iff.mpr ⟨_, hblock, _, Nat.mod_lt n hstride, rfl⟩, ?_⟩
    exact (mem_progression_iff (Nat.mod_lt n hstride) hcount _ n).mpr ⟨rfl, rfl⟩

theorem blocks_pairwise (hcount : 0 < count) :
    (blocks number stride count).Pairwise fun a b => a.headD 0 < b.headD 0 ∧ List.Disjoint a b := by
  have hhead : ∀ start, (progression start stride count).headD 0 = start := by
    intro start
    obtain ⟨k, rfl⟩ := Nat.exists_eq_succ_of_ne_zero hcount.ne'
    simp [progression, range_succ_eq_map]
  have hdisjoint : ∀ block block' place place', place < stride → place' < stride →
      (block ≠ block' ∨ place ≠ place') →
      List.Disjoint (progression (block * (count * stride) + place) stride count)
        (progression (block' * (count * stride) + place') stride count) := by
    intro block block' place place' hplace hplace' hne n hn hn'
    obtain ⟨hdiv, hmod⟩ := (mem_progression_iff hplace hcount block n).mp hn
    obtain ⟨hdiv', hmod'⟩ := (mem_progression_iff hplace' hcount block' n).mp hn'
    rcases hne with hne | hne
    · exact hne (hdiv.symm.trans hdiv')
    · exact hne (hmod.symm.trans hmod')
  rw [blocks, pairwise_flatMap]
  refine ⟨fun block hblock => ?_, ?_⟩
  · rw [pairwise_map]
    refine pairwise_lt_range.imp_of_mem fun {a b} ha hb hlt => ?_
    refine ⟨by rw [hhead, hhead]; omega, ?_⟩
    exact hdisjoint _ _ _ _ (mem_range.mp ha) (mem_range.mp hb) (.inr hlt.ne)
  · refine pairwise_lt_range.imp_of_mem fun {a b} ha hb hlt => ?_
    intro x hx y hy
    obtain ⟨place, hplace, rfl⟩ := mem_map.mp hx
    obtain ⟨place', hplace', rfl⟩ := mem_map.mp hy
    have hplace := mem_range.mp hplace
    refine ⟨?_, hdisjoint _ _ _ _ hplace (mem_range.mp hplace') (.inl hlt.ne)⟩
    have hstep : (a + 1) * (count * stride) ≤ b * (count * stride) := Nat.mul_le_mul_right _ hlt
    have hone : 1 * stride ≤ count * stride := Nat.mul_le_mul_right _ hcount
    rw [Nat.add_mul] at hstep
    rw [hhead, hhead]
    omega

theorem flatten_blocks_nodup (hcount : 0 < count) (hstride : 0 < stride) :
    (blocks number stride count).flatten.Nodup := by
  refine nodup_flatten.mpr ⟨fun group hgroup => ?_, ?_⟩
  · obtain ⟨block, -, place, -, rfl⟩ := mem_blocks_iff.mp hgroup
    exact progression_nodup _ hstride count
  · exact (blocks_pairwise hcount).imp fun h => h.2

theorem flatten_blocks_perm (hcount : 0 < count) (hstride : 0 < stride) :
    (blocks number stride count).flatten.Perm (range (number * (count * stride))) := by
  refine (perm_ext_iff_of_nodup (flatten_blocks_nodup hcount hstride) nodup_range).mpr ?_
  intro n
  rw [mem_flatten_blocks_iff hcount hstride, mem_range]

end HyperParallel.Foundation.StridedBlocks
