import Mathlib.Tactic.Common

/-!
# Storages and slices

A memory maps storages to their elements and knows which storage is new.  A slice
is a storage with the place its elements start at; two slices may share a storage.
-/

namespace HyperParallel.Foundation.StorageHeap

structure Slice where
  storage : Nat
  offset : Nat
  deriving DecidableEq, Repr

structure Memory (K : Type*) where
  element : Nat → Nat → K
  next : Nat

def Slice.Apart (slice : Slice) (length : Nat) (other : Slice) (length' : Nat) : Prop :=
  slice.storage = other.storage →
    slice.offset + length ≤ other.offset ∨ other.offset + length' ≤ slice.offset

namespace Memory

variable {K : Type*} (memory : Memory K)

def read (slice : Slice) (j : Nat) : K := memory.element slice.storage (slice.offset + j)

def write (slice : Slice) (length : Nat) (values : Nat → K) : Memory K :=
  { memory with element := Function.update memory.element slice.storage fun k =>
      if slice.offset ≤ k ∧ k < slice.offset + length then values (k - slice.offset)
      else memory.element slice.storage k }

def alloc (values : Nat → K) : Memory K where
  element := Function.update memory.element memory.next values
  next := memory.next + 1

def fresh : Slice := ⟨memory.next, 0⟩

variable {memory}

theorem read_write_self {slice : Slice} {length j : Nat} (hj : j < length) (values : Nat → K) :
    (memory.write slice length values).read slice j = values j := by
  simp only [read, write, Function.update_self]
  rw [if_pos ⟨Nat.le_add_right _ _, by omega⟩, Nat.add_sub_cancel_left]

theorem read_write_of_apart {slice other : Slice} {length length' j : Nat}
    (h : slice.Apart length other length') (hj : j < length') (values : Nat → K) :
    (memory.write slice length values).read other j = memory.read other j := by
  by_cases hstorage : other.storage = slice.storage
  · simp only [read, write, hstorage, Function.update_self]
    rw [if_neg]
    rintro ⟨hle, hlt⟩
    rcases h hstorage.symm with hleft | hright <;> omega
  · simp only [read, write, Function.update_of_ne hstorage]

theorem read_alloc_fresh (values : Nat → K) (j : Nat) :
    (memory.alloc values).read memory.fresh j = values j := by
  simp only [read, alloc, fresh, Function.update_self, Nat.zero_add]

theorem read_alloc_at {slice : Slice} (h : slice.storage = memory.next) (values : Nat → K)
    (j : Nat) : (memory.alloc values).read slice j = values (slice.offset + j) := by
  simp only [read, alloc, h, Function.update_self]

theorem read_alloc_of_lt {slice : Slice} (h : slice.storage < memory.next) (values : Nat → K)
    (j : Nat) : (memory.alloc values).read slice j = memory.read slice j := by
  simp only [read, alloc, Function.update_of_ne (Nat.ne_of_lt h)]

end Memory

end HyperParallel.Foundation.StorageHeap
