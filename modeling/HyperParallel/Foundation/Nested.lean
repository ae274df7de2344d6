import HyperParallel.Foundation.PyDict
import Mathlib.Data.List.Infix

/-!
# Nested dictionaries, lists and tuples

A nested value is a leaf, a mapping from names or a sequence, and a path names
one of the values inside it.  Writing at one path leaves what stands at every
path that diverges from it.
-/

namespace HyperParallel.Foundation

inductive PathKey where
  | name (key : String)
  | position (i : Nat)
deriving DecidableEq, Repr

abbrev ObjectPath := List PathKey

inductive SequenceType where
  | list
  | tuple
deriving DecidableEq, Repr

inductive Nested (ω : Type) where
  | leaf (value : ω)
  | mapping (entries : List (String × Nested ω))
  | sequence (type : SequenceType) (items : List (Nested ω))

namespace Nested

variable {ω : Type}

def child? : Nested ω → PathKey → Option (Nested ω)
  | .mapping entries, .name key => entries.lookup key
  | .sequence _ items, .position i => items[i]?
  | _, _ => none

def get? (value : Nested ω) : ObjectPath → Option (Nested ω)
  | [] => some value
  | key :: path => (value.child? key).bind fun child => child.get? path

@[simp] theorem get?_nil (value : Nested ω) : value.get? [] = some value := rfl

theorem get?_cons (value : Nested ω) (key : PathKey) (path : ObjectPath) :
    value.get? (key :: path) = (value.child? key).bind fun child => child.get? path := rfl

mutual

def DistinctKeys : Nested ω → Prop
  | .leaf _ => True
  | .mapping entries => (entries.map Prod.fst).Nodup ∧ DistinctEntries entries
  | .sequence _ items => DistinctItems items

def DistinctEntries : List (String × Nested ω) → Prop
  | [] => True
  | (_, value) :: rest => DistinctKeys value ∧ DistinctEntries rest

def DistinctItems : List (Nested ω) → Prop
  | [] => True
  | value :: rest => DistinctKeys value ∧ DistinctItems rest

end

def setChild : Nested ω → PathKey → Nested ω → Nested ω
  | .mapping entries, .name key, child => .mapping (PyDict.setEntry key child entries)
  | .sequence type items, .position i, child => .sequence type (items.set i child)
  | value, _, _ => value

def replaceAt (value : Nested ω) : ObjectPath → Nested ω → Nested ω
  | [], replacement => replacement
  | key :: path, replacement =>
    match value.child? key with
    | none => value
    | some child => value.setChild key (child.replaceAt path replacement)

theorem child?_setChild_self {value : Nested ω} {key : PathKey}
    (h : (value.child? key).isSome) (child : Nested ω) :
    (value.setChild key child).child? key = some child := by
  cases value <;> cases key <;> simp_all [setChild, child?, PyDict.lookup_setEntry]

theorem child?_setChild_of_ne (value child : Nested ω) {key other : PathKey} (h : other ≠ key) :
    (value.setChild key child).child? other = value.child? other := by
  cases value <;> cases key <;> cases other <;>
    simp_all [setChild, child?, PyDict.lookup_setEntry, eq_comm]

theorem get?_replaceAt_self {value old : Nested ω} {path : ObjectPath}
    (h : value.get? path = some old) (replacement : Nested ω) :
    (value.replaceAt path replacement).get? path = some replacement := by
  induction path generalizing value with
  | nil => rfl
  | cons key path ih =>
    rw [get?_cons, Option.bind_eq_some_iff] at h
    obtain ⟨child, hchild, hpath⟩ := h
    rw [replaceAt, hchild, get?_cons, child?_setChild_self (by simp [hchild])]
    exact ih hpath

def Diverge (left right : ObjectPath) : Prop := ¬ left <+: right ∧ ¬ right <+: left

variable {left right : ObjectPath}

theorem Diverge.symm (h : Diverge left right) : Diverge right left :=
  ⟨h.2, h.1⟩

theorem Diverge.cons_inv {key : PathKey}
    (h : Diverge (key :: left) (key :: right)) : Diverge left right :=
  ⟨fun hprefix => h.1 ((List.prefix_cons_inj key).mpr hprefix),
    fun hprefix => h.2 ((List.prefix_cons_inj key).mpr hprefix)⟩

theorem get?_replaceAt_of_diverge (value replacement : Nested ω) {path other : ObjectPath}
    (h : Diverge path other) :
    (value.replaceAt path replacement).get? other = value.get? other := by
  induction path generalizing value other with
  | nil => exact absurd (List.nil_prefix) h.1
  | cons key path ih =>
    cases other with
    | nil => exact absurd (List.nil_prefix) h.2
    | cons otherKey other =>
      rw [replaceAt]
      cases hchild : value.child? key with
      | none => rfl
      | some child =>
        rw [get?_cons, get?_cons]
        by_cases hkey : otherKey = key
        · subst hkey
          rw [child?_setChild_self (by simp [hchild]), hchild, Option.bind_some, Option.bind_some]
          exact ih child h.cons_inv
        · rw [child?_setChild_of_ne _ _ hkey]

theorem Diverge.append_left (h : Diverge left right)
    (front : ObjectPath) : Diverge (front ++ left) (front ++ right) :=
  ⟨fun hprefix => h.1 ((List.prefix_append_right_inj front).mp hprefix),
    fun hprefix => h.2 ((List.prefix_append_right_inj front).mp hprefix)⟩

theorem diverge_of_ne {key other : PathKey} (h : key ≠ other) (left right : ObjectPath) :
    Diverge (key :: left) (other :: right) :=
  ⟨fun hprefix => h (List.cons_prefix_cons.mp hprefix).1,
    fun hprefix => h (List.cons_prefix_cons.mp hprefix).1.symm⟩

def isTuple : Nested ω → Bool
  | .sequence .tuple _ => true
  | _ => false

@[simp] theorem isTuple_setChild (value child : Nested ω) (key : PathKey) :
    (value.setChild key child).isTuple = value.isTuple := by
  cases value with
  | leaf _ => cases key <;> rfl
  | mapping _ => cases key <;> rfl
  | sequence type _ => cases key <;> cases type <;> rfl

theorem map_isTuple_replaceAt (value replacement : Nested ω) {path other : ObjectPath}
    (h : ¬ path <+: other) :
    ((value.replaceAt path replacement).get? other).map isTuple =
      (value.get? other).map isTuple := by
  induction path generalizing value other with
  | nil => exact absurd List.nil_prefix h
  | cons key path ih =>
    rw [replaceAt]
    cases hchild : value.child? key with
    | none => rfl
    | some child =>
      cases other with
      | nil => simp
      | cons otherKey other =>
        rw [get?_cons, get?_cons]
        by_cases hkey : otherKey = key
        · subst hkey
          rw [child?_setChild_self (by simp [hchild]), hchild, Option.bind_some, Option.bind_some]
          exact ih child fun hprefix => h ((List.prefix_cons_inj otherKey).mpr hprefix)
        · rw [child?_setChild_of_ne _ _ hkey]

end Nested

end HyperParallel.Foundation
