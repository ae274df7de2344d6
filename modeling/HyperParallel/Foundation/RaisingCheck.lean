import Mathlib.Tactic.Common

/-!
# Checks that may raise

A check that raises nothing decides a proposition.  Checks in a row stop at the
first that fails, so a later one has to decide only what passes the earlier ones.
-/

namespace HyperParallel.Foundation

variable {ε α : Type*}

/-- `a and b` -/
def andAlso (first second : Except ε Bool) : Except ε Bool :=
  match first with
  | .ok true => second
  | other => other

def Decides (check : Except ε Bool) (P : Prop) : Prop :=
  ∃ answer, check = .ok answer ∧ (answer = true ↔ P)

variable {check second : Except ε Bool} {P Q : Prop}

theorem Decides.eq_ok_true_iff (h : Decides check P) : check = .ok true ↔ P := by
  obtain ⟨answer, rfl, hP⟩ := h
  rw [← hP, Except.ok.injEq]

theorem Decides.congr (h : Decides check P) (hiff : P ↔ Q) : Decides check Q := by
  rwa [← propext hiff]

theorem Decides.ok {answer : Bool} (h : answer = true ↔ P) :
    Decides (.ok answer : Except ε Bool) P := ⟨answer, rfl, h⟩

theorem Decides.andAlso (h : Decides check P) (h' : P → Decides second Q) :
    Decides (andAlso check second) (P ∧ Q) := by
  obtain ⟨answer, rfl, hP⟩ := h
  cases answer with
  | false => exact ⟨false, rfl, by simp [← hP]⟩
  | true =>
    obtain ⟨answer', hsecond, hQ⟩ := h' (hP.mp rfl)
    exact ⟨answer', hsecond, by rw [hQ, and_iff_right (hP.mp rfl)]⟩

/-- `all(check(x) for x in xs)` -/
def allOf (check : α → Except ε Bool) : List α → Except ε Bool
  | [] => .ok true
  | x :: xs => HyperParallel.Foundation.andAlso (check x) (allOf check xs)

/-- `any(check(x) for x in xs)` -/
def anyOf (check : α → Except ε Bool) : List α → Except ε Bool
  | [] => .ok false
  | x :: xs =>
    match check x with
    | .ok false => anyOf check xs
    | other => other

variable {checks : α → Except ε Bool} {holds : α → Prop} {xs : List α}

theorem Decides.allOf (h : ∀ x ∈ xs, Decides (checks x) (holds x)) :
    Decides (allOf checks xs) (∀ x ∈ xs, holds x) := by
  induction xs with
  | nil => exact Decides.ok (by simp)
  | cons x xs ih =>
    rw [List.forall_mem_cons] at h
    exact ((h.1).andAlso fun _ => ih h.2).congr List.forall_mem_cons.symm

theorem Decides.anyOf (h : ∀ x ∈ xs, Decides (checks x) (holds x)) :
    Decides (anyOf checks xs) (∃ x ∈ xs, holds x) := by
  induction xs with
  | nil => exact Decides.ok (by simp)
  | cons x xs ih =>
    rw [List.forall_mem_cons] at h
    obtain ⟨answer, hx, hiff⟩ := h.1
    cases answer with
    | true => exact ⟨true, by rw [Foundation.anyOf, hx], by simp [← hiff]⟩
    | false =>
      obtain ⟨answer', hxs, hiff'⟩ := ih h.2
      exact ⟨answer', by rw [Foundation.anyOf, hx]; exact hxs, by simp [← hiff, hiff']⟩

end HyperParallel.Foundation
