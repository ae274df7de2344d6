import Mathlib.Algebra.Order.BigOperators.Group.Finset

/-!
# Workers that wait for event counters

Each worker runs its own queue in order.  An entry may start when the counter
of the event it awaits has reached a threshold, and it adds one to the counter
of the event it signals when it finishes.  An event whose threshold is the
number of its producers joins all of them.
-/

namespace HyperParallel.Foundation.EventWorkers

open List

variable {W α ε : Type*}

structure Schedule (W α ε : Type*) where
  queue : W → List α
  /-- A worker that meets such an entry stops in front of it. -/
  traps : α → Bool
  awaits : α → Option (ε × ℤ)
  signals : α → Option ε

/-- How many entries a worker has finished, and whether it is inside the next one. -/
structure Progress (W : Type*) where
  finished : W → ℕ
  busy : W → Bool

def initial : Progress W := ⟨fun _ => 0, fun _ => false⟩

namespace Schedule

section Definitions

variable [Fintype W] [DecidableEq ε] (S : Schedule W α ε)

def signalsEvent (e : ε) (a : α) : Bool := S.signals a = some e

def counter (p : Progress W) (e : ε) : ℕ :=
  ∑ w, ((S.queue w).take (p.finished w)).countP (S.signalsEvent e)

/-- The entries of all queues that signal `e`. -/
def producers (e : ε) : ℕ := ∑ w, (S.queue w).countP (S.signalsEvent e)

def Admits (p : Progress W) (a : α) : Prop :=
  ∀ e threshold, S.awaits a = some (e, threshold) → threshold ≤ S.counter p e

instance (p : Progress W) (a : α) : Decidable (S.Admits p a) :=
  match h : S.awaits a with
  | none => isTrue fun e threshold hawaits => by simp [h] at hawaits
  | some (e, threshold) =>
    decidable_of_iff (threshold ≤ S.counter p e)
      ⟨fun hle e' threshold' hawaits => by
        obtain ⟨rfl, rfl⟩ : e = e' ∧ threshold = threshold' := by simpa [h] using hawaits
        exact hle, fun hadmits => hadmits e threshold h⟩

inductive Step [DecidableEq W] : Progress W → Progress W → Prop where
  | start {p : Progress W} {w : W} {a : α} (idle : p.busy w = false)
      (next : (S.queue w)[p.finished w]? = some a) (sane : S.traps a = false)
      (admitted : S.Admits p a) : Step p { p with busy := Function.update p.busy w true }
  | finish {p : Progress W} {w : W} (busy : p.busy w = true) :
      Step p
        { finished := Function.update p.finished w (p.finished w + 1)
          busy := Function.update p.busy w false }

def Reachable [DecidableEq W] (p : Progress W) : Prop := Relation.ReflTransGen S.Step initial p

end Definitions

end Schedule

def Finished (p : Progress W) (w : W) (i : ℕ) : Prop := i < p.finished w

def Started (p : Progress W) (w : W) (i : ℕ) : Prop :=
  i < p.finished w ∨ (i = p.finished w ∧ p.busy w = true)

theorem Finished.started {p : Progress W} {w : W} {i : ℕ} (h : Finished p w i) :
    Started p w i :=
  Or.inl h

theorem Started.finished_before {p : Progress W} {w : W} {i j : ℕ} (h : Started p w i)
    (hlt : j < i) : Finished p w j := by
  rcases h with hfinished | ⟨rfl, -⟩
  · exact hlt.trans hfinished
  · exact hlt

namespace Schedule

variable [Fintype W] [DecidableEq ε] {S : Schedule W α ε} {p p' : Progress W}

theorem counter_mono (h : ∀ w, p.finished w ≤ p'.finished w) (e : ε) :
    S.counter p e ≤ S.counter p' e := by
  apply Finset.sum_le_sum
  intro w _
  exact ((take_prefix_take_left (h w)).sublist).countP_le

theorem Admits.mono {a : α} (ha : S.Admits p a) (h : ∀ w, p.finished w ≤ p'.finished w) :
    S.Admits p' a := by
  intro e threshold hawaits
  have hnow := ha e threshold hawaits
  have hmono := counter_mono (S := S) h e
  omega

/-- What holds in every reachable state: a started entry was admitted, and its
admission does not lapse. -/
structure Sound (S : Schedule W α ε) (p : Progress W) : Prop where
  within : ∀ w, p.finished w ≤ (S.queue w).length
  running : ∀ w, p.busy w = true → p.finished w < (S.queue w).length
  admitted : ∀ w i a, Started p w i → (S.queue w)[i]? = some a → S.Admits p a

theorem sound_initial : Sound S (initial : Progress W) where
  within w := Nat.zero_le _
  running w hbusy := by simp [initial] at hbusy
  admitted w i a hstarted := by
    rcases hstarted with h | ⟨-, h⟩
    · simp [initial] at h
    · simp [initial] at h

theorem finished_of_counter {e : ε} (hcount : S.producers e ≤ S.counter p e) {w : W} {i : ℕ}
    {a : α} (hentry : (S.queue w)[i]? = some a) (hsignals : S.signals a = some e) :
    Finished p w i := by
  have hle : ∀ v ∈ Finset.univ,
      ((S.queue v).take (p.finished v)).countP (S.signalsEvent e)
        ≤ (S.queue v).countP (S.signalsEvent e) :=
    fun v _ => (take_sublist _ _).countP_le
  have hsum : S.counter p e = S.producers e := le_antisymm (Finset.sum_le_sum hle) hcount
  have hall := (Finset.sum_eq_sum_iff_of_le hle).mp hsum w (Finset.mem_univ w)
  by_contra hnot
  -- otherwise the entry is still ahead of its worker and is missing from the count
  have hge : p.finished w ≤ i := Nat.le_of_not_lt hnot
  have hmem : a ∈ (S.queue w).drop (p.finished w) := by
    apply mem_iff_getElem?.mpr
    exact ⟨i - p.finished w, by rw [getElem?_drop, Nat.add_sub_cancel' hge, hentry]⟩
  have hpos : 0 < ((S.queue w).drop (p.finished w)).countP (S.signalsEvent e) :=
    countP_pos_iff.mpr ⟨a, hmem, by simp [signalsEvent, hsignals]⟩
  have hsplit : (S.queue w).countP (S.signalsEvent e)
      = ((S.queue w).take (p.finished w)).countP (S.signalsEvent e)
        + ((S.queue w).drop (p.finished w)).countP (S.signalsEvent e) := by
    rw [← countP_append, take_append_drop]
  omega

theorem Sound.finished_of_started (h : Sound S p) {w v : W} {i j : ℕ} {a b : α} {e : ε}
    {threshold : ℤ} (hstarted : Started p w i) (ha : (S.queue w)[i]? = some a)
    (hawaits : S.awaits a = some (e, threshold)) (hthreshold : (S.producers e : ℤ) ≤ threshold)
    (hb : (S.queue v)[j]? = some b) (hsignals : S.signals b = some e) : Finished p v j := by
  have hreached := h.admitted w i a hstarted ha e threshold hawaits
  apply finished_of_counter (e := e) _ hb hsignals
  omega

variable [DecidableEq W]

theorem Step.finished_le (h : S.Step p p') (w : W) : p.finished w ≤ p'.finished w := by
  cases h with
  | start => exact le_rfl
  | @finish v busy =>
    by_cases hv : w = v
    · subst hv
      simp
    · simp [hv]

theorem Sound.start (h : Sound S p) {w : W} {a : α}
    (next : (S.queue w)[p.finished w]? = some a) (admitted : S.Admits p a) :
    Sound S { p with busy := Function.update p.busy w true } where
  within := h.within
  running v hbusy := by
    by_cases hv : v = w
    · subst hv
      exact (List.getElem?_eq_some_iff.mp next).1
    · exact h.running v (by simpa [hv] using hbusy)
  admitted v i b hstarted hentry := by
    rcases hstarted with hlt | ⟨hi, hbusy⟩
    · exact h.admitted v i b (Or.inl hlt) hentry
    · by_cases hv : v = w
      · subst hv hi
        obtain rfl : a = b := Option.some_inj.mp (next.symm.trans hentry)
        exact admitted
      · exact h.admitted v i b (Or.inr ⟨hi, by simpa [hv] using hbusy⟩) hentry

theorem Sound.finish (h : Sound S p) {w : W} (busy : p.busy w = true) :
    Sound S { finished := Function.update p.finished w (p.finished w + 1)
              busy := Function.update p.busy w false } where
  within v := by
    by_cases hv : v = w
    · subst hv
      simpa using Nat.succ_le_of_lt (h.running v busy)
    · simpa [hv] using h.within v
  running v hbusy := by
    by_cases hv : v = w
    · subst hv
      simp at hbusy
    · have := h.running v (by simpa [hv] using hbusy)
      simpa [hv] using this
  admitted v i b hstarted hentry := by
    -- finishing marks no further entry as started
    have hbefore : Started p v i := by
      by_cases hv : v = w
      · subst hv
        rcases hstarted with hlt | ⟨-, hbusy⟩
        · have hle : i ≤ p.finished v := Nat.lt_succ_iff.mp (by simpa using hlt)
          rcases Nat.lt_or_eq_of_le hle with hlt' | heq
          · exact Or.inl hlt'
          · exact Or.inr ⟨heq, busy⟩
        · simp at hbusy
      · simpa [Started, hv] using hstarted
    have hstep : S.Step p _ := Step.finish busy
    exact (h.admitted v i b hbefore hentry).mono hstep.finished_le

theorem Sound.step (h : Sound S p) (hstep : S.Step p p') : Sound S p' := by
  cases hstep with
  | start _ next _ admitted => exact h.start next admitted
  | finish busy => exact h.finish busy

theorem Reachable.sound (h : S.Reachable p) : Sound S p := by
  induction h with
  | refl => exact sound_initial
  | tail _ hstep ih => exact ih.step hstep

end Schedule

end HyperParallel.Foundation.EventWorkers
