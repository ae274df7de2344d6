import Mathlib.Algebra.Order.BigOperators.Group.Finset
import Mathlib.Data.Finset.Max

/-!
# Ranks that meet

Each rank runs its own list of actions.  A local action runs alone; a send and
the matching receive complete together, whatever they carry.  Lists that are the
views of one global list of events never get stuck: the first event left is at
the head of every list it appears in.
-/

namespace HyperParallel.Foundation.Rendezvous

open List

variable {ι σ τ : Type*} [DecidableEq ι]

inductive Action (ι σ τ : Type*) where
  | run (step : σ)
  | send (peer : ι) (payload : τ)
  | recv (peer : ι) (payload : τ)
  deriving DecidableEq

abbrev Queues (ι σ τ : Type*) := ι → List (Action ι σ τ)

inductive Step : Queues ι σ τ → Queues ι σ τ → Prop where
  | run {queues : Queues ι σ τ} {i : ι} {s : σ} {rest : List (Action ι σ τ)}
      (head : queues i = .run s :: rest) : Step queues (Function.update queues i rest)
  | meet {queues : Queues ι σ τ} {i j : ι} {x y : τ} {rest rest' : List (Action ι σ τ)}
      (hne : i ≠ j) (sender : queues i = .send j x :: rest)
      (receiver : queues j = .recv i y :: rest') :
      Step queues (Function.update (Function.update queues i rest) j rest')

abbrev Reachable (queues queues' : Queues ι σ τ) : Prop :=
  Relation.ReflTransGen Step queues queues'

def Finished (queues : Queues ι σ τ) : Prop := ∀ i, queues i = []

inductive Event (ι σ τ : Type*) where
  | run (rank : ι) (step : σ)
  | transfer (source target : ι) (hne : source ≠ target) (payload : τ)

def Event.view (i : ι) : Event ι σ τ → List (Action ι σ τ)
  | .run rank s => if rank = i then [.run s] else []
  | .transfer source target _ x =>
    if source = i then [.send target x]
    else if target = i then [.recv source x] else []

def view (i : ι) (events : List (Event ι σ τ)) : List (Action ι σ τ) :=
  events.flatMap (Event.view i)

def Realizes (events : List (Event ι σ τ)) (queues : Queues ι σ τ) : Prop :=
  ∀ i, queues i = view i events

@[simp] theorem view_nil (i : ι) : view i ([] : List (Event ι σ τ)) = [] := rfl

@[simp] theorem view_cons (i : ι) (e : Event ι σ τ) (events : List (Event ι σ τ)) :
    view i (e :: events) = e.view i ++ view i events := rfl

@[simp] theorem view_append (i : ι) (front back : List (Event ι σ τ)) :
    view i (front ++ back) = view i front ++ view i back := List.flatMap_append

variable {actions : List (Action ι σ τ)}

variable {e : Event ι σ τ}

theorem view_run {i : ι} {s : σ} (h : e.view i = .run s :: actions) :
    e = .run i s ∧ actions = [] := by
  cases e with
  | run rank t =>
    simp only [Event.view] at h
    split at h <;> simp_all
  | transfer source target hne x =>
    simp only [Event.view] at h
    split at h
    · simp at h
    · split at h <;> simp at h

theorem view_send {i j : ι} {x : τ} (h : e.view i = .send j x :: actions) :
    ∃ hne, e = .transfer i j hne x ∧ actions = [] := by
  cases e with
  | run rank t =>
    simp only [Event.view] at h
    split at h <;> simp at h
  | transfer source target hne y =>
    simp only [Event.view] at h
    split at h
    · simp only [cons.injEq, Action.send.injEq] at h
      rename_i heq
      subst heq
      obtain ⟨⟨rfl, rfl⟩, rfl⟩ := h
      exact ⟨hne, rfl, rfl⟩
    · split at h <;> simp at h

theorem view_recv {i j : ι} {x : τ} (h : e.view i = .recv j x :: actions) :
    ∃ hne, e = .transfer j i hne x ∧ actions = [] := by
  cases e with
  | run rank t =>
    simp only [Event.view] at h
    split at h <;> simp at h
  | transfer source target hne y =>
    simp only [Event.view] at h
    split at h
    · simp at h
    · split at h
      · simp only [cons.injEq, Action.recv.injEq] at h
        rename_i heq
        subst heq
        obtain ⟨⟨rfl, rfl⟩, rfl⟩ := h
        exact ⟨hne, rfl, rfl⟩
      · simp at h

theorem view_split {i : ι} {a : Action ι σ τ} {rest : List (Action ι σ τ)}
    {events : List (Event ι σ τ)} (h : view i events = a :: rest) :
    ∃ front e back actions, events = front ++ e :: back ∧ view i front = [] ∧
      e.view i = a :: actions ∧ rest = actions ++ view i back := by
  induction events with
  | nil => simp at h
  | cons e events ih =>
    rw [view_cons] at h
    cases hview : e.view i with
    | nil =>
      rw [hview, nil_append] at h
      obtain ⟨front, e', back, actions, rfl, hfront, he', hrest⟩ := ih h
      exact ⟨e :: front, e', back, actions, rfl, by simp [hview, hfront], he', hrest⟩
    | cons b actions =>
      rw [hview, cons_append, cons.injEq] at h
      obtain ⟨rfl, rfl⟩ := h
      exact ⟨[], e, events, actions, rfl, rfl, hview, rfl⟩

/-- A batch of payloads from one rank to another, one meeting after the other. -/
def transfers {source target : ι} (hne : source ≠ target) (payloads : List τ) :
    List (Event ι σ τ) :=
  payloads.map (Event.transfer source target hne)

theorem view_transfers_source {source target : ι} (hne : source ≠ target) (payloads : List τ) :
    view source (transfers hne payloads : List (Event ι σ τ)) =
      payloads.map (Action.send target) := by
  induction payloads with
  | nil => rfl
  | cons x payloads ih =>
    rw [transfers, map_cons, view_cons, ← transfers, ih]
    simp [Event.view]

theorem view_transfers_target {source target : ι} (hne : source ≠ target) (payloads : List τ) :
    view target (transfers hne payloads : List (Event ι σ τ)) =
      payloads.map (Action.recv source) := by
  induction payloads with
  | nil => rfl
  | cons x payloads ih =>
    rw [transfers, map_cons, view_cons, ← transfers, ih]
    simp [Event.view, hne]

theorem view_transfers_other {source target i : ι} (hne : source ≠ target) (payloads : List τ)
    (hsource : i ≠ source) (htarget : i ≠ target) :
    view i (transfers hne payloads : List (Event ι σ τ)) = [] := by
  induction payloads with
  | nil => rfl
  | cons x payloads ih =>
    rw [transfers, map_cons, view_cons, ← transfers, ih]
    simp [Event.view, hsource.symm, htarget.symm]

theorem view_runs (rank i : ι) (steps : List σ) :
    view i (steps.map (Event.run rank : σ → Event ι σ τ)) = if i = rank then steps.map .run else [] := by
  induction steps with
  | nil => simp
  | cons s steps ih =>
    rw [map_cons, view_cons, ih]
    by_cases hi : i = rank
    · simp [Event.view, hi]
    · simp [Event.view, hi, Ne.symm hi]

def Event.expand (before : σ → List σ) : Event ι σ τ → List (Event ι σ τ)
  | .run rank s => (before s ++ [s]).map (.run rank)
  | e => [e]

def Action.expand (before : σ → List σ) : Action ι σ τ → List (Action ι σ τ)
  | .run s => (before s ++ [s]).map .run
  | a => [a]

theorem Event.view_expand (before : σ → List σ) (i : ι) (e : Event ι σ τ) :
    Rendezvous.view i (e.expand before) = (e.view i).flatMap (Action.expand before) := by
  cases e with
  | run rank s =>
    rw [Event.expand, view_runs, Event.view]
    by_cases hi : i = rank
    · simp [hi, Action.expand]
    · simp [hi, Ne.symm hi]
  | transfer source target hne x =>
    simp only [Event.expand, view_cons, view_nil, append_nil, Event.view]
    split_ifs <;> simp [Action.expand]

theorem Realizes.expand (before : σ → List σ) {events : List (Event ι σ τ)}
    {queues : Queues ι σ τ} (h : Realizes events queues) :
    Realizes (events.flatMap (Event.expand before))
      fun i => (queues i).flatMap (Action.expand before) := by
  intro i
  simp only [h i]
  clear h
  induction events with
  | nil => rfl
  | cons e events ih =>
    rw [view_cons, flatMap_append, ih, flatMap_cons, view_append, e.view_expand]

section Realized

variable {events : List (Event ι σ τ)} {queues queues' : Queues ι σ τ}

section

variable (h : Realizes events queues)

include h

theorem Realizes.meet_split {i j : ι} {x y : τ} {rest rest' : List (Action ι σ τ)}
    (sender : queues i = .send j x :: rest) (receiver : queues j = .recv i y :: rest') :
    x = y ∧ ∃ front back hne, events = front ++ .transfer i j hne x :: back ∧
      view i front = [] ∧ view j front = [] ∧ rest = view i back ∧ rest' = view j back := by
  rw [h i] at sender
  obtain ⟨front, e, back, actions, hevents, hfront, hview, hrest⟩ := view_split sender
  obtain ⟨hne, rfl, rfl⟩ := view_send hview
  have htarget : (Event.transfer i j hne x : Event ι σ τ).view j = [.recv i x] := by
    simp [Event.view, hne]
  have hfrontTarget : view j front = [] := by
    cases hcase : view j front with
    | nil => rfl
    | cons b actions =>
      -- an earlier meeting at the receiver would be one at the sender
      rw [h j, hevents, view_append, hcase, cons_append, cons.injEq] at receiver
      obtain ⟨front', e', back', actions', rfl, -, hview', -⟩ := view_split hcase
      rw [receiver.1] at hview'
      obtain ⟨hne', rfl, -⟩ := view_recv hview'
      simp [Event.view] at hfront
  rw [h j, hevents, view_append, hfrontTarget, view_cons, htarget] at receiver
  simp only [nil_append, singleton_append, cons.injEq, Action.recv.injEq, true_and] at receiver
  exact ⟨receiver.1, front, back, hne, hevents, hfront, hfrontTarget, by simpa using hrest,
    receiver.2.symm⟩

theorem Realizes.step (hstep : Step queues queues') :
    ∃ events', Realizes events' queues' ∧ events'.length < events.length := by
  cases hstep with
  | @run i s rest head =>
    rw [h i] at head
    obtain ⟨front, e, back, actions, rfl, hfront, hview, hrest⟩ := view_split head
    obtain ⟨rfl, rfl⟩ := view_run hview
    refine ⟨front ++ back, fun k => ?_, by simp⟩
    by_cases hk : k = i
    · subst hk
      rw [Function.update_self, view_append, hfront, hrest]
    · rw [Function.update_of_ne hk, h k]
      simp [Event.view, Ne.symm hk]
  | @meet i j x y rest rest' hne sender receiver =>
    obtain ⟨-, front, back, hne', rfl, hfront, hfrontTarget, hrest, hrest'⟩ :=
      h.meet_split sender receiver
    refine ⟨front ++ back, fun k => ?_, by simp⟩
    by_cases hkj : k = j
    · subst hkj
      rw [Function.update_self, view_append, hfrontTarget, hrest', nil_append]
    · rw [Function.update_of_ne hkj]
      by_cases hki : k = i
      · subst hki
        rw [Function.update_self, view_append, hfront, hrest, nil_append]
      · rw [Function.update_of_ne hki, h k]
        simp [Event.view, Ne.symm hki, Ne.symm hkj]

theorem Realizes.reachable (hreach : Reachable queues queues') :
    ∃ events', Realizes events' queues' := by
  induction hreach with
  | refl => exact ⟨events, h⟩
  | tail _ hstep ih =>
    obtain ⟨events', h'⟩ := ih
    obtain ⟨events'', h'', -⟩ := h'.step hstep
    exact ⟨events'', h''⟩

theorem Realizes.progress (hleft : ¬Finished queues) : ∃ queues', Step queues queues' := by
  cases events with
  | nil => exact absurd (fun i => h i) hleft
  | cons e events =>
    cases e with
    | run i s =>
      have head : queues i = .run s :: view i events := by
        rw [h i]
        simp [Event.view]
      exact ⟨_, .run head⟩
    | transfer i j hne x =>
      have sender : queues i = .send j x :: view i events := by
        rw [h i]
        simp [Event.view]
      have receiver : queues j = .recv i x :: view j events := by
        rw [h j]
        simp [Event.view, hne]
      exact ⟨_, .meet hne sender receiver⟩

theorem Realizes.not_stuck (hreach : Reachable queues queues') (hleft : ¬Finished queues') :
    ∃ queues'', Step queues' queues'' := by
  obtain ⟨events', h'⟩ := h.reachable hreach
  exact h'.progress hleft

theorem Realizes.finishes : ∃ queues', Reachable queues queues' ∧ Finished queues' := by
  induction hn : events.length using Nat.strongRecOn generalizing events queues with
  | _ n ih =>
    by_cases hleft : Finished queues
    · exact ⟨queues, .refl, hleft⟩
    · obtain ⟨queues', hstep⟩ := h.progress hleft
      obtain ⟨events', h', hlt⟩ := h.step hstep
      obtain ⟨queues'', hreach, hdone⟩ := ih _ (hn ▸ hlt) h' rfl
      exact ⟨queues'', .head hstep hreach, hdone⟩

end

end Realized

/-! ## First in, first out -/

def sentTo (peer : ι) (actions : List (Action ι σ τ)) : List τ :=
  actions.filterMap fun
    | .send target x => if target = peer then some x else none
    | _ => none

def receivedFrom (peer : ι) (actions : List (Action ι σ τ)) : List τ :=
  actions.filterMap fun
    | .recv source x => if source = peer then some x else none
    | _ => none

theorem sentTo_append (peer : ι) (front back : List (Action ι σ τ)) :
    sentTo peer (front ++ back) = sentTo peer front ++ sentTo peer back :=
  List.filterMap_append

theorem receivedFrom_append (peer : ι) (front back : List (Action ι σ τ)) :
    receivedFrom peer (front ++ back) = receivedFrom peer front ++ receivedFrom peer back :=
  List.filterMap_append

theorem Event.sent_eq_received (i j : ι) (e : Event ι σ τ) :
    sentTo j (e.view i) = receivedFrom i (e.view j) := by
  cases e with
  | run rank s =>
    by_cases hi : rank = i <;> by_cases hj : rank = j <;>
      simp [Event.view, hi, hj, sentTo, receivedFrom]
  | transfer source target hne x =>
    by_cases hsi : source = i
    · subst hsi
      by_cases htj : target = j
      · subst htj
        simp [Event.view, sentTo, receivedFrom, hne]
      · by_cases hsj : source = j <;> simp [Event.view, sentTo, receivedFrom, htj, hsj]
    · simp only [Event.view, hsi, if_false]
      split_ifs <;> simp [sentTo, receivedFrom, hsi]

theorem Realizes.sent_eq_received {events : List (Event ι σ τ)} {queues : Queues ι σ τ}
    (h : Realizes events queues) (i j : ι) :
    sentTo j (queues i) = receivedFrom i (queues j) := by
  rw [h i, h j]
  clear h
  induction events with
  | nil => rfl
  | cons e events ih =>
    rw [view_cons, view_cons, sentTo_append, receivedFrom_append, e.sent_eq_received, ih]

/-! ## Stamped lists -/

/--
Each list rises strictly in its stamps, and a send carries the stamp of its
receive.
-/
structure Timed (queues : ι → List (Nat × Action ι σ τ)) : Prop where
  sorted : ∀ i, (queues i).Pairwise (·.1 < ·.1)
  send_iff_recv : ∀ i j t x, (t, Action.send j x) ∈ queues i ↔ (t, Action.recv i x) ∈ queues j
  send_ne : ∀ i j t x, (t, Action.send j x) ∈ queues i → i ≠ j

theorem mem_tail_iff {α : Type*} {e a : Nat × α} {rest : List (Nat × α)}
    (hsorted : (a :: rest).Pairwise (·.1 < ·.1)) : e ∈ rest ↔ e ∈ a :: rest ∧ e ≠ a := by
  have hhead := (pairwise_cons.mp hsorted).1
  constructor
  · intro he
    refine ⟨mem_cons_of_mem a he, ?_⟩
    rintro rfl
    exact absurd (hhead e he) (lt_irrefl _)
  · rintro ⟨he, hne⟩
    exact (mem_cons.mp he).resolve_left hne

section Timed

variable {queues : ι → List (Nat × Action ι σ τ)}

variable {rest : List (Nat × Action ι σ τ)}

section

variable (h : Timed queues)

include h

variable {t : Nat}

theorem Timed.popRun {i : ι} {s : σ} (head : queues i = (t, .run s) :: rest) :
    Timed (Function.update queues i rest) := by
  have hsorted := h.sorted i
  rw [head] at hsorted
  have hmem : ∀ k e, e ≠ (t, Action.run s) →
      (e ∈ Function.update queues i rest k ↔ e ∈ queues k) := by
    intro k e hne
    by_cases hk : k = i
    · subst hk
      rw [Function.update_self, mem_tail_iff hsorted, head]
      exact and_iff_left hne
    · rw [Function.update_of_ne hk]
  refine ⟨fun k => ?_, fun k l t' y => ?_, fun k l t' y hsend => ?_⟩
  · by_cases hk : k = i
    · subst hk
      rw [Function.update_self]
      exact (pairwise_cons.mp hsorted).2
    · rw [Function.update_of_ne hk]
      exact h.sorted k
  · rw [hmem k _ (by simp), hmem l _ (by simp)]
    exact h.send_iff_recv k l t' y
  · exact h.send_ne k l t' y ((hmem k _ (by simp)).mp hsend)

theorem Timed.popMeet {i j : ι} (hne : i ≠ j) {x : τ} {rest' : List (Nat × Action ι σ τ)}
    (sender : queues i = (t, .send j x) :: rest) (receiver : queues j = (t, .recv i x) :: rest') :
    Timed (Function.update (Function.update queues i rest) j rest') := by
  have hsortedSender := h.sorted i
  have hsortedReceiver := h.sorted j
  rw [sender] at hsortedSender
  rw [receiver] at hsortedReceiver
  have hmem : ∀ k e, e ∈ Function.update (Function.update queues i rest) j rest' k ↔
      e ∈ queues k ∧ ¬(k = i ∧ e = (t, .send j x)) ∧ ¬(k = j ∧ e = (t, .recv i x)) := by
    intro k e
    by_cases hkj : k = j
    · subst hkj
      rw [Function.update_self, mem_tail_iff hsortedReceiver, receiver]
      simp [hne.symm]
    · rw [Function.update_of_ne hkj]
      by_cases hki : k = i
      · subst hki
        rw [Function.update_self, mem_tail_iff hsortedSender, sender]
        simp [hne]
      · rw [Function.update_of_ne hki]
        simp [hki, hkj]
  refine ⟨fun k => ?_, fun k l t' y => ?_, fun k l t' y hsend => ?_⟩
  · by_cases hkj : k = j
    · subst hkj
      rw [Function.update_self]
      exact (pairwise_cons.mp hsortedReceiver).2
    · rw [Function.update_of_ne hkj]
      by_cases hki : k = i
      · subst hki
        rw [Function.update_self]
        exact (pairwise_cons.mp hsortedSender).2
      · rw [Function.update_of_ne hki]
        exact h.sorted k
  · rw [hmem, hmem, h.send_iff_recv k l t' y]
    simp only [Prod.mk.injEq, Action.send.injEq, Action.recv.injEq, reduceCtorEq, and_false,
      not_false_eq_true, and_true, true_and]
    tauto
  · exact h.send_ne k l t' y ((hmem k _).mp hsend).1

omit [DecidableEq ι] in
theorem Timed.mate_head {j : ι} {a : Action ι σ τ} (hmem : (t, a) ∈ queues j)
    (hmin : ∀ e ∈ (queues j).head?, t ≤ e.1) : ∃ rest, queues j = (t, a) :: rest := by
  cases hqueue : queues j with
  | nil => simp [hqueue] at hmem
  | cons e rest =>
    rw [hqueue] at hmem hmin
    have hsorted := h.sorted j
    rw [hqueue] at hsorted
    rcases mem_cons.mp hmem with heq | hrest
    · exact ⟨rest, by rw [heq]⟩
    · have hlt := (pairwise_cons.mp hsorted).1 _ hrest
      have hle := hmin e rfl
      omega

section

variable {ranks : Finset ι} (hranks : ∀ i, i ∉ ranks → queues i = [])
  (ih : ∀ queues' : ι → List (Nat × Action ι σ τ), Timed queues' →
    (∀ i, i ∉ ranks → queues' i = []) →
      ∑ i ∈ ranks, (queues' i).length < ∑ i ∈ ranks, (queues i).length →
        ∃ events, Realizes events fun i => (queues' i).map Prod.snd)

include hranks ih

theorem Timed.realizes_run {i : ι} (hi : i ∈ ranks) {s : σ}
    (head : queues i = (t, .run s) :: rest) :
    ∃ events, Realizes events fun i => (queues i).map Prod.snd := by
  have hempty : ∀ k, k ∉ ranks → Function.update queues i rest k = [] := by
    intro k hk
    have hne : k ≠ i := by
      rintro rfl
      exact hk hi
    rw [Function.update_of_ne hne, hranks k hk]
  have hshorter : ∀ k ∈ ranks, (Function.update queues i rest k).length ≤ (queues k).length := by
    intro k _
    by_cases hk : k = i
    · subst hk
      simp [head]
    · simp [hk]
  obtain ⟨events, hevents⟩ := ih _ (h.popRun head) hempty
    (Finset.sum_lt_sum hshorter ⟨i, hi, by simp [head]⟩)
  refine ⟨.run i s :: events, fun k => ?_⟩
  rw [view_cons, ← hevents k]
  by_cases hk : k = i
  · subst hk
    simp [Event.view, head]
  · simp [Event.view, hk, Ne.symm hk]

theorem Timed.realizes_meet {i j : ι} (hi : i ∈ ranks) (hj : j ∈ ranks) (hne : i ≠ j) {x : τ}
    {rest' : List (Nat × Action ι σ τ)} (sender : queues i = (t, .send j x) :: rest)
    (receiver : queues j = (t, .recv i x) :: rest') :
    ∃ events, Realizes events fun i => (queues i).map Prod.snd := by
  have hempty : ∀ k, k ∉ ranks →
      Function.update (Function.update queues i rest) j rest' k = [] := by
    intro k hk
    have hki : k ≠ i := by
      rintro rfl
      exact hk hi
    have hkj : k ≠ j := by
      rintro rfl
      exact hk hj
    rw [Function.update_of_ne hkj, Function.update_of_ne hki, hranks k hk]
  have hshorter : ∀ k ∈ ranks,
      (Function.update (Function.update queues i rest) j rest' k).length ≤ (queues k).length := by
    intro k _
    by_cases hkj : k = j
    · subst hkj
      simp [receiver]
    · by_cases hki : k = i
      · subst hki
        simp [hkj, sender]
      · simp [hkj, hki]
  obtain ⟨events, hevents⟩ := ih _ (h.popMeet hne sender receiver) hempty
    (Finset.sum_lt_sum hshorter ⟨i, hi, by simp [hne, sender]⟩)
  refine ⟨.transfer i j hne x :: events, fun k => ?_⟩
  rw [view_cons, ← hevents k]
  by_cases hkj : k = j
  · subst hkj
    simp [Event.view, hne, receiver]
  · by_cases hki : k = i
    · subst hki
      simp [Event.view, hne, sender]
    · simp [Event.view, hki, hkj, Ne.symm hki, Ne.symm hkj]

end

theorem Timed.realizes (ranks : Finset ι) (hranks : ∀ i, i ∉ ranks → queues i = []) :
    ∃ events, Realizes events fun i => (queues i).map Prod.snd := by
  induction hn : ∑ i ∈ ranks, (queues i).length using Nat.strongRecOn generalizing queues with
  | _ n ih =>
    by_cases hdone : ∀ i ∈ ranks, queues i = []
    · refine ⟨[], fun i => ?_⟩
      by_cases hi : i ∈ ranks
      · simp [hdone i hi]
      · simp [hranks i hi]
    -- a rank whose head has the least stamp
    let left := ranks.filter fun i => queues i ≠ []
    have hleft : left.Nonempty := by
      push Not at hdone
      obtain ⟨i, hi, hne⟩ := hdone
      exact ⟨i, Finset.mem_filter.mpr ⟨hi, hne⟩⟩
    obtain ⟨i, hi, hmin⟩ := left.exists_min_image
      (fun i => ((queues i).head?.map Prod.fst).getD 0) hleft
    have hiRanks := (Finset.mem_filter.mp hi).1
    obtain ⟨⟨t, a⟩, rest, head⟩ := exists_cons_of_ne_nil (Finset.mem_filter.mp hi).2
    have hearliest : ∀ j, ∀ e ∈ (queues j).head?, t ≤ e.1 := by
      intro j e he
      have hne : queues j ≠ [] := by
        intro hnil
        simp [hnil] at he
      have hj : j ∈ left := by
        refine Finset.mem_filter.mpr ⟨?_, hne⟩
        by_contra hnot
        exact hne (hranks j hnot)
      have hle := hmin j hj
      rw [Option.mem_def.mp he, head] at hle
      simpa using hle
    have hother : ∀ j e, e ∈ queues j → j ∈ ranks := by
      intro j e he
      by_contra hnot
      simp [hranks j hnot] at he
    cases a with
    | run s =>
      obtain ⟨events, hevents⟩ := h.realizes_run hranks (fun q hq hq' hlt => ih _ (hn ▸ hlt) hq hq' rfl)
        hiRanks head
      exact ⟨_, hevents⟩
    | send j x =>
      have hmem : (t, Action.send j x) ∈ queues i := by simp [head]
      have hmate := (h.send_iff_recv i j t x).mp hmem
      obtain ⟨rest', receiver⟩ := h.mate_head hmate (hearliest j)
      obtain ⟨events, hevents⟩ := h.realizes_meet hranks
        (fun q hq hq' hlt => ih _ (hn ▸ hlt) hq hq' rfl) hiRanks (hother j _ hmate)
        (h.send_ne i j t x hmem) head receiver
      exact ⟨_, hevents⟩
    | recv j x =>
      have hmem : (t, Action.recv j x) ∈ queues i := by simp [head]
      have hmate := (h.send_iff_recv j i t x).mpr hmem
      obtain ⟨rest', sender⟩ := h.mate_head hmate (hearliest j)
      obtain ⟨events, hevents⟩ := h.realizes_meet hranks
        (fun q hq hq' hlt => ih _ (hn ▸ hlt) hq hq' rfl) (hother j _ hmate) hiRanks
        (h.send_ne j i t x hmate) sender head
      exact ⟨_, hevents⟩

end

end Timed

/-! ## Rewriting, joining -/

section Rewrite

variable {σ' τ' : Type*}

def Event.rewrite (runs : ι → σ → List σ') (rename : τ → τ') :
    Event ι σ τ → List (Event ι σ' τ')
  | .run rank s => (runs rank s).map (.run rank)
  | .transfer source target hne x => [.transfer source target hne (rename x)]

def Action.rewrite (runs : σ → List σ') (rename : τ → τ') :
    Action ι σ τ → List (Action ι σ' τ')
  | .run s => (runs s).map .run
  | .send peer x => [.send peer (rename x)]
  | .recv peer x => [.recv peer (rename x)]

theorem Event.view_rewrite (runs : ι → σ → List σ') (rename : τ → τ') (i : ι) (e : Event ι σ τ) :
    Rendezvous.view i (e.rewrite runs rename) =
      (e.view i).flatMap (Action.rewrite (runs i) rename) := by
  cases e with
  | run rank s =>
    rw [Event.rewrite, view_runs, Event.view]
    by_cases hi : i = rank
    · simp [hi, Action.rewrite]
    · simp [hi, Ne.symm hi]
  | transfer source target hne x =>
    simp only [Event.rewrite, view_cons, view_nil, append_nil, Event.view]
    split_ifs <;> simp [Action.rewrite]

theorem Realizes.rewrite (runs : ι → σ → List σ') (rename : τ → τ')
    {events : List (Event ι σ τ)} {queues : Queues ι σ τ} (h : Realizes events queues) :
    Realizes (events.flatMap (Event.rewrite runs rename))
      fun i => (queues i).flatMap (Action.rewrite (runs i) rename) := by
  intro i
  simp only [h i]
  clear h
  induction events with
  | nil => rfl
  | cons e events ih =>
    rw [view_cons, flatMap_append, ih, flatMap_cons, view_append, e.view_rewrite]

end Rewrite

theorem Realizes.append {events events' : List (Event ι σ τ)} {queues queues' : Queues ι σ τ}
    (h : Realizes events queues) (h' : Realizes events' queues') :
    Realizes (events ++ events') fun i => queues i ++ queues' i := by
  intro i
  simp only [view_append, h i, h' i]

/-! ## A hub -/

section Hub

variable {α : Type*} (hub : ι) (peer : α → ι) (payload : α → τ)

def gather (items : List α) : List (Event ι σ τ) :=
  items.flatMap fun a =>
    if hne : peer a ≠ hub then [.transfer (peer a) hub hne (payload a)] else []

def scatter (items : List α) : List (Event ι σ τ) :=
  items.flatMap fun a =>
    if hne : hub ≠ peer a then [.transfer hub (peer a) hne (payload a)] else []

variable {hub}

theorem view_gather (i : ι) (items : List α) :
    view i (gather hub peer payload items : List (Event ι σ τ)) =
      if i = hub then
        (items.filter (peer · ≠ hub)).map fun a => .recv (peer a) (payload a)
      else (items.filter (peer · = i)).map fun a => .send hub (payload a) := by
  induction items with
  | nil => simp [gather]
  | cons a items ih =>
    rw [gather, flatMap_cons, view_append, ← gather, ih]
    by_cases hhub : peer a = hub
    · by_cases hi : i = hub
      · simp [hhub, hi]
      · simp [hhub, hi, Ne.symm hi]
    · by_cases hi : i = hub
      · simp [hhub, hi, Event.view]
      · by_cases hpeer : peer a = i
        · simp [hi, hpeer, Event.view]
        · simp [hhub, hi, hpeer, Event.view, Ne.symm hi]

theorem view_scatter (i : ι) (items : List α) :
    view i (scatter hub peer payload items : List (Event ι σ τ)) =
      if i = hub then
        (items.filter (peer · ≠ hub)).map fun a => .send (peer a) (payload a)
      else (items.filter (peer · = i)).map fun a => .recv hub (payload a) := by
  induction items with
  | nil => simp [scatter]
  | cons a items ih =>
    rw [scatter, flatMap_cons, view_append, ← scatter, ih]
    by_cases hhub : peer a = hub
    · by_cases hi : i = hub
      · simp [hhub, hi]
      · simp [hhub, hi, Ne.symm hi]
    · by_cases hi : i = hub
      · simp [hhub, hi, Event.view, Ne.symm hhub]
      · by_cases hpeer : peer a = i
        · simp [hi, hpeer, Event.view, Ne.symm hi]
        · simp [hi, hpeer, Event.view, Ne.symm hhub, Ne.symm hi]

end Hub

theorem view_flatMap_runs {ranks : List ι} (hnodup : ranks.Nodup) (steps : ι → List σ) (i : ι) :
    view i (ranks.flatMap fun rank =>
        (steps rank).map (Event.run rank : σ → Event ι σ τ)) =
      if i ∈ ranks then (steps i).map .run else [] := by
  induction ranks with
  | nil => rfl
  | cons rank ranks ih =>
    obtain ⟨hnot, hnodup⟩ := nodup_cons.mp hnodup
    rw [flatMap_cons, view_append, view_runs, ih hnodup]
    by_cases hi : i = rank
    · simp [hi, hnot]
    · simp [hi]

end HyperParallel.Foundation.Rendezvous
