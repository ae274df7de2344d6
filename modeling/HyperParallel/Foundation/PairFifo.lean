import Mathlib.Algebra.Order.BigOperators.Group.Finset
import Mathlib.Data.Finset.Max
import Mathlib.Data.List.Sort

/-!
# Ordered links between pairs

Each party runs its own list of actions over its own memory.  A send is posted
and the party goes on; a receive is posted and blocks.  Between two parties the
operations of both are paired by their positions: a transfer is complete once
both ends have posted that position.  A wait blocks until the sends under its key
are complete.  Lists that rise in a common time, in which every receive and every
wait comes after what it needs, run to their end in every order of the steps.
-/

namespace HyperParallel.Foundation.PairFifo

open List

variable {ι σ τ κ μ ε θ : Type*}

/-- What an action does on the links; `wait none` waits for all sends. -/
inductive Link (ι κ : Type*) where
  | free
  | send (peer : ι) (key : κ)
  | recv (peer : ι)
  | wait (key : Option κ)
  deriving DecidableEq

structure Action (ι σ κ : Type*) where
  instr : σ
  link : Link ι κ
  deriving DecidableEq

def Link.peer? : Link ι κ → Option ι
  | .send peer _ => some peer
  | .recv peer => some peer
  | _ => none

def Link.isRecv : Link ι κ → Bool
  | .recv _ => true
  | _ => false

@[simp] def Link.input (value : Option τ) : Link ι κ → Option τ
  | .recv _ => value
  | _ => none

@[simp] def Link.output (value : Option τ) : Link ι κ → Option τ
  | .send _ _ => value
  | _ => none

def Link.moved (value : Option τ) (link : Link ι κ) : Option τ :=
  (link.input value).or (link.output value)

def linkOps {β : Type*} [DecidableEq ι] (action : β → Action ι σ κ) (peer : ι) (actions : List β) :
    List β :=
  actions.filter fun a => decide ((action a).link.peer? = some peer)

structure State (ι σ τ κ μ : Type*) where
  done : ι → List (Action ι σ κ × Option τ)
  todo : ι → List (Action ι σ κ)
  mem : ι → μ

def start (program : ι → List (Action ι σ κ)) (init : ι → μ) : State ι σ τ κ μ where
  done _ := []
  todo := program
  mem := init

def Finished (state : State ι σ τ κ μ) : Prop := ∀ i, state.todo i = []

variable [DecidableEq ι]

def State.posted (state : State ι σ τ κ μ) (i peer : ι) : List (Action ι σ κ × Option τ) :=
  linkOps Prod.fst peer (state.done i) ++
    linkOps Prod.fst peer
      (((state.todo i).head?.toList.filter fun a => a.link.isRecv).map fun a => (a, none))

/-- What a party can go on with, and what it receives. -/
inductive Enabled (state : State ι σ τ κ μ) (i : ι) : Link ι κ → Option τ → Prop where
  | free : Enabled state i .free none
  | send (peer : ι) (key : κ) : Enabled state i (.send peer key) none
  | recv {peer : ι} {payload : τ} {key : κ} {b : Action ι σ κ}
      (posted : (state.posted peer i)[(linkOps Prod.fst peer (state.done i)).length]? =
        some (b, some payload))
      (send : b.link = .send i key) : Enabled state i (.recv peer) (some payload)
  | wait {key : Option κ}
      (complete : ∀ (k : Nat) (peer : ι) (b : Action ι σ κ) (value : Option τ) (key' : κ),
        (linkOps Prod.fst peer (state.done i))[k]? = some (b, value) → b.link = .send peer key' →
          (key = none ∨ key = some key') →
            ∃ c value', (state.posted peer i)[k]? = some (c, value') ∧ c.link = .recv i) :
      Enabled state i (.wait key) none

variable (exec : ι → σ → Option τ → μ → Except ε (μ × Option τ))

/-- One party goes on. -/
inductive Step (i : ι) : State ι σ τ κ μ → State ι σ τ κ μ → Prop where
  | act {state : State ι σ τ κ μ} {a : Action ι σ κ} {rest : List (Action ι σ κ)}
      {received sent : Option τ} {mem : μ} (head : state.todo i = a :: rest)
      (enabled : Enabled state i a.link received)
      (run : exec i a.instr received (state.mem i) = .ok (mem, sent)) :
      Step i state {
        done := Function.update state.done i (state.done i ++ [(a, received.or sent)])
        todo := Function.update state.todo i rest
        mem := Function.update state.mem i mem }

/-- A run of `n` steps of the parties in `who`. -/
inductive Run (who : Set ι) : Nat → State ι σ τ κ μ → State ι σ τ κ μ → Prop where
  | refl (state : State ι σ τ κ μ) : Run who 0 state state
  | tail {n : Nat} {state state' state'' : State ι σ τ κ μ} {i : ι} (run : Run who n state state')
      (mem : i ∈ who) (step : Step exec i state' state'') : Run who (n + 1) state state''

/-- None of the parties in `who` can go on. -/
def Stuck (who : Set ι) (state : State ι σ τ κ μ) : Prop :=
  ∀ i ∈ who, ∀ state', ¬ Step exec i state state'

inductive Replays (exec : σ → Option τ → μ → Except ε (μ × Option τ))
    (value : Action ι σ κ → Option τ) : List (Action ι σ κ) → μ → μ → Prop where
  | nil (mem : μ) : Replays exec value [] mem mem
  | cons {a : Action ι σ κ} {rest : List (Action ι σ κ)} {mem mem' mem'' : μ}
      (head : exec a.instr (a.link.input (value a)) mem = .ok (mem', a.link.output (value a)))
      (tail : Replays exec value rest mem' mem'') : Replays exec value (a :: rest) mem mem''

def Matches [LT θ] (time : ι → Action ι σ κ → θ) (value : ι → Action ι σ κ → Option τ) (i j : ι)
    (a b : Action ι σ κ) : Prop :=
  (∃ key, a.link = .send j key ∧ b.link = .recv i ∧ time i a < time j b ∧
    (value i a).isSome ∧ value i a = value j b) ∨
  ∃ key, a.link = .recv j ∧ b.link = .send i key ∧ time j b < time i a ∧
    (value j b).isSome ∧ value i a = value j b

def Complementary (i j : ι) (a b : Action ι σ κ) : Prop :=
  (∃ key, a.link = .send j key ∧ b.link = .recv i) ∨
  ∃ key, a.link = .recv j ∧ b.link = .send i key

structure Script [LT θ] (parties : Finset ι) (program : ι → List (Action ι σ κ))
    (init final : ι → μ) (time : ι → Action ι σ κ → θ) (value : ι → Action ι σ κ → Option τ) :
    Prop where
  idle : ∀ i, i ∉ parties → program i = []
  sorted : ∀ i, (program i).Pairwise fun a b => time i a < time i b
  complementary : ∀ i j, List.Forall₂ (Matches time value i j)
    (linkOps id j (program i)) (linkOps id i (program j))
  waits : ∀ i, ∀ a ∈ program i, ∀ key, a.link = .wait key →
    ∀ (j : ι) (k : Nat) (b c : Action ι σ κ) (key' : κ),
      (linkOps id j (program i))[k]? = some b → b.link = .send j key' →
        (key = none ∨ key = some key') → time i b < time i a →
          (linkOps id i (program j))[k]? = some c → time j c < time i a
  replays : ∀ i, Replays (exec i) (value i) (program i) (init i) (final i)

structure Along (program : ι → List (Action ι σ κ)) (init : ι → μ)
    (value : ι → Action ι σ κ → Option τ) (state : State ι σ τ κ μ) (front : ι → List (Action ι σ κ)) :
    Prop where
  split : ∀ i, front i ++ state.todo i = program i
  done : ∀ i, state.done i = (front i).map fun a => (a, a.link.moved (value i a))
  replayed : ∀ i, Replays (exec i) (value i) (front i) (init i) (state.mem i)

section LinkOps

variable {β : Type*} (action : β → Action ι σ κ)

@[simp] theorem linkOps_append (peer : ι) (front back : List β) :
    linkOps action peer (front ++ back) = linkOps action peer front ++ linkOps action peer back :=
  List.filter_append ..

theorem linkOps_cons_of_peer {peer : ι} {a : β} (h : (action a).link.peer? = some peer)
    (rest : List β) : linkOps action peer (a :: rest) = a :: linkOps action peer rest := by
  simp [linkOps, h]

variable {action}

theorem mem_linkOps {peer : ι} {a : β} {actions : List β} :
    a ∈ linkOps action peer actions ↔ a ∈ actions ∧ (action a).link.peer? = some peer := by
  simp [linkOps]

theorem linkOps_map {γ : Type*} {f : γ → β} (peer : ι) (actions : List γ) :
    linkOps action peer (actions.map f) = (linkOps (action ∘ f) peer actions).map f :=
  List.filter_map

end LinkOps

theorem map_eq_of_rising {β γ : Type*} [Preorder θ] (key : β → θ) (key' : γ → θ) {xs : List β}
    {ys : List γ} {f : β → γ} (hxs : xs.Pairwise fun a b => key a < key b)
    (hys : ys.Pairwise fun a b => key' a < key' b)
    (hmono : ∀ a ∈ xs, ∀ b ∈ xs, key a < key b → key' (f a) < key' (f b))
    (hmem : ∀ y, y ∈ ys ↔ ∃ x ∈ xs, f x = y) : xs.map f = ys := by
  have hirrefl : Std.Irrefl fun a b => key' a < key' b := ⟨fun a => lt_irrefl (key' a)⟩
  have hantisymm : Std.Antisymm fun a b => key' a < key' b :=
    ⟨fun a b hab hba => absurd hab (lt_asymm hba)⟩
  have hmap : (xs.map f).Pairwise fun a b => key' a < key' b :=
    pairwise_map.mpr (hxs.imp_of_mem fun ha hb hab => hmono _ ha _ hb hab)
  refine hmap.eq_of_mem_iff hys ?_
  intro y
  rw [hmem, mem_map]

omit [DecidableEq ι] in
theorem Matches.symm [LT θ] {time : ι → Action ι σ κ → θ} {value : ι → Action ι σ κ → Option τ}
    {i j : ι} {a b : Action ι σ κ} (h : Matches time value i j a b) :
    Matches time value j i b a := by
  rcases h with ⟨key, hsend, hrecv, hlt, hsome, heq⟩ | ⟨key, hrecv, hsend, hlt, hsome, heq⟩
  · exact .inr ⟨key, hrecv, hsend, hlt, hsome, heq.symm⟩
  · exact .inl ⟨key, hsend, hrecv, hlt, hsome, heq.symm⟩

omit [DecidableEq ι] in
theorem Matches.complementary [LT θ] {time : ι → Action ι σ κ → θ}
    {value : ι → Action ι σ κ → Option τ} {i j : ι} {a b : Action ι σ κ}
    (h : Matches time value i j a b) : Complementary i j a b := by
  rcases h with ⟨key, hsend, hrecv, -⟩ | ⟨key, hrecv, hsend, -⟩
  · exact .inl ⟨key, hsend, hrecv⟩
  · exact .inr ⟨key, hrecv, hsend⟩

theorem getElem?_of_isPrefix {α : Type*} {xs ys : List α} (h : xs <+: ys) {k : Nat} {a : α}
    (ha : xs[k]? = some a) : ys[k]? = some a := by
  obtain ⟨rest, rfl⟩ := h
  rw [List.getElem?_append_left (List.getElem?_eq_some_iff.mp ha).1]
  exact ha

omit [DecidableEq ι] in
theorem Along.ofStart (program : ι → List (Action ι σ κ)) (init : ι → μ)
    (value : ι → Action ι σ κ → Option τ) :
    Along exec program init value (start program init) fun _ => [] where
  split _ := rfl
  done _ := rfl
  replayed i := .nil (init i)

section Replays

variable {exec : σ → Option τ → μ → Except ε (μ × Option τ)} {value : Action ι σ κ → Option τ}

omit [DecidableEq ι] in
theorem Replays.append {front back : List (Action ι σ κ)} {mem mem' mem'' : μ}
    (hfront : Replays exec value front mem mem') (hback : Replays exec value back mem' mem'') :
    Replays exec value (front ++ back) mem mem'' := by
  induction hfront with
  | nil mem => exact hback
  | cons head tail ih => exact .cons head (ih hback)

omit [DecidableEq ι] in
theorem Replays.range {f : Nat → Action ι σ κ} (mem : Nat → μ)
    {n : Nat} (step : ∀ i < n, exec (f i).instr ((f i).link.input (value (f i))) (mem i) =
      .ok (mem (i + 1), (f i).link.output (value (f i)))) :
    Replays exec value ((List.range n).map f) (mem 0) (mem n) := by
  induction n with
  | zero => exact .nil (mem 0)
  | succ n ih =>
    rw [range_succ, map_append]
    have hfront := ih fun i hi => step i (by omega)
    exact hfront.append (.cons (step n (Nat.lt_succ_self n)) (.nil _))

omit [DecidableEq ι] in
theorem Replays.loop (P : Nat → μ → Prop)
    (block : Nat → List (Action ι σ κ)) {n : Nat} {mem : μ} (hstart : P 0 mem)
    (turn : ∀ i < n, ∀ mem, P i mem → ∃ mem', Replays exec value (block i) mem mem' ∧ P (i + 1) mem') :
    ∃ mem', Replays exec value ((List.range n).flatMap block) mem mem' ∧ P n mem' := by
  induction n with
  | zero => exact ⟨mem, .nil mem, hstart⟩
  | succ n ih =>
    obtain ⟨mem', hfront, hmid⟩ := ih fun i hi => turn i (by omega)
    obtain ⟨mem'', hback, hend⟩ := turn n (Nat.lt_succ_self n) mem' hmid
    rw [range_succ, flatMap_append, flatMap_singleton]
    exact ⟨mem'', hfront.append hback, hend⟩

omit [DecidableEq ι] in
theorem Replays.of_append {front back : List (Action ι σ κ)}
    {mem mem' mem'' : μ} (hfront : Replays exec value front mem mem')
    (h : Replays exec value (front ++ back) mem mem'') : Replays exec value back mem' mem'' := by
  induction hfront with
  | nil mem => exact h
  | cons head tail ih =>
    cases h with
    | cons head' tail' =>
      have heq := head.symm.trans head'
      cases heq
      exact ih tail'

end Replays

section Script

variable {exec} [LinearOrder θ] {parties : Finset ι} {program : ι → List (Action ι σ κ)}
  {init final : ι → μ} {time : ι → Action ι σ κ → θ} {value : ι → Action ι σ κ → Option τ}
  {state state' : State ι σ τ κ μ} {front : ι → List (Action ι σ κ)}

theorem Along.posted_le (h : Along exec program init value state front) (i peer : ι) :
    (state.posted i peer).map Prod.fst <+: linkOps id peer (program i) := by
  rw [← h.split i, linkOps_append, State.posted, h.done i, linkOps_map, linkOps_map]
  simp only [map_append, map_map, Function.comp_def, map_id']
  cases state.todo i with
  | nil => simp [linkOps]
  | cons a rest =>
    cases hrecv : a.link.isRecv with
    | false => simp [hrecv, linkOps]
    | true =>
      have hcons : a :: rest = [a] ++ rest := rfl
      rw [hcons, linkOps_append]
      simp [hrecv, linkOps]

variable {a : Action ι σ κ} {rest : List (Action ι σ κ)} {i : ι}

theorem Along.of_posted (h : Along exec program init value state front) {peer : ι} {k : Nat}
    {moved : Option τ} (ha : (state.posted i peer)[k]? = some (a, moved)) :
    (linkOps id peer (program i))[k]? = some a ∧
      (moved = none ∨ moved = a.link.moved (value i a)) := by
  refine ⟨getElem?_of_isPrefix (h.posted_le i peer) ?_, ?_⟩
  · simp [ha]
  · have hmem := mem_of_getElem? ha
    rw [State.posted, h.done i] at hmem
    rcases mem_append.mp hmem with hdone | hhead
    · obtain ⟨b, -, hb⟩ := mem_map.mp (mem_linkOps.mp hdone).1
      cases hb
      exact .inr rfl
    · obtain ⟨b, -, hb⟩ := mem_map.mp (mem_linkOps.mp hhead).1
      cases hb
      exact .inl rfl

theorem Along.linkOps_done (h : Along exec program init value state front) (i peer : ι) :
    linkOps Prod.fst peer (state.done i) =
      (linkOps id peer (front i)).map fun a => (a, a.link.moved (value i a)) := by
  rw [h.done i, linkOps_map]
  rfl

section

variable {j : ι} {k : Nat} (hscript : Script exec parties program init final time value)
  (h : Along exec program init value state front) (ha : (linkOps id j (program i))[k]? = some a)
  (hbefore : ∀ head ∈ (state.todo i).head?, time i a < time i head)

include hscript h ha hbefore

theorem Along.done_of_before :
    (linkOps Prod.fst j (state.done i))[k]? = some (a, a.link.moved (value i a)) := by
  have hsorted := hscript.sorted i
  rw [← h.split i, linkOps_append, getElem?_append] at ha
  split at ha
  · rw [h.linkOps_done, getElem?_map, ha]
    rfl
  · have hmem := (mem_linkOps.mp (mem_of_getElem? ha)).1
    rw [← h.split i, pairwise_append] at hsorted
    cases htodo : state.todo i with
    | nil =>
      rw [htodo] at hmem
      cases hmem
    | cons head rest =>
      rw [htodo] at hmem hsorted hbefore
      have hlt := hbefore head rfl
      rcases mem_cons.mp hmem with rfl | hrest
      · exact absurd hlt (lt_irrefl _)
      · exact absurd hlt (lt_asymm ((pairwise_cons.mp hsorted.2.1).1 a hrest))

theorem Along.posted_of_before : (state.posted i j)[k]? = some (a, a.link.moved (value i a)) := by
  have hdone := h.done_of_before hscript ha hbefore
  rw [State.posted, List.getElem?_append_left (List.getElem?_eq_some_iff.mp hdone).1]
  exact hdone

end

theorem Along.head_position (h : Along exec program init value state front) {peer : ι}
    (head : state.todo i = a :: rest) (hpeer : a.link.peer? = some peer) :
    (linkOps id peer (program i))[(linkOps Prod.fst peer (state.done i)).length]? = some a := by
  rw [h.linkOps_done, length_map, ← h.split i, head, linkOps_append, linkOps_cons_of_peer id hpeer]
  simp

omit [DecidableEq ι] in
theorem Along.head_mem (h : Along exec program init value state front)
    (head : state.todo i = a :: rest) :
    a ∈ program i := by
  rw [← h.split i, head]
  simp

section

variable (hscript : Script exec parties program init final time value)

include hscript

theorem Script.matches {j : ι} {k : Nat} {b : Action ι σ κ}
    (ha : (linkOps id j (program i))[k]? = some a) (hb : (linkOps id i (program j))[k]? = some b) :
    Matches time value i j a b := by
  have hall := (forall₂_iff_get.mp (hscript.complementary i j)).2
  obtain ⟨hi, rfl⟩ := List.getElem?_eq_some_iff.mp ha
  obtain ⟨hj, rfl⟩ := List.getElem?_eq_some_iff.mp hb
  exact hall k hi hj

theorem Script.exists_match {j : ι} {k : Nat} (ha : (linkOps id j (program i))[k]? = some a) :
    ∃ b, (linkOps id i (program j))[k]? = some b ∧ Matches time value i j a b := by
  have hlength := (hscript.complementary i j).length_eq
  obtain ⟨hi, -⟩ := List.getElem?_eq_some_iff.mp ha
  have hb := List.getElem?_eq_getElem (hlength ▸ hi)
  exact ⟨_, hb, hscript.matches ha hb⟩

theorem Along.received_eq (h : Along exec program init value state front)
    (head : state.todo i = a :: rest) {received : Option τ}
    (henabled : Enabled state i a.link received) : received = a.link.input (value i a) := by
  generalize hlink : a.link = link at henabled
  cases henabled with
  | free => rfl
  | send peer key => rfl
  | wait complete => rfl
  | @recv peer payload key b posted send =>
    have ha := h.head_position head (show a.link.peer? = some peer by rw [hlink]; rfl)
    obtain ⟨hb, hmoved⟩ := h.of_posted posted
    rcases hscript.matches ha hb with ⟨key', hsend, -⟩ | ⟨key', -, -, -, -, heq⟩
    · rw [hlink] at hsend
      cases hsend
    · rcases hmoved with hnone | hmoved
      · cases hnone
      · rw [hmoved, send, ← heq]
        rfl

theorem Along.enabled_of_first (h : Along exec program init value state front)
    (head : state.todo i = a :: rest)
    (hfirst : ∀ j, ∀ b ∈ (state.todo j).head?, time i a ≤ time j b) :
    Enabled state i a.link (a.link.input (value i a)) := by
  have hmem := h.head_mem head
  cases hlink : a.link with
  | free => exact .free
  | send peer key => exact .send peer key
  | recv peer =>
    have ha := h.head_position head (show a.link.peer? = some peer by rw [hlink]; rfl)
    obtain ⟨b, hb, hmatch⟩ := hscript.exists_match ha
    rcases hmatch with ⟨key, hsend, -⟩ | ⟨key, -, hsend, hlt, hsome, heq⟩
    · rw [hlink] at hsend
      cases hsend
    · have hposted := h.posted_of_before hscript hb fun other hother =>
        lt_of_lt_of_le hlt (hfirst peer other hother)
      obtain ⟨payload, hpayload⟩ := Option.isSome_iff_exists.mp hsome
      rw [hsend, hpayload] at hposted
      simp only [Link.input, heq, hpayload]
      exact .recv hposted hsend
  | wait key =>
    refine .wait ?_
    intro k peer b moved key' hb hsend hkey
    rw [h.linkOps_done, getElem?_map] at hb
    obtain ⟨b', hfront, hpair⟩ := Option.map_eq_some_iff.mp hb
    cases hpair
    have hle : linkOps id peer (front i) <+: linkOps id peer (program i) := by
      rw [← h.split i, linkOps_append]
      exact prefix_append _ _
    have hb' := getElem?_of_isPrefix hle hfront
    -- The send was done before the wait, so it is earlier.
    have hbefore : time i b < time i a := by
      have hsorted := hscript.sorted i
      rw [← h.split i, pairwise_append] at hsorted
      exact hsorted.2.2 b (mem_linkOps.mp (mem_of_getElem? hfront)).1 a (by simp [head])
    obtain ⟨c, hc, hmatch⟩ := hscript.exists_match hb'
    have hlt := hscript.waits i a hmem key hlink peer k b c key' hb' hsend hkey hbefore hc
    have hposted := h.posted_of_before hscript hc fun other hother =>
      lt_of_lt_of_le hlt (hfirst peer other hother)
    refine ⟨c, _, hposted, ?_⟩
    rcases hmatch with ⟨key'', -, hrecv, -⟩ | ⟨key'', hrecv, -⟩
    · exact hrecv
    · rw [hsend] at hrecv
      cases hrecv

theorem Along.exists_exec (h : Along exec program init value state front)
    (head : state.todo i = a :: rest) :
    ∃ mem, exec i a.instr (a.link.input (value i a)) (state.mem i) =
      .ok (mem, a.link.output (value i a)) := by
  have hreplays := hscript.replays i
  rw [← h.split i, head] at hreplays
  cases Replays.of_append (h.replayed i) hreplays with
  | cons head tail => exact ⟨_, head⟩

theorem Along.exists_step (h : Along exec program init value state front)
    (head : state.todo i = a :: rest)
    (henabled : Enabled state i a.link (a.link.input (value i a))) :
    ∃ state', Step exec i state state' := by
  obtain ⟨mem, hmem⟩ := h.exists_exec hscript head
  exact ⟨_, .act head henabled hmem⟩

theorem Along.step (h : Along exec program init value state front)
    (hstep : Step exec i state state') :
    ∃ front', Along exec program init value state' front' := by
  cases hstep with
  | @act a rest received sent mem head enabled run =>
    have hreceived := h.received_eq hscript head enabled
    subst hreceived
    obtain ⟨mem', hmem'⟩ := h.exists_exec hscript head
    have heq := run.symm.trans hmem'
    cases heq
    refine ⟨Function.update front i (front i ++ [a]), ?_, ?_, ?_⟩
    · intro j
      by_cases hj : j = i
      · subst hj
        have hsplit := h.split j
        rw [head] at hsplit
        simpa using hsplit
      · simpa [hj] using h.split j
    · intro j
      by_cases hj : j = i
      · subst hj
        simp [h.done j, Link.moved]
      · simpa [hj] using h.done j
    · intro j
      by_cases hj : j = i
      · subst hj
        simp only [Function.update_self]
        exact (h.replayed j).append (.cons run (.nil _))
      · simpa [hj] using h.replayed j

theorem Along.run (h : Along exec program init value state front) {who : Set ι} {n : Nat}
    (hrun : Run exec who n state state') :
    ∃ front', Along exec program init value state' front' := by
  induction hrun with
  | refl state => exact ⟨front, h⟩
  | tail run mem step ih =>
    obtain ⟨front', h'⟩ := ih h
    exact h'.step hscript step

theorem Along.todo_of_idle (h : Along exec program init value state front) (hi : i ∉ parties) :
    state.todo i = [] := by
  have hsplit := h.split i
  rw [hscript.idle i hi] at hsplit
  exact (append_eq_nil_iff.mp hsplit).2

theorem Along.exists_first (h : Along exec program init value state front)
    (hopen : ¬ Finished state) :
    ∃ i a rest, state.todo i = a :: rest ∧
      ∀ j, ∀ b ∈ (state.todo j).head?, time i a ≤ time j b := by
  let clock : ι → WithTop θ := fun i => (state.todo i).head?.elim ⊤ fun a => (time i a : WithTop θ)
  have hidle : ∀ j, j ∉ parties → state.todo j = [] := fun j hj => h.todo_of_idle hscript hj
  obtain ⟨i, hi⟩ := not_forall.mp hopen
  have hparties : parties.Nonempty := ⟨i, by
    by_contra hout
    exact hi (hidle i hout)⟩
  obtain ⟨first, -, hmin⟩ := Finset.exists_min_image parties clock hparties
  have hmin : ∀ j, ∀ b ∈ (state.todo j).head?, clock first ≤ time j b := by
    intro j b hb
    rw [Option.mem_def] at hb
    have hj : j ∈ parties := by
      by_contra hout
      rw [hidle j hout] at hb
      cases hb
    simpa [clock, hb] using hmin j hj
  cases htodo : state.todo first with
  | nil =>
    cases hhead : state.todo i with
    | nil => exact absurd hhead hi
    | cons a rest =>
      have hle := hmin i a (by rw [hhead]; rfl)
      simp [clock, htodo] at hle
  | cons a rest =>
    refine ⟨first, a, rest, htodo, ?_⟩
    intro j b hb
    simpa [clock, htodo] using hmin j b hb

theorem Along.enabled_of_stuck (h : Along exec program init value state front)
    (head : state.todo i = a :: rest) (hstuck : Stuck exec {j | j ≠ i} state) :
    Enabled state i a.link (a.link.input (value i a)) := by
  have hopen : ¬ Finished state := by
    intro hfinished
    rw [hfinished i] at head
    cases head
  obtain ⟨j, b, back, hb, hfirst⟩ := h.exists_first hscript hopen
  have henabled := h.enabled_of_first hscript hb hfirst
  by_cases hj : j = i
  · subst hj
    rw [head] at hb
    cases hb
    exact henabled
  · obtain ⟨state', hstep⟩ := h.exists_step hscript hb henabled
    exact absurd hstep (hstuck j hj state')

theorem Along.finished_of_stuck (h : Along exec program init value state front)
    (hstuck : Stuck exec Set.univ state) : Finished state := by
  by_contra hopen
  obtain ⟨i, a, rest, head, hfirst⟩ := h.exists_first hscript hopen
  obtain ⟨state', hstep⟩ := h.exists_step hscript head (h.enabled_of_first hscript head hfirst)
  exact hstuck i (Set.mem_univ i) state' hstep

end

omit [DecidableEq ι] in
theorem Replays.unique {exec : σ → Option τ → μ → Except ε (μ × Option τ)}
    {value : Action ι σ κ → Option τ} {actions : List (Action ι σ κ)}
    {mem mem' mem'' : μ} (h : Replays exec value actions mem mem')
    (h' : Replays exec value actions mem mem'') : mem' = mem'' := by
  induction h with
  | nil mem =>
    cases h'
    rfl
  | cons head tail ih =>
    cases h' with
    | cons head' tail' =>
      have heq := head.symm.trans head'
      cases heq
      exact ih tail'

theorem Along.mem_of_finished (hscript : Script exec parties program init final time value)
    (h : Along exec program init value state front) (hfinished : Finished state) :
    state.mem = final := by
  funext i
  have hsplit := h.split i
  rw [hfinished i, append_nil] at hsplit
  have hreplays := hscript.replays i
  rw [← hsplit] at hreplays
  exact (h.replayed i).unique hreplays

/-! ## The length of a run -/

def remaining (parties : Finset ι) (state : State ι σ τ κ μ) : Nat :=
  ∑ i ∈ parties, (state.todo i).length

omit [LinearOrder θ] in
theorem remaining_step (hi : i ∈ parties) (h : Step exec i state state') :
    remaining parties state' + 1 = remaining parties state := by
  cases h with
  | @act a rest received sent mem head enabled run =>
    have hrest : ∑ j ∈ parties.erase i, (Function.update state.todo i rest j).length =
        ∑ j ∈ parties.erase i, (state.todo j).length := by
      refine Finset.sum_congr rfl ?_
      intro j hj
      rw [Function.update_of_ne (Finset.ne_of_mem_erase hj)]
    rw [remaining, remaining, ← Finset.add_sum_erase _ _ hi,
      ← Finset.add_sum_erase _ (fun j => (state.todo j).length) hi, hrest]
    simp only [Function.update_self, head, length_cons]
    omega

theorem Along.remaining_run (hscript : Script exec parties program init final time value)
    (h : Along exec program init value state front) {who : Set ι} {n : Nat}
    (hrun : Run exec who n state state') :
    n + remaining parties state' = remaining parties state := by
  induction hrun with
  | refl state => simp
  | @tail n state state' state'' i run mem step ih =>
    obtain ⟨front', h'⟩ := h.run hscript run
    have hi : i ∈ parties := by
      by_contra hout
      have hidle := h'.todo_of_idle hscript hout
      cases step with
      | act head => simp [head] at hidle
    have hstep := remaining_step hi step
    have hrun := ih h
    omega

/-- The parties in `who` can always be run until none of them can go on. -/
theorem Along.exists_stuck (hscript : Script exec parties program init final time value)
    (h : Along exec program init value state front) (who : Set ι) :
    ∃ n state', Run exec who n state state' ∧ Stuck exec who state' := by
  by_contra hnone
  have hlong : ∀ n, ∃ state', Run exec who n state state' := by
    intro n
    induction n with
    | zero => exact ⟨state, .refl state⟩
    | succ n ih =>
      obtain ⟨state', hrun⟩ := ih
      by_contra hend
      refine hnone ⟨n, state', hrun, ?_⟩
      intro i hi state'' hstep
      exact hend ⟨state'', hrun.tail hi hstep⟩
  obtain ⟨state', hrun⟩ := hlong (remaining parties state + 1)
  have heq := h.remaining_run hscript hrun
  omega

/-! ## What a script guarantees -/

theorem Script.run_ends (hscript : Script exec parties program init final time value) {n : Nat}
    (hrun : Run exec Set.univ n (start program init) state) :
    n ≤ ∑ i ∈ parties, (program i).length ∧
      (Stuck exec Set.univ state → Finished state ∧ state.mem = final) := by
  have hstart := Along.ofStart exec program init value
  obtain ⟨front, h⟩ := hstart.run hscript hrun
  refine ⟨?_, ?_⟩
  · have heq := hstart.remaining_run hscript hrun
    have htotal : remaining parties (PairFifo.start (τ := τ) program init) =
        ∑ i ∈ parties, (program i).length := rfl
    omega
  · intro hstuck
    have hfinished := h.finished_of_stuck hscript hstuck
    exact ⟨hfinished, h.mem_of_finished hscript hfinished⟩

theorem Script.others_enable (hscript : Script exec parties program init final time value) {n : Nat}
    (hrun : Run exec Set.univ n (start program init) state) (head : state.todo i = a :: rest) :
    (∃ m state', Run exec {j | j ≠ i} m state state' ∧ Stuck exec {j | j ≠ i} state') ∧
      ∀ m state', Run exec {j | j ≠ i} m state state' → Stuck exec {j | j ≠ i} state' →
        ∃ received, Enabled state' i a.link received := by
  obtain ⟨front, h⟩ := (Along.ofStart exec program init value).run hscript hrun
  refine ⟨h.exists_stuck hscript _, ?_⟩
  intro m state' hrun' hstuck
  obtain ⟨front', h'⟩ := h.run hscript hrun'
  have hsame : state'.todo i = state.todo i := by
    clear hstuck h' front'
    induction hrun' with
    | refl state => rfl
    | @tail n state state' state'' j run mem step ih =>
      rw [← ih hrun head h]
      cases step with
      | act head' => exact Function.update_of_ne (Ne.symm mem) ..
  exact ⟨_, h'.enabled_of_stuck hscript (hsame.trans head) hstuck⟩

end Script

end HyperParallel.Foundation.PairFifo
