import Mathlib.Data.List.Forall2

/-!
# Sequences that are read fallibly

`pyGet? xs i` reads `xs[i]` the way a Python sequence does: an index from
`-len(xs)` to `-1` counts from the end, and anything further out is an error.
A comprehension over a fallible body is a `mapM`, and succeeds exactly when the
body succeeds at every element.  A loop over a fallible body succeeds when no
element stops it.
-/

namespace HyperParallel.Foundation

open List

universe u

variable {α β : Type*}

def pyGet? (xs : List α) (i : Int) : Option α :=
  if 0 ≤ i then xs[i.toNat]?
  else if -(xs.length : Int) ≤ i then xs[(xs.length + i).toNat]?
  else none

theorem pyGet?_natCast (xs : List α) (i : Nat) : pyGet? xs i = xs[i]? := by simp [pyGet?]

variable {xs : List α}

theorem pyGet?_of_lt {i : Int} (hpos : 0 ≤ i) (hlt : i.toNat < xs.length) :
    pyGet? xs i = some xs[i.toNat] := by
  rw [pyGet?, if_pos hpos, getElem?_eq_getElem hlt]

theorem mapM_eq_some_iff {f : α → Option β} {ys : List β} :
    xs.mapM f = some ys ↔ Forall₂ (fun x y => f x = some y) xs ys := by
  induction xs generalizing ys with
  | nil => simp [eq_comm]
  | cons x xs ih =>
    simp only [mapM_cons, Option.bind_eq_bind, Option.bind_eq_some_iff,
      Option.pure_def, Option.some.injEq]
    constructor
    · rintro ⟨y, hy, ys', hys', rfl⟩
      exact .cons hy (ih.mp hys')
    · rintro (_ | ⟨hy, hys⟩)
      exact ⟨_, hy, _, ih.mpr hys, rfl⟩

theorem mapM_map_some (xs : List α) : (xs.map some).mapM id = some xs := by
  rw [mapM_eq_some_iff, forall₂_map_left_iff, forall₂_same]
  exact fun _ _ => rfl

theorem exists_map_some {xs : List (Option α)} (h : ∀ x ∈ xs, ∃ y, x = some y) :
    ∃ ys : List α, xs = ys.map some := by
  induction xs with
  | nil => exact ⟨[], rfl⟩
  | cons x xs ih =>
    obtain ⟨y, rfl⟩ := h x mem_cons_self
    obtain ⟨ys, rfl⟩ := ih fun z hz => h z (mem_cons_of_mem _ hz)
    exact ⟨y :: ys, rfl⟩

theorem foldl_invariant {f : β → α → β} (P : List α → β → Prop) {b : β} (hb : P [] b)
    (hstep : ∀ seen b, ∀ x ∈ xs, P seen b → P (seen ++ [x]) (f b x)) :
    P xs (xs.foldl f b) := by
  suffices hgeneral : ∀ seen b, P seen b → P (seen ++ xs) (xs.foldl f b) from hgeneral [] b hb
  clear hb b
  intro seen b hb
  induction xs generalizing seen b with
  | nil => simpa using hb
  | cons x xs ih =>
    rw [foldl_cons, append_cons]
    exact ih (fun seen b y hy => hstep seen b y (mem_cons_of_mem x hy)) (seen ++ [x])
      (f b x) (hstep seen b x mem_cons_self hb)

theorem foldl_ite_of_not {f : β → α → β} {selects : α → Prop} [DecidablePred selects]
    (h : ∀ x ∈ xs, ¬ selects x) (b : β) :
    xs.foldl (fun b x => if selects x then f b x else b) b = b := by
  induction xs with
  | nil => rfl
  | cons x xs ih =>
    rw [foldl_cons, if_neg (h x mem_cons_self)]
    exact ih fun y hy => h y (mem_cons_of_mem x hy)

theorem foldl_ite_of_unique {f : β → α → β} {selects : α → Prop} [DecidablePred selects] {x : α}
    (hx : x ∈ xs) (hselects : selects x)
    (hunique : xs.Pairwise fun y z => ¬ (selects y ∧ selects z)) (b : β) :
    xs.foldl (fun b x => if selects x then f b x else b) b = f b x := by
  induction xs with
  | nil => cases hx
  | cons y xs ih =>
    obtain ⟨hfirst, hunique⟩ := pairwise_cons.mp hunique
    rw [foldl_cons]
    rcases mem_cons.mp hx with rfl | hx
    · rw [if_pos hselects]
      exact foldl_ite_of_not (fun z hz hsel => hfirst z hz ⟨hselects, hsel⟩) _
    · rw [if_neg fun hsel => hfirst x hx ⟨hsel, hselects⟩]
      exact ih hx hunique

section Loops

variable {ε : Type*}

theorem bind_eq_ok {γ δ : Type u} {x : Except ε γ} {f : γ → Except ε δ} {b : δ}
    (h : x >>= f = .ok b) : ∃ a, x = .ok a ∧ f a = .ok b := by
  cases x with
  | error e => cases h
  | ok a => exact ⟨a, rfl, h⟩

theorem map_eq_ok {γ δ : Type u} {x : Except ε γ} {f : γ → δ} {b : δ} (h : x.map f = .ok b) :
    ∃ a, x = .ok a ∧ f a = b := by
  cases x with
  | error e => cases h
  | ok a => exact ⟨a, rfl, Except.ok.inj h⟩

theorem exists_of_forall₂_left {γ δ : Type*} {R : γ → δ → Prop} {xs : List γ} {ys : List δ}
    (h : Forall₂ R xs ys) {x : γ} (hx : x ∈ xs) : ∃ y ∈ ys, R x y := by
  induction h with
  | nil => cases hx
  | cons hxy _ ih =>
    rcases mem_cons.mp hx with rfl | hx
    · exact ⟨_, mem_cons_self, hxy⟩
    · obtain ⟨y, hy, hR⟩ := ih hx
      exact ⟨y, mem_cons_of_mem _ hy, hR⟩

theorem exists_of_forall₂_right {γ δ : Type*} {R : γ → δ → Prop} {xs : List γ} {ys : List δ}
    (h : Forall₂ R xs ys) {y : δ} (hy : y ∈ ys) : ∃ x ∈ xs, R x y :=
  exists_of_forall₂_left h.flip hy

theorem forall₂_join {γ δ σ : Type*} {R : γ → σ → Prop} {S : δ → σ → Prop} {T : γ → δ → Prop}
    (hjoin : ∀ a b c, R a c → S b c → T a b) {xs : List γ} {ys : List δ} {zs : List σ}
    (hleft : Forall₂ R xs zs) (hright : Forall₂ S ys zs) : Forall₂ T xs ys := by
  induction hleft generalizing ys with
  | nil =>
    cases hright
    exact .nil
  | cons hhead _ ih =>
    cases hright with
    | cons hhead' hrest => exact .cons (hjoin _ _ _ hhead hhead') (ih hrest)

variable {f : α → Except ε β}

theorem mapM_eq_ok {g : α → β} (h : ∀ x ∈ xs, f x = .ok (g x)) : xs.mapM f = .ok (xs.map g) := by
  induction xs with
  | nil => rfl
  | cons x xs ih =>
    rw [mapM_cons, h x mem_cons_self, ih fun y hy => h y (mem_cons_of_mem x hy)]
    rfl

theorem mapM_eq_ok_iff {ys : List β} :
    xs.mapM f = .ok ys ↔ Forall₂ (fun x y => f x = .ok y) xs ys := by
  induction xs generalizing ys with
  | nil =>
    constructor
    · intro h
      cases h
      exact .nil
    · intro h
      cases h
      rfl
  | cons x xs ih =>
    rw [mapM_cons]
    constructor
    · intro h
      cases hx : f x with
      | error e =>
        rw [hx] at h
        cases h
      | ok y =>
        cases hxs : xs.mapM f with
        | error e =>
          rw [hx, hxs] at h
          cases h
        | ok ys' =>
          rw [hx, hxs] at h
          cases h
          exact .cons hx (ih.mp hxs)
    · intro h
      cases h with
      | cons hx hrest =>
        rw [hx, ih.mpr hrest]
        rfl

theorem exists_mapM_eq_ok (h : ∀ x ∈ xs, ∃ y, f x = .ok y) : ∃ ys, xs.mapM f = .ok ys := by
  induction xs with
  | nil => exact ⟨[], rfl⟩
  | cons x xs ih =>
    obtain ⟨y, hy⟩ := h x mem_cons_self
    obtain ⟨ys, hys⟩ := ih fun z hz => h z (mem_cons_of_mem x hz)
    refine ⟨y :: ys, ?_⟩
    rw [mapM_cons, hy, hys]
    rfl

theorem exists_mapM_snd {γ : Type u} {f : α → Except ε (β × γ)} {g : α → γ} {xs : List α}
    (h : ∀ x ∈ xs, ∃ b, f x = .ok (b, g x)) :
    ∃ ys, xs.mapM f = .ok ys ∧ ys.map Prod.snd = xs.map g := by
  induction xs with
  | nil => exact ⟨[], rfl, rfl⟩
  | cons x xs ih =>
    obtain ⟨b, hb⟩ := h x mem_cons_self
    obtain ⟨ys, hys, hsnd⟩ := ih fun z hz => h z (mem_cons_of_mem x hz)
    refine ⟨(b, g x) :: ys, ?_, ?_⟩
    · rw [mapM_cons, hb, hys]
      rfl
    · rw [map_cons, map_cons, hsnd]

theorem mapM_congr_mem {g : α → Except ε β} (h : ∀ x ∈ xs, f x = g x) : xs.mapM f = xs.mapM g := by
  induction xs with
  | nil => rfl
  | cons x xs ih =>
    rw [mapM_cons, mapM_cons, h x mem_cons_self, ih fun y hy => h y (mem_cons_of_mem x hy)]

theorem mapM_append_eq_ok_iff {xs' : List α} {ys : List β} :
    (xs ++ xs').mapM f = .ok ys ↔
      ∃ front back, xs.mapM f = .ok front ∧ xs'.mapM f = .ok back ∧ ys = front ++ back := by
  simp only [mapM_eq_ok_iff]
  constructor
  · intro h
    refine ⟨ys.take xs.length, ys.drop xs.length, ?_, ?_, (take_append_drop _ _).symm⟩
    · simpa using forall₂_take xs.length h
    · simpa using forall₂_drop xs.length h
  · rintro ⟨front, back, hfront, hback, rfl⟩
    exact rel_append hfront hback

theorem mapM_flatten_eq_ok_iff {γ δ : Type*} {f : α → Except ε (List γ)} {g : α → List δ}
    {each : δ → Except ε γ} {zs : List γ}
    (h : ∀ x ∈ xs, ∀ ys, f x = .ok ys ↔ (g x).mapM each = .ok ys) :
    (∃ yss, xs.mapM f = .ok yss ∧ yss.flatten = zs) ↔ (xs.flatMap g).mapM each = .ok zs := by
  induction xs generalizing zs with
  | nil =>
    constructor
    · rintro ⟨yss, hyss, rfl⟩
      cases hyss
      rfl
    · intro hzs
      cases hzs
      exact ⟨[], rfl, rfl⟩
  | cons x xs ih =>
    have hx := h x mem_cons_self
    have hrest := fun zs => @ih zs fun y hy => h y (mem_cons_of_mem x hy)
    rw [flatMap_cons, mapM_append_eq_ok_iff]
    simp only [mapM_eq_ok_iff] at hrest ⊢
    constructor
    · rintro ⟨yss, hyss, rfl⟩
      cases hyss with
      | @cons _ ys _ yss hys hyss =>
        exact ⟨ys, yss.flatten, mapM_eq_ok_iff.mp ((hx ys).mp hys),
          (hrest _).mp ⟨yss, hyss, rfl⟩, rfl⟩
    · rintro ⟨front, back, hfront, hback, rfl⟩
      obtain ⟨yss, hyss, rfl⟩ := (hrest back).mpr hback
      exact ⟨front :: yss, .cons ((hx front).mpr (mapM_eq_ok_iff.mpr hfront)) hyss, rfl⟩

theorem foldlM_flatten_eq_ok_iff {γ δ : Type*} {f : γ → α → Except ε γ} {g : α → List δ}
    {each : γ → δ → Except ε γ} {s s' : γ}
    (h : ∀ x ∈ xs, ∀ s s', f s x = .ok s' ↔ (g x).foldlM each s = .ok s') :
    xs.foldlM f s = .ok s' ↔ (xs.flatMap g).foldlM each s = .ok s' := by
  induction xs generalizing s with
  | nil => rfl
  | cons x xs ih =>
    have hrest := fun s => @ih s fun y hy => h y (mem_cons_of_mem x hy)
    rw [flatMap_cons, foldlM_append, foldlM_cons]
    constructor
    · intro hrun
      obtain ⟨t, ht, hrun⟩ := bind_eq_ok hrun
      rw [(h x mem_cons_self s t).mp ht]
      exact (hrest t).mp hrun
    · intro hrun
      obtain ⟨t, ht, hrun⟩ := bind_eq_ok hrun
      rw [(h x mem_cons_self s t).mpr ht]
      exact (hrest t).mpr hrun

theorem forM_eq_ok_iff {f : α → Except ε PUnit} : xs.forM f = .ok ⟨⟩ ↔ ∀ x ∈ xs, f x = .ok ⟨⟩ := by
  induction xs with
  | nil => exact ⟨fun _ _ h => absurd h not_mem_nil, fun _ => rfl⟩
  | cons x xs ih =>
    rw [forM_eq_forM, forM_cons, forall_mem_cons, ← ih]
    constructor
    · intro h
      obtain ⟨a, hx, hxs⟩ := bind_eq_ok h
      exact ⟨hx, hxs⟩
    · rintro ⟨hx, hxs⟩
      rw [hx]
      exact hxs

theorem forM_eq_ok {f : α → Except ε PUnit} (h : ∀ x ∈ xs, f x = .ok ⟨⟩) :
    xs.forM f = .ok ⟨⟩ :=
  forM_eq_ok_iff.mpr h

theorem allM_eq_ok_true_iff {f : α → Except ε Bool} :
    xs.allM f = .ok true ↔ ∀ x ∈ xs, f x = .ok true := by
  induction xs with
  | nil => exact ⟨fun _ _ h => absurd h not_mem_nil, fun _ => rfl⟩
  | cons x xs ih =>
    rw [forall_mem_cons, ← ih, List.allM]
    constructor
    · intro h
      obtain ⟨b, hx, hrest⟩ := bind_eq_ok h
      cases b with
      | true => exact ⟨hx, hrest⟩
      | false => cases hrest
    · rintro ⟨hx, hxs⟩
      rw [hx]
      exact hxs

theorem foldlM_eq_ok {f : β → α → Except ε β} {g : β → α → β} {P : β → Prop} {b : β} (hb : P b)
    (h : ∀ b, ∀ x ∈ xs, P b → f b x = .ok (g b x) ∧ P (g b x)) :
    xs.foldlM f b = .ok (xs.foldl g b) := by
  induction xs generalizing b with
  | nil => rfl
  | cons x xs ih =>
    obtain ⟨hok, hinv⟩ := h b x mem_cons_self hb
    rw [foldlM_cons, hok, foldl_cons]
    exact ih hinv fun c y hy => h c y (mem_cons_of_mem x hy)

theorem foldlM_invariant {f : β → α → Except ε β} (P : List α → β → Prop)
    (hstep : ∀ seen b x b', P seen b → f b x = .ok b' → P (seen ++ [x]) b') {b b' : β} (hb : P [] b)
    (h : xs.foldlM f b = .ok b') : P xs b' := by
  suffices hgeneral : ∀ seen b, P seen b → xs.foldlM f b = .ok b' → P (seen ++ xs) b' from
    hgeneral [] b hb h
  clear hb h b
  intro seen b hb h
  induction xs generalizing seen b with
  | nil =>
    cases h
    simpa using hb
  | cons x xs ih =>
    rw [foldlM_cons] at h
    cases hx : f b x with
    | error e =>
      rw [hx] at h
      cases h
    | ok c =>
      rw [hx] at h
      rw [append_cons]
      exact ih (seen ++ [x]) c (hstep seen b x c hb hx) h

theorem exists_foldlM {f : β → α → Except ε β} (P : List α → β → Prop) {xs : List α} {b : β}
    (hstep : ∀ seen x rest b, xs = seen ++ x :: rest → P seen b →
      ∃ b', f b x = .ok b' ∧ P (seen ++ [x]) b')
    (hb : P [] b) : ∃ b', xs.foldlM f b = .ok b' ∧ P xs b' := by
  suffices hgeneral : ∀ rest seen b, xs = seen ++ rest → P seen b →
      ∃ b', rest.foldlM f b = .ok b' ∧ P xs b' from hgeneral xs [] b rfl hb
  intro rest
  induction rest with
  | nil =>
    intro seen b hxs hseen
    rw [append_nil] at hxs
    exact ⟨b, rfl, hxs ▸ hseen⟩
  | cons x rest ih =>
    intro seen b hxs hseen
    obtain ⟨middle, hx, hmiddle⟩ := hstep seen x rest b hxs hseen
    obtain ⟨b', hrest, hend⟩ := ih (seen ++ [x]) middle (by rw [hxs]; simp) hmiddle
    refine ⟨b', ?_, hend⟩
    rw [foldlM_cons, hx]
    exact hrest

theorem foldlM_flatMap_eq {γ : Type*} {f : β → γ → Except ε β} {g : α → List γ} (xs : List α)
    (b : β) :
    (xs.flatMap g).foldlM f b = xs.foldlM (fun b x => (g x).foldlM f b) b := by
  induction xs generalizing b with
  | nil => rfl
  | cons x xs ih =>
    rw [flatMap_cons, foldlM_append, foldlM_cons]
    exact bind_congr fun c => ih c

theorem foldlM_mapM_eq_ok_iff {σ : Type u} {γ : Type u} {f : α → Except ε γ}
    {g : σ → γ → Except ε σ} {s s' : σ} :
    (xs.mapM f >>= fun ys => ys.foldlM g s) = .ok s' ↔
      xs.foldlM (fun s x => f x >>= g s) s = .ok s' := by
  induction xs generalizing s with
  | nil => rfl
  | cons x xs ih =>
    rw [mapM_cons, foldlM_cons]
    cases hx : f x with
    | error e =>
      simp only [bind, Except.bind]
    | ok y =>
      simp only [bind, Except.bind] at ih ⊢
      cases hg : g s y with
      | error e =>
        cases hxs : xs.mapM f with
        | error e' => simp
        | ok ys => simp [pure, Except.pure, foldlM_cons, hg, bind, Except.bind]
      | ok t =>
        rw [← ih]
        cases hxs : xs.mapM f with
        | error e' => simp
        | ok ys => simp [pure, Except.pure, foldlM_cons, hg, bind, Except.bind]

section Components

variable {σ κ ν : Type*} [DecidableEq κ] (get : σ → κ → ν) (key : α → κ)
  (own : α → ν → Except ε ν) {step : σ → α → Except ε σ} {inv : σ → Prop}

theorem foldlM_components (hok : ∀ s x s', inv s → step s x = .ok s' → inv s' ∧
      own x (get s (key x)) = .ok (get s' (key x)) ∧ ∀ k, k ≠ key x → get s' k = get s k) {s s' : σ}
    (hinv : inv s) (h : xs.foldlM step s = .ok s') :
    inv s' ∧ ∀ k, (xs.filter fun x => decide (key x = k)).foldlM (fun v x => own x v) (get s k) =
      .ok (get s' k) := by
  induction xs generalizing s with
  | nil =>
    cases h
    exact ⟨hinv, fun k => rfl⟩
  | cons x xs ih =>
    rw [foldlM_cons] at h
    cases hstep : step s x with
    | error e =>
      rw [hstep] at h
      cases h
    | ok t =>
      rw [hstep] at h
      obtain ⟨hinv', hown, hother⟩ := hok s x t hinv hstep
      obtain ⟨hfinal, hrest⟩ := ih hinv' h
      refine ⟨hfinal, fun k => ?_⟩
      by_cases hk : key x = k
      · subst hk
        rw [filter_cons_of_pos (by simp), foldlM_cons, hown]
        exact hrest (key x)
      · rw [filter_cons_of_neg (by simpa using hk), ← hother k (Ne.symm hk)]
        exact hrest k

theorem exists_foldlM_of_components (hok : ∀ s x s', inv s → step s x = .ok s' → inv s' ∧
      own x (get s (key x)) = .ok (get s' (key x)) ∧ ∀ k, k ≠ key x → get s' k = get s k)
    (hfails : ∀ s x e, inv s → step s x = .error e → ∃ e', own x (get s (key x)) = .error e')
    {s : σ} (hinv : inv s)
    (h : ∀ k, ∃ v, (xs.filter fun x => decide (key x = k)).foldlM (fun v x => own x v) (get s k) =
      .ok v) : ∃ s', xs.foldlM step s = .ok s' := by
  induction xs generalizing s with
  | nil => exact ⟨s, rfl⟩
  | cons x xs ih =>
    obtain ⟨v, hv⟩ := h (key x)
    rw [filter_cons_of_pos (by simp), foldlM_cons] at hv
    cases hstep : step s x with
    | error e =>
      obtain ⟨e', he'⟩ := hfails s x e hinv hstep
      rw [he'] at hv
      cases hv
    | ok t =>
      obtain ⟨hinv', hown, hother⟩ := hok s x t hinv hstep
      rw [foldlM_cons, hstep]
      apply ih hinv'
      intro k
      by_cases hk : key x = k
      · subst hk
        rw [hown] at hv
        exact ⟨v, hv⟩
      · obtain ⟨w, hw⟩ := h k
        rw [filter_cons_of_neg (by simpa using hk), ← hother k (Ne.symm hk)] at hw
        exact ⟨w, hw⟩

end Components

end Loops

end HyperParallel.Foundation
