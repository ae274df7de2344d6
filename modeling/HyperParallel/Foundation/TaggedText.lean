import Mathlib.Data.List.Infix

/-!
# Text between tags

A tag has its brackets at its two ends and nowhere else.  So an occurrence of a
tag never overlaps another tag, and a text that has an opening and a closing tag
for every block it is split into is split in one way only.
-/

namespace HyperParallel.Foundation

open List

variable {α : Type*} {first last : α}

/-- The parts that a step takes off the front of a text, until it takes none. -/
def parts {β : Type*} (step : List α → Option (β × List α)) (s : List α) : List β :=
  match step s with
  | none => []
  | some (part, rest) => if rest.length < s.length then part :: parts step rest else []
termination_by s.length

section Parts

variable {β : Type*} {step : List α → Option (β × List α)} {s rest : List α} {part : β}

theorem parts_of_none (h : step s = none) : parts step s = [] := by rw [parts, h]

theorem parts_of_some (h : step s = some (part, rest)) (hlt : rest.length < s.length) :
    parts step s = part :: parts step rest := by
  rw [parts, h]
  exact if_pos hlt

end Parts

structure Tag (first last : α) where
  middle : List α
  first_notMem : first ∉ middle ++ [last]
  last_notMem : last ∉ first :: middle

namespace Tag

def text (t : Tag first last) : List α := first :: (t.middle ++ [last])

variable {t u : Tag first last} {a b : List α}

theorem length_lt (t : Tag first last) : b.length < (a ++ (t.text ++ b)).length := by
  simp only [text, length_append, length_cons]
  omega

theorem text_ne_nil (t : Tag first last) : t.text ≠ [] := List.cons_ne_nil _ _

theorem not_split_first {l₁ l₂ : List α} (h : t.text = l₁ ++ l₂) (hl₁ : l₁ ≠ []) : first ∉ l₂ := by
  cases l₁ with
  | nil => exact absurd rfl hl₁
  | cons c l₁ =>
    rw [text, cons_append, cons.injEq] at h
    intro hmem
    apply t.first_notMem
    rw [h.2]
    exact mem_append_right _ hmem

theorem not_split_last {l₁ l₂ : List α} (h : t.text = l₁ ++ l₂) (hl₂ : l₂ ≠ []) : last ∉ l₁ := by
  rw [← dropLast_append_getLast hl₂, text, ← cons_append, ← append_assoc] at h
  intro hmem
  apply t.last_notMem
  rw [(append_inj' h rfl).1]
  exact mem_append_left _ hmem

theorem infix_text_iff : t.text <:+: u.text ↔ t.middle = u.middle := by
  constructor
  · rintro ⟨s, e, h⟩
    have hs : s = [] := by
      by_contra hne
      exact not_split_first ((h.symm.trans (append_assoc ..))) hne (by simp [text])
    have he : e = [] := by
      by_contra hne
      exact not_split_last h.symm hne (by simp [text])
    rw [hs, he, nil_append, append_nil, text, text, cons.injEq] at h
    exact (append_inj' h.2 rfl).1
  · intro h
    rw [text, h]
    exact infix_rfl

theorem infix_append_left_iff (hb : b.head? = some first) :
    t.text <:+: a ++ b ↔ t.text <:+: a ∨ t.text <:+: b := by
  rw [infix_append_iff_ne_nil]
  constructor
  · rintro (h | h | ⟨l₁, l₂, hl₁, hl₂, h, -, hfront⟩)
    · exact .inl h
    · exact .inr h
    · obtain ⟨c, l₂, rfl⟩ := exists_cons_of_ne_nil hl₂
      obtain ⟨rest, rfl⟩ := hfront
      cases hb
      exact absurd mem_cons_self (not_split_first h hl₁)
  · rintro (h | h)
    · exact .inl h
    · exact .inr (.inl h)

theorem infix_append_right_iff (ha : a.getLast? = some last) :
    t.text <:+: a ++ b ↔ t.text <:+: a ∨ t.text <:+: b := by
  rw [infix_append_iff_ne_nil]
  constructor
  · rintro (h | h | ⟨l₁, l₂, hl₁, hl₂, h, hsuffix, -⟩)
    · exact .inl h
    · exact .inr h
    · obtain ⟨rest, rfl⟩ := hsuffix
      rw [getLast?_append_of_ne_nil _ hl₁] at ha
      exact absurd (mem_of_getLast? ha) (not_split_last h hl₂)
  · rintro (h | h)
    · exact .inl h
    · exact .inr (.inl h)

theorem infix_append_iff :
    t.text <:+: a ++ (u.text ++ b) ↔ t.text <:+: a ∨ t.middle = u.middle ∨ t.text <:+: b := by
  have hlast : u.text.getLast? = some last := by rw [text, ← cons_append, getLast?_concat]
  rw [infix_append_left_iff (by rfl), infix_append_right_iff hlast, infix_text_iff]

theorem not_infix_of_first_notMem (h : first ∉ a) : ¬t.text <:+: a := fun hoccurs =>
  h (hoccurs.subset mem_cons_self)

theorem exists_first (h : t.text <:+: a) : ∃ p b, a = p ++ (t.text ++ b) ∧ ¬t.text <:+: p := by
  induction a with
  | nil => exact absurd (infix_nil.mp h) t.text_ne_nil
  | cons c a ih =>
    by_cases hfront : t.text <+: c :: a
    · obtain ⟨b, hb⟩ := hfront
      exact ⟨[], b, hb.symm, fun hnil => t.text_ne_nil (infix_nil.mp hnil)⟩
    · obtain ⟨p, b, rfl, hfree⟩ := ih ((infix_cons_iff.mp h).resolve_left hfront)
      refine ⟨c :: p, b, rfl, fun hoccurs => ?_⟩
      obtain hhead | htail := infix_cons_iff.mp hoccurs
      · exact hfront (hhead.trans (prefix_append (c :: p) _))
      · exact hfree htail

variable [DecidableEq α]

theorem dropInfix?_eq_some_iff {s : List α} :
    s.dropInfix? t.text = some (a, b) ↔ s = a ++ (t.text ++ b) ∧ ¬t.text <:+: a := by
  rw [List.dropInfix?_eq_some_iff]
  simp only [beq_iff_eq, exists_eq_right, append_assoc]
  constructor
  · rintro ⟨rfl, hfirst⟩
    refine ⟨rfl, ?_⟩
    rintro ⟨p, e, rfl⟩
    have hle := hfirst p t.text (e ++ (t.text ++ b)) (by simp only [append_assoc]) rfl
    simp only [text, length_append, length_cons] at hle
    omega
  · rintro ⟨rfl, hfree⟩
    refine ⟨rfl, ?_⟩
    rintro p _ e h rfl
    by_contra hlt
    obtain ⟨c, rfl, hc⟩ | ⟨c, rfl, hc⟩ := append_eq_append_iff.mp h
    · simp at hlt
    have hcne : c ≠ [] := by
      rintro rfl
      simp at hlt
    -- the earlier occurrence ends inside `a`, or it overlaps the one after `a`
    obtain ⟨d, rfl, -⟩ | ⟨d, hd, hrest⟩ := append_eq_append_iff.mp hc
    · exact hfree ⟨p, d, by rw [append_assoc]⟩
    · cases d with
      | nil =>
        rw [append_nil] at hd
        exact hfree ⟨p, [], by rw [hd, append_nil]⟩
      | cons x d =>
        have hx : x = first := (cons.inj hrest).1.symm
        exact not_split_first hd hcne (by rw [hx]; exact mem_cons_self)

theorem dropInfix?_eq_none_iff : a.dropInfix? t.text = none ↔ ¬t.text <:+: a := by
  constructor
  · intro h hoccurs
    obtain ⟨p, b, hsplit⟩ := exists_first hoccurs
    rw [dropInfix?_eq_some_iff.mpr hsplit] at h
    cases h
  · intro h
    cases hdrop : a.dropInfix? t.text with
    | none => rfl
    | some parts =>
      obtain ⟨rfl, -⟩ := dropInfix?_eq_some_iff.mp hdrop
      exact absurd ⟨parts.1, parts.2, append_assoc ..⟩ h

/-- Occurrences from left to right; two of them never overlap. -/
def count (t : Tag first last) (s : List α) : Nat :=
  (parts (·.dropInfix? t.text) s).length

theorem count_of_free (h : ¬t.text <:+: a) : t.count a = 0 :=
  congrArg List.length (@parts_of_none _ _ (·.dropInfix? t.text) _ (dropInfix?_eq_none_iff.mpr h))

theorem count_of_first (h : ¬t.text <:+: a) : t.count (a ++ (t.text ++ b)) = t.count b + 1 :=
  congrArg List.length (@parts_of_some _ _ (·.dropInfix? t.text) _ _ _
    (dropInfix?_eq_some_iff.mpr ⟨rfl, h⟩) (length_lt t))

theorem count_eq_zero_iff : t.count a = 0 ↔ ¬t.text <:+: a := by
  constructor
  · intro h hoccurs
    obtain ⟨p, b, rfl, hfree⟩ := exists_first hoccurs
    rw [count_of_first hfree] at h
    cases h
  · exact count_of_free

theorem count_append (hne : t.middle ≠ u.middle) (a : List α) :
    t.count (a ++ (u.text ++ b)) = t.count a + t.count b := by
  by_cases ha : t.text <:+: a
  · obtain ⟨p, rest, hsplit, hfree⟩ := exists_first ha
    have hlt : rest.length < a.length := hsplit ▸ length_lt t
    rw [hsplit, count_of_first hfree, append_assoc, append_assoc, count_of_first hfree,
      count_append hne rest]
    omega
  · rw [count_of_free ha, Nat.zero_add]
    by_cases hb : t.text <:+: b
    · obtain ⟨p, rest, rfl, hfree⟩ := exists_first hb
      have hfree' : ¬t.text <:+: a ++ (u.text ++ p) := by
        rw [infix_append_iff]
        exact not_or.mpr ⟨ha, not_or.mpr ⟨hne, hfree⟩⟩
      have hassoc : a ++ (u.text ++ (p ++ (t.text ++ rest))) =
          (a ++ (u.text ++ p)) ++ (t.text ++ rest) := by
        simp only [append_assoc]
      rw [hassoc, count_of_first hfree, count_of_first hfree']
    · rw [count_of_free hb, count_eq_zero_iff, infix_append_iff]
      exact not_or.mpr ⟨ha, not_or.mpr ⟨hne, hb⟩⟩
termination_by a.length

/-! ## Blocks -/

/-- What stands between an opening tag and the next closing one, from left to right. -/
def between (u t : Tag first last) (s : List α) : List (List α) :=
  parts (fun s => (s.dropInfix? u.text).bind fun cut => cut.2.dropInfix? t.text) s

def Free (u t : Tag first last) (s : List α) : Prop := ¬u.text <:+: s ∧ ¬t.text <:+: s

/-- Free text, and blocks of free text in a pair of tags. -/
inductive Delimited (u t : Tag first last) : List α → List (List α) → Prop
  | free {s} (h : Free u t s) : Delimited u t s []
  | block {s block rest blocks} (hs : Free u t s) (hblock : Free u t block)
      (hrest : Delimited u t rest blocks) :
      Delimited u t (s ++ (u.text ++ (block ++ (t.text ++ rest)))) (block :: blocks)

theorem between_of_free (h : ¬u.text <:+: a) : between u t a = [] := by
  apply parts_of_none
  rw [dropInfix?_eq_none_iff.mpr h, Option.bind_none]

theorem between_unclosed (ha : ¬u.text <:+: a) (hb : ¬t.text <:+: b) :
    between u t (a ++ (u.text ++ b)) = [] := by
  apply parts_of_none
  rw [dropInfix?_eq_some_iff.mpr ⟨rfl, ha⟩, Option.bind_some, dropInfix?_eq_none_iff.mpr hb]

theorem between_block {block : List α} (ha : ¬u.text <:+: a) (hblock : ¬t.text <:+: block) :
    between u t (a ++ (u.text ++ (block ++ (t.text ++ b)))) = block :: between u t b := by
  apply parts_of_some _ ((length_lt t).trans (length_lt u))
  rw [dropInfix?_eq_some_iff.mpr ⟨rfl, ha⟩, Option.bind_some,
    dropInfix?_eq_some_iff.mpr ⟨rfl, hblock⟩]

section Pair

variable (hne : u.middle ≠ t.middle)
include hne

theorem count_open {block : List α} (ha : ¬u.text <:+: a) :
    u.count (a ++ (u.text ++ (block ++ (t.text ++ b)))) = u.count block + u.count b + 1 := by
  rw [count_of_first ha, count_append hne]

theorem count_close {block : List α} (hblock : ¬t.text <:+: block) :
    t.count (a ++ (u.text ++ (block ++ (t.text ++ b)))) = t.count a + t.count b + 1 := by
  rw [count_append hne.symm, count_of_first hblock, Nat.add_assoc]

/-- There are never more blocks than tags of either kind, and with as many of each
nothing stands at a wrong place. -/
theorem between_spec (s : List α) :
    (between u t s).length ≤ u.count s ∧ (between u t s).length ≤ t.count s ∧
      ((between u t s).length = u.count s → (between u t s).length = t.count s →
        Delimited u t s (between u t s)) := by
  by_cases hu : u.text <:+: s
  · obtain ⟨a, inside, hs, ha⟩ := exists_first hu
    by_cases ht : t.text <:+: inside
    · obtain ⟨block, rest, rfl, hblock⟩ := exists_first ht
      have hlt : rest.length < s.length := hs ▸ (length_lt t).trans (length_lt u)
      obtain ⟨hopen, hclose, hdelimited⟩ := between_spec rest
      rw [hs, between_block ha hblock, count_open hne ha, count_close hne hblock, length_cons]
      refine ⟨by omega, by omega, fun hlu hlt => ?_⟩
      have hfree : ¬t.text <:+: a := count_eq_zero_iff.mp (by omega)
      have hfree' : ¬u.text <:+: block := count_eq_zero_iff.mp (by omega)
      exact .block ⟨ha, hfree⟩ ⟨hfree', hblock⟩ (hdelimited (by omega) (by omega))
    · rw [hs, between_unclosed ha ht, count_of_first ha]
      exact ⟨Nat.zero_le _, Nat.zero_le _, fun h => absurd h (Nat.succ_ne_zero _).symm⟩
  · rw [between_of_free hu]
    exact ⟨Nat.zero_le _, Nat.zero_le _, fun _ h => .free ⟨hu, count_eq_zero_iff.mp h.symm⟩⟩
termination_by s.length

theorem delimited_iff {s : List α} {blocks : List (List α)} :
    Delimited u t s blocks ↔
      between u t s = blocks ∧ blocks.length = u.count s ∧ blocks.length = t.count s := by
  constructor
  · intro h
    induction h with
    | free h => exact ⟨between_of_free h.1, (count_of_free h.1).symm, (count_of_free h.2).symm⟩
    | block hs hblock _ ih =>
      rw [between_block hs.1 hblock.2, ih.1, count_open hne hs.1, count_close hne hblock.2,
        count_of_free hs.2, count_of_free hblock.1, length_cons]
      exact ⟨rfl, by omega, by omega⟩
  · rintro ⟨rfl, hopen, hclose⟩
    exact (between_spec hne s).2.2 hopen hclose

end Pair

end Tag

end HyperParallel.Foundation
