import HyperParallel.Foundation.MixedRadix

/-!
# Unambiguous printing

The text Python prints for integers, strings, `None`, tuples and lists.  A
`Printer` carries the proof that its text can be cut off the front of any text
in which a delimiter follows it, so that two values that print alike inside a
container are equal and leave the same rest.
-/

namespace HyperParallel.Foundation.PyRepr

open List

variable {α β : Type*}

def IsDelimiter (c : Char) : Prop := c = ',' ∨ c = ')' ∨ c = ']'

instance (c : Char) : Decidable (IsDelimiter c) :=
  inferInstanceAs (Decidable (_ ∨ _))

def Delimited (rest : List Char) : Prop := ∀ c ∈ rest.head?, IsDelimiter c

structure Printer (α : Type*) where
  print : α → List Char
  first : ∀ a, ∃ c ∈ (print a).head?, ¬IsDelimiter c
  cancel : ∀ a b rest rest', Delimited rest → Delimited rest' →
    print a ++ rest = print b ++ rest' → a = b ∧ rest = rest'

theorem delimited_nil : Delimited [] := by simp [Delimited]

variable {c : Char} {quote : Char}

theorem delimited_cons (h : IsDelimiter c) (rest : List Char) :
    Delimited (c :: rest) := by simpa [Delimited]

namespace Printer

theorem not_delimited (p : Printer α) (a : α) (rest : List Char) :
    ¬Delimited (p.print a ++ rest) := by
  obtain ⟨c, hc, hclose⟩ := p.first a
  intro h
  refine hclose (h c ?_)
  cases hprint : p.print a with
  | nil => simp [hprint] at hc
  | cons d ds => simpa [hprint] using hc

def comap (p : Printer α) (f : β → α) (hf : Function.Injective f) : Printer β where
  print b := p.print (f b)
  first b := p.first (f b)
  cancel a b rest rest' h h' heq := by
    obtain ⟨hab, hrest⟩ := p.cancel (f a) (f b) rest rest' h h' heq
    exact ⟨hf hab, hrest⟩

/-- Printing one of two kinds of values whose texts start differently. -/
def sum (p : Printer α) (q : Printer β)
    (hne : ∀ a b, (p.print a).head? ≠ (q.print b).head?) : Printer (α ⊕ β) where
  print := Sum.elim p.print q.print
  first
    | .inl a => p.first a
    | .inr b => q.first b
  cancel := by
    have hcross : ∀ a b rest rest', p.print a ++ rest ≠ q.print b ++ rest' := by
      intro a b rest rest' heq
      obtain ⟨c, hc, -⟩ := p.first a
      obtain ⟨d, hd, -⟩ := q.first b
      refine hne a b ?_
      cases hp : p.print a with
      | nil => simp [hp] at hc
      | cons c' cs =>
        cases hq : q.print b with
        | nil => simp [hq] at hd
        | cons d' ds => simp_all
    rintro (a | a) (b | b) rest rest' h h' heq
    · obtain ⟨rfl, hrest⟩ := p.cancel a b rest rest' h h' heq
      exact ⟨rfl, hrest⟩
    · exact absurd heq (hcross a b rest rest')
    · exact absurd heq.symm (hcross b a rest' rest)
    · obtain ⟨rfl, hrest⟩ := q.cancel a b rest rest' h h' heq
      exact ⟨rfl, hrest⟩

/-! ## Containers -/

/-- The elements of a container, `", "` between them. -/
def items (p : Printer α) : List α → List Char
  | [] => []
  | [a] => p.print a
  | a :: b :: as => p.print a ++ ',' :: ' ' :: items p (b :: as)

theorem items_cancel (p : Printer α) {close : Char} (hclose : close = ')' ∨ close = ']')
    (as bs : List α) (rest rest' : List Char)
    (heq : items p as ++ close :: rest = items p bs ++ close :: rest') :
    as = bs ∧ rest = rest' := by
  have hdel : ∀ text, Delimited (close :: text) := fun text =>
    delimited_cons (Or.inr hclose) text
  have hcomma : ∀ text, Delimited (',' :: text) := fun text =>
    delimited_cons (Or.inl rfl) text
  have hne : close ≠ ',' := by rcases hclose with rfl | rfl <;> decide
  induction as generalizing bs with
  | nil =>
    cases bs with
    | nil => simpa [items] using heq
    | cons b bs =>
      exfalso
      have hclosed := hdel rest
      rw [show close :: rest = items p [] ++ close :: rest by rfl, heq] at hclosed
      cases bs with
      | nil => exact p.not_delimited b _ hclosed
      | cons b' bs =>
        rw [items, append_assoc] at hclosed
        exact p.not_delimited b _ hclosed
  | cons a as ih =>
    cases bs with
    | nil =>
      exfalso
      have hclosed := hdel rest'
      rw [show close :: rest' = items p [] ++ close :: rest' by rfl, ← heq] at hclosed
      cases as with
      | nil => exact p.not_delimited a _ hclosed
      | cons a' as =>
        rw [items, append_assoc] at hclosed
        exact p.not_delimited a _ hclosed
    | cons b bs =>
      cases as with
      | nil =>
        cases bs with
        | nil =>
          obtain ⟨rfl, hrest⟩ := p.cancel a b _ _ (hdel _) (hdel _) heq
          exact ⟨rfl, (cons.inj hrest).2⟩
        | cons b' bs =>
          rw [items, items, append_assoc] at heq
          obtain ⟨-, hrest⟩ := p.cancel a b _ _ (hdel _) (hcomma _) heq
          exact absurd (cons.inj hrest).1 hne
      | cons a' as =>
        cases bs with
        | nil =>
          rw [items, items, append_assoc] at heq
          obtain ⟨-, hrest⟩ := p.cancel a b _ _ (hcomma _) (hdel _) heq
          exact absurd (cons.inj hrest).1.symm hne
        | cons b' bs =>
          rw [items, items, append_assoc, append_assoc] at heq
          obtain ⟨rfl, hrest⟩ := p.cancel a b _ _ (hcomma _) (hcomma _) heq
          obtain ⟨htail, hrest⟩ := ih (b' :: bs) (by simpa using hrest)
          exact ⟨by rw [htail], hrest⟩

/-- `[x, y, z]`. -/
def list (p : Printer α) : Printer (List α) where
  print as := '[' :: (items p as ++ [']'])
  first as := ⟨'[', by simp, by decide⟩
  cancel as bs rest rest' _ _ heq := by
    refine items_cancel p (Or.inr rfl) as bs rest rest' ?_
    simpa using heq

/-- `(x, y, z)`, with a comma after the only element of a tuple of one. -/
def tuple (p : Printer α) : Printer (List α) where
  print
    | [a] => '(' :: (p.print a ++ [',', ')'])
    | as => '(' :: (items p as ++ [')'])
  first as := ⟨'(', by split <;> simp, by decide⟩
  cancel := by
    have hcomma : ∀ text, Delimited (',' :: text) := fun text =>
      delimited_cons (Or.inl rfl) text
    have hparen : ∀ text, Delimited (')' :: text) := fun text =>
      delimited_cons (Or.inr (Or.inl rfl)) text
    have hone : ∀ a bs rest rest', bs.length ≠ 1 →
        p.print a ++ ',' :: ')' :: rest ≠ items p bs ++ ')' :: rest' := by
      intro a bs rest rest' hlen heq
      match bs with
      | [] =>
        have hclosed := hparen rest'
        rw [show ')' :: rest' = items p [] ++ ')' :: rest' by rfl, ← heq] at hclosed
        exact p.not_delimited a _ hclosed
      | [_] => exact hlen rfl
      | b :: b' :: bs =>
        rw [items, append_assoc] at heq
        obtain ⟨-, hrest⟩ := p.cancel a b _ _ (hcomma _) (hcomma _) heq
        simp at hrest
    intro as bs rest rest' _ _ heq
    match as, bs with
    | [a], [b] =>
      obtain ⟨rfl, hrest⟩ := p.cancel a b (',' :: ')' :: rest) (',' :: ')' :: rest')
        (hcomma _) (hcomma _) (by simpa using heq)
      exact ⟨rfl, by simpa using hrest⟩
    | [a], [] => exact absurd (by simpa using heq) (hone a [] rest rest' (by simp))
    | [a], b :: b' :: bs =>
      exact absurd (by simpa using heq) (hone a (b :: b' :: bs) rest rest' (by simp))
    | [], [b] => exact absurd (by simpa using heq.symm) (hone b [] rest' rest (by simp))
    | a :: a' :: as, [b] =>
      exact absurd (by simpa using heq.symm) (hone b (a :: a' :: as) rest' rest (by simp))
    | [], [] => exact items_cancel p (Or.inl rfl) [] [] rest rest' (by simpa using heq)
    | [], b :: b' :: bs => exact items_cancel p (Or.inl rfl) _ _ rest rest' (by simpa using heq)
    | a :: a' :: as, [] => exact items_cancel p (Or.inl rfl) _ _ rest rest' (by simpa using heq)
    | a :: a' :: as, b :: b' :: bs =>
      exact items_cancel p (Or.inl rfl) _ _ rest rest' (by simpa using heq)

/-- Two fields of a tuple, one after the other. -/
def fields (p : Printer α) (q : Printer β) : Printer (α × β) where
  print ab := p.print ab.1 ++ ',' :: ' ' :: q.print ab.2
  first ab := by
    obtain ⟨c, hc, hclose⟩ := p.first ab.1
    refine ⟨c, ?_, hclose⟩
    cases hprint : p.print ab.1 with
    | nil => simp [hprint] at hc
    | cons d ds => simpa [hprint] using hc
  cancel ab ab' rest rest' h h' heq := by
    simp only [append_assoc, cons_append] at heq
    obtain ⟨hfst, htail⟩ := p.cancel _ _ _ _
      (delimited_cons (Or.inl rfl) _) (delimited_cons (Or.inl rfl) _) heq
    obtain ⟨hsnd, hrest⟩ := q.cancel _ _ _ _ h h' (by simpa using htail)
    exact ⟨Prod.ext hfst hsnd, hrest⟩

theorem closed_cancel (p : Printer α) {a b : α} {rest rest' : List Char}
    (heq : '(' :: (p.print a ++ [')']) ++ rest = '(' :: (p.print b ++ [')']) ++ rest') :
    a = b ∧ rest = rest' := by
  obtain ⟨hab, hrest⟩ := p.cancel a b (')' :: rest) (')' :: rest')
    (delimited_cons (Or.inr (Or.inl rfl)) _) (delimited_cons (Or.inr (Or.inl rfl)) _)
    (by simpa using heq)
  exact ⟨hab, by simpa using hrest⟩

/-- The parentheses around the fields of a tuple. -/
def parens (p : Printer α) : Printer α where
  print a := '(' :: (p.print a ++ [')'])
  first a := ⟨'(', by simp, by decide⟩
  cancel _ _ _ _ _ _ heq := p.closed_cancel heq

end Printer

/-! ## Integers -/

def intText : Int → List Char
  | .ofNat n => Nat.toDigits 10 n
  | .negSucc n => '-' :: Nat.toDigits 10 (n + 1)

theorem isDigit_toDigits {n : Nat} (h : c ∈ Nat.toDigits 10 n) :
    c.isDigit = true :=
  Nat.isDigit_of_mem_toDigits (by decide) (by decide) h

theorem not_isDigit_of_isDelimiter (h : IsDelimiter c) : c.isDigit = false := by
  rcases h with rfl | rfl | rfl <;> decide

theorem toDigits_cancel {m n : Nat} {rest rest' : List Char} (h : Delimited rest)
    (h' : Delimited rest') (heq : Nat.toDigits 10 m ++ rest = Nat.toDigits 10 n ++ rest') :
    m = n ∧ rest = rest' := by
  have htake : ∀ k text, Delimited text →
      (Nat.toDigits 10 k ++ text).takeWhile Char.isDigit = Nat.toDigits 10 k := by
    intro k text htext
    rw [takeWhile_append_of_pos fun c hc => isDigit_toDigits hc]
    cases text with
    | nil => simp
    | cons c cs =>
      have hc := not_isDigit_of_isDelimiter (htext c (by simp))
      simp [hc]
  have hdigits : Nat.toDigits 10 m = Nat.toDigits 10 n := by
    rw [← htake m rest h, heq, htake n rest' h']
  refine ⟨?_, by rwa [hdigits, append_cancel_left_eq] at heq⟩
  rw [← Nat.ofDigitChars_ten_toDigits (n := m), hdigits, Nat.ofDigitChars_ten_toDigits]

theorem head?_toDigits (n : Nat) : ∃ c ∈ (Nat.toDigits 10 n).head?, c.isDigit = true := by
  cases hprint : Nat.toDigits 10 n with
  | nil => exact absurd hprint Nat.toDigits_ne_nil
  | cons c cs => exact ⟨c, by simp, isDigit_toDigits (n := n) (by simp [hprint])⟩

theorem head?_intText (z : Int) : ∃ c ∈ (intText z).head?, c = '-' ∨ c.isDigit = true := by
  cases z with
  | ofNat n =>
    obtain ⟨c, hc, hdigit⟩ := head?_toDigits n
    exact ⟨c, hc, Or.inr hdigit⟩
  | negSucc n => exact ⟨'-', by simp [intText], Or.inl rfl⟩

def Printer.int : Printer Int where
  print := intText
  first z := by
    obtain ⟨c, hc, hcase⟩ := head?_intText z
    refine ⟨c, hc, fun hclose => ?_⟩
    rcases hcase with rfl | hdigit
    · exact absurd hclose (by decide)
    · simp [not_isDigit_of_isDelimiter hclose] at hdigit
  cancel := by
    have hminus : ∀ n text rest, '-' :: text ≠ Nat.toDigits 10 n ++ rest := by
      intro n text rest heq
      obtain ⟨c, hc, hdigit⟩ := head?_toDigits n
      cases hprint : Nat.toDigits 10 n with
      | nil => exact Nat.toDigits_ne_nil hprint
      | cons d ds =>
        rw [hprint] at heq hc
        obtain rfl : d = c := by simpa using hc
        rw [← (cons.inj heq).1] at hdigit
        exact absurd hdigit (by decide)
    rintro (m | m) (n | n) rest rest' h h' heq
    · obtain ⟨rfl, hrest⟩ := toDigits_cancel h h' heq
      exact ⟨rfl, hrest⟩
    · exact absurd heq.symm (hminus m _ rest)
    · exact absurd heq (hminus n _ rest')
    · obtain ⟨hmn, hrest⟩ := toDigits_cancel h h' (cons.inj heq).2
      obtain rfl : m = n := by omega
      exact ⟨rfl, hrest⟩

/-! ## Strings

A string prints between quotes, the double ones only when it holds a single
quote and no double quote.  `unescape` reads one printed character back.
-/

def hexText (width n : Nat) : List Char :=
  (MixedRadix.digits (List.replicate width 16) n).map Nat.digitChar

def hexValue (c : Char) : Nat := if c.isDigit then c.toNat - 48 else c.toNat - 87

def readHex (width : Nat) (text : List Char) : Char × List Char :=
  (Char.ofNat (MixedRadix.value (List.replicate width 16) ((text.take width).map hexValue)),
    text.drop width)

theorem hexValue_digitChar : ∀ n < 16, hexValue (Nat.digitChar n) = n := by decide

theorem readHex_hexText (width : Nat) (h : c.toNat < 16 ^ width)
    (rest : List Char) : readHex width (hexText width c.toNat ++ rest) = (c, rest) := by
  have hlen : (hexText width c.toNat).length = width := by simp [hexText]
  have hvalues : (hexText width c.toNat).map hexValue =
      MixedRadix.digits (replicate width 16) c.toNat := by
    rw [hexText, map_map]
    conv_rhs => rw [← map_id (MixedRadix.digits _ _)]
    refine map_congr_left fun digit hdigit => ?_
    obtain ⟨j, hj, rfl⟩ := getElem_of_mem hdigit
    have hpos : ∀ b ∈ replicate width 16, 0 < b := fun b hb => by
      simp [eq_of_mem_replicate hb]
    have hbound := MixedRadix.digits_lt hpos c.toNat j (by simpa using hj)
    exact hexValue_digitChar _ (by simpa using hbound)
  rw [readHex, take_left' hlen, drop_left' hlen, hvalues,
    MixedRadix.value_digits (by simpa using h), Char.ofNat_toNat]

def escapeChar (isPrintable : Char → Bool) (quote c : Char) : List Char :=
  if c = quote ∨ c = '\\' then ['\\', c]
  else if c = '\t' then ['\\', 't']
  else if c = '\n' then ['\\', 'n']
  else if c = '\r' then ['\\', 'r']
  else if c.toNat < 32 ∨ c.toNat = 127 then '\\' :: 'x' :: hexText 2 c.toNat
  else if c.toNat < 127 ∨ isPrintable c then [c]
  else if c.toNat < 16 ^ 2 then '\\' :: 'x' :: hexText 2 c.toNat
  else if c.toNat < 16 ^ 4 then '\\' :: 'u' :: hexText 4 c.toNat
  else '\\' :: 'U' :: hexText 8 c.toNat

def unescape : List Char → Option (Char × List Char)
  | [] => none
  | [c] => some (c, [])
  | c :: e :: rest =>
    if c ≠ '\\' then some (c, e :: rest)
    else if e = 't' then some ('\t', rest)
    else if e = 'n' then some ('\n', rest)
    else if e = 'r' then some ('\r', rest)
    else if e = 'x' then some (readHex 2 rest)
    else if e = 'u' then some (readHex 4 rest)
    else if e = 'U' then some (readHex 8 rest)
    else some (e, rest)

variable (isPrintable : Char → Bool)

theorem unescape_plain (h : c ≠ '\\') (rest : List Char) :
    unescape (c :: rest) = some (c, rest) := by
  cases rest <;> simp [unescape, h]

theorem unescape_escapeChar (hquote : quote = '\'' ∨ quote = '"')
    (c : Char) (rest : List Char) :
    unescape (escapeChar isPrintable quote c ++ rest) = some (c, rest) := by
  rw [escapeChar]
  split_ifs with hsame htab hnewline hreturn hcontrol hplain hx hu
  · have hspecial : c ≠ 't' ∧ c ≠ 'n' ∧ c ≠ 'r' ∧ c ≠ 'x' ∧ c ≠ 'u' ∧ c ≠ 'U' := by
      rcases hquote with rfl | rfl <;> rcases hsame with rfl | rfl <;> decide
    simp [unescape, hspecial]
  · simp [unescape, htab]
  · simp [unescape, hnewline]
  · simp [unescape, hreturn]
  · simp [unescape, readHex_hexText 2 (c := c) (by omega)]
  · exact unescape_plain (fun h => hsame (Or.inr h)) rest
  · simp [unescape, readHex_hexText 2 hx]
  · simp [unescape, readHex_hexText 4 hu]
  · have hbound : c.toNat < 16 ^ 8 := by
      have := c.val.toNat_lt
      simpa using this
    simp [unescape, readHex_hexText 8 hbound]

theorem escapeChar_head (hquote : quote = '\'' ∨ quote = '"')
    (c : Char) (rest rest' : List Char) :
    escapeChar isPrintable quote c ++ rest ≠ quote :: rest' := by
  have hback : quote ≠ '\\' := by rcases hquote with rfl | rfl <;> decide
  intro heq
  have hread := unescape_escapeChar isPrintable hquote c rest
  rw [heq, unescape_plain hback] at hread
  obtain ⟨rfl, -⟩ := Prod.mk.inj (Option.some.inj hread)
  simp [escapeChar] at heq
  exact hback heq.1.symm

def strQuote (s : List Char) : Char :=
  if '\'' ∈ s ∧ '"' ∉ s then '"' else '\''

def strText (s : List Char) : List Char :=
  strQuote s :: (s.flatMap (escapeChar isPrintable (strQuote s)) ++ [strQuote s])

theorem strQuote_cases (s : List Char) : strQuote s = '\'' ∨ strQuote s = '"' := by
  unfold strQuote
  split
  · exact Or.inr rfl
  · exact Or.inl rfl

theorem flatMap_escapeChar_cancel (hquote : quote = '\'' ∨ quote = '"')
    (s t rest rest' : List Char)
    (heq : s.flatMap (escapeChar isPrintable quote) ++ quote :: rest =
      t.flatMap (escapeChar isPrintable quote) ++ quote :: rest') :
    s = t ∧ rest = rest' := by
  induction s generalizing t with
  | nil =>
    cases t with
    | nil => simpa using heq
    | cons d t =>
      simp only [flatMap_nil, nil_append, flatMap_cons, append_assoc] at heq
      exact absurd heq.symm (escapeChar_head isPrintable hquote d _ _)
  | cons c s ih =>
    cases t with
    | nil =>
      simp only [flatMap_nil, nil_append, flatMap_cons, append_assoc] at heq
      exact absurd heq (escapeChar_head isPrintable hquote c _ _)
    | cons d t =>
      simp only [flatMap_cons, append_assoc] at heq
      have hread := congrArg unescape heq
      rw [unescape_escapeChar isPrintable hquote, unescape_escapeChar isPrintable hquote] at hread
      obtain ⟨rfl, htail⟩ := Prod.mk.inj (Option.some.inj hread)
      obtain ⟨rfl, hrest⟩ := ih t htail
      exact ⟨rfl, hrest⟩

def Printer.str : Printer String where
  print s := strText isPrintable s.toList
  first s := by
    refine ⟨strQuote s.toList, by simp [strText], ?_⟩
    rcases strQuote_cases s.toList with h | h <;> rw [h] <;> decide
  cancel s t rest rest' _ _ heq := by
    simp only [strText, cons_append, append_assoc, nil_append] at heq
    obtain ⟨hquote, htail⟩ := cons.inj heq
    rw [← hquote] at htail
    obtain ⟨hlist, hrest⟩ := flatMap_escapeChar_cancel isPrintable
      (strQuote_cases s.toList) _ _ _ _ htail
    exact ⟨String.toList_inj.mp hlist, hrest⟩

/-! ## `None` -/

def Printer.none : Printer Unit where
  print _ := ['N', 'o', 'n', 'e']
  first _ := ⟨'N', by simp, by decide⟩
  cancel _ _ rest rest' _ _ heq := ⟨rfl, by simpa using heq⟩

/-- A value or `None`. -/
def Printer.option (p : Printer α) (h : ∀ a, (p.print a).head? ≠ some 'N') :
    Printer (Option α) :=
  (Printer.none.sum p fun _ a => Ne.symm (h a)).comap
    (fun | .none => .inl () | .some a => .inr a)
    (by rintro (_ | a) (_ | b) heq <;> simp_all)

end HyperParallel.Foundation.PyRepr
