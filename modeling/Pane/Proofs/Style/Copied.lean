import Mathlib
import Pane.Proofs.Style.Located

/-!
# What is copied in place

Comments are left out and percentages are put in by copying what stands around them, slice by slice.
No depth is counted here, so what is copied in place is what is copied from the characters, whatever
the text.

**Comments.**  `stripFrom_comment_eq` — where a comment ends.  **`stripFrom?_eq`** — what is kept.

**Literals.**  `quotedEnd_char`, `argumentEnd_char`, **`Region.Within.endFrom_char`** — the end of a
literal passes a character, or the literal ends with it.  `map_take_bytes_eq_cons_iff`,
**`isUrlOpen_eq`** — whether a reference opens.  **`literalEnd?_of_closes`**,
`literalEnd?_of_unclosed` — a literal is found from its first character to its last.

**Percentages.**  `percentagesFrom?_bare` — text in which no literal opens is passed.
`Closes.atNameStart` — where a literal closes no name goes on, so what stands behind it can be read
as a text of its own.  `percentagesFrom?_part` — bare text and the literal behind it.
**`percentagesFrom?_eq`** — the text with its percentages.
-/

namespace Pane.Style

open Text (bytes size slice? sliceFrom? getElem?_bytes_ascii getElem?_bytes_high
  getElem?_bytes_of_le)

/-! ## Comments -/

section comments

variable {s t : List Char} {c : Char}

/-- A comment goes up to its end, or it takes the rest of the text. -/
theorem stripFrom_comment_eq (s : List Char) :
    (find? "*/".toList s = none ∧ stripFrom .comment s = []) ∨
      ∃ a b, s = a ++ '*' :: '/' :: b ∧ find? "*/".toList s = some (size a) ∧
        stripFrom .comment s = stripFrom .outside b := by
  induction s with
  | nil => exact .inl ⟨rfl, rfl⟩
  | cons c s ih =>
    by_cases hend : ∃ b, c = '*' ∧ s = '/' :: b
    · obtain ⟨b, rfl, rfl⟩ := hend
      exact .inr ⟨[], b, rfl, rfl, rfl⟩
    · have hprefix : "*/".toList.isPrefixOf (c :: s) = false := by
        rw [Bool.eq_false_iff]
        intro h
        obtain ⟨b, hb⟩ := List.isPrefixOf_iff_prefix.1 h
        obtain ⟨rfl, rfl⟩ := List.cons.inj hb
        exact hend ⟨b, rfl, rfl⟩
      have hstrip : stripFrom .comment (c :: s) = stripFrom .comment s := by
        rw [stripFrom]
        rintro b rfl rfl
        exact hend ⟨b, rfl, rfl⟩
      rw [find?, hprefix, if_neg Bool.false_ne_true, hstrip]
      rcases ih with ⟨hnone, hnil⟩ | ⟨a, b, rfl, hsome, hrest⟩
      · exact .inl ⟨by rw [hnone]; rfl, hnil⟩
      · exact .inr ⟨c :: a, b, rfl, by rw [hsome, Text.size_cons]; rfl, hrest⟩

/-- The state of a text read from outside strings, or from within one of the given quote. -/
def commentState : Option Char → CommentState
  | none => .outside
  | some q => .quoted q

/-- The first character of a text can be sliced off. -/
theorem sliceFrom?_head (h : s.head? = some c) : sliceFrom? s c.utf8Size ≠ none := by
  obtain ⟨t, rfl⟩ := List.head?_eq_some_iff.1 h
  have hslice := Text.sliceFrom?_append [c] t
  rw [Text.size_cons, Text.size_nil, Nat.add_zero] at hslice
  rw [List.singleton_append] at hslice
  exact hslice ▸ Option.some_ne_none t

/-- What is sliced off from the first character on is the rest. -/
theorem eq_cons_of_sliceFrom? (h : s.head? = some c) (ht : sliceFrom? s c.utf8Size = some t) :
    s = c :: t := by
  obtain ⟨u, rfl⟩ := List.head?_eq_some_iff.1 h
  have hslice := Text.sliceFrom?_append [c] u
  rw [Text.size_cons, Text.size_nil, Nat.add_zero] at hslice
  exact congrArg (c :: ·) (Option.some.inj (hslice.symm.trans ht))

/-- A comment that opens here. -/
theorem stripFrom_of_prefix (h : "/*".toList.isPrefixOf s = true) : ∃ t, s = '/' :: '*' :: t ∧
    sliceFrom? s 2 = some t ∧ stripFrom .outside s = stripFrom .comment t := by
  obtain ⟨t, rfl⟩ := List.isPrefixOf_iff_prefix.1 h
  exact ⟨t, rfl, Text.sliceFrom?_append "/*".toList t, rfl⟩

/-- A comment that opens here and is closed. -/
theorem stripFrom_of_find? {i : Nat} (h : "/*".toList.isPrefixOf s = true)
    (hfind : (sliceFrom? s 2).map (find? "*/".toList) = some (some i)) : ∃ t,
    sliceFrom? s (2 + i + 2) = some t ∧ stripFrom .outside s = stripFrom .outside t := by
  obtain ⟨t, rfl, hslice, hstrip⟩ := stripFrom_of_prefix h
  rw [hslice, Option.map_some, Option.some.injEq] at hfind
  rcases stripFrom_comment_eq t with ⟨hnone, -⟩ | ⟨a, b, rfl, hsome, hrest⟩
  · cases hfind.symm.trans hnone
  · obtain rfl := Option.some.inj (hfind.symm.trans hsome)
    refine ⟨b, Text.sliceFrom?_eq_some_iff.2 ⟨'/' :: '*' :: (a ++ ['*', '/']), by simp, ?_⟩,
      hstrip.trans hrest⟩
    simp [Text.utf8Size_ascii]
    omega

/-- **What is kept is what is kept of the text.** -/
theorem stripFrom?_eq (quote : Option Char) (s : List Char) :
    stripFrom? quote s = some (stripFrom (commentState quote) s) := by
  fun_induction stripFrom? quote s with
  | case1 quote s hnil =>
    obtain rfl := List.head?_eq_none_iff.1 hnil
    rw [stripFrom]
  | case2 s c hc q hnone => exact absurd hnone (sliceFrom?_head hc)
  | case3 s q t hnil hc hsome ih =>
    obtain rfl := eq_cons_of_sliceFrom? hc hsome
    obtain rfl := List.head?_eq_none_iff.1 hnil
    rw [ih]
    rfl
  | case4 s q t d hd hnone => exact absurd hnone (sliceFrom?_head hd)
  | case5 s q t d hd u hsome' hc hsome ih =>
    obtain rfl := eq_cons_of_sliceFrom? hc hsome
    obtain rfl := eq_cons_of_sliceFrom? hd hsome'
    rw [ih]
    simp [commentState, stripFrom]
  | case6 s c hc q t hsome hbackslash ih =>
    obtain rfl := eq_cons_of_sliceFrom? hc hsome
    have hnext : stripFrom (.quoted q) (c :: t) =
        c :: stripFrom (commentState (if c = q then none else some q)) t := by
      rw [stripFrom, if_neg hbackslash]
      split <;> rfl
    exact (congrArg (Option.map _) ih).trans (congrArg some hnext.symm)
  | case7 s c hc hprefix hnone =>
    obtain ⟨t, -, hslice, -⟩ := stripFrom_of_prefix hprefix
    rw [hslice] at hnone
    cases hnone
  | case8 s c hc hprefix hfind =>
    obtain ⟨t, -, hslice, hstrip⟩ := stripFrom_of_prefix hprefix
    rw [hslice, Option.map_some, Option.some.injEq] at hfind
    rcases stripFrom_comment_eq t with ⟨-, hnil⟩ | ⟨a, b, -, hsome, -⟩
    · exact congrArg some (hstrip.trans hnil).symm
    · cases hfind.symm.trans hsome
  | case9 s c hc hprefix i hfind hnone =>
    obtain ⟨t, hslice, -⟩ := stripFrom_of_find? hprefix hfind
    cases hnone.symm.trans hslice
  | case10 s c hc hprefix i hfind t hsome ih =>
    obtain ⟨t', hslice, hstrip⟩ := stripFrom_of_find? hprefix hfind
    obtain rfl := Option.some.inj (hsome.symm.trans hslice)
    exact ih.trans (congrArg some hstrip.symm)
  | case11 s c hc hprefix hnone => exact absurd hnone (sliceFrom?_head hc)
  | case12 s c hc hprefix t hsome ih =>
    obtain rfl := eq_cons_of_sliceFrom? hc hsome
    have hnext : stripFrom .outside (c :: t) =
        c :: stripFrom (commentState (if c = '"' ∨ c = '\'' then some c else none)) t := by
      rw [stripFrom]
      · by_cases hquote : c = '"' ∨ c = '\'' <;> simp [hquote, commentState]
      · rintro u rfl rfl
        exact hprefix rfl
    exact (congrArg (Option.map _) ih).trans (congrArg some hnext.symm)

end comments

/-! ## Ends of literals -/

section ends

variable {bs : List UInt8} {quote b : UInt8} {i : Nat}

/-- A string that is not closed ends with the text. -/
theorem quotedEnd_of_none (h : bs[i]? = none) : quotedEnd bs quote i = bs.length := by
  rw [quotedEnd]
  split
  · rfl
  · next hb => cases h.symm.trans hb

/-- One step within a string: a backslash passes over a byte, and the quote closes it. -/
theorem quotedEnd_of_some (h : bs[i]? = some b) : quotedEnd bs quote i =
    if Char.ofUInt8 b = '\\' then quotedEnd bs quote (i + 2)
    else if b = quote then i + 1
    else quotedEnd bs quote (i + 1) := by
  rw [quotedEnd]
  split
  · next hnone => cases h.symm.trans hnone
  · next b' hb =>
    obtain rfl := Option.some.inj (h.symm.trans hb)
    rfl

/-- A reference that is not closed ends with the text. -/
theorem urlEnd_of_none (h : bs[i]? = none) : urlEnd bs i = bs.length := by
  rw [urlEnd]
  split
  · rfl
  · next hb => cases h.symm.trans hb

/-- One step within a reference: a string is passed over as a whole, a backslash passes over a byte,
and the bracket closes it. -/
theorem urlEnd_of_some (h : bs[i]? = some b) : urlEnd bs i =
    if Char.ofUInt8 b = '"' ∨ Char.ofUInt8 b = '\'' then urlEnd bs (quotedEnd bs b (i + 1))
    else if Char.ofUInt8 b = '\\' then urlEnd bs (i + 2)
    else if Char.ofUInt8 b = ')' then i + 1
    else urlEnd bs (i + 1) := by
  rw [urlEnd]
  split
  · next hnone => cases h.symm.trans hnone
  · next b' hb =>
    obtain rfl := Option.some.inj (h.symm.trans hb)
    rfl

/-- The end of a string passes a character, or the string ends with it. -/
theorem quotedEnd_char {q : Char} (hq : q = '"' ∨ q = '\'') {quoting : Quoting}
    (hquoting : quoting = .quoted q ∨ quoting = .quotedEscaped q) (p : List Char) (c : Char)
    (s : List Char) :
    quotedEnd (bytes (p ++ c :: s)) q.toUInt8 (size p + quoting.pending) =
      if quoting.next c = .plain then size (p ++ [c])
      else quotedEnd (bytes (p ++ c :: s)) q.toUInt8
        (size (p ++ [c]) + (quoting.next c).pending) := by
  have hqascii : q.toNat < 128 := by rcases hq with rfl | rfl <;> decide
  by_cases hc : c.toNat < 128
  · have hchar := Text.ofUInt8_toUInt8 hc
    rw [Text.size_concat_ascii hc]
    rcases hquoting with rfl | rfl
    · have hsame : c.toUInt8 = q.toUInt8 ↔ c = q := Text.toUInt8_inj hc hqascii
      rw [Quoting.pending, Nat.add_zero, quotedEnd_of_some (getElem?_bytes_ascii hc p s), hchar]
      simp only [hsame, Quoting.next]
      by_cases hbackslash : c = '\\'
      · simp [hbackslash, Quoting.pending]
      · by_cases hclose : c = q
        · subst hclose
          simp [hbackslash]
        · simp [hbackslash, hclose, Quoting.pending]
    · rfl
  · have hnext : quoting.next c = .quoted q := by
      have hother : ∀ d : Char, d.toNat < 128 → c ≠ d := fun d => Text.ne_of_high (Nat.not_lt.1 hc)
      rcases hquoting with rfl | rfl
      · rw [Quoting.next, if_neg (hother '\\' (by decide)), if_neg (hother q hqascii)]
      · rfl
    rw [hnext, if_neg Quoting.noConfusion, Quoting.pending, Nat.add_zero]
    refine Text.eq_behind_high (f := quotedEnd (bytes (p ++ c :: s)) q.toUInt8) (t := s) hc ?_
      (quoting.pending_le c)
    intro i b hb hhigh
    have hne : b ≠ q.toUInt8 := by
      rintro rfl
      rw [Text.toNat_toUInt8 hqascii] at hhigh
      omega
    have hbackslash : Char.ofUInt8 b ≠ '\\' := Text.ne_of_high hhigh (by decide)
    rw [quotedEnd_of_some hb, if_neg hbackslash, if_neg hne]

/-- The end of a reference, given how an offset within its argument is quoted. -/
def argumentEnd (bs : List UInt8) (quoting : Quoting) (i : Nat) : Nat :=
  match quoting.quote? with
  | none => urlEnd bs (i + quoting.pending)
  | some q => urlEnd bs (quotedEnd bs q (i + quoting.pending))

/-- Outside strings the end of a reference passes a character, or the reference ends with it. -/
theorem urlEnd_char {quoting : Quoting} (hquoting : quoting = .plain ∨ quoting = .escaped)
    (p : List Char) (c : Char) (s : List Char) :
    urlEnd (bytes (p ++ c :: s)) (size p + quoting.pending) =
      if quoting = .plain ∧ c = ')' then size (p ++ [c])
      else argumentEnd (bytes (p ++ c :: s)) (quoting.next c) (size (p ++ [c])) := by
  by_cases hc : c.toNat < 128
  · rw [Text.size_concat_ascii hc]
    rcases hquoting with rfl | rfl
    · rw [Quoting.pending, Nat.add_zero, urlEnd_of_some (getElem?_bytes_ascii hc p s),
        Text.ofUInt8_toUInt8 hc]
      by_cases hquote : c = '"' ∨ c = '\''
      · have hother : c ≠ '\\' ∧ c ≠ ')' := by rcases hquote with rfl | rfl <;> decide
        simp [hquote, hother, Quoting.next, argumentEnd, Quoting.quote?, Quoting.pending]
      · by_cases hbackslash : c = '\\'
        · subst hbackslash
          simp [Quoting.next, argumentEnd, Quoting.quote?, Quoting.pending]
        · simp [hquote, hbackslash, Quoting.next, argumentEnd, Quoting.quote?, Quoting.pending]
    · simp [Quoting.next, argumentEnd, Quoting.quote?, Quoting.pending]
  · have hother : ∀ d : Char, d.toNat < 128 → c ≠ d := fun d => Text.ne_of_high (Nat.not_lt.1 hc)
    have hnext : quoting.next c = .plain := by
      rcases hquoting with rfl | rfl
      · simp [Quoting.next, hother '\\' (by decide), hother '"' (by decide),
          hother '\'' (by decide)]
      · rfl
    rw [hnext, if_neg fun h => hother ')' (by decide) h.2]
    refine Text.eq_behind_high (f := urlEnd (bytes (p ++ c :: s))) (t := s) hc ?_
      (quoting.pending_le c)
    intro i b hb hhigh
    have hne : ∀ d : Char, d.toNat < 128 → Char.ofUInt8 b ≠ d := fun d => Text.ne_of_high hhigh
    rw [urlEnd_of_some hb, if_neg (not_or.2 ⟨hne '"' (by decide), hne '\'' (by decide)⟩),
      if_neg (hne '\\' (by decide)), if_neg (hne ')' (by decide))]

/-- **The end of a reference passes a character**, or the reference ends with it. -/
theorem argumentEnd_char {quoting : Quoting} (hproper : quoting.Proper) (p : List Char) (c : Char)
    (s : List Char) : argumentEnd (bytes (p ++ c :: s)) quoting (size p) =
      if quoting = .plain ∧ c = ')' then size (p ++ [c])
      else argumentEnd (bytes (p ++ c :: s)) (quoting.next c) (size (p ++ [c])) := by
  have hquoted : ∀ q : Char, q = '"' ∨ q = '\'' → quoting = .quoted q ∨ quoting = .quotedEscaped q →
      urlEnd (bytes (p ++ c :: s)) (quotedEnd (bytes (p ++ c :: s)) q.toUInt8
        (size p + quoting.pending)) =
          argumentEnd (bytes (p ++ c :: s)) (quoting.next c) (size (p ++ [c])) := by
    intro q hq hquoting
    rw [quotedEnd_char hq hquoting]
    split
    · next hplain => rw [hplain]; rfl
    · next hplain =>
      have hnext : (quoting.next c).quote? = some q.toUInt8 := by
        rcases hquoting with rfl | rfl
        · rw [Quoting.next] at hplain ⊢
          split_ifs at hplain ⊢ <;> first | rfl | exact absurd rfl hplain
        · rfl
      rw [argumentEnd, hnext]
  cases quoting with
  | plain => exact urlEnd_char (.inl rfl) p c s
  | escaped => exact urlEnd_char (.inr rfl) p c s
  | quoted q =>
    exact (hquoted q hproper (.inl rfl)).trans (if_neg fun h => Quoting.noConfusion h.1).symm
  | quotedEscaped q =>
    exact (hquoted q hproper (.inr rfl)).trans (if_neg fun h => Quoting.noConfusion h.1).symm

/-- Where the literal ends whose region is given at an offset. -/
def Region.endFrom (bs : List UInt8) : Region → Nat → Nat
  | .string quoting, i =>
    match quoting.quote? with
    | none => i
    | some q => quotedEnd bs q (i + quoting.pending)
  | .argument quoting, i => argumentEnd bs quoting i
  | _, i => i

/-- A region within a string, or within the argument of a reference. -/
def Region.Within : Region → Prop
  | .string (.quoted q) | .string (.quotedEscaped q) => q = '"' ∨ q = '\''
  | .argument quoting => quoting.Proper
  | _ => False

/-- Within a string, by its quote. -/
theorem Region.within_string_iff {quoting : Quoting} : (Region.string quoting).Within ↔
    ∃ q, (q = '"' ∨ q = '\'') ∧ (quoting = .quoted q ∨ quoting = .quotedEscaped q) := by
  cases quoting <;> simp [Region.Within]

theorem Region.next_string (quoting : Quoting) (c : Char) : (Region.string quoting).next c =
    if quoting.next c = .plain then .plain else .string (quoting.next c) := by
  rw [Region.next]
  cases quoting.next c <;> rfl

/-- Behind a character of a string the string is over, or it goes on. -/
theorem Quoting.next_of_quoted {quoting : Quoting} {q : Char}
    (h : quoting = .quoted q ∨ quoting = .quotedEscaped q) (c : Char) :
    quoting.next c = .plain ∨ quoting.next c = .quoted q ∨ quoting.next c = .quotedEscaped q := by
  rcases h with rfl | rfl
  · rw [Quoting.next]
    split_ifs
    · exact .inr (.inr rfl)
    · exact .inl rfl
    · exact .inr (.inl rfl)
  · exact .inr (.inl rfl)

/-- Within a literal one stays so up to its end. -/
theorem Region.Within.next {region : Region} (h : region.Within) {c : Char}
    (hc : region.next c ≠ .plain) : (region.next c).Within := by
  cases region with
  | plain => exact absurd h id
  | opening left => exact absurd h id
  | string quoting =>
    obtain ⟨q, hq, hquoting⟩ := Region.within_string_iff.1 h
    rw [Region.next_string] at hc ⊢
    rw [if_neg fun hplain => hc (if_pos hplain)]
    refine Region.within_string_iff.2 ⟨q, hq, (Quoting.next_of_quoted hquoting c).resolve_left ?_⟩
    exact fun hplain => hc (if_pos hplain)
  | argument quoting =>
    rw [Region.next] at hc ⊢
    rw [if_neg fun hclose => hc (if_pos hclose)]
    exact Nesting.Proper.next (n := ⟨quoting, 0⟩) h c

/-- **The end of a literal passes a character**, or the literal ends with it. -/
theorem Region.Within.endFrom_char {region : Region} (h : region.Within) (p : List Char) (c : Char)
    (s : List Char) : region.endFrom (bytes (p ++ c :: s)) (size p) =
      if region.next c = .plain then size (p ++ [c])
      else (region.next c).endFrom (bytes (p ++ c :: s)) (size (p ++ [c])) := by
  cases region with
  | plain => exact absurd h id
  | opening left => exact absurd h id
  | string quoting =>
    obtain ⟨q, hq, hquoting⟩ := Region.within_string_iff.1 h
    have hquote : ∀ quoting : Quoting, quoting = .quoted q ∨ quoting = .quotedEscaped q →
        ∀ bs i, (Region.string quoting).endFrom bs i =
          quotedEnd bs q.toUInt8 (i + quoting.pending) := by
      rintro _ (rfl | rfl) bs i <;> rfl
    rw [hquote quoting hquoting, quotedEnd_char hq hquoting, Region.next_string]
    by_cases hplain : quoting.next c = .plain
    · rw [if_pos hplain, if_pos (if_pos hplain)]
    · have hnext := (Quoting.next_of_quoted hquoting c).resolve_left hplain
      rw [if_neg hplain, if_neg hplain, if_neg Region.noConfusion, hquote _ hnext]
  | argument quoting =>
    have hend := argumentEnd_char h p c s
    rw [Region.next]
    by_cases hclose : quoting = .plain ∧ c = ')'
    · rw [if_pos hclose, if_pos rfl]
      exact hend.trans (if_pos hclose)
    · rw [if_neg hclose, if_neg Region.noConfusion]
      exact hend.trans (if_neg hclose)

/-- A literal that is not closed ends with the text. -/
theorem Region.Within.endFrom_size {region : Region} (h : region.Within) (p : List Char) :
    region.endFrom (bytes p) (size p) = size p := by
  have hnone : ∀ k, (bytes p)[size p + k]? = none :=
    fun k => getElem?_bytes_of_le (Nat.le_add_right _ _)
  cases region with
  | plain => rfl
  | opening left => rfl
  | string quoting =>
    rw [Region.endFrom]
    split
    · rfl
    · exact quotedEnd_of_none (hnone _)
  | argument quoting =>
    rw [Region.endFrom, argumentEnd]
    split
    · exact urlEnd_of_none (hnone _)
    · rw [quotedEnd_of_none (hnone _)]
      exact urlEnd_of_none (hnone 0)

/-- The end of a literal that closes is behind its last character. -/
theorem endFrom_of_closes {region : Region} {l : List Char} (hl : Closes region l) :
    region.Within → ∀ p t, region.endFrom (bytes (p ++ (l ++ t))) (size p) = size (p ++ l) := by
  induction hl with
  | last hc =>
    intro h p t
    exact (h.endFrom_char p _ t).trans (if_pos hc)
  | @more region c l hc hs ih =>
    intro h p t
    have hrest := ih (h.next hc) (p ++ [c]) t
    rw [List.append_assoc, List.append_assoc, List.singleton_append, List.singleton_append] at hrest
    rw [List.cons_append, h.endFrom_char, if_neg hc, hrest]

/-- A literal that is not closed ends with the text. -/
theorem endFrom_of_unclosed {region : Region} {l : List Char} (hl : Unclosed region l) :
    region.Within → ∀ p, region.endFrom (bytes (p ++ l)) (size p) = size (p ++ l) := by
  induction hl with
  | nil region =>
    intro h p
    rw [List.append_nil]
    exact h.endFrom_size p
  | @more region c l hc hs ih =>
    intro h p
    have hrest := ih (h.next hc) (p ++ [c])
    rw [List.append_assoc, List.singleton_append] at hrest
    rw [h.endFrom_char, if_neg hc, hrest]

end ends

/-! ## Opening -/

section opening

/-- Whether a name goes on behind a character. -/
def continuesName (c : Char) : Bool := Text.isAlphanumeric c || c = '-'

/-- What goes on a name has seven bits. -/
theorem ascii_of_continuesName {c : Char} (h : continuesName c = true) : c.toNat < 128 := by
  have hle : ∀ bound : UInt32, bound.toNat < 128 → c.val ≤ bound → c.toNat < 128 :=
    fun bound hbound h => Nat.lt_of_le_of_lt (UInt32.le_iff_toNat_le.1 h) hbound
  simp only [continuesName, Text.isAlphanumeric, Char.isAlpha, Char.isUpper, Char.isLower,
    Char.isDigit, Bool.or_eq_true, Bool.and_eq_true, decide_eq_true_eq] at h
  rcases h with ((⟨-, h⟩ | ⟨-, h⟩) | ⟨-, h⟩) | rfl
  · exact hle _ (by decide) h
  · exact hle _ (by decide) h
  · exact hle _ (by decide) h
  · decide

/-- Whether a reference opens depends on whether the character in front goes on a name. -/
theorem opensUrl_congr {previous previous' : Option Char}
    (h : previous.any continuesName = previous'.any continuesName) (s : List Char) :
    opensUrl previous s = opensUrl previous' s := by
  rw [Bool.eq_iff_iff, opensUrl_iff, opensUrl_iff]
  exact and_congr_left fun _ => iff_of_eq (congrArg (· = false) h)

/-- ASCII characters at the start of a text are those of its first bytes. -/
theorem map_take_bytes_eq_cons_iff {s rest : List Char} {c : Char} {n : Nat} (hc : c.toNat < 128) :
    ((bytes s).take (n + 1)).map Char.ofUInt8 = c :: rest ↔
      ∃ t, s = c :: t ∧ ((bytes t).take n).map Char.ofUInt8 = rest := by
  have hcons : ∀ {d : Char} (t : List Char), d.toNat < 128 →
      ((bytes (d :: t)).take (n + 1)).map Char.ofUInt8 =
        d :: ((bytes t).take n).map Char.ofUInt8 := by
    intro d t hd
    rw [Text.bytes_cons, Text.encode_ascii hd, List.singleton_append, List.take_succ_cons,
      List.map_cons, Text.ofUInt8_toUInt8 hd]
  constructor
  · intro h
    obtain ⟨b, bs, htake, hb, -⟩ := List.map_eq_cons_iff.1 h
    have hfirst : (bytes s)[0]? = some b := by
      have hhead := congrArg List.head? htake
      rwa [List.head?_take, if_neg (Nat.succ_ne_zero n), List.head?_eq_getElem?] at hhead
    have hascii : b.toNat < 128 := by rwa [← hb] at hc
    obtain ⟨p, d, t, rfl, hp, hd, rfl⟩ := Text.exists_of_ascii hfirst hascii
    obtain rfl := Text.size_eq_zero.1 hp
    rw [List.nil_append, hcons t hd] at h
    obtain ⟨rfl, hrest⟩ := List.cons.inj h
    exact ⟨t, rfl, hrest⟩
  · rintro ⟨t, rfl, rfl⟩
    exact hcons t hc

/-- A name that goes on behind a text goes on behind its last byte. -/
theorem any_previous (d s : List Char) :
    (if size d = 0 then none else (bytes (d ++ s))[size d - 1]?.map Char.ofUInt8).any
      continuesName = d.getLast?.any continuesName := by
  rcases List.eq_nil_or_concat' d with rfl | ⟨front, c, rfl⟩
  · rfl
  · have hpos := c.utf8Size_pos
    have hsize : size (front ++ [c]) = size front + c.utf8Size := by simp
    have hlast : size (front ++ [c]) - 1 = size front + (c.utf8Size - 1) := by omega
    obtain ⟨b, hb, hname⟩ := Text.exists_byte (c := c) (i := c.utf8Size - 1)
      (fun _ => ascii_of_continuesName) (by omega) front s
    rw [if_neg (by omega), hlast, List.append_assoc, List.singleton_append, List.getLast?_concat,
      hb, Option.map_some, Option.any_some, Option.any_some, hname]

/-- **Whether a reference opens** is told by the bytes as it is told by the characters. -/
theorem isUrlOpen_eq (d s : List Char) :
    isUrlOpen (bytes (d ++ s)) (size d) = opensUrl d.getLast? s := by
  have hdrop : (bytes (d ++ s)).drop (size d) = bytes s := by
    rw [Text.bytes_append]
    exact List.drop_left
  rw [isUrlOpen, opensUrl_congr (any_previous d s), hdrop, Bool.eq_iff_iff, opensUrl_iff,
    opensUrl_iff]
  have hbracket : '('.toNat < 128 := by decide
  refine and_congr_right fun _ => ⟨?_, ?_⟩
  · rintro ⟨u, r, l, rest, heq, hu, hr, hl⟩
    obtain ⟨t, rfl, hthree⟩ := (map_take_bytes_eq_cons_iff (ascii_of_toLower hu (by decide))).1 heq
    obtain ⟨t, rfl, htwo⟩ := (map_take_bytes_eq_cons_iff (ascii_of_toLower hr (by decide))).1 hthree
    obtain ⟨t, rfl, hone⟩ := (map_take_bytes_eq_cons_iff (ascii_of_toLower hl (by decide))).1 htwo
    obtain ⟨t, rfl, -⟩ := (map_take_bytes_eq_cons_iff hbracket).1 hone
    exact ⟨u, r, l, t, rfl, hu, hr, hl⟩
  · rintro ⟨u, r, l, rest, rfl, hu, hr, hl⟩
    refine ⟨u, r, l, [], ?_, hu, hr, hl⟩
    rw [map_take_bytes_eq_cons_iff (ascii_of_toLower hu (by decide))]
    refine ⟨_, rfl, (map_take_bytes_eq_cons_iff (ascii_of_toLower hr (by decide))).2 ⟨_, rfl, ?_⟩⟩
    refine (map_take_bytes_eq_cons_iff (ascii_of_toLower hl (by decide))).2 ⟨_, rfl, ?_⟩
    exact (map_take_bytes_eq_cons_iff hbracket).2 ⟨_, rfl, rfl⟩

/-- Where no literal opens, the bytes of the first character open none. -/
theorem literalEnd?_eq_none {d s : List Char} {c : Char}
    (h : opensAs? d.getLast? (c :: s) = none) (hc : c.toNat < 128) :
    literalEnd? (bytes (d ++ c :: s)) (size d) = none := by
  obtain ⟨hquote, hurl⟩ := opensAs?_eq_none_iff.1 h
  rw [literalEnd?, getElem?_bytes_ascii hc]
  dsimp only
  rw [Text.ofUInt8_toUInt8 hc, if_neg hquote, isUrlOpen_eq, hurl]
  rfl

/-- No literal opens at a byte of a longer character. -/
theorem literalEnd?_high {s : List Char} {i : Nat} {b : UInt8} (hb : (bytes s)[i]? = some b)
    (hhigh : 128 ≤ b.toNat) : literalEnd? (bytes s) i = none := by
  have hother : ∀ d : Char, d.toNat < 128 → Char.ofUInt8 b ≠ d := fun d => Text.ne_of_high hhigh
  have hurl : isUrlOpen (bytes s) i = false :=
    Bool.eq_false_iff.2 fun h => Nat.not_lt.2 hhigh (ascii_of_isUrlOpen hb h)
  rw [literalEnd?, hb]
  dsimp only
  rw [if_neg (not_or.2 ⟨hother '"' (by decide), hother '\'' (by decide)⟩), hurl]
  rfl

/-- What opens is a string, or a reference of which the argument is to come. -/
theorem literalEnd?_of_opensAs? {d s : List Char} {c : Char} {region : Region}
    (h : opensAs? d.getLast? (c :: s) = some region) :
    (region = .string (.quoted c) ∧ region.Within ∧ literalEnd? (bytes (d ++ c :: s)) (size d) =
      some (region.endFrom (bytes (d ++ c :: s)) (size (d ++ [c])))) ∨
    (region = .opening 3 ∧ ∃ r l rest, s = r :: l :: '(' :: rest ∧
      literalEnd? (bytes (d ++ c :: s)) (size d) = some ((Region.argument .plain).endFrom
        (bytes (d ++ c :: s)) (size (d ++ [c, r, l, '('])))) := by
  rw [opensAs?] at h
  by_cases hquote : c = '"' ∨ c = '\''
  · have hc : c.toNat < 128 := by rcases hquote with rfl | rfl <;> decide
    rw [if_pos (by simpa using hquote)] at h
    cases h
    refine .inl ⟨rfl, hquote, ?_⟩
    rw [literalEnd?, getElem?_bytes_ascii hc, Text.size_concat_ascii hc]
    dsimp only
    rw [Text.ofUInt8_toUInt8 hc, if_pos hquote]
    rfl
  · rw [if_neg (by simpa using hquote)] at h
    split at h
    · next hurl =>
      cases h
      obtain ⟨-, u, r, l, rest, heq, hu, hr, hl⟩ := opensUrl_iff.1 hurl
      obtain ⟨rfl, rfl⟩ := List.cons.inj heq
      have hc := ascii_of_toLower hu (by decide)
      have hsize : size (d ++ [c, r, l, '(']) = size d + 4 := by
        simp [Text.utf8Size_ascii hc, Text.utf8Size_ascii (ascii_of_toLower hr (by decide)),
          Text.utf8Size_ascii (ascii_of_toLower hl (by decide)), Text.utf8Size_ascii]
      refine .inr ⟨rfl, r, l, rest, rfl, ?_⟩
      rw [literalEnd?, getElem?_bytes_ascii hc, hsize]
      dsimp only
      rw [Text.ofUInt8_toUInt8 hc, if_neg hquote, isUrlOpen_eq, if_pos hurl]
      rfl
    · cases h

/-- **A literal that opens and closes** is found from its first character to its last. -/
theorem literalEnd?_of_closes {d l t : List Char} {c : Char} {region : Region}
    (hopen : opensAs? d.getLast? (c :: (l ++ t)) = some region) (hl : Closes region l) :
    literalEnd? (bytes (d ++ c :: (l ++ t))) (size d) = some (size (d ++ c :: l)) := by
  rcases literalEnd?_of_opensAs? hopen with ⟨-, hwithin, hend⟩ | ⟨rfl, r, x, rest, hrest, hend⟩
  · have hclose := endFrom_of_closes hl hwithin (d ++ [c]) t
    rw [List.append_assoc, List.append_assoc] at hclose
    exact hend.trans (congrArg some hclose)
  · obtain ⟨r', l₂, rfl, hl₂⟩ : ∃ c l', l = c :: l' ∧ Closes (.opening 2) l' :=
      hl.onward (fun _ => rfl) Region.noConfusion
    obtain ⟨x', l₁, rfl, hl₁⟩ : ∃ c l', l₂ = c :: l' ∧ Closes (.opening 1) l' :=
      hl₂.onward (fun _ => rfl) Region.noConfusion
    obtain ⟨b, l₀, rfl, hl₀⟩ : ∃ c l', l₁ = c :: l' ∧ Closes (.argument .plain) l' :=
      hl₁.onward (fun _ => rfl) Region.noConfusion
    simp only [List.cons_append, List.cons.injEq] at hrest
    obtain ⟨rfl, rfl, rfl, rfl⟩ := hrest
    have hclose := endFrom_of_closes hl₀ trivial (d ++ [c, r', x', '(']) t
    rw [List.append_assoc, List.append_assoc] at hclose
    exact hend.trans (congrArg some hclose)

/-- A literal that opens and does not close is found up to the end of the text. -/
theorem literalEnd?_of_unclosed {d l : List Char} {c : Char} {region : Region}
    (hopen : opensAs? d.getLast? (c :: l) = some region) (hl : Unclosed region l) :
    literalEnd? (bytes (d ++ c :: l)) (size d) = some (size (d ++ c :: l)) := by
  rcases literalEnd?_of_opensAs? hopen with ⟨-, hwithin, hend⟩ | ⟨rfl, r, x, rest, rfl, hend⟩
  · have hclose := endFrom_of_unclosed hl hwithin (d ++ [c])
    rw [List.append_assoc, List.singleton_append] at hclose
    rw [hend, hclose]
  · obtain - | ⟨-, - | ⟨-, - | ⟨-, hl₀⟩⟩⟩ := hl
    have hclose := endFrom_of_unclosed hl₀ trivial (d ++ [c, r, x, '('])
    rw [List.append_assoc] at hclose
    exact hend.trans (congrArg some hclose)

end opening

/-! ## Percentages -/

section percentages

variable {s : List Char} {start i : Nat}

/-- Where no literal opens, the stretch of plain text goes on. -/
theorem percentagesFrom?_of_none (hi : i < size s) (h : literalEnd? (bytes s) i = none) :
    percentagesFrom? s start i = percentagesFrom? s start (i + 1) := by
  rw [percentagesFrom?, if_pos hi]
  split
  · rfl
  · next stop hstop => cases h.symm.trans hstop

/-- Where one opens, the stretch in front is turned, the literal is kept, and a new stretch begins
behind it. -/
theorem percentagesFrom?_of_some {stop : Nat} (hi : i < size s)
    (h : literalEnd? (bytes s) i = some stop) : percentagesFrom? s start i =
      (slice? s start i).bind fun plain => (slice? s i stop).bind fun literal =>
        (percentagesFrom? s stop stop).bind fun rest =>
          some (percentPlain plain ++ literal ++ rest) := by
  rw [percentagesFrom?, if_pos hi]
  split
  · next hnone => cases h.symm.trans hnone
  · next stop' hstop =>
    obtain rfl := Option.some.inj (h.symm.trans hstop)
    rfl

/-- At the end of the text the last stretch is turned. -/
theorem percentagesFrom?_of_le (hi : size s ≤ i) :
    percentagesFrom? s start i = (sliceFrom? s start).map percentPlain := by
  rw [percentagesFrom?, if_neg (Nat.not_lt.2 hi)]

/-- A character with which no literal opens is passed. -/
theorem percentagesFrom?_char {d t : List Char} {c : Char}
    (h : opensAs? d.getLast? (c :: t) = none) : percentagesFrom? (d ++ c :: t) start (size d) =
      percentagesFrom? (d ++ c :: t) start (size (d ++ [c])) := by
  have hlt : size d < size (d ++ c :: t) := by
    have hpos := c.utf8Size_pos
    rw [Text.size_append, Text.size_cons]
    omega
  by_cases hc : c.toNat < 128
  · rw [Text.size_concat_ascii hc]
    exact percentagesFrom?_of_none hlt (literalEnd?_eq_none h hc)
  · refine Text.eq_behind_high (f := percentagesFrom? (d ++ c :: t) start) (t := t) hc ?_
      (Nat.zero_le _)
    intro i b hb hhigh
    exact percentagesFrom?_of_none (List.getElem?_eq_some_iff.1 hb).1 (literalEnd?_high hb hhigh)

/-- Whether a literal opens depends on whether the character in front goes on a name. -/
theorem opensAs?_congr {previous previous' : Option Char}
    (h : previous.any continuesName = previous'.any continuesName) (s : List Char) :
    opensAs? previous s = opensAs? previous' s := by
  cases s with
  | nil => rfl
  | cons c s => rw [opensAs?, opensAs?, opensUrl_congr h]

/-- Bare text is passed up to where a literal opens, or up to the end. -/
theorem percentagesFrom?_bare {previous : Option Char} {p : List Char} (hp : Bare previous p)
    {d t : List Char} (hd : d.getLast?.any continuesName = previous.any continuesName)
    (ht : t = [] ∨ ∃ previous region, opensAs? previous t = some region) :
    percentagesFrom? (d ++ (p ++ t)) start (size d) =
      percentagesFrom? (d ++ (p ++ t)) start (size (d ++ p)) := by
  induction p generalizing previous d with
  | nil => rw [List.append_nil]
  | cons c p ih =>
    obtain ⟨hopen, hp⟩ := hp
    have hsame : opensAs? d.getLast? (c :: (p ++ t)) = none := by
      rw [opensAs?_congr hd]
      rcases ht with rfl | ⟨previous', region, ht⟩
      · rwa [List.append_nil]
      · rw [← List.cons_append, opensAs?_append (List.cons_ne_nil c p) ht, hopen]
    have hrest := ih (d := d ++ [c]) hp (by simp)
    rw [List.append_assoc, List.append_assoc, List.singleton_append, List.singleton_append] at hrest
    rw [List.cons_append, percentagesFrom?_char hsame, hrest]

/-- A text behind which a literal may open at once. -/
def AtNameStart (d : List Char) : Prop := d.getLast?.any continuesName = false

/-- Behind a text where a name may start, only what follows it goes on one. -/
theorem AtNameStart.any_append {d : List Char} (hd : AtNameStart d) (p : List Char) :
    (d ++ p).getLast?.any continuesName = p.getLast?.any continuesName := by
  rcases List.eq_nil_or_concat' p with rfl | ⟨front, c, rfl⟩
  · rwa [List.append_nil]
  · rw [← List.append_assoc, List.getLast?_concat, List.getLast?_concat]

/-- A region in which a literal may close, or which leads to one. -/
def Region.Inside (region : Region) : Prop := region.Within ∨ ∃ left, region = .opening left

/-- What a literal opens with is inside it. -/
theorem inside_of_opensAs? {previous : Option Char} {s : List Char} {region : Region}
    (h : opensAs? previous s = some region) : region.Inside := by
  unfold opensAs? at h
  split at h
  · cases h
  · split at h
    · next hquote =>
      cases h
      simp only [Bool.or_eq_true, decide_eq_true_eq] at hquote
      exact .inl hquote
    · split at h
      · cases h
        exact .inr ⟨3, rfl⟩
      · cases h

/-- One stays inside up to the end. -/
theorem Region.Inside.next {region : Region} (h : region.Inside) {c : Char}
    (hc : region.next c ≠ .plain) : (region.next c).Inside := by
  rcases h with h | ⟨left, rfl⟩
  · exact .inl (h.next hc)
  · rw [Region.next]
    split
    · exact .inl trivial
    · exact .inr ⟨_, rfl⟩

/-- A literal closes with a quote or a bracket, behind which a name does not go on. -/
theorem Region.Inside.continuesName_eq_false {region : Region} (h : region.Inside) {c : Char}
    (hc : region.next c = .plain) : continuesName c = false := by
  have hmark : c = '"' ∨ c = '\'' ∨ c = ')' → continuesName c = false := by
    rintro (rfl | rfl | rfl) <;> decide
  rcases h with h | ⟨left, rfl⟩
  · cases region with
    | plain => exact absurd h id
    | opening left => exact absurd h id
    | string quoting =>
      obtain ⟨q, hq, rfl | rfl⟩ := Region.within_string_iff.1 h
      · rw [Region.next_string] at hc
        split at hc
        · next hplain =>
          rw [Quoting.next] at hplain
          split_ifs at hplain with hbackslash hclose
          subst hclose
          exact hmark (hq.imp_right .inl)
        · cases hc
      · cases hc
    | argument quoting =>
      rw [Region.next] at hc
      split at hc
      · next hclose => exact hmark (.inr (.inr hclose.2))
      · cases hc
  · rw [Region.next] at hc
    split at hc <;> cases hc

/-- Behind a literal a name may start. -/
theorem Closes.atNameStart {region : Region} {l : List Char} (hl : Closes region l) :
    region.Inside → ∀ d, AtNameStart (d ++ l) := by
  induction hl with
  | @last region c hc =>
    intro h d
    rw [AtNameStart, List.getLast?_concat, Option.any_some]
    exact h.continuesName_eq_false hc
  | @more region c l hc hs ih =>
    intro h d
    have hrest := ih (h.next hc) (d ++ [c])
    rwa [List.append_assoc, List.singleton_append] at hrest

/-- Bare text and the literal behind it are read, and then what is left. -/
theorem percentagesFrom?_part {d p l t : List Char} {region : Region} (hp : Bare none p)
    (hd : AtNameStart d) (hopen : opensAs? p.getLast? (l ++ t) = some region) (hne : l ≠ [])
    (hstop : literalEnd? (bytes (d ++ p ++ (l ++ t))) (size (d ++ p)) = some (size (d ++ p ++ l))) :
    percentagesFrom? (d ++ p ++ (l ++ t)) (size d) (size d) =
      (percentagesFrom? (d ++ p ++ (l ++ t)) (size (d ++ p ++ l)) (size (d ++ p ++ l))).map
        (percentPlain p ++ l ++ ·) := by
  have hpos : 0 < size l := Nat.pos_of_ne_zero (mt Text.size_eq_zero.1 hne)
  have hlt : size (d ++ p) < size (d ++ p ++ (l ++ t)) := by
    rw [Text.size_append (d ++ p), Text.size_append l]
    omega
  have hbare : percentagesFrom? _ (size d) (size d) = _ :=
    percentagesFrom?_bare hp hd (.inr ⟨_, _, hopen⟩)
  have hplain := Text.slice?_append d p (l ++ t)
  rw [← List.append_assoc] at hbare hplain
  rw [hbare, percentagesFrom?_of_some hlt hstop, hplain, Option.bind_some, Text.slice?_append,
    Option.bind_some, Option.map_eq_bind]
  rfl

/-- **The text is that of the segments.**  By induction on the scan; in front of what is left stands
a literal, or nothing. -/
theorem percentagesFrom?_scan {s : List Char} {segs : List Segment} (hs : Scan s segs)
    {d : List Char} (hd : AtNameStart d) : percentagesFrom? (d ++ s) (size d) (size d) =
      some (segs.flatMap Segment.withPercentages) := by
  induction hs generalizing d with
  | @plain p hp =>
    have hbare : percentagesFrom? (d ++ (p ++ [])) (size d) (size d) = _ :=
      percentagesFrom?_bare hp hd (.inl rfl)
    rw [List.append_nil] at hbare
    rw [hbare, percentagesFrom?_of_le (Nat.le_refl _), Text.sliceFrom?_append]
    simp [Segment.withPercentages]
  | @unclosed p l c region hp hopen hl =>
    have hopen' : opensAs? (d ++ p).getLast? (c :: l) = some region := by
      rwa [opensAs?_congr (hd.any_append p)]
    have hstop := literalEnd?_of_unclosed hopen' hl
    have hend := Text.sliceFrom?_append (d ++ p ++ c :: l) []
    have hpart := percentagesFrom?_part (l := c :: l) (t := []) hp hd
      (by rwa [List.append_nil]) (List.cons_ne_nil c l) (by rwa [List.append_nil])
    rw [List.append_nil] at hpart hend
    rw [← List.append_assoc, hpart, percentagesFrom?_of_le (Nat.le_refl _), hend]
    simp [Segment.withPercentages, percentPlain, percentFrom]
  | @closed p l t c region segs hp hopen hl _ ih =>
    have hopened : opensAs? p.getLast? (c :: (l ++ t)) = some region :=
      (opensAs?_of_closes hl).2 hopen
    have hopen' : opensAs? (d ++ p).getLast? (c :: (l ++ t)) = some region := by
      rwa [opensAs?_congr (hd.any_append p)]
    have hstop := literalEnd?_of_closes hopen' hl
    have hends := hl.atNameStart (inside_of_opensAs? hopen) (d ++ p ++ [c])
    rw [List.append_assoc, List.singleton_append] at hends
    have hrest := ih hends
    rw [List.append_assoc, List.cons_append] at hrest
    rw [← List.append_assoc, ← List.cons_append,
      percentagesFrom?_part hp hd hopened (List.cons_ne_nil c l) hstop, List.cons_append, hrest]
    simp [Segment.withPercentages]

/-- **Turning a text in place is turning it segment by segment.** -/
theorem percentagesFrom?_eq (s : List Char) : percentagesFrom? s 0 0 = some (percentChars s) := by
  obtain ⟨segs, hscan⟩ := exists_scan s
  have htext := percentagesFrom?_scan hscan (d := []) rfl
  rw [hscan.eq_segments] at htext
  exact htext

end percentages

end Pane.Style
