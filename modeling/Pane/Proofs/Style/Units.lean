import Pane.Style.ViewportUnits

/-!
# The units of plain text

A stretch of plain text is copied character by character.  Where a number may start, it is looked
ahead whether one with a unit does; if so, as many characters as it has are copied without a further
look, and the unit behind them is turned.  That can be said without any looking ahead: whether a
unit is turned depends on what stands in front of it.

**Numbers.**  `IsNumber` — the numbers that a unit may stand behind.  **`number?_eq_some_iff`**:
that is what is read, as far as it goes.

**Units.**  `Turns` — a stretch of plain text with its units turned: exactly those that a number
stands in front of which starts where no word goes on, each directly behind the last digit or the
dot of this number.  `Copying.Knows` — what is known where a stretch is being copied.
**`turns_percentPlain`**: that is what becomes of plain text.
-/

namespace Pane.Style

/-! ## Numbers -/

/-- A number without a sign: digits with a dot behind, between or in front of them, or without
one. -/
def IsUnsigned (n : List Char) : Prop :=
  ∃ whole places : List Char, (∀ c ∈ whole, Text.isDigit c = true) ∧
    (∀ c ∈ places, Text.isDigit c = true) ∧
    (n = whole ∧ whole ≠ [] ∨ n = whole ++ '.' :: places ∧ (whole ≠ [] ∨ places ≠ []))

/-- A number, with or without a sign. -/
def IsNumber (n : List Char) : Prop := IsUnsigned n ∨ ∃ m, n = '-' :: m ∧ IsUnsigned m

/-- Whether a number can be read no further than up to a rest of the text. -/
def Stops (n rest : List Char) : Prop :=
  ∀ c ∈ rest.head?, Text.isDigit c = false ∧ (c = '.' → '.' ∈ n)

theorem isDigit_dot : Text.isDigit '.' = false := by decide

theorem isDigit_hyphen : Text.isDigit '-' = false := by decide

/-- What is no digit is not among digits. -/
theorem not_mem_of_digits {c : Char} {s : List Char} (hs : ∀ d ∈ s, Text.isDigit d = true)
    (hc : Text.isDigit c = false) : c ∉ s := by
  intro hmem
  rw [hs c hmem] at hc
  cases hc

/-- What is read off a run of digits with something else behind it. -/
theorem takeWhile_digits {digits rest : List Char} (h : ∀ c ∈ digits, Text.isDigit c = true)
    (hrest : ∀ c ∈ rest.head?, Text.isDigit c = false) :
    (digits ++ rest).takeWhile Text.isDigit = digits ∧
      (digits ++ rest).dropWhile Text.isDigit = rest := by
  rw [List.takeWhile_append_of_pos h, List.dropWhile_append_of_pos h]
  cases rest with
  | nil => simp
  | cons c rest =>
    have hc := hrest c rfl
    simp [hc]

/-- A number without a sign is read up to where it stops. -/
theorem unsigned?_append {n rest : List Char} (hn : IsUnsigned n) (hstop : Stops n rest) :
    unsigned? (n ++ rest) = some (n, rest) := by
  obtain ⟨whole, places, hwhole, hplaces, ⟨rfl, hne⟩ | ⟨rfl, hne⟩⟩ := hn
  · obtain ⟨htake, hdrop⟩ := takeWhile_digits hwhole fun c hc => (hstop c hc).1
    rw [unsigned?, htake, hdrop]
    split
    · next tail =>
      have hdot := (hstop '.' rfl).2 rfl
      exact absurd hdot (not_mem_of_digits hwhole isDigit_dot)
    · simp [hne]
  · have hdot : ∀ c ∈ ('.' :: (places ++ rest)).head?, Text.isDigit c = false := by
      intro c hc
      obtain rfl : '.' = c := Option.some.inj hc
      exact isDigit_dot
    obtain ⟨htake, hdrop⟩ := takeWhile_digits hwhole hdot
    obtain ⟨htake', hdrop'⟩ := takeWhile_digits hplaces fun c hc => (hstop c hc).1
    rw [List.append_assoc, List.cons_append, unsigned?, htake, hdrop]
    simp only [htake', hdrop']
    rw [if_neg]
    rintro ⟨rfl, rfl⟩
    simp at hne

/-- What is read as one is one, and stops there. -/
theorem of_unsigned?_eq_some {s n rest : List Char} (h : unsigned? s = some (n, rest)) :
    s = n ++ rest ∧ IsUnsigned n ∧ Stops n rest := by
  have hall : ∀ s : List Char, ∀ c ∈ s.takeWhile Text.isDigit, Text.isDigit c = true :=
    fun _ => List.all_eq_true.1 List.all_takeWhile
  have hstop : ∀ s : List Char, ∀ c ∈ (s.dropWhile Text.isDigit).head?, Text.isDigit c = false := by
    intro s c hc
    cases hd : s.dropWhile Text.isDigit with
    | nil => simp [hd] at hc
    | cons d ds =>
      obtain rfl : d = c := by simpa [hd] using hc
      exact Text.of_dropWhile_eq_cons hd
  have hsplit := List.takeWhile_append_dropWhile (p := Text.isDigit) (l := s)
  rw [unsigned?] at h
  split at h
  · next tail htail =>
    dsimp only at h
    split at h
    · cases h
    · next hne =>
      obtain ⟨rfl, rfl⟩ := Prod.mk.inj (Option.some.inj h)
      refine ⟨?_, ⟨_, _, hall s, hall tail, .inr ⟨rfl, ?_⟩⟩, fun c hc => ⟨hstop tail c hc, ?_⟩⟩
      · rw [List.append_assoc, List.cons_append, List.takeWhile_append_dropWhile, ← htail, hsplit]
      · exact Classical.not_and_iff_not_or_not.1 hne
      · exact fun _ => List.mem_append_right _ (List.mem_cons_self ..)
  · next hdot =>
    split at h
    · cases h
    · next hne =>
      obtain ⟨rfl, rfl⟩ := Prod.mk.inj (Option.some.inj h)
      refine ⟨hsplit.symm, ⟨_, [], hall s, by simp, .inl ⟨rfl, hne⟩⟩,
        fun c hc => ⟨hstop s c hc, ?_⟩⟩
      rintro rfl
      cases hd : s.dropWhile Text.isDigit with
      | nil => simp [hd] at hc
      | cons d ds =>
        obtain rfl : d = '.' := by simpa [hd] using hc
        exact absurd hd (hdot ds)

theorem hyphen_not_mem_of_isUnsigned {n : List Char} (h : IsUnsigned n) : '-' ∉ n := by
  obtain ⟨whole, places, hwhole, hplaces, ⟨rfl, -⟩ | ⟨rfl, -⟩⟩ := h
  · exact not_mem_of_digits hwhole isDigit_hyphen
  · simp [not_mem_of_digits hwhole isDigit_hyphen, not_mem_of_digits hplaces isDigit_hyphen]

theorem stops_hyphen {m rest : List Char} : Stops ('-' :: m) rest ↔ Stops m rest := by
  simp [Stops]

/-- Without a hyphen in front there is no sign. -/
theorem number?_of_ne_hyphen {s : List Char} (h : s.head? ≠ some '-') :
    number? s = unsigned? s := by
  rw [number?]
  rintro t rfl
  exact h rfl

/-- **A number is read as far as it goes.** -/
theorem number?_eq_some_iff {s n rest : List Char} :
    number? s = some (n, rest) ↔ s = n ++ rest ∧ IsNumber n ∧ Stops n rest := by
  constructor
  · intro h
    unfold number? at h
    split at h
    · next t =>
      obtain ⟨⟨m, rest'⟩, hm, heq⟩ := Option.map_eq_some_iff.1 h
      obtain ⟨rfl, rfl⟩ := Prod.mk.inj heq
      obtain ⟨rfl, hm, hstop⟩ := of_unsigned?_eq_some hm
      exact ⟨rfl, .inr ⟨m, rfl, hm⟩, stops_hyphen.2 hstop⟩
    · obtain ⟨hs, hn, hstop⟩ := of_unsigned?_eq_some h
      exact ⟨hs, .inl hn, hstop⟩
  · rintro ⟨rfl, hn | ⟨m, rfl, hm⟩, hstop⟩
    · have hne : n ≠ [] := by
        rintro rfl
        obtain ⟨whole, places, -, -, ⟨hnil, hne⟩ | ⟨hnil, -⟩⟩ := hn
        · exact hne hnil.symm
        · simp at hnil
      obtain ⟨c, n, rfl⟩ := List.exists_cons_of_ne_nil hne
      rw [number?_of_ne_hyphen, unsigned?_append hn hstop]
      rintro hc
      obtain rfl : c = '-' := Option.some.inj hc
      exact hyphen_not_mem_of_isUnsigned hn (List.mem_cons_self ..)
    · rw [List.cons_append, number?, unsigned?_append hm (stops_hyphen.1 hstop)]
      rfl

/-- The characters of numbers. -/
def isNumberChar (c : Char) : Bool := Text.isDigit c || c = '.' || c = '-'

/-- A number is made of digits, a point and a hyphen. -/
theorem isNumberChar_of_mem {n : List Char} (h : IsNumber n) {c : Char} (hc : c ∈ n) :
    isNumberChar c = true := by
  have hunsigned : ∀ m, IsUnsigned m → c ∈ m → isNumberChar c = true := by
    rintro m ⟨whole, places, hwhole, hplaces, ⟨rfl, -⟩ | ⟨rfl, -⟩⟩ hmem
    · simp [isNumberChar, hwhole c hmem]
    · rcases List.mem_append.1 hmem with hmem | hmem
      · simp [isNumberChar, hwhole c hmem]
      · rcases List.mem_cons.1 hmem with rfl | hmem
        · rfl
        · simp [isNumberChar, hplaces c hmem]
  rcases h with h | ⟨m, rfl, hm⟩
  · exact hunsigned n h hc
  · rcases List.mem_cons.1 hc with rfl | hc
    · rfl
    · exact hunsigned m hm hc

/-- A number ends in a digit or in its dot. -/
theorem last_of_isNumber {n : List Char} (h : IsNumber n) :
    ∃ front c, n = front ++ [c] ∧ (Text.isDigit c = true ∨ c = '.') := by
  have hdigits : ∀ s : List Char, s ≠ [] → (∀ c ∈ s, Text.isDigit c = true) →
      ∃ front c, s = front ++ [c] ∧ (Text.isDigit c = true ∨ c = '.') := by
    intro s hne hs
    refine ⟨s.dropLast, s.getLast hne, (List.dropLast_concat_getLast hne).symm, .inl ?_⟩
    exact hs _ (List.getLast_mem hne)
  have hunsigned : ∀ m, IsUnsigned m →
      ∃ front c, m = front ++ [c] ∧ (Text.isDigit c = true ∨ c = '.') := by
    rintro m ⟨whole, places, hwhole, hplaces, ⟨rfl, hne⟩ | ⟨rfl, -⟩⟩
    · exact hdigits _ hne hwhole
    · by_cases hne : places = []
      · exact ⟨whole, '.', by rw [hne], .inr rfl⟩
      · obtain ⟨front, c, hplaces, hc⟩ := hdigits places hne hplaces
        exact ⟨whole ++ '.' :: front, c, by simp [hplaces], hc⟩
  rcases h with h | ⟨m, rfl, hm⟩
  · exact hunsigned n h
  · obtain ⟨front, c, rfl, hc⟩ := hunsigned m hm
    exact ⟨'-' :: front, c, rfl, hc⟩

/-! ## Units -/

/-- What a unit is, and that no word goes on behind it. -/
theorem startsWithUnit_iff {s : List Char} : startsWithUnit s = true ↔
    ∃ d rest, s = 'v' :: d :: rest ∧ (d = 'w' ∨ d = 'h') ∧ rest.head?.any Text.isWord = false := by
  constructor
  · intro h
    unfold startsWithUnit at h
    split at h
    · next d rest =>
      exact ⟨d, rest, rfl, by simpa using h⟩
    · cases h
  · rintro ⟨d, rest, rfl, hd, hrest⟩
    simp [startsWithUnit, hd, hrest]

/-- A number with a unit is read exactly if one stands in front. -/
theorem numberWithUnit?_eq_some_iff {s n : List Char} :
    numberWithUnit? s = some n ↔
      ∃ rest, s = n ++ rest ∧ IsNumber n ∧ startsWithUnit rest = true := by
  constructor
  · intro h
    rw [numberWithUnit?] at h
    split at h
    · next m rest hm =>
      split at h
      · next hunit =>
        obtain rfl : m = n := Option.some.inj h
        obtain ⟨hs, hn, -⟩ := number?_eq_some_iff.1 hm
        exact ⟨rest, hs, hn, hunit⟩
      · cases h
    · cases h
  · rintro ⟨rest, rfl, hn, hunit⟩
    have hstop : Stops n rest := by
      obtain ⟨d, rest, rfl, -⟩ := startsWithUnit_iff.1 hunit
      intro c hc
      obtain rfl : 'v' = c := Option.some.inj hc
      exact ⟨by decide, fun he => absurd he (by decide)⟩
    simp [numberWithUnit?, number?_eq_some_iff.2 ⟨rfl, hn, hstop⟩, hunit]

/-- Whether a number may start behind a text: at the start of a stretch, or behind a character that
is neither part of a word nor a dot nor a hyphen. -/
def Free (front : List Char) : Prop := ∀ c ∈ front.getLast?, separatesNumbers c = true

/-- Whether a text ends in a number that starts where one may. -/
def EndsInNumber (before : List Char) : Prop :=
  ∃ front n, before = front ++ n ∧ Free front ∧ IsNumber n

/-- A stretch of plain text, of which some is read before, with its units turned.  A unit is turned
exactly if it ends its word and a number stands in front of it; the unit is then directly behind a
digit or a dot.  All else is kept. -/
inductive Turns : List Char → List Char → List Char → Prop where
  | nil (before : List Char) : Turns before [] []
  | keep {before s t : List Char} {c : Char}
      (hkeep : ¬(EndsInNumber before ∧ startsWithUnit (c :: s) = true))
      (hrest : Turns (before ++ [c]) s t) : Turns before (c :: s) (c :: t)
  | turn {before s t : List Char} {c d : Char} (hnumber : EndsInNumber (before ++ [c]))
      (hc : Text.isDigit c = true ∨ c = '.') (hd : d = 'w' ∨ d = 'h')
      (hword : s.head?.any Text.isWord = false) (hrest : Turns (before ++ [c, 'v', d]) s t) :
      Turns (before ++ [c]) ('v' :: d :: s) ('%' :: t)

/-- What is known where a stretch is being copied.  In ordinary text it is known whether a number
may start, and that none of the numbers which started before has a unit ahead; in a number, where it
started and how it goes on up to its unit. -/
def Copying.Knows (before : List Char) : Copying → List Char → Prop
  | .text mayStart, s =>
    (mayStart = true ↔ Free before) ∧
      ∀ front n, before = front ++ n → n ≠ [] → (∀ c ∈ n, isNumberChar c = true) → Free front →
        numberWithUnit? (n ++ s) = none
  | .number left, s =>
    ∃ front n more rest, before = front ++ n ∧ s = more ++ rest ∧ more.length = left ∧
      Free front ∧ IsNumber (n ++ more) ∧ n ≠ [] ∧ startsWithUnit rest = true

/-- The letters of a unit are in no number, and separate none. -/
theorem isNumberChar_of_unit {c : Char} (h : c = 'v' ∨ c = 'w' ∨ c = 'h') :
    isNumberChar c = false ∧ separatesNumbers c = false := by
  rcases h with rfl | rfl | rfl <;> decide

/-- In ordinary text no number with a unit ahead ends. -/
theorem Copying.Knows.not_turned {before s : List Char} {mayStart : Bool}
    (h : (Copying.text mayStart).Knows before s) :
    ¬(EndsInNumber before ∧ startsWithUnit s = true) := by
  rintro ⟨⟨front, n, hbefore, hfree, hn⟩, hunit⟩
  have hne : n ≠ [] := by
    obtain ⟨n, c, rfl, -⟩ := last_of_isNumber hn
    simp
  have hnone := h.2 front n hbefore hne (fun c => isNumberChar_of_mem hn) hfree
  rw [numberWithUnit?_eq_some_iff.2 ⟨s, rfl, hn, hunit⟩] at hnone
  cases hnone

/-- Where a number with a unit begins, its characters are counted from here on. -/
theorem Copying.Knows.start {before s n : List Char} {c : Char}
    (h : (Copying.text true).Knows before (c :: s)) (hn : numberWithUnit? (c :: s) = some n) :
    (Copying.number (n.length - 1)).Knows (before ++ [c]) s := by
  obtain ⟨rest, hs, hnumber, hunit⟩ := numberWithUnit?_eq_some_iff.1 hn
  obtain ⟨m, d, rfl, -⟩ := last_of_isNumber hnumber
  obtain ⟨e, more, hm⟩ : ∃ e more, m ++ [d] = e :: more := List.exists_cons_of_ne_nil (by simp)
  rw [hm] at hs hnumber ⊢
  obtain ⟨rfl, rfl⟩ := List.cons.inj hs
  exact ⟨before, [c], more, rest, rfl, rfl, rfl, h.1.1 rfl, hnumber, by simp, hunit⟩

/-- Where none begins, text is copied. -/
theorem Copying.Knows.text {before s : List Char} {c : Char} {mayStart : Bool}
    (h : (Copying.text mayStart).Knows before (c :: s))
    (hnone : mayStart = true → numberWithUnit? (c :: s) = none) :
    (Copying.text (separatesNumbers c)).Knows (before ++ [c]) s := by
  refine ⟨by simp [Free], fun front n hbefore hne hn hfree => ?_⟩
  obtain ⟨n, d, rfl⟩ : ∃ n' d, n = n' ++ [d] :=
    ⟨_, _, (List.dropLast_concat_getLast hne).symm⟩
  rw [← List.append_assoc] at hbefore
  obtain ⟨hbefore', hd⟩ := List.append_inj' hbefore rfl
  obtain rfl : c = d := (List.cons.inj hd).1
  rw [List.append_assoc, List.singleton_append]
  by_cases hnil : n = []
  · rw [hnil, List.append_nil] at hbefore'
    rw [hnil]
    exact hnone (h.1.2 (hbefore' ▸ hfree))
  · exact h.2 front n hbefore' hnil (fun c hc => hn c (List.mem_append_left _ hc)) hfree

/-- Within the number one character less is left. -/
theorem Copying.Knows.number {before s : List Char} {c : Char} {left : Nat}
    (h : (Copying.number (left + 1)).Knows before (c :: s)) :
    isNumberChar c = true ∧ (Copying.number left).Knows (before ++ [c]) s := by
  obtain ⟨front, n, more, rest, rfl, hs, hlength, hfree, hn, hne, hunit⟩ := h
  cases more with
  | nil => cases hlength
  | cons e more =>
    obtain ⟨rfl, rfl⟩ := List.cons.inj hs
    refine ⟨isNumberChar_of_mem hn (by simp), front, n ++ [c], more, rest, by simp, rfl, ?_, hfree,
      by simpa using hn, by simp, hunit⟩
    simpa using hlength

/-- Behind the number stands the unit. -/
theorem Copying.Knows.unit {before s : List Char} (h : (Copying.number 0).Knows before s) :
    EndsInNumber before ∧ ∃ d rest, s = 'v' :: d :: rest ∧ (d = 'w' ∨ d = 'h') ∧
      rest.head?.any Text.isWord = false ∧
        (Copying.text false).Knows (before ++ ['v', d]) rest := by
  obtain ⟨front, n, more, rest, rfl, rfl, hlength, hfree, hn, hne, hunit⟩ := h
  obtain rfl : more = [] := List.length_eq_zero_iff.1 hlength
  obtain ⟨d, rest, rfl, hd, hword⟩ := startsWithUnit_iff.1 hunit
  rw [List.append_nil] at hn
  obtain ⟨hchar, hseparates⟩ := isNumberChar_of_unit (.inr hd)
  refine ⟨⟨front, n, rfl, hfree, hn⟩, d, rest, rfl, hd, hword, by simp [Free, hseparates], ?_⟩
  intro front' n' hbefore hne' hn' _
  -- what ends in a unit does not end in a character of a number
  obtain ⟨m, e, rfl⟩ : ∃ m e, n' = m ++ [e] := ⟨_, _, (List.dropLast_concat_getLast hne').symm⟩
  have hlast := congrArg List.getLast? hbefore
  simp only [← List.append_assoc, List.getLast?_concat] at hlast
  have hde : d = e := by simpa using hlast
  have he := hn' e (by simp)
  rw [← hde, hchar] at he
  cases he

/-- **What is copied has its units turned.** -/
theorem turns_percentFrom : ∀ (state : Copying) (before s : List Char), state.Knows before s →
    Turns before s (percentFrom state s)
  | .text mayStart, before, [], _ => .nil before
  | .text mayStart, before, c :: s, h => by
      rw [percentFrom]
      split
      · next n hn =>
        obtain ⟨rfl, hn⟩ : mayStart = true ∧ numberWithUnit? (c :: s) = some n := by
          cases mayStart <;> simp_all
        exact .keep h.not_turned (turns_percentFrom _ _ s (h.start hn))
      · next hn =>
        exact .keep h.not_turned
          (turns_percentFrom _ _ s (h.text fun hstart => by simpa [hstart] using hn))
  | .number (left + 1), before, [], h => .nil before
  | .number (left + 1), before, c :: s, h => by
      obtain ⟨hc, hnext⟩ := h.number
      refine .keep (fun hturn => ?_) (turns_percentFrom _ _ s hnext)
      obtain ⟨d, rest, hs, -⟩ := startsWithUnit_iff.1 hturn.2
      rw [(List.cons.inj hs).1, (isNumberChar_of_unit (.inl rfl)).1] at hc
      cases hc
  | .number 0, before, [], h => .nil before
  | .number 0, before, [c], h => by
      obtain ⟨-, d, rest, hs, -⟩ := h.unit
      cases hs
  | .number 0, before, c :: d :: s, h => by
      obtain ⟨hnumber, d', rest, hs, hd, hword, hnext⟩ := h.unit
      obtain ⟨rfl, htail⟩ := List.cons.inj hs
      obtain ⟨rfl, rfl⟩ := List.cons.inj htail
      obtain ⟨front, n, rfl, hfree, hn⟩ := id hnumber
      obtain ⟨m, e, rfl, he⟩ := last_of_isNumber hn
      rw [← List.append_assoc] at hnumber hnext ⊢
      rw [List.append_assoc _ [e]] at hnext
      exact .turn hnumber he hd hword (turns_percentFrom _ _ s hnext)

/-- **Plain text has its units turned.** -/
theorem turns_percentPlain (s : List Char) : Turns [] s (percentPlain s) := by
  refine turns_percentFrom _ _ s ⟨by simp [Free], fun front n hbefore hne _ _ => ?_⟩
  exact absurd (List.append_eq_nil_iff.1 hbefore.symm).2 hne

end Pane.Style
