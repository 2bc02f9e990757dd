import Pane.Proofs.Number.Doubles
import Pane.Proofs.Style.ReadBack

/-!
# How a minimum width is spelled

A minimum-width query may be written in any letter case, with more or fewer spaces, with or without
a media type.  The ways to write it make up a language, which is put together here from keywords and
spaces just as a query is put together, and without the reader.  A prelude is a query exactly if the
reader finds a width in it.

**Languages.**  `spellings`, `spaces`, `gap` — keywords and the spaces between them.  `mediaTypes`,
`features`, `minWidthQueries` — the parts of a query, and the whole.

**Readers.**  `keyword?_eq_some_iff`, `keywordSpace?_eq_some_iff`, `mediaType?_eq_some`,
`amount?_eq_some`, `unit?_eq_some` — what each part is read from.
**`readMinWidth_eq_some_iff`** — the preludes that ask for a width.

**Result.**  **`whole_widths_are_exact_and_saturate`**.
-/

namespace Pane.Style

/-! ## Languages -/

/-- The spellings of a keyword, in any letter case. -/
def spellings (k : List Char) : Language Char :=
  {s | List.Forall₂ (fun x c => Text.spells x c = true) k s}

/-- Any number of spaces. -/
def spaces : Language Char := {s | ∀ c ∈ s, Text.isSpace c = true}

/-- At least one space. -/
def gap : Language Char := {s | s ∈ spaces ∧ s ≠ []}

/-- `screen and` or `all and`, perhaps with `only` in front, and the spaces behind each word. -/
def mediaTypes : Language Char :=
  (1 + spellings "only".toList * gap) *
    ((spellings "screen".toList + spellings "all".toList) * gap * (spellings "and".toList * gap))

/-- The feature `(min-width: amount)` in brackets. -/
def features (amount : List Char) (unit : Language Char) : Language Char :=
  spellings "(".toList * (spaces * spellings "min-width".toList) * (spaces * spellings ":".toList) *
    (spaces * {amount}) * unit * (spaces * {[')']})

/-- Minimum-width queries, with spaces around them. -/
def minWidthQueries (amount : List Char) (unit : Language Char) : Language Char :=
  spaces * (spellings "@media".toList * gap * ((1 + mediaTypes) * features amount unit)) * spaces

/-- An amount as a text, and the fraction that it stands for. -/
inductive IsAmount : List Char → Nat → Nat → Prop
  | whole {digits : List Char} (hne : digits ≠ []) (hdigits : ∀ c ∈ digits, c.isDigit = true) :
      IsAmount digits (Text.decimalValue digits) 1
  | decimal {digits places : List Char} (hne : digits ≠ [])
      (hdigits : ∀ c ∈ digits, c.isDigit = true) (hne' : places ≠ [])
      (hplaces : ∀ c ∈ places, c.isDigit = true) :
      IsAmount (digits ++ '.' :: places) (Text.decimalValue (digits ++ places))
        (10 ^ places.length)

/-- The units of a width, each with its pixels. -/
inductive WidthUnit : Language Char → Nat → Prop
  | px : WidthUnit (spellings "px".toList) 1
  | em : WidthUnit (spellings "em".toList) 16
  | rem : WidthUnit (spellings "rem".toList) 16

/-! ## Keywords and spaces -/

section keywords

variable {k s t w : List Char}

/-- A keyword is read exactly if one of its spellings stands in front. -/
theorem keyword?_eq_some_iff : Text.keyword? k s = some t ↔ ∃ w ∈ spellings k, w ++ t = s := by
  induction k generalizing s with
  | nil =>
    rw [Text.keyword?]
    constructor
    · rintro h
      exact ⟨[], List.Forall₂.nil, Option.some.inj h.symm⟩
    · rintro ⟨w, hw, rfl⟩
      obtain rfl := List.forall₂_nil_left_iff.1 hw
      rfl
  | cons x k ih =>
    cases s with
    | nil =>
      constructor
      · intro h
        cases h
      · rintro ⟨w, hw, hs⟩
        obtain ⟨d, w', -, -, rfl⟩ := List.forall₂_cons_left_iff.1 hw
        cases hs
    | cons c s =>
      rw [Text.keyword?]
      constructor
      · intro h
        split at h
        · next hc =>
          obtain ⟨w, hw, rfl⟩ := ih.1 h
          exact ⟨c :: w, List.Forall₂.cons hc hw, rfl⟩
        · cases h
      · rintro ⟨w, hw, hs⟩
        obtain ⟨d, w', hd, hw', rfl⟩ := List.forall₂_cons_left_iff.1 hw
        obtain ⟨rfl, htail⟩ := List.cons.inj hs
        rw [if_pos hd]
        exact ih.2 ⟨w', hw', htail⟩

/-- What is read as a keyword, with nothing left, is a spelling of it. -/
theorem mem_spellings (h : Text.keyword? k s = some []) : s ∈ spellings k := by
  obtain ⟨w, hw, hs⟩ := keyword?_eq_some_iff.1 h
  rwa [← hs, List.append_nil]

theorem mem_spaces (h : s.all Text.isSpace = true) : s ∈ spaces := List.all_eq_true.1 h

/-- What spells a letter is no space. -/
theorem isSpace_of_spells {x c : Char} (hx : Text.isSpace x = false)
    (h : Text.spells x c = true) : Text.isSpace c = false := by
  simp only [Text.spells, Bool.or_eq_true, Bool.and_eq_true, decide_eq_true_eq] at h
  rcases h with h | ⟨-, rfl⟩
  · rw [← Text.isSpace_toLower, h, hx]
  · decide

/-- A character spells one letter only. -/
theorem eq_of_spells {x y c : Char} (hplain : x ≠ 'ſ' ∧ y ≠ 'ſ')
    (h : Text.spells x c = true) (h' : Text.spells y c = true) : x = y := by
  have hlong : ('ſ' : Char).toLower = 'ſ' := by decide
  simp only [Text.spells, Bool.or_eq_true, Bool.and_eq_true, decide_eq_true_eq] at h h'
  rcases h with h | ⟨hs, rfl⟩ <;> rcases h' with h' | ⟨hs', hc⟩
  · exact h.symm.trans h'
  · rw [hc, hlong] at h
    exact absurd h.symm hplain.1
  · rw [hlong] at h'
    exact absurd h'.symm hplain.2
  · exact hs.trans hs'.symm

/-- What starts with a keyword has no space to be trimmed. -/
theorem trimStart_spellings {x : Char} (hx : Text.isSpace x = false)
    {L : Language Char} (hw : w ∈ spellings (x :: k) * L) (t : List Char) :
    Text.trimStart (w ++ t) = w ++ t := by
  obtain ⟨a, ha, b, -, rfl⟩ := Language.mem_mul.1 hw
  obtain ⟨c, a', hc, -, rfl⟩ := List.forall₂_cons_left_iff.1 ha
  exact Text.trimStart_cons (isSpace_of_spells hx hc)

/-- Space in front is passed over. -/
theorem exists_spaces (s : List Char) : ∃ l ∈ spaces, l ++ Text.trimStart s = s := by
  obtain ⟨l, hl, hspaces⟩ := Text.exists_trimStart s
  exact ⟨l, hspaces, hl.symm⟩

theorem trimStart_trimStart (s : List Char) :
    Text.trimStart (Text.trimStart s) = Text.trimStart s := Text.dropWhile_dropWhile _ s

/-- A keyword and a gap are read exactly if they stand in front, and the gap is taken whole. -/
theorem keywordSpace?_eq_some_iff : keywordSpace? k s = some t ↔
    Text.trimStart t = t ∧ ∃ w ∈ spellings k * gap, w ++ t = s := by
  constructor
  · intro h
    rw [keywordSpace?] at h
    split at h
    · next c r hr =>
      obtain ⟨w, hw, rfl⟩ := keyword?_eq_some_iff.1 hr
      split at h
      · next hc =>
        obtain rfl := Option.some.inj h
        obtain ⟨l, hl, hr⟩ := exists_spaces r
        have hgap : c :: l ∈ gap := ⟨List.forall_mem_cons.2 ⟨hc, hl⟩, List.cons_ne_nil _ _⟩
        refine ⟨trimStart_trimStart r, _, Language.append_mem_mul hw hgap, ?_⟩
        rw [List.append_assoc, List.cons_append, hr]
      · cases h
    · cases h
  · rintro ⟨htrim, _, hmem, rfl⟩
    obtain ⟨w, hw, g, ⟨hspaces, hne⟩, rfl⟩ := Language.mem_mul.1 hmem
    obtain ⟨c, l, rfl⟩ := List.exists_cons_of_ne_nil hne
    obtain ⟨hc, hl⟩ := List.forall_mem_cons.1 hspaces
    have hkeyword : Text.keyword? k (w ++ (c :: (l ++ t))) = some (c :: (l ++ t)) :=
      keyword?_eq_some_iff.2 ⟨w, hw, rfl⟩
    rw [List.append_assoc, List.cons_append, keywordSpace?, hkeyword]
    dsimp only
    rw [if_pos hc, Text.trimStart_append hl, htrim]

/-- A keyword behind spaces. -/
theorem keyword?_trimStart_eq_some (h : Text.keyword? k (Text.trimStart s) = some t) :
    ∃ w ∈ spaces * spellings k, w ++ t = s := by
  obtain ⟨l, hl, hs⟩ := exists_spaces s
  obtain ⟨w, hw, hrest⟩ := keyword?_eq_some_iff.1 h
  exact ⟨l ++ w, Language.append_mem_mul hl hw, by rw [List.append_assoc, hrest, hs]⟩

/-- Behind space a keyword is read in any spelling. -/
theorem keyword?_trimStart_append {x : Char} (hx : Text.isSpace x = false)
    (hw : w ∈ spaces * spellings (x :: k)) (t : List Char) :
    Text.keyword? (x :: k) (Text.trimStart (w ++ t)) = some t := by
  obtain ⟨l, hl, a, ha, rfl⟩ := Language.mem_mul.1 hw
  have htrim : Text.trimStart (a ++ t) = a ++ t := by
    obtain ⟨c, a', hc, -, rfl⟩ := List.forall₂_cons_left_iff.1 ha
    exact Text.trimStart_cons (isSpace_of_spells hx hc)
  rw [List.append_assoc, Text.trimStart_append hl, htrim]
  exact keyword?_eq_some_iff.2 ⟨a, ha, rfl⟩

section others

variable {x y : Char} {j : List Char} (hplain : x ≠ 'ſ' ∧ y ≠ 'ſ') (hne : x ≠ y)
include hplain hne

/-- A keyword is not read where one with another first letter stands. -/
theorem keyword?_eq_none (hw : w ∈ spellings (x :: k)) (t : List Char) :
    Text.keyword? (y :: j) (w ++ t) = none := by
  obtain ⟨c, w', hc, -, rfl⟩ := List.forall₂_cons_left_iff.1 hw
  have hother : ¬Text.spells y c = true := fun hc' => hne (eq_of_spells hplain hc hc')
  rw [List.cons_append, Text.keyword?, if_neg hother]

/-- A keyword is not read where another one begins with another letter. -/
theorem keywordSpace?_eq_none {L : Language Char} (hw : w ∈ spellings (x :: k) * L)
    (t : List Char) : keywordSpace? (y :: j) (w ++ t) = none := by
  obtain ⟨a, ha, b, -, rfl⟩ := Language.mem_mul.1 hw
  rw [keywordSpace?, List.append_assoc, keyword?_eq_none hplain hne ha]

end others

end keywords

/-! ## Media types -/

section optional

variable {L : Language Char} {s t w : List Char}

/-- What an optional part is read from. -/
theorem exists_mem_optional (part : Option (List Char))
    (h : ∀ r, part = some r → ∃ w ∈ L, w ++ r = s) : ∃ w ∈ 1 + L, w ++ part.getD s = s := by
  cases hpart : part with
  | none => exact ⟨[], .inl rfl, rfl⟩
  | some r =>
    obtain ⟨w, hw, hs⟩ := h r hpart
    exact ⟨w, .inr hw, hs⟩

/-- An optional part is read in front of what it is not read from. -/
theorem optional_append {read : List Char → Option (List Char)} (ht : Text.trimStart t = t)
    (hnone : read t = none)
    (hread : ∀ w ∈ L, Text.trimStart (w ++ t) = w ++ t ∧ read (w ++ t) = some t)
    (hw : w ∈ 1 + L) :
    Text.trimStart (w ++ t) = w ++ t ∧ (read (w ++ t)).getD (w ++ t) = t := by
  rcases (Language.mem_add _ _ _).1 hw with rfl | hw
  · rw [List.nil_append, hnone, Option.getD_none]
    exact ⟨ht, rfl⟩
  · obtain ⟨htrim, hsome⟩ := hread w hw
    rw [hsome, Option.getD_some]
    exact ⟨htrim, rfl⟩

end optional

/-- What is read as a media type is one. -/
theorem mediaType?_eq_some {s t : List Char} (h : mediaType? s = some t) :
    ∃ w ∈ mediaTypes, w ++ t = s := by
  obtain ⟨o, ho, hs⟩ := exists_mem_optional (keywordSpace? "only".toList s)
    fun _ honly => (keywordSpace?_eq_some_iff.1 honly).2
  obtain ⟨named, hnamed⟩ : ∃ named, (keywordSpace? "only".toList s).getD s = named := ⟨_, rfl⟩
  rw [hnamed] at hs
  rw [mediaType?, hnamed] at h
  split at h
  · next r hr =>
    obtain ⟨m, hm, hrest⟩ :
        ∃ m ∈ (spellings "screen".toList + spellings "all".toList) * gap, m ++ r = named := by
      rw [add_mul]
      cases hscreen : keywordSpace? "screen".toList named with
      | none =>
        rw [hscreen] at hr
        obtain ⟨-, m, hm, hrest⟩ := keywordSpace?_eq_some_iff.1 hr
        exact ⟨m, .inr hm, hrest⟩
      | some r' =>
        rw [hscreen] at hr
        obtain ⟨-, m, hm, hrest⟩ := keywordSpace?_eq_some_iff.1 (hscreen.trans hr)
        exact ⟨m, .inl hm, hrest⟩
    obtain ⟨-, a, ha, hr⟩ := keywordSpace?_eq_some_iff.1 h
    refine ⟨_, Language.append_mem_mul ho (Language.append_mem_mul hm ha), ?_⟩
    rw [List.append_assoc, List.append_assoc, hr, hrest, hs]
  · cases h

/-- `screen` or `all` is read, and is no `only`. -/
theorem mediaName_append {m t : List Char}
    (hm : m ∈ (spellings "screen".toList + spellings "all".toList) * gap)
    (ht : Text.trimStart t = t) :
    Text.trimStart (m ++ t) = m ++ t ∧ keywordSpace? "only".toList (m ++ t) = none ∧
      (keywordSpace? "screen".toList (m ++ t) <|> keywordSpace? "all".toList (m ++ t)) =
        some t := by
  rw [add_mul] at hm
  rcases (Language.mem_add _ _ _).1 hm with hm | hm
  · have hscreen : keywordSpace? "screen".toList (m ++ t) = some t :=
      keywordSpace?_eq_some_iff.2 ⟨ht, m, hm, rfl⟩
    refine ⟨trimStart_spellings (x := 's') (k := "creen".toList) (by decide) hm _,
      keywordSpace?_eq_none (x := 's') (y := 'o') (k := "creen".toList) (j := "nly".toList)
        (by decide) (by decide) hm _, ?_⟩
    rw [hscreen]
    rfl
  · have hall : keywordSpace? "all".toList (m ++ t) = some t :=
      keywordSpace?_eq_some_iff.2 ⟨ht, m, hm, rfl⟩
    have hscreen : keywordSpace? "screen".toList (m ++ t) = none :=
      keywordSpace?_eq_none (x := 'a') (y := 's') (k := "ll".toList) (j := "creen".toList)
        (by decide) (by decide) hm _
    refine ⟨trimStart_spellings (x := 'a') (k := "ll".toList) (by decide) hm _,
      keywordSpace?_eq_none (x := 'a') (y := 'o') (k := "ll".toList) (j := "nly".toList)
        (by decide) (by decide) hm _, ?_⟩
    rw [hscreen, hall]
    rfl

/-- A media type is read in front of anything but a space. -/
theorem mediaType?_append {w t : List Char} (hw : w ∈ mediaTypes) (ht : Text.trimStart t = t) :
    Text.trimStart (w ++ t) = w ++ t ∧ mediaType? (w ++ t) = some t := by
  obtain ⟨o, ho, _, hrest, rfl⟩ := Language.mem_mul.1 hw
  obtain ⟨m, hm, a, ha, rfl⟩ := Language.mem_mul.1 hrest
  have hand : keywordSpace? "and".toList (a ++ t) = some t :=
    keywordSpace?_eq_some_iff.2 ⟨ht, a, ha, rfl⟩
  have htrim : Text.trimStart (a ++ t) = a ++ t :=
    trimStart_spellings (x := 'a') (k := "nd".toList) (by decide) ha t
  obtain ⟨hstart, hnone, hname⟩ := mediaName_append hm htrim
  have honly : ∀ o ∈ spellings "only".toList * gap,
      Text.trimStart (o ++ (m ++ (a ++ t))) = o ++ (m ++ (a ++ t)) ∧
        keywordSpace? "only".toList (o ++ (m ++ (a ++ t))) = some (m ++ (a ++ t)) :=
    fun o ho => ⟨trimStart_spellings (x := 'o') (k := "nly".toList) (by decide) ho _,
      keywordSpace?_eq_some_iff.2 ⟨hstart, o, ho, rfl⟩⟩
  obtain ⟨hwhole, hnamed⟩ := optional_append hstart hnone honly ho
  rw [List.append_assoc, List.append_assoc, mediaType?, hnamed, hname]
  exact ⟨hwhole, hand⟩

/-! ## Amounts and units -/

/-- What is read as an amount is one, and its value. -/
theorem amount?_eq_some {s t : List Char} {n d : Nat} (h : amount? s = some ((n, d), t)) :
    ∃ a, IsAmount a n d ∧ a ++ t = s := by
  have hwhole : ∀ c ∈ s.takeWhile Char.isDigit, c.isDigit = true :=
    List.all_eq_true.1 List.all_takeWhile
  have hs := List.takeWhile_append_dropWhile (p := Char.isDigit) (l := s)
  rw [amount?] at h
  dsimp only at h
  split at h
  · cases h
  · next hne =>
    split at h
    · next tail htail =>
      have hplaces : ∀ c ∈ tail.takeWhile Char.isDigit, c.isDigit = true :=
        List.all_eq_true.1 List.all_takeWhile
      split at h
      · cases h
        exact ⟨_, .whole hne hwhole, hs⟩
      · next hne' =>
        cases h
        refine ⟨_, .decimal hne hwhole hne' hplaces, ?_⟩
        rw [List.append_assoc, List.cons_append, List.takeWhile_append_dropWhile, ← htail, hs]
    · cases h
      exact ⟨_, .whole hne hwhole, hs⟩

/-- What may follow an amount. -/
def EndsAmount (t : List Char) : Prop := ∃ c r, t = c :: r ∧ c.isDigit = false ∧ c ≠ '.'

/-- Digits are taken up to what is no digit. -/
theorem takeWhile_isDigit {digits t : List Char} (hdigits : ∀ c ∈ digits, c.isDigit = true)
    (ht : ∃ c r, t = c :: r ∧ c.isDigit = false) :
    (digits ++ t).takeWhile Char.isDigit = digits ∧ (digits ++ t).dropWhile Char.isDigit = t := by
  obtain ⟨c, r, rfl, hc⟩ := ht
  have hstop : ¬c.isDigit = true := by simp [hc]
  rw [List.takeWhile_append_of_pos hdigits, List.dropWhile_append_of_pos hdigits,
    List.takeWhile_cons_of_neg hstop, List.dropWhile_cons_of_neg hstop, List.append_nil]
  exact ⟨rfl, rfl⟩

/-- An amount is read in front of what ends it. -/
theorem amount?_append {a t : List Char} {n d : Nat} (h : IsAmount a n d) (ht : EndsAmount t) :
    amount? (a ++ t) = some ((n, d), t) := by
  obtain ⟨c, r, rfl, hc, hdot⟩ := ht
  cases h with
  | whole hne hdigits =>
    obtain ⟨htake, hdrop⟩ := takeWhile_isDigit hdigits ⟨c, r, rfl, hc⟩
    rw [amount?, htake, hdrop]
    dsimp only
    rw [if_neg hne]
    split
    · next hcons =>
      obtain ⟨rfl, -⟩ := List.cons.inj hcons
      exact absurd rfl hdot
    · rfl
  | @decimal digits places hne hdigits hne' hplaces =>
    obtain ⟨htake, hdrop⟩ := takeWhile_isDigit hdigits (t := '.' :: (places ++ c :: r))
      ⟨_, _, rfl, by decide⟩
    obtain ⟨htake', hdrop'⟩ := takeWhile_isDigit hplaces ⟨c, r, rfl, hc⟩
    rw [List.append_assoc, List.cons_append, amount?, htake, hdrop]
    dsimp only
    rw [if_neg hne]
    show (if (places ++ c :: r).takeWhile Char.isDigit = [] then _ else _) = _
    rw [htake', hdrop', if_neg hne']
    rfl

/-- What is read as a unit is a spelling of it. -/
theorem unit?_eq_some {s t : List Char} {k : Nat} (h : unit? s = some (k, t)) :
    ∃ unit, WidthUnit unit k ∧ ∃ u ∈ unit, u ++ t = s := by
  rw [unit?] at h
  cases hpx : Text.keyword? "px".toList s with
  | some r =>
    rw [hpx] at h
    cases h
    exact ⟨_, .px, keyword?_eq_some_iff.1 hpx⟩
  | none =>
    rw [hpx] at h
    cases hem : Text.keyword? "em".toList s with
    | some r =>
      rw [hem] at h
      cases h
      exact ⟨_, .em, keyword?_eq_some_iff.1 hem⟩
    | none =>
      rw [hem] at h
      obtain ⟨r, hrem, hr⟩ := Option.map_eq_some_iff.1 h
      cases hr
      exact ⟨_, .rem, keyword?_eq_some_iff.1 hrem⟩

/-- A unit is read in any spelling, whatever follows. -/
theorem unit?_append {unit : Language Char} {k : Nat} (h : WidthUnit unit k) {u : List Char}
    (hu : u ∈ unit) (t : List Char) : unit? (u ++ t) = some (k, t) := by
  have hread : ∀ {name : List Char}, u ∈ spellings name → Text.keyword? name (u ++ t) = some t :=
    fun hname => keyword?_eq_some_iff.2 ⟨u, hname, rfl⟩
  rw [unit?]
  cases h with
  | px =>
    rw [hread hu]
    rfl
  | em =>
    have hpx : Text.keyword? "px".toList (u ++ t) = none :=
      keyword?_eq_none (x := 'e') (k := "m".toList) (by decide) (by decide) hu t
    rw [hpx, hread hu]
    rfl
  | rem =>
    have hpx : Text.keyword? "px".toList (u ++ t) = none :=
      keyword?_eq_none (x := 'r') (k := "em".toList) (by decide) (by decide) hu t
    have hem : Text.keyword? "em".toList (u ++ t) = none :=
      keyword?_eq_none (x := 'r') (k := "em".toList) (by decide) (by decide) hu t
    rw [hpx, hem, hread hu]
    rfl

/-- The letter of a unit ends an amount. -/
theorem endsAmount_unit {unit : Language Char} {k : Nat} (h : WidthUnit unit k) {u : List Char}
    (hu : u ∈ unit) (t : List Char) : EndsAmount (u ++ t) := by
  obtain ⟨x, hx, name, hname⟩ : ∃ x ∈ ['p', 'e', 'r'], ∃ name,
      u ∈ spellings (x :: name) := by
    cases h with
    | px => exact ⟨'p', by decide, _, hu⟩
    | em => exact ⟨'e', by decide, _, hu⟩
    | rem => exact ⟨'r', by decide, _, hu⟩
  obtain ⟨c, u', hc, -, rfl⟩ := List.forall₂_cons_left_iff.1 hname
  have hnot : ∀ x ∈ ['p', 'e', 'r'], x ≠ 's' ∧ x.isDigit = false ∧ x ≠ '.' := by
    simp [Char.isDigit]
  obtain ⟨hs, hdigit, hdot⟩ := hnot x hx
  have hlower : c.toLower = x := by simpa [Text.spells, hs] using hc
  refine ⟨c, u' ++ t, rfl, ?_⟩
  by_cases hcapital : 65 ≤ c.toNat ∧ c.toNat ≤ 90
  · have hdigit : c.isDigit = false := by
      rw [Bool.eq_false_iff]
      intro h
      simp only [Char.isDigit, Bool.and_eq_true, decide_eq_true_eq] at h
      have hbounds : 48 ≤ c.toNat ∧ c.toNat ≤ 57 := h
      omega
    refine ⟨hdigit, ?_⟩
    rintro rfl
    exact absurd hcapital (by decide)
  · rw [Text.toLower_eq_self hcapital] at hlower
    exact hlower ▸ ⟨hdigit, hdot⟩

/-- There is no space in front of an amount. -/
theorem trimStart_amount {a : List Char} {n d : Nat} (h : IsAmount a n d) (t : List Char) :
    Text.trimStart (a ++ t) = a ++ t := by
  have hstart : ∃ c r, a = c :: r ∧ c.isDigit = true := by
    cases h with
    | whole hne hdigits =>
      obtain ⟨c, r, rfl⟩ := List.exists_cons_of_ne_nil hne
      exact ⟨c, r, rfl, hdigits c (List.mem_cons_self ..)⟩
    | decimal hne hdigits =>
      obtain ⟨c, r, rfl⟩ := List.exists_cons_of_ne_nil hne
      exact ⟨c, _, rfl, hdigits c (List.mem_cons_self ..)⟩
  obtain ⟨c, r, rfl, hc⟩ := hstart
  have hhex : Text.isHexDigit c = true := by rw [Text.isHexDigit, hc]; rfl
  exact Text.trimStart_cons (Text.isSpace_of_isHexDigit hhex)

/-! ## Features and queries -/

/-- A feature with a width, and the amount and the unit that this comes from. -/
theorem feature?_eq_some {s : List Char} {w : UInt32} (h : feature? s = some w) :
    ∃ amount n d unit k, IsAmount amount n d ∧ WidthUnit unit k ∧ s ∈ features amount unit ∧
      w = UInt32.ofNat (pixels k n d) := by
  simp only [feature?, bind, Option.bind_eq_some_iff] at h
  obtain ⟨s₁, h₁, s₂, h₂, s₃, h₃, ⟨⟨n, d⟩, s₄⟩, h₄, ⟨k, s₅⟩, h₅, h₆⟩ := h
  split at h₆
  · next hend =>
    obtain ⟨a, ha, rfl⟩ := keyword?_eq_some_iff.1 h₁
    obtain ⟨b, hb, rfl⟩ := keyword?_trimStart_eq_some h₂
    obtain ⟨c, hc, rfl⟩ := keyword?_trimStart_eq_some h₃
    obtain ⟨l, hl, hs₃⟩ := exists_spaces s₃
    obtain ⟨amount, hamount, hs₄⟩ := amount?_eq_some h₄
    obtain ⟨unit, hunit, u, hu, hs₅⟩ := unit?_eq_some h₅
    obtain ⟨r, hr, hrest⟩ := exists_spaces s₅
    refine ⟨amount, n, d, unit, k, hamount, hunit, ?_, (Option.some.inj h₆).symm⟩
    have hmem := Language.append_mem_mul (Language.append_mem_mul (Language.append_mem_mul
      (Language.append_mem_mul (Language.append_mem_mul ha hb) hc)
        (Language.append_mem_mul hl (Set.mem_singleton amount))) hu)
          (Language.append_mem_mul hr (Set.mem_singleton [')']))
    rw [hend] at hrest
    rw [hrest, List.append_assoc _ u, hs₅, List.append_assoc _ (l ++ amount),
      List.append_assoc l, hs₄, hs₃, List.append_assoc, List.append_assoc] at hmem
    exact hmem
  · cases h₆

/-- A feature is read in any spelling, and its width is worked out. -/
theorem feature?_of_mem {s amount : List Char} {n d : Nat} {unit : Language Char} {k : Nat}
    (hamount : IsAmount amount n d) (hunit : WidthUnit unit k) (hs : s ∈ features amount unit) :
    feature? s = some (UInt32.ofNat (pixels k n d)) := by
  obtain ⟨_, h₅, e, he, rfl⟩ := Language.mem_mul.1 hs
  obtain ⟨_, h₄, u, hu, rfl⟩ := Language.mem_mul.1 h₅
  obtain ⟨_, h₃, a, ha, rfl⟩ := Language.mem_mul.1 h₄
  obtain ⟨_, h₂, c, hc, rfl⟩ := Language.mem_mul.1 h₃
  obtain ⟨b, hb, m, hm, rfl⟩ := Language.mem_mul.1 h₂
  obtain ⟨l, hl, amount, rfl, rfl⟩ := Language.mem_mul.1 ha
  obtain ⟨r, hr, _, rfl, rfl⟩ := Language.mem_mul.1 he
  have hbracket : ∀ t, Text.keyword? ['('] (b ++ t) = some t :=
    fun t => keyword?_eq_some_iff.2 ⟨b, hb, rfl⟩
  have hname : ∀ t, Text.keyword? "min-width".toList (Text.trimStart (m ++ t)) = some t :=
    keyword?_trimStart_append (x := 'm') (k := "in-width".toList) (by decide) hm
  have hcolon : ∀ t, Text.keyword? [':'] (Text.trimStart (c ++ t)) = some t :=
    keyword?_trimStart_append (by decide) hc
  have htrim : Text.trimStart (l ++ (amount ++ (u ++ (r ++ [')'])))) =
      amount ++ (u ++ (r ++ [')'])) := by
    rw [Text.trimStart_append hl, trimStart_amount hamount]
  have hread := amount?_append hamount (endsAmount_unit hunit hu (r ++ [')']))
  have hend : Text.trimStart (r ++ [')']) = [')'] := by
    rw [Text.trimStart_append hr]
    exact Text.trimStart_cons (by decide)
  simp only [feature?, bind, Option.bind, List.append_assoc, hbracket, hname, hcolon, htrim, hread,
    unit?_append hunit hu, hend, if_true]

/-- A feature starts with a bracket, which is no media type, and ends with one. -/
theorem features_ends {s amount : List Char} {unit : Language Char}
    (hs : s ∈ features amount unit) :
    Text.trimStart s = s ∧ mediaType? s = none ∧ s ≠ [] ∧ Text.trimEnd s = s := by
  have hfirst : ∃ L, s ∈ spellings "(".toList * L := by
    rw [features] at hs
    simp only [mul_assoc] at hs
    exact ⟨_, hs⟩
  obtain ⟨L, hfirst⟩ := hfirst
  have hother : ∀ y j, y ≠ 'ſ' → '(' ≠ y → keywordSpace? (y :: j) s = none := by
    intro y j hplain hne
    have hnone := keywordSpace?_eq_none (j := j) ⟨by decide, hplain⟩ hne hfirst []
    rwa [List.append_nil] at hnone
  have honly : keywordSpace? "only".toList s = none := hother 'o' _ (by decide) (by decide)
  have hscreen : keywordSpace? "screen".toList s = none := hother 's' _ (by decide) (by decide)
  have hall : keywordSpace? "all".toList s = none := hother 'a' _ (by decide) (by decide)
  have hmedia : mediaType? s = none := by
    rw [mediaType?, honly, Option.getD_none, hscreen, hall]
    rfl
  have htrim := trimStart_spellings (by decide) hfirst []
  rw [List.append_nil] at htrim
  obtain ⟨front, -, e, he, rfl⟩ := Language.mem_mul.1 hs
  obtain ⟨r, -, _, rfl, rfl⟩ := Language.mem_mul.1 he
  refine ⟨htrim, hmedia, by simp, ?_⟩
  rw [← List.append_assoc]
  exact Text.trimEnd_append (by simp) (by decide)

/-- A prelude with a width, and the amount and the unit that this comes from. -/
theorem readMinWidth_eq_some {p : List Char} {w : UInt32} (h : readMinWidth p = some w) :
    ∃ amount n d unit k, IsAmount amount n d ∧ WidthUnit unit k ∧ p ∈ minWidthQueries amount unit ∧
      w = UInt32.ofNat (pixels k n d) := by
  simp only [readMinWidth, bind, Option.bind_eq_some_iff] at h
  obtain ⟨s, hs, h⟩ := h
  obtain ⟨-, a, ha, hmedia⟩ := keywordSpace?_eq_some_iff.1 hs
  obtain ⟨m, hm, htype⟩ := exists_mem_optional (mediaType? s) fun _ => mediaType?_eq_some
  obtain ⟨amount, n, d, unit, k, hamount, hunit, hfeature, hw⟩ := feature?_eq_some h
  obtain ⟨l, r, hp, hl, hr⟩ := Text.exists_trim p
  refine ⟨amount, n, d, unit, k, hamount, hunit, ?_, hw⟩
  have hmem := Language.append_mem_mul (Language.append_mem_mul (show l ∈ spaces from hl)
    (Language.append_mem_mul ha (Language.append_mem_mul hm hfeature))) (show r ∈ spaces from hr)
  rw [htype, hmedia, ← hp] at hmem
  exact hmem

/-- A whole prelude is read in any spelling. -/
theorem readMinWidth_of_mem {p amount : List Char} {n d : Nat} {unit : Language Char} {k : Nat}
    (hamount : IsAmount amount n d) (hunit : WidthUnit unit k)
    (hp : p ∈ minWidthQueries amount unit) :
    readMinWidth p = some (UInt32.ofNat (pixels k n d)) := by
  obtain ⟨_, hp', r, hr, rfl⟩ := Language.mem_mul.1 hp
  obtain ⟨l, hl, _, hq, rfl⟩ := Language.mem_mul.1 hp'
  obtain ⟨a, ha, _, hrest, rfl⟩ := Language.mem_mul.1 hq
  obtain ⟨m, hm, f, hf, rfl⟩ := Language.mem_mul.1 hrest
  obtain ⟨hstart, hnone, hne, hend⟩ := features_ends hf
  obtain ⟨htype, hget⟩ :=
    optional_append hstart hnone (fun _ hw => mediaType?_append hw hstart) hm
  have htrim : Text.trim (l ++ (a ++ (m ++ f)) ++ r) = a ++ (m ++ f) := by
    have hmedia : Text.trimStart (a ++ (m ++ f ++ r)) = a ++ (m ++ f ++ r) :=
      trimStart_spellings (x := '@') (k := "media".toList) (by decide) ha _
    rw [Text.trim, List.append_assoc, Text.trimStart_append hl, List.append_assoc, hmedia,
      ← List.append_assoc, Text.trimEnd_append_spaces _ hr, ← List.append_assoc]
    exact Text.trimEnd_append hne hend
  have hread : keywordSpace? "@media".toList (a ++ (m ++ f)) = some (m ++ f) :=
    keywordSpace?_eq_some_iff.2 ⟨htype, a, ha, rfl⟩
  simp only [readMinWidth, bind, Option.bind, htrim, hread, hget]
  exact feature?_of_mem hamount hunit hf

/-- **The preludes that ask for a width** are the queries. -/
theorem readMinWidth_eq_some_iff {p : List Char} {w : UInt32} : readMinWidth p = some w ↔
    ∃ amount n d unit k, IsAmount amount n d ∧ WidthUnit unit k ∧ p ∈ minWidthQueries amount unit ∧
      w = UInt32.ofNat (pixels k n d) := by
  refine ⟨readMinWidth_eq_some, ?_⟩
  rintro ⟨amount, n, d, unit, k, hamount, hunit, hp, rfl⟩
  exact readMinWidth_of_mem hamount hunit hp

/-- A query in mixed letter case, with a media type and with spaces wherever there may be some. -/
def looseQuery (digits : List Char) : List Char :=
  "\n".toList ++ ("@MeDia\t ".toList ++ ("oNLy all  AND ".toList ++ ("(".toList ++
    " MIN-width".toList ++ "\t:".toList ++ (" ".toList ++ digits) ++ "rEm".toList ++
      " )".toList))) ++ "  ".toList

/-- A query with space wherever it may stand is a spelling. -/
theorem looseQuery_mem (digits : List Char) :
    looseQuery digits ∈ minWidthQueries digits (spellings "rem".toList) := by
  have hgap : ∀ s : List Char, s.all Text.isSpace = true → s ≠ [] → s ∈ gap :=
    fun s h hne => ⟨mem_spaces h, hne⟩
  have honly : "oNLy ".toList ∈ 1 + spellings "only".toList * gap :=
    .inr (Language.append_mem_mul (a := "oNLy".toList) (mem_spellings rfl)
      (hgap " ".toList rfl (by decide)))
  have hall : "all  ".toList ∈ (spellings "screen".toList + spellings "all".toList) * gap :=
    Language.append_mem_mul (a := "all".toList) (.inr (mem_spellings rfl))
      (hgap "  ".toList rfl (by decide))
  have hand : "AND ".toList ∈ spellings "and".toList * gap :=
    Language.append_mem_mul (a := "AND".toList) (mem_spellings rfl)
      (hgap " ".toList rfl (by decide))
  have htype : "oNLy all  AND ".toList ∈ 1 + mediaTypes :=
    .inr (Language.append_mem_mul honly (Language.append_mem_mul hall hand))
  have hmedia : "@MeDia\t ".toList ∈ spellings "@media".toList * gap :=
    Language.append_mem_mul (a := "@MeDia".toList) (mem_spellings rfl)
      (hgap "\t ".toList rfl (by decide))
  have hbracket : "(".toList ∈ spellings "(".toList := mem_spellings rfl
  have hname : " MIN-width".toList ∈ spaces * spellings "min-width".toList :=
    Language.append_mem_mul (a := " ".toList) (mem_spaces rfl) (mem_spellings rfl)
  have hcolon : "\t:".toList ∈ spaces * spellings ":".toList :=
    Language.append_mem_mul (a := "\t".toList) (mem_spaces rfl) (mem_spellings rfl)
  have hamount : " ".toList ++ digits ∈ spaces * {digits} :=
    Language.append_mem_mul (mem_spaces rfl) (Set.mem_singleton _)
  have hunit : "rEm".toList ∈ spellings "rem".toList := mem_spellings rfl
  have hclose : " )".toList ∈ spaces * ({[')']} : Language Char) :=
    Language.append_mem_mul (a := " ".toList) (mem_spaces rfl) (Set.mem_singleton _)
  have hfeature := Language.append_mem_mul (Language.append_mem_mul (Language.append_mem_mul
    (Language.append_mem_mul (Language.append_mem_mul hbracket hname) hcolon) hamount) hunit) hclose
  have hstart : "\n".toList ∈ spaces := mem_spaces rfl
  have hend : "  ".toList ∈ spaces := mem_spaces rfl
  exact Language.append_mem_mul (Language.append_mem_mul hstart
    (Language.append_mem_mul hmedia (Language.append_mem_mul htype hfeature))) hend

/-! ## Whole amounts -/

/-- The pixels of `n` units as a double: only units of several pixels are multiplied. -/
def doublePixels (k n : Nat) : Float.Model :=
  if k = 1 then .ofNat n else .ofNat n * .ofNat k

/-- The way through the doubles agrees with exact arithmetic. -/
theorem widthOf_doublePixels {unit : Language Char} {k : Nat} (h : WidthUnit unit k) (n : Nat) :
    Number.widthOf (doublePixels k n) = UInt32.ofNat (min (n * k) maxWidth) := by
  cases h with
  | px => rw [doublePixels, if_pos rfl, Number.widthOf_ofNat, Nat.mul_one]
  | em => exact Number.widthOf_ofNat_mul_sixteen n
  | rem => exact Number.widthOf_ofNat_mul_sixteen n

/-- **Whole widths are exact and saturate**, however the query is spelled and however many digits
there are; the doubles on the way lose nothing, and a printed width is read back. -/
theorem whole_widths_are_exact_and_saturate {digits prelude : List Char} {unit : Language Char}
    {k : Nat} (hne : digits ≠ []) (hdigits : ∀ c ∈ digits, c.isDigit = true)
    (hunit : WidthUnit unit k) (hprelude : prelude ∈ minWidthQueries digits unit) :
    readMinWidth prelude = some (UInt32.ofNat (min (Text.decimalValue digits * k) maxWidth)) ∧
      Number.widthOf (doublePixels k (Text.decimalValue digits)) =
        UInt32.ofNat (min (Text.decimalValue digits * k) maxWidth) ∧
      ∀ w, readMinWidth (minWidthPrelude w) = some w := by
  refine ⟨?_, widthOf_doublePixels hunit _, readMinWidth_minWidthPrelude⟩
  have hpos : 0 < k := by cases hunit <;> decide
  rw [← pixels_whole k _ hpos]
  exact readMinWidth_eq_some_iff.2
    ⟨digits, _, 1, unit, k, .whole hne hdigits, hunit, hprelude, rfl⟩

/-- A number of four hundred digits, which is infinite as a double. -/
theorem infinite_width_saturates :
    readMinWidth (looseQuery ('1' :: List.replicate 400 '0')) = some 4294967295 ∧
      Number.widthOf (doublePixels 16 (Text.decimalValue ('1' :: List.replicate 400 '0'))) =
        4294967295 := by
  have hdigits : ∀ c ∈ '1' :: List.replicate 400 '0', c.isDigit = true := by
    rw [List.forall_mem_cons]
    refine ⟨rfl, fun c hc => ?_⟩
    rw [List.eq_of_mem_replicate hc]
    rfl
  have hvalue : UInt32.ofNat
      (min (Text.decimalValue ('1' :: List.replicate 400 '0') * 16) maxWidth) = 4294967295 := by
    decide +kernel
  obtain ⟨hread, hdouble, -⟩ := whole_widths_are_exact_and_saturate (List.cons_ne_nil _ _) hdigits
    .rem (looseQuery_mem _)
  rw [hvalue] at hread hdouble
  exact ⟨hread, hdouble⟩

end Pane.Style
