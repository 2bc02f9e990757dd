import Pane.Proofs.Text.Cuts
import Pane.Style.Background

/-!
# Where a reference is matched

A value may hold many stretches that read as a reference, and the one that counts is found in two
steps.  It begins as early as one can.  And where it begins it has its address in quotes if that can
be read there, and bare otherwise, so that `url("a)b")` is a whole and `url("a)` is not.  This file
says so without the reader, and shows that the reader finds exactly that reference.

**Texts.**  `QuotedReference` and `BareReference` — a reference as a text, with the address in it.
`MatchedAt` — the one that a text begins with.  `UrlMatch.Found` — the first one within a text.

**Readers.**  `closing?_eq_some_iff`, `quotedAddress?_eq_some_iff`, `bareAddress?_eq_some_iff` —
what the parts of a reference are read from.  **`urlAt?_eq_some_iff`** and
**`findUrl?_eq_some_iff`** — a reference is read exactly if it is matched.
-/

namespace Pane.Style

/-! ## Texts -/

/-- A reference whose address is between quotes of one kind, and has none of them. -/
inductive QuotedReference : List Char → List Char → Prop
  | mk {quote : Char} {l address r : List Char} (hquote : quote = '"' ∨ quote = '\'')
      (hl : ∀ c ∈ l, Text.isSpace c = true) (haddress : quote ∉ address)
      (hr : ∀ c ∈ r, Text.isSpace c = true) :
      QuotedReference ("url(".toList ++ (l ++ quote :: (address ++ quote :: (r ++ [')'])))) address

/-- A reference whose address goes up to a space or the closing bracket. -/
inductive BareReference : List Char → List Char → Prop
  | mk {l address r : List Char} (hl : ∀ c ∈ l, Text.isSpace c = true)
      (haddress : ∀ c ∈ address, isBareChar c = true) (hr : ∀ c ∈ r, Text.isSpace c = true) :
      BareReference ("url(".toList ++ (l ++ (address ++ (r ++ [')'])))) address

/-- The reference that a text begins with: one with quotes, or a bare one if there is none with
quotes. -/
inductive MatchedAt (s reference address : List Char) : Prop
  | quoted (h : QuotedReference reference address) (hs : reference <+: s)
  | bare (h : BareReference reference address) (hs : reference <+: s)
      (hnone : ∀ t a, QuotedReference t a → ¬t <+: s)

/-- The first reference of a text: where it stands one is matched, and nowhere in front of it. -/
structure UrlMatch.Found (m : UrlMatch) (s reference : List Char) : Prop where
  text : s = m.before ++ (reference ++ m.rest)
  matched : MatchedAt (reference ++ m.rest) reference m.address
  first : ∀ t r a, t <:+ s → MatchedAt t r a → t <:+ reference ++ m.rest

/-! ## Readers -/

section readers

variable {s rest address : List Char}

theorem closing?_eq_some_iff : closing? s = some rest ↔
    ∃ r, s = r ++ ')' :: rest ∧ ∀ c ∈ r, Text.isSpace c = true := by
  constructor
  · intro h
    obtain ⟨l, hl, hspaces⟩ := Text.exists_trimStart s
    rw [closing?] at h
    split at h
    · next r hr =>
      obtain rfl := Option.some.inj h
      exact ⟨l, hr ▸ hl, hspaces⟩
    · cases h
  · rintro ⟨r, rfl, hr⟩
    have hclose : Text.trimStart (r ++ ')' :: rest) = ')' :: rest := by
      rw [Text.trimStart_append hr]
      exact Text.trimStart_cons (by decide)
    simp only [closing?, hclose]

theorem quotedAddress?_eq_some_iff {quote : Char} :
    quotedAddress? quote s = some (address, rest) ↔
      quote ∉ address ∧ ∃ r, s = quote :: (address ++ quote :: (r ++ ')' :: rest)) ∧
        ∀ c ∈ r, Text.isSpace c = true := by
  constructor
  · intro h
    cases s with
    | nil => cases h
    | cons c s =>
      rw [quotedAddress?] at h
      split at h
      · next hc =>
        split at h
        · next front back hsplit =>
          obtain ⟨r, hr, he⟩ := Option.map_eq_some_iff.1 h
          obtain ⟨rfl, rfl⟩ := Prod.mk.inj he
          obtain ⟨rfl, hquote⟩ := Text.splitFirst_eq_some hsplit
          obtain ⟨spaces, rfl, hspaces⟩ := closing?_eq_some_iff.1 hr
          exact ⟨hquote, spaces, by rw [hc], hspaces⟩
        · cases h
      · cases h
  · rintro ⟨hquote, r, rfl, hr⟩
    have hclose : closing? (r ++ ')' :: rest) = some rest := closing?_eq_some_iff.2 ⟨r, rfl, hr⟩
    rw [quotedAddress?, if_pos rfl, Text.splitFirst_append hquote]
    simp only [hclose, Option.map_some]

theorem bareAddress?_eq_some_iff : bareAddress? s = some (address, rest) ↔
    (∀ c ∈ address, isBareChar c = true) ∧ ∃ r, s = address ++ (r ++ ')' :: rest) ∧
      ∀ c ∈ r, Text.isSpace c = true := by
  constructor
  · intro h
    obtain ⟨r, hr, he⟩ := Option.map_eq_some_iff.1 h
    obtain ⟨rfl, rfl⟩ := Prod.mk.inj he
    obtain ⟨spaces, hspaces, hall⟩ := closing?_eq_some_iff.1 hr
    refine ⟨List.all_eq_true.1 List.all_takeWhile, spaces, ?_, hall⟩
    rw [← hspaces, List.takeWhile_append_dropWhile]
  · rintro ⟨hbare, r, rfl, hr⟩
    -- behind the address there is a space or the bracket, and neither belongs to it
    obtain ⟨c, cs, hcs, hc⟩ : ∃ c cs, r ++ ')' :: rest = c :: cs ∧ ¬isBareChar c = true := by
      cases r with
      | nil => exact ⟨')', rest, rfl, by decide⟩
      | cons d r =>
        have hd : Text.isSpace d = true := hr d (List.mem_cons_self ..)
        exact ⟨d, r ++ ')' :: rest, rfl, by simp [isBareChar, hd]⟩
    have htake : (address ++ (r ++ ')' :: rest)).takeWhile isBareChar = address := by
      rw [List.takeWhile_append_of_pos hbare, hcs, List.takeWhile_cons_of_neg hc, List.append_nil]
    have hdrop : (address ++ (r ++ ')' :: rest)).dropWhile isBareChar = r ++ ')' :: rest := by
      rw [List.dropWhile_append_of_pos hbare, hcs, List.dropWhile_cons_of_neg hc]
    have hclose : closing? (r ++ ')' :: rest) = some rest := closing?_eq_some_iff.2 ⟨r, rfl, hr⟩
    rw [bareAddress?, htake, hdrop, hclose, Option.map_some]

/-- Behind `url(` and spaces, a reference with quotes is read from its first quote on. -/
theorem quotedAddress?_of_reference {reference r : List Char}
    (h : QuotedReference reference address) (hs : reference ++ rest = "url(".toList ++ r) :
    ∃ quote, (quote = '"' ∨ quote = '\'') ∧
      quotedAddress? quote (Text.trimStart r) = some (address, rest) := by
  obtain ⟨hquote, hl, haddress, hr⟩ := h
  next quote l spaces =>
  have hbehind : r = l ++ quote :: (address ++ quote :: (spaces ++ ')' :: rest)) := by
    simpa using hs.symm
  have hspace : Text.isSpace quote = false := by rcases hquote with rfl | rfl <;> decide
  refine ⟨quote, hquote, quotedAddress?_eq_some_iff.2 ⟨haddress, spaces, ?_, hr⟩⟩
  rw [hbehind, Text.trimStart_append hl, Text.trimStart_cons hspace]

/-- What is read between quotes behind `url(` and spaces belongs to a reference with quotes. -/
theorem exists_reference_of_quotedAddress? {quote : Char} {r : List Char}
    (hquote : quote = '"' ∨ quote = '\'')
    (h : quotedAddress? quote (Text.trimStart r) = some (address, rest)) :
    ∃ reference, "url(".toList ++ r = reference ++ rest ∧ QuotedReference reference address := by
  obtain ⟨haddress, spaces, htrim, hspaces⟩ := quotedAddress?_eq_some_iff.1 h
  obtain ⟨l, hl, hlspaces⟩ := Text.exists_trimStart r
  refine ⟨_, ?_, .mk hquote hlspaces haddress hspaces⟩
  rw [hl, htrim]
  simp

/-- Behind `url(` and spaces, a bare reference is read from its address on. -/
theorem bareAddress?_of_reference {reference r : List Char} (h : BareReference reference address)
    (hs : reference ++ rest = "url(".toList ++ r) :
    bareAddress? (Text.trimStart r) = some (address, rest) := by
  obtain ⟨hl, haddress, hr⟩ := h
  next l spaces =>
  have hbehind : r = l ++ (address ++ (spaces ++ ')' :: rest)) := by simpa using hs.symm
  rw [hbehind, Text.trimStart_append hl]
  cases address with
  | nil =>
    -- the spaces behind an address that is not there go with those in front of it
    rw [List.nil_append, Text.trimStart_append hr, Text.trimStart_cons (by decide)]
    exact bareAddress?_eq_some_iff.2 ⟨haddress, [], rfl, List.forall_mem_nil _⟩
  | cons c address =>
    have hc : Text.isSpace c = false := by
      have hbare := haddress c (List.mem_cons_self ..)
      simp only [isBareChar, Bool.and_eq_true, Bool.not_eq_true'] at hbare
      exact hbare.2
    rw [List.cons_append, Text.trimStart_cons hc]
    exact bareAddress?_eq_some_iff.2 ⟨haddress, spaces, rfl, hr⟩

/-- Behind `url(` the three ways of writing an address are tried one after the other. -/
theorem urlAt?_open (r : List Char) : urlAt? ("url(".toList ++ r) =
    (quotedAddress? '"' (Text.trimStart r)).or
      ((quotedAddress? '\'' (Text.trimStart r)).or (bareAddress? (Text.trimStart r))) := by
  rw [urlAt?, Text.dropFront?_append]
  simp only [Option.bind_eq_bind, Option.bind_some, Option.orElse_eq_orElse, Option.orElse_eq_or]

theorem MatchedAt.starts {reference : List Char} (h : MatchedAt s reference address) :
    ∃ r, s = "url(".toList ++ r := by
  obtain ⟨⟨-, -, -, -⟩, u, rfl⟩ | ⟨⟨-, -, -⟩, ⟨u, rfl⟩, -⟩ := h <;>
    exact ⟨_, List.append_assoc _ _ _⟩

theorem quotedAddress?_eq_none {quote : Char} (h : s.head? ≠ some quote) :
    quotedAddress? quote s = none := by
  cases s with
  | nil => rfl
  | cons c cs => rw [quotedAddress?, if_neg fun he => h (congrArg some he)]

/-- **A reference is read at the start of a text exactly if it is matched there.** -/
theorem urlAt?_eq_some_iff : urlAt? s = some (address, rest) ↔
    ∃ reference, s = reference ++ rest ∧ MatchedAt s reference address := by
  constructor
  · intro h
    obtain ⟨r, hr, -⟩ := Option.bind_eq_some_iff.1 h
    obtain rfl := Text.dropFront?_eq_some.1 hr
    simp only [urlAt?_open, Option.or_eq_some_iff] at h
    rcases h with hdouble | ⟨hdouble, hsingle | ⟨hsingle, hbare⟩⟩
    · obtain ⟨reference, hs, hquoted⟩ := exists_reference_of_quotedAddress? (.inl rfl) hdouble
      exact ⟨reference, hs, .quoted hquoted ⟨rest, hs.symm⟩⟩
    · obtain ⟨reference, hs, hquoted⟩ := exists_reference_of_quotedAddress? (.inr rfl) hsingle
      exact ⟨reference, hs, .quoted hquoted ⟨rest, hs.symm⟩⟩
    · obtain ⟨haddress, spaces, htrim, hspaces⟩ := bareAddress?_eq_some_iff.1 hbare
      obtain ⟨l, hl, hlspaces⟩ := Text.exists_trimStart r
      have hs : "url(".toList ++ r =
          "url(".toList ++ (l ++ (address ++ (spaces ++ [')']))) ++ rest := by
        rw [hl, htrim]
        simp
      refine ⟨_, hs, .bare (.mk hlspaces haddress hspaces) ⟨rest, hs.symm⟩ ?_⟩
      rintro t a hquoted ⟨u, hu⟩
      obtain ⟨quote, rfl | rfl, hsome⟩ := quotedAddress?_of_reference hquoted hu
      · rw [hdouble] at hsome
        cases hsome
      · rw [hsingle] at hsome
        cases hsome
  · rintro ⟨reference, rfl, hmatched⟩
    obtain ⟨r, hr⟩ := hmatched.starts
    rw [hr, urlAt?_open]
    cases hmatched with
    | quoted h hs =>
      obtain ⟨quote, rfl | rfl, hread⟩ := quotedAddress?_of_reference h hr
      · rw [hread, Option.some_or]
      · -- behind the space there is one quote, so it is not the other
        have hother : (Text.trimStart r).head? ≠ some '"' := by
          obtain ⟨-, spaces, hstart, -⟩ := quotedAddress?_eq_some_iff.1 hread
          simp [hstart]
        rw [quotedAddress?_eq_none hother, hread, Option.none_or, Option.some_or]
    | bare h hs hnone =>
      have hunquoted : ∀ quote, quote = '"' ∨ quote = '\'' →
          quotedAddress? quote (Text.trimStart r) = none := by
        intro quote hquote
        refine Option.eq_none_iff_forall_ne_some.2 ?_
        rintro ⟨a, u⟩ hread
        obtain ⟨t, ht, hquoted⟩ := exists_reference_of_quotedAddress? hquote hread
        exact hnone t a hquoted ⟨u, ht.symm.trans hr.symm⟩
      rw [hunquoted _ (.inl rfl), hunquoted _ (.inr rfl), bareAddress?_of_reference h hr]
      rfl

theorem MatchedAt.begins {reference : List Char} (h : MatchedAt s reference address) :
    reference <+: s := by
  cases h with
  | quoted h hs => exact hs
  | bare h hs hnone => exact hs

/-- Where nothing is read no reference is matched. -/
theorem not_matchedAt_of_urlAt?_eq_none {reference : List Char} (h : urlAt? s = none) :
    ¬MatchedAt s reference address := by
  intro hmatched
  obtain ⟨rest, hs⟩ := hmatched.begins
  rw [urlAt?_eq_some_iff.2 ⟨reference, hs.symm, hmatched⟩] at h
  cases h

theorem findUrl?_of_urlAt? {address : List Char} (h : urlAt? s = some (address, rest)) :
    findUrl? s = some ⟨[], address, rest⟩ := by
  cases s with
  | nil => exact absurd h (by simp [urlAt?, Text.dropFront?])
  | cons c cs => rw [findUrl?, h]

/-- **A reference is found in a text exactly if it is the first one there.** -/
theorem findUrl?_eq_some_iff {m : UrlMatch} :
    findUrl? s = some m ↔ ∃ reference, m.Found s reference := by
  constructor
  · intro h
    induction s generalizing m with
    | nil => cases h
    | cons c cs ih =>
      rw [findUrl?] at h
      split at h
      · next address rest hat =>
        obtain rfl := Option.some.inj h
        obtain ⟨reference, hs, hmatched⟩ := urlAt?_eq_some_iff.1 hat
        rw [hs] at hmatched
        exact ⟨reference, hs, hmatched, fun t r a ht _ => hs ▸ ht⟩
      · next hnone =>
        obtain ⟨m', hm', rfl⟩ := Option.map_eq_some_iff.1 h
        obtain ⟨reference, hfound⟩ := ih hm'
        refine ⟨reference, congrArg (c :: ·) hfound.text, hfound.matched, ?_⟩
        intro t r a ht hmatched
        rcases List.suffix_cons_iff.1 ht with rfl | ht
        · exact absurd hmatched (not_matchedAt_of_urlAt?_eq_none hnone)
        · exact hfound.first t r a ht hmatched
  · rintro ⟨reference, hfound⟩
    obtain ⟨before, address, rest⟩ := m
    induction before generalizing s with
    | nil =>
      obtain rfl : s = reference ++ rest := hfound.text
      exact findUrl?_of_urlAt? (urlAt?_eq_some_iff.2 ⟨reference, rfl, hfound.matched⟩)
    | cons c before ih =>
      obtain rfl : s = c :: (before ++ (reference ++ rest)) := hfound.text
      have hnone : urlAt? (c :: (before ++ (reference ++ rest))) = none := by
        refine Option.eq_none_iff_forall_ne_some.2 ?_
        rintro ⟨a, u⟩ hat
        obtain ⟨r, -, hmatched⟩ := urlAt?_eq_some_iff.1 hat
        -- it would be a match in front of the first one
        have hle := (hfound.first _ r a (List.suffix_refl _) hmatched).length_le
        simp only [List.length_cons, List.length_append] at hle
        omega
      have hrest := ih ⟨rfl, hfound.matched, fun t r a ht hmatched =>
        hfound.first t r a (ht.trans (List.suffix_cons _ _)) hmatched⟩
      rw [findUrl?, hnone, hrest]
      rfl

/-- A bracket between quotes does not close a reference, unless the quotes are not closed in
time. -/
example :
    findUrl? "a url( \"b)c\" ) d".toList = some ⟨"a ".toList, "b)c".toList, " d".toList⟩ ∧
      findUrl? "a url(\"b) \"c)".toList = some ⟨"a ".toList, "\"b".toList, " \"c)".toList⟩ := by
  decide +kernel

/-- What is found is the stretch between what precedes it and what follows it. -/
theorem UrlMatch.found_iff {m : UrlMatch} {reference : List Char} :
    m.Found s reference ↔ s = m.before ++ (reference ++ m.rest) ∧ findUrl? s = some m := by
  constructor
  · intro h
    exact ⟨h.text, findUrl?_eq_some_iff.2 ⟨reference, h⟩⟩
  · rintro ⟨hs, hm⟩
    obtain ⟨reference', h⟩ := findUrl?_eq_some_iff.1 hm
    have hsame : reference' ++ m.rest = reference ++ m.rest :=
      List.append_cancel_left (h.text.symm.trans hs)
    exact List.append_cancel_right hsame ▸ h

instance {m : UrlMatch} {reference : List Char} : Decidable (m.Found s reference) :=
  decidable_of_iff _ UrlMatch.found_iff.symm

end readers

end Pane.Style
