import Pane.Proofs.Style.Matched

/-!
# References to addresses

A value shows the address of its first reference.  With another address put in its place the value
shows this address, whatever follows the reference, as long as nothing in front of it is a reference
now.  A `url(` that was left open in front of it can become one: behind it an address without quotes
goes on until a space, and the reference in double quotes has none where the old one may have had.

* `UrlMatch.Clear` — an open `url(` in front of a reference has a space behind its address.
* `urlAt?_urlReference` — a reference in double quotes is read as it is written.
* `urlAt?_front` — what is no reference in front of one is none in front of another.
* **`findUrl?_append_urlReference`** — the address that is put in place is the one that is found.
-/

namespace Pane.Style

/-- No `url(` in front of a reference runs into it: behind the spaces that follow such a one, there
is one more space before the reference begins. -/
def UrlMatch.Clear (m : UrlMatch) : Prop :=
  ∀ front back, m.before = front ++ "url(".toList ++ back →
    ∃ c ∈ Text.trimStart back, Text.isSpace c = true

section

variable {s t back rest : List Char}

/-! ## References in double quotes -/

theorem urlReference_eq {address : String} (h : '"' ∉ address.toList) :
    urlReference address = "url(".toList ++ '"' :: (address.toList ++ ['"', ')']) := by
  have hsame : ∀ cs : List Char, '"' ∉ cs →
      cs.flatMap (fun c => if c = '"' then "%22".toList else [c]) = cs := by
    intro cs hcs
    induction cs with
    | nil => rfl
    | cons c cs ih =>
      rw [List.mem_cons, not_or] at hcs
      rw [List.flatMap_cons, if_neg (Ne.symm hcs.1), ih hcs.2]
      rfl
  rw [urlReference, hsame _ h, List.append_assoc]
  rfl

/-- **A reference in double quotes is read as it is written.** -/
theorem urlAt?_urlReference {address : String} (h : '"' ∉ address.toList) (rest : List Char) :
    urlAt? (urlReference address ++ rest) = some (address.toList, rest) := by
  have hquoted : QuotedReference (urlReference address) address.toList := by
    rw [urlReference_eq h]
    exact QuotedReference.mk (l := []) (r := []) (.inl rfl) (by simp) h (by simp)
  exact urlAt?_eq_some_iff.2 ⟨_, rfl, .quoted hquoted (List.prefix_append ..)⟩

/-! ## What stands in front of a reference -/

/-- A text in front of a reference begins with `url(` itself, or the two of them do not. -/
theorem dropFront?_front (hs : s ≠ []) (h : ∀ back, s ≠ "url(".toList ++ back) (t : List Char) :
    Text.dropFront? "url(".toList (s ++ ("url(".toList ++ t)) = none := by
  cases hdrop : Text.dropFront? "url(".toList (s ++ ("url(".toList ++ t)) with
  | none => rfl
  | some r =>
    -- the letters of the word differ, so it does not begin within itself
    have hchars := Text.dropFront?_eq_some.1 hdrop
    match s with
    | [a] => simp at hchars
    | [a, b] => simp at hchars
    | [a, b, c] => simp at hchars
    | a :: b :: c :: d :: back =>
      have hword : a = 'u' ∧ b = 'r' ∧ c = 'l' ∧ d = '(' := by
        simp at hchars
        exact ⟨hchars.1, hchars.2.1, hchars.2.2.1, hchars.2.2.2.1⟩
      obtain ⟨rfl, rfl, rfl, rfl⟩ := hword
      exact absurd rfl (h back)

/-- A closing bracket is sought up to the first character that is no space. -/
theorem closing?_front (hnone : closing? (s ++ t) = none) {c : Char}
    (hc : Text.isSpace c = false) (hne : c ≠ ')') (rest : List Char) :
    closing? (s ++ c :: rest) = none := by
  rw [closing?] at hnone ⊢
  cases htrim : Text.trimStart s with
  | nil =>
    rw [Text.trimStart, Text.dropWhile_append_of_eq_nil htrim]
    have hstart : (c :: rest).dropWhile Text.isSpace = c :: rest := Text.trimStart_cons hc
    rw [hstart]
    split
    · next he => exact absurd (List.cons.inj he).1 hne
    · rfl
  | cons d ds =>
    have hne_nil : Text.trimStart s ≠ [] := by simp [htrim]
    have hfront : ∀ u, Text.trimStart (s ++ u) = d :: (ds ++ u) := fun u => by
      rw [Text.trimStart, Text.dropWhile_append_of_ne_nil hne_nil]
      exact congrArg (· ++ u) htrim
    rw [hfront] at hnone ⊢
    split at hnone
    · cases hnone
    · next hno =>
      split
      · next he => exact absurd (congrArg (· :: (ds ++ t)) (List.cons.inj he).1) (hno _)
      · rfl

/-- Behind a space an address without quotes has come to its end. -/
theorem bareAddress?_front (hspace : ∃ c ∈ s, Text.isSpace c = true)
    (hnone : bareAddress? (s ++ t) = none) {c : Char} (hc : Text.isSpace c = false) (hne : c ≠ ')')
    (rest : List Char) : bareAddress? (s ++ c :: rest) = none := by
  have hkept : s.dropWhile isBareChar ≠ [] := by
    obtain ⟨d, hd, hdspace⟩ := hspace
    intro hnil
    have hall := List.takeWhile_append_dropWhile (p := isBareChar) (l := s)
    rw [hnil, List.append_nil] at hall
    have hbare := List.all_eq_true.1 List.all_takeWhile d (hall ▸ hd)
    simp [isBareChar, hdspace] at hbare
  rw [bareAddress?, Option.map_eq_none_iff, Text.dropWhile_append_of_ne_nil hkept] at hnone ⊢
  exact closing?_front hnone hc hne rest

/-- **What is no reference in front of one is none in front of another** if the text has no quotes
and no `url(` runs into the reference. -/
theorem urlAt?_front (hs : s ≠ []) (hquotes : '"' ∉ s ∧ '\'' ∉ s)
    (hclear : ∀ back, s = "url(".toList ++ back →
      ∃ c ∈ Text.trimStart back, Text.isSpace c = true)
    (hnone : urlAt? (s ++ t) = none) (rest : List Char) :
    urlAt? (s ++ ("url(".toList ++ rest)) = none := by
  by_cases hfront : ∃ back, s = "url(".toList ++ back
  · obtain ⟨back, rfl⟩ := hfront
    obtain ⟨c, hc, hspace⟩ := hclear back rfl
    have hkept : Text.trimStart back ≠ [] := List.ne_nil_of_mem hc
    have htrim : ∀ u, Text.trimStart (back ++ u) = Text.trimStart back ++ u :=
      Text.dropWhile_append_of_ne_nil hkept
    have hnoquote : ∀ quote, quote ∉ "url(".toList ++ back → ∀ u,
        quotedAddress? quote (Text.trimStart back ++ u) = none := by
      intro quote hquote u
      refine quotedAddress?_eq_none fun hhead => hquote ?_
      obtain ⟨d, ds, hd⟩ := List.exists_cons_of_ne_nil hkept
      rw [hd] at hhead
      obtain rfl : d = quote := by simpa using hhead
      have hmem : d ∈ Text.trimStart back := hd ▸ List.mem_cons_self ..
      exact List.mem_append_right _ ((List.dropWhile_sublist _).subset hmem)
    rw [List.append_assoc, urlAt?_open] at hnone ⊢
    simp only [htrim, hnoquote _ hquotes.1, hnoquote _ hquotes.2, Option.none_or] at hnone ⊢
    exact bareAddress?_front ⟨c, hc, hspace⟩ hnone (c := 'u') (by decide) (by decide) _
  · rw [urlAt?, dropFront?_front hs (not_exists.1 hfront)]
    rfl

/-! ## Another address -/

/-- A match stands where a reference begins, and what is left is the end of the text. -/
theorem of_findUrl?_eq_some {m : UrlMatch} (h : findUrl? s = some m) :
    ∃ reference, s = m.before ++ reference ∧ m.rest <:+ reference := by
  obtain ⟨reference, hfound⟩ := findUrl?_eq_some_iff.1 h
  exact ⟨reference ++ m.rest, hfound.text, List.suffix_append ..⟩

theorem UrlMatch.Clear.tail {m : UrlMatch} {c : Char}
    (h : UrlMatch.Clear { m with before := c :: m.before }) : m.Clear :=
  fun front back hback => h (c :: front) back (congrArg (c :: ·) hback)

/-- **The address that is put in place is the one that is found**, whatever follows it. -/
theorem findUrl?_append_urlReference {m : UrlMatch} (h : findUrl? s = some m)
    (hquotes : '"' ∉ m.before ∧ '\'' ∉ m.before) (hclear : m.Clear) {address : String}
    (haddress : '"' ∉ address.toList) (rest : List Char) :
    findUrl? (m.before ++ (urlReference address ++ rest)) =
      some ⟨m.before, address.toList, rest⟩ := by
  induction s generalizing m with
  | nil => cases h
  | cons c cs ih =>
    rw [findUrl?] at h
    split at h
    · obtain rfl := Option.some.inj h
      exact findUrl?_of_urlAt? (urlAt?_urlReference haddress rest)
    · next hnone =>
      obtain ⟨m', hm', rfl⟩ := Option.map_eq_some_iff.1 h
      obtain ⟨reference, rfl, -⟩ := of_findUrl?_eq_some hm'
      have hfront : urlAt? (c :: m'.before ++ (urlReference address ++ rest)) = none := by
        rw [urlReference_eq haddress, List.append_assoc]
        exact urlAt?_front (by simp) hquotes (fun back hback => hclear [] back hback) hnone _
      have hrest := ih hm'
        ⟨fun hmem => hquotes.1 (List.mem_cons_of_mem _ hmem),
          fun hmem => hquotes.2 (List.mem_cons_of_mem _ hmem)⟩ hclear.tail
      show findUrl? (c :: (m'.before ++ (urlReference address ++ rest))) = _
      rw [List.cons_append] at hfront
      rw [findUrl?, hfront, hrest]
      rfl

end

end Pane.Style
