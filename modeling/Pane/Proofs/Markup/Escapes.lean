import Pane.Markup.Lexer
import Pane.Tree.Printer

/-!
# Escapes and references

The printer escapes the few characters that could be taken for markup, and the lexer resolves them
again.  Every lemma on reading is about a text with anything behind it.

* `reference?_append` — a named reference is read.
* **`lexMarkup_escapeTextChar`** — a character of running text is read back as one token.
* **`resolveAttribute_escapeAttribute`** — a value is read back, unless it has a null character.
* `quote_not_mem_escapeAttribute` — it cannot be left early.
-/

namespace Pane.Markup

/-! ## References -/

/-- A named reference with its semicolon is read, whatever follows. -/
theorem namedReference?_append {name chars : List Char} (b : Bool) (rest : List Char)
    (hname : ∀ c ∈ name, Text.isAlphanumeric c = true) (hchars : named? name = some chars) :
    namedReference? b (name ++ ';' :: rest) = some ⟨chars, false, rest⟩ := by
  have hend : Text.isAlphanumeric ';' = false := by decide
  have hrun : (name ++ ';' :: rest).takeWhile Text.isAlphanumeric = name := by
    rw [List.takeWhile_append_of_pos hname, List.takeWhile_cons_of_neg (by simp [hend])]
    simp
  have hbehind : (name ++ ';' :: rest).dropWhile Text.isAlphanumeric = ';' :: rest := by
    rw [List.dropWhile_append_of_pos hname, List.dropWhile_cons_of_neg (by simp [hend])]
  simp only [namedReference?, hrun, hbehind, hchars]

/-- A reference that is not by number is one by name. -/
theorem reference?_append (c : Char) (name : List Char) {chars : List Char} (b : Bool)
    (rest : List Char) (hc : c ≠ '#') (hname : (c :: name).all Text.isAlphanumeric = true)
    (hchars : named? (c :: name) = some chars) :
    reference? b (c :: name ++ ';' :: rest) = some ⟨chars, false, rest⟩ := by
  rw [List.cons_append, reference?]
  · exact namedReference?_append b rest (List.all_eq_true.1 hname) hchars
  · intro s hs
    exact hc (List.cons.inj hs).1

theorem reference?_amp (b : Bool) (rest : List Char) :
    reference? b ("amp;".toList ++ rest) = some ⟨['&'], false, rest⟩ :=
  reference?_append 'a' ['m', 'p'] b rest (by decide) (by decide) (by decide)

theorem reference?_lt (b : Bool) (rest : List Char) :
    reference? b ("lt;".toList ++ rest) = some ⟨['<'], false, rest⟩ :=
  reference?_append 'l' ['t'] b rest (by decide) (by decide) (by decide)

theorem reference?_gt (b : Bool) (rest : List Char) :
    reference? b ("gt;".toList ++ rest) = some ⟨['>'], false, rest⟩ :=
  reference?_append 'g' ['t'] b rest (by decide) (by decide) (by decide)

theorem reference?_quot (b : Bool) (rest : List Char) :
    reference? b ("quot;".toList ++ rest) = some ⟨['"'], false, rest⟩ :=
  reference?_append 'q' ['u', 'o', 't'] b rest (by decide) (by decide) (by decide)

/-! ## Characters -/

/-- Nothing is escaped to nothing. -/
theorem escapeTextChar_ne_nil (c : Char) : escapeTextChar c ≠ [] := by
  rw [escapeTextChar]
  split
  · simp
  · split
    · simp
    · split <;> simp

theorem escapeAttributeChar_ne_nil (c : Char) : escapeAttributeChar c ≠ [] := by
  rw [escapeAttributeChar]
  split
  · simp
  · split
    · simp
    · split
      · simp
      · split <;> simp

/-- A reference is read as the characters that it stands for. -/
theorem lexMarkup_reference {r : Reference} {s : List Char} (sections : Bool)
    (h : reference? false s = some r) : lexMarkup sections ('&' :: s) = ⟨r.tokens, r.rest⟩ := by
  simp [lexMarkup, h]

/-- **A character of running text is read back** as a token of its own. -/
theorem lexMarkup_escapeTextChar (sections : Bool) (c : Char) (rest : List Char) :
    lexMarkup sections (escapeTextChar c ++ rest) = ⟨[.char c], rest⟩ := by
  rw [escapeTextChar]
  split
  · next h =>
    subst h
    exact lexMarkup_reference sections (reference?_amp false rest)
  · next hamp =>
    split
    · next h =>
      subst h
      exact lexMarkup_reference sections (reference?_lt false rest)
    · next hlt =>
      split
      · next h =>
        subst h
        exact lexMarkup_reference sections (reference?_gt false rest)
      · simp [lexMarkup, hamp, hlt]

/-- A reference in a value, whose text is as long as what `s` has in front of the rest. -/
theorem resolveFrom_reference {s rest chars : List Char}
    (h : reference? true (s ++ rest) = some ⟨chars, false, rest⟩) :
    resolveFrom 0 ('&' :: (s ++ rest)) = chars ++ resolveFrom 0 rest := by
  have hskip : ∀ (t : List Char), resolveFrom t.length (t ++ rest) = resolveFrom 0 rest := by
    intro t
    induction t with
    | nil => rfl
    | cons c t ih => simpa [resolveFrom] using ih
  simp [resolveFrom, h, hskip]

/-- An escaped character of an attribute is resolved to itself. -/
theorem resolveFrom_escapeAttributeChar {c : Char} (hc : c ≠ '\x00') (rest : List Char) :
    resolveFrom 0 (escapeAttributeChar c ++ rest) = c :: resolveFrom 0 rest := by
  rw [escapeAttributeChar]
  split
  · next h =>
    subst h
    exact resolveFrom_reference (reference?_amp true rest)
  · next hamp =>
    split
    · next h =>
      subst h
      exact resolveFrom_reference (reference?_quot true rest)
    · split
      · next h =>
        subst h
        exact resolveFrom_reference (reference?_lt true rest)
      · split
        · next h =>
          subst h
          exact resolveFrom_reference (reference?_gt true rest)
        · simp [resolveFrom, hamp, withoutNull, hc]

/-- **A value is read back.** -/
theorem resolveAttribute_escapeAttribute {value : String} (h : '\x00' ∉ value.toList) :
    resolveAttribute (escapeAttribute value.toList) = value := by
  have hall : ∀ s : List Char, '\x00' ∉ s → resolveFrom 0 (escapeAttribute s) = s := by
    intro s hs
    induction s with
    | nil => rfl
    | cons c s ih =>
      rw [List.mem_cons, not_or] at hs
      rw [escapeAttribute, List.flatMap_cons, resolveFrom_escapeAttributeChar (Ne.symm hs.1)]
      exact congrArg (c :: ·) (ih hs.2)
  rw [resolveAttribute, hall _ h, String.ofList_toList]

/-- No quote is left in an escaped attribute. -/
theorem quote_not_mem_escapeAttribute (s : List Char) : '"' ∉ escapeAttribute s := by
  simp only [escapeAttribute, List.mem_flatMap, not_exists, not_and]
  intro c _
  rw [escapeAttributeChar]
  split
  · decide
  · split
    · decide
    · next hquot =>
      split
      · decide
      · split
        · decide
        · simpa using Ne.symm hquot

end Pane.Markup
