import Pane.Proofs.Style.Stable

/-!
# Written sheets in front of any text

A sheet whose parts are sealed can be written in front of any text whatsoever: the text begins where
the sheet ends, and what is wrong with it harms no rule of the sheet.  A text is *sealed* if it has
no backslash, begins no comment, closes the strings and brackets that it opens, and has no brace
outside strings.  In strings it may have braces, commas and semicolons as it likes.

**Texts.**  `SealedText`; `SealedText.append_cons`, `SealedText.joinChars` — sealed texts with a
character between them.

**Rules.**  `Declaration.Sealed`, `Rule.Sealed`, `Sheet.Sealed` — what is asked of declarations,
rules and sheets.  `Rule.Sealed.stable` — a sealed rule is read as it is written;
`Rule.Sealed.commenting` — behind a sealed rule comments are sought as in front of it.

**Result.**  **`sealed_sheet_is_read_in_front_of_any_text`**.
-/

namespace Pane.Style

/-! ## Texts -/

/-- A text without backslashes, in which no comment begins, every string and bracket that it opens
is closed, and braces stand in strings only. -/
structure SealedText (s : List Char) : Prop where
  noBackslash : '\\' ∉ s
  noComment : ¬"/*".toList <:+: s
  closed : Nesting.top.after s = .top
  unbraced : Unbraced .plain s

instance (s : List Char) : Decidable (SealedText s) :=
  decidable_of_iff
    ('\\' ∉ s ∧ ¬"/*".toList <:+: s ∧ Nesting.top.after s = .top ∧ Unbraced .plain s)
    ⟨fun ⟨hback, hcomment, hclosed, hbrace⟩ => ⟨hback, hcomment, hclosed, hbrace⟩,
      fun h => ⟨h.noBackslash, h.noComment, h.closed, h.unbraced⟩⟩

/-- An opening brace that does not count in a text does not cut it. -/
theorem Unbraced.undivided {s : List Char} {n : Nesting} (h : Unbraced n.quoting s) :
    Undivided '{' n s := by
  induction s generalizing n with
  | nil => rfl
  | cons c s ih =>
    obtain ⟨hc, hs⟩ := h
    refine undivided_cons.2 ⟨?_, ih (n := n.next c) hs⟩
    rintro ⟨rfl, rfl⟩
    exact hc ⟨rfl, .inl rfl⟩

/-- No brace counts in a text exactly if none does in its parts. -/
theorem unbraced_append {s t : List Char} {n : Nesting} :
    Unbraced n.quoting (s ++ t) ↔ Unbraced n.quoting s ∧ Unbraced (n.after s).quoting t := by
  induction s generalizing n with
  | nil => exact ⟨fun h => ⟨trivial, h⟩, fun h => h.2⟩
  | cons c s ih =>
    have hrest := ih (n := n.next c)
    rw [List.cons_append, Unbraced, Unbraced, Nesting.after_cons, and_assoc]
    exact and_congr_right fun _ => hrest

namespace SealedText

variable {s t : List Char}

theorem uncommented (h : SealedText s) : Uncommented s := uncommented_iff.2 h.noComment

theorem plain (h : SealedText s) : (Nesting.top.after s).quoting = .plain := by
  rw [h.closed]
  rfl

theorem balanced (h : SealedText s) : Balanced s := h.unbraced.balancedFrom (n := .top) h.plain

theorem commentless (h : SealedText s) : Commentless s :=
  commentless_of_closed h.noBackslash h.plain h.uncommented

/-- Sealed texts with a character between them that neither counts nor belongs to a comment. -/
theorem append_cons {c : Char} (hs : SealedText s) (ht : SealedText t)
    (hc : c ∉ ['\\', '{', '}', '/', '*']) (hnext : Nesting.top.next c = .top) :
    SealedText (s ++ c :: t) := by
  simp only [List.mem_cons, List.not_mem_nil, or_false, not_or] at hc
  obtain ⟨hback, hopen, hclose, hslash, hstar⟩ := hc
  refine ⟨?_, ?_, ?_, ?_⟩
  · simp [hs.noBackslash, ht.noBackslash, Ne.symm hback]
  · have hrest := uncommented_cons hslash ht.uncommented
    exact uncommented_iff.1 (hs.uncommented.append_cons hstar hrest)
  · rw [Nesting.after_append, hs.closed, Nesting.after_cons, hnext, ht.closed]
  · refine (unbraced_append (n := .top)).2 ⟨hs.unbraced, ?_⟩
    rw [hs.closed]
    have hquoting : Nesting.top.quoting.next c = .plain := congrArg Nesting.quoting hnext
    refine ⟨fun h => h.2.elim hopen hclose, ?_⟩
    rw [hquoting]
    exact ht.unbraced

theorem nil : SealedText [] :=
  ⟨List.not_mem_nil, uncommented_iff.1 List.isChain_nil, rfl, trivial⟩

/-- Sealed parts joined by what opens nothing are sealed. -/
theorem joinChars {c : Char} (hc : c ∉ ['\\', '{', '}', '/', '*'])
    (hnext : Nesting.top.next c = .top) {parts : List (List Char)}
    (h : ∀ part ∈ parts, SealedText part) : SealedText (Style.joinChars [c] parts) := by
  induction parts with
  | nil => exact nil
  | cons part parts ih =>
    obtain ⟨hpart, hparts⟩ := List.forall_mem_cons.1 h
    cases parts with
    | nil => exact hpart
    | cons part' parts =>
      rw [Style.joinChars, List.append_assoc]
      exact hpart.append_cons (ih hparts) hc hnext

end SealedText

/-! ## Rules -/

/-- What is asked of a selector: it is sealed and not empty, has no space at its ends, and neither a
comma nor a semicolon counts in it. -/
structure SealedSelector (s : List Char) : Prop where
  text : SealedText s
  ne_nil : s ≠ []
  trimmed : Text.trim s = s
  noComma : Undivided ',' .top s
  noSemicolon : Undivided ';' .top s

/-- What is asked of a property: it is not empty, has no space at its ends, is written as it is
compared, in lower case or with two dashes in front, and has no character that means anything. -/
structure SealedProperty (s : List Char) : Prop where
  ne_nil : s ≠ []
  trimmed : Text.trim s = s
  lowered : propertyName s = s
  noMark : ∀ c ∈ s, c ∉ ':' :: ';' :: '{' :: '}' :: Nesting.marks
  noComment : ¬"/*".toList <:+: s

/-- What is asked of a value: it is sealed and not empty, has no space at its ends, and no semicolon
counts in it. -/
structure SealedValue (s : List Char) : Prop where
  text : SealedText s
  ne_nil : s ≠ []
  trimmed : Text.trim s = s
  noSemicolon : Undivided ';' .top s

instance (s : List Char) : Decidable (SealedSelector s) :=
  decidable_of_iff
    (SealedText s ∧ s ≠ [] ∧ Text.trim s = s ∧ Undivided ',' .top s ∧ Undivided ';' .top s)
    ⟨fun ⟨h, hne, htrim, hcomma, hsemicolon⟩ => ⟨h, hne, htrim, hcomma, hsemicolon⟩,
      fun h => ⟨h.text, h.ne_nil, h.trimmed, h.noComma, h.noSemicolon⟩⟩

-- As for plain texts the marks are looked for with `List.all`.
instance (s : List Char) : Decidable (SealedProperty s) :=
  decidable_of_iff
    (s ≠ [] ∧ Text.trim s = s ∧ propertyName s = s ∧
      (s.all fun c => c ∉ ':' :: ';' :: '{' :: '}' :: Nesting.marks) = true ∧ ¬"/*".toList <:+: s)
    ⟨fun ⟨hne, htrim, hlower, hmark, hcomment⟩ =>
        ⟨hne, htrim, hlower, fun c hc => of_decide_eq_true (List.all_eq_true.1 hmark c hc),
          hcomment⟩,
      fun h => ⟨h.ne_nil, h.trimmed, h.lowered,
        List.all_eq_true.2 fun c hc => decide_eq_true (h.noMark c hc), h.noComment⟩⟩

instance (s : List Char) : Decidable (SealedValue s) :=
  decidable_of_iff (SealedText s ∧ s ≠ [] ∧ Text.trim s = s ∧ Undivided ';' .top s)
    ⟨fun ⟨h, hne, htrim, hsemicolon⟩ => ⟨h, hne, htrim, hsemicolon⟩,
      fun h => ⟨h.text, h.ne_nil, h.trimmed, h.noSemicolon⟩⟩

/-- A declaration that is sealed in both parts. -/
structure Declaration.Sealed (d : Declaration) : Prop where
  property : SealedProperty d.property.toList
  value : SealedValue d.value.toList

instance (d : Declaration) : Decidable d.Sealed :=
  decidable_of_iff (SealedProperty d.property.toList ∧ SealedValue d.value.toList)
    ⟨fun ⟨hproperty, hvalue⟩ => ⟨hproperty, hvalue⟩, fun h => ⟨h.property, h.value⟩⟩

/-- What is asked of a rule: it has selectors, which are sealed and do not start with an at-sign,
and its declarations are sealed. -/
structure Rule.Sealed (r : Rule) : Prop where
  filled : r.selectors ≠ []
  selectors : ∀ sel ∈ r.selectors, SealedSelector sel.toList
  noAtRule : ∀ sel ∈ r.selectors.head?, isAtRule sel.toList = false
  declarations : ∀ d ∈ r.declarations, d.Sealed

instance (r : Rule) : Decidable r.Sealed :=
  decidable_of_iff
    (r.selectors ≠ [] ∧ (∀ sel ∈ r.selectors, SealedSelector sel.toList) ∧
      (∀ sel ∈ r.selectors.head?, isAtRule sel.toList = false) ∧ ∀ d ∈ r.declarations, d.Sealed)
    ⟨fun ⟨hne, hselectors, hat, hds⟩ => ⟨hne, hselectors, hat, hds⟩,
      fun h => ⟨h.filled, h.selectors, h.noAtRule, h.declarations⟩⟩

/-- What is asked of a sheet: each item is a rule or a group from any width upward, and its rules
are sealed. -/
def Sheet.Sealed (s : Sheet) : Prop := ∀ i ∈ s.items, i.OfRules Rule.Sealed

instance (s : Sheet) : Decidable s.Sealed :=
  inferInstanceAs (Decidable (∀ i ∈ s.items, i.OfRules Rule.Sealed))

/-- A sealed property is a sealed text. -/
theorem SealedProperty.sealedText {s : List Char} (h : SealedProperty s) : SealedText s := by
  have hmarks : ∀ c ∈ s, c ∉ Nesting.marks := fun c hc hmem =>
    h.noMark c hc (by simp [hmem])
  refine ⟨fun hc => h.noMark _ hc (by decide), h.noComment,
    Nesting.steady_top.after_eq_self hmarks, unbraced_of_not_mem ?_ ?_ _⟩
  · exact fun hc => h.noMark _ hc (by decide)
  · exact fun hc => h.noMark _ hc (by decide)

namespace Declaration.Sealed

variable {d : Declaration} (h : d.Sealed)
include h

theorem sealedText : SealedText d.chars :=
  h.property.sealedText.append_cons h.value.text (by decide) (by decide)

/-- No semicolon cuts a sealed declaration. -/
theorem undivided : Undivided ';' .top d.chars := by
  have hproperty : ';' ∉ d.property.toList := fun hc => h.property.noMark _ hc (by decide)
  rw [Declaration.chars, undivided_append, h.property.sealedText.closed, undivided_cons]
  exact ⟨undivided_of_not_mem hproperty, by decide, h.value.noSemicolon⟩

/-- A sealed declaration is written as it is read. -/
theorem canonicalPart : CanonicalPart d.property.toList d.value.toList where
  noColon := fun hc => h.property.noMark _ hc (by decide)
  name_ne_nil := h.property.ne_nil
  value_ne_nil := h.value.ne_nil
  name_trimmed := h.property.trimmed
  value_trimmed := h.value.trimmed
  lowered := h.property.lowered

end Declaration.Sealed

namespace Rule.Sealed

variable {r : Rule} (h : r.Sealed)
include h

/-- The prelude of a sealed rule is a sealed text. -/
theorem sealedText_prelude : SealedText r.prelude :=
  SealedText.joinChars (by decide) (by decide) fun part hpart => by
    obtain ⟨sel, hsel, rfl⟩ := List.mem_map.1 hpart
    exact (h.selectors sel hsel).text

/-- So is its block. -/
theorem sealedText_block : SealedText (declarationChars r.declarations) :=
  SealedText.joinChars (by decide) (by decide) fun part hpart => by
    obtain ⟨d, hd, rfl⟩ := List.mem_map.1 hpart
    exact (h.declarations d hd).sealedText

/-- **A sealed rule is read as it is written.** -/
theorem stable : r.Stable where
  filled := h.filled
  selectors := fun sel hsel =>
    have hsealed := h.selectors sel hsel
    { ne_nil := hsealed.ne_nil
      trimmed := hsealed.trimmed
      noComma := hsealed.noComma
      noSemicolon := hsealed.noSemicolon
      noBrace := hsealed.text.unbraced.undivided (n := .top)
      closed := hsealed.text.closed }
  noAtRule := h.noAtRule
  apart :=
    { canonical := fun d hd => (h.declarations d hd).canonicalPart
      undivided := fun d hd => (h.declarations d hd).undivided
      closed := fun d hd => (h.declarations d (List.mem_of_mem_dropLast hd)).sealedText.closed }
  block := h.sealedText_block.balanced

/-- Behind a sealed rule comments are sought as in front of it. -/
theorem commenting (t : List Char) :
    Commenting.outside.after (r.chars ++ t) = Commenting.outside.after t := by
  rw [Rule.chars_eq, List.append_assoc, List.cons_append, List.append_assoc, List.singleton_append,
    h.sealedText_prelude.commentless.append_cons (by decide),
    h.sealedText_block.commentless.append_cons (by decide)]

end Rule.Sealed

/-! ## Sheets -/

/-- Comments are taken out of what follows a sealed sheet and of nothing else. -/
theorem Sheet.Sealed.stripComments_append {s : Sheet} (h : s.Sealed) (t : List Char) :
    stripComments (s.chars ++ t) = s.chars ++ stripComments t := by
  have houtside : Commenting.outside.after s.chars = .outside :=
    commenting_joinChars fun i hi => ((h i hi).imp fun _ hr => hr.commenting).commenting
  have hkeeps : (Commenting.outside.after s.chars).Keeps t := by
    rw [houtside]
    exact ⟨by simp, by simp⟩
  have hstrip := (stripFrom_append s.chars t).1 hkeeps
  rwa [houtside] at hstrip

/-- **A sealed sheet is read in front of any text.**  Behind its written form and a line break any
text may follow: the items are those of the sheet and then those of the text read alone.  Without a
text behind it the sheet is read as it is. -/
theorem sealed_sheet_is_read_in_front_of_any_text {s : Sheet} (h : s.Sealed) :
    (∀ text : String,
      (Sheet.read (s.render ++ "\n" ++ text)).items = s.items ++ (Sheet.read text).items) ∧
    Sheet.read s.render = s := by
  have halone : ∀ i ∈ s.items, i.StandsAlone := fun i hi =>
    ((h i hi).imp fun _ hr => ⟨hr.stable, hr.sealedText_prelude.balanced⟩).standsAlone
  constructor
  · intro text
    have hchars : (s.render ++ "\n" ++ text).toList = s.chars ++ '\n' :: text.toList := by
      simp [Sheet.render]
    have hnewline : stripComments ('\n' :: text.toList) = '\n' :: stripComments text.toList := rfl
    rw [Sheet.read, hchars, Sheet.readChars, h.stripComments_append, hnewline]
    exact readItems_chars_append halone _
  · have hstrip := h.stripComments_append []
    have hnil : stripComments [] = [] := rfl
    rw [hnil, List.append_nil] at hstrip
    rw [Sheet.read, Sheet.render, String.toList_ofList, Sheet.readChars, hstrip,
      readItems_chars halone]

/-- Two selectors, a value with a brace and a semicolon in a string, and a group from the greatest
width upward. -/
def sealedSheet : Sheet :=
  ⟨[.rule ⟨[".a:not(.b,.c)", "[title=\"\x7b;,\"]"],
      [⟨"content", "\"\x7d;\" / attr(title)"⟩, ⟨"--Wide", "1px"⟩]⟩,
    .media 4294967295 [⟨["p > .d"], [⟨"color", "red"⟩]⟩]]⟩

/-- The sheet in front of a text in which a string, a bracket and a comment are left open. -/
theorem sealed_sheet_is_read_in_front_of_open_ends :
    sealedSheet.Sealed ∧
    (Sheet.read (sealedSheet.render ++ "\n" ++ ".e\x7bf:g\x7d .h(\x7b'/*")).items =
      sealedSheet.items ++ [.rule ⟨[".e"], [⟨"f", "g"⟩]⟩] ∧
    Sheet.read sealedSheet.render = sealedSheet := by
  have hsealed : sealedSheet.Sealed := by decide +kernel
  have htail : (Sheet.read ".e\x7bf:g\x7d .h(\x7b'/*").items =
      [.rule ⟨[".e"], [⟨"f", "g"⟩]⟩] := by decide +kernel
  obtain ⟨hfront, halone⟩ := sealed_sheet_is_read_in_front_of_any_text hsealed
  exact ⟨hsealed, by rw [hfront, htail], halone⟩

end Pane.Style
