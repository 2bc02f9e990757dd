import Pane.Markup.Fragment
import Pane.Proofs.Markup.Tags

/-!
# Markup that is read as it is written

Before markup reaches the lexer, scripts are taken out of it, byte order marks at the start of a
portion are left out and line ends are made uniform.  What the printer writes passes all of this
unchanged, unless it has such a character there, or a tag that could be taken for that of a script.

* `isReadable` — the characters that are left alone, the null character not being one.
* `Unmarked` — a text of which no portion starts with a mark; `ofChars_of_unmarked` — only its line
  ends are changed where it is read; **`ofChars_eq`** — without carriage returns it is read as it
  is.
* `portions_append`, `text_ofChars_append` — a text whose second portion starts with a mark.
* `Scriptless` — a text that is left whole when scripts are taken out, whatever stands behind it;
  `scriptless_openTagChars`, `scriptless_closeTagChars`, `scriptless_markerChars`,
  `scriptless_escapeText` — what the printer writes.
* **`construct_stripScripts`** — such a text reaches the lexer with nothing but its marks left out.
-/

namespace Pane.Markup

/-! ## Marks and line ends -/

/-- Whether a character is neither the null character, a byte order mark nor a carriage return. -/
def isReadable (c : Char) : Bool := c ≠ '\x00' && c ≠ byteOrderMark && c ≠ '\r'

/-- What is readable is no null, no mark and no carriage return. -/
theorem of_isReadable {c : Char} (h : isReadable c = true) :
    c ≠ '\x00' ∧ c ≠ byteOrderMark ∧ c ≠ '\r' := by
  simpa [isReadable, and_assoc] using h

/-- Without carriage returns the ends of lines are what they are. -/
theorem normalizeNewlines_eq_self : ∀ {s : List Char}, '\r' ∉ s → normalizeNewlines s = s
  | [], _ => rfl
  | c :: s, h => by
      rw [List.mem_cons, not_or] at h
      have hne : c ≠ '\r' := Ne.symm h.1
      rw [normalizeNewlines]
      · rw [if_neg hne, normalizeNewlines_eq_self h.2]
      · intro cs hr
        exact absurd hr hne

/-- There is nothing to drop where no mark stands in front. -/
theorem dropMark_eq_self {s : List Char} (h : hasMark s = false) : dropMark s = s := by
  cases s with
  | nil => rfl
  | cons c s =>
    have hc : c ≠ byteOrderMark := by simpa [hasMark] using h
    exact if_neg hc

/-- A text of which no portion starts with a byte order mark. -/
def Unmarked (s : List Char) : Prop := ∀ portion ∈ portions s, hasMark portion = false

/-- A text without the mark has none in front of a portion. -/
theorem unmarked_of_not_mem {s : List Char} (h : byteOrderMark ∉ s) : Unmarked s := by
  intro portion hportion
  have hsub : byteOrderMark ∉ portion := by
    intro hmem
    refine h ?_
    rw [← flatten_portions s]
    exact List.mem_flatten.2 ⟨portion, hportion, hmem⟩
  cases portion with
  | nil => rfl
  | cons c cs =>
    have hne : c ≠ byteOrderMark := fun he => hsub (he ▸ List.mem_cons_self ..)
    simp [hasMark, hne]

/-- Portions without a mark in front are put together as they were. -/
theorem join_eq_flatten : ∀ {parts : List (List Char)}, (∀ part ∈ parts, hasMark part = false) →
    Source.join parts = (parts.flatten, [])
  | [], _ => rfl
  | part :: parts, h => by
      obtain ⟨hpart, hparts⟩ := List.forall_mem_cons.1 h
      simp [Source.join, join_eq_flatten hparts, dropMark_eq_self hpart, hpart]

/-- A text of which no portion starts with a mark is read with uniform line ends, and no less of
it. -/
theorem ofChars_of_unmarked {s : List Char} (h : Unmarked s) :
    Source.ofChars s = ⟨normalizeNewlines s, []⟩ := by
  have hjoin : Source.join (portions s) = (s, []) := by
    rw [join_eq_flatten h, flatten_portions]
  simp [Source.ofChars, hjoin]

/-- **A text without carriage returns, of which no portion starts with a mark, is read as it
is.** -/
theorem ofChars_eq {s : List Char} (hreturn : '\r' ∉ s) (hmark : Unmarked s) :
    Source.ofChars s = ⟨s, []⟩ := by
  rw [ofChars_of_unmarked hmark, normalizeNewlines_eq_self hreturn]

/-- Characters of one byte that fill up a portion are cut off. -/
theorem cutPortions_append {s : List Char} : ∀ {front : List Char} {room : Nat},
    (∀ c ∈ front, c.utf8Size = 1) → front.length = room → front ≠ [] →
    cutPortions room (front ++ s) = (front, portions s)
  | [], _, _, _, hne => absurd rfl hne
  | [c], _, hsize, rfl, _ => by
      have hc : c.utf8Size = 1 := hsize c (List.mem_singleton_self c)
      simp [cutPortions, hc, portions]
  | c :: d :: front, _, hsize, rfl, _ => by
      obtain ⟨hc, hfront⟩ := List.forall_mem_cons.1 hsize
      have ih := cutPortions_append (s := s) hfront rfl (by simp)
      rw [List.cons_append, cutPortions, hc, if_pos (by simp), List.length_cons,
        Nat.add_sub_cancel, ih]

/-- A text that fills up a portion is a portion of its own. -/
theorem portions_append {front s : List Char} (hsize : ∀ c ∈ front, c.utf8Size = 1)
    (hlength : front.length = portionSize) : portions (front ++ s) = front :: portions s := by
  have hne : front ≠ [] := by
    rintro rfl
    exact absurd hlength (by decide)
  rw [portions, cutPortions_append hsize hlength hne]

/-- What is read of a text with a mark at the start of its second portion. -/
theorem text_ofChars_append {front s : List Char} (hsize : ∀ c ∈ front, c.utf8Size = 1)
    (hlength : front.length = portionSize) (hreturn : '\r' ∉ front ++ s)
    (hlast : portions (byteOrderMark :: s) = [byteOrderMark :: s]) :
    (Source.ofChars (front ++ byteOrderMark :: s)).text = front ++ s := by
  have hfront : dropMark front = front := by
    refine dropMark_eq_self ?_
    cases front with
    | nil => rfl
    | cons c front =>
      have hc := hsize c (List.mem_cons_self ..)
      have hmark : byteOrderMark.utf8Size = 3 := by decide
      have hne : c ≠ byteOrderMark := by
        rintro rfl
        omega
      simp [hasMark, hne]
  have hjoin : (Source.join (portions (front ++ byteOrderMark :: s))).1 = front ++ s := by
    have hsecond : dropMark (byteOrderMark :: s) = s := by
      rw [dropMark, if_pos rfl]
    rw [portions_append hsize hlength, hlast]
    simp [Source.join, hfront, hsecond]
  rw [Source.ofChars]
  simp only [hjoin, normalizeNewlines_eq_self hreturn]

/-! ## Scripts -/

/-- What is left of a text when its scripts are taken out. -/
def withoutScripts (s : List Char) : List Char := (cutBlocks "script".toList s).1

/-- A text that is left whole when scripts are taken out, whatever stands behind it. -/
def Scriptless (s : List Char) : Prop :=
  ∀ rest, withoutScripts (s ++ rest) = s ++ withoutScripts rest

theorem scriptless_nil : Scriptless [] := fun _ => rfl

/-- Texts that no script begins in are so one behind the other. -/
theorem Scriptless.append {s t : List Char} (hs : Scriptless s) (ht : Scriptless t) :
    Scriptless (s ++ t) := by
  intro rest
  rw [List.append_assoc, hs, ht, List.append_assoc]

/-- A character at which no script begins is passed over. -/
theorem withoutScripts_cons {c : Char} {s : List Char}
    (h : blockAt? "script".toList (c :: s) = none) :
    withoutScripts (c :: s) = c :: withoutScripts s := by
  simp only [withoutScripts, cutBlocks, cutBlocksFrom, h]

theorem scriptless_char {c : Char} (hc : c ≠ '<') : Scriptless [c] := by
  intro rest
  refine withoutScripts_cons ?_
  rw [blockAt?]
  intro s hs
  exact hc (List.cons.inj hs).1

/-- No script begins without a bracket. -/
theorem scriptless_of_no_bracket {s : List Char} (h : '<' ∉ s) : Scriptless s := by
  induction s with
  | nil => exact scriptless_nil
  | cons c s ih =>
    rw [List.mem_cons, not_or] at h
    exact (scriptless_char (Ne.symm h.1)).append (ih h.2)

/-- A bracket begins none if no script is named behind it. -/
theorem scriptless_bracket {s : List Char} (hs : '<' ∉ s)
    (h : ∀ rest, Text.keyword? "script".toList (s ++ rest) = none) : Scriptless ('<' :: s) := by
  intro rest
  have hblock : blockAt? "script".toList ('<' :: (s ++ rest)) = none := by
    simp only [blockAt?, h rest]
  rw [List.cons_append, withoutScripts_cons hblock, scriptless_of_no_bracket hs, List.cons_append]

/-- A keyword is not spelled by a word that does not spell it, with a character behind it that
spells none of its letters. -/
theorem keyword?_append {c : Char} :
    ∀ {k s : List Char} (rest : List Char), (∀ l ∈ k, Text.spells l c = false) →
      Text.keyword? k s = none → Text.keyword? k (s ++ c :: rest) = none
  | [], _, _, _, h => by simp [Text.keyword?] at h
  | k :: ks, [], rest, hc, _ => by
      simp [Text.keyword?, hc k (List.mem_cons_self ..)]
  | k :: ks, d :: s, rest, hc, h => by
      rw [Text.keyword?] at h
      rw [List.cons_append, Text.keyword?]
      split
      · next hd =>
        rw [if_pos hd] at h
        exact keyword?_append rest (fun l hl => hc l (List.mem_cons_of_mem _ hl)) h
      · rfl

/-! ## What the printer writes -/

/-- Whether a character is readable and no bracket. -/
def isPlain (c : Char) : Bool := isReadable c && c ≠ '<'

/-- What is plain is readable and no bracket. -/
theorem of_isPlain {c : Char} (h : isPlain c = true) : isReadable c = true ∧ c ≠ '<' := by
  simpa [isPlain] using h

/-- Whether a name is of plain characters. -/
def isPlainName (name : String) : Bool := name.toList.all isPlain

/-- A plain name is made of plain characters. -/
theorem of_isPlainName {name : String} (h : isPlainName name = true) :
    ∀ c ∈ name.toList, isPlain c = true := List.all_eq_true.1 h

theorem ne_null_of_isPlainName {name : String} (h : isPlainName name = true) :
    ∀ c ∈ name.toList, c ≠ '\x00' := by
  intro c hc
  exact (of_isReadable (of_isPlain (of_isPlainName h c hc)).1).1

theorem no_bracket_of_isPlainName {name : String} (h : isPlainName name = true) :
    '<' ∉ name.toList := fun hmem => (of_isPlain (of_isPlainName h _ hmem)).2 rfl

/-- A character of running text is written as itself, if it is no bracket, or by a reference. -/
theorem mem_escapeTextChar {c d : Char} (h : d ∈ escapeTextChar c) :
    d = c ∧ c ≠ '<' ∨ d ∈ "&amp;lt;gt;".toList := by
  have hsub : ∀ s ⊆ "&amp;lt;gt;".toList, d ∈ s → d = c ∧ c ≠ '<' ∨ d ∈ "&amp;lt;gt;".toList :=
    fun s hs hd => .inr (hs hd)
  rw [escapeTextChar] at h
  split at h
  · exact hsub _ (by simp) h
  · split at h
    · exact hsub _ (by simp) h
    · next hlt =>
      split at h
      · exact hsub _ (by simp) h
      · exact .inl ⟨List.mem_singleton.1 h, hlt⟩

/-- The same of a character of a value. -/
theorem mem_escapeAttributeChar {c d : Char} (h : d ∈ escapeAttributeChar c) :
    d = c ∧ c ≠ '<' ∨ d ∈ "&amp;lt;gt;quot;".toList := by
  have hsub : ∀ s ⊆ "&amp;lt;gt;quot;".toList,
      d ∈ s → d = c ∧ c ≠ '<' ∨ d ∈ "&amp;lt;gt;quot;".toList := fun s hs hd => .inr (hs hd)
  rw [escapeAttributeChar] at h
  split at h
  · exact hsub _ (by simp) h
  · split at h
    · exact hsub _ (by simp) h
    · split at h
      · exact hsub _ (by simp) h
      · next hlt =>
        split at h
        · exact hsub _ (by simp) h
        · exact .inl ⟨List.mem_singleton.1 h, hlt⟩

/-- No script begins in text that is escaped. -/
theorem scriptless_escapeText (s : List Char) : Scriptless (escapeText s) := by
  refine scriptless_of_no_bracket fun hmem => ?_
  obtain ⟨c, -, hc⟩ := List.mem_flatMap.1 hmem
  rcases mem_escapeTextChar hc with ⟨rfl, hne⟩ | href
  · exact hne rfl
  · exact absurd href (by decide)

/-- Written attributes have no bracket, for their values are escaped. -/
theorem no_bracket_attributesChars {attrs : List (String × String)}
    (h : ∀ a ∈ attrs, isPlainName a.1 = true) : '<' ∉ attributesChars attrs := by
  intro hmem
  obtain ⟨a, ha, hchars⟩ := List.mem_flatMap.1 hmem
  have hvalue : '<' ∉ escapeAttribute a.2.toList := by
    intro hesc
    obtain ⟨c, -, hc⟩ := List.mem_flatMap.1 hesc
    rcases mem_escapeAttributeChar hc with ⟨rfl, hne⟩ | href
    · exact hne rfl
    · exact absurd href (by decide)
  simp [attributeChars, no_bracket_of_isPlainName (h a ha), hvalue] at hchars

/-- Whether a tag is not taken for that of a script: its name is plain and does not start with the
keyword. -/
def isNoScript (tag : String) : Bool :=
  isPlainName tag && (Text.keyword? "script".toList tag.toList).isNone

/-- A tag that is written without scripts has a plain name. -/
theorem isPlainName_of_isNoScript {tag : String} (h : isNoScript tag = true) :
    isPlainName tag = true := by
  rw [isNoScript, Bool.and_eq_true] at h
  exact h.1

/-- A tag, from its bracket on, of which the part behind the name has no bracket and starts with a
space or the end of the tag. -/
theorem scriptless_tag {tag : String} (h : isNoScript tag = true) {c : Char} {s : List Char}
    (hc : c = ' ' ∨ c = '>') (hs : '<' ∉ c :: s) : Scriptless ('<' :: tag.toList ++ c :: s) := by
  have hplain := isPlainName_of_isNoScript h
  simp only [isNoScript, Bool.and_eq_true, Option.isNone_iff_eq_none] at h
  have hspells : "script".toList.all (fun l => !Text.spells l c) = true := by
    rcases hc with rfl | rfl <;> decide
  refine scriptless_bracket (s := tag.toList ++ c :: s) (fun hmem => ?_) fun rest => ?_
  · rcases List.mem_append.1 hmem with hmem | hmem
    · exact no_bracket_of_isPlainName hplain hmem
    · exact hs hmem
  · rw [List.append_assoc]
    exact keyword?_append _ (by simpa using hspells) h.2

/-- No script begins in a start tag that is not one of a script. -/
theorem scriptless_openTagChars {tag : String} {attrs : Table String} {id : Option String}
    (htag : isNoScript tag = true)
    (hattrs : ∀ a ∈ writtenAttributes attrs id, isPlainName a.1 = true) :
    Scriptless (openTagChars tag attrs id) := by
  have hall : '<' ∉ attributesChars (writtenAttributes attrs id) ++ ['>'] := by
    intro hmem
    rcases List.mem_append.1 hmem with hmem | hmem
    · exact no_bracket_attributesChars hattrs hmem
    · exact absurd hmem (by decide)
  rw [openTagChars_eq, List.append_assoc]
  cases h : writtenAttributes attrs id with
  | nil => exact scriptless_tag htag (.inr rfl) (by decide)
  | cons a as =>
    rw [h] at hall
    exact scriptless_tag htag (.inl rfl) hall

/-- So with an end tag. -/
theorem scriptless_closeTagChars {tag : String} (htag : isNoScript tag = true) :
    Scriptless (closeTagChars tag) := by
  have hplain := no_bracket_of_isPlainName (isPlainName_of_isNoScript htag)
  refine scriptless_bracket (s := '/' :: tag.toList ++ ['>']) (by simp [hplain]) fun rest => ?_
  have hslash : Text.spells 's' '/' = false := by decide
  simp [Text.keyword?, hslash]

/-- No script begins in a marker. -/
theorem scriptless_markerChars {id : String} (h : '<' ∉ id.toList) :
    Scriptless (markerChars id) := by
  have hchars : markerChars id =
      '<' :: '!' :: ("--".toList ++ markerStart.toList ++ id.toList ++ "-->".toList) := rfl
  have hbang : Text.spells 's' '!' = false := by decide
  have hstart : '<' ∉ markerStart.toList := by decide
  rw [hchars]
  refine scriptless_bracket (by simp [h, hstart]) fun rest => ?_
  simp [Text.keyword?, hbang]

/-- **A text without scripts reaches the lexer without its marks.** -/
theorem construct_stripScripts {s : List Char} (h : Scriptless s) :
    construct (stripScripts (String.ofList s)) =
      domForest (process (run (Source.ofChars s) (Source.ofChars s).text.length {}
        (Source.ofChars s).text) .eof).document := by
  have hstrip : stripScripts (String.ofList s) = String.ofList s := by
    have hwhole := h []
    have hnil : withoutScripts [] = [] := rfl
    rw [List.append_nil, hnil, List.append_nil] at hwhole
    have htext : (String.ofList s).toList = s := String.toList_ofList
    rw [stripScripts, htext]
    exact congrArg String.ofList hwhole
  simp only [hstrip, construct, String.toList_ofList]

end Pane.Markup
