import Pane.Proofs.Style.Isolation
import Pane.Proofs.Style.Replaced

/-!
# Registries of plain sheets

Sheets whose selectors and blocks have no backslash, quote, brace or comment are registered, and
their rules are written under their hashes.  Nothing is asked of brackets here, and nothing has to
be: a prelude is cut off only where its brackets are closed, and what a block leaves open is left
open by its last declaration.

**Preludes.**  `Piece.Cut` — where a prelude is cut off; `mem_rules_read` — what the rules of a text
are read from.

**Plain rules.**  `Rule.Plain`; `cleanSuffix_of_plain` — the suffixes of its selectors are clean.

**Registries.**  `Registration.Regular` — what is asked of a content;
**`regular_of_mem_registrations`** — sheets of plain rules register no other.
`Registry.Within.regular_rule` — and what is written for such a content is regular.
-/

namespace Pane.Style

/-! ## Preludes -/

/-- A prelude that was cut off: without the spaces around it, where a semicolon and a brace would
have counted. -/
structure CutPrelude (prelude : List Char) : Prop where
  trimmed : Text.trim prelude = prelude
  noSemicolon : Undivided ';' .top prelude
  noBrace : Undivided '{' .top prelude
  /-- Only an escaped space may have stood at its end. -/
  ends : Nesting.top.after prelude = .top ∨ Nesting.top.after prelude = ⟨.escaped, 0⟩

/-- The prelude of a piece was cut off, and its block has its braces in pairs. -/
def Piece.Cut : Piece → Prop
  | .statement prelude => CutPrelude prelude
  | .block prelude body => CutPrelude prelude ∧ Balanced body

/-- What is known of a prelude while it and its block are read. -/
def Reading.Cut : Reading → Prop
  | .inPrelude seen n => Nesting.top.after seen.reverse = n ∧
      Undivided ';' .top seen.reverse ∧ Undivided '{' .top seen.reverse
  | .inBody prelude seen quoting depth => CutPrelude prelude ∧
      ∀ s, balancedFrom quoting depth s = true → Balanced (seen.reverse ++ s)

section trim

variable {separator : Char} {s r : List Char}

theorem undivided_trim (h : Undivided separator .top s) :
    Undivided separator .top (Text.trim s) := by
  obtain ⟨l, r, hs, hl, -⟩ := Text.exists_trim s
  have hafter : Nesting.top.after l = .top :=
    Nesting.steady_top.after_eq_self fun c hc => Nesting.not_mem_marks_of_isSpace (hl c hc)
  rw [hs, List.append_assoc, undivided_append, undivided_append, hafter] at h
  exact h.2.1

/-- Without the spaces at its ends a closed text is closed, or ends in the backslash of an escaped
space. -/
theorem ends_trim (h : Nesting.top.after s = .top) :
    Nesting.top.after (Text.trim s) = .top ∨ Nesting.top.after (Text.trim s) = ⟨.escaped, 0⟩ := by
  obtain ⟨l, r, hs, hl, hr⟩ := Text.exists_trim s
  have hafter : Nesting.top.after l = .top :=
    Nesting.steady_top.after_eq_self fun c hc => Nesting.not_mem_marks_of_isSpace (hl c hc)
  rw [hs, Nesting.after_append, Nesting.after_append, hafter] at h
  exact (Nesting.proper_top.after _).of_after_spaces hr h

theorem after_append_spaces (hback : '\\' ∉ s) (hr : ∀ c ∈ r, Text.isSpace c = true) :
    Nesting.top.after (s ++ r) = Nesting.top.after s := by
  rw [Nesting.after_append]
  exact (Nesting.steady_top.after hback).after_eq_self fun c hc =>
    Nesting.not_mem_marks_of_isSpace (hr c hc)

theorem after_trim (hback : '\\' ∉ Text.trim s) :
    Nesting.top.after (Text.trim s) = Nesting.top.after s := by
  obtain ⟨l, r, hs, hl, hr⟩ := Text.exists_trim s
  have hafter : Nesting.top.after l = .top :=
    Nesting.steady_top.after_eq_self fun c hc => Nesting.not_mem_marks_of_isSpace (hl c hc)
  have hwhole : Nesting.top.after s = Nesting.top.after (l ++ (Text.trim s ++ r)) := by
    rw [← List.append_assoc, ← hs]
  rw [hwhole, Nesting.after_append, hafter, after_append_spaces hback hr]

/-- What was read up to a separator that counts is a prelude without the spaces around it. -/
theorem cutPrelude_trim (hclosed : Nesting.top.after s = .top) (hsemicolon : Undivided ';' .top s)
    (hbrace : Undivided '{' .top s) : CutPrelude (Text.trim s) :=
  ⟨Text.trim_trim s, undivided_trim hsemicolon, undivided_trim hbrace, ends_trim hclosed⟩

end trim

theorem Reading.cut_start : start.Cut := ⟨rfl, rfl, rfl⟩

theorem Reading.Cut.next {r : Reading} (h : r.Cut) (c : Char) :
    (r.next c).1.Cut ∧ ∀ piece ∈ (r.next c).2, piece.Cut := by
  cases r with
  | inPrelude seen n =>
    obtain ⟨hafter, hcut, hopen⟩ := h
    rw [Reading.next]
    split
    · next hsemicolon =>
      have hprelude := cutPrelude_trim (hafter.trans hsemicolon.1) hcut hopen
      exact ⟨cut_start, fun piece hpiece => by cases hpiece; exact hprelude⟩
    · next hsemicolon =>
      split
      · next hbrace =>
        exact ⟨⟨cutPrelude_trim (hafter.trans hbrace.1) hcut hopen, fun s hs => hs⟩, by simp⟩
      · next hbrace =>
        refine ⟨?_, by simp⟩
        rw [Cut, List.reverse_cons, Nesting.after_append, undivided_append, undivided_append,
          hafter]
        exact ⟨rfl, ⟨hcut, undivided_cons.2 ⟨hsemicolon, rfl⟩⟩, hopen,
          undivided_cons.2 ⟨hbrace, rfl⟩⟩
  | inBody prelude seen quoting depth =>
    obtain ⟨hprelude, hbody⟩ := h
    have hseen : ∀ s, (c :: seen).reverse ++ s = seen.reverse ++ c :: s := fun s => by simp
    by_cases hclose : quoting = .plain ∧ c = '}'
    · obtain ⟨rfl, rfl⟩ := hclose
      cases depth with
      | zero =>
        refine ⟨cut_start, fun piece hpiece => ?_⟩
        cases hpiece
        have hwhole := hbody [] rfl
        rw [List.append_nil] at hwhole
        exact ⟨hprelude, hwhole⟩
      | succ depth =>
        refine ⟨⟨hprelude, fun s hs => ?_⟩, fun piece hpiece => by cases hpiece⟩
        rw [hseen]
        refine hbody _ ?_
        rw [balancedFrom, if_pos ⟨rfl, rfl⟩]
        exact hs
    · have hnext : (Reading.inBody prelude seen quoting depth).next c =
          (.inBody prelude (c :: seen) (quoting.next c)
            (if quoting = .plain ∧ c = '{' then depth + 1 else depth), none) := by
        simp [Reading.next, hclose]
      rw [hnext]
      refine ⟨⟨hprelude, fun s hs => ?_⟩, fun piece hpiece => by cases hpiece⟩
      rw [hseen]
      refine hbody _ ?_
      rw [balancedFrom, if_neg hclose]
      exact hs

/-- **The preludes of all pieces were cut off**, and their blocks have their braces in pairs. -/
theorem cut_of_mem_outlineFrom {r : Reading} (h : r.Cut) {s : List Char} :
    ∀ piece ∈ outlineFrom r s, piece.Cut := by
  induction s generalizing r with
  | nil => exact fun piece hpiece => absurd hpiece List.not_mem_nil
  | cons c s ih =>
    intro piece hpiece
    obtain ⟨hnext, hdone⟩ := h.next c
    rcases List.mem_append.1 hpiece with hpiece | hpiece
    · exact hdone piece (Option.mem_toList.1 hpiece)
    · exact ih hnext piece hpiece

theorem of_rule?_eq_some {piece : Piece} (hcut : piece.Cut) {rule : Rule}
    (h : piece.rule? = some rule) :
    ∃ prelude body, CutPrelude prelude ∧ rule = readRule prelude body := by
  cases piece with
  | statement prelude => cases h
  | block prelude body =>
    rw [Piece.rule?] at h
    split at h
    · cases h
    · obtain rfl := Option.some.inj h
      exact ⟨prelude, body, hcut.1, rfl⟩

/-- **What the rules of a text are read from**: a prelude that was cut off, and a block. -/
theorem mem_rules_read {text : String} {x : Option UInt32 × Rule}
    (h : x ∈ (Sheet.read text).rules) :
    ∃ prelude body, CutPrelude prelude ∧ x.2 = readRule prelude body := by
  obtain ⟨i, hi, hx⟩ := List.mem_flatMap.1 h
  obtain ⟨piece, hpiece, hitem⟩ := List.mem_filterMap.1 hi
  have hcut : piece.Cut := cut_of_mem_outlineFrom Reading.cut_start piece hpiece
  cases piece with
  | statement prelude =>
    rw [Piece.item?] at hitem
    split at hitem
    · obtain rfl := Option.some.inj hitem
      exact absurd hx List.not_mem_nil
    · cases hitem
  | block prelude body =>
    rw [Piece.item?] at hitem
    split at hitem
    · split at hitem
      · obtain rfl := Option.some.inj hitem
        obtain ⟨rule, hrule, rfl⟩ := List.mem_map.1 hx
        obtain ⟨inner, hinner, hread⟩ := List.mem_filterMap.1 hrule
        exact of_rule?_eq_some (cut_of_mem_outlineFrom Reading.cut_start inner hinner) hread
      · obtain rfl := Option.some.inj hitem
        exact absurd hx List.not_mem_nil
    · obtain ⟨rule, hrule, rfl⟩ := Option.map_eq_some_iff.1 hitem
      obtain rfl := List.mem_singleton.1 hx
      exact of_rule?_eq_some hcut hrule

/-! ## Plain rules -/

/-- A rule of plain texts. -/
structure Rule.Plain (r : Rule) : Prop where
  selectors : ∀ sel ∈ r.selectors, PlainText sel.toList
  block : PlainText (declarationChars r.declarations)

instance (r : Rule) : Decidable r.Plain :=
  decidable_of_iff
    ((∀ sel ∈ r.selectors, PlainText sel.toList) ∧ PlainText (declarationChars r.declarations))
    ⟨fun ⟨hselectors, hblock⟩ => ⟨hselectors, hblock⟩, fun h => ⟨h.selectors, h.block⟩⟩

/-- A part between commas has no semicolon that counts if the whole text has none. -/
theorem undivided_of_mem_cutFrom {separator other : Char} {n : Nesting} {s : List Char}
    (hsep : Nesting.top.next separator = .top) (h : Undivided other n s) :
    Undivided other n (cutFrom separator n s).1 ∧
      ∀ part ∈ (cutFrom separator n s).2, Undivided other .top part := by
  induction s generalizing n with
  | nil => exact ⟨rfl, fun part hpart => absurd hpart List.not_mem_nil⟩
  | cons c s ih =>
    obtain ⟨hc, hs⟩ := undivided_cons.1 h
    rw [cutFrom]
    split
    · next hcut =>
      obtain ⟨rfl, rfl⟩ := hcut
      rw [hsep] at hs
      obtain ⟨hfirst, hmore⟩ := ih hs
      exact ⟨rfl, List.forall_mem_cons.2 ⟨hfirst, hmore⟩⟩
    · obtain ⟨hfirst, hmore⟩ := ih hs
      exact ⟨undivided_cons.2 ⟨hc, hfirst⟩, hmore⟩

/-- The characters of a prelude are those of its selectors, commas and spaces. -/
theorem mem_selector_of_mem_prelude {prelude : List Char} {c : Char} (hc : c ∈ prelude)
    (hcomma : c ≠ ',') (hspace : Text.isSpace c = false) :
    ∃ sel ∈ readSelectors prelude, c ∈ sel.toList := by
  have hpart : ∀ parts : List (List Char), c ∈ joinChars [','] parts →
      ∃ part ∈ parts, c ∈ part := by
    intro parts
    induction parts with
    | nil => exact fun h => absurd h List.not_mem_nil
    | cons part parts ih =>
      intro h
      cases parts with
      | nil => exact ⟨part, List.mem_cons_self .., h⟩
      | cons part' parts =>
        rw [joinChars, List.mem_append, List.mem_append, List.mem_singleton] at h
        rcases h with (h | h) | h
        · exact ⟨part, List.mem_cons_self .., h⟩
        · exact absurd h hcomma
        · obtain ⟨q, hq, hmem⟩ := ih h
          exact ⟨q, List.mem_cons_of_mem _ hq, hmem⟩
  rw [← joinChars_cutTopLevel ',' prelude] at hc
  obtain ⟨part, hmem, hc⟩ := hpart _ hc
  obtain ⟨l, r, hs, hl, hr⟩ := Text.exists_trim part
  have htrim : c ∈ Text.trim part := by
    rw [hs, List.mem_append, List.mem_append] at hc
    rcases hc with (hc | hc) | hc
    · exact absurd (hl c hc) (by simp [hspace])
    · exact hc
    · exact absurd (hr c hc) (by simp [hspace])
  refine ⟨String.ofList (Text.trim part), ?_, by rwa [String.toList_ofList]⟩
  refine List.mem_map_of_mem (List.mem_filter.2 ⟨List.mem_map_of_mem hmem, ?_⟩)
  simpa using List.ne_nil_of_mem htrim

/-- **The selectors of a prelude** are not empty and have no spaces at their ends, and nothing
counts in them that would cut them. -/
theorem cut_of_mem_readSelectors {prelude : List Char} (hprelude : CutPrelude prelude)
    {sel : String}
    (hsel : sel ∈ readSelectors prelude) :
    sel.toList ≠ [] ∧ Text.trim sel.toList = sel.toList ∧ Undivided ',' .top sel.toList ∧
      Undivided ';' .top sel.toList ∧ Undivided '{' .top sel.toList := by
  obtain ⟨text, htext, rfl⟩ := List.mem_map.1 hsel
  obtain ⟨htext, hne⟩ := List.mem_filter.1 htext
  obtain ⟨part, hpart, rfl⟩ := List.mem_map.1 htext
  have hcomma := (of_mem_cutTopLevel_dropLast ',' prelude).1 part hpart
  have hother {other : Char} (h : Undivided other .top prelude) : Undivided other .top part := by
    have hsep : Nesting.top.next ',' = .top := by decide
    obtain ⟨hfirst, hmore⟩ := undivided_of_mem_cutFrom hsep h
    rcases List.mem_cons.1 hpart with rfl | hpart
    · exact hfirst
    · exact hmore part hpart
  rw [String.toList_ofList]
  exact ⟨by simpa using hne, Text.trim_trim part, undivided_trim hcomma,
    undivided_trim (hother hprelude.noSemicolon), undivided_trim (hother hprelude.noBrace)⟩

/-- **The selectors of a plain rule** close their brackets, and no comma or semicolon counts in
them. -/
theorem of_mem_readSelectors {prelude : List Char} (hprelude : CutPrelude prelude)
    (hplain : ∀ sel ∈ readSelectors prelude, PlainText sel.toList) {sel : String}
    (hsel : sel ∈ readSelectors prelude) : Nesting.top.after sel.toList = .top ∧
      Undivided ',' .top sel.toList ∧ Undivided ';' .top sel.toList := by
  obtain ⟨-, -, hcomma, hsemicolon, -⟩ := cut_of_mem_readSelectors hprelude hsel
  refine ⟨?_, hcomma, hsemicolon⟩
  have hback : '\\' ∉ prelude := by
    intro hmem
    obtain ⟨sel', hsel', hc⟩ := mem_selector_of_mem_prelude hmem (by decide) (by decide)
    exact (hplain sel' hsel').noMark _ hc (by decide)
  have htop : Nesting.top.after prelude = .top := by
    rcases hprelude.ends with htop | hescaped
    · exact htop
    · rcases Nesting.steady_top.after hback with hplain | hplain | hplain <;>
        rw [hescaped] at hplain <;> cases hplain
  have hselback : '\\' ∉ sel.toList := fun hmem => (hplain sel hsel).noMark _ hmem (by decide)
  obtain ⟨text, htext, rfl⟩ := List.mem_map.1 hsel
  obtain ⟨part, hpart, rfl⟩ := List.mem_map.1 (List.mem_of_mem_filter htext)
  rw [String.toList_ofList] at hselback ⊢
  exact (after_trim hselback).trans (of_mem_cutTopLevel (by decide) htop hpart).2

/-- A class name without escapes is the beginning of the text. -/
theorem of_readName_eq_some {s name rest : List Char} (hback : '\\' ∉ s)
    (h : readName .plain s = some (name, rest)) :
    s = name ++ rest ∧ ∀ c ∈ name, isNameChar c = true := by
  induction s generalizing name with
  | nil =>
    obtain ⟨rfl, rfl⟩ := Prod.mk.inj (Option.some.inj h)
    exact ⟨rfl, List.forall_mem_nil _⟩
  | cons c s ih =>
    rw [List.mem_cons, not_or] at hback
    simp only [readName, Spelling.absorb, Spelling.spelled, if_neg (Ne.symm hback.1)] at h
    split at h
    · next hc =>
      obtain ⟨⟨name', rest'⟩, hname, he⟩ := Option.map_eq_some_iff.1 h
      obtain ⟨rfl, rfl⟩ := Prod.mk.inj he
      obtain ⟨rfl, hchars⟩ := ih hback.2 hname
      exact ⟨rfl, List.forall_mem_cons.2 ⟨hc, hchars⟩⟩
    · obtain ⟨rfl, rfl⟩ := Prod.mk.inj (Option.some.inj h)
      exact ⟨rfl, List.forall_mem_nil _⟩

/-- A plain text that closes its brackets, and in which no comma and no semicolon counts, is a
clean suffix. -/
theorem PlainText.cleanSuffix {s : List Char} (h : PlainText s)
    (hclosed : Nesting.top.after s = .top) (hcomma : Undivided ',' .top s)
    (hsemicolon : Undivided ';' .top s) : CleanSuffix s where
  text :=
    { noBackslash := fun hmem => h.noMark _ hmem (by decide)
      noBrace := ⟨fun hmem => h.noMark _ hmem (by decide), fun hmem => h.noMark _ hmem (by decide)⟩
      noComment := uncommented_iff.1 h.uncommented
      closed := hclosed }
  noComma := hcomma
  noSemicolon := hsemicolon

/-- **The suffix of a plain selector is clean.** -/
theorem cleanSuffix_of_plain {sel : String} {s : ClassSelector}
    (hplain : PlainText sel.toList) (hclosed : Nesting.top.after sel.toList = .top)
    (hcomma : Undivided ',' .top sel.toList) (hsemicolon : Undivided ';' .top sel.toList)
    (h : ClassSelector.read? sel = some s) :
    CleanSuffix s.suffix.toList ∧ PlainText s.suffix.toList := by
  have htrimmed := hplain.part (Text.infix_trim sel.toList)
  have hback : '\\' ∉ Text.trim sel.toList := fun hmem => htrimmed.noMark _ hmem (by decide)
  rw [← after_trim hback] at hclosed
  have hcomma := undivided_trim hcomma
  have hsemicolon := undivided_trim hsemicolon
  rw [ClassSelector.read?, ClassSelector.readChars?] at h
  split at h
  · next rest htrim =>
    split at h
    · cases h
    · next name suffix hname =>
      split at h
      · cases h
      · obtain rfl := Option.some.inj h
        rw [htrim] at htrimmed hback hclosed hcomma hsemicolon
        obtain ⟨rfl, hchars⟩ := of_readName_eq_some
          (fun hmem => hback (List.mem_cons_of_mem _ hmem)) hname
        obtain ⟨r, hr, hspace⟩ := Text.exists_trimEnd suffix
        have hmarks : ∀ c ∈ '.' :: name, c ∉ Nesting.marks := by
          refine List.forall_mem_cons.2 ⟨by decide, fun c hc => ?_⟩
          exact Text.not_mem_of_all (by decide) (hchars c hc)
        have hafter : Nesting.top.after ('.' :: name) = .top :=
          Nesting.steady_top.after_eq_self hmarks
        have htext : '.' :: (name ++ suffix) = ('.' :: name) ++ (Text.trimEnd suffix ++ r) := by
          rw [← hr, List.cons_append]
        rw [htext] at htrimmed hback hclosed hcomma hsemicolon
        rw [undivided_append, hafter, undivided_append] at hcomma hsemicolon
        have hsuffix : PlainText (Text.trimEnd suffix) :=
          htrimmed.part ⟨'.' :: name, r, by simp⟩
        have hend : '\\' ∉ Text.trimEnd suffix := fun hmem => hsuffix.noMark _ hmem (by decide)
        rw [Nesting.after_append, hafter, after_append_spaces hend hspace] at hclosed
        rw [String.toList_ofList]
        exact ⟨hsuffix.cleanSuffix hclosed hcomma.2.1 hsemicolon.2.1, hsuffix⟩
  · cases h

/-! ## Contents -/

/-- What is asked of a content: its suffix is clean, its block is plain and stays apart, and no
`url(` runs into a reference of it. -/
structure Registration.Regular (p : Registration) : Prop where
  suffix : CleanSuffix p.suffix.toList
  plainSuffix : PlainText p.suffix.toList
  ends : EndsName p.suffix.toList
  trimmed : Text.trimEnd p.suffix.toList = p.suffix.toList
  filled : p.declarations ≠ []
  plain : PlainText (declarationChars p.declarations)
  apart : Apart p.declarations
  clear : ∀ d ∈ p.declarations, d.Clear

theorem Registration.filled_of_ofClass? {selector : String} {ds : List Declaration}
    {width : Option UInt32} {p : Registration} (h : ofClass? selector ds width = some p) :
    p.declarations ≠ [] := by
  rw [ofClass?] at h
  split at h
  · cases h
  · split at h
    · cases h
    · next hne =>
      obtain rfl := Option.some.inj h
      exact hne

/-- **A plain rule registers regular contents.** -/
theorem Rule.Plain.regular_of_mem {prelude body : List Char} (hprelude : CutPrelude prelude)
    (hplain : (readRule prelude body).Plain)
    (hclear : ∀ d ∈ (readRule prelude body).declarations, d.Clear) {width : Option UInt32}
    {p : Registration} (hp : p ∈ (readRule prelude body).registrations width) : p.Regular := by
  obtain ⟨sel, hsel, hp⟩ := List.mem_filterMap.1 hp
  obtain ⟨s, hs, hsuffix, -, hds⟩ := Registration.of_ofClass?_eq_some hp
  obtain ⟨hclosed, hcomma, hsemicolon⟩ := of_mem_readSelectors hprelude hplain.selectors hsel
  obtain ⟨hclean, hplainSuffix⟩ :=
    cleanSuffix_of_plain (hplain.selectors sel hsel) hclosed hcomma hsemicolon hs
  obtain ⟨hends, htrimmed⟩ := read?_eq_some hs
  have hapart : Apart (readDeclarations body) :=
    apart_readDeclarations fun hmem => hplain.block.noMark _ hmem (by decide)
  rw [← hsuffix] at hclean hplainSuffix hends htrimmed
  refine ⟨hclean, hplainSuffix, hends, htrimmed, Registration.filled_of_ofClass? hp, ?_, ?_, ?_⟩
  · rw [hds]
    exact hplain.block
  · rw [hds]
    exact hapart
  · rw [hds]
    exact hclear

/-- **Sheets of plain rules register regular contents only.** -/
theorem regular_of_mem_registrations {texts : List String}
    (hplain : ∀ text ∈ texts, ∀ x ∈ (Sheet.read text).rules, x.2.Plain)
    (hclear : ∀ text ∈ texts, ∀ x ∈ (Sheet.read text).rules, ∀ d ∈ x.2.declarations, d.Clear)
    {p : Registration} (hp : p ∈ registrations (texts.map .sheet)) : p.Regular := by
  obtain ⟨call, hcall, hp⟩ := mem_registrations.1 hp
  obtain ⟨text, htext, rfl⟩ := List.mem_map.1 hcall
  obtain ⟨x, hx, hp⟩ := List.mem_flatMap.1 hp
  have hrule := hplain text htext x hx
  have hrefs := hclear text htext x hx
  obtain ⟨prelude, body, hprelude, hread⟩ := mem_rules_read hx
  rw [hread] at hrule hrefs hp
  exact hrule.regular_of_mem hprelude hrefs hp

/-! ## Written rules -/

namespace Registry

variable {r : Registry} {ps : List Registration}

/-- **The rule that is written for a regular content is regular.** -/
theorem Within.regular_rule (h : r.Within ps) {p : Registration} (hp : p.Regular) {hash : String}
    (he : r.rules.get? hash = some p.entry) : (p.entry.rule hash).Regular := by
  have hname := h.isAlphanumeric he
  have hchars : ("." ++ hash ++ p.suffix).toList = '.' :: (hash.toList ++ p.suffix.toList) := by
    simp
  have hcontained : ContainedSelector p.suffix.toList :=
    ⟨hp.suffix.text.noBrace, hp.suffix.text.closed, hp.plainSuffix.commentless⟩
  refine ⟨⟨⟨_, rfl, ?_⟩, hp.plain.containedBlock⟩, hp.plain, hp.apart, hp.clear⟩
  have hsuffix : p.entry.suffix = p.suffix := rfl
  rw [hsuffix, hchars]
  exact ⟨cleanSelector_append hname hp.suffix hp.trimmed,
    (hcontained.append_class hname).commentless⟩

end Registry

end Pane.Style
