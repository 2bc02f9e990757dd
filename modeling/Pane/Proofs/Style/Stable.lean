import Pane.Proofs.Style.Reread

/-!
# Rules that are read as they are written

A rule is written as its selectors with commas between them and its declarations with semicolons
between them.  Each part is cut off again as it stands if the separator behind it counts, so if the
part is closed, and if none counts in it.  The whole is cut off as one block if neither a semicolon
nor a brace counts in front of the one that opens the block, and if the block has its braces in
pairs.

**Parts.**  `closed_joinChars`, `undivided_joinChars`, `trim_joinChars` — closed parts that are put
together.

**Rules.**  `StableSelector`, `Rule.Stable` — what is asked of a selector and of a rule.
**`Rule.Stable.outlineFrom_chars`** — the text of a stable rule is cut off as one block that is read
as the rule.

**Items.**  `Item.StandsAlone` — an item that is read as it is written and leaves nothing begun.
Stable rules do, and so do groups of them whose selectors have their braces in pairs.
**`readItems_chars_append`** — a sheet of such items is read as it is written, in front of any text.

**Clean sheets.**  **`read_render`** — a clean sheet is read as it is written.
-/

namespace Pane.Style

open Reading

/-! ## Parts -/

section parts

variable {separator other : Char} {parts : List (List Char)}

/-- Closed parts joined by a separator are closed. -/
theorem closed_joinChars (hsep : Nesting.top.next separator = .top)
    (h : ∀ part ∈ parts, Nesting.top.after part = .top) :
    Nesting.top.after (joinChars [separator] parts) = .top := by
  induction parts with
  | nil => rfl
  | cons part parts ih =>
    obtain ⟨hpart, hparts⟩ := List.forall_mem_cons.1 h
    cases parts with
    | nil => exact hpart
    | cons part' parts =>
      rw [joinChars, List.append_assoc, List.singleton_append, Nesting.after_append, hpart,
        Nesting.after_cons, hsep]
      exact ih hparts

/-- What counts in none of some closed parts does not count in the whole, unless it stands between
them. -/
theorem undivided_joinChars (hsep : Nesting.top.next separator = .top) (hne : separator ≠ other)
    (h : ∀ part ∈ parts, Undivided other .top part ∧ Nesting.top.after part = .top) :
    Undivided other .top (joinChars [separator] parts) := by
  induction parts with
  | nil => rfl
  | cons part parts ih =>
    obtain ⟨⟨hpart, hclosed⟩, hparts⟩ := List.forall_mem_cons.1 h
    cases parts with
    | nil => exact hpart
    | cons part' parts =>
      rw [joinChars, List.append_assoc, List.singleton_append, undivided_append, hclosed,
        undivided_cons, hsep]
      exact ⟨hpart, fun hcut => hne hcut.2, ih hparts⟩

theorem joinChars_ne_nil (hne : parts ≠ []) (h : ∀ part ∈ parts, part ≠ []) :
    joinChars [separator] parts ≠ [] := by
  cases parts with
  | nil => exact absurd rfl hne
  | cons part parts =>
    have hpart := h part (List.mem_cons_self ..)
    cases parts with
    | nil => exact hpart
    | cons part' parts => simp [joinChars]

/-- Trimmed parts joined are trimmed. -/
theorem trim_joinChars (h : ∀ part ∈ parts, part ≠ [] ∧ Text.trim part = part) :
    Text.trim (joinChars [separator] parts) = joinChars [separator] parts := by
  induction parts with
  | nil => rfl
  | cons part parts ih =>
    obtain ⟨⟨hne, htrim⟩, hparts⟩ := List.forall_mem_cons.1 h
    cases parts with
    | nil => exact htrim
    | cons part' parts =>
      exact trim_append htrim hne (ih hparts)
        (joinChars_ne_nil (by simp) fun q hq => (hparts q hq).1) [separator]

end parts

/-! ## Rules -/

/-- The text of the selectors of a rule. -/
def Rule.prelude (r : Rule) : List Char := joinChars [','] (r.selectors.map String.toList)

/-- What is asked of a selector: it has no space at its ends, no comma, semicolon or opening brace
counts in it, and it closes the strings and brackets that it opens. -/
structure StableSelector (s : List Char) : Prop where
  ne_nil : s ≠ []
  trimmed : Text.trim s = s
  noComma : Undivided ',' .top s
  noSemicolon : Undivided ';' .top s
  noBrace : Undivided '{' .top s
  closed : Nesting.top.after s = .top

/-- What is asked of a rule: its selectors are stable and start no at-rule, its declarations stay
apart, and its block has its braces in pairs. -/
structure Rule.Stable (r : Rule) : Prop where
  filled : r.selectors ≠ []
  selectors : ∀ sel ∈ r.selectors, StableSelector sel.toList
  noAtRule : ∀ sel ∈ r.selectors.head?, isAtRule sel.toList = false
  apart : Apart r.declarations
  block : Balanced (declarationChars r.declarations)

/-- A rule is its prelude and, in braces, its declarations. -/
theorem Rule.chars_eq (r : Rule) :
    r.chars = r.prelude ++ '{' :: (declarationChars r.declarations ++ ['}']) := by
  simp [Rule.chars, Rule.prelude]

/-- The first character of a prelude tells an at-rule. -/
theorem isAtRule_cons (c : Char) (s t : List Char) : isAtRule (c :: s) = isAtRule (c :: t) := by
  by_cases hc : c = '@'
  · rw [hc]
    rfl
  · simp [isAtRule, hc]

namespace Rule.Stable

variable {r : Rule} (h : r.Stable)
include h

/-- What is known of each selector is known of its text. -/
theorem of_mem_parts {part : List Char} (hpart : part ∈ r.selectors.map String.toList) :
    StableSelector part := by
  obtain ⟨sel, hsel, rfl⟩ := List.mem_map.1 hpart
  exact h.selectors sel hsel

/-- The prelude of a stable rule closes what it opens. -/
theorem closed_prelude : Nesting.top.after r.prelude = .top :=
  closed_joinChars (by decide) fun _ hpart => (h.of_mem_parts hpart).closed

theorem noSemicolon_prelude : Undivided ';' .top r.prelude :=
  undivided_joinChars (by decide) (by decide) fun _ hpart =>
    ⟨(h.of_mem_parts hpart).noSemicolon, (h.of_mem_parts hpart).closed⟩

theorem noBrace_prelude : Undivided '{' .top r.prelude :=
  undivided_joinChars (by decide) (by decide) fun _ hpart =>
    ⟨(h.of_mem_parts hpart).noBrace, (h.of_mem_parts hpart).closed⟩

theorem prelude_ne_nil : r.prelude ≠ [] :=
  joinChars_ne_nil (by simpa using h.filled) fun _ hpart => (h.of_mem_parts hpart).ne_nil

theorem trim_prelude : Text.trim r.prelude = r.prelude :=
  trim_joinChars fun _ hpart => ⟨(h.of_mem_parts hpart).ne_nil, (h.of_mem_parts hpart).trimmed⟩

/-- The prelude is not that of an at-rule. -/
theorem not_isAtRule : isAtRule r.prelude = false := by
  obtain ⟨selectors, declarations⟩ := r
  cases selectors with
  | nil => exact absurd rfl h.filled
  | cons sel more =>
    have hfirst : isAtRule sel.toList = false := h.noAtRule sel rfl
    have hne := (h.selectors sel (List.mem_cons_self ..)).ne_nil
    cases hsel : sel.toList with
    | nil => exact absurd hsel hne
    | cons c s =>
      rw [hsel] at hfirst
      rw [Rule.prelude, List.map_cons, hsel, joinChars_cons_head, isAtRule_cons c _ s]
      exact hfirst

/-- The selectors are read as they are written. -/
theorem readSelectors_prelude : readSelectors r.prelude = r.selectors := by
  have hne : r.selectors.map String.toList ≠ [] := by simpa using h.filled
  have hcut := cutTopLevel_joinChars hne fun part hpart =>
    ⟨(h.of_mem_parts hpart).noComma, (h.of_mem_parts hpart).closed⟩
  have htrim : (r.selectors.map String.toList).map Text.trim = r.selectors.map String.toList := by
    conv_rhs => rw [← List.map_id (r.selectors.map String.toList)]
    exact List.map_congr_left fun part hpart => (h.of_mem_parts hpart).trimmed
  have hfilled : (r.selectors.map String.toList).filter (fun s => !s.isEmpty) =
      r.selectors.map String.toList :=
    List.filter_eq_self.2 fun part hpart => by simpa using (h.of_mem_parts hpart).ne_nil
  rw [readSelectors, Rule.prelude, hcut, htrim, hfilled]
  simp

/-- The rule is read from its prelude and its body. -/
theorem readRule_eq : readRule r.prelude (declarationChars r.declarations) = r := by
  rw [readRule, h.readSelectors_prelude, h.apart.readDeclarations_eq]

/-- **A stable rule is cut off** as one block that is read as the rule. -/
theorem outlineFrom_chars {seen : List Char} (hseen : seen = [] ∨ seen = ['\n']) (t : List Char) :
    ∃ piece, outlineFrom (.inPrelude seen .top) (r.chars ++ t) = piece :: outline t ∧
      piece.rule? = some r ∧ piece.item? = some (.rule r) := by
  have houtline := outlineFrom_block h.noBrace_prelude h.noSemicolon_prelude h.closed_prelude
    (trim_reverse_append hseen h.trim_prelude) h.block.enclosed t
  have hrule : Piece.rule? (.block r.prelude (declarationChars r.declarations)) = some r := by
    rw [Piece.rule?, if_neg (by simp [h.not_isAtRule, h.prelude_ne_nil]), h.readRule_eq]
  refine ⟨_, ?_, hrule, ?_⟩
  · rw [Rule.chars_eq, ← houtline]
    simp
  · simp [Piece.item?, h.not_isAtRule, hrule]

/-- Behind the rule nothing is being read. -/
theorem after_chars : Reading.start.after r.chars = .start := by
  rw [Rule.chars_eq]
  exact after_block h.noBrace_prelude h.closed_prelude h.block.enclosed

/-- A rule whose selectors have their braces in pairs leaves the braces around it alone. -/
theorem enclosed (hprelude : Balanced r.prelude) : Enclosed r.chars := by
  rw [Rule.chars_eq]
  exact hprelude.enclosed.append h.block.enclosed.braces

end Rule.Stable

/-! ## Items -/

/-- An item that is read as it is written and leaves nothing begun. -/
structure Item.StandsAlone (i : Item) : Prop where
  read : readItems i.chars = [i]
  after_chars : Reading.start.after i.chars = .start

/-- A stable rule is read by itself. -/
theorem Rule.Stable.standsAlone {r : Rule} (h : r.Stable) : (Item.rule r).StandsAlone where
  read := by
    obtain ⟨piece, houtline, -, hitem⟩ := h.outlineFrom_chars (.inl rfl) []
    rw [List.append_nil] at houtline
    have hpieces : outline r.chars = [piece] := houtline
    rw [Item.chars, readItems, hpieces, List.filterMap_cons, hitem]
    rfl
  after_chars := h.after_chars

/-- So is a group of stable rules whose preludes are balanced. -/
theorem standsAlone_media (w : UInt32) {rules : List Rule}
    (h : ∀ r ∈ rules, r.Stable ∧ Balanced r.prelude) : (Item.media w rules).StandsAlone where
  read := by
    have houtline := outlineFrom_media w (fun r hr => (h r hr).1.enclosed (h r hr).2) (.inl rfl) []
    rw [List.append_nil] at houtline
    have hpieces : outline (Item.media w rules).chars =
        [.block (minWidthPrelude w) (groupChars rules)] := houtline
    have hrules : ∀ r ∈ rules, ∀ t, ∃ piece,
        outlineFrom (.inPrelude ['\n'] .top) (r.chars ++ t) = piece :: outline t ∧
          piece.rule? = some r := by
      intro r hr t
      obtain ⟨piece, houtline, hrule, -⟩ := (h r hr).1.outlineFrom_chars (.inr rfl) t
      exact ⟨piece, houtline, hrule⟩
    rw [readItems, hpieces, List.filterMap_cons, item?_minWidthPrelude,
      outline_groupChars id hrules, List.map_id]
    rfl
  after_chars := after_media w fun r hr => (h r hr).1.enclosed (h r hr).2

/-- An item of stable rules stands alone, if the braces of their selectors are paired. -/
theorem Item.OfRules.standsAlone {i : Item}
    (h : i.OfRules fun r => r.Stable ∧ Balanced r.prelude) : i.StandsAlone := by
  cases i with
  | rule r => exact Rule.Stable.standsAlone h.1
  | media w rules => exact standsAlone_media w h
  | verbatim text => exact absurd h id

section sheet

variable {s : Sheet} (h : ∀ i ∈ s.items, i.StandsAlone)
include h

/-- A sheet of items that stand alone is read back item by item. -/
theorem readItems_chars : readItems s.chars = s.items := by
  rw [Sheet.chars, readItems_joinChars fun i hi => (h i hi).after_chars]
  conv_rhs => rw [← List.flatMap_singleton' s.items]
  exact List.flatMap_congr fun i hi => (h i hi).read

/-- **A sheet is read as it is written**, in front of any text. -/
theorem readItems_chars_append (t : List Char) :
    readItems (s.chars ++ '\n' :: t) = s.items ++ readItems t := by
  obtain ⟨items⟩ := s
  rw [Sheet.chars]
  induction items with
  | nil => exact readItems_newline t
  | cons i items ih =>
    obtain ⟨hi, hitems⟩ := List.forall_mem_cons.1 h
    cases items with
    | nil =>
      rw [List.map_singleton, joinChars, readItems_append _ hi.after_chars, readItems_newline,
        hi.read]
    | cons i' items =>
      rw [List.map_cons, List.map_cons, joinChars, List.append_assoc, List.append_assoc,
        readItems_append _ hi.after_chars, List.singleton_append, readItems_newline,
        ← List.map_cons, ih hitems, hi.read]
      rfl

end sheet

/-! ## Clean sheets -/

section clean

variable {r : Rule}

/-- Clean selectors are stable. -/
theorem CleanSelector.stable {s : List Char} (h : CleanSelector s) : StableSelector s where
  ne_nil := h.not_isAtRule.2
  trimmed := h.trimmed
  noComma := h.noComma
  noSemicolon := h.noSemicolon
  noBrace := undivided_of_not_mem h.text.noBrace.1
  closed := h.text.closed

/-- Clean rules are contained. -/
theorem Rule.Clean.contained (h : r.Clean) : r.Contained := by
  obtain ⟨sel, hsel, hclean⟩ := h.selector
  have hblock := cleanText_declarationChars h.declarations
  have hplain {s : List Char} (hs : CleanText s) : (Nesting.top.after s).quoting = .plain := by
    rw [hs.closed]
    rfl
  refine ⟨⟨sel, hsel, hclean.text.noBrace, hclean.text.closed, ?_⟩, ?_, ?_⟩
  · exact commentless_of_closed hclean.text.noBackslash (hplain hclean.text) hclean.text.uncommented
  · exact balancedFrom_of_not_mem hblock.noBrace.1 hblock.noBrace.2 (hplain hblock)
  · exact commentless_of_closed hblock.noBackslash (hplain hblock) hblock.uncommented

/-- Clean rules are stable. -/
theorem Rule.Clean.stable (h : r.Clean) : r.Stable := by
  obtain ⟨sel, hsel, hclean⟩ := h.selector
  have hselectors : ∀ x ∈ r.selectors, x = sel := by simp [hsel]
  refine ⟨by simp [hsel], fun x hx => ?_, fun x hx => ?_, ⟨?_, ?_, ?_⟩, h.contained.block.balanced⟩
  · rw [hselectors x hx]
    exact hclean.stable
  · rw [hselectors x (List.mem_of_mem_head? hx)]
    exact hclean.not_isAtRule.1
  · exact fun d hd => canonicalPart_of_declaration? (h.declarations d hd).read
  · exact fun d hd => (h.declarations d hd).undivided
  · exact fun d hd => (h.declarations d (List.mem_of_mem_dropLast hd)).text.closed

/-- The prelude of a clean rule is balanced. -/
theorem Rule.Clean.balanced_prelude (h : r.Clean) : Balanced r.prelude := by
  obtain ⟨sel, hsel, hclean⟩ := h.selector
  have hprelude : r.prelude = sel.toList := by simp [Rule.prelude, hsel, joinChars]
  rw [hprelude]
  exact balancedFrom_of_not_mem hclean.text.noBrace.1 hclean.text.noBrace.2
    (by rw [hclean.text.closed]; rfl)

/-- **A sheet of clean rules is read as it is written.** -/
theorem read_render {s : Sheet} (h : ∀ i ∈ s.items, i.OfRules Rule.Clean) :
    Sheet.read s.render = s := by
  have hcontained := fun i hi => (h i hi).imp fun _ hr => hr.contained
  have halone := fun i hi => ((h i hi).imp fun _ hr => ⟨hr.stable, hr.balanced_prelude⟩).standsAlone
  have hitems := (read_render_of_contained hcontained).trans
    (List.flatMap_congr fun i hi => (halone i hi).read)
  rw [List.flatMap_singleton'] at hitems
  exact congrArg Sheet.mk hitems

end clean

end Pane.Style
