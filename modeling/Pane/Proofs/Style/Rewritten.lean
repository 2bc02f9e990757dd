import Pane.Proofs.Style.PlainSheet
import Pane.Proofs.Style.Stable

/-!
# Sheets that are read, written and read again

The parts of a sheet are kept without the spaces around them.  A space may have been an escaped one,
and then the part ends in a backslash that draws in whatever it is written in front of: a comma, a
semicolon, a brace.  And a declaration may have been cut off in the middle of a block within the
block, so that it holds one brace of a pair.  If nothing of the kind has happened, so if every part
is closed as it stands, the sheet is written as a text that is read as the same sheet, whatever its
blocks hold and whatever at-rules it carries along.

**What was cut off.**  `Piece.Cut` tells what is known of a piece that was read.

**Rules.**  `Rule.Closed` — the selectors and the declarations of a rule are closed;
`Rule.Closed.stable` — a closed rule that was read is read again as it is written.

**At-rules.**  `depth_after` — a text with its braces in pairs opens no block that it does not
close.  `standsAlone_statement`, `standsAlone_block` — an at-rule whose text is complete is read
again as it is written.

**Result.**  `Sheet.Closed`; **`closed_sheet_is_read_again`**.
**`escaped_space_is_lost`** — a sheet that is not closed, and is read as another.
-/

namespace Pane.Style

open Reading

/-! ## Rules -/

/-- What is asked of a rule that was read: its selectors start no at-rule, they and all declarations
but the last are closed, and the block has its braces in pairs. -/
structure Rule.Closed (r : Rule) : Prop where
  noAtRule : ∀ sel ∈ r.selectors.head?, isAtRule sel.toList = false
  selectors : ∀ sel ∈ r.selectors, Nesting.top.after sel.toList = .top
  declarations : ∀ d ∈ r.declarations.dropLast, Nesting.top.after d.chars = .top
  block : Balanced (declarationChars r.declarations)

instance (r : Rule) : Decidable r.Closed :=
  decidable_of_iff
    ((∀ sel ∈ r.selectors.head?, isAtRule sel.toList = false) ∧
      (∀ sel ∈ r.selectors, Nesting.top.after sel.toList = .top) ∧
      (∀ d ∈ r.declarations.dropLast, Nesting.top.after d.chars = .top) ∧
      Balanced (declarationChars r.declarations))
    ⟨fun ⟨hat, hselectors, hds, hblock⟩ => ⟨hat, hselectors, hds, hblock⟩,
      fun h => ⟨h.noAtRule, h.selectors, h.declarations, h.block⟩⟩

/-- **A closed rule is stable** if it was read and has a selector. -/
theorem Rule.Closed.stable {prelude body : List Char} (hprelude : CutPrelude prelude)
    (h : (readRule prelude body).Closed) (hfilled : (readRule prelude body).selectors ≠ []) :
    (readRule prelude body).Stable where
  filled := hfilled
  selectors := fun sel hsel => by
    obtain ⟨hne, htrim, hcomma, hsemicolon, hbrace⟩ := cut_of_mem_readSelectors hprelude hsel
    exact ⟨hne, htrim, hcomma, hsemicolon, hbrace, h.selectors sel hsel⟩
  noAtRule := h.noAtRule
  apart := apart_of_closed h.declarations
  block := h.block

/-! ## At-rules -/

namespace Reading

/-- The standing with respect to strings and backslashes. -/
def quoting : Reading → Quoting
  | .inPrelude _ n => n.quoting
  | .inBody _ _ quoting _ => quoting

/-- How many blocks are open. -/
def depth : Reading → Nat
  | .inPrelude _ _ => 0
  | .inBody _ _ _ depth => depth + 1

theorem quoting_next (r : Reading) (c : Char) : (r.next c).1.quoting = r.quoting.next c := by
  cases r with
  | inPrelude seen n =>
    rw [next]
    split
    · next h => simp [start, quoting, h, Nesting.top, Quoting.next]
    · split
      · next h => simp [quoting, h, Nesting.top, Quoting.next]
      · rfl
  | inBody prelude seen q d =>
    by_cases hclose : q = .plain ∧ c = '}'
    · cases d <;> simp [next, quoting, hclose, start, Nesting.top, Quoting.next]
    · simp [next, quoting, hclose]

theorem depth_next (r : Reading) (c : Char) :
    (r.next c).1.depth ≤ if r.quoting = .plain ∧ c = '}' then r.depth - 1
      else if r.quoting = .plain ∧ c = '{' then r.depth + 1 else r.depth := by
  cases r with
  | inPrelude seen n =>
    rw [next]
    split
    · simp [start, depth]
    · split
      · next h => simp [depth, quoting, h, Nesting.top]
      · simp [depth]
  | inBody prelude seen q d =>
    by_cases hclose : q = .plain ∧ c = '}'
    · cases d <;> simp [next, depth, quoting, hclose, start]
    · by_cases hopen : q = .plain ∧ c = '{'
      · simp [next, depth, quoting, hopen]
      · simp [next, depth, quoting, hclose, hopen]

end Reading

theorem not_brace_of_isSpace {c : Char} (hc : Text.isSpace c = true) : c ∉ ['{', '}'] :=
  Text.not_mem_of_all (by decide) hc

/-- Spaces open and close no brace. -/
theorem depth_of_spaces {s : List Char} (hs : ∀ c ∈ s, Text.isSpace c = true) {q : Quoting}
    {depth : Nat} (h : balancedFrom q depth s = true) : depth = 0 := by
  induction s generalizing q with
  | nil =>
    simp only [balancedFrom, Bool.and_eq_true, decide_eq_true_eq] at h
    exact h.2
  | cons c s ih =>
    obtain ⟨hc, hs⟩ := List.forall_mem_cons.1 hs
    have hbrace := not_brace_of_isSpace hc
    rw [balancedFrom, if_neg fun h => hbrace (by simp [h.2]),
      if_neg fun h => hbrace (by simp [h.2])] at h
    exact ih hs h

/-- **A text with its braces in pairs opens no block that it does not close**, wherever it is read;
nor does it without the spaces at its end. -/
theorem depth_after {s t : List Char} (ht : ∀ c ∈ t, Text.isSpace c = true) {r : Reading}
    {depth : Nat} (h : balancedFrom r.quoting depth (s ++ t) = true) (hdepth : r.depth ≤ depth) :
    (r.after s).depth = 0 := by
  induction s generalizing r depth with
  | nil =>
    have hzero := depth_of_spaces ht h
    have hstay : r.after [] = r := rfl
    rw [hstay]
    omega
  | cons c s ih =>
    have hnext := r.depth_next c
    rw [List.cons_append, balancedFrom, ← r.quoting_next c] at h
    have hafter : r.after (c :: s) = (r.next c).1.after s := rfl
    rw [hafter]
    by_cases hclose : r.quoting = .plain ∧ c = '}'
    · rw [if_pos hclose, Bool.and_eq_true] at h
      rw [if_pos hclose] at hnext
      exact ih h.2 (by omega)
    · rw [if_neg hclose] at h hnext
      refine ih h (hnext.trans ?_)
      split
      · omega
      · exact hdepth

/-- Spaces in front of a text do not matter to its braces. -/
theorem balancedFrom_spaces {l : List Char} (hl : ∀ c ∈ l, Text.isSpace c = true) (s : List Char) :
    balancedFrom .plain 0 (l ++ s) = balancedFrom .plain 0 s := by
  induction l with
  | nil => rfl
  | cons c l ih =>
    obtain ⟨hc, hl⟩ := List.forall_mem_cons.1 hl
    have hbrace := not_brace_of_isSpace hc
    have hnext : Quoting.plain.next c = .plain := congrArg Nesting.quoting
      (Nesting.steady_top.next_eq_self (Nesting.not_mem_marks_of_isSpace hc))
    rw [List.cons_append, balancedFrom, if_neg fun h => hbrace (by simp [h.2]),
      if_neg fun h => hbrace (by simp [h.2]), hnext, ih hl]

section verbatim

variable {prelude body : List Char} (hprelude : CutPrelude prelude)
  (hat : isAtRule prelude = true)
include hprelude hat

/-- A statement is read as it is written if its text is complete. -/
theorem standsAlone_statement (hcomplete : Reading.start.after (prelude ++ [';']) = .start) :
    (Item.verbatim (String.ofList (prelude ++ [';']))).StandsAlone := by
  have hpasses := passes_prelude [] hprelude.noBrace hprelude.noSemicolon
  rw [List.append_nil] at hpasses
  have hlast : ((Reading.inPrelude prelude.reverse (Nesting.top.after prelude)).next ';').1 =
      .start := (hpasses.after [';']).symm.trans hcomplete
  have htop : Nesting.top.after prelude = .top := by
    by_contra hopen
    rw [Reading.next, if_neg fun h => hopen h.1, if_neg fun h => hopen h.1] at hlast
    cases hlast
  have hpieces : outline (prelude ++ [';']) = [.statement prelude] := by
    have hend : outline (prelude ++ [';']) = _ := hpasses.outlineFrom [';']
    rw [hend, htop, outlineFrom, Reading.next, if_pos ⟨rfl, rfl⟩, List.reverse_reverse,
      hprelude.trimmed]
    rfl
  refine ⟨?_, ?_⟩
  · rw [Item.chars, String.toList_ofList, readItems, hpieces, List.filterMap_cons, Piece.item?,
      if_pos hat]
    rfl
  · rw [Item.chars, String.toList_ofList, hcomplete]

/-- An at-rule with a block is read as it is written if its text is complete. -/
theorem standsAlone_block (hbody : Balanced body) (hwidth : readMinWidth prelude = none)
    (hcomplete : Reading.start.after (prelude ++ '{' :: Text.trim body ++ ['}']) = .start) :
    (Item.verbatim (String.ofList (prelude ++ '{' :: Text.trim body ++ ['}']))).StandsAlone := by
  have hpasses := passes_prelude [] hprelude.noBrace hprelude.noSemicolon
  rw [List.append_nil] at hpasses
  obtain ⟨l, r, hs, hl, hr⟩ := Text.exists_trim body
  have hinner : balancedFrom .plain 0 (Text.trim body ++ r) = true := by
    rw [← balancedFrom_spaces hl, ← List.append_assoc, ← hs]
    exact hbody
  rcases hprelude.ends with htop | hescaped
  · rw [htop] at hpasses
    have hopen : (Reading.inPrelude prelude.reverse .top).next '{' =
        (.inBody prelude [] .plain 0, none) := by
      rw [Reading.next, if_neg (by simp), if_pos ⟨rfl, rfl⟩, List.reverse_reverse, hprelude.trimmed]
    obtain ⟨quoting, depth, -, hblock⟩ := passes_of_balancedFrom hinner prelude [] 0
    have hrun := hpasses.append (passes_cons hopen hblock)
    have hlast := (hrun.after ['}']).symm.trans hcomplete
    -- only outside strings and blocks does the brace end the piece
    have hclose : quoting = .plain ∧ depth = 0 := by
      by_cases hplain : quoting = .plain
      · cases depth with
        | zero => exact ⟨hplain, rfl⟩
        | succ depth => simp [Reading.after, Reading.next, hplain, start] at hlast
      · simp [Reading.after, Reading.next, hplain, start] at hlast
    obtain ⟨rfl, rfl⟩ := hclose
    have hpieces : outline (prelude ++ '{' :: Text.trim body ++ ['}']) =
        [.block prelude (Text.trim body)] := by
      have hend : outline (prelude ++ '{' :: Text.trim body ++ ['}']) = _ := hrun.outlineFrom ['}']
      rw [hend]
      simp [outlineFrom, Reading.next]
    refine ⟨?_, by rw [Item.chars, String.toList_ofList, hcomplete]⟩
    rw [Item.chars, String.toList_ofList, readItems, hpieces, List.filterMap_cons, Piece.item?,
      if_pos hat, hwidth, Text.trim_trim]
    rfl
  · -- the brace behind the prelude is escaped, so no block is open at the end
    exfalso
    have hopen : (Reading.inPrelude prelude.reverse (Nesting.top.after prelude)).next '{' =
        (.inPrelude ('{' :: prelude.reverse) .top, none) := by
      rw [hescaped]
      rfl
    have hrun := hpasses.append (passes_cons hopen (passes_nil _))
    have hbehind := hrun.after (Text.trim body ++ ['}'])
    have hdepth : ((Reading.inPrelude ('{' :: prelude.reverse) .top).after
        (Text.trim body)).depth = 0 := depth_after hr hinner (le_refl 0)
    have hsplit : prelude ++ '{' :: Text.trim body ++ ['}'] =
        prelude ++ ['{'] ++ (Text.trim body ++ ['}']) := by simp
    rw [hsplit] at hcomplete
    have hlast := hbehind.symm.trans hcomplete
    rw [Reading.after, List.foldl_append] at hlast
    change (((Reading.inPrelude ('{' :: prelude.reverse) .top).after (Text.trim body)).next '}').1 =
      .start at hlast
    generalize (Reading.inPrelude ('{' :: prelude.reverse) .top).after (Text.trim body) = state
      at hlast hdepth
    cases state with
    | inPrelude seen n => simp [Reading.next, start] at hlast
    | inBody prelude' seen q d => simp [depth] at hdepth

end verbatim

/-! ## Sheets -/

/-- What is asked of an item that was read: its rules are closed and, in a group, their selectors
have their braces in pairs; the text of another at-rule is complete. -/
def Item.Closed : Item → Prop
  | .rule r => r.Closed
  | .media _ rules => ∀ r ∈ rules, r.Closed ∧ Balanced r.prelude
  | .verbatim text => Reading.start.after text.toList = .start

instance : (i : Item) → Decidable i.Closed
  | .rule r => inferInstanceAs (Decidable r.Closed)
  | .media _ rules => inferInstanceAs (Decidable (∀ r ∈ rules, r.Closed ∧ Balanced r.prelude))
  | .verbatim text => inferInstanceAs (Decidable (Reading.start.after text.toList = .start))

/-- What is asked of a sheet that was read: its items are closed, and no comment begins where they
are written one behind the other. -/
structure Sheet.Closed (s : Sheet) : Prop where
  items : ∀ i ∈ s.items, i.Closed
  commentless : stripComments s.chars = s.chars

instance (s : Sheet) : Decidable s.Closed :=
  decidable_of_iff ((∀ i ∈ s.items, i.Closed) ∧ stripComments s.chars = s.chars)
    ⟨fun ⟨hitems, hcomments⟩ => ⟨hitems, hcomments⟩, fun h => ⟨h.items, h.commentless⟩⟩

/-- A closed rule of a piece is stable. -/
theorem Piece.Cut.stable {piece : Piece} (hcut : piece.Cut) {r : Rule}
    (hrule : piece.rule? = some r) (hclosed : r.Closed) (hfilled : r.selectors ≠ []) :
    r.Stable := by
  obtain ⟨prelude, body, hprelude, rfl⟩ := of_rule?_eq_some hcut hrule
  exact hclosed.stable hprelude hfilled

/-- **A closed item that was read is read again as it is written.** -/
theorem Piece.Cut.standsAlone {piece : Piece} (hcut : piece.Cut) {i : Item}
    (hitem : piece.item? = some i) (hclosed : i.Closed)
    (hfilled : ∀ x ∈ i.rules, x.2.selectors ≠ []) : i.StandsAlone := by
  cases piece with
  | statement prelude =>
    rw [Piece.item?] at hitem
    split at hitem
    · next hat =>
      obtain rfl := Option.some.inj hitem
      have hcomplete : Reading.start.after (String.ofList (prelude ++ [';'])).toList = .start :=
        hclosed
      rw [String.toList_ofList] at hcomplete
      exact standsAlone_statement hcut hat hcomplete
    · cases hitem
  | block prelude body =>
    rw [Piece.item?] at hitem
    split at hitem
    · next hat =>
      split at hitem
      · obtain rfl := Option.some.inj hitem
        refine standsAlone_media _ fun r hr => ?_
        obtain ⟨hr', hbraces⟩ := hclosed r hr
        obtain ⟨inner, hinner, hrule⟩ := List.mem_filterMap.1 hr
        have hinnercut := cut_of_mem_outlineFrom Reading.cut_start inner hinner
        exact ⟨hinnercut.stable hrule hr' (hfilled (_, r) (List.mem_map_of_mem hr)), hbraces⟩
      · next hwidth =>
        obtain rfl := Option.some.inj hitem
        have hcomplete : Reading.start.after
            (String.ofList (prelude ++ '{' :: Text.trim body ++ ['}'])).toList = .start := hclosed
        rw [String.toList_ofList] at hcomplete
        exact standsAlone_block hcut.1 hat hcut.2 hwidth hcomplete
    · obtain ⟨r, hrule, rfl⟩ := Option.map_eq_some_iff.1 hitem
      have hstable : r.Stable := hcut.stable hrule hclosed
        (hfilled (none, r) (by simp [Item.rules]))
      exact hstable.standsAlone

/-- **A closed sheet is read again as it is written**, whatever text it was read from: blocks within
blocks, escapes, strings and at-rules that are carried along come back as they are, if every rule
has a selector. -/
theorem closed_sheet_is_read_again (text : String)
    (hfilled : ∀ x ∈ (Sheet.read text).rules, x.2.selectors ≠ [])
    (hclosed : (Sheet.read text).Closed) :
    Sheet.read (Sheet.read text).render = Sheet.read text := by
  have halone : ∀ i ∈ (Sheet.read text).items, i.StandsAlone := by
    intro i hi
    obtain ⟨piece, hpiece, hitem⟩ := List.mem_filterMap.1 hi
    have hcut := cut_of_mem_outlineFrom Reading.cut_start piece hpiece
    exact hcut.standsAlone hitem (hclosed.items i hi)
      fun x hx => hfilled x (List.mem_flatMap.2 ⟨i, hi, hx⟩)
  generalize Sheet.read text = s at hclosed halone
  rw [Sheet.read, Sheet.render, String.toList_ofList, Sheet.readChars, hclosed.commentless,
    readItems_chars halone]

/-- A block within a block, an escaped semicolon, a brace in a string, a bracket that is left open,
a group, and two at-rules that are carried along. -/
theorem nested_sheet_is_read_again :
    let text := ".a, .b\\,c \x7b --x: \x7b k; v:w \x7d ; y: 'p\\'\x7d;' \x7d @import \"i;\" ;
      @media screen and (min-width:2em) \x7b .d > e \x7b f: g(1 \x7d \x7d
      @keyframes m \x7b from \x7b h: 0 \x7d \x7d"
    (∀ x ∈ (Sheet.read text).rules, x.2.selectors ≠ []) ∧ (Sheet.read text).Closed ∧
      (Sheet.read text).items.length = 4 ∧
      Sheet.read (Sheet.read text).render = Sheet.read text := by
  intro text
  have hfilled : ∀ x ∈ (Sheet.read text).rules, x.2.selectors ≠ [] := by decide +kernel
  have hclosed : (Sheet.read text).Closed := by decide +kernel
  exact ⟨hfilled, hclosed, by decide +kernel, closed_sheet_is_read_again text hfilled hclosed⟩

/-- **An escaped space is lost** where it ends a value.  The backslash that stays behind draws in
the semicolon, and the next declaration becomes part of the value. -/
theorem escaped_space_is_lost :
    let text := ".a\x7bb:c\\ ;d:e\x7d"
    (∀ x ∈ (Sheet.read text).rules, x.2.selectors ≠ []) ∧
      (Sheet.read text).items = [.rule ⟨[".a"], [⟨"b", "c\\"⟩, ⟨"d", "e"⟩]⟩] ∧
      (Sheet.read (Sheet.read text).render).items = [.rule ⟨[".a"], [⟨"b", "c\\;d:e"⟩]⟩] := by
  decide

end Pane.Style
