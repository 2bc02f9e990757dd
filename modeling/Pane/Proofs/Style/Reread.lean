import Pane.Proofs.Style.CanonicalText
import Pane.Proofs.Style.Contained

/-!
# What written rules are read as

A block may leave a bracket open that its last declaration has opened; nothing follows in the block
that could be drawn into it.  And a block may be written with another value than it was read with,
so that it is cut in other places now.  In both cases a sheet is still read rule by rule, each with
its selector and with the declarations that the text of its block is read as.

**Declarations.**  `Apart` — declarations that stay apart when they are written.  The declarations
of a block do if all but the last are closed (`apart_of_closed`), and are read as they are
written (`Apart.readDeclarations_eq`); those in front of any declaration are
(`readDeclarations_append`).

**Sheets.**  `Rule.Legible` — a single clean selector and a contained block.
`Rule.reread`, `Item.reread` — what is read of a written rule.  **`read_render_of_legible`** — what
is read of a written sheet.
-/

namespace Pane.Style

/-! ## Declarations -/

/-- Declarations that stay apart when they are written with semicolons between them. -/
structure Apart (ds : List Declaration) : Prop where
  canonical : ∀ d ∈ ds, CanonicalPart d.property.toList d.value.toList
  undivided : ∀ d ∈ ds, Undivided ';' .top d.chars
  /-- Only the last one may leave a bracket or a string open. -/
  closed : ∀ d ∈ ds.dropLast, Nesting.top.after d.chars = .top

theorem infix_declarationChars {ds : List Declaration} {d : Declaration} (h : d ∈ ds) :
    d.chars <:+: declarationChars ds :=
  infix_joinChars (List.mem_map_of_mem h)

/-- **The declarations of a block stay apart** if all but the last are closed. -/
theorem apart_of_closed {body : List Char}
    (h : ∀ d ∈ (readDeclarations body).dropLast, Nesting.top.after d.chars = .top) :
    Apart (readDeclarations body) where
  canonical := fun d hd => by
    obtain ⟨s, -, hread⟩ := List.mem_filterMap.1 hd
    exact canonicalPart_of_declaration? hread
  undivided := fun d hd => by
    obtain ⟨s, hs, hread⟩ := List.mem_filterMap.1 hd
    have hcut := (of_mem_cutTopLevel_dropLast ';' body).1 s hs
    exact (isCanonical_of_declaration? hcut hread).2.1
  closed := h

/-- They do if there is no backslash in them. -/
theorem apart_readDeclarations {body : List Char}
    (h : '\\' ∉ declarationChars (readDeclarations body)) : Apart (readDeclarations body) := by
  obtain ⟨hcut, hends⟩ := of_mem_cutTopLevel_dropLast ';' body
  refine apart_of_closed fun d hd => ?_
  obtain ⟨s, hs, hread⟩ := mem_dropLast_filterMap hd
  have hundivided := hcut s (List.mem_of_mem_dropLast hs)
  rcases (isCanonical_of_declaration? hundivided hread).2.2 (hends s hs) with htop | hescaped
  · exact htop
  · have hmem : d ∈ readDeclarations body := List.mem_of_mem_dropLast hd
    have hback : '\\' ∉ d.chars := fun hc => h ((infix_declarationChars hmem).subset hc)
    rcases Nesting.steady_top.after hback with hplain | hplain | hplain <;>
      rw [hescaped] at hplain <;> cases hplain

theorem joinChars_cons_append (separator part : List Char) (front : List (List Char))
    (next : List Char) (back : List (List Char)) :
    joinChars separator (part :: (front ++ next :: back)) =
      part ++ separator ++ joinChars separator (front ++ next :: back) := by
  cases front <;> rfl

/-- Closed parts in front of others are cut off one by one. -/
theorem cutTopLevel_joinChars_append {separator : Char} {parts : List (List Char)}
    (h : ∀ part ∈ parts, Undivided separator .top part ∧ Nesting.top.after part = .top)
    (part : List Char) (more : List (List Char)) :
    cutTopLevel separator (joinChars [separator] (parts ++ part :: more)) =
      parts ++ cutTopLevel separator (joinChars [separator] (part :: more)) := by
  induction parts with
  | nil => rfl
  | cons p parts ih =>
    obtain ⟨⟨hcut, hclosed⟩, hparts⟩ := List.forall_mem_cons.1 h
    rw [List.cons_append, joinChars_cons_append, List.append_assoc, List.singleton_append,
      cutTopLevel_append hcut hclosed, ih hparts, List.cons_append]

/-- **Closed declarations in front of others are read as they are written.** -/
theorem readDeclarations_append {front : List Declaration}
    (h : ∀ d ∈ front, CanonicalPart d.property.toList d.value.toList ∧
      Undivided ';' .top d.chars ∧ Nesting.top.after d.chars = .top)
    (d : Declaration) (back : List Declaration) :
    readDeclarations (declarationChars (front ++ d :: back)) =
      front ++ readDeclarations (declarationChars (d :: back)) := by
  have hparts : ∀ part ∈ front.map Declaration.chars,
      Undivided ';' .top part ∧ Nesting.top.after part = .top := by
    intro part hpart
    obtain ⟨d', hd', rfl⟩ := List.mem_map.1 hpart
    exact (h d' hd').2
  have hread : (front.map Declaration.chars).filterMap declaration? = front := by
    rw [List.filterMap_map]
    refine (List.filterMap_congr fun d' hd' => ?_).trans List.filterMap_some
    exact (h d' hd').1.declaration?
  rw [readDeclarations, declarationChars, List.map_append, List.map_cons,
    cutTopLevel_joinChars_append hparts, List.filterMap_append, hread]
  rfl

namespace Apart

/-- What stands in front of a declaration is closed. -/
theorem of_mem_front {front back : List Declaration} {d : Declaration}
    (h : Apart (front ++ d :: back)) : ∀ d' ∈ front,
      CanonicalPart d'.property.toList d'.value.toList ∧ Undivided ';' .top d'.chars ∧
        Nesting.top.after d'.chars = .top := by
  intro d' hd'
  have hmem : d' ∈ front ++ d :: back := List.mem_append_left _ hd'
  have hlast : d' ∈ (front ++ d :: back).dropLast := by
    rw [List.dropLast_append_of_ne_nil (by simp)]
    exact List.mem_append_left _ hd'
  exact ⟨h.canonical d' hmem, h.undivided d' hmem, h.closed d' hlast⟩

/-- **Declarations that stay apart are read as they are written.** -/
theorem readDeclarations_eq {ds : List Declaration} (h : Apart ds) :
    readDeclarations (declarationChars ds) = ds := by
  rcases List.eq_nil_or_concat ds with rfl | ⟨front, d, rfl⟩
  · rfl
  · rw [List.concat_eq_append] at h ⊢
    have hmem : d ∈ front ++ [d] := by simp
    have hlast : readDeclarations (declarationChars [d]) = [d] := by
      have hchars : declarationChars [d] = d.chars := rfl
      rw [hchars, readDeclarations, cutTopLevel_eq_singleton (h.undivided d hmem),
        List.filterMap_cons, (h.canonical d hmem).declaration?]
      rfl
    rw [readDeclarations_append h.of_mem_front, hlast]

end Apart

/-! ## Rules and groups -/

/-- What is read of a written rule: its selectors, and the declarations that its block is read
as. -/
def Rule.reread (r : Rule) : Rule :=
  { r with declarations := readDeclarations (declarationChars r.declarations) }

/-- What is read of a written item. -/
def Item.reread : Item → Item
  | .rule r => .rule r.reread
  | .media width rules => .media width (rules.map Rule.reread)
  | .verbatim text => .verbatim text

/-- A rule that is cut off and read alone: it has a single selector, and this is clean, and no
reader of a sheet goes beyond the selector or the block. -/
structure Rule.Legible (r : Rule) : Prop where
  selector : ∃ sel : String, r.selectors = [sel] ∧ CleanSelector sel.toList ∧
    Commentless sel.toList
  block : ContainedBlock (declarationChars r.declarations)

theorem Rule.Legible.contained {r : Rule} (h : r.Legible) : r.Contained := by
  obtain ⟨sel, hsel, hclean, hcomment⟩ := h.selector
  exact ⟨⟨sel, hsel, hclean.text.noBrace, hclean.text.closed, hcomment⟩, h.block⟩

/-- A legible rule is cut off as a block that is read as what is read of the rule. -/
theorem Rule.Legible.outlineFrom_chars {r : Rule} (h : r.Legible) {seen : List Char}
    (hseen : seen = [] ∨ seen = ['\n']) (t : List Char) :
    ∃ piece, outlineFrom (.inPrelude seen .top) (r.chars ++ t) = piece :: outline t ∧
      piece.rule? = some r.reread ∧ piece.item? = some (.rule r.reread) := by
  obtain ⟨sel, hsel, hclean, -⟩ := h.selector
  obtain ⟨hat, hne⟩ := hclean.not_isAtRule
  have hrule : Piece.rule? (.block sel.toList (declarationChars r.declarations)) =
      some r.reread := by
    rw [Piece.rule?, if_neg (by simp [hat, hne]), readRule, hclean.readSelectors_eq, ← hsel]
    rfl
  refine ⟨_, hclean.outlineFrom_chars hsel h.block.balanced.enclosed hseen t, hrule, ?_⟩
  simp [Piece.item?, hat, hrule]

theorem readItems_of_legible {i : Item} (h : i.OfRules Rule.Legible) :
    readItems i.chars = [i.reread] := by
  cases i with
  | rule r =>
    obtain ⟨piece, houtline, -, hitem⟩ := Rule.Legible.outlineFrom_chars h (.inl rfl) []
    rw [List.append_nil] at houtline
    have hpieces : outline r.chars = [piece] := houtline
    rw [Item.chars, readItems, hpieces, List.filterMap_cons, hitem]
    rfl
  | media w rules =>
    have houtline := outlineFrom_media w (fun r hr => (h r hr).contained.enclosed) (.inl rfl) []
    rw [List.append_nil] at houtline
    have hpieces : outline (Item.media w rules).chars =
        [.block (minWidthPrelude w) (groupChars rules)] := houtline
    have hrules : ∀ r ∈ rules, ∀ t, ∃ piece,
        outlineFrom (.inPrelude ['\n'] .top) (r.chars ++ t) = piece :: outline t ∧
          piece.rule? = some r.reread := by
      intro r hr t
      obtain ⟨piece, houtline, hrule, -⟩ := (h r hr).outlineFrom_chars (.inr rfl) t
      exact ⟨piece, houtline, hrule⟩
    rw [readItems, hpieces, List.filterMap_cons, item?_minWidthPrelude,
      outline_groupChars Rule.reread hrules]
    rfl
  | verbatim text => exact absurd h id

/-! ## Sheets -/

/-- **What is read of a written sheet** of legible rules. -/
theorem read_render_of_legible {s : Sheet} (h : ∀ i ∈ s.items, i.OfRules Rule.Legible) :
    (Sheet.read s.render).items = s.items.map Item.reread := by
  rw [read_render_of_contained fun i hi => (h i hi).imp fun _ hr => hr.contained,
    List.map_eq_flatMap]
  exact List.flatMap_congr fun i hi => readItems_of_legible (h i hi)

/-- The rules that are read of a written sheet are those that are read of its rules. -/
theorem rules_read_render {s : Sheet} (h : ∀ i ∈ s.items, i.OfRules Rule.Legible) :
    (Sheet.read s.render).rules = s.rules.map fun x => (x.1, x.2.reread) := by
  have hrules : ∀ i : Item, i.reread.rules = i.rules.map fun x => (x.1, x.2.reread) := by
    intro i
    cases i with
    | rule r => rfl
    | media w rules => simp [Item.reread, Item.rules]
    | verbatim text => rfl
  simp only [Sheet.rules, read_render_of_legible h, List.flatMap_map, List.map_flatMap, hrules]

end Pane.Style
