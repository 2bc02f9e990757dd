import Pane.Proofs.Markup.Frames

/-!
# The rules of the body for what nests

A tag of the body may close more than it says: a paragraph ends where a block begins, an item where
another item begins.  Where nothing of that kind is open, an opening tag only opens its element and
an end tag only closes it.

* `fits` — whether an element can stand within others, named from the inside, and closes none of
  them.
* **`Reading.process_startTag`** — the tag of an element that fits adds a frame.
* **`Reading.process_void`** — the tag of one without content adds a node.
* **`Reading.process_endTag`** — an end tag closes the innermost frame.
* `Reading.process_char`, `Reading.process_comment` — characters and comments join its content.
-/

namespace Pane.Markup

/-! ## What is open, by name -/

/-- An open element of documents, as far as the rules of the body look at it. -/
def openedOf (name : String) : Opened := ⟨0, .html, name, false⟩

/-- Whether a paragraph is open that a block would end. -/
def hasParagraph (above : List String) : Bool :=
  inScope Opened.isButtonBoundary (fun e => e.isHtml "p") (above.map openedOf)

/-- Whether a button is open that another one would end. -/
def hasButton (above : List String) : Bool :=
  inScope Opened.isBoundary (fun e => e.isHtml "button") (above.map openedOf)

/-- Whether an item or definition is open that another one of the names would end. -/
def hasItem (names above : List String) : Bool := (openItem? names (above.map openedOf)).isSome

/-- Whether the elements of a role have no content. -/
def standsAlone (role : StartRole) : Bool :=
  decide (role ∈ [.void, .input, .parameter, .rule])

/-- Whether an element can stand within others, named from the inside, and closes none of them. -/
def fits (above : List String) (tag : String) : Bool :=
  match startRole tag with
  | .block | .preformatted | .rule => !hasParagraph above
  | .heading => !hasParagraph above && !above.head?.any fun name => decide (name ∈ headingTags)
  | .item => !hasItem ["li"] above && !hasParagraph above
  | .definition => !hasItem ["dd", "dt"] above && !hasParagraph above
  | .button => !hasButton above
  | .anchor => !above.contains "a"
  | .formatting | .void | .input | .parameter | .ordinary => true
  | _ => false

/-- What is in scope depends on the names of the open elements alone. -/
theorem inScope_map {boundary wanted : Opened → Bool}
    (hb : ∀ f : Frame, boundary f.opened = boundary (openedOf f.name))
    (hw : ∀ f : Frame, wanted f.opened = wanted (openedOf f.name)) (fs : List Frame) :
    inScope boundary wanted (fs.map Frame.opened) =
      inScope boundary wanted ((fs.map Frame.name).map openedOf) := by
  induction fs with
  | nil => rfl
  | cons f fs ih => simp only [List.map_cons, inScope, hb f, hw f, ih]

/-- So does the item that is open. -/
theorem openItem?_map (names : List String) (fs : List Frame) :
    openItem? names (fs.map Frame.opened) =
      openItem? names ((fs.map Frame.name).map openedOf) := by
  induction fs with
  | nil => rfl
  | cons f fs ih =>
    simp only [List.map_cons, openItem?, ih]
    rfl

namespace Reading

variable {f g : Frame} {fs : List Frame} {kids : List Grown} {s : Construction}

/-! ## Rules that find nothing to close -/

/-- Where no paragraph is open, none is closed. -/
theorem closeParagraphInScope (h : Reading fs kids s)
    (hp : hasParagraph (fs.map Frame.name) = false) : s.closeParagraphInScope = s := by
  have hscope : s.inScopeNamed Opened.isButtonBoundary "p" = false := by
    rw [Construction.inScopeNamed, h.stack]
    exact (inScope_map (fun _ => rfl) (fun _ => rfl) fs).trans hp
  rw [Construction.closeParagraphInScope, hscope]
  rfl

/-- Where no item is open, none is ended. -/
theorem endItem (h : Reading fs kids s) {names : List String}
    (hi : hasItem names (fs.map Frame.name) = false) : s.endItem names = s := by
  have hnone : openItem? names s.stack = none := by
    rw [h.stack, openItem?_map]
    simpa [hasItem] using hi
  rw [Construction.endItem, hnone]

/-- Where the innermost element is no heading, none is closed. -/
theorem closeHeadingTop (h : Reading fs kids s)
    (hh : ((fs.map Frame.name).head?.any fun name => decide (name ∈ headingTags)) = false) :
    s.currentIn headingTags = false := by
  rw [Construction.currentIn, h.stack]
  cases fs with
  | nil => rfl
  | cons f fs => simpa [Opened.isHtmlIn, Frame.opened] using hh

/-- Where no button is open, none is in scope. -/
theorem noButton (h : Reading fs kids s) (hb : hasButton (fs.map Frame.name) = false) :
    s.inScopeNamed Opened.isBoundary "button" = false := by
  rw [Construction.inScopeNamed, h.stack]
  exact (inScope_map (fun _ => rfl) (fun _ => rfl) fs).trans hb

/-- A name that no open element has is not listed for formatting. -/
theorem findFormatting?_eq_none (h : Reading fs kids s) {name : String}
    (hname : name ∉ fs.map Frame.name) : findFormatting? name s.formatting = none := by
  have hnone : ∀ entries ⊆ s.formatting, findFormatting? name entries = none := by
    intro entries hsub
    induction entries with
    | nil => rfl
    | cons entry entries ih =>
      obtain ⟨g, hg, -, rfl⟩ := h.of_mem_formatting (hsub (List.mem_cons_self ..))
      have hne : g.name ≠ name := fun he => hname (he ▸ List.mem_map_of_mem hg)
      rw [findFormatting?, if_neg hne]
      exact ih fun e he => hsub (List.mem_cons_of_mem _ he)
  exact hnone _ (List.Subset.refl _)

/-! ## Opening tags -/

/-- Which elements format, by the role of their tags. -/
theorem formats_eq {tag : String} {role : StartRole} (h : startRole tag = role) :
    formats tag = decide (role ∈ [StartRole.anchor, .formatting]) := by
  rw [formats, h]

/-- **The tag of an element that fits opens it**, and that is all. -/
theorem startInBody_opens (h : Reading (f :: fs) kids s) {tag : Tag}
    (hopen : tag.selfClosing = false)
    (hfits : fits ((f :: fs).map Frame.name) tag.name = true)
    (halone : standsAlone (startRole tag.name) = false) :
    ∃ s', startInBody s tag = .done s' ∧
      Reading (⟨s.nextKey, tag.name, tag.attrs, kids⟩ :: f :: fs) [] s' := by
  rw [fits] at hfits
  rw [startInBody]
  have hrefused := h.withFlags false s.skipNewline
  -- what `fits` says for a role is that its rule finds nothing to close
  cases hr : startRole tag.name with
  | block =>
    simp only [hr, Bool.not_eq_true'] at hfits
    refine ⟨_, rfl, ?_⟩
    rw [h.closeParagraphInScope hfits]
    exact h.insertElement (formats_eq hr)
  | preformatted =>
    simp only [hr, Bool.not_eq_true'] at hfits
    refine ⟨_, rfl, ?_⟩
    rw [h.closeParagraphInScope hfits]
    exact (h.insertElement (formats_eq hr)).withFlags false true
  | heading =>
    simp only [hr, Bool.and_eq_true, Bool.not_eq_true'] at hfits
    refine ⟨_, rfl, ?_⟩
    rw [h.closeParagraphInScope hfits.1, if_neg (by simp [h.closeHeadingTop hfits.2])]
    exact h.insertElement (formats_eq hr)
  | item =>
    simp only [hr, Bool.and_eq_true, Bool.not_eq_true'] at hfits
    refine ⟨_, rfl, ?_⟩
    have hitem : s.refuseFrames.endItem ["li"] = s.refuseFrames := hrefused.endItem hfits.1
    have hparagraph : s.refuseFrames.closeParagraphInScope = s.refuseFrames :=
      hrefused.closeParagraphInScope hfits.2
    rw [hitem, hparagraph]
    exact hrefused.insertElement (formats_eq hr)
  | definition =>
    simp only [hr, Bool.and_eq_true, Bool.not_eq_true'] at hfits
    refine ⟨_, rfl, ?_⟩
    have hitem : s.refuseFrames.endItem ["dd", "dt"] = s.refuseFrames := hrefused.endItem hfits.1
    have hparagraph : s.refuseFrames.closeParagraphInScope = s.refuseFrames :=
      hrefused.closeParagraphInScope hfits.2
    rw [hitem, hparagraph]
    exact hrefused.insertElement (formats_eq hr)
  | button =>
    simp only [hr, Bool.not_eq_true'] at hfits
    refine ⟨_, rfl, ?_⟩
    rw [Construction.openButton, if_neg (by simp [h.noButton hfits]), h.reopenFormatting]
    exact (h.insertElement (formats_eq hr)).withFlags false s.skipNewline
  | anchor =>
    simp only [hr, Bool.not_eq_true', List.contains_eq_mem, decide_eq_false_iff_not] at hfits
    refine ⟨_, rfl, ?_⟩
    rw [Construction.closeLink, h.findFormatting?_eq_none hfits]
    simp only [h.reopenFormatting]
    exact h.openFormatting (formats_eq hr) hopen
  | formatting =>
    refine ⟨_, rfl, ?_⟩
    rw [h.reopenFormatting]
    exact h.openFormatting (formats_eq hr) hopen
  | ordinary =>
    refine ⟨_, rfl, ?_⟩
    rw [h.reopenFormatting]
    exact h.insertElement (formats_eq hr)
  | _ => simp [hr, standsAlone] at hfits halone

/-- **The tag of an element without content that fits inserts it**, and that is all. -/
theorem startInBody_inserts (h : Reading (f :: fs) kids s) {tag : Tag}
    (hfits : fits ((f :: fs).map Frame.name) tag.name = true)
    (halone : standsAlone (startRole tag.name) = true) :
    ∃ s', startInBody s tag = .done s' ∧
      Reading (f :: fs) (kids ++ [.element s.nextKey .html tag.name tag.attrs []]) s' := by
  rw [fits] at hfits
  rw [startInBody]
  have hinsert := h.insertVoid tag
  have hrefused := hinsert.withFlags false s.skipNewline
  cases hr : startRole tag.name with
  | void =>
    refine ⟨_, rfl, ?_⟩
    rw [Construction.openVoid, h.reopenFormatting]
    exact hrefused
  | input =>
    refine ⟨_, rfl, ?_⟩
    rw [Construction.openVoid, h.reopenFormatting]
    split
    · exact hinsert
    · exact hrefused
  | parameter => exact ⟨_, rfl, hinsert⟩
  | rule =>
    simp only [hr, Bool.not_eq_true'] at hfits
    refine ⟨_, rfl, ?_⟩
    rw [h.closeParagraphInScope hfits]
    exact hrefused
  | _ => simp [hr, standsAlone] at halone

/-- A start tag that fits is taken in the body at once. -/
theorem startInBody_done (h : Reading (f :: fs) kids s) (tag : Tag)
    (hopen : tag.selfClosing = false)
    (hfits : fits ((f :: fs).map Frame.name) tag.name = true) :
    ∃ s', startInBody s tag = .done s' := by
  cases halone : standsAlone (startRole tag.name) with
  | true => exact (h.startInBody_inserts hfits halone).imp fun _ h' => h'.1
  | false => exact (h.startInBody_opens hopen hfits halone).imp fun _ h' => h'.1

end Reading

/-! ## End tags -/

/-- What the end tag of a name has to be like for it to close no more than the innermost element of
that name. -/
def closesOne (tag : String) : Bool :=
  match endRole tag with
  | .block => decide (tag ∉ impliedEndTags) && !formats tag
  | .heading => decide (tag ∈ headingTags) && decide (tag ∉ impliedEndTags) && !formats tag
  | .paragraph => tag = "p" && !formats tag
  | .item | .definition | .ordinary => !formats tag
  | .formatting => true
  | _ => false

/-- A role other than the usual one is that of a name which is listed for it. -/
theorem mem_of_roleIn {ρ : Type} {roles : List (ρ × List String)} {otherwise : ρ} {name : String}
    (h : roleIn roles otherwise name ≠ otherwise) :
    ∃ r ∈ roles, r.1 = roleIn roles otherwise name ∧ name ∈ r.2 := by
  rw [roleIn] at h ⊢
  cases hf : roles.find? fun r => decide (name ∈ r.2) with
  | none => simp [hf] at h
  | some r => exact ⟨r, List.mem_of_find?_eq_some hf, rfl, by simpa using List.find?_some hf⟩

/-- Elements that have no rule of their own for opening have none for closing. -/
theorem endRole_of_ordinary {tag : String} (h : startRole tag = .ordinary) :
    endRole tag = .ordinary := by
  refine Classical.byContradiction fun hne => ?_
  obtain ⟨r, hr, -, htag⟩ := mem_of_roleIn hne
  have hall : ∀ r ∈ endRoles, ∀ name ∈ r.2, startRole name ≠ .ordinary := by decide
  exact hall r hr tag htag h

/-- The end tag of an element that fits somewhere closes no more than that. -/
theorem closesOne_of_fits {above : List String} {tag : String} (hfits : fits above tag = true)
    (halone : standsAlone (startRole tag) = false) : closesOne tag = true := by
  by_cases ho : startRole tag = .ordinary
  · simp [closesOne, endRole_of_ordinary ho, formats, ho]
  · obtain ⟨r, hr, hrole, htag⟩ := mem_of_roleIn ho
    -- the tables of both kinds of tags are gone through name by name
    have hall : ∀ r ∈ startRoles, r.1 ∈ [StartRole.block, .preformatted, .heading, .item,
      .definition, .button, .anchor, .formatting] → ∀ name ∈ r.2, closesOne name = true := by decide
    refine hall r hr ?_ tag htag
    have hrole : r.1 = startRole tag := hrole
    rw [hrole]
    rw [fits] at hfits
    cases hs : startRole tag <;> simp [hs, standsAlone] at hfits halone ho ⊢

namespace Reading

variable {f g : Frame} {fs : List Frame} {kids : List Grown} {s : Construction}

/-- The entries of outer elements are not those of the innermost. -/
theorem not_isOf_top (h : Reading (f :: g :: fs) kids s) {e : Formatting}
    (he : e ∈ (g :: fs).filterMap Frame.entry?) : e.isOf f.key = false := by
  obtain ⟨g', hg', hentry⟩ := List.mem_filterMap.1 he
  rw [Frame.entry?] at hentry
  split at hentry
  · obtain rfl := Option.some.inj hentry
    simpa [Formatting.isOf] using h.ascending.ne_key g' hg'
  · exact absurd hentry (by simp)

/-- The list of formatting elements starts with the entry of the innermost frame if it has one of
that at all; behind it are entries of the other frames. -/
theorem formatting_cases (h : Reading (f :: g :: fs) kids s) :
    (s.formatting.any (Formatting.isOf f.key) = false ∧
        s.formatting.Sublist ((g :: fs).filterMap Frame.entry?)) ∨
      ∃ entries, s.formatting = .element f.key ⟨f.name, f.attrs, false⟩ :: entries ∧
        entries.Sublist ((g :: fs).filterMap Frame.entry?) := by
  have hother : ∀ {entries : List Formatting}, entries.Sublist ((g :: fs).filterMap Frame.entry?) →
      entries.any (Formatting.isOf f.key) = false := by
    intro entries hsub
    rw [List.any_eq_false]
    intro e he
    simp [h.not_isOf_top (hsub.subset he)]
  have hsub := h.formatting
  cases hf : formats f.name with
  | false =>
    have hnone : f.entry? = none := by simp [Frame.entry?, hf]
    rw [List.filterMap_cons_none hnone] at hsub
    exact .inl ⟨hother hsub, hsub⟩
  | true =>
    have hsome : f.entry? = some (.element f.key ⟨f.name, f.attrs, false⟩) := by
      simp [Frame.entry?, hf]
    rw [List.filterMap_cons_some hsome] at hsub
    rcases List.sublist_cons_iff.1 hsub with hsub | ⟨entries, hentries, hsub⟩
    · exact .inl ⟨hother hsub, hsub⟩
    · exact .inr ⟨entries, hentries, hsub⟩

/-- Closing an element that does not format takes it off the stack. -/
theorem closePlain (h : Reading (f :: g :: fs) kids s) (hf : formats f.name = false) :
    Reading (g :: fs) (f.before ++ [f.around kids])
      { s with stack := (g :: fs).map Frame.opened } := by
  have hnone : f.entry? = none := by simp [Frame.entry?, hf]
  exact h.close (by have := h.formatting; rwa [List.filterMap_cons_none hnone] at this)

/-- If the innermost element is wanted, it alone is popped. -/
theorem popThrough_top (h : Reading (f :: g :: fs) kids s) {wanted : Opened → Bool}
    (hw : wanted f.opened = true) : popThrough wanted s.stack = (g :: fs).map Frame.opened := by
  rw [h.stack, List.map_cons, popThrough, if_pos hw]

/-- If its end is not implied, nothing is popped. -/
theorem popImplied_top (h : Reading (f :: g :: fs) kids s) {names : List String}
    (hn : f.name ∉ names) : popImplied names s.stack = s.stack := by
  rw [h.stack, List.map_cons, popImplied]
  exact List.dropWhile_cons_of_neg (by simp [Opened.isHtmlIn, Frame.opened, hn])

/-- The innermost element is in every scope. -/
theorem inScope_top (h : Reading (f :: g :: fs) kids s) (boundary : Opened → Bool)
    {wanted : Opened → Bool} (hw : wanted f.opened = true) :
    inScope boundary wanted s.stack = true := by
  rw [h.stack, List.map_cons, inScope, hw]
  rfl

theorem isHtml_top (f : Frame) : f.opened.isHtml f.name = true := by
  simp [Frame.opened, Opened.isHtml]

/-- The innermost element is in every scope by its name. -/
theorem inScopeNamed_top (h : Reading (f :: g :: fs) kids s) (boundary : Opened → Bool) :
    s.inScopeNamed boundary f.name = true := h.inScope_top boundary (isHtml_top f)

/-- Closing an element that formats takes it off the stack and off the list. -/
theorem closeFormatting (h : Reading (f :: g :: fs) kids s) :
    Reading (g :: fs) (f.before ++ [f.around kids]) (s.closeFormatting f.name) := by
  have hstack : s.stack = f.opened :: (g :: fs).map Frame.opened := h.stack
  rcases h.formatting_cases with ⟨hany, hsub⟩ | ⟨entries, hentries, hsub⟩
  · have hpop : s.closeFormatting f.name = { s with stack := (g :: fs).map Frame.opened } := by
      simp only [Construction.closeFormatting, hstack, isHtml_top, Bool.true_and]
      rw [if_pos (by simpa [Frame.opened] using hany), Construction.pop, hstack]
      rfl
    rw [hpop]
    exact h.close hsub
  · have hfind : findFormatting? f.name s.formatting =
        some (f.key, ⟨f.name, f.attrs, false⟩) := by
      rw [hentries, findFormatting?, if_pos rfl]
    have hremove : removeFormatting f.key s.formatting = entries := by
      rw [hentries, removeFormatting, List.filter_cons_of_neg (by simp [Formatting.isOf])]
      exact List.filter_eq_self.2 fun e he => by simp [h.not_isOf_top (hsub.subset he)]
    have hopen : (s.stack.all fun e => decide (e.key ≠ f.key)) = false := by
      simp [hstack, Frame.opened]
    have hscope : inScope Opened.isBoundary (fun e => decide (e.key = f.key)) s.stack = true :=
      h.inScope_top _ (by simp [Frame.opened])
    have hsplit : Construction.splitStack f.key s.stack = ([], (g :: fs).map Frame.opened) := by
      rw [Construction.splitStack, hstack, List.takeWhile_cons_of_neg (by simp [Frame.opened]),
        List.dropWhile_cons_of_neg (by simp [Frame.opened])]
      rfl
    have hlisted : s.formatting.any (Formatting.isOf f.key) = true := by
      simp [hentries, Formatting.isOf]
    have hexchange : s.closeFormatting f.name =
        { s with stack := (g :: fs).map Frame.opened, formatting := entries } := by
      have hclose : s.closeFormatting f.name = s.exchangeFormatting f.name 8 := by
        simp only [Construction.closeFormatting, hstack]
        rw [if_neg]
        have hkey : f.opened.key = f.key := rfl
        simp [hkey, hlisted]
      rw [hclose, Construction.exchangeFormatting]
      simp only [hfind, hopen, hscope, hsplit, hremove, Bool.not_true, Bool.false_eq_true, if_false]
      rfl
    rw [hexchange]
    exact h.close hsub

/-- **The end tag of the innermost element closes it**, and that is all. -/
theorem endInBody_closes (h : Reading (f :: g :: fs) kids s) (hf : closesOne f.name = true) :
    ∃ s', endInBody s f.name = .done s' ∧
      Reading (g :: fs) (f.before ++ [f.around kids]) s' := by
  rw [closesOne] at hf
  rw [endInBody]
  have hthrough : popThrough (fun e => e.isHtml f.name) s.stack = (g :: fs).map Frame.opened :=
    h.popThrough_top (isHtml_top f)
  have hexcept : s.closeImpliedExcept f.name = s := by
    rw [Construction.closeImpliedExcept, h.popImplied_top (by simp)]
  cases hr : endRole f.name with
  | block =>
    simp only [hr, Bool.and_eq_true, decide_eq_true_eq, Bool.not_eq_true'] at hf
    refine ⟨_, rfl, ?_⟩
    have himplied : s.closeImplied = s := by
      rw [Construction.closeImplied, h.popImplied_top hf.1]
    rw [if_pos (h.inScopeNamed_top _), himplied, Construction.popThroughNamed, hthrough]
    exact h.closePlain hf.2
  | heading =>
    simp only [hr, Bool.and_eq_true, decide_eq_true_eq, Bool.not_eq_true'] at hf
    refine ⟨_, rfl, ?_⟩
    have himplied : s.closeImplied = s := by
      rw [Construction.closeImplied, h.popImplied_top hf.1.2]
    have hheading : f.opened.isHtmlIn headingTags = true := by
      simp [Opened.isHtmlIn, Frame.opened, hf.1.1]
    have hranks : popThrough (fun e => e.isHtmlIn headingTags) s.stack =
        (g :: fs).map Frame.opened := h.popThrough_top hheading
    rw [Construction.closeHeading, if_pos (h.inScope_top _ hheading), himplied]
    simp only [hranks]
    exact h.closePlain hf.2
  | paragraph =>
    simp only [hr, Bool.and_eq_true, decide_eq_true_eq, Bool.not_eq_true'] at hf
    refine ⟨_, rfl, ?_⟩
    rw [hf.1] at hthrough hexcept
    have hscope := h.inScopeNamed_top Opened.isButtonBoundary
    rw [hf.1] at hscope
    rw [if_pos hscope, Construction.closeParagraph, hexcept, Construction.popThroughNamed, hthrough]
    exact h.closePlain hf.2
  | item | definition =>
    simp only [hr, Bool.not_eq_true'] at hf
    refine ⟨_, rfl, ?_⟩
    rw [Construction.closeInScope, if_pos (h.inScopeNamed_top _), hexcept,
      Construction.popThroughNamed, hthrough]
    exact h.closePlain hf
  | formatting => exact ⟨_, rfl, h.closeFormatting⟩
  | ordinary =>
    simp only [hr, Bool.not_eq_true'] at hf
    refine ⟨_, rfl, ?_⟩
    have hbelow : Construction.belowOrdinary? f.name s.stack =
        some ((g :: fs).map Frame.opened) := by
      rw [h.stack, List.map_cons, Construction.belowOrdinary?, if_pos (isHtml_top f)]
    rw [Construction.closeOrdinary, hbelow]
    exact h.closePlain hf
  | _ => simp [hr] at hf

/-! ## Tokens -/

/-- In these states it is the rules of the body that a token meets. -/
theorem processSteps_eq (h : Reading (f :: fs) kids s) {t : Token} {s' : Construction}
    (hdone : inBody s t = .done s') : processSteps (stepBound s) s t = s' := by
  have hforeign : usesForeignRules f.opened t = false := by cases t <;> rfl
  have hdispatch : dispatch s t = inBody s t := by
    simp [dispatch, h.stack, hforeign, inMode, h.mode]
  obtain ⟨n, hn⟩ : ∃ n, stepBound s = n + 1 := ⟨_, rfl⟩
  rw [hn, processSteps, hdispatch, hdone]

/-- **The tag of an element that fits adds a frame.** -/
theorem process_startTag (h : Reading (f :: fs) kids s) (tag : Tag)
    (hopen : tag.selfClosing = false)
    (hfits : fits ((f :: fs).map Frame.name) tag.name = true)
    (halone : standsAlone (startRole tag.name) = false) :
    ∃ key, Reading (⟨key, tag.name, tag.attrs, kids⟩ :: f :: fs) []
      (process s (.startTag tag)) := by
  have h₀ := h.withFlags s.framesetOk false
  obtain ⟨s', hdone, h'⟩ := h₀.startInBody_opens hopen hfits halone
  have hprocess : process s (.startTag tag) = s' := h₀.processSteps_eq hdone
  exact ⟨_, hprocess ▸ h'⟩

/-- **The tag of an element without content adds a node.** -/
theorem process_void (h : Reading (f :: fs) kids s) (tag : Tag)
    (hfits : fits ((f :: fs).map Frame.name) tag.name = true)
    (halone : standsAlone (startRole tag.name) = true) :
    ∃ key, Reading (f :: fs) (kids ++ [.element key .html tag.name tag.attrs []])
      (process s (.startTag tag)) := by
  have h₀ := h.withFlags s.framesetOk false
  obtain ⟨s', hdone, h'⟩ := h₀.startInBody_inserts hfits halone
  have hprocess : process s (.startTag tag) = s' := h₀.processSteps_eq hdone
  exact ⟨_, hprocess ▸ h'⟩

/-- **The end tag of the innermost element closes its frame.** -/
theorem process_endTag (h : Reading (f :: g :: fs) kids s) (hf : closesOne f.name = true) :
    Reading (g :: fs) (f.before ++ [f.around kids]) (process s (.endTag f.name)) := by
  have h₀ := h.withFlags s.framesetOk false
  obtain ⟨s', hdone, h'⟩ := h₀.endInBody_closes hf
  have hprocess : process s (.endTag f.name) = s' := h₀.processSteps_eq hdone
  exact hprocess ▸ h'

/-- A comment goes on the content. -/
theorem process_comment (h : Reading (f :: fs) kids s) (content : List Char) :
    Reading (f :: fs) (kids ++ [.comment content]) (process s (.comment content)) := by
  have h₀ := h.withFlags s.framesetOk false
  have hprocess : process s (.comment content) = _ := h₀.processSteps_eq rfl
  exact hprocess ▸ h₀.insertComment content

/-- A character other than null goes on the content. -/
theorem inBody_char (h : Reading (f :: fs) kids s) {c : Char} (hc : c ≠ '\x00') :
    ∃ s', inBody s (.char c) = .done s' ∧ Reading (f :: fs) (appendChar c kids) s' ∧
      s'.skipNewline = s.skipNewline := by
  have hrule : inBody s (.char c) = if c = '\x00' then .done s else
      .done ((if Text.isAsciiSpace c then s.reopenFormatting
        else s.reopenFormatting.refuseFrames).insertChar c) := rfl
  rw [hrule, if_neg hc, h.reopenFormatting]
  refine ⟨_, rfl, ?_⟩
  split
  · exact ⟨h.insertChar c, rfl⟩
  · exact ⟨(h.withFlags false s.skipNewline).insertChar c, rfl⟩

/-- **A character joins the content of the innermost frame**, unless it is a line feed that does not
count. -/
theorem process_char (h : Reading (f :: fs) kids s) {c : Char} (hc : c ≠ '\x00')
    (hskip : s.skipNewline = true → c ≠ '\n') :
    Reading (f :: fs) (appendChar c kids) (process s (.char c)) ∧
      (process s (.char c)).skipNewline = false := by
  have h₀ := h.withFlags s.framesetOk false
  obtain ⟨s', hdone, h', hs'⟩ := h₀.inBody_char hc
  have hcounts : (s.skipNewline && decide (c = '\n')) = false := by
    cases hs : s.skipNewline with
    | false => rfl
    | true => simpa using hskip hs
  have hprocess : process s (.char c) = s' := by
    rw [process, hcounts]
    exact h₀.processSteps_eq hdone
  exact hprocess ▸ ⟨h', hs'⟩

/-- The end of the text leaves the document as it is. -/
theorem process_eof (h : Reading (f :: fs) kids s) :
    (process s .eof).document = s.document := by
  have h₀ := h.withFlags s.framesetOk false
  have hdone : inBody { s with skipNewline := false } .eof =
      .done { s with skipNewline := false } :=
    if_pos h.templates
  have hprocess : process s .eof = _ := h₀.processSteps_eq hdone
  rw [hprocess]

end Reading

end Pane.Markup
