import Pane.Markup.Construction

/-!
# Open elements as frames around what is inserted

While the body of a document is read, insertion happens in the innermost open element.  The document
is then this element's content so far with the open elements around it, each with the siblings in
front of it: a list of *frames*.

**Frames.**  `Frame`, `plug`: the document that frames and a content make.  Keys ascend toward the
inside (`Ascending`), so the key of the innermost frame leads to its content: **`onChildren_plug`**.

**States.**  `Reading`: the states in which the body is read in some frames, none of which hosts
anything special.  `Reading.insertAt_eq`, `Reading.push`, `Reading.close`: what insertion, opening
and closing make of the frames.
-/

namespace Pane.Markup

/-! ## Frames -/

/-- An open element of documents, and the siblings in front of it. -/
structure Frame where
  key : Nat
  name : String
  attrs : List (String × String)
  before : List Grown

namespace Frame

/-- The element as it stands on the stack. -/
def opened (f : Frame) : Opened := ⟨f.key, .html, f.name, false⟩

/-- The element with its content. -/
def around (f : Frame) (kids : List Grown) : Grown := .element f.key .html f.name f.attrs kids

end Frame

/-- The document that frames, the innermost first, and the content of the innermost one make. -/
def plug : List Frame → List Grown → List Grown
  | [], kids => kids
  | f :: fs, kids => plug fs (f.before ++ [f.around kids])

/-! ## Keys -/

mutual

/-- The keys of an element and of those below it. -/
def Grown.keys : Grown → List Nat
  | .element k _ _ _ children => k :: keysIn children
  | _ => []

/-- The keys of elements among nodes and below them. -/
def keysIn : List Grown → List Nat
  | [] => []
  | n :: ns => n.keys ++ keysIn ns

end

theorem keysIn_append (ns ms : List Grown) : keysIn (ns ++ ms) = keysIn ns ++ keysIn ms := by
  induction ns with
  | nil => rfl
  | cons n ns ih => rw [List.cons_append, keysIn, keysIn, ih, List.append_assoc]

/-- A character has no key. -/
theorem keysIn_appendChar (c : Char) : ∀ ns : List Grown, keysIn (appendChar c ns) = keysIn ns
  | [] => rfl
  | [.text _] => rfl
  | [.comment _] => rfl
  | [.element ..] => by simp [appendChar, keysIn, Grown.keys]
  | n :: m :: ns => by
      rw [appendChar, keysIn, keysIn_appendChar c (m :: ns), ← keysIn]
      simp

/-- The keys of frames ascend toward the inside, and each is above those of the siblings in front of
it; all are below `next`. -/
def Ascending : Nat → List Frame → Prop
  | _, [] => True
  | next, f :: fs => f.key < next ∧ (∀ k ∈ keysIn f.before, k < f.key) ∧ Ascending f.key fs

/-- Keys that are below one number are below a greater one. -/
theorem Ascending.mono {next next' : Nat} {fs : List Frame} (h : Ascending next fs)
    (hle : next ≤ next') : Ascending next' fs := by
  cases fs with
  | nil => trivial
  | cons f fs => exact ⟨Nat.lt_of_lt_of_le h.1 hle, h.2⟩

/-- All keys in use are below the next one. -/
theorem Ascending.key_lt {next : Nat} {fs : List Frame} (h : Ascending next fs) :
    ∀ f ∈ fs, f.key < next := by
  induction fs generalizing next with
  | nil => simp
  | cons f fs ih =>
    intro g hg
    rcases List.mem_cons.1 hg with rfl | hg
    · exact h.1
    · exact Nat.lt_trans (ih h.2.2 g hg) h.1

theorem onChildren_append (key : Nat) (change : List Grown → List Grown) (ns ms : List Grown) :
    onChildren key change (ns ++ ms) = onChildren key change ns ++ onChildren key change ms := by
  induction ns with
  | nil => rfl
  | cons n ns ih => rw [List.cons_append, onChildren, onChildren, ih, List.cons_append]

/-- Nothing changes where the key is not in use. -/
theorem onChildren_of_not_mem {key : Nat} (change : List Grown → List Grown) :
    ∀ {ns : List Grown}, key ∉ keysIn ns → onChildren key change ns = ns
  | [], _ => rfl
  | .element k space name attrs children :: ns, h => by
      simp only [keysIn, Grown.keys, List.cons_append, List.mem_cons, List.mem_append,
        not_or] at h
      rw [onChildren, Grown.onChildren, if_neg (Ne.symm h.1), onChildren_of_not_mem change h.2.1,
        onChildren_of_not_mem change h.2.2]
  | .text s :: ns, h => by
      rw [onChildren, onChildren_of_not_mem change (by simpa [keysIn, Grown.keys] using h)]
      rfl
  | .comment s :: ns, h => by
      rw [onChildren, onChildren_of_not_mem change (by simpa [keysIn, Grown.keys] using h)]
      rfl

/-- A key above those of the frames is looked for in their content. -/
theorem onChildren_plug_of_le {key : Nat} (change : List Grown → List Grown) {next : Nat}
    {fs : List Frame} (kids : List Grown) (h : Ascending next fs) (hle : next ≤ key) :
    onChildren key change (plug fs kids) = plug fs (onChildren key change kids) := by
  induction fs generalizing next kids with
  | nil => rfl
  | cons f fs ih =>
    obtain ⟨hlt, hbelow, hfs⟩ := h
    have hbefore : key ∉ keysIn f.before := by
      intro hmem
      have := hbelow key hmem
      omega
    have hkey : f.key ≠ key := by omega
    rw [plug, ih _ hfs (by omega), onChildren_append, onChildren_of_not_mem change hbefore, plug,
      onChildren, onChildren, Frame.around, Grown.onChildren, if_neg hkey]
    rfl

/-- **The key of the innermost frame leads to its content.** -/
theorem onChildren_plug {next : Nat} {f : Frame} {fs : List Frame} (h : Ascending next (f :: fs))
    (change : List Grown → List Grown) (kids : List Grown) :
    onChildren f.key change (plug (f :: fs) kids) = plug (f :: fs) (change kids) := by
  have hbefore : f.key ∉ keysIn f.before := fun hmem => Nat.lt_irrefl _ (h.2.1 _ hmem)
  rw [plug, onChildren_plug_of_le change _ h.2.2 (Nat.le_refl _), onChildren_append,
    onChildren_of_not_mem change hbefore, plug, onChildren, onChildren, Frame.around,
    Grown.onChildren, if_pos rfl]
  rfl

/-- The innermost frame has a key of its own. -/
theorem Ascending.ne_key {next : Nat} {f : Frame} {fs : List Frame} (h : Ascending next (f :: fs)) :
    ∀ g ∈ fs, g.key ≠ f.key := by
  intro g hg
  exact Nat.ne_of_lt (h.2.2.key_lt g hg)

/-! ## Formatting elements -/

/-- Whether an element formats what is in it. -/
def formats (name : String) : Bool := decide (startRole name ∈ [.anchor, .formatting])

/-- The entry of a frame in the list of formatting elements, if it is one of these. -/
def Frame.entry? (f : Frame) : Option Formatting :=
  if formats f.name then some (.element f.key ⟨f.name, f.attrs, false⟩) else none

theorem sublist_removeFormatting (key : Nat) (entries : List Formatting) :
    (removeFormatting key entries).Sublist entries := List.filter_sublist

/-- Making room in the list of formatting only takes entries away. -/
theorem sublist_makeRoom (tag : Tag) (entries : List Formatting) :
    (makeRoom tag entries).Sublist entries := by
  rw [makeRoom]
  split
  · split
    · exact sublist_removeFormatting ..
    · exact List.Sublist.refl _
  · exact List.Sublist.refl _

/-! ## States -/

/-- The body is read in some frames, of which the innermost has some content so far.  Entries of
formatting elements are those of frames, in the same order. -/
structure Reading (fs : List Frame) (kids : List Grown) (s : Construction) : Prop where
  document : s.document = plug fs kids
  stack : s.stack = fs.map Frame.opened
  mode : s.mode = .inBody
  templates : s.templateModes = []
  fostering : s.fostering = false
  kind : s.textKind = .markup
  formatting : s.formatting.Sublist (fs.filterMap Frame.entry?)
  ascending : Ascending s.nextKey fs
  below : ∀ k ∈ keysIn kids, k < s.nextKey

namespace Reading

variable {f g : Frame} {fs : List Frame} {kids : List Grown} {s : Construction}

/-- What the rules of the body set besides has no part in it. -/
theorem withFlags (h : Reading fs kids s) (framesetOk skipNewline : Bool) :
    Reading fs kids { s with framesetOk := framesetOk, skipNewline := skipNewline } :=
  ⟨h.document, h.stack, h.mode, h.templates, h.fostering, h.kind, h.formatting, h.ascending,
    h.below⟩

/-- What is inserted goes into the innermost element. -/
theorem place_eq (h : Reading (f :: fs) kids s) : s.place = .within f.key := by
  rw [Construction.place, h.stack]
  simp [Construction.placeAt, h.fostering, Frame.opened]

/-- There it goes behind the content that has been read. -/
theorem insertAt_eq (h : Reading (f :: fs) kids s) (n : Grown) :
    insertAt s.place n s.document = plug (f :: fs) (kids ++ [n]) := by
  rw [h.place_eq, h.document, insertAt, onChildren_plug h.ascending]
  rfl

/-- The content of the innermost frame is replaced, and some keys are used up. -/
theorem withContent (h : Reading fs kids s) {kids' : List Grown} {document : List Grown}
    {next : Nat} (hdocument : document = plug fs kids') (hnext : s.nextKey ≤ next)
    (hbelow : ∀ k ∈ keysIn kids', k < next) :
    Reading fs kids' { s with document := document, nextKey := next } :=
  ⟨hdocument, h.stack, h.mode, h.templates, h.fostering, h.kind, h.formatting,
    h.ascending.mono hnext, hbelow⟩

/-- A character is inserted behind the content. -/
theorem insertChar (h : Reading (f :: fs) kids s) (c : Char) :
    Reading (f :: fs) (appendChar c kids) (s.insertChar c) := by
  have hdocument : insertCharAt s.place c s.document = plug (f :: fs) (appendChar c kids) := by
    rw [h.place_eq, h.document, insertCharAt, onChildren_plug h.ascending]
  exact h.withContent hdocument (Nat.le_refl _) (keysIn_appendChar c kids ▸ h.below)

/-- So is a comment. -/
theorem insertComment (h : Reading (f :: fs) kids s) (content : List Char) :
    Reading (f :: fs) (kids ++ [.comment content]) (s.insertComment content) :=
  h.withContent (h.insertAt_eq _) (Nat.le_refl _)
    (by simpa [keysIn_append, keysIn, Grown.keys] using h.below)

/-- So is an element without content. -/
theorem insertVoid (h : Reading (f :: fs) kids s) (tag : Tag) :
    Reading (f :: fs) (kids ++ [.element s.nextKey .html tag.name tag.attrs []])
      (s.insertVoid tag) := by
  refine h.withContent (h.insertAt_eq _) (Nat.le_succ _) ?_
  intro k hk
  simp only [keysIn_append, keysIn, Grown.keys, List.mem_append, List.mem_singleton,
    List.append_nil] at hk
  rcases hk with hk | rfl
  · exact Nat.lt_succ_of_lt (h.below k hk)
  · exact Nat.lt_succ_self _

/-- An element that is opened is the innermost frame; it may have entered the list of formatting
elements. -/
theorem push (h : Reading (f :: fs) kids s) (tag : Tag) {entries : List Formatting}
    (hentries : entries.Sublist
      ((⟨s.nextKey, tag.name, tag.attrs, kids⟩ :: f :: fs : List Frame).filterMap Frame.entry?)) :
    Reading (⟨s.nextKey, tag.name, tag.attrs, kids⟩ :: f :: fs) []
      { s.insertElement tag with formatting := entries } where
  document := h.insertAt_eq _
  stack := by
    simp only [Construction.insertElement, Construction.insertIn, Construction.addElement,
      Construction.newElement, h.stack]
    rfl
  mode := h.mode
  templates := h.templates
  fostering := h.fostering
  kind := h.kind
  formatting := hentries
  ascending := ⟨Nat.lt_succ_self _, h.below, h.ascending⟩
  below := by simp [keysIn]

/-- An element that does not format is opened around content that is yet to come. -/
theorem insertElement (h : Reading (f :: fs) kids s) {tag : Tag} (ht : formats tag.name = false) :
    Reading (⟨s.nextKey, tag.name, tag.attrs, kids⟩ :: f :: fs) [] (s.insertElement tag) := by
  have hnone : Frame.entry? ⟨s.nextKey, tag.name, tag.attrs, kids⟩ = none := by
    simp [Frame.entry?, ht]
  exact h.push tag (by rw [List.filterMap_cons_none hnone]; exact h.formatting)

/-- One that formats is listed besides. -/
theorem openFormatting (h : Reading (f :: fs) kids s) {tag : Tag} (ht : formats tag.name = true)
    (hopen : tag.selfClosing = false) :
    Reading (⟨s.nextKey, tag.name, tag.attrs, kids⟩ :: f :: fs) [] (s.openFormatting tag) := by
  have hsome : Frame.entry? ⟨s.nextKey, tag.name, tag.attrs, kids⟩ =
      some (.element s.nextKey tag) := by
    cases tag
    cases hopen
    simp [Frame.entry?, ht]
  have hroom := (sublist_makeRoom tag s.formatting).trans h.formatting
  exact h.push tag (by rw [List.filterMap_cons_some hsome]; exact hroom.cons_cons _)

/-- The innermost frame is closed; its entry among the formatting elements goes, if it has one. -/
theorem close (h : Reading (f :: g :: fs) kids s) {entries : List Formatting}
    (hentries : entries.Sublist ((g :: fs).filterMap Frame.entry?)) :
    Reading (g :: fs) (f.before ++ [f.around kids])
      { s with stack := (g :: fs).map Frame.opened, formatting := entries } where
  document := h.document
  stack := rfl
  mode := h.mode
  templates := h.templates
  fostering := h.fostering
  kind := h.kind
  formatting := hentries
  ascending := h.ascending.2.2.mono (Nat.le_of_lt h.ascending.1)
  below := by
    intro k hk
    have hf := h.ascending.1
    simp only [keysIn_append, keysIn, Frame.around, Grown.keys, List.mem_append, List.mem_cons,
      List.append_nil] at hk
    rcases hk with hk | rfl | hk
    · exact Nat.lt_trans (h.ascending.2.1 k hk) hf
    · exact hf
    · exact h.below k hk

/-! ## Formatting elements that are open -/

/-- Each entry of the list is that of an open element that formats. -/
theorem of_mem_formatting (h : Reading fs kids s) {entry : Formatting} (he : entry ∈ s.formatting) :
    ∃ g ∈ fs, formats g.name = true ∧ entry = .element g.key ⟨g.name, g.attrs, false⟩ := by
  obtain ⟨g, hg, hentry⟩ := List.mem_filterMap.1 (h.formatting.subset he)
  rw [Frame.entry?] at hentry
  split at hentry
  · next hf => exact ⟨g, hg, hf, (Option.some.inj hentry).symm⟩
  · exact absurd hentry (by simp)

/-- As all of them are open, none is opened again. -/
theorem reopenFormatting (h : Reading fs kids s) : s.reopenFormatting = s := by
  have hopen : ∀ entry ∈ s.formatting, s.isMarkerOrOpen entry = true := by
    intro entry he
    obtain ⟨g, hg, -, rfl⟩ := h.of_mem_formatting he
    simp only [Construction.isMarkerOrOpen, h.stack, List.any_map, List.any_eq_true]
    exact ⟨g, hg, by simp [Frame.opened]⟩
  have hnone : s.formatting.takeWhile (fun e => !s.isMarkerOrOpen e) = [] := by
    cases hs : s.formatting with
    | nil => rfl
    | cons entry entries =>
      have := hopen entry (by simp [hs])
      exact List.takeWhile_cons_of_neg (by simp [this])
  simp only [Construction.reopenFormatting, hnone, if_true]

end Reading

end Pane.Markup
