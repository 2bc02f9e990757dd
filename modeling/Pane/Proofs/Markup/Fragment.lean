import Pane.Proofs.Markup.Steps
import Pane.Proofs.Tree.Built

/-!
# Trees that are read as they are written

A tree is written as markup without regard to what the rules of construction make of it.  For a tree
whose elements nest by these rules and whose names and values the lexer leaves alone, the parser
gives back exactly what was written.

* `Node.nests`, `forestNests` — the trees, a property that can be evaluated.
* `LegibleAll` — what the parser needs of a tree whose markup has reached the lexer as it is.
* `leads_forestChars` — node by node, by induction on the tree.
* `Node.ownChars`, **`not_mem_forestChars`** — the characters of the markup.
* **`readFragment_of_text`** — what is read of markup that reaches the lexer as that of a tree.
* **`readFragment_serialize`** — the fragment that is read back.
-/

namespace Pane

open Markup

/-! ## Trees that nest -/

/-- Whether an identity can stand in a comment: it has no brackets and no space at its ends. -/
def isMarkerIdentity (id : String) : Bool :=
  isPlainName id && !id.toList.contains '>' && Text.trimmed? id = some id

/-- Whether an identity can stand in an attribute. -/
def isAttributeIdentity (id : String) : Bool :=
  id.toList.all isReadable && Text.trimmed? id = some id

/-- Whether an element can stand within others, named from the inside, and has a name and values
that the lexer leaves alone. -/
def elementNests (above : List String) (tag : String) (attrs : Table String)
    (id : Option String) : Bool :=
  tag ≠ Node.textTag && fits above tag && isVoid tag = standsAlone (startRole tag) &&
    isTagName tag && isNoScript tag && attrs.entries.all (fun a => a.2.toList.all isReadable) &&
    id.all isAttributeIdentity

mutual

/-- Whether a node nests within elements, named from the inside; of two runs of text side by side
the second needs an identity. -/
def Node.nests (above : List String) (behindText : Bool) : Node → Bool
  | ⟨_, _, some content, _, id⟩ =>
    (id.isSome || !behindText) && content.toList.all isReadable && id.all isMarkerIdentity
  | ⟨tag, attrs, none, children, id⟩ =>
    elementNests above tag attrs id &&
      if isVoid tag then children.isEmpty else forestNests (tag :: above) false children

/-- Whether nodes nest within elements, named from the inside. -/
def forestNests (above : List String) (behindText : Bool) : List Node → Bool
  | [] => true
  | n :: ns => n.nests above behindText && forestNests above n.text.isSome ns

end

/-! ## Elements -/

/-- What the lexer needs of an element. -/
structure Readable (tag : String) (written : List (String × String)) : Prop where
  name : isTagName tag = true
  noScript : isNoScript tag = true
  attributes : ∀ a ∈ written, isAttributeName a.1 = true ∧ isPlainName a.1 = true
  values : ∀ a ∈ written, '\x00' ∉ a.2.toList
  nodup : (written.map (·.1)).Nodup

/-- The attributes of a readable tag are read one by one. -/
theorem Readable.lexable {tag : String} {written : List (String × String)}
    (h : Readable tag written) :
    ∀ a ∈ written, isAttributeName a.1 = true ∧ '\x00' ∉ a.2.toList := by
  intro a ha
  exact ⟨(h.attributes a ha).1, h.values a ha⟩

/-- Attributes that are allowed have plain names. -/
theorem isPlainName_of_isAllowedAttribute {name : String} (h : isAllowedAttribute name = true) :
    isPlainName name = true := by
  have hall : ∀ n ∈ allowedAttributes, isPlainName n = true := by decide
  exact hall name (of_decide_eq_true h)

/-- An attribute that is written is one of the element, or its identity. -/
theorem mem_writtenAttributes {attrs : Table String} {id : Option String} {a : String × String}
    (ha : a ∈ writtenAttributes attrs id) :
    a ∈ attrs.entries ∨ a.1 = identityAttribute ∧ id = some a.2 := by
  rw [writtenAttributes, List.mem_append] at ha
  rcases ha with ha | ha
  · exact .inl ha
  · obtain ⟨i, hi, rfl⟩ := List.mem_map.1 ha
    exact .inr ⟨rfl, by simpa using hi⟩

section element

variable {above : List String} {tag : String} {attrs : Table String} {id : Option String}

/-- An element with allowed attributes and a name that is no script's can be read, if neither its
values nor its identity hold the null character. -/
theorem readable_writtenAttributes (hname : isTagName tag = true) (hscript : isNoScript tag = true)
    (hattrs : ∀ name ∈ attrs.keys, isAllowedAttribute name = true)
    (hvalues : ∀ a ∈ attrs.entries, '\x00' ∉ a.2.toList)
    (hid : ∀ i, id = some i → '\x00' ∉ i.toList) : Readable tag (writtenAttributes attrs id) := by
  refine ⟨hname, hscript, ?_, ?_, nodup_writtenAttributes id hattrs⟩
  · intro a ha
    rcases mem_writtenAttributes ha with hmem | ⟨he, -⟩
    · have hallowed := hattrs a.1 (List.mem_map_of_mem hmem)
      exact ⟨isAttributeName_of_isAllowedAttribute hallowed,
        isPlainName_of_isAllowedAttribute hallowed⟩
    · exact he ▸ ⟨isAttributeName_identityAttribute, by decide⟩
  · intro a ha
    rcases mem_writtenAttributes ha with hmem | ⟨-, hi⟩
    · exact hvalues a hmem
    · exact hid a.2 hi

/-- What is asked of an element that nests, by its parts. -/
theorem of_elementNests (h : elementNests above tag attrs id = true) :
    tag ≠ Node.textTag ∧ fits above tag = true ∧ isVoid tag = standsAlone (startRole tag) ∧
      isTagName tag = true ∧ isNoScript tag = true ∧
      (∀ a ∈ attrs.entries, ∀ c ∈ a.2.toList, isReadable c = true) ∧
      id.all isAttributeIdentity = true := by
  simpa only [elementNests, Bool.and_eq_true, decide_eq_true_eq, List.all_eq_true,
    and_assoc] using h

/-- An identity that an attribute can hold is readable. -/
theorem isReadable_of_isAttributeIdentity {i : String} (h : isAttributeIdentity i = true) :
    ∀ c ∈ i.toList, isReadable c = true := by
  rw [isAttributeIdentity, Bool.and_eq_true, List.all_eq_true] at h
  exact h.1

/-- One that a marker can hold is a plain name without a bracket. -/
theorem isPlainName_of_isMarkerIdentity {i : String} (h : isMarkerIdentity i = true) :
    isPlainName i = true ∧ '>' ∉ i.toList := by
  simp only [isMarkerIdentity, Bool.and_eq_true, Bool.not_eq_true'] at h
  obtain ⟨⟨hplain, hgt⟩, -⟩ := h
  refine ⟨hplain, fun hmem => ?_⟩
  rw [List.contains_iff_mem.2 hmem] at hgt
  exact Bool.noConfusion hgt

/-- An element that nests has a readable tag. -/
theorem readable_of_elementNests (hattrs : ∀ name ∈ attrs.keys, isAllowedAttribute name = true)
    (h : elementNests above tag attrs id = true) : Readable tag (writtenAttributes attrs id) := by
  obtain ⟨-, -, -, hname, hscript, hvalues, hid⟩ := of_elementNests h
  refine readable_writtenAttributes hname hscript hattrs ?_ ?_
  · intro a ha hmem
    exact (of_isReadable (hvalues a ha _ hmem)).1 rfl
  · rintro i rfl hmem
    exact (of_isReadable (isReadable_of_isAttributeIdentity hid _ hmem)).1 rfl

end element

/-! ## Trees that are read as they are written -/

mutual

/-- A node that can be read within elements, named from the inside.  A run of text in normal form
stands behind another only if a comment is between them, and the identity in this comment does not
end it.  An element stands where the rules leave it, and is written with a closing tag exactly if it
is read with one. -/
inductive Node.Legible : List String → Bool → Node → Prop where
  | text {above : List String} {behindText : Bool} {content : String} {id : Option String}
      (hne : content ≠ "") (hnormal : normalizeText content = content)
      (hnull : '\x00' ∉ content.toList) (hbehind : behindText = true → id.isSome = true)
      (hid : ∀ i, id = some i → '<' ∉ i.toList ∧ ∀ c ∈ i.toList, c ≠ '>' ∧ c ≠ '\x00') :
      Node.Legible above behindText (Node.ofText content id)
  | element {above : List String} {behindText : Bool} {tag : String} {attrs : Table String}
      {children : List Node} {id : Option String} (htag : tag ≠ Node.textTag)
      (hread : Readable tag (writtenAttributes attrs id)) (hfits : fits above tag = true)
      (hvoid : isVoid tag = standsAlone (startRole tag))
      (hempty : isVoid tag = true → children = [])
      (hchildren : LegibleAll (tag :: above) false children) :
      Node.Legible above behindText ⟨tag, attrs, none, children, id⟩

/-- Nodes that can be read within elements, named from the inside. -/
inductive LegibleAll : List String → Bool → List Node → Prop where
  | nil {above : List String} {behindText : Bool} : LegibleAll above behindText []
  | cons {above : List String} {behindText : Bool} {n : Node} {ns : List Node}
      (hn : n.Legible above behindText) (hns : LegibleAll above n.text.isSome ns) :
      LegibleAll above behindText (n :: ns)

end

/-- A built tree that nests can be read. -/
theorem legibleAll_of_nests : ∀ (ns : List Node) {editable behindText : Bool} {above : List String},
    BuiltAll editable ns → forestNests above behindText ns = true → LegibleAll above behindText ns
  | [], _, _, _, _, _ => .nil
  | ⟨tag, attrs, text, children, id⟩ :: ns, editable, behindText, above, hbuilt, hnests => by
      cases hbuilt with
      | cons hn hns =>
        rw [forestNests, Bool.and_eq_true] at hnests
        obtain ⟨hnest, hnests⟩ := hnests
        refine .cons ?_ (legibleAll_of_nests ns hns hnests)
        cases hn with
        | text hne hnormal hid =>
          simp only [Node.nests, Bool.and_eq_true, List.all_eq_true, Bool.or_eq_true,
            Bool.not_eq_true'] at hnest
          obtain ⟨⟨hbehind, hcontent⟩, hmarker⟩ := hnest
          refine .text hne hnormal (fun hmem => ?_) (fun hb => ?_) ?_
          · exact (of_isReadable (hcontent _ hmem)).1 rfl
          · exact hbehind.resolve_right (by rw [hb]; exact Bool.noConfusion)
          · rintro i rfl
            obtain ⟨hplain, hgt⟩ := isPlainName_of_isMarkerIdentity hmarker
            exact ⟨no_bracket_of_isPlainName hplain, fun c hc =>
              ⟨ne_of_mem_of_not_mem hc hgt, ne_null_of_isPlainName hplain c hc⟩⟩
        | element hattrs hid hchildren =>
          rw [Node.nests, Bool.and_eq_true] at hnest
          obtain ⟨helement, hbelow⟩ := hnest
          obtain ⟨htag, hfits, hvoid, -⟩ := of_elementNests helement
          refine .element htag (readable_of_elementNests hattrs helement) hfits hvoid ?_ ?_
          · intro hv
            rw [if_pos hv] at hbelow
            exact List.isEmpty_iff.1 hbelow
          · split at hbelow
            · rw [List.isEmpty_iff.1 hbelow]
              exact .nil
            · exact legibleAll_of_nests children hchildren hbelow

/-! ## The text that is written -/

/-- No script begins in a run of text. -/
theorem scriptless_textChars {content : String} {id : Option String}
    (hid : ∀ i, id = some i → '<' ∉ i.toList) : Scriptless (textChars (some content) id) := by
  cases id with
  | none => exact scriptless_nil.append (scriptless_escapeText _)
  | some i => exact (scriptless_markerChars (hid i rfl)).append (scriptless_escapeText _)

/-- Taking scripts out of the markup of a tree that can be read leaves it whole. -/
theorem scriptless_forestChars : ∀ (ns : List Node) {behindText : Bool} {above : List String},
    LegibleAll above behindText ns → Scriptless (forestChars ns)
  | [], _, _, _ => scriptless_nil
  | ⟨tag, attrs, text, children, id⟩ :: ns, behindText, above, h => by
      cases h with
      | cons hn hns =>
        rw [forestChars]
        refine Scriptless.append ?_ (scriptless_forestChars ns hns)
        cases hn with
        | text hne hnormal hnull hbehind hid =>
          exact scriptless_textChars fun i hi => (hid i hi).1
        | element htag hread hfits hvoid hempty hchildren =>
          have hopen : Scriptless (openTagChars tag attrs id) :=
            scriptless_openTagChars hread.noScript fun a ha => (hread.attributes a ha).2
          rw [Node.chars, if_neg htag]
          split
          · exact hopen
          · exact (hopen.append (scriptless_forestChars children hchildren)).append
              (scriptless_closeTagChars hread.noScript)

/-! ## The characters that are written -/

/-- The characters of the markup that no name, value, identity or text has to have. -/
def printed : List Char := "<!--nid:/> =\"&amp;lt;gt;quot;".toList

/-- The characters of the names, of the values with the identity, and of the text of a node. -/
def Node.ownChars (n : Node) : List Char :=
  n.tag.toList ++ (writtenAttributes n.attrs n.id).flatMap (fun a => a.1.toList ++ a.2.toList) ++
    (n.text.getD "").toList

section printed

variable {c : Char}

/-- A character that is not printed for another is in escaped text only if it was there. -/
theorem not_mem_escapeText (hc : c ∉ printed) {s : List Char} (h : c ∉ s) : c ∉ escapeText s := by
  intro hmem
  obtain ⟨d, hd, hcd⟩ := List.mem_flatMap.1 hmem
  rcases mem_escapeTextChar hcd with ⟨rfl, -⟩ | href
  · exact h hd
  · have hsub : "&amp;lt;gt;".toList ⊆ printed := by decide
    exact hc (hsub href)

/-- So with escaped attributes. -/
theorem not_mem_escapeAttribute (hc : c ∉ printed) {s : List Char} (h : c ∉ s) :
    c ∉ escapeAttribute s := by
  intro hmem
  obtain ⟨d, hd, hcd⟩ := List.mem_flatMap.1 hmem
  rcases mem_escapeAttributeChar hcd with ⟨rfl, -⟩ | href
  · exact h hd
  · have hsub : "&amp;lt;gt;quot;".toList ⊆ printed := by decide
    exact hc (hsub href)

/-- So with written attributes. -/
theorem not_mem_attributesChars (hc : c ∉ printed) {written : List (String × String)}
    (h : c ∉ written.flatMap fun a => a.1.toList ++ a.2.toList) : c ∉ attributesChars written := by
  intro hmem
  obtain ⟨a, ha, hca⟩ := List.mem_flatMap.1 hmem
  have hown : c ∉ a.1.toList ∧ c ∉ a.2.toList := by
    rw [← not_or, ← List.mem_append]
    exact fun hown => h (List.mem_flatMap.2 ⟨a, ha, hown⟩)
  have hvalue := not_mem_escapeAttribute hc hown.2
  have hfixed : c ≠ ' ' ∧ c ≠ '=' ∧ c ≠ '"' := by
    refine ⟨?_, ?_, ?_⟩ <;> exact fun he => hc (he ▸ by decide)
  simp [attributeChars, hown.1, hvalue, hfixed] at hca

/-- So with a run of text. -/
theorem not_mem_textChars (hc : c ∉ printed) {text id : Option String}
    (htext : c ∉ (text.getD "").toList) (hid : ∀ i, id = some i → c ∉ i.toList) :
    c ∉ textChars text id := by
  have hescaped := not_mem_escapeText hc htext
  have hfixed : "<!--".toList ⊆ printed ∧ markerStart.toList ⊆ printed ∧
      "-->".toList ⊆ printed := by
    decide
  cases id with
  | none => exact hescaped
  | some i =>
    rw [textChars, markerChars]
    simp only [List.mem_append, not_or]
    exact ⟨⟨⟨⟨fun h => hc (hfixed.1 h), fun h => hc (hfixed.2.1 h)⟩, hid i rfl⟩,
      fun h => hc (hfixed.2.2 h)⟩, hescaped⟩

/-- **No other character is written** than those of the nodes and of the markup itself. -/
theorem not_mem_forestChars (hc : c ∉ printed) :
    ∀ ns : List Node, (∀ n ∈ preorderAll ns, c ∉ n.ownChars) → c ∉ forestChars ns
  | [], _ => List.not_mem_nil
  | ⟨tag, attrs, text, children, id⟩ :: ns, h => by
      rw [preorderAll_cons, List.cons_append, List.forall_mem_cons, List.forall_mem_append] at h
      obtain ⟨hself, hchildren, hns⟩ := h
      have hbelow := not_mem_forestChars hc children hchildren
      have hbehind := not_mem_forestChars hc ns hns
      simp only [Node.ownChars, List.mem_append, not_or] at hself
      obtain ⟨⟨htag, hwritten⟩, htext⟩ := hself
      have hattributes := not_mem_attributesChars hc hwritten
      have hescaped := not_mem_escapeText hc htext
      have hfixed : c ≠ '<' ∧ c ≠ '>' ∧ c ≠ '/' := by
        refine ⟨?_, ?_, ?_⟩ <;> exact fun he => hc (he ▸ by decide)
      rw [forestChars, List.mem_append, not_or]
      refine ⟨?_, hbehind⟩
      rw [Node.chars]
      split
      · refine not_mem_textChars hc htext ?_
        rintro i rfl hmem
        refine hwritten (List.mem_flatMap.2
          ⟨(identityAttribute, i), ?_, List.mem_append_right _ hmem⟩)
        exact List.mem_append_right _ (List.mem_singleton.2 rfl)
      · split
        · simp [openTagChars_eq, htag, hattributes, hfixed]
        · simp [openTagChars_eq, closeTagChars, htag, hattributes, hfixed, hbelow]

end printed

/-- What holds of readable characters holds of those of a node with a plain tag and allowed
attributes, if it holds of those of its values, its identity and its text. -/
theorem forall_mem_ownChars {p : Char → Prop} (hp : ∀ c, isReadable c = true → p c) {n : Node}
    (htag : isPlainName n.tag = true)
    (hattrs : ∀ name ∈ n.attrs.keys, isAllowedAttribute name = true)
    (hvalues : ∀ a ∈ n.attrs.entries, ∀ c ∈ a.2.toList, p c)
    (hid : ∀ i, n.id = some i → ∀ c ∈ i.toList, p c)
    (htext : ∀ content, n.text = some content → ∀ c ∈ content.toList, p c) :
    ∀ c ∈ n.ownChars, p c := by
  have hplain : ∀ name, isPlainName name = true → ∀ c ∈ name.toList, p c := fun name h c hc =>
    hp c (of_isPlain (of_isPlainName h c hc)).1
  rw [Node.ownChars, List.forall_mem_append, List.forall_mem_append, List.forall_mem_flatMap]
  refine ⟨⟨hplain _ htag, fun a ha => ?_⟩, ?_⟩
  · rw [List.forall_mem_append]
    rcases mem_writtenAttributes ha with hmem | ⟨hname, hi⟩
    · have hallowed := hattrs a.1 (List.mem_map_of_mem hmem)
      exact ⟨hplain _ (isPlainName_of_isAllowedAttribute hallowed), hvalues a hmem⟩
    · exact ⟨hplain _ (hname ▸ by decide), hid a.2 hi⟩
  · cases ht : n.text with
    | none => simp
    | some content => exact htext content ht

/-- The characters of a tree that nests are readable. -/
theorem isReadable_of_nests : ∀ (ns : List Node) {editable behindText : Bool} {above : List String},
    BuiltAll editable ns → forestNests above behindText ns = true →
    ∀ n ∈ preorderAll ns, ∀ c ∈ n.ownChars, isReadable c = true
  | [], _, _, _, _, _ => by simp [preorderAll]
  | ⟨tag, attrs, text, children, id⟩ :: ns, editable, behindText, above, hbuilt, hnests => by
      cases hbuilt with
      | cons hn hns =>
        rw [forestNests, Bool.and_eq_true] at hnests
        obtain ⟨hnest, hnests⟩ := hnests
        rw [preorderAll_cons, List.cons_append, List.forall_mem_cons, List.forall_mem_append]
        have hrest := isReadable_of_nests ns hns hnests
        cases hn with
        | text hne hnormal hid =>
          refine ⟨?_, by simp [preorderAll], hrest⟩
          simp only [Node.nests, Bool.and_eq_true, List.all_eq_true] at hnest
          obtain ⟨⟨-, hcontent⟩, hmarker⟩ := hnest
          have htag : isPlainName Node.textTag = true := by decide
          refine forall_mem_ownChars (fun _ h => h) htag (fun _ h => absurd h List.not_mem_nil)
            (fun _ h => absurd h List.not_mem_nil) ?_ ?_
          · rintro i rfl c hc
            have hplain := (isPlainName_of_isMarkerIdentity hmarker).1
            exact (of_isPlain (of_isPlainName hplain c hc)).1
          · rintro _ ⟨⟩
            exact hcontent
        | element hattrs hid hchildren =>
          rw [Node.nests, Bool.and_eq_true] at hnest
          obtain ⟨helement, hbelow⟩ := hnest
          obtain ⟨-, -, -, -, hscript, hvalues, hidentity⟩ := of_elementNests helement
          refine ⟨?_, ?_, hrest⟩
          · refine forall_mem_ownChars (fun _ h => h) (isPlainName_of_isNoScript hscript) hattrs
              hvalues ?_ (by rintro _ ⟨⟩)
            rintro i rfl
            exact isReadable_of_isAttributeIdentity hidentity
          · split at hbelow
            · rw [List.isEmpty_iff.1 hbelow]
              simp [preorderAll]
            · exact isReadable_of_nests children hchildren hbelow

/-! ## Reading it -/

theorem domForest_append (ns ms : List Grown) :
    domForest (ns ++ ms) = domForest ns ++ domForest ms := by
  induction ns with
  | nil => rfl
  | cons n ns ih => rw [List.cons_append, domForest, domForest, ih, List.cons_append]

theorem not_endsInText_nil : ¬EndsInText [] := by
  rintro ⟨before, reversed, he⟩
  simp at he

/-- What ends in something else does not end in text. -/
theorem not_endsInText_append {kids : List Grown} {n : Grown} (hn : ∀ r, n ≠ .text r) :
    ¬EndsInText (kids ++ [n]) := by
  rintro ⟨before, reversed, he⟩
  exact hn reversed (by simpa using (List.append_inj' he rfl).2)

/-- The element of a frame around its content. -/
theorem dom_around {f : Frame} (hf : f.name ≠ "template") (kids : List Grown) :
    (f.around kids).dom = .element f.name f.attrs (domForest kids) := by
  simp [Frame.around, Grown.dom, hf]

/-- A template fits nowhere. -/
theorem ne_template_of_fits {above : List String} {tag : String} (h : fits above tag = true) :
    tag ≠ "template" := by
  rintro rfl
  have hrole : startRole "template" = .head := by decide
  simp [fits, hrole] at h

variable {source : Source}

/-- A run of text is read, with the comment in front of it. -/
theorem leads_textChars {f : Frame} {fs : List Frame} {kids : List Grown} {s : Construction}
    {behindText : Bool} {content : String} {id : Option String} (rest : List Char)
    (hne : content ≠ "") (hnormal : normalizeText content = content)
    (hnull : '\x00' ∉ content.toList) (hbehind : behindText = true → id.isSome = true)
    (hid : ∀ i, id = some i → ∀ c ∈ i.toList, c ≠ '>' ∧ c ≠ '\x00')
    (h : Reading (f :: fs) kids s) (hlast : behindText = false → ¬EndsInText kids) :
    ∃ s' kids', Leads source s (textChars (some content) id ++ rest) s' rest ∧
      Reading (f :: fs) kids' s' ∧
      domForest kids' = domForest kids ++ (Node.ofText content id).doms := by
  have hchars : content.toList ≠ [] := fun he => hne (String.toList_eq_nil_iff.1 he)
  have hfirst : content.toList.head? ≠ some '\n' := by
    intro hc
    rw [← hnormal] at hc
    have := Text.head?_normalizeText hc
    revert this
    decide
  have hnull : ∀ c ∈ content.toList, c ≠ '\x00' := fun c hc => ne_of_mem_of_not_mem hc hnull
  have hdom : (Grown.text content.toList.reverse).dom = .text content := by simp [Grown.dom]
  cases id with
  | none =>
    have hbehind : behindText = false := Bool.eq_false_iff.2 fun hb => Bool.noConfusion (hbehind hb)
    obtain ⟨s', hleads, h'⟩ := h.leads_text rest hchars hfirst hnull (hlast hbehind)
    exact ⟨s', _, hleads, h', by simp [domForest_append, domForest, hdom, Node.ofText, Node.doms]⟩
  | some i =>
    have hcomment := h.process_comment (markerStart.toList ++ i.toList)
    have hmarker : Leads source s (markerChars i ++ (escapeText content.toList ++ rest)) _ _ :=
      h.leads_token (by simp [markerChars]) (lexMarkup_markerChars (hid i rfl) false _)
    obtain ⟨s', hleads, h'⟩ := hcomment.leads_text rest hchars hfirst hnull
      (not_endsInText_append (by simp))
    refine ⟨s', _, ?_, h', ?_⟩
    · rw [textChars, List.append_assoc]
      exact hmarker.trans hleads
    · simp [domForest_append, domForest, Node.ofText, Node.doms, Grown.dom, markerContent]

/-- A written start tag is read as one token. -/
theorem leads_openTagChars {f : Frame} {fs : List Frame} {kids : List Grown} {s : Construction}
    {tag : String} {attrs : Table String} {id : Option String}
    (hread : Readable tag (writtenAttributes attrs id)) (h : Reading (f :: fs) kids s)
    (rest : List Char) :
    Leads source s (openTagChars tag attrs id ++ rest)
      (process s (.startTag ⟨tag, writtenAttributes attrs id, false⟩)) rest :=
  h.leads_token (by simp [openTagChars_eq])
    (lexMarkup_openTagChars hread.name hread.lexable hread.nodup false rest)

/-- So is an end tag. -/
theorem leads_closeTagChars {f : Frame} {fs : List Frame} {kids : List Grown} {s : Construction}
    {tag : String} (htag : isTagName tag = true) (h : Reading (f :: fs) kids s) (rest : List Char) :
    Leads source s (closeTagChars tag ++ rest) (process s (.endTag tag)) rest :=
  h.leads_token (by simp [closeTagChars]) (lexMarkup_closeTagChars htag false rest)

/-- An element without content is read at once. -/
theorem leads_void {f : Frame} {fs : List Frame} {kids : List Grown} {s : Construction}
    {tag : String} {attrs : Table String} {id : Option String}
    (hread : Readable tag (writtenAttributes attrs id))
    (hfits : fits ((f :: fs).map Frame.name) tag = true)
    (halone : standsAlone (startRole tag) = true) (h : Reading (f :: fs) kids s)
    (rest : List Char) :
    ∃ s' kids', Leads source s (openTagChars tag attrs id ++ rest) s' rest ∧
      Reading (f :: fs) kids' s' ∧ ¬EndsInText kids' ∧
      domForest kids' = domForest kids ++ [.element tag (writtenAttributes attrs id) []] := by
  obtain ⟨key, h'⟩ := h.process_void ⟨tag, writtenAttributes attrs id, false⟩ hfits halone
  have hdom := dom_around (f := ⟨key, tag, writtenAttributes attrs id, kids⟩)
    (ne_template_of_fits hfits) []
  refine ⟨_, _, leads_openTagChars hread h rest, h', not_endsInText_append (by simp), ?_⟩
  rw [domForest_append]
  exact congrArg (fun d => domForest kids ++ [d]) hdom

/-- An element with content is read if its content is. -/
theorem leads_container {f : Frame} {fs : List Frame} {kids : List Grown} {s : Construction}
    {tag : String} {attrs : Table String} {id : Option String} {children : List Node}
    (hread : Readable tag (writtenAttributes attrs id))
    (hfits : fits ((f :: fs).map Frame.name) tag = true)
    (halone : standsAlone (startRole tag) = false)
    (hchildren : ∀ key s, Reading (⟨key, tag, writtenAttributes attrs id, kids⟩ :: f :: fs) [] s →
      ∀ rest, ∃ s' below, Leads source s (forestChars children ++ rest) s' rest ∧
        Reading (⟨key, tag, writtenAttributes attrs id, kids⟩ :: f :: fs) below s' ∧
        domForest below = forestDoms children)
    (h : Reading (f :: fs) kids s) (rest : List Char) :
    ∃ s' kids', Leads source s (openTagChars tag attrs id ++ forestChars children ++
        closeTagChars tag ++ rest) s' rest ∧
      Reading (f :: fs) kids' s' ∧ ¬EndsInText kids' ∧
      domForest kids' = domForest kids ++
        [.element tag (writtenAttributes attrs id) (forestDoms children)] := by
  obtain ⟨key, h₁⟩ :=
    h.process_startTag ⟨tag, writtenAttributes attrs id, false⟩ rfl hfits halone
  obtain ⟨s₂, below, hleads, h₂, hdom⟩ := hchildren key _ h₁ (closeTagChars tag ++ rest)
  have h₃ := h₂.process_endTag (closesOne_of_fits hfits halone)
  have hopen : Leads source s (openTagChars tag attrs id ++ (forestChars children ++
      (closeTagChars tag ++ rest))) _ _ := leads_openTagChars hread h _
  have hclose : Leads source s₂ (closeTagChars tag ++ rest) _ rest :=
    leads_closeTagChars hread.name h₂ rest
  have hdom' := dom_around (f := ⟨key, tag, writtenAttributes attrs id, kids⟩)
    (ne_template_of_fits hfits) below
  refine ⟨_, _, ?_, h₃, not_endsInText_append (by simp [Frame.around]), ?_⟩
  · simp only [List.append_assoc]
    exact hopen.trans (hleads.trans hclose)
  · rw [domForest_append, ← hdom]
    exact congrArg (fun d => domForest kids ++ [d]) hdom'

/-- **Nodes that can be read are read as they were written**, node by node. -/
theorem leads_forestChars : ∀ (ns : List Node) {behindText : Bool} {f : Frame} {fs : List Frame}
    {kids : List Grown} {s : Construction} (rest : List Char),
    LegibleAll ((f :: fs).map Frame.name) behindText ns →
    Reading (f :: fs) kids s → (behindText = false → ¬EndsInText kids) →
    ∃ s' kids', Leads source s (forestChars ns ++ rest) s' rest ∧ Reading (f :: fs) kids' s' ∧
      domForest kids' = domForest kids ++ forestDoms ns
  | [], _, _, _, kids, s, rest, _, h, _ => ⟨s, kids, .refl _ _, h, by simp [forestDoms]⟩
  | ⟨tag, attrs, text, children, id⟩ :: ns, behindText, f, fs, kids, s, rest, hlegible, h,
      hlast => by
      cases hlegible with
      | cons hn hns =>
        rw [forestChars, List.append_assoc, forestDoms, ← List.append_assoc (domForest kids)]
        cases hn with
        | text hne hnormal hnull hbehind hid =>
          obtain ⟨s₁, kids₁, hleads₁, h₁, hdom₁⟩ := leads_textChars (forestChars ns ++ rest)
            hne hnormal hnull hbehind (fun i hi => (hid i hi).2) h hlast
          obtain ⟨s', kids', hleads, h', hdom⟩ := leads_forestChars ns rest hns h₁ (by simp)
          exact ⟨s', kids', hleads₁.trans hleads, h', hdom₁ ▸ hdom⟩
        | element htag hread hfits hvoid hempty hchildren =>
          rw [Node.chars, if_neg htag, Node.doms]
          by_cases hv : isVoid tag = true
          · obtain rfl := hempty hv
            rw [if_pos hv]
            obtain ⟨s₁, kids₁, hleads₁, h₁, hlast₁, hdom₁⟩ :=
              leads_void hread hfits (hvoid ▸ hv) h (forestChars ns ++ rest)
            obtain ⟨s', kids', hleads, h', hdom⟩ :=
              leads_forestChars ns rest hns h₁ fun _ => hlast₁
            exact ⟨s', kids', hleads₁.trans hleads, h', hdom₁ ▸ hdom⟩
          · rw [if_neg hv]
            -- the children are read in a frame of their own, which has no content yet
            have hbelow := fun key s h₁ rest =>
              @leads_forestChars children _ ⟨key, tag, writtenAttributes attrs id, kids⟩ (f :: fs)
                [] s rest hchildren h₁ fun _ => not_endsInText_nil
            obtain ⟨s₁, kids₁, hleads₁, h₁, hlast₁, hdom₁⟩ := leads_container hread hfits
              (hvoid ▸ Bool.eq_false_iff.2 hv) hbelow h (forestChars ns ++ rest)
            obtain ⟨s', kids', hleads, h', hdom⟩ :=
              leads_forestChars ns rest hns h₁ fun _ => hlast₁
            exact ⟨s', kids', hleads₁.trans hleads, h', hdom₁ ▸ hdom⟩

/-! ## From the beginning to the end -/

/-- The elements around a fragment, from the inside. -/
def wrappers : List String := ["body", "html"]

/-- What fits begins the body. -/
theorem begins_of_fits {above : List String} {tag : Tag} (h : fits above tag.name = true) :
    begins (.startTag tag) = true := by
  have hall : ∀ name ∈ wrapperTags,
      startRole name ∈ [StartRole.root, .head, .body, .frameset, .raw, .stray] := by decide
  refine decide_eq_true fun hmem => ?_
  have hrole := hall tag.name hmem
  rw [fits] at h
  cases hs : startRole tag.name <;> simp [hs] at h hrole

/-- A forest that does not start with a comment starts with something for the body. -/
theorem lexMarkup_forestChars {n : Node} {ns : List Node}
    (hlegible : LegibleAll wrappers false (n :: ns)) (hfirst : n.text.isSome = true → n.id = none) :
    ∃ t rest s', lexMarkup false (forestChars (n :: ns)) = ⟨[t], rest⟩ ∧ begins t = true ∧
      inBody entered t = .done s' := by
  cases hlegible with
  | cons hn hns =>
    rw [forestChars]
    cases hn with
    | text hne hnormal hnull hbehind hid =>
      next content id =>
      obtain rfl : id = none := hfirst rfl
      obtain ⟨c, cs, hcs⟩ : ∃ c cs, content.toList = c :: cs := by
        cases h : content.toList with
        | nil => exact absurd (String.toList_eq_nil_iff.1 h) hne
        | cons c cs => exact ⟨c, cs, rfl⟩
      have hnull : c ≠ '\x00' := ne_of_mem_of_not_mem (hcs ▸ List.mem_cons_self ..) hnull
      have hspace : Text.isAsciiSpace c = false :=
        Text.head?_normalizeText (by rw [hnormal, hcs]; rfl)
      obtain ⟨s', hdone, -⟩ := reading_entered.inBody_char hnull
      refine ⟨.char c, escapeText cs ++ forestChars ns, s', ?_, by simp [begins, hspace], hdone⟩
      have hchars : (Node.ofText content none).chars =
          escapeTextChar c ++ escapeText cs := by
        simp [Node.ofText, Node.chars, textChars, hcs, escapeText]
      rw [hchars, List.append_assoc, lexMarkup_escapeTextChar]
    | element htag hread hfits hvoid hempty hchildren =>
      next tag attrs children id =>
      obtain ⟨s', hdone⟩ := reading_entered.startInBody_done
        ⟨tag, writtenAttributes attrs id, false⟩ rfl hfits
      obtain ⟨more, hchars⟩ : ∃ more, (⟨tag, attrs, none, children, id⟩ : Node).chars =
          openTagChars tag attrs id ++ more := by
        rw [Node.chars, if_neg htag]
        split
        · exact ⟨[], (List.append_nil _).symm⟩
        · exact ⟨_, List.append_assoc ..⟩
      refine ⟨.startTag ⟨tag, writtenAttributes attrs id, false⟩, more ++ forestChars ns, s', ?_,
        begins_of_fits hfits, hdone⟩
      rw [hchars, List.append_assoc]
      exact lexMarkup_openTagChars hread.name hread.lexable hread.nodup false _

/-- **What reaches the lexer as the markup of a tree that can be read is read as that tree**,
whatever marks and line ends had to go before. -/
theorem readFragment_of_text {tree : List Node} {s : List Char} (hscript : Scriptless s)
    (htext : (Source.ofChars s).text = forestChars tree) (hlegible : LegibleAll wrappers false tree)
    (hfirst : ∀ n, tree.head? = some n → n.text.isSome = true → n.id = none) :
    readFragment (String.ofList s) = .ok (forestDoms tree) := by
  obtain ⟨kids, hdocument, hkids⟩ : ∃ kids,
      (process (run (Source.ofChars s) (forestChars tree).length {} (forestChars tree))
        .eof).document = plug enteredFrames kids ∧ domForest kids = forestDoms tree := by
    cases tree with
    | nil =>
      have heof : process {} .eof = process entered .eof := process_of_begins rfl rfl
      refine ⟨[], ?_, rfl⟩
      rw [forestChars, List.length_nil, run, heof, reading_entered.process_eof]
      rfl
    | cons n ns =>
      obtain ⟨t, rest, s₁, hlex, ht, hdone⟩ := lexMarkup_forestChars hlegible (hfirst n rfl)
      have hlegible : LegibleAll (enteredFrames.map Frame.name) false (n :: ns) := hlegible
      obtain ⟨s', kids, hleads, h', hdom⟩ := @leads_forestChars (Source.ofChars s) (n :: ns)
        _ _ _ _ _ [] hlegible reading_entered fun _ => not_endsInText_nil
      rw [List.append_nil] at hleads
      have hne : forestChars (n :: ns) ≠ [] := by
        intro he
        rw [he] at hlex
        simp [lexMarkup] at hlex
      have hrun := run_of_leads (hleads.of_entered hne hlex ht hdone) rfl _ (Nat.le_refl _)
      refine ⟨kids, ?_, hdom⟩
      rw [hrun, h'.process_eof]
      exact h'.document
  have hwrapped : domForest (plug enteredFrames kids) =
      [.element "html" [] [.element "head" [] [], .element "body" [] (domForest kids)]] := by
    simp [enteredFrames, plug, Frame.around, domForest, Grown.dom]
  have hlower : Text.lower "head" = "head" ∧ Text.lower "body" = "body" := by decide
  rw [readFragment, construct_stripScripts hscript, htext, hdocument, hwrapped, ← hkids]
  simp [fragmentOf, rootChildren, isBody, unwrapped, hlower]

/-- A first run of text has no identity where text cannot be edited. -/
theorem id_of_head?_of_built {ns : List Node} (hbuilt : BuiltAll false ns) :
    ∀ n, ns.head? = some n → n.text.isSome = true → n.id = none := by
  intro n hn htext
  cases hbuilt with
  | nil => cases hn
  | cons hbuilt _ =>
    obtain rfl := Option.some.inj hn
    cases hbuilt with
    | text _ _ hid => exact Option.not_isSome_iff_eq_none.1 (Bool.eq_false_iff.1 hid)
    | element => cases htext

/-- **A tree that nests is read as it was written.** -/
theorem readFragment_serialize {tree : List Node} (hbuilt : BuiltAll false tree)
    (hnests : forestNests wrappers false tree = true) :
    readFragment (serialize tree) = .ok (forestDoms tree) := by
  have hread := isReadable_of_nests tree hbuilt hnests
  have hreturn : '\r' ∉ forestChars tree :=
    not_mem_forestChars (by decide) tree fun n hn hmem =>
      (of_isReadable (hread n hn _ hmem)).2.2 rfl
  have hmark : byteOrderMark ∉ forestChars tree :=
    not_mem_forestChars (by decide) tree fun n hn hmem =>
      (of_isReadable (hread n hn _ hmem)).2.1 rfl
  have hlegible := legibleAll_of_nests tree hbuilt hnests
  have hsource := ofChars_eq hreturn (unmarked_of_not_mem hmark)
  exact readFragment_of_text (scriptless_forestChars tree hlegible) (by rw [hsource]) hlegible
    (id_of_head?_of_built hbuilt)

end Pane
