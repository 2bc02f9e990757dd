import Pane.Proofs.Text.Cuts
import Pane.Proofs.Tree.Built
import Pane.Tree.Printer

/-!
# What the printer writes of a tree

The printer goes from a tree to a text at once.  Between the two stands what the text is meant to
be: a forest in which an element has its identity as its last attribute, and a run of text stands
behind the comment that carries its identity.

* `Node.doms`, `forestDoms` — the forest that a tree is written as.
* `domsChars` — a forest as a text; **`domsChars_forestDoms`** — of the forest of a tree it is the
  text that the printer writes, unless the tree has an element that is taken for a run of text or a
  void element with children.
* `attributeOf?_writtenAttributes` — the attributes of an element that was written.
* **`identityOf?_markerContent`**, **`embeddedIdentity?_writtenAttributes`** — identities are found
  where they were written.
-/

namespace Pane

/-! ## The forest of a tree -/

namespace Markup

/-- The tags' attributes as they are written. -/
def attributesChars (attrs : List (String × String)) : List Char :=
  attrs.flatMap fun (name, value) => attributeChars name value

/-- The attributes of a node as they are written, the identity last. -/
def writtenAttributes (attrs : Table String) (id : Option String) : List (String × String) :=
  attrs.entries ++ id.toList.map fun i => (identityAttribute, i)

theorem openTagChars_eq (tag : String) (attrs : Table String) (id : Option String) :
    openTagChars tag attrs id =
      '<' :: tag.toList ++ attributesChars (writtenAttributes attrs id) ++ ['>'] := by
  cases id <;> simp [openTagChars, writtenAttributes, attributesChars]

end Markup

open Markup

/-- The content of the comment that carries an identity. -/
def markerContent (id : String) : String := String.ofList (markerStart.toList ++ id.toList)

mutual

/-- A node as it is written. -/
def Node.doms : Node → List Dom
  | ⟨_, _, some content, _, id⟩ =>
    (id.toList.map fun i => .comment (markerContent i)) ++ [.text content]
  | ⟨tag, attrs, none, children, id⟩ =>
    [.element tag (writtenAttributes attrs id) (forestDoms children)]

/-- Nodes as they are written. -/
def forestDoms : List Node → List Dom
  | [] => []
  | n :: ns => n.doms ++ forestDoms ns

end

mutual

/-- A node of a forest as a text. -/
def Dom.chars : Dom → List Char
  | .comment content => "<!--".toList ++ content.toList ++ "-->".toList
  | .text content => escapeText content.toList
  | .element name attrs children =>
    '<' :: name.toList ++ attributesChars attrs ++ ['>'] ++
      if isVoid name then [] else domsChars children ++ closeTagChars name

/-- A forest as a text. -/
def domsChars : List Dom → List Char
  | [] => []
  | d :: ds => d.chars ++ domsChars ds

end

theorem domsChars_append (ds es : List Dom) :
    domsChars (ds ++ es) = domsChars ds ++ domsChars es := by
  induction ds with
  | nil => rfl
  | cons d ds ih => rw [List.cons_append, domsChars, domsChars, ih, List.append_assoc]

/-- What the printer can tell of a node: its tag says whether it is a run of text, and whether it
has children. -/
structure Node.Printable (n : Node) : Prop where
  element : n.text = none → n.tag ≠ Node.textTag
  run : n.text.isSome = true → n.tag = Node.textTag
  childless : isVoid n.tag = true → n.children = []

/-- **The text of the forest of a tree is what the printer writes.** -/
theorem domsChars_forestDoms : ∀ {ns : List Node}, (∀ n ∈ preorderAll ns, n.Printable) →
    domsChars (forestDoms ns) = forestChars ns
  | [], _ => by rw [forestDoms, domsChars, forestChars]
  | ⟨tag, attrs, text, children, id⟩ :: ns, h => by
      rw [preorderAll_cons, List.cons_append] at h
      obtain ⟨hn, hbelow⟩ := List.forall_mem_cons.1 h
      have hchildren := domsChars_forestDoms fun n hn => hbelow n (List.mem_append_left _ hn)
      have hns := domsChars_forestDoms fun n hn => hbelow n (List.mem_append_right _ hn)
      rw [forestDoms, forestChars, domsChars_append, hns]
      refine congrArg (· ++ forestChars ns) ?_
      cases text with
      | some content =>
        have htag : tag = Node.textTag := hn.run rfl
        rw [Node.doms, Node.chars, if_pos htag]
        cases id <;> simp [textChars, markerChars, markerContent, domsChars, Dom.chars]
      | none =>
        rw [Node.doms, Node.chars, if_neg (hn.element rfl), domsChars, domsChars, Dom.chars,
          openTagChars_eq, List.append_nil]
        split
        · rw [List.append_nil]
        · rw [hchildren, List.append_assoc _ (forestChars children)]

/-! ## Attributes of an element that was written -/

section written

variable {attrs : Table String} {id : Option String}

/-- A node that keeps allowed attributes has no other. -/
theorem get?_eq_none_of_not_allowed (hattrs : ∀ key ∈ attrs.keys, isAllowedAttribute key = true)
    {name : String} (hname : isAllowedAttribute name = false) : attrs.get? name = none := by
  rw [← Option.not_isSome_iff_eq_none, ← mem_keys_iff]
  intro hmem
  rw [hattrs name hmem] at hname
  exact Bool.noConfusion hname

theorem not_allowed_identityAttribute : isAllowedAttribute identityAttribute = false := by decide

theorem nodup_writtenAttributes (id : Option String)
    (hattrs : ∀ key ∈ attrs.keys, isAllowedAttribute key = true) :
    ((writtenAttributes attrs id).map (·.1)).Nodup := by
  cases id with
  | none => simpa [writtenAttributes, Table.keys] using attrs.nodup_keys
  | some i =>
    simp only [writtenAttributes, Option.toList_some, List.map_append, List.map_cons, List.map_nil]
    refine List.nodup_append.2 ⟨attrs.nodup_keys, by simp, ?_⟩
    intro a ha b hb he
    obtain rfl := List.mem_singleton.1 hb
    have hallowed := hattrs a ha
    rw [he, not_allowed_identityAttribute] at hallowed
    exact Bool.noConfusion hallowed

/-- The identity attribute is the identity, and every other attribute is that of the node. -/
theorem attributeOf?_writtenAttributes (id : Option String)
    (hattrs : ∀ key ∈ attrs.keys, isAllowedAttribute key = true) (name : String) :
    attributeOf? (writtenAttributes attrs id) name =
      if name = identityAttribute then id else attrs.get? name := by
  rw [attributeOf?, writtenAttributes, List.lookup_append]
  show ((attrs.get? name).or _) = _
  split
  · next he =>
    subst he
    rw [get?_eq_none_of_not_allowed hattrs not_allowed_identityAttribute]
    cases id <;> simp
  · next hne => cases id <;> simp [Table.lookup_cons_ite, hne]

/-- What is written of an attribute that a node may keep. -/
theorem attributeOf?_writtenAttributes_of_allowed (id : Option String)
    (hattrs : ∀ key ∈ attrs.keys, isAllowedAttribute key = true) {name : String}
    (hname : isAllowedAttribute name = true) :
    attributeOf? (writtenAttributes attrs id) name = attributeOf? attrs.entries name := by
  have hne : name ≠ identityAttribute := by
    rintro rfl
    rw [not_allowed_identityAttribute] at hname
    cases hname
  rw [attributeOf?_writtenAttributes id hattrs, if_neg hne]
  rfl

theorem attributeOf?_style_writtenAttributes (id : Option String)
    (hattrs : ∀ key ∈ attrs.keys, isAllowedAttribute key = true) :
    attributeOf? (writtenAttributes attrs id) "style" = none := by
  rw [attributeOf?_writtenAttributes id hattrs, if_neg (by decide),
    get?_eq_none_of_not_allowed hattrs (by decide)]

/-! ## Identities that were written -/

theorem not_isBlank_of_trimmed? {s t : String} (h : Text.trimmed? s = some t) :
    Text.isBlank s.toList = false := by
  rw [Bool.eq_false_iff]
  intro hblank
  have hall : ∀ c ∈ s.toList, Text.isSpace c = true := by simpa [Text.isBlank] using hblank
  have hstart : Text.trimStart s.toList = [] := by
    simpa [Text.trimStart] using @List.dropWhile_append_of_pos _ Text.isSpace s.toList [] hall
  have hempty : Text.trimmed s = "" := by simp [Text.trimmed, Text.trim, hstart, Text.trimEnd]
  simp [Text.trimmed?, hempty] at h

/-- **An element has the identity that was written**, if there is no space at its ends. -/
theorem embeddedIdentity?_writtenAttributes
    (hattrs : ∀ key ∈ attrs.keys, isAllowedAttribute key = true)
    (hid : id.bind Text.trimmed? = id) :
    embeddedIdentity? (writtenAttributes attrs id) = id := by
  rw [embeddedIdentity?, attributeOf?_writtenAttributes id hattrs, if_pos rfl]
  cases id with
  | none => rfl
  | some i => simp [Option.filter, not_isBlank_of_trimmed? hid]

theorem takesIdentity_writtenAttributes {tag : String}
    (hattrs : ∀ key ∈ attrs.keys, isAllowedAttribute key = true)
    (hid : id.bind Text.trimmed? = id) (htag : isIdentifiedTag tag = true → id.isSome = true) :
    takesIdentity true tag (writtenAttributes attrs id) = id.isSome := by
  rw [takesIdentity_eq (attributeOf?_style_writtenAttributes id hattrs),
    embeddedIdentity?_writtenAttributes hattrs hid]
  cases hi : isIdentifiedTag tag with
  | true => simp [htag hi]
  | false => rfl

end written

/-- **A comment carries the identity that was written**, if there is no space at its ends. -/
theorem identityOf?_markerContent {id : String} (h : Text.trimmed? id = some id) :
    identityOf? (markerContent id) = some id := by
  have hne : id.toList ≠ [] := by
    intro he
    exact ne_empty_of_trimmed? h (String.toList_eq_nil_iff.1 he)
  have htrim : Text.trim id.toList = id.toList := by
    rw [Text.trimmed?] at h
    split at h
    · exact absurd h (by simp)
    · have := congrArg String.toList (Option.some.inj h)
      rwa [Text.trimmed, String.toList_ofList] at this
  have hend : Text.trimEnd id.toList = id.toList := by
    rw [← htrim, Text.trim, Text.trimEnd_trimEnd]
  have hwhole : Text.trim (markerStart.toList ++ id.toList) = markerStart.toList ++ id.toList := by
    have hstart : Text.trimStart (markerStart.toList ++ id.toList) =
        markerStart.toList ++ id.toList :=
      List.dropWhile_cons_of_neg (show ¬Text.isSpace 'n' = true by decide)
    rw [Text.trim, hstart, Text.trimEnd_append hne hend]
  rw [identityOf?, markerContent, String.toList_ofList, hwhole, Text.dropFront?_append]
  simpa using h

end Pane
