import Pane.Proofs.RoundTrip
import Pane.Proofs.Tree.Rebuilt

/-!
# Plain panes

Sections, paragraphs, spans, pictures and text, with the identities that the builder would give
them.  A plain pane is a tree that the builder does not change and whose markup the parser does not
change, so writing it and reading it back gives the pane again, with one asset for each picture.

The one exception is a byte order mark in a value or an identity.  It is written like any other
character, and if a portion of the markup happens to start with it, it is left out.

* `Place`, `Place.Holds` — which elements stand where.
* `Node.Plain`, `PlainAll` — plain panes.
* `legibleAll_of_plain`, `builtAll_of_plain`, `canonical_of_plain` — what parser and builder need.
* **`plain_panes_are_read_back`** — the pane and its assets.
* **`marked_value_is_not_read_back`** — the exception.
-/

namespace Pane

open Markup

/-! ## The panes -/

/-- Where a node of a plain pane stands: among blocks, in a span among blocks, or in a paragraph. -/
inductive Place where
  | flow
  | phrase
  | paragraph
  deriving DecidableEq

/-- The place within a span. -/
def Place.inside : Place → Place
  | .flow => .phrase
  | place => place

/-- The elements that stand at a place, and the place of their content. -/
inductive Place.Holds : Place → String → Place → Prop where
  | division : Place.Holds .flow "div" .flow
  | sectioning : Place.Holds .flow "section" .flow
  | paragraph : Place.Holds .flow "p" .paragraph
  | span {place : Place} : Place.Holds place "span" place.inside
  | picture {place : Place} : Place.Holds place "img" place

/-- An identity of a plain pane: not empty and without space at its ends, without the null character
and without carriage returns. -/
structure PlainIdentity (id : String) : Prop where
  trimmed : Text.trimmed? id = some id
  noNull : '\x00' ∉ id.toList
  noReturn : '\r' ∉ id.toList

/-- The attributes of an element of a plain pane.  The class attribute is made of distinct tokens, a
single space apart. -/
structure PlainAttributes (attrs : Table String) : Prop where
  allowed : ∀ name ∈ attrs.keys, isAllowedAttribute name = true
  noNull : ∀ a ∈ attrs.entries, '\x00' ∉ a.2.toList
  noReturn : ∀ a ∈ attrs.entries, '\r' ∉ a.2.toList
  classes : ∀ value, attrs.get? "class" = some value →
    ∃ ts : List String, ts ≠ [] ∧ ts.Nodup ∧
      (∀ t ∈ ts, Text.IsToken Text.isAsciiSpace t.toList) ∧ value = Text.joinTokens ts

mutual

/-- A node of a plain pane at a place, behind a run of text or not. -/
inductive Node.Plain : Place → Bool → Node → Prop where
  | text {place : Place} {behindText : Bool} {content : String} {id : Option String}
      (hne : content ≠ "") (hnormal : normalizeText content = content)
      (hnull : '\x00' ∉ content.toList) (hbehind : place ≠ .paragraph → behindText = false)
      (hid : id.isSome = decide (place = .paragraph))
      (hmarker : ∀ i, id = some i → PlainIdentity i ∧ '<' ∉ i.toList ∧ '>' ∉ i.toList) :
      Node.Plain place behindText (Node.ofText content id)
  | element {place below : Place} {behindText : Bool} {tag : String} {attrs : Table String}
      {children : List Node} {id : Option String} (hplace : place.Holds tag below)
      (hattrs : PlainAttributes attrs) (hid : ∀ i, id = some i → PlainIdentity i)
      (hidentified : tag = "p" ∨ tag = "img" → id.isSome = true)
      (hempty : tag = "img" → children = []) (hchildren : PlainAll below false children) :
      Node.Plain place behindText ⟨tag, attrs, none, children, id⟩

/-- The nodes of a plain pane at a place. -/
inductive PlainAll : Place → Bool → List Node → Prop where
  | nil {place : Place} {behindText : Bool} : PlainAll place behindText []
  | cons {place : Place} {behindText : Bool} {n : Node} {ns : List Node}
      (hn : n.Plain place behindText) (hns : PlainAll place n.text.isSome ns) :
      PlainAll place behindText (n :: ns)

end

/-- The nodes below a node of a plain pane are such nodes too. -/
theorem plain_of_mem : ∀ {ns : List Node} {place : Place} {behindText : Bool},
    PlainAll place behindText ns →
    ∀ n ∈ preorderAll ns, ∃ place behindText, n.Plain place behindText
  | [], _, _, _ => by simp [preorderAll]
  | ⟨tag, attrs, text, children, id⟩ :: ns, place, behindText, h => by
      cases h with
      | cons hn hns =>
        rw [preorderAll_cons, List.cons_append, List.forall_mem_cons, List.forall_mem_append]
        refine ⟨⟨place, behindText, hn⟩, ?_, plain_of_mem hns⟩
        cases hn with
        | text => simp [preorderAll]
        | element _ _ _ _ _ hchildren => exact plain_of_mem hchildren

/-! ## What the parser needs -/

section place

variable {place below : Place} {tag : String}

/-- What a place holds is readable, and stands alone only as a picture. -/
theorem Place.Holds.readable (h : place.Holds tag below) :
    tag ≠ Node.textTag ∧ isTagName tag = true ∧ isNoScript tag = true ∧
      isVoid tag = standsAlone (startRole tag) ∧ (isVoid tag = true → tag = "img") := by
  cases h <;> decide

/-- What a place holds fits there, unless a paragraph is open around a block. -/
theorem Place.Holds.fits (h : place.Holds tag below) {above : List String}
    (habove : place = .flow → hasParagraph above = false) : fits above tag = true := by
  have hroles : startRole "div" = .block ∧ startRole "section" = .block ∧ startRole "p" = .block ∧
      startRole "span" = .ordinary ∧ startRole "img" = .void := by decide
  cases h with
  | division => simp [Markup.fits, hroles, habove rfl]
  | sectioning => simp [Markup.fits, hroles, habove rfl]
  | paragraph => simp [Markup.fits, hroles, habove rfl]
  | span => simp [Markup.fits, hroles]
  | picture => simp [Markup.fits, hroles]

/-- Another element than a paragraph opens none. -/
theorem hasParagraph_cons {above : List String} (hne : tag ≠ "p")
    (habove : hasParagraph above = false) : hasParagraph (tag :: above) = false := by
  have hself : (openedOf tag).isHtml "p" = false := by simp [openedOf, Opened.isHtml, hne]
  rw [hasParagraph] at habove ⊢
  rw [List.map_cons, inScope, hself, habove, Bool.and_false, Bool.or_false]

/-- Among blocks no paragraph is open. -/
theorem Place.Holds.hasParagraph (h : place.Holds tag below) {above : List String}
    (habove : place = .flow → hasParagraph above = false) (hbelow : below = .flow) :
    hasParagraph (tag :: above) = false := by
  cases h with
  | division => exact hasParagraph_cons (by decide) (habove rfl)
  | sectioning => exact hasParagraph_cons (by decide) (habove rfl)
  | paragraph => cases hbelow
  | span => cases place <;> cases hbelow
  | picture => exact hasParagraph_cons (by decide) (habove hbelow)

end place

/-- **A plain pane can be read as it is written.** -/
theorem legibleAll_of_plain : ∀ {ns : List Node} {place : Place} {behindText : Bool}
    {above : List String}, PlainAll place behindText ns →
    (place = .flow → hasParagraph above = false) → LegibleAll above behindText ns
  | [], _, _, _, _, _ => .nil
  | ⟨tag, attrs, text, children, id⟩ :: ns, place, behindText, above, h, habove => by
      cases h with
      | cons hn hns =>
        refine .cons ?_ (legibleAll_of_plain hns habove)
        cases hn with
        | text hne hnormal hnull hbehind hid hmarker =>
          refine .text hne hnormal hnull (fun hb => ?_) fun i hi => ?_
          · rw [hid, decide_eq_true_eq]
            exact Decidable.byContradiction fun hplace =>
              Bool.noConfusion (hb.symm.trans (hbehind hplace))
          · obtain ⟨hplain, hlt, hgt⟩ := hmarker i hi
            exact ⟨hlt, fun c hc =>
              ⟨ne_of_mem_of_not_mem hc hgt, ne_of_mem_of_not_mem hc hplain.noNull⟩⟩
        | element hplace hattrs hid _ hempty hchildren =>
          obtain ⟨htag, hname, hscript, hvoid, himg⟩ := hplace.readable
          refine .element htag ?_ (hplace.fits habove) hvoid (fun hv => hempty (himg hv))
            (legibleAll_of_plain hchildren (hplace.hasParagraph habove))
          exact readable_writtenAttributes hname hscript hattrs.allowed hattrs.noNull
            fun i hi => (hid i hi).noNull

/-- Text in normal form has no carriage returns. -/
theorem no_return_of_normal {content : String} (h : normalizeText content = content) :
    '\r' ∉ content.toList := by
  intro hmem
  rw [← h] at hmem
  have hspace : Text.isAsciiSpace '\r' = true := by decide
  rcases Text.mem_normalizeText hmem with he | hns
  · exact absurd he (by decide)
  · rw [hspace] at hns
    exact Bool.noConfusion hns

/-- No carriage returns are written. -/
theorem no_return_of_plain {place : Place} {behindText : Bool} {n : Node}
    (h : n.Plain place behindText) : '\r' ∉ n.ownChars := by
  have hall : ∀ c ∈ n.ownChars, c ≠ '\r' := by
    have hread : ∀ c, isReadable c = true → c ≠ '\r' := fun c hc => (of_isReadable hc).2.2
    cases h with
    | text hne hnormal _ _ _ hmarker =>
      have htag : isPlainName Node.textTag = true := by decide
      refine forall_mem_ownChars hread htag (fun _ h => absurd h List.not_mem_nil)
        (fun _ h => absurd h List.not_mem_nil) ?_ ?_
      · intro i hi c hc
        exact ne_of_mem_of_not_mem hc (hmarker i hi).1.noReturn
      · rintro _ ⟨⟩ c hc
        exact ne_of_mem_of_not_mem hc (no_return_of_normal hnormal)
    | element hplace hattrs hid _ _ _ =>
      refine forall_mem_ownChars hread (isPlainName_of_isNoScript hplace.readable.2.2.1)
        hattrs.allowed ?_ ?_ (by rintro _ ⟨⟩)
      · intro a ha c hc
        exact ne_of_mem_of_not_mem hc (hattrs.noReturn a ha)
      · intro i hi c hc
        exact ne_of_mem_of_not_mem hc (hid i hi).noReturn
  exact fun hmem => hall _ hmem rfl

/-! ## What the builder needs -/

/-- What a place holds is kept, and takes an identity only as a paragraph or a picture. -/
theorem Place.Holds.kept {place below : Place} {tag : String} (h : place.Holds tag below) :
    Text.lower tag = tag ∧ isSkipped tag = false ∧
      (isIdentifiedTag tag = true → tag = "p" ∨ tag = "img") := by
  cases h <;> decide

/-- Text can be edited in paragraphs only. -/
theorem Place.Holds.editable {place below : Place} {tag : String} (h : place.Holds tag below) :
    (decide (place = .paragraph) || isTextEditable tag) = decide (below = .paragraph) := by
  cases h with
  | division => decide
  | sectioning => decide
  | paragraph => decide
  | span => cases place <;> decide
  | picture => cases place <;> decide

/-- **A plain pane is one that the builder could have made.** -/
theorem builtAll_of_plain : ∀ {ns : List Node} {place : Place} {behindText : Bool},
    PlainAll place behindText ns → BuiltAll (decide (place = .paragraph)) ns
  | [], _, _, _ => .nil
  | ⟨tag, attrs, text, children, id⟩ :: ns, place, behindText, h => by
      cases h with
      | cons hn hns =>
        refine .cons ?_ (builtAll_of_plain hns)
        cases hn with
        | text hne hnormal _ _ hid _ => exact .text hne hnormal hid
        | element hplace hattrs _ hidentified _ hchildren =>
          refine .element hattrs.allowed (fun h => hidentified (hplace.kept.2.2 h)) ?_
          rw [hplace.editable]
          exact builtAll_of_plain hchildren

/-- Plain nodes are canonical. -/
theorem canonical_of_plain {place : Place} {behindText : Bool} {n : Node}
    (h : n.Plain place behindText) : n.Canonical := by
  have hidentity : ∀ {id : Option String}, (∀ i, id = some i → PlainIdentity i) →
      id.bind Text.trimmed? = id := by
    rintro (_ | i) hid
    · rfl
    · exact (hid i rfl).trimmed
  cases h with
  | text _ _ _ _ _ hmarker => exact canonical_ofText (hidentity fun i hi => (hmarker i hi).1)
  | element hplace hattrs hid _ _ _ =>
    refine ⟨fun _ => hplace.kept.1, fun _ => hplace.kept.2.1, fun value hvalue => ?_, hidentity hid⟩
    obtain ⟨ts, hne, hnodup, htoken, rfl⟩ := hattrs.classes value hvalue
    exact isClassValue_joinTokens hne hnodup htoken

/-- What the check enforces of a node by itself. -/
theorem keepsRules_of_plain {place : Place} {behindText : Bool} {n : Node}
    (h : n.Plain place behindText) : n.KeepsRules := by
  cases h with
  | text => exact ⟨fun _ h => absurd h List.not_mem_nil, fun _ => rfl⟩
  | element hplace hattrs _ _ _ _ =>
    exact ⟨hattrs.allowed, fun htag => absurd htag hplace.readable.1⟩

/-- A picture is no background. -/
theorem isBackground_of_picture {attrs : Attributes} {classes : List String}
    {backgroundFor? : String → Option String} {a : Asset}
    (h : Asset.extract? "img" attrs classes backgroundFor? = some a) : a.isBackground = false := by
  obtain ⟨content, hcontent, rfl⟩ := Option.map_eq_some_iff.1 h
  rw [AssetContent.extract?, if_pos rfl] at hcontent
  obtain rfl := Option.some.inj hcontent
  rfl

/-- Only pictures are assets, and their attributes tell which. -/
theorem ownAsset?_of_plain {place : Place} {behindText : Bool} {n : Node}
    (h : n.Plain place behindText) (a : Asset) :
    n.ownAsset? = some a ↔
      n.tag = "img" ∧ Asset.extract? "img" n.attrs.entries [] (fun _ => none) = some a := by
  cases h with
  | text =>
    have htag : Node.textTag ≠ "img" := by decide
    rw [ownAsset?_ofText]
    exact ⟨nofun, fun h => absurd h.1 htag⟩
  | element hplace hattrs hid hidentified hempty hchildren =>
    next tag attrs children id =>
    -- the identity is written as one more attribute, of which a picture knows nothing
    have hsame : ∀ name, isAllowedAttribute name = true →
        attributeOf? (writtenAttributes attrs id) name = attributeOf? attrs.entries name := by
      intro name hname
      exact attributeOf?_writtenAttributes_of_allowed id hattrs.allowed hname
    by_cases himg : tag = "img"
    · subst himg
      constructor
      · intro h
        exact ⟨rfl, extract?_congr h (isBackground_of_picture h)
          (fun name hname _ => (hsame name hname).symm) [] _⟩
      · rintro ⟨-, h⟩
        exact extract?_congr h (isBackground_of_picture h)
          (fun name hname _ => hsame name hname) [] _
    · have hnone : tag ∉ ["img", "a", "button"] := by
        cases hplace with
        | picture => exact absurd rfl himg
        | _ => decide
      rw [ownAsset?_eq_none hnone hattrs.allowed]
      exact ⟨nofun, fun h => absurd h.1 himg⟩

/-! ## Small panes -/

theorem plainAttributes_empty : PlainAttributes Table.empty where
  allowed _ h := absurd h List.not_mem_nil
  noNull _ h := absurd h List.not_mem_nil
  noReturn _ h := absurd h List.not_mem_nil
  classes _ h := by cases h

/-- A table with one attribute. -/
def oneAttribute (name value : String) : Table String :=
  ⟨[(name, value)], List.pairwise_singleton ..⟩

/-- A single attribute that is allowed is plain if its value is. -/
theorem plainAttributes_oneAttribute {name value : String}
    (hallowed : isAllowedAttribute name = true)
    (hnull : '\x00' ∉ value.toList) (hreturn : '\r' ∉ value.toList)
    (hclass : name = "class" → ∃ ts : List String, ts ≠ [] ∧ ts.Nodup ∧
      (∀ t ∈ ts, Text.IsToken Text.isAsciiSpace t.toList) ∧ value = Text.joinTokens ts) :
    PlainAttributes (oneAttribute name value) where
  allowed n h := by rwa [List.mem_singleton.1 h]
  noNull a h := by rwa [List.mem_singleton.1 h]
  noReturn a h := by rwa [List.mem_singleton.1 h]
  classes v h := by
    rw [oneAttribute, Table.get?, Table.lookup_cons_ite] at h
    split at h
    · next he => exact Option.some.inj h ▸ hclass he.symm
    · cases h

/-- A picture with an identity and a text in its place. -/
def picture (alt : String) : Node := ⟨"img", oneAttribute "alt" alt, none, [], some "i"⟩

/-- A picture with any plain text for its alternative one is plain. -/
theorem plain_picture {alt : String} (hnull : '\x00' ∉ alt.toList) (hreturn : '\r' ∉ alt.toList)
    (place : Place) (behindText : Bool) : (picture alt).Plain place behindText := by
  have hid : PlainIdentity "i" := ⟨by decide, by decide, by decide⟩
  refine .element .picture ?_ ?_ (fun _ => rfl) (fun _ => rfl) .nil
  · exact plainAttributes_oneAttribute (by decide) hnull hreturn fun h => absurd h (by decide)
  · rintro _ ⟨⟩
    exact hid

/-- A text that fills the first portion of the markup of a picture. -/
def filler : List Char := List.replicate 4086 'a'

theorem forestChars_picture (s : List Char) :
    forestChars [picture (String.ofList (filler ++ s))] =
      ("<img alt=\"".toList ++ filler) ++
        (escapeAttribute s ++ "\" data-node-id=\"i\">".toList) := by
  have hfiller : escapeAttribute filler = filler := by
    have hchar : escapeAttributeChar 'a' = ['a'] := by decide
    rw [escapeAttribute, filler, List.flatMap_replicate, hchar, List.flatten_replicate_singleton]
  have hvoid : isVoid "img" = true := by decide
  have htag : "img" ≠ Node.textTag := by decide
  have hescape : escapeAttribute (filler ++ s) = filler ++ escapeAttribute s := by
    rw [escapeAttribute, List.flatMap_append]
    exact congrArg (· ++ escapeAttribute s) hfiller
  have hid : escapeAttribute ['i'] = ['i'] := by decide
  simp [forestChars, picture, Node.chars, htag, hvoid, openTagChars, oneAttribute, attributeChars,
    hescape, identityAttribute, hid]

/-! ## Writing and reading back -/

section tree

variable {tree : List Node}

/-- The identities of a plain tree can be taken. -/
theorem canTake_of_plain (hplain : PlainAll .flow false tree) (hnodup : (identities tree).Nodup) :
    CanTake (identities tree) [] := by
  refine ⟨hnodup, fun id hid => ⟨?_, List.not_mem_nil⟩⟩
  obtain ⟨n, hn, hi⟩ := List.mem_filterMap.1 hid
  obtain ⟨place, behindText, h⟩ := plain_of_mem hplain n hn
  have htrim := (canonical_of_plain h).identity
  rw [hi, Option.bind_some] at htrim
  rintro rfl
  exact absurd htrim (by decide)

/-- Markup that reaches the lexer as that of a plain pane is read as this pane. -/
theorem rehydrate_of_text (hplain : PlainAll .flow false tree) (hnodup : (identities tree).Nodup)
    {s : List Char} (hscript : Scriptless s) (htext : (Source.ofChars s).text = forestChars tree)
    (fresh : Nat → String) :
    rehydrate fresh (String.ofList s) =
      .ok (tree, ((preorderAll tree).foldl Walk.accept { styling := .verbatim }).assets) := by
  have hbuilt : BuiltAll false tree := builtAll_of_plain hplain
  have hcanon : ∀ n ∈ preorderAll tree, n.Canonical := by
    intro n hn
    obtain ⟨place, behindText, h⟩ := plain_of_mem hplain n hn
    exact canonical_of_plain h
  have htake := canTake_of_plain hplain hnodup
  have hread := readFragment_of_text hscript htext
    (legibleAll_of_plain hplain fun _ => by decide) (id_of_head?_of_built hbuilt)
  have hbuild : buildTree ⟨fresh, true⟩ .verbatim (forestDoms tree) =
      (tree, (preorderAll tree).foldl Walk.accept { styling := .verbatim }) :=
    buildForest_forestDoms fresh tree (w := { styling := .verbatim }) rfl hbuilt hcanon htake
  have hcheck : checkTree tree = .ok () := by
    refine (checkTree_eq_ok_iff tree).2 ⟨fun n hn => ?_, hnodup, fun h => (htake.2 "" h).1 rfl⟩
    obtain ⟨place, behindText, h⟩ := plain_of_mem hplain n hn
    exact keepsRules_of_plain h
  exact rehydrate_eq_ok_iff.2 ⟨_, hread, by rw [hbuild]; exact hcheck, by rw [hbuild]⟩

/-- No script begins in a plain tree. -/
theorem scriptless_of_plain (hplain : PlainAll .flow false tree) : Scriptless (forestChars tree) :=
  scriptless_forestChars tree (@legibleAll_of_plain tree _ _ wrappers hplain fun _ => by decide)

/-- Plain markup has no carriage return. -/
theorem no_return_forestChars (hplain : PlainAll .flow false tree) : '\r' ∉ forestChars tree := by
  refine not_mem_forestChars (by decide) tree fun n hn => ?_
  obtain ⟨place, behindText, h⟩ := plain_of_mem hplain n hn
  exact no_return_of_plain h

/-- What is recorded of a plain pane: the assets of its pictures. -/
theorem get?_assets_of_plain (hplain : PlainAll .flow false tree) (hnodup : (identities tree).Nodup)
    (id : String) (a : Asset) :
    ((preorderAll tree).foldl Walk.accept { styling := .verbatim }).assets.get? id = some a ↔
      ∃ n ∈ preorderAll tree, n.tag = "img" ∧ n.id = some id ∧
        Asset.extract? "img" n.attrs.entries [] (fun _ => none) = some a := by
  have hbefore : ({ styling := .verbatim } : Walk).assets.get? id = none := rfl
  rw [get?_assets_foldl_accept hnodup, hbefore, Option.or_none]
  constructor
  · intro h
    obtain ⟨n, hn, hasset⟩ := Option.bind_eq_some_iff.1 h
    have hmem := List.mem_of_find?_eq_some hn
    obtain ⟨place, behindText, hnode⟩ := plain_of_mem hplain n hmem
    obtain ⟨htag, hasset⟩ := (ownAsset?_of_plain hnode a).1 hasset
    exact ⟨n, hmem, htag, by simpa using List.find?_some hn, hasset⟩
  · rintro ⟨n, hn, htag, hid, hasset⟩
    obtain ⟨place, behindText, hnode⟩ := plain_of_mem hplain n hn
    rw [nodeOf?_of_mem hnodup hn hid, Option.bind_some]
    exact (ownAsset?_of_plain hnode a).2 ⟨htag, hasset⟩

/-- **A plain pane is read back as it was written**, if no portion of its markup starts with a byte
order mark: the same tree with the same identities, and for each picture the asset that its
attributes tell. -/
theorem plain_panes_are_read_back (hplain : PlainAll .flow false tree)
    (hnodup : (identities tree).Nodup) (hmark : Unmarked (forestChars tree))
    (fresh : Nat → String) :
    ∃ assets, rehydrate fresh (serialize tree) = .ok (tree, assets) ∧
      ∀ id a, assets.get? id = some a ↔ ∃ n ∈ preorderAll tree, n.tag = "img" ∧ n.id = some id ∧
        Asset.extract? "img" n.attrs.entries [] (fun _ => none) = some a := by
  have hsource := ofChars_eq (no_return_forestChars hplain) hmark
  exact ⟨_, rehydrate_of_text hplain hnodup (scriptless_of_plain hplain) (by rw [hsource]) fresh,
    get?_assets_of_plain hplain hnodup⟩

end tree

/-- A section with a paragraph that has a class and a picture in it is read back. -/
theorem paragraph_with_picture_is_read_back :
    let paragraph : Node := ⟨"p", oneAttribute "class" "a b", none,
      [Node.ofText "To & from" (some "t"), picture "A"], some "p"⟩
    let tree : List Node :=
      [⟨"section", Table.empty, none, [paragraph], none⟩, Node.ofText "x" none]
    PlainAll .flow false tree ∧ (identities tree).Nodup ∧ Unmarked (forestChars tree) ∧
      ∃ assets, rehydrate (fun _ => "new") (serialize tree) = .ok (tree, assets) ∧
        assets.get? "i" = some ⟨"img", .image none none (some "A"), {}⟩ := by
  intro paragraph tree
  have hid : ∀ i ∈ ["t", "p"], PlainIdentity i := by
    intro i hi
    rcases List.mem_cons.1 hi with rfl | hi
    · exact ⟨by decide, by decide, by decide⟩
    · rw [List.mem_singleton.1 hi]
      exact ⟨by decide, by decide, by decide⟩
  have hclass : PlainAttributes (oneAttribute "class" "a b") := by
    refine plainAttributes_oneAttribute (by decide) (by decide) (by decide) fun _ => ?_
    refine ⟨["a", "b"], by decide, by decide, ?_, by decide⟩
    simp [Text.IsToken, Text.isAsciiSpace]
  have hcontent : PlainAll .paragraph false [Node.ofText "To & from" (some "t"), picture "A"] := by
    refine .cons (.text (by decide) (by decide) (by decide) (by decide) (by decide) ?_)
      (.cons (plain_picture (by decide) (by decide) _ _) .nil)
    rintro _ ⟨⟩
    exact ⟨hid _ (by decide), by decide, by decide⟩
  have hparagraph : paragraph.Plain .flow false := by
    refine .element .paragraph hclass ?_ (fun _ => rfl) (by decide) hcontent
    rintro _ ⟨⟩
    exact hid _ (by decide)
  have hplain : PlainAll .flow false tree := by
    refine .cons (.element .sectioning plainAttributes_empty (by rintro _ ⟨⟩) (by decide)
      (by decide) (.cons hparagraph .nil)) (.cons ?_ .nil)
    exact .text (by decide) (by decide) (by decide) (by decide) (by decide) (by rintro _ ⟨⟩)
  have hnodup : (identities tree).Nodup := by decide
  have hmark : Unmarked (forestChars tree) := unmarked_of_not_mem (by decide)
  obtain ⟨assets, hread, hassets⟩ := plain_panes_are_read_back hplain hnodup hmark fun _ => "new"
  refine ⟨hplain, hnodup, hmark, assets, hread, (hassets _ _).2 ⟨picture "A", ?_, rfl, rfl, ?_⟩⟩
  · decide
  · decide

/-- **A byte order mark is lost** where a portion of the markup starts with it: the text of a
picture is read back without it. -/
theorem marked_value_is_not_read_back :
    let alt := String.ofList (filler ++ ['\uFEFF', 'b'])
    PlainAll .flow false [picture alt] ∧ (identities [picture alt]).Nodup ∧
      ¬∃ assets,
        rehydrate (fun _ => "new") (serialize [picture alt]) = .ok ([picture alt], assets) := by
  intro alt
  have hfiller : ∀ {c : Char} {s : List Char}, c ≠ 'a' → c ∉ s →
      c ∉ (String.ofList (filler ++ s)).toList := by
    intro c s hc hs hmem
    rw [String.toList_ofList, List.mem_append] at hmem
    rcases hmem with hmem | hmem
    · exact hc (List.eq_of_mem_replicate hmem)
    · exact hs hmem
  have hplain : ∀ s : List Char, '\x00' ∉ s → '\r' ∉ s →
      PlainAll .flow false [picture (String.ofList (filler ++ s))] := fun s hnull hreturn =>
    .cons (plain_picture (hfiller (by decide) hnull) (hfiller (by decide) hreturn) _ _) .nil
  have hmarked : PlainAll .flow false [picture alt] := hplain _ (by decide) (by decide)
  have hlost := hplain ['b'] (by decide) (by decide)
  have hnodup : ∀ value, (identities [picture value]).Nodup := fun value =>
    List.pairwise_singleton _ "i"
  refine ⟨hmarked, hnodup alt, ?_⟩
  rintro ⟨assets, hread⟩
  have htext : (Source.ofChars (forestChars [picture alt])).text =
      forestChars [picture (String.ofList (filler ++ ['b']))] := by
    have hreturn := no_return_forestChars hlost
    rw [forestChars_picture] at hreturn ⊢
    rw [forestChars_picture]
    refine text_ofChars_append ?_ ?_ hreturn ?_
    · have hfixed : ("<img alt=\"".toList.all fun c => decide (c.utf8Size = 1)) = true := by decide
      rw [List.forall_mem_append]
      refine ⟨fun c hc => of_decide_eq_true (List.all_eq_true.1 hfixed c hc), fun c hc => ?_⟩
      rw [List.eq_of_mem_replicate hc]
      rfl
    · rw [List.length_append, filler, List.length_replicate]
      rfl
    · decide
  have hread' := rehydrate_of_text hlost (hnodup _) (scriptless_of_plain hmarked) htext
    fun _ => "new"
  have hsame := (Prod.mk.inj (Except.ok.inj (hread.symm.trans hread'))).1
  have hvalue : alt = String.ofList (filler ++ ['b']) := by
    simpa [picture, oneAttribute] using hsame
  have hchars := String.ofList_injective hvalue
  exact absurd (List.append_cancel_left hchars) (by decide)

end Pane
