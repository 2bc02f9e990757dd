import Pane.Proofs.Tree.Updated

/-!
# The two halves of an update

An update is carried out on the attributes of a node and on the entry of the asset, by rules that
know nothing of each other.  What links them is the reading of an asset off the attributes, which
takes all texts but the alternative one trimmed, and blank ones for absent.

**Attributes by name.**  `AssetUpdate.changes` — what an update does with which attribute: keep it,
set it or clear it.  **`get?_onNode`** — that is what it does, and no other attribute changes.

**Reading what was changed.**  A change is a change of what is read, its text taken as it will be
read: `HintChange.asRead`, `AssetUpdate.asRead`.  `filledAttribute?_onNode`, `hints_onNode`,
`action_onNode`.

**Agreement.**  The entry that is read off the changed node is the old one with the update as it is
read, and it is on record again wherever the node is written and its markup is read as it was
written.  The overlay has the last word, however, and writes the texts as they are given, so the two
halves agree exactly if the texts of the update are as they are read:
**`update_is_told_as_it_is_read`**.
-/

namespace Pane

open Markup

/-! ## Attributes by name -/

/-- What a field does with its attribute: an empty text takes it away. -/
def fieldChange : Option String → HintChange
  | none => .keep
  | some v => if v = "" then .clear else .set v

/-- What a field does with its attribute if any text is set as it is. -/
def verbatimChange : Option String → HintChange
  | none => .keep
  | some v => .set v

/-- What an update does with the attributes of hints. -/
def HintsUpdate.changes (u : HintsUpdate) : List (String × HintChange) :=
  [("data-file-id", u.fileId), ("data-collection", u.collection), ("data-image-key", u.imageKey)]

/-- What an update does with the attributes of pressing: empty texts take theirs away, the yes or no
is set as it is. -/
def ActionUpdate.changes (u : ActionUpdate) : List (String × HintChange) :=
  [("data-callback", fieldChange u.callback),
    ("data-external", verbatimChange (u.isExternal.map flagText)),
    ("data-video", fieldChange u.video)]

/-- What an update does with the attributes of an asset; the alternative text is set as it is. -/
def ContentUpdate.changes : ContentUpdate → List (String × HintChange)
  | image src srcSet alt =>
    [("src", fieldChange src), ("srcset", fieldChange srcSet), ("alt", verbatimChange alt)]
  | link href action => ("href", fieldChange href) :: action.changes
  | button action => action.changes
  | background _ => []

/-- What an update does with the attributes of a node on record as an asset of some kind. -/
def AssetUpdate.changes (u : AssetUpdate) (known : Option AssetKind) : List (String × HintChange) :=
  u.hints.changes ++ if known = some u.kind then u.content.changes else []

/-- The attributes that hints are read of. -/
def hintAttributes : List String := ["data-file-id", "data-collection", "data-image-key"]

/-- The attributes that an update for an asset of some kind may change besides. -/
def AssetKind.attributes : AssetKind → List String
  | image => ["src", "srcset", "alt"]
  | link => ["href", "data-callback", "data-external", "data-video"]
  | button => ["data-callback", "data-external", "data-video"]
  | background => []

/-- What an update does with the attribute of a name. -/
def AssetUpdate.changeOf (u : AssetUpdate) (known : Option AssetKind) (name : String) :
    HintChange :=
  ((u.changes known).lookup name).getD .keep

/-- Attributes with some of them changed, one after the other. -/
def carryOut (changes : List (String × HintChange)) (attrs : Table String) : Table String :=
  changes.foldl (fun attrs c => c.2.onAttribute c.1 attrs) attrs

section attributes

variable (attrs : Table String) (name : String)

/-- A change of one attribute touches no other. -/
theorem get?_onAttribute (c : HintChange) (k : String) :
    (c.onAttribute name attrs).get? k =
      if k = name then c.onValue (attrs.get? k) else attrs.get? k := by
  cases c with
  | keep => simp [HintChange.onAttribute, HintChange.onValue]
  | set v => rw [HintChange.onAttribute, Table.get?_insert, HintChange.onValue]
  | clear => rw [HintChange.onAttribute, Table.get?_erase, HintChange.onValue]

/-- The two ways of writing an attribute are changes of it. -/
theorem setOrRemove_eq (value : Option String) :
    setOrRemove name value attrs = (fieldChange value).onAttribute name attrs := by
  cases value with
  | none => rfl
  | some v =>
    simp only [setOrRemove, fieldChange]
    split <;> rfl

theorem setVerbatim_eq (value : Option String) :
    setVerbatim name value attrs = (verbatimChange value).onAttribute name attrs := by
  cases value <;> rfl

end attributes

/-- Changes of different attributes do not meet. -/
theorem get?_carryOut {k : String} :
    ∀ {changes : List (String × HintChange)} (attrs : Table String),
      (changes.map Prod.fst).Nodup →
      (carryOut changes attrs).get? k = ((changes.lookup k).getD .keep).onValue (attrs.get? k)
  | [], _, _ => rfl
  | (name, c) :: changes, attrs, h => by
      obtain ⟨hname, hchanges⟩ := List.nodup_cons.1 h
      have hrest := get?_carryOut (k := k) (c.onAttribute name attrs) hchanges
      rw [get?_onAttribute] at hrest
      rw [carryOut, List.foldl_cons, ← carryOut, hrest, Table.lookup_cons_ite]
      by_cases hk : k = name
      · subst hk
        have hnone : changes.lookup k = none := Table.lookup_eq_none_of_not_mem hname
        simp [hnone, HintChange.onValue]
      · simp [hk]

/-- The attributes of an asset are changed one after the other. -/
theorem onAttributes_content (u : ContentUpdate) (attrs : Table String) :
    u.onAttributes attrs = carryOut u.changes attrs := by
  cases u <;>
    simp only [ContentUpdate.onAttributes, ActionUpdate.onAttributes, setOrRemove_eq,
      setVerbatim_eq] <;>
    rfl

/-- **The attributes of the changed node** are changed one after the other, hints first. -/
theorem attrs_onNode (u : AssetUpdate) (known : Option AssetKind) (n : Node) :
    (u.onNode known n).attrs = carryOut (u.changes known) n.attrs := by
  have hhints : u.hints.onAttributes n.attrs = carryOut u.hints.changes n.attrs := rfl
  simp only [AssetUpdate.onNode, AssetUpdate.changes, carryOut, List.foldl_append]
  split
  · rw [onAttributes_content, hhints]
    rfl
  · exact hhints

/-- The names of the attributes that an update may change. -/
theorem names_changes (u : AssetUpdate) (known : Option AssetKind) :
    (u.changes known).map Prod.fst =
      hintAttributes ++ if known = some u.kind then u.kind.attributes else [] := by
  rw [AssetUpdate.changes, List.map_append]
  refine congrArg (hintAttributes ++ ·) ?_
  split
  · rw [AssetUpdate.kind]
    cases u.content <;> rfl
  · rfl

/-- An update changes no attribute twice. -/
theorem nodup_changes (u : AssetUpdate) (known : Option AssetKind) :
    ((u.changes known).map Prod.fst).Nodup := by
  rw [names_changes]
  split
  · cases u.kind <;> decide
  · decide

/-- An update changes hints, and what is of its kind if the node is on record as an asset of it. -/
theorem mem_of_changeOf {u : AssetUpdate} {known : Option AssetKind} {name : String}
    (h : u.changeOf known name ≠ .keep) :
    name ∈ hintAttributes ∨ known = some u.kind ∧ name ∈ u.kind.attributes := by
  have hname : name ∈ (u.changes known).map Prod.fst := by
    refine Classical.byContradiction fun hnot => h ?_
    rw [AssetUpdate.changeOf, Table.lookup_eq_none_of_not_mem hnot]
    rfl
  rw [names_changes, List.mem_append] at hname
  refine hname.imp id fun hmem => ?_
  split at hmem
  · next hknown => exact ⟨hknown, hmem⟩
  · cases hmem

/-- **What an update does with an attribute** is told by its name, and every attribute that the
update does not name is kept. -/
theorem get?_onNode (u : AssetUpdate) (known : Option AssetKind) (n : Node) (name : String) :
    (u.onNode known n).attrs.get? name = (u.changeOf known name).onValue (n.attrs.get? name) := by
  rw [attrs_onNode, get?_carryOut _ (nodup_changes u known), AssetUpdate.changeOf]

/-! ## Reading what was changed -/

/-- A change as it is read: trimmed, and a blank text for none. -/
def HintChange.asRead : HintChange → HintChange
  | keep => keep
  | set v => ((Text.trimmed? v).map set).getD clear
  | clear => clear

/-- The changes of the hints as they are read. -/
def HintsUpdate.asRead (u : HintsUpdate) : HintsUpdate :=
  ⟨u.fileId.asRead, u.collection.asRead, u.imageKey.asRead⟩

/-- A change of what pressing does as it is read; an empty text takes its field away already. -/
def ActionUpdate.asRead (u : ActionUpdate) : ActionUpdate :=
  ⟨u.callback.map Text.trimmed, u.isExternal, u.video.map Text.trimmed⟩

/-- A change of what an asset is as it is read; alternative texts and addresses of backgrounds are
taken as they are. -/
def ContentUpdate.asRead : ContentUpdate → ContentUpdate
  | image src srcSet alt => image (src.map Text.trimmed) (srcSet.map Text.trimmed) alt
  | link href action => link (href.map Text.trimmed) action.asRead
  | button action => button action.asRead
  | background url => background url

/-- An update as it is read off the attributes that it is carried out on. -/
def AssetUpdate.asRead (u : AssetUpdate) : AssetUpdate := ⟨u.content.asRead, u.hints.asRead⟩

/-- A field of an entry is changed as its attribute is. -/
theorem changeField_eq (change current : Option String) :
    changeField change current = (fieldChange change).onValue current := by
  cases change with
  | none => rfl
  | some v =>
    simp only [changeField, fieldChange]
    split <;> rfl

/-- **Reading behind a change is a change of what is read.** -/
theorem bind_trimmed?_onValue (c : HintChange) (value : Option String) :
    (c.onValue value).bind Text.trimmed? = c.asRead.onValue (value.bind Text.trimmed?) := by
  cases c with
  | keep => rfl
  | set v =>
    rw [HintChange.onValue, HintChange.asRead, Option.bind_some]
    cases Text.trimmed? v <;> rfl
  | clear => rfl

/-- The change of a field is read as that of the field trimmed. -/
theorem asRead_fieldChange (value : Option String) :
    (fieldChange value).asRead = fieldChange (value.map Text.trimmed) := by
  have hempty : Text.trimmed "" = "" := by decide
  cases value with
  | none => rfl
  | some v =>
    rw [Option.map_some, fieldChange, fieldChange]
    by_cases hv : v = ""
    · rw [hv, hempty]
      rfl
    · rw [if_neg hv, HintChange.asRead, Text.trimmed?]
      by_cases ht : Text.trimmed v = "" <;> simp [ht]

section read

variable {u : AssetUpdate} {known : Option AssetKind} {n : Node}

/-- What is read of an attribute behind an update is changed as the update is read. -/
theorem filledAttribute?_onNode (name : String) :
    filledAttribute? (u.onNode known n).attrs.entries name =
      (u.changeOf known name).asRead.onValue (filledAttribute? n.attrs.entries name) := by
  have hget := get?_onNode u known n name
  rw [Table.get?, Table.get?] at hget
  rw [filledAttribute?, filledAttribute?, attributeOf?, attributeOf?, hget, bind_trimmed?_onValue]

/-- What is read of a field that takes its attribute away if it is empty. -/
theorem filledAttribute?_field {name : String} {value : Option String}
    (h : u.changeOf known name = fieldChange value) :
    filledAttribute? (u.onNode known n).attrs.entries name =
      changeField (value.map Text.trimmed) (filledAttribute? n.attrs.entries name) := by
  rw [filledAttribute?_onNode, h, asRead_fieldChange, changeField_eq]

/-- The hints that are read are changed whatever the node is on record as. -/
theorem hints_onNode : Hints.ofAttributes (u.onNode known n).attrs.entries =
    u.hints.asRead.onHints (Hints.ofAttributes n.attrs.entries) := by
  have hfile : u.changeOf known "data-file-id" = u.hints.fileId := rfl
  have hcollection : u.changeOf known "data-collection" = u.hints.collection := rfl
  have hkey : u.changeOf known "data-image-key" = u.hints.imageKey := rfl
  simp only [Hints.ofAttributes, filledAttribute?_onNode, hfile, hcollection, hkey]
  rfl

/-- What is written for yes or no is read so. -/
theorem saysExternal_flagText (b : Bool) : saysExternal (flagText b) = b := by
  cases b <;> decide

/-- What pressing an element does is read with the change, if the node is on record as what the
update is for. -/
theorem action_onNode {action : ActionUpdate}
    (hcallback : u.changeOf known "data-callback" = fieldChange action.callback)
    (hexternal : u.changeOf known "data-external" = verbatimChange (action.isExternal.map flagText))
    (hvideo : u.changeOf known "data-video" = fieldChange action.video) :
    ButtonAction.ofAttributes (u.onNode known n).attrs.entries =
      action.asRead.onAction (ButtonAction.ofAttributes n.attrs.entries) := by
  have hget := get?_onNode u known n "data-external"
  rw [Table.get?, Table.get?, hexternal] at hget
  have hflag : (attributeOf? (u.onNode known n).attrs.entries "data-external").any saysExternal =
      action.isExternal.getD ((attributeOf? n.attrs.entries "data-external").any saysExternal) := by
    rw [attributeOf?, attributeOf?, hget]
    cases action.isExternal with
    | none => rfl
    | some b => exact saysExternal_flagText b
  rw [ButtonAction.ofAttributes, filledAttribute?_field hcallback, filledAttribute?_field hvideo,
    hflag]
  rfl

/-- What is read of a picture, a link or a button behind an update for such an asset. -/
theorem content_onNode {content : AssetContent} {classes : List String}
    {shows : String → Option String} (htag : n.tag ∈ ["img", "a", "button"])
    (h : AssetContent.extract? n.tag n.attrs.entries classes shows = some content)
    (hkind : u.kind = content.kind) :
    AssetContent.extract? n.tag (u.onNode (some u.kind) n).attrs.entries classes shows =
      some (u.content.asRead.onContent content) := by
  obtain ⟨update, hints⟩ := u
  simp only [List.mem_cons, List.not_mem_nil, or_false] at htag
  rcases htag with htag | htag | htag <;> rw [htag] at h ⊢ <;>
    simp only [AssetContent.extract?, if_true, if_false, String.reduceEq,
      Option.some.injEq] at h ⊢ <;>
    subst h
  · cases update with
    | image src srcSet alt =>
      let u : AssetUpdate := ⟨.image src srcSet alt, hints⟩
      have hsrc : u.changeOf (some u.kind) "src" = fieldChange src := rfl
      have hset : u.changeOf (some u.kind) "srcset" = fieldChange srcSet := rfl
      have halt : (u.onNode (some u.kind) n).attrs.get? "alt" = (alt <|> n.attrs.get? "alt") :=
        (get?_onNode u _ n "alt").trans (by cases alt <;> rfl)
      rw [filledAttribute?_field hsrc, filledAttribute?_field hset]
      exact congrArg (AssetContent.image _ _) halt
    | _ => cases hkind
  · cases update with
    | link href action =>
      let u : AssetUpdate := ⟨.link href action, hints⟩
      have hhref : u.changeOf (some u.kind) "href" = fieldChange href := rfl
      have haction : ButtonAction.ofAttributes (u.onNode (some u.kind) n).attrs.entries =
          action.asRead.onAction (ButtonAction.ofAttributes n.attrs.entries) :=
        action_onNode rfl rfl rfl
      rw [filledAttribute?_field hhref, haction]
      rfl
    | _ => cases hkind
  · cases update with
    | button action =>
      let u : AssetUpdate := ⟨.button action, hints⟩
      have haction : ButtonAction.ofAttributes (u.onNode (some u.kind) n).attrs.entries =
          action.asRead.onAction (ButtonAction.ofAttributes n.attrs.entries) :=
        action_onNode rfl rfl rfl
      rw [haction]
      rfl
    | _ => cases hkind

/-- **The asset that is read off the changed node** is the old one, changed as the update is
read. -/
theorem extract?_onNode {a : Asset} {classes : List String} {shows : String → Option String}
    (htag : n.tag ∈ ["img", "a", "button"])
    (h : Asset.extract? n.tag n.attrs.entries classes shows = some a) (hkind : u.kind = a.kind) :
    Asset.extract? (u.onNode (some u.kind) n).tag (u.onNode (some u.kind) n).attrs.entries classes
      shows = some (u.asRead.onAsset a) := by
  obtain ⟨content, hcontent, rfl⟩ := Option.map_eq_some_iff.1 h
  have hnew := content_onNode htag hcontent hkind
  show (AssetContent.extract? n.tag _ classes shows).map _ = _
  rw [hnew, hints_onNode]
  rfl

end read

/-! ## Agreement -/

section overlay

variable (value current : Option String)

/-- Carrying out a change has the last word over the change as it is read. -/
theorem onValue_asRead (c : HintChange) : c.onValue (c.asRead.onValue value) = c.onValue value := by
  cases c <;> rfl

/-- A change and the same change as it is read come to one value exactly if they are the same. -/
theorem onValue_eq_asRead_iff (c : HintChange) :
    c.onValue value = c.asRead.onValue value ↔ c.asRead = c := by
  cases c with
  | keep => simp [HintChange.asRead]
  | set v =>
    cases h : Text.trimmed? v <;> simp [HintChange.asRead, HintChange.onValue, h, eq_comm]
  | clear => simp [HintChange.asRead]

/-- A field has the last word over the same field trimmed. -/
theorem changeField_trimmed :
    changeField value (changeField (value.map Text.trimmed) current) =
      changeField value current := by
  cases value <;> rfl

/-- So do a field and the same field trimmed, for an empty one is trimmed to itself. -/
theorem changeField_eq_trimmed_iff :
    changeField value current = changeField (value.map Text.trimmed) current ↔
      value.map Text.trimmed = value := by
  have hempty : Text.trimmed "" = "" := by decide
  cases value with
  | none => simp
  | some v =>
    simp only [changeField, Option.map_some, Option.some.injEq]
    by_cases hv : v = ""
    · simp [hv, hempty]
    · by_cases ht : Text.trimmed v = ""
      · simp [hv, ht, Ne.symm hv]
      · simp [hv, ht, eq_comm]

end overlay

/-- The changes of hints have the last word over the same changes as they are read. -/
theorem onHints_asRead (u : HintsUpdate) (h : Hints) :
    u.onHints (u.asRead.onHints h) = u.onHints h := by
  simp only [HintsUpdate.onHints, HintsUpdate.asRead, onValue_asRead]

/-- The changes of hints and the same as they are read come to the same only if they are the
same. -/
theorem onHints_eq_asRead_iff (u : HintsUpdate) (h : Hints) :
    u.onHints h = u.asRead.onHints h ↔ u.asRead = u := by
  obtain ⟨fileId, collection, imageKey⟩ := u
  simp only [HintsUpdate.onHints, HintsUpdate.asRead, Hints.mk.injEq, HintsUpdate.mk.injEq,
    onValue_eq_asRead_iff]

/-- A change of what pressing does has the last word over the same change as it is read. -/
theorem onAction_asRead (u : ActionUpdate) (a : ButtonAction) :
    u.onAction (u.asRead.onAction a) = u.onAction a := by
  simp only [ActionUpdate.onAction, ActionUpdate.asRead, changeField_trimmed]
  cases u.isExternal <;> rfl

/-- So it is with a change of what pressing does. -/
theorem onAction_eq_asRead_iff (u : ActionUpdate) (a : ButtonAction) :
    u.onAction a = u.asRead.onAction a ↔ u.asRead = u := by
  obtain ⟨callback, isExternal, video⟩ := u
  simp only [ActionUpdate.onAction, ActionUpdate.asRead, ButtonAction.mk.injEq,
    ActionUpdate.mk.injEq, changeField_eq_trimmed_iff]

section content

variable (u : ContentUpdate) (c : AssetContent)

/-- A change of content has the last word over the same change as it is read. -/
theorem onContent_asRead : u.onContent (u.asRead.onContent c) = u.onContent c := by
  cases u with
  | image src srcSet alt =>
    cases c with
    | image src' srcSet' alt' =>
      have halt : (alt <|> alt <|> alt') = (alt <|> alt') := by cases alt <;> rfl
      simp only [ContentUpdate.onContent, ContentUpdate.asRead, changeField_trimmed, halt]
    | _ => rfl
  | link href action =>
    cases c with
    | link href' action' =>
      simp only [ContentUpdate.onContent, ContentUpdate.asRead, changeField_trimmed,
        onAction_asRead]
    | _ => rfl
  | button action =>
    cases c with
    | button action' => simp only [ContentUpdate.onContent, ContentUpdate.asRead, onAction_asRead]
    | _ => rfl
  | background url => cases c <;> rfl

/-- For an asset of its kind an update and what is read of it come to the same only if they are the
same.  The address of a background is not trimmed, so there is nothing to ask of it. -/
theorem onContent_eq_asRead_iff (h : u.kind = c.kind) :
    u.onContent c = u.asRead.onContent c ↔ u.asRead = u := by
  cases u with
  | image src srcSet alt =>
    cases c with
    | image src' srcSet' alt' =>
      simp only [ContentUpdate.onContent, ContentUpdate.asRead, AssetContent.image.injEq,
        ContentUpdate.image.injEq, changeField_eq_trimmed_iff]
    | _ => cases h
  | link href action =>
    cases c with
    | link href' action' =>
      simp only [ContentUpdate.onContent, ContentUpdate.asRead, AssetContent.link.injEq,
        ContentUpdate.link.injEq, changeField_eq_trimmed_iff, onAction_eq_asRead_iff]
    | _ => cases h
  | button action =>
    cases c with
    | button action' =>
      simp only [ContentUpdate.onContent, ContentUpdate.asRead, AssetContent.button.injEq,
        ContentUpdate.button.injEq, onAction_eq_asRead_iff]
    | _ => cases h
  | background url => exact iff_of_true rfl rfl

end content

/-- The overlay has the last word on what the update names. -/
theorem onAsset_asRead (u : AssetUpdate) (a : Asset) :
    u.onAsset (u.asRead.onAsset a) = u.onAsset a := by
  simp only [AssetUpdate.onAsset, AssetUpdate.asRead, onHints_asRead, onContent_asRead]

/-- The overlay changes what was read exactly if the update is not as it is read. -/
theorem onAsset_eq_asRead_iff {u : AssetUpdate} {a : Asset} (h : u.kind = a.kind) :
    u.onAsset a = u.asRead.onAsset a ↔ u.asRead = u := by
  obtain ⟨content, hints⟩ := u
  simp only [AssetUpdate.onAsset, AssetUpdate.asRead, Asset.mk.injEq, AssetUpdate.mk.injEq,
    true_and, onContent_eq_asRead_iff _ _ h, onHints_eq_asRead_iff]

/-- An element that is a picture, a link or a button by its attributes is so again where it is
written, whatever the styles are. -/
theorem assetIn?_of_extract? {n : Node} {a : Asset} {classes : List String}
    {shows : String → Option String} (htext : n.text = none) (hattrs : Allowed n.attrs)
    (ha : a.isBackground = false)
    (h : Asset.extract? n.tag n.attrs.entries classes shows = some a) (styling : Styling) :
    n.assetIn? styling = some a := by
  rw [Node.assetIn?, htext]
  exact extract?_congr h ha
    (fun _ hname _ => attributeOf?_writtenAttributes_of_allowed n.id hattrs hname) _ _

/-- **What is told of the changed element**, wherever it is written: the old asset, changed as the
update is read. -/
theorem assetIn?_onNode {n : Node} {u : AssetUpdate} {a : Asset} {classes : List String}
    {shows : String → Option String} (htext : n.text = none) (hattrs : Allowed n.attrs)
    (htag : n.tag ∈ ["img", "a", "button"])
    (hasset : Asset.extract? n.tag n.attrs.entries classes shows = some a) (hkind : u.kind = a.kind)
    (styling : Styling) :
    (u.onNode (some a.kind) n).assetIn? styling = some (u.asRead.onAsset a) := by
  have hread := extract?_onNode htag hasset hkind
  rw [hkind] at hread
  have hbackground : (u.asRead.onAsset a).isBackground = false :=
    Asset.isBackground_of_extract? htag hread
  exact assetIn?_of_extract? (n := u.onNode (some a.kind) n) htext (allowed_onNode hattrs u _)
    hbackground hread styling

/-- **An update is told as it is read.**  Take an element that is a picture, a link or a button and
keeps allowed attributes only, the asset that it is by its attributes, and an update for an asset of
this kind, whatever its texts are.

The changed element is again such an asset: the old one with the update carried out as it is read,
each text but the alternative one trimmed and a blank one taken for none.  The overlay writes the
texts as they are given and has the last word, so it leaves what was read as it is exactly if the
update is as it is read: if no text of it, the alternative one apart, has space at its ends, and no
hint is set to the empty text.

What was read is also what a walk is told of the changed element by the attributes that are written
for it, whatever the styles are.  So let the element stand, under an identity of its own, in a tree
of nodes as a walk makes them, let no identity of the tree be minted again, and let the markup of
the tree be read back as it was written.  Then every pane that this markup is compiled to, with any
options and any style, has what was read for the entry of the element, and so it is when the markup
is read back without style.  Markup need not be read as it was written: a carriage return in a text,
for one, comes back as a line feed. -/
theorem update_is_told_as_it_is_read {n : Node} {u : AssetUpdate} {a : Asset}
    {classes : List String} {shows : String → Option String} (htext : n.text = none)
    (hattrs : Allowed n.attrs) (htag : n.tag ∈ ["img", "a", "button"])
    (hasset : Asset.extract? n.tag n.attrs.entries classes shows = some a)
    (hkind : u.kind = a.kind) :
    let n' := u.onNode (some a.kind) n
    ∃ a', Asset.extract? n'.tag n'.attrs.entries classes shows = some a' ∧
      a' = u.asRead.onAsset a ∧ u.onAsset a' = u.onAsset a ∧
      (u.onAsset a' = a' ↔ u.asRead = u) ∧ (∀ styling, n'.assetIn? styling = some a') ∧
      ∀ (tree : List Node) (id : String) (fresh : Nat → String), n' ∈ preorderAll tree →
        n'.id = some id → (∀ m ∈ preorderAll tree, m.Faithful) → (identities tree).Nodup →
        (∀ j k, fresh j = fresh k → j = k) → (∀ k, fresh k ∉ identities tree) →
        (∀ o expanded authored pane,
          readFragment (splitStyles o (serialize tree)).1 = .ok (forestDoms tree) →
          compile fresh o (serialize tree) expanded authored = .ok pane →
          pane.assets.get? id = some a') ∧
        ∀ result, readFragment (serialize tree) = .ok (forestDoms tree) →
          rehydrate fresh (serialize tree) = .ok result → result.2.get? id = some a' := by
  intro n'
  have hread := extract?_onNode htag hasset hkind
  rw [hkind] at hread
  have htold := assetIn?_onNode htext hattrs htag hasset hkind
  refine ⟨_, hread, rfl, onAsset_asRead u a, ?_, htold, fun tree id fresh hmem hid => ?_⟩
  · rw [onAsset_asRead, onAsset_eq_asRead_iff hkind]
  · exact recorded_of_assetIn? hmem hid htold

/-- A link is given another address, loses its callback and is made external.  Its entry is told by
its attributes then, and again when its markup is compiled with some style or read back without. -/
theorem changed_link_is_told_again :
    let n : Node := ⟨"a", Table.ofList [("href", "/x"), ("data-callback", "old")], none, [],
      some "i"⟩
    let u : AssetUpdate := ⟨.link (some "/y") { callback := some "", isExternal := some true },
      { fileId := .set "f" }⟩
    let a : Asset := ⟨"a", .link (some "/x") { callback := some "old" }, {}⟩
    let a' : Asset := ⟨"a", .link (some "/y") { isExternal := true }, { fileId := some "f" }⟩
    let markup := serialize [u.onNode (some .link) n]
    let fresh : Nat → String := fun k => String.ofList (List.replicate (k + 1) 'n')
    Asset.extract? n.tag n.attrs.entries [] (fun _ => none) = some a ∧
      Asset.extract? n.tag (u.onNode (some .link) n).attrs.entries [] (fun _ => none) = some a' ∧
      u.onAsset a' = a' ∧
      (∃ pane, compile fresh {} markup "" ".b\x7bbackground:url(/c)\x7d" = .ok pane ∧
        pane.assets.get? "i" = some a') ∧
      ∃ result, rehydrate fresh markup = .ok result ∧ result.2.get? "i" = some a' := by
  intro n u a a' markup fresh
  have hattrs : ∀ key ∈ n.attrs.keys, isAllowedAttribute key = true := by decide +kernel
  have hasset : Asset.extract? n.tag n.attrs.entries [] (fun _ => none) = some a := by
    decide +kernel
  obtain ⟨told, htold, rfl, -, hiff, -, hwritten⟩ :=
    update_is_told_as_it_is_read (n := n) (u := u) rfl hattrs (by decide) hasset rfl
  have hsame : u.asRead.onAsset a = a' := by decide
  rw [hsame] at htold hiff hwritten
  have hfaithful : ∀ m ∈ preorderAll [u.onNode (some .link) n], m.Faithful :=
    List.forall_mem_singleton.2 ⟨allowed_onNode hattrs u _, fun _ => by decide, fun _ => by decide,
      fun _ h => (by cases h), fun h => (by cases h), by decide⟩
  have hsupply : Supply fresh (identities [u.onNode (some .link) n]) := supply_replicate (by decide)
  obtain ⟨hcompiled, hread⟩ := hwritten [u.onNode (some .link) n] "i" fresh
    (List.mem_singleton_self _)
    rfl hfaithful (by decide) hsupply.injective hsupply.apart
  have hforest : readFragment markup = .ok (forestDoms [u.onNode (some .link) n]) :=
    eq_ok_of_toOption (by decide +kernel)
  have hunstyled : (splitStyles {} markup).1 = markup := by decide +kernel
  obtain ⟨pane, hpane⟩ : ∃ pane, (compile fresh {} markup ""
      ".b\x7bbackground:url(/c)\x7d").toOption = some pane :=
    Option.isSome_iff_exists.1 (by decide +kernel)
  obtain ⟨result, hresult⟩ : ∃ result, (rehydrate fresh markup).toOption = some result :=
    Option.isSome_iff_exists.1 (by decide +kernel)
  have hpane := eq_ok_of_toOption hpane
  have hresult := eq_ok_of_toOption hresult
  exact ⟨hasset, htold, hiff.2 (by decide),
    ⟨pane, hpane, hcompiled _ _ _ _ (hunstyled.symm ▸ hforest) hpane⟩,
    result, hresult, hread _ hforest hresult⟩

/-- A text with space at its ends is not told again: the source of a picture is set to such a text,
the overlay records it as it is given, and the attribute is read trimmed. -/
theorem padded_source_is_told_trimmed :
    ¬∀ (n : Node) (u : AssetUpdate) (a a' : Asset), n.text = none → Allowed n.attrs →
      n.tag ∈ ["img", "a", "button"] →
      Asset.extract? n.tag n.attrs.entries [] (fun _ => none) = some a → u.kind = a.kind →
      Asset.extract? n.tag (u.onNode (some a.kind) n).attrs.entries [] (fun _ => none) = some a' →
      u.onAsset a' = a' := by
  intro h
  have hsame := h ⟨"img", Table.ofList [("src", "/a")], none, [], some "i"⟩
    ⟨.image (some " /b ") none none, {}⟩ ⟨"img", .image (some "/a") none none, {}⟩
    ⟨"img", .image (some "/b") none none, {}⟩ rfl
    (show ∀ key ∈ _, _ by decide +kernel) (by decide) (by decide +kernel) rfl (by decide +kernel)
  have hne : (⟨.image (some " /b ") none none, {}⟩ : AssetUpdate).onAsset
      ⟨"img", .image (some "/b") none none, {}⟩ ≠ ⟨"img", .image (some "/b") none none, {}⟩ := by
    decide
  exact hne hsame

end Pane
