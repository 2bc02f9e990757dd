import Pane.Asset.Basic
import Pane.Tree.Node

/-!
# Changes to an asset

An update names a kind of asset and says for each field whether it is to change.  It is carried out
twice: on the attributes of the node, before the pane is compiled again, and on the entry of the
asset table afterwards.  In both an empty string takes a field away, except for the alternative text
of an image and the address of a background, which are kept as they are given.  Hints change
whatever the kind; the other fields only if the kind fits.

* `AssetUpdate` — what is to change.
* `AssetUpdate.onNode` — the change of the attributes of a node.
* `AssetUpdate.onAsset` — the change of an entry.
* `AssetUpdate.onTable` — the change of the entry of a target, which is made up if it is missing.
-/

namespace Pane

/-! ## What is to change -/

/-- The change of a hint: it stays, is set to a text, or is taken away. -/
inductive HintChange where
  | keep
  | set (value : String)
  | clear
  deriving DecidableEq, Repr

/-- The changes of the hints; unless something is said of a hint, it stays. -/
structure HintsUpdate where
  fileId : HintChange := .keep
  collection : HintChange := .keep
  imageKey : HintChange := .keep
  deriving DecidableEq, Repr

/-- The change of what pressing an element does; what is absent stays. -/
structure ActionUpdate where
  callback : Option String := none
  isExternal : Option Bool := none
  video : Option String := none
  deriving DecidableEq, Repr

/-- The change of what an asset is; what is absent stays. -/
inductive ContentUpdate where
  | image (src srcSet alt : Option String)
  | link (href : Option String) (action : ActionUpdate)
  | button (action : ActionUpdate)
  | background (url : String)
  deriving DecidableEq, Repr

/-- An update: what is to change of the asset, and what of its hints. -/
structure AssetUpdate where
  content : ContentUpdate
  hints : HintsUpdate := {}
  deriving DecidableEq, Repr

/-- The kind of asset that a change is meant for. -/
def ContentUpdate.kind : ContentUpdate → AssetKind
  | image _ _ _ => .image
  | link _ _ => .link
  | button _ => .button
  | background _ => .background

def AssetUpdate.kind (u : AssetUpdate) : AssetKind := u.content.kind

/-! ## On attributes -/

/-- Attributes with the one of a hint changed.  An empty text is set like any other. -/
def HintChange.onAttribute (name : String) : HintChange → Table String → Table String
  | .keep, attrs => attrs
  | .set value, attrs => attrs.insert name value
  | .clear, attrs => attrs.erase name

/-- Attributes with those of the hints changed. -/
def HintsUpdate.onAttributes (u : HintsUpdate) (attrs : Table String) : Table String :=
  u.imageKey.onAttribute "data-image-key"
    (u.collection.onAttribute "data-collection" (u.fileId.onAttribute "data-file-id" attrs))

/-- Attributes with one set to a value, or removed if the value is empty. -/
def setOrRemove (name : String) (value : Option String) (attrs : Table String) : Table String :=
  match value with
  | none => attrs
  | some v => if v = "" then attrs.erase name else attrs.insert name v

/-- Attributes with one set to a value as it is. -/
def setVerbatim (name : String) (value : Option String) (attrs : Table String) : Table String :=
  match value with
  | none => attrs
  | some v => attrs.insert name v

/-- A yes or no as an attribute says it. -/
def flagText (b : Bool) : String := if b then "true" else "false"

/-- Attributes with those of pressing changed.  A yes or no is written out, whichever it is. -/
def ActionUpdate.onAttributes (u : ActionUpdate) (attrs : Table String) : Table String :=
  setOrRemove "data-video" u.video
    (setVerbatim "data-external" (u.isExternal.map flagText)
      (setOrRemove "data-callback" u.callback attrs))

/-- Attributes with those of the asset changed.  The address of a background is in the style text,
not among them. -/
def ContentUpdate.onAttributes (u : ContentUpdate) (attrs : Table String) : Table String :=
  match u with
  | image src srcSet alt =>
    setVerbatim "alt" alt (setOrRemove "srcset" srcSet (setOrRemove "src" src attrs))
  | link href action => action.onAttributes (setOrRemove "href" href attrs)
  | button action => action.onAttributes attrs
  | background _ => attrs

/-- A node with an update carried out on its attributes; `known` is the kind of asset that the node
is on record as. -/
def AssetUpdate.onNode (u : AssetUpdate) (known : Option AssetKind) (n : Node) : Node :=
  let attrs := u.hints.onAttributes n.attrs
  { n with attrs := if known = some u.kind then u.content.onAttributes attrs else attrs }

/-! ## On entries -/

/-- The value of a hint behind a change. -/
def HintChange.onValue : HintChange → Option String → Option String
  | .keep, current => current
  | .set value, _ => some value
  | .clear, _ => none

def HintsUpdate.onHints (u : HintsUpdate) (h : Hints) : Hints :=
  ⟨u.fileId.onValue h.fileId, u.collection.onValue h.collection, u.imageKey.onValue h.imageKey⟩

/-- A field changed, an empty string taking it away. -/
def changeField (change current : Option String) : Option String :=
  match change with
  | none => current
  | some v => if v = "" then none else some v

/-- What pressing does, changed.  A yes or no that the update leaves out stays. -/
def ActionUpdate.onAction (u : ActionUpdate) (a : ButtonAction) : ButtonAction :=
  ⟨changeField u.callback a.callback, u.isExternal.getD a.isExternal, changeField u.video a.video⟩

/-- What an asset is, changed if the kind fits. -/
def ContentUpdate.onContent : ContentUpdate → AssetContent → AssetContent
  | .image src srcSet alt, .image src' srcSet' alt' =>
    .image (changeField src src') (changeField srcSet srcSet') (alt <|> alt')
  | .link href action, .link href' action' =>
    .link (changeField href href') (action.onAction action')
  | .button action, .button action' => .button (action.onAction action')
  | .background url, .background _ => .background url
  | _, content => content

/-- An entry with an update carried out on it.  The hints change even if the kind does not fit, and
the tag of the element stays. -/
def AssetUpdate.onAsset (u : AssetUpdate) (a : Asset) : Asset :=
  { a with content := u.content.onContent a.content, hints := u.hints.onHints a.hints }

/-- An asset of the kind of an update about which nothing is known. -/
def ContentUpdate.blank : ContentUpdate → AssetContent
  | image _ _ _ => .image none none none
  | link _ _ => .link none {}
  | button _ => .button {}
  | background url => .background url

/-- The entry that an update is carried out on if the target has none: the previous one if it is of
the same kind, else a blank one with the tag of the target or the usual tag of the kind. -/
def AssetUpdate.base (u : AssetUpdate) (previous : Option Asset) (tag : Option String) : Asset :=
  match previous.filter fun a => a.kind = u.kind with
  | some a => a
  | none => ⟨tag.getD u.kind.usualTag, u.content.blank, {}⟩

/-- An asset table with an update carried out on the entry of a target. -/
def AssetUpdate.onTable (u : AssetUpdate) (target : String) (previous : Option Asset)
    (tag : Option String) (assets : Table Asset) : Table Asset :=
  assets.insert target (u.onAsset ((assets.get? target).getD (u.base previous tag)))

end Pane
