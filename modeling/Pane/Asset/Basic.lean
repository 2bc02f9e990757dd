/-!
# Assets of a pane

An asset is an element that an editor can exchange: an image, a link, a button, or an element that
shows a background image.  Assets also carry *hints*, keys into a library of assets that are never
resolved here.

* `Asset` — the tag of the element, what the asset is, and its hints.
* `AssetKind` — the four kinds, with the name and the usual tag of each.
-/

namespace Pane

/-- Keys into a library of assets. -/
structure Hints where
  fileId : Option String := none
  collection : Option String := none
  imageKey : Option String := none
  deriving DecidableEq, Repr

/-- What pressing an element does. -/
structure ButtonAction where
  callback : Option String := none
  isExternal : Bool := false
  /-- The description of a video that is opened, as it was written. -/
  video : Option String := none
  deriving DecidableEq, Repr

inductive AssetContent where
  | image (src srcSet alt : Option String)
  | link (href : Option String) (action : ButtonAction)
  | button (action : ButtonAction)
  | background (url : String)
  deriving DecidableEq, Repr

/-- An element that an editor can exchange. -/
structure Asset where
  tagName : String
  content : AssetContent
  hints : Hints
  deriving DecidableEq, Repr

inductive AssetKind where
  | image
  | link
  | button
  | background
  deriving DecidableEq, Repr

def AssetKind.name : AssetKind → String
  | image => "image"
  | link => "link"
  | button => "button"
  | background => "css-background"

/-- The tag that an asset of a kind has unless more is known. -/
def AssetKind.usualTag : AssetKind → String
  | image => "img"
  | link => "a"
  | button => "button"
  | background => "div"

def AssetContent.kind : AssetContent → AssetKind
  | image _ _ _ => .image
  | link _ _ => .link
  | button _ => .button
  | background _ => .background

def Asset.kind (a : Asset) : AssetKind := a.content.kind

/-- Whether an asset owes its existence to a background image, not to its tag. -/
def Asset.isBackground (a : Asset) : Bool := a.kind = .background

end Pane
