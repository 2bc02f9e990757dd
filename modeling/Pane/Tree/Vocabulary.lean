/-!
# The vocabulary of panes

Which tags and attributes mean something to a pane, in one place.

* `isTextEditable` — tags whose text can be edited in place, and so has identities.
* `isVoid` — tags that have neither children nor a closing tag.
* `isAllowedAttribute` — the attributes that a node may keep.
* `isSkipped` — tags whose elements never become part of a pane.
* `identityAttribute`, `markerStart` — how identities are written in markup.
-/

namespace Pane

/-- Tags whose text can be edited in place. -/
def textEditableTags : List String := ["h1", "h2", "h3", "h4", "h5", "h6", "p", "li"]

def isTextEditable (tag : String) : Bool := decide (tag ∈ textEditableTags)

/-- Tags that have neither children nor a closing tag. -/
def voidTags : List String :=
  ["area", "base", "br", "col", "embed", "hr", "img", "input", "link", "meta", "source", "track",
    "wbr"]

def isVoid (tag : String) : Bool := decide (tag ∈ voidTags)

/-- The attributes that a node may keep. -/
def allowedAttributes : List String :=
  ["class", "src", "srcset", "alt", "href", "target", "type", "value", "placeholder",
    "data-file-id", "data-collection", "data-image-key", "data-callback", "data-external",
    "data-video"]

def isAllowedAttribute (name : String) : Bool := decide (name ∈ allowedAttributes)

/-- Tags whose elements never become part of a pane. -/
def skippedTags : List String := ["script", "style", "template", "noscript"]

def isSkipped (tag : String) : Bool := decide (tag ∈ skippedTags)

/-- The attribute that carries the identity of an element. -/
def identityAttribute : String := "data-node-id"

/-- The start of a comment that carries the identity of the run of text behind it. -/
def markerStart : String := "nid:"

end Pane
