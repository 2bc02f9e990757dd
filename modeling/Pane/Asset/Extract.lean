import Pane.Asset.Basic
import Pane.Style.Background

/-!
# Telling the asset of an element

The tag decides first: `img` is an image, `a` a link, `button` a button.  Any other element is an
asset only if it shows a background image, either by its own `style` attribute or by one of its
classes, asked in this order.  Of several attributes with one name the first counts.

* `attributeOf?`, `filledAttribute?` — attributes by name, the latter trimmed and not blank.
* `Hints.ofAttributes`, `ButtonAction.ofAttributes` — what is read off attributes.
* `Asset.extract?` — the asset of an element.
-/

namespace Pane

/-- Attributes in the order of the source. -/
abbrev Attributes := List (String × String)

/-- The value of the first attribute of a name. -/
def attributeOf? (attrs : Attributes) (name : String) : Option String := attrs.lookup name

/-- The trimmed value of the first attribute of a name, unless it is blank. -/
def filledAttribute? (attrs : Attributes) (name : String) : Option String :=
  (attributeOf? attrs name).bind Text.trimmed?

def Hints.ofAttributes (attrs : Attributes) : Hints :=
  ⟨filledAttribute? attrs "data-file-id", filledAttribute? attrs "data-collection",
    filledAttribute? attrs "data-image-key"⟩

/-- Whether a `data-external` attribute is a yes: it is unless it says `false` or `0`. -/
def saysExternal (value : String) : Bool :=
  let v := Text.trimmed value
  v ≠ "false" && v ≠ "0"

def ButtonAction.ofAttributes (attrs : Attributes) : ButtonAction :=
  ⟨filledAttribute? attrs "data-callback", (attributeOf? attrs "data-external").any saysExternal,
    filledAttribute? attrs "data-video"⟩

/-- The address of the background image that an element shows: by its `style` attribute, or by the
first of its classes for which there is one. -/
def backgroundOf? (attrs : Attributes) (classes : List String)
    (backgroundFor? : String → Option String) : Option String :=
  ((attributeOf? attrs "style").bind fun style => Style.backgroundUrl? (Style.declarationsOf style))
    <|> classes.findSome? backgroundFor?

/-- What the element of a tag is, if it is an asset. -/
def AssetContent.extract? (tag : String) (attrs : Attributes) (classes : List String)
    (backgroundFor? : String → Option String) : Option AssetContent :=
  if tag = "img" then
    some (.image (filledAttribute? attrs "src") (filledAttribute? attrs "srcset")
      (attributeOf? attrs "alt"))
  else if tag = "a" then
    some (.link (filledAttribute? attrs "href") (ButtonAction.ofAttributes attrs))
  else if tag = "button" then some (.button (ButtonAction.ofAttributes attrs))
  else (backgroundOf? attrs classes backgroundFor?).map .background

/-- The asset of an element, from its attributes and its classes. -/
def Asset.extract? (tag : String) (attrs : Attributes) (classes : List String)
    (backgroundFor? : String → Option String) : Option Asset :=
  (AssetContent.extract? tag attrs classes backgroundFor?).map fun content =>
    ⟨tag, content, Hints.ofAttributes attrs⟩

end Pane
