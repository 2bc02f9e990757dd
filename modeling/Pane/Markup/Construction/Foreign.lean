import Pane.Text.Basic
import Pane.Markup.Construction.Insertion

/-!
# Drawings and formulas within documents

Elements of drawings and formulas keep their own vocabulary.  Their names and attributes are case
sensitive there, and are restored from the lower case that tags are read in.  Within them the rules
of documents do not apply, until an element of theirs says that its content is a document again, or
until a tag comes that can only mean a document.

* `adjustTag` — a tag in the spelling of its vocabulary.
* `usesForeignRules` — whether a token is for the rules of drawings and formulas.
* `Construction.openForeign` — inserts an element of theirs.
-/

namespace Pane.Markup

/-! ## Spelling -/

/-- The element names of drawings that are not all in lower case. -/
def drawingNames : List String :=
  ["altGlyph", "altGlyphDef", "altGlyphItem", "animateColor", "animateMotion", "animateTransform",
    "clipPath", "feBlend", "feColorMatrix", "feComponentTransfer", "feComposite",
    "feConvolveMatrix", "feDiffuseLighting", "feDisplacementMap", "feDistantLight", "feDropShadow",
    "feFlood", "feFuncA", "feFuncB", "feFuncG", "feFuncR", "feGaussianBlur", "feImage", "feMerge",
    "feMergeNode", "feMorphology", "feOffset", "fePointLight", "feSpecularLighting", "feSpotLight",
    "feTile", "feTurbulence", "foreignObject", "glyphRef", "linearGradient", "radialGradient",
    "textPath"]

/-- The attribute names of drawings that are not all in lower case. -/
def drawingAttributes : List String :=
  ["attributeName", "attributeType", "baseFrequency", "baseProfile", "calcMode", "clipPathUnits",
    "diffuseConstant", "edgeMode", "filterUnits", "glyphRef", "gradientTransform", "gradientUnits",
    "kernelMatrix", "kernelUnitLength", "keyPoints", "keySplines", "keyTimes", "lengthAdjust",
    "limitingConeAngle", "markerHeight", "markerUnits", "markerWidth", "maskContentUnits",
    "maskUnits", "numOctaves", "pathLength", "patternContentUnits", "patternTransform",
    "patternUnits", "pointsAtX", "pointsAtY", "pointsAtZ", "preserveAlpha", "preserveAspectRatio",
    "primitiveUnits", "refX", "refY", "repeatCount", "repeatDur", "requiredExtensions",
    "requiredFeatures", "specularConstant", "specularExponent", "spreadMethod", "startOffset",
    "stdDeviation", "stitchTiles", "surfaceScale", "systemLanguage", "tableValues", "targetX",
    "targetY", "textLength", "viewBox", "viewTarget", "xChannelSelector", "yChannelSelector",
    "zoomAndPan"]

/-- Attributes that belong to a vocabulary of their own, and their local names. -/
def qualifiedAttributes : List (String × String) :=
  [("xlink:actuate", "actuate"), ("xlink:arcrole", "arcrole"), ("xlink:href", "href"),
    ("xlink:role", "role"), ("xlink:show", "show"), ("xlink:title", "title"),
    ("xlink:type", "type"), ("xml:lang", "lang"), ("xml:space", "space"), ("xmlns", "xmlns"),
    ("xmlns:xlink", "xlink")]

/-- The spelling among some that a name in lower case stands for, or the name itself. -/
def respell (spellings : List String) (name : String) : String :=
  (spellings.find? fun s => Text.lower s = name).getD name

def adjustAttribute (space : Space) (name : String) : String :=
  let name := match space with
    | .svg => respell drawingAttributes name
    | .mathml => respell ["definitionURL"] name
    | .html => name
  (qualifiedAttributes.lookup name).getD name

/-- A tag in the spelling of its vocabulary. -/
def adjustTag (space : Space) (tag : Tag) : Tag :=
  { tag with
    name := if space = .svg then respell drawingNames tag.name else tag.name,
    attrs := tag.attrs.map fun (name, value) => (adjustAttribute space name, value) }

namespace Construction

/-- The state with an element of a vocabulary inserted, and open unless its tag says that it is
closed. -/
def openForeign (s : Construction) (space : Space) (tag : Tag) : Construction :=
  let adjusted := adjustTag space tag
  if tag.selfClosing then (s.addElement space adjusted).2 else s.insertIn space adjusted

end Construction

/-! ## Which rules apply -/

/-- Whether a token is for the rules of drawings and formulas when an element is the innermost
one. -/
def usesForeignRules (e : Opened) (t : Token) : Bool :=
  match e.space, t with
  | .html, _ => false
  | _, .eof => false
  | _, .char _ => !(e.isFormulaText || e.isDrawingText || e.annotatesHtml)
  | .mathml, .startTag tag =>
    if e.isFormulaText then decide (tag.name ∈ ["mglyph", "malignmark"])
    else !(e.annotatesHtml || (e.name = "annotation-xml" && tag.name = "svg"))
  | .svg, .startTag _ => !e.isDrawingText
  | _, _ => true

/-- Opening tags that can only mean a document. -/
def breakoutTags : List String :=
  ["b", "big", "blockquote", "body", "br", "center", "code", "dd", "div", "dl", "dt", "em", "embed",
    "h1", "h2", "h3", "h4", "h5", "h6", "head", "hr", "i", "img", "li", "listing", "menu", "meta",
    "nobr", "ol", "p", "pre", "ruby", "s", "small", "span", "strong", "strike", "sub", "sup",
    "table", "tt", "u", "ul", "var"]

def breaksOut (tag : Tag) : Bool :=
  decide (tag.name ∈ breakoutTags) ||
    (tag.name = "font" &&
      tag.attrs.any fun (name, _) => decide (name ∈ ["color", "face", "size"]))

/-- End tags that can only mean a document. -/
def breakoutEndTags : List String := ["br", "p"]

/-- Whether the rules of documents apply within an element. -/
def Opened.hostsDocument (e : Opened) : Bool :=
  e.space = .html || e.isFormulaText || e.isDrawingText

/-- What the end tag of a name does where drawings and formulas are open: it closes the innermost
element of the name, in any letter case, unless an element of documents is within it. -/
inductive ForeignEnd where
  /-- The stack is shortened to the given one. -/
  | close (stack : List Opened)
  /-- It is for the rules of documents. -/
  | document
  /-- It means nothing. -/
  | nothing

/-- What the end tag of a name does, for the elements on the stack of which the innermost has been
passed or not. -/
def foreignEnd (name : String) (first : Bool) : List Opened → ForeignEnd
  | [] => .nothing
  | [_] => .nothing
  | e :: stack =>
    if !first && e.space = .html then .document
    else if Text.lower e.name = name then .close stack
    else foreignEnd name false stack

end Pane.Markup
