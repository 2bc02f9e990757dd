import Pane.Asset.Extract
import Pane.Markup.Dom
import Pane.Markup.Text
import Pane.Style.Registry
import Pane.Tree.Node

/-!
# Building a tree from parsed markup

The builder walks parsed markup depth first and makes of it the nodes of a pane and a table of its
assets.  What the author wrote about style never reaches the tree: class names become the hashes of
their rules, inline styles become hashes of their own, and of the other attributes only allowed ones
are kept.

Identities come from the markup where it has them, the first of several equal ones in the order of
the walk, and are otherwise *minted*.  Minted identities come from a supply that the caller gives as
a function on numbers; the walk uses them up in order.  A node gets an identity if its text can be
edited in place, if it is an asset, or, in markup that is trusted, if it arrives with one; a run of
text gets one if its text can be edited in place.

* `Styling` — how classes and inline styles are resolved: by a registry, or not at all.
* `Walk` — the state of the walk.
* `buildElement`, `buildForest` — the walk.
* `buildTree` — the tree and the assets of a forest.
-/

namespace Pane

/-! ## Resolving style -/

/-- How a walk resolves what the author wrote about style. -/
inductive Styling where
  /-- Class names become the hashes of a registry, and inline styles are registered. -/
  | registry (r : Style.Registry)
  /-- Class names are hashes already, and inline styles have nowhere to go. -/
  | verbatim
  deriving DecidableEq

namespace Styling

/-- The class tokens of a `class` attribute. -/
def resolve (s : Styling) (classAttribute : String) : List String :=
  match s with
  | registry r => r.resolve classAttribute
  | verbatim => Text.dedup (Text.tokens classAttribute)

/-- The class token of an inline style, if there can be one. -/
def inline (s : Styling) (body : String) : Option String × Styling :=
  match s with
  | registry r =>
    let (hash, r) := r.registerInline body
    (hash, registry r)
  | verbatim => (none, verbatim)

def backgroundFor? (s : Styling) (token : String) : Option String :=
  match s with
  | registry r => r.backgroundFor? token
  | verbatim => none

end Styling

/-! ## The state of the walk -/

/-- The state of the walk: how style is resolved, the assets found, the identities taken, and how
many were minted. -/
structure Walk where
  styling : Styling
  assets : Table Asset := Table.empty
  taken : List String := []
  minted : Nat := 0

/-- What stays the same during a walk: the supply of identities, and whether the markup is trusted
to say which elements have one. -/
structure Policy where
  fresh : Nat → String
  trusted : Bool

namespace Walk

/-- An identity for a node: the one it arrives with, trimmed, if it is not blank and not taken, and
else the next of the supply. -/
def identify (w : Walk) (p : Policy) (arriving : Option String) : String × Walk :=
  let mint := (p.fresh w.minted,
    { w with taken := p.fresh w.minted :: w.taken, minted := w.minted + 1 })
  match arriving.bind Text.trimmed? with
  | some id => if id ∈ w.taken then mint else (id, { w with taken := id :: w.taken })
  | none => mint

/-- The class tokens of an element and the state behind them: those of its classes, and that of its
inline style unless it is among them. -/
def classTokens (w : Walk) (attrs : Attributes) : List String × Walk :=
  let classes := ((attributeOf? attrs "class").map w.styling.resolve).getD []
  match attributeOf? attrs "style" with
  | some body =>
    if Text.isBlank body.toList then (classes, w)
    else
      match w.styling.inline body with
      | (some token, styling) =>
        (if token ∈ classes then classes else classes ++ [token], { w with styling := styling })
      | (none, styling) => (classes, { w with styling := styling })
  | none => (classes, w)

end Walk

/-! ## The walk -/

/-- The attributes that a node keeps: allowed ones, and the class tokens in place of the classes.
Of several attributes with one name the last counts. -/
def keptAttributes (attrs : Attributes) (classes : List String) : Table String :=
  let kept := Table.ofList (attrs.filter fun (name, _) => name ≠ "class" && isAllowedAttribute name)
  if classes = [] then kept else kept.insert "class" (Text.joinTokens classes)

/-- An element without its children, and the state behind it. -/
def buildSelf (p : Policy) (tag : String) (attrs : Attributes) (w : Walk) : Node × Walk :=
  let (classes, w) := w.classTokens attrs
  let asset := Asset.extract? tag attrs classes w.styling.backgroundFor?
  let embedded := (attributeOf? attrs identityAttribute).filter fun id => !Text.isBlank id.toList
  let node : Node := { tag := tag, attrs := keptAttributes attrs classes }
  if isTextEditable tag || asset.isSome || (p.trusted && embedded.isSome) then
    let (id, w) := w.identify p embedded
    let assets := match asset with
      | some a => w.assets.insert id a
      | none => w.assets
    ({ node with id := some id }, { w with assets := assets })
  else (node, w)

/-- A run of text, unless nothing is left of it; `marker` is the identity it arrives with. -/
def buildText (p : Policy) (editable : Bool) (marker : Option String) (content : String)
    (w : Walk) : List Node × Walk :=
  let text := Markup.normalizeText content
  if text = "" then ([], w)
  else if editable then
    let (id, w) := w.identify p marker
    ([Node.ofText text (some id)], w)
  else ([Node.ofText text none], w)

mutual

/-- The node of an element, or nothing if the element is skipped. -/
def buildElement (p : Policy) (editable : Bool) : Dom → Walk → List Node × Walk
  | .element name attrs children, w =>
    let tag := Text.lower name
    if isSkipped tag then ([], w)
    else
      let (node, w) := buildSelf p tag attrs w
      let (children, w) := buildForest p (editable || isTextEditable tag) none children w
      ([{ node with children := children }], w)
  | _, w => ([], w)

/-- The nodes of a forest.  `marker` is the identity for the next run of text: a comment may set it,
a run of text uses it up, and an element ends its reach. -/
def buildForest (p : Policy) (editable : Bool) (marker : Option String) :
    List Dom → Walk → List Node × Walk
  | [], w => ([], w)
  | .comment content :: rest, w =>
    buildForest p editable (Markup.identityOf? content <|> marker) rest w
  | .text content :: rest, w =>
    let (here, w) := buildText p editable marker content w
    let (there, w) := buildForest p editable none rest w
    (here ++ there, w)
  | .element name attrs children :: rest, w =>
    let (here, w) := buildElement p editable (.element name attrs children) w
    let (there, w) := buildForest p editable none rest w
    (here ++ there, w)

end

def buildTree (p : Policy) (styling : Styling) (forest : List Dom) : List Node × Walk :=
  buildForest p false none forest { styling := styling }

end Pane
