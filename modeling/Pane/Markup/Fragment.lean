import Pane.Error
import Pane.Markup.Blocks
import Pane.Markup.Construction
import Pane.Text.Basic

/-!
# Reading a fragment of markup

A fragment is read as a document, because only a document says what may stand where.  Of the
document its head and body are opened up, so that what remains is what the fragment consists of.  A
document of frames has no body, and then there is no fragment.

* `fragmentOf` — the nodes of a document without its wrappers.
* `readFragment` — the nodes of a fragment of markup.
-/

namespace Pane.Markup

/-- The nodes that a child of the outermost element contributes. -/
def unwrapped : Dom → List Dom
  | .element name attrs children =>
    if Text.lower name = "head" ∨ Text.lower name = "body" then children
    else [.element name attrs children]
  | n => [n]

def isBody : Dom → Bool
  | .element name _ _ => Text.lower name = "body"
  | _ => false

/-- The children of the outermost element of a document. -/
def rootChildren : List Dom → List Dom
  | .element _ _ children :: _ => children
  | _ => []

/-- The nodes of a document without its wrappers, if it has a body. -/
def fragmentOf (document : List Dom) : Except CompileError (List Dom) :=
  let children := rootChildren document
  if children.any isBody then .ok (children.flatMap unwrapped) else .error .noBody

/-- The nodes of a fragment of markup, scripts left out. -/
def readFragment (markup : String) : Except CompileError (List Dom) :=
  fragmentOf (construct (stripScripts markup))

end Pane.Markup
