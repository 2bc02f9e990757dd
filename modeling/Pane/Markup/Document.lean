import Pane.Markup.Dom

/-!
# The document under construction

While a document is built its elements are addressed by keys, because parts of it are moved around
and insertion does not always happen at the end.  Text that is inserted next to text joins it.

An element whose content is kept apart from the document, a template, has that content as its
children here; the finished forest does not show it.

* `Space` — the three vocabularies of elements.
* `Grown` — a node of the document under construction.
* `appendNode`, `appendChar` — insertion behind what is there.
* `onChildren`, `onSiblings`, `detach` — changes at an element of a given key.
* `Grown.dom` — the finished forest.
-/

namespace Pane.Markup

/-- The vocabulary that an element belongs to. -/
inductive Space where
  | html
  | svg
  | mathml
  deriving DecidableEq, Repr

/-- A node of the document under construction.  The characters of text are in reverse. -/
inductive Grown where
  | element (key : Nat) (space : Space) (name : String) (attrs : List (String × String))
      (children : List Grown)
  | text (reversed : List Char)
  | comment (content : List Char)
  deriving Repr

/-! ## Insertion -/

def appendNode (n : Grown) (ns : List Grown) : List Grown := ns ++ [n]

/-- Nodes with a character behind them, which joins the text there. -/
def appendChar (c : Char) : List Grown → List Grown
  | [] => [.text [c]]
  | [.text s] => [.text (c :: s)]
  | n :: ns => n :: appendChar c ns

/-! ## Changes by key -/

mutual

/-- A node with the children of the element of a key changed. -/
def Grown.onChildren (key : Nat) (change : List Grown → List Grown) : Grown → Grown
  | .element k space name attrs children =>
    if k = key then .element k space name attrs (change children)
    else .element k space name attrs (onChildren key change children)
  | n => n

/-- Nodes with the children of the element of a key changed. -/
def onChildren (key : Nat) (change : List Grown → List Grown) : List Grown → List Grown
  | [] => []
  | n :: ns => n.onChildren key change :: onChildren key change ns

end

def Grown.hasKey (key : Nat) : Grown → Bool
  | .element k _ _ _ _ => k = key
  | _ => false

mutual

/-- A node in which the list of siblings with the element of a key is changed: `change` is given the
nodes before it and those from it on. -/
def Grown.onSiblings (key : Nat) (change : List Grown → List Grown → List Grown) : Grown → Grown
  | .element k space name attrs children =>
    .element k space name attrs (onSiblingsFrom key change [] children)
  | n => n

/-- The same for a list of siblings, of which `before` have been passed, in reverse. -/
def onSiblingsFrom (key : Nat) (change : List Grown → List Grown → List Grown)
    (before : List Grown) : List Grown → List Grown
  | [] => before.reverse
  | n :: ns =>
    if n.hasKey key then change before.reverse (n :: ns)
    else onSiblingsFrom key change (n.onSiblings key change :: before) ns

end

/-- Nodes in which the list of siblings with the element of a key is changed. -/
def onSiblings (key : Nat) (change : List Grown → List Grown → List Grown) (ns : List Grown) :
    List Grown :=
  onSiblingsFrom key change [] ns

mutual

def Grown.find? (key : Nat) : Grown → Option Grown
  | .element k space name attrs children =>
    if k = key then some (.element k space name attrs children) else findIn? key children
  | _ => none

/-- The element of a key among nodes and below them. -/
def findIn? (key : Nat) : List Grown → Option Grown
  | [] => none
  | n :: ns => n.find? key <|> findIn? key ns

end

def detach (key : Nat) (ns : List Grown) : List Grown :=
  onSiblings key (fun before rest => before ++ rest.drop 1) ns

def Grown.children : Grown → List Grown
  | .element _ _ _ _ children => children
  | _ => []

/-- Attributes with those added whose names are new. -/
def addAttributes (attrs more : List (String × String)) : List (String × String) :=
  attrs ++ more.filter fun a => !attrs.any fun b => b.1 = a.1

mutual

/-- A node with attributes added to the element of a key. -/
def Grown.addAttributes (key : Nat) (more : List (String × String)) : Grown → Grown
  | .element k space name attrs children =>
    if k = key then .element k space name (Markup.addAttributes attrs more) children
    else .element k space name attrs (addAttributesIn key more children)
  | n => n

def addAttributesIn (key : Nat) (more : List (String × String)) : List Grown → List Grown
  | [] => []
  | n :: ns => n.addAttributes key more :: addAttributesIn key more ns

end

/-! ## The finished forest -/

mutual

/-- A node of the finished forest.  The content of a template is not part of it. -/
def Grown.dom : Grown → Dom
  | .element _ space name attrs children =>
    .element name attrs (if space = .html ∧ name = "template" then [] else domForest children)
  | .text s => .text (String.ofList s.reverse)
  | .comment s => .comment (String.ofList s)

def domForest : List Grown → List Dom
  | [] => []
  | n :: ns => n.dom :: domForest ns

end

end Pane.Markup
