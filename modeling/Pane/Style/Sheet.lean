/-!
# Style sheets: declarations, rules, items

A sheet is a deliberately small model of style text.  Only what a pane can use has structure: rules,
and groups of rules that apply from a minimum width upward.  Every other at-rule is carried along as
its text.

* `Declaration`, `Rule`, `Item`, `Sheet` — the model.
* `Declaration.render`, `Rule.render`, `Item.render`, `Sheet.render` — the text that a sheet is
  written as.  Each has a `chars` version on `List Char`, which is the one that laws are stated on.
* `Sheet.rules` — every rule with the width it applies from, in the order of the text.
-/

namespace Pane.Style

/-! ## The model -/

/-- One declaration of a block, such as `color:red`. -/
structure Declaration where
  property : String
  value : String
  deriving DecidableEq, Repr

/-- A list of selectors and the declarations of its block. -/
structure Rule where
  selectors : List String
  declarations : List Declaration
  deriving DecidableEq, Repr

inductive Item where
  | rule (r : Rule)
  /-- Rules that apply from `minWidth` pixels upward. -/
  | media (minWidth : UInt32) (rules : List Rule)
  /-- Any other at-rule, kept as its text. -/
  | verbatim (text : String)
  deriving DecidableEq, Repr

structure Sheet where
  items : List Item
  deriving DecidableEq, Repr

/-! ## Written form -/

/-- Several texts with a separator between neighbours. -/
def joinChars (separator : List Char) : List (List Char) → List Char
  | [] => []
  | [s] => s
  | s :: t :: ts => s ++ separator ++ joinChars separator (t :: ts)

/-- A declaration as `property:value`. -/
def Declaration.chars (d : Declaration) : List Char :=
  d.property.toList ++ ':' :: d.value.toList

/-- Declarations with semicolons between them: the canonical text of a block. -/
def declarationChars (ds : List Declaration) : List Char :=
  joinChars [';'] (ds.map Declaration.chars)

/-- A rule as `selector,selector` and its block. -/
def Rule.chars (r : Rule) : List Char :=
  joinChars [','] (r.selectors.map String.toList) ++ '{' :: declarationChars r.declarations ++ ['}']

/-- The prelude of a group of rules that applies from a width upward. -/
def minWidthPrelude (width : UInt32) : List Char :=
  "@media (min-width: ".toList ++ Nat.toDigits 10 width.toNat ++ "px)".toList

/-- An item as text; a group has each of its rules on a line of its own. -/
def Item.chars : Item → List Char
  | .rule r => r.chars
  | .media width rules =>
    minWidthPrelude width ++ '{' :: '\n' :: rules.flatMap (fun r => r.chars ++ ['\n']) ++ ['}']
  | .verbatim text => text.toList

/-- A sheet as text, a line break between items. -/
def Sheet.chars (s : Sheet) : List Char := joinChars ['\n'] (s.items.map Item.chars)

def renderDeclarations (ds : List Declaration) : String := String.ofList (declarationChars ds)

def Rule.render (r : Rule) : String := String.ofList r.chars

def Item.render (i : Item) : String := String.ofList i.chars

def Sheet.render (s : Sheet) : String := String.ofList s.chars

/-! ## Views -/

/-- The rules of an item with the width they apply from, if there is one. -/
def Item.rules : Item → List (Option UInt32 × Rule)
  | .rule r => [(none, r)]
  | .media width rules => rules.map fun r => (some width, r)
  | .verbatim _ => []

/-- Every rule of a sheet with the width it applies from, in the order of the text. -/
def Sheet.rules (s : Sheet) : List (Option UInt32 × Rule) := s.items.flatMap Item.rules

end Pane.Style
