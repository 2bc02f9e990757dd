import Pane.Asset.Update
import Pane.Compile
import Pane.Tree.Flat

/-!
# Changing one asset of a pane

An edit is never made in place.  The update is carried out on a copy of the tree, the copy is
written as markup and compiled again with the style text of the pane, and finally the update is
carried out on the entry of the target, so that the edit wins whatever was found in the markup.

If the target is on record as a background and the update gives another one, the style text is
changed as well: in the first rule of the target's classes that shows a background.

* `Compiler` — the options and what the expansion service answers.
* `Node.classTokens` — the classes of a node.
* `patchTree`, `patchStyle` — the change of the tree and of the style text.
* `patch` — the whole edit.
-/

namespace Pane

/-- The answer of an expansion service: style text, unless it fails. -/
abbrev Expansion := Option String

/-- How panes are compiled: the options, and the answer of the expansion service.  A service that
fails costs only what it would have contributed. -/
structure Compiler where
  options : Options := {}
  expansion : Expansion := some ""

def Compiler.compile (c : Compiler) (fresh : Nat → String) (markup authored : String) :
    Except CompileError Payload :=
  Pane.compile fresh c.options markup (c.expansion.getD "") authored

/-- The classes of a node, at any white space. -/
def Node.classTokens (n : Node) : List String :=
  match n.attrs.get? "class" with
  | some value =>
    ((Text.pieces Text.isSpace value.toList).filter fun w => !w.isEmpty).map String.ofList
  | none => []

/-- The tree with the update carried out on the target, and the target before that. -/
def patchTree (tree : List Node) (target : String) (known : Option AssetKind) (u : AssetUpdate) :
    List Node × Option Node :=
  let flat := FlatTree.ofTree tree
  match flat.find? target with
  | some position => ((flat.modify position (u.onNode known)).toTree, flat.get? position)
  | none => (flat.toTree, none)

/-- The style text with the background of the target changed, if it is to be and can be. -/
def patchStyle (text : String) (target : Option Node) (known : Option AssetKind) (u : AssetUpdate) :
    String :=
  match u.content, target, known with
  | .background url, some n, some .background =>
    (Style.substituteBackground? text n.classTokens url).getD text
  | _, _, _ => text

/-- Carries out an update on the asset of a target. -/
def patch (c : Compiler) (fresh : Nat → String) (p : Payload) (target : String) (u : AssetUpdate) :
    Except CompileError Payload := do
  let previous := p.assets.get? target
  let known := previous.map Asset.kind
  let (tree, node) := patchTree p.tree target known u
  let styleText := patchStyle p.styleText node known u
  let regenerated ← c.compile fresh (serialize tree) styleText
  return { regenerated with
    assets := u.onTable target previous (node.map Node.tag) regenerated.assets }

end Pane
