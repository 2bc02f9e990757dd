import Pane.Markup.Fragment
import Pane.Style.Registry.Snapshot
import Pane.Tree.Builder
import Pane.Tree.Check
import Pane.Tree.Printer

/-!
# Compiling a pane

A pane is compiled from markup and style text.  Style is registered first, in the order of the
cascade: the text that an expansion service made of the markup, the text of the author, and the
style blocks within the markup.  Then the markup is read, the tree is built over the registry and
checked, and what the registry holds after the walk is written out.

Markup that was compiled before can be read back without any style: its class tokens and identities
are trusted, and its assets are told again from the attributes of each element.

* `Options`, `Payload` — what can be chosen, and what comes out.
* `populate` — the registry before the walk.
* `compile` — compilation.
* `rehydrate` — reading back.
-/

namespace Pane

structure Options where
  viewports : Style.Viewports := {}
  /-- Whether snapshots show viewport units as percentages. -/
  percentUnits : Bool := true
  /-- Whether style blocks within the markup are registered. -/
  styleBlocks : Bool := true
  deriving DecidableEq, Repr

structure Payload where
  styleText : String
  snapshots : Style.Snapshots
  tree : List Node
  assets : Table Asset
  deriving DecidableEq

namespace Payload

def empty : Payload := ⟨"", ⟨"", "", ""⟩, [], Table.empty⟩

end Payload

/-! ## Compilation -/

/-- The registry with some texts registered, one after the other. -/
def ingestAll (r : Style.Registry) (texts : List String) : Style.Registry :=
  texts.foldl (fun r text => (r.ingest text).2) r

/-- The markup that is read and the style blocks that are registered. -/
def splitStyles (o : Options) (markup : String) : String × List String :=
  if o.styleBlocks then Markup.extractStyles markup else (markup, [])

/-- The registry before the walk. -/
def populate (o : Options) (expanded authored : String) (blocks : List String) : Style.Registry :=
  ingestAll (Style.Registry.empty o.percentUnits) (expanded :: authored :: blocks)

/-- What a tree and the state of the walk that built it are written out as. -/
def payloadOf (o : Options) (tree : List Node) (w : Walk) : Payload :=
  match w.styling with
  | .registry r => ⟨r.compiled, r.snapshots o.viewports, tree, w.assets⟩
  | .verbatim => ⟨"", ⟨"", "", ""⟩, tree, w.assets⟩

/-- Compiles markup with style text that has been expanded already; new identities come from the
given supply. -/
def compile (fresh : Nat → String) (o : Options) (markup expanded authored : String) :
    Except CompileError Payload := do
  let (markup, blocks) := splitStyles o markup
  let forest ← Markup.readFragment markup
  let styling := Styling.registry (populate o expanded authored blocks)
  let (tree, w) := buildTree ⟨fresh, false⟩ styling forest
  checkTree tree
  return payloadOf o tree w

/-! ## Reading back -/

/-- The tree and the assets of markup that was compiled before. -/
def rehydrate (fresh : Nat → String) (markup : String) :
    Except CompileError (List Node × Table Asset) := do
  let forest ← Markup.readFragment markup
  let (tree, w) := buildTree ⟨fresh, true⟩ .verbatim forest
  checkTree tree
  return (tree, w.assets)

end Pane
