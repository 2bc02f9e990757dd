import Pane.Compile
import Pane.Wire.Asset
import Pane.Wire.JsonReader
import Pane.Wire.Tree

/-!
# Panes and options in JSON

* `payloadToJson`, `payload?` — a compiled pane.
* `optionsToJson`, `options?` — the options; what is absent has its usual value.
* `readOptions` — the options of a text, or the error that tells that there are none.
-/

namespace Pane.Wire

/-! ## Panes -/

/-- The style text at each of the three widths. -/
def snapshotsToJson (s : Style.Snapshots) : Json :=
  .obj [("xs", .str s.xs), ("md", .str s.md), ("xl", .str s.xl)]

/-- A compiled pane as an object of its four parts, all of which are written. -/
def payloadToJson (p : Payload) : Json :=
  .obj [("compiledStyleText", .str p.styleText), ("viewportSnapshots", snapshotsToJson p.snapshots),
    ("tree", treeToJson p.tree), ("assetMetadata", tableToJson assetToJson p.assets)]

/-- The style texts of a value, none of which may be missing. -/
def snapshots? (v : Json) : Option Style.Snapshots := do
  let r ← Record.read? ["xs", "md", "xl"] v
  some ⟨← r.required? "xs" string?, ← r.required? "md" string?, ← r.required? "xl" string?⟩

/-- The pane of a value, none of whose parts may be missing. -/
def payload? (v : Json) : Option Payload := do
  let r ← Record.read? ["compiledStyleText", "viewportSnapshots", "tree", "assetMetadata"] v
  some ⟨← r.required? "compiledStyleText" string?, ← r.required? "viewportSnapshots" snapshots?,
    ← r.required? "tree" tree?, ← r.required? "assetMetadata" (table? asset?)⟩

/-! ## Options -/

def viewportsToJson (v : Style.Viewports) : Json :=
  .obj [("xs", .ofNat v.xs.toNat), ("md", .ofNat v.md.toNat), ("xl", .ofNat v.xl.toNat)]

/-- Options as an object of all of them, the usual ones too. -/
def optionsToJson (o : Options) : Json :=
  .obj [("viewports", viewportsToJson o.viewports), ("rewriteViewportUnits", .bool o.percentUnits),
    ("extractStyleBlocks", .bool o.styleBlocks)]

/-- The widths of a value, each within thirty-two bits; one that is absent is the usual one. -/
def viewports? (v : Json) : Option Style.Viewports := do
  let usual : Style.Viewports := {}
  let r ← Record.read? ["xs", "md", "xl"] v
  some ⟨← r.optional? "xs" uint32? usual.xs, ← r.optional? "md" uint32? usual.md,
    ← r.optional? "xl" uint32? usual.xl⟩

/-- The options of a value.  One that is absent is the usual one, and unknown names are passed
over. -/
def options? (v : Json) : Option Options := do
  let r ← Record.read? ["viewports", "rewriteViewportUnits", "extractStyleBlocks"] v
  some ⟨← r.optional? "viewports" viewports? {}, ← r.optional? "rewriteViewportUnits" bool? true,
    ← r.optional? "extractStyleBlocks" bool? true⟩

/-- The options of a text.  The error says whether it is no JSON at all or JSON of something
else. -/
def readOptions (text : String) : Except CompileError Options :=
  match Json.parse? text with
  | none => .error (.badOptions "not a JSON text")
  | some v =>
    match options? v with
    | some o => .ok o
    | none => .error (.badOptions "not an object of options")

end Pane.Wire
