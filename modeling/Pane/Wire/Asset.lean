import Pane.Asset.Update
import Pane.Wire.Record

/-!
# Assets and their updates in JSON

Both are objects with a member `kind` that tells the other members.  The hints of an asset stand
among its own members, those of an update in an object of their own.  A value with a `kind` is read
as a whole before it is taken apart, so no part of it may be invalid, not even one that has no
meaning.

* `assetToJson`, `asset?` — an asset.
* `updateToJson`, `update?` — an update.
-/

namespace Pane.Wire

/-! ## Assets -/

/-- The members of hints; those that are absent are left out. -/
def hintMembers (h : Hints) : List (String × Json) :=
  presentMember "fileId" h.fileId ++ presentMember "collection" h.collection ++
    presentMember "imageKey" h.imageKey

/-- What pressing an element does; a text that is absent is left out. -/
def actionToJson (a : ButtonAction) : Json :=
  .obj (presentMember "callback" a.callback ++ ("isExternal", .bool a.isExternal) ::
    presentMember "video" a.video)

/-- The members that the kind of an asset brings with it. -/
def contentMembers : AssetContent → List (String × Json)
  | .image src srcSet alt =>
    [("src", .ofOption src), ("srcSet", .ofOption srcSet), ("alt", .ofOption alt)]
  | .link href action => [("href", .ofOption href), ("button", actionToJson action)]
  | .button action => [("button", actionToJson action)]
  | .background url => [("backgroundImage", .str url)]

/-- Hints as an object of their own. -/
def hintsToJson (h : Hints) : Json := .obj (hintMembers h)

/-- An asset with its kind in front, its tag, the members of its kind and its hints. -/
def assetToJson (a : Asset) : Json :=
  .obj (("kind", .str a.kind.name) :: ("tagName", .str a.tagName) ::
    contentMembers a.content ++ hintMembers a.hints)

/-- What pressing does, of a value; unless it is said to lead outside, it does not. -/
def action? (v : Json) : Option ButtonAction := do
  let r ← Record.read? ["callback", "isExternal", "video"] v
  some ⟨← r.nullable? "callback", ← r.optional? "isExternal" bool? false, ← r.nullable? "video"⟩

/-- The kind of a name. -/
def kind? (name : String) : Option AssetKind :=
  [AssetKind.image, .link, .button, .background].find? fun k => k.name = name

/-- The kind that an object names, if it names one just once. -/
def kindOf? (members : List (String × Json)) : Option AssetKind := do
  let r ← Record.readObject? ["kind"] (.obj members)
  kind? (← r.required? "kind" string?)

/-- What an asset of a kind is, from its members. -/
def content? (r : Record) : AssetKind → Option AssetContent
  | .image => do
    some (.image (← r.nullable? "src") (← r.nullable? "srcSet") (← r.nullable? "alt"))
  | .link => do some (.link (← r.nullable? "href") (← r.required? "button" action?))
  | .button => do some (.button (← r.required? "button" action?))
  | .background => do some (.background (← r.required? "backgroundImage" string?))

/-- The names of the members of an asset of a kind, the kind itself excepted. -/
def assetFields : AssetKind → List String
  | .image => ["tagName", "src", "srcSet", "alt", "fileId", "collection", "imageKey"]
  | .link => ["tagName", "href", "button", "fileId", "collection", "imageKey"]
  | .button => ["tagName", "button", "fileId", "collection", "imageKey"]
  | .background => ["tagName", "backgroundImage", "fileId", "collection", "imageKey"]

/-- The asset of a value.  Its kind tells which of the members are read, and no part of the value
may be invalid. -/
def asset? (v : Json) : Option Asset :=
  match v with
  | .obj members => do
    let kind ← if v.usable then kindOf? members else none
    let r ← Record.readObject? (assetFields kind) v
    let tagName ← r.required? "tagName" string?
    let content ← content? r kind
    some ⟨tagName, content,
      ⟨← r.nullable? "fileId", ← r.nullable? "collection", ← r.nullable? "imageKey"⟩⟩
  | _ => none

/-! ## Updates -/

/-- The change of a hint as an object of its name and, if there is one, the text. -/
def hintChangeToJson : HintChange → Json
  | .keep => .obj [("op", .str "keep")]
  | .set value => .obj [("op", .str "set"), ("value", .str value)]
  | .clear => .obj [("op", .str "clear")]

/-- The changes of the three hints, those of hints that stay included. -/
def hintsUpdateToJson (h : HintsUpdate) : Json :=
  .obj [("fileId", hintChangeToJson h.fileId), ("collection", hintChangeToJson h.collection),
    ("imageKey", hintChangeToJson h.imageKey)]

def boolOrNullToJson : Option Bool → Json
  | some b => .bool b
  | none => .null

/-- The change of what pressing does, null for what stays. -/
def actionUpdateToJson (a : ActionUpdate) : Json :=
  .obj [("callback", .ofOption a.callback), ("isExternal", boolOrNullToJson a.isExternal),
    ("video", .ofOption a.video)]

/-- The members that the kind of an update brings with it. -/
def updateMembers : ContentUpdate → List (String × Json)
  | .image src srcSet alt =>
    [("src", .ofOption src), ("srcSet", .ofOption srcSet), ("alt", .ofOption alt)]
  | .link href action => [("href", .ofOption href), ("button", actionUpdateToJson action)]
  | .button action => [("button", actionUpdateToJson action)]
  | .background url => [("url", .str url)]

/-- An update with its kind in front, the members of its kind and the changes of the hints. -/
def updateToJson (u : AssetUpdate) : Json :=
  .obj (("kind", .str u.kind.name) :: updateMembers u.content ++
    [("hints", hintsUpdateToJson u.hints)])

/-- The names of the changes of a hint.  Where only their number is given, it counts from zero. -/
def hintChangeNames : List String := ["keep", "set", "clear"]

/-- A change of a hint from its name and its value. -/
def hintChangeOf? (name : String) (value : Option Json) : Option HintChange :=
  let bare (c : HintChange) := match value with
    | none => some c
    | some .null => some c
    | _ => none
  if name = "keep" then bare .keep
  else if name = "clear" then bare .clear
  else if name = "set" then (value.bind string?).map .set
  else none

/-- The name of a change in an object: a string, or the only member of an object with nothing in
it. -/
def changeName? : Json → Option String
  | .str name => some name
  | .obj [(name, v)] => if v == .null || v == .obj [] then some name else none
  | _ => none

/-- The name of a change in an array: a string, or the number of the change. -/
def changeNameAt? : Json → Option String
  | .str name => some name
  | .int n => if 0 ≤ n then hintChangeNames[n.toNat]? else none
  | _ => none

/-- The change of a hint.  As an array it has both its parts. -/
def hintChange? : Json → Option HintChange
  | .arr [op, value] => do hintChangeOf? (← changeNameAt? op) (some value)
  | .obj members => do
    let r ← Record.readObject? ["op", "value"] (.obj members)
    hintChangeOf? (← r.required? "op" changeName?) (r.lookup "value")
  | _ => none

/-- The changes of the hints, of a value; a hint that is absent stays. -/
def hintsUpdate? (v : Json) : Option HintsUpdate := do
  let r ← Record.read? ["fileId", "collection", "imageKey"] v
  some ⟨← r.optional? "fileId" hintChange? .keep, ← r.optional? "collection" hintChange? .keep,
    ← r.optional? "imageKey" hintChange? .keep⟩

/-- The change of what pressing does, of a value; what is absent or null stays. -/
def actionUpdate? (v : Json) : Option ActionUpdate := do
  let r ← Record.read? ["callback", "isExternal", "video"] v
  some ⟨← r.nullable? "callback", ← r.optional? "isExternal" boolOrNull? none,
    ← r.nullable? "video"⟩

/-- The names of the members of an update of a kind, in their order, the kind itself excepted. -/
def updateFields : AssetKind → List String
  | .image => ["src", "srcSet", "alt", "hints"]
  | .link => ["href", "button", "hints"]
  | .button => ["button", "hints"]
  | .background => ["url", "hints"]

/-- What an update of a kind changes, from its members. -/
def contentUpdate? (r : Record) : AssetKind → Option ContentUpdate
  | .image => do
    some (.image (← r.nullable? "src") (← r.nullable? "srcSet") (← r.nullable? "alt"))
  | .link => do some (.link (← r.nullable? "href") (← r.optional? "button" actionUpdate? {}))
  | .button => do some (.button (← r.optional? "button" actionUpdate? {}))
  | .background => do some (.background (← r.required? "url" string?))

/-- An update of a kind from the value that holds its members. -/
def updateOf? (kind : AssetKind) (v : Json) : Option AssetUpdate := do
  let r ← Record.read? (updateFields kind) v
  some ⟨← contentUpdate? r kind, ← r.optional? "hints" hintsUpdate? {}⟩

/-- The update of a value.  As an array it has its kind in front of its members. -/
def update? (v : Json) : Option AssetUpdate :=
  if v.usable then
    match v with
    | .obj members => do updateOf? (← kindOf? members) v
    | .arr (kind :: items) => do updateOf? (← kind? (← string? kind)) (.arr items)
    | _ => none
  else none

end Pane.Wire
