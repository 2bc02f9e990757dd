import Mathlib.Data.List.Nodup
import Pane.Wire.Payload

/-!
# What is written in JSON is read back

Every value that travels is read back from what was written of it, though the fields are not all
written alike: some are left out when they are empty, some are written as null, and some have a
value of their own when they are absent.  The members of a written record are among its names, each
at most once and in their order, so none is repeated and each is found under its name.

* `unrepeated_of_sublist` — members that are among different names are not repeated.
* `Record.nullable?_eq` — a field that is absent is read as if it were null.
* `table?_tableToJson` — a table is read back if its values are.
* `asset?_assetToJson`, `node?_nodeToJson` — an asset and a node of any depth are read back.
* **`wire_formats_lose_nothing`** — so are panes and updates, and what is read from any value stays
  the same when it is written and read once more.
-/

namespace Pane.Wire

/-! ## Fields of a record -/

@[simp] theorem lookup_presentMember (name k : String) (o : Option String) :
    (presentMember name o).lookup k = if k = name then o.map .str else none := by
  cases o with
  | none => simp [presentMember]
  | some s => rw [presentMember, Table.lookup_cons_ite, List.lookup_nil, Option.map_some]

/-- A member that may be left out has its own name, if it is there. -/
theorem map_fst_presentMember (name : String) (o : Option String) :
    ((presentMember name o).map (·.1)).Sublist [name] := by
  cases o with
  | none => exact List.nil_sublist _
  | some s => exact List.Sublist.refl _

/-- Members whose names are among different ones, in their order, are not repeated. -/
theorem unrepeated_of_sublist {all : List String} {members : List (String × Json)}
    (h : (members.map (·.1)).Sublist all) (hall : all.Nodup) (names : List String) :
    Record.unrepeated names members = true := by
  simp only [Record.unrepeated, List.all_eq_true, decide_eq_true_eq]
  intro name _
  have hcount : (members.map (·.1)).count name ≤ 1 :=
    List.nodup_iff_count_le_one.1 (hall.sublist h) name
  simpa [List.count_eq_length_filter, List.filter_map, Function.comp_def,
    beq_eq_decide] using hcount

@[simp] theorem string?_str (s : String) : string? (.str s) = some s := rfl

@[simp] theorem bool?_bool (b : Bool) : bool? (.bool b) = some b := rfl

/-- A text that may be missing is read back from its text or from null. -/
@[simp] theorem stringOrNull?_ofOption (o : Option String) :
    stringOrNull? (.ofOption o) = some o := by
  cases o <;> rfl

/-- It is read back as well if it was left out. -/
@[simp] theorem stringOrNull?_getD_map (o : Option String) :
    stringOrNull? ((o.map .str).getD .null) = some o := by
  cases o <;> rfl

namespace Record

variable {α : Type} {r : Record} {name : String}

/-- An object is read whole if its members are among different names. -/
theorem readObject?_of_sublist {all : List String} {members : List (String × Json)}
    (h : (members.map (·.1)).Sublist all) (hall : all.Nodup) (names : List String) :
    readObject? names (.obj members) = some members := by
  rw [readObject?, if_pos (unrepeated_of_sublist h hall names)]

/-- Members in the order of the names, some of them left out, are read as they are. -/
theorem read?_of_sublist {all : List String} {members : List (String × Json)}
    (h : (members.map (·.1)).Sublist all) (hall : all.Nodup) (names : List String) :
    read? names (.obj members) = some members :=
  readObject?_of_sublist h hall names

/-- A field that is absent is read as if it were null. -/
theorem nullable?_eq (r : Record) (name : String) :
    r.nullable? name = stringOrNull? ((r.lookup name).getD .null) := by
  rw [nullable?, optional?]
  cases r.lookup name <;> rfl

end Record

/-! ## Tables -/

section tables

variable {α : Type} {encode : α → Json} {decode? : Json → Option α}

/-- Members are read back if their values are. -/
theorem pairs?_map (h : ∀ x, decode? (encode x) = some x) (l : List (String × α)) :
    pairs? decode? (l.map fun (k, v) => (k, encode v)) = some l := by
  induction l with
  | nil => rfl
  | cons p l ih => simp [pairs?, h, ih]

/-- **A table is read back** if its values are. -/
theorem table?_tableToJson (h : ∀ x, decode? (encode x) = some x) (t : Table α) :
    table? decode? (tableToJson encode t) = some t := by
  rw [tableToJson, table?, pairs?_map h, Option.map_some, Table.ofList_entries]

end tables

/-! ## Assets -/

/-- A kind is found again by its name. -/
@[simp] theorem kind?_name (k : AssetKind) : kind? k.name = some k := by
  cases k <;> decide

/-- The members of hints are among the names of hints, in their order. -/
theorem map_fst_hintMembers (h : Hints) :
    ((hintMembers h).map (·.1)).Sublist ["fileId", "collection", "imageKey"] := by
  rw [hintMembers, List.map_append, List.map_append]
  exact ((map_fst_presentMember ..).append (map_fst_presentMember ..)).append
    (map_fst_presentMember ..)

/-- The members of an asset are among the names for its kind, the kind itself in front. -/
theorem map_fst_assetMembers (a : Asset) :
    ((("kind", .str a.kind.name) :: ("tagName", .str a.tagName) ::
      contentMembers a.content ++ hintMembers a.hints : List (String × Json)).map (·.1)).Sublist
        ("kind" :: assetFields a.kind) := by
  obtain ⟨tagName, content, hints⟩ := a
  simp only [List.cons_append, List.map_cons, List.map_append]
  cases content <;>
    simp only [contentMembers, assetFields, Asset.kind, AssetContent.kind, List.map_cons,
      List.map_nil, List.cons_append, List.nil_append, List.cons_sublist_cons] <;>
    exact map_fst_hintMembers hints

/-- What pressing an element does is read back, with and without its texts. -/
theorem action?_actionToJson (a : ButtonAction) : action? (actionToJson a) = some a := by
  have hnames : ((presentMember "callback" a.callback ++ ("isExternal", .bool a.isExternal) ::
      presentMember "video" a.video).map (·.1)).Sublist ["callback", "isExternal", "video"] := by
    rw [List.map_append]
    exact (map_fst_presentMember ..).append ((map_fst_presentMember ..).cons_cons _)
  rw [action?, actionToJson, Record.read?_of_sublist hnames (by decide)]
  simp [Record.nullable?_eq, Record.optional?, List.lookup_append, Table.lookup_cons_ite]

@[simp] theorem usableMembers_append (ms ns : List (String × Json)) :
    Json.usableMembers (ms ++ ns) = (Json.usableMembers ms && Json.usableMembers ns) := by
  induction ms with
  | nil => simp [Json.usableMembers]
  | cons m ms ih => simp [Json.usableMembers, ih, Bool.and_assoc]

@[simp] theorem usableMembers_presentMember (name : String) (o : Option String) :
    Json.usableMembers (presentMember name o) = true := by
  cases o <;> simp [presentMember, Json.usableMembers, Json.usable]

@[simp] theorem usable_ofOption (o : Option String) : (Json.ofOption o).usable = true := by
  cases o <;> simp [Json.ofOption, Json.usable]

/-- Nothing that is written of an asset is invalid. -/
theorem usable_assetToJson (a : Asset) : (assetToJson a).usable = true := by
  obtain ⟨tagName, content, hints⟩ := a
  cases content <;>
    simp [assetToJson, contentMembers, actionToJson, hintMembers, Json.usable, Json.usableMembers]

/-- **An asset is read back**, whatever its kind. -/
theorem asset?_assetToJson (a : Asset) : asset? (assetToJson a) = some a := by
  have hnodup : ("kind" :: assetFields a.kind).Nodup := by cases a.kind <;> decide
  have hread := Record.readObject?_of_sublist (map_fst_assetMembers a) hnodup
  have husable := usable_assetToJson a
  rw [assetToJson] at husable ⊢
  simp only [asset?, husable, if_true, kindOf?, hread, Option.bind_eq_bind, Option.bind_some]
  obtain ⟨tagName, content, hints⟩ := a
  cases content <;>
    simp [Record.required?, Record.nullable?_eq, List.lookup_append, Table.lookup_cons_ite,
      contentMembers, hintMembers, content?, action?_actionToJson, Asset.kind, AssetContent.kind]

/-! ## Updates -/

/-- The change of a hint is read back by its name. -/
theorem hintChange?_hintChangeToJson (c : HintChange) :
    hintChange? (hintChangeToJson c) = some c := by
  cases c <;>
    simp [hintChangeToJson, hintChange?, Record.readObject?, Record.unrepeated, Record.required?,
      Table.lookup_cons_ite, changeName?, hintChangeOf?]

/-- The changes of the hints are read back, those of hints that stay included. -/
theorem hintsUpdate?_hintsUpdateToJson (h : HintsUpdate) :
    hintsUpdate? (hintsUpdateToJson h) = some h := by
  simp [hintsUpdate?, hintsUpdateToJson, Record.read?, Record.readObject?, Record.unrepeated,
    Record.optional?, Table.lookup_cons_ite, hintChange?_hintChangeToJson]

@[simp] theorem boolOrNull?_boolOrNullToJson (o : Option Bool) :
    boolOrNull? (boolOrNullToJson o) = some o := by
  cases o <;> rfl

/-- A change of what pressing does is read back; what stays is written as null. -/
theorem actionUpdate?_actionUpdateToJson (a : ActionUpdate) :
    actionUpdate? (actionUpdateToJson a) = some a := by
  simp [actionUpdate?, actionUpdateToJson, Record.read?, Record.readObject?, Record.unrepeated,
    Record.optional?, Record.nullable?_eq, Table.lookup_cons_ite]

/-- The members of an update are the names for its kind, the kind itself in front. -/
theorem map_fst_updateMembers (u : AssetUpdate) :
    ((("kind", .str u.kind.name) :: updateMembers u.content ++
      [("hints", hintsUpdateToJson u.hints)] : List (String × Json)).map (·.1)).Sublist
        ("kind" :: updateFields u.kind) := by
  obtain ⟨content, hints⟩ := u
  cases content <;> exact List.Sublist.refl _

/-- A change of a hint is usable. -/
theorem usable_hintChangeToJson (c : HintChange) : (hintChangeToJson c).usable = true := by
  cases c <;> simp [hintChangeToJson, Json.usable, Json.usableMembers]

/-- So is a change of what pressing does. -/
theorem usable_actionUpdateToJson (a : ActionUpdate) : (actionUpdateToJson a).usable = true := by
  have hbool : (boolOrNullToJson a.isExternal).usable = true := by
    cases a.isExternal <;> simp [boolOrNullToJson, Json.usable]
  simp [actionUpdateToJson, hbool, Json.usable, Json.usableMembers]

/-- Nothing that is written of an update is invalid. -/
theorem usable_updateToJson (u : AssetUpdate) : (updateToJson u).usable = true := by
  obtain ⟨content, hints⟩ := u
  cases content <;>
    simp [updateToJson, updateMembers, hintsUpdateToJson, usable_hintChangeToJson,
      usable_actionUpdateToJson, Json.usable, Json.usableMembers]

/-- **An update is read back**, whatever its kind. -/
theorem update?_updateToJson (u : AssetUpdate) : update? (updateToJson u) = some u := by
  have hnodup : ("kind" :: updateFields u.kind).Nodup := by cases u.kind <;> decide
  have hread := Record.readObject?_of_sublist (map_fst_updateMembers u) hnodup
  have husable := usable_updateToJson u
  rw [updateToJson] at husable ⊢
  simp only [update?, husable, if_true, kindOf?, updateOf?, Record.read?, hread,
    Option.bind_eq_bind, Option.bind_some]
  obtain ⟨content, hints⟩ := u
  cases content <;>
    simp [Record.required?, Record.optional?, Record.nullable?_eq, Table.lookup_cons_ite,
      updateMembers, contentUpdate?, hintsUpdate?_hintsUpdateToJson,
      actionUpdate?_actionUpdateToJson, AssetUpdate.kind, ContentUpdate.kind]

/-! ## Trees

Each part of a written node is a member or nothing, and either way it sets one field of the
draft, whatever follows it. -/

section parts

variable {d : NodeDraft} {rest : List (String × Json)}

/-- The tag is drafted first. -/
theorem memberDraft?_tag (hd : d.tag = none) (tag : String) :
    memberDraft? d (("tag", .str tag) :: rest) = memberDraft? { d with tag := tag } rest := by
  simp [memberDraft?, NodeDraft.put?, setOnce, hd]

/-- The attributes set theirs, and are left out if there are none. -/
theorem memberDraft?_attrs (hd : d.attrs = none) (attrs : Table String) :
    memberDraft? d ((if attrs.entries.isEmpty then []
        else [("attrs", tableToJson .str attrs)]) ++ rest) =
      memberDraft? { d with attrs := if attrs.entries.isEmpty then none else some attrs } rest := by
  obtain ⟨tag, _, text, children, id⟩ := d
  obtain rfl : _ = none := hd
  split <;> simp [memberDraft?, NodeDraft.put?, setOnce, table?_tableToJson string?_str]

/-- The text is drafted if it is there. -/
theorem memberDraft?_text (hd : d.text = none) (text : Option String) :
    memberDraft? d (presentMember "text" text ++ rest) =
      memberDraft? { d with text := text.map some } rest := by
  obtain ⟨tag, attrs, _, children, id⟩ := d
  obtain rfl : _ = none := hd
  cases text <;> simp [presentMember, memberDraft?, NodeDraft.put?, setOnce, stringOrNull?]

/-- The children set theirs if they are read back, and are left out if there are none. -/
theorem memberDraft?_children (hd : d.children = none) {ns : List Node}
    (hns : nodeList? (nodesToJson ns) = some ns) :
    memberDraft? d ((if ns.isEmpty then []
        else [("children", .arr (nodesToJson ns))]) ++ rest) =
      memberDraft? { d with children := if ns.isEmpty then none else some ns } rest := by
  obtain ⟨tag, attrs, text, _, id⟩ := d
  obtain rfl : _ = none := hd
  split <;> simp [memberDraft?, nodes?, setOnce, hns]

/-- The identity comes last, so the draft is complete behind it. -/
theorem memberDraft?_id (hd : d.id = none) (id : Option String) :
    memberDraft? d (presentMember "id" id) = some { d with id := id.map some } := by
  obtain ⟨tag, attrs, text, children, _⟩ := d
  obtain rfl : _ = none := hd
  cases id <;> simp [presentMember, memberDraft?, NodeDraft.put?, setOnce, stringOrNull?]

end parts

/-- What was left out because it is empty. -/
theorem getD_attrs (attrs : Table String) :
    (if attrs.entries.isEmpty then none else some attrs).getD Table.empty = attrs := by
  split
  · next h => exact Table.ext_entries (List.isEmpty_iff.1 h).symm
  · rfl

/-- Children that are left out are none. -/
theorem getD_children (ns : List Node) : (if ns.isEmpty then none else some ns).getD [] = ns := by
  split
  · next h => exact (List.isEmpty_iff.1 h).symm
  · rfl

theorem getD_map_some (o : Option String) : (o.map some).getD none = o := by
  cases o <;> rfl

/-- A node is read back if its children are. -/
theorem node?_of_children {children : List Node}
    (hchildren : nodeList? (nodesToJson children) = some children) (tag : String)
    (attrs : Table String) (text id : Option String) :
    node? (nodeToJson ⟨tag, attrs, text, children, id⟩) =
      some ⟨tag, attrs, text, children, id⟩ := by
  have hdraft : memberDraft? {} (("tag", .str tag) ::
      (if attrs.entries.isEmpty then [] else [("attrs", tableToJson .str attrs)]) ++
      presentMember "text" text ++
      (if children.isEmpty then [] else [("children", .arr (nodesToJson children))]) ++
      presentMember "id" id) =
      some ⟨tag, if attrs.entries.isEmpty then none else some attrs, text.map some,
        if children.isEmpty then none else some children, id.map some⟩ := by
    simp only [List.append_assoc, List.cons_append]
    rw [memberDraft?_tag rfl, memberDraft?_attrs rfl, memberDraft?_text rfl,
      memberDraft?_children rfl hchildren, memberDraft?_id rfl]
  rw [nodeToJson, node?, hdraft]
  simp only [Option.bind_some, NodeDraft.node?, Option.map_some, getD_attrs, getD_children,
    getD_map_some]

mutual

/-- **A node of any depth is read back.** -/
theorem node?_nodeToJson : ∀ n : Node, node? (nodeToJson n) = some n
  | ⟨tag, attrs, text, children, id⟩ =>
      node?_of_children (nodeList?_nodesToJson children) tag attrs text id

/-- Nodes are read back one by one. -/
theorem nodeList?_nodesToJson : ∀ ns : List Node, nodeList? (nodesToJson ns) = some ns
  | [] => rfl
  | n :: ns => by
      rw [nodesToJson, nodeList?, node?_nodeToJson n, nodeList?_nodesToJson ns]

end

/-- A tree is read back. -/
theorem tree?_treeToJson (tree : List Node) : tree? (treeToJson tree) = some tree := by
  rw [treeToJson, tree?, nodes?, nodeList?_nodesToJson]

/-! ## Panes -/

/-- The style texts at the three widths are read back. -/
theorem snapshots?_snapshotsToJson (s : Style.Snapshots) :
    snapshots? (snapshotsToJson s) = some s := by
  simp [snapshots?, snapshotsToJson, Record.read?, Record.readObject?, Record.unrepeated,
    Record.required?, Table.lookup_cons_ite]

/-- **A pane is read back**: its texts, its tree and its table. -/
theorem payload?_payloadToJson (p : Payload) : payload? (payloadToJson p) = some p := by
  simp [payload?, payloadToJson, Record.read?, Record.readObject?, Record.unrepeated,
    Record.required?, Table.lookup_cons_ite, snapshots?_snapshotsToJson, tree?_treeToJson,
    table?_tableToJson asset?_assetToJson]

/-- A value that is read, written and read once more comes to what it was read as. -/
theorem reread_eq {α : Type} {encode : α → Json} {decode? : Json → Option α}
    (h : ∀ x, decode? (encode x) = some x) (j : Json) :
    ((decode? j).map encode).bind decode? = decode? j := by
  cases decode? j with
  | none => rfl
  | some x => exact h x

/-- **Panes and updates lose nothing on their way.**  Whatever is written is read back, a pane of
any depth with all its assets and an update of any kind.  And whatever value is read at all, in
either of the forms of a record, with fields left out or null, comes to the same when it is written
and read again. -/
theorem wire_formats_lose_nothing :
    (∀ p : Payload, payload? (payloadToJson p) = some p) ∧
    (∀ u : AssetUpdate, update? (updateToJson u) = some u) ∧
    (∀ j : Json, ((payload? j).map payloadToJson).bind payload? = payload? j) ∧
    (∀ j : Json, ((update? j).map updateToJson).bind update? = update? j) :=
  ⟨payload?_payloadToJson, update?_updateToJson, reread_eq payload?_payloadToJson,
    reread_eq update?_updateToJson⟩

end Pane.Wire
