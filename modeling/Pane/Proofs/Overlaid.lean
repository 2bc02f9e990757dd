import Pane.Proofs.Targeted

/-!
# The overlay has the last word

Whatever is recorded of the target when the changed pane is compiled, the update is laid over it in
the end.  What it is laid over, and what becomes of it, is told here by the single fields, each of
which is one question to an asset and to an update, so that no kind of asset has to be compared with
each kind of update.

**Fields.**  `Hints.get?`, `AssetContent.field?` — what an asset tells, hint by hint and field by
field; `HintsUpdate.changeOf`, `ContentUpdate.field?` — what an update says of it.
`AssetContent.ext_field?`: an asset is all that it tells.

**The overlay.**  `Overlaid` — an entry with an update laid over it.  **`overlaid_onAsset`**: that
is what the overlay makes of an entry.  **`Overlaid.unique`**: it is nothing else, and so a second
overlay changes nothing (`Overlaid.onAsset_eq`).

**The patch.**  `LaidOver` — the entry that the update of a patch is laid over.  **`overlay_wins`**:
the entry of the target after every patch.
-/

namespace Pane

/-! ## Fields -/

/-- The hints by name. -/
inductive HintName where
  | fileId
  | collection
  | imageKey
  deriving DecidableEq, Repr

/-- A hint by its name. -/
def Hints.get? (h : Hints) : HintName → Option String
  | .fileId => h.fileId
  | .collection => h.collection
  | .imageKey => h.imageKey

/-- What an update does with a hint. -/
def HintsUpdate.changeOf (u : HintsUpdate) : HintName → HintChange
  | .fileId => u.fileId
  | .collection => u.collection
  | .imageKey => u.imageKey

/-- What there is to tell of assets besides their kinds, their tags and their hints. -/
inductive ContentField where
  | src
  | srcSet
  | alt
  | href
  | callback
  | isExternal
  | video
  | url
  deriving DecidableEq, Repr

/-- The value of a field: a text, or a yes or no. -/
inductive FieldValue where
  | text (value : String)
  | flag (value : Bool)
  deriving DecidableEq, Repr

/-- Whether an empty text is a value of its own in a field, and not the absence of one. -/
def ContentField.keepsEmpty (f : ContentField) : Bool := f = .alt || f = .url

/-- What pressing an element does, by fields. -/
def ButtonAction.field? (a : ButtonAction) : ContentField → Option FieldValue
  | .callback => a.callback.map .text
  | .isExternal => some (.flag a.isExternal)
  | .video => a.video.map .text
  | _ => none

/-- What an asset tells of a field; one that its kind has not is absent. -/
def AssetContent.field? : AssetContent → ContentField → Option FieldValue
  | .image src _ _, .src => src.map .text
  | .image _ srcSet _, .srcSet => srcSet.map .text
  | .image _ _ alt, .alt => alt.map .text
  | .link href _, .href => href.map .text
  | .link _ action, f => action.field? f
  | .button action, f => action.field? f
  | .background url, .url => some (.text url)
  | _, _ => none

/-- What an update of pressing says of a field. -/
def ActionUpdate.field? (u : ActionUpdate) : ContentField → Option FieldValue
  | .callback => u.callback.map .text
  | .isExternal => u.isExternal.map .flag
  | .video => u.video.map .text
  | _ => none

/-- The value that an update has for a field; one that it leaves alone is absent. -/
def ContentUpdate.field? : ContentUpdate → ContentField → Option FieldValue
  | .image src _ _, .src => src.map .text
  | .image _ srcSet _, .srcSet => srcSet.map .text
  | .image _ _ alt, .alt => alt.map .text
  | .link href _, .href => href.map .text
  | .link _ action, f => action.field? f
  | .button action, f => action.field? f
  | .background url, .url => some (.text url)
  | _, _ => none

theorem map_text_inj {a b : Option String} (h : a.map FieldValue.text = b.map FieldValue.text) :
    a = b := Option.map_injective (fun _ _ h => FieldValue.text.inj h) h

/-- Hints are told by their names. -/
theorem Hints.ext_get? {h h' : Hints} (hget : ∀ name, h.get? name = h'.get? name) : h = h' := by
  have hfile := hget .fileId
  have hcollection := hget .collection
  have hkey := hget .imageKey
  cases h
  cases h'
  simp_all [Hints.get?]

/-- What pressing does is told by its fields. -/
theorem ButtonAction.ext_field? {a a' : ButtonAction} (h : ∀ f, a.field? f = a'.field? f) :
    a = a' := by
  have hcallback := map_text_inj (h .callback)
  have hexternal := FieldValue.flag.inj (Option.some.inj (h .isExternal))
  have hvideo := map_text_inj (h .video)
  cases a
  cases a'
  simp_all

/-- **An asset is all that it tells** by its kind and its fields. -/
theorem AssetContent.ext_field? {c c' : AssetContent} (hkind : c.kind = c'.kind)
    (h : ∀ f, c.field? f = c'.field? f) : c = c' := by
  cases c with
  | image src srcSet alt =>
    cases c' with
    | image src' srcSet' alt' =>
      rw [map_text_inj (h .src), map_text_inj (h .srcSet), map_text_inj (h .alt)]
    | _ => cases hkind
  | link href action =>
    cases c' with
    | link href' action' =>
      have haction : action = action' := ButtonAction.ext_field? fun f => by
        cases f with
        | callback => exact h .callback
        | isExternal => exact h .isExternal
        | video => exact h .video
        | _ => rfl
      rw [map_text_inj (h .href), haction]
    | _ => cases hkind
  | button action =>
    cases c' with
    | button action' =>
      have haction : action = action' := ButtonAction.ext_field? h
      rw [haction]
    | _ => cases hkind
  | background url =>
    cases c' with
    | background url' => rw [FieldValue.text.inj (Option.some.inj (h .url))]
    | _ => cases hkind

/-! ## The overlay -/

/-- The value of a field with that of an update laid over it.  A text that is empty takes the value
away, unless the field keeps it. -/
def ContentField.overlay (f : ContentField) (change current : Option FieldValue) :
    Option FieldValue :=
  match change with
  | none => current
  | some v => if v = .text "" ∧ f.keepsEmpty = false then none else some v

/-- To lay over twice is to lay over once. -/
theorem ContentField.overlay_overlay (f : ContentField) (change current : Option FieldValue) :
    f.overlay change (f.overlay change current) = f.overlay change current := by
  cases change <;> rfl

/-- An entry is another one with an update laid over it.  Its hints are changed in any case, and its
fields if it is of the update's kind. -/
structure Overlaid (u : AssetUpdate) (base entry : Asset) : Prop where
  tagName : entry.tagName = base.tagName
  kind : entry.kind = base.kind
  hintSet : ∀ name v, u.hints.changeOf name = .set v → entry.hints.get? name = some v
  hintCleared : ∀ name, u.hints.changeOf name = .clear → entry.hints.get? name = none
  hintKept : ∀ name, u.hints.changeOf name = .keep → entry.hints.get? name = base.hints.get? name
  fields : base.kind = u.kind →
    ∀ f, entry.content.field? f = f.overlay (u.content.field? f) (base.content.field? f)
  others : base.kind ≠ u.kind → entry.content = base.content

section overlay

variable {u : AssetUpdate} {a base entry : Asset}

/-- A text that takes its field away if it is empty, laid over as it is changed. -/
theorem overlay_text {f : ContentField} (hf : f.keepsEmpty = false)
    (change current : Option String) :
    f.overlay (change.map .text) (current.map .text) =
      (changeField change current).map FieldValue.text := by
  cases change with
  | none => rfl
  | some v =>
    by_cases hv : v = ""
    · simp [ContentField.overlay, changeField, hv, hf]
    · simp [ContentField.overlay, changeField, hv]

/-- Each field of what pressing does is laid over. -/
theorem field?_onAction (u : ActionUpdate) (a : ButtonAction) (f : ContentField) :
    (u.onAction a).field? f = f.overlay (u.field? f) (a.field? f) := by
  cases f with
  | callback => exact (overlay_text rfl u.callback a.callback).symm
  | isExternal =>
    obtain ⟨callback, isExternal, video⟩ := u
    cases isExternal <;> rfl
  | video => exact (overlay_text rfl u.video a.video).symm
  | _ => rfl

/-- No update changes the kind. -/
theorem kind_onContent (u : ContentUpdate) (c : AssetContent) : (u.onContent c).kind = c.kind := by
  cases u <;> cases c <;> rfl

/-- An update for another kind changes no content. -/
theorem onContent_of_kind_ne {u : ContentUpdate} {c : AssetContent} (h : c.kind ≠ u.kind) :
    u.onContent c = c := by
  cases u <;> cases c <;> first | rfl | exact absurd rfl h

/-- Each hint is changed as the update says. -/
theorem get?_onHints (u : HintsUpdate) (h : Hints) (name : HintName) :
    (u.onHints h).get? name = (u.changeOf name).onValue (h.get? name) := by
  cases name <;> rfl

/-- **The fields of an entry of the update's kind.** -/
theorem field?_onContent {u : ContentUpdate} {c : AssetContent} (h : c.kind = u.kind)
    (f : ContentField) : (u.onContent c).field? f = f.overlay (u.field? f) (c.field? f) := by
  cases u with
  | image src srcSet alt =>
    cases c with
    | image src' srcSet' alt' =>
      cases f with
      | src => exact (overlay_text rfl src src').symm
      | srcSet => exact (overlay_text rfl srcSet srcSet').symm
      | alt => cases alt <;> simp [ContentUpdate.onContent, AssetContent.field?,
          ContentUpdate.field?, ContentField.overlay, ContentField.keepsEmpty]
      | _ => rfl
    | _ => cases h
  | link href action =>
    cases c with
    | link href' action' =>
      cases f with
      | href => exact (overlay_text rfl href href').symm
      | callback => exact field?_onAction action action' .callback
      | isExternal => exact field?_onAction action action' .isExternal
      | video => exact field?_onAction action action' .video
      | _ => rfl
    | _ => cases h
  | button action =>
    cases c with
    | button action' => exact field?_onAction action action' f
    | _ => cases h
  | background url =>
    cases c with
    | background url' =>
      cases f <;> simp [ContentUpdate.onContent, AssetContent.field?, ContentUpdate.field?,
        ContentField.overlay, ContentField.keepsEmpty]
    | _ => cases h

/-- **The overlay** of an update lays it over an entry. -/
theorem overlaid_onAsset (u : AssetUpdate) (a : Asset) : Overlaid u a (u.onAsset a) where
  tagName := rfl
  kind := kind_onContent u.content a.content
  hintSet name v h := (get?_onHints u.hints a.hints name).trans (by rw [h]; rfl)
  hintCleared name h := (get?_onHints u.hints a.hints name).trans (by rw [h]; rfl)
  hintKept name h := (get?_onHints u.hints a.hints name).trans (by rw [h]; rfl)
  fields h f := field?_onContent h f
  others h := onContent_of_kind_ne h

/-- **An update is laid over an entry in one way.** -/
theorem Overlaid.unique {entry' : Asset} (h : Overlaid u base entry) (h' : Overlaid u base entry') :
    entry = entry' := by
  have hcontent : entry.content = entry'.content := by
    by_cases hkind : base.kind = u.kind
    · exact AssetContent.ext_field? (h.kind.trans h'.kind.symm) fun f => by
        rw [h.fields hkind, h'.fields hkind]
    · rw [h.others hkind, h'.others hkind]
  have hhints : entry.hints = entry'.hints := Hints.ext_get? fun name => by
    cases hchange : u.hints.changeOf name with
    | keep => rw [h.hintKept name hchange, h'.hintKept name hchange]
    | set v => rw [h.hintSet name v hchange, h'.hintSet name v hchange]
    | clear => rw [h.hintCleared name hchange, h'.hintCleared name hchange]
  have htag := h.tagName.trans h'.tagName.symm
  cases entry
  cases entry'
  simp_all

/-- An update that is laid over an entry is so again. -/
theorem Overlaid.again (h : Overlaid u base entry) : Overlaid u entry entry where
  tagName := rfl
  kind := rfl
  hintSet := h.hintSet
  hintCleared := h.hintCleared
  hintKept _ _ := rfl
  fields hkind f := by
    rw [h.fields (h.kind.symm.trans hkind), ContentField.overlay_overlay]
  others _ := rfl

/-- To lay an update over what it was laid over changes nothing. -/
theorem Overlaid.onAsset_eq (h : Overlaid u base entry) : u.onAsset entry = entry :=
  (overlaid_onAsset u entry).unique h.again

end overlay

/-! ## The patch -/

/-- The entry that the update of a patch is laid over: the one that was derived for the target when
the changed pane was compiled; else the one that the target had, if it is of the update's kind; else
one of this kind that tells nothing, but for the address that an update of a background always has.
Its tag is that of the target's node then, or the usual tag of the kind if there is no such node. -/
inductive LaidOver (u : AssetUpdate) (derived previous : Option Asset) (tag : Option String) :
    Asset → Prop where
  | derived {a : Asset} (h : derived = some a) : LaidOver u derived previous tag a
  | previous {a : Asset} (hnone : derived = none) (h : previous = some a)
      (hkind : a.kind = u.kind) :
      LaidOver u derived previous tag a
  | blank {a : Asset} (hnone : derived = none) (hother : ∀ b, previous = some b → b.kind ≠ u.kind)
      (hkind : a.kind = u.kind) (htag : a.tagName = tag.getD u.kind.usualTag)
      (hhints : a.hints = {})
      (hfields : ∀ f v, a.content.field? f = some v →
        v = .flag false ∨ f = .url ∧ u.content.field? .url = some v) :
      LaidOver u derived previous tag a

/-- What a blank asset tells. -/
theorem field?_blank {u : ContentUpdate} {f : ContentField} {v : FieldValue}
    (h : u.blank.field? f = some v) : v = .flag false ∨ f = .url ∧ u.field? .url = some v := by
  have haction : ∀ f, ({} : ButtonAction).field? f = some v → v = .flag false := by
    intro f hf
    cases f with
    | isExternal => exact (Option.some.inj hf).symm
    | _ => cases hf
  cases u with
  | image src srcSet alt => cases f <;> cases h
  | link href action =>
    cases f with
    | callback => exact .inl (haction .callback h)
    | isExternal => exact .inl (haction .isExternal h)
    | video => exact .inl (haction .video h)
    | _ => cases h
  | button action => exact .inl (haction f h)
  | background url =>
    cases f with
    | url => exact .inr ⟨rfl, h⟩
    | _ => cases h

/-- The entry that the overlay takes is the one that it should. -/
theorem laidOver_base (u : AssetUpdate) (derived previous : Option Asset) (tag : Option String) :
    LaidOver u derived previous tag (derived.getD (u.base previous tag)) := by
  cases derived with
  | some a => exact .derived rfl
  | none =>
    rw [Option.getD_none, AssetUpdate.base]
    split
    · next a hprevious =>
      obtain ⟨hprevious, hkind⟩ := Option.filter_eq_some_iff.1 hprevious
      exact .previous rfl hprevious (of_decide_eq_true hkind)
    · next hprevious =>
      have hkind : u.content.blank.kind = u.content.kind := by cases u.content <;> rfl
      refine .blank rfl (fun b hb hsame => ?_) hkind rfl rfl fun f v hv => field?_blank hv
      exact absurd (Option.filter_eq_none_iff.1 hprevious b hb) (by simp [hsame])

/-- The tag of a target is that of the first node that has its identity. -/
theorem tag_patchTree (tree : List Node) (target : String) (known : Option AssetKind)
    (u : AssetUpdate) : (patchTree tree target known u).2.map Node.tag =
      (nodeOf? (preorderAll tree) target).map Node.tag := by
  rw [patchTree, FlatTree.find?_ofTree, nodeOf?, List.find?_eq_bind_findIdx?_getElem?]
  cases (preorderAll tree).findIdx? fun n => n.id = some target with
  | none => rfl
  | some i =>
    simp only [FlatTree.get?_ofTree, Option.bind_some, Option.map_map]
    rfl

/-- **What an update does to a table.**  It puts one entry into it, the update laid over another
one. -/
theorem onTable_eq (u : AssetUpdate) (target : String) (previous : Option Asset)
    (tag : Option String) (assets : Table Asset) :
    ∃ base entry, LaidOver u (assets.get? target) previous tag base ∧ Overlaid u base entry ∧
      u.onTable target previous tag assets = assets.insert target entry :=
  ⟨_, _, laidOver_base .., overlaid_onAsset u _, rfl⟩

/-- A table with an update in it is not changed by this update. -/
theorem onTable_eq_self {u : AssetUpdate} {target : String} {assets : Table Asset}
    {base entry : Asset}
    (h : Overlaid u base entry) (hget : assets.get? target = some entry) (previous : Option Asset)
    (tag : Option String) : u.onTable target previous tag assets = assets := by
  rw [AssetUpdate.onTable, hget, Option.getD_some, h.onAsset_eq]
  refine Table.ext_get? fun k => ?_
  rw [Table.get?_insert]
  split
  · next hk => rw [hk, hget]
  · rfl

/-- **The overlay wins.**  Take any patch that succeeds.  The pane that it leads to is what the
changed pane is compiled to, with one entry put into its table, that of the target.  This entry is
the update laid over an entry of the target: whatever compiling derived for it, else what it had if
that was of the update's kind, else a blank entry.  To carry the same update out on the table again,
given whatever entry and whatever tag, changes nothing. -/
theorem overlay_wins {c : Compiler} {fresh : Nat → String} {p p' : Payload} {target : String}
    {u : AssetUpdate} (hpatch : patch c fresh p target u = .ok p') :
    ∃ pane base entry,
      c.compile fresh (serialize (patchedTree p target u)) (patchedText p target u) = .ok pane ∧
      LaidOver u (pane.assets.get? target) (p.assets.get? target)
        ((nodeOf? (preorderAll p.tree) target).map Node.tag) base ∧
      Overlaid u base entry ∧ p'.assets.get? target = some entry ∧
      p' = { pane with assets := pane.assets.insert target entry } ∧
      ∀ previous tag, u.onTable target previous tag p'.assets = p'.assets := by
  rw [patch_eq, tag_patchTree] at hpatch
  cases hpane : c.compile fresh (serialize (patchedTree p target u)) (patchedText p target u) with
  | error e =>
    rw [hpane] at hpatch
    cases hpatch
  | ok pane =>
    rw [hpane] at hpatch
    obtain rfl : _ = p' := Except.ok.inj hpatch
    obtain ⟨base, entry, hbase, hover, htable⟩ := onTable_eq u target (p.assets.get? target)
      ((nodeOf? (preorderAll p.tree) target).map Node.tag) pane.assets
    have hget : (pane.assets.insert target entry).get? target = some entry := by
      rw [Table.get?_insert, if_pos rfl]
    simp only [htable]
    exact ⟨pane, base, entry, rfl, hbase, hover, hget, rfl, onTable_eq_self hover hget⟩

/-- A picture that is not on record yet loses its source, gets an empty alternative text and a
hint. -/
theorem picture_is_overlaid :
    let p : Payload := ⟨"", ⟨"", "", ""⟩,
      [⟨"img", Table.ofList [("src", "/a"), ("alt", "b")], none, [], some "x"⟩], Table.empty⟩
    let u : AssetUpdate := ⟨.image (some "") none (some ""), { fileId := .set "f" }⟩
    ∃ p' entry, patch {} (fun k => String.ofList (List.replicate (k + 1) 'n')) p "x" u = .ok p' ∧
      p'.assets.get? "x" = some entry ∧ entry.content.field? .src = none ∧
      entry.content.field? .alt = some (.text "") ∧ entry.hints.get? .fileId = some "f" := by
  intro p u
  obtain ⟨p', hp', hkind⟩ := exists_ok_of_map
    (show (patch {} (fun k => String.ofList (List.replicate (k + 1) 'n')) p "x" u).toOption.map
        (fun p' => (p'.assets.get? "x").map Asset.kind) = some (some .image) by decide +kernel)
  obtain ⟨pane, base, entry, -, -, hover, hget, -⟩ := overlay_wins hp'
  have hfits : base.kind = u.kind := by
    rw [hget] at hkind
    exact hover.kind.symm.trans (Option.some.inj hkind)
  exact ⟨p', entry, hp', hget, hover.fields hfits .src, hover.fields hfits .alt,
    hover.hintSet .fileId "f" rfl⟩

end Pane
