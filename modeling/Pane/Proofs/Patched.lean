import Pane.Proofs.RoundTrip
import Pane.Proofs.Tree.Updated

/-!
# What a patch does to the other assets

A patch overlays the entry of its target, and of every other asset it keeps nothing: the table is
derived again from the tree and the style text.  So an entry stays only if the pane tells it by
itself.

Pictures, links and buttons are told by the attributes of their element, which a patch of another
asset does not touch, so their entries stay through any number of patches.  A background is told by
the rules of the classes, and a rule may be shared: `other_entries_do_not_stay`.  What was recorded
for a target that is not in the tree is told by nothing.

* `Reachable` — the panes that compiling and patching lead to.
* `Payload.assetIn?` — what a pane tells of an identity by itself, given the styles.
* **`own_entry_of_spared`** — pictures, links and buttons through any number of patches.
* **`patch_derives_other_entries_again`** — the entries besides the target's.
-/

namespace Pane

open Markup
open Style (Registry)

/-! ## Panes that are reached -/

/-- The panes that compiling leads to and then patches, each time with a supply of identities
without space at their ends. -/
inductive Reachable : Payload → Prop
  | compiled {c : Compiler} {fresh : Nat → String} {markup authored : String} {p : Payload}
      (hfresh : ∀ k, Text.trimmed? (fresh k) = some (fresh k))
      (h : c.compile fresh markup authored = .ok p) : Reachable p
  | patched {c : Compiler} {fresh : Nat → String} {p p' : Payload} {target : String}
      {u : AssetUpdate} (hp : Reachable p) (hfresh : ∀ k, Text.trimmed? (fresh k) = some (fresh k))
      (h : patch c fresh p target u = .ok p') : Reachable p'

/-- The styles over which markup is built. -/
def Compiler.styling (c : Compiler) (authored markup : String) : Styling :=
  .registry (populate c.options (c.expansion.getD "") authored (splitStyles c.options markup).2)

section compile

variable {c : Compiler} {fresh : Nat → String} {markup authored : String} {pane : Payload}

/-- What compiling leads to: the tree and the assets that the walk makes of what is read. -/
theorem of_compile (h : c.compile fresh markup authored = .ok pane) :
    ∃ forest, readFragment (splitStyles c.options markup).1 = .ok forest ∧
      pane.tree = (buildTree ⟨fresh, false⟩ (c.styling authored markup) forest).1 ∧
      pane.assets = (buildTree ⟨fresh, false⟩ (c.styling authored markup) forest).2.assets := by
  obtain ⟨forest, _, hread, rfl, -, rfl⟩ := compile_eq_ok_iff.1 h
  exact ⟨forest, hread, payloadOf_tree .., payloadOf_assets ..⟩

/-- A compiled tree can be found again where it is written, and its identities differ. -/
theorem faithful_of_compile (hfresh : ∀ k, Text.trimmed? (fresh k) = some (fresh k))
    (h : c.compile fresh markup authored = .ok pane) :
    (∀ n ∈ preorderAll pane.tree, n.Faithful) ∧ (identities pane.tree).Nodup := by
  obtain ⟨-, hcheck⟩ := built_of_compile h
  obtain ⟨forest, -, htree, -⟩ := of_compile h
  have hsound : (c.styling authored markup).Sound :=
    (reaches_ingestAll _ _).sound (Registry.sound_empty _)
  refine ⟨?_, ((checkTree_eq_ok_iff pane.tree).1 hcheck).2.1⟩
  rw [htree]
  exact faithful_buildTree (p := ⟨fresh, false⟩) hfresh hsound forest

end compile

/-! ## Patches -/

section patch

variable {c : Compiler} {fresh : Nat → String} {p p' : Payload} {target : String} {u : AssetUpdate}

/-- The tree that a patch writes. -/
def patchedTree (p : Payload) (target : String) (u : AssetUpdate) : List Node :=
  (patchTree p.tree target ((p.assets.get? target).map Asset.kind) u).1

/-- The style text that is compiled with it. -/
def patchedText (p : Payload) (target : String) (u : AssetUpdate) : String :=
  patchStyle p.styleText (patchTree p.tree target ((p.assets.get? target).map Asset.kind) u).2
    ((p.assets.get? target).map Asset.kind) u

/-- What a patch leads to: a compiled pane, in which the entry of the target alone is overlaid. -/
theorem of_patch (h : patch c fresh p target u = .ok p') :
    ∃ pane, c.compile fresh (serialize (patchedTree p target u)) (patchedText p target u) =
        .ok pane ∧
      p'.tree = pane.tree ∧ ∀ id, id ≠ target → p'.assets.get? id = pane.assets.get? id := by
  simp only [patch, bind, bind_eq_ok_iff] at h
  obtain ⟨pane, hpane, hp'⟩ := h
  obtain rfl : _ = p' := Except.ok.inj hp'
  refine ⟨pane, hpane, rfl, fun id hid => ?_⟩
  rw [AssetUpdate.onTable, Table.get?_insert, if_neg hid]

/-- The tree of every pane that is reached can be found again where it is written. -/
theorem Reachable.faithful (hp : Reachable p) :
    (∀ n ∈ preorderAll p.tree, n.Faithful) ∧ (identities p.tree).Nodup := by
  cases hp with
  | compiled hfresh h => exact faithful_of_compile hfresh h
  | patched _ hfresh h =>
    obtain ⟨pane, hpane, htree, -⟩ := of_patch h
    rw [htree]
    exact faithful_of_compile hfresh hpane

/-- What a pane tells of an identity by itself: the asset that its node is told to be, if styles are
resolved in some way. -/
def Payload.assetIn? (p : Payload) (styling : Styling) (id : String) : Option Asset :=
  (nodeOf? (preorderAll p.tree) id).bind (Node.assetIn? styling)

/-- What is told of a node is told without its children. -/
theorem bind_assetIn?_withoutChildren (styling : Styling) (o : Option Node) :
    (o.map Node.withoutChildren).bind (Node.assetIn? styling) = o.bind (Node.assetIn? styling) := by
  cases o <;> rfl

/-- What is told of another identity than the target's is told of the changed tree. -/
theorem assetIn?_patchedTree (styling : Styling) {id : String} (hid : id ≠ target) :
    (nodeOf? (preorderAll (patchedTree p target u)) id).bind (Node.assetIn? styling) =
      p.assetIn? styling id := by
  rw [Payload.assetIn?, ← bind_assetIn?_withoutChildren, patchedTree, nodeOf?_patchTree hid,
    bind_assetIn?_withoutChildren]

/-- **What compiling the changed tree records** is what its nodes are told to be, given the style
text that the patch leads to. -/
theorem get?_assets_of_recompiled (hp : Reachable p) {pane : Payload}
    (hpane : c.compile fresh (serialize (patchedTree p target u)) (patchedText p target u) =
      .ok pane)
    (hread : readFragment (splitStyles c.options (serialize (patchedTree p target u))).1 =
      .ok (forestDoms (patchedTree p target u)))
    (hinj : ∀ j k, fresh j = fresh k → j = k) (hapart : ∀ k, fresh k ∉ identities p.tree)
    {id : String} (hminted : ∀ k, fresh k ≠ id) :
    pane.assets.get? id = (nodeOf? (preorderAll (patchedTree p target u)) id).bind
      (Node.assetIn?
        (c.styling (patchedText p target u) (serialize (patchedTree p target u)))) := by
  obtain ⟨hfaithful, hnodup⟩ := hp.faithful
  have hids : identities (patchedTree p target u) = identities p.tree := identities_patchTree
  rw [← hids] at hapart hnodup
  exact get?_assets_of_compile (faithful_patchTree hfaithful) hnodup hinj hapart hminted hread hpane

/-- **What a patch records of another asset** is what the pane told of it, given the style text that
the patch leads to. -/
theorem get?_assets_of_patch (hp : Reachable p) (hpatch : patch c fresh p target u = .ok p')
    (hread : readFragment (splitStyles c.options (serialize (patchedTree p target u))).1 =
      .ok (forestDoms (patchedTree p target u)))
    (hinj : ∀ j k, fresh j = fresh k → j = k) (hapart : ∀ k, fresh k ∉ identities p.tree)
    {id : String} (hid : id ≠ target) (hminted : ∀ k, fresh k ≠ id) :
    p'.assets.get? id =
      p.assetIn? (c.styling (patchedText p target u) (serialize (patchedTree p target u))) id := by
  obtain ⟨pane, hpane, -, hassets⟩ := of_patch hpatch
  rw [hassets id hid, get?_assets_of_recompiled hp hpane hread hinj hapart hminted,
    assetIn?_patchedTree _ hid]

/-! ## Pictures, links and buttons -/

/-- What a node tells without a registry it tells by its tag and its attributes. -/
theorem of_assetIn?_verbatim {n : Node} (hn : n.Faithful) {a : Asset}
    (h : n.assetIn? .verbatim = some a) : n.text = none ∧ n.tag ∈ ["img", "a", "button"] ∧
      Asset.extract? n.tag (writtenAttributes n.attrs n.id) [] (fun _ => none) = some a := by
  cases htext : n.text with
  | some content =>
    rw [Node.assetIn?, htext] at h
    cases h
  | none =>
    rw [Node.assetIn?, htext] at h
    dsimp only at h
    rw [assetOf?_verbatim rfl] at h
    refine ⟨rfl, Classical.byContradiction fun hnot => ?_, h⟩
    rw [extract?_eq_none hnot (attributeOf?_style_writtenAttributes n.id hn.attrs)] at h
    cases h

/-- What a node tells without a registry it tells with any, and it is no background. -/
theorem assetIn?_of_verbatim {n : Node} (hn : n.Faithful) {a : Asset}
    (h : n.assetIn? .verbatim = some a) :
    a.isBackground = false ∧ ∀ styling, n.assetIn? styling = some a := by
  obtain ⟨htext, htag, hasset⟩ := of_assetIn?_verbatim hn h
  have ha := Asset.isBackground_of_extract? htag hasset
  refine ⟨ha, fun styling => ?_⟩
  rw [Node.assetIn?, htext]
  exact extract?_congr hasset ha (fun _ _ _ => rfl) _ _

/-- No element of the forest that a tree is written as has an attribute twice. -/
theorem nodup_keptElements_forestDoms : ∀ (ns : List Node), (∀ n ∈ preorderAll ns, n.Faithful) →
    ∀ e ∈ keptElements (forestDoms ns), (e.attrs.map (·.1)).Nodup
  | [], _, e, he => by simp [forestDoms, keptElements] at he
  | ⟨tag, attrs, text, children, id⟩ :: ns, h, e, he => by
      rw [preorderAll_cons, List.cons_append] at h
      obtain ⟨hn, hbelow⟩ := List.forall_mem_cons.1 h
      have hns := nodup_keptElements_forestDoms ns fun n hn => hbelow n (List.mem_append_right _ hn)
      rw [forestDoms] at he
      cases text with
      | some content =>
        refine hns e ?_
        cases id <;>
          simpa [Node.doms, keptElements, Dom.keptElements] using he
      | none =>
        rw [Node.doms, List.singleton_append, keptElements, Dom.keptElements, List.mem_append] at he
        rcases he with he | he
        · split at he
          · exact absurd he List.not_mem_nil
          · rcases List.mem_cons.1 he with rfl | he
            · exact nodup_writtenAttributes id hn.attrs
            · exact nodup_keptElements_forestDoms children
                (fun n hn => hbelow n (List.mem_append_left _ hn)) e he
        · exact hns e he

/-- What compiling the changed tree records, backgrounds apart, is told by the tree that it leads
to. -/
theorem assetIn?_verbatim_of_recompiled (hp : Reachable p)
    (hfresh : ∀ k, Text.trimmed? (fresh k) = some (fresh k)) {pane : Payload}
    (hpane : c.compile fresh (serialize (patchedTree p target u)) (patchedText p target u) =
      .ok pane)
    (hread : readFragment (splitStyles c.options (serialize (patchedTree p target u))).1 =
      .ok (forestDoms (patchedTree p target u)))
    {id : String} {a : Asset} (ha : a.isBackground = false)
    (hget : pane.assets.get? id = some a) : pane.assetIn? .verbatim id = some a := by
  obtain ⟨hfaithful', hnodup'⟩ := faithful_of_compile hfresh hpane
  obtain ⟨hbuilt, -⟩ := built_of_compile hpane
  obtain ⟨forest, hforest, hpaneTree, hpaneAssets⟩ := of_compile hpane
  obtain rfl : forestDoms (patchedTree p target u) = forest :=
    Except.ok.inj (hread.symm.trans hforest)
  rw [hpaneAssets] at hget
  have hattrs := nodup_keptElements_forestDoms (patchedTree p target u)
    (faithful_patchTree hp.faithful.1)
  obtain ⟨n, hn, hnid, hasset⟩ := recorded_of_buildTree hattrs ha hget
  rw [← hpaneTree] at hn
  have htext : n.text = none := by
    cases htext : n.text with
    | none => rfl
    | some content =>
      have htag := tag_of_built_text hbuilt n hn (by rw [htext]; rfl)
      have hother : n.tag ∉ ["img", "a", "button"] := by
        rw [htag]
        decide
      rw [ownAsset?_eq_none hother (hfaithful' n hn).attrs] at hasset
      cases hasset
  rw [Payload.assetIn?, nodeOf?_of_mem hnodup' hn hnid, Option.bind_some, Node.assetIn?, htext]
  exact (assetOf?_verbatim rfl ..).trans hasset

/-- What a patch records, backgrounds and the target's entry apart, is told by the pane that it
leads to. -/
theorem assetIn?_verbatim_of_patch (hp : Reachable p)
    (hfresh : ∀ k, Text.trimmed? (fresh k) = some (fresh k))
    (hpatch : patch c fresh p target u = .ok p')
    (hread : readFragment (splitStyles c.options (serialize (patchedTree p target u))).1 =
      .ok (forestDoms (patchedTree p target u)))
    {id : String} (hid : id ≠ target) {a : Asset} (ha : a.isBackground = false)
    (hget : p'.assets.get? id = some a) : p'.assetIn? .verbatim id = some a := by
  obtain ⟨pane, hpane, htree, hassets⟩ := of_patch hpatch
  rw [hassets id hid] at hget
  rw [Payload.assetIn?, htree, ← Payload.assetIn?]
  exact assetIn?_verbatim_of_recompiled hp hfresh hpane hread ha hget

/-- **What a pane tells by itself stays.**  A picture, a link or a button that is recorded as its
attributes tell keeps its entry when another asset is patched, and is told so again. -/
theorem own_entry_of_patch (hp : Reachable p)
    (hfresh : ∀ k, Text.trimmed? (fresh k) = some (fresh k))
    (hinj : ∀ j k, fresh j = fresh k → j = k) (hapart : ∀ k, fresh k ∉ identities p.tree)
    (hpatch : patch c fresh p target u = .ok p')
    (hread : readFragment (splitStyles c.options (serialize (patchedTree p target u))).1 =
      .ok (forestDoms (patchedTree p target u)))
    {id : String} (hid : id ≠ target) (hminted : ∀ k, fresh k ≠ id) {a : Asset}
    (hown : p.assetIn? .verbatim id = some a) :
    p'.assets.get? id = some a ∧ p'.assetIn? .verbatim id = some a := by
  obtain ⟨n, hn, hasset⟩ := Option.bind_eq_some_iff.1 hown
  obtain ⟨hkind, hany⟩ :=
    assetIn?_of_verbatim (hp.faithful.1 n (List.mem_of_find?_eq_some hn)) hasset
  have hsame : p'.assets.get? id = some a := by
    rw [get?_assets_of_patch hp hpatch hread hinj hapart hid hminted, Payload.assetIn?, hn,
      Option.bind_some, hany]
  exact ⟨hsame, assetIn?_verbatim_of_patch hp hfresh hpatch hread hid hkind hsame⟩

end patch

/-! ## Several patches -/

/-- Patches one after the other, none of which has an identity for its target or mints it, and each
of which writes a tree that is read back as it was written. -/
inductive Spared (id : String) (p : Payload) : Payload → Prop
  | refl : Spared id p p
  | patched {c : Compiler} {fresh : Nat → String} {q q' : Payload} {target : String}
      {u : AssetUpdate} (before : Spared id p q)
      (hfresh : ∀ k, Text.trimmed? (fresh k) = some (fresh k))
      (hinj : ∀ j k, fresh j = fresh k → j = k) (hapart : ∀ k, fresh k ∉ identities q.tree)
      (hpatch : patch c fresh q target u = .ok q')
      (hread : readFragment (splitStyles c.options (serialize (patchedTree q target u))).1 =
        .ok (forestDoms (patchedTree q target u)))
      (hid : id ≠ target) (hminted : ∀ k, fresh k ≠ id) : Spared id p q'

/-- **Pictures, links and buttons stay through any number of patches** of other assets, if they are
recorded as their attributes tell.  By induction on the patches: each of them leaves the entry told
by the pane itself. -/
theorem own_entry_of_spared {id : String} {p q : Payload} (hp : Reachable p) (h : Spared id p q)
    {a : Asset} (hget : p.assets.get? id = some a) (hown : p.assetIn? .verbatim id = some a) :
    Reachable q ∧ q.assets.get? id = some a ∧ q.assetIn? .verbatim id = some a := by
  induction h with
  | refl => exact ⟨hp, hget, hown⟩
  | patched _ hfresh hinj hapart hpatch hread hid hminted ih =>
    obtain ⟨hq, -, hown⟩ := ih
    exact ⟨hq.patched hfresh hpatch,
      own_entry_of_patch hq hfresh hinj hapart hpatch hread hid hminted hown⟩

/-! ## Other entries -/

/-- **A patch derives the entries of the other assets again.**  Take a pane that compiling and
patches lead to, a patch of it whose tree is read back as it was written, and an identity that is
neither the target's nor one that is minted.

Its entry afterwards is what the pane tells of the identity by the attributes and the classes of the
node that has it, over the style text that the patch leads to; if no node has it, or it is told to
be no asset, there is none.  So a picture, a link or a button that was recorded as its attributes
tell keeps its entry, and is again recorded as its attributes tell.  And if the patch leaves the
style text as it is, every entry is kept that was as the pane tells. -/
theorem patch_derives_other_entries_again {c : Compiler} {fresh : Nat → String} {p p' : Payload}
    {target : String} {u : AssetUpdate} (hp : Reachable p)
    (hfresh : ∀ k, Text.trimmed? (fresh k) = some (fresh k))
    (hinj : ∀ j k, fresh j = fresh k → j = k) (hapart : ∀ k, fresh k ∉ identities p.tree)
    (hpatch : patch c fresh p target u = .ok p')
    (hread : readFragment (splitStyles c.options (serialize (patchedTree p target u))).1 =
      .ok (forestDoms (patchedTree p target u)))
    {id : String} (hid : id ≠ target) (hminted : ∀ k, fresh k ≠ id) :
    let markup := serialize (patchedTree p target u)
    p'.assets.get? id = p.assetIn? (c.styling (patchedText p target u) markup) id ∧
      (∀ a, p.assets.get? id = some a → p.assetIn? .verbatim id = some a →
        p'.assets.get? id = some a ∧ p'.assetIn? .verbatim id = some a) ∧
      (patchedText p target u = p.styleText →
        p.assets.get? id = p.assetIn? (c.styling p.styleText markup) id →
        p'.assets.get? id = p.assets.get? id) := by
  intro markup
  have hget := get?_assets_of_patch hp hpatch hread hinj hapart hid hminted
  refine ⟨hget, fun a _ hown => ?_, fun htext hsame => ?_⟩
  · exact own_entry_of_patch hp hfresh hinj hapart hpatch hread hid hminted hown
  · rw [hget, htext, hsame]

/-- A link keeps its entry when the picture next to it is patched. -/
theorem link_stays_when_picture_is_patched :
    ∃ p p', Compiler.compile {} (fun k => String.ofList (List.replicate (k + 1) 'n'))
        "<img data-node-id=x><a data-node-id=y href=/b></a>" "" = .ok p ∧
      patch {} (fun k => String.ofList (List.replicate (k + 1) 'n')) p "x"
        ⟨.image (some "/c.png") none none, {}⟩ = .ok p' ∧
      p.assets.get? "y" = some ⟨"a", .link (some "/b") {}, {}⟩ ∧
      p'.assets.get? "y" = p.assets.get? "y" := by
  let p : Payload := ⟨"", ⟨"", "", ""⟩,
    [⟨"img", Table.empty, none, [], some "x"⟩,
      ⟨"a", Table.ofList [("href", "/b")], none, [], some "y"⟩],
    Table.ofList [("x", ⟨"img", .image none none none, {}⟩),
      ("y", ⟨"a", .link (some "/b") {}, {}⟩)]⟩
  have hp : Compiler.compile {} (fun k => String.ofList (List.replicate (k + 1) 'n'))
      "<img data-node-id=x><a data-node-id=y href=/b></a>" "" = .ok p :=
    eq_ok_of_toOption (by decide +kernel)
  have hpatch : (patch {} (fun k => String.ofList (List.replicate (k + 1) 'n')) p "x"
      ⟨.image (some "/c.png") none none, {}⟩).toOption.isSome = true := by decide +kernel
  have hread : readFragment (splitStyles {} (serialize (patchedTree p "x"
      ⟨.image (some "/c.png") none none, {}⟩))).1 =
        .ok (forestDoms (patchedTree p "x" ⟨.image (some "/c.png") none none, {}⟩)) :=
    eq_ok_of_toOption (by decide +kernel)
  have hsupply : ∀ id ∈ ["x", "y"], ∀ k, String.ofList (List.replicate (k + 1) 'n') ≠ id := by
    intro id hid k he
    have hfirst : ∀ id ∈ ["x", "y"], id.toList.head? ≠ some 'n' := by decide
    exact hfirst id hid (he ▸ by simp [List.replicate_succ])
  obtain ⟨p', hp'⟩ := Option.isSome_iff_exists.1 hpatch
  have hp' := eq_ok_of_toOption hp'
  have hkept := patch_derives_other_entries_again (.compiled trimmed?_replicate hp)
    trimmed?_replicate (supply_replicate (List.forall_mem_nil _)).injective
    (fun k hk => hsupply _ hk k rfl) hp' hread (show "y" ≠ "x" by decide) (hsupply "y" (by decide))
  exact ⟨p, p', hp, hp', rfl, (hkept.2.1 _ rfl rfl).1⟩

/-- Entries that do not stay.  Two elements share a rule, and a patch of the one changes the
background of the other; and what was recorded for a target that is not in the tree is dropped by
the next patch. -/
theorem other_entries_do_not_stay :
    (∃ p p', Compiler.compile {} (fun k => String.ofList (List.replicate (k + 1) 'n'))
        "<div class=a data-node-id=x></div><div class=a data-node-id=y></div>"
        ".a\x7bbackground:url(/o)\x7d" = .ok p ∧
      patch {} (fun k => String.ofList (List.replicate (k + 1) 'n')) p "x"
        ⟨.background "/n", {}⟩ = .ok p' ∧
      p.assets.get? "y" = some ⟨"div", .background "/o", {}⟩ ∧
      p'.assets.get? "y" = some ⟨"div", .background "/n", {}⟩) ∧
    ∃ p p' p'', Compiler.compile {} (fun k => String.ofList (List.replicate (k + 1) 'n'))
        "" "" = .ok p ∧
      patch {} (fun k => String.ofList (List.replicate (k + 1) 'n')) p "y"
        ⟨.image none none none, {}⟩ = .ok p' ∧
      patch {} (fun k => String.ofList (List.replicate (k + 1) 'n')) p' "x"
        ⟨.image none none none, {}⟩ = .ok p'' ∧
      p'.assets.get? "y" = some ⟨"img", .image none none none, {}⟩ ∧
      p''.assets.get? "y" = none := by
  constructor
  · obtain ⟨p, hp, h⟩ := exists_ok_of_map
      (show (Compiler.compile {} (fun k => String.ofList (List.replicate (k + 1) 'n'))
          "<div class=a data-node-id=x></div><div class=a data-node-id=y></div>"
          ".a\x7bbackground:url(/o)\x7d").toOption.map (fun p => (p.assets.get? "y",
            (patch {} (fun k => String.ofList (List.replicate (k + 1) 'n')) p "x"
              ⟨.background "/n", {}⟩).toOption.map fun p' => p'.assets.get? "y")) =
        some (some ⟨"div", .background "/o", {}⟩, some (some ⟨"div", .background "/n", {}⟩)) by
      decide +kernel)
    obtain ⟨hbefore, hafter⟩ := Prod.mk.inj h
    obtain ⟨p', hp', hafter⟩ := exists_ok_of_map hafter
    exact ⟨p, p', hp, hp', hbefore, hafter⟩
  · obtain ⟨p, hp, h⟩ := exists_ok_of_map
      (show (Compiler.compile {} (fun k => String.ofList (List.replicate (k + 1) 'n'))
          "" "").toOption.map (fun p =>
            (patch {} (fun k => String.ofList (List.replicate (k + 1) 'n')) p "y"
              ⟨.image none none none, {}⟩).toOption.map fun p' => (p'.assets.get? "y",
                (patch {} (fun k => String.ofList (List.replicate (k + 1) 'n')) p' "x"
                  ⟨.image none none none, {}⟩).toOption.map fun p'' => p''.assets.get? "y")) =
        some (some (some ⟨"img", .image none none none, {}⟩, some none)) by decide +kernel)
    obtain ⟨p', hp', h⟩ := exists_ok_of_map h
    obtain ⟨hbefore, hafter⟩ := Prod.mk.inj h
    obtain ⟨p'', hp'', hafter⟩ := exists_ok_of_map hafter
    exact ⟨p, p', p'', hp, hp', hp'', hbefore, hafter⟩

end Pane
