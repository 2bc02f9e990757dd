import Pane.Proofs.Tree.Built
import Pane.Proofs.Tree.Owed

/-!
# The table of assets and the tree

The walk records the asset of an element under the identity that the element is given, and it does
so in the middle of the recursion, before it knows what is below the element and behind it.  No
entry is lost or left without its element nevertheless: identities are distinct, so nothing is
recorded twice under one of them, and a node that was made is never dropped.

* **`get?_assets_visitAll`** — what is found under the identity of a node is what the node was told
  to be.
* `AssetKind.ofTag`, `Asset.of_extract?` — what an asset says of its tag.
* **`assets_match_tree`** — the table and the tree match, for every forest.
-/

namespace Pane

/-! ## The table behind a pass -/

theorem get?_recordAsset (assets : Table Asset) (id : Option String) (asset : Option Asset)
    (key : String) :
    (recordAsset assets id asset).get? key =
      if id = some key then asset.or (assets.get? key) else assets.get? key := by
  cases id with
  | none => simp [recordAsset]
  | some i =>
    cases asset with
    | none => simp [recordAsset]
    | some a => simp [recordAsset, Table.get?_insert, eq_comm]

section pass

variable {p : Policy}

/-- Under a key that is not the identity of a node, what is found was found before. -/
theorem get?_assets_visitAll_of_notMem {key : String} :
    ∀ {ss : List Spot} {w : Walk}, key ∉ (visitAll p ss w).1.filterMap Node.id →
      (visitAll p ss w).2.assets.get? key = w.assets.get? key
  | [], _, _ => rfl
  | s :: ss, w, hkey => by
      have hspec := s.visit_spec p w
      rw [visitAll, List.filterMap_cons] at hkey
      have hne : (s.visit p w).1.id ≠ some key := by
        intro he
        rw [he] at hkey
        exact hkey (List.mem_cons_self ..)
      have hrest : key ∉ (visitAll p ss (s.visit p w).2).1.filterMap Node.id := by
        split at hkey
        · exact hkey
        · exact fun hmem => hkey (List.mem_cons_of_mem _ hmem)
      rw [visitAll, get?_assets_visitAll_of_notMem hrest, hspec.assets, get?_recordAsset,
        if_neg hne]

/-- **What is found under the identity of a node** is what the node was told to be, and if that is
no asset, what was found before. -/
theorem get?_assets_visitAll {key : String} {n : Node} {s : Spot} {asset : Option Asset} :
    ∀ {ss : List Spot} {w : Walk} {i : Nat}, ((visitAll p ss w).1.filterMap Node.id).Nodup →
      (visitAll p ss w).1[i]? = some n → (told w.styling ss)[i]? = some (s, asset) →
      n.id = some key → (visitAll p ss w).2.assets.get? key = asset.or (w.assets.get? key)
  | [], _, _, _, hn, _, _ => by simp [visitAll] at hn
  | s₀ :: ss, w, i, hnodup, hn, htold, hid => by
      have hspec := s₀.visit_spec p w
      rw [visitAll] at hn hnodup
      rw [told, ← hspec.styling] at htold
      rw [visitAll]
      cases i with
      | zero =>
        obtain rfl : (s₀.visit p w).1 = n := Option.some.inj hn
        obtain ⟨-, rfl⟩ := Prod.mk.inj (Option.some.inj htold)
        have hbehind : key ∉ (visitAll p ss (s₀.visit p w).2).1.filterMap Node.id := by
          rw [List.filterMap_cons, hid] at hnodup
          exact (List.nodup_cons.1 hnodup).1
        rw [get?_assets_visitAll_of_notMem hbehind, hspec.assets, get?_recordAsset, if_pos hid]
      | succ i =>
        rw [List.getElem?_cons_succ] at hn htold
        have hmem : key ∈ (visitAll p ss (s₀.visit p w).2).1.filterMap Node.id :=
          List.mem_filterMap.2 ⟨n, List.mem_of_getElem? hn, hid⟩
        have hrest : ((visitAll p ss (s₀.visit p w).2).1.filterMap Node.id).Nodup ∧
            (s₀.visit p w).1.id ≠ some key := by
          rw [List.filterMap_cons] at hnodup
          split at hnodup
          · next hnone => exact ⟨hnodup, by simp [hnone]⟩
          · next i' hi' =>
            obtain ⟨hnew, hnodup⟩ := List.nodup_cons.1 hnodup
            refine ⟨hnodup, fun he => hnew ?_⟩
            obtain rfl : i' = key := Option.some.inj (hi'.symm.trans he)
            exact hmem
        rw [get?_assets_visitAll hrest.1 hn htold hid, hspec.assets, get?_recordAsset,
          if_neg hrest.2]

/-- **What is found is what a node was told to be** that has the key for its identity, unless it was
found before. -/
theorem told_of_get?_assets {key : String} {a : Asset} :
    ∀ {ss : List Spot} {w : Walk}, (visitAll p ss w).2.assets.get? key = some a →
      w.assets.get? key = some a ∨
        ∃ (i : Nat) (n : Node) (s : Spot), (visitAll p ss w).1[i]? = some n ∧
          (told w.styling ss)[i]? = some (s, some a) ∧ n.id = some key
  | [], _, h => .inl h
  | s :: ss, w, h => by
      have hspec := s.visit_spec p w
      rw [visitAll] at h ⊢
      rw [told, ← hspec.styling]
      rcases told_of_get?_assets h with h | ⟨i, n, s', hn, htold, hid⟩
      · rw [hspec.assets, get?_recordAsset] at h
        split at h
        · next hid =>
          cases hasset : (s.tell w.styling).1 with
          | none =>
            rw [hasset] at h
            exact .inl h
          | some a' =>
            rw [hasset] at h
            obtain rfl : a' = a := Option.some.inj h
            exact .inr ⟨0, _, s, rfl, rfl, hid⟩
        · exact .inl h
      · exact .inr ⟨i + 1, n, s', hn, htold, hid⟩

end pass

/-! ## What an asset says of its tag -/

/-- The kind of asset that elements of a tag are, if they are one. -/
def AssetKind.ofTag (tag : String) : AssetKind :=
  if tag = "img" then .image
  else if tag = "a" then .link
  else if tag = "button" then .button
  else .background

/-- **An asset has the tag of its element, and its kind by the tag.** -/
theorem Asset.of_extract? {tag : String} {attrs : Attributes} {classes : List String}
    {backgroundFor? : String → Option String} {a : Asset}
    (h : Asset.extract? tag attrs classes backgroundFor? = some a) :
    a.tagName = tag ∧ a.kind = AssetKind.ofTag tag := by
  obtain ⟨content, hcontent, rfl⟩ := Option.map_eq_some_iff.1 h
  refine ⟨rfl, ?_⟩
  rw [AssetContent.extract?] at hcontent
  rw [AssetKind.ofTag]
  split at hcontent
  · next himg =>
    cases hcontent
    rw [if_pos himg]
    rfl
  · next himg =>
    rw [if_neg himg]
    split at hcontent
    · next hlink =>
      cases hcontent
      rw [if_pos hlink]
      rfl
    · next hlink =>
      rw [if_neg hlink]
      split at hcontent
      · next hbutton =>
        cases hcontent
        rw [if_pos hbutton]
        rfl
      · next hbutton =>
        obtain ⟨url, -, rfl⟩ := Option.map_eq_some_iff.1 hcontent
        rw [if_neg hbutton]
        rfl

theorem Asset.isBackground_of_extract? {tag : String} {attrs : Attributes} {classes : List String}
    {backgroundFor? : String → Option String} {a : Asset} (htag : tag ∈ ["img", "a", "button"])
    (h : Asset.extract? tag attrs classes backgroundFor? = some a) : a.isBackground = false := by
  have hkinds : ∀ tag ∈ ["img", "a", "button"], AssetKind.ofTag tag ≠ .background := by decide
  rw [Asset.isBackground, (Asset.of_extract? h).2]
  exact decide_eq_false (hkinds tag htag)

theorem Spot.of_tell {styling : Styling} {s : Spot} {a : Asset}
    (h : (s.tell styling).1 = some a) :
    s.text? = none ∧ a.tagName = s.tag ∧ a.kind = AssetKind.ofTag s.tag := by
  cases s with
  | element tag attrs => exact ⟨rfl, Asset.of_extract? h⟩
  | text around before content => cases h

/-- A picture, a link and a button are always told to be an asset. -/
theorem Spot.tell_isSome (styling : Styling) {s : Spot} (htext : s.text? = none)
    (htag : s.tag ∈ ["img", "a", "button"]) : (s.tell styling).1.isSome = true := by
  cases s with
  | element tag attrs => exact extract?_isSome_of_mem htag ..
  | text around before content => cases htext

/-- Where nothing is trusted, an element that is owed an identity is an asset or has text that can
be edited. -/
theorem Spot.isSome_of_isOwed {s : Spot} {asset : Option Asset} (h : s.isOwed false asset = true)
    (htext : s.text? = none) (htag : isTextEditable s.tag = false) : asset.isSome = true := by
  cases s with
  | element tag attrs =>
    have htag : isTextEditable tag = false := htag
    rw [Spot.isOwed, htag, Bool.false_and, Bool.or_false, Bool.false_or] at h
    exact h
  | text around before content => cases htext

/-! ## Trees -/

/-- **What has an entry** is the identity of a node that was told to be this. -/
theorem recorded_at {p : Policy} {styling : Styling} {forest : List Dom} {key : String} {a : Asset}
    (h : (buildTree p styling forest).2.assets.get? key = some a) :
    ∃ (i : Nat) (n : Node) (s : Spot), (preorderAll (buildTree p styling forest).1)[i]? = some n ∧
      (told styling (spots [] [] forest))[i]? = some (s, some a) ∧ n.id = some key := by
  have hpass := visitAll_spots p styling forest
  have hbehind : (visitAll p (spots [] [] forest) { styling := styling }).2.assets.get? key =
      some a := by
    rw [hpass]
    exact h
  rcases told_of_get?_assets hbehind with hnone | ⟨i, n, s, hn, htold, hid⟩
  · cases hnone
  · rw [hpass, List.getElem?_map] at hn
    obtain ⟨n', hn', rfl⟩ := Option.map_eq_some_iff.1 hn
    exact ⟨i, n', s, hn', htold, hid⟩

theorem mem_identities_of_get? {p : Policy} {styling : Styling} {forest : List Dom} {key : String}
    {a : Asset} (ha : (buildTree p styling forest).2.assets.get? key = some a) :
    key ∈ identities (buildTree p styling forest).1 :=
  let ⟨_, n, _, hn, _, hid⟩ := recorded_at ha
  List.mem_filterMap.2 ⟨n, List.mem_of_getElem? hn, hid⟩

section tree

variable {p : Policy} {forest : List Dom} (hinj : ∀ j k, p.fresh j = p.fresh k → j = k)
  (hapart : ∀ k, p.fresh k ∉ embeddedIdentities forest) (styling : Styling)

include hinj hapart

/-- **What is found under the identity of a node** is what its spot was told to be. -/
theorem get?_assets_buildTree {i : Nat} {n : Node} {s : Spot} {asset : Option Asset} {key : String}
    (hn : (preorderAll (buildTree p styling forest).1)[i]? = some n)
    (htold : (told styling (spots [] [] forest))[i]? = some (s, asset)) (hid : n.id = some key) :
    (buildTree p styling forest).2.assets.get? key = asset := by
  have hpass := visitAll_spots p styling forest
  have hnodup := nodup_identities hinj hapart styling
  rw [← filterMap_id_visitAll p styling forest] at hnodup
  have hn' : (visitAll p (spots [] [] forest) { styling := styling }).1[i]? =
      some n.withoutChildren := by
    rw [hpass, List.getElem?_map, hn, Option.map_some]
  have hget := get?_assets_visitAll (w := { styling := styling }) hnodup hn' htold hid
  rw [hpass] at hget
  exact hget.trans Option.or_none

/-- **What is recorded of a node**, under its identity if it has one, is what its spot was told to

be. -/
theorem recorded_buildTree {i : Nat} {n : Node} {s : Spot} {asset : Option Asset}
    (hn : (preorderAll (buildTree p styling forest).1)[i]? = some n)
    (htold : (told styling (spots [] [] forest))[i]? = some (s, asset)) :
    n.id.bind (buildTree p styling forest).2.assets.get? = asset := by
  obtain ⟨s', -, htold', hvisited⟩ := visited_at hn
  obtain ⟨rfl, rfl⟩ := Prod.mk.inj (Option.some.inj (htold'.symm.trans htold))
  have hid : n.id = _ := hvisited.id
  cases hkey : n.id with
  | some key => exact get?_assets_buildTree hinj hapart styling hn htold hkey
  | none =>
    rw [hkey] at hid
    cases hasset : (s'.tell
        (visitAll p ((spots [] [] forest).take i) { styling := styling }).2.styling).1 with
    | none => rfl
    | some a =>
      rw [if_pos (isOwed_of_tell (hasset ▸ rfl) p.trusted)] at hid
      cases hid

end tree

/-- **The table of assets and the tree match.**  Every entry is that of exactly one node, an element
with the tag that the entry names, and the tag decides its kind.  Every picture, link and button has
an entry, and in markup that is not trusted so has every element with an identity whose text cannot
be edited. -/
theorem assets_match_tree {p : Policy} {forest : List Dom}
    (hinj : ∀ j k, p.fresh j = p.fresh k → j = k)
    (hapart : ∀ k, p.fresh k ∉ embeddedIdentities forest) (styling : Styling) :
    let tree := (buildTree p styling forest).1
    let assets := (buildTree p styling forest).2.assets
    (∀ key a, assets.get? key = some a →
      ∃ n, ((preorderAll tree).filter fun m => m.id = some key) = [n] ∧ n.text = none ∧
        n.tag = a.tagName ∧ a.kind = AssetKind.ofTag n.tag) ∧
      (∀ n ∈ preorderAll tree, n.text = none → n.tag ∈ ["img", "a", "button"] →
        ∃ key, n.id = some key ∧ assets.contains key = true) ∧
      (p.trusted = false → ∀ n ∈ preorderAll tree, n.text = none → isTextEditable n.tag = false →
        ∀ key, n.id = some key → assets.contains key = true) := by
  intro tree assets
  have hnodup : (identities tree).Nodup := nodup_identities hinj hapart styling
  refine ⟨fun key a ha => ?_, fun n hn htext htag => ?_,
    fun huntrusted n hn htext htag key hid => ?_⟩
  · obtain ⟨n, hn, hid⟩ := List.mem_filterMap.1 (mem_identities_of_get? ha)
    obtain ⟨i, hi⟩ := List.mem_iff_getElem?.1 hn
    obtain ⟨s, -, htold, hvisited⟩ := visited_at hi
    have htell := (get?_assets_buildTree hinj hapart styling hi htold hid).symm.trans ha
    obtain ⟨htext, htag, hkind⟩ := Spot.of_tell htell
    have hn' : n.tag = s.tag := hvisited.tag
    exact ⟨n, filter_id_eq_singleton hnodup hn hid, hvisited.text.trans htext, hn'.trans htag.symm,
      hn'.symm ▸ hkind⟩
  · obtain ⟨i, hi⟩ := List.mem_iff_getElem?.1 hn
    obtain ⟨s, -, htold, hvisited⟩ := visited_at hi
    have hsome := Spot.tell_isSome
      (visitAll p ((spots [] [] forest).take i) { styling := styling }).2.styling
      (hvisited.text.symm.trans htext) (hvisited.tag ▸ htag)
    have hid : n.id = _ := hvisited.id
    rw [if_pos (isOwed_of_tell hsome p.trusted)] at hid
    refine ⟨_, hid, ?_⟩
    rw [Table.contains, get?_assets_buildTree hinj hapart styling hi htold hid]
    exact hsome
  · obtain ⟨i, hi⟩ := List.mem_iff_getElem?.1 hn
    obtain ⟨s, -, htold, hvisited⟩ := visited_at hi
    rw [Table.contains, get?_assets_buildTree hinj hapart styling hi htold hid]
    have howed : n.id = _ := hvisited.id
    rw [hid] at howed
    split at howed
    · next hown =>
      exact Spot.isSome_of_isOwed (huntrusted ▸ hown) (hvisited.text.symm.trans htext)
        ((congrArg isTextEditable hvisited.tag).symm.trans htag)
    · cases howed

/-- A picture in a link, and a background: three entries, and each is that of one element. -/
theorem linked_picture_and_background_have_entries :
    let p : Policy := ⟨fun k => String.ofList (List.replicate (k + 1) 'n'), false⟩
    let forest : List Dom :=
      [.element "a" [] [.element "img" [("src", "/x"), ("data-node-id", "a")] []],
        .element "div" [("style", "background-image:url(/y)")] []]
    let built := buildTree p .verbatim forest
    (∀ j k, p.fresh j = p.fresh k → j = k) ∧ (∀ k, p.fresh k ∉ embeddedIdentities forest) ∧
      built.2.assets.keys = ["a", "n", "nn"] ∧
      built.2.assets.get? "nn" = some ⟨"div", .background "/y", {}⟩ ∧
      (∃ n, ((preorderAll built.1).filter fun m => m.id = some "nn") = [n] ∧ n.text = none ∧
        n.tag = "div" ∧ AssetKind.background = AssetKind.ofTag n.tag) ∧
      ∀ n ∈ preorderAll built.1, n.text = none → n.tag ∈ ["img", "a", "button"] →
        ∃ key, n.id = some key ∧ built.2.assets.contains key = true := by
  intro p forest built
  have hs : Supply p.fresh (embeddedIdentities forest) := supply_replicate (by decide)
  have hmatch := assets_match_tree hs.injective hs.apart .verbatim
  have hget : built.2.assets.get? "nn" = some ⟨"div", .background "/y", {}⟩ := by decide +kernel
  exact ⟨hs.injective, hs.apart, by decide +kernel, hget, hmatch.1 "nn" _ hget, hmatch.2.1⟩

end Pane
