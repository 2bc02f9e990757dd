import Pane.Proofs.Tree.Arrivals

/-!
# The walk as a pass over spots

A *spot* is a part of a forest that becomes a node.  Which spots there are, in which order they are
met and what arrives at each of them can be read off the forest.  What an element is told to be
depends on the styles too, and these change on the way only where an inline style is registered.

Seen in this way the walk over a forest is a pass over a list: one spot after the other, each taking
at most one identity and recording at most one asset.  What one spot does is said once
(`Spot.visit_spec`), and what holds of a whole walk is proved by induction on the list.

* `Spot`, `spots` — the spots of a forest, in pre-order.
* `Spot.arriving?`, `Spot.isOwed` — the identity that arrives at a spot, and whether it takes one.
* `Spot.tell`, `told` — the assets that the elements are told to be.
* `elements_spots` — the elements among the spots.
* **`preorder_buildForest`** — the nodes that are built, in pre-order, are those of the pass.
* **`Spot.visit_spec`** — what the pass does at one spot.
-/

namespace Pane

/-! ## Spots -/

/-- A part of a forest that becomes a node. -/
inductive Spot where
  /-- An element, its tag in lower case. -/
  | element (tag : String) (attrs : Attributes)
  /-- A run of text in normal form, with the tags of the elements around it and the siblings in
  front of it, the nearest first. -/
  | text (around : List String) (before : List Dom) (content : String)

mutual

/-- The spots of one tree of a forest. -/
def Dom.spots (around : List String) (before : List Dom) : Dom → List Spot
  | .element name attrs children =>
    if isSkipped (Text.lower name) then []
    else .element (Text.lower name) attrs :: spots (Text.lower name :: around) [] children
  | .text content =>
    if Markup.normalizeText content = "" then []
    else [.text around before (Markup.normalizeText content)]
  | .comment _ => []

/-- The spots of a forest, in pre-order. -/
def spots (around : List String) (before : List Dom) : List Dom → List Spot
  | [] => []
  | d :: ds => d.spots around before ++ spots around (d :: before) ds

end

/-- The identity of the last marker in front of a place, with neither an element nor text between:
the siblings are given from the nearest on. -/
def markerBefore : List Dom → Option String
  | .comment content :: before => Markup.identityOf? content <|> markerBefore before
  | _ => none

/-- The identity of a marker is trimmed, and is not empty. -/
theorem trimmed?_of_markerBefore {id : String} :
    ∀ {before : List Dom}, markerBefore before = some id → Text.trimmed? id = some id
  | .comment content :: before, h => by
      rw [markerBefore] at h
      cases hc : Markup.identityOf? content with
      | some id' =>
        obtain rfl : id' = id := by simpa [hc] using h
        exact trimmed?_of_identityOf? hc
      | none =>
        have hbefore : markerBefore before = some id := by simpa [hc] using h
        exact trimmed?_of_markerBefore hbefore
  | [], h => by simp [markerBefore] at h
  | .text _ :: _, h => by simp [markerBefore] at h
  | .element _ _ _ :: _, h => by simp [markerBefore] at h

theorem bind_trimmed?_markerBefore (before : List Dom) :
    (markerBefore before).bind Text.trimmed? = markerBefore before := by
  cases h : markerBefore before with
  | none => rfl
  | some id => exact trimmed?_of_markerBefore h

/-! ## What is known of a spot -/

namespace Spot

/-- The tag of the node that a spot becomes. -/
def tag : Spot → String
  | element tag _ => tag
  | text _ _ _ => Node.textTag

/-- The text of the node that a spot becomes. -/
def text? : Spot → Option String
  | element _ _ => none
  | text _ _ content => some content

/-- The identity that arrives at a spot, trimmed: that of the attribute, or that of the marker. -/
def arriving? : Spot → Option String
  | element _ attrs => (embeddedIdentity? attrs).bind Text.trimmed?
  | text _ before _ => markerBefore before

/-- Whether a spot takes an identity: an element whose text can be edited, one that is an asset, or
one that arrives with an identity in markup that is trusted; and text inside an element whose text
can be edited. -/
def isOwed (trusted : Bool) (asset : Option Asset) : Spot → Bool
  | element tag attrs =>
    isTextEditable tag || asset.isSome || (trusted && (embeddedIdentity? attrs).isSome)
  | text around _ _ => around.any isTextEditable

/-- The asset that a spot is told to be, and the styles behind it. -/
def tell (styling : Styling) : Spot → Option Asset × Styling
  | element tag attrs =>
    let w : Walk := { styling := styling }
    (w.assetOf? tag attrs, (w.classTokens attrs).2.styling)
  | text _ _ _ => (none, styling)

/-- What the pass makes of a spot. -/
def visit (p : Policy) (w : Walk) : Spot → Node × Walk
  | element tag attrs => buildSelf p tag attrs w
  | text around before content =>
    if around.any isTextEditable then
      let (id, w) := w.identify p (markerBefore before)
      (Node.ofText content (some id), w)
    else (Node.ofText content none, w)

end Spot

/-- Spots with the assets that they are told to be, one after the other. -/
def told : Styling → List Spot → List (Spot × Option Asset)
  | _, [] => []
  | styling, s :: ss => (s, (s.tell styling).1) :: told (s.tell styling).2 ss

/-- What the pass makes of some spots, one after the other. -/
def visitAll (p : Policy) : List Spot → Walk → List Node × Walk
  | [], w => ([], w)
  | s :: ss, w =>
    let here := s.visit p w
    let there := visitAll p ss here.2
    (here.1 :: there.1, there.2)

/-- A pass over spots goes on where it stands. -/
theorem visitAll_append (p : Policy) (ss ss' : List Spot) (w : Walk) :
    visitAll p (ss ++ ss') w =
      ((visitAll p ss w).1 ++ (visitAll p ss' (visitAll p ss w).2).1,
        (visitAll p ss' (visitAll p ss w).2).2) := by
  induction ss generalizing w with
  | nil => rfl
  | cons s ss ih =>
    rw [List.cons_append, visitAll, ih]
    rfl

/-- Every spot is told something. -/
theorem map_fst_told (styling : Styling) (ss : List Spot) : (told styling ss).map (·.1) = ss := by
  induction ss generalizing styling with
  | nil => rfl
  | cons s ss ih => rw [told, List.map_cons, ih]

theorem length_told (styling : Styling) (ss : List Spot) :
    (told styling ss).length = ss.length := by
  rw [← List.length_map (·.1), map_fst_told]

/-! ## Elements -/

/-- The tag and the attributes of a spot that is an element. -/
def Spot.element? : Spot → Option (String × Attributes)
  | element tag attrs => some (tag, attrs)
  | text _ _ _ => none

/-- **The elements among the spots are the kept ones**, in the same order. -/
theorem elements_spots : ∀ (forest : List Dom) (around : List String) (before : List Dom),
    (spots around before forest).filterMap Spot.element? =
      (keptElements forest).map fun e => (e.tag, e.attrs)
  | [], _, _ => by rw [spots, keptElements]; rfl
  | .comment content :: rest, around, before => by
      rw [spots, Dom.spots, List.nil_append, elements_spots rest, keptElements, Dom.keptElements,
        List.nil_append]
  | .text content :: rest, around, before => by
      rw [spots, Dom.spots, List.filterMap_append, elements_spots rest, keptElements,
        Dom.keptElements, List.nil_append]
      split <;> rfl
  | .element name attrs children :: rest, around, before => by
      rw [spots, Dom.spots, List.filterMap_append, elements_spots rest, keptElements,
        Dom.keptElements]
      split
      · rfl
      · rw [List.filterMap_cons, elements_spots children, List.map_append, List.map_cons]
        rfl

/-- An element among the spots is a kept one. -/
theorem exists_keptElement {forest : List Dom} {tag : String} {attrs : Attributes}
    (h : .element tag attrs ∈ spots [] [] forest) :
    ∃ e ∈ keptElements forest, e.tag = tag ∧ e.attrs = attrs := by
  have hmem : (tag, attrs) ∈ (spots [] [] forest).filterMap Spot.element? :=
    List.mem_filterMap.2 ⟨_, h, rfl⟩
  rw [elements_spots] at hmem
  obtain ⟨e, he, heq⟩ := List.mem_map.1 hmem
  exact ⟨e, he, Prod.mk.inj heq⟩

/-! ## The walk is the pass -/

/-- Building a run of text is visiting its spot. -/
theorem buildText_eq_visitAll (p : Policy) (around : List String) (before : List Dom)
    (content : String) (w : Walk) :
    buildText p (around.any isTextEditable) (markerBefore before) content w =
      visitAll p ((Dom.text content).spots around before) w := by
  rw [buildText, Dom.spots]
  split
  · rfl
  · simp only [visitAll, Spot.visit]
    split <;> rfl

theorem withoutChildren_eq {n : Node} (h : n.children = []) : n.withoutChildren = n := by
  cases n
  cases h
  rfl

/-- A run of text has no children. -/
theorem preorderAll_buildText (p : Policy) (editable : Bool) (marker : Option String)
    (content : String) (w : Walk) :
    (preorderAll (buildText p editable marker content w).1).map Node.withoutChildren =
      (buildText p editable marker content w).1 := by
  rw [buildText]
  split
  · rfl
  · cases editable <;> rfl

/-- **The nodes that are built, in pre-order, are those of the pass**, children apart, and the state
behind them is the same.  By induction on the forest; the marker that the walk carries is the last
one before the place it has come to. -/
theorem preorder_buildForest (p : Policy) :
    ∀ (forest : List Dom) (around : List String) (before : List Dom) (w : Walk),
      visitAll p (spots around before forest) w =
        let built := buildForest p (around.any isTextEditable) (markerBefore before) forest w
        ((preorderAll built.1).map Node.withoutChildren, built.2)
  | [], _, _, w => by
      rw [buildForest, spots]
      rfl
  | .comment content :: rest, around, before, w => by
      have hrest := preorder_buildForest p rest around (.comment content :: before) w
      rw [buildForest, spots, Dom.spots]
      exact hrest
  | .text content :: rest, around, before, w => by
      have hrest := preorder_buildForest p rest around (.text content :: before)
      simp only [markerBefore] at hrest
      rw [buildForest, spots, visitAll_append, ← buildText_eq_visitAll, hrest]
      simp only [preorderAll_append, List.map_append, preorderAll_buildText]
  | .element name attrs children :: rest, around, before, w => by
      have hrest := preorder_buildForest p rest around (.element name attrs children :: before)
      simp only [markerBefore] at hrest
      rw [spots, Dom.spots]
      cases hskip : isSkipped (Text.lower name) with
      | true =>
        rw [buildForest_skipped _ _ _ _ hskip]
        exact hrest w
      | false =>
        have hbelow := preorder_buildForest p children (Text.lower name :: around) []
        have hbare (below : List Node) : Node.withoutChildren
            { (buildSelf p (Text.lower name) attrs w).1 with children := below } =
              (buildSelf p (Text.lower name) attrs w).1 :=
          withoutChildren_eq (buildSelf_children p (Text.lower name) attrs w)
        simp only [markerBefore, List.any_cons, Bool.or_comm (isTextEditable _)] at hbelow
        rw [buildForest_kept _ _ _ _ hskip, if_neg Bool.false_ne_true, List.cons_append, visitAll,
          visitAll_append, Spot.visit, hbelow, hrest]
        simp only [preorderAll_cons, List.map_append, List.map_cons, List.cons_append, hbare]

/-- The nodes of a tree, in pre-order, are those of the pass over the spots of its forest. -/
theorem visitAll_spots (p : Policy) (styling : Styling) (forest : List Dom) :
    visitAll p (spots [] [] forest) { styling := styling } =
      ((preorderAll (buildTree p styling forest).1).map Node.withoutChildren,
        (buildTree p styling forest).2) :=
  preorder_buildForest p forest [] [] { styling := styling }

/-! ## One spot -/

/-- The assets with that of a spot recorded under its identity. -/
def recordAsset (assets : Table Asset) (id : Option String) (asset : Option Asset) : Table Asset :=
  match id, asset with
  | some id, some a => assets.insert id a
  | _, _ => assets

/-- What the pass does at a spot. -/
structure Spot.Visited (p : Policy) (s : Spot) (w : Walk) (out : Node × Walk) : Prop where
  tag : out.1.tag = s.tag
  text : out.1.text = s.text?
  attrs : ∀ name ∈ out.1.attrs.keys, isAllowedAttribute name = true
  id : out.1.id =
    if s.isOwed p.trusted (s.tell w.styling).1 then some (w.ledger.give p.fresh s.arriving?).1
    else none
  ledger : out.2.ledger =
    if s.isOwed p.trusted (s.tell w.styling).1 then (w.ledger.give p.fresh s.arriving?).2
    else w.ledger
  styling : out.2.styling = (s.tell w.styling).2
  assets : out.2.assets = recordAsset w.assets out.1.id (s.tell w.styling).1

/-- What an element is told to be depends on the styles, and on nothing else of the state. -/
theorem classTokens_styling (w : Walk) (attrs : Attributes) :
    w.classTokens attrs =
      ((Walk.classTokens { styling := w.styling } attrs).1,
        { w with styling := (Walk.classTokens { styling := w.styling } attrs).2.styling }) := by
  rw [Walk.classTokens, Walk.classTokens]
  cases attributeOf? attrs "style" with
  | none => rfl
  | some body =>
    by_cases hblank : Text.isBlank body.toList = true
    · simp only [hblank, if_true]
    · simp only [hblank]
      rcases w.styling.inline body with ⟨_ | token, styling⟩ <;> rfl

/-- An element is told its asset and leaves the styles behind its class tokens. -/
theorem tell_element (w : Walk) (tag : String) (attrs : Attributes) :
    (Spot.element tag attrs).tell w.styling =
      (w.assetOf? tag attrs, (w.classTokens attrs).2.styling) := by
  rw [Spot.tell, Walk.assetOf?, Walk.assetOf?, classTokens_styling w]

/-- The visit of an element. -/
theorem visit_element (p : Policy) (tag : String) (attrs : Attributes) (w : Walk) :
    (Spot.element tag attrs).Visited p w (buildSelf p tag attrs w) := by
  have hstate := w.classTokens_state attrs
  have htell := tell_element w tag attrs
  have howed : (Spot.element tag attrs).isOwed p.trusted (w.assetOf? tag attrs) =
      w.identifies p tag attrs := rfl
  have hledger : (w.classTokens attrs).2.ledger = w.ledger := by rw [hstate]; rfl
  have hassets : (w.classTokens attrs).2.assets = w.assets := by rw [hstate]
  have hattrs : ∀ name ∈ (buildSelf p tag attrs w).1.attrs.keys,
      isAllowedAttribute name = true := by
    rw [buildSelf_attrs]
    exact fun name hname => isAllowedAttribute_of_mem_keys hname
  cases h : w.identifies p tag attrs with
  | true =>
    have hgive := identify_ledger p (w.classTokens attrs).2 (embeddedIdentity? attrs)
    rw [hledger] at hgive
    obtain ⟨hid, hledger'⟩ := Prod.mk.inj hgive
    have hself := buildSelf_of_identifies p tag attrs w h
    refine ⟨buildSelf_tag .., buildSelf_text .., hattrs, ?_, ?_, ?_, ?_⟩ <;> rw [htell]
    · rw [howed, h, hself]
      exact congrArg some hid
    · rw [howed, h, hself]
      exact hledger'
    · exact buildSelf_styling ..
    · rw [hself]
      simp only [Walk.record, identify_assets, hassets]
      cases w.assetOf? tag attrs <;> rfl
  | false =>
    have hself := buildSelf_of_not_identifies p tag attrs w h
    refine ⟨buildSelf_tag .., buildSelf_text .., hattrs, ?_, ?_, ?_, ?_⟩ <;> rw [htell]
    · rw [howed, h, hself]
      rfl
    · rw [howed, h, hself]
      exact hledger
    · exact buildSelf_styling ..
    · rw [hself]
      exact hassets

/-- A text becomes a run of text, with or without an identity. -/
theorem exists_visit_text (p : Policy) (around : List String) (before : List Dom) (content : String)
    (w : Walk) :
    ∃ id, (Spot.visit p w (.text around before content)).1 = Node.ofText content id := by
  rw [Spot.visit]
  split
  · exact ⟨_, rfl⟩
  · exact ⟨none, rfl⟩

/-- The visit of a run of text. -/
theorem visit_text (p : Policy) (around : List String) (before : List Dom) (content : String)
    (w : Walk) :
    (Spot.text around before content).Visited p w
      (Spot.visit p w (.text around before content)) := by
  have hattrs : ∀ name ∈ (Table.empty : Table String).keys, isAllowedAttribute name = true :=
    fun name hname => absurd hname List.not_mem_nil
  rw [Spot.visit]
  cases h : around.any isTextEditable with
  | true =>
    have hgive := identify_ledger p w (markerBefore before)
    rw [bind_trimmed?_markerBefore] at hgive
    obtain ⟨hid, hledger⟩ := Prod.mk.inj hgive
    refine ⟨rfl, rfl, hattrs, ?_, ?_, identify_styling p w _, ?_⟩
    · rw [Spot.isOwed, h]
      exact congrArg some hid
    · rw [Spot.isOwed, h]
      exact hledger
    · exact identify_assets w p _
  | false =>
    exact ⟨rfl, rfl, hattrs, by rw [Spot.isOwed, h]; rfl, by rw [Spot.isOwed, h]; rfl, rfl, rfl⟩

/-- **What the pass does at a spot**: it makes the node, with an identity that the ledger gives
where one is owed, and records the asset under it. -/
theorem Spot.visit_spec (p : Policy) (s : Spot) (w : Walk) : s.Visited p w (s.visit p w) := by
  cases s with
  | element tag attrs => exact visit_element p tag attrs w
  | text around before content => exact visit_text p around before content w

/-- The tags and the texts that the pass makes are those of the spots. -/
theorem map_visitAll (p : Policy) (ss : List Spot) (w : Walk) :
    (visitAll p ss w).1.map (fun n => (n.tag, n.text)) = ss.map fun s => (s.tag, s.text?) := by
  induction ss generalizing w with
  | nil => rfl
  | cons s ss ih =>
    have hspec := s.visit_spec p w
    rw [visitAll, List.map_cons, ih, List.map_cons, hspec.tag, hspec.text]

/-- An asset is always given an identity. -/
theorem isOwed_of_tell {styling : Styling} {s : Spot} (h : (s.tell styling).1.isSome = true)
    (trusted : Bool) : s.isOwed trusted (s.tell styling).1 = true := by
  cases s with
  | element tag attrs => rw [Spot.isOwed, h, Bool.or_true, Bool.true_or]
  | text around before content => cases h

/-! ## What arrives -/

/-- The identity of a marker is one that is embedded. -/
theorem markerBefore_mem {id : String} :
    ∀ {before : List Dom}, markerBefore before = some id → id ∈ embeddedIdentities before
  | .comment content :: before, h => by
      rw [markerBefore] at h
      rw [embeddedIdentities, Dom.embeddedIdentities]
      cases hc : Markup.identityOf? content with
      | some id' =>
        obtain rfl : id' = id := by simpa [hc] using h
        exact List.mem_append_left _ (List.mem_singleton_self _)
      | none =>
        have hbefore : markerBefore before = some id := by simpa [hc] using h
        exact markerBefore_mem hbefore
  | [], h => by simp [markerBefore] at h
  | .text _ :: _, h => by simp [markerBefore] at h
  | .element _ _ _ :: _, h => by simp [markerBefore] at h

mutual

/-- An identity that arrives is embedded, in the element or in what stands in front of it. -/
theorem Dom.arriving_mem {id : String} :
    ∀ (d : Dom) (around : List String) (before : List Dom),
      ∀ s ∈ d.spots around before, s.arriving? = some id →
        id ∈ d.embeddedIdentities ∨ id ∈ Pane.embeddedIdentities before
  | .comment content, around, before, s, hs, _ => by simp [Dom.spots] at hs
  | .text content, around, before, s, hs, hid => by
      rw [Dom.spots] at hs
      split at hs
      · exact absurd hs List.not_mem_nil
      · obtain rfl := List.mem_singleton.1 hs
        exact .inr (markerBefore_mem hid)
  | .element name attrs children, around, before, s, hs, hid => by
      rw [Dom.spots] at hs
      rw [Dom.embeddedIdentities, List.mem_append]
      split at hs
      · exact absurd hs List.not_mem_nil
      · rcases List.mem_cons.1 hs with rfl | hs
        · exact .inl (.inl (Option.mem_toList.2 hid))
        · rcases arriving_mem children _ [] s hs hid with h | h
          · exact .inl (.inr h)
          · exact absurd h List.not_mem_nil

/-- **What arrives at a spot is carried by the forest**, or by the siblings in front of it. -/
theorem arriving_mem {id : String} :
    ∀ (forest : List Dom) (around : List String) (before : List Dom),
      ∀ s ∈ spots around before forest, s.arriving? = some id →
        id ∈ embeddedIdentities forest ∨ id ∈ embeddedIdentities before
  | [], _, _, s, hs, _ => by simp [spots] at hs
  | d :: rest, around, before, s, hs, hid => by
      rw [spots, List.mem_append] at hs
      rw [embeddedIdentities, List.mem_append]
      rcases hs with hs | hs
      · rcases Dom.arriving_mem d around before s hs hid with h | h
        · exact .inl (.inl h)
        · exact .inr h
      · rcases arriving_mem rest around (d :: before) s hs hid with h | h
        · exact .inl (.inr h)
        · rw [embeddedIdentities, List.mem_append] at h
          rcases h with h | h
          · exact .inl (.inl h)
          · exact .inr h

end

end Pane
