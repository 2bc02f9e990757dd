import Pane.Tree.Builder
import Pane.Proofs.Text.Tokens

/-!
# What the walk makes of a forest

The walk skips some elements, drops text of which nothing is left, and makes a node of everything
else.  Which parts of a forest are kept does not depend on the state of the walk, so they are told
here from the forest alone; with them go the laws of one step of the walk, on which every statement
about the whole walk is built.

* `Dom.isKept`, `keptElements` — the parts of a forest that become nodes.
* **`buildForest_eq_nil_iff`** — nothing is built exactly if nothing is kept.
* **`get?_keptAttributes`**, `isAllowedAttribute_of_mem_keys` — the attributes of a built node.
* **`buildSelf_of_identifies`**, `buildSelf_of_not_identifies` — an element without its children.
* **`buildSelf_node`** — its node, whether it is given an identity or not.
-/

namespace Pane

/-! ## Kept parts -/

/-- An element of a forest: its tag in lower case, its attributes and its children. -/
structure Element where
  tag : String
  attrs : Attributes
  children : List Dom

/-- Whether a node of a forest becomes a node of the tree. -/
def Dom.isKept : Dom → Bool
  | .element name _ _ => !isSkipped (Text.lower name)
  | .text content => Markup.normalizeText content ≠ ""
  | .comment _ => false

mutual

/-- The elements that become nodes, in pre-order. -/
def Dom.keptElements : Dom → List Element
  | .element name attrs children =>
    if isSkipped (Text.lower name) then []
    else ⟨Text.lower name, attrs, children⟩ :: keptElements children
  | .text _ => []
  | .comment _ => []

/-- The elements of some trees that become nodes, in pre-order. -/
def keptElements : List Dom → List Element
  | [] => []
  | d :: ds => d.keptElements ++ keptElements ds

end

section step

variable (p : Policy) (editable : Bool) (marker : Option String) (w : Walk)

/-- An element that is skipped leaves no trace but for ending the reach of a marker. -/
theorem buildForest_skipped {name : String} (h : isSkipped (Text.lower name) = true)
    (attrs : Attributes) (children rest : List Dom) :
    buildForest p editable marker (.element name attrs children :: rest) w =
      buildForest p editable none rest w := by
  rw [buildForest, buildElement]
  simp [h]

/-- An element that is kept: first the element itself, then what is below it, then the rest. -/
theorem buildForest_kept {name : String} (h : isSkipped (Text.lower name) = false)
    (attrs : Attributes) (children rest : List Dom) :
    buildForest p editable marker (.element name attrs children :: rest) w =
      let self := buildSelf p (Text.lower name) attrs w
      let below :=
        buildForest p (editable || isTextEditable (Text.lower name)) none children self.2
      let behind := buildForest p editable none rest below.2
      ({ self.1 with children := below.1 } :: behind.1, behind.2) := by
  rw [buildForest, buildElement]
  simp [h]

/-- Nothing is built of a run of text exactly if it is not kept. -/
theorem buildText_eq_nil_iff (content : String) :
    (buildText p editable marker content w).1 = [] ↔ (Dom.text content).isKept = false := by
  rw [buildText]
  by_cases h : Markup.normalizeText content = ""
  · simp [h, Dom.isKept]
  · cases editable <;> simp [h, Dom.isKept]

end step

/-- **Nothing is built exactly if nothing is kept.** -/
theorem buildForest_eq_nil_iff (p : Policy) (editable : Bool) :
    ∀ (forest : List Dom) (marker : Option String) (w : Walk),
      (buildForest p editable marker forest w).1 = [] ↔ forest.any Dom.isKept = false
  | [], _, _ => by simp [buildForest]
  | .comment content :: rest, marker, w => by
      rw [buildForest, buildForest_eq_nil_iff p editable rest]
      simp [Dom.isKept]
  | .text content :: rest, marker, w => by
      rw [buildForest]
      simp only [List.append_eq_nil_iff, buildText_eq_nil_iff,
        buildForest_eq_nil_iff p editable rest, List.any_cons, Bool.or_eq_false_iff]
  | .element name attrs children :: rest, marker, w => by
      cases h : isSkipped (Text.lower name) with
      | true =>
        rw [buildForest_skipped _ _ _ _ h, buildForest_eq_nil_iff p editable rest]
        simp [h, Dom.isKept]
      | false => simp [buildForest_kept _ _ _ _ h, h, Dom.isKept]

/-- A forest in pre-order: the first tree, its children, and the others. -/
theorem preorderAll_cons (n : Node) (ns : List Node) :
    preorderAll (n :: ns) = n :: preorderAll n.children ++ preorderAll ns := by
  rw [preorderAll]
  cases n
  rfl

theorem preorderAll_append (ns ns' : List Node) :
    preorderAll (ns ++ ns') = preorderAll ns ++ preorderAll ns' := by
  induction ns with
  | nil => rfl
  | cons n ns ih => rw [List.cons_append, preorderAll, preorderAll, ih, List.append_assoc]

/-- The identities of a forest: of the first tree, of its children, and of the others. -/
theorem identities_cons (n : Node) (ns : List Node) :
    identities (n :: ns) = n.id.toList ++ identities n.children ++ identities ns := by
  simp only [identities, preorderAll_cons, List.cons_append, List.filterMap_cons,
    List.filterMap_append]
  cases n.id <;> rfl

theorem identities_append (ns ms : List Node) :
    identities (ns ++ ms) = identities ns ++ identities ms := by
  simp [identities, preorderAll_append]

/-- The nodes with an identity, if no two have the same: there is the one. -/
theorem filter_id_eq_singleton {ns : List Node} (hnodup : (ns.filterMap Node.id).Nodup) {n : Node}
    (hn : n ∈ ns) {key : String} (hid : n.id = some key) :
    (ns.filter fun m => m.id = some key) = [n] := by
  induction ns with
  | nil => exact absurd hn List.not_mem_nil
  | cons m ns ih =>
    rw [List.filterMap_cons] at hnodup
    rcases List.mem_cons.1 hn with rfl | hn
    · rw [hid] at hnodup
      have hnew := (List.nodup_cons.1 hnodup).1
      have hnone : (ns.filter fun m => m.id = some key) = [] := by
        refine List.filter_eq_nil_iff.2 fun m hm => ?_
        rw [decide_eq_true_eq]
        exact fun hi => hnew (List.mem_filterMap.2 ⟨m, hm, hi⟩)
      rw [List.filter_cons_of_pos (by simpa using hid), hnone]
    · have hmem : key ∈ ns.filterMap Node.id := List.mem_filterMap.2 ⟨n, hn, hid⟩
      split at hnodup
      · next hm => rw [List.filter_cons_of_neg (by simp [hm]), ih hnodup hn]
      · next i hm =>
        obtain ⟨hnew, hnodup⟩ := List.nodup_cons.1 hnodup
        have hne : m.id ≠ some key := by
          intro he
          obtain rfl : i = key := Option.some.inj (hm.symm.trans he)
          exact hnew hmem
        rw [List.filter_cons_of_neg (by simpa using hne), ih hnodup hn]

/-! ## Attributes of a node -/

theorem isSome_lookup_iff {key : String} {l : List (String × String)} :
    (l.lookup key).isSome = true ↔ key ∈ l.map (·.1) := by
  induction l with
  | nil => simp
  | cons pair l ih =>
    rw [Table.lookup_cons_ite, List.map_cons, List.mem_cons]
    by_cases h : key = pair.1
    · simp [h]
    · simp only [h, if_false, false_or]
      exact ih

/-- The names of a table are those under which something is found. -/
theorem mem_keys_iff {t : Table String} {key : String} :
    key ∈ t.keys ↔ (t.get? key).isSome = true := isSome_lookup_iff.symm

/-- Filtering by name is looking up under fewer names. -/
theorem lookup_filter (q : String → Bool) (key : String) :
    ∀ l : List (String × String),
      (l.filter fun p => q p.1).lookup key = if q key then l.lookup key else none
  | [] => by simp
  | (k, v) :: l => by
      have ih := lookup_filter q key l
      rw [List.filter_cons, Table.lookup_cons_ite]
      by_cases hk : key = k
      · subst hk
        cases hq : q key with
        | true => rw [if_pos rfl, if_pos rfl, if_pos rfl, Table.lookup_cons_ite, if_pos rfl]
        | false => simp [ih, hq]
      · rw [if_neg hk, ← ih]
        split
        · rw [Table.lookup_cons_ite, if_neg hk]
        · rfl

/-- **The attributes of a built node**: the class tokens in one text, and of the allowed ones the
last that was given. -/
theorem get?_keptAttributes (attrs : Attributes) (classes : List String) (name : String) :
    (keptAttributes attrs classes).get? name =
      if name = "class" then if classes = [] then none else some (Text.joinTokens classes)
      else if isAllowedAttribute name then attrs.reverse.lookup name else none := by
  have hkept : (Table.ofList (attrs.filter fun p =>
      p.1 ≠ "class" && isAllowedAttribute p.1)).get? name =
        if name ≠ "class" && isAllowedAttribute name then attrs.reverse.lookup name else none := by
    rw [Table.get?_ofList, ← List.filter_reverse]
    exact lookup_filter (fun name => name ≠ "class" && isAllowedAttribute name) name _
  rw [keptAttributes]
  by_cases hname : name = "class"
  · subst hname
    split
    · exact hkept
    · rw [Table.get?_insert, if_pos rfl, if_pos rfl]
  · rw [decide_eq_true hname, Bool.true_and] at hkept
    rw [if_neg hname]
    split
    · exact hkept
    · rw [Table.get?_insert, if_neg hname]
      exact hkept

/-- The class attribute of a node shows its class tokens. -/
theorem get?_class_keptAttributes (attrs : Attributes) (classes : List String) :
    (keptAttributes attrs classes).get? "class" =
      if classes = [] then none else some (Text.joinTokens classes) := by
  rw [get?_keptAttributes, if_pos rfl]

/-- **A built node keeps allowed attributes only.** -/
theorem isAllowedAttribute_of_mem_keys {attrs : Attributes} {classes : List String} {name : String}
    (h : name ∈ (keptAttributes attrs classes).keys) : isAllowedAttribute name = true := by
  rw [mem_keys_iff, get?_keptAttributes] at h
  split at h
  · next he =>
    subst he
    decide
  · split at h
    · assumption
    · cases h

/-! ## One element -/

/-- Class tokens may change the styles, and nothing else of a walk. -/
theorem Walk.classTokens_state (w : Walk) (attrs : Attributes) :
    (w.classTokens attrs).2 = { w with styling := (w.classTokens attrs).2.styling } := by
  rw [Walk.classTokens]
  split
  · next body _ =>
    split
    · rfl
    · split <;> rfl
  · rfl

/-- The identity that an element arrives with, blank ones passed over. -/
def embeddedIdentity? (attrs : Attributes) : Option String :=
  (attributeOf? attrs identityAttribute).filter fun id => !Text.isBlank id.toList

/-- The asset of an element whose class tokens are told, the styles being those behind them. -/
def Walk.assetOf? (w : Walk) (tag : String) (attrs : Attributes) : Option Asset :=
  Asset.extract? tag attrs (w.classTokens attrs).1 (w.classTokens attrs).2.styling.backgroundFor?

/-- Whether an element has an identity: because its text can be edited, because it is an asset, or
because it arrives with one and the markup is trusted. -/
def Walk.identifies (w : Walk) (p : Policy) (tag : String) (attrs : Attributes) : Bool :=
  isTextEditable tag || (w.assetOf? tag attrs).isSome ||
    (p.trusted && (embeddedIdentity? attrs).isSome)

/-- The state with the asset of an element in the table, if it is one. -/
def Walk.record (w : Walk) (asset : Option Asset) (id : String) : Walk :=
  { w with assets := match asset with
      | some a => w.assets.insert id a
      | none => w.assets }

section self

variable (p : Policy) (tag : String) (attrs : Attributes) (w : Walk)

/-- **An element that has an identity**, without its children: its class tokens are told first, then
it is given the identity, and its asset is recorded. -/
theorem buildSelf_of_identifies (h : w.identifies p tag attrs = true) :
    buildSelf p tag attrs w =
      let given := (w.classTokens attrs).2.identify p (embeddedIdentity? attrs)
      ({ tag := tag, attrs := keptAttributes attrs (w.classTokens attrs).1, id := some given.1 },
        given.2.record (w.assetOf? tag attrs) given.1) :=
  if_pos h

/-- An element that takes no identity is kept as it is. -/
theorem buildSelf_of_not_identifies (h : w.identifies p tag attrs = false) :
    buildSelf p tag attrs w =
      ({ tag := tag, attrs := keptAttributes attrs (w.classTokens attrs).1 },
        (w.classTokens attrs).2) :=
  if_neg (Bool.eq_false_iff.1 h)

/-- **The node of an element**, whether it is given an identity or not. -/
theorem buildSelf_node : (buildSelf p tag attrs w).1 =
    ⟨tag, keptAttributes attrs (w.classTokens attrs).1, none, [],
      (buildSelf p tag attrs w).1.id⟩ := by
  cases h : w.identifies p tag attrs with
  | true => rw [buildSelf_of_identifies p tag attrs w h]
  | false => rw [buildSelf_of_not_identifies p tag attrs w h]

theorem buildSelf_tag : (buildSelf p tag attrs w).1.tag = tag :=
  congrArg Node.tag (buildSelf_node ..)

theorem buildSelf_attrs :
    (buildSelf p tag attrs w).1.attrs = keptAttributes attrs (w.classTokens attrs).1 :=
  congrArg Node.attrs (buildSelf_node ..)

theorem buildSelf_text : (buildSelf p tag attrs w).1.text = none :=
  congrArg Node.text (buildSelf_node ..)

theorem buildSelf_children : (buildSelf p tag attrs w).1.children = [] :=
  congrArg Node.children (buildSelf_node ..)

/-- Identities have no part in the styles. -/
theorem identify_styling (arriving : Option String) :
    (w.identify p arriving).2.styling = w.styling := by
  rw [Walk.identify]
  split
  · split <;> rfl
  · rfl

/-- The styles behind an element are those behind its class tokens. -/
theorem buildSelf_styling :
    (buildSelf p tag attrs w).2.styling = (w.classTokens attrs).2.styling := by
  cases h : w.identifies p tag attrs with
  | true =>
    rw [buildSelf_of_identifies p tag attrs w h]
    exact identify_styling ..
  | false => rw [buildSelf_of_not_identifies p tag attrs w h]

end self

/-- Identities have no part in the assets. -/
theorem identify_assets (w : Walk) (p : Policy) (arriving : Option String) :
    (w.identify p arriving).2.assets = w.assets := by
  rw [Walk.identify]
  split
  · split <;> rfl
  · rfl

end Pane
