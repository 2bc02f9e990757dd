import Pane.Compile
import Pane.Proofs.Tree.Built
import Pane.Proofs.Tree.Owed
import Pane.Proofs.Tree.Rules

/-!
# What the check says of a built tree

The builder is meant to make trees that keep the rules of the check, whatever markup it is given.
Three of the four rules it keeps.  Identities are neither empty nor taken twice, provided the supply
is good, and a node keeps allowed attributes only.  The fourth, that runs of text have no children,
is broken by an element that is taken for one.

* **`checkTree_buildTree`** — the check passes every tree that is built, save that it refuses such
  an element.
* `tags_buildTree`, `text_of_buildTree` — the elements of a built tree are the kept ones, and its
  runs of text have text and no children.
* `compile_eq_ok_iff`, `rehydrate_eq_ok_iff` — what compiling and reading back lead to.
* **`compiles_unless_text_is_filled`** — a pane compiles and is read back unless there is such an
  element.
-/

namespace Pane

/-! ## Elements and runs of text -/

/-- Whether an element that becomes a node has the tag of runs of text. -/
def namesText (forest : List Dom) : Bool :=
  (keptElements forest).any fun e => e.tag = Node.textTag

/-- **The elements of a built tree are the kept ones**, in the same order. -/
theorem tags_buildTree (p : Policy) (styling : Styling) (forest : List Dom) :
    (preorderAll (buildTree p styling forest).1).filterMap
        (fun n => if n.text.isNone then some n.tag else none) =
      (keptElements forest).map Element.tag := by
  have hmade := congrArg
    (List.filterMap fun x : String × Option String => if x.2.isNone then some x.1 else none)
    (map_visitAll p (spots [] [] forest) { styling := styling })
  have helements := congrArg (List.map Prod.fst) (elements_spots forest [] [])
  rw [visitAll_spots, List.map_map, List.filterMap_map, List.filterMap_map] at hmade
  rw [List.map_filterMap, List.map_map] at helements
  refine (hmade.trans ?_).trans helements
  refine congrArg (List.filterMap · _) (funext fun s => ?_)
  cases s <;> rfl

/-- **What has text is a run of text**: the text is not empty, and there are no children. -/
theorem text_of_buildTree (p : Policy) (styling : Styling) (forest : List Dom) {n : Node}
    (hn : n ∈ preorderAll (buildTree p styling forest).1) {content : String}
    (htext : n.text = some content) : content ≠ "" ∧ n.children = [] := by
  obtain ⟨editable, hbuilt⟩ := built_of_mem (builtAll_buildForest p forest false none _) n hn
  cases hbuilt with
  | text hne => exact ⟨Option.some.inj htext ▸ hne, rfl⟩
  | element => cases htext

/-- Every node with the tag of runs of text is one, exactly if no kept element has that tag. -/
theorem runs_of_text_iff (p : Policy) (styling : Styling) (forest : List Dom) :
    (∀ n ∈ preorderAll (buildTree p styling forest).1, n.tag = Node.textTag →
      n.children = [] ∧ ∃ content, content ≠ "" ∧ n.text = some content) ↔
      namesText forest = false := by
  have htags := tags_buildTree p styling forest
  constructor
  · intro h
    refine List.any_eq_false.2 fun e he hname => ?_
    have hmem : e.tag ∈ (keptElements forest).map Element.tag := List.mem_map_of_mem he
    rw [← htags] at hmem
    obtain ⟨n, hn, htag⟩ := List.mem_filterMap.1 hmem
    split at htag
    · next hnone =>
      obtain ⟨-, content, -, htext⟩ := h n hn ((Option.some.inj htag).trans (by simpa using hname))
      simp [htext] at hnone
    · cases htag
  · intro h n hn htag
    cases htext : n.text with
    | some content =>
      have hrun := text_of_buildTree p styling forest hn htext
      exact ⟨hrun.2, content, hrun.1, rfl⟩
    | none =>
      have hmem : n.tag ∈ (keptElements forest).map Element.tag :=
        htags ▸ List.mem_filterMap.2 ⟨n, hn, by simp [htext]⟩
      obtain ⟨e, he, hetag⟩ := List.mem_map.1 hmem
      exact absurd (List.any_eq_false.1 h e he) (by simp [hetag, htag])

/-! ## Panes -/

@[simp] theorem payloadOf_tree (o : Options) (tree : List Node) (w : Walk) :
    (payloadOf o tree w).tree = tree := by
  rw [payloadOf]
  split <;> rfl

@[simp] theorem payloadOf_assets (o : Options) (tree : List Node) (w : Walk) :
    (payloadOf o tree w).assets = w.assets := by
  rw [payloadOf]
  split <;> rfl

/-- What compiling leads to: the tree that is built over the registry of all style, if it passes the
check. -/
theorem compile_eq_ok_iff {fresh : Nat → String} {o : Options} {markup expanded authored : String}
    {pane : Payload} :
    compile fresh o markup expanded authored = .ok pane ↔
      ∃ forest built, Markup.readFragment (splitStyles o markup).1 = .ok forest ∧
        buildTree ⟨fresh, false⟩
          (.registry (populate o expanded authored (splitStyles o markup).2)) forest = built ∧
        checkTree built.1 = .ok () ∧ payloadOf o built.1 built.2 = pane := by
  simp only [compile, bind, bind_eq_ok_iff, pure, Except.pure, Except.ok.injEq]
  constructor
  · rintro ⟨forest, hread, ⟨⟩, hcheck, h⟩
    exact ⟨forest, _, hread, rfl, hcheck, h⟩
  · rintro ⟨forest, _, hread, rfl, hcheck, h⟩
    exact ⟨forest, hread, ⟨⟩, hcheck, h⟩

theorem rehydrate_eq_ok_iff {fresh : Nat → String} {markup : String}
    {result : List Node × Table Asset} :
    rehydrate fresh markup = .ok result ↔
      ∃ forest, Markup.readFragment markup = .ok forest ∧
        checkTree (buildTree ⟨fresh, true⟩ .verbatim forest).1 = .ok () ∧
        ((buildTree ⟨fresh, true⟩ .verbatim forest).1,
          (buildTree ⟨fresh, true⟩ .verbatim forest).2.assets) = result := by
  simp only [rehydrate, bind, bind_eq_ok_iff, pure, Except.pure, Except.ok.injEq]
  constructor
  · rintro ⟨forest, hread, ⟨⟩, hcheck, h⟩
    exact ⟨forest, hread, hcheck, h⟩
  · rintro ⟨forest, hread, hcheck, h⟩
    exact ⟨forest, hread, ⟨⟩, hcheck, h⟩

/-- **The check passes what is built, save for an element that is taken for text.** -/
theorem checkTree_buildTree {p : Policy} {forest : List Dom}
    (hs : Supply p.fresh (embeddedIdentities forest)) (styling : Styling) :
    checkTree (buildTree p styling forest).1 =
      if fillsText forest then .error .textWithChildren else .ok () := by
  have hrules := keepsRules_buildForest p forest false none { styling := styling }
  have hnodup := nodup_identities hs.injective hs.apart styling
  have hfilled := empty_notMem_identities hs styling
  cases hfills : fillsText forest with
  | false => exact (checkTree_eq_ok_iff _).2 ⟨hrules.2 hfills, hnodup, hfilled⟩
  | true =>
    cases hcheck : checkTree (buildTree p styling forest).1 with
    | error e => rw [checkTree_error (allowed_buildTree styling) hnodup hfilled hcheck]; rfl
    | ok =>
      have hnone := hrules.1 ((checkTree_eq_ok_iff _).1 hcheck).1
      exact absurd (hfills.symm.trans hnone) (by decide)

/-- **A pane compiles, and is read back, unless an element is taken for text.**  Given a good
supply, compiling and reading back succeed exactly if no kept element with the tag of runs of text
has content that is kept; otherwise they fail, and with the error on runs of text alone.  Moreover
what has that tag in the tree is a run of text, with text and without children, exactly if no kept
element has it. -/
theorem compiles_unless_text_is_filled {fresh : Nat → String} {forest : List Dom}
    (hs : Supply fresh (embeddedIdentities forest)) :
    (∀ o markup expanded authored, Markup.readFragment (splitStyles o markup).1 = .ok forest →
      (fillsText forest = false → ∃ pane, compile fresh o markup expanded authored = .ok pane) ∧
      (fillsText forest = true →
        compile fresh o markup expanded authored = .error .textWithChildren)) ∧
    (∀ markup, Markup.readFragment markup = .ok forest →
      (fillsText forest = false → ∃ pane, rehydrate fresh markup = .ok pane) ∧
      (fillsText forest = true → rehydrate fresh markup = .error .textWithChildren)) ∧
    ∀ trusted styling,
      (∀ n ∈ preorderAll (buildTree ⟨fresh, trusted⟩ styling forest).1, n.tag = Node.textTag →
        n.children = [] ∧ ∃ content, content ≠ "" ∧ n.text = some content) ↔
        namesText forest = false := by
  refine ⟨fun o markup expanded authored hread => ?_, fun markup hread => ?_, fun trusted styling =>
    runs_of_text_iff ⟨fresh, trusted⟩ styling forest⟩
  · have hcheck := checkTree_buildTree (p := ⟨fresh, false⟩) hs
      (.registry (populate o expanded authored (splitStyles o markup).2))
    constructor <;> intro hfills <;> rw [hfills] at hcheck <;>
      simp [compile, hread, hcheck, bind, Except.bind, pure, Except.pure]
  · have hcheck := checkTree_buildTree (p := ⟨fresh, true⟩) hs .verbatim
    constructor <;> intro hfills <;> rw [hfills] at hcheck <;>
      simp [rehydrate, hread, hcheck, bind, Except.bind, pure, Except.pure]

theorem eq_ok_of_toOption {ε α : Type} {x : Except ε α} {a : α} (h : x.toOption = some a) :
    x = .ok a := by
  cases x with
  | error => simp [Except.toOption] at h
  | ok b => simpa [Except.toOption] using h

/-- Both cases at once: a paragraph that arrives with an identity, and a drawing with a line of
text in it. -/
theorem paragraph_compiles_and_drawn_text_does_not :
    (∃ pane, rehydrate (fun k => String.ofList (List.replicate (k + 1) 'n'))
      "<p data-node-id=a>x</p>" = .ok pane) ∧
      compile (fun k => String.ofList (List.replicate (k + 1) 'n')) {}
        "<p data-node-id=a>x</p><svg><text>y</text></svg>" "" "" = .error .textWithChildren := by
  have hp : Markup.readFragment "<p data-node-id=a>x</p>" =
      .ok [.element "p" [("data-node-id", "a")] [.text "x"]] :=
    eq_ok_of_toOption (by decide +kernel)
  have hsvg : Markup.readFragment
      (splitStyles {} "<p data-node-id=a>x</p><svg><text>y</text></svg>").1 =
      .ok [.element "p" [("data-node-id", "a")] [.text "x"],
        .element "svg" [] [.element "text" [] [.text "y"]]] :=
    eq_ok_of_toOption (by decide +kernel)
  exact ⟨((compiles_unless_text_is_filled (supply_replicate (by decide))).2.1 _ hp).1 (by decide),
    ((compiles_unless_text_is_filled (supply_replicate (by decide))).1 {} _ "" "" hsvg).2
      (by decide)⟩

/-- Markup that is read and is nevertheless refused: an element that is taken for text. -/
theorem element_named_text_is_refused :
    ∃ forest, Markup.readFragment "<text>hi</text>" = .ok forest ∧
      Supply (fun k => String.ofList (List.replicate (k + 1) 'n')) (embeddedIdentities forest) ∧
      (¬∃ pane, compile (fun k => String.ofList (List.replicate (k + 1) 'n')) {}
        "<text>hi</text>" ""
        "" = .ok pane) ∧
      ¬∃ pane, rehydrate (fun k => String.ofList (List.replicate (k + 1) 'n')) "<text>hi</text>" =
        .ok pane := by
  have hnone : ∀ {ε α : Type} {x : Except ε α}, x.toOption.isNone = true → ¬∃ a, x = .ok a := by
    rintro ε α x h ⟨a, rfl⟩
    simp [Except.toOption] at h
  exact ⟨[.element "text" [] [.text "hi"]], eq_ok_of_toOption (by decide +kernel),
    supply_replicate (by decide), hnone (by decide +kernel), hnone (by decide +kernel)⟩

end Pane
