import Pane.Proofs.Text.Tokens
import Pane.Proofs.Tree.Arrivals

/-!
# What the builder makes

Whatever the markup was and however style was resolved, the nodes of a tree are of two kinds, and
which of them have an identity follows from their tags and from what is around them.  A run of text
is not empty and in normal form, and has an identity exactly if it stands in an element whose text
can be edited.  An element keeps allowed attributes only, and has an identity at least if its tag
always comes with one.

* `isIdentifiedTag` — the tags that always come with an identity.
* `Node.Built`, `BuiltAll` — what is said of the nodes of a tree.
* **`builtAll_buildForest`** — it holds of every tree that is built.
-/

namespace Pane

/-! ## Elements that always have an identity -/

/-- Whether elements of a tag always have an identity. -/
def isIdentifiedTag (tag : String) : Bool :=
  isTextEditable tag || decide (tag ∈ ["img", "a", "button"])

theorem extract?_isSome_of_mem {tag : String} (h : tag ∈ ["img", "a", "button"])
    (attrs : Attributes) (classes : List String) (backgroundFor? : String → Option String) :
    (Asset.extract? tag attrs classes backgroundFor?).isSome = true := by
  simp only [List.mem_cons, List.not_mem_nil, or_false] at h
  rcases h with rfl | rfl | rfl <;> simp [Asset.extract?, AssetContent.extract?]

theorem Walk.identifies_of_isIdentifiedTag {w : Walk} {p : Policy} {tag : String}
    {attrs : Attributes} (h : isIdentifiedTag tag = true) : w.identifies p tag attrs = true := by
  simp only [isIdentifiedTag, Bool.or_eq_true, decide_eq_true_eq] at h
  rw [Walk.identifies]
  rcases h with h | h
  · simp [h]
  · simp [Walk.assetOf?, extract?_isSome_of_mem h]

/-- Without a style attribute and without a registry only the tag makes an asset. -/
theorem extract?_eq_none {tag : String} (h : tag ∉ ["img", "a", "button"]) {attrs : Attributes}
    (hstyle : attributeOf? attrs "style" = none) :
    Asset.extract? tag attrs [] (fun _ => none) = none := by
  simp only [List.mem_cons, List.not_mem_nil, or_false, not_or] at h
  simp [Asset.extract?, AssetContent.extract?, backgroundOf?, hstyle, h]

/-- Without a style attribute and without a registry the tag and what arrives decide. -/
theorem takesIdentity_eq {tag : String} {attrs : Attributes}
    (h : attributeOf? attrs "style" = none) :
    takesIdentity true tag attrs = (isIdentifiedTag tag || (embeddedIdentity? attrs).isSome) := by
  rw [takesIdentity, isIdentifiedTag]
  by_cases hmem : tag ∈ ["img", "a", "button"]
  · simp [extract?_isSome_of_mem hmem, hmem]
  · simp [extract?_eq_none hmem h, hmem]

/-! ## Nodes -/

mutual

/-- What is said of a node that stands where text can be edited or cannot. -/
inductive Node.Built : Bool → Node → Prop where
  | text {editable : Bool} {content : String} {id : Option String} (hne : content ≠ "")
      (hnormal : Markup.normalizeText content = content) (hid : id.isSome = editable) :
      Node.Built editable (Node.ofText content id)
  | element {editable : Bool} {tag : String} {attrs : Table String} {children : List Node}
      {id : Option String} (hattrs : ∀ name ∈ attrs.keys, isAllowedAttribute name = true)
      (hid : isIdentifiedTag tag = true → id.isSome = true)
      (hchildren : BuiltAll (editable || isTextEditable tag) children) :
      Node.Built editable ⟨tag, attrs, none, children, id⟩

/-- What is said of some nodes. -/
inductive BuiltAll : Bool → List Node → Prop where
  | nil {editable : Bool} : BuiltAll editable []
  | cons {editable : Bool} {n : Node} {ns : List Node} (hn : n.Built editable)
      (hns : BuiltAll editable ns) : BuiltAll editable (n :: ns)

end

theorem BuiltAll.append {editable : Bool} : ∀ {ns ms : List Node},
    BuiltAll editable ns → BuiltAll editable ms → BuiltAll editable (ns ++ ms)
  | [], _, _, hms => hms
  | _ :: _, _, .cons hn hns, hms => .cons hn (hns.append hms)

theorem built_withChildren {editable : Bool} {n : Node} {children : List Node}
    (htext : n.text = none) (hattrs : ∀ name ∈ n.attrs.keys, isAllowedAttribute name = true)
    (hid : isIdentifiedTag n.tag = true → n.id.isSome = true)
    (hchildren : BuiltAll (editable || isTextEditable n.tag) children) :
    ({ n with children := children } : Node).Built editable := by
  cases n
  cases htext
  exact .element hattrs hid hchildren

/-- **Every tree that is built** has nodes of these two kinds. -/
theorem builtAll_buildForest (p : Policy) :
    ∀ (forest : List Dom) (editable : Bool) (marker : Option String) (w : Walk),
      BuiltAll editable (buildForest p editable marker forest w).1
  | [], _, _, _ => by
      rw [buildForest]
      exact .nil
  | .comment content :: rest, editable, marker, w => by
      rw [buildForest]
      exact builtAll_buildForest p rest editable _ w
  | .text content :: rest, editable, marker, w => by
      have hhere : BuiltAll editable (buildText p editable marker content w).1 := by
        have hnormal := Text.normalizeText_normalizeText content
        rw [buildText]
        split
        · exact .nil
        · next hne =>
          cases editable with
          | false => exact .cons (.text hne hnormal rfl) .nil
          | true => exact .cons (.text hne hnormal rfl) .nil
      rw [buildForest]
      exact hhere.append (builtAll_buildForest p rest editable none _)
  | .element name attrs children :: rest, editable, marker, w => by
      cases hskip : isSkipped (Text.lower name) with
      | true =>
        rw [buildForest_skipped _ _ _ _ hskip]
        exact builtAll_buildForest p rest editable none w
      | false =>
        have hself : (buildSelf p (Text.lower name) attrs w).1.tag = Text.lower name :=
          buildSelf_tag ..
        rw [buildForest_kept _ _ _ _ hskip]
        refine .cons (built_withChildren (buildSelf_text ..) (fun key hkey => ?_)
          (fun htag => ?_) ?_)
          (builtAll_buildForest p rest editable none _)
        · exact isAllowedAttribute_of_mem_keys (buildSelf_attrs p (Text.lower name) attrs w ▸ hkey)
        · rw [hself] at htag
          rw [buildSelf_of_identifies p _ attrs w (Walk.identifies_of_isIdentifiedTag htag)]
          rfl
        · rw [hself]
          exact builtAll_buildForest p children _ none _

/-- Every node of a built tree is of one of the two kinds. -/
theorem built_of_mem : ∀ {ns : List Node} {editable : Bool}, BuiltAll editable ns →
    ∀ n ∈ preorderAll ns, ∃ editable', n.Built editable'
  | [], _, _, n, hn => by simp [preorderAll] at hn
  | ⟨tag, attrs, text, children, id⟩ :: ms, editable, hbuilt, n, hn => by
      rw [preorderAll_cons, List.cons_append] at hn
      cases hbuilt with
      | cons hm hms =>
        rcases List.mem_cons.1 hn with rfl | hn
        · exact ⟨editable, hm⟩
        · rcases List.mem_append.1 hn with hn | hn
          · cases hm with
            | text => simp [preorderAll] at hn
            | element _ _ hchildren => exact built_of_mem hchildren n hn
          · exact built_of_mem hms n hn

/-- What has text has the tag of runs of text. -/
theorem tag_of_built_text {ns : List Node} {editable : Bool} (hbuilt : BuiltAll editable ns)
    (n : Node) (hn : n ∈ preorderAll ns) (htext : n.text.isSome = true) : n.tag = Node.textTag := by
  obtain ⟨_, hn⟩ := built_of_mem hbuilt n hn
  cases hn with
  | text => rfl
  | element => cases htext

end Pane
