import Pane.Proofs.Tree.Identity

/-!
# The identities of a tree that is read back

Markup that was compiled before is read back without a registry, and then the identities of the tree
depend on one thing only: on what arrives at the places that take an identity, in pre-order.  This
file makes the two halves of that precise.

**What arrives.**  `arrivals`: for each place of a forest that takes an identity, the one that
arrives there, if any.

**What is given.**  `Ledger`: the identities that are taken and the number of those minted, which is
all of the state of a walk that giving an identity reads.  `Ledger.giveAll` gives identities to
places one after the other.

**The two together.**  **`identities_buildForest`** — the identities of the tree are those given for
what arrives.  **`identities_of_arrivals`**, **`arrivals_of_identities`** — the tree has given
identities if these arrive, each at its place, and only then if the supply makes none of them.
-/

namespace Pane

/-! ## What arrives -/

/-- Whether an element has an identity where there is no registry. -/
def takesIdentity (trusted : Bool) (tag : String) (attrs : Attributes) : Bool :=
  isTextEditable tag || (Asset.extract? tag attrs [] fun _ => none).isSome ||
    (trusted && (embeddedIdentity? attrs).isSome)

mutual

/-- What arrives at an element and at the places below it. -/
def Dom.arrivals (trusted editable : Bool) : Dom → List (Option String)
  | .element name attrs children =>
    if isSkipped (Text.lower name) then []
    else
      (if takesIdentity trusted (Text.lower name) attrs then
        [(embeddedIdentity? attrs).bind Text.trimmed?] else []) ++
      arrivals trusted (editable || isTextEditable (Text.lower name)) none children
  | _ => []

/-- What arrives at the places of a forest that take an identity, in pre-order. -/
def arrivals (trusted editable : Bool) (marker : Option String) : List Dom → List (Option String)
  | [] => []
  | .comment content :: rest =>
    arrivals trusted editable (Markup.identityOf? content <|> marker) rest
  | .text content :: rest =>
    (if editable && Markup.normalizeText content ≠ "" then [marker.bind Text.trimmed?] else []) ++
      arrivals trusted editable none rest
  | .element name attrs children :: rest =>
    Dom.arrivals trusted editable (.element name attrs children) ++
      arrivals trusted editable none rest

end

/-! ## What is given -/

/-- The identities taken, the latest first, and the number of those minted. -/
structure Ledger where
  taken : List String
  minted : Nat

namespace Ledger

variable {fresh : Nat → String}

/-- The next identity of the supply. -/
def mint (fresh : Nat → String) (l : Ledger) : String × Ledger :=
  (fresh l.minted, ⟨fresh l.minted :: l.taken, l.minted + 1⟩)

/-- An identity for a place: what arrives there, unless it is taken, and else the next of the
supply. -/
def give (fresh : Nat → String) (l : Ledger) : Option String → String × Ledger
  | some id => if id ∈ l.taken then l.mint fresh else (id, ⟨id :: l.taken, l.minted⟩)
  | none => l.mint fresh

/-- Identities for some places, one after the other. -/
def giveAll (fresh : Nat → String) : Ledger → List (Option String) → List String × Ledger
  | l, [] => ([], l)
  | l, a :: as =>
    let given := l.give fresh a
    let more := given.2.giveAll fresh as
    (given.1 :: more.1, more.2)

theorem giveAll_append (l : Ledger) (as bs : List (Option String)) :
    l.giveAll fresh (as ++ bs) =
      ((l.giveAll fresh as).1 ++ ((l.giveAll fresh as).2.giveAll fresh bs).1,
        ((l.giveAll fresh as).2.giveAll fresh bs).2) := by
  induction as generalizing l with
  | nil => rfl
  | cons a as ih =>
    rw [List.cons_append, giveAll, ih]
    rfl

/-- Identities that arrive, are free and differ are all given. -/
theorem giveAll_map_some {ids : List String} {l : Ledger} (hnodup : ids.Nodup)
    (hfree : ∀ id ∈ ids, id ∉ l.taken) : (l.giveAll fresh (ids.map some)).1 = ids := by
  induction ids generalizing l with
  | nil => rfl
  | cons id ids ih =>
    obtain ⟨hid, hnodup⟩ := List.nodup_cons.1 hnodup
    have hgive : l.give fresh (some id) = (id, ⟨id :: l.taken, l.minted⟩) :=
      if_neg (hfree id (List.mem_cons_self ..))
    have hstill : ∀ i ∈ ids, i ∉ id :: l.taken := by
      intro i hi hmem
      rcases List.mem_cons.1 hmem with rfl | hmem
      · exact hid hi
      · exact hfree i (List.mem_cons_of_mem _ hi) hmem
    have hmore : (giveAll fresh ⟨id :: l.taken, l.minted⟩ (ids.map some)).1 = ids :=
      ih hnodup hstill
    rw [List.map_cons, giveAll, hgive]
    exact congrArg (id :: ·) hmore

/-- Where no minted identity is given, all of them arrived. -/
theorem eq_map_some_of_giveAll {as : List (Option String)} {l : Ledger}
    (hfresh : ∀ k, fresh k ∉ (l.giveAll fresh as).1) :
    as = (l.giveAll fresh as).1.map some := by
  induction as generalizing l with
  | nil => rfl
  | cons a as ih =>
    rw [giveAll] at hfresh ⊢
    have hnot : ∀ k, fresh k ≠ (l.give fresh a).1 := by
      intro k he
      exact hfresh k (he ▸ List.mem_cons_self ..)
    have ha : a = some (l.give fresh a).1 := by
      cases a with
      | none => exact absurd rfl (hnot l.minted)
      | some id =>
        rw [give] at hnot ⊢
        split at hnot
        · exact absurd rfl (hnot l.minted)
        · next hfree => rw [if_neg hfree]
    have hmore := ih fun k hk => hfresh k (List.mem_cons_of_mem _ hk)
    rw [List.map_cons, ← hmore, ← ha]

end Ledger

/-- The part of the state of a walk that giving an identity reads. -/
def Walk.ledger (w : Walk) : Ledger := ⟨w.taken, w.minted⟩

theorem identify_ledger (p : Policy) (w : Walk) (arriving : Option String) :
    ((w.identify p arriving).1, (w.identify p arriving).2.ledger) =
      w.ledger.give p.fresh (arriving.bind Text.trimmed?) := by
  rw [Walk.identify]
  cases h : arriving.bind Text.trimmed? with
  | none => rfl
  | some id =>
    by_cases hid : id ∈ w.taken
    · have htaken : id ∈ w.ledger.taken := hid
      simp only [hid, if_true, Ledger.give, htaken]
      rfl
    · have hfree : id ∉ w.ledger.taken := hid
      simp only [hid, if_false, Ledger.give, hfree]
      rfl

/-! ## The two together -/

theorem classTokens_verbatim {w : Walk} (hw : w.styling = .verbatim) (attrs : Attributes) :
    (w.classTokens attrs).2 = w := by
  rw [Walk.classTokens, hw]
  split
  · split
    · rfl
    · cases w
      cases hw
      rfl
  · rfl

/-- Without a registry the class tokens are those of the class attribute. -/
theorem fst_classTokens_verbatim {w : Walk} (hw : w.styling = .verbatim) (attrs : Attributes) :
    (w.classTokens attrs).1 =
      ((attributeOf? attrs "class").map fun value => Text.dedup (Text.tokens value)).getD [] := by
  rw [Walk.classTokens, hw]
  split
  · split <;> rfl
  · rfl

/-- Without a registry the tag and the attributes tell the asset. -/
theorem assetOf?_verbatim {w : Walk} (hw : w.styling = .verbatim) (tag : String)
    (attrs : Attributes) :
    w.assetOf? tag attrs = Asset.extract? tag attrs [] fun _ => none := by
  have hnone : ∀ classes : List String,
      classes.findSome? (fun _ => (none : Option String)) = none := by
    intro classes
    rw [List.findSome?_eq_none_iff]
    exact fun _ _ => rfl
  have hstyle : Styling.verbatim.backgroundFor? = fun _ => none := rfl
  rw [Walk.assetOf?, classTokens_verbatim hw, hw]
  simp only [hstyle, Asset.extract?, AssetContent.extract?, backgroundOf?, hnone]

theorem identifies_verbatim {w : Walk} (hw : w.styling = .verbatim) (p : Policy) (tag : String)
    (attrs : Attributes) : w.identifies p tag attrs = takesIdentity p.trusted tag attrs := by
  rw [Walk.identifies, takesIdentity, assetOf?_verbatim hw]

variable {p : Policy}

theorem buildSelf_ledger {w : Walk} (hw : w.styling = .verbatim) (tag : String)
    (attrs : Attributes) :
    ((buildSelf p tag attrs w).1.id.toList, (buildSelf p tag attrs w).2.ledger) =
        w.ledger.giveAll p.fresh (if takesIdentity p.trusted tag attrs then
          [(embeddedIdentity? attrs).bind Text.trimmed?] else []) ∧
      (buildSelf p tag attrs w).2.styling = .verbatim := by
  refine ⟨?_, by rw [buildSelf_styling, classTokens_verbatim hw, hw]⟩
  have hident := identifies_verbatim hw p tag attrs
  cases h : takesIdentity p.trusted tag attrs with
  | true =>
    rw [buildSelf_of_identifies p tag attrs w (hident.trans h), classTokens_verbatim hw]
    have hgive := identify_ledger p w (embeddedIdentity? attrs)
    simp only [if_true, Ledger.giveAll, ← hgive]
    rfl
  | false =>
    rw [buildSelf_of_not_identifies p tag attrs w (hident.trans h), classTokens_verbatim hw]
    rfl

theorem buildText_ledger {w : Walk} (hw : w.styling = .verbatim) (editable : Bool)
    (marker : Option String) (content : String) :
    (identities (buildText p editable marker content w).1,
        (buildText p editable marker content w).2.ledger) =
        w.ledger.giveAll p.fresh (if editable && Markup.normalizeText content ≠ "" then
          [marker.bind Text.trimmed?] else []) ∧
      (buildText p editable marker content w).2.styling = .verbatim := by
  rw [buildText]
  by_cases hempty : Markup.normalizeText content = ""
  · simp [hempty, hw, Ledger.giveAll, identities, preorderAll]
  · cases editable with
    | false =>
      simp [hempty, hw, Ledger.giveAll, identities, preorderAll_cons, preorderAll, Node.ofText]
    | true =>
      have hgive := identify_ledger p w marker
      have hplace : (if (true && decide (Markup.normalizeText content ≠ "")) = true then
          [marker.bind Text.trimmed?] else []) = [marker.bind Text.trimmed?] :=
        if_pos (by simp [hempty])
      rw [if_neg hempty, hplace]
      refine ⟨?_, (identify_styling p w marker).trans hw⟩
      simp only [Ledger.giveAll, ← hgive]
      simp [identities, preorderAll_cons, preorderAll, Node.ofText]

/-- **The identities of a tree that is read back** are those given for what arrives. -/
theorem identities_buildForest (p : Policy) :
    ∀ (forest : List Dom) (editable : Bool) (marker : Option String) (w : Walk),
      w.styling = .verbatim →
      (identities (buildForest p editable marker forest w).1,
          (buildForest p editable marker forest w).2.ledger) =
          w.ledger.giveAll p.fresh (arrivals p.trusted editable marker forest) ∧
        (buildForest p editable marker forest w).2.styling = .verbatim
  | [], _, _, w, hw => by
      rw [buildForest, arrivals]
      exact ⟨rfl, hw⟩
  | .comment content :: rest, editable, marker, w, hw => by
      rw [buildForest, arrivals]
      exact identities_buildForest p rest editable _ w hw
  | .text content :: rest, editable, marker, w, hw => by
      obtain ⟨hhere, hw₁⟩ := buildText_ledger (p := p) hw editable marker content
      obtain ⟨hrest, hw₂⟩ := identities_buildForest p rest editable none _ hw₁
      rw [buildForest, arrivals]
      refine ⟨?_, hw₂⟩
      rw [Ledger.giveAll_append, ← hhere, ← hrest, identities_append]
  | .element name attrs children :: rest, editable, marker, w, hw => by
      rw [arrivals, Dom.arrivals]
      cases hskip : isSkipped (Text.lower name) with
      | true =>
        rw [buildForest_skipped _ _ _ _ hskip]
        exact identities_buildForest p rest editable none w hw
      | false =>
        obtain ⟨hself, hw₁⟩ := buildSelf_ledger (p := p) hw (Text.lower name) attrs
        obtain ⟨hbelow, hw₂⟩ := identities_buildForest p children
          (editable || isTextEditable (Text.lower name)) none _ hw₁
        obtain ⟨hbehind, hw₃⟩ := identities_buildForest p rest editable none _ hw₂
        rw [buildForest_kept _ _ _ _ hskip]
        refine ⟨?_, hw₃⟩
        rw [if_neg Bool.false_ne_true, Ledger.giveAll_append, Ledger.giveAll_append, ← hself,
          ← hbelow, ← hbehind]
        simp [identities_cons]

/-- The identities of a tree that is read back, of which the supply has made none so far. -/
theorem identities_buildTree (fresh : Nat → String) (forest : List Dom) :
    identities (buildTree ⟨fresh, true⟩ .verbatim forest).1 =
      (Ledger.giveAll fresh ⟨[], 0⟩ (arrivals true false none forest)).1 :=
  congrArg Prod.fst (identities_buildForest ⟨fresh, true⟩ forest false none
    { styling := .verbatim } rfl).1

/-- **Identities that arrive are those of the tree**, if no two are the same. -/
theorem identities_of_arrivals {ids : List String} (hnodup : ids.Nodup) {forest : List Dom}
    (harrive : arrivals true false none forest = ids.map some) (fresh : Nat → String) :
    identities (buildTree ⟨fresh, true⟩ .verbatim forest).1 = ids := by
  rw [identities_buildTree, harrive]
  exact Ledger.giveAll_map_some hnodup fun _ _ => List.not_mem_nil

/-- **The identities of the tree have arrived**, each at its place, if the supply makes none of
them. -/
theorem arrivals_of_identities {fresh : Nat → String} {ids : List String}
    (hfresh : ∀ k, fresh k ∉ ids) {forest : List Dom}
    (hids : identities (buildTree ⟨fresh, true⟩ .verbatim forest).1 = ids) :
    arrivals true false none forest = ids.map some := by
  rw [identities_buildTree] at hids
  subst hids
  exact Ledger.eq_map_some_of_giveAll hfresh

end Pane
