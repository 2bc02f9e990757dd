import Pane.Proofs.Tree.Walk
import Pane.Tree.Check

/-!
# The rules that the check enforces

The check is a walk that stops at the first breach.  What it enforces can be said without a walk: of
the identities of a tree none is empty and no two are the same, and each node by itself keeps the
two other rules.

Of these two rules a built tree keeps the one on attributes whatever it is built from.  The other
says that runs of text have no children, and a run of text is told by its tag.  An element of the
markup may have that very tag, as one of a drawing does, and the check takes it for a run of text.

* `Node.KeepsRules` — the rules on attributes and on runs of text.
* **`checkTree_eq_ok_iff`** — the check passes a tree exactly if the rules are kept.
* **`checkTree_error`** — where all rules are kept but the one on runs of text, that one is
  reported.
* `fillsText` — whether some kept element has the tag of runs of text and kept content.
* **`keepsRules_buildForest`** — in a built forest the nodes keep those two rules exactly if no
  element is taken for a run of text.
-/

namespace Pane

/-! ## One node -/

/-- The rules for a node by itself: it keeps allowed attributes only, and a run of text has no
children. -/
structure Node.KeepsRules (n : Node) : Prop where
  allowed : ∀ name ∈ n.attrs.keys, isAllowedAttribute name = true
  childless : n.tag = Node.textTag → n.children = []

/-- A node that keeps allowed attributes, and an identity that is new, passes unless it is a run of
text with children. -/
theorem checkSelf_eq {n : Node} {taken : List String}
    (ha : ∀ name ∈ n.attrs.keys, isAllowedAttribute name = true)
    (hid : ∀ id, n.id = some id → id ≠ "" ∧ id ∉ taken) :
    checkSelf n taken =
      if n.tag = Node.textTag ∧ n.children ≠ [] then .error .textWithChildren
      else .ok (n.id.toList ++ taken) := by
  have hattr : forbiddenAttribute? n.attrs = none :=
    List.find?_eq_none.2 fun name hname => by simp [ha name hname]
  rw [checkSelf, checkIdentity_eq_ok_iff.2 ⟨hid, rfl⟩, hattr]
  by_cases ht : n.tag = Node.textTag <;> by_cases hc : n.children = [] <;>
    simp [bind, Except.bind, Node.isText, ht, hc]

theorem checkSelf_eq_ok_iff {n : Node} {taken taken' : List String} :
    checkSelf n taken = .ok taken' ↔
      n.KeepsRules ∧ (∀ id, n.id = some id → id ≠ "" ∧ id ∉ taken) ∧
        taken' = n.id.toList ++ taken := by
  constructor
  · intro h
    rw [checkSelf] at h
    cases hid : checkIdentity n.tag taken n.id with
    | error e => simp [hid, bind, Except.bind] at h
    | ok after =>
      obtain ⟨hnew, rfl⟩ := checkIdentity_eq_ok_iff.1 hid
      have hallowed : ∀ name ∈ n.attrs.keys, isAllowedAttribute name = true := by
        cases hf : forbiddenAttribute? n.attrs with
        | some name => simp [hid, hf, bind, Except.bind] at h
        | none => simpa [forbiddenAttribute?] using hf
      rw [← checkSelf.eq_1, checkSelf_eq hallowed hnew] at h
      split at h
      · exact absurd h (by simp)
      · next hpass =>
        refine ⟨⟨hallowed, fun ht => ?_⟩, hnew, (Except.ok.inj h).symm⟩
        exact Classical.byContradiction fun hc => hpass ⟨ht, hc⟩
  · rintro ⟨hrules, hnew, rfl⟩
    rw [checkSelf_eq hrules.allowed hnew, if_neg fun h => h.2 (hrules.childless h.1)]

/-! ## Several nodes -/

theorem checkForest_cons (n : Node) (ns : List Node) (taken : List String) :
    checkForest (n :: ns) taken =
      ((checkSelf n taken).bind (checkForest n.children)).bind (checkForest ns) := by
  rw [checkForest]
  cases n
  rfl

/-- Identities that can be taken one after the other: none is empty, taken or there twice. -/
def CanTake (ids taken : List String) : Prop := ids.Nodup ∧ ∀ id ∈ ids, id ≠ "" ∧ id ∉ taken

theorem canTake_toList {id : Option String} {taken : List String} :
    CanTake id.toList taken ↔ ∀ i, id = some i → i ≠ "" ∧ i ∉ taken := by
  cases id <;> simp [CanTake]

theorem canTake_append {ids more taken : List String} :
    CanTake (ids ++ more) taken ↔ CanTake ids taken ∧ CanTake more (ids.reverse ++ taken) := by
  simp only [CanTake, List.nodup_append, List.mem_append, List.mem_reverse]
  grind

theorem canTake_nil_iff {ids : List String} : CanTake ids [] ↔ ids.Nodup ∧ "" ∉ ids := by
  simp only [CanTake, List.not_mem_nil, not_false_iff, and_true]
  grind

theorem bind_eq_ok_iff {ε α β : Type} {x : Except ε α} {f : α → Except ε β} {b : β} :
    x.bind f = .ok b ↔ ∃ a, x = .ok a ∧ f a = .ok b := by
  cases x <;> simp [Except.bind]

/-- What the check says of some nodes, by induction along the walk. -/
theorem checkForest_eq_ok_iff : ∀ (ns : List Node) (taken taken' : List String),
    checkForest ns taken = .ok taken' ↔
      (∀ n ∈ preorderAll ns, n.KeepsRules) ∧ CanTake (identities ns) taken ∧
        taken' = (identities ns).reverse ++ taken
  | [], taken, taken' => by
      simp [checkForest, preorderAll, identities, CanTake, eq_comm]
  | ⟨tag, attrs, text, children, id⟩ :: ns, taken, taken' => by
      have hrev : id.toList.reverse = id.toList := by cases id <;> rfl
      rw [checkForest_cons]
      simp only [bind_eq_ok_iff, checkSelf_eq_ok_iff, checkForest_eq_ok_iff children,
        checkForest_eq_ok_iff ns, preorderAll_cons, identities_cons, canTake_append,
        canTake_toList, List.cons_append, List.forall_mem_cons, List.forall_mem_append,
        List.reverse_append, hrev, List.append_assoc]
      grind

/-- Where attributes and identities are as they should be, the check reports nothing but a run of
text with children. -/
theorem checkForest_error : ∀ (ns : List Node) (taken : List String) {e : CompileError},
    (∀ n ∈ preorderAll ns, ∀ name ∈ n.attrs.keys, isAllowedAttribute name = true) →
      CanTake (identities ns) taken → checkForest ns taken = .error e → e = .textWithChildren
  | [], _, _, _, _, h => by simp [checkForest] at h
  | ⟨tag, attrs, text, children, id⟩ :: ns, taken, e, ha, ht, h => by
      rw [preorderAll_cons, List.cons_append, List.forall_mem_cons, List.forall_mem_append] at ha
      rw [identities_cons, List.append_assoc, canTake_append, canTake_append, canTake_toList] at ht
      obtain ⟨hself, hbelow, hbehind⟩ := ha
      obtain ⟨hid, htakeBelow, htakeBehind⟩ := ht
      have hrev : id.toList.reverse = id.toList := by cases id <;> rfl
      rw [checkForest_cons, checkSelf_eq hself hid] at h
      split at h
      · exact (Except.error.inj h).symm
      · cases hchildren : checkForest children (id.toList ++ taken) with
        | error e' =>
          obtain rfl : e' = e := by simpa [Except.bind, hchildren] using h
          exact checkForest_error children _ hbelow (hrev ▸ htakeBelow) hchildren
        | ok taken' =>
          have hns : checkForest ns taken' = .error e := by simpa [Except.bind, hchildren] using h
          obtain ⟨-, -, rfl⟩ := (checkForest_eq_ok_iff children _ _).1 hchildren
          exact checkForest_error ns _ hbehind (hrev ▸ htakeBehind) hns

/-! ## Trees -/

/-- **What the check enforces.** -/
theorem checkTree_eq_ok_iff (tree : List Node) :
    checkTree tree = .ok () ↔
      (∀ n ∈ preorderAll tree, n.KeepsRules) ∧ (identities tree).Nodup ∧ "" ∉ identities tree := by
  rw [← canTake_nil_iff, checkTree]
  cases h : checkForest tree [] with
  | ok taken =>
    obtain ⟨hrules, htake, -⟩ := (checkForest_eq_ok_iff tree [] taken).1 h
    exact iff_of_true rfl ⟨hrules, htake⟩
  | error e =>
    refine iff_of_false (by simp [Except.map]) fun hkept => ?_
    have hok := (checkForest_eq_ok_iff tree [] _).2 ⟨hkept.1, hkept.2, rfl⟩
    simp [h] at hok

/-- Where all rules are kept but perhaps the one on runs of text, it is that one which is
reported. -/
theorem checkTree_error {tree : List Node} {e : CompileError}
    (ha : ∀ n ∈ preorderAll tree, ∀ name ∈ n.attrs.keys, isAllowedAttribute name = true)
    (hnodup : (identities tree).Nodup) (hfilled : "" ∉ identities tree)
    (h : checkTree tree = .error e) : e = .textWithChildren := by
  rw [checkTree] at h
  cases hcheck : checkForest tree [] with
  | error e' =>
    obtain rfl : e' = e := by simpa [Except.map, hcheck] using h
    exact checkForest_error tree [] ha (canTake_nil_iff.2 ⟨hnodup, hfilled⟩) hcheck
  | ok taken => simp [Except.map, hcheck] at h

/-! ## Built trees -/

/-- Whether an element that becomes a node has the tag of runs of text and content that is kept. -/
def fillsText (forest : List Dom) : Bool :=
  (keptElements forest).any fun e => e.tag = Node.textTag && e.children.any Dom.isKept

theorem fillsText_skipped {name : String} (h : isSkipped (Text.lower name) = true)
    (attrs : Attributes) (children rest : List Dom) :
    fillsText (.element name attrs children :: rest) = fillsText rest := by
  simp [fillsText, keptElements, Dom.keptElements, h]

theorem fillsText_kept {name : String} (h : isSkipped (Text.lower name) = false)
    (attrs : Attributes) (children rest : List Dom) :
    fillsText (.element name attrs children :: rest) =
      ((Text.lower name = Node.textTag && children.any Dom.isKept) || fillsText children ||
        fillsText rest) := by
  simp [fillsText, keptElements, Dom.keptElements, h, Bool.or_assoc]

/-- **In a built forest the nodes keep their rules** exactly if no element is taken for a run of
text. -/
theorem keepsRules_buildForest (p : Policy) :
    ∀ (forest : List Dom) (editable : Bool) (marker : Option String) (w : Walk),
      (∀ n ∈ preorderAll (buildForest p editable marker forest w).1, n.KeepsRules) ↔
        fillsText forest = false
  | [], _, _, _ => by simp [buildForest, preorderAll, fillsText, keptElements]
  | .comment content :: rest, editable, marker, w => by
      rw [buildForest, keepsRules_buildForest p rest]
      simp [fillsText, keptElements, Dom.keptElements]
  | .text content :: rest, editable, marker, w => by
      have hrun : ∀ n ∈ preorderAll (buildText p editable marker content w).1, n.KeepsRules := by
        have hof : ∀ (text : String) (id : Option String), (Node.ofText text id).KeepsRules :=
          fun _ _ => ⟨by simp [Node.ofText, Table.keys, Table.empty], fun _ => rfl⟩
        rw [buildText]
        split
        · simp [preorderAll]
        · cases editable <;> simp [preorderAll_cons, preorderAll, Node.ofText]
          all_goals exact hof _ _
      rw [buildForest]
      simp only [preorderAll_append, List.forall_mem_append, keepsRules_buildForest p rest]
      have hfills : fillsText (.text content :: rest) = fillsText rest := by
        simp [fillsText, keptElements, Dom.keptElements]
      rw [hfills]
      exact and_iff_right hrun
  | .element name attrs children :: rest, editable, marker, w => by
      cases hskip : isSkipped (Text.lower name) with
      | true =>
        rw [buildForest_skipped _ _ _ _ hskip, fillsText_skipped hskip,
          keepsRules_buildForest p rest]
      | false =>
        rw [buildForest_kept _ _ _ _ hskip, fillsText_kept hskip]
        simp only [preorderAll_cons, List.cons_append, List.forall_mem_cons, List.forall_mem_append,
          keepsRules_buildForest p children, keepsRules_buildForest p rest]
        have hnil := buildForest_eq_nil_iff p (editable || isTextEditable (Text.lower name))
          children none (buildSelf p (Text.lower name) attrs w).2
        generalize (buildForest p (editable || isTextEditable (Text.lower name)) none children
          (buildSelf p (Text.lower name) attrs w).2).1 = below at hnil
        have hself : ({ (buildSelf p (Text.lower name) attrs w).1 with
            children := below } : Node).KeepsRules ↔
            (Text.lower name = Node.textTag → children.any Dom.isKept = false) := by
          constructor
          · exact fun h ht => hnil.1 (h.childless ((buildSelf_tag ..).trans ht))
          · refine fun h => ⟨fun key hkey => ?_, fun ht => ?_⟩
            · exact isAllowedAttribute_of_mem_keys
                (buildSelf_attrs p (Text.lower name) attrs w ▸ hkey)
            · exact hnil.2 (h ((buildSelf_tag ..).symm.trans ht))
        simp only [hself, Bool.or_eq_false_iff, Bool.and_eq_false_imp, decide_eq_true_iff,
          and_assoc]

end Pane
