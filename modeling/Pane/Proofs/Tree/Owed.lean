import Pane.Proofs.Tree.Rules
import Pane.Proofs.Tree.Spots

/-!
# Identities where they are owed

Whatever forest a tree is built from, and however styles are resolved, an identity stands exactly
where one is owed, and one that arrives stays unless it was given before.

The pass over the spots gives identities one after the other.  Behind each spot what is taken are
the identities of the nodes made so far, and the supply has still to give only what is not taken
(`Walk.Passed`).  Both are kept by one spot (`Spot.Visited.passed`) and so by all of them
(`passed_visitAll`).  For the node at some position it remains to look at the pass up to there.

* `Ledger.Unspent.give` — an identity that is given is new.
* **`passed_visitAll`** — what a pass has taken.
* **`getElem?_visitAll`** — the node at a position, from the pass up to it.
* `nodup_identities`, `empty_notMem_identities`, `allowed_buildTree` — the rules of the check that
  every tree keeps.
* **`identities_stand_where_owed`** — for every forest.
-/

namespace Pane

/-! ## The ledger -/

namespace Ledger

variable {fresh : Nat → String} {l : Ledger} {a : Option String}

/-- Nothing that the supply has still to give is taken. -/
def Unspent (fresh : Nat → String) (l : Ledger) : Prop := ∀ k, l.minted ≤ k → fresh k ∉ l.taken

/-- What giving an identity does: it is new, it is all that is taken besides, and the supply stays
unspent. -/
structure Given (fresh : Nat → String) (l : Ledger) (given : String × Ledger) : Prop where
  new : given.1 ∉ l.taken
  taken : given.2.taken = given.1 :: l.taken
  unspent : given.2.Unspent fresh

theorem Unspent.mint (hinj : ∀ j k, fresh j = fresh k → j = k) (hu : l.Unspent fresh) :
    l.Given fresh (l.mint fresh) where
  new := hu l.minted (Nat.le_refl _)
  taken := rfl
  unspent k hk hmem := by
    have hk : l.minted + 1 ≤ k := hk
    rcases List.mem_cons.1 hmem with he | hmem
    · have := hinj k l.minted he
      omega
    · exact hu k (by omega) hmem

/-- An identity that is given is new, if the supply makes none that arrives. -/
theorem Unspent.give (hinj : ∀ j k, fresh j = fresh k → j = k) (hu : l.Unspent fresh)
    (ha : ∀ id, a = some id → ∀ k, fresh k ≠ id) : l.Given fresh (l.give fresh a) := by
  cases a with
  | none => exact hu.mint hinj
  | some id =>
    rw [Ledger.give]
    split
    · exact hu.mint hinj
    · next hfree =>
      refine ⟨hfree, rfl, fun k hk hmem => ?_⟩
      rcases List.mem_cons.1 hmem with he | hmem
      · exact ha id rfl k he
      · exact hu k hk hmem

/-- What arrives is given unless it is taken. -/
theorem give_arriving (id : String) (h : id ∉ l.taken) : (l.give fresh (some id)).1 = id := by
  rw [give, if_neg h]

theorem give_ne_empty (hfilled : ∀ k, fresh k ≠ "") (ha : a ≠ some "") :
    (l.give fresh a).1 ≠ "" := by
  cases a with
  | none => exact hfilled _
  | some id =>
    rw [give]
    split
    · exact hfilled _
    · exact fun he => ha (congrArg some he)

end Ledger

/-! ## The pass -/

/-- What a part of the pass does to the ledger: taken besides are the identities of its nodes, which
are new and distinct, and the supply stays unspent. -/
structure Walk.Passed (p : Policy) (w : Walk) (out : List Node × Walk) : Prop where
  new : ∀ id ∈ out.1.filterMap Node.id, id ∉ w.taken
  nodup : (out.1.filterMap Node.id).Nodup
  taken : ∀ id, id ∈ out.2.taken ↔ id ∈ out.1.filterMap Node.id ∨ id ∈ w.taken
  unspent : out.2.ledger.Unspent p.fresh

section pass

variable {p : Policy} {s : Spot} {ss : List Spot} {w : Walk}

theorem Spot.Visited.passed {out : Node × Walk} (hout : s.Visited p w out)
    (hinj : ∀ j k, p.fresh j = p.fresh k → j = k) (hu : w.ledger.Unspent p.fresh)
    (ha : ∀ id, s.arriving? = some id → ∀ k, p.fresh k ≠ id) : w.Passed p ([out.1], out.2) := by
  have hid := hout.id
  have hledger := hout.ledger
  split at hid
  · next howed =>
    have hgiven := hu.give hinj ha
    have htaken : out.2.taken = (w.ledger.give p.fresh s.arriving?).1 :: w.taken := by
      rw [if_pos howed] at hledger
      exact (congrArg Ledger.taken hledger).trans hgiven.taken
    have hone : [out.1].filterMap Node.id = [(w.ledger.give p.fresh s.arriving?).1] := by
      rw [List.filterMap_cons, hid, List.filterMap_nil]
    refine ⟨?_, ?_, ?_, ?_⟩
    · rw [hone]
      exact List.forall_mem_singleton.2 hgiven.new
    · rw [hone]
      simp
    · intro id
      rw [hone, htaken, List.mem_cons, List.mem_singleton]
    · rw [hledger, if_pos howed]
      exact hgiven.unspent
  · next howed =>
    have hledger' : out.2.ledger = w.ledger := by rw [hledger, if_neg howed]
    have hone : [out.1].filterMap Node.id = [] := by
      rw [List.filterMap_cons, hid, List.filterMap_nil]
    refine ⟨?_, ?_, ?_, ?_⟩
    · simp [hone]
    · simp [hone]
    · intro id
      have htaken : out.2.taken = w.taken := congrArg Ledger.taken hledger'
      simp [hone, htaken]
    · rw [hledger']
      exact hu

theorem Walk.Passed.append {ns ns' : List Node} {w₁ w₂ : Walk} (h : w.Passed p (ns, w₁))
    (h' : w₁.Passed p (ns', w₂)) : w.Passed p (ns ++ ns', w₂) := by
  refine ⟨?_, ?_, ?_, h'.unspent⟩
  · intro id hid
    rw [List.filterMap_append, List.mem_append] at hid
    rcases hid with hid | hid
    · exact h.new id hid
    · exact fun hmem => h'.new id hid ((h.taken id).2 (.inr hmem))
  · rw [List.filterMap_append]
    refine List.nodup_append.2 ⟨h.nodup, h'.nodup, fun id hid id' hid' he => ?_⟩
    exact h'.new id' hid' ((h.taken id').2 (.inl (he ▸ hid)))
  · intro id
    have hbehind := h'.taken id
    rw [h.taken id] at hbehind
    rw [hbehind, List.filterMap_append, List.mem_append]
    exact ⟨fun hmem => by rcases hmem with hmem | hmem | hmem <;> simp [hmem],
      fun hmem => by rcases hmem with (hmem | hmem) | hmem <;> simp [hmem]⟩

/-- **What a pass has taken**, by induction on the spots. -/
theorem passed_visitAll (hinj : ∀ j k, p.fresh j = p.fresh k → j = k) :
    ∀ (ss : List Spot) (w : Walk), w.ledger.Unspent p.fresh →
      (∀ s ∈ ss, ∀ id, s.arriving? = some id → ∀ k, p.fresh k ≠ id) →
      w.Passed p (visitAll p ss w)
  | [], w, hu, _ => ⟨by simp [visitAll], by simp [visitAll], by simp [visitAll], hu⟩
  | s :: ss, w, hu, ha => by
      obtain ⟨hs, hss⟩ := List.forall_mem_cons.1 ha
      have hhere := (s.visit_spec p w).passed hinj hu hs
      exact hhere.append (passed_visitAll hinj ss _ hhere.unspent hss)

/-! ## One position -/

theorem length_visitAll (p : Policy) (ss : List Spot) (w : Walk) :
    (visitAll p ss w).1.length = ss.length := by
  induction ss generalizing w with
  | nil => rfl
  | cons s ss ih => rw [visitAll, List.length_cons, ih, List.length_cons]

theorem take_visitAll (p : Policy) (ss : List Spot) (w : Walk) (i : Nat) :
    (visitAll p (ss.take i) w).1 = (visitAll p ss w).1.take i := by
  induction ss generalizing w i with
  | nil => simp [visitAll]
  | cons s ss ih =>
    cases i with
    | zero => rfl
    | succ i => rw [List.take_succ_cons, visitAll, ih, visitAll, List.take_succ_cons]

/-- **The node at a position** is what the pass makes of the spot there, in the state behind the
spots before it. -/
theorem getElem?_visitAll (p : Policy) (ss : List Spot) (w : Walk) (i : Nat) :
    (visitAll p ss w).1[i]? =
      ss[i]?.map fun s => (s.visit p (visitAll p (ss.take i) w).2).1 := by
  induction ss generalizing w i with
  | nil => simp [visitAll]
  | cons s ss ih =>
    cases i with
    | zero => rfl
    | succ i =>
      rw [visitAll, List.getElem?_cons_succ, ih, List.getElem?_cons_succ, List.take_succ_cons,
        visitAll]

/-- What is told at a position depends on the styles behind the spots before it. -/
theorem getElem?_told (p : Policy) (ss : List Spot) (w : Walk) (i : Nat) :
    (told w.styling ss)[i]? =
      ss[i]?.map fun s => (s, (s.tell (visitAll p (ss.take i) w).2.styling).1) := by
  induction ss generalizing w i with
  | nil => simp [told]
  | cons s ss ih =>
    cases i with
    | zero => rfl
    | succ i =>
      rw [told, List.getElem?_cons_succ, ← (s.visit_spec p w).styling, ih, List.getElem?_cons_succ,
        List.take_succ_cons, visitAll]

end pass

/-! ## Trees -/

section tree

variable {p : Policy} {forest : List Dom}

theorem filterMap_id_visitAll (p : Policy) (styling : Styling) (forest : List Dom) :
    (visitAll p (spots [] [] forest) { styling := styling }).1.filterMap Node.id =
      identities (buildTree p styling forest).1 := by
  rw [visitAll_spots, List.filterMap_map]
  rfl

/-- There is a node for each spot. -/
theorem length_preorderAll_buildTree (p : Policy) (styling : Styling) (forest : List Dom) :
    (preorderAll (buildTree p styling forest).1).length =
      (told styling (spots [] [] forest)).length := by
  have hlength := length_visitAll p (spots [] [] forest) { styling := styling }
  rw [visitAll_spots, List.length_map] at hlength
  rw [length_told]
  exact hlength

/-- What arrives at a spot is not made by a supply that is apart from the forest. -/
theorem ne_arriving (hapart : ∀ k, p.fresh k ∉ embeddedIdentities forest) {s : Spot}
    (hs : s ∈ spots [] [] forest) {id : String} (hid : s.arriving? = some id) (k : Nat) :
    p.fresh k ≠ id := by
  rintro rfl
  rcases arriving_mem forest [] [] s hs hid with h | h
  · exact hapart k h
  · exact absurd h List.not_mem_nil

theorem arriving_ne_empty {s : Spot} : s.arriving? ≠ some "" := by
  intro h
  cases s with
  | element tag attrs =>
    obtain ⟨value, -, htrim⟩ := Option.bind_eq_some_iff.1 h
    exact ne_empty_of_trimmed? htrim rfl
  | text around before content => exact ne_empty_of_trimmed? (trimmed?_of_markerBefore h) rfl

/-- The pass over a whole forest, with the supply unspent before it. -/
theorem passed_spots (hinj : ∀ j k, p.fresh j = p.fresh k → j = k)
    (hapart : ∀ k, p.fresh k ∉ embeddedIdentities forest) (styling : Styling) {ss : List Spot}
    (hss : ss ⊆ spots [] [] forest) :
    Walk.Passed p { styling := styling } (visitAll p ss { styling := styling }) :=
  passed_visitAll hinj ss _ (fun _ _ => List.not_mem_nil)
    fun _ hs _ hid => ne_arriving hapart (hss hs) hid

/-- The node at a position is what the pass makes of its spot. -/
theorem made_at {styling : Styling} {i : Nat} {n : Node}
    (hn : (preorderAll (buildTree p styling forest).1)[i]? = some n) :
    ∃ s, (spots [] [] forest)[i]? = some s ∧
      (s.visit p (visitAll p ((spots [] [] forest).take i) { styling := styling }).2).1 =
        n.withoutChildren := by
  have hpass := getElem?_visitAll p (spots [] [] forest) { styling := styling } i
  rw [visitAll_spots, List.getElem?_map, hn, Option.map_some] at hpass
  exact Option.map_eq_some_iff.1 hpass.symm

/-- The node at a position and its spot, with the state of the pass that has come there. -/
theorem visited_at {styling : Styling} {i : Nat} {n : Node}
    (hn : (preorderAll (buildTree p styling forest).1)[i]? = some n) :
    ∃ s ∈ spots [] [] forest,
      let w := (visitAll p ((spots [] [] forest).take i) { styling := styling }).2
      (told styling (spots [] [] forest))[i]? = some (s, (s.tell w.styling).1) ∧
        s.Visited p w (n.withoutChildren, (s.visit p w).2) := by
  obtain ⟨s, hs, hvisit⟩ := made_at hn
  refine ⟨s, List.mem_of_getElem? hs, ?_, ?_⟩
  · rw [getElem?_told p (spots [] [] forest) { styling := styling } i, hs]
    rfl
  · rw [← hvisit]
    exact s.visit_spec p _

/-- The identities before a position are those that are taken when the pass has come there. -/
theorem mem_taken_at (hinj : ∀ j k, p.fresh j = p.fresh k → j = k)
    (hapart : ∀ k, p.fresh k ∉ embeddedIdentities forest) (styling : Styling) (i : Nat)
    (id : String) :
    id ∈ (visitAll p ((spots [] [] forest).take i) { styling := styling }).2.taken ↔
      some id ∈ ((preorderAll (buildTree p styling forest).1).take i).map Node.id := by
  have hpassed := passed_spots hinj hapart styling (List.take_subset i (spots [] [] forest))
  rw [hpassed.taken, take_visitAll, visitAll_spots, ← List.map_take, List.filterMap_map,
    List.mem_filterMap, List.mem_map]
  constructor
  · rintro (h | h)
    · exact h
    · exact absurd h List.not_mem_nil
  · exact .inl

/-- Identities are distinct also where some of those that are minted are blank. -/
theorem nodup_identities (hinj : ∀ j k, p.fresh j = p.fresh k → j = k)
    (hapart : ∀ k, p.fresh k ∉ embeddedIdentities forest) (styling : Styling) :
    (identities (buildTree p styling forest).1).Nodup := by
  rw [← filterMap_id_visitAll p styling forest]
  exact (passed_spots hinj hapart styling (List.Subset.refl _)).nodup

/-- Every identity has characters. -/
theorem empty_notMem_identities (hs : Supply p.fresh (embeddedIdentities forest))
    (styling : Styling) : "" ∉ identities (buildTree p styling forest).1 := by
  intro hmem
  obtain ⟨n, hn, hid⟩ := List.mem_filterMap.1 hmem
  obtain ⟨i, hi⟩ := List.mem_iff_getElem?.1 hn
  obtain ⟨s, -, -, hvisited⟩ := visited_at hi
  have hgiven : some "" = _ := hid.symm.trans hvisited.id
  split at hgiven
  · exact Ledger.give_ne_empty hs.filled arriving_ne_empty (Option.some.inj hgiven).symm
  · exact absurd hgiven (by simp)

/-- **The nodes of a built tree keep allowed attributes only.** -/
theorem allowed_buildTree (styling : Styling) :
    ∀ n ∈ preorderAll (buildTree p styling forest).1, ∀ name ∈ n.attrs.keys,
      isAllowedAttribute name = true := by
  intro n hn
  obtain ⟨i, hi⟩ := List.mem_iff_getElem?.1 hn
  obtain ⟨s, -, -, hvisited⟩ := visited_at hi
  exact hvisited.attrs

end tree

/-- **Identities stand exactly where they are owed.**  Given a good supply, the nodes of a tree in
pre-order are those of the spots of its forest.  Each node has an identity exactly if its spot is
owed one, and then it has the one that arrives there unless a node before it has that.  All
identities are distinct and have characters, nodes keep allowed attributes only, and the one error
that the check of the tree may give is that on runs of text with children. -/
theorem identities_stand_where_owed {p : Policy} {forest : List Dom}
    (hs : Supply p.fresh (embeddedIdentities forest)) (styling : Styling) :
    let tree := (buildTree p styling forest).1
    (preorderAll tree).length = (told styling (spots [] [] forest)).length ∧
      (∀ (i : Nat) (n : Node) (s : Spot) (asset : Option Asset), (preorderAll tree)[i]? = some n →
        (told styling (spots [] [] forest))[i]? = some (s, asset) →
        n.tag = s.tag ∧ n.text = s.text? ∧ n.id.isSome = s.isOwed p.trusted asset ∧
          ∀ id, n.id.isSome = true → s.arriving? = some id →
            n.id = some id ∨ some id ∈ ((preorderAll tree).take i).map Node.id) ∧
      (identities tree).Nodup ∧ "" ∉ identities tree ∧
      (∀ n ∈ preorderAll tree, ∀ name ∈ n.attrs.keys, isAllowedAttribute name = true) ∧
      ∀ e, checkTree tree = .error e → e = .textWithChildren := by
  intro tree
  have hallowed : ∀ n ∈ preorderAll tree, ∀ name ∈ n.attrs.keys, isAllowedAttribute name = true :=
    allowed_buildTree styling
  have hnodup : (identities tree).Nodup := nodup_identities hs.injective hs.apart styling
  have hfilled : "" ∉ identities tree := empty_notMem_identities hs styling
  refine ⟨?_, ?_, hnodup, hfilled, hallowed, fun e he => checkTree_error hallowed hnodup hfilled he⟩
  · exact length_preorderAll_buildTree p styling forest
  · intro i n s asset hn htold
    obtain ⟨s', -, htold', hvisited⟩ := visited_at hn
    obtain ⟨rfl, rfl⟩ := Prod.mk.inj (Option.some.inj (htold'.symm.trans htold))
    have hid : n.id = _ := hvisited.id
    refine ⟨hvisited.tag, hvisited.text, ?_, fun id hsome harrive => ?_⟩
    · rw [hid]
      split <;> simp [*]
    · rw [hid] at hsome ⊢
      split at hsome
      · next howed =>
        rw [if_pos howed, harrive, ← mem_taken_at hs.injective hs.apart]
        by_cases htaken : id ∈
            (visitAll p ((spots [] [] forest).take i) { styling := styling }).2.taken
        · exact .inr htaken
        · exact .inl (congrArg some (Ledger.give_arriving id htaken))
      · exact absurd hsome Bool.false_ne_true

/-- A paragraph and its copy: the marker before the text is kept, and so is the identity of the
first paragraph, while the copy gets a new one. -/
theorem copied_paragraph_gets_new_identity :
    let p : Policy := ⟨fun k => String.ofList (List.replicate (k + 1) 'n'), true⟩
    let forest : List Dom :=
      [.element "P" [("data-node-id", " a ")] [.comment "nid:b", .text "x"],
        .element "P" [("data-node-id", "a")] []]
    Supply p.fresh (embeddedIdentities forest) ∧
      (preorderAll (buildTree p .verbatim forest).1).map Node.id = [some "a", some "b", some "n"] ∧
      (∀ n, (preorderAll (buildTree p .verbatim forest).1)[2]? = some n →
        n.id = some "a" ∨
          some "a" ∈ ((preorderAll (buildTree p .verbatim forest).1).take 2).map Node.id) ∧
      (identities (buildTree p .verbatim forest).1).Nodup := by
  intro p forest
  have hs : Supply p.fresh (embeddedIdentities forest) := supply_replicate (by decide)
  have howed := identities_stand_where_owed hs .verbatim
  refine ⟨hs, by decide +kernel, fun n hn => ?_, howed.2.2.1⟩
  obtain ⟨-, -, hsome, hkept⟩ := howed.2.1 2 n (.element "p" [("data-node-id", "a")]) none hn rfl
  exact hkept "a" (hsome.trans (by decide)) (by decide)

end Pane
