import Pane.Proofs.Style.Turned

/-!
# Sheets in which one reference is turned

The rules of a sheet are asked one after the other, those of a group where the group stands, and the
first one that is of the classes and shows a background is changed.  Where it stands is again a
*place*, of an item first and then of the sheet: the same sheet is written with another rule in it.

**Rules.**  `Rule.IsSelected` — a rule of one of the classes.  `Rule.replaceBackground?_eq_some_iff`
— where a rule is changed.

**Places.**  `ItemPlace`, `RulePlace` — what is around a rule.  `RulePlace.rules_fill` — the rules
in front of it and behind it.

**Changes.**  `Item.replaceBackground?_eq_some_iff`, **`Sheet.replaceBackground?_eq_some_iff`** — an
item and a sheet are changed in one place, where nothing in front can be changed.

**Result.**  **`substitution_turns_one_reference`**.
-/

namespace Pane.Style

/-! ## Rules -/

/-- A rule is one of the classes: one of its selectors has the name of one. -/
def Rule.IsSelected (r : Rule) (classes : List String) : Prop :=
  ∃ selector ∈ r.selectors, ∃ s, ClassSelector.read? selector = some s ∧ s.name ∈ classes

namespace Rule

variable {r : Rule} {classes : List String}

theorem isSelected_iff : r.IsSelected classes ↔ r.selects classes = true := by
  rw [selects, List.any_eq_true, IsSelected]
  refine exists_congr fun selector => and_congr_right fun _ => ?_
  cases ClassSelector.read? selector with
  | none => simp
  | some s => simp

instance (r : Rule) (classes : List String) : Decidable (r.IsSelected classes) :=
  decidable_of_iff _ isSelected_iff.symm

/-- A rule is left alone unless it is one of the classes and shows a background. -/
theorem replaceBackground?_eq_none_iff {url : String} : r.replaceBackground? classes url = none ↔
    (r.IsSelected classes → backgroundUrl? r.declarations = none) := by
  rw [← Option.isNone_iff_eq_none, ← Option.not_isSome, isSome_replaceBackground?, isSelected_iff]
  cases r.selects classes <;> cases backgroundUrl? r.declarations <;> simp

/-- A rule is changed where it shows a background, and nowhere else. -/
theorem replaceBackground?_eq_some_iff {url : String} {r' : Rule} :
    r.replaceBackground? classes url = some r' ↔ r.IsSelected classes ∧
      ∃ (q : ValuePlace) (reference : List Char) (address : String),
        r.declarations = q.fill reference ∧ q.Shows reference address ∧
          r' = { r with declarations := q.fill (urlReference url) } := by
  have hchange : ∀ (q : ValuePlace) (reference : List Char) (address : String),
      r.IsSelected classes → r.declarations = q.fill reference → q.Shows reference address →
        r.replaceBackground? classes url =
          some { r with declarations := q.fill (urlReference url) } := by
    intro q reference address hselected hq hshows
    rw [replaceBackground?, if_pos (isSelected_iff.1 hselected), hq, hshows.replaceBackground?_fill]
    rfl
  constructor
  · intro h
    obtain ⟨hselects, -⟩ := of_replaceBackground?_eq_some h
    have hselected := isSelected_iff.2 hselects
    have hshown : (backgroundUrl? r.declarations).isSome = true := by
      simpa [h, hselects] using isSome_replaceBackground? r classes url
    obtain ⟨address, haddress⟩ := Option.isSome_iff_exists.1 hshown
    obtain ⟨q, reference, hq, hshows⟩ := backgroundUrl?_eq_some_iff.1 haddress
    rw [hchange q reference address hselected hq hshows] at h
    exact ⟨hselected, q, reference, address, hq, hshows, (Option.some.inj h).symm⟩
  · rintro ⟨hselected, q, reference, address, hq, hshows, rfl⟩
    exact hchange q reference address hselected hq hshows

end Rule

/-! ## Places of rules -/

/-- Where a rule stands in an item. -/
inductive ItemPlace where
  | alone
  /-- Among the rules of a group. -/
  | group (minWidth : UInt32) (before behind : List Rule)

/-- Where a rule stands in a sheet. -/
structure RulePlace where
  front : List Item
  place : ItemPlace
  back : List Item

namespace ItemPlace

/-- The item with a rule in the place. -/
def fill : ItemPlace → Rule → Item
  | alone, r => .rule r
  | group w before behind, r => .media w (before ++ r :: behind)

/-- The width that a rule in the place applies from. -/
def width : ItemPlace → Option UInt32
  | alone => none
  | group w _ _ => some w

/-- The rules of the item in front of the place. -/
def earlier : ItemPlace → List (Option UInt32 × Rule)
  | alone => []
  | group w before _ => before.map (some w, ·)

/-- The rules of the item behind the place. -/
def later : ItemPlace → List (Option UInt32 × Rule)
  | alone => []
  | group w _ behind => behind.map (some w, ·)

theorem rules_fill (p : ItemPlace) (r : Rule) :
    (p.fill r).rules = p.earlier ++ (p.width, r) :: p.later := by
  cases p with
  | alone => rfl
  | group w before behind => simp [fill, Item.rules, earlier, width, later]

end ItemPlace

namespace RulePlace

/-- The sheet with a rule in the place. -/
def fill (p : RulePlace) (r : Rule) : Sheet := ⟨p.front ++ p.place.fill r :: p.back⟩

/-- The rules of the sheet in front of the place. -/
def earlier (p : RulePlace) : List (Option UInt32 × Rule) :=
  p.front.flatMap Item.rules ++ p.place.earlier

/-- The rules of the sheet behind the place. -/
def later (p : RulePlace) : List (Option UInt32 × Rule) :=
  p.place.later ++ p.back.flatMap Item.rules

/-- **The rules of a sheet** are those in front of a place, the one in it and those behind. -/
theorem rules_fill (p : RulePlace) (r : Rule) :
    (p.fill r).rules = p.earlier ++ (p.place.width, r) :: p.later := by
  rw [Sheet.rules, fill, List.flatMap_append, List.flatMap_cons, ItemPlace.rules_fill, earlier,
    later]
  simp

end RulePlace

/-! ## Changes -/

section changes

variable {classes : List String} {url : String}

theorem Item.replaceBackground?_eq_none_iff {i : Item} : i.replaceBackground? classes url = none ↔
    ∀ x ∈ i.rules, x.2.replaceBackground? classes url = none := by
  cases i with
  | rule r => simp [replaceBackground?, rules]
  | media w rules => simp [replaceBackground?, Item.rules, replaceFirst?_eq_none_iff]
  | verbatim text => simp [replaceBackground?, rules]

theorem Sheet.replaceBackground?_eq_none_iff {s : Sheet} : s.replaceBackground? classes url = none ↔
    ∀ x ∈ s.rules, x.2.replaceBackground? classes url = none := by
  rw [replaceBackground?, Option.map_eq_none_iff, replaceFirst?_eq_none_iff, rules,
    List.forall_mem_flatMap]
  exact forall₂_congr fun i _ => Item.replaceBackground?_eq_none_iff

/-- An item is changed in a place with a rule that is changed, where none in front of it is. -/
theorem Item.replaceBackground?_eq_some_iff {i i' : Item} :
    i.replaceBackground? classes url = some i' ↔ ∃ (p : ItemPlace) (r r' : Rule),
      i = p.fill r ∧ i' = p.fill r' ∧ (∀ x ∈ p.earlier, x.2.replaceBackground? classes url = none) ∧
        r.replaceBackground? classes url = some r' := by
  constructor
  · intro h
    cases i with
    | rule r =>
      obtain ⟨r', hr', rfl⟩ := Option.map_eq_some_iff.1 h
      exact ⟨.alone, r, r', rfl, rfl, List.forall_mem_nil _, hr'⟩
    | media w rules =>
      obtain ⟨rules', hrules, rfl⟩ := Option.map_eq_some_iff.1 h
      obtain ⟨before, r, r', behind, rfl, rfl, hbefore, hr'⟩ := of_replaceFirst?_eq_some hrules
      exact ⟨.group w before behind, r, r', rfl, rfl, List.forall_mem_map.2 hbefore, hr'⟩
    | verbatim text => cases h
  · rintro ⟨p, r, r', rfl, rfl, hearlier, hr'⟩
    cases p with
    | alone =>
      rw [ItemPlace.fill, replaceBackground?, hr']
      rfl
    | group w before behind =>
      have hbefore : ∀ x ∈ before, x.replaceBackground? classes url = none := fun x hx =>
        hearlier (some w, x) (List.mem_map_of_mem hx)
      rw [ItemPlace.fill, replaceBackground?, replaceFirst?_of_front hbefore hr']
      rfl

/-- A sheet is changed in a place with a rule that is changed, where none in front of it is. -/
theorem Sheet.replaceBackground?_eq_some_iff {s s' : Sheet} :
    s.replaceBackground? classes url = some s' ↔ ∃ (p : RulePlace) (r r' : Rule),
      s = p.fill r ∧ s' = p.fill r' ∧ (∀ x ∈ p.earlier, x.2.replaceBackground? classes url = none) ∧
        r.replaceBackground? classes url = some r' := by
  constructor
  · intro h
    obtain ⟨items', hitems, rfl⟩ := Option.map_eq_some_iff.1 h
    obtain ⟨front, i, i', back, hs, rfl, hfront, hi'⟩ := of_replaceFirst?_eq_some hitems
    obtain ⟨p, r, r', rfl, rfl, hearlier, hr'⟩ := Item.replaceBackground?_eq_some_iff.1 hi'
    refine ⟨⟨front, p, back⟩, r, r', congrArg Sheet.mk hs, rfl, ?_, hr'⟩
    refine List.forall_mem_append.2 ⟨List.forall_mem_flatMap.2 fun i hi => ?_, hearlier⟩
    exact Item.replaceBackground?_eq_none_iff.1 (hfront i hi)
  · rintro ⟨p, r, r', rfl, rfl, hearlier, hr'⟩
    obtain ⟨hfront, hplace⟩ := List.forall_mem_append.1 hearlier
    have hnone : ∀ i ∈ p.front, i.replaceBackground? classes url = none := fun i hi =>
      Item.replaceBackground?_eq_none_iff.2 (List.forall_mem_flatMap.1 hfront i hi)
    have hitem : (p.place.fill r).replaceBackground? classes url = some (p.place.fill r') :=
      Item.replaceBackground?_eq_some_iff.2 ⟨p.place, r, r', rfl, rfl, hplace, hr'⟩
    rw [replaceBackground?, RulePlace.fill, replaceFirst?_of_front hnone hitem]
    rfl

end changes

/-- **Substitution turns one reference.**  Nothing is substituted exactly if no rule of the classes
shows a background, in a group or alone.  Otherwise there is a first such rule, and in it the
reference that its background is read from: the text that results is the sheet as it was read,
written with the reference turned, and with every other rule, every other declaration and the rest
of the value as they were. -/
theorem substitution_turns_one_reference (text : String) (classes : List String) (url : String) :
    (substituteBackground? text classes url = none ↔
      ∀ x ∈ (Sheet.read text).rules,
        x.2.IsSelected classes → backgroundUrl? x.2.declarations = none) ∧
    ∀ written, substituteBackground? text classes url = some written ↔
      ∃ (p : RulePlace) (r : Rule) (q : ValuePlace) (reference : List Char) (address : String),
        Sheet.read text = p.fill r ∧
        (Sheet.read text).rules = p.earlier ++ (p.place.width, r) :: p.later ∧
        (∀ x ∈ p.earlier, x.2.IsSelected classes → backgroundUrl? x.2.declarations = none) ∧
        r.IsSelected classes ∧ backgroundUrl? r.declarations = some address ∧
        r.declarations = q.fill reference ∧ q.Shows reference address ∧
        written = (p.fill { r with declarations := q.fill (urlReference url) }).render := by
  constructor
  · rw [substituteBackground?, Option.map_eq_none_iff, Sheet.replaceBackground?_eq_none_iff]
    exact forall₂_congr fun x _ => Rule.replaceBackground?_eq_none_iff
  · intro written
    constructor
    · intro h
      obtain ⟨s', hs', rfl⟩ := Option.map_eq_some_iff.1 h
      obtain ⟨p, r, r', hs, rfl, hearlier, hr'⟩ := Sheet.replaceBackground?_eq_some_iff.1 hs'
      obtain ⟨hselected, q, reference, address, hq, hshows, rfl⟩ :=
        Rule.replaceBackground?_eq_some_iff.1 hr'
      refine ⟨p, r, q, reference, address, hs, hs ▸ p.rules_fill r, fun x hx => ?_, hselected, ?_,
        hq, hshows, rfl⟩
      · exact Rule.replaceBackground?_eq_none_iff.1 (hearlier x hx)
      · exact backgroundUrl?_eq_some_iff.2 ⟨q, reference, hq, hshows⟩
    · rintro ⟨p, r, q, reference, address, hs, -, hearlier, hselected, -, hq, hshows, rfl⟩
      have hr : r.replaceBackground? classes url = some _ := Rule.replaceBackground?_eq_some_iff.2
        ⟨hselected, q, reference, address, hq, hshows, rfl⟩
      have hnone : ∀ x ∈ p.earlier, x.2.replaceBackground? classes url = none := fun x hx =>
        Rule.replaceBackground?_eq_none_iff.2 (hearlier x hx)
      exact Option.map_eq_some_iff.2
        ⟨_, Sheet.replaceBackground?_eq_some_iff.2 ⟨p, r, _, hs, rfl, hnone, hr⟩, rfl⟩

/-- A rule of another class and a rule without a background stand in front of the one that is
changed, which is in a group and has a declaration in front that shows nothing. -/
theorem second_rule_of_group_is_turned :
    let text := ".b\x7bbackground:url(b)\x7d@media (min-width: 600px)\x7b.a\x7bcolor:red\x7d" ++
      "i,.\\61 :hover\x7bbackground:none;background:url( a ) top\x7d\x7d.a\x7bbackground:url(c)\x7d"
    (¬∀ x ∈ (Sheet.read text).rules,
        x.2.IsSelected ["a"] → backgroundUrl? x.2.declarations = none) ∧
      substituteBackground? text ["a"] "n" = some
        (".b\x7bbackground:url(b)\x7d\n@media (min-width: 600px)\x7b\n.a\x7bcolor:red\x7d\n" ++
          "i,.\\61 :hover\x7bbackground:none;background:url(\"n\") top\x7d\n\x7d\n" ++
          ".a\x7bbackground:url(c)\x7d") := by
  intro text
  let p : RulePlace := ⟨[.rule ⟨[".b"], [⟨"background", "url(b)"⟩]⟩],
    .group 600 [⟨[".a"], [⟨"color", "red"⟩]⟩] [], [.rule ⟨[".a"], [⟨"background", "url(c)"⟩]⟩]⟩
  let q : ValuePlace := ⟨[⟨"background", "none"⟩], "background", [], " top".toList, []⟩
  let r : Rule := ⟨["i", ".\\61 :hover"], q.fill "url( a )".toList⟩
  have hread : Sheet.read text = p.fill r := by decide +kernel
  have hearlier : ∀ x ∈ p.earlier,
      x.2.IsSelected ["a"] → backgroundUrl? x.2.declarations = none := by decide +kernel
  have hselected : r.IsSelected ["a"] := by decide +kernel
  have hshows : q.Shows "url( a )".toList "a" := by decide +kernel
  obtain ⟨hnone, hsome⟩ := substitution_turns_one_reference text ["a"] "n"
  have hturned := (hsome _).2 ⟨p, r, q, _, _, hread, hread ▸ p.rules_fill r, hearlier, hselected,
    backgroundUrl?_eq_some_iff.2 ⟨q, _, rfl, hshows⟩, rfl, hshows, rfl⟩
  have hwritten : (p.fill { r with declarations := q.fill (urlReference "n") }).render =
      ".b\x7bbackground:url(b)\x7d\n@media (min-width: 600px)\x7b\n.a\x7bcolor:red\x7d\n" ++
        "i,.\\61 :hover\x7bbackground:none;background:url(\"n\") top\x7d\n\x7d\n" ++
        ".a\x7bbackground:url(c)\x7d" := by decide +kernel
  rw [hwritten] at hturned
  refine ⟨fun hall => ?_, hturned⟩
  rw [hnone.2 hall] at hturned
  cases hturned

end Pane.Style
