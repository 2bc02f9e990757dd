import Pane.Proofs.Style.Shown
import Pane.Proofs.Tree.ClassTokens
import Pane.Proofs.Tree.Rederived

/-!
# Elements that are told again

What an element is told to be is recorded on the way, and the node that is made of it is then all
that is left: kept attributes, and class tokens in place of classes and inline style.  Telling the
node again looks at other things.  Of an attribute that is given twice the first value counted, and
the last one is kept.  An inline style counted before the classes, and its token stands behind
theirs.  And the registry has grown in the meantime.

The growth does no harm: a token shows behind the walk what it showed when it was given.  Where
every attribute has one value, what is left is the place of the inline style, and the node is told
to be what the element was exactly if this made no difference.

**The registry.**  `inlineCalls` — the calls that a walk makes.  **`styling_visitAll`** — the
registry behind a pass is that behind these calls.

**Telling twice.**  **`extract?_eq_iff`** — when two elements of one tag are told to be the same.
`Node.retold?` — what a node is told to be by what it has kept.

**One element.**  `Lowered` — the node that an element has become.  **`lowered_at`** — it has the
tokens that the element was told by.

**Result.**  **`elements_are_told_again`**, for the tree as it is and for the tree that is written
and built again.  **`two_elements_are_told_otherwise`** — two elements that are told to be
something else.
-/

namespace Pane

open Markup
open Style (Registry Call DigestsDiffer registrations)

/-! ## The registry -/

/-- The call that a spot makes: its inline style is registered, if it has one that is not blank. -/
def Spot.inlineCall? : Spot → Option Call
  | element _ attrs =>
    ((attributeOf? attrs "style").filter fun body => !Text.isBlank body.toList).map .inline
  | text _ _ _ => none

/-- The calls that a pass over some spots makes. -/
def inlineCalls (ss : List Spot) : List Call := ss.filterMap Spot.inlineCall?

section registry

variable {p : Policy} {r : Registry}

/-- At one spot the inline style is registered, and nothing else. -/
theorem styling_tell (s : Spot) :
    (s.tell (.registry r)).2 = .registry (r.run s.inlineCall?.toList) := by
  cases s with
  | text around before content => rfl
  | element tag attrs =>
    rw [Spot.tell, Spot.inlineCall?, Walk.classTokens]
    cases attributeOf? attrs "style" with
    | none => rfl
    | some body =>
      cases hblank : Text.isBlank body.toList with
      | true => simp [Option.filter, hblank, Registry.run]
      | false =>
        cases hhash : (r.registerInline body).1 <;>
          simp [Option.filter, hblank, Registry.run, Registry.perform, Styling.inline, hhash]

/-- **The registry behind a pass** is that behind the calls of its spots. -/
theorem styling_visitAll {ss : List Spot} {w : Walk} (hw : w.styling = .registry r) :
    (visitAll p ss w).2.styling = .registry (r.run (inlineCalls ss)) := by
  induction ss generalizing r w with
  | nil => exact hw
  | cons s ss ih =>
    have hhere : (s.visit p w).2.styling = .registry (r.run s.inlineCall?.toList) := by
      rw [(s.visit_spec p w).styling, hw, styling_tell]
    rw [visitAll, ih hhere, ← Registry.run_append, inlineCalls, inlineCalls, List.filterMap_cons]
    cases s.inlineCall? <;> rfl

end registry

/-! ## Telling twice -/

/-- The background that an inline style shows. -/
def inlineBackground? (attrs : Attributes) : Option String :=
  (attributeOf? attrs "style").bind fun style => Style.backgroundUrl? (Style.declarationsOf style)

section extract

variable {tag : String} {attrs attrs' : Attributes} {classes classes' : List String}
  {shows shows' : String → Option String}

theorem backgroundOf?_eq :
    backgroundOf? attrs classes shows = (inlineBackground? attrs).or (classes.findSome? shows) := by
  rw [backgroundOf?, inlineBackground?]
  cases (attributeOf? attrs "style").bind _ <;> rfl

theorem backgroundOf?_of_no_style (h : attributeOf? attrs "style" = none) :
    backgroundOf? attrs classes shows = classes.findSome? shows := by
  rw [backgroundOf?_eq, inlineBackground?, h]
  rfl

/-- Where the tag does not decide, the background does. -/
theorem extract?_of_not_mem (htag : tag ∉ ["img", "a", "button"]) :
    Asset.extract? tag attrs classes shows =
      (backgroundOf? attrs classes shows).map fun url =>
        ⟨tag, .background url, Hints.ofAttributes attrs⟩ := by
  simp only [List.mem_cons, List.not_mem_nil, or_false, not_or] at htag
  rw [Asset.extract?, AssetContent.extract?, if_neg htag.1, if_neg htag.2.1, if_neg htag.2.2,
    Option.map_map]
  rfl

/-- **When two elements of one tag are told to be the same**, if a node would keep the same of both:
by the tag, or by the background. -/
theorem extract?_eq_iff (hsame : ∀ name, isAllowedAttribute name = true → name ≠ "class" →
      attributeOf? attrs' name = attributeOf? attrs name) :
    Asset.extract? tag attrs' classes' shows' = Asset.extract? tag attrs classes shows ↔
      tag ∈ ["img", "a", "button"] ∨
        backgroundOf? attrs' classes' shows' = backgroundOf? attrs classes shows := by
  by_cases htag : tag ∈ ["img", "a", "button"]
  · obtain ⟨a, ha⟩ := Option.isSome_iff_exists.1 (extract?_isSome_of_mem htag attrs classes shows)
    have hkind : a.isBackground = false := Asset.isBackground_of_extract? htag ha
    exact iff_of_true ((extract?_congr ha hkind hsame _ _).trans ha.symm) (.inl htag)
  · have hinjective : Function.Injective fun url : String =>
        (⟨tag, .background url, Hints.ofAttributes attrs⟩ : Asset) := fun url url' h => by
      cases h
      rfl
    rw [extract?_of_not_mem htag, extract?_of_not_mem htag, hints_congr hsame,
      (Option.map_injective hinjective).eq_iff]
    exact ⟨.inr, fun h => h.resolve_left htag⟩

end extract

/-- What a node is told to be by what it has kept: its attributes, and its class tokens in order. -/
def Node.retold? (r : Registry) (n : Node) : Option Asset :=
  Asset.extract? n.tag n.attrs.entries n.classTokens r.backgroundFor?

/-- Whether every attribute that a node may keep has one value: the last, which is kept, is the
first, which counts. -/
def SingleValued (attrs : Attributes) : Prop :=
  ∀ name, isAllowedAttribute name = true → name ≠ "class" →
    attrs.reverse.lookup name = attributeOf? attrs name

theorem singleValued_of_nodup {attrs : Attributes} (h : (attrs.map (·.1)).Nodup) :
    SingleValued attrs := fun _ _ _ => Table.lookup_reverse h

/-! ## One element -/

/-- What an element has become: the node has the tag, keeps the attributes with its class tokens in
place of the classes, and was told to be an asset by these tokens. -/
structure Lowered (shows : String → Option String) (tag : String) (attrs : Attributes)
    (asset : Option Asset) (n : Node) : Prop where
  tag_eq : n.tag = tag
  text_eq : n.text = none
  attrs_eq : n.attrs = keptAttributes attrs n.classTokens
  tokens : ∀ token ∈ n.classTokens, Text.IsToken Text.isSpace token.toList
  told : asset = Asset.extract? tag attrs n.classTokens shows

section lowered

variable {shows : String → Option String} {tag : String} {attrs : Attributes}
  {asset : Option Asset} {n : Node} {r again : Registry}

theorem Lowered.attributeOf?_style (h : Lowered shows tag attrs asset n) :
    attributeOf? n.attrs.entries "style" = none := by
  have hkept : attributeOf? n.attrs.entries "style" = n.attrs.get? "style" := rfl
  rw [hkept, h.attrs_eq, get?_style_keptAttributes]

/-- **A node is told to be what its element was**, unless an inline style shows a background that
the tokens do not show first. -/
theorem Lowered.retold?_eq_iff (h : Lowered r.backgroundFor? tag attrs asset n)
    (hattrs : SingleValued attrs) :
    n.retold? r = asset ↔ tag ∈ ["img", "a", "button"] ∨ inlineBackground? attrs = none ∨
      inlineBackground? attrs = n.classTokens.findSome? r.backgroundFor? := by
  have hsame : ∀ name, isAllowedAttribute name = true → name ≠ "class" →
      attributeOf? n.attrs.entries name = attributeOf? attrs name := by
    intro name hname hne
    have hkept : attributeOf? n.attrs.entries name = n.attrs.get? name := rfl
    rw [hkept, h.attrs_eq, get?_keptAttributes, if_neg hne, if_pos hname, hattrs name hname hne]
  rw [h.told, Node.retold?, h.tag_eq, extract?_eq_iff hsame,
    backgroundOf?_of_no_style h.attributeOf?_style, backgroundOf?_eq]
  generalize n.classTokens.findSome? r.backgroundFor? = shown
  cases inlineBackground? attrs with
  | none => simp
  | some url => simp [eq_comm]

/-- The background of a node that is written, over a registry in which its tokens show the same. -/
theorem Lowered.backgroundOf?_written (h : Lowered shows tag attrs asset n)
    (hshown : ∀ token ∈ n.classTokens,
      (again.hashesOf token).findSome? again.backgroundFor? = r.backgroundFor? token) :
    (((n.attrs.get? "class").map again.resolve).getD []).findSome? again.backgroundFor? =
      n.classTokens.findSome? r.backgroundFor? := by
  have hascii : ∀ token ∈ n.classTokens, Text.IsToken Text.isAsciiSpace token.toList := by
    intro token htoken
    obtain ⟨hne, hchars⟩ := h.tokens token htoken
    refine ⟨hne, fun c hc => ?_⟩
    cases hspace : Text.isAsciiSpace c with
    | false => rfl
    | true => rw [← hchars c hc, Text.isSpace_of_isAsciiSpace hspace]
  have hclass : n.attrs.get? "class" =
      if n.classTokens = [] then none else some (Text.joinTokens n.classTokens) :=
    (congrArg (Table.get? · "class") h.attrs_eq).trans (get?_class_keptAttributes ..)
  rw [hclass]
  by_cases hnil : n.classTokens = []
  · rw [if_pos hnil, hnil]
    rfl
  · rw [if_neg hnil, Option.map_some, Option.getD_some, Registry.findSome?_resolve _ _ hascii]
    exact Style.findSome?_congr hshown

/-- **A node that is written is told to be what it is told to be by itself**, over a registry in
which its tokens show the same. -/
theorem Lowered.assetIn?_eq (h : Lowered shows tag attrs asset n)
    (hshown : ∀ token ∈ n.classTokens,
      (again.hashesOf token).findSome? again.backgroundFor? = r.backgroundFor? token) :
    n.assetIn? (.registry again) = n.retold? r := by
  have hkept : ∀ key ∈ n.attrs.keys, isAllowedAttribute key = true := by
    rw [h.attrs_eq]
    exact fun key hkey => isAllowedAttribute_of_mem_keys hkey
  have hwritten := attributeOf?_writtenAttributes n.id hkept
  have hstyle := attributeOf?_style_writtenAttributes n.id hkept
  have hsame : ∀ name, isAllowedAttribute name = true → name ≠ "class" →
      attributeOf? (writtenAttributes n.attrs n.id) name = attributeOf? n.attrs.entries name := by
    intro name hname _
    exact attributeOf?_writtenAttributes_of_allowed n.id hkept hname
  have htokens : (Walk.classTokens { styling := .registry again }
      (writtenAttributes n.attrs n.id)).1 = ((n.attrs.get? "class").map again.resolve).getD [] := by
    rw [Walk.classTokens, hstyle, hwritten, if_neg (by decide)]
    rfl
  rw [Node.assetIn?, h.text_eq]
  show Walk.assetOf? { styling := .registry again } n.tag _ = _
  rw [Walk.assetOf?, classTokens_of_no_style hstyle, htokens, Node.retold?, extract?_eq_iff hsame,
    backgroundOf?_of_no_style hstyle, backgroundOf?_of_no_style h.attributeOf?_style]
  exact .inr (h.backgroundOf?_written hshown)

end lowered

/-- The calls of some spots: those in front of one of them, its own, and those behind it. -/
theorem inlineCalls_split {ss : List Spot} {i : Nat} {s : Spot} (hs : ss[i]? = some s) :
    inlineCalls ss = inlineCalls (ss.take i) ++ s.inlineCall?.toList ++
      inlineCalls (ss.drop (i + 1)) := by
  obtain ⟨hi, rfl⟩ := List.getElem?_eq_some_iff.1 hs
  have hsplit : ss = ss.take i ++ ss[i] :: ss.drop (i + 1) := by simp
  conv_lhs => rw [hsplit]
  rw [inlineCalls, List.filterMap_append, List.filterMap_cons, inlineCalls, inlineCalls]
  cases ss[i].inlineCall? <;> simp

/-- The tokens of an element, over the registry that calls have led to: they are stored behind its
own call, and the element is told by what is stored there. -/
theorem classTokens_stored {percentUnits : Bool} {calls : List Call} {w : Walk} (tag : String)
    (attrs : Attributes) (hw : w.styling = .registry ((Registry.empty percentUnits).run calls)) :
    let here := (Registry.empty percentUnits).run
      (calls ++ (Spot.element tag attrs).inlineCall?.toList)
    here.Sound ∧ (∀ token ∈ (w.classTokens attrs).1, (here.rules.get? token).isSome = true) ∧
      w.assetOf? tag attrs =
        Asset.extract? tag attrs (w.classTokens attrs).1 here.backgroundFor? := by
  intro here
  have hfront := Registry.sound_run calls (Registry.sound_empty percentUnits)
  have hsound : here.Sound := Registry.sound_run _ (Registry.sound_empty percentUnits)
  have hstyling : (w.classTokens attrs).2.styling = .registry here := by
    have htell := congrArg Prod.snd (tell_element w tag attrs)
    rw [hw, styling_tell, ← Registry.run_append] at htell
    exact htell.symm
  obtain ⟨r', hr', -, hshown⟩ := shown_of_classTokens hw .refl hfront attrs
  obtain rfl : here = r' := Styling.registry.inj (hstyling.symm.trans hr')
  refine ⟨hsound, fun token htoken => ?_, ?_⟩
  · obtain ⟨⟨width, hlayer⟩, -⟩ := hshown token htoken
    exact hsound.layered width token hlayer
  · rw [Walk.assetOf?, hstyling]
    rfl

/-- **What an element has become**, seen from behind the walk: its tokens show there what they
showed when the element was told, since the registry keeps what it has stored. -/
theorem lowered_at {p : Policy} {forest : List Dom} {percentUnits : Bool} {calls : List Call}
    (hdigests : DigestsDiffer (registrations (calls ++ inlineCalls (spots [] [] forest)))) {i : Nat}
    {n : Node} {tag : String} {attrs : Attributes} :
    let r := (Registry.empty percentUnits).run calls
    (preorderAll (buildTree p (.registry r) forest).1)[i]? = some n →
    (spots [] [] forest)[i]? = some (.element tag attrs) →
      ∃ asset, (told (.registry r) (spots [] [] forest))[i]? = some (.element tag attrs, asset) ∧
        Lowered (r.run (inlineCalls (spots [] [] forest))).backgroundFor? tag attrs asset n := by
  intro r hn hs
  obtain ⟨s, hs', hmade⟩ := made_at hn
  obtain rfl : Spot.element tag attrs = s := Option.some.inj (hs.symm.trans hs')
  have htold := getElem?_told p (spots [] [] forest) { styling := .registry r } i
  rw [hs, Option.map_some] at htold
  have hfront : (visitAll p ((spots [] [] forest).take i) { styling := .registry r }).2.styling =
      .registry (r.run (inlineCalls ((spots [] [] forest).take i))) := styling_visitAll rfl
  generalize (visitAll p ((spots [] [] forest).take i) { styling := .registry r }).2 = w
    at hmade htold hfront
  rw [← Registry.run_append] at hfront
  obtain ⟨hsound, hstored, hasset⟩ := classTokens_stored tag attrs hfront
  -- the node is what the pass has made of the spot
  have hself : (buildSelf p tag attrs w).1 = n.withoutChildren := hmade
  have htag : n.tag = tag := (congrArg Node.tag hself).symm.trans (buildSelf_tag ..)
  have htext : n.text = none := (congrArg Node.text hself).symm.trans (buildSelf_text ..)
  have hattrs : n.attrs = keptAttributes attrs (w.classTokens attrs).1 :=
    (congrArg Node.attrs hself).symm.trans (buildSelf_attrs ..)
  have htokens := fun token htoken => hsound.isToken (hstored token htoken)
  have hclasses : n.classTokens = (w.classTokens attrs).1 :=
    classTokens_keptAttributes hattrs htokens
  rw [← hclasses] at hattrs htokens hasset hstored
  -- what the tokens show is not changed by the calls behind the spot
  have hcalls : calls ++ inlineCalls (spots [] [] forest) =
      calls ++ inlineCalls ((spots [] [] forest).take i) ++
        (Spot.element tag attrs).inlineCall?.toList ++
          inlineCalls ((spots [] [] forest).drop (i + 1)) := by
    rw [inlineCalls_split hs]
    simp only [List.append_assoc]
  have hbehind : ∀ token ∈ n.classTokens,
      ((Registry.empty percentUnits).run (calls ++ inlineCalls ((spots [] [] forest).take i) ++
        (Spot.element tag attrs).inlineCall?.toList)).backgroundFor? token =
          (r.run (inlineCalls (spots [] [] forest))).backgroundFor? token := by
    intro token htoken
    rw [hcalls] at hdigests
    rw [← Registry.run_append, hcalls]
    exact (Registry.backgroundFor?_run_append hdigests (hstored token htoken)).symm
  refine ⟨_, htold, htag, htext, hattrs, htokens, ?_⟩
  rw [tell_element, hasset]
  refine (extract?_eq_iff fun _ _ _ => rfl).2 (.inr ?_)
  rw [backgroundOf?_eq, backgroundOf?_eq, Style.findSome?_congr hbehind]

/-! ## Every element -/

/-- **Elements are told again to be what they were.**  Take the tree that is built of any forest
over the registry that any calls lead to, and an element of it that has one value for every
attribute that is kept.  It is taken for granted that no two fingerprints of what is registered have
one digest.

Telling the node again, by its kept attributes and its class tokens in order over the registry
behind the walk, gives exactly what is recorded of it, or nothing if nothing is, if and only if its
tag decides, or it has no inline background, or its tokens show the inline background first.  And
where the tree is written and built again, over a registry in which the tokens show the same, the
entry of its identity is what the node is told to be; so it is the entry that was there exactly in
these cases. -/
theorem elements_are_told_again {p : Policy} {forest : List Dom}
    (hs : Supply p.fresh (embeddedIdentities forest))
    (htrimmed : ∀ k, Text.trimmed? (p.fresh k) = some (p.fresh k)) {percentUnits : Bool}
    {calls : List Call}
    (hdigests : DigestsDiffer (registrations (calls ++ inlineCalls (spots [] [] forest)))) :
    let r := (Registry.empty percentUnits).run calls
    let behind := r.run (inlineCalls (spots [] [] forest))
    let built := buildTree p (.registry r) forest
    built.2.styling = .registry behind ∧
    ∀ (i : Nat) (n : Node) (tag : String) (attrs : Attributes), (preorderAll built.1)[i]? = some n →
      (spots [] [] forest)[i]? = some (.element tag attrs) → SingleValued attrs →
      let unmoved := tag ∈ ["img", "a", "button"] ∨ inlineBackground? attrs = none ∨
        inlineBackground? attrs = n.classTokens.findSome? behind.backgroundFor?
      (n.retold? behind = n.id.bind built.2.assets.get? ↔ unmoved) ∧
      ∀ (p' : Policy) (again : Registry) (key : String),
        (∀ j k, p'.fresh j = p'.fresh k → j = k) → (∀ k, p'.fresh k ∉ identities built.1) →
        (∀ token ∈ n.classTokens,
          (again.hashesOf token).findSome? again.backgroundFor? = behind.backgroundFor? token) →
        n.id = some key →
        let rebuilt := buildTree p' (.registry again) (forestDoms built.1)
        rebuilt.2.assets.get? key = n.retold? behind ∧
          (rebuilt.2.assets.get? key = built.2.assets.get? key ↔ unmoved) := by
  intro r behind built
  have hsound : (Styling.registry r).Sound := Registry.sound_run calls (Registry.sound_empty _)
  have hnodup : (identities built.1).Nodup := nodup_identities hs.injective hs.apart _
  have hfaithful : ∀ n ∈ preorderAll built.1, n.Faithful :=
    faithful_buildTree htrimmed hsound forest
  refine ⟨?_, fun i n tag attrs hn hspot hattrs => ?_⟩
  · have hpass := congrArg (·.2.styling) (visitAll_spots p (.registry r) forest)
    exact hpass.symm.trans (styling_visitAll rfl)
  · obtain ⟨asset, htold, hlowered⟩ := lowered_at hdigests hn hspot
    have hrecorded : n.id.bind built.2.assets.get? = asset :=
      recorded_buildTree hs.injective hs.apart _ hn htold
    have hagain := hlowered.retold?_eq_iff hattrs
    intro unmoved
    refine ⟨by rw [hrecorded, hagain], fun p' again key hinj hapart hshown hid => ?_⟩
    intro rebuilt
    have hmem : n ∈ preorderAll built.1 := List.mem_of_getElem? hn
    have hkey : ∀ k, p'.fresh k ≠ key := by
      rintro k rfl
      exact hapart k (List.mem_filterMap.2 ⟨n, hmem, hid⟩)
    have hrebuilt : rebuilt.2.assets.get? key = n.retold? behind := by
      rw [get?_assets_forestDoms hinj hapart hfaithful hnodup hkey,
        nodeOf?_of_mem hnodup hmem hid, Option.bind_some, hlowered.assetIn?_eq hshown]
    rw [hid, Option.bind_some] at hrecorded
    exact ⟨hrebuilt, by rw [hrebuilt, hrecorded, hagain]⟩

/-- A class and an inline background: the token of the class shows none, so the element is told
again what it was told, also where its tree is written and built over the compiled text. -/
theorem inline_background_is_told_again :
    let p : Policy := ⟨fun k => String.ofList (List.replicate (k + 1) 'n'), false⟩
    let attrs : Attributes :=
      [("class", "a"), ("style", "background:url(/i)"), ("data-node-id", "x")]
    let forest : List Dom := [.element "div" attrs []]
    let calls : List Call := [.sheet ".a\x7bcolor:red\x7d"]
    let r := (Registry.empty true).run calls
    let behind := r.run (inlineCalls (spots [] [] forest))
    let built := buildTree p (.registry r) forest
    let again := ((Registry.empty true).ingest behind.compiled).2
    let rebuilt := buildTree p (.registry again) (forestDoms built.1)
    ∃ n, built.1 = [n] ∧ n.classTokens.length = 2 ∧
      built.2.assets.get? "x" = some ⟨"div", .background "/i", {}⟩ ∧
      n.retold? behind = built.2.assets.get? "x" ∧
      rebuilt.2.assets.get? "x" = built.2.assets.get? "x" := by
  intro p attrs forest calls r behind built again rebuilt
  have hs : Supply p.fresh (embeddedIdentities forest) := supply_replicate (by decide)
  have hdigests : DigestsDiffer (registrations (calls ++ inlineCalls (spots [] [] forest))) := by
    decide +kernel
  have hrun : built.1.length = 1 ∧ (∀ n ∈ built.1, n.classTokens.length = 2 ∧ n.id = some "x" ∧
        inlineBackground? attrs = n.classTokens.findSome? behind.backgroundFor? ∧
        ∀ token ∈ n.classTokens,
          (again.hashesOf token).findSome? again.backgroundFor? = behind.backgroundFor? token) ∧
      identities built.1 = ["x"] ∧
      built.2.assets.get? "x" = some ⟨"div", .background "/i", {}⟩ := by
    decide +kernel
  obtain ⟨hone, hnode, hids, hentry⟩ := hrun
  obtain ⟨n, hn⟩ := List.length_eq_one_iff.1 hone
  obtain ⟨htwo, hid, hshows, hshown⟩ := hnode n (hn ▸ List.mem_singleton_self n)
  have hpreorder : (preorderAll built.1)[0]? = some n := by
    rw [hn, preorderAll_cons]
    rfl
  have hapart : ∀ k, p.fresh k ∉ identities built.1 := by
    rw [hids]
    exact (supply_replicate (by decide)).apart
  obtain ⟨hiff, hrebuilt⟩ := (elements_are_told_again hs trimmed?_replicate hdigests).2 0 n "div"
    attrs hpreorder rfl (singleValued_of_nodup (by decide))
  have hretold : n.retold? behind = built.2.assets.get? "x" := by
    have hbind := hiff.2 (.inr (.inr hshows))
    rw [hid, Option.bind_some] at hbind
    -- with the abbreviations put in, the two agree as they are written
    simp only [behind, built, r]
    exact hbind
  have hfound : rebuilt.2.assets.get? "x" = built.2.assets.get? "x" := by
    have hsame := (hrebuilt p again "x" hs.injective hapart hshown hid).2.2
      (.inr (.inr hshows))
    simp only [rebuilt, built, r]
    exact hsame
  exact ⟨n, hn, htwo, hentry, hretold, hfound⟩

/-- **Two elements that are told to be something else.**  The one has a class with a background
besides its inline one: the inline background is recorded, and the token of the class stands in
front.  The other has an attribute twice: the first value is recorded, and the last one is kept. -/
theorem two_elements_are_told_otherwise :
    let p : Policy := ⟨fun k => String.ofList (List.replicate (k + 1) 'n'), false⟩
    let forest : List Dom :=
      [.element "div" [("class", "a"), ("style", "background:url(/i)")] [],
        .element "a" [("href", "/x"), ("href", "/y")] []]
    let r := (Registry.empty true).run [.sheet ".a\x7bbackground:url(/c)\x7d"]
    let behind := r.run (inlineCalls (spots [] [] forest))
    let built := buildTree p (.registry r) forest
    let again := ((Registry.empty true).ingest behind.compiled).2
    let rebuilt := buildTree p (.registry again) (forestDoms built.1)
    built.1.map Node.id = [some "n", some "nn"] ∧ rebuilt.1 = built.1 ∧
      built.2.assets.entries = [("n", ⟨"div", .background "/i", {}⟩),
        ("nn", ⟨"a", .link (some "/x") {}, {}⟩)] ∧
      built.1.map (Node.retold? behind) = [some ⟨"div", .background "/c", {}⟩,
        some ⟨"a", .link (some "/y") {}, {}⟩] ∧
      rebuilt.2.assets.entries = [("n", ⟨"div", .background "/c", {}⟩),
        ("nn", ⟨"a", .link (some "/y") {}, {}⟩)] := by
  decide +kernel

end Pane
