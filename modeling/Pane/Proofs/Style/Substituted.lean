import Pane.Proofs.Style.PlainSheet
import Pane.Proofs.Style.Recompiled
import Pane.Proofs.Style.Shown

/-!
# Backgrounds put in place of others

An element shows the first background of its classes, in the order of its `class` attribute.  What
is changed when another background is put in its place is the first rule of these classes that shows
one, in the order of the compiled text.  The two need not be rules of one class, and then the
element may go on showing what it showed.

What is true of both orders is told class by class.  The text is read as the rules that were
written, with one of them changed; this one is given a new hash, which is listed under the class
in front of any other, and all else is stored as it was.  So one class shows the new address, and
every other class what it showed.

* `Registry.firstWritten?` — the class whose rule is changed.
* `Registry.Plain` — what is known of a registry behind plain sheets.
* `Registry.Plain.exists_firstWritten` — there is one if a class shows a background.
* `Registry.Plain.exists_replaced`, `Registry.Plain.registrations_replaced` — the rules of the
  changed text, and the contents that they register.
* `Registry.Plain.findSome?_replaced` — what these contribute to each class.
* **`Registry.substitution_replaces_first_written_background`**, and
  **`Registry.substitution_may_leave_first_background`**, two sheets where another one is shown.
-/

namespace Pane.Style

namespace Registry

/-- The class among some whose rule is the first in compiled text to show a background. -/
def firstWritten? (r : Registry) (classes : List String) : Option String :=
  (r.placements.map (·.2)).find? fun hash =>
    decide (hash ∈ classes) && (r.backgroundFor? hash).isSome

variable {r : Registry} {ps : List Registration} {classes : List String} {address : String}

/-- What is known of a registry behind plain sheets: it is sound and orderly, and what it stores are
regular contents, for which regular rules are written. -/
structure Plain (r : Registry) : Prop where
  sound : r.Sound
  orderly : r.Orderly
  content : ∀ hash e, r.rules.get? hash = some e → ∃ p : Registration, p.Regular ∧ p.entry = e
  rule : ∀ hash e, r.rules.get? hash = some e → (e.rule hash).Regular

/-- **Behind plain sheets a registry is plain.** -/
theorem plain_run {percentUnits : Bool} {texts : List String}
    (hplain : ∀ text ∈ texts, ∀ x ∈ (Sheet.read text).rules, x.2.Plain)
    (hclear : ∀ text ∈ texts, ∀ x ∈ (Sheet.read text).rules, ∀ d ∈ x.2.declarations, d.Clear) :
    ((empty percentUnits).run (texts.map .sheet)).Plain := by
  have hwithin := within_run percentUnits (texts.map .sheet)
  have hregular := fun p hp => regular_of_mem_registrations hplain hclear (p := p) hp
  refine ⟨sound_run _ (sound_empty _), orderly_run _ (orderly_empty _), fun hash e he => ?_,
    fun hash e he => ?_⟩
  · obtain ⟨p, hp, rfl⟩ := hwithin.among hash e he
    exact ⟨p, hregular p hp, rfl⟩
  · obtain ⟨p, hp, rfl⟩ := hwithin.among hash e he
    exact hwithin.regular_rule (hregular p hp) he

/-- What is written is regular. -/
theorem Plain.regular (h : r.Plain) : ∀ i ∈ r.compiledSheet.items, i.OfRules Rule.Regular :=
  ofRules_compiledSheet h.rule

section plain

variable (h : r.Plain) {hash : String} {e : Entry} (he : r.rules.get? hash = some e)
include h he

theorem Plain.read?_written :
    ClassSelector.read? ("." ++ hash ++ e.suffix) = some ⟨hash, e.suffix⟩ := by
  obtain ⟨p, hp, rfl⟩ := h.content hash e he
  exact Registry.read?_written h.sound he hp.ends hp.trimmed

/-- A written rule is changed if its hash is one of the classes and shows a background. -/
theorem Plain.isSome_replaceBackground? (classes : List String) (address : String) :
    ((e.rule hash).replaceBackground? classes address).isSome =
      (decide (hash ∈ classes) && (r.backgroundFor? hash).isSome) := by
  have hselects : (e.rule hash).selects classes = decide (hash ∈ classes) := by
    simp [Rule.selects, Entry.rule, h.read?_written he]
  rw [Rule.isSome_replaceBackground?, hselects, backgroundFor?, he]
  rfl

/-- **A rule with a written selector** registers its declarations with the key and the suffix of
the entry, under the hash. -/
theorem Plain.registrations_written {ds : List Declaration} (hds : ds ≠ [])
    (width : Option UInt32) :
    ∃ q : Registration, (⟨["." ++ hash ++ e.suffix], ds⟩ : Rule).registrations width = [q] ∧
      q.name = some hash ∧ q.key = e.cascadeKey ∧ q.suffix = e.suffix ∧ q.declarations = ds := by
  let q : Registration :=
    ⟨some hash, width, cascadeKey ⟨hash, e.suffix⟩, e.suffix, ds, isKey_cascadeKey _⟩
  have hkey : q.key = e.cascadeKey := by
    show cascadeKey ⟨hash, e.suffix⟩ = e.cascadeKey
    rw [cascadeKey, hashedKey?_of_get? h.sound.wellKeyed he, Option.getD_some]
  have hof : Registration.ofClass? ("." ++ hash ++ e.suffix) ds width = some q := by
    rw [Registration.ofClass?, h.read?_written he]
    exact if_neg hds
  refine ⟨q, ?_, rfl, hkey, rfl, rfl⟩
  rw [Rule.registrations, List.filterMap_cons, hof]
  rfl

end plain

/-! ## Written rules -/

/-- Whether a registration has the content of a stored entry. -/
def Holds (r : Registry) (q : Registration) : Prop :=
  ∃ hash e, r.rules.get? hash = some e ∧ q.key = e.cascadeKey ∧ q.suffix = e.suffix ∧
    q.declarations = e.declarations

/-- The registrations of the rules of some placements. -/
def registrationsAt (r : Registry) (placements : List Placement) : List Registration :=
  (placements.filterMap r.placedRule?).flatMap fun x => x.2.registrations x.1

section plain

variable (h : r.Plain)
include h

theorem Plain.filled {hash : String} {e : Entry} (he : r.rules.get? hash = some e) :
    e.declarations ≠ [] := by
  obtain ⟨p, hp, rfl⟩ := h.content hash e he
  exact hp.filled

/-- **The written rules register the contents that they were written for.** -/
theorem Plain.holds_of_mem {placements : List Placement} :
    ∀ q ∈ r.registrationsAt placements, r.Holds q := by
  intro q hq
  obtain ⟨x, hx, hq⟩ := List.mem_flatMap.1 hq
  obtain ⟨p, -, hplaced⟩ := List.mem_filterMap.1 hx
  obtain ⟨e, he, rfl⟩ := Option.map_eq_some_iff.1 hplaced
  obtain ⟨q', hregs, -, hkey, hsuffix, hds⟩ := h.registrations_written he (h.filled he) p.1
  rw [Entry.rule, hregs, List.mem_singleton] at hq
  exact ⟨p.2, e, he, hq ▸ hkey, hq ▸ hsuffix, hq ▸ hds⟩

/-- **What the written rules contribute to a class** is the background of its hash, where they are
placed. -/
theorem Plain.findSome?_registrationsAt (name : String) (placements : List Placement) :
    (r.registrationsAt placements).findSome? (Registration.shownFor? name) =
      placements.findSome? fun p => if p.2 = name then r.backgroundFor? name else none := by
  induction placements with
  | nil => rfl
  | cons p placements ih =>
    rw [List.findSome?_cons, ← ih]
    cases he : r.rules.get? p.2 with
    | none =>
      have hplaced : r.placedRule? p = none := by rw [placedRule?, he]; rfl
      have hnone : (if p.2 = name then r.backgroundFor? name else none) = none := by
        split
        · next hp => rw [← hp, backgroundFor?, he]; rfl
        · rfl
      rw [hnone, registrationsAt, List.filterMap_cons_none hplaced]
      rfl
    | some e =>
      have hplaced : r.placedRule? p = some (p.1, e.rule p.2) := by rw [placedRule?, he]; rfl
      obtain ⟨q, hregs, hname, -, -, hds⟩ := h.registrations_written he (h.filled he) p.1
      have hshown : Registration.shownFor? name q =
          if p.2 = name then r.backgroundFor? name else none := by
        rw [Registration.shownFor?, hname, hds]
        by_cases hp : p.2 = name
        · rw [if_pos (congrArg some hp), if_pos hp, ← hp, backgroundFor?, he]
          rfl
        · rw [if_neg fun hsome => hp (Option.some.inj hsome), if_neg hp]
      rw [registrationsAt, List.filterMap_cons_some hplaced, List.flatMap_cons, Entry.rule, hregs,
        List.singleton_append, List.findSome?_cons, hshown]
      rfl

/-! ## The changed text -/

/-- If one of the classes shows a background, then one of them is the first to be written. -/
theorem Plain.exists_firstWritten
    (hstored : ∀ hash ∈ classes, (r.rules.get? hash).isSome = true)
    (hshows : ∃ hash ∈ classes, (r.backgroundFor? hash).isSome = true) :
    ∃ first, r.firstWritten? classes = some first := by
  obtain ⟨hash, hclass, hshown⟩ := hshows
  refine Option.isSome_iff_exists.1 (List.find?_isSome.2 ⟨hash, ?_, ?_⟩)
  · exact mem_placements_of_isSome h.orderly (hstored hash hclass)
  · simp [hclass, hshown]

/-- **The rules of the compiled text with the first background replaced.**  It is the one of the
class whose rule is the first to show one, and all other rules are written as they were. -/
theorem Plain.exists_replaced {first : String} (hfirst : r.firstWritten? classes = some first)
    (address : String) :
    ∃ s front w back e rule, r.compiledSheet.replaceBackground? classes address = some s ∧
      r.placements = front ++ (w, first) :: back ∧
      (∀ p ∈ front, p.2 ∈ classes → r.backgroundFor? p.2 = none) ∧
      r.rules.get? first = some e ∧
      (e.rule first).replaceBackground? classes address = some rule ∧
      s.rules = front.filterMap r.placedRule? ++ (w, rule) :: back.filterMap r.placedRule? := by
  obtain ⟨hfound, before, behind, hsplit, hbefore⟩ := List.find?_eq_some_iff_append.1 hfirst
  obtain ⟨front, rest, hplacements, rfl, hrest⟩ := List.map_eq_append_iff.1 hsplit
  obtain ⟨⟨w, first⟩, back, rfl, rfl, rfl⟩ := List.map_eq_cons_iff.1 hrest
  have hshown : (r.backgroundFor? first).isSome = true := (Bool.and_eq_true_iff.1 hfound).2
  obtain ⟨e, he⟩ : ∃ e, r.rules.get? first = some e := by
    cases he : r.rules.get? first with
    | none => rw [backgroundFor?, he] at hshown; cases hshown
    | some e => exact ⟨e, rfl⟩
  have hplaced : r.placedRule? (w, first) = some (w, e.rule first) := by
    rw [placedRule?, he]
    rfl
  obtain ⟨rule, hrule⟩ : ∃ rule, (e.rule first).replaceBackground? classes address = some rule := by
    refine Option.isSome_iff_exists.1 ?_
    rw [h.isSome_replaceBackground? he]
    exact hfound
  have hnone : ∀ p ∈ front, p.2 ∈ classes → r.backgroundFor? p.2 = none := by
    intro p hp hclass
    have hno := hbefore p.2 (List.mem_map_of_mem hp)
    simpa [hclass] using hno
  have hkept : ∀ x ∈ front.filterMap r.placedRule?,
      (x.2.replaceBackground? classes address).map (x.1, ·) = none := by
    intro x hx
    obtain ⟨p, hp, hx⟩ := List.mem_filterMap.1 hx
    obtain ⟨e', he', rfl⟩ := Option.map_eq_some_iff.1 hx
    rw [Option.map_eq_none_iff, ← Option.isNone_iff_eq_none, ← Option.not_isSome,
      h.isSome_replaceBackground? he']
    by_cases hclass : p.2 ∈ classes
    · rw [hnone p hp hclass]
      simp
    · simp [hclass]
  have hchange :
      replaceFirst? (fun x => (x.2.replaceBackground? classes address).map (x.1, ·))
          (front.filterMap r.placedRule? ++ (w, e.rule first) :: back.filterMap r.placedRule?) =
        some (front.filterMap r.placedRule? ++ (w, rule) :: back.filterMap r.placedRule?) :=
    replaceFirst?_of_front hkept (by rw [hrule]; rfl)
  have hrules : r.compiledSheet.rules = front.filterMap r.placedRule? ++
      (w, e.rule first) :: back.filterMap r.placedRule? := by
    rw [rules_compiledSheet, hplacements, List.filterMap_append, List.filterMap_cons_some hplaced]
  rw [← hrules, rules_replaceBackground?] at hchange
  obtain ⟨s, hs, hrules'⟩ := Option.map_eq_some_iff.1 hchange
  exact ⟨s, front, w, back, e, rule, hs, hplacements, hnone, he, hrule, hrules'⟩

/-- **What the changed text registers**: the contents of all placements, but for one under a class
that shows another background now. -/
theorem Plain.registrations_replaced (haddress : PlainAddress address) {first : String} {s : Sheet}
    {front back : List Placement} {w : Option UInt32} {e : Entry} {rule : Rule}
    (hs : r.compiledSheet.replaceBackground? classes address = some s)
    (he : r.rules.get? first = some e)
    (hrule : (e.rule first).replaceBackground? classes address = some rule)
    (hrules : s.rules = front.filterMap r.placedRule? ++ (w, rule) ::
      back.filterMap r.placedRule?) :
    ∃ q : Registration, (Sheet.read s.render).registrations =
        r.registrationsAt front ++ q :: r.registrationsAt back ∧
      q.name = some first ∧ backgroundUrl? q.declarations = some address ∧
      '"' ∈ q.fingerprint.toList := by
  have hsame : ∀ l : List Placement, (l.filterMap r.placedRule?).map (fun x => (x.1, x.2.reread)) =
      l.filterMap r.placedRule? := by
    intro l
    refine (List.map_congr_left fun x hx => ?_).trans (List.map_id _)
    obtain ⟨p, -, hplaced⟩ := List.mem_filterMap.1 hx
    obtain ⟨e', he', rfl⟩ := Option.map_eq_some_iff.1 hplaced
    rw [(h.rule p.2 e' he').reread_eq]
    rfl
  obtain ⟨hselectors, hshown, hquote⟩ :=
    (h.rule first e he).backgroundUrl?_replaced haddress hrule
  have hfilled : rule.reread.declarations ≠ [] := by
    intro hnil
    rw [hnil] at hshown
    cases hshown
  obtain ⟨q, hregs, hname, -, -, hds⟩ := h.registrations_written he hfilled w
  have hreread : rule.reread = ⟨["." ++ first ++ e.suffix], rule.reread.declarations⟩ :=
    congrArg (Rule.mk · rule.reread.declarations) hselectors
  refine ⟨q, ?_, hname, hds ▸ hshown, ?_⟩
  · rw [Sheet.registrations, rules_read_replaced haddress h.regular hs, hrules, List.map_append,
      List.map_cons, hsame, hsame, List.flatMap_append, List.flatMap_cons, hreread, hregs]
    rfl
  · rw [Registration.toList_fingerprint, Registration.text, renderDeclarations,
      String.toList_ofList, hds]
    exact List.mem_append_left _ hquote

/-! ## What is shown afterwards -/

/-- A stored content has the fingerprint of its entry, and no quote is in it. -/
theorem Plain.fingerprint_of_holds {hash : String} {e : Entry} (he : r.rules.get? hash = some e)
    {q : Registration} (hkey : q.key = e.cascadeKey) (hsuffix : q.suffix = e.suffix)
    (hds : q.declarations = e.declarations) :
    q.fingerprint = e.fingerprint ∧ '"' ∉ q.fingerprint.toList := by
  obtain ⟨p, hp, rfl⟩ := h.content hash e he
  have hprint : q.fingerprint = p.entry.fingerprint := by
    rw [Registration.fingerprint, Registration.entry, hkey, hsuffix, hds]
    rfl
  refine ⟨hprint, ?_⟩
  have hkeychars : '"' ∉ p.key.toList := fun hmem => absurd (p.keyed.2 _ hmem) (by decide)
  have htext : p.text.toList = declarationChars p.declarations := String.toList_ofList
  rw [hprint]
  show '"' ∉ p.fingerprint.toList
  rw [Registration.toList_fingerprint, htext]
  simp only [List.mem_append, List.mem_cons, not_or]
  exact ⟨fun hmem => hp.plain.noMark _ hmem (by decide), by decide, hkeychars, by decide,
    fun hmem => hp.plainSuffix.noMark _ hmem (by decide)⟩

/-- **The contents of the changed text agree on backgrounds**: the one that is changed is the only
one with a quote, and all others were told apart before. -/
theorem Plain.agreeOnBackground
    (hunique : ∀ hash hash' e e', r.rules.get? hash = some e → r.rules.get? hash' = some e' →
      e.cascadeKey = e'.cascadeKey → e.fingerprint = e'.fingerprint → hash = hash')
    {q : Registration} (hquote : '"' ∈ q.fingerprint.toList)
    (hps : ∀ p ∈ ps, p = q ∨ r.Holds p) : AgreeOnBackground ps := by
  have hdiffer : ∀ p, r.Holds p → q.fingerprint ≠ p.fingerprint := by
    rintro p ⟨hash, e, he, hkey, hsuffix, hds⟩ heq
    exact (h.fingerprint_of_holds he hkey hsuffix hds).2 (heq ▸ hquote)
  intro p hp p' hp' hkeys hprints
  rcases hps p hp with rfl | hold
  · rcases hps p' hp' with rfl | hold'
    · rfl
    · exact absurd hprints (hdiffer p' hold')
  · rcases hps p' hp' with rfl | hold'
    · exact absurd hprints.symm (hdiffer p hold)
    · obtain ⟨hash, e, he, hkey, hsuffix, hds⟩ := hold
      obtain ⟨hash', e', he', hkey', hsuffix', hds'⟩ := hold'
      have hprint := (h.fingerprint_of_holds he hkey hsuffix hds).1
      have hprint' := (h.fingerprint_of_holds he' hkey' hsuffix' hds').1
      obtain rfl := hunique hash hash' e e' he he' (hkey ▸ hkey' ▸ hkeys)
        (hprint ▸ hprint' ▸ hprints)
      obtain rfl : e = e' := Option.some.inj (he.symm.trans he')
      rw [hds, hds']

/-- **One class contributes the new background, and every other one what it did.** -/
theorem Plain.findSome?_replaced {first name : String} {front back : List Placement}
    {w : Option UInt32} (hplacements : r.placements = front ++ (w, first) :: back)
    (hfront : ∀ p ∈ front, p.2 ∈ classes → r.backgroundFor? p.2 = none) {q : Registration}
    (hname : q.name = some first) (hshown : backgroundUrl? q.declarations = some address)
    (hclass : name ∈ classes) (hstored : (r.rules.get? name).isSome = true) :
    (r.registrationsAt front ++ q :: r.registrationsAt back).findSome?
        (Registration.shownFor? name) =
      if name = first then some address else r.backgroundFor? name := by
  rw [List.findSome?_append, List.findSome?_cons, h.findSome?_registrationsAt,
    h.findSome?_registrationsAt]
  by_cases heq : name = first
  · subst heq
    have hnone : front.findSome? (fun p => if p.2 = name then r.backgroundFor? name else none) =
        none := by
      refine List.findSome?_eq_none_iff.2 fun p hp => ?_
      split
      · next hp2 => rw [← hp2]; exact hfront p hp (hp2 ▸ hclass)
      · rfl
    have hself : Registration.shownFor? name q = some address := by
      rw [Registration.shownFor?, if_pos hname, hshown]
    rw [hnone, hself, if_pos rfl]
    rfl
  · have hother : Registration.shownFor? name q = none := by
      rw [Registration.shownFor?, hname, if_neg fun hsome => heq (Option.some.inj hsome).symm]
    obtain ⟨p, hp, hp2⟩ := List.mem_map.1 (mem_placements_of_isSome h.orderly hstored)
    have hkept : p ∈ front ++ back := by
      rw [hplacements, List.mem_append, List.mem_cons] at hp
      rw [List.mem_append]
      exact hp.imp_right fun hp => hp.resolve_left fun he => heq (by rw [← hp2, he])
    have hall := findSome?_ite (p := fun p : Placement => p.2 = name) ⟨p, hkept, hp2⟩
      (r.backgroundFor? name)
    rw [List.findSome?_append] at hall
    rw [hother, if_neg heq]
    exact hall

end plain

/-- **A background put in place of another is that of the class whose rule comes first.**  Sheets of
plain rules have been registered, in which no `url(` runs into a reference, and some class of an
attribute shows a background.  Then the compiled text has one to be replaced, and in a registry
that reads the changed text the classes show what they showed, but for the one whose rule was the
first of the compiled text to show a background: it shows the address.  If this is also the first of
the attribute to show one, then the address is what the attribute shows.  It is taken for granted
that no two fingerprints of what is registered have the same digest. -/
theorem substitution_replaces_first_written_background (percentUnits percentUnits' : Bool)
    (texts : List String) (classAttribute address : String)
    (hplain : ∀ text ∈ texts, ∀ x ∈ (Sheet.read text).rules, x.2.Plain)
    (hclear : ∀ text ∈ texts, ∀ x ∈ (Sheet.read text).rules, ∀ d ∈ x.2.declarations, d.Clear)
    (haddress : PlainAddress address) :
    let r := (empty percentUnits).run (texts.map .sheet)
    let classes := r.resolve classAttribute
    (∃ hash ∈ classes, (r.backgroundFor? hash).isSome = true) →
    ∃ first text, r.firstWritten? classes = some first ∧
      substituteBackground? r.compiled classes address = some text ∧
      (DigestsDiffer (registrations (texts.map .sheet ++ [.sheet text])) →
        let s := ((empty percentUnits').ingest text).2
        let shown := (s.resolve (Text.joinTokens classes)).findSome? s.backgroundFor?
        shown = classes.findSome? (fun hash =>
          if hash = first then some address else r.backgroundFor? hash) ∧
        (classes.find? (fun hash => (r.backgroundFor? hash).isSome) = some first →
          shown = some address)) := by
  intro r classes hshows
  have h : r.Plain := plain_run hplain hclear
  have hstored : ∀ hash ∈ classes, (r.rules.get? hash).isSome = true := fun hash hhash =>
    isSome_get?_of_mem_resolve h.sound hhash
  obtain ⟨first, hfirst⟩ := h.exists_firstWritten hstored hshows
  obtain ⟨s, front, w, back, e, rule, hs, hplacements, hfront, he, hrule, hrules⟩ :=
    h.exists_replaced hfirst address
  refine ⟨first, s.render, hfirst, ?_, fun hdigests => ?_⟩
  · rw [substituteBackground?, Registry.compiled, read_render_of_regular h.regular, hs]
    rfl
  obtain ⟨q, hregs, hname, hshown, hquote⟩ :=
    h.registrations_replaced haddress hs he hrule hrules
  have hall : registrations (texts.map .sheet ++ [.sheet s.render]) =
      registrations (texts.map .sheet) ++ (Sheet.read s.render).registrations := by
    simp [registrations, Call.registrations]
  have hbefore : DigestsDiffer (registrations (texts.map .sheet)) :=
    hdigests.mono fun p hp => hall ▸ List.mem_append_left _ hp
  have hbehind : DigestsDiffer (Sheet.read s.render).registrations :=
    hdigests.mono fun p hp => hall ▸ List.mem_append_right _ hp
  have hagree : AgreeOnBackground (Sheet.read s.render).registrations := by
    refine h.agreeOnBackground
      (fun hash hash' e e' he he' => hash_eq_of_fingerprint hbefore he he') hquote fun p hp => ?_
    rw [hregs, List.mem_append, List.mem_cons] at hp
    rcases hp with hp | hp | hp
    · exact .inr (h.holds_of_mem p hp)
    · exact .inl hp
    · exact .inr (h.holds_of_mem p hp)
  intro again shown
  have hagain : again = (Sheet.read s.render).registrations.foldl enter (empty percentUnits') := by
    show ((empty percentUnits').ingest s.render).2 = _
    rw [ingest_eq_enter]
  have htokens : ∀ hash ∈ classes, Text.IsToken Text.isAsciiSpace hash.toList := by
    intro hash hhash
    obtain ⟨e, he⟩ := Option.isSome_iff_exists.1 (hstored hash hhash)
    exact isToken_of_get? h.sound he
  have hwhole : shown = classes.findSome? fun hash =>
      if hash = first then some address else r.backgroundFor? hash := by
    refine (findSome?_resolve _ again htokens).trans (findSome?_congr fun hash hhash => ?_)
    rw [hagain, findSome?_hashesOf_foldl hbehind hagree, hregs]
    exact h.findSome?_replaced hplacements hfront hname hshown hhash (hstored hash hhash)
  exact ⟨hwhole, fun hleads => hwhole.trans (findSome?_ite_of_find? hleads address)⟩

/-- The class that is the first of the attribute is also the first of the compiled text. -/
theorem first_of_two_backgrounds_is_replaced :
    let texts := [".a\x7bbackground:url(/x)\x7d.b\x7bcolor:red;background:url( /y )\x7d"]
    let r := (empty true).run (texts.map .sheet)
    let classes := r.resolve "a b"
    (∀ text ∈ texts, ∀ x ∈ (Sheet.read text).rules, x.2.Plain) ∧ PlainAddress "/n" ∧
      ∃ first text, r.firstWritten? classes = some first ∧
        substituteBackground? r.compiled classes "/n" = some text ∧
        let s := ((empty true).ingest text).2
        (s.resolve (Text.joinTokens classes)).findSome? s.backgroundFor? = some "/n" := by
  intro texts r classes
  have hplain : ∀ text ∈ texts, ∀ x ∈ (Sheet.read text).rules, x.2.Plain := by decide +kernel
  have hclear : ∀ text ∈ texts, ∀ x ∈ (Sheet.read text).rules, ∀ d ∈ x.2.declarations,
      d.Clear := by
    have hno : ∀ text ∈ texts, ∀ x ∈ (Sheet.read text).rules, ∀ d ∈ x.2.declarations,
        ∀ m ∈ findUrl? d.value.toList, ¬"url(".toList <:+: m.before := by decide +kernel
    exact fun text htext x hx d hd => Declaration.clear_of_not_infix (hno text htext x hx d hd)
  have haddress : PlainAddress "/n" := by decide +kernel
  -- One evaluation for the three facts, which are about one registry.
  obtain ⟨hshows, hdigests, hleads⟩ :
      (∃ hash ∈ classes, (r.backgroundFor? hash).isSome = true) ∧
      (∀ text ∈ substituteBackground? r.compiled classes "/n",
        DigestsDiffer (registrations (texts.map .sheet ++ [.sheet text]))) ∧
      classes.find? (fun hash => (r.backgroundFor? hash).isSome) =
        r.firstWritten? classes := by decide +kernel
  obtain ⟨first, text, hfirst, htext, h⟩ := substitution_replaces_first_written_background true true
    texts "a b" "/n" hplain hclear haddress hshows
  exact ⟨hplain, haddress, first, text, hfirst, htext,
    (h (hdigests text htext)).2 (hleads.trans hfirst)⟩

/-- **The first background may stay.**  The class that is the first of the attribute to show a
background comes second in the compiled text, and goes on showing what it showed.  And an open
`url(` without a space behind it runs into the new reference, and shows this as its address. -/
theorem substitution_may_leave_first_background :
    (let texts := [".a\x7bbackground:url(/x)\x7d.b\x7bbackground:url(/y)\x7d"]
    let r := (empty true).run (texts.map .sheet)
    let classes := r.resolve "b a"
    (∀ text ∈ texts, ∀ x ∈ (Sheet.read text).rules, x.2.Plain) ∧ PlainAddress "/n" ∧
      (∃ hash ∈ classes, (r.backgroundFor? hash).isSome = true) ∧
      (substituteBackground? r.compiled classes "/n").map (fun text =>
        let s := ((empty true).ingest text).2
        (s.resolve (Text.joinTokens classes)).findSome? s.backgroundFor?) = some (some "/y")) ∧
    (let texts := [".a\x7bbackground:url(aurl( x )\x7d"]
    let r := (empty true).run (texts.map .sheet)
    let classes := r.resolve "a"
    (∀ text ∈ texts, ∀ x ∈ (Sheet.read text).rules, x.2.Plain) ∧
      (∃ hash ∈ classes, (r.backgroundFor? hash).isSome = true) ∧
      (substituteBackground? r.compiled classes "/n").map (fun text =>
        let s := ((empty true).ingest text).2
        (s.resolve (Text.joinTokens classes)).findSome? s.backgroundFor?) =
          some (some "aurl(\"/n\"")) := by
  decide +kernel

end Registry

end Pane.Style
