import Pane.Proofs.Style.Fingerprint
import Pane.Proofs.Style.Hashes
import Pane.Proofs.Style.Reread

/-!
# Inline styles and the rules around them

The text of a `style` attribute is registered as it is, and written between the rules of everyone
else.  If it closes what it opens, and if these do, then it is read as at most one rule more, the
one of its hash, and everything else as before.  Text that leaves a string open, or a brace too many
closed, does change other rules.

* `Registration.Contained` — what is asked of a content: its suffix and its block are contained.
* `Registry.Within.contained` — then all rules that are written are.
* `readItems_class` — a rule of a class without a suffix is read with the canonical text of its
  block.
* `Registry.items_enter` — a registration without a width adds at most one item, behind all rules
  that always apply.
* `Registry.Within.enter_changes_no_other_rule` — what is read before and behind one registration.
* **`Registry.inline_style_changes_no_other_rule`**, and **`Registry.inline_style_breaks_out`**, two
  texts that leave something open.
-/

namespace Pane.Style

/-! ## Contained contents -/

/-- What is asked of a content: no reader of a sheet goes beyond its suffix or its block. -/
structure Registration.Contained (p : Registration) : Prop where
  suffix : ContainedSelector p.suffix.toList
  block : ContainedBlock p.text.toList

instance (p : Registration) : Decidable p.Contained :=
  decidable_of_iff (ContainedSelector p.suffix.toList ∧ ContainedBlock p.text.toList)
    ⟨fun ⟨hsuffix, hblock⟩ => ⟨hsuffix, hblock⟩, fun h => ⟨h.suffix, h.block⟩⟩

/-- A class of letters and digits in front of a contained suffix. -/
theorem ContainedSelector.append_class {name suffix : List Char}
    (hname : ∀ c ∈ name, Text.isAlphanumeric c = true) (h : ContainedSelector suffix) :
    ContainedSelector ('.' :: (name ++ suffix)) := by
  have hsigns : ∀ c ∈ '.' :: name, c ∉ signs := by
    intro c hc
    rcases List.mem_cons.1 hc with rfl | hc
    · exact not_mem_signs (.inl rfl)
    · exact not_mem_signs (.inr (hname c hc))
  have hno : ∀ d ∈ signs, d ∉ '.' :: name := fun d hd hmem => hsigns d hmem hd
  have hafter : Nesting.top.after ('.' :: name) = .top :=
    Nesting.steady_top.after_eq_self fun c hc hmark => hsigns c hc (List.mem_append_left _ hmark)
  have hcomment : Commenting.outside.after ('.' :: name) = .outside := by
    have hsub : ['/', '"', '\''] ⊆ signs := by decide
    exact Commenting.after_of_not_mem fun c hc hmem => hsigns c hc (hsub hmem)
  show ContainedSelector ('.' :: name ++ suffix)
  refine ⟨⟨?_, ?_⟩, ?_, ?_⟩
  · exact List.not_mem_append (hno _ (by decide)) h.noBrace.1
  · exact List.not_mem_append (hno _ (by decide)) h.noBrace.2
  · rw [Nesting.after_append, hafter, h.closed]
  · rw [Commentless, Commenting.after_append, hcomment]
    exact h.commentless

/-- **A rule of a class without a suffix** is read with the declarations of its canonical text. -/
theorem readItems_class {r : Rule} {hash : String}
    (hname : ∀ c ∈ hash.toList, Text.isAlphanumeric c = true)
    (hselectors : r.selectors = ["." ++ hash])
    (hblock : ContainedBlock (declarationChars r.declarations)) :
    readItems r.chars =
      [.rule ⟨["." ++ hash], readDeclarations (declarationChars r.declarations)⟩] := by
  have hchars : ("." ++ hash).toList = '.' :: (hash.toList ++ []) := by simp
  have hsuffix : ContainedSelector [] :=
    ⟨⟨List.not_mem_nil, List.not_mem_nil⟩, rfl, .inl rfl⟩
  have hlegible : r.Legible := by
    refine ⟨⟨"." ++ hash, hselectors, ?_⟩, hblock⟩
    rw [hchars]
    exact ⟨cleanSelector_append hname cleanSuffix_nil rfl,
      (hsuffix.append_class hname).commentless⟩
  have hread : readItems r.chars = [.rule r.reread] := readItems_of_legible (i := .rule r) hlegible
  rw [hread, Rule.reread, hselectors]

namespace Registry

variable {r s : Registry} {p : Registration} {ps : List Registration}

theorem Within.isAlphanumeric (h : r.Within ps) {hash : String} {e : Entry}
    (he : r.rules.get? hash = some e) : ∀ c ∈ hash.toList, Text.isAlphanumeric c = true := by
  intro c hc
  rcases h.keyed.char_of_mem (fun _ _ => Digest.isHex_of_mem_sha256Hex) he hc with rfl | hx
  · decide
  · exact isAlphanumeric_of_isLowerHex hx

/-- **What is written of contained contents is contained.** -/
theorem Within.contained (h : r.Within ps) (hps : ∀ p ∈ ps, p.Contained) :
    ∀ i ∈ r.compiledSheet.items, i.OfRules Rule.Contained := by
  refine ofRules_compiledSheet fun hash e he => ?_
  obtain ⟨p, hp, rfl⟩ := h.among hash e he
  refine ⟨⟨"." ++ hash ++ p.suffix, rfl, ?_⟩, ?_⟩
  · have hselector := (hps p hp).suffix.append_class (h.isAlphanumeric he)
    simpa using hselector
  · have hblock := (hps p hp).block
    rwa [Registration.text, renderDeclarations, String.toList_ofList] at hblock

theorem rulesIn_congr {b : Bucket} (h : ∀ hash ∈ b, s.rules.get? hash = r.rules.get? hash) :
    s.rulesIn b = r.rulesIn b := by
  rw [rulesIn, rulesIn]
  exact List.filterMap_congr fun hash hhash => by rw [h hash hhash]

/-- **A registration without a width adds at most one item**, behind all rules that always
apply. -/
theorem items_enter (hwidth : p.width = none) (hsound : r.Sound)
    (hkeep : ∀ hash e, r.rules.get? hash = some e → (r.enter p).rules.get? hash = some e) :
    ∃ front back added, r.compiledSheet.items = front ++ back ∧
      (r.enter p).compiledSheet.items = front ++ added ++ back ∧
      (added = [] ∨ added = ((r.enter p).rulesIn [r.hashFor p]).map Item.rule) := by
  have hsame : ∀ width hash, r.InLayer width hash →
      (r.enter p).rules.get? hash = r.rules.get? hash := by
    intro width hash hlayer
    obtain ⟨e, he⟩ := Option.isSome_iff_exists.1 (hsound.layered width hash hlayer)
    rw [he, hkeep hash e he]
  have hlayers : (r.enter p).unconditional = r.unconditional.push (r.hashFor p) ∧
      (r.enter p).breakpoints = r.breakpoints := by
    obtain ⟨name, width, key, suffix, ds, hkey⟩ := p
    obtain rfl : width = none := hwidth
    cases name <;> exact ⟨rfl, rfl⟩
  have hfront : (r.enter p).rulesIn r.unconditional = r.rulesIn r.unconditional :=
    rulesIn_congr fun hash hhash => hsame none hash hhash
  have hback : (r.enter p).breakpoints.map (fun x => Item.media x.1 ((r.enter p).rulesIn x.2)) =
      r.breakpoints.map fun x => Item.media x.1 (r.rulesIn x.2) := by
    rw [hlayers.2]
    refine List.map_congr_left fun x hx => ?_
    rw [rulesIn_congr fun hash hhash => hsame (some x.1) hash ⟨x.2, hx, hhash⟩]
  refine ⟨(r.rulesIn r.unconditional).map .rule,
    r.breakpoints.map fun x => .media x.1 (r.rulesIn x.2), ?_⟩
  have hitems : (r.enter p).compiledSheet.items =
      ((r.enter p).rulesIn (r.unconditional.push (r.hashFor p))).map .rule ++
        r.breakpoints.map fun x => .media x.1 (r.rulesIn x.2) := by
    rw [← hback, ← hlayers.1]
    rfl
  rw [hitems, Bucket.push]
  split
  · exact ⟨[], rfl, by rw [hfront, List.append_nil], .inl rfl⟩
  · refine ⟨((r.enter p).rulesIn [r.hashFor p]).map .rule, rfl, ?_, .inr rfl⟩
    rw [← hfront, ← List.map_append]
    simp only [rulesIn, List.filterMap_append]

/-- **The item that is added** for a content without a suffix is read as a rule with the canonical
text of the content. -/
theorem Within.readItems_added (h : (r.enter p).Within ps) (hps : ∀ q ∈ ps, q.Contained)
    (hunmixed : ∀ q ∈ ps, ¬('\x1f' ∈ q.suffix.toList ∧ '\x1f' ∈ p.text.toList))
    (hsuffix : p.suffix = "") (hcanonical : renderDeclarations (declarationsOf p.text) = p.text) :
    ∃ ds, (((r.enter p).rulesIn [r.hashFor p]).map Item.rule).flatMap (fun i => readItems i.chars) =
        [.rule ⟨["." ++ r.hashFor p], ds⟩] ∧
      (r.enter p).declarationsFor? (r.hashFor p) = some (renderDeclarations ds) := by
  obtain ⟨e, he, hprint⟩ := Option.any_eq_true _ _ |>.1 (settled_enter r p).holds
  obtain ⟨q, hq, rfl⟩ := h.among _ e he
  have hnone : ¬('\x1f' ∈ p.suffix.toList ∧ '\x1f' ∈ q.text.toList) := by simp [hsuffix]
  obtain ⟨htext, hsame⟩ :=
    Registration.parts_of_fingerprint (hunmixed q hq) hnone (of_decide_eq_true hprint)
  have hchars : declarationChars q.declarations = p.text.toList := by
    rw [← htext, Registration.text, renderDeclarations, String.toList_ofList]
  have hselectors : (q.entry.rule (r.hashFor p)).selectors = ["." ++ r.hashFor p] := by
    have hrule : (q.entry.rule (r.hashFor p)).selectors = ["." ++ r.hashFor p ++ q.suffix] := rfl
    rw [hrule, hsame, hsuffix, String.append_empty]
  have hrules : (r.enter p).rulesIn [r.hashFor p] = [q.entry.rule (r.hashFor p)] := by
    simp [rulesIn, he]
  have hread := readItems_class (r := q.entry.rule (r.hashFor p)) (h.isAlphanumeric he) hselectors
    (hchars ▸ htext ▸ (hps q hq).block)
  refine ⟨declarationsOf p.text, ?_, ?_⟩
  · rw [hrules, List.map_singleton, List.flatMap_singleton]
    refine hread.trans ?_
    rw [declarationsOf, ← hchars]
    rfl
  · rw [declarationsFor?, he, hcanonical, ← htext]
    rfl

/-- **A contained content without a suffix and a width changes no other rule** when it is entered
among contained contents. -/
theorem Within.enter_changes_no_other_rule (h : r.Within ps) (hp : p ∈ ps) (hsound : r.Sound)
    (hdigests : DigestsDiffer ps) (hcontained : ∀ q ∈ ps, q.Contained)
    (hunmixed : ∀ q ∈ ps, ¬('\x1f' ∈ q.suffix.toList ∧ '\x1f' ∈ p.text.toList))
    (hsuffix : p.suffix = "") (hwidth : p.width = none)
    (hcanonical : renderDeclarations (declarationsOf p.text) = p.text) :
    ∃ front back added, (Sheet.read r.compiled).items = front ++ back ∧
      (Sheet.read (r.enter p).compiled).items = front ++ added ++ back ∧
      (added = [] ∨ ∃ ds, added = [.rule ⟨["." ++ r.hashFor p], ds⟩] ∧
        (r.enter p).declarationsFor? (r.hashFor p) = some (renderDeclarations ds)) := by
  have hbehind : (r.enter p).Within ps := h.enter hp
  obtain ⟨front, back, added, hitems, hitems', hadded⟩ :=
    items_enter hwidth hsound fun k e he => h.get?_enter hdigests hp he
  have hread := read_render_of_contained (h.contained hcontained)
  have hread' := read_render_of_contained (hbehind.contained hcontained)
  refine ⟨front.flatMap fun i => readItems i.chars, back.flatMap fun i => readItems i.chars,
    added.flatMap fun i => readItems i.chars, ?_, ?_, ?_⟩
  · exact hread.trans (by rw [hitems, List.flatMap_append])
  · exact hread'.trans (by rw [hitems', List.flatMap_append, List.flatMap_append])
  · rcases hadded with rfl | rfl
    · exact .inl rfl
    · exact .inr (hbehind.readItems_added hcontained hunmixed hsuffix hcanonical)

end Registry

/-- **An inline style changes no other rule** if its canonical text and all that was registered
before it close what they open.  Then the compiled text is read as it was before, and in addition to
that as at most one rule, which always applies, has the hash for its selector and declarations with
the canonical text that is found under the hash.  Beyond that it is taken for granted that no two
fingerprints of what is registered have the same digest, and that no fingerprint is read in two ways
because the separator of its parts is in the text and in a suffix. -/
theorem Registry.inline_style_changes_no_other_rule (percentUnits : Bool) (calls : List Call)
    (body hash : String)
    (hreg : (((empty percentUnits).run calls).registerInline body).1 = some hash)
    (hcontained : ∀ p ∈ registrations (calls ++ [.inline body]), p.Contained)
    (hunmixed : ∀ p ∈ registrations calls, ¬('\x1f' ∈ p.suffix.toList ∧
      '\x1f' ∈ (renderDeclarations (declarationsOf body)).toList))
    (hdigests : DigestsDiffer (registrations (calls ++ [.inline body]))) :
    let before := (empty percentUnits).run calls
    let behind := (before.registerInline body).2
    ∃ front back added, (Sheet.read before.compiled).items = front ++ back ∧
      (Sheet.read behind.compiled).items = front ++ added ++ back ∧
      (added = [] ∨ ∃ ds, added = [.rule ⟨["." ++ hash], ds⟩] ∧
        behind.declarationsFor? hash = some (renderDeclarations ds)) := by
  intro before behind
  obtain ⟨p, hp, rfl, henter⟩ := of_registerInline_eq_some hreg
  obtain ⟨hsuffix, hwidth, hds⟩ := Registration.of_ofInline?_eq_some hp
  have htext : p.text = renderDeclarations (declarationsOf body) := congrArg _ hds
  have hall : registrations (calls ++ [.inline body]) = registrations calls ++ [p] := by
    simp [registrations, Call.registrations, hp]
  have hmem : p ∈ registrations (calls ++ [.inline body]) := by simp [hall]
  have hwithin : before.Within (registrations (calls ++ [.inline body])) :=
    within_run_front percentUnits calls [.inline body]
  have hsound : before.Sound := sound_run calls (sound_empty percentUnits)
  have hunmixed' : ∀ q ∈ registrations (calls ++ [.inline body]),
      ¬('\x1f' ∈ q.suffix.toList ∧ '\x1f' ∈ p.text.toList) := by
    intro q hq
    rw [hall, List.mem_append, List.mem_singleton] at hq
    rcases hq with hq | rfl
    · rw [htext]
      exact hunmixed q hq
    · simp [hsuffix]
  have hcanonical : renderDeclarations (declarationsOf p.text) = p.text := by
    rw [htext]
    exact renderDeclarations_declarationsOf body
  have hbehind : behind = before.enter p := henter
  rw [hbehind]
  exact hwithin.enter_changes_no_other_rule hmem hsound hdigests hcontained hunmixed' hsuffix
    hwidth hcanonical

/-- Braces in a string, between a rule that always applies and one in a group. -/
theorem Registry.braces_in_string_change_no_other_rule :
    let before := (empty true).run [.rule ".a:is(.b, .c)" "color:red" (some 801),
      .rule ".d" "color:blue" none]
    let behind := (before.registerInline "content: \"\x7d\x7b\"").2
    ∃ front back added, (Sheet.read before.compiled).items = front ++ back ∧
      (Sheet.read behind.compiled).items = front ++ added ++ back ∧
      (added = [] ∨ ∃ ds, added = [.rule ⟨["." ++ "sde0674fd24358c377724"], ds⟩] ∧
        behind.declarationsFor? "sde0674fd24358c377724" = some (renderDeclarations ds)) :=
  inline_style_changes_no_other_rule true _ "content: \"\x7d\x7b\"" "sde0674fd24358c377724"
    (by decide +kernel) (by decide +kernel) (by decide +kernel) (by decide +kernel)

/-- **An inline style may break out.**  Behind a brace that closes too much there is one rule more
than that of its hash, and behind a string that is left open a rule is gone. -/
theorem Registry.inline_style_breaks_out :
    let adds := ((empty true).registerInline "color:red\x7d.x\x7bcolor:blue").2
    let before := ((empty true).register ".a" "color:red" (some 801)).2
    let removes := (before.registerInline "content:\"x").2
    (Sheet.read (empty true).compiled).rules = [] ∧
      (Sheet.read adds.compiled).rules =
        [(none, ⟨[".s94cd8b3cc56359c4f226"], [⟨"color", "red"⟩]⟩),
          (none, ⟨[".x"], [⟨"color", "blue"⟩]⟩)] ∧
      (Sheet.read before.compiled).rules =
        [(some 801, ⟨[".s482524efcfc29a79e516"], [⟨"color", "red"⟩]⟩)] ∧
      (Sheet.read removes.compiled).rules = [] := by
  decide +kernel

end Pane.Style
