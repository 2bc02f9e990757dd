import Pane.Proofs.Style.CanonicalText
import Pane.Proofs.Style.Repeated

/-!
# What registration cannot tell apart

A registry knows a rule by its class, its suffix and the canonical text of its block.  How the class
was spelled and the block written is lost, and so is how the block was divided into declarations:
canonical text may be read as fewer of them than it was written from.  None of this can be seen in
a hash or in compiled text, and it holds of any registry, also of one that no calls lead to: what is
registered twice in a row is found in the slot where it was just put, whatever the others hold.

**In a row.**  `push_push` and `pushAt_pushAt` — a hash is listed once.
`Registry.enter_of_repeats` — a repetition is given the same hash, and the registry stays as it is.

**Side by side.**  `Registry.compiled_congr` — compiled text shows the rules as they are written.
`Registry.compiled_enter_of_repeats` — so a repetition leads to the same text.

**Selectors and blocks.**  `Registry.register_fst_congr`, `Registry.compiled_register_congr` and
`Registry.register_register` — the same for two selectors of one class and suffix, and two blocks
with one canonical text.

**Result.**  **`Registry.canonical_text_registers_as_its_block`**.
-/

namespace Pane.Style

/-! ## In a row -/

theorem push_push (b : Bucket) (hash : String) : (b.push hash).push hash = b.push hash :=
  push_of_mem (Registry.mem_push.2 (.inr rfl))

/-- A hash is listed once under a width, whatever the order of the widths. -/
theorem pushAt_pushAt (width : UInt32) (hash : String) (l : List (UInt32 × Bucket)) :
    pushAt width hash (pushAt width hash l) = pushAt width hash l := by
  have hnew : ∀ rest, pushAt width hash ((width, [hash]) :: rest) = (width, [hash]) :: rest := by
    intro rest
    rw [pushAt, if_neg (UInt32.lt_irrefl width), if_pos rfl,
      push_of_mem (List.mem_singleton_self _)]
  induction l with
  | nil => exact hnew []
  | cons p rest ih =>
    obtain ⟨w, b⟩ := p
    by_cases hlt : width < w
    · rw [pushAt, if_pos hlt]
      exact hnew _
    · by_cases heq : width = w
      · rw [pushAt, if_neg hlt, if_pos heq, pushAt, if_neg hlt, if_pos heq, push_push]
      · rw [pushAt, if_neg hlt, if_neg heq, pushAt, if_neg hlt, if_neg heq, ih]

namespace Registry

variable {r s : Registry} {p q : Registration}

theorem pushLayer_enter (r : Registry) (p : Registration) :
    (r.enter p).pushLayer p.width (r.hashFor p) = r.enter p := by
  rw [enter_eq]
  cases p.name <;> cases p.width <;> simp only [pushLayer, push_push, pushAt_pushAt]

/-- **A repetition changes nothing** if it follows at once: it is given the same hash, and the
registry stays as it is.  Nothing is asked of the registry, nor of digests. -/
theorem enter_of_repeats (r : Registry) (h : q.Repeats p) :
    (r.enter p).hashFor q = r.hashFor p ∧ (r.enter p).enter q = r.enter p := by
  have hsettled := (r.settled_enter p).of_repeats h
  have hrules : (r.enter p).rules.settle q.entry (r.hashFor p) = (r.enter p).rules :=
    RuleTable.settle_of_holds hsettled.holds
  refine ⟨hsettled.found, ?_⟩
  rw [enter_eq (r.enter p) q, hsettled.found, hrules, h.width]
  dsimp only
  rw [pushLayer_enter]
  split
  · next name hname => rw [pushClass_of_mem (hsettled.indexed name hname)]
  · rfl

/-! ## Side by side -/

/-- **Compiled text shows the rules as they are written**, and the layers that they are in. -/
theorem compiled_congr (hunconditional : r.unconditional = s.unconditional)
    (hbreakpoints : r.breakpoints = s.breakpoints)
    (hrules : ∀ hash, (r.rules.get? hash).map (fun e => (e.rule hash).chars) =
      (s.rules.get? hash).map fun e => (e.rule hash).chars) : r.compiled = s.compiled := by
  have hbucket : ∀ b, (r.rulesIn b).map Rule.chars = (s.rulesIn b).map Rule.chars := by
    intro b
    simp only [rulesIn, List.map_filterMap, Option.map_map]
    exact List.filterMap_congr fun hash _ => hrules hash
  have hgroup : ∀ w b, (Item.media w (r.rulesIn b)).chars = (Item.media w (s.rulesIn b)).chars := by
    intro w b
    have hlines : ∀ rules : List Rule, rules.flatMap (fun rule => rule.chars ++ ['\n']) =
        (rules.map Rule.chars).flatMap (· ++ ['\n']) := fun rules => by rw [List.flatMap_map]
    rw [Item.chars, Item.chars, hlines, hlines, hbucket]
  have halone : ∀ t : Registry, ((t.rulesIn t.unconditional).map Item.rule).map Item.chars =
      (t.rulesIn t.unconditional).map Rule.chars := fun t => List.map_map ..
  rw [compiled, compiled, Sheet.render, Sheet.render, Sheet.chars, Sheet.chars, compiledSheet,
    compiledSheet, List.map_append, List.map_append, halone, halone, hunconditional, hbucket,
    hbreakpoints, List.map_map, List.map_map]
  congr 3
  exact List.map_congr_left fun x _ => hgroup x.1 x.2

/-- **A repetition leads to the same compiled text** as the registration. -/
theorem compiled_enter_of_repeats (r : Registry) (h : q.Repeats p) :
    (r.enter q).compiled = (r.enter p).compiled := by
  have hhash := r.hashFor_of_repeats h
  have hprint : q.entry.fingerprint = p.entry.fingerprint := h.fingerprint
  have hrule : ∀ hash, (q.entry.rule hash).chars = (p.entry.rule hash).chars := by
    intro hash
    have htext : declarationChars q.declarations = declarationChars p.declarations :=
      String.ofList_injective h.text
    have hsuffix : q.entry.suffix = p.entry.suffix := h.suffix
    show (Rule.mk [_] q.declarations).chars = (Rule.mk [_] p.declarations).chars
    rw [Rule.chars, Rule.chars, hsuffix, htext]
  have hlayers : (r.enter q).unconditional = (r.enter p).unconditional ∧
      (r.enter q).breakpoints = (r.enter p).breakpoints := by
    rw [enter_eq, enter_eq, hhash, h.width]
    cases q.name <;> cases p.name <;> cases p.width <;> exact ⟨rfl, rfl⟩
  refine compiled_congr hlayers.1 hlayers.2 fun hash => ?_
  have hholds : ∀ k, r.rules.holds q.entry k = r.rules.holds p.entry k := fun k => by
    rw [RuleTable.holds, RuleTable.holds, hprint]
  rw [enter_rules, enter_rules, hhash, RuleTable.settle, RuleTable.settle, hholds]
  split
  · rfl
  · rw [RuleTable.get?_insert, RuleTable.get?_insert]
    split
    · exact congrArg some (hrule hash)
    · rfl

end Registry

/-! ## Selectors and blocks -/

/-- The hash does not depend on the width. -/
theorem Registry.register_fst_width (r : Registry) (selector body : String)
    (width width' : Option UInt32) :
    (r.register selector body width').1 = (r.register selector body width).1 := by
  rw [register, register, registerDeclarations_eq, registerDeclarations_eq]
  cases ClassSelector.read? selector with
  | none => rfl
  | some s =>
    by_cases hds : declarationsOf body = []
    · simp only [hds, if_true]
    · simp only [hds, if_false, (place_store ..).1]

section alike

variable {selector selector' : String}
  (hselector : ClassSelector.read? selector' = ClassSelector.read? selector)
include hselector

/-- Two selectors of one class and suffix, with blocks of one canonical text, come to nothing both,
or to a registration and a repetition of it. -/
theorem Registration.ofClass?_alike {ds ds' : List Declaration}
    (htext : renderDeclarations ds' = renderDeclarations ds) (width : Option UInt32) :
    ofClass? selector ds width = none ∧ ofClass? selector' ds' width = none ∨
      ∃ p q, ofClass? selector ds width = some p ∧ ofClass? selector' ds' width = some q ∧
        q.Repeats p := by
  cases hp : ofClass? selector ds width with
  | some p =>
    obtain ⟨q, hq, hrepeats⟩ := exists_repeats hp hselector htext
    exact .inr ⟨p, q, rfl, hq, hrepeats⟩
  | none =>
    refine .inl ⟨rfl, Option.eq_none_iff_forall_ne_some.2 fun q hq => ?_⟩
    obtain ⟨p, hp', -⟩ := exists_repeats hq hselector.symm htext.symm
    rw [hp] at hp'
    cases hp'

namespace Registry

variable {body body' : String}
  (htext : renderDeclarations (declarationsOf body') = renderDeclarations (declarationsOf body))
  (r : Registry) (width : Option UInt32)
include htext

/-- **The compiled text is the same** for the one and for the other. -/
theorem compiled_register_congr : (r.register selector' body' width).2.compiled =
    (r.register selector body width).2.compiled := by
  rw [register, register, registerDeclarations_eq_enter, registerDeclarations_eq_enter]
  obtain ⟨hp, hq⟩ | ⟨p, q, hp, hq, hrepeats⟩ := Registration.ofClass?_alike hselector htext width
  · rw [hp, hq]
  · rw [hp, hq]
    exact r.compiled_enter_of_repeats hrepeats

/-- **The one behind the other changes nothing**, and is given the same hash. -/
theorem register_register :
    (r.register selector body width).2.register selector' body' width =
      r.register selector body width := by
  rw [register, register, registerDeclarations_eq_enter, registerDeclarations_eq_enter]
  obtain ⟨hp, hq⟩ | ⟨p, q, hp, hq, hrepeats⟩ := Registration.ofClass?_alike hselector htext width
  · rw [hp, hq]
  · obtain ⟨hhash, hsame⟩ := r.enter_of_repeats hrepeats
    rw [hp, hq]
    dsimp only
    rw [hhash, hsame]

/-- **The hash is the same** for the one and for the other, whatever the widths. -/
theorem register_fst_congr (width' : Option UInt32) :
    (r.register selector' body' width').1 = (r.register selector body width).1 := by
  rw [r.register_fst_width selector' body' width width', register, register,
    registerDeclarations_eq_enter, registerDeclarations_eq_enter]
  obtain ⟨hp, hq⟩ | ⟨p, q, hp, hq, hrepeats⟩ := Registration.ofClass?_alike hselector htext width
  · rw [hp, hq]
  · rw [hp, hq]
    exact congrArg some (r.hashFor_of_repeats hrepeats)

end Registry

end alike

/-- **Canonical text stands for its block.**  The canonical text of a block, whatever the block is,
is its own canonical text.  So it makes no difference to a registry which of the two is registered
under a selector: the hash is the same at any widths, or there is none for either, and so is the
compiled text.  If one of them is registered behind the other, the answer is the same hash again and
the registry stays as it is.  The registry is any one, also one that no calls lead to. -/
theorem Registry.canonical_text_registers_as_its_block (body : String) :
    let text := renderDeclarations (declarationsOf body)
    renderDeclarations (declarationsOf text) = text ∧
      ∀ (r : Registry) (selector : String) (width : Option UInt32),
        (∀ width', (r.register selector text width').1 = (r.register selector body width).1) ∧
        (r.register selector text width).2.compiled = (r.register selector body width).2.compiled ∧
        (r.register selector body width).2.register selector text width =
          r.register selector body width ∧
        (r.register selector text width).2.register selector body width =
          r.register selector text width := by
  intro text
  have hsame : renderDeclarations (declarationsOf text) = text :=
    renderDeclarations_declarationsOf body
  refine ⟨hsame, fun r selector width => ⟨fun width' => ?_, ?_, ?_, ?_⟩⟩
  · exact register_fst_congr rfl hsame r width width'
  · exact compiled_register_congr rfl hsame r width
  · exact register_register rfl hsame r width
  · exact register_register rfl hsame.symm r width

/-- Canonical text need not be read as the declarations that it was written from: here the space
that a backslash escaped is trimmed, and then the semicolon is what it escapes. -/
example :
    let body := "a:b\\ ;c:d"
    (declarationsOf body).length = 2 ∧
      (declarationsOf (renderDeclarations (declarationsOf body))).length = 1 := by
  decide +kernel

end Pane.Style
