import Pane.Compile
import Pane.Proofs.Style.Registration

/-!
# The cascade of plain class rules

A *plain* sheet has rules of classes only, without suffixes and without conditions.  What such a
sheet says of a property is simple: of all rules whose class an element has, the last declaration of
the property counts.  Registering the rules renames the classes and puts every content in one place,
that of the first rule which has it; so the written text says the same as the sheet without its
repetitions.  It does not say the same as the sheet itself, where a repeated rule counts at its
later place as well (`repeated_rule_is_not_moved`).

**Source.**  `ClassRule`, `sourceRules`: the rules of classes in the order of the texts.  `firsts`:
these without the ones whose content occurred before.

**Registry.**  `Registry.Mirrors`: what the registry looks like behind the rules.  It keeps every
content in a slot of its own, which takes for granted that no two contents of the source share all
digits of their digests (`DigestsApart`).

**Result.**  **`compiled_keeps_cascade_of_firsts`**.
-/

namespace Pane.Style

/-! ## Source -/

/-- A rule of a class. -/
structure ClassRule where
  name : String
  declarations : List Declaration
  deriving DecidableEq

namespace ClassRule

/-- The content of a rule of a class. -/
def entry (c : ClassRule) : Entry := Registry.classEntry ⟨c.name, ""⟩ c.declarations

/-- The written form of the content, which tells contents apart. -/
def fingerprint (c : ClassRule) : String := c.entry.fingerprint

end ClassRule

/-- The rules of classes that a rule of a sheet stands for, one for each selector.  A rule without
declarations says nothing. -/
def Rule.classRules (rule : Rule) : List ClassRule :=
  if rule.declarations = [] then []
  else rule.selectors.filterMap fun selector =>
    (ClassSelector.read? selector).map fun s => ⟨s.name, rule.declarations⟩

/-- The rules of classes of a sheet. -/
def Sheet.classRules (s : Sheet) : List ClassRule :=
  s.rules.flatMap fun (_, rule) => rule.classRules

/-- The rules of classes of some texts, in order. -/
def sourceRules (texts : List String) : List ClassRule :=
  texts.flatMap fun text => (Sheet.read text).classRules

/-- A selector that is a class and nothing else. -/
def isPlainSelector (selector : String) : Bool :=
  (ClassSelector.read? selector).any fun s => s.suffix = ""

/-- The rules of a sheet are rules of classes without suffixes, and none has a condition. -/
def Sheet.IsPlain (s : Sheet) : Prop :=
  ∀ x ∈ s.rules, x.1 = none ∧ ∀ selector ∈ x.2.selectors, isPlainSelector selector = true

instance (s : Sheet) : Decidable s.IsPlain :=
  inferInstanceAs (Decidable (∀ x ∈ s.rules, x.1 = none ∧
    ∀ selector ∈ x.2.selectors, isPlainSelector selector = true))

/-- The rules without the ones whose content an earlier one has. -/
def firsts : List ClassRule → List ClassRule
  | [] => []
  | c :: rest => c :: (firsts rest).filter fun d => d.fingerprint ≠ c.fingerprint

/-- The value of the last declaration of a property. -/
def lastValue? (property : String) (ds : List Declaration) : Option String :=
  ((ds.filter fun d => d.property = property).getLast?).map Declaration.value

/-- No two contents of some rules share all digits of their digests. -/
def DigestsApart (rules : List ClassRule) : Prop :=
  ∀ c ∈ rules, ∀ d ∈ rules, c.fingerprint ≠ d.fingerprint →
    Digest.sha256Hex c.fingerprint ≠ Digest.sha256Hex d.fingerprint

instance (rules : List ClassRule) : Decidable (DigestsApart rules) :=
  inferInstanceAs (Decidable (∀ c ∈ rules, ∀ d ∈ rules, c.fingerprint ≠ d.fingerprint →
    Digest.sha256Hex c.fingerprint ≠ Digest.sha256Hex d.fingerprint))

/-- A plain selector is a class without a suffix. -/
theorem exists_of_isPlainSelector {selector : String} (h : isPlainSelector selector = true) :
    ∃ name, ClassSelector.read? selector = some ⟨name, ""⟩ := by
  rw [isPlainSelector, Option.any_eq_true] at h
  obtain ⟨⟨name, suffix⟩, hs, hsuffix⟩ := h
  obtain rfl : suffix = "" := by simpa using hsuffix
  exact ⟨name, hs⟩

theorem mem_of_mem_firsts {c : ClassRule} {rules : List ClassRule} (h : c ∈ firsts rules) :
    c ∈ rules := by
  induction rules with
  | nil => exact h
  | cons d rest ih =>
    rw [firsts, List.mem_cons, List.mem_filter] at h
    rcases h with rfl | ⟨h, -⟩
    · exact List.mem_cons_self ..
    · exact List.mem_cons_of_mem _ (ih h)

/-- Every rule has its first equal. -/
theorem exists_mem_firsts {c : ClassRule} {rules : List ClassRule} (h : c ∈ rules) :
    ∃ d ∈ firsts rules, d.fingerprint = c.fingerprint := by
  induction rules with
  | nil => exact absurd h List.not_mem_nil
  | cons d rest ih =>
    rcases List.mem_cons.1 h with rfl | h
    · exact ⟨c, List.mem_cons_self .., rfl⟩
    · obtain ⟨e, he, hec⟩ := ih h
      by_cases hed : e.fingerprint = d.fingerprint
      · exact ⟨d, List.mem_cons_self .., hed.symm.trans hec⟩
      · exact ⟨e, List.mem_cons_of_mem _ (List.mem_filter.2 ⟨he, by simpa using hed⟩), hec⟩

/-- A further rule counts only if its content is new. -/
theorem firsts_concat (d : ClassRule) (rules : List ClassRule) :
    firsts (rules ++ [d]) =
      if d.fingerprint ∈ rules.map ClassRule.fingerprint then firsts rules
      else firsts rules ++ [d] := by
  induction rules with
  | nil => rfl
  | cons c rest ih =>
    rw [List.cons_append, firsts, ih, firsts]
    by_cases hrest : d.fingerprint ∈ rest.map ClassRule.fingerprint
    · rw [if_pos hrest, if_pos (by rw [List.map_cons]; exact List.mem_cons_of_mem _ hrest)]
    · rw [if_neg hrest, List.filter_append]
      by_cases hc : d.fingerprint = c.fingerprint
      · simp [hc]
      · simp [hc, hrest]

/-- Nothing is dropped where no content repeats. -/
theorem firsts_eq_self {rules : List ClassRule}
    (h : rules.Pairwise fun c d => c.fingerprint ≠ d.fingerprint) : firsts rules = rules := by
  induction rules with
  | nil => rfl
  | cons c rest ih =>
    obtain ⟨hc, hrest⟩ := List.pairwise_cons.1 h
    rw [firsts, ih hrest, List.filter_eq_self.2]
    intro d hd
    simpa using (hc d hd).symm

/-! ## Contents -/

/-- The key of a class is a key. -/
theorem entry_isKey (c : ClassRule) : RuleTable.IsKey c.entry.cascadeKey :=
  isKey_cascadeKey ⟨c.name, ""⟩

/-- Rules with one content have one key. -/
theorem cascadeKey_eq_of_fingerprint {c d : ClassRule} (h : c.fingerprint = d.fingerprint) :
    c.entry.cascadeKey = d.entry.cascadeKey := by
  have hlen : c.entry.cascadeKey.toList.length = d.entry.cascadeKey.toList.length := by
    rw [String.length_toList, String.length_toList, (entry_isKey c).1, (entry_isKey d).1]
  have htext : ∀ c : ClassRule, c.fingerprint.toList = (renderDeclarations c.declarations).toList ++
      '\x1f' :: (c.entry.cascadeKey.toList ++ ['\x1f']) := by
    intro c
    simp [ClassRule.fingerprint, ClassRule.entry, Registry.classEntry, Entry.ofContent, joinParts]
  have h := congrArg String.toList h
  rw [htext, htext] at h
  obtain ⟨-, h⟩ := List.append_inj' h (by simp [hlen])
  exact String.toList_inj.1 (List.append_inj_left (List.cons.inj h).2 hlen)

namespace Registry

variable {r : Registry} {rules : List ClassRule} {c d : ClassRule}

/-! ## The registry behind the rules -/

/-- The slot under which the content of a rule is stored, or would be. -/
def slot (r : Registry) (c : ClassRule) : String :=
  hashOf c.entry.cascadeKey (Digest.sha256Hex c.fingerprint)
    (r.rules.slotDigits c.entry (Digest.sha256Hex c.fingerprint))

/-- The registry with the content of a rule placed. -/
def placeRule (r : Registry) (c : ClassRule) : Registry :=
  (r.place (some c.name) none c.entry).2

/-- The rule is settled in the table under its slot. -/
theorem placeRule_rules (r : Registry) (d : ClassRule) :
    (r.placeRule d).rules = r.rules.settle d.entry (r.slot d) := by
  rw [placeRule, place_rules, place_hash]
  rfl

/-- The slot of a rule is in the unconditional layer once. -/
theorem placeRule_unconditional (r : Registry) (d : ClassRule) :
    (r.placeRule d).unconditional = Bucket.push r.unconditional (r.slot d) := by
  have hhash := r.place_hash (some d.name) none d.entry
  exact congrArg (Bucket.push r.unconditional) hhash

/-- The class of a rule has its slot, and no other class changes. -/
theorem hashesOf_placeRule (r : Registry) (d : ClassRule) (name hash : String) :
    hash ∈ (r.placeRule d).hashesOf name ↔
      hash ∈ r.hashesOf name ∨ d.name = name ∧ hash = r.slot d := by
  rw [placeRule, hashesOf_place, place_hash]
  by_cases h : d.name = name
  · simp only [h, if_true, true_and]
    exact mem_push
  · simp [h]

/-- Rules with one content have one slot. -/
theorem slot_congr (r : Registry) (h : c.fingerprint = d.fingerprint) : r.slot c = r.slot d := by
  have hkey := cascadeKey_eq_of_fingerprint h
  have hfits : r.rules.fits c.entry = r.rules.fits d.entry := by
    funext hash
    have hf : c.entry.fingerprint = d.entry.fingerprint := h
    simp only [RuleTable.fits, hf]
  simp only [slot, RuleTable.slotDigits, RuleTable.slotAmong, hkey, h, hfits]

/-- What the registry looks like behind some rules: each of the first ones is stored in a slot of
its own, the layer lists these slots in order, and the index those of each class. -/
structure Mirrors (r : Registry) (rules : List ClassRule) : Prop where
  layer : r.unconditional = (firsts rules).map r.slot
  stored : ∀ c ∈ firsts rules, r.rules.get? (r.slot c) = some c.entry
  only : ∀ hash e, r.rules.get? hash = some e → ∃ c ∈ rules, e.fingerprint = c.fingerprint
  index : ∀ name hash, hash ∈ r.hashesOf name ↔ ∃ c ∈ rules, c.name = name ∧ hash = r.slot c
  keyed : r.rules.WellKeyed Digest.sha256Hex
  plain : r.breakpoints = []

/-- An empty registry mirrors no rules. -/
theorem mirrors_empty (percentUnits : Bool) : (empty percentUnits).Mirrors [] where
  layer := rfl
  stored c hc := absurd hc List.not_mem_nil
  only hash e h := by simp [empty, RuleTable.get?] at h
  index name hash := by simp [empty, hashesOf]
  keyed := (sound_empty percentUnits).wellKeyed
  plain := rfl

/-- A rule that is mirrored is on record under its slot. -/
theorem Mirrors.exists_get? (h : r.Mirrors rules) (hc : c ∈ rules) :
    ∃ e, r.rules.get? (r.slot c) = some e ∧ e.fingerprint = c.fingerprint := by
  obtain ⟨d, hd, hdc⟩ := exists_mem_firsts hc
  exact ⟨d.entry, r.slot_congr hdc ▸ h.stored d hd, hdc⟩

/-- Rules in one slot have one content. -/
theorem Mirrors.fingerprint_of_slot (h : r.Mirrors rules) (hc : c ∈ rules) (hd : d ∈ rules)
    (hslot : r.slot c = r.slot d) : c.fingerprint = d.fingerprint := by
  obtain ⟨e, he, hf⟩ := h.exists_get? hc
  obtain ⟨e', he', hf'⟩ := h.exists_get? hd
  rw [hslot, he'] at he
  rw [← hf, ← hf', Option.some.inj he]

/-! ## One more rule -/

/-- Behind one more rule, the classes still have the slots of their rules. -/
theorem Mirrors.index_placeRule (h : r.Mirrors rules)
    (hslots : ∀ c ∈ rules ++ [d], (r.placeRule d).slot c = r.slot c) (name hash : String) :
    hash ∈ (r.placeRule d).hashesOf name ↔
      ∃ c ∈ rules ++ [d], c.name = name ∧ hash = (r.placeRule d).slot c := by
  rw [hashesOf_placeRule, h.index]
  constructor
  · rintro (⟨c, hc, hname, rfl⟩ | ⟨hname, rfl⟩)
    · have hc := List.mem_append_left [d] hc
      exact ⟨c, hc, hname, (hslots c hc).symm⟩
    · have hd : d ∈ rules ++ [d] := by simp
      exact ⟨d, hd, hname, (hslots d hd).symm⟩
  · rintro ⟨c, hc, hname, rfl⟩
    rw [hslots c hc]
    rcases List.mem_append.1 hc with hc | hc
    · exact .inl ⟨c, hc, hname, rfl⟩
    · obtain rfl := List.mem_singleton.1 hc
      exact .inr ⟨hname, rfl⟩

/-- A rule whose content is there already changes the index alone. -/
theorem Mirrors.placeRule_of_mem (h : r.Mirrors rules)
    (hd : d.fingerprint ∈ rules.map ClassRule.fingerprint) :
    (r.placeRule d).Mirrors (rules ++ [d]) := by
  obtain ⟨c, hc, hcd⟩ := List.mem_map.1 hd
  have hslot : r.slot d = r.slot c := (r.slot_congr hcd).symm
  have hrules : (r.placeRule d).rules = r.rules := by
    obtain ⟨e, he, hf⟩ := h.exists_get? hc
    have hf' : e.fingerprint = d.entry.fingerprint := hf.trans hcd
    rw [placeRule_rules, RuleTable.settle, RuleTable.holds, hslot, he]
    simp [hf']
  have hslots : (r.placeRule d).slot = r.slot := by
    funext c
    simp only [slot, hrules]
  have hmem : r.slot d ∈ r.unconditional := by
    obtain ⟨b, hb, hbc⟩ := exists_mem_firsts hc
    rw [h.layer, hslot, ← r.slot_congr hbc]
    exact List.mem_map_of_mem hb
  have hfirsts : firsts (rules ++ [d]) = firsts rules := by rw [firsts_concat, if_pos hd]
  refine ⟨?_, ?_, fun hash e he => ?_, h.index_placeRule fun c _ => by rw [hslots],
    hrules ▸ h.keyed, h.plain⟩
  · rw [placeRule_unconditional, Bucket.push, if_pos hmem, hfirsts, hslots, h.layer]
  · rw [hfirsts, hslots, hrules]
    exact h.stored
  · obtain ⟨b, hb, hf⟩ := h.only hash e (hrules ▸ he)
    exact ⟨b, List.mem_append_left _ hb, hf⟩

/-- A rule with new content is stored as it is. -/
theorem Mirrors.get?_slot_placeRule (h : r.Mirrors rules)
    (hd : d.fingerprint ∉ rules.map ClassRule.fingerprint) :
    (r.placeRule d).rules.get? (r.slot d) = some d.entry := by
  have hnot : r.rules.holds d.entry (r.slot d) = false := by
    rw [RuleTable.holds]
    cases hg : r.rules.get? (r.slot d) with
    | none => rfl
    | some e =>
      obtain ⟨c, hc, hf⟩ := h.only _ e hg
      have hne : e.fingerprint ≠ d.entry.fingerprint := fun he =>
        hd (List.mem_map.2 ⟨c, hc, hf.symm.trans he⟩)
      simp [hne]
  rw [placeRule_rules, RuleTable.settle, hnot, if_neg Bool.false_ne_true, RuleTable.get?_insert,
    if_pos rfl]

section new

variable (h : r.Mirrors rules) (hapart : DigestsApart (rules ++ [d]))
  (hd : d.fingerprint ∉ rules.map ClassRule.fingerprint)
include h hapart

/-- What is on record stays so. -/
theorem Mirrors.get?_placeRule {hash : String} {e : Entry} (he : r.rules.get? hash = some e) :
    (r.placeRule d).rules.get? hash = some e := by
  have hsep : RuleTable.Separate Digest.sha256Hex r.rules d.entry := by
    intro hash e he hdigest
    obtain ⟨c, hc, hf⟩ := h.only hash e he
    rw [hf] at hdigest ⊢
    exact Decidable.by_contra fun hne =>
      hapart c (List.mem_append_left _ hc) d (by simp) hne hdigest
  rw [placeRule, (place_store ..).2]
  exact RuleTable.get?_store_of_separate h.keyed length_sha256Hex (entry_isKey d) hsep he

/-- Behind a new content every content is stored in the slot it had. -/
theorem Mirrors.slot_placeRule (hc : c ∈ rules ++ [d]) : (r.placeRule d).slot c = r.slot c := by
  have hholds : (r.placeRule d).rules.holds c.entry (r.slot c) = true := by
    rcases List.mem_append.1 hc with hc | hc
    · obtain ⟨e, he, hf⟩ := h.exists_get? hc
      simp only [RuleTable.holds, h.get?_placeRule hapart he, Option.any_some, decide_eq_true_eq]
      exact hf
    · obtain rfl := List.mem_singleton.1 hc
      rw [placeRule_rules]
      exact RuleTable.holds_settle ..
  have hdigits := RuleTable.slotDigits_eq (length_sha256Hex c.fingerprint)
    (fun _ _ _ he => h.get?_placeRule hapart he) hholds
  rw [slot, hdigits, slot]

include hd

/-- A rule whose content is new is stored next to all others. -/
theorem Mirrors.placeRule_of_not_mem : (r.placeRule d).Mirrors (rules ++ [d]) := by
  have hslots := fun c hc => h.slot_placeRule hapart (c := c) hc
  have hself := h.get?_slot_placeRule hd
  have hfirsts : firsts (rules ++ [d]) = firsts rules ++ [d] := by rw [firsts_concat, if_neg hd]
  have hold : ∀ c ∈ firsts rules, (r.placeRule d).slot c = r.slot c := fun c hc =>
    hslots c (List.mem_append_left _ (mem_of_mem_firsts hc))
  have hnew : (r.placeRule d).slot d = r.slot d := hslots d (by simp)
  have hmem : r.slot d ∉ r.unconditional := by
    rw [h.layer]
    intro hmem
    obtain ⟨c, hc, hslot⟩ := List.mem_map.1 hmem
    have hkept := h.get?_placeRule hapart (h.stored c hc)
    rw [hslot, hself] at hkept
    have hf : d.entry.fingerprint = c.entry.fingerprint := by rw [Option.some.inj hkept]
    exact hd (List.mem_map.2 ⟨c, mem_of_mem_firsts hc, hf.symm⟩)
  refine ⟨?_, fun c hc => ?_, fun hash e he => ?_, h.index_placeRule hslots, ?_, h.plain⟩
  · rw [placeRule_unconditional, Bucket.push, if_neg hmem, hfirsts, List.map_append, h.layer,
      List.map_congr_left hold, List.map_singleton, hnew]
  · rw [hfirsts] at hc
    rcases List.mem_append.1 hc with hc | hc
    · rw [hold c hc]
      exact h.get?_placeRule hapart (h.stored c hc)
    · obtain rfl := List.mem_singleton.1 hc
      rw [hnew]
      exact hself
  · by_cases hh : hash = r.slot d
    · rw [hh, hself] at he
      exact ⟨d, by simp, by rw [← Option.some.inj he]; rfl⟩
    · rw [placeRule_rules, RuleTable.get?_settle_of_ne hh] at he
      obtain ⟨c, hc, hf⟩ := h.only hash e he
      exact ⟨c, List.mem_append_left _ hc, hf⟩
  · rw [placeRule, (place_store ..).2]
    exact h.keyed.store (length_sha256Hex _) (entry_isKey d)

end new

/-- **Behind a run of rules** the registry looks like these rules. -/
theorem mirrors_placeAll : ∀ (rest done : List ClassRule) (r : Registry), r.Mirrors done →
    DigestsApart (done ++ rest) → (rest.foldl placeRule r).Mirrors (done ++ rest)
  | [], done, r, h, _ => by simpa using h
  | d :: rest, done, r, h, hapart => by
      have hassoc : done ++ d :: rest = done ++ [d] ++ rest := by simp
      rw [hassoc] at hapart ⊢
      have hstep : (r.placeRule d).Mirrors (done ++ [d]) := by
        by_cases hd : d.fingerprint ∈ done.map ClassRule.fingerprint
        · exact h.placeRule_of_mem hd
        · exact h.placeRule_of_not_mem (fun c hc b hb =>
            hapart c (List.mem_append_left _ hc) b (List.mem_append_left _ hb)) hd
      exact mirrors_placeAll rest (done ++ [d]) (r.placeRule d) hstep hapart

/-! ## Plain sheets -/

/-- Registering a rule of plain selectors is placing a rule for each class. -/
theorem registerRule_plain (rule : Rule)
    (h : ∀ selector ∈ rule.selectors, isPlainSelector selector = true) (r : Registry) :
    (r.registerRule none rule).2 = rule.classRules.foldl placeRule r := by
  simp only [registerRule, Rule.classRules]
  generalize rule.selectors = selectors at h ⊢
  generalize 0 = n
  induction selectors generalizing n r with
  | nil => split <;> rfl
  | cons selector rest ih =>
    obtain ⟨name, hname⟩ := exists_of_isPlainSelector (h selector (List.mem_cons_self ..))
    rw [List.foldl_cons, ih _ fun s hs => h s (List.mem_cons_of_mem _ hs)]
    by_cases hds : rule.declarations = []
    · simp [hds, registerDeclarations_eq, hname]
    · simp [hds, registerDeclarations_eq, hname, placeRule, ClassRule.entry]

/-- Registering a plain sheet is placing its class rules. -/
theorem registerSheet_plain {s : Sheet} (h : s.IsPlain) (r : Registry) :
    (r.registerSheet s).2 = s.classRules.foldl placeRule r := by
  simp only [registerSheet, Sheet.classRules]
  rw [Sheet.IsPlain] at h
  generalize s.rules = rules at h ⊢
  generalize 0 = n
  induction rules generalizing r n with
  | nil => rfl
  | cons x rest ih =>
    obtain ⟨width, rule⟩ := x
    obtain ⟨hwidth, hrule⟩ := h (width, rule) (List.mem_cons_self ..)
    obtain rfl : width = none := hwidth
    have hrest := fun r => ih r fun y hy => h y (List.mem_cons_of_mem _ hy)
    rw [List.foldl_cons, hrest, List.flatMap_cons, List.foldl_append]
    dsimp only
    rw [registerRule_plain rule hrule]

/-- Plain sheets leave a registry that mirrors their rules. -/
theorem mirrors_ingestAll {texts : List String} (percentUnits : Bool)
    (hplain : ∀ text ∈ texts, (Sheet.read text).IsPlain)
    (hapart : DigestsApart (sourceRules texts)) :
    (ingestAll (empty percentUnits) texts).Mirrors (sourceRules texts) := by
  have hrun : ∀ (texts : List String) (r : Registry),
      (∀ text ∈ texts, (Sheet.read text).IsPlain) →
      ingestAll r texts = (sourceRules texts).foldl placeRule r := by
    intro texts
    induction texts with
    | nil => intro r _; rfl
    | cons text texts ih =>
      intro r h
      rw [ingestAll, List.foldl_cons, sourceRules, List.flatMap_cons, List.foldl_append, ingest_eq,
        registerSheet_plain (h text (List.mem_cons_self ..))]
      exact ih _ fun t ht => h t (List.mem_cons_of_mem _ ht)
  rw [hrun texts _ hplain]
  exact mirrors_placeAll _ [] _ (mirrors_empty percentUnits) hapart

/-! ## What the written text says -/

/-- The rules that are listed under slots are those that were placed there. -/
theorem rulesIn_slots : ∀ rules : List ClassRule,
    (∀ c ∈ rules, r.rules.get? (r.slot c) = some c.entry) →
      r.rulesIn (rules.map r.slot) = rules.map fun c => c.entry.rule (r.slot c)
  | [], _ => rfl
  | c :: rest, h => by
      have ih := rulesIn_slots rest fun d hd => h d (List.mem_cons_of_mem _ hd)
      rw [rulesIn] at ih ⊢
      rw [List.map_cons, List.filterMap_cons, h c (List.mem_cons_self ..), ih]
      rfl

/-- The written rules are the first ones, in the same order. -/
theorem Mirrors.rules_compiledSheet (h : r.Mirrors rules) :
    r.compiledSheet.rules = (firsts rules).map fun c => (none, c.entry.rule (r.slot c)) := by
  have hlayer := r.rulesIn_slots (firsts rules) h.stored
  rw [← h.layer] at hlayer
  simp only [compiledSheet, h.plain, List.map_nil, List.append_nil, Sheet.rules, hlayer,
    List.flatMap_map, Item.rules]
  exact List.map_eq_flatMap.symm

/-- Whether a written rule is for the class of one of some hashes. -/
def isFor (hashes : List String) (rule : Rule) : Bool :=
  hashes.any fun hash => rule.selectors = ["." ++ hash]

/-- The declarations of the written rules that a `class` attribute selects, in order. -/
def writtenFor (r : Registry) (classAttribute : String) : List Declaration :=
  ((r.compiledSheet.rules.map Prod.snd).filter (isFor (r.resolve classAttribute))).flatMap
    Rule.declarations

end Registry

/-- The declarations of the rules of the classes in a `class` attribute, in order. -/
def sourceFor (rules : List ClassRule) (classAttribute : String) : List Declaration :=
  (rules.filter fun c => c.name ∈ Text.tokens classAttribute).flatMap ClassRule.declarations

/-- Whether a rule has the content of a rule of a class in a `class` attribute. -/
def isSelected (rules : List ClassRule) (classAttribute : String) (c : ClassRule) : Bool :=
  rules.any fun d => d.fingerprint = c.fingerprint && d.name ∈ Text.tokens classAttribute

/-- The declarations of the first rules whose content a `class` attribute selects, in order. -/
def firstsFor (rules : List ClassRule) (classAttribute : String) : List Declaration :=
  ((firsts rules).filter (isSelected rules classAttribute)).flatMap ClassRule.declarations

/-- Where no content repeats, a rule is known by its content. -/
theorem eq_of_fingerprint {c d : ClassRule} : ∀ {rules : List ClassRule},
    rules.Pairwise (fun c d => c.fingerprint ≠ d.fingerprint) → c ∈ rules → d ∈ rules →
      c.fingerprint = d.fingerprint → c = d
  | b :: rest, h, hc, hd, hf => by
      obtain ⟨hb, hrest⟩ := List.pairwise_cons.1 h
      rcases List.mem_cons.1 hc with hcb | hc' <;> rcases List.mem_cons.1 hd with hdb | hd'
      · exact hcb.trans hdb.symm
      · exact absurd hf (hcb ▸ hb d hd')
      · exact absurd hf.symm (hdb ▸ hb c hc')
      · exact eq_of_fingerprint hrest hc' hd' hf

/-- Where no content is repeated, leaving out repetitions changes nothing. -/
theorem firstsFor_eq_sourceFor {rules : List ClassRule}
    (h : rules.Pairwise fun c d => c.fingerprint ≠ d.fingerprint) (classAttribute : String) :
    firstsFor rules classAttribute = sourceFor rules classAttribute := by
  have hselected : ∀ c ∈ rules,
      isSelected rules classAttribute c = decide (c.name ∈ Text.tokens classAttribute) := by
    intro c hc
    have hsame : ∀ d ∈ rules, d.fingerprint = c.fingerprint → d = c := fun d hd hf =>
      eq_of_fingerprint h hd hc hf
    rw [isSelected, Bool.eq_iff_iff, List.any_eq_true]
    simp only [Bool.and_eq_true, decide_eq_true_eq]
    constructor
    · rintro ⟨d, hd, hf, hname⟩
      exact hsame d hd hf ▸ hname
    · exact fun hname => ⟨c, hc, rfl, hname⟩
  rw [firstsFor, sourceFor, firsts_eq_self h, List.filter_congr hselected]

namespace Registry

variable {r : Registry} {rules : List ClassRule} {c : ClassRule}

theorem selectors_entry_rule_iff {slot hash : String} :
    (c.entry.rule slot).selectors = ["." ++ hash] ↔ slot = hash := by
  simp [Entry.rule, ClassRule.entry, classEntry, Entry.ofContent]

/-- A content is selected by an attribute exactly if one of the rules that have it is of a class in
the attribute. -/
theorem Mirrors.isFor_resolve (h : r.Mirrors rules) (hc : c ∈ rules) (classAttribute : String) :
    isFor (r.resolve classAttribute) (c.entry.rule (r.slot c)) =
      isSelected rules classAttribute c := by
  have hiff : r.slot c ∈ r.resolve classAttribute ↔
      ∃ d ∈ rules, d.fingerprint = c.fingerprint ∧ d.name ∈ Text.tokens classAttribute := by
    simp only [resolve, Text.mem_dedup, List.mem_flatMap, h.index]
    constructor
    · rintro ⟨name, hname, d, hd, rfl, hslot⟩
      exact ⟨d, hd, h.fingerprint_of_slot hd hc hslot.symm, hname⟩
    · rintro ⟨d, hd, hf, hname⟩
      exact ⟨d.name, hname, d, hd, rfl, (r.slot_congr hf).symm⟩
  rw [Bool.eq_iff_iff]
  simp only [isFor, isSelected, List.any_eq_true, decide_eq_true_eq, selectors_entry_rule_iff,
    Bool.and_eq_true, exists_eq_right']
  exact hiff

/-- What the written text says is what the first rules say. -/
theorem Mirrors.writtenFor_eq (h : r.Mirrors rules) (classAttribute : String) :
    r.writtenFor classAttribute = firstsFor rules classAttribute := by
  have hfilter : (firsts rules).filter
      (fun c => isFor (r.resolve classAttribute) (c.entry.rule (r.slot c))) =
      (firsts rules).filter (isSelected rules classAttribute) :=
    List.filter_congr fun c hc => h.isFor_resolve (mem_of_mem_firsts hc) classAttribute
  rw [writtenFor, firstsFor, h.rules_compiledSheet, List.map_map, List.filter_map, List.flatMap_map,
    ← hfilter]
  rfl

end Registry

/-- **The written text keeps the cascade of the first rules.**  For any plain texts, any `class`
attribute and any property: the last declaration of the property among the written rules that the
attribute selects has the value of the last one among the rules of the source, repetitions left
out, whose content the attribute selects.  If no content is repeated, that is the last declaration
among all rules of the source whose class is in the attribute. -/
theorem compiled_keeps_cascade_of_firsts (percentUnits : Bool) {texts : List String}
    (hplain : ∀ text ∈ texts, (Sheet.read text).IsPlain)
    (hapart : DigestsApart (sourceRules texts)) (classAttribute property : String) :
    let r := ingestAll (Registry.empty percentUnits) texts
    lastValue? property (r.writtenFor classAttribute) =
        lastValue? property (firstsFor (sourceRules texts) classAttribute) ∧
      ((sourceRules texts).Pairwise (fun c d => c.fingerprint ≠ d.fingerprint) →
        lastValue? property (r.writtenFor classAttribute) =
          lastValue? property (sourceFor (sourceRules texts) classAttribute)) := by
  intro r
  have hwritten := (Registry.mirrors_ingestAll percentUnits hplain hapart).writtenFor_eq
    classAttribute
  refine ⟨by rw [hwritten], fun hdistinct => ?_⟩
  rw [hwritten, firstsFor_eq_sourceFor hdistinct]

/-- Of red, blue and red again, blue is the last if the repetition is left out. -/
theorem blue_counts_behind_repeated_red :
    lastValue? "color" ((ingestAll (Registry.empty true)
      [".a{color:red}.b{color:blue}.a{color:red}"]).writtenFor "a b") = some "blue" :=
  (compiled_keeps_cascade_of_firsts true (by decide +kernel) (by decide +kernel) "a b"
    "color").1.trans (by decide +kernel)

/-- **A repeated rule is not moved.**  In the source red is declared last, and in the written text
blue is. -/
theorem repeated_rule_is_not_moved :
    lastValue? "color"
        (sourceFor (sourceRules [".a{color:red}.b{color:blue}.a{color:red}"]) "a b") =
        some "red" ∧
      lastValue? "color" ((ingestAll (Registry.empty true)
        [".a{color:red}.b{color:blue}.a{color:red}"]).writtenFor "a b") = some "blue" := by
  decide +kernel

end Pane.Style
