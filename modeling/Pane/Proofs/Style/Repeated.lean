import Pane.Proofs.Style.Contents

/-!
# Registering a second time

What has been registered is settled, and stays settled whatever is registered next.  Registering it
again therefore finds its content in the slot where it lies and its hash in the layer and under the
class where it is listed, so that nothing is left to do: the registry behind it is the same
registry, and with it everything that is looked up in it or written from it.

**The three places.**  `RuleTable.settle_of_holds`, `Registry.pushLayer_of_inLayer` and
`pushClass_of_mem` — a content, a hash in a layer and a hash under a class that are there already.
**`Registry.Settled.enter_eq_self`** puts them together.

**Repetitions.**  `Registration.Repeats` — another spelling of the same class and block.
`Registry.Settled.of_repeats` — it finds the same slot.

**Result.**  **`Registry.registering_again_changes_nothing`**.
-/

namespace Pane.Style

/-! ## What is there already -/

theorem push_of_mem {b : Bucket} {hash : String} (h : hash ∈ b) : b.push hash = b := if_pos h

theorem pushAt_of_held {w : UInt32} {hash : String} {l : List (UInt32 × Bucket)}
    (hl : l.Pairwise fun p q => p.1 < q.1) (h : Registry.Held w hash l) : pushAt w hash l = l := by
  induction l with
  | nil =>
    obtain ⟨b, hb, -⟩ := h
    exact absurd hb List.not_mem_nil
  | cons p rest ih =>
    obtain ⟨hp, hrest⟩ := List.pairwise_cons.1 hl
    obtain ⟨b, hb, hhash⟩ := h
    rw [pushAt]
    rcases List.mem_cons.1 hb with rfl | hb
    · rw [if_neg (UInt32.lt_irrefl w), if_pos rfl, push_of_mem hhash]
    · have hlt : p.1 < w := hp (w, b) hb
      have hne : w ≠ p.1 := fun he => UInt32.lt_irrefl w (he ▸ hlt)
      rw [if_neg (UInt32.lt_asymm hlt), if_neg hne, ih hrest ⟨b, hb, hhash⟩]

theorem pushClass_of_mem {name hash : String} {l : List (String × Bucket)}
    (h : hash ∈ (l.lookup name).getD []) : pushClass name hash l = l := by
  induction l with
  | nil => exact absurd h List.not_mem_nil
  | cons p rest ih =>
    rw [Table.lookup_cons_ite] at h
    rw [pushClass]
    by_cases hp : name = p.1
    · rw [if_pos hp, Option.getD_some] at h
      rw [if_pos hp.symm, push_of_mem h]
    · rw [if_neg hp] at h
      rw [if_neg (Ne.symm hp), ih h]

namespace Registry

variable {r : Registry} {p q : Registration} {hash : String}

theorem pushLayer_of_inLayer (horderly : r.Orderly) {width : Option UInt32}
    (h : r.InLayer width hash) : r.pushLayer width hash = r := by
  cases width with
  | none => rw [pushLayer, push_of_mem h]
  | some w => rw [pushLayer, pushAt_of_held horderly.ascending h]

/-- The registry behind a registration, in terms of its three parts. -/
theorem enter_eq (r : Registry) (p : Registration) :
    r.enter p =
      let s := { r with rules := r.rules.settle p.entry (r.hashFor p) }.pushLayer p.width
        (r.hashFor p)
      match p.name with
      | some name => { s with classes := pushClass name (r.hashFor p) s.classes }
      | none => s := by
  rw [← enter_rules, enter, place_store .. |>.2]
  rfl

/-- **Registering what is settled changes nothing.** -/
theorem Settled.enter_eq_self (h : r.Settled p hash) (horderly : r.Orderly) : r.enter p = r := by
  have hrules : r.rules.settle p.entry hash = r.rules := RuleTable.settle_of_holds h.holds
  have hlayer : r.pushLayer p.width hash = r := pushLayer_of_inLayer horderly h.layered
  rw [enter_eq, h.found, hrules]
  dsimp only
  rw [hlayer]
  split
  · next name hname => rw [pushClass_of_mem (h.indexed name hname)]
  · rfl

theorem foldl_enter_eq_self (horderly : r.Orderly)
    {ps : List Registration} (h : ∀ p ∈ ps, ∃ hash, r.Settled p hash) : ps.foldl enter r = r := by
  induction ps with
  | nil => rfl
  | cons p ps ih =>
    obtain ⟨⟨hash, hp⟩, hps⟩ := List.forall_mem_cons.1 h
    rw [List.foldl_cons, hp.enter_eq_self horderly, ih hps]

end Registry

/-! ## Repetitions -/

/-- A registration of the same class, width and suffix with the same canonical text. -/
structure Registration.Repeats (q p : Registration) : Prop where
  name : q.name = p.name
  width : q.width = p.width
  key : q.key = p.key
  suffix : q.suffix = p.suffix
  text : q.text = p.text

theorem Registration.Repeats.fingerprint {p q : Registration} (h : q.Repeats p) :
    q.fingerprint = p.fingerprint := by
  have htext : renderDeclarations q.declarations = renderDeclarations p.declarations := h.text
  simp only [Registration.fingerprint, Registration.entry, Entry.ofContent, htext, h.key, h.suffix]

theorem RuleTable.slotDigits_congr (t : RuleTable) {e e' : Entry} (digest : String)
    (hkey : e.cascadeKey = e'.cascadeKey) (hprint : e.fingerprint = e'.fingerprint) :
    t.slotDigits e digest = t.slotDigits e' digest := by
  have hfits : t.fits e = t.fits e' := by
    funext hash
    simp only [fits, hprint]
  simp only [slotDigits, slotAmong, hfits, hkey]

/-- Only an empty block has no canonical text. -/
theorem renderDeclarations_ne_empty {ds : List Declaration} (h : ds ≠ []) :
    renderDeclarations ds ≠ "" := by
  intro hempty
  have hnil : declarationChars ds = [] := by
    rw [← String.toList_ofList (l := declarationChars ds)]
    exact congrArg String.toList hempty
  have hpart : (ds.head h).chars <:+: joinChars [';'] (ds.map Declaration.chars) :=
    infix_joinChars (List.mem_map_of_mem (List.head_mem h))
  have hcolon : ':' ∈ (ds.head h).chars := by simp [Declaration.chars]
  have hmem : ':' ∈ declarationChars ds := hpart.subset hcolon
  rw [hnil] at hmem
  exact absurd hmem List.not_mem_nil

/-- The same class and suffix with the same canonical text make a repetition. -/
theorem Registration.exists_repeats {selector selector' : String} {ds ds' : List Declaration}
    {width : Option UInt32} {p : Registration} (hp : ofClass? selector ds width = some p)
    (hselector : ClassSelector.read? selector' = ClassSelector.read? selector)
    (htext : renderDeclarations ds' = renderDeclarations ds) :
    ∃ q, ofClass? selector' ds' width = some q ∧ q.Repeats p := by
  rw [ofClass?] at hp ⊢
  rw [hselector]
  cases hs : ClassSelector.read? selector with
  | none => simp [hs] at hp
  | some s =>
    simp only [hs] at hp ⊢
    split at hp
    · exact absurd hp (by simp)
    · next hds =>
      have hds' : ds' ≠ [] := by
        rintro rfl
        exact renderDeclarations_ne_empty hds htext.symm
      obtain rfl := Option.some.inj hp
      rw [if_neg hds']
      exact ⟨_, rfl, rfl, rfl, rfl, rfl, htext⟩

namespace Registry

variable {r : Registry} {p q : Registration} {hash : String}

/-- A repetition is given the hash that the registration is given. -/
theorem hashFor_of_repeats (r : Registry) (h : q.Repeats p) : r.hashFor q = r.hashFor p := by
  have hprint : q.entry.fingerprint = p.entry.fingerprint := h.fingerprint
  have hkey : q.entry.cascadeKey = p.entry.cascadeKey := h.key
  rw [hashFor_eq, hashFor_eq, h.fingerprint, h.key,
    RuleTable.slotDigits_congr r.rules _ hkey hprint]

/-- A repetition finds what is settled. -/
theorem Settled.of_repeats (h : r.Settled p hash) (hq : q.Repeats p) : r.Settled q hash := by
  have hprint : q.entry.fingerprint = p.entry.fingerprint := hq.fingerprint
  have hfound : r.hashFor q = r.hashFor p := r.hashFor_of_repeats hq
  refine ⟨?_, hfound.trans h.found, hq.width ▸ h.layered, fun name hname => ?_⟩
  · rw [RuleTable.holds, hprint]
    exact h.holds
  · exact h.indexed name (hq.name ▸ hname)

/-- The log of a run tells which hash a block was given on the way. -/
theorem mem_log_of_ofClass? {percentUnits : Bool} {calls : List Call} {selector body : String}
    {width : Option UInt32}
    (hp : Registration.ofClass? selector (declarationsOf body) width = some p)
    (more : List Call) :
    (p, ((empty percentUnits).run calls).hashFor p) ∈
      (empty percentUnits).log (registrations (calls ++ .rule selector body width :: more)) := by
  obtain ⟨b, hb⟩ := (empty percentUnits).run_eq calls
  have hall : registrations (calls ++ .rule selector body width :: more) =
      registrations calls ++ p :: registrations more := by
    simp [registrations, Call.registrations, hp]
  rw [hall, log_append, hb, hashFor_withUnits]
  exact List.mem_append_right _ (List.mem_cons_self ..)

end Registry

/-- **Registering again changes nothing.**  Behind whatever calls a block was registered under a
selector, and whatever was registered since: if it is registered again, under any selector with the
same class and suffix and in any spelling with the same canonical text, the answer is the same hash
and the registry is the same registry.  So it is if a style text is read twice in a row, and its
selectors are counted alike.  It is taken for granted that no two fingerprints of what is registered
have the same digest. -/
theorem Registry.registering_again_changes_nothing (percentUnits : Bool) (calls : List Call) :
    (∀ (more : List Call) (selector body : String) (width : Option UInt32) (hash : String),
      (((empty percentUnits).run calls).register selector body width).1 = some hash →
      DigestsDiffer (registrations (calls ++ .rule selector body width :: more)) →
      let r := (empty percentUnits).run (calls ++ .rule selector body width :: more)
      ∀ selector' body', ClassSelector.read? selector' = ClassSelector.read? selector →
        renderDeclarations (declarationsOf body') = renderDeclarations (declarationsOf body) →
        r.register selector' body' width = (some hash, r)) ∧
    ∀ text, DigestsDiffer (registrations (calls ++ [.sheet text])) →
      let first := ((empty percentUnits).run calls).ingest text
      first.2.ingest text = first := by
  constructor
  · intro more selector body width hash hreg hdigests r selector' body' hselector htext
    obtain ⟨p, hp, rfl, -⟩ := of_register_eq_some hreg
    have hsettled : r.Settled p (((empty percentUnits).run calls).hashFor p) :=
      settled_run hdigests (mem_log_of_ofClass? hp more)
    have horderly : r.Orderly := orderly_run _ (orderly_empty percentUnits)
    -- what is registered now is a repetition of `p`
    obtain ⟨q, hq, hrepeats⟩ := Registration.exists_repeats hp hselector htext
    have hagain := hsettled.of_repeats hrepeats
    rw [register, registerDeclarations_eq_enter, hq]
    simp only [hagain.found, hagain.enter_eq_self horderly]
  · intro text hdigests first
    have hrun : first.2 = (empty percentUnits).run (calls ++ [.sheet text]) :=
      (run_append (empty percentUnits) calls [.sheet text]).symm
    have horderly : first.2.Orderly := by
      rw [hrun]
      exact orderly_run _ (orderly_empty percentUnits)
    have hsettled : ∀ p ∈ (Sheet.read text).registrations, ∃ hash, first.2.Settled p hash := by
      intro p hp
      have hmem : p ∈ registrations (calls ++ [.sheet text]) :=
        mem_registrations.2 ⟨.sheet text, by simp, hp⟩
      obtain ⟨hash, hlog⟩ := exists_mem_log (r := empty percentUnits) hmem
      refine ⟨hash, ?_⟩
      rw [hrun]
      exact settled_run hdigests hlog
    have hcount : first.1 = (Sheet.read text).registrations.length :=
      congrArg Prod.fst (ingest_eq_enter ..)
    rw [ingest_eq_enter, foldl_enter_eq_self horderly hsettled, ← hcount]

/-- A class is registered at a width, an inline style after it, and the class once more in other
letters and with another spelling of its name; a text is read twice. -/
theorem Registry.registering_again_in_other_letters :
    let r := (empty true).run [.rule ".a" "color:red" (some 801), .inline "color:red"]
    r.register " .\\61 " " COLOR : red ;" (some 801) =
        (some "s482524efcfc29a79e516", r) ∧
      (r.ingest ".a{color:red}").2.ingest ".a{color:red}" = r.ingest ".a{color:red}" := by
  refine ⟨?_, (registering_again_changes_nothing true _).2 ".a{color:red}" (by decide +kernel)⟩
  exact (registering_again_changes_nothing true []).1 [.inline "color:red"] ".a" "color:red"
    (some 801) "s482524efcfc29a79e516" (by decide +kernel) (by decide +kernel) " .\\61 "
    " COLOR : red ;" (by decide +kernel) (by decide +kernel)

end Pane.Style
