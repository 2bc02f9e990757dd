import Pane.Proofs.Style.Runs

/-!
# What calls register

A call registers some contents, and which ones they are does not depend on the registry: a selector
with a class stands for one, an inline style for one, and a style text for one under each of its
selectors.  A run of calls is therefore a run of registrations that are known beforehand, and what
such a run does can be told from one registration.

**Registrations.**  `Registration`, `Call.registrations`.  **`Registry.run_eq`** — a run of calls
enters their registrations one after the other; `Registry.ingest_eq_enter` and
`Registry.registerDeclarations_eq_enter` say the same of a style text and of a selector, with what
they answer.

**What is stored.**  `Registry.Within` — every stored entry is the content of one of some
registrations.

**What stays.**  `Registry.Settled` — a content lies under its hash, is found there again, and the
hash is listed where it belongs.  `Registry.settled_enter` is the step in which this comes about.
**`Registry.Settled.enter`** is the step that keeps it, and takes for granted that the digests of
different fingerprints differ (`DigestsDiffer`).  `Registry.log` tells the hash of each registration
of a run, and **`Registry.settled_run`** that all of them are settled behind it.
-/

namespace Pane.Style

open RuleTable (IsKey)

/-! ## Registrations -/

/-- A content to be stored, with the class and the width that its hash is to be listed under. -/
structure Registration where
  /-- The class, which an inline style has none of. -/
  name : Option String
  width : Option UInt32
  key : String
  suffix : String
  declarations : List Declaration
  keyed : IsKey key

namespace Registration

/-- The entry of the content. -/
def entry (p : Registration) : Entry := Entry.ofContent p.key p.suffix p.declarations

/-- The canonical text of the declarations. -/
def text (p : Registration) : String := renderDeclarations p.declarations

/-- The written form of the content. -/
def fingerprint (p : Registration) : String := p.entry.fingerprint

/-- What declarations under a selector come to: nothing, if there is no class or no declaration. -/
def ofClass? (selector : String) (ds : List Declaration) (width : Option UInt32) :
    Option Registration :=
  match ClassSelector.read? selector with
  | none => none
  | some s =>
    if ds = [] then none
    else some ⟨some s.name, width, Registry.cascadeKey s, s.suffix, ds, isKey_cascadeKey s⟩

/-- What is registered for a class has the suffix, the width and the declarations that are given. -/
theorem of_ofClass?_eq_some {selector : String} {ds : List Declaration} {width : Option UInt32}
    {p : Registration} (h : ofClass? selector ds width = some p) :
    ∃ s, ClassSelector.read? selector = some s ∧ p.suffix = s.suffix ∧ p.width = width ∧
      p.declarations = ds := by
  rw [ofClass?] at h
  split at h
  · exact absurd h (by simp)
  · next s hs =>
    split at h
    · exact absurd h (by simp)
    · obtain rfl := Option.some.inj h
      exact ⟨s, hs, rfl, rfl, rfl⟩

/-- What an inline style comes to: nothing, if there is no declaration. -/
def ofInline? (body : String) : Option Registration :=
  if declarationsOf body = [] then none
  else some ⟨none, none,
    Registry.shortDigest ["inline", renderDeclarations (declarationsOf body)], "",
    declarationsOf body, isKey_shortDigest _⟩

/-- What is registered for an inline style has neither suffix nor width. -/
theorem of_ofInline?_eq_some {body : String} {p : Registration} (h : ofInline? body = some p) :
    p.suffix = "" ∧ p.width = none ∧ p.declarations = declarationsOf body := by
  rw [ofInline?] at h
  split at h
  · exact absurd h (by simp)
  · obtain rfl := Option.some.inj h
    exact ⟨rfl, rfl, rfl⟩

end Registration

/-- The registrations of a rule, one for each selector with a class. -/
def Rule.registrations (width : Option UInt32) (rule : Rule) : List Registration :=
  rule.selectors.filterMap fun selector =>
    Registration.ofClass? selector rule.declarations width

/-- The registrations of a sheet, in order. -/
def Sheet.registrations (s : Sheet) : List Registration :=
  s.rules.flatMap fun x => x.2.registrations x.1

/-- The registrations of a call, in order. -/
def Call.registrations : Call → List Registration
  | .units _ => []
  | .sheet text => (Sheet.read text).registrations
  | .rule selector body width =>
    (Registration.ofClass? selector (declarationsOf body) width).toList
  | .inline body => (Registration.ofInline? body).toList

/-- The registrations of some calls, in order. -/
def registrations (calls : List Call) : List Registration := calls.flatMap Call.registrations

/-- What is registered by calls is registered by one of them. -/
theorem mem_registrations {calls : List Call} {p : Registration} :
    p ∈ registrations calls ↔ ∃ call ∈ calls, p ∈ call.registrations :=
  List.mem_flatMap

theorem registrations_append (calls more : List Call) :
    registrations (calls ++ more) = registrations calls ++ registrations more :=
  List.flatMap_append

namespace Registry

variable {r : Registry} {p q : Registration}

/-! ## Entering registrations -/

/-- The hash that a registration is given. -/
def hashFor (r : Registry) (p : Registration) : String := (r.place p.name p.width p.entry).1

/-- The registry behind a registration. -/
def enter (r : Registry) (p : Registration) : Registry := (r.place p.name p.width p.entry).2

/-- Declarations under a selector are entered, if they come to something. -/
theorem registerDeclarations_eq_enter (r : Registry) (selector : String) (ds : List Declaration)
    (width : Option UInt32) :
    r.registerDeclarations selector ds width =
      match Registration.ofClass? selector ds width with
      | none => (none, r)
      | some p => (some (r.hashFor p), r.enter p) := by
  rw [registerDeclarations_eq, Registration.ofClass?]
  cases ClassSelector.read? selector with
  | none => rfl
  | some s =>
    by_cases hds : ds = []
    · simp only [hds, if_true]
    · simp only [hds, if_false]
      rfl

/-- A block that was given a hash was entered under it. -/
theorem of_register_eq_some {selector body : String} {width : Option UInt32} {hash : String}
    (h : (r.register selector body width).1 = some hash) :
    ∃ p, Registration.ofClass? selector (declarationsOf body) width = some p ∧
      r.hashFor p = hash ∧ (r.register selector body width).2 = r.enter p := by
  rw [register, registerDeclarations_eq_enter] at h ⊢
  cases hp : Registration.ofClass? selector (declarationsOf body) width with
  | none => simp [hp] at h
  | some p =>
    simp only [hp, Option.some.injEq] at h
    exact ⟨p, rfl, h, rfl⟩

/-- An inline style is entered, if it comes to something. -/
theorem registerInline_eq_enter (r : Registry) (body : String) :
    r.registerInline body =
      match Registration.ofInline? body with
      | none => (none, r)
      | some p => (some (r.hashFor p), r.enter p) := by
  rw [registerInline_eq, Registration.ofInline?]
  by_cases hds : declarationsOf body = []
  · simp only [hds, if_true]
  · simp only [hds, if_false]
    rfl

/-- An inline style that was given a hash was entered under it. -/
theorem of_registerInline_eq_some {body hash : String}
    (h : (r.registerInline body).1 = some hash) :
    ∃ p, Registration.ofInline? body = some p ∧ r.hashFor p = hash ∧
      (r.registerInline body).2 = r.enter p := by
  rw [registerInline_eq_enter] at h ⊢
  cases hp : Registration.ofInline? body with
  | none => simp [hp] at h
  | some p =>
    simp only [hp, Option.some.injEq] at h
    exact ⟨p, rfl, h, rfl⟩

/-- Registering a rule is entering what it registers, one after the other, and the number is
theirs. -/
theorem registerRule_eq_enter (r : Registry) (width : Option UInt32) (rule : Rule) :
    r.registerRule width rule =
      ((rule.registrations width).length, (rule.registrations width).foldl enter r) := by
  rw [registerRule, Rule.registrations, ← Nat.zero_add (List.length _)]
  generalize 0 = n
  induction rule.selectors generalizing r n with
  | nil => rfl
  | cons selector rest ih =>
    rw [List.foldl_cons, ih, registerDeclarations_eq_enter]
    cases hp : Registration.ofClass? selector rule.declarations width with
    | none => simp [hp]
    | some p =>
      simp only [List.filterMap_cons, hp, Option.isSome_some, if_true, List.foldl_cons,
        List.length_cons]
      rw [Nat.add_assoc, Nat.add_comm 1]

/-- So it is with a sheet. -/
theorem registerSheet_eq_enter (r : Registry) (s : Sheet) :
    r.registerSheet s = (s.registrations.length, s.registrations.foldl enter r) := by
  rw [registerSheet, Sheet.registrations, ← Nat.zero_add (List.length _)]
  generalize 0 = n
  induction s.rules generalizing r n with
  | nil => rfl
  | cons x rest ih =>
    rw [List.foldl_cons, ih, registerRule_eq_enter, List.flatMap_cons, List.foldl_append,
      List.length_append, Nat.add_assoc]

/-- The rules of a text are entered one after the other, and counted. -/
theorem ingest_eq_enter (r : Registry) (text : String) :
    r.ingest text = ((Sheet.read text).registrations.length,
      (Sheet.read text).registrations.foldl enter r) := by
  rw [ingest_eq, registerSheet_eq_enter]

/-- The registry when it shows viewport units as percentages, or does not. -/
def withUnits (r : Registry) (percentages : Bool) : Registry :=
  { r with percentUnits := percentages }

/-- A registration does not look at the units. -/
theorem enter_withUnits (r : Registry) (b : Bool) (p : Registration) :
    (r.withUnits b).enter p = (r.enter p).withUnits b := by
  obtain ⟨name, width, key, suffix, ds, hkey⟩ := p
  cases name <;> cases width <;> rfl

/-- How units are shown has no part in what is entered. -/
theorem foldl_enter_withUnits (r : Registry) (b : Bool) (ps : List Registration) :
    ps.foldl enter (r.withUnits b) = (ps.foldl enter r).withUnits b := by
  induction ps generalizing r with
  | nil => rfl
  | cons p ps ih => rw [List.foldl_cons, enter_withUnits, ih, List.foldl_cons]

/-- A call enters what it registers, and may change how units are shown. -/
theorem perform_eq (r : Registry) (call : Call) :
    ∃ b, r.perform call = (call.registrations.foldl enter r).withUnits b := by
  cases call with
  | units b => exact ⟨b, rfl⟩
  | sheet text =>
    refine ⟨((Sheet.read text).registrations.foldl enter r).percentUnits, ?_⟩
    rw [perform, ingest_eq_enter]
    rfl
  | rule selector body width =>
    rw [perform, register, registerDeclarations_eq_enter, Call.registrations]
    cases Registration.ofClass? selector (declarationsOf body) width with
    | none => exact ⟨r.percentUnits, rfl⟩
    | some p => exact ⟨(r.enter p).percentUnits, rfl⟩
  | inline body =>
    rw [perform, registerInline_eq_enter, Call.registrations]
    cases Registration.ofInline? body with
    | none => exact ⟨r.percentUnits, rfl⟩
    | some p => exact ⟨(r.enter p).percentUnits, rfl⟩

/-- **A run of calls enters their registrations**, one after the other. -/
theorem run_eq (r : Registry) (calls : List Call) :
    ∃ b, r.run calls = ((registrations calls).foldl enter r).withUnits b := by
  induction calls generalizing r with
  | nil => exact ⟨r.percentUnits, rfl⟩
  | cons call calls ih =>
    obtain ⟨b, hb⟩ := r.perform_eq call
    obtain ⟨c, hc⟩ := ih (r.perform call)
    refine ⟨c, ?_⟩
    rw [run_cons, hc, hb, foldl_enter_withUnits]
    simp only [registrations, List.flatMap_cons, List.foldl_append]
    rfl

theorem run_append (r : Registry) (calls more : List Call) :
    r.run (calls ++ more) = (r.run calls).run more :=
  List.foldl_append

/-- What is entered is settled in the table. -/
theorem enter_rules (r : Registry) (p : Registration) :
    (r.enter p).rules = r.rules.settle p.entry (r.hashFor p) :=
  place_rules ..

/-- The hash of what is registered: its key, and as many digits as its slot in the table has. -/
theorem hashFor_eq (r : Registry) (p : Registration) :
    r.hashFor p = hashOf p.key (Digest.sha256Hex p.fingerprint)
      (r.rules.slotDigits p.entry (Digest.sha256Hex p.fingerprint)) :=
  place_hash ..

/-- How units are shown has no part in a hash. -/
theorem hashFor_withUnits (r : Registry) (b : Bool) (p : Registration) :
    (r.withUnits b).hashFor p = r.hashFor p := by
  rw [hashFor_eq, hashFor_eq]
  rfl

/-- The layer of what is entered has its hash, and no other layer changes. -/
theorem inLayer_enter (width : Option UInt32) (hash : String) :
    (r.enter p).InLayer width hash ↔
      r.InLayer width hash ∨ width = p.width ∧ hash = r.hashFor p :=
  inLayer_place ..

/-- The class of what is entered has its hash, and no other class changes. -/
theorem hashesOf_enter (r : Registry) (p : Registration) (name : String) :
    (r.enter p).hashesOf name =
      if p.name = some name then Bucket.push (r.hashesOf name) (r.hashFor p)
      else r.hashesOf name :=
  hashesOf_place ..

/-! ## What is stored -/

/-- Every stored entry is the content of one of some registrations, and lies under a hash that is
made of its key and digest. -/
structure Within (r : Registry) (ps : List Registration) : Prop where
  keyed : r.rules.WellKeyed Digest.sha256Hex
  among : ∀ hash e, r.rules.get? hash = some e → ∃ p ∈ ps, e = p.entry

/-- An empty registry holds nothing else than what is given. -/
theorem within_empty (percentUnits : Bool) (ps : List Registration) :
    (empty percentUnits).Within ps where
  keyed := (sound_empty percentUnits).wellKeyed
  among hash e he := by simp [empty, RuleTable.get?] at he

section within

variable {all ps : List Registration}

/-- Entering one of them keeps a registry to what is given. -/
theorem Within.enter (h : r.Within all) (hp : p ∈ all) : (r.enter p).Within all where
  keyed := by
    rw [Registry.enter, (place_store ..).2]
    exact h.keyed.store (length_sha256Hex _) p.keyed
  among hash e he := by
    rw [enter_rules] at he
    rcases RuleTable.get?_settle he with he | rfl
    · exact h.among hash e he
    · exact ⟨p, hp, rfl⟩

/-- So does entering several. -/
theorem Within.foldl (h : r.Within all) (hps : ∀ p ∈ ps, p ∈ all) :
    (ps.foldl Registry.enter r).Within all := by
  induction ps generalizing r with
  | nil => exact h
  | cons p ps ih =>
    obtain ⟨hp, hps⟩ := List.forall_mem_cons.1 hps
    exact ih (h.enter hp) hps

/-- **Behind a run of calls** every stored entry is a content that was registered. -/
theorem within_run (percentUnits : Bool) (calls : List Call) :
    ((empty percentUnits).run calls).Within (registrations calls) := by
  obtain ⟨b, hb⟩ := (empty percentUnits).run_eq calls
  have h := (within_empty percentUnits (registrations calls)).foldl fun p hp => hp
  rw [hb]
  exact ⟨h.keyed, h.among⟩

/-- What is within some registrations is within more of them. -/
theorem Within.mono {more : List Registration} (h : r.Within all) (hmore : ∀ p ∈ all, p ∈ more) :
    r.Within more where
  keyed := h.keyed
  among hash e he := by
    obtain ⟨p, hp, rfl⟩ := h.among hash e he
    exact ⟨p, hmore p hp, rfl⟩

/-- A run of calls stores what a longer run registers. -/
theorem within_run_front (percentUnits : Bool) (calls more : List Call) :
    ((empty percentUnits).run calls).Within (registrations (calls ++ more)) := by
  rw [registrations_append]
  exact (within_run percentUnits calls).mono fun _ hp => List.mem_append_left _ hp

end within

end Registry

/-! ## What stays -/

/-- Different fingerprints of some registrations have different digests. -/
def DigestsDiffer (ps : List Registration) : Prop :=
  ∀ p ∈ ps, ∀ q ∈ ps, Digest.sha256Hex p.fingerprint = Digest.sha256Hex q.fingerprint →
    p.fingerprint = q.fingerprint

instance (ps : List Registration) : Decidable (DigestsDiffer ps) :=
  inferInstanceAs (Decidable (∀ p ∈ ps, ∀ q ∈ ps,
    Digest.sha256Hex p.fingerprint = Digest.sha256Hex q.fingerprint →
      p.fingerprint = q.fingerprint))

theorem DigestsDiffer.mono {ps qs : List Registration} (h : DigestsDiffer qs)
    (hsub : ∀ p ∈ ps, p ∈ qs) : DigestsDiffer ps :=
  fun p hp q hq => h p (hsub p hp) q (hsub q hq)

namespace Registry

variable {r : Registry} {p q : Registration} {hash : String} {all ps : List Registration}

/-- A content lies under a hash, is found there again, and the hash is listed under the width and
the class of the content. -/
structure Settled (r : Registry) (p : Registration) (hash : String) : Prop where
  holds : r.rules.holds p.entry hash = true
  found : r.hashFor p = hash
  layered : r.InLayer p.width hash
  indexed : ∀ name, p.name = some name → hash ∈ r.hashesOf name

/-- A content is found in its slot again if this still holds it and no other slot was taken away. -/
theorem hashFor_eq_of_kept {s : Registry}
    (hkeep : ∀ k e, k ≠ r.hashFor p → r.rules.get? k = some e → s.rules.get? k = some e)
    (hholds : s.rules.holds p.entry (r.hashFor p) = true) : s.hashFor p = r.hashFor p := by
  rw [hashFor_eq] at hkeep hholds
  have hdigits := RuleTable.slotDigits_eq (e := p.entry) (length_sha256Hex p.fingerprint)
    hkeep hholds
  rw [hashFor_eq, hashFor_eq, hdigits]

/-- **What is registered is settled.** -/
theorem settled_enter (r : Registry) (p : Registration) :
    (r.enter p).Settled p (r.hashFor p) := by
  have hholds : (r.enter p).rules.holds p.entry (r.hashFor p) = true := by
    rw [enter_rules]
    exact RuleTable.holds_settle ..
  refine ⟨hholds, hashFor_eq_of_kept (fun k e hk he => ?_) hholds,
    (inLayer_enter ..).2 (.inr ⟨rfl, rfl⟩), fun name hname => ?_⟩
  · rw [enter_rules, RuleTable.get?_settle_of_ne hk]
    exact he
  · rw [hashesOf_enter, if_pos hname]
    exact mem_push.2 (.inr rfl)

theorem Settled.withUnits (h : r.Settled p hash) (b : Bool) : (r.withUnits b).Settled p hash :=
  ⟨h.holds, (hashFor_withUnits ..).trans h.found, h.layered, h.indexed⟩

section digests

variable (hdigests : DigestsDiffer all)
include hdigests

/-- A slot keeps its entry when one more content is registered. -/
theorem Within.get?_enter (h : r.Within all) (hq : q ∈ all) {e : Entry}
    (he : r.rules.get? hash = some e) : (r.enter q).rules.get? hash = some e := by
  have hseparate : RuleTable.Separate Digest.sha256Hex r.rules q.entry := by
    intro k e' he' hdigest
    obtain ⟨p, hp, rfl⟩ := h.among k e' he'
    exact hdigests p hp q hq hdigest
  rw [Registry.enter, (place_store ..).2]
  exact RuleTable.get?_store_of_separate h.keyed length_sha256Hex q.keyed hseparate he

/-- A slot keeps its entry when several contents are registered. -/
theorem Within.get?_foldl (h : r.Within all) (hps : ∀ q ∈ ps, q ∈ all) {e : Entry}
    (he : r.rules.get? hash = some e) : (ps.foldl Registry.enter r).rules.get? hash = some e := by
  induction ps generalizing r with
  | nil => exact he
  | cons q ps ih =>
    obtain ⟨hq, hps⟩ := List.forall_mem_cons.1 hps
    exact ih (h.enter hq) hps (h.get?_enter hdigests hq he)

/-- **What is settled stays settled** when one more content is registered. -/
theorem Settled.enter (hp : r.Settled p hash) (h : r.Within all) (hq : q ∈ all) :
    (r.enter q).Settled p hash := by
  have hkeep := fun k e (he : r.rules.get? k = some e) => h.get?_enter hdigests hq he
  have hholds : (r.enter q).rules.holds p.entry hash = true := by
    obtain ⟨e, he, hf⟩ := Option.any_eq_true _ _ |>.1 hp.holds
    rw [RuleTable.holds, hkeep hash e he]
    exact hf
  obtain rfl := hp.found
  refine ⟨hholds, hashFor_eq_of_kept (fun k e _ he => hkeep k e he) hholds,
    (inLayer_enter ..).2 (.inl hp.layered), fun name hname => ?_⟩
  rw [hashesOf_enter]
  split
  · exact mem_push.2 (.inl (hp.indexed name hname))
  · exact hp.indexed name hname

/-- What is settled stays settled, whatever is entered behind it. -/
theorem Settled.foldl (hp : r.Settled p hash) (h : r.Within all) (hps : ∀ q ∈ ps, q ∈ all) :
    (ps.foldl Registry.enter r).Settled p hash := by
  induction ps generalizing r with
  | nil => exact hp
  | cons q ps ih =>
    obtain ⟨hq, hps⟩ := List.forall_mem_cons.1 hps
    exact ih (hp.enter hdigests h hq) (h.enter hq) hps

end digests

/-- **Behind a run of calls every slot keeps its entry** through further calls. -/
theorem get?_run_append {percentUnits : Bool} {calls more : List Call}
    (hdigests : DigestsDiffer (registrations (calls ++ more))) {e : Entry}
    (he : ((empty percentUnits).run calls).rules.get? hash = some e) :
    ((empty percentUnits).run (calls ++ more)).rules.get? hash = some e := by
  obtain ⟨b, hb⟩ := ((empty percentUnits).run calls).run_eq more
  rw [run_append, hb]
  refine (within_run_front percentUnits calls more).get?_foldl hdigests (fun q hq => ?_) he
  rw [registrations_append]
  exact List.mem_append_right _ hq

/-- The registrations of a run, each with the hash that it is given. -/
def log (r : Registry) : List Registration → List (Registration × String)
  | [] => []
  | p :: ps => (p, r.hashFor p) :: (r.enter p).log ps

/-- The log goes on from the registry that is reached. -/
theorem log_append (r : Registry) (ps qs : List Registration) :
    r.log (ps ++ qs) = r.log ps ++ (ps.foldl enter r).log qs := by
  induction ps generalizing r with
  | nil => rfl
  | cons p ps ih => rw [List.cons_append, log, ih, log, List.cons_append, List.foldl_cons]

/-- Everything that is entered is in the log. -/
theorem exists_mem_log (hp : p ∈ ps) : ∃ hash, (p, hash) ∈ r.log ps := by
  induction ps generalizing r with
  | nil => exact absurd hp List.not_mem_nil
  | cons q ps ih =>
    rcases List.mem_cons.1 hp with rfl | hp
    · exact ⟨r.hashFor p, List.mem_cons_self ..⟩
    · obtain ⟨hash, hmem⟩ := ih (r := r.enter q) hp
      exact ⟨hash, List.mem_cons_of_mem _ hmem⟩

/-- **Behind a run all its registrations are settled.** -/
theorem settled_of_mem_log (hdigests : DigestsDiffer all) (h : r.Within all)
    (hps : ∀ q ∈ ps, q ∈ all) (hp : (p, hash) ∈ r.log ps) :
    (ps.foldl Registry.enter r).Settled p hash := by
  induction ps generalizing r with
  | nil => exact absurd hp List.not_mem_nil
  | cons q ps ih =>
    obtain ⟨hq, hrest⟩ := List.forall_mem_cons.1 hps
    rw [List.foldl_cons]
    rcases List.mem_cons.1 hp with heq | hp
    · obtain ⟨rfl, rfl⟩ := Prod.mk.inj heq
      exact (r.settled_enter p).foldl hdigests (h.enter hq) hrest
    · exact ih (h.enter hq) hrest hp

/-- **Behind a run of calls all registrations of the run are settled.** -/
theorem settled_run {percentUnits : Bool} {calls : List Call}
    (hdigests : DigestsDiffer (registrations calls))
    (h : (p, hash) ∈ (empty percentUnits).log (registrations calls)) :
    ((empty percentUnits).run calls).Settled p hash := by
  obtain ⟨b, hb⟩ := (empty percentUnits).run_eq calls
  have hempty := within_empty percentUnits (registrations calls)
  rw [hb]
  exact (settled_of_mem_log hdigests hempty (fun _ hq => hq) h).withUnits b

end Registry

end Pane.Style
