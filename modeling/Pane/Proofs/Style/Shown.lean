import Pane.Proofs.Style.Fingerprint
import Pane.Proofs.Style.Hashes
import Pane.Proofs.Style.Repeated
import Pane.Proofs.Text.Tokens

/-!
# The background that a class shows

A class shows the first background that the rules under its hashes have.  Which hashes these are,
and how long they had to be, does not matter: each of them stands for the contents that were
registered under the class, in the order in which this was first done.  The background of a class is
therefore the first one of its registrations, provided that registrations with one hash agree on it.

**Slots.**  `hashFor_congr` — the hash of a registration depends on its key and fingerprint.
`mem_log_of_get?` — what is stored under a hash was registered under it.
**`hash_eq_of_fingerprint`** — one key and one fingerprint are stored under one hash.

**Backgrounds.**  `AgreeOnBackground` — registrations of one key and fingerprint show one
background.  `backgroundFor?_of_mem_log` — then every hash shows that of its registrations.
**`findSome?_hashesOf_foldl`** — and every class the first one of its registrations.

**Attributes.**  `findSome?_resolve` — the first background of an attribute is the first one of its
classes.
-/

namespace Pane.Style

theorem findSome?_congr {α β : Type} {f g : α → Option β} {xs : List α}
    (h : ∀ x ∈ xs, f x = g x) : xs.findSome? f = xs.findSome? g := by
  induction xs with
  | nil => rfl
  | cons x xs ih =>
    obtain ⟨hx, hxs⟩ := List.forall_mem_cons.1 h
    rw [List.findSome?_cons, List.findSome?_cons, hx, ih hxs]

theorem findSome?_flatMap {α β γ : Type} (f : β → Option γ) (g : α → List β) (xs : List α) :
    (xs.flatMap g).findSome? f = xs.findSome? fun x => (g x).findSome? f := by
  induction xs with
  | nil => rfl
  | cons x xs ih =>
    rw [List.flatMap_cons, List.findSome?_append, List.findSome?_cons, ih]
    cases (g x).findSome? f <;> rfl

/-- A value that some members have and all others lack is the first one. -/
theorem findSome?_ite {α β : Type} {p : α → Prop} [DecidablePred p] {xs : List α}
    (h : ∃ x ∈ xs, p x) (b : Option β) : xs.findSome? (fun x => if p x then b else none) = b := by
  cases b with
  | none => simp
  | some b =>
    induction xs with
    | nil => obtain ⟨x, hx, -⟩ := h; exact absurd hx List.not_mem_nil
    | cons y xs ih =>
      rw [List.findSome?_cons]
      by_cases hy : p y
      · rw [if_pos hy]
      · obtain ⟨x, hx, hpx⟩ := h
        have hxs : x ∈ xs := (List.mem_cons.1 hx).resolve_left fun he => hy (he ▸ hpx)
        rw [if_neg hy]
        exact ih ⟨x, hxs, hpx⟩

/-- A value put in place of the first one is the first one. -/
theorem findSome?_ite_of_find? {α β : Type} [DecidableEq α] {f : α → Option β} {xs : List α}
    {first : α} (h : xs.find? (fun x => (f x).isSome) = some first) (b : β) :
    xs.findSome? (fun x => if x = first then some b else f x) = some b := by
  obtain ⟨hsome, before, behind, hsplit, hnone⟩ := List.find?_eq_some_iff_append.1 h
  refine List.findSome?_eq_some_iff.2 ⟨before, first, behind, hsplit, if_pos rfl, fun x hx => ?_⟩
  have hx : f x = none := by simpa using hnone x hx
  have hne : x ≠ first := by
    rintro rfl
    rw [hx] at hsome
    cases hsome
  rw [if_neg hne, hx]

theorem findSome?_push {β : Type} (f : String → Option β) (b : Bucket) (hash : String) :
    (b.push hash).findSome? f = (b.findSome? f).or (f hash) := by
  rw [Bucket.push]
  split
  · next hmem =>
    cases hb : b.findSome? f with
    | some x => rfl
    | none => rw [List.findSome?_eq_none_iff.1 hb hash hmem]; rfl
  · rw [List.findSome?_append, List.findSome?_cons, List.findSome?_nil]
    cases f hash <;> rfl

theorem findSome?_dedup {β : Type} (f : String → Option β) (names : List String) :
    (Text.dedup names).findSome? f = names.findSome? f := by
  have hfold : ∀ seen : List String,
      (names.foldl (fun seen x => if x ∈ seen then seen else seen ++ [x]) seen).findSome? f =
        (seen.findSome? f).or (names.findSome? f) := by
    induction names with
    | nil => intro seen; simp
    | cons name names ih =>
      intro seen
      have hpush := findSome?_push f seen name
      rw [Bucket.push] at hpush
      rw [List.foldl_cons, ih, hpush, List.findSome?_cons, Option.or_assoc]
      cases f name <;> rfl
  exact hfold []

namespace Registry

variable {r : Registry} {p q : Registration} {hash hash' : String} {ps : List Registration}

/-! ## Slots -/

/-- The hash of a registration depends on its key and its fingerprint. -/
theorem hashFor_congr (hkey : p.key = q.key) (hprint : p.fingerprint = q.fingerprint) :
    r.hashFor p = r.hashFor q := by
  have hslot : r.rules.slotDigits p.entry (Digest.sha256Hex q.fingerprint) =
      r.rules.slotDigits q.entry (Digest.sha256Hex q.fingerprint) :=
    r.rules.slotDigits_congr _ hkey hprint
  rw [hashFor_eq, hashFor_eq, hkey, hprint, hslot]

/-- What is stored under a hash behind some registrations was stored before, or registered under
it. -/
theorem mem_log_of_get? {e : Entry} (he : (ps.foldl enter r).rules.get? hash = some e) :
    r.rules.get? hash = some e ∨ ∃ p, (p, hash) ∈ r.log ps ∧ p.entry = e := by
  induction ps generalizing r with
  | nil => exact .inl he
  | cons p ps ih =>
    rcases ih he with he | ⟨q, hq, rfl⟩
    · rw [enter_rules] at he
      by_cases hhash : hash = r.hashFor p
      · rcases RuleTable.get?_settle he with he | rfl
        · exact .inl he
        · exact .inr ⟨p, hhash ▸ List.mem_cons_self .., rfl⟩
      · rw [RuleTable.get?_settle_of_ne hhash] at he
        exact .inl he
    · exact .inr ⟨q, List.mem_cons_of_mem _ hq, rfl⟩

/-- **One key and one fingerprint are stored under one hash.** -/
theorem hash_eq_of_fingerprint {percentUnits : Bool} {calls : List Call}
    (hdigests : DigestsDiffer (registrations calls)) {e e' : Entry}
    (he : ((empty percentUnits).run calls).rules.get? hash = some e)
    (he' : ((empty percentUnits).run calls).rules.get? hash' = some e')
    (hkey : e.cascadeKey = e'.cascadeKey) (hprint : e.fingerprint = e'.fingerprint) :
    hash = hash' := by
  have hfound : ∀ {k : String} {e : Entry},
      ((empty percentUnits).run calls).rules.get? k = some e →
        ∃ p : Registration, p.entry = e ∧ ((empty percentUnits).run calls).hashFor p = k := by
    intro k e he
    obtain ⟨b, hb⟩ := (empty percentUnits).run_eq calls
    rw [hb] at he
    rcases mem_log_of_get? he with he | ⟨p, hp, hentry⟩
    · simp [empty, RuleTable.get?] at he
    · exact ⟨p, hentry, (settled_run hdigests hp).found⟩
  obtain ⟨p, rfl, rfl⟩ := hfound he
  obtain ⟨q, rfl, rfl⟩ := hfound he'
  exact hashFor_congr hkey hprint

theorem map_fst_log (r : Registry) (ps : List Registration) : (r.log ps).map (·.1) = ps := by
  induction ps generalizing r with
  | nil => rfl
  | cons p ps ih => exact congrArg (p :: ·) (ih (r.enter p))

end Registry

/-! ## Backgrounds -/

/-- Registrations of one key and fingerprint show one background. -/
def AgreeOnBackground (ps : List Registration) : Prop :=
  ∀ p ∈ ps, ∀ q ∈ ps, p.key = q.key → p.fingerprint = q.fingerprint →
    backgroundUrl? p.declarations = backgroundUrl? q.declarations

/-- The background that a registration contributes to a class. -/
def Registration.shownFor? (name : String) (p : Registration) : Option String :=
  if p.name = some name then backgroundUrl? p.declarations else none

namespace Registry

variable {r : Registry} {p : Registration} {hash : String} {ps : List Registration}

/-- The key of a content is found in the hash that it is given. -/
theorem hashedKey?_hashFor (r : Registry) (p : Registration) :
    hashedKey? (r.hashFor p) = some p.key := by
  rw [hashFor_eq]
  exact hashedKey?_hashOf p.keyed (length_sha256Hex _)
    (fun c hc => Digest.isHex_of_mem_sha256Hex hc)
    (RuleTable.le_of_mem_digitCounts (RuleTable.slotDigits_mem ..)).1

/-- **A hash shows the background of what was registered under it.** -/
theorem backgroundFor?_of_mem_log (h : r.Within ps) (hdigests : DigestsDiffer ps)
    (hagree : AgreeOnBackground ps) (hp : (p, hash) ∈ r.log ps) :
    (ps.foldl enter r).backgroundFor? hash = backgroundUrl? p.declarations := by
  have hsettled := settled_of_mem_log hdigests h (fun _ hq => hq) hp
  have hwithin : (ps.foldl enter r).Within ps := h.foldl fun _ hq => hq
  obtain ⟨e, he, hprint⟩ := Option.any_eq_true _ _ |>.1 hsettled.holds
  obtain ⟨q, hq, rfl⟩ := hwithin.among hash e he
  have hkey : q.key = p.key := by
    have hread := hashedKey?_of_get? hwithin.keyed he
    rw [← hsettled.found, hashedKey?_hashFor] at hread
    exact (Option.some.inj hread).symm
  rw [backgroundFor?, he]
  exact hagree q hq p (fst_mem_of_mem_log hp) hkey (of_decide_eq_true hprint)

/-- The first value of the hashes of a class is the first one of the registrations under it. -/
theorem findSome?_hashesOf {β : Type} (f : String → Option β) (r : Registry)
    (ps : List Registration) (name : String) :
    ((ps.foldl enter r).hashesOf name).findSome? f =
      ((r.hashesOf name).findSome? f).or
        ((r.log ps).findSome? fun x => if x.1.name = some name then f x.2 else none) := by
  induction ps generalizing r with
  | nil => simp [log]
  | cons p ps ih =>
    rw [List.foldl_cons, ih, log, List.findSome?_cons, hashesOf_enter]
    by_cases hname : p.name = some name
    · simp only [if_pos hname, findSome?_push, Option.or_assoc]
      cases f (r.hashFor p) <;> rfl
    · simp only [if_neg hname]

/-- A hash that is stored behind a run of calls shows one background through further calls. -/
theorem backgroundFor?_run_append {percentUnits : Bool} {calls more : List Call}
    (hdigests : DigestsDiffer (registrations (calls ++ more)))
    (hstored : (((empty percentUnits).run calls).rules.get? hash).isSome = true) :
    ((empty percentUnits).run (calls ++ more)).backgroundFor? hash =
      ((empty percentUnits).run calls).backgroundFor? hash := by
  obtain ⟨e, he⟩ := Option.isSome_iff_exists.1 hstored
  rw [backgroundFor?, backgroundFor?, get?_run_append hdigests he, he]

/-- **A class shows the first background of its registrations.** -/
theorem findSome?_hashesOf_foldl {percentUnits : Bool} (hdigests : DigestsDiffer ps)
    (hagree : AgreeOnBackground ps) (name : String) :
    let s := ps.foldl enter (empty percentUnits)
    (s.hashesOf name).findSome? s.backgroundFor? = ps.findSome? (Registration.shownFor? name) := by
  intro s
  have hempty := within_empty percentUnits ps
  have hlog : ∀ x ∈ (empty percentUnits).log ps,
      (if x.1.name = some name then s.backgroundFor? x.2 else none) =
        Registration.shownFor? name x.1 := by
    intro x hx
    rw [Registration.shownFor?, ← backgroundFor?_of_mem_log hempty hdigests hagree hx]
  have hnone : (empty percentUnits).hashesOf name = [] := rfl
  rw [findSome?_hashesOf, hnone, List.findSome?_nil, Option.none_or, findSome?_congr hlog]
  conv_rhs => rw [← map_fst_log (empty percentUnits) ps, List.findSome?_map]
  rfl

/-! ## Attributes -/

/-- The hashes of an attribute are stored. -/
theorem isSome_get?_of_mem_resolve (h : r.Sound) {classAttribute : String}
    (hmem : hash ∈ r.resolve classAttribute) : (r.rules.get? hash).isSome = true := by
  obtain ⟨token, -, hhash⟩ := List.mem_flatMap.1 (Text.mem_dedup.1 hmem)
  obtain ⟨width, hlayer⟩ := h.indexed token hash hhash
  exact h.layered width hash hlayer

/-- A hash is one token of an attribute. -/
theorem isToken_of_get? (h : r.Sound) {e : Entry} (he : r.rules.get? hash = some e) :
    Text.IsToken Text.isAsciiSpace hash.toList := by
  constructor
  · obtain ⟨-, n, -, hhash⟩ := h.wellKeyed hash e he
    rw [hhash, hashOf]
    simp
  · intro c hc
    have hspace := isSpace_of_isAlphanumeric (isAlphanumeric_of_mem_hash h he c hc)
    cases hascii : Text.isAsciiSpace c with
    | false => rfl
    | true => rw [Text.isSpace_of_isAsciiSpace hascii] at hspace; cases hspace

/-- **The first background of an attribute** is the first one of its classes. -/
theorem findSome?_resolve {β : Type} (f : String → Option β) (r : Registry) {names : List String}
    (hnames : ∀ name ∈ names, Text.IsToken Text.isAsciiSpace name.toList) :
    (r.resolve (Text.joinTokens names)).findSome? f =
      names.findSome? fun name => (r.hashesOf name).findSome? f := by
  rw [resolve, findSome?_dedup, Text.tokens_joinTokens hnames, findSome?_flatMap]

end Registry

end Pane.Style
