import Pane.Proofs.Style.Recompiled
import Pane.Proofs.Style.Repeated
import Mathlib.Algebra.GroupWithZero.Nat
import Mathlib.Data.Finset.Lattice.Lemmas

/-!
# Nothing dangles

A registry keeps a hash in up to three places: in the table of rules, in layers and under classes.
Output passes over a hash without a rule, so a place that was forgotten would lose a rule without a
word.  None ever is: whatever is in a layer or under a class has a rule, and whatever has a rule is
in a layer.

**Keys and buckets.**  The keys of a table and the classes of an index grow like a bucket
(`map_fst_insert`, `map_fst_pushClass`), and what holds of every bucket is kept if a push keeps it
(`bucket_pushClass`).

**Integrity.**  `Registry.Referential`, of which `Registry.Indexed` is the part that orderly and
sound registries do not have by definition.  **`Registry.referential_run`** — every run of calls has
it.

**Buckets with a set.**  `SeenBucket` is a bucket that tells by a set what is new to it.
**`SeenBucket.ofPushes_eq`** — its list and its set have the same elements.  `Registry.bucket_foldl`
tells what a run pushes onto one bucket.

**Result.**  **`Registry.every_hash_leads_to_its_rule`**.
-/

namespace Pane.Style

/-! ## Keys and buckets -/

/-- A hash is put behind the others if it is new. -/
theorem push_cons (k : String) (b : Bucket) (hash : String) :
    Bucket.push (k :: b) hash = if k = hash then k :: b else k :: Bucket.push b hash := by
  simp only [Bucket.push, List.mem_cons]
  by_cases hk : k = hash
  · rw [if_pos hk, if_pos (.inl hk.symm)]
  · have hne : hash ≠ k := Ne.symm hk
    simp only [hk, hne, false_or, if_false]
    split <;> rfl

/-- The keys of a table behind an insertion. -/
theorem map_fst_insert (hash : String) (e : Entry) :
    ∀ t : RuleTable, (RuleTable.insert hash e t).map Prod.fst =
      Bucket.push (t.map Prod.fst) hash
  | [] => rfl
  | (k, e') :: t => by
      rw [RuleTable.insert, List.map_cons, push_cons]
      split
      · next hk => rw [List.map_cons, hk]
      · rw [List.map_cons, map_fst_insert hash e t]

/-- The classes of an index behind a push. -/
theorem map_fst_pushClass (name hash : String) :
    ∀ l : List (String × Bucket), (pushClass name hash l).map Prod.fst =
      Bucket.push (l.map Prod.fst) name
  | [] => rfl
  | (n, b) :: l => by
      rw [pushClass, List.map_cons, push_cons]
      split
      · rfl
      · rw [List.map_cons, map_fst_pushClass name hash l]

/-- What holds of every bucket and is kept by a push holds of every bucket of a class after a
push. -/
theorem bucket_pushClass {P : Bucket → Prop} {name hash : String} (hnew : P [hash])
    (hpush : ∀ b, P b → P (b.push hash)) :
    ∀ {l : List (String × Bucket)}, (∀ p ∈ l, P p.2) → ∀ p ∈ pushClass name hash l, P p.2
  | [], _, p, hp => by
      rw [pushClass, List.mem_singleton] at hp
      exact hp ▸ hnew
  | (n, b) :: l, h, p, hp => by
      obtain ⟨hb, hl⟩ := List.forall_mem_cons.1 h
      rw [pushClass] at hp
      split at hp
      · rcases List.mem_cons.1 hp with rfl | hp
        · exact hpush b hb
        · exact hl p hp
      · rcases List.mem_cons.1 hp with rfl | hp
        · exact hb
        · exact bucket_pushClass hnew hpush hl p hp

/-- In pairs with keys of their own a pair is found under its key. -/
theorem lookup_of_mem {κ α : Type} [BEq κ] [LawfulBEq κ] [DecidableEq κ] {p : κ × α}
    {l : List (κ × α)} (hl : (l.map Prod.fst).Nodup) (hp : p ∈ l) : l.lookup p.1 = some p.2 := by
  induction l with
  | nil => exact absurd hp List.not_mem_nil
  | cons q l ih =>
    obtain ⟨hq, hl⟩ := List.nodup_cons.1 hl
    rw [Table.lookup_cons_ite]
    rcases List.mem_cons.1 hp with rfl | hp
    · exact if_pos rfl
    · have hne : p.1 ≠ q.1 := fun he => hq (he ▸ List.mem_map_of_mem hp)
      rw [if_neg hne, ih hl hp]

/-- The bucket of a width behind a push. -/
theorem lookup_pushAt (width w : UInt32) (hash : String) :
    ∀ {l : List (UInt32 × Bucket)}, l.Pairwise (fun p q => p.1 < q.1) →
      (pushAt width hash l).lookup w =
        if w = width then some (Bucket.push ((l.lookup w).getD []) hash) else l.lookup w
  | [], _ => by
      rw [pushAt, Table.lookup_cons_ite]
      rfl
  | (w', b) :: l, h => by
      obtain ⟨hw', hl⟩ := List.pairwise_cons.1 h
      have ih := lookup_pushAt width w hash hl
      rw [pushAt]
      split
      · next hlt =>
        -- the new width lies below all others, so there was no bucket for it
        have hbelow : ∀ q ∈ (w', b) :: l, width < q.1 := by
          intro q hq
          rcases List.mem_cons.1 hq with rfl | hq
          · exact hlt
          · exact UInt32.lt_trans hlt (hw' q hq)
        have hnone : ((w', b) :: l).lookup width = none :=
          List.lookup_eq_none_iff.2 fun q hq => bne_iff_ne.2 fun he =>
            UInt32.lt_irrefl width (he ▸ hbelow q hq)
        rw [Table.lookup_cons_ite]
        split
        · next hw =>
          rw [hw, hnone]
          rfl
        · rfl
      · split
        · next he =>
          subst he
          rw [Table.lookup_cons_ite, Table.lookup_cons_ite]
          split <;> rfl
        · next hne =>
          rw [Table.lookup_cons_ite, Table.lookup_cons_ite, ih]
          by_cases hw : w = w'
          · have hn : w ≠ width := fun he => hne (he.symm.trans hw)
            rw [if_pos hw, if_pos hw, if_neg hn]
          · rw [if_neg hw, if_neg hw]

namespace Registry

variable {r : Registry} {p : Registration} {ps : List Registration}

/-- The hashes on record, and that of what is entered. -/
theorem keys_enter (r : Registry) (p : Registration) :
    (r.enter p).rules.map Prod.fst = Bucket.push (r.rules.map Prod.fst) (r.hashFor p) := by
  rw [enter_rules, RuleTable.settle]
  split
  · next h =>
    obtain ⟨e, he, -⟩ := Option.any_eq_true _ _ |>.1 h
    exact (push_of_mem (List.mem_map_of_mem (RuleTable.mem_of_get? he))).symm
  · exact map_fst_insert ..

/-- The classes on record, and that of what is entered. -/
theorem classes_enter (r : Registry) (p : Registration) :
    (r.enter p).classes =
      match p.name with
      | some name => pushClass name (r.hashFor p) r.classes
      | none => r.classes := by
  obtain ⟨name, width, key, suffix, ds, hkey⟩ := p
  cases name <;> cases width <;> rfl

theorem Orderly.enter (h : r.Orderly) (p : Registration) : (r.enter p).Orderly := h.place ..

/-! ## Integrity -/

/-- A hash has one rule, a class one bucket, and the bucket of a class names hashes that have a
rule, each once. -/
structure Indexed (r : Registry) : Prop where
  keys : (r.rules.map Prod.fst).Nodup
  names : (r.classes.map Prod.fst).Nodup
  classes : ∀ p ∈ r.classes,
    p.2 ≠ [] ∧ p.2.Nodup ∧ ∀ hash ∈ p.2, (r.rules.get? hash).isSome = true

theorem indexed_empty (percentUnits : Bool) : (empty percentUnits).Indexed where
  keys := List.nodup_nil
  names := List.nodup_nil
  classes _ hp := absurd hp List.not_mem_nil

/-- Entering keeps a registry indexed. -/
theorem Indexed.enter (h : r.Indexed) (p : Registration) : (r.enter p).Indexed where
  keys := by
    rw [keys_enter]
    exact nodup_push h.keys _
  names := by
    rw [classes_enter]
    split
    · rw [map_fst_pushClass]
      exact nodup_push h.names _
    · exact h.names
  classes := by
    have hself : ((r.enter p).rules.get? (r.hashFor p)).isSome = true := by
      rw [enter_rules]
      exact RuleTable.isSome_get?_settle_self ..
    have hold : ∀ q ∈ r.classes, q.2 ≠ [] ∧ q.2.Nodup ∧
        ∀ hash ∈ q.2, ((r.enter p).rules.get? hash).isSome = true := by
      intro q hq
      obtain ⟨hne, hnodup, hkeys⟩ := h.classes q hq
      refine ⟨hne, hnodup, fun hash hhash => ?_⟩
      rw [enter_rules]
      exact RuleTable.isSome_get?_settle (hkeys hash hhash)
    rw [classes_enter]
    split
    · refine bucket_pushClass (P := fun b => b ≠ [] ∧ b.Nodup ∧
        ∀ hash ∈ b, ((r.enter p).rules.get? hash).isSome = true) ?_ ?_ hold
      · exact ⟨by simp, List.pairwise_singleton .., fun k hk => List.mem_singleton.1 hk ▸ hself⟩
      · rintro b ⟨-, hnodup, hkeys⟩
        refine ⟨push_ne_nil b _, nodup_push hnodup _, fun k hk => ?_⟩
        rcases mem_push.1 hk with hk | rfl
        · exact hkeys k hk
        · exact hself
    · exact hold

theorem Indexed.foldl (h : r.Indexed) : (ps.foldl Registry.enter r).Indexed := by
  induction ps generalizing r with
  | nil => exact h
  | cons p ps ih => exact ih (h.enter p)

/-- Every hash leads to a rule, and every rule lies under a hash of its own key and digest, which is
in a layer. -/
structure Referential (r : Registry) : Prop extends r.Orderly, r.Indexed where
  layered : ∀ width hash, r.InLayer width hash → (r.rules.get? hash).isSome = true
  keyed : ∀ hash e, r.rules.get? hash = some e →
    e = Entry.ofContent e.cascadeKey e.suffix e.declarations ∧ RuleTable.IsKey e.cascadeKey ∧
      ∃ digits, digits <+: (Digest.sha256Hex e.fingerprint).toList ∧ 12 ≤ digits.length ∧
        hash.toList = 's' :: e.cascadeKey.toList ++ digits

/-- **A run of calls keeps referential integrity.** -/
theorem referential_run (percentUnits : Bool) (calls : List Call) :
    ((empty percentUnits).run calls).Referential where
  toOrderly := orderly_run calls (orderly_empty percentUnits)
  toIndexed := by
    obtain ⟨b, hb⟩ := (empty percentUnits).run_eq calls
    have h : ((registrations calls).foldl enter (empty percentUnits)).Indexed :=
      (indexed_empty percentUnits).foldl
    rw [hb]
    exact ⟨h.keys, h.names, h.classes⟩
  layered := (sound_run calls (sound_empty percentUnits)).layered
  keyed hash e he := by
    have hwithin := within_run percentUnits calls
    obtain ⟨hkey, n, hn, rfl⟩ := hwithin.keyed hash e he
    obtain ⟨p, -, rfl⟩ := hwithin.among _ e he
    refine ⟨rfl, hkey, _, List.take_prefix n _, ?_, ?_⟩
    · have hcount := RuleTable.le_of_mem_digitCounts hn
      rw [List.length_take, Digest.length_sha256Hex]
      omega
    · simp [hashOf]

/-- What is written has one rule for each hash in a layer. -/
theorem Referential.length_rules (h : r.Referential) :
    r.compiledSheet.rules.length =
      r.unconditional.length + (r.breakpoints.map fun p => p.2.length).sum := by
  have hsome : ∀ x ∈ r.placements, (r.placedRule? x).isSome = true := by
    rintro ⟨width, hash⟩ hx
    rw [placedRule?, Option.isSome_map]
    exact h.layered width hash (mem_placements.1 hx)
  have hlength : (r.placements.filterMap r.placedRule?).length = r.placements.length := by
    rw [List.length_filterMap_eq_countP]
    exact List.countP_eq_length.2 hsome
  rw [rules_compiledSheet, hlength, placements, List.length_append, List.length_map,
    List.length_flatMap]
  simp only [List.length_map]

end Registry

/-! ## Buckets with a set -/

/-- A bucket that keeps what it has met in a set as well. -/
structure SeenBucket where
  order : List String
  seen : Finset String

/-- A bucket with a hash at its end, unless the hash is in its set. -/
def SeenBucket.push (b : SeenBucket) (hash : String) : SeenBucket :=
  if hash ∈ b.seen then b else ⟨b.order ++ [hash], insert hash b.seen⟩

/-- The bucket of some hashes that were pushed onto it. -/
def SeenBucket.ofPushes (hashes : List String) : SeenBucket :=
  hashes.foldl SeenBucket.push ⟨[], ∅⟩

/-- A bucket with the set of its hashes. -/
def SeenBucket.ofBucket (b : Bucket) : SeenBucket := ⟨b, b.toFinset⟩

/-- A bucket with its set of what was seen takes a hash as a bucket does. -/
theorem SeenBucket.push_ofBucket (b : Bucket) (hash : String) :
    (ofBucket b).push hash = ofBucket (b.push hash) := by
  simp only [ofBucket, SeenBucket.push, Bucket.push, List.mem_toFinset]
  split
  · rfl
  · rw [List.toFinset_append, List.toFinset_cons, List.toFinset_nil, Finset.union_comm]
    rfl

/-- **The list and the set have the same elements**, whatever was pushed. -/
theorem SeenBucket.ofPushes_eq (hashes : List String) :
    ofPushes hashes = ofBucket (hashes.foldl Bucket.push []) := by
  show hashes.foldl SeenBucket.push (ofBucket []) = _
  generalize ([] : Bucket) = b
  induction hashes generalizing b with
  | nil => rfl
  | cons hash hashes ih => rw [List.foldl_cons, push_ofBucket, ih, List.foldl_cons]

namespace Registry

variable {r : Registry} {ps : List Registration}

/-- The hashes of the registrations of a run that meet a condition. -/
def pushes (which : Registration → Bool) (log : List (Registration × String)) : List String :=
  (log.filter fun x => which x.1).map Prod.snd

/-- A bucket that grows by the registrations which meet a condition holds the hashes of those. -/
theorem bucket_foldl (bucket : Registry → Bucket) {which : Registration → Bool}
    (hstep : ∀ (r : Registry) (p : Registration), r.Orderly →
      bucket (r.enter p) = if which p then (bucket r).push (r.hashFor p) else bucket r)
    (h : r.Orderly) :
    bucket (ps.foldl enter r) = (pushes which (r.log ps)).foldl Bucket.push (bucket r) := by
  induction ps generalizing r with
  | nil => rfl
  | cons p ps ih =>
    rw [List.foldl_cons, ih (h.enter p), hstep r p h, log, pushes, pushes, List.filter_cons]
    split <;> rfl

/-- The bucket of a width. -/
def bucketAt (r : Registry) (w : UInt32) : Bucket := (r.breakpoints.lookup w).getD []

/-- The unconditional layer takes what has no width. -/
theorem unconditional_enter (r : Registry) (p : Registration) :
    (r.enter p).unconditional =
      if decide (p.width = none) then r.unconditional.push (r.hashFor p) else r.unconditional := by
  obtain ⟨name, width, key, suffix, ds, hkey⟩ := p
  cases name <;> cases width <;> rfl

/-- The bucket of a width takes what has this width. -/
theorem bucketAt_enter (w : UInt32) (r : Registry) (p : Registration) (h : r.Orderly) :
    (r.enter p).bucketAt w =
      if decide (p.width = some w) then (r.bucketAt w).push (r.hashFor p) else r.bucketAt w := by
  have hpush (width : UInt32) (hash : String) :
      ((pushAt width hash r.breakpoints).lookup w).getD [] =
        if w = width then (r.bucketAt w).push hash else r.bucketAt w := by
    rw [lookup_pushAt width w hash h.ascending]
    split <;> rfl
  obtain ⟨name, width, key, suffix, ds, hkey⟩ := p
  cases width with
  | none => cases name <;> rfl
  | some width =>
    have heq : (some width = some w) = (w = width) := by simp [eq_comm]
    simp only [heq, decide_eq_true_eq]
    cases name <;> exact hpush width _

end Registry

/-- **Every hash leads to its rule.**  Behind any calls, what is in a layer or under a class has a
rule, each rule is in a layer and lies under a hash of its own key and digest, and no bucket is
without a hash or names one twice.  So as many rules are written as the layers have hashes.  And a
bucket that tells by a set what is new to it has the same list, and the elements of the list in its
set. -/
theorem Registry.every_hash_leads_to_its_rule (percentUnits : Bool) (calls : List Call) :
    let r := (empty percentUnits).run calls
    let log := (empty percentUnits).log (registrations calls)
    r.Referential ∧
      r.compiledSheet.rules.length =
        r.unconditional.length + (r.breakpoints.map fun p => p.2.length).sum ∧
      SeenBucket.ofPushes (pushes (fun p => p.width = none) log) =
        .ofBucket r.unconditional ∧
      (∀ x ∈ r.breakpoints,
        SeenBucket.ofPushes (pushes (fun p => p.width = some x.1) log) = .ofBucket x.2) ∧
      ∀ x ∈ r.classes,
        SeenBucket.ofPushes (pushes (fun p => p.name = some x.1) log) = .ofBucket x.2 := by
  intro r log
  have h : r.Referential := referential_run percentUnits calls
  obtain ⟨b, hb⟩ := (empty percentUnits).run_eq calls
  have hr : r = ((registrations calls).foldl enter (empty percentUnits)).withUnits b := hb
  have hempty := orderly_empty percentUnits
  refine ⟨h, h.length_rules, ?_, fun x hx => ?_, fun x hx => ?_⟩
  · rw [SeenBucket.ofPushes_eq, hr]
    exact congrArg _ (bucket_foldl unconditional (fun r p _ => unconditional_enter r p) hempty).symm
  · have hwidths : (r.breakpoints.map Prod.fst).Nodup := by
      refine List.pairwise_map.2 (h.ascending.imp ?_)
      intro p q hlt he
      exact UInt32.lt_irrefl q.1 (he ▸ hlt)
    have hbucket : r.bucketAt x.1 = x.2 := by
      rw [bucketAt, lookup_of_mem hwidths hx, Option.getD_some]
    rw [SeenBucket.ofPushes_eq, ← hbucket, hr]
    exact congrArg _ (bucket_foldl (bucketAt · x.1) (bucketAt_enter x.1) hempty).symm
  · have hbucket : r.hashesOf x.1 = x.2 := by
      rw [hashesOf, lookup_of_mem h.names hx, Option.getD_some]
    rw [SeenBucket.ofPushes_eq, ← hbucket, hr]
    refine congrArg _ (bucket_foldl (hashesOf · x.1) (fun r p _ => ?_) hempty).symm
    rw [hashesOf_enter]
    simp only [decide_eq_true_eq]

end Pane.Style
