import Pane.Proofs.Style.Hashes
import Pane.Proofs.Style.Stable
import Pane.Style.Registry.Snapshot

/-!
# Compiled text registers to itself

The compiled text of a registry holds its rules layer by layer, each under its hash.  If all of them
are clean and none of the hashes had to be lengthened, reading the text gives back these rules, and
registering them one after the other in an empty registry rebuilds the table and the layers: every
content finds the slot that it has, and every hash arrives behind the ones that it stands behind.

* `Registry.Alike` — the same rules in the same layers; such registries are compiled and shown
  alike.
* `Registry.placements` — the hashes of a registry in the order in which they are written.
* **`Registry.foldl_pushed`** — pushed in this order, they make up the layers again.
* `Registry.Replayed` — what a registry looks like behind some placements of another, with a step
  lemma and **`Registry.Replayed.registerSheet`** for the run.
* **`Registry.compiled_text_registers_to_itself`**.
-/

namespace Pane.Style.Registry

variable {r s : Registry}

/-! ## Registries that look alike -/

/-- Two registries that hold the same rules in the same layers and show them in the same units. -/
structure Alike (s r : Registry) : Prop where
  rules : ∀ hash, s.rules.get? hash = r.rules.get? hash
  unconditional : s.unconditional = r.unconditional
  breakpoints : s.breakpoints = r.breakpoints
  units : s.percentUnits = r.percentUnits

theorem Alike.compiled (h : s.Alike r) : s.compiled = r.compiled := by
  simp only [Registry.compiled, compiledSheet, rulesIn, h.rules, h.unconditional, h.breakpoints]

theorem Alike.snapshot (h : s.Alike r) (target : UInt32) :
    s.snapshot target = r.snapshot target := by
  have hlisted : s.listed target = r.listed target := by
    simp only [listed, layers, h.unconditional, h.breakpoints]
  have hmeet : s.meet = r.meet := by
    funext ws p
    simp only [meet, h.rules]
  have hcontest : s.contest target = r.contest target := by
    rw [contest, contest, hmeet, hlisted]
  have hshown : s.shown = r.shown := by
    funext hash e
    simp only [shown, h.units]
  simp only [Registry.snapshot, snapshotSheet, showing, hcontest, hlisted, hshown, h.rules]

/-! ## Placements -/

/-- A hash and the width of the layer that it is in. -/
abbrev Placement := Option UInt32 × String

/-- The hashes of all layers, in the order of the layers. -/
def placements (r : Registry) : List Placement :=
  r.unconditional.map (fun hash => (none, hash)) ++
    r.breakpoints.flatMap fun p => p.2.map fun hash => (some p.1, hash)

theorem mem_placements {width : Option UInt32} {hash : String} :
    (width, hash) ∈ r.placements ↔ r.InLayer width hash := by
  simp only [placements, List.mem_append, List.mem_map, List.mem_flatMap, Prod.mk.injEq]
  constructor
  · rintro (⟨k, hk, rfl, rfl⟩ | ⟨⟨w, b⟩, hb, k, hk, rfl, rfl⟩)
    · exact hk
    · exact ⟨b, hb, hk⟩
  · cases width with
    | none => exact fun h => .inl ⟨hash, h, rfl, rfl⟩
    | some w =>
      rintro ⟨b, hb, hk⟩
      exact .inr ⟨(w, b), hb, hash, hk, rfl, rfl⟩

/-- The rule of a placement, with its width. -/
def placedRule? (r : Registry) (p : Placement) : Option (Option UInt32 × Rule) :=
  (r.rules.get? p.2).map fun e => (p.1, e.rule p.2)

/-- The written rules are those of the placements, in order. -/
theorem rules_compiledSheet (r : Registry) :
    r.compiledSheet.rules = r.placements.filterMap r.placedRule? := by
  have hrules : ∀ (width : Option UInt32) (b : Bucket),
      (r.rulesIn b).map (fun rule => (width, rule)) =
        (b.map fun hash => (width, hash)).filterMap r.placedRule? := by
    intro width b
    rw [rulesIn, List.map_filterMap, List.filterMap_map]
    refine List.filterMap_congr fun hash _ => ?_
    simp only [placedRule?, Function.comp_apply, Option.map_map]
    rfl
  rw [placements, List.filterMap_append, List.filterMap_flatMap, ← hrules]
  simp only [← hrules]
  simp only [compiledSheet, Sheet.rules, List.flatMap_append, List.flatMap_map, Item.rules]
  rw [List.map_eq_flatMap]

/-! ## Layers from placements -/

/-- The layers with a hash pushed onto one of them. -/
def pushed (layers : Bucket × List (UInt32 × Bucket)) (p : Placement) :
    Bucket × List (UInt32 × Bucket) :=
  match p.1 with
  | none => (layers.1.push p.2, layers.2)
  | some w => (layers.1, pushAt w p.2 layers.2)

/-- The layers behind a placed content. -/
theorem layers_place (r : Registry) (name : Option String) (width : Option UInt32) (e : Entry) :
    ((r.place name width e).2.unconditional, (r.place name width e).2.breakpoints) =
      pushed (r.unconditional, r.breakpoints) (width, (r.place name width e).1) := by
  cases name <;> cases width <;> rfl

theorem foldl_push {b c : Bucket} (h : (b ++ c).Nodup) : c.foldl Bucket.push b = b ++ c := by
  induction c generalizing b with
  | nil => rw [List.foldl_nil, List.append_nil]
  | cons hash c ih =>
    have hnew : hash ∉ b := fun hmem =>
      (List.nodup_append.1 h).2.2 hash hmem hash (List.mem_cons_self ..) rfl
    rw [List.append_cons] at h ⊢
    rw [List.foldl_cons, Bucket.push, if_neg hnew, ih h]

section group

variable {l : List (UInt32 × Bucket)} {w : UInt32} (hl : ∀ p ∈ l, p.1 < w)
include hl

theorem pushAt_append (hash : String) (m : List (UInt32 × Bucket)) :
    pushAt w hash (l ++ m) = l ++ pushAt w hash m := by
  induction l with
  | nil => rfl
  | cons p l ih =>
    obtain ⟨hp, hl⟩ := List.forall_mem_cons.1 hl
    have hnlt : ¬w < p.1 := UInt32.lt_asymm hp
    have hne : w ≠ p.1 := fun he => UInt32.lt_irrefl w (he ▸ hp)
    rw [List.cons_append, pushAt, if_neg hnlt, if_neg hne, ih hl, List.cons_append]

/-- The hashes of a width, pushed behind all smaller widths, make up its bucket. -/
theorem foldl_pushAt {b : Bucket} (hne : b ≠ []) (hb : b.Nodup) :
    b.foldl (fun m hash => pushAt w hash m) l = l ++ [(w, b)] := by
  -- the first hash opens the group at the end, and the others are pushed onto it
  have hmore : ∀ c d : Bucket, (c ++ d).Nodup →
      d.foldl (fun m hash => pushAt w hash m) (l ++ [(w, c)]) = l ++ [(w, c ++ d)] := by
    intro c d
    induction d generalizing c with
    | nil => exact fun _ => by rw [List.foldl_nil, List.append_nil]
    | cons hash d ih =>
      intro h
      have hpush : Bucket.push c hash = c ++ [hash] := foldl_push (c := [hash]) (by
        rw [List.append_cons] at h
        exact (List.nodup_append.1 h).1)
      have hat : pushAt w hash (l ++ [(w, c)]) = l ++ [(w, c ++ [hash])] := by
        rw [pushAt_append hl, pushAt, if_neg (UInt32.lt_irrefl w), if_pos rfl, hpush]
      rw [List.append_cons c hash d] at h ⊢
      rw [List.foldl_cons, hat, ih _ h]
  cases b with
  | nil => exact absurd rfl hne
  | cons hash b =>
    have hfirst := pushAt_append hl hash []
    rw [List.append_nil] at hfirst
    rw [List.foldl_cons, hfirst]
    exact hmore [hash] b hb

end group

theorem foldl_pushed_none (b c : Bucket) (l : List (UInt32 × Bucket)) :
    (c.map fun hash => (none, hash)).foldl pushed (b, l) = (c.foldl Bucket.push b, l) := by
  induction c generalizing b with
  | nil => rfl
  | cons hash c ih => exact ih (b.push hash)

theorem foldl_pushed_some (w : UInt32) (b c : Bucket) (l : List (UInt32 × Bucket)) :
    (c.map fun hash => (some w, hash)).foldl pushed (b, l) =
      (b, c.foldl (fun m hash => pushAt w hash m) l) := by
  induction c generalizing l with
  | nil => rfl
  | cons hash c ih => exact ih (pushAt w hash l)

/-- The groups of a registry, pushed behind smaller widths. -/
theorem foldl_pushed_groups {b : Bucket} {l groups : List (UInt32 × Bucket)}
    (hascending : (l ++ groups).Pairwise fun p q => p.1 < q.1)
    (hbuckets : ∀ p ∈ groups, p.2 ≠ [] ∧ p.2.Nodup) :
    (groups.flatMap fun p => p.2.map fun hash => (some p.1, hash)).foldl pushed (b, l) =
      (b, l ++ groups) := by
  induction groups generalizing l with
  | nil => rw [List.append_nil]; rfl
  | cons p groups ih =>
    obtain ⟨⟨hne, hnodup⟩, hbuckets⟩ := List.forall_mem_cons.1 hbuckets
    have hbelow : ∀ q ∈ l, q.1 < p.1 := fun q hq =>
      (List.pairwise_append.1 hascending).2.2 q hq p (List.mem_cons_self ..)
    rw [List.append_cons] at hascending ⊢
    rw [List.flatMap_cons, List.foldl_append, foldl_pushed_some, foldl_pushAt hbelow hne hnodup]
    exact ih hascending hbuckets

/-- **The hashes of an orderly registry, pushed in order, make up its layers.** -/
theorem foldl_pushed (h : r.Orderly) :
    r.placements.foldl pushed ([], []) = (r.unconditional, r.breakpoints) := by
  have hlayer : r.unconditional.foldl Bucket.push [] = r.unconditional := foldl_push h.unconditional
  rw [placements, List.foldl_append, foldl_pushed_none, hlayer]
  exact foldl_pushed_groups h.ascending h.buckets

/-! ## Replays -/

/-- No hash is longer than it has to be. -/
def Short (r : Registry) : Prop :=
  ∀ hash e, r.rules.get? hash = some e →
    hash = hashOf e.cascadeKey (Digest.sha256Hex e.fingerprint) RuleTable.minDigits

/-- What a registry looks like behind some placements of another one. -/
structure Replayed (r : Registry) (done : List Placement) (s : Registry) : Prop where
  rules : ∀ hash, s.rules.get? hash = if hash ∈ done.map (·.2) then r.rules.get? hash else none
  layers : (s.unconditional, s.breakpoints) = done.foldl pushed ([], [])
  index : ∀ name, s.hashesOf name = if name ∈ done.map (·.2) then [name] else []
  units : s.percentUnits = r.percentUnits

theorem replayed_empty (r : Registry) : Replayed r [] (empty r.percentUnits) where
  rules _ := rfl
  layers := rfl
  index _ := rfl
  units := rfl

section replay

variable {done : List Placement} {hash : String} {e : Entry}

/-- The slot of a stored entry is free, or holds it already. -/
theorem Replayed.slot (hs : Replayed r done s) (hg : r.rules.get? hash = some e) :
    s.rules.get? hash = none ∨ s.rules.get? hash = some e := by
  rw [hs.rules hash, hg]
  split
  · exact .inr rfl
  · exact .inl rfl

/-- A stored entry is placed under the hash that it has. -/
theorem Replayed.place_hash (hs : Replayed r done s) (hshort : r.Short)
    (hg : r.rules.get? hash = some e) (name : Option String) (width : Option UInt32) :
    (s.place name width e).1 = hash := by
  have hhash := hshort hash e hg
  have hslot := hs.slot hg
  rw [hhash] at hslot
  rw [Registry.place_hash, RuleTable.slotDigits_eq_minDigits hslot, ← hhash]

/-- **One more placement is replayed.** -/
theorem Replayed.place (hs : Replayed r done s) (hshort : r.Short)
    (hg : r.rules.get? hash = some e) (width : Option UInt32) :
    Replayed r (done ++ [(width, hash)]) (s.place (some hash) width e).2 := by
  have hhash : (s.place (some hash) width e).1 = hash := hs.place_hash hshort hg _ _
  have hmem : ∀ k, k ∈ (done ++ [(width, hash)]).map (·.2) ↔ k ∈ done.map (·.2) ∨ k = hash := by
    intro k
    rw [List.map_append, List.mem_append]
    exact or_congr_right List.mem_singleton
  refine ⟨fun k => ?_, ?_, fun k => ?_, ?_⟩
  · rw [place_rules, hhash]
    by_cases hk : k = hash
    · subst hk
      rw [if_pos ((hmem k).2 (.inr rfl)), hg]
      exact RuleTable.get?_settle_self (hs.slot hg)
    · rw [RuleTable.get?_settle_of_ne hk, hs.rules k]
      simp only [hmem, hk, or_false]
  · rw [layers_place, hs.layers, hhash, List.foldl_append]
    rfl
  · rw [hashesOf_place, hhash, hs.index k]
    by_cases hk : k = hash
    · subst hk
      rw [if_pos rfl, if_pos ((hmem k).2 (.inr rfl))]
      split <;> simp [Bucket.push]
    · have hne : ¬some hash = some k := fun he => hk (Option.some.inj he).symm
      rw [if_neg hne]
      simp only [hmem, hk, or_false]
  · rw [place_percentUnits, hs.units]

/-- **The rules of some placements are replayed one after the other**, and all of them count. -/
theorem Replayed.registerSheet (hr : r.Sound) (hclean : r.Clean) (hshort : r.Short)
    (hs : Replayed r done s) {rest : List Placement}
    (hstored : ∀ p ∈ rest, (r.rules.get? p.2).isSome = true) {sheet : Sheet}
    (hsheet : sheet.rules = rest.filterMap r.placedRule?) :
    (s.registerSheet sheet).1 = sheet.rules.length ∧
      Replayed r (done ++ rest) (s.registerSheet sheet).2 := by
  rw [Registry.registerSheet, hsheet, ← Nat.zero_add (rest.filterMap r.placedRule?).length]
  -- how many rules were counted before does not matter, so the induction is on any count
  clear hsheet
  generalize 0 = n
  induction rest generalizing s done n with
  | nil =>
    rw [List.append_nil]
    exact ⟨rfl, hs⟩
  | cons p rest ih =>
    obtain ⟨hp, hstored⟩ := List.forall_mem_cons.1 hstored
    obtain ⟨e, he⟩ := Option.isSome_iff_exists.1 hp
    have hrule : r.placedRule? p = some (p.1, e.rule p.2) := by
      rw [placedRule?, he, Option.map_some]
    have hplace := registerRule_rule hr he (hclean _ e he) s p.1
    have hnext := ih (hs.place hshort he p.1) hstored (n + 1)
    rw [List.filterMap_cons_some hrule, List.foldl_cons, List.append_cons, List.length_cons,
      Nat.add_comm _ 1, ← Nat.add_assoc]
    simp only [hplace]
    exact hnext

end replay

/-! ## Compiled text -/

/-- Placements of a registry that has all its rules in layers. -/
theorem mem_placements_of_isSome (h : r.Orderly) {hash : String}
    (hg : (r.rules.get? hash).isSome = true) : hash ∈ r.placements.map (·.2) := by
  obtain ⟨width, hwidth⟩ := h.placed hash hg
  exact List.mem_map.2 ⟨(width, hash), mem_placements.2 hwidth, rfl⟩

/-- Behind all placements of a registry there is one that looks alike. -/
theorem Replayed.alike (hr : r.Orderly) (h : Replayed r r.placements s) : s.Alike r := by
  have hlayers := h.layers.trans (foldl_pushed hr)
  refine ⟨fun hash => ?_, (Prod.mk.inj hlayers).1, (Prod.mk.inj hlayers).2, h.units⟩
  rw [h.rules hash]
  split
  · rfl
  · next hnot =>
    cases hg : r.rules.get? hash with
    | none => rfl
    | some e => exact absurd (mem_placements_of_isSome hr (hg ▸ rfl)) hnot

/-- The compiled text of clean rules is read as they were written. -/
theorem read_compiled (hr : r.Sound) (hclean : r.Clean) :
    Sheet.read r.compiled = r.compiledSheet := by
  exact read_render (ofRules_compiledSheet fun hash e he => clean_rule hr he (hclean hash e he))

/-- In a registry without lengthened hashes every entry lies under the least number of digits. -/
theorem Sound.short (hr : r.Sound) (hlen : ∀ p ∈ r.rules, p.1.length = 21) : r.Short := by
  intro hash e hg
  obtain ⟨hkey, n, hn, hhash⟩ := hr.wellKeyed hash e hg
  have hlong : hash.length = 21 := hlen (hash, e) (RuleTable.mem_of_get? hg)
  have hd : (Digest.sha256Hex e.fingerprint).toList.length = 64 := Digest.length_sha256Hex _
  have hk : e.cascadeKey.toList.length = 8 := by rw [String.length_toList, hkey.1]
  have hle := RuleTable.le_of_mem_digitCounts hn
  rw [← String.length_toList, hhash, hashOf] at hlong
  simp only [String.toList_append, String.toList_ofList, List.length_append, List.length_take, hd,
    hk] at hlong
  have hone : "s".toList.length = 1 := rfl
  obtain rfl : n = RuleTable.minDigits := by
    rw [RuleTable.minDigits]
    omega
  exact hhash

/-- **Compiled text is a fixed point.**  Whatever blocks have been registered in an empty registry,
under selectors at any width or as inline styles: if the blocks and the suffixes are clean and every
hash has twelve digits of content, the compiled text is read as the rules that were written, each of
them is registered, the registry behind them is compiled to the same text and shown alike in every
viewport, and every hash is the only one of its own name. -/
theorem compiled_text_registers_to_itself (percentUnits : Bool) (calls : List Call)
    (hcalls : ∀ call ∈ calls, call.Clean)
    (hhashes : ∀ p ∈ ((empty percentUnits).run calls).rules, p.1.length = 21) :
    let r := (empty percentUnits).run calls
    let again := (empty percentUnits).ingest r.compiled
    again.2.compiled = r.compiled ∧
    (∀ target, again.2.snapshot target = r.snapshot target) ∧
    Sheet.read r.compiled = r.compiledSheet ∧ again.1 = r.compiledSheet.rules.length ∧
    ∀ p ∈ r.rules, again.2.lookupClass p.1 = p.1 := by
  intro r again
  have hsound : r.Sound := sound_run calls (sound_empty percentUnits)
  have horderly : r.Orderly := orderly_run calls (orderly_empty percentUnits)
  obtain ⟨hclean, hunits⟩ := clean_run hcalls (clean_empty percentUnits)
  have hread : Sheet.read r.compiled = r.compiledSheet := read_compiled hsound hclean
  have hstored : ∀ p ∈ r.placements, (r.rules.get? p.2).isSome = true := fun p hp =>
    hsound.layered p.1 p.2 (mem_placements.1 hp)
  have hstart : Replayed r [] (empty percentUnits) := by
    have hempty := replayed_empty r
    rwa [show r.percentUnits = percentUnits from hunits] at hempty
  have hagain : again = (empty percentUnits).registerSheet r.compiledSheet := by
    rw [← hread]
    exact ingest_eq ..
  obtain ⟨hcount, hreplayed⟩ := hstart.registerSheet hsound hclean (hsound.short hhashes) hstored
    (rules_compiledSheet r)
  rw [← hagain] at hcount hreplayed
  have halike : again.2.Alike r := hreplayed.alike horderly
  refine ⟨halike.compiled, halike.snapshot, hread, hcount, fun p hp => ?_⟩
  have hmem := mem_placements_of_isSome horderly (RuleTable.isSome_get?_of_mem hp)
  rw [lookupClass, hreplayed.index, List.nil_append, if_pos hmem]
  rfl

/-- A class, and the same class with a suffix from a width on. -/
theorem two_rules_register_again :
    ∃ r again, (empty true).run [.rule ".a" "color:red" none,
        .rule ".a:is(.b,.c)" "color:blue" (some 801)] = r ∧
      (empty true).ingest r.compiled = again ∧ (∀ p ∈ r.rules, p.1.length = 21) ∧
      again.2.compiled = r.compiled ∧ again.1 = 2 := by
  let calls : List Call :=
    [.rule ".a" "color:red" none, .rule ".a:is(.b,.c)" "color:blue" (some 801)]
  have htable : (∀ p ∈ ((empty true).run calls).rules, p.1.length = 21) ∧
      ((empty true).run calls).compiledSheet.rules.length = 2 := by
    decide +kernel
  obtain ⟨hcompiled, -, -, hcount, -⟩ :=
    compiled_text_registers_to_itself true calls (by decide +kernel) htable.1
  exact ⟨_, _, rfl, rfl, htable.1, hcompiled, hcount.trans htable.2⟩

end Pane.Style.Registry
