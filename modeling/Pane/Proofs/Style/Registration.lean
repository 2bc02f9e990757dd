import Pane.Proofs.Style.ReadBack
import Pane.Proofs.Style.RuleTable
import Pane.Proofs.Text.Tokens

/-!
# What registration does to a registry

Whatever is registered, and however, the registry changes in one way only: a content is stored, its
hash is put in a layer, and, if the rule has a class, the hash is put in the index under that class.
Here this change is written down once (`Registry.place`), every entry point is shown to be a run of
such changes, and what holds of all registries is derived from the one change.

**The change.**  `Registry.place` and the runs of it, `Registry.Reaches`.
`Registry.reaches_ingest`, `Registry.reaches_registerInline` and their like say that the entry
points are runs.

**Growth.**  `Reaches.inLayer` — a run takes no hash out of a layer.

**Integrity.**  `Registry.Sound`: the table is well keyed, every hash in a layer is a key of it, and
every hash in the index is in a layer.  **`Reaches.sound`** keeps it.

**What is written out.**  **`mem_rules_compiledSheet_iff`** — the written rules are those of the
layers, each under its hash.
-/

namespace Pane.Style

open RuleTable (IsKey)

/-! ## Digests and cascade keys -/

/-- A digest is written with sixty-four digits. -/
theorem length_sha256Hex (s : String) : (Digest.sha256Hex s).length = 64 := by
  rw [← String.length_toList, Digest.length_sha256Hex]

/-- Eight digits in lower case are a key. -/
theorem isKey_take {digits : List Char} (hl : 8 ≤ digits.length)
    (hd : ∀ c ∈ digits, Digest.isLowerHex c = true) : IsKey (String.ofList (digits.take 8)) := by
  refine ⟨?_, fun c hc => ?_⟩
  · rw [← String.length_toList, String.toList_ofList, List.length_take]
    omega
  · rw [String.toList_ofList] at hc
    exact hd c (List.mem_of_mem_take hc)

theorem isKey_shortDigest (parts : List String) : IsKey (Registry.shortDigest parts) := by
  refine isKey_take ?_ fun c hc => Digest.isHex_of_mem_sha256Hex hc
  rw [Digest.length_sha256Hex]
  decide

/-- What a hashed name carries is a key. -/
theorem isKey_of_hashedKey? {name key : String} (h : Registry.hashedKey? name = some key) :
    IsKey key := by
  rw [Registry.hashedKey?] at h
  split at h
  · next digits _ =>
    split at h
    · next hd =>
      simp only [Bool.and_eq_true, decide_eq_true_eq, List.all_eq_true] at hd
      obtain rfl := Option.some.inj h
      exact isKey_take (by omega) hd.2
    · exact absurd h (by simp)
  · exact absurd h (by simp)

/-- The digits of a hash, by their codes. -/
theorem toNat_of_isLowerHex {c : Char} (h : Digest.isLowerHex c = true) :
    48 ≤ c.toNat ∧ c.toNat ≤ 57 ∨ 97 ≤ c.toNat ∧ c.toNat ≤ 102 := by
  simp only [Digest.isLowerHex, Char.isDigit, Bool.or_eq_true, Bool.and_eq_true,
    decide_eq_true_eq] at h
  exact h

theorem isSpace_of_isLowerHex {c : Char} (h : Digest.isLowerHex c = true) :
    Text.isSpace c = false := by
  have hn := toNat_of_isLowerHex h
  exact Text.isSpace_eq_false (by omega)

/-- Every cascade key is eight lower-case hexadecimal digits, taken over from a hash or not. -/
theorem isKey_cascadeKey (s : ClassSelector) : IsKey (Registry.cascadeKey s) := by
  rw [Registry.cascadeKey]
  cases h : Registry.hashedKey? s.name with
  | some key => exact isKey_of_hashedKey? h
  | none => exact isKey_shortDigest _

namespace Registry

variable {r r' : Registry}

/-! ## Layers and index -/

/-- Whether a hash is in the bucket of a width. -/
def Held (w : UInt32) (hash : String) (l : List (UInt32 × Bucket)) : Prop :=
  ∃ b, (w, b) ∈ l ∧ hash ∈ b

/-- Whether a hash is in a layer: that of a width, or the unconditional one. -/
def InLayer (r : Registry) : Option UInt32 → String → Prop
  | none, hash => hash ∈ r.unconditional
  | some w, hash => Held w hash r.breakpoints

theorem held_cons {w w' : UInt32} {hash : String} {b : Bucket} {l : List (UInt32 × Bucket)} :
    Held w hash ((w', b) :: l) ↔ w = w' ∧ hash ∈ b ∨ Held w hash l := by
  simp only [Held, List.mem_cons, Prod.mk.injEq]
  constructor
  · rintro ⟨b', ⟨hw, hb⟩ | h, hk⟩
    · exact .inl ⟨hw, hb ▸ hk⟩
    · exact .inr ⟨b', h, hk⟩
  · rintro (⟨hw, hk⟩ | ⟨b', h, hk⟩)
    · exact ⟨b, .inl ⟨hw, rfl⟩, hk⟩
    · exact ⟨b', .inr h, hk⟩

theorem mem_push {b : Bucket} {hash k : String} :
    k ∈ Bucket.push b hash ↔ k ∈ b ∨ k = hash := by
  rw [Bucket.push]
  split
  · next h =>
    refine ⟨.inl, ?_⟩
    rintro (hk | rfl)
    · exact hk
    · exact h
  · simp

/-- A hash that is put on record from a width upward is held from there, and nothing else is new. -/
theorem held_pushAt (width w : UInt32) (hash k : String) :
    ∀ l : List (UInt32 × Bucket),
      Held w k (pushAt width hash l) ↔ Held w k l ∨ w = width ∧ k = hash
  | [] => by
      rw [pushAt, held_cons, List.mem_singleton, or_comm]
  | (w', b) :: rest => by
      have ih := held_pushAt width w hash k rest
      rw [pushAt]
      split
      · rw [held_cons, held_cons, List.mem_singleton, or_comm]
      · split
        · next he =>
          subst he
          rw [held_cons, held_cons, mem_push, and_or_left, or_right_comm]
        · rw [held_cons, held_cons, ih, or_assoc]

/-- A class to which a hash is given has it behind those it had. -/
theorem lookup_pushClass (name hash n : String) :
    ∀ l : List (String × Bucket), (pushClass name hash l).lookup n =
      if n = name then some (Bucket.push ((l.lookup n).getD []) hash) else l.lookup n
  | [] => by
      rw [pushClass, Table.lookup_cons_ite]
      rfl
  | (m, b) :: rest => by
      have ih := lookup_pushClass name hash n rest
      rw [pushClass]
      split
      · next he =>
        subst he
        rw [Table.lookup_cons_ite, Table.lookup_cons_ite]
        split <;> rfl
      · next hne =>
        rw [Table.lookup_cons_ite, Table.lookup_cons_ite, ih]
        by_cases hm : n = m
        · have hn : n ≠ name := fun he => hne (hm ▸ he)
          simp only [hm, if_true]
          rw [if_neg (hm ▸ hn)]
        · simp [hm]

/-! ## The change -/

/-- The registry with a content stored, its hash in a layer and, if a class is given, in the index
under it; and the hash. -/
def place (r : Registry) (name : Option String) (width : Option UInt32) (e : Entry) :
    String × Registry :=
  let (hash, r) := r.store e
  let r := r.pushLayer width hash
  (hash, match name with
    | some n => { r with classes := pushClass n hash r.classes }
    | none => r)

/-- The content of a rule of a class. -/
def classEntry (s : ClassSelector) (ds : List Declaration) : Entry :=
  Entry.ofContent (cascadeKey s) s.suffix ds

/-- The content of an inline style. -/
def inlineEntry (body : String) : Entry :=
  Entry.ofContent (shortDigest ["inline", renderDeclarations (declarationsOf body)]) ""
    (declarationsOf body)

/-- Registering a class selector places its content, if there is any. -/
theorem registerDeclarations_eq (r : Registry) (selector : String) (ds : List Declaration)
    (width : Option UInt32) :
    r.registerDeclarations selector ds width =
      match ClassSelector.read? selector with
      | none => (none, r)
      | some s =>
        if ds = [] then (none, r)
        else
          (some (r.place s.name width (classEntry s ds)).1,
            (r.place s.name width (classEntry s ds)).2) := rfl

/-- Registering an inline style places its content, if there is any. -/
theorem registerInline_eq (r : Registry) (body : String) :
    r.registerInline body =
      if declarationsOf body = [] then (none, r)
      else (some (r.place none none (inlineEntry body)).1,
        (r.place none none (inlineEntry body)).2) := rfl

section place

variable (r : Registry) (name : Option String) (width : Option UInt32) (e : Entry)

/-- Placing a rule stores it, wherever it is placed. -/
theorem place_store : (r.place name width e).1 = (r.rules.store Digest.sha256Hex e).1 ∧
    (r.place name width e).2.rules = (r.rules.store Digest.sha256Hex e).2 := by
  cases name <;> cases width <;> exact ⟨rfl, rfl⟩

/-- Storing is settling under the hash that the table finds for the rule. -/
theorem store_rules_eq :
    let hash := hashOf e.cascadeKey (Digest.sha256Hex e.fingerprint)
      (r.rules.slotDigits e (Digest.sha256Hex e.fingerprint))
    r.rules.store Digest.sha256Hex e = (hash, r.rules.settle e hash) :=
  RuleTable.store_eq r.rules e Digest.sha256Hex (length_sha256Hex e.fingerprint)

/-- The hash of a placed content is that of the slot which is used for it. -/
theorem place_hash :
    (r.place name width e).1 = hashOf e.cascadeKey (Digest.sha256Hex e.fingerprint)
      (r.rules.slotDigits e (Digest.sha256Hex e.fingerprint)) := by
  rw [(r.place_store name width e).1, store_rules_eq]

theorem place_rules :
    (r.place name width e).2.rules = r.rules.settle e (r.place name width e).1 := by
  rw [(r.place_store name width e).2, (r.place_store name width e).1, store_rules_eq]

theorem place_percentUnits : (r.place name width e).2.percentUnits = r.percentUnits := by
  cases name <;> cases width <;> rfl

/-- The layer that a rule is placed in has its hash from then on, and no other layer changes. -/
theorem inLayer_place (w : Option UInt32) (k : String) :
    (r.place name width e).2.InLayer w k ↔
      r.InLayer w k ∨ w = width ∧ k = (r.place name width e).1 := by
  cases name <;> cases width <;> cases w <;>
    simp [place, pushLayer, store, InLayer, mem_push, held_pushAt]

/-- The class that a rule is placed under has its hash from then on, and no other class changes. -/
theorem hashesOf_place (n : String) :
    (r.place name width e).2.hashesOf n =
      if name = some n then Bucket.push (r.hashesOf n) (r.place name width e).1
      else r.hashesOf n := by
  cases name with
  | none => cases width <;> simp [place, pushLayer, store, hashesOf]
  | some m =>
    cases width <;> simp only [place, pushLayer, store, hashesOf, lookup_pushClass] <;>
      by_cases h : n = m <;> simp [h, eq_comm]

end place

/-! ## Runs -/

/-- What may become of a registry: contents are placed in it, one after the other. -/
inductive Reaches (r : Registry) : Registry → Prop
  | refl : Reaches r r
  | place {r' : Registry} (name : Option String) (width : Option UInt32) (key suffix : String)
      (ds : List Declaration) (before : Reaches r r') (hkey : IsKey key) :
      Reaches r (r'.place name width (Entry.ofContent key suffix ds)).2

theorem Reaches.trans {r₁ r₂ r₃ : Registry} (h : Reaches r₁ r₂) (h' : Reaches r₂ r₃) :
    Reaches r₁ r₃ := by
  induction h' with
  | refl => exact h
  | place name width key suffix ds _ hkey ih => exact .place name width key suffix ds ih hkey

/-- Registering for one selector places one rule at most. -/
theorem reaches_registerDeclarations (r : Registry) (selector : String) (ds : List Declaration)
    (width : Option UInt32) : Reaches r (r.registerDeclarations selector ds width).2 := by
  rw [registerDeclarations_eq]
  split
  · exact .refl
  · next s _ =>
    split
    · exact .refl
    · exact .place s.name width _ s.suffix ds .refl (isKey_cascadeKey s)

theorem reaches_registerInline (r : Registry) (body : String) :
    Reaches r (r.registerInline body).2 := by
  rw [registerInline_eq]
  split
  · exact .refl
  · exact .place none none _ "" _ .refl (isKey_shortDigest _)

theorem reaches_registerRule (r : Registry) (width : Option UInt32) (rule : Rule) :
    Reaches r (r.registerRule width rule).2 := by
  rw [registerRule]
  generalize 0 = n
  induction rule.selectors generalizing r n with
  | nil => exact .refl
  | cons selector rest ih =>
    exact (r.reaches_registerDeclarations selector rule.declarations width).trans (ih _ _)

theorem reaches_registerSheet (r : Registry) (s : Sheet) : Reaches r (r.registerSheet s).2 := by
  rw [registerSheet]
  generalize 0 = n
  induction s.rules generalizing r n with
  | nil => exact .refl
  | cons wr rest ih => exact (r.reaches_registerRule wr.1 wr.2).trans (ih _ _)

/-- A blank text has no rules, so it does not matter that it is not even read. -/
theorem ingest_eq (r : Registry) (text : String) :
    r.ingest text = r.registerSheet (Sheet.read text) := by
  rw [ingest]
  split
  · next h =>
    rw [read_of_isBlank h]
    rfl
  · rfl

theorem reaches_ingest (r : Registry) (text : String) : Reaches r (r.ingest text).2 := by
  rw [ingest]
  split
  · exact .refl
  · exact r.reaches_registerSheet _

/-! ## Growth -/

/-- A run takes no hash out of a layer. -/
theorem Reaches.inLayer (h : Reaches r r') {width : Option UInt32} {hash : String}
    (hr : r.InLayer width hash) : r'.InLayer width hash := by
  induction h with
  | refl => exact hr
  | place _ _ _ _ _ _ _ ih => exact (inLayer_place ..).2 (.inl ih)

/-! ## Integrity -/

/-- The registry holds together: hashes are made of key and digest, every hash in a layer has a
rule, and every hash in the index is in a layer. -/
structure Sound (r : Registry) : Prop where
  wellKeyed : r.rules.WellKeyed Digest.sha256Hex
  layered : ∀ width hash, r.InLayer width hash → (r.rules.get? hash).isSome = true
  indexed : ∀ name, ∀ hash ∈ r.hashesOf name, ∃ width, r.InLayer width hash

/-- A registry without rules is sound. -/
theorem sound_empty (percentUnits : Bool) : (empty percentUnits).Sound := by
  refine ⟨fun hash e h => ?_, fun width hash h => ?_, fun name hash h => ?_⟩
  · simp [empty, RuleTable.get?] at h
  · cases width <;> simp [empty, InLayer, Held] at h
  · simp [empty, hashesOf] at h

/-- Placing a rule under a key keeps a registry sound. -/
theorem Sound.place (h : r.Sound) (name : Option String) (width : Option UInt32) {e : Entry}
    (he : IsKey e.cascadeKey) : (r.place name width e).2.Sound where
  wellKeyed := by
    rw [(r.place_store name width e).2]
    exact h.wellKeyed.store (length_sha256Hex _) he
  layered w k hk := by
    rw [place_rules]
    rcases (inLayer_place ..).1 hk with hk | ⟨-, rfl⟩
    · exact RuleTable.isSome_get?_settle (h.layered w k hk)
    · exact RuleTable.isSome_get?_settle_self _ _ _
  indexed n k hk := by
    have hold : k ∈ r.hashesOf n → ∃ w, (r.place name width e).2.InLayer w k := fun hk =>
      (h.indexed n k hk).imp fun w hw => (inLayer_place ..).2 (.inl hw)
    rw [hashesOf_place] at hk
    split at hk
    · rcases mem_push.1 hk with hk | rfl
      · exact hold hk
      · exact ⟨width, (inLayer_place ..).2 (.inr ⟨rfl, rfl⟩)⟩
    · exact hold hk

/-- **A run keeps a registry sound.** -/
theorem Reaches.sound (h : Reaches r r') (hr : r.Sound) : r'.Sound := by
  induction h with
  | refl => exact hr
  | place name width _ _ _ _ hkey ih => exact ih.place name width hkey

/-- A hash on record is a class token: it has no space in it and is not empty. -/
theorem Sound.isToken (h : r.Sound) {hash : String} (hr : (r.rules.get? hash).isSome = true) :
    Text.IsToken Text.isSpace hash.toList := by
  obtain ⟨e, he⟩ := Option.isSome_iff_exists.1 hr
  refine ⟨fun hnil => ?_, fun c hc => ?_⟩
  · obtain ⟨-, n, -, rfl⟩ := h.wellKeyed hash e he
    simp [hashOf] at hnil
  · rcases h.wellKeyed.char_of_mem (fun _ _ => Digest.isHex_of_mem_sha256Hex) he hc with rfl | hx
    · decide
    · exact isSpace_of_isLowerHex hx

/-! ## What is written out -/

/-- The rules that a bucket stands for are those on record under its hashes. -/
theorem mem_rulesIn {b : Bucket} {rule : Rule} :
    rule ∈ r.rulesIn b ↔ ∃ hash e, hash ∈ b ∧ r.rules.get? hash = some e ∧ rule = e.rule hash := by
  simp only [rulesIn, List.mem_filterMap, Option.map_eq_some_iff]
  constructor
  · rintro ⟨hash, hb, e, he, rfl⟩
    exact ⟨hash, e, hb, he, rfl⟩
  · rintro ⟨hash, e, hb, he, rfl⟩
    exact ⟨hash, hb, e, he, rfl⟩

/-- What holds of the rules of the stored entries, each under its hash, holds of all that is
written. -/
theorem ofRules_compiledSheet {P : Rule → Prop}
    (h : ∀ hash e, r.rules.get? hash = some e → P (e.rule hash)) :
    ∀ i ∈ r.compiledSheet.items, i.OfRules P := by
  have hrules : ∀ b, ∀ rule ∈ r.rulesIn b, P rule := by
    intro b rule hrule
    obtain ⟨hash, e, -, he, rfl⟩ := mem_rulesIn.1 hrule
    exact h hash e he
  intro i hi
  rw [compiledSheet, List.mem_append, List.mem_map, List.mem_map] at hi
  rcases hi with ⟨rule, hrule, rfl⟩ | ⟨⟨w, b⟩, -, rfl⟩
  · exact hrules _ rule hrule
  · exact hrules b

/-- **The written rules are those of the layers, each under its hash.** -/
theorem mem_rules_compiledSheet_iff {width : Option UInt32} {rule : Rule} :
    (width, rule) ∈ r.compiledSheet.rules ↔
      ∃ hash e, r.InLayer width hash ∧ r.rules.get? hash = some e ∧ rule = e.rule hash := by
  simp only [compiledSheet, Sheet.rules, List.mem_flatMap, List.mem_append, List.mem_map]
  constructor
  · rintro ⟨item, ⟨rule', hrule', rfl⟩ | ⟨⟨w, b⟩, hb, rfl⟩, hmem⟩
    · simp only [Item.rules, List.mem_singleton, Prod.mk.injEq] at hmem
      obtain ⟨rfl, rfl⟩ := hmem
      exact mem_rulesIn.1 hrule'
    · simp only [Item.rules, List.mem_map, Prod.mk.injEq] at hmem
      obtain ⟨rule', hrule', rfl, rfl⟩ := hmem
      obtain ⟨hash, e, hh, he, rfl⟩ := mem_rulesIn.1 hrule'
      exact ⟨hash, e, ⟨b, hb, hh⟩, he, rfl⟩
  · rintro ⟨hash, e, hl, he, rfl⟩
    cases width with
    | none => exact ⟨.rule (e.rule hash), .inl ⟨_, mem_rulesIn.2 ⟨hash, e, hl, he, rfl⟩, rfl⟩,
        by simp [Item.rules]⟩
    | some w =>
      obtain ⟨b, hb, hh⟩ := hl
      refine ⟨.media w (r.rulesIn b), .inr ⟨(w, b), hb, rfl⟩, ?_⟩
      simpa [Item.rules] using mem_rulesIn.2 ⟨hash, e, hh, he, rfl⟩

end Registry

/-! The text of a sheet shows the text of each of its rules. -/

/-- A rule of an item is written within the item. -/
theorem infix_chars_of_mem_rules {i : Item} {width : Option UInt32} {rule : Rule}
    (h : (width, rule) ∈ i.rules) : rule.chars <:+: i.chars := by
  cases i with
  | rule r =>
    simp only [Item.rules, List.mem_singleton, Prod.mk.injEq] at h
    exact ⟨[], [], by simp [Item.chars, h.2]⟩
  | media w rules =>
    simp only [Item.rules, List.mem_map, Prod.mk.injEq] at h
    obtain ⟨rule', hr, -, rfl⟩ := h
    obtain ⟨before, after, rfl⟩ := List.append_of_mem hr
    refine ⟨minWidthPrelude w ++ '{' :: '\n' :: before.flatMap (fun r => r.chars ++ ['\n']),
      '\n' :: after.flatMap (fun r => r.chars ++ ['\n']) ++ ['}'], ?_⟩
    simp [Item.chars]
  | verbatim text => simp [Item.rules] at h

/-- A rule of a sheet is written within the sheet. -/
theorem infix_render_of_mem_rules {s : Sheet} {width : Option UInt32} {rule : Rule}
    (h : (width, rule) ∈ s.rules) : rule.chars <:+: s.render.toList := by
  obtain ⟨item, hi, hr⟩ := List.mem_flatMap.1 h
  rw [Sheet.render, String.toList_ofList, Sheet.chars]
  exact (infix_chars_of_mem_rules hr).trans (infix_joinChars (List.mem_map_of_mem hi))

end Pane.Style
