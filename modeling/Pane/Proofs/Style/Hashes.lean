import Pane.Proofs.Style.Runs

/-!
# Rules under their hashes

A stored rule is written as its hash, the suffix of its selector and its declarations.  Registering
what was written places the same entry again: the hash is a class name that ends where the suffix
begins, its cascade key is taken over, and the declarations are those that were stored.

**Class names.**  `EndsName` — a text that no class name goes on in.  `readName_append` reads a name
in front of one, and `read?_eq_some` says that every suffix is one.

**Selectors.**  **`readChars?_append`** — a class of letters and digits is read as it is written;
`cleanSelector_append` — its selector is clean if the suffix is.

**Entries.**  `Entry.Clean` — an entry that can be written as a rule and read again;
**`Registry.clean_run`** — calls with clean texts store no other.

**Written rules.**  `Registry.hashedKey?_hashOf` — the cascade key is found in the hash;
**`Registry.registerRule_rule`** — the written rule of a clean entry places this entry.
-/

namespace Pane.Style

/-! ## Class names -/

/-- A text that no class name goes on in. -/
def EndsName (s : List Char) : Prop :=
  ∀ c, s.head? = some c → isNameChar c = false ∧ c ≠ '\\'

/-- A name is read up to where it ends. -/
theorem readName_append {name suffix : List Char} (hname : ∀ c ∈ name, isNameChar c = true)
    (hsuffix : EndsName suffix) : readName .plain (name ++ suffix) = some (name, suffix) := by
  induction name with
  | nil =>
    cases suffix with
    | nil => rfl
    | cons c cs =>
      obtain ⟨hc, hback⟩ := hsuffix c rfl
      simp [readName, Spelling.absorb, Spelling.spelled, hc, hback]
  | cons c name ih =>
    obtain ⟨hc, hname⟩ := List.forall_mem_cons.1 hname
    have hback : c ≠ '\\' := by
      rintro rfl
      exact absurd hc (by decide)
    simp [readName, Spelling.absorb, Spelling.spelled, hc, hback, ih hname]

/-- A class name is read up to where it ends. -/
theorem endsName_of_readName {state : Spelling} {s name rest : List Char}
    (h : readName state s = some (name, rest)) : EndsName rest := by
  fun_induction readName state s generalizing name with
  | case1 => cases h
  | case2 =>
    obtain ⟨-, rfl⟩ := Prod.mk.inj (Option.some.inj h)
    exact fun c hc => absurd hc (by simp)
  | case3 state c cs state' hs ih => exact ih h
  | case4 state cs hs ih =>
    obtain ⟨p, hp, he⟩ := Option.map_eq_some_iff.1 h
    obtain ⟨-, rfl⟩ := Prod.mk.inj he
    exact ih hp
  | case5 state c cs hs hback hc ih =>
    obtain ⟨p, hp, he⟩ := Option.map_eq_some_iff.1 h
    obtain ⟨-, rfl⟩ := Prod.mk.inj he
    exact ih hp
  | case6 state c cs hs hback hc =>
    obtain ⟨-, rfl⟩ := Prod.mk.inj (Option.some.inj h)
    rintro d hd
    obtain rfl : c = d := by simpa using hd
    exact ⟨by simpa using hc, hback⟩

/-- The suffix of a class selector does not go on with the name and has no space at its end. -/
theorem read?_eq_some {selector : String} {s : ClassSelector}
    (h : ClassSelector.read? selector = some s) :
    EndsName s.suffix.toList ∧ Text.trimEnd s.suffix.toList = s.suffix.toList := by
  rw [ClassSelector.read?, ClassSelector.readChars?] at h
  split at h
  · next rest _ =>
    split at h
    · cases h
    · next name suffix hname =>
      split at h
      · cases h
      · obtain rfl := Option.some.inj h
        rw [String.toList_ofList]
        refine ⟨fun c hc => ?_, Text.trimEnd_trimEnd suffix⟩
        obtain ⟨r, hr, -⟩ := Text.exists_trimEnd suffix
        refine endsName_of_readName hname c ?_
        rw [hr, List.head?_append, hc]
        rfl
  · cases h

/-! ## Letters and digits -/

/-- Letters and digits by their code points. -/
theorem isAlphanumeric_iff {c : Char} : Text.isAlphanumeric c = true ↔
    (65 ≤ c.toNat ∧ c.toNat ≤ 90 ∨ 97 ≤ c.toNat ∧ c.toNat ≤ 122) ∨
      48 ≤ c.toNat ∧ c.toNat ≤ 57 := by
  have hclass : Text.isAlphanumeric c =
      ((decide ('A'.val ≤ c.val ∧ c.val ≤ 'Z'.val) ||
        decide ('a'.val ≤ c.val) && decide (c.val ≤ 'z'.val)) ||
          decide ('0'.val ≤ c.val) && decide (c.val ≤ '9'.val)) := rfl
  rw [hclass, Bool.or_eq_true, Bool.or_eq_true, Bool.and_eq_true, Bool.and_eq_true]
  simp only [decide_eq_true_eq]
  exact Iff.rfl

/-- Letters and digits are no spaces. -/
theorem isSpace_of_isAlphanumeric {c : Char} (h : Text.isAlphanumeric c = true) :
    Text.isSpace c = false := by
  have hn := isAlphanumeric_iff.1 h
  exact Text.isSpace_eq_false (by omega)

theorem isAlphanumeric_of_isLowerHex {c : Char} (h : Digest.isLowerHex c = true) :
    Text.isAlphanumeric c = true := by
  have hn := toNat_of_isLowerHex h
  exact isAlphanumeric_iff.2 (by omega)

/-- The characters with a meaning in front of a block. -/
def signs : List Char := Nesting.marks ++ ['{', '}', '/', ',', ';']

/-- A hash selector has no sign in it. -/
theorem not_mem_signs {c : Char} (h : c = '.' ∨ Text.isAlphanumeric c = true) : c ∉ signs := by
  rcases h with rfl | h
  · decide
  · exact Text.not_mem_of_all (by decide) h

/-! ## Class selectors -/

/-- What is asked of a suffix: it is clean, and neither a comma nor a semicolon counts in it. -/
structure CleanSuffix (s : List Char) : Prop where
  text : CleanText s
  noComma : Undivided ',' .top s
  noSemicolon : Undivided ';' .top s

/-- The conditions on a clean suffix, as they are decided. -/
theorem cleanSuffix_iff {s : List Char} :
    CleanSuffix s ↔ CleanText s ∧ Undivided ',' .top s ∧ Undivided ';' .top s :=
  ⟨fun h => ⟨h.text, h.noComma, h.noSemicolon⟩,
    fun ⟨htext, hcomma, hsemicolon⟩ => ⟨htext, hcomma, hsemicolon⟩⟩

instance (s : List Char) : Decidable (CleanSuffix s) := decidable_of_iff _ cleanSuffix_iff.symm

section selector

variable {name suffix : List Char} (hname : ∀ c ∈ name, Text.isAlphanumeric c = true)
include hname

/-- A class selector with a trimmed suffix is trimmed. -/
theorem trim_classSelector (htrim : Text.trimEnd suffix = suffix) :
    Text.trim ('.' :: (name ++ suffix)) = '.' :: (name ++ suffix) := by
  rw [Text.trim, Text.trimStart_cons (by decide)]
  cases suffix with
  | cons c cs => exact Text.trimEnd_append (s := '.' :: name) (by simp) htrim
  | nil =>
    rw [List.append_nil]
    obtain ⟨r, hr, hspace⟩ := Text.exists_trimEnd ('.' :: name)
    cases r with
    | nil =>
      rw [List.append_nil] at hr
      exact hr.symm
    | cons d r =>
      have hd := hspace d (List.mem_cons_self ..)
      have hmem : d ∈ '.' :: name := hr ▸ List.mem_append_right _ (List.mem_cons_self ..)
      rcases List.mem_cons.1 hmem with rfl | hmem
      · exact absurd hd (by decide)
      · exact absurd hd (by simp [isSpace_of_isAlphanumeric (hname d hmem)])

/-- **A class of letters and digits is read from its selector**, and so is the suffix. -/
theorem readChars?_append (hlong : 2 ≤ name.length) (hends : EndsName suffix)
    (htrim : Text.trimEnd suffix = suffix) :
    ClassSelector.readChars? ('.' :: (name ++ suffix)) =
      some ⟨String.ofList name, String.ofList suffix⟩ := by
  have hchars : ∀ c ∈ name, isNameChar c = true := fun c hc => by simp [isNameChar, hname c hc]
  have hproper : ¬(name = [] ∨ name = ['-']) := by
    rintro (rfl | rfl) <;> simp at hlong
  rw [ClassSelector.readChars?, trim_classSelector hname htrim]
  simp only [readName_append hchars hends, if_neg hproper, htrim]

/-- The selector of a class of letters and digits is clean if its suffix is. -/
theorem cleanSelector_append (hsuffix : CleanSuffix suffix)
    (htrim : Text.trimEnd suffix = suffix) : CleanSelector ('.' :: (name ++ suffix)) := by
  have hsigns : ∀ c ∈ '.' :: name, c ∉ signs := by
    intro c hc
    rcases List.mem_cons.1 hc with rfl | hc
    · exact not_mem_signs (.inl rfl)
    · exact not_mem_signs (.inr (hname c hc))
  have hno : ∀ d ∈ signs, d ∉ '.' :: name := fun d hd hmem => hsigns d hmem hd
  have hafter : Nesting.top.after ('.' :: name) = .top :=
    Nesting.steady_top.after_eq_self fun c hc hmark => hsigns c hc (List.mem_append_left _ hmark)
  have hundivided : ∀ d ∈ signs, Undivided d .top suffix →
      Undivided d .top ('.' :: name ++ suffix) := by
    intro d hd hs
    rw [undivided_append, hafter]
    exact ⟨undivided_of_not_mem (hno d hd), hs⟩
  refine ⟨⟨?_, ⟨?_, ?_⟩, ?_, ?_⟩, hundivided _ (by decide) hsuffix.noComma,
    hundivided _ (by decide) hsuffix.noSemicolon, trim_classSelector hname htrim, rfl⟩
  · exact List.not_mem_append (hno _ (by decide)) hsuffix.text.noBackslash
  · exact List.not_mem_append (hno _ (by decide)) hsuffix.text.noBrace.1
  · exact List.not_mem_append (hno _ (by decide)) hsuffix.text.noBrace.2
  · exact uncommented_iff.1 (uncommented_append (hno _ (by decide)) hsuffix.text.uncommented)
  · show Nesting.top.after ('.' :: name ++ suffix) = .top
    rw [Nesting.after_append, hafter, hsuffix.text.closed]

end selector

/-! ## Entries -/

/-- What is asked of an entry: it is made of its content, and this can be written as a rule. -/
structure Entry.Clean (e : Entry) : Prop where
  content : Entry.ofContent e.cascadeKey e.suffix e.declarations = e
  suffix : CleanSuffix e.suffix.toList
  ends : EndsName e.suffix.toList
  trimmed : Text.trimEnd e.suffix.toList = e.suffix.toList
  filled : e.declarations ≠ []
  declarations : ∀ d ∈ e.declarations, d.Clean

/-- What is asked of a call: it registers one block, and this and the suffix of its selector are
clean. -/
def Call.Clean : Call → Prop
  | .rule selector body _ => CleanText body.toList ∧
      ∀ s ∈ ClassSelector.read? selector, CleanSuffix s.suffix.toList
  | .inline body => CleanText body.toList
  | .units _ => False
  | .sheet _ => False

instance : ∀ call : Call, Decidable call.Clean
  | .rule selector body _ => inferInstanceAs (Decidable (CleanText body.toList ∧
      ∀ s ∈ ClassSelector.read? selector, CleanSuffix s.suffix.toList))
  | .inline body => inferInstanceAs (Decidable (CleanText body.toList))
  | .units _ => inferInstanceAs (Decidable False)
  | .sheet _ => inferInstanceAs (Decidable False)

theorem cleanSuffix_nil : CleanSuffix [] := ⟨cleanText_nil, rfl, rfl⟩

namespace Registry

variable {r : Registry}

/-- What is registered for a class is clean if its suffix and its body are. -/
theorem clean_classEntry {selector body : String} {s : ClassSelector}
    (hselector : ClassSelector.read? selector = some s) (hsuffix : CleanSuffix s.suffix.toList)
    (hbody : CleanText body.toList) (hne : declarationsOf body ≠ []) :
    (classEntry s (declarationsOf body)).Clean where
  content := rfl
  suffix := hsuffix
  ends := (read?_eq_some hselector).1
  trimmed := (read?_eq_some hselector).2
  filled := hne
  declarations := clean_readDeclarations hbody

/-- What is registered for an inline style is clean if its body is. -/
theorem clean_inlineEntry {body : String} (hbody : CleanText body.toList)
    (hne : declarationsOf body ≠ []) : (inlineEntry body).Clean where
  content := rfl
  suffix := cleanSuffix_nil
  ends c hc := absurd hc (by simp [inlineEntry, Entry.ofContent])
  trimmed := rfl
  filled := hne
  declarations := clean_readDeclarations hbody

/-- A clean call places a clean entry, or does nothing. -/
theorem perform_of_clean (r : Registry) {call : Call} (h : call.Clean) :
    r.perform call = r ∨
      ∃ name width e, e.Clean ∧ r.perform call = (r.place name width e).2 := by
  cases call with
  | units percentages => exact absurd h id
  | sheet text => exact absurd h id
  | rule selector body width =>
    obtain ⟨hbody, hsuffix⟩ := h
    show (r.registerDeclarations selector (declarationsOf body) width).2 = r ∨ ∃ name width' e,
      e.Clean ∧ (r.registerDeclarations selector (declarationsOf body) width).2 =
        (r.place name width' e).2
    rw [registerDeclarations_eq]
    split
    · exact .inl rfl
    · next s hs =>
      split
      · exact .inl rfl
      · next hne =>
        exact .inr ⟨some s.name, width, _, clean_classEntry hs (hsuffix s hs) hbody hne, rfl⟩
  | inline body =>
    show (r.registerInline body).2 = r ∨ ∃ name width e,
      e.Clean ∧ (r.registerInline body).2 = (r.place name width e).2
    rw [registerInline_eq]
    split
    · exact .inl rfl
    · next hne => exact .inr ⟨none, none, _, clean_inlineEntry h hne, rfl⟩

/-- Every stored entry is clean. -/
def Clean (r : Registry) : Prop := ∀ hash e, r.rules.get? hash = some e → e.Clean

theorem clean_empty (percentUnits : Bool) : (empty percentUnits).Clean := by
  intro hash e h
  simp [empty, RuleTable.get?] at h

/-- Placing a clean rule keeps a registry clean. -/
theorem Clean.place (h : r.Clean) (name : Option String) (width : Option UInt32) {e : Entry}
    (he : e.Clean) : (r.place name width e).2.Clean := by
  intro hash e' hg
  rw [place_rules] at hg
  rcases RuleTable.get?_settle hg with hg | rfl
  · exact h hash e' hg
  · exact he

/-- **Clean calls store clean entries only**, and leave the units alone. -/
theorem clean_run {calls : List Call} (hcalls : ∀ call ∈ calls, call.Clean) (h : r.Clean) :
    (r.run calls).Clean ∧ (r.run calls).percentUnits = r.percentUnits := by
  induction calls generalizing r with
  | nil => exact ⟨h, rfl⟩
  | cons call calls ih =>
    obtain ⟨hcall, hcalls⟩ := List.forall_mem_cons.1 hcalls
    rw [run_cons]
    rcases r.perform_of_clean hcall with hsame | ⟨name, width, e, he, hplace⟩
    · rw [hsame]
      exact ih hcalls h
    · rw [hplace, ← place_percentUnits r name width e]
      exact ih hcalls (h.place name width he)

/-! ## Written rules -/

/-- Hashes on record are made of letters and digits. -/
theorem isAlphanumeric_of_mem_hash (h : r.Sound) {hash : String} {e : Entry}
    (hg : r.rules.get? hash = some e) : ∀ c ∈ hash.toList, Text.isAlphanumeric c = true := by
  intro c hc
  rcases h.wellKeyed.char_of_mem (fun _ _ => Digest.isHex_of_mem_sha256Hex) hg hc with rfl | hx
  · decide
  · exact isAlphanumeric_of_isLowerHex hx

/-- The cascade key of a hash is taken over. -/
theorem hashedKey?_hashOf {key digest : String} {n : Nat} (hkey : RuleTable.IsKey key)
    (hlen : digest.length = 64) (hhex : ∀ c ∈ digest.toList, Digest.isLowerHex c = true)
    (hn : 12 ≤ n) : hashedKey? (hashOf key digest n) = some key := by
  have htext : (hashOf key digest n).toList = 's' :: (key.toList ++ digest.toList.take n) := by
    simp [hashOf]
  have hlong : 20 ≤ (key.toList ++ digest.toList.take n).length := by
    rw [List.length_append, List.length_take, String.length_toList, String.length_toList, hkey.1,
      hlen]
    omega
  have hall : (key.toList ++ digest.toList.take n).all Digest.isLowerHex = true := by
    refine List.all_eq_true.2 fun c hc => ?_
    rcases List.mem_append.1 hc with hc | hc
    · exact hkey.2 c hc
    · exact hhex c (List.mem_of_mem_take hc)
  have htake : (key.toList ++ digest.toList.take n).take 8 = key.toList := by
    have hl : key.toList.length = 8 := by rw [String.length_toList, hkey.1]
    rw [← hl, List.take_left]
  have hpasses : (decide (20 ≤ (key.toList ++ digest.toList.take n).length) &&
      (key.toList ++ digest.toList.take n).all Digest.isLowerHex) = true := by
    rw [hall, Bool.and_true, decide_eq_true hlong]
  simp only [hashedKey?, htext, hpasses, if_true, htake, String.ofList_toList]

/-- The cascade key of an entry is found in its hash. -/
theorem hashedKey?_of_get? (h : r.rules.WellKeyed Digest.sha256Hex) {hash : String} {e : Entry}
    (hg : r.rules.get? hash = some e) : hashedKey? hash = some e.cascadeKey := by
  obtain ⟨hkey, n, hn, hhash⟩ := h hash e hg
  rw [hhash]
  exact hashedKey?_hashOf hkey (length_sha256Hex e.fingerprint)
    (fun c hc => Digest.isHex_of_mem_sha256Hex hc) (RuleTable.le_of_mem_digitCounts hn).1

section written

variable (h : r.Sound) {hash : String} {e : Entry} (hg : r.rules.get? hash = some e)
include h hg

/-- The written selector is read as the hash and the suffix. -/
theorem read?_written (hends : EndsName e.suffix.toList)
    (htrim : Text.trimEnd e.suffix.toList = e.suffix.toList) :
    ClassSelector.read? ("." ++ hash ++ e.suffix) = some ⟨hash, e.suffix⟩ := by
  obtain ⟨hkey, n, -, hhash⟩ := h.wellKeyed hash e hg
  have hlong : 2 ≤ hash.toList.length := by
    have hl : e.cascadeKey.toList.length = 8 := by rw [String.length_toList, hkey.1]
    rw [hhash, hashOf]
    simp only [String.toList_append, List.length_append, hl]
    omega
  have hread := readChars?_append (isAlphanumeric_of_mem_hash h hg) hlong hends htrim
  rw [String.ofList_toList, String.ofList_toList] at hread
  rw [ClassSelector.read?, ← hread]
  simp

variable (he : e.Clean)
include he

/-- A written rule is clean. -/
theorem clean_rule : (e.rule hash).Clean where
  selector := by
    refine ⟨_, rfl, ?_⟩
    have hclean := cleanSelector_append (isAlphanumeric_of_mem_hash h hg) he.suffix he.trimmed
    simpa using hclean
  declarations := he.declarations

/-- The written rule has the content of the entry. -/
theorem classEntry_written : classEntry ⟨hash, e.suffix⟩ e.declarations = e := by
  have hkeyed : cascadeKey ⟨hash, e.suffix⟩ = e.cascadeKey := by
    rw [cascadeKey, hashedKey?_of_get? h.wellKeyed hg, Option.getD_some]
  rw [classEntry, hkeyed, he.content]

/-- **A written rule places the entry that it was written for**, in whatever registry. -/
theorem registerRule_rule (s : Registry) (width : Option UInt32) :
    s.registerRule width (e.rule hash) = (1, (s.place (some hash) width e).2) := by
  have hregister : s.registerDeclarations ("." ++ hash ++ e.suffix) e.declarations width =
      (some (s.place (some hash) width e).1, (s.place (some hash) width e).2) := by
    rw [registerDeclarations_eq, read?_written h hg he.ends he.trimmed]
    dsimp only
    rw [if_neg he.filled, classEntry_written h hg he]
  simp only [registerRule, Entry.rule, List.foldl_cons, List.foldl_nil, hregister,
    Option.isSome_some, if_true]

end written

end Registry

end Pane.Style
