import Pane.Proofs.Style.Clean

/-!
# Canonical text is its own canonical text

The canonical text of a block is that of its declarations with a semicolon between neighbours.  Read
again it need not give the same declarations: a value that ends in a backslash, behind which spaces
have been trimmed, takes the semicolon for an escaped one, and the next declaration becomes part of
it.  But the text that these declarations are written as is the same text, whatever the block was.

**Standings.**  `Nesting.Proper` — what standings there are.  `Nesting.Proper.next_of_not_mem`: a
character that is no mark closes an escape and does nothing else, so that spaces around a colon may
be left out (`Nesting.Proper.after_spaces`).

**Parts.**  `of_mem_cutTopLevel_dropLast` — where the parts of a text end.  `IsCanonical` — a part
that is written as it was read; `IsCanonical.append` — two of them with a semicolon are one again.
`isCanonical_of_declaration?` — every declaration is written as one, and it ends at the top of the
block or behind a backslash.  `isCanonical_of_mem_cut` — so all parts of canonical text are.

**Result.**  **`declarationChars_readDeclarations`**, and the same for strings in
**`renderDeclarations_declarationsOf`**.
-/

namespace Pane.Style

/-! ## Standings -/

/-- A string is closed by a quotation mark. -/
def Quoting.Proper : Quoting → Prop
  | .quoted q | .quotedEscaped q => q = '"' ∨ q = '\''
  | _ => True

/-- What becomes of a standing when an escape is complete. -/
def Quoting.resolve : Quoting → Quoting
  | .escaped => .plain
  | .quotedEscaped q => .quoted q
  | q => q

namespace Nesting

/-- A standing in a text that was read from the start. -/
def Proper (n : Nesting) : Prop := n.quoting.Proper

variable {n : Nesting}

theorem proper_top : top.Proper := trivial

/-- The standing stays proper. -/
theorem Proper.next (h : n.Proper) (c : Char) : (n.next c).Proper := by
  obtain ⟨quoting, depth⟩ := n
  show (quoting.next c).Proper
  cases quoting with
  | plain =>
    rw [Quoting.next]
    split
    · trivial
    · split
      · next hc => simpa [Quoting.Proper] using hc
      · trivial
  | escaped => trivial
  | quoted q =>
    rw [Quoting.next]
    split
    · exact h
    · split
      · trivial
      · exact h
  | quotedEscaped q => exact h

theorem Proper.after (h : n.Proper) (s : List Char) : (n.after s).Proper := by
  induction s generalizing n with
  | nil => exact h
  | cons c s ih => exact ih (h.next c)

/-- A character that is no mark completes an escape and does nothing else. -/
theorem Proper.next_of_not_mem (h : n.Proper) {c : Char} (hc : c ∉ marks) :
    n.next c = ⟨n.quoting.resolve, n.depth⟩ := by
  obtain ⟨quoting, depth⟩ := n
  cases quoting with
  | plain => exact Steady.next_eq_self (.inl rfl) hc
  | escaped => rfl
  | quoted q =>
    rcases h with rfl | rfl
    · exact Steady.next_eq_self (.inr (.inl rfl)) hc
    · exact Steady.next_eq_self (.inr (.inr rfl)) hc
  | quotedEscaped q => rfl

/-- Behind characters that are no marks, only an escape is over. -/
theorem Proper.after_of_not_mem (h : n.Proper) {s : List Char} (hne : s ≠ [])
    (hs : ∀ c ∈ s, c ∉ marks) : n.after s = ⟨n.quoting.resolve, n.depth⟩ := by
  induction s generalizing n with
  | nil => exact absurd rfl hne
  | cons c s ih =>
    obtain ⟨hc, hs⟩ := List.forall_mem_cons.1 hs
    rw [after_cons, h.next_of_not_mem hc]
    by_cases hnil : s = []
    · rw [hnil]
      rfl
    · have hproper := h.next_of_not_mem hc ▸ h.next c
      rw [ih hproper hnil hs]
      cases n.quoting <;> rfl

/-- **Spaces around a colon make no difference** to what follows. -/
theorem Proper.after_spaces (h : n.Proper) {l r : List Char}
    (hl : ∀ c ∈ l, Text.isSpace c = true) (hr : ∀ c ∈ r, Text.isSpace c = true) :
    n.after (l ++ ':' :: r) = n.next ':' := by
  have hmarks : ∀ c ∈ l ++ ':' :: r, c ∉ marks := by
    intro c hc
    rw [List.mem_append, List.mem_cons] at hc
    rcases hc with hc | rfl | hc
    · exact not_mem_marks_of_isSpace (hl c hc)
    · decide
    · exact not_mem_marks_of_isSpace (hr c hc)
  rw [h.after_of_not_mem (by simp) hmarks, h.next_of_not_mem (by decide)]

/-- Where spaces lead to the top, the top was reached or a backslash was read. -/
theorem Proper.of_after_spaces (h : n.Proper) {s : List Char}
    (hs : ∀ c ∈ s, Text.isSpace c = true) (htop : n.after s = .top) :
    n = .top ∨ n = ⟨.escaped, 0⟩ := by
  by_cases hnil : s = []
  · rw [hnil] at htop
    exact .inl htop
  · rw [h.after_of_not_mem hnil fun c hc => not_mem_marks_of_isSpace (hs c hc)] at htop
    obtain ⟨quoting, depth⟩ := n
    obtain ⟨hquoting, rfl⟩ := Nesting.mk.inj htop
    cases quoting with
    | plain => exact .inl rfl
    | escaped => exact .inr rfl
    | quoted q => cases hquoting
    | quotedEscaped q => cases hquoting

/-- Lower case changes no standing. -/
theorem Proper.next_toLower (h : n.Proper) (c : Char) : n.next c.toLower = n.next c := by
  obtain ⟨quoting, depth⟩ := n
  cases quoting with
  | plain => exact Steady.next_toLower (.inl rfl) c
  | escaped => rfl
  | quoted q =>
    rcases h with rfl | rfl
    · exact Steady.next_toLower (.inr (.inl rfl)) c
    · exact Steady.next_toLower (.inr (.inr rfl)) c
  | quotedEscaped q => rfl

/-- A text in lower case stands as the text does. -/
theorem Proper.scan_toLower (h : n.Proper) (s : List Char) :
    n.after (s.map Char.toLower) = n.after s ∧
      (Undivided ';' n s → Undivided ';' n (s.map Char.toLower)) := by
  induction s generalizing n with
  | nil => exact ⟨rfl, id⟩
  | cons c s ih =>
    obtain ⟨hafter, hcut⟩ := ih (h.next c)
    rw [List.map_cons, after_cons, after_cons, h.next_toLower, undivided_cons, undivided_cons,
      h.next_toLower]
    refine ⟨hafter, fun ⟨hc, hs⟩ => ⟨fun ⟨htop, he⟩ => hc ⟨htop, ?_⟩, hcut hs⟩⟩
    exact Text.eq_of_toLower_eq (by decide) he

/-- The name of a property is scanned as it was written. -/
theorem scan_propertyName (p : List Char) :
    top.after (propertyName p) = top.after p ∧
      (Undivided ';' .top p → Undivided ';' .top (propertyName p)) := by
  rw [propertyName]
  split
  · exact ⟨rfl, id⟩
  · exact proper_top.scan_toLower p

end Nesting

/-! ## Parts -/

/-- Parts are undivided, and all but the last of them end at the top. -/
theorem of_mem_cutFrom_dropLast (separator : Char) (n : Nesting) (s : List Char) :
    Undivided separator n (cutFrom separator n s).1 ∧
      ((cutFrom separator n s).2 ≠ [] → n.after (cutFrom separator n s).1 = .top) ∧
      (∀ part ∈ (cutFrom separator n s).2, Undivided separator .top part) ∧
      ∀ part ∈ (cutFrom separator n s).2.dropLast, Nesting.top.after part = .top := by
  induction s generalizing n with
  | nil => simp [cutFrom, Undivided]
  | cons c s ih =>
    rw [cutFrom]
    split
    · next h =>
      obtain ⟨hfirst, hends, hmore, hlast⟩ := ih .top
      refine ⟨rfl, fun _ => h.1, List.forall_mem_cons.2 ⟨hfirst, hmore⟩, fun part hpart => ?_⟩
      by_cases hnil : (cutFrom separator .top s).2 = []
      · simp [hnil] at hpart
      · rw [List.dropLast_cons_of_ne_nil hnil] at hpart
        rcases List.mem_cons.1 hpart with rfl | hpart
        · exact hends hnil
        · exact hlast part hpart
    · next h =>
      obtain ⟨hfirst, hends, hmore, hlast⟩ := ih (n.next c)
      exact ⟨undivided_cons.2 ⟨h, hfirst⟩, hends, hmore, hlast⟩

/-- **Where the parts of a text end.** -/
theorem of_mem_cutTopLevel_dropLast (separator : Char) (s : List Char) :
    (∀ part ∈ cutTopLevel separator s, Undivided separator .top part) ∧
      ∀ part ∈ (cutTopLevel separator s).dropLast, Nesting.top.after part = .top := by
  obtain ⟨hfirst, hends, hmore, hlast⟩ :=
    of_mem_cutFrom_dropLast separator .top s
  refine ⟨List.forall_mem_cons.2 ⟨hfirst, hmore⟩, fun part hpart => ?_⟩
  rw [cutTopLevel] at hpart
  by_cases hnil : (cutFrom separator .top s).2 = []
  · simp [hnil] at hpart
  · rw [List.dropLast_cons_of_ne_nil hnil] at hpart
    rcases List.mem_cons.1 hpart with rfl | hpart
    · exact hends hnil
    · exact hlast part hpart

/-- A name and a value as they are written. -/
structure CanonicalPart (name value : List Char) : Prop where
  noColon : ':' ∉ name
  name_ne_nil : name ≠ []
  value_ne_nil : value ≠ []
  name_trimmed : Text.trim name = name
  value_trimmed : Text.trim value = value
  lowered : propertyName name = name

/-- A part of a block that is written as it was read. -/
def IsCanonical (s : List Char) : Prop :=
  ∃ name value, s = name ++ ':' :: value ∧ CanonicalPart name value

/-- A name and a value as they are written are read as they are. -/
theorem CanonicalPart.declaration? {d : Declaration}
    (h : CanonicalPart d.property.toList d.value.toList) : declaration? d.chars = some d := by
  rw [Declaration.chars, Style.declaration?, Text.splitFirst_append h.noColon]
  dsimp only
  rw [h.name_trimmed, h.value_trimmed, h.lowered, if_neg (not_or.2 ⟨h.name_ne_nil, h.value_ne_nil⟩),
    String.ofList_toList, String.ofList_toList]

/-- A canonical part is read as a declaration, which is written as it. -/
theorem IsCanonical.declaration? {s : List Char} (h : IsCanonical s) :
    ∃ d, declaration? s = some d ∧ d.chars = s := by
  obtain ⟨name, value, rfl, hpart⟩ := h
  have hchars := Declaration.chars_ofList name value
  refine ⟨⟨String.ofList name, String.ofList value⟩, ?_, hchars⟩
  rw [← hchars]
  exact CanonicalPart.declaration? (by simpa using hpart)

/-- A trimmed text has no space in front. -/
theorem trimStart_of_trim {s : List Char} (h : Text.trim s = s) : Text.trimStart s = s := by
  rw [← h]
  exact Text.trimStart_trimEnd_trimStart s

/-- Nor has it any at its end. -/
theorem trimEnd_of_trim {s : List Char} (h : Text.trim s = s) : Text.trimEnd s = s := by
  rw [← h]
  exact Text.trimEnd_trimEnd _

/-- Nothing is trimmed of a text with such texts at its ends. -/
theorem trim_append {s t : List Char} (hs : Text.trim s = s) (hne : s ≠ []) (ht : Text.trim t = t)
    (hne' : t ≠ []) (mid : List Char) : Text.trim (s ++ mid ++ t) = s ++ mid ++ t := by
  have hstart : Text.trimStart (s ++ mid ++ t) = s ++ mid ++ t := by
    cases s with
    | nil => exact absurd rfl hne
    | cons c s =>
      have hc : Text.isSpace c = false := Text.of_dropWhile_eq_cons (trimStart_of_trim hs)
      exact Text.trimStart_cons hc
  rw [Text.trim, hstart]
  exact Text.trimEnd_append hne' (trimEnd_of_trim ht)

/-- **Two canonical parts are one** if the semicolon between them does not count. -/
theorem IsCanonical.append {s t : List Char} (hs : IsCanonical s) (ht : IsCanonical t) :
    IsCanonical (s ++ ';' :: t) := by
  obtain ⟨name, value, rfl, hpart⟩ := hs
  obtain ⟨name', value', rfl, hpart'⟩ := ht
  refine ⟨name, value ++ (';' :: (name' ++ [':'])) ++ value', by simp, hpart.noColon,
    hpart.name_ne_nil, by simp [hpart.value_ne_nil], hpart.name_trimmed, ?_, hpart.lowered⟩
  exact trim_append hpart.value_trimmed hpart.value_ne_nil hpart'.value_trimmed
    hpart'.value_ne_nil _

/-- A part that a semicolon behind it ends, or that takes the semicolon for an escaped one. -/
def Breaks (s : List Char) : Prop :=
  Nesting.top.after s = .top ∨ Nesting.top.after s = ⟨.escaped, 0⟩

/-- A part without the spaces in front, around the colon and at the end is undivided as well, and
ends as it did, but for spaces behind an escape. -/
theorem scan_trimmed {p v : List Char} (hcut : Undivided ';' .top (p ++ ':' :: v)) :
    Undivided ';' .top (propertyName (Text.trim p) ++ ':' :: Text.trim v) ∧
      (Nesting.top.after (p ++ ':' :: v) = .top →
        Breaks (propertyName (Text.trim p) ++ ':' :: Text.trim v)) := by
  obtain ⟨l, r, hp, hl, hr⟩ := Text.exists_trim p
  obtain ⟨l', r', hv, hl', hr'⟩ := Text.exists_trim v
  obtain ⟨hlower, hlowercut⟩ := Nesting.scan_propertyName (Text.trim p)
  have hproper : (Nesting.top.after (Text.trim p)).Proper := Nesting.proper_top.after _
  have hlead : Nesting.top.after l = .top :=
    Nesting.steady_top.after_eq_self fun c hc => Nesting.not_mem_marks_of_isSpace (hl c hc)
  have hs : p ++ ':' :: v =
      l ++ (Text.trim p ++ ((r ++ ':' :: l') ++ (Text.trim v ++ r'))) := by
    conv_lhs => rw [hp, hv]
    simp
  rw [hs] at hcut ⊢
  have hfront := (undivided_append.1 hcut).2
  rw [hlead] at hfront
  obtain ⟨hcutp, hback⟩ := undivided_append.1 hfront
  have hcutv := (undivided_append.1 hback).2
  rw [hproper.after_spaces hr hl'] at hcutv
  constructor
  · rw [undivided_append, hlower, undivided_cons]
    exact ⟨hlowercut hcutp, by simp, (undivided_append.1 hcutv).1⟩
  · intro hend
    rw [Nesting.after_append, hlead, Nesting.after_append, Nesting.after_append,
      hproper.after_spaces hr hl', Nesting.after_append] at hend
    rw [Breaks, Nesting.after_append, hlower, Nesting.after_cons]
    exact ((hproper.next ':').after _).of_after_spaces hr' hend

/-- A declaration that was read is made of a name and a value as they are written. -/
theorem canonicalPart_of_declaration? {s : List Char} {d : Declaration}
    (h : declaration? s = some d) : CanonicalPart d.property.toList d.value.toList := by
  obtain ⟨p, v, rfl, hcolon, hp, hv, rfl⟩ := of_declaration?_eq_some h
  have hname : Thinned p (propertyName (Text.trim p)) := (Thinned.trim p).propertyName
  rw [String.toList_ofList, String.toList_ofList]
  exact ⟨hname.not_mem (by decide) hcolon, propertyName_ne_nil hp, hv, trim_propertyName p,
    Text.trim_trim v, propertyName_propertyName _⟩

/-- **A declaration is written as a canonical part**, which has no semicolon that counts and ends,
but for spaces, as the text that it was read from. -/
theorem isCanonical_of_declaration? {s : List Char} {d : Declaration}
    (hcut : Undivided ';' .top s) (h : declaration? s = some d) :
    IsCanonical d.chars ∧ Undivided ';' .top d.chars ∧
      (Nesting.top.after s = .top → Breaks d.chars) := by
  have hpart := canonicalPart_of_declaration? h
  obtain ⟨p, v, rfl, -, -, -, rfl⟩ := of_declaration?_eq_some h
  refine ⟨⟨_, _, rfl, hpart⟩, ?_⟩
  rw [Declaration.chars_ofList]
  exact scan_trimmed hcut

/-- Parts that are put together are cut into canonical ones. -/
theorem isCanonical_of_mem_cut {part : List Char} {parts : List (List Char)}
    (hparts : ∀ q ∈ part :: parts, IsCanonical q ∧ Undivided ';' .top q)
    (hbreaks : ∀ q ∈ (part :: parts).dropLast, Breaks q) :
    ∀ q ∈ cutTopLevel ';' (joinChars [';'] (part :: parts)), IsCanonical q := by
  induction parts generalizing part with
  | nil =>
    obtain ⟨hpart, hcut⟩ := hparts part (List.mem_cons_self ..)
    rw [joinChars, cutTopLevel_eq_singleton hcut]
    exact List.forall_mem_singleton.2 hpart
  | cons next parts ih =>
    obtain ⟨⟨hpart, hcut⟩, hrest⟩ := List.forall_mem_cons.1 hparts
    obtain ⟨⟨hnext, hcutnext⟩, hmore⟩ := List.forall_mem_cons.1 hrest
    rw [List.dropLast_cons_cons] at hbreaks
    obtain ⟨hend, hbreaks⟩ := List.forall_mem_cons.1 hbreaks
    rcases hend with hend | hend
    · rw [joinChars, List.append_assoc, List.singleton_append, cutTopLevel_append hcut hend]
      exact List.forall_mem_cons.2 ⟨hpart, ih hrest hbreaks⟩
    · -- the semicolon is escaped, so the two parts are read as one
      have hmerged : joinChars [';'] (part :: next :: parts) =
          joinChars [';'] ((part ++ ';' :: next) :: parts) := by
        cases parts <;> simp [joinChars]
      have hafter : Nesting.top.after (part ++ ';' :: next) = Nesting.top.after next := by
        rw [Nesting.after_append, hend]
        rfl
      have hundivided : Undivided ';' .top (part ++ ';' :: next) := by
        rw [undivided_append, hend, undivided_cons]
        exact ⟨hcut, by decide, hcutnext⟩
      rw [hmerged]
      refine ih (List.forall_mem_cons.2 ⟨⟨hpart.append hnext, hundivided⟩, hmore⟩) ?_
      cases parts with
      | nil => exact fun q hq => absurd hq List.not_mem_nil
      | cons q parts =>
        rw [List.dropLast_cons_cons] at hbreaks ⊢
        obtain ⟨hbreak, hbreaks⟩ := List.forall_mem_cons.1 hbreaks
        refine List.forall_mem_cons.2 ⟨?_, hbreaks⟩
        rwa [Breaks, hafter]

/-! ## Blocks -/

/-- Canonical parts are written as they were read. -/
theorem map_chars_filterMap {parts : List (List Char)} (h : ∀ q ∈ parts, IsCanonical q) :
    (parts.filterMap declaration?).map Declaration.chars = parts := by
  induction parts with
  | nil => rfl
  | cons q parts ih =>
    obtain ⟨hq, hparts⟩ := List.forall_mem_cons.1 h
    obtain ⟨d, hd, hchars⟩ := hq.declaration?
    rw [List.filterMap_cons, hd]
    exact congrArg₂ List.cons hchars (ih hparts)

/-- What is left in front of the last is read from what was in front of the last. -/
theorem mem_dropLast_filterMap {α β : Type} {f : α → Option β} {l : List α} {b : β}
    (h : b ∈ (l.filterMap f).dropLast) : ∃ a ∈ l.dropLast, f a = some b := by
  rcases List.eq_nil_or_concat l with rfl | ⟨l, a, rfl⟩
  · exact absurd h List.not_mem_nil
  · rw [List.concat_eq_append] at h ⊢
    have hmem : b ∈ l.filterMap f := by
      rw [List.filterMap_append] at h
      cases ha : f a with
      | none =>
        simp only [List.filterMap_cons, ha, List.filterMap_nil, List.append_nil] at h
        exact List.mem_of_mem_dropLast h
      | some b' =>
        simp only [List.filterMap_cons, ha, List.filterMap_nil, List.dropLast_concat] at h
        exact h
    rw [List.dropLast_concat]
    exact List.mem_filterMap.1 hmem

/-- **Canonical text is its own canonical text.** -/
theorem declarationChars_readDeclarations (body : List Char) :
    declarationChars (readDeclarations (declarationChars (readDeclarations body))) =
      declarationChars (readDeclarations body) := by
  obtain ⟨hcut, hends⟩ := of_mem_cutTopLevel_dropLast ';' body
  have hparts : ∀ q ∈ (readDeclarations body).map Declaration.chars,
      IsCanonical q ∧ Undivided ';' .top q := by
    intro q hq
    obtain ⟨d, hd, rfl⟩ := List.mem_map.1 hq
    obtain ⟨s, hs, hread⟩ := List.mem_filterMap.1 hd
    obtain ⟨hcanonical, hundivided, -⟩ := isCanonical_of_declaration? (hcut s hs) hread
    exact ⟨hcanonical, hundivided⟩
  have hbreaks : ∀ q ∈ ((readDeclarations body).map Declaration.chars).dropLast, Breaks q := by
    intro q hq
    rw [← List.map_dropLast] at hq
    obtain ⟨d, hd, rfl⟩ := List.mem_map.1 hq
    obtain ⟨s, hs, hread⟩ := mem_dropLast_filterMap hd
    have hundivided := hcut s (List.mem_of_mem_dropLast hs)
    exact (isCanonical_of_declaration? hundivided hread).2.2 (hends s hs)
  generalize hds : (readDeclarations body).map Declaration.chars = parts at hparts hbreaks
  rw [declarationChars, declarationChars, hds]
  cases parts with
  | nil => rfl
  | cons part parts =>
    rw [readDeclarations, map_chars_filterMap (isCanonical_of_mem_cut hparts hbreaks),
      joinChars_cutTopLevel]

/-- **Text that was read and written once is read and written again as it is.** -/
theorem renderDeclarations_declarationsOf (body : String) :
    renderDeclarations (declarationsOf (renderDeclarations (declarationsOf body))) =
      renderDeclarations (declarationsOf body) := by
  have h := declarationChars_readDeclarations body.toList
  simp only [renderDeclarations, declarationsOf, String.toList_ofList, h]

end Pane.Style
