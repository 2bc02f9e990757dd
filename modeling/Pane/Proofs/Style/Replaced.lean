import Pane.Proofs.Style.Reference
import Pane.Proofs.Style.Reread

/-!
# Sheets with another background

Another address is written in double quotes where the text had none.  So the block that it is
written into keeps to itself, but it may be cut in other places than before: the old reference may
have opened or closed brackets that the new one does not.  What is certain is that the declarations
in front are read as before, and that the next one has the property it had and a value that begins
as it was written, up to the end of the reference.  That is enough for it to show the address.

**Members.**  `of_replaceFirst?_eq_some` and `replaceFirst?_of_front` — which member of a list is
changed.

**Blocks.**  `of_replaceBackground?_eq_some` — which declaration is changed.
`containedBlock_replaced` — the changed block is contained.  **`backgroundUrl?_replaced`** — it is
read as a block that shows the address.

**Sheets.**  `rules_replaceBackground?` — the rules of a changed sheet are those of the sheet with
the first one changed that can be.  `Rule.Regular` — what is asked of the rules of a sheet;
`Item.OfRules.legible_replaced` — then the changed sheet is read rule by rule.
-/

namespace Pane.Style

/-- An address that is found as it is when it was written in double quotes. -/
structure PlainAddress (address : String) : Prop where
  noQuote : '"' ∉ address.toList
  noBackslash : '\\' ∉ address.toList
  trimmed : Text.trimmed? address = some address

instance (address : String) : Decidable (PlainAddress address) :=
  decidable_of_iff ('"' ∉ address.toList ∧ '\\' ∉ address.toList ∧
      Text.trimmed? address = some address)
    ⟨fun ⟨hquote, hback, htrim⟩ => ⟨hquote, hback, htrim⟩,
      fun h => ⟨h.noQuote, h.noBackslash, h.trimmed⟩⟩

/-- No `url(` runs into the first reference of the value. -/
def Declaration.Clear (d : Declaration) : Prop :=
  ∀ m, findUrl? d.value.toList = some m → m.Clear

/-- A reference that no `url(` precedes is clear. -/
theorem Declaration.clear_of_not_infix {d : Declaration}
    (h : ∀ m ∈ findUrl? d.value.toList, ¬"url(".toList <:+: m.before) : d.Clear :=
  fun m hm front back hbefore => absurd ⟨front, back, hbefore.symm⟩ (h m hm)

/-! ## The first member that can be changed -/

section replaceFirst

variable {α β : Type} {change : α → Option α} {change' : β → Option β}

/-- The first change is in front, or else behind. -/
theorem replaceFirst?_append (xs ys : List α) :
    replaceFirst? change (xs ++ ys) =
      ((replaceFirst? change xs).map (· ++ ys)).or ((replaceFirst? change ys).map (xs ++ ·)) := by
  induction xs with
  | nil => simp [replaceFirst?]
  | cons x xs ih =>
    rw [List.cons_append, replaceFirst?, replaceFirst?]
    cases change x with
    | some y => rfl
    | none =>
      rw [ih]
      cases replaceFirst? change xs <;> cases replaceFirst? change ys <;> rfl

/-- A member in front of which none can be changed is the one that is. -/
theorem replaceFirst?_of_front {front back : List α} {x y : α}
    (hfront : ∀ x ∈ front, change x = none) (hx : change x = some y) :
    replaceFirst? change (front ++ x :: back) = some (front ++ y :: back) := by
  induction front with
  | nil => rw [List.nil_append, replaceFirst?, hx]; rfl
  | cons z front ih =>
    obtain ⟨hz, hfront⟩ := List.forall_mem_cons.1 hfront
    rw [List.cons_append, replaceFirst?, hz, ih hfront]
    rfl

/-- Nothing is replaced exactly if nothing can be changed. -/
theorem replaceFirst?_eq_none_iff {xs : List α} :
    replaceFirst? change xs = none ↔ ∀ x ∈ xs, change x = none := by
  induction xs with
  | nil => simp [replaceFirst?]
  | cons x xs ih =>
    rw [replaceFirst?, List.forall_mem_cons]
    cases hx : change x with
    | some y => simp
    | none => simp [ih]

/-- What is changed is the first member that can be. -/
theorem of_replaceFirst?_eq_some {xs ys : List α} (h : replaceFirst? change xs = some ys) :
    ∃ front x y back, xs = front ++ x :: back ∧ ys = front ++ y :: back ∧
      (∀ z ∈ front, change z = none) ∧ change x = some y := by
  induction xs generalizing ys with
  | nil => cases h
  | cons x xs ih =>
    rw [replaceFirst?] at h
    cases hx : change x with
    | some y =>
      rw [hx] at h
      obtain rfl := Option.some.inj h
      exact ⟨[], x, y, xs, rfl, rfl, List.forall_mem_nil _, hx⟩
    | none =>
      rw [hx] at h
      obtain ⟨zs, hzs, rfl⟩ := Option.map_eq_some_iff.1 h
      obtain ⟨front, x', y, back, rfl, rfl, hfront, hx'⟩ := ih hzs
      exact ⟨x :: front, x', y, back, rfl, rfl, List.forall_mem_cons.2 ⟨hx, hfront⟩, hx'⟩

/-- Replacing goes through an image that the change goes through. -/
theorem replaceFirst?_map {f : α → β} (h : ∀ x, change' (f x) = (change x).map f) (xs : List α) :
    replaceFirst? change' (xs.map f) = (replaceFirst? change xs).map (List.map f) := by
  induction xs with
  | nil => rfl
  | cons x xs ih =>
    rw [List.map_cons, replaceFirst?, replaceFirst?, h, ih]
    cases change x with
    | some y => rfl
    | none => cases replaceFirst? change xs <;> rfl

/-- Where a member stands for several, the first of all that can be changed is. -/
theorem replaceFirst?_flatMap {f : α → List β}
    (h : ∀ x, replaceFirst? change' (f x) = (change x).map f) (xs : List α) :
    replaceFirst? change' (xs.flatMap f) = (replaceFirst? change xs).map (List.flatMap f) := by
  induction xs with
  | nil => rfl
  | cons x xs ih =>
    rw [List.flatMap_cons, replaceFirst?_append, replaceFirst?, h, ih]
    cases change x with
    | some y => simp
    | none => cases replaceFirst? change xs <;> simp

/-- Every member is as it was, or the one that was changed. -/
theorem mem_of_replaceFirst? {xs ys : List α} (h : replaceFirst? change xs = some ys) :
    ∀ y ∈ ys, y ∈ xs ∨ ∃ x ∈ xs, change x = some y := by
  obtain ⟨front, x, z, back, rfl, rfl, -, hx⟩ := of_replaceFirst?_eq_some h
  intro y hy
  simp only [List.mem_append, List.mem_cons] at hy ⊢
  rcases hy with hy | rfl | hy
  · exact .inl (.inl hy)
  · exact .inr ⟨x, .inr (.inl rfl), hx⟩
  · exact .inl (.inr (.inr hy))

end replaceFirst

/-! ## Quoted stretches -/

section quoted

variable {s t : List Char} (hquote : '"' ∉ s) (hback : '\\' ∉ s)
include hquote hback

/-- What is quoted has no part in whether braces are paired. -/
theorem balancedFrom_quoted (depth : Nat) (t : List Char) :
    balancedFrom (.quoted '"') depth (s ++ '"' :: t) = balancedFrom .plain depth t := by
  induction s with
  | nil => simp [balancedFrom, Quoting.next]
  | cons c s ih =>
    rw [List.mem_cons, not_or] at hquote hback
    simp [balancedFrom, Quoting.next, Ne.symm hquote.1, Ne.symm hback.1, ih hquote.2 hback.2]

/-- Nor does a comment begin in it. -/
theorem commenting_quoted (t : List Char) :
    (Commenting.quoted '"').after (s ++ '"' :: t) = Commenting.outside.after t := by
  induction s with
  | nil => rfl
  | cons c s ih =>
    rw [List.mem_cons, not_or] at hquote hback
    have hnext : (Commenting.quoted '"').next c = .quoted '"' := by
      simp [Commenting.next, Ne.symm hquote.1, Ne.symm hback.1]
    rw [List.cons_append, Commenting.after_cons, hnext, ih hquote.2 hback.2]

/-- In a string no separator counts. -/
theorem undivided_quoted (separator : Char) (depth : Nat) :
    Undivided separator ⟨.quoted '"', depth⟩ s ∧
      (⟨.quoted '"', depth⟩ : Nesting).after s = ⟨.quoted '"', depth⟩ := by
  induction s with
  | nil => exact ⟨rfl, rfl⟩
  | cons c s ih =>
    rw [List.mem_cons, not_or] at hquote hback
    have hnext : (⟨.quoted '"', depth⟩ : Nesting).next c = ⟨.quoted '"', depth⟩ := by
      simp [Nesting.next, Quoting.next, Ne.symm hquote.1, Ne.symm hback.1]
    rw [undivided_cons, Nesting.after_cons, hnext]
    exact ⟨⟨by simp [Nesting.top], (ih hquote.2 hback.2).1⟩, (ih hquote.2 hback.2).2⟩

end quoted

/-- Text without marks has no part in whether braces are paired. -/
theorem balancedFrom_append_of_noMark {s : List Char}
    (hs : ∀ c ∈ s, c ∉ ['\\', '{', '}', '"', '\'']) (depth : Nat) (t : List Char) :
    balancedFrom .plain depth (s ++ t) = balancedFrom .plain depth t := by
  induction s with
  | nil => rfl
  | cons c s ih =>
    obtain ⟨hc, hs⟩ := List.forall_mem_cons.1 hs
    simp only [List.mem_cons, List.not_mem_nil, or_false, not_or] at hc
    simp [balancedFrom, Quoting.next, hc, ih hs]

/-- A part of plain text is plain. -/
theorem PlainText.part {s part : List Char} (h : PlainText s) (hpart : part <:+: s) :
    PlainText part :=
  ⟨fun c hc => h.noMark c (hpart.subset hc), h.uncommented.part hpart⟩

/-! ## Blocks -/

section block

variable {address : String} (haddress : PlainAddress address)
include haddress

/-- A reference as it is written, with what follows it. -/
theorem urlReference_append (t : List Char) : urlReference address ++ t =
    "url(".toList ++ '"' :: (address.toList ++ '"' :: ')' :: t) := by
  rw [urlReference_eq haddress.noQuote]
  simp

/-- **A reference in double quotes between plain texts keeps to itself.** -/
theorem containedBlock_urlReference {s t : List Char} (hs : PlainText s) (ht : PlainText t) :
    ContainedBlock (s ++ (urlReference address ++ t)) := by
  rw [urlReference_append haddress]
  constructor
  · have hword : ∀ c ∈ "url(".toList, c ∉ ['\\', '{', '}', '"', '\''] :=
      (show PlainText "url(".toList by decide).noMark
    rw [Balanced, balancedFrom_append_of_noMark hs.noMark, balancedFrom_append_of_noMark hword]
    show balancedFrom (.quoted '"') 0 (address.toList ++ '"' :: ')' :: t) = true
    rw [balancedFrom_quoted haddress.noQuote haddress.noBackslash]
    exact ht.containedBlock.balanced
  · have hafter : Commenting.outside.after
        (s ++ 'u' :: ("rl(".toList ++ '"' :: (address.toList ++ '"' :: ')' :: t))) =
          Commenting.outside.after t := by
      rw [hs.commentless.append_cons (by decide)]
      show (Commenting.quoted '"').after (address.toList ++ '"' :: ')' :: t) = _
      rw [commenting_quoted haddress.noQuote haddress.noBackslash]
      rfl
    have hrest := ht.commentless
    rw [Commentless, ← hafter] at hrest
    exact hrest

/-- A reference in double quotes is not cut. -/
theorem undivided_urlReference {n : Nesting} (hn : n.quoting = .plain) :
    Undivided ';' n (urlReference address) := by
  obtain ⟨quoting, depth⟩ := n
  obtain rfl : quoting = .plain := hn
  have hopen : (⟨.plain, depth⟩ : Nesting).after ("url(".toList ++ ['"']) =
      ⟨.quoted '"', depth + 1⟩ := rfl
  obtain ⟨hcut, -⟩ :=
    undivided_quoted haddress.noQuote haddress.noBackslash ';' (depth + 1)
  have hclose : Undivided ';' ⟨.quoted '"', depth + 1⟩ (address.toList ++ ['"', ')']) :=
    undivided_append.2 ⟨hcut, undivided_of_not_mem (by decide)⟩
  have htext : urlReference address =
      ("url(".toList ++ ['"']) ++ (address.toList ++ ['"', ')']) := by
    rw [urlReference_eq haddress.noQuote]
    rfl
  rw [htext, undivided_append (s := "url(".toList ++ ['"']), hopen]
  exact ⟨undivided_of_not_mem (by decide), hclose⟩

end block

/-- Of some declarations the first one that shows a background is changed. -/
theorem replaceBackground?_eq_replaceFirst? (url : String) (ds : List Declaration) :
    replaceBackground? url ds = replaceFirst? (fun d =>
      if d.backgroundUrl?.isSome then some { d with value := replaceUrl url d.value }
      else none) ds := by
  induction ds with
  | nil => rfl
  | cons d ds ih =>
    rw [replaceBackground?, replaceFirst?]
    split
    · rfl
    · rw [ih]

/-- The declaration that is changed is the first that shows a background. -/
theorem of_replaceBackground?_eq_some {address : String} {ds ds' : List Declaration}
    (h : replaceBackground? address ds = some ds') :
    ∃ front d back m, ds = front ++ d :: back ∧ (∀ x ∈ front, x.backgroundUrl? = none) ∧
      isBackground d.property = true ∧ findUrl? d.value.toList = some m ∧
      ds' = front ++
        ⟨d.property, String.ofList (m.before ++ urlReference address ++ m.rest)⟩ :: back := by
  rw [replaceBackground?_eq_replaceFirst?] at h
  obtain ⟨front, d, d', back, rfl, rfl, hfront, hd⟩ := of_replaceFirst?_eq_some h
  split at hd
  · next hshown =>
    obtain rfl := Option.some.inj hd
    rw [Declaration.backgroundUrl?] at hshown
    split at hshown
    · next hproperty =>
      cases hm : findUrl? d.value.toList with
      | none => simp [urlOf?, hm] at hshown
      | some m =>
        refine ⟨front, d, back, m, rfl, ?_, hproperty, hm, ?_⟩
        · exact fun x hx => by simpa using hfront x hx
        · simp [replaceUrl, hm]
    · cases hshown
  · cases hd

/-- A background is turned to another address where there is one. -/
theorem isSome_replaceBackground? (address : String) (ds : List Declaration) :
    (replaceBackground? address ds).isSome = (backgroundUrl? ds).isSome := by
  induction ds with
  | nil => rfl
  | cons d ds ih =>
    rw [replaceBackground?, backgroundUrl?, List.findSome?_cons]
    cases hd : d.backgroundUrl? with
    | some url => rfl
    | none => simpa [backgroundUrl?] using ih

/-- What is joined begins with its first part. -/
theorem exists_joinChars_cons (separator : List Char) (back : List (List Char)) :
    ∃ t, ∀ part, joinChars separator (part :: back) = part ++ t := by
  cases back with
  | nil => exact ⟨[], fun part => (List.append_nil part).symm⟩
  | cons next back => exact ⟨_, fun part => List.append_assoc part _ _⟩

/-- What stands around one of some texts that are put together does not depend on it. -/
theorem exists_joinChars (separator : List Char) (front back : List (List Char)) :
    ∃ s t, ∀ part, joinChars separator (front ++ part :: back) = s ++ (part ++ t) := by
  induction front with
  | nil => exact ⟨[], exists_joinChars_cons separator back⟩
  | cons p front ih =>
    obtain ⟨s, t, h⟩ := ih
    refine ⟨p ++ separator ++ s, t, fun part => ?_⟩
    rw [List.cons_append, joinChars_cons_append, h part, List.append_assoc _ s]

/-- An undivided text begins the first part of what it stands in front of. -/
theorem exists_cutTopLevel_append {separator : Char} {s : List Char}
    (h : Undivided separator .top s) (t : List Char) :
    ∃ part parts, cutTopLevel separator (s ++ t) = (s ++ part) :: parts := by
  rw [cutTopLevel, cutFrom_append h]
  exact ⟨_, _, rfl⟩

/-- A reference behind the beginning of a value is not trimmed, nor what stands in front of it. -/
theorem trim_append_urlReference {address : String} (haddress : PlainAddress address)
    {before value : List Char} (hbefore : before <+: value) (htrim : Text.trim value = value)
    (rest : List Char) : Text.trim (before ++ (urlReference address ++ rest)) =
      before ++ (urlReference address ++ Text.trimEnd rest) := by
  have hstart : Text.trimStart (before ++ (urlReference address ++ rest)) =
      before ++ (urlReference address ++ rest) := by
    cases before with
    | nil =>
      rw [urlReference_append haddress]
      exact Text.trimStart_cons (c := 'u') (by decide)
    | cons c before =>
      obtain ⟨t, rfl⟩ := hbefore
      exact Text.trimStart_cons (Text.of_dropWhile_eq_cons (trimStart_of_trim htrim))
  have hend : Text.trimEnd (urlReference address) = urlReference address :=
    Text.trimEnd_append (t := "\")".toList) (by decide) (by decide)
  have hne : urlReference address ≠ [] := by
    rw [urlReference_eq haddress.noQuote]
    simp
  rw [Text.trim, hstart, ← List.append_assoc,
    Text.trimEnd_append_of_trimEnd (Text.trimEnd_append hne hend), List.append_assoc]

section replaced

variable {address : String} (haddress : PlainAddress address)
include haddress

/-- A declaration that shows a background is read with another one in its place, whatever follows
the reference. -/
theorem declaration?_urlReference {d : Declaration} {m : UrlMatch}
    (hcanonical : CanonicalPart d.property.toList d.value.toList)
    (hm : findUrl? d.value.toList = some m) (rest : List Char) :
    declaration? (d.property.toList ++ ':' :: (m.before ++ (urlReference address ++ rest))) =
      some ⟨d.property,
        String.ofList (m.before ++ (urlReference address ++ Text.trimEnd rest))⟩ := by
  obtain ⟨reference, hvalue, -⟩ := of_findUrl?_eq_some hm
  have htrim := trim_append_urlReference haddress ⟨reference, hvalue.symm⟩
    hcanonical.value_trimmed rest
  have hne : ¬(d.property.toList = [] ∨
      m.before ++ (urlReference address ++ Text.trimEnd rest) = []) := by
    rw [urlReference_append haddress]
    simpa using hcanonical.name_ne_nil
  rw [declaration?, Text.splitFirst_append hcanonical.noColon]
  dsimp only
  rw [htrim, hcanonical.name_trimmed, hcanonical.lowered, if_neg hne, String.ofList_toList]

variable {ds ds' : List Declaration} (hplain : PlainText (declarationChars ds))
  (h : replaceBackground? address ds = some ds')
include hplain h

/-- **A plain block keeps to itself** with another background. -/
theorem containedBlock_replaced : ContainedBlock (declarationChars ds') := by
  obtain ⟨front, d, back, m, rfl, -, -, hm, rfl⟩ := of_replaceBackground?_eq_some h
  obtain ⟨reference, hvalue, x, hrest⟩ := of_findUrl?_eq_some hm
  obtain ⟨s, t, hjoin⟩ := exists_joinChars [';'] (front.map Declaration.chars)
    (back.map Declaration.chars)
  have hbefore : declarationChars (front ++ d :: back) =
      (s ++ (d.property.toList ++ ':' :: m.before)) ++ x ++ (m.rest ++ t) := by
    rw [declarationChars, List.map_append, List.map_cons, hjoin, Declaration.chars, hvalue, ← hrest]
    simp
  have hbehind : declarationChars (front ++
      ⟨d.property, String.ofList (m.before ++ urlReference address ++ m.rest)⟩ :: back) =
        (s ++ (d.property.toList ++ ':' :: m.before)) ++
          (urlReference address ++ (m.rest ++ t)) := by
    rw [declarationChars, List.map_append, List.map_cons, hjoin, Declaration.chars,
      String.toList_ofList]
    simp
  rw [hbefore] at hplain
  rw [hbehind]
  refine containedBlock_urlReference haddress (hplain.part ?_) (hplain.part ?_)
  · rw [List.append_assoc]
    exact (List.prefix_append ..).isInfix
  · exact (List.suffix_append ..).isInfix

/-- What is read of a block with another background: the declarations in front of the one that is
changed, this one up to the end of the reference, and others. -/
theorem readDeclarations_replaced (hapart : Apart ds) : ∃ front d back m rest more,
    ds = front ++ d :: back ∧ (∀ x ∈ front, x.backgroundUrl? = none) ∧
      isBackground d.property = true ∧ findUrl? d.value.toList = some m ∧
      readDeclarations (declarationChars ds') = front ++
        ⟨d.property, String.ofList (m.before ++ (urlReference address ++ rest))⟩ :: more := by
  obtain ⟨front, d, back, m, rfl, hfront, hproperty, hm, rfl⟩ := of_replaceBackground?_eq_some h
  have hmem : d ∈ front ++ d :: back := by simp
  have hcanonical := hapart.canonical d hmem
  have hundivided := hapart.undivided d hmem
  have hchars := hplain.part (infix_declarationChars hmem)
  obtain ⟨reference, hvalue, -⟩ := of_findUrl?_eq_some hm
  have hsplit : d.chars = (d.property.toList ++ ':' :: m.before) ++ reference := by
    rw [Declaration.chars, hvalue]
    simp
  rw [hsplit] at hundivided hchars
  have hmarks := (hchars.part (List.prefix_append ..).isInfix).noMark
  -- up to the end of the reference the declaration is not cut
  have hcut : Undivided ';' .top
      (d.property.toList ++ ':' :: m.before ++ urlReference address) :=
    undivided_append.2 ⟨(undivided_append.1 hundivided).1,
      undivided_urlReference haddress (quoting_after rfl hmarks)⟩
  obtain ⟨t, hjoin⟩ := exists_joinChars_cons [';'] (back.map Declaration.chars)
  have htext : declarationChars
      (⟨d.property, String.ofList (m.before ++ urlReference address ++ m.rest)⟩ :: back) =
        (d.property.toList ++ ':' :: m.before ++ urlReference address) ++ (m.rest ++ t) := by
    rw [declarationChars, List.map_cons, hjoin, Declaration.chars, String.toList_ofList]
    simp
  obtain ⟨part, parts, hparts⟩ := exists_cutTopLevel_append hcut (m.rest ++ t)
  have hread := declaration?_urlReference haddress hcanonical hm part
  have hpart : d.property.toList ++ ':' :: m.before ++ urlReference address ++ part =
      d.property.toList ++ ':' :: (m.before ++ (urlReference address ++ part)) := by simp
  refine ⟨front, d, back, m, Text.trimEnd part, parts.filterMap declaration?, rfl, hfront,
    hproperty, hm, ?_⟩
  rw [readDeclarations_append hapart.of_mem_front, htext, readDeclarations, hparts, hpart,
    List.filterMap_cons, hread]

/-- **A block with another background shows it** when it is read again, and has a quote. -/
theorem backgroundUrl?_replaced (hapart : Apart ds) (hclear : ∀ d ∈ ds, d.Clear) :
    backgroundUrl? (readDeclarations (declarationChars ds')) = some address ∧
      '"' ∈ declarationChars (readDeclarations (declarationChars ds')) := by
  obtain ⟨front, d, back, m, rest, more, rfl, hfront, hproperty, hm, hread⟩ :=
    readDeclarations_replaced haddress hplain h hapart
  have hmem : d ∈ front ++ d :: back := by simp
  obtain ⟨reference, hvalue, -⟩ := of_findUrl?_eq_some hm
  have hnoquote : ∀ quote ∈ ['"', '\''], quote ∉ m.before := by
    intro quote hquote hc
    have hchars : quote ∈ d.chars := by simp [Declaration.chars, hvalue, hc]
    refine hplain.noMark quote ((infix_declarationChars hmem).subset hchars) ?_
    exact (show ['"', '\''] ⊆ ['\\', '{', '}', '"', '\''] by decide) hquote
  have hfind := findUrl?_append_urlReference hm
    ⟨hnoquote _ (by decide), hnoquote _ (by decide)⟩ (hclear d hmem m hm) haddress.noQuote rest
  rw [hread]
  constructor
  · have hshown : Declaration.backgroundUrl?
        ⟨d.property, String.ofList (m.before ++ (urlReference address ++ rest))⟩ =
          some address := by
      rw [Declaration.backgroundUrl?, if_pos hproperty, urlOf?, String.toList_ofList, hfind]
      dsimp only
      rw [String.ofList_toList, haddress.trimmed]
    rw [backgroundUrl?, List.findSome?_append, List.findSome?_eq_none_iff.2 hfront,
      List.findSome?_cons, hshown]
    rfl
  · refine (infix_declarationChars (List.mem_append_right _ (List.mem_cons_self ..))).subset ?_
    rw [Declaration.chars, String.toList_ofList, urlReference_append haddress]
    simp

end replaced

/-! ## Rules and sheets -/

/-- **The rules of a changed sheet** are those of the sheet with the first one changed that can
be. -/
theorem rules_replaceBackground? (s : Sheet) (classes : List String) (address : String) :
    replaceFirst? (fun x => (x.2.replaceBackground? classes address).map (x.1, ·)) s.rules =
      (s.replaceBackground? classes address).map Sheet.rules := by
  have hitem : ∀ i : Item,
      replaceFirst? (fun x => (x.2.replaceBackground? classes address).map (x.1, ·)) i.rules =
        (i.replaceBackground? classes address).map Item.rules := by
    intro i
    cases i with
    | rule r =>
      rw [Item.rules, Item.replaceBackground?, replaceFirst?]
      cases r.replaceBackground? classes address <;> rfl
    | media w rules =>
      have hmap :
          replaceFirst? (fun x : Option UInt32 × Rule =>
              (x.2.replaceBackground? classes address).map (x.1, ·)) (rules.map (some w, ·)) =
            (replaceFirst? (fun r : Rule => r.replaceBackground? classes address) rules).map
              (List.map (some w, ·)) :=
        replaceFirst?_map (by intro r; rfl) rules
      rw [Item.rules, hmap, Item.replaceBackground?, Option.map_map]
      rfl
    | verbatim text => rfl
  rw [Sheet.rules, replaceFirst?_flatMap hitem, Sheet.replaceBackground?, Option.map_map]
  rfl

/-- What is asked of the rules of a sheet: they are read alone, and their blocks are plain, stay
apart and have no reference that a `url(` runs into. -/
structure Rule.Regular (r : Rule) : Prop where
  legible : r.Legible
  plain : PlainText (declarationChars r.declarations)
  apart : Apart r.declarations
  clear : ∀ d ∈ r.declarations, d.Clear

namespace Rule

variable {r r' : Rule} {classes : List String} {address : String}

/-- A regular rule is read as it is. -/
theorem Regular.reread_eq (h : r.Regular) : r.reread = r := by
  rw [reread, h.apart.readDeclarations_eq]

theorem of_replaceBackground?_eq_some (h : r.replaceBackground? classes address = some r') :
    r.selects classes = true ∧ ∃ ds, Style.replaceBackground? address r.declarations = some ds ∧
      r' = { r with declarations := ds } := by
  rw [replaceBackground?] at h
  split at h
  · next hselects =>
    obtain ⟨ds, hds, rfl⟩ := Option.map_eq_some_iff.1 h
    exact ⟨hselects, ds, hds, rfl⟩
  · cases h

/-- A rule is changed if it is one of the classes and shows a background. -/
theorem isSome_replaceBackground? (r : Rule) (classes : List String) (address : String) :
    (r.replaceBackground? classes address).isSome =
      (r.selects classes && (backgroundUrl? r.declarations).isSome) := by
  rw [replaceBackground?]
  split
  · next h => rw [Option.isSome_map, Style.isSome_replaceBackground?, h, Bool.true_and]
  · next h => rw [Bool.not_eq_true] at h; rw [h]; rfl

section replaced

variable (haddress : PlainAddress address) (hr : r.Regular)
  (h : r.replaceBackground? classes address = some r')
include haddress hr h

/-- A changed rule is read alone. -/
theorem Regular.legible_replaced : r'.Legible := by
  obtain ⟨-, ds, hds, rfl⟩ := of_replaceBackground?_eq_some h
  exact ⟨hr.legible.selector, containedBlock_replaced haddress hr.plain hds⟩

/-- **A changed rule shows the address** when it is read again, and has a quote. -/
theorem Regular.backgroundUrl?_replaced :
    r'.selectors = r.selectors ∧ backgroundUrl? r'.reread.declarations = some address ∧
      '"' ∈ declarationChars r'.reread.declarations := by
  obtain ⟨-, ds, hds, rfl⟩ := of_replaceBackground?_eq_some h
  exact ⟨rfl, Style.backgroundUrl?_replaced haddress hr.plain hds hr.apart hr.clear⟩

end replaced

end Rule

/-- An item of regular rules is legible when a background is replaced. -/
theorem Item.OfRules.legible_replaced {i i' : Item} {classes : List String} {address : String}
    (haddress : PlainAddress address) (hi : i.OfRules Rule.Regular)
    (h : i.replaceBackground? classes address = some i') : i'.OfRules Rule.Legible := by
  cases i with
  | rule r =>
    obtain ⟨r', hr', rfl⟩ := Option.map_eq_some_iff.1 h
    exact Rule.Regular.legible_replaced haddress hi hr'
  | media w rules =>
    obtain ⟨rules', hrules', rfl⟩ := Option.map_eq_some_iff.1 h
    intro r hr
    rcases mem_of_replaceFirst? hrules' r hr with hr | ⟨r', hr', hchange⟩
    · exact (hi r hr).legible
    · exact (hi r' hr').legible_replaced haddress hchange
  | verbatim text => exact absurd hi id

/-- **A changed sheet is read rule by rule.** -/
theorem rules_read_replaced {s s' : Sheet} {classes : List String} {address : String}
    (haddress : PlainAddress address) (hs : ∀ i ∈ s.items, i.OfRules Rule.Regular)
    (h : s.replaceBackground? classes address = some s') :
    (Sheet.read s'.render).rules = s'.rules.map fun x => (x.1, x.2.reread) := by
  obtain ⟨items, hitems, rfl⟩ := Option.map_eq_some_iff.1 h
  refine rules_read_render fun i hi => ?_
  rcases mem_of_replaceFirst? hitems i hi with hi | ⟨i', hi', hchange⟩
  · exact (hs i hi).imp fun _ hr => hr.legible
  · exact (hs i' hi').legible_replaced haddress hchange

/-- A sheet of regular rules is read as it is written. -/
theorem read_render_of_regular {s : Sheet} (hs : ∀ i ∈ s.items, i.OfRules Rule.Regular) :
    Sheet.read s.render = s := by
  have hitems : (Sheet.read s.render).items = s.items := by
    rw [read_render_of_legible fun i hi => (hs i hi).imp fun _ hr => hr.legible]
    refine (List.map_congr_left fun i hi => ?_).trans (List.map_id _)
    have hi := hs i hi
    cases i with
    | rule r => exact congrArg Item.rule (Rule.Regular.reread_eq hi)
    | media w rules =>
      exact congrArg (Item.media w)
        ((List.map_congr_left fun r hr => (hi r hr).reread_eq).trans (List.map_id _))
    | verbatim text => exact absurd hi id
  exact congrArg Sheet.mk hitems

end Pane.Style
