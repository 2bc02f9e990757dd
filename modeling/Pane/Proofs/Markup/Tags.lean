import Pane.Proofs.Markup.Escapes
import Pane.Proofs.Text.Cuts
import Pane.Proofs.Tree.Written

/-!
# Tags and comments that are written

The printer writes tags and, in front of text that can be edited, comments.  The lexer cuts each of
them off as a single token, provided that it can read the names in them, that no value has a null
character, and that no identity in a comment holds the character that ends comments.

* `isTagName`, `isAttributeName` — the names that can be read.
* **`lexMarkup_openTagChars`** — an opening tag.
* **`lexMarkup_closeTagChars`** — an end tag.
* **`lexMarkup_markerChars`** — the comment that carries an identity.
-/

namespace Pane.Markup

/-! ## Names -/

/-- Whether a name reads as that of a tag. -/
def isTagName (name : String) : Bool :=
  name.toList.head?.any Char.isAlpha && name.toList.all (fun c => !endsTagName c) &&
    tagName name.toList = name

/-- Whether a name reads as that of an attribute. -/
def isAttributeName (name : String) : Bool :=
  !name.toList.isEmpty && name.toList.all (fun c => !endsAttributeName c) &&
    tagName name.toList = name

theorem isAttributeName_of_isAllowedAttribute {name : String} (h : isAllowedAttribute name = true) :
    isAttributeName name = true := by
  have hall : ∀ n ∈ allowedAttributes, isAttributeName n = true := by decide
  exact hall name (of_decide_eq_true h)

theorem isAttributeName_identityAttribute : isAttributeName identityAttribute = true := by decide

/-! ## Attributes -/

theorem readValue?_escapeAttribute {value : String} (h : '\x00' ∉ value.toList)
    (rest : List Char) :
    readValue? ('"' :: escapeAttribute value.toList ++ '"' :: rest) = some (value, rest) := by
  have hspace : Text.isAsciiSpace '"' = false := by decide
  rw [readValue?, List.cons_append, List.dropWhile_cons_of_neg (by simp [hspace])]
  simp only [Text.splitFirst_append (quote_not_mem_escapeAttribute _) rest, Option.map_some,
    resolveAttribute_escapeAttribute h]

/-- One attribute is read in two steps. -/
theorem readAttributes_attributeChars {name value : String} (hname : isAttributeName name = true)
    (hvalue : '\x00' ∉ value.toList) (fuel : Nat) (rest : List Char) :
    readAttributes (fuel + 2) (attributeChars name value ++ rest) =
      (readAttributes fuel rest).map (TagRest.cons name value) := by
  simp only [isAttributeName, Bool.and_eq_true, Bool.not_eq_true', List.all_eq_true,
    decide_eq_true_eq] at hname
  obtain ⟨⟨hne, hplain⟩, htag⟩ := hname
  obtain ⟨c, cs, hcs⟩ : ∃ c cs, name.toList = c :: cs := by
    cases h : name.toList with
    | nil => simp [h] at hne
    | cons c cs => exact ⟨c, cs, rfl⟩
  rw [hcs] at hplain htag
  have hc := hplain c (List.mem_cons_self ..)
  have hrest : ∀ d ∈ cs, (!endsAttributeName d) = true := by
    intro d hd
    simpa using hplain d (List.mem_cons_of_mem _ hd)
  simp only [endsAttributeName, endsTagName, Bool.or_eq_false_iff, decide_eq_false_iff_not] at hc
  obtain ⟨⟨⟨hspace, hslash⟩, hgt⟩, -⟩ := hc
  have heq : endsAttributeName '=' = true := by decide
  have hblank : Text.isAsciiSpace ' ' = true := by decide
  have htake : (cs ++ '=' :: '"' :: escapeAttribute value.toList ++ '"' :: rest).takeWhile
      (fun d => !endsAttributeName d) = cs := by
    rw [List.append_assoc, List.takeWhile_append_of_pos hrest, List.cons_append,
      List.takeWhile_cons_of_neg (by simp [heq]), List.append_nil]
  have hdrop : (cs ++ '=' :: '"' :: escapeAttribute value.toList ++ '"' :: rest).dropWhile
      (fun d => !endsAttributeName d) =
        '=' :: '"' :: escapeAttribute value.toList ++ '"' :: rest := by
    rw [List.append_assoc, List.dropWhile_append_of_pos hrest, List.cons_append,
      List.dropWhile_cons_of_neg (by simp [heq])]
  have hequals : ('=' :: '"' :: escapeAttribute value.toList ++ '"' :: rest).dropWhile
      Text.isAsciiSpace = '=' :: ('"' :: escapeAttribute value.toList ++ '"' :: rest) :=
    List.dropWhile_cons_of_neg (by decide)
  have hchars : attributeChars name value ++ rest =
      ' ' :: c :: (cs ++ '=' :: '"' :: escapeAttribute value.toList ++ '"' :: rest) := by
    simp [attributeChars, hcs]
  -- the first step skips the space, the second one takes the attribute
  rw [hchars, readAttributes.eq_def]
  simp only [hblank, if_true]
  rw [readAttributes.eq_def]
  simp only [hspace, hslash, hgt, Bool.false_eq_true, if_false, htake, hdrop, hequals, htag,
    readValue?_escapeAttribute hvalue]

/-- **The attributes of a tag are read back**, each in two steps. -/
theorem readAttributes_attributesChars (rest : List Char) :
    ∀ (attrs : List (String × String)) (fuel : Nat),
      (∀ a ∈ attrs, isAttributeName a.1 = true ∧ '\x00' ∉ a.2.toList) →
      2 * attrs.length < fuel →
      readAttributes fuel (attributesChars attrs ++ '>' :: rest) = some ⟨attrs, false, rest⟩
  | [], fuel + 1, _, _ => by
      have hspace : Text.isAsciiSpace '>' = false := by decide
      simp [attributesChars, readAttributes, hspace]
  | (name, value) :: attrs, fuel, h, hfuel => by
      obtain ⟨fuel, rfl⟩ : ∃ k, fuel = k + 2 := ⟨fuel - 2, by simp at hfuel; omega⟩
      have ih := readAttributes_attributesChars rest attrs fuel
        (fun a ha => h a (List.mem_cons_of_mem _ ha)) (by simp at hfuel; omega)
      obtain ⟨hname, hvalue⟩ := h (name, value) (List.mem_cons_self ..)
      rw [attributesChars, List.flatMap_cons, List.append_assoc,
        readAttributes_attributeChars hname hvalue]
      rw [attributesChars] at ih
      rw [ih]
      rfl

theorem length_attributesChars (attrs : List (String × String)) :
    2 * attrs.length ≤ (attributesChars attrs).length := by
  induction attrs with
  | nil => exact Nat.zero_le _
  | cons a attrs ih =>
    have hone : 2 ≤ (attributeChars a.1 a.2).length := by
      simp only [attributeChars, List.length_append, List.length_cons]
      omega
    simp only [attributesChars, List.flatMap_cons, List.length_append, List.length_cons] at ih ⊢
    omega

theorem firstOfEach_eq_self {attrs : List (String × String)} (h : (attrs.map (·.1)).Nodup) :
    firstOfEach attrs = attrs := by
  have hfold : ∀ (more kept : List (String × String)), ((kept ++ more).map (·.1)).Nodup →
      more.foldl (fun kept a => if kept.any fun k => k.1 = a.1 then kept else kept ++ [a]) kept =
        kept ++ more := by
    intro more
    induction more with
    | nil => simp
    | cons a more ih =>
      intro kept hkept
      have hnew : (kept.any fun k => decide (k.1 = a.1)) = false := by
        rw [List.any_eq_false]
        intro k hk
        simp only [List.map_append, List.nodup_append, List.map_cons] at hkept
        simpa using hkept.2.2 k.1 (List.mem_map_of_mem hk) a.1 (List.mem_cons_self ..)
      rw [List.foldl_cons, hnew, if_neg Bool.false_ne_true, ih (kept ++ [a]) (by simpa using hkept)]
      simp
  exact hfold attrs [] h

/-! ## Tags -/

theorem readTag_append {name : String} {attrs : List (String × String)}
    (hname : isTagName name = true)
    (hattrs : ∀ a ∈ attrs, isAttributeName a.1 = true ∧ '\x00' ∉ a.2.toList)
    (hnodup : (attrs.map (·.1)).Nodup) (rest : List Char) :
    readTag (name.toList ++ attributesChars attrs ++ '>' :: rest) =
      some (⟨name, attrs, false⟩, rest) := by
  simp only [isTagName, Bool.and_eq_true, List.all_eq_true, decide_eq_true_eq] at hname
  obtain ⟨⟨-, hplain⟩, htag⟩ := hname
  have hstops : ∀ s, attributesChars attrs ++ '>' :: rest = s →
      ∃ c cs, s = c :: cs ∧ endsTagName c = true := by
    rintro s rfl
    cases attrs with
    | nil => exact ⟨'>', rest, rfl, by decide⟩
    | cons a attrs => exact ⟨' ', _, rfl, by decide⟩
  obtain ⟨c, cs, hcs, hc⟩ := hstops _ rfl
  have hbehind : (name.toList ++ attributesChars attrs ++ '>' :: rest).dropWhile
      (fun c => !endsTagName c) = attributesChars attrs ++ '>' :: rest := by
    rw [List.append_assoc, List.dropWhile_append_of_pos hplain, hcs,
      List.dropWhile_cons_of_neg (by simp [hc])]
  have hfront : (name.toList ++ attributesChars attrs ++ '>' :: rest).takeWhile
      (fun c => !endsTagName c) = name.toList := by
    rw [List.append_assoc, List.takeWhile_append_of_pos hplain, hcs,
      List.takeWhile_cons_of_neg (by simp [hc]), List.append_nil]
  have hfuel : 2 * attrs.length < (attributesChars attrs ++ '>' :: rest).length := by
    have := length_attributesChars attrs
    simp only [List.length_append, List.length_cons]
    omega
  simp only [readTag, hbehind, hfront, readAttributes_attributesChars rest attrs _ hattrs hfuel,
    Option.map_some, htag, firstOfEach_eq_self hnodup]

theorem isAlpha_of_isTagName {name : String} (h : isTagName name = true) :
    ∃ c cs, name.toList = c :: cs ∧ c.isAlpha = true := by
  simp only [isTagName, Bool.and_eq_true] at h
  cases hname : name.toList with
  | nil => simp [hname] at h
  | cons c cs => exact ⟨c, cs, rfl, by simpa [hname] using h.1.1⟩

/-- **An opening tag is read back.** -/
theorem lexMarkup_openTagChars {tag : String} {attrs : Table String} {id : Option String}
    (htag : isTagName tag = true)
    (hattrs : ∀ a ∈ writtenAttributes attrs id,
      isAttributeName a.1 = true ∧ '\x00' ∉ a.2.toList)
    (hnodup : ((writtenAttributes attrs id).map (·.1)).Nodup) (sections : Bool)
    (rest : List Char) :
    lexMarkup sections (openTagChars tag attrs id ++ rest) =
      ⟨[.startTag ⟨tag, writtenAttributes attrs id, false⟩], rest⟩ := by
  obtain ⟨c, cs, hname, hc⟩ := isAlpha_of_isTagName htag
  have hread := readTag_append htag hattrs hnodup rest
  have hchars : openTagChars tag attrs id ++ rest =
      '<' :: (tag.toList ++ attributesChars (writtenAttributes attrs id) ++ '>' :: rest) := by
    simp [openTagChars_eq]
  rw [hchars, lexMarkup, if_pos rfl]
  rw [hname] at hread ⊢
  simp only [List.cons_append] at hread ⊢
  simp only [lexTag, hc, if_true, hread]

/-- **An end tag is read back.** -/
theorem lexMarkup_closeTagChars {tag : String} (htag : isTagName tag = true) (sections : Bool)
    (rest : List Char) :
    lexMarkup sections (closeTagChars tag ++ rest) = ⟨[.endTag tag], rest⟩ := by
  obtain ⟨c, cs, hname, hc⟩ := isAlpha_of_isTagName htag
  have hread := @readTag_append tag [] htag (by simp) List.nodup_nil rest
  have hchars : closeTagChars tag ++ rest = '<' :: '/' :: (tag.toList ++ '>' :: rest) := by
    simp [closeTagChars]
  have hslash : Char.isAlpha '/' = false := by decide
  rw [hchars, lexMarkup, if_pos rfl, lexTag, if_neg (by simp [hslash]), if_pos rfl]
  simp only [attributesChars, List.flatMap_nil, List.append_nil] at hread
  rw [hname] at hread ⊢
  simp only [List.cons_append] at hread ⊢
  simp only [lexEndTag, hc, if_true, hread]

/-! ## Comments -/

/-- What was read of the content and is held back, as it may belong to the end of the comment. -/
def CommentPart.pending : CommentPart → List Char
  | .start => []
  | .startDash => ['-']
  | .content => []
  | .dash => ['-']
  | .dashes => ['-', '-']
  | .bang => ['-', '-', '!']

/-- The content of a comment, read from any part behind its start. -/
theorem readCommentFrom_append (rest : List Char) :
    ∀ (s : List Char) (part : CommentPart), part ≠ .start → part ≠ .startDash →
      (∀ c ∈ s, c ≠ '>' ∧ c ≠ '\x00') →
      readCommentFrom part (s ++ "-->".toList ++ rest) = (part.pending ++ s, rest)
  | [], part, hstart, hdash, _ => by
      cases part with
      | start => exact absurd rfl hstart
      | startDash => exact absurd rfl hdash
      | content => simp [readCommentFrom, CommentPart.pending]
      | dash => simp [readCommentFrom, CommentPart.pending, prepend]
      | dashes => simp [readCommentFrom, CommentPart.pending, prepend]
      | bang => simp [readCommentFrom, CommentPart.pending, prepend]
  | c :: s, part, hstart, hdash, h => by
      obtain ⟨⟨hend, hnull⟩, hs⟩ := List.forall_mem_cons.1 h
      have ih := fun part hstart hdash => readCommentFrom_append rest s part hstart hdash hs
      have hc : withoutNull c = c := if_neg hnull
      simp only [List.cons_append]
      cases part with
      | start => exact absurd rfl hstart
      | startDash => exact absurd rfl hdash
      | content =>
        rw [readCommentFrom]
        split
        · next he => rw [ih .dash (by simp) (by simp)]; simp [CommentPart.pending, he]
        · rw [ih .content (by simp) (by simp)]; simp [CommentPart.pending, prepend, hc]
      | dash =>
        rw [readCommentFrom]
        split
        · next he => rw [ih .dashes (by simp) (by simp)]; simp [CommentPart.pending, he]
        · rw [ih .content (by simp) (by simp)]; simp [CommentPart.pending, prepend, hc]
      | dashes =>
        rw [readCommentFrom, if_neg hend]
        split
        · next he => rw [ih .bang (by simp) (by simp)]; simp [CommentPart.pending, he]
        · split
          · next he => rw [ih .dashes (by simp) (by simp)]; simp [CommentPart.pending, prepend, he]
          · rw [ih .content (by simp) (by simp)]; simp [CommentPart.pending, prepend, hc]
      | bang =>
        rw [readCommentFrom, if_neg hend]
        split
        · next he => rw [ih .dash (by simp) (by simp)]; simp [CommentPart.pending, prepend, he]
        · rw [ih .content (by simp) (by simp)]; simp [CommentPart.pending, prepend, hc]

/-- **The comment that carries an identity is read back.** -/
theorem lexMarkup_markerChars {id : String} (h : ∀ c ∈ id.toList, c ≠ '>' ∧ c ≠ '\x00')
    (sections : Bool) (rest : List Char) :
    lexMarkup sections (markerChars id ++ rest) =
      ⟨[.comment (markerStart.toList ++ id.toList)], rest⟩ := by
  have hcontent := readCommentFrom_append rest ('i' :: 'd' :: ':' :: id.toList) .content (by simp)
    (by simp) (by simpa using h)
  simp only [CommentPart.pending, List.nil_append] at hcontent
  have hread : readComment ('n' :: ('i' :: 'd' :: ':' :: id.toList ++ "-->".toList ++ rest)) =
      ('n' :: 'i' :: 'd' :: ':' :: id.toList, rest) := by
    have hn : 'n' ≠ '>' ∧ 'n' ≠ '-' ∧ withoutNull 'n' = 'n' := by decide
    rw [readComment, readCommentFrom, if_neg hn.1, if_neg hn.2.1, hcontent, hn.2.2]
    rfl
  have hchars : markerChars id ++ rest = '<' :: '!' :: '-' :: '-' ::
      ('n' :: ('i' :: 'd' :: ':' :: id.toList ++ "-->".toList ++ rest)) := by
    simp [markerChars, markerStart]
  have hbang : Char.isAlpha '!' = false ∧ '!' ≠ '/' := by decide
  rw [hchars, lexMarkup, if_pos rfl, lexTag, if_neg (by simp [hbang.1]), if_neg hbang.2, if_pos rfl,
    lexDeclaration]
  have hfront : ∀ t, Text.dropFront? "--".toList ('-' :: '-' :: t) = some t := fun _ => rfl
  simp only [hfront, hread]
  rfl

end Pane.Markup
