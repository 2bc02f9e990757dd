import Pane.Proofs.Markup.Source

/-!
# No escape is left early

Whoever writes a text or a value does not know what is in it: what looks like a tag, a quote, a
comment or a reference must come out as it went in, whatever follows.  Two things happen on the way.
Line ends are made uniform before the lexer sees them, also next to what is escaped; and the lexer
takes one stretch after the other, where no stretch may take in what belongs to the next.  (A mark
that a portion starts with is left out before either, so it is taken for granted that there is
none.)

**Line ends.**  `Uniform` — a text with every line end as a single line feed.
`uniform_normalizeNewlines`: that is how it is read.  **`Uniform.eq_iff`**: it is the same text
exactly if there was no carriage return.

**Escapes.**  `KeepsLineEnds` — an escape that leaves line ends as they are.  **`Uniform.escape`**:
it makes no difference whether line ends are made uniform before a text is escaped or afterwards.

**Stretches.**  `Lexed` — the tokens of some stretches of markup.  **`lexed_escapeText`**: of
escaped text they are its characters.

**Result.**  `ReadsWith` — what holds of a stretch that is read, alone or within markup.
**`escapes_are_undone`**.
-/

namespace Pane.Markup

/-! ## Line ends -/

/-- A text, and the same text with each pair of a carriage return and a line feed, and each carriage
return without a line feed behind it, turned into a line feed. -/
inductive Uniform : List Char → List Char → Prop where
  | nil : Uniform [] []
  | pair {s t : List Char} (h : Uniform s t) : Uniform ('\r' :: '\n' :: s) ('\n' :: t)
  | lone {s t : List Char} (hs : s.head? ≠ some '\n') (h : Uniform s t) :
      Uniform ('\r' :: s) ('\n' :: t)
  | other {s t : List Char} {c : Char} (hc : c ≠ '\r') (h : Uniform s t) : Uniform (c :: s) (c :: t)

/-- A text is read with uniform line ends. -/
theorem uniform_normalizeNewlines (s : List Char) : Uniform s (normalizeNewlines s) := by
  fun_induction normalizeNewlines s with
  | case1 => exact .nil
  | case2 s ih => exact .pair ih
  | case3 c s hpair ih =>
    by_cases hc : c = '\r'
    · subst hc
      refine .lone (fun hs => ?_) ih
      obtain ⟨t, rfl⟩ := List.head?_eq_some_iff.1 hs
      exact hpair t rfl rfl
    · rw [if_neg hc]
      exact .other hc ih

/-- Line ends are made uniform in one way. -/
theorem Uniform.eq_normalizeNewlines {s t : List Char} (h : Uniform s t) :
    t = normalizeNewlines s := by
  induction h with
  | nil => rfl
  | pair _ ih => rw [normalizeNewlines, ih]
  | @lone s t hs _ ih =>
    rw [normalizeNewlines, if_pos rfl, ih]
    rintro s' - rfl
    exact hs rfl
  | other hc _ ih =>
    rw [normalizeNewlines, if_neg hc, ih]
    intro s' he
    exact absurd he hc

namespace Uniform

theorem return_not_mem {s t : List Char} (h : Uniform s t) : '\r' ∉ t := by
  induction h with
  | nil => exact List.not_mem_nil
  | pair _ ih => simpa using ih
  | lone _ _ ih => simpa using ih
  | other hc _ ih => simpa using ⟨Ne.symm hc, ih⟩

theorem mem_of_ne_newline {s t : List Char} (h : Uniform s t) {c : Char} (hc : c ≠ '\n') :
    c ∈ t → c ∈ s := by
  induction h with
  | nil => exact id
  | pair _ ih => simpa [hc] using fun hmem => .inr (ih hmem)
  | lone _ _ ih => simpa [hc] using fun hmem => .inr (ih hmem)
  | other _ _ ih => simpa using Or.imp_right ih

/-- **A text is unchanged exactly if there is no carriage return in it.** -/
theorem eq_iff {s t : List Char} (h : Uniform s t) : t = s ↔ '\r' ∉ s := by
  constructor
  · rintro rfl
    exact h.return_not_mem
  · intro hs
    rw [h.eq_normalizeNewlines, normalizeNewlines_eq_self hs]

/-- Line ends are made uniform on either side of a place where none is cut in two. -/
theorem append {front front' s t : List Char} (hfront : Uniform front front')
    (hline : front.getLast? ≠ some '\r') (h : Uniform s t) :
    Uniform (front ++ s) (front' ++ t) := by
  induction hfront with
  | nil => exact h
  | pair _ ih => exact .pair (ih fun hlast => hline (by simp [List.getLast?_cons, hlast]))
  | @lone front front' hnext _ ih =>
    refine .lone ?_ (ih fun hlast => hline (by simp [List.getLast?_cons, hlast]))
    cases front with
    | nil => exact absurd rfl hline
    | cons c front => exact hnext
  | other hc _ ih => exact .other hc (ih fun hlast => hline (by simp [List.getLast?_cons, hlast]))

/-- A text without carriage returns is left as it is in front of another. -/
theorem append_of_no_return {front s t : List Char} (hfront : '\r' ∉ front) (h : Uniform s t) :
    Uniform (front ++ s) (front ++ t) := by
  have hself : Uniform front front := by
    simpa only [normalizeNewlines_eq_self hfront] using uniform_normalizeNewlines front
  exact hself.append (fun hlast => hfront (List.mem_of_getLast? hlast)) h

end Uniform

/-! ## Escapes -/

/-- An escape that writes line ends as they are, and no line end for any other character. -/
structure KeepsLineEnds (escape : Char → List Char) : Prop where
  carriageReturn : escape '\r' = ['\r']
  lineFeed : escape '\n' = ['\n']
  ne_nil : ∀ c, escape c ≠ []
  of_mem : ∀ c, ∀ d ∈ escape c, d = c ∨ d ≠ '\r' ∧ d ≠ '\n'

namespace KeepsLineEnds

variable {escape : Char → List Char}

theorem return_not_mem (h : KeepsLineEnds escape) {c : Char} (hc : c ≠ '\r') : '\r' ∉ escape c := by
  intro hmem
  rcases h.of_mem c _ hmem with rfl | ⟨hreturn, -⟩
  · exact hc rfl
  · exact hreturn rfl

theorem head?_ne (h : KeepsLineEnds escape) {s rest : List Char} (hs : s.head? ≠ some '\n')
    (hrest : rest.head? ≠ some '\n') : (s.flatMap escape ++ rest).head? ≠ some '\n' := by
  cases s with
  | nil => exact hrest
  | cons c s =>
    obtain ⟨d, ds, hd⟩ := List.exists_cons_of_ne_nil (h.ne_nil c)
    have hmem : d ∈ escape c := hd ▸ List.mem_cons_self ..
    rw [List.flatMap_cons, hd]
    intro hhead
    obtain rfl : d = '\n' := Option.some.inj hhead
    rcases h.of_mem c _ hmem with rfl | ⟨-, hfeed⟩
    · exact hs rfl
    · exact hfeed rfl

end KeepsLineEnds

/-- **Line ends can be made uniform before a text is escaped or afterwards**, if what follows does
not start with a line feed. -/
theorem Uniform.escape {escape : Char → List Char} (hescape : KeepsLineEnds escape)
    {s t rest rest' : List Char} (h : Uniform s t) (hrest : Uniform rest rest')
    (hhead : rest.head? ≠ some '\n') :
    Uniform (s.flatMap escape ++ rest) (t.flatMap escape ++ rest') := by
  induction h with
  | nil => exact hrest
  | pair _ ih =>
    simp only [List.flatMap_cons, hescape.carriageReturn, hescape.lineFeed, List.append_assoc]
    exact .pair ih
  | lone hs _ ih =>
    simp only [List.flatMap_cons, hescape.carriageReturn, hescape.lineFeed, List.append_assoc]
    exact .lone (hescape.head?_ne hs hhead) ih
  | other hc _ ih =>
    rw [List.flatMap_cons, List.flatMap_cons, List.append_assoc, List.append_assoc]
    exact ih.append_of_no_return (hescape.return_not_mem hc)

/-- No character of a text without line ends is one. -/
theorem ne_lineEnd_of_mem {s : List Char} (hreturn : '\r' ∉ s) (hfeed : '\n' ∉ s) {d : Char}
    (hd : d ∈ s) : d ≠ '\r' ∧ d ≠ '\n' :=
  ⟨fun he => hreturn (he ▸ hd), fun he => hfeed (he ▸ hd)⟩

theorem keepsLineEnds_escapeTextChar : KeepsLineEnds escapeTextChar where
  carriageReturn := by decide
  lineFeed := by decide
  ne_nil := escapeTextChar_ne_nil
  of_mem _ _ hd := (mem_escapeTextChar hd).imp And.left (ne_lineEnd_of_mem (by decide) (by decide))

theorem keepsLineEnds_escapeAttributeChar : KeepsLineEnds escapeAttributeChar where
  carriageReturn := by decide
  lineFeed := by decide
  ne_nil := escapeAttributeChar_ne_nil
  of_mem _ _ hd :=
    (mem_escapeAttributeChar hd).imp And.left (ne_lineEnd_of_mem (by decide) (by decide))

/-! ## Stretches -/

/-- The tokens of some stretches of markup, and what follows these stretches. -/
inductive Lexed (sections : Bool) : List Char → List Token → List Char → Prop where
  | refl (text : List Char) : Lexed sections text [] text
  | step {text behind rest : List Char} {tokens more : List Token}
      (hlex : lex .markup sections text = ⟨tokens, behind⟩)
      (hmore : Lexed sections behind more rest) : Lexed sections text (tokens ++ more) rest

/-- **The stretches of escaped text are its characters**, whatever follows. -/
theorem lexed_escapeText (sections : Bool) (rest : List Char) : ∀ s : List Char,
    Lexed sections (escapeText s ++ rest) (s.map Token.char) rest
  | [] => .refl rest
  | c :: s => by
      rw [escapeText, List.flatMap_cons, List.append_assoc]
      exact .step (lexMarkup_escapeTextChar sections c _) (lexed_escapeText sections rest s)

/-! ## What is read -/

/-- What holds of a stretch of markup once it is read with uniform line ends, and so within any
markup of which no portion starts with a mark, whatever stands in front, if that does not end in a
carriage return. -/
def ReadsWith (stretch : List Char) (reading : List Char → Prop) : Prop :=
  reading (normalizeNewlines stretch) ∧
    ∀ front : List Char, front.getLast? ≠ some '\r' → Unmarked (front ++ stretch) →
      ∃ here, Source.ofChars (front ++ stretch) = ⟨normalizeNewlines front ++ here, []⟩ ∧
        reading here

/-- A stretch is read within markup as it is read alone. -/
theorem readsWith_of_uniform {stretch here : List Char} {reading : List Char → Prop}
    (hhere : Uniform stretch here) (h : reading here) : ReadsWith stretch reading := by
  refine ⟨hhere.eq_normalizeNewlines ▸ h, fun front hline hmark => ⟨here, ?_, h⟩⟩
  have hwhole := (uniform_normalizeNewlines front).append hline hhere
  rw [ofChars_of_unmarked hmark, ← hwhole.eq_normalizeNewlines]

/-- A value with the quote behind it, whatever follows. -/
theorem Uniform.value {s t rest rest' : List Char} (h : Uniform s t) (hrest : Uniform rest rest') :
    Uniform (escapeAttribute s ++ '"' :: rest) (escapeAttribute t ++ '"' :: rest') :=
  h.escape keepsLineEnds_escapeAttributeChar (.other (by decide) hrest) (by simp)

/-- A text with a tag behind it, whatever follows. -/
theorem Uniform.text {s t rest rest' : List Char} (h : Uniform s t) (hrest : Uniform rest rest') :
    Uniform (escapeText s ++ '<' :: rest) (escapeText t ++ '<' :: rest') :=
  h.escape keepsLineEnds_escapeTextChar (.other (by decide) hrest) (by simp)

theorem return_not_mem_of_isAttributeName {name : String} (h : isAttributeName name = true) :
    '\r' ∉ name.toList := by
  simp only [isAttributeName, Bool.and_eq_true] at h
  exact Text.not_mem_of_all h.1.2 (by decide)

/-- **What is escaped is read back with uniform line ends, whatever it is and whatever follows**, be
it alone or within markup of which no portion starts with a mark.  A value ends at the quote behind
it, alone as well as in an attribute that is written, and in front of a tag a text is nothing but
its characters. -/
theorem escapes_are_undone (v : String) (hnull : '\x00' ∉ v.toList) :
    ∃ w : String, Uniform v.toList w.toList ∧ (w = v ↔ '\r' ∉ v.toList) ∧
      ∀ rest rest' : List Char, Uniform rest rest' →
        ReadsWith ('"' :: escapeAttribute v.toList ++ '"' :: rest)
            (fun s => readValue? s = some (w, rest')) ∧
          (∀ name fuel, isAttributeName name = true →
            ReadsWith (attributeChars name v ++ rest) fun s =>
              readAttributes (fuel + 2) s = (readAttributes fuel rest').map (TagRest.cons name w)) ∧
          ∀ sections, ReadsWith (escapeText v.toList ++ '<' :: rest) fun s =>
            Lexed sections s (w.toList.map Token.char) ('<' :: rest') := by
  obtain ⟨w, hw⟩ : ∃ w : String, Uniform v.toList w.toList := by
    refine ⟨String.ofList (normalizeNewlines v.toList), ?_⟩
    rw [String.toList_ofList]
    exact uniform_normalizeNewlines v.toList
  have hnull' : '\x00' ∉ w.toList := fun hmem => hnull (hw.mem_of_ne_newline (by decide) hmem)
  refine ⟨w, hw, ?_, fun rest rest' hrest => ⟨?_, fun name fuel hname => ?_, fun sections => ?_⟩⟩
  · rw [← hw.eq_iff, String.toList_inj]
  · have hread : Uniform ('"' :: escapeAttribute v.toList ++ '"' :: rest)
        ('"' :: escapeAttribute w.toList ++ '"' :: rest') := .other (by decide) (hw.value hrest)
    exact readsWith_of_uniform hread (readValue?_escapeAttribute hnull' rest')
  · have hfront : '\r' ∉ ' ' :: name.toList ++ ['=', '"'] := by
      simp [return_not_mem_of_isAttributeName hname]
    have hchars : ∀ (u : String) (behind : List Char), attributeChars name u ++ behind =
        ' ' :: name.toList ++ ['=', '"'] ++ (escapeAttribute u.toList ++ '"' :: behind) := by
      intro u behind
      simp [attributeChars]
    have hread := (hw.value hrest).append_of_no_return hfront
    rw [← hchars, ← hchars] at hread
    exact readsWith_of_uniform hread (readAttributes_attributeChars hname hnull' ..)
  · exact readsWith_of_uniform (hw.text hrest) (lexed_escapeText sections ('<' :: rest') w.toList)

/-- Line ends next to escapes, and a text that looks like a reference: the value alone, and in a
tag. -/
theorem lines_between_references_come_back :
    '\x00' ∉ "\r\n<\r&lt;\"".toList ∧
      readValue? (normalizeNewlines "\"\r\n&lt;\r&amp;lt;&quot;\" alt=\"\">".toList) =
        some ("\n<\n&lt;\"", " alt=\"\">".toList) ∧
      ∃ here, Source.ofChars "<img title=\"\r\n&lt;\r&amp;lt;&quot;\" alt=\"\">".toList =
          ⟨"<img title=".toList ++ here, []⟩ ∧
        readValue? here = some ("\n<\n&lt;\"", " alt=\"\">".toList) := by
  have hnull : '\x00' ∉ "\r\n<\r&lt;\"".toList := by decide
  obtain ⟨w, hw, -, hread⟩ := escapes_are_undone _ hnull
  obtain rfl : w = "\n<\n&lt;\"" := String.toList_inj.1 hw.eq_normalizeNewlines
  have hvalue := (hread _ _ (uniform_normalizeNewlines " alt=\"\">".toList)).1
  have hmark : Unmarked "<img title=\"\r\n&lt;\r&amp;lt;&quot;\" alt=\"\">".toList :=
    unmarked_of_not_mem (by decide)
  exact ⟨hnull, hvalue.1, hvalue.2 "<img title=".toList (by decide) hmark⟩

end Pane.Markup
