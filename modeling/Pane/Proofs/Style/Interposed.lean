import Pane.Proofs.Style.Rewritten

/-!
# Comments between items

A comment between two items is to change nothing.  Comments are taken out before a sheet is cut,
however, by a reader to which a backslash means something in strings only, while the outline takes
the character behind any backslash as it is.  So where the outline starts anew, the reader of
comments need not be outside: behind `.a\"` with its block it is in a string that it took the quote
to open, it keeps the comment, and the next item gets it for the start of its prelude.

**Where an item ends.**  `Reading.quoting_after` — no string is open to the outline there;
`uncommented_append_of_start` — no comment begins between two items.

**Taking out.**  `stripFrom_comment` — a comment up to its end; `stripFrom_interposed` — a comment
behind a text that the reader of comments leaves outside.  `stripFrom_kept` — behind any other text
it is kept.

**Result.**  **`comment_between_items_is_passed_over`** — the items of two texts, and the texts
behind which comments are passed over.  **`comment_behind_escaped_quote_is_kept`** — one that is
not.
-/

namespace Pane.Style

/-! ## Where an item ends -/

namespace Reading

theorem quoting_after (r : Reading) (s : List Char) : (r.after s).quoting = r.quoting.after s := by
  induction s generalizing r with
  | nil => rfl
  | cons c s ih => exact (ih (r.next c).1).trans (congrArg (·.after s) (r.quoting_next c))

/-- A piece is completed by a semicolon or a brace. -/
theorem end_of_next_eq_start {r : Reading} {c : Char} (h : (r.next c).1 = .start) :
    c = ';' ∨ c = '}' := by
  cases r with
  | inPrelude seen standing =>
    rw [next] at h
    split at h
    · next hc => exact .inl hc.2
    · split at h <;> cases h
  | inBody prelude seen quoting depth =>
    by_cases hclose : quoting = .plain ∧ c = '}'
    · exact .inr hclose.2
    · simp only [next, if_neg hclose] at h
      cases h

theorem end_of_after_eq_start {s : List Char} (h : start.after s = .start) :
    ∀ c ∈ s.getLast?, c = ';' ∨ c = '}' := by
  intro c hc
  obtain ⟨front, rfl⟩ := List.getLast?_eq_some_iff.1 hc
  rw [after, List.foldl_append] at h
  exact end_of_next_eq_start h

end Reading

section item

variable {s t : List Char}

/-- No comment begins between an item and what follows it. -/
theorem uncommented_append_of_start (hs : Uncommented s) (ht : Uncommented t)
    (hstart : Reading.start.after s = .start) : Uncommented (s ++ t) := by
  refine List.IsChain.append hs ht fun c hc d _ hslash => ?_
  rcases Reading.end_of_after_eq_start hstart c hc with rfl | rfl <;> simp at hslash

/-- Where the outline starts anew, the reader of comments is outside, if every quote counts. -/
theorem commentless_of_after_eq_start (hs : Uncommented s) (hstart : Reading.start.after s = .start)
    (hquotes : QuotesCount .plain s) : Commentless s := by
  have hplain : Quoting.plain.after s = .plain := by
    have hquoting := Reading.start.quoting_after s
    rw [hstart] at hquoting
    exact hquoting.symm
  exact commentless_of_quotesCount hquotes hplain hs

end item

/-! ## Taking out -/

/-- **A comment is taken out up to its end**, which is the first `*/` in it. -/
theorem stripFrom_comment {c : List Char} (hc : ¬"*/".toList <:+: c) (t : List Char) :
    stripFrom .comment (c ++ '*' :: '/' :: t) = stripFrom .outside t := by
  induction c with
  | nil => rfl
  | cons d c ih =>
    have hrest : ¬"*/".toList <:+: c := fun h => hc (List.infix_cons h)
    rw [List.cons_append, stripFrom]
    · exact ih hrest
    · -- an earlier end would lie within the comment
      rintro cs rfl hcs
      cases c with
      | nil => cases hcs
      | cons e c =>
        obtain ⟨rfl, -⟩ := List.cons.inj hcs
        exact hc (List.IsPrefix.isInfix ⟨c, rfl⟩)

section taking

variable {s : List Char}

/-- **A comment behind a text that leaves the reader outside** is taken out, and nothing else. -/
theorem stripFrom_interposed (hs : Commentless s) {c : List Char} (hc : ¬"*/".toList <:+: c)
    {t : List Char} (ht : Uncommented t) :
    stripFrom .outside (s ++ '/' :: '*' :: (c ++ '*' :: '/' :: t)) = s ++ t := by
  have hkeeps : (Commenting.outside.after s).Keeps ('/' :: '*' :: (c ++ '*' :: '/' :: t)) := by
    rcases hs with h | h <;> rw [h] <;> simp [Commenting.Keeps]
  have hstate : (Commenting.outside.after s).state = .outside := by
    rcases hs with h | h <;> rw [h] <;> rfl
  rw [(stripFrom_append s _).1 hkeeps, hstate, stripFrom, stripFrom_comment hc,
    stripFrom_eq_self ht (by simp)]

/-- No comment has begun, and a string that is open was opened by a quote. -/
def Commenting.Proper : Commenting → Prop
  | .quoted q | .quotedEscaped q => q = '"' ∨ q = '\''
  | .begun => False
  | _ => True

theorem Commenting.Proper.next {state : Commenting} (h : state.Proper) {c : Char}
    (hstar : state = .slash → c ≠ '*') : (state.next c).Proper := by
  have hopened : (Commenting.opened c).Proper := by
    rw [Commenting.opened]
    split
    · trivial
    · split
      · next hmark =>
        rw [Bool.or_eq_true, decide_eq_true_eq, decide_eq_true_eq] at hmark
        exact hmark
      · trivial
  cases state with
  | outside => exact hopened
  | slash =>
    rw [Commenting.next, if_neg (hstar rfl)]
    exact hopened
  | quoted q =>
    rw [Commenting.next]
    split
    · exact h
    · split
      · trivial
      · exact h
  | quotedEscaped q => exact h
  | begun => exact h.elim

/-- Behind a text without `/*` a reader is outside or in a string. -/
theorem Commenting.Proper.after {state : Commenting} (h : state.Proper) (hs : Uncommented s)
    (hstar : state = .slash → s.head? ≠ some '*') : (state.after s).Proper := by
  induction s generalizing state with
  | nil => exact h
  | cons c s ih =>
    have hnext : (state.next c).Proper := h.next fun hslash hc => hstar hslash (congrArg some hc)
    exact ih hnext hs.tail (Commenting.head?_ne_star hs)

/-- In a string a reader stays as long as there is neither a quote nor a backslash. -/
theorem Commenting.after_of_quoted {q : Char} (hq : q = '"' ∨ q = '\'') {t : List Char}
    (ht : ∀ c ∈ t, c ∉ ['\\', '"', '\'']) {state : Commenting}
    (hstate : state = .quoted q ∨ state = .quotedEscaped q) :
    state.after t = .quoted q ∨ state.after t = .quotedEscaped q := by
  induction t generalizing state with
  | nil => exact hstate
  | cons c t ih =>
    obtain ⟨hc, ht⟩ := List.forall_mem_cons.1 ht
    simp only [List.mem_cons, List.not_mem_nil, or_false, not_or] at hc
    refine ih ht (.inl ?_)
    rcases hstate with rfl | rfl
    · rcases hq with rfl | rfl <;> simp [next, hc]
    · rfl

/-- **A comment behind any other text is kept**, whatever follows without a quote and a
backslash. -/
theorem stripFrom_kept (hs : Uncommented s) (h : ¬Commentless s) {t : List Char}
    (ht : ∀ c ∈ t, c ∉ ['\\', '"', '\'']) : stripFrom .outside (s ++ t) = s ++ t := by
  have hproper : (Commenting.outside.after s).Proper := by
    have houtside : Commenting.outside.Proper := trivial
    exact houtside.after hs (by simp)
  refine stripFrom_eq_of_after ?_
  rw [Commenting.after_append]
  rw [Commentless] at h
  generalize Commenting.outside.after s = state at h hproper
  have hends : ∀ q, q = '"' ∨ q = '\'' → (state = .quoted q ∨ state = .quotedEscaped q) →
      state.after t ≠ .begun := by
    intro q hq hstate
    rcases Commenting.after_of_quoted hq ht hstate with he | he <;> rw [he] <;> simp
  cases state with
  | outside => exact absurd (.inl rfl) h
  | slash => exact absurd (.inr rfl) h
  | quoted q => exact hends q hproper (.inl rfl)
  | quotedEscaped q => exact hends q hproper (.inr rfl)
  | begun => exact hproper.elim

end taking

/-! ## Comments between items -/

section reading

variable {s : List Char}

theorem items_readChars (hs : Uncommented s) : (Sheet.readChars s).items = readItems s := by
  rw [Sheet.readChars, stripComments, stripFrom_eq_self hs (by simp)]

theorem items_readChars_append {t : List Char} (hs : Uncommented s) (ht : Uncommented t)
    (hstart : Reading.start.after s = .start) :
    (Sheet.readChars (s ++ t)).items = (Sheet.readChars s).items ++ (Sheet.readChars t).items := by
  rw [items_readChars (uncommented_append_of_start hs ht hstart), items_readChars hs,
    items_readChars ht, readItems_append t hstart]

/-- An empty comment that is kept in front of a rule becomes a part of its selector. -/
theorem readChars_kept_ne (hs : Uncommented s) (hstart : Reading.start.after s = .start)
    (hnot : ¬Commentless s) : Sheet.readChars (s ++ "/**/.x\x7by:z\x7d".toList) ≠
      Sheet.readChars (s ++ ".x\x7by:z\x7d".toList) := by
  have hmarks : ("/**/.x\x7by:z\x7d".toList.all fun c => c ∉ ['\\', '"', '\'']) = true := by decide
  have hkept : (Sheet.readChars (s ++ "/**/.x\x7by:z\x7d".toList)).items =
      readItems s ++ readItems "/**/.x\x7by:z\x7d".toList := by
    have hquiet := fun c hc => of_decide_eq_true (List.all_eq_true.1 hmarks c hc)
    rw [Sheet.readChars, stripComments, stripFrom_kept hs hnot hquiet, readItems_append _ hstart]
  have hrule : Uncommented ".x\x7by:z\x7d".toList := uncommented_iff.2 (by decide)
  intro h
  have hsame := congrArg Sheet.items h
  rw [hkept, items_readChars_append hs hrule hstart, items_readChars hs,
    items_readChars hrule] at hsame
  have hne : readItems "/**/.x\x7by:z\x7d".toList ≠ readItems ".x\x7by:z\x7d".toList := by
    decide
  exact hne (List.append_cancel_left hsame)

end reading

/-- **Comments between items.**  Take a text without `/*` behind which the outline starts anew, so
that it ends with the semicolon or the brace of its last piece, and another text without `/*` behind
it.

The items of both are those of the first and then those of the second.  A comment between them is
passed over, whatever the comment and the second text are, exactly if the first text leaves the
reader of comments outside; and it does if none of its quotes stands behind a backslash outside
strings. -/
theorem comment_between_items_is_passed_over {a : String} (ha : ¬"/*".toList <:+: a.toList)
    (hstart : Reading.start.after a.toList = .start) :
    (∀ b : String, ¬"/*".toList <:+: b.toList →
        (Sheet.read (a ++ b)).items = (Sheet.read a).items ++ (Sheet.read b).items) ∧
      ((∀ c b : String, ¬"*/".toList <:+: c.toList → ¬"/*".toList <:+: b.toList →
          Sheet.read (a ++ "/*" ++ c ++ "*/" ++ b) = Sheet.read (a ++ b)) ↔
        Commentless a.toList) ∧
      (QuotesCount .plain a.toList → Commentless a.toList) := by
  have hs : Uncommented a.toList := uncommented_iff.2 ha
  have hinterposed : ∀ c b : String, (a ++ "/*" ++ c ++ "*/" ++ b).toList =
      a.toList ++ '/' :: '*' :: (c.toList ++ '*' :: '/' :: b.toList) := by
    intro c b
    simp
  refine ⟨fun b hb => ?_, ⟨fun hpassed => ?_, fun hcommentless c b hc hb => ?_⟩,
    commentless_of_after_eq_start hs hstart⟩
  · rw [Sheet.read, String.toList_append]
    exact items_readChars_append hs (uncommented_iff.2 hb) hstart
  · refine Classical.byContradiction fun hnot => readChars_kept_ne hs hstart hnot ?_
    have hsame := hpassed "" ".x\x7by:z\x7d" (by decide) (by decide)
    rwa [Sheet.read, Sheet.read, hinterposed, String.toList_append] at hsame
  · have ht : Uncommented b.toList := uncommented_iff.2 hb
    have hboth : stripFrom .outside (a.toList ++ b.toList) = a.toList ++ b.toList :=
      stripFrom_eq_self (uncommented_append_of_start hs ht hstart) (by simp)
    rw [Sheet.read, Sheet.read, hinterposed, String.toList_append, Sheet.readChars, Sheet.readChars,
      stripComments, stripComments, stripFrom_interposed hcommentless hc ht, hboth]

/-- A comment that holds a brace and a quote, behind a string and a class name with escapes. -/
theorem comment_behind_escapes_is_passed_over :
    let a := "@import \"a\\\"b\";.c\\:d\x7be:\"\x7d\"\x7d"
    let b := ".f\x7bg:h\x7d"
    ¬"/*".toList <:+: a.toList ∧ Reading.start.after a.toList = .start ∧
      Sheet.read (a ++ "/*" ++ "\x7d \"" ++ "*/" ++ b) = Sheet.read (a ++ b) ∧
      (Sheet.read (a ++ b)).items = (Sheet.read a).items ++ (Sheet.read b).items := by
  intro a b
  have ha : ¬"/*".toList <:+: a.toList := by decide
  have hb : ¬"/*".toList <:+: b.toList := by decide
  have hstart : Reading.start.after a.toList = .start := by decide
  obtain ⟨hitems, hpassed, hcommentless⟩ := comment_between_items_is_passed_over ha hstart
  have hquotes : QuotesCount .plain a.toList := by decide
  exact ⟨ha, hstart, hpassed.2 (hcommentless hquotes) _ b (by decide) hb, hitems b hb⟩

/-- A quote behind a backslash opens a string to the reader of comments and to no other: the comment
behind `.a\"` with its block is kept, and goes into the selector of the next rule. -/
theorem comment_behind_escaped_quote_is_kept :
    ¬∀ a c b : String, ¬"/*".toList <:+: a.toList → Reading.start.after a.toList = .start →
      ¬"*/".toList <:+: c.toList → ¬"/*".toList <:+: b.toList →
      Sheet.read (a ++ "/*" ++ c ++ "*/" ++ b) = Sheet.read (a ++ b) := by
  intro h
  have hsame := h ".a\\\"\x7bb:c\x7d" "x" ".d\x7be:f\x7d" (by decide) (by decide)
    (by decide) (by decide)
  have hne : Sheet.read (".a\\\"\x7bb:c\x7d" ++ "/*" ++ "x" ++ "*/" ++ ".d\x7be:f\x7d") ≠
      Sheet.read (".a\\\"\x7bb:c\x7d" ++ ".d\x7be:f\x7d") := by
    decide
  exact hne hsame

end Pane.Style
