import Pane.Proofs.Style.ReadBack

/-!
# Texts that keep to themselves

A rule is written into a sheet next to others, and what it is written as may hold anything: strings,
braces, backslashes.  It does no harm to its neighbours if each reader of the sheet stands behind
the rule where it stood in front of it.  There are three: comments are taken out, the outline is
cut, and the body of a group is cut once more.  A text of a block is *contained* if it closes the
strings, braces and comments that it opens, by the rules of each reader.

**Comments.**  `Commenting` — where a reader stands that only seeks the start of a comment;
**`stripFrom_append`** — as long as none begins, nothing is taken out.  `Alike` — that reader heeds
the strings that the other readers do, unless a quote outside strings stands behind a backslash:
**`Alike.after`**.  `commentless_of_closed` — no comment begins in a text without `/*` that closes
its strings.

**Braces.**  `Balanced` — the braces of a text are paired; **`Balanced.enclosed`**.  `Unbraced` — no
brace counts at all.

**Rules.**  `ContainedSelector`, `ContainedBlock`, `Rule.Contained`.  `Item.OfRules.after_chars` and
`Item.OfRules.commenting` — behind an item of contained rules every reader is where it was.
**`read_render_of_contained`** — a sheet of such items is read item by item.

**Plain texts.**  `PlainText` — a text without backslashes, braces, quotes and comments.
**`PlainText.containedBlock`** — it is a contained block.
-/

namespace Pane.Style

/-! ## Comments -/

/-- Where the next character stands while the start of a comment is sought. -/
inductive Commenting where
  | outside
  /-- Outside strings, behind a slash. -/
  | slash
  | quoted (quote : Char)
  | quotedEscaped (quote : Char)
  /-- Behind the start of a comment. -/
  | begun
  deriving DecidableEq, Repr

namespace Commenting

/-- The state behind a character that stands outside strings. -/
def opened (c : Char) : Commenting :=
  if c = '/' then .slash else if c = '"' || c = '\'' then .quoted c else .outside

/-- One character further: a slash and a star begin a comment outside strings, and one that has
begun goes on. -/
def next : Commenting → Char → Commenting
  | .outside, c => opened c
  | .slash, c => if c = '*' then .begun else opened c
  | .quoted q, c => if c = '\\' then .quotedEscaped q else if c = q then .outside else .quoted q
  | .quotedEscaped q, _ => .quoted q
  | .begun, _ => .begun

/-- What a text leads to. -/
def after (state : Commenting) (s : List Char) : Commenting := s.foldl next state

theorem after_cons (state : Commenting) (c : Char) (s : List Char) :
    state.after (c :: s) = (state.next c).after s := rfl

theorem after_append (state : Commenting) (s t : List Char) :
    state.after (s ++ t) = (state.after s).after t :=
  List.foldl_append

/-- Only a slash may be the first half of a mark. -/
theorem eq_slash_of_next {state : Commenting} {c : Char} (h : state.next c = .slash) : c = '/' := by
  have hopened : opened c = .slash → c = '/' := by
    intro h
    rw [opened] at h
    split at h
    · assumption
    · split at h <;> cases h
  cases state with
  | outside => exact hopened h
  | slash =>
    rw [next] at h
    split at h
    · cases h
    · exact hopened h
  | quoted q =>
    rw [next] at h
    split at h
    · cases h
    · split at h <;> cases h
  | quotedEscaped q => cases h
  | begun => cases h

/-- Behind a slash outside strings a text without `/*` goes on with another character than a
star. -/
theorem head?_ne_star {state : Commenting} {c : Char} {s : List Char} (hs : Uncommented (c :: s))
    (h : state.next c = .slash) : s.head? ≠ some '*' := by
  intro hhead
  obtain ⟨s, rfl⟩ : ∃ t, s = '*' :: t := List.head?_eq_some_iff.1 hhead
  exact (List.isChain_cons_cons.1 hs).1 ⟨eq_slash_of_next h, rfl⟩

/-- A comment that has begun has begun for good. -/
theorem begun_after (s : List Char) : begun.after s = .begun := by
  induction s with
  | nil => rfl
  | cons c s ih => exact ih

/-- Behind plain characters a reader outside strings is still there. -/
theorem after_of_not_mem {s : List Char} (hs : ∀ c ∈ s, c ∉ ['/', '"', '\'']) :
    outside.after s = .outside := by
  induction s with
  | nil => rfl
  | cons c s ih =>
    obtain ⟨hc, hs⟩ := List.forall_mem_cons.1 hs
    have hnext : outside.next c = .outside := by
      simp only [List.mem_cons, List.not_mem_nil, or_false, not_or] at hc
      simp [next, opened, hc]
    rw [after_cons, hnext, ih hs]

end Commenting

/-- The state in which the text that follows is stripped. -/
def Commenting.state : Commenting → CommentState
  | .outside | .slash => .outside
  | .quoted q => .quoted q
  | .quotedEscaped q => .quotedEscaped q
  | .begun => .comment

/-- No comment has begun, and none begins with what follows. -/
def Commenting.Keeps (state : Commenting) (t : List Char) : Prop :=
  state ≠ .begun ∧ (state = .slash → t.head? ≠ some '*')

/-- **As long as no comment begins, nothing is taken out** of a text in front of another. -/
theorem stripFrom_append (s t : List Char) :
    ((Commenting.outside.after s).Keeps t →
        stripFrom .outside (s ++ t) = s ++ stripFrom (Commenting.outside.after s).state t) ∧
      ((Commenting.slash.after s).Keeps t →
        stripFrom .outside ('/' :: (s ++ t)) =
          '/' :: (s ++ stripFrom (Commenting.slash.after s).state t)) ∧
      ∀ q, (((Commenting.quoted q).after s).Keeps t →
          stripFrom (.quoted q) (s ++ t) = s ++ stripFrom ((Commenting.quoted q).after s).state t) ∧
        (((Commenting.quotedEscaped q).after s).Keeps t →
          stripFrom (.quotedEscaped q) (s ++ t) =
            s ++ stripFrom ((Commenting.quotedEscaped q).after s).state t) := by
  induction s with
  | nil =>
    refine ⟨fun _ => rfl, fun h => ?_, fun q => ⟨fun _ => rfl, fun _ => rfl⟩⟩
    show stripFrom .outside ('/' :: t) = '/' :: stripFrom .outside t
    rw [stripFrom]
    · rfl
    · rintro cs - rfl
      exact h.2 rfl rfl
  | cons c s ih =>
    obtain ⟨houtside, hslash, hquoted⟩ := ih
    -- a character that stands outside strings and does not complete the start of a comment
    have hopened : ((Commenting.opened c).after s).Keeps t →
        stripFrom .outside (c :: (s ++ t)) =
          c :: (s ++ stripFrom ((Commenting.opened c).after s).state t) := by
      intro h
      by_cases hc : c = '/'
      · subst hc
        exact hslash h
      · rw [stripFrom]
        · by_cases hq : c = '"' ∨ c = '\''
          · have hopen : Commenting.opened c = .quoted c := by simp [Commenting.opened, hc, hq]
            rw [hopen] at h ⊢
            simp [hq, (hquoted c).1 h]
          · have hopen : Commenting.opened c = .outside := by simp [Commenting.opened, hc, hq]
            rw [hopen] at h ⊢
            simp [hq, houtside h]
        · rintro cs rfl
          exact absurd rfl hc
    refine ⟨hopened, fun h => ?_, fun q => ⟨fun h => ?_, fun h => ?_⟩⟩
    · rw [Commenting.after_cons, Commenting.next] at h ⊢
      by_cases hc : c = '*'
      · rw [if_pos hc, Commenting.begun_after] at h
        exact absurd rfl h.1
      · rw [if_neg hc] at h ⊢
        rw [List.cons_append, stripFrom]
        · simp [hopened h]
        · rintro cs - hcs
          exact hc (List.cons.inj hcs).1
    · rw [Commenting.after_cons, Commenting.next] at h ⊢
      rw [List.cons_append, stripFrom]
      by_cases hback : c = '\\'
      · rw [if_pos hback] at h
        rw [if_pos hback, if_pos hback, (hquoted q).2 h, List.cons_append]
      · rw [if_neg hback] at h
        rw [if_neg hback, if_neg hback]
        by_cases hc : c = q
        · rw [if_pos hc] at h
          rw [if_pos hc, if_pos hc, houtside h, List.cons_append]
        · rw [if_neg hc] at h
          rw [if_neg hc, if_neg hc, (hquoted q).1 h, List.cons_append]
    · rw [List.cons_append, stripFrom, (hquoted q).1 h]
      rfl

/-- Where none begins, nothing is stripped. -/
theorem stripFrom_eq_of_after {s : List Char} (h : Commenting.outside.after s ≠ .begun) :
    stripFrom .outside s = s := by
  have hkeeps : (Commenting.outside.after s).Keeps [] := ⟨h, fun _ => by simp⟩
  simpa [stripFrom] using (stripFrom_append s []).1 hkeeps

/-- A text in which no comment begins, with its strings closed. -/
def Commentless (s : List Char) : Prop :=
  Commenting.outside.after s = .outside ∨ Commenting.outside.after s = .slash

instance (s : List Char) : Decidable (Commentless s) := inferInstanceAs (Decidable (_ ∨ _))

/-! ## Strings as two readers see them -/

/-- The standing behind a text. -/
def Quoting.after (quoting : Quoting) (s : List Char) : Quoting := s.foldl next quoting

/-- The strings of a nesting are read without its brackets. -/
theorem Nesting.quoting_after (n : Nesting) (s : List Char) :
    (n.after s).quoting = n.quoting.after s := by
  induction s generalizing n with
  | nil => rfl
  | cons c s ih => exact ih (n.next c)

/-- Every quote of a text counts, read from the given standing: outside strings none stands behind a
backslash. -/
def QuotesCount : Quoting → List Char → Prop
  | _, [] => True
  | quoting, c :: cs =>
    ¬(quoting = .escaped ∧ (c = '"' ∨ c = '\'')) ∧ QuotesCount (quoting.next c) cs

instance decidableQuotesCount : ∀ (quoting : Quoting) (s : List Char),
    Decidable (QuotesCount quoting s)
  | _, [] => inferInstanceAs (Decidable True)
  | quoting, c :: cs =>
    have := decidableQuotesCount (quoting.next c) cs
    inferInstanceAs (Decidable (_ ∧ QuotesCount (quoting.next c) cs))

/-- Quotes count where there is no backslash. -/
theorem quotesCount_of_not_mem {s : List Char} (hback : '\\' ∉ s) {quoting : Quoting}
    (hquoting : quoting ≠ .escaped) : QuotesCount quoting s := by
  induction s generalizing quoting with
  | nil => trivial
  | cons c s ih =>
    rw [List.mem_cons, not_or] at hback
    refine ⟨fun h => hquoting h.1, ih hback.2 ?_⟩
    cases quoting with
    | plain =>
      rw [Quoting.next, if_neg (Ne.symm hback.1)]
      split <;> simp
    | escaped => exact absurd rfl hquoting
    | quoted q =>
      rw [Quoting.next, if_neg (Ne.symm hback.1)]
      split <;> simp
    | quotedEscaped q => simp [Quoting.next]

/-- A reader that seeks comments is in a string exactly if one is that heeds backslashes
everywhere. -/
inductive Alike : Commenting → Quoting → Prop
  | outside : Alike .outside .plain
  | slash : Alike .slash .plain
  | escaped : Alike .outside .escaped
  | quoted (q : Char) : Alike (.quoted q) (.quoted q)
  | quotedEscaped (q : Char) : Alike (.quotedEscaped q) (.quotedEscaped q)

namespace Alike

variable {state : Commenting} {quoting : Quoting}

/-- Outside strings the readers differ in what a backslash does to a quote behind it, and in nothing
else. -/
theorem opened {c : Char} (hquoting : quoting = .plain ∨ quoting = .escaped)
    (hquote : ¬(quoting = .escaped ∧ (c = '"' ∨ c = '\''))) :
    Alike (Commenting.opened c) (quoting.next c) := by
  by_cases hslash : c = '/'
  · subst hslash
    rcases hquoting with rfl | rfl <;> exact .slash
  · rcases hquoting with rfl | rfl
    · by_cases hback : c = '\\'
      · subst hback
        exact .escaped
      · by_cases hmark : c = '"' ∨ c = '\''
        · simpa [Commenting.opened, Quoting.next, hslash, hback, hmark] using Alike.quoted c
        · simpa [Commenting.opened, Quoting.next, hslash, hback, hmark] using Alike.outside
    · have hmark : ¬(c = '"' ∨ c = '\'') := fun h => hquote ⟨rfl, h⟩
      simpa [Commenting.opened, Quoting.next, hslash, hmark] using Alike.outside

/-- **One character.** -/
theorem next (h : Alike state quoting) {c : Char}
    (hquote : ¬(quoting = .escaped ∧ (c = '"' ∨ c = '\'')))
    (hstar : state = .slash → c ≠ '*') : Alike (state.next c) (quoting.next c) := by
  cases h with
  | outside => exact opened (.inl rfl) hquote
  | slash =>
    rw [Commenting.next, if_neg (hstar rfl)]
    exact opened (.inl rfl) hquote
  | escaped => exact opened (.inr rfl) hquote
  | quoted q =>
    rw [Commenting.next, Quoting.next]
    by_cases hback : c = '\\'
    · rw [if_pos hback, if_pos hback]
      exact .quotedEscaped q
    · rw [if_neg hback, if_neg hback]
      split
      · exact .outside
      · exact .quoted q
  | quotedEscaped q => exact .quoted q

/-- **A text.**  Two readers that are alike stay alike, as long as every quote counts and no comment
begins. -/
theorem after {s : List Char} (h : Alike state quoting) (hquotes : QuotesCount quoting s)
    (hs : Uncommented s) (hstar : state = .slash → s.head? ≠ some '*') :
    Alike (state.after s) (quoting.after s) := by
  induction s generalizing state quoting with
  | nil => exact h
  | cons c s ih =>
    have hnext : Alike (state.next c) (quoting.next c) :=
      h.next hquotes.1 fun hslash hc => hstar hslash (congrArg some hc)
    exact ih hnext hquotes.2 hs.tail (Commenting.head?_ne_star hs)

end Alike

/-- A text whose quotes all count, with its strings closed, is commentless if no comment begins in
it. -/
theorem commentless_of_quotesCount {s : List Char} (hquotes : QuotesCount .plain s)
    (hplain : Quoting.plain.after s = .plain) (h : Uncommented s) : Commentless s := by
  have halike : Alike (Commenting.outside.after s) .plain := by
    have hends := Alike.outside.after hquotes h (by simp)
    rwa [hplain] at hends
  rw [Commentless]
  revert halike
  generalize Commenting.outside.after s = state
  intro halike
  cases halike with
  | outside => exact .inl rfl
  | slash => exact .inr rfl

/-- **A text that closes its strings is commentless** if no comment begins in it. -/
theorem commentless_of_closed {s : List Char} (hback : '\\' ∉ s)
    (hplain : (Nesting.top.after s).quoting = .plain) (h : Uncommented s) : Commentless s := by
  rw [Nesting.quoting_after] at hplain
  exact commentless_of_quotesCount (quotesCount_of_not_mem hback (by simp)) hplain h

/-- In front of a character that belongs to no comment and no string a commentless text leads back
to where no string and no comment is. -/
theorem Commentless.append_cons {s : List Char} (h : Commentless s) {c : Char}
    (hc : c ∉ ['/', '*', '"', '\'']) (t : List Char) :
    Commenting.outside.after (s ++ c :: t) = Commenting.outside.after t := by
  simp only [List.mem_cons, List.not_mem_nil, or_false, not_or] at hc
  have hopened : Commenting.opened c = .outside := by simp [Commenting.opened, hc]
  rw [Commenting.after_append, Commenting.after_cons]
  rcases h with h | h <;> rw [h] <;> simp [Commenting.next, hopened, hc]

/-! ## Braces -/

/-- Whether the braces of a text are paired, some being open in front of it, and its strings and
escapes are closed. -/
def balancedFrom : Quoting → Nat → List Char → Bool
  | quoting, depth, [] => quoting = .plain && depth = 0
  | quoting, depth, c :: cs =>
    if quoting = .plain ∧ c = '}' then
      decide (0 < depth) && balancedFrom (quoting.next c) (depth - 1) cs
    else balancedFrom (quoting.next c) (if quoting = .plain ∧ c = '{' then depth + 1 else depth) cs

/-- A block text whose braces are paired and whose strings are closed. -/
def Balanced (s : List Char) : Prop := balancedFrom .plain 0 s = true

instance (s : List Char) : Decidable (Balanced s) := inferInstanceAs (Decidable (_ = _))

/-- The front of a text with its braces in pairs completes no piece, and the braces that are open
behind it are paired in the rest. -/
theorem passes_of_balancedFrom {s t : List Char} {quoting : Quoting} {depth : Nat}
    (h : balancedFrom quoting depth (s ++ t) = true) (prelude seen : List Char) (outer : Nat) :
    ∃ quoting' depth', balancedFrom quoting' depth' t = true ∧
      (Reading.inBody prelude seen quoting (depth + outer)).Passes s
        (.inBody prelude (s.reverse ++ seen) quoting' (depth' + outer)) := by
  induction s generalizing quoting depth seen with
  | nil => exact ⟨quoting, depth, h, Reading.passes_nil _⟩
  | cons c s ih =>
    rw [List.cons_append, balancedFrom] at h
    rw [List.reverse_cons, List.append_assoc, List.singleton_append]
    by_cases hclose : quoting = .plain ∧ c = '}'
    · rw [if_pos hclose, Bool.and_eq_true, decide_eq_true_eq] at h
      obtain ⟨hdepth, h⟩ := h
      obtain ⟨n, rfl⟩ := Nat.exists_eq_add_one.2 hdepth
      obtain ⟨rfl, rfl⟩ := hclose
      obtain ⟨quoting', depth', hrest, hpasses⟩ := ih h ('}' :: seen)
      refine ⟨quoting', depth', hrest, ?_⟩
      rw [Nat.add_right_comm]
      exact Reading.passes_cons rfl hpasses
    · rw [if_neg hclose] at h
      obtain ⟨quoting', depth', hrest, hpasses⟩ := ih h (c :: seen)
      have hnext : (Reading.inBody prelude seen quoting (depth + outer)).next c =
          (.inBody prelude (c :: seen) (quoting.next c)
            ((if quoting = .plain ∧ c = '{' then depth + 1 else depth) + outer), none) := by
        by_cases hopen : quoting = .plain ∧ c = '{'
        · simp [Reading.next, hopen, Nat.add_right_comm]
        · simp [Reading.next, hclose, hopen]
      exact ⟨quoting', depth', hrest, Reading.passes_cons hnext hpasses⟩

/-- **A balanced text leaves the braces around it alone.** -/
theorem Balanced.enclosed {s : List Char} (h : Balanced s) : Enclosed s := by
  intro prelude seen depth
  have hwhole : balancedFrom .plain 0 (s ++ []) = true := by rwa [List.append_nil]
  obtain ⟨quoting', depth', hrest, hpasses⟩ := passes_of_balancedFrom hwhole prelude seen depth
  simp only [balancedFrom, Bool.and_eq_true, decide_eq_true_eq] at hrest
  obtain ⟨rfl, rfl⟩ := hrest
  rwa [Nat.zero_add] at hpasses

/-- A text in which no brace counts, read from the given standing. -/
def Unbraced : Quoting → List Char → Prop
  | _, [] => True
  | quoting, c :: cs => ¬(quoting = .plain ∧ (c = '{' ∨ c = '}')) ∧ Unbraced (quoting.next c) cs

instance decidableUnbraced : ∀ (quoting : Quoting) (s : List Char), Decidable (Unbraced quoting s)
  | _, [] => inferInstanceAs (Decidable True)
  | quoting, c :: cs =>
    have := decidableUnbraced (quoting.next c) cs
    inferInstanceAs (Decidable (_ ∧ Unbraced (quoting.next c) cs))

/-- No brace counts where there is none. -/
theorem unbraced_of_not_mem {s : List Char} (hopen : '{' ∉ s) (hclose : '}' ∉ s)
    (quoting : Quoting) : Unbraced quoting s := by
  induction s generalizing quoting with
  | nil => trivial
  | cons c s ih =>
    rw [List.mem_cons, not_or] at hopen hclose
    refine ⟨?_, ih hopen.2 hclose.2 _⟩
    rintro ⟨-, rfl | rfl⟩
    · exact hopen.1 rfl
    · exact hclose.1 rfl

/-- A text in which no brace counts is balanced if it closes its strings. -/
theorem Unbraced.balancedFrom {s : List Char} {n : Nesting} (h : Unbraced n.quoting s)
    (hplain : (n.after s).quoting = .plain) : balancedFrom n.quoting 0 s = true := by
  induction s generalizing n with
  | nil =>
    have hquoting : n.quoting = .plain := hplain
    simp [Style.balancedFrom, hquoting]
  | cons c s ih =>
    obtain ⟨hc, hs⟩ := h
    rw [Style.balancedFrom, if_neg fun h => hc ⟨h.1, .inr h.2⟩, if_neg fun h => hc ⟨h.1, .inl h.2⟩]
    exact ih (n := n.next c) hs hplain

/-- A text without braces that leaves no string open is balanced. -/
theorem balancedFrom_of_not_mem {s : List Char} {n : Nesting} (hopen : '{' ∉ s) (hclose : '}' ∉ s)
    (hplain : (n.after s).quoting = .plain) : balancedFrom n.quoting 0 s = true :=
  (unbraced_of_not_mem hopen hclose _).balancedFrom hplain

/-! ## Rules -/

/-- A selector that no reader of a sheet goes beyond: it has no braces, and closes the strings and
brackets that it opens. -/
structure ContainedSelector (s : List Char) : Prop where
  noBrace : '{' ∉ s ∧ '}' ∉ s
  closed : Nesting.top.after s = .top
  commentless : Commentless s

/-- A text of a block that no reader of a sheet goes beyond: it has its braces in pairs, closes the
strings that it opens, and does not end in a backslash. -/
structure ContainedBlock (s : List Char) : Prop where
  balanced : Balanced s
  commentless : Commentless s

/-- The conditions on a contained selector, as they are decided. -/
theorem containedSelector_iff {s : List Char} : ContainedSelector s ↔
    ('{' ∉ s ∧ '}' ∉ s) ∧ Nesting.top.after s = .top ∧ Commentless s :=
  ⟨fun h => ⟨h.noBrace, h.closed, h.commentless⟩, fun ⟨hb, hc, hs⟩ => ⟨hb, hc, hs⟩⟩

instance (s : List Char) : Decidable (ContainedSelector s) :=
  decidable_of_iff _ containedSelector_iff.symm

/-- So with a contained block. -/
theorem containedBlock_iff {s : List Char} : ContainedBlock s ↔ Balanced s ∧ Commentless s :=
  ⟨fun h => ⟨h.balanced, h.commentless⟩, fun ⟨hb, hc⟩ => ⟨hb, hc⟩⟩

instance (s : List Char) : Decidable (ContainedBlock s) :=
  decidable_of_iff _ containedBlock_iff.symm

/-- A rule with a single selector that keeps to itself, as its block does. -/
structure Rule.Contained (r : Rule) : Prop where
  selector : ∃ sel : String, r.selectors = [sel] ∧ ContainedSelector sel.toList
  block : ContainedBlock (declarationChars r.declarations)

/-- Behind a text without a brace that counts a reader is still in a prelude, maybe in one that was
begun in the text. -/
theorem after_inPrelude {s : List Char} {n : Nesting} (hbrace : Undivided '{' n s)
    (seen : List Char) :
    ∃ seen', (Reading.inPrelude seen n).after s = .inPrelude seen' (n.after s) := by
  induction s generalizing seen n with
  | nil => exact ⟨seen, rfl⟩
  | cons c s ih =>
    obtain ⟨hopen, hbrace⟩ := undivided_cons.1 hbrace
    have hnext : ∃ seen', ((Reading.inPrelude seen n).next c).1 = .inPrelude seen' (n.next c) := by
      rw [Reading.next]
      split
      · next h =>
        obtain ⟨rfl, rfl⟩ := h
        exact ⟨[], rfl⟩
      · exact ⟨c :: seen, rfl⟩
    obtain ⟨seen', hnext⟩ := hnext
    obtain ⟨seen'', hrest⟩ := ih hbrace seen'
    refine ⟨seen'', ?_⟩
    rw [Nesting.after_cons, ← hrest, ← hnext]
    rfl

/-- **A prelude and a block lead back to the start.** -/
theorem after_block {prelude body : List Char} (hbrace : Undivided '{' .top prelude)
    (hclosed : Nesting.top.after prelude = .top) (hbody : Enclosed body) :
    Reading.start.after (prelude ++ '{' :: (body ++ ['}'])) = .start := by
  obtain ⟨seen, hseen⟩ := after_inPrelude hbrace []
  have hopen : (Reading.inPrelude seen .top).next '{' =
      (.inBody (Text.trim seen.reverse) [] .plain 0, none) := by
    rw [Reading.next, if_neg (by simp), if_pos ⟨rfl, rfl⟩]
  have hprelude : Reading.start.after prelude = .inPrelude seen .top := by
    rw [← hclosed]
    exact hseen
  have hinner := (hbody (Text.trim seen.reverse) [] 0).2
  simp only [Reading.after, List.foldl_append, List.foldl_cons, List.foldl_nil] at hprelude hinner ⊢
  rw [hprelude, hopen, hinner]
  rfl

section rule

variable {r : Rule}

/-- A contained rule has a single selector, and is written as this and a block. -/
theorem Rule.Contained.exists_chars (h : r.Contained) : ∃ sel : String, r.selectors = [sel] ∧
    ContainedSelector sel.toList ∧
      r.chars = sel.toList ++ '{' :: (declarationChars r.declarations ++ ['}']) := by
  obtain ⟨sel, hsel, hselector⟩ := h.selector
  exact ⟨sel, hsel, hselector, by simp [Rule.chars, hsel, joinChars]⟩

/-- Behind a contained rule nothing is being read. -/
theorem Rule.Contained.after_chars (h : r.Contained) : Reading.start.after r.chars = .start := by
  obtain ⟨sel, -, hselector, hchars⟩ := h.exists_chars
  rw [hchars]
  exact after_block (undivided_of_not_mem hselector.noBrace.1) hselector.closed
    h.block.balanced.enclosed

/-- Within a block, a contained rule ends where it began. -/
theorem Rule.Contained.enclosed (h : r.Contained) : Enclosed r.chars := by
  obtain ⟨sel, -, hselector, hchars⟩ := h.exists_chars
  have hplain : (Nesting.top.after sel.toList).quoting = .plain := by rw [hselector.closed]; rfl
  have hsel : Balanced sel.toList :=
    balancedFrom_of_not_mem hselector.noBrace.1 hselector.noBrace.2 hplain
  rw [hchars]
  exact hsel.enclosed.append h.block.balanced.enclosed.braces

/-- Behind a contained rule comments are sought as in front of it. -/
theorem Rule.Contained.commenting (h : r.Contained) (t : List Char) :
    Commenting.outside.after (r.chars ++ t) = Commenting.outside.after t := by
  obtain ⟨sel, -, hselector, hchars⟩ := h.exists_chars
  rw [hchars, List.append_assoc, List.cons_append, List.append_assoc, List.singleton_append,
    hselector.commentless.append_cons (by decide), h.block.commentless.append_cons (by decide)]

end rule

/-- A group is its prelude and, in braces, its rules. -/
theorem media_chars (w : UInt32) (rules : List Rule) :
    (Item.media w rules).chars = minWidthPrelude w ++ '{' :: (groupChars rules ++ ['}']) := by
  simp [Item.chars, groupChars]

/-- Behind a group an outline starts anew, whatever its rules are. -/
theorem after_media (w : UInt32) {rules : List Rule} (h : ∀ r ∈ rules, Enclosed r.chars) :
    Reading.start.after (Item.media w rules).chars = .start := by
  rw [media_chars]
  exact after_block (undivided_of_not_mem (not_mem_minWidthPrelude (by decide)))
    (closed_minWidthPrelude w) (enclosed_groupChars h)

/-- Behind an item of contained rules an outline starts anew. -/
theorem Item.OfRules.after_chars {i : Item} (h : i.OfRules Rule.Contained) :
    Reading.start.after i.chars = .start := by
  cases i with
  | rule r => exact Rule.Contained.after_chars h
  | media w rules => exact after_media w fun r hr => (h r hr).enclosed
  | verbatim text => exact absurd h id

/-- Behind a group comments are sought as in front of it, if so they are behind each of its
rules. -/
theorem commenting_media (w : UInt32) {rules : List Rule}
    (h : ∀ r ∈ rules, ∀ t, Commenting.outside.after (r.chars ++ t) = Commenting.outside.after t)
    (t : List Char) : Commenting.outside.after ((Item.media w rules).chars ++ t) =
      Commenting.outside.after t := by
  have hprelude : ∀ c ∈ ['/', '"', '\''], c ∉ minWidthPrelude w := by
    simp only [List.forall_mem_cons]
    exact ⟨not_mem_minWidthPrelude (by decide), not_mem_minWidthPrelude (by decide),
      not_mem_minWidthPrelude (by decide), List.forall_mem_nil _⟩
  have hplain : ∀ c ∈ minWidthPrelude w ++ ['{', '\n'], c ∉ ['/', '"', '\''] := by
    intro c hc hmem
    rcases List.mem_append.1 hc with hc | hc
    · exact hprelude c hmem hc
    · exact (show ∀ c ∈ ['{', '\n'], c ∉ ['/', '"', '\''] by simp) c hc hmem
  have hlines : ∀ rules : List Rule,
      (∀ r ∈ rules, ∀ t, Commenting.outside.after (r.chars ++ t) = Commenting.outside.after t) →
      Commenting.outside.after (rules.flatMap (fun r => r.chars ++ ['\n']) ++ ('}' :: t)) =
        Commenting.outside.after t := by
    intro rules hrules
    induction rules with
    | nil => rfl
    | cons r rules ih =>
      obtain ⟨hr, hrules⟩ := List.forall_mem_cons.1 hrules
      rw [List.flatMap_cons, List.append_assoc, List.append_assoc, hr]
      exact ih hrules
  have hchars : (Item.media w rules).chars ++ t = (minWidthPrelude w ++ ['{', '\n']) ++
      (rules.flatMap (fun r => r.chars ++ ['\n']) ++ '}' :: t) := by
    simp [Item.chars]
  rw [hchars, Commenting.after_append, Commenting.after_of_not_mem hplain, hlines rules h]

/-- Behind an item comments are sought as in front of it, if so they are behind each of its
rules. -/
theorem Item.OfRules.commenting {i : Item}
    (h : i.OfRules fun r => ∀ t, Commenting.outside.after (r.chars ++ t) =
      Commenting.outside.after t)
    (t : List Char) : Commenting.outside.after (i.chars ++ t) = Commenting.outside.after t := by
  cases i with
  | rule r => exact h t
  | media w rules => exact commenting_media w h t
  | verbatim text => exact absurd h id

/-! ## Sheets -/

/-- A line break in front of a prelude is no part of it. -/
theorem outlineFrom_newline (s : List Char) : ∀ (seen : List Char) (n : Nesting),
    outlineFrom (.inPrelude (seen ++ ['\n']) n) s = outlineFrom (.inPrelude seen n) s := by
  have htrim : ∀ seen : List Char,
      Text.trim (seen ++ ['\n']).reverse = Text.trim seen.reverse := fun seen => by
    rw [List.reverse_append]
    exact congrArg Text.trimEnd (List.dropWhile_cons_of_pos (by decide))
  induction s with
  | nil => exact fun _ _ => rfl
  | cons c s ih =>
    intro seen n
    rw [outlineFrom, outlineFrom, Reading.next, Reading.next]
    split
    · rw [htrim]
    · split
      · rw [htrim]
      · exact ih (c :: seen) (n.next c)

/-- A line end in front of a sheet is passed over. -/
theorem readItems_newline (s : List Char) : readItems ('\n' :: s) = readItems s := by
  have houtline : outline ('\n' :: s) = outline s := outlineFrom_newline s [] .top
  rw [readItems, readItems, houtline]

section sheet

variable {items : List Item}

/-- Items behind each of which an outline starts anew are read one by one. -/
theorem readItems_joinChars (h : ∀ i ∈ items, Reading.start.after i.chars = .start) :
    readItems (joinChars ['\n'] (items.map Item.chars)) =
      items.flatMap fun i => readItems i.chars := by
  induction items with
  | nil => rfl
  | cons i items ih =>
    obtain ⟨hi, hitems⟩ := List.forall_mem_cons.1 h
    cases items with
    | nil => simp [joinChars]
    | cons i' items =>
      rw [List.map_cons, List.map_cons, joinChars, List.append_assoc,
        readItems_append _ hi, List.singleton_append, readItems_newline,
        ← List.map_cons, ih hitems]
      rfl

/-- No comment is open behind items that open none. -/
theorem commenting_joinChars
    (h : ∀ i ∈ items, ∀ t, Commenting.outside.after (i.chars ++ t) = Commenting.outside.after t) :
    Commenting.outside.after (joinChars ['\n'] (items.map Item.chars)) = .outside := by
  induction items with
  | nil => rfl
  | cons i items ih =>
    obtain ⟨hi, hitems⟩ := List.forall_mem_cons.1 h
    cases items with
    | nil =>
      have hone := hi []
      rwa [List.append_nil] at hone
    | cons i' items =>
      rw [List.map_cons, List.map_cons, joinChars, List.append_assoc, hi, ← List.map_cons]
      exact ih hitems

end sheet

/-- **A sheet of contained rules is read item by item.** -/
theorem read_render_of_contained {s : Sheet} (h : ∀ i ∈ s.items, i.OfRules Rule.Contained) :
    (Sheet.read s.render).items = s.items.flatMap fun i => readItems i.chars := by
  have hcommenting := fun i hi => ((h i hi).imp fun _ hr => hr.commenting).commenting
  have hbegun : Commenting.outside.after s.chars ≠ .begun := by
    rw [Sheet.chars, commenting_joinChars hcommenting]
    simp
  have hcomments : stripComments s.chars = s.chars := stripFrom_eq_of_after hbegun
  rw [Sheet.read, Sheet.render, String.toList_ofList, Sheet.readChars, hcomments, Sheet.chars,
    readItems_joinChars fun i hi => (h i hi).after_chars]

/-! ## Plain texts -/

/-- A text without backslashes, braces and quotes, in which no comment begins. -/
structure PlainText (s : List Char) : Prop where
  noMark : ∀ c ∈ s, c ∉ ['\\', '{', '}', '"', '\'']
  uncommented : Uncommented s

-- The marks are looked for with `List.all`: a statement on all characters would be decided by
-- going through every character there is.
/-- The conditions on plain text, as they are decided. -/
theorem plainText_iff {s : List Char} : PlainText s ↔
    (s.all fun c => c ∉ ['\\', '{', '}', '"', '\'']) = true ∧ ¬"/*".toList <:+: s := by
  simp only [List.all_eq_true, decide_eq_true_eq]
  exact ⟨fun h => ⟨h.noMark, uncommented_iff.1 h.uncommented⟩,
    fun ⟨h, h'⟩ => ⟨h, uncommented_iff.2 h'⟩⟩

instance (s : List Char) : Decidable (PlainText s) := decidable_of_iff _ plainText_iff.symm

section plain

variable {s : List Char}

/-- Plain text opens no string. -/
theorem quoting_after {n : Nesting} (hplain : n.quoting = .plain)
    (hs : ∀ c ∈ s, c ∉ ['\\', '{', '}', '"', '\'']) : (n.after s).quoting = .plain := by
  induction s generalizing n with
  | nil => exact hplain
  | cons c s ih =>
    obtain ⟨hc, hs⟩ := List.forall_mem_cons.1 hs
    simp only [List.mem_cons, List.not_mem_nil, or_false, not_or] at hc
    refine ih (n := n.next c) ?_ hs
    show n.quoting.next c = .plain
    rw [hplain]
    simp [Quoting.next, hc]

/-- No comment begins in plain text. -/
theorem PlainText.commentless (h : PlainText s) : Commentless s :=
  commentless_of_closed (fun hmem => h.noMark _ hmem (by decide))
    (quoting_after (n := .top) rfl h.noMark) h.uncommented

/-- **A plain text is a contained block.** -/
theorem PlainText.containedBlock (h : PlainText s) : ContainedBlock s where
  balanced := by
    have hopen : '{' ∉ s := fun hmem => h.noMark _ hmem (by decide)
    have hclose : '}' ∉ s := fun hmem => h.noMark _ hmem (by decide)
    exact balancedFrom_of_not_mem hopen hclose (quoting_after (n := .top) rfl h.noMark)
  commentless := h.commentless

end plain

end Pane.Style
