import Mathlib.Data.List.Forall2
import Pane.Proofs.Style.Literals
import Pane.Proofs.Style.Units
import Pane.Proofs.Text.Cuts

/-!
# Which units become percentages

The units of a text are turned one stretch of plain text at a time.  The stretches that come of it
are put together again, and nothing of this may be seen by whoever reads the text next: what was a
literal must be one again, and what was not must not become one.

A percent sign opens no literal, and what a reference opens with is written for itself alone.  In
front of a reference, though, there may be a percent sign now where the last letter of a unit was;
but then the reference would have gone on the word of this unit, which a unit that is turned ends.

**Plain text.**  `Follows` — what a text is read behind, before and after.  **`Turns.bare`**: no
literal opens in plain text because its units are turned.

**Literals.**  `Segment.TurnsTo` — what becomes of a segment.  **`Scan.turned`**: the text that is
written has the scan of the text that was read, but for its units.

**Result.**  **`units_turn_outside_literals`**.
-/

namespace Pane.Style

/-! ## Plain text -/

/-- What a text is read behind, before and after units were turned: the same character, or one of a
word that the text does not go on. -/
def Follows (previous previous' : Option Char) (s : List Char) : Prop :=
  previous' = previous ∨
    previous.any Text.isAlphanumeric = true ∧ s.head?.any Text.isWord = false

/-- What was read as it is written was so before. -/
theorem Turns.of_cons {before s t : List Char} {c : Char} (h : Turns before s (c :: t))
    (hc : c ≠ '%') : ∃ s', s = c :: s' ∧ Turns (before ++ [c]) s' t := by
  cases h with
  | keep _ hrest => exact ⟨_, rfl, hrest⟩
  | turn => exact absurd rfl hc

theorem opensAs?_percent (previous : Option Char) (s : List Char) :
    opensAs? previous ('%' :: s) = none := by
  refine opensAs?_eq_none_iff.2 ⟨by decide, Bool.eq_false_iff.2 fun hopens => ?_⟩
  obtain ⟨-, u, r, l, rest, heq, hu, -⟩ := opensUrl_iff.1 hopens
  obtain ⟨rfl, -⟩ := List.cons.inj heq
  exact absurd hu (by decide)

/-- No literal opens where none did. -/
theorem opensAs?_of_turns {before s t : List Char} {c : Char} {previous previous' : Option Char}
    (hturns : Turns before s t) (hfollows : Follows previous previous' (c :: s))
    (hnone : opensAs? previous (c :: s) = none) : opensAs? previous' (c :: t) = none := by
  obtain ⟨hquote, hurl⟩ := opensAs?_eq_none_iff.1 hnone
  refine opensAs?_eq_none_iff.2 ⟨hquote, ?_⟩
  rw [Bool.eq_false_iff] at hurl ⊢
  intro hopens
  obtain ⟨hprevious, u, r, l, rest, heq, hu, hr, hl⟩ := opensUrl_iff.1 hopens
  obtain ⟨rfl, rfl⟩ := List.cons.inj heq
  rcases hfollows with rfl | ⟨-, hword⟩
  · have hr' : r ≠ '%' := by
      rintro rfl
      exact absurd hr (by decide)
    have hl' : l ≠ '%' := by
      rintro rfl
      exact absurd hl (by decide)
    obtain ⟨s₁, rfl, hturns₁⟩ := hturns.of_cons hr'
    obtain ⟨s₂, rfl, hturns₂⟩ := hturns₁.of_cons hl'
    obtain ⟨s₃, rfl, -⟩ := hturns₂.of_cons (by decide)
    exact hurl (opensUrl_iff.2 ⟨hprevious, c, r, l, s₃, rfl, hu, hr, hl⟩)
  · have hletter : Text.isWord c = true :=
      Text.isWord_of_isAlphanumeric (Text.isAlphanumeric_of_toLower (by rw [hu]; decide))
    simp [hletter] at hword

theorem getLast?_cons_or (c : Char) (s : List Char) (previous : Option Char) :
    (c :: s).getLast?.or previous = s.getLast?.or (some c) := by
  cases s with
  | nil => rfl
  | cons d s => simp [List.getLast?_cons]

/-- Bare text stays so when its units are turned, and whatever is read behind it follows. -/
theorem Turns.bare {before s t : List Char} (h : Turns before s t) :
    ∀ {previous previous' : Option Char}, Follows previous previous' s → Bare previous s →
      Bare previous' t ∧ Follows (s.getLast?.or previous) (t.getLast?.or previous') [] := by
  induction h with
  | nil before =>
    intro previous previous' hfollows _
    refine ⟨trivial, ?_⟩
    rwa [List.getLast?_nil, Option.none_or, Option.none_or]
  | keep _ hrest ih =>
    intro previous previous' hfollows ⟨hopen, hbare⟩
    obtain ⟨hbare', hlast⟩ := ih (.inl rfl) hbare
    refine ⟨⟨opensAs?_of_turns hrest hfollows hopen, hbare'⟩, ?_⟩
    rwa [getLast?_cons_or, getLast?_cons_or]
  | @turn before s t c d _ _ hd hword _ ih =>
    intro previous previous' _ ⟨_, _, hbare⟩
    have hunit : (some d).any Text.isAlphanumeric = true := by rcases hd with rfl | rfl <;> decide
    obtain ⟨hbare', hlast⟩ := ih (.inr ⟨hunit, hword⟩) hbare
    refine ⟨⟨opensAs?_percent previous' _, hbare'⟩, ?_⟩
    rwa [getLast?_cons_or, getLast?_cons_or, getLast?_cons_or]

/-- A literal that opens behind a text opens behind what was written for it. -/
theorem opensAs?_of_follows {previous previous' : Option Char} {c : Char} {s : List Char}
    {region : Region} (hfollows : Follows previous previous' [])
    (hopen : opensAs? previous (c :: s) = some region) :
    opensAs? previous' (c :: s) = some region := by
  rcases hfollows with rfl | ⟨hprevious, -⟩
  · exact hopen
  · -- no reference goes on a word, so this literal is a string
    have hurl : opensUrl previous (c :: s) = false := by
      refine Bool.eq_false_iff.2 fun hopens => ?_
      have hnot := (opensUrl_iff.1 hopens).1
      cases previous with
      | none => cases hprevious
      | some p =>
        rw [Option.any_some] at hprevious hnot
        simp [hprevious] at hnot
    rw [opensAs?, hurl] at hopen
    rw [opensAs?]
    split at hopen
    · next hquote => rw [if_pos hquote, hopen]
    · cases hopen

/-! ## Literals -/

/-- What becomes of a segment: the units of plain text are turned, a literal is kept. -/
inductive Segment.TurnsTo : Segment → Segment → Prop where
  | plain {p q : List Char} (h : Turns [] p q) : TurnsTo (.plain p) (.plain q)
  | literal (l : List Char) : TurnsTo (.literal l) (.literal l)

def Segment.turned : Segment → Segment
  | .plain p => .plain (percentPlain p)
  | .literal l => .literal l

theorem Segment.turnsTo_turned : ∀ segment : Segment, segment.TurnsTo segment.turned
  | .plain p => .plain (turns_percentPlain p)
  | .literal l => .literal l

/-- The text of a segment if it is a literal. -/
def Segment.literal? : Segment → Option (List Char)
  | .plain _ => none
  | .literal l => some l

theorem Segment.literal?_turned (segment : Segment) :
    segment.turned.literal? = segment.literal? := by
  cases segment <;> rfl

theorem bare_percentPlain {p : List Char} (h : Bare none p) : Bare none (percentPlain p) ∧
    Follows p.getLast? (percentPlain p).getLast? [] := by
  simpa only [Option.or_none] using (turns_percentPlain p).bare (.inl rfl) h

/-- **The text that is written has the scan of the text that was read, its plain stretches
turned.** -/
theorem Scan.turned {s : List Char} {segs : List Segment} (h : Scan s segs) :
    Scan (segs.flatMap Segment.withPercentages) (segs.map Segment.turned) := by
  induction h with
  | plain hp =>
    rw [List.flatMap_singleton]
    exact .plain (bare_percentPlain hp).1
  | unclosed hp hopen hl =>
    obtain ⟨hp', hfollows⟩ := bare_percentPlain hp
    have hscan := Scan.unclosed hp' (opensAs?_of_follows hfollows hopen) hl
    simpa [Segment.withPercentages, Segment.turned] using hscan
  | closed hp hopen hl _ ih =>
    obtain ⟨hp', hfollows⟩ := bare_percentPlain hp
    have hscan := Scan.closed hp' (opensAs?_of_follows hfollows hopen) hl ih
    simpa [Segment.withPercentages, Segment.turned] using hscan

/-- **Only units outside literals are turned, and the literals stay what they are.**  A literal
opens with a quote, or with `url(` in any letter case unless a letter, a digit or a hyphen stands in
front of it.  A text is the one that its scan makes up, and so is the text with percentages; segment
by segment, the units of plain text are turned and literals are kept; and whoever scans what is
written finds the same literals. -/
theorem units_turn_outside_literals (s : String) :
    let read := segments s.toList
    let written := segments (withPercentages s).toList
    (∀ previous text region, opensAs? previous text = some region ↔
      (∃ quote rest, text = quote :: rest ∧ (quote = '"' ∨ quote = '\'') ∧
        region = .string (.quoted quote)) ∨
      (previous.any fun p => Text.isAlphanumeric p || p = '-') = false ∧
        (∃ u r l rest, text = u :: r :: l :: '(' :: rest ∧
          u.toLower = 'u' ∧ r.toLower = 'r' ∧ l.toLower = 'l') ∧ region = .opening 3) ∧
      Scan s.toList read ∧ read.flatMap Segment.text = s.toList ∧
      Scan (withPercentages s).toList written ∧
      written.flatMap Segment.text = (withPercentages s).toList ∧
      List.Forall₂ Segment.TurnsTo read written ∧
      written.filterMap Segment.literal? = read.filterMap Segment.literal? := by
  intro read written
  have hread : Scan s.toList read := scan_iff.2 rfl
  have hscan : Scan (withPercentages s).toList (read.map Segment.turned) := by
    have hchars : (withPercentages s).toList = read.flatMap Segment.withPercentages :=
      String.toList_ofList
    rw [hchars]
    exact hread.turned
  have hwritten : written = read.map Segment.turned := hscan.eq_segments.symm
  refine ⟨fun _ _ _ => opensAs?_eq_some_iff, hread, text_segments _, scan_iff.2 rfl,
    text_segments _, ?_, ?_⟩
  · rw [hwritten, List.forall₂_map_right_iff]
    exact List.forall₂_same.2 fun segment _ => segment.turnsTo_turned
  · rw [hwritten, List.filterMap_map]
    exact congrArg (List.filterMap · read) (funext Segment.literal?_turned)

/-- The second string is not closed, so it goes on to the end. -/
example : withPercentages "'1vw' 2vw '3vw" = "'1vw' 2% '3vw" := by decide

end Pane.Style
