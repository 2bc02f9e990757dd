import Pane.Style.ViewportUnits

/-!
# The literals of a text

A text is cut at the places where literals open and close.  Whether one opens is told by a few
characters and the one in front of them; where it closes, by the literal alone.

**Opening.**  `opensAs?` — the region behind the first character of a literal.
**`opensAs?_eq_some_iff`**: what opens one.  `opensAs?_append` and `opensAs?_of_closes`: whether one
opens here is not a matter of what stands behind the next one, or behind this one.

**Stretches.**  `Bare` — text in which no literal opens.  `Closes`, `Unclosed` — the rest of a
literal.  `Scan` — the stretches of a text, told by these.  **`scan_iff`**: every text has one scan,
and it is the one that is made.
-/

namespace Pane.Style

/-! ## Opening and closing -/

/-- The region behind the first character of a text, if a literal opens with it. -/
def opensAs? (previous : Option Char) : List Char → Option Region
  | [] => none
  | c :: s =>
    if c = '"' || c = '\'' then some (.string (.quoted c))
    else if opensUrl previous (c :: s) then some (.opening 3)
    else none

/-- The region behind a character of a literal; it is plain text if the literal closes there. -/
def Region.next : Region → Char → Region
  | .plain, _ => .plain
  | .string quoting, c =>
    match quoting.next c with
    | .plain => .plain
    | quoting' => .string quoting'
  | .opening left, _ => if left ≤ 1 then .argument .plain else .opening (left - 1)
  | .argument quoting, c =>
    if quoting = .plain ∧ c = ')' then .plain else .argument (quoting.next c)

/-- The rest of a literal that closes with its last character. -/
inductive Closes : Region → List Char → Prop where
  | last {region : Region} {c : Char} (hc : region.next c = .plain) : Closes region [c]
  | more {region : Region} {c : Char} {s : List Char} (hc : region.next c ≠ .plain)
      (hs : Closes (region.next c) s) : Closes region (c :: s)

/-- The rest of a literal that does not close. -/
inductive Unclosed : Region → List Char → Prop where
  | nil (region : Region) : Unclosed region []
  | more {region : Region} {c : Char} {s : List Char} (hc : region.next c ≠ .plain)
      (hs : Unclosed (region.next c) s) : Unclosed region (c :: s)

/-- Text behind a character in which no literal opens. -/
def Bare : Option Char → List Char → Prop
  | _, [] => True
  | previous, c :: s => opensAs? previous (c :: s) = none ∧ Bare (some c) s

/-- The stretches of a text.  Plain text and literals take turns; a literal reaches up to where it
closes, and to the end of the text if it does not. -/
inductive Scan : List Char → List Segment → Prop where
  | plain {p : List Char} (hp : Bare none p) : Scan p [.plain p]
  | unclosed {p l : List Char} {c : Char} {region : Region} (hp : Bare none p)
      (hopen : opensAs? p.getLast? (c :: l) = some region) (hl : Unclosed region l) :
      Scan (p ++ c :: l) [.plain p, .literal (c :: l)]
  | closed {p l s : List Char} {c : Char} {region : Region} {segs : List Segment} (hp : Bare none p)
      (hopen : opensAs? p.getLast? (c :: l) = some region) (hl : Closes region l)
      (hs : Scan s segs) : Scan (p ++ c :: (l ++ s)) (.plain p :: .literal (c :: l) :: segs)

theorem opensAs?_ne_plain {previous : Option Char} {s : List Char} {region : Region}
    (h : opensAs? previous s = some region) : region ≠ .plain := by
  unfold opensAs? at h
  split at h
  · cases h
  · split at h
    · cases h; simp
    · split at h
      · cases h; simp
      · cases h

/-- What opens a reference. -/
theorem opensUrl_iff {previous : Option Char} {s : List Char} : opensUrl previous s = true ↔
    (previous.any fun p => Text.isAlphanumeric p || p = '-') = false ∧
      ∃ u r l rest, s = u :: r :: l :: '(' :: rest ∧
        u.toLower = 'u' ∧ r.toLower = 'r' ∧ l.toLower = 'l' := by
  constructor
  · intro h
    unfold opensUrl at h
    split at h
    · next u r l b rest =>
      simp only [Bool.and_eq_true, Bool.not_eq_true', decide_eq_true_eq] at h
      obtain ⟨⟨⟨⟨hprevious, hu⟩, hr⟩, hl⟩, rfl⟩ := h
      exact ⟨hprevious, u, r, l, rest, rfl, hu, hr, hl⟩
    · cases h
  · rintro ⟨hprevious, u, r, l, rest, rfl, hu, hr, hl⟩
    simp [opensUrl, hprevious, hu, hr, hl]

theorem opensAs?_eq_none_iff {previous : Option Char} {c : Char} {s : List Char} :
    opensAs? previous (c :: s) = none ↔
      ¬(c = '"' ∨ c = '\'') ∧ opensUrl previous (c :: s) = false := by
  simp only [opensAs?, Bool.or_eq_true, decide_eq_true_eq]
  split
  · next hquote => simp [hquote]
  · next hquote => cases hurl : opensUrl previous (c :: s) <;> simp [hquote]

/-- **What opens a literal**: a quote, or `url(` in any letter case where it does not end a longer
name. -/
theorem opensAs?_eq_some_iff {previous : Option Char} {s : List Char} {region : Region} :
    opensAs? previous s = some region ↔
      (∃ quote rest, s = quote :: rest ∧ (quote = '"' ∨ quote = '\'') ∧
        region = .string (.quoted quote)) ∨
      (previous.any fun p => Text.isAlphanumeric p || p = '-') = false ∧
        (∃ u r l rest, s = u :: r :: l :: '(' :: rest ∧
          u.toLower = 'u' ∧ r.toLower = 'r' ∧ l.toLower = 'l') ∧ region = .opening 3 := by
  rw [← and_assoc, ← opensUrl_iff]
  cases s with
  | nil => simp [opensAs?, opensUrl]
  | cons c s =>
    simp only [opensAs?, Bool.or_eq_true, decide_eq_true_eq]
    by_cases hquote : c = '"' ∨ c = '\''
    · -- a quote is no letter, so no reference opens here
      have hurl : opensUrl previous (c :: s) = false := by
        refine Bool.eq_false_iff.2 fun hopens => ?_
        obtain ⟨-, u, r, l, rest, heq, hu, -⟩ := opensUrl_iff.1 hopens
        obtain rfl := (List.cons.inj heq).1
        rcases hquote with rfl | rfl <;> exact absurd hu (by decide)
      simp [hquote, hurl, eq_comm]
    · cases hurl : opensUrl previous (c :: s) <;> simp [hquote, eq_comm]

theorem segmentsFrom_plain (seen : List Char) (c : Char) (s : List Char) :
    segmentsFrom .plain seen (c :: s) =
      match opensAs? seen.head? (c :: s) with
      | some region => .plain seen.reverse :: segmentsFrom region [c] s
      | none => segmentsFrom .plain (c :: seen) s := by
  rw [segmentsFrom, opensAs?]
  split
  · rfl
  · split <;> rfl

theorem segmentsFrom_literal {region : Region} (hregion : region ≠ .plain) (seen : List Char)
    (c : Char) (s : List Char) :
    segmentsFrom region seen (c :: s) =
      if region.next c = .plain then .literal (c :: seen).reverse :: segments s
      else segmentsFrom (region.next c) (c :: seen) s := by
  cases region with
  | plain => exact absurd rfl hregion
  | string quoting =>
    rw [segmentsFrom, Region.next]
    cases quoting.next c <;> rfl
  | opening left =>
    rw [segmentsFrom, Region.next]
    split <;> simp
  | argument quoting =>
    rw [segmentsFrom, Region.next]
    split <;> simp [segments]

theorem segmentsFrom_nil {region : Region} (hregion : region ≠ .plain) (seen : List Char) :
    segmentsFrom region seen [] = [.literal seen.reverse] := by
  cases region with
  | plain => exact absurd rfl hregion
  | _ => rfl

theorem segmentsFrom_of_closes {region : Region} {l : List Char} (h : Closes region l)
    (s : List Char) : region ≠ .plain → ∀ seen,
    segmentsFrom region seen (l ++ s) = .literal (seen.reverse ++ l) :: segments s := by
  induction h with
  | last hc =>
    intro hregion seen
    rw [List.singleton_append, segmentsFrom_literal hregion, if_pos hc, List.reverse_cons]
  | more hc _ ih =>
    intro hregion seen
    rw [List.cons_append, segmentsFrom_literal hregion, if_neg hc, ih hc, List.reverse_cons,
      List.append_assoc, List.singleton_append]

theorem segmentsFrom_of_unclosed {region : Region} {l : List Char} (h : Unclosed region l) :
    region ≠ .plain → ∀ seen, segmentsFrom region seen l = [.literal (seen.reverse ++ l)] := by
  induction h with
  | nil region =>
    intro hregion seen
    rw [segmentsFrom_nil hregion, List.append_nil]
  | more hc _ ih =>
    intro hregion seen
    rw [segmentsFrom_literal hregion, if_neg hc, ih hc, List.reverse_cons, List.append_assoc,
      List.singleton_append]

/-- A literal closes somewhere, or it does not. -/
theorem closes_or_unclosed : ∀ (region : Region) (s : List Char),
    (∃ l rest, s = l ++ rest ∧ Closes region l) ∨ Unclosed region s
  | region, [] => .inr (.nil region)
  | region, c :: s => by
      by_cases hc : region.next c = .plain
      · exact .inl ⟨[c], s, rfl, .last hc⟩
      · rcases closes_or_unclosed (region.next c) s with ⟨l, rest, rfl, hl⟩ | hs
        · exact .inl ⟨c :: l, rest, rfl, .more hc hl⟩
        · exact .inr (.more hc hs)

/-- What stands in front of a literal cannot be part of what opens it: a literal opens with a quote
or with the letter `u`, and neither of them goes on a reference that opens before. -/
theorem opensAs?_append {previous previous' : Option Char} {x rest : List Char} {region : Region}
    (hx : x ≠ []) (hrest : opensAs? previous' rest = some region) :
    opensAs? previous (x ++ rest) = opensAs? previous x := by
  have hhead : ∀ c ∈ rest.head?, c.toLower ≠ 'r' ∧ c.toLower ≠ 'l' ∧ c ≠ '(' := by
    intro c hc
    cases rest with
    | nil => cases hc
    | cons d rest =>
      obtain rfl : d = c := Option.some.inj hc
      rw [opensAs?] at hrest
      split at hrest
      · next hquote =>
        simp only [Bool.or_eq_true, decide_eq_true_eq] at hquote
        rcases hquote with rfl | rfl <;> decide
      · split at hrest
        · next hurl =>
          obtain ⟨-, u, r, l, rest', heq, hu, -⟩ := opensUrl_iff.1 hurl
          obtain ⟨rfl, -⟩ := List.cons.inj heq
          refine ⟨by simp [hu], by simp [hu], ?_⟩
          rintro rfl
          exact absurd hu (by decide)
        · cases hrest
  have hurl : opensUrl previous (x ++ rest) = opensUrl previous x := by
    rw [Bool.eq_iff_iff, opensUrl_iff, opensUrl_iff]
    refine and_congr_right fun _ => ⟨?_, ?_⟩
    · rintro ⟨u, r, l, tail, heq, hu, hr, hl⟩
      match x, hx with
      | [_], _ =>
        obtain ⟨-, rfl⟩ := List.cons.inj heq
        exact absurd hr (hhead r rfl).1
      | [_, _], _ =>
        obtain ⟨-, heq⟩ := List.cons.inj heq
        obtain ⟨-, rfl⟩ := List.cons.inj heq
        exact absurd hl (hhead l rfl).2.1
      | [_, _, _], _ =>
        obtain ⟨-, heq⟩ := List.cons.inj heq
        obtain ⟨-, heq⟩ := List.cons.inj heq
        obtain ⟨-, rfl⟩ := List.cons.inj heq
        exact absurd rfl (hhead '(' rfl).2.2
      | a :: b :: c :: d :: x, _ =>
        simp only [List.cons_append, List.cons.injEq] at heq
        obtain ⟨rfl, rfl, rfl, rfl, -⟩ := heq
        exact ⟨a, b, c, x, rfl, hu, hr, hl⟩
    · rintro ⟨u, r, l, tail, rfl, hu, hr, hl⟩
      exact ⟨u, r, l, tail ++ rest, rfl, hu, hr, hl⟩
  obtain ⟨c, x, rfl⟩ := List.exists_cons_of_ne_nil hx
  rw [List.cons_append] at hurl ⊢
  simp only [opensAs?, hurl]

/-- Behind bare text the scan is still in plain text. -/
theorem segmentsFrom_of_bare : ∀ (p : List Char) (seen rest : List Char), Bare seen.head? p →
    (rest = [] ∨ ∃ previous region, opensAs? previous rest = some region) →
    segmentsFrom .plain seen (p ++ rest) = segmentsFrom .plain (p.reverse ++ seen) rest
  | [], _, _, _, _ => rfl
  | c :: p, seen, rest, ⟨hopen, hp⟩, hrest => by
      have hsame : opensAs? seen.head? (c :: (p ++ rest)) = none := by
        rcases hrest with rfl | ⟨previous, region, hrest⟩
        · rwa [List.append_nil]
        · rw [← List.cons_append, opensAs?_append (List.cons_ne_nil c p) hrest, hopen]
      rw [List.cons_append, segmentsFrom_plain, hsame]
      have ih := segmentsFrom_of_bare p (c :: seen) rest hp hrest
      simpa using ih

/-- A text is bare up to where a literal opens, or up to its end. -/
theorem exists_bare : ∀ (s : List Char) (previous : Option Char), ∃ p rest, s = p ++ rest ∧
    Bare previous p ∧ (rest = [] ∨ ∃ region, opensAs? (p.getLast?.or previous) rest = some region)
  | [], previous => ⟨[], [], rfl, trivial, .inl rfl⟩
  | c :: s, previous => by
      cases hopen : opensAs? previous (c :: s) with
      | some region => exact ⟨[], c :: s, rfl, trivial, .inr ⟨region, hopen⟩⟩
      | none =>
        obtain ⟨p, rest, rfl, hp, hrest⟩ := exists_bare s (some c)
        refine ⟨c :: p, rest, rfl, ⟨?_, hp⟩, ?_⟩
        · rcases hrest with rfl | ⟨region, hrest⟩
          · rwa [List.append_nil] at hopen
          · rwa [← List.cons_append, opensAs?_append (List.cons_ne_nil c p) hrest] at hopen
        · rcases hrest with hrest | ⟨region, hrest⟩
          · exact .inl hrest
          · refine .inr ⟨region, ?_⟩
            cases p <;> simpa [List.getLast?_cons] using hrest

/-- A literal goes on where a region is left only for another one of it. -/
theorem Closes.onward {region region' : Region} {l : List Char} (h : Closes region l)
    (hnext : ∀ c, region.next c = region') (hregion : region' ≠ .plain) :
    ∃ c l', l = c :: l' ∧ Closes region' l' := by
  cases h with
  | last hc => exact absurd ((hnext _).symm.trans hc) hregion
  | more _ hs => exact ⟨_, _, rfl, hnext _ ▸ hs⟩

/-- Whether a literal opens is decided within the literal. -/
theorem opensAs?_of_closes {previous : Option Char} {c : Char} {l s : List Char} {region : Region}
    (hl : Closes region l) :
    opensAs? previous (c :: (l ++ s)) = some region ↔ opensAs? previous (c :: l) = some region := by
  have hurl : region = .opening 3 → opensUrl previous (c :: (l ++ s)) =
      opensUrl previous (c :: l) := by
    rintro rfl
    obtain ⟨r, l, rfl, hl₂⟩ : ∃ c l', l = c :: l' ∧ Closes (.opening 2) l' :=
      hl.onward (fun _ => rfl) (by simp)
    obtain ⟨l', l, rfl, hl₁⟩ : ∃ c l', l = c :: l' ∧ Closes (.opening 1) l' :=
      hl₂.onward (fun _ => rfl) (by simp)
    obtain ⟨b, l, rfl, -⟩ : ∃ c l', l = c :: l' ∧ Closes (.argument .plain) l' :=
      hl₁.onward (fun _ => rfl) (by simp)
    rfl
  rw [opensAs?, opensAs?]
  split
  · rfl
  · constructor
    · intro h
      split at h
      · next hopens =>
        rw [if_pos (hurl (Option.some.inj h).symm ▸ hopens), h]
      · cases h
    · intro h
      split at h
      · next hopens =>
        rw [if_pos ((hurl (Option.some.inj h).symm).symm ▸ hopens), h]
      · cases h

/-- A scan is the one that is made. -/
theorem Scan.eq_segments {s : List Char} {segs : List Segment} (h : Scan s segs) :
    segs = segments s := by
  induction h with
  | @plain p hp =>
    have hbare := segmentsFrom_of_bare p [] [] hp (.inl rfl)
    rw [List.append_nil] at hbare
    rw [segments, hbare, segmentsFrom]
    simp
  | @unclosed p l c region hp hopen hl =>
    rw [segments, segmentsFrom_of_bare p [] _ hp (.inr ⟨_, _, hopen⟩), segmentsFrom_plain,
      List.append_nil, List.head?_reverse, hopen]
    simp [segmentsFrom_of_unclosed hl (opensAs?_ne_plain hopen)]
  | @closed p l s c region segs hp hopen hl _ ih =>
    have hopen' := (opensAs?_of_closes (s := s) hl).2 hopen
    rw [segments, segmentsFrom_of_bare p [] _ hp (.inr ⟨_, _, hopen'⟩), segmentsFrom_plain,
      List.append_nil, List.head?_reverse, hopen']
    simp [segmentsFrom_of_closes hl s (opensAs?_ne_plain hopen), ih]

/-- Every text has a scan.  By induction on its length: behind a literal that closes there is less
of it. -/
theorem exists_scan (s : List Char) : ∃ segs, Scan s segs := by
  induction hn : s.length using Nat.strongRecOn generalizing s with
  | ind n ih =>
    obtain ⟨p, rest, rfl, hp, rfl | ⟨region, hopen⟩⟩ := exists_bare s none
    · exact ⟨_, (List.append_nil p).symm ▸ Scan.plain hp⟩
    · rw [Option.or_none] at hopen
      cases rest with
      | nil => cases hopen
      | cons c rest =>
        rcases closes_or_unclosed region rest with ⟨l, behind, rfl, hl⟩ | hl
        · have hshorter : behind.length < n := by
            rw [← hn]
            simp only [List.length_append, List.length_cons]
            omega
          obtain ⟨segs, hsegs⟩ := ih _ hshorter behind rfl
          exact ⟨_, .closed hp ((opensAs?_of_closes hl).1 hopen) hl hsegs⟩
        · exact ⟨_, .unclosed hp hopen hl⟩

/-- **Every text has one scan, and it is the one that is made.** -/
theorem scan_iff {s : List Char} {segs : List Segment} : Scan s segs ↔ segs = segments s := by
  refine ⟨Scan.eq_segments, fun h => ?_⟩
  obtain ⟨segs', hscan⟩ := exists_scan s
  rwa [h, ← hscan.eq_segments]

end Pane.Style
