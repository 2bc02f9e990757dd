import Pane.Text.Basic

/-!
# Trimmed texts, letter case and first separators

Trimming takes spaces off both ends and nothing else, lower case changes no character that is not a
letter, a text is split at a separator where it first occurs, and a beginning is dropped if it is
there.

* `not_mem_of_all` — a class of characters that a text has none of.
* `toLower_eq_self`, `eq_of_toLower_eq`, `isSpace_toLower` — lower case and what it leaves alone.
* **`exists_trim`** — what trimming takes off; `trim_map_toLower` and `trim_flatMap` — it takes off
  the same in lower case, and where characters that are no spaces are replaced.
* `trimEnd_cons`, `trimEnd_space_cons`, `trimEnd_eq_self` — the end of a text, read from its start.
* `splitFirst_append`, **`splitFirst_eq_some`** — the first separator.
* `dropFront?_eq_some` — a given beginning.
-/

namespace Pane.Text

/-- A character of some class is not in a text that has none of the class. -/
theorem not_mem_of_all {p : Char → Bool} {s : List Char} (hs : (s.all fun d => !p d) = true)
    {c : Char} (hc : p c = true) : c ∉ s := by
  intro hmem
  have hno := List.all_eq_true.1 hs c hmem
  rw [hc] at hno
  exact Bool.noConfusion hno

/-! ## Letter case -/

/-- Only capitals are changed. -/
theorem toLower_eq_self {c : Char} (h : ¬(65 ≤ c.toNat ∧ c.toNat ≤ 90)) : c.toLower = c :=
  dif_neg h

/-- A capital becomes the letter thirty-two code points behind it. -/
theorem toNat_toLower {c : Char} (h : 65 ≤ c.toNat ∧ c.toNat ≤ 90) :
    c.toLower.toNat = c.toNat + 32 := by
  have hlower : c.toLower.val = c.val + 32 :=
    congrArg Char.val (dif_pos (show c.val ≥ 'A'.val ∧ c.val ≤ 'Z'.val from h))
  have hle : c.val.toNat ≤ 90 := h.2
  rw [Char.toNat, hlower, UInt32.toNat_add]
  show (c.val.toNat + 32) % 2 ^ 32 = c.val.toNat + 32
  omega

theorem toLower_toLower (c : Char) : c.toLower.toLower = c.toLower := by
  by_cases hc : 65 ≤ c.toNat ∧ c.toNat ≤ 90
  · have hnat := toNat_toLower hc
    exact toLower_eq_self (by omega)
  · rw [toLower_eq_self hc, toLower_eq_self hc]

/-- What is no small letter in lower case was the same before. -/
theorem eq_of_toLower_eq {c d : Char} (hd : ¬(97 ≤ d.toNat ∧ d.toNat ≤ 122))
    (h : c.toLower = d) : c = d := by
  by_cases hc : 65 ≤ c.toNat ∧ c.toNat ≤ 90
  · have hnat := toNat_toLower hc
    rw [h] at hnat
    exact absurd ⟨by omega, by omega⟩ hd
  · rw [← h, toLower_eq_self hc]

/-- Lower case makes no character that is not a letter. -/
theorem toLower_eq_iff {c d : Char} (hcapital : ¬(65 ≤ d.toNat ∧ d.toNat ≤ 90))
    (hsmall : ¬(97 ≤ d.toNat ∧ d.toNat ≤ 122)) : c.toLower = d ↔ c = d := by
  constructor
  · exact eq_of_toLower_eq hsmall
  · rintro rfl
    exact toLower_eq_self hcapital

/-- What is a small letter in lower case is a letter. -/
theorem isAlphanumeric_of_toLower {c : Char} (h : 97 ≤ c.toLower.toNat ∧ c.toLower.toNat ≤ 122) :
    isAlphanumeric c = true := by
  have halpha : c.isAlpha = true := by
    by_cases hc : 65 ≤ c.toNat ∧ c.toNat ≤ 90
    · exact Bool.or_eq_true_iff.2 (.inl (decide_eq_true hc))
    · rw [toLower_eq_self hc] at h
      have hlower : c.isLower = true :=
        Bool.and_eq_true_iff.2 ⟨decide_eq_true h.1, decide_eq_true h.2⟩
      exact Bool.or_eq_true_iff.2 (.inr hlower)
  rw [isAlphanumeric, halpha, Bool.true_or]

/-- The characters of ASCII that show something are no spaces. -/
theorem isSpace_eq_false {c : Char} (h : 33 ≤ c.toNat ∧ c.toNat ≤ 126) : isSpace c = false := by
  simp only [isSpace, Bool.or_eq_false_iff, Bool.and_eq_false_iff, decide_eq_false_iff_not]
  omega

/-- Digits are no space. -/
theorem isSpace_of_isHexDigit {c : Char} (h : isHexDigit c = true) : isSpace c = false := by
  have hbounds : (48 ≤ c.toNat ∧ c.toNat ≤ 57 ∨ 97 ≤ c.toNat ∧ c.toNat ≤ 102) ∨
      65 ≤ c.toNat ∧ c.toNat ≤ 70 := by
    simp only [isHexDigit, Char.isDigit, Bool.or_eq_true, Bool.and_eq_true, decide_eq_true_eq] at h
    exact h
  exact isSpace_eq_false (by omega)

/-- Lower case makes no space and takes none away. -/
theorem isSpace_toLower (c : Char) : isSpace c.toLower = isSpace c := by
  by_cases hc : 65 ≤ c.toNat ∧ c.toNat ≤ 90
  · have hnat := toNat_toLower hc
    rw [isSpace_eq_false (by omega), isSpace_eq_false (by omega)]
  · rw [toLower_eq_self hc]

/-! ## Trimming -/

/-- What is trimmed off the front is space. -/
theorem exists_trimStart (s : List Char) :
    ∃ l, s = l ++ trimStart s ∧ ∀ c ∈ l, isSpace c = true :=
  ⟨s.takeWhile isSpace, (List.takeWhile_append_dropWhile ..).symm,
    List.all_eq_true.1 List.all_takeWhile⟩

/-- What is trimmed off the end is space. -/
theorem exists_trimEnd (s : List Char) : ∃ r, s = trimEnd s ++ r ∧ ∀ c ∈ r, isSpace c = true := by
  obtain ⟨l, hl, hspace⟩ := exists_trimStart s.reverse
  refine ⟨l.reverse, ?_, fun c hc => hspace c (List.mem_reverse.1 hc)⟩
  have hs := congrArg List.reverse hl
  rwa [List.reverse_reverse, List.reverse_append] at hs

/-- **Trimming takes spaces off both ends.** -/
theorem exists_trim (s : List Char) :
    ∃ l r, s = l ++ trim s ++ r ∧ (∀ c ∈ l, isSpace c = true) ∧ ∀ c ∈ r, isSpace c = true := by
  obtain ⟨l, hl, hleft⟩ := exists_trimStart s
  obtain ⟨r, hr, hright⟩ := exists_trimEnd (trimStart s)
  refine ⟨l, r, ?_, hleft, hright⟩
  rw [trim, List.append_assoc, ← hr, ← hl]

/-- What is left is a part of the text. -/
theorem infix_trim (s : List Char) : trim s <:+: s := by
  obtain ⟨l, r, hs, -, -⟩ := exists_trim s
  exact ⟨l, r, hs.symm⟩

theorem trimStart_cons {c : Char} {s : List Char} (hc : isSpace c = false) :
    trimStart (c :: s) = c :: s :=
  List.dropWhile_cons_of_neg (by simp [hc])

/-- Space in front is trimmed off. -/
theorem trimStart_append {l : List Char} (hl : ∀ c ∈ l, isSpace c = true) (s : List Char) :
    trimStart (l ++ s) = trimStart s :=
  List.dropWhile_append_of_pos hl

/-- A text that keeps something keeps it in front of another. -/
theorem dropWhile_append_of_ne_nil {p : Char → Bool} {s : List Char} (h : s.dropWhile p ≠ [])
    (t : List Char) : (s ++ t).dropWhile p = s.dropWhile p ++ t := by
  rw [List.dropWhile_append, if_neg (by simpa using h)]

/-- If all of a text is dropped, dropping goes on behind it. -/
theorem dropWhile_append_of_eq_nil {p : Char → Bool} {s : List Char} (h : s.dropWhile p = [])
    (t : List Char) : (s ++ t).dropWhile p = t.dropWhile p := by
  rw [List.dropWhile_append, if_pos (by simpa using h)]

/-- Behind a trimmed end nothing is trimmed off. -/
theorem trimEnd_append {s t : List Char} (hne : t ≠ []) (h : trimEnd t = t) :
    trimEnd (s ++ t) = s ++ t := by
  have hrev : t.reverse.dropWhile isSpace = t.reverse := by
    rw [← List.reverse_inj, List.reverse_reverse]
    exact h
  cases ht : t.reverse with
  | nil => exact absurd (List.reverse_eq_nil_iff.1 ht) hne
  | cons c cs =>
    rw [ht] at hrev
    have hc : isSpace c = false := of_dropWhile_eq_cons hrev
    rw [trimEnd, List.reverse_append, ht, List.cons_append,
      List.dropWhile_cons_of_neg (by simp [hc]), ← List.cons_append, ← ht, ← List.reverse_append,
      List.reverse_reverse]

/-- Space at the end is trimmed off. -/
theorem trimEnd_append_spaces (s : List Char) {r : List Char} (hr : ∀ c ∈ r, isSpace c = true) :
    trimEnd (s ++ r) = trimEnd s := by
  rw [trimEnd, trimEnd, List.reverse_append,
    List.dropWhile_append_of_pos fun c hc => hr c (List.mem_reverse.1 hc)]

/-- Behind a text without spaces at its end only the text that follows is trimmed. -/
theorem trimEnd_append_of_trimEnd {s : List Char} (h : trimEnd s = s) (t : List Char) :
    trimEnd (s ++ t) = s ++ trimEnd t := by
  obtain ⟨r, hr, hspace⟩ := exists_trimEnd t
  have hdrop : trimEnd (s ++ t) = trimEnd (s ++ trimEnd t) := by
    rw [← trimEnd_append_spaces (s ++ trimEnd t) hspace, List.append_assoc, ← hr]
  rw [hdrop]
  by_cases ht : trimEnd t = []
  · rw [ht, List.append_nil, h]
  · exact trimEnd_append ht (trimEnd_trimEnd t)

theorem trimEnd_cons {c : Char} (hc : isSpace c = false) (s : List Char) :
    trimEnd (c :: s) = c :: trimEnd s := by
  have hsingle : trimEnd [c] = [c] := by simp [trimEnd, hc]
  exact trimEnd_append_of_trimEnd hsingle s

/-- A space goes with the spaces behind it, and stays in front of anything else. -/
theorem trimEnd_space_cons {c : Char} (hc : isSpace c = true) (s : List Char) :
    trimEnd (c :: s) = if trimEnd s = [] then [] else c :: trimEnd s := by
  obtain ⟨r, hr, hspaces⟩ := exists_trimEnd s
  split
  · next hnil =>
    rw [hnil, List.nil_append] at hr
    have hall : ∀ d ∈ c :: s, isSpace d = true := List.forall_mem_cons.2 ⟨hc, hr ▸ hspaces⟩
    exact trimEnd_append_spaces [] hall
  · next hne =>
    have hsplit : c :: s = c :: trimEnd s ++ r := congrArg (c :: ·) hr
    rw [hsplit, trimEnd_append_spaces _ hspaces]
    exact trimEnd_append (s := [c]) hne (trimEnd_trimEnd s)

/-- A text that does not end in space has a trimmed end. -/
theorem trimEnd_eq_self {s : List Char} (h : ∀ c ∈ s.getLast?, isSpace c = false) :
    trimEnd s = s := by
  rcases List.eq_nil_or_concat s with rfl | ⟨front, c, rfl⟩
  · rfl
  · have hc : isSpace c = false := h c (by simp)
    rw [List.concat_eq_append]
    exact trimEnd_append (by simp) (trimEnd_cons hc [])

/-- Trimming and lower case do not meet. -/
theorem trim_map_toLower (s : List Char) :
    trim (s.map Char.toLower) = (trim s).map Char.toLower := by
  have hspace : isSpace ∘ Char.toLower = isSpace := funext isSpace_toLower
  simp only [trim, trimEnd, trimStart, ← List.map_reverse, List.dropWhile_map, hspace]

section flatMap

variable {f : Char → List Char} (hspace : ∀ c, isSpace c = true → f c = [c])
  (hother : ∀ c, isSpace c = false → f c ≠ [] ∧ ∀ d ∈ f c, isSpace d = false)
include hspace hother

theorem dropWhile_isSpace_flatMap (s : List Char) :
    (s.flatMap f).dropWhile isSpace = (s.dropWhile isSpace).flatMap f := by
  induction s with
  | nil => rfl
  | cons c s ih =>
    cases hc : isSpace c with
    | true => simp [hspace c hc, hc, ih]
    | false =>
      obtain ⟨hne, hall⟩ := hother c hc
      obtain ⟨d, ds, hd⟩ := List.exists_cons_of_ne_nil hne
      have hstart : isSpace d = false := hall d (by simp [hd])
      simp [hd, hc, hstart]

/-- **Trimming and replacing commute** if spaces are left alone and nothing else becomes a space. -/
theorem trim_flatMap (s : List Char) : trim (s.flatMap f) = (trim s).flatMap f := by
  have hback : ∀ t : List Char,
      (t.flatMap (List.reverse ∘ f)).dropWhile isSpace =
        (t.dropWhile isSpace).flatMap (List.reverse ∘ f) := by
    refine dropWhile_isSpace_flatMap (fun c hc => by simp [hspace c hc]) fun c hc => ?_
    simpa using hother c hc
  rw [trim, trimStart, dropWhile_isSpace_flatMap hspace hother, trim, trimEnd, trimEnd, trimStart,
    List.reverse_flatMap, hback, List.flatMap_reverse]

end flatMap

/-! ## The first separator -/

/-- A text is split at the first separator. -/
theorem splitFirst_append {sep : Char} {s : List Char} (h : sep ∉ s) (rest : List Char) :
    splitFirst sep (s ++ sep :: rest) = some (s, rest) := by
  induction s with
  | nil => simp [splitFirst]
  | cons c s ih =>
    rw [List.mem_cons, not_or] at h
    simp [splitFirst, Ne.symm h.1, ih h.2]

/-- **A text is split at its first separator.** -/
theorem splitFirst_eq_some {sep : Char} :
    ∀ {s front rest : List Char}, splitFirst sep s = some (front, rest) →
      s = front ++ sep :: rest ∧ sep ∉ front
  | [], _, _, h => by simp [splitFirst] at h
  | c :: s, front, rest, h => by
      rw [splitFirst] at h
      split at h
      · next hc =>
        obtain ⟨rfl, rfl⟩ := Prod.mk.inj (Option.some.inj h)
        exact ⟨by rw [hc, List.nil_append], List.not_mem_nil⟩
      · next hc =>
        obtain ⟨⟨front', rest'⟩, hp, he⟩ := Option.map_eq_some_iff.1 h
        obtain ⟨rfl, rfl⟩ := Prod.mk.inj he
        obtain ⟨hs, hnot⟩ := splitFirst_eq_some hp
        refine ⟨by rw [hs, List.cons_append], fun hmem => ?_⟩
        rcases List.mem_cons.1 hmem with rfl | hmem
        · exact hc rfl
        · exact hnot hmem

/-! ## Beginnings -/

/-- A beginning is dropped from the texts that begin so. -/
theorem dropFront?_eq_some {p s rest : List Char} : dropFront? p s = some rest ↔ s = p ++ rest := by
  induction p generalizing s with
  | nil => exact Option.some_inj
  | cons c p ih =>
    cases s with
    | nil => simp [dropFront?]
    | cons d s =>
      rw [dropFront?, List.cons_append, List.cons_eq_cons]
      split
      · next h => rw [ih, eq_comm (a := d), and_iff_right h]
      · next h => exact ⟨fun he => absurd he (by simp), fun he => absurd he.1.symm h⟩

theorem dropFront?_append (p rest : List Char) : dropFront? p (p ++ rest) = some rest :=
  dropFront?_eq_some.2 rfl

end Pane.Text
