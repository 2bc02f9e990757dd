import Pane.Markup.Text

/-!
# Words put together and taken apart

Class tokens are written with a space between neighbours and are later taken apart again, in one
place at the white space of markup and in another at any Unicode space.  Nothing is lost on the way
as long as no token has such a character of its own, and the same holds for the words of a text in
normal form.

* `Text.IsToken` — a word that a class of separators leaves in one piece.
* **`Text.pieces_joinWords`** — words put together with spaces are the pieces of the result.
* `Text.tokens_joinTokens` — the same on strings, for the white space of markup.
* **`Text.normalizeText_normalizeText`** — text in normal form stays as it is.
* `Text.mem_dedup`, `Text.dedup_eq_self` — removal of repetitions.
-/

namespace Pane.Text

open Pane.Markup (joinWords)

/-! ## Pieces -/

/-- A word of at least one character, none of them a separator. -/
def IsToken (separator : Char → Bool) (w : List Char) : Prop :=
  w ≠ [] ∧ ∀ c ∈ w, separator c = false

variable {separator : Char → Bool}

/-- A text has at least one piece. -/
theorem pieces_ne_nil (s : List Char) : pieces separator s ≠ [] := by
  cases s with
  | nil => simp [pieces]
  | cons c cs =>
    rw [pieces]
    split
    · simp
    · split <;> simp

/-- What has no separator goes into the first piece. -/
theorem pieces_append {w s p : List Char} {ps : List (List Char)}
    (hw : ∀ c ∈ w, separator c = false) (hs : pieces separator s = p :: ps) :
    pieces separator (w ++ s) = (w ++ p) :: ps := by
  induction w with
  | nil => exact hs
  | cons c w ih =>
      have hc : separator c = false := hw c (List.mem_cons_self ..)
      have ih := ih fun d hd => hw d (List.mem_cons_of_mem _ hd)
      simp [pieces, hc, ih]

/-- A text without separators is one piece. -/
theorem pieces_of_no_separator {w : List Char} (hw : ∀ c ∈ w, separator c = false) :
    pieces separator w = [w] := by
  have hnil : pieces separator [] = [[]] := rfl
  simpa using pieces_append hw hnil

/-- **Words put together with spaces are the pieces of the result.** -/
theorem pieces_joinWords (hsp : separator ' ' = true) :
    ∀ {ws : List (List Char)}, ws ≠ [] → (∀ w ∈ ws, ∀ c ∈ w, separator c = false) →
      pieces separator (joinWords ws) = ws
  | [w], _, h => pieces_of_no_separator (h w (List.mem_cons_self ..))
  | w :: w' :: ws, _, h => by
      have ih : pieces separator (joinWords (w' :: ws)) = w' :: ws :=
        pieces_joinWords hsp (by simp) fun v hv => h v (List.mem_cons_of_mem _ hv)
      have hrest : pieces separator (' ' :: joinWords (w' :: ws)) = [] :: w' :: ws := by
        simp [pieces, hsp, ih]
      simpa [joinWords] using pieces_append (h w (List.mem_cons_self ..)) hrest

/-- Words put together with spaces are the words of the result. -/
theorem filter_pieces_joinWords (hsp : separator ' ' = true) {ws : List (List Char)}
    (h : ∀ w ∈ ws, IsToken separator w) :
    (pieces separator (joinWords ws)).filter (fun w => !w.isEmpty) = ws := by
  by_cases hws : ws = []
  · subst hws
    simp [joinWords, pieces]
  · rw [pieces_joinWords hsp hws fun w hw => (h w hw).2]
    refine List.filter_eq_self.2 fun w hw => ?_
    simp [(h w hw).1]

/-- A piece is made of characters of the text, without separators. -/
theorem of_mem_pieces : ∀ {s p : List Char}, p ∈ pieces separator s →
    ∀ c ∈ p, separator c = false ∧ c ∈ s
  | [], p, hp, c, hc => by
      simp only [pieces, List.mem_singleton] at hp
      simp [hp] at hc
  | d :: s, p, hp, c, hc => by
      rw [pieces] at hp
      cases hd : separator d with
      | true =>
        simp only [hd, if_true, List.mem_cons] at hp
        rcases hp with rfl | hp
        · simp at hc
        · exact (of_mem_pieces hp c hc).imp_right (List.mem_cons_of_mem _)
      | false =>
        cases hs : pieces separator s with
        | nil => exact absurd hs (pieces_ne_nil s)
        | cons q qs =>
          simp only [hd, Bool.false_eq_true, if_false, hs, List.mem_cons] at hp
          rcases hp with rfl | hp
          · rcases List.mem_cons.1 hc with rfl | hc
            · exact ⟨hd, List.mem_cons_self ..⟩
            · have hq : q ∈ pieces separator s := by simp [hs]
              exact (of_mem_pieces hq c hc).imp_right (List.mem_cons_of_mem _)
          · have hq : p ∈ pieces separator s := by simp [hs, hp]
            exact (of_mem_pieces hq c hc).imp_right (List.mem_cons_of_mem _)

/-- The words of a text are tokens, made of its characters. -/
theorem of_mem_words {s w : List Char} (h : w ∈ words s) :
    IsToken isAsciiSpace w ∧ ∀ c ∈ w, c ∈ s := by
  simp only [words, List.mem_filter, Bool.not_eq_true', List.isEmpty_eq_false_iff] at h
  have hp := of_mem_pieces h.1
  exact ⟨⟨h.2, fun c hc => (hp c hc).1⟩, fun c hc => (hp c hc).2⟩

/-- Words that are joined are cut again. -/
theorem words_joinWords {ws : List (List Char)} (h : ∀ w ∈ ws, IsToken isAsciiSpace w) :
    words (joinWords ws) = ws :=
  filter_pieces_joinWords (by decide) h

/-! ## Tokens -/

theorem toList_joinTokens : ∀ ts : List String,
    (joinTokens ts).toList = joinWords (ts.map String.toList)
  | [] => by simp [joinTokens, joinWords]
  | [t] => by simp [joinTokens, joinWords]
  | t :: t' :: ts => by
      have ih := toList_joinTokens (t' :: ts)
      rw [joinTokens] at ih ⊢
      rw [String.intercalate_cons_cons, String.toList_append, String.toList_append, ih]
      simp [joinWords]

/-- Tokens are not empty and have no space in them. -/
theorem isToken_of_mem_tokens {s t : String} (h : t ∈ tokens s) :
    IsToken isAsciiSpace t.toList := by
  simp only [tokens, List.mem_map] at h
  obtain ⟨w, hw, rfl⟩ := h
  rw [String.toList_ofList]
  exact (of_mem_words hw).1

/-- **Tokens put together in one attribute are the tokens of that attribute.** -/
theorem tokens_joinTokens {ts : List String} (h : ∀ t ∈ ts, IsToken isAsciiSpace t.toList) :
    tokens (joinTokens ts) = ts := by
  have hw : ∀ w ∈ ts.map String.toList, IsToken isAsciiSpace w := by simpa using h
  rw [tokens, toList_joinTokens, words_joinWords hw, List.map_map]
  simp [Function.comp_def]

/-! ## Text in normal form -/

/-- What is joined is made of the words and of blanks. -/
theorem mem_joinWords {c : Char} : ∀ {ws : List (List Char)}, c ∈ joinWords ws →
    c = ' ' ∨ ∃ w ∈ ws, c ∈ w
  | [], h => by simp [joinWords] at h
  | [w], h => .inr ⟨w, List.mem_singleton_self w, h⟩
  | w :: w' :: ws, h => by
      rw [joinWords, List.mem_append, List.mem_cons] at h
      rcases h with h | rfl | h
      · exact .inr ⟨w, List.mem_cons_self .., h⟩
      · exact .inl rfl
      · exact (mem_joinWords h).imp_right fun ⟨v, hv, hc⟩ => ⟨v, List.mem_cons_of_mem _ hv, hc⟩

/-- Words put together start with a character that is no separator. -/
theorem head?_joinWords {ws : List (List Char)} (h : ∀ w ∈ ws, IsToken separator w) {c : Char}
    (hc : (joinWords ws).head? = some c) : separator c = false := by
  have hfirst : ∀ {w : List Char} {more : List Char}, IsToken separator w →
      (w ++ more).head? = some c → separator c = false := by
    intro w more hw hc
    cases w with
    | nil => exact absurd rfl hw.1
    | cons d w =>
      obtain rfl : d = c := by simpa using hc
      exact hw.2 d (List.mem_cons_self ..)
  match ws, h, hc with
  | [w], h, hc =>
    have hc : (w ++ []).head? = some c := by simpa [joinWords] using hc
    exact hfirst (h w (List.mem_cons_self ..)) hc
  | w :: w' :: ws, h, hc => exact hfirst (h w (List.mem_cons_self ..)) hc

/-- **Text in normal form stays as it is.** -/
theorem normalizeText_normalizeText (s : String) :
    Markup.normalizeText (Markup.normalizeText s) = Markup.normalizeText s := by
  have hwords : ∀ w ∈ words (s.toList.filter fun c => !Markup.isInvisible c),
      IsToken isAsciiSpace w := fun w hw => (of_mem_words hw).1
  have hvisible : ∀ c ∈ joinWords (words (s.toList.filter fun c => !Markup.isInvisible c)),
      (!Markup.isInvisible c) = true := fun c hc => by
    rcases mem_joinWords hc with rfl | ⟨w, hw, hcw⟩
    · decide
    · exact (List.mem_filter.1 ((of_mem_words hw).2 c hcw)).2
  simp only [Markup.normalizeText, Markup.normalizeChars, String.toList_ofList,
    List.filter_eq_self.2 hvisible, words_joinWords hwords]

/-- Text in normal form does not start with white space of markup. -/
theorem head?_normalizeText {s : String} {c : Char}
    (h : (Markup.normalizeText s).toList.head? = some c) : isAsciiSpace c = false := by
  rw [Markup.normalizeText, String.toList_ofList] at h
  exact head?_joinWords (fun w hw => (of_mem_words hw).1) h

/-- A character of text in normal form is a space or no white space of markup. -/
theorem mem_normalizeText {s : String} {c : Char} (h : c ∈ (Markup.normalizeText s).toList) :
    c = ' ' ∨ isAsciiSpace c = false := by
  rw [Markup.normalizeText, String.toList_ofList] at h
  refine (mem_joinWords h).imp_right ?_
  rintro ⟨w, hw, hc⟩
  exact (of_mem_words hw).1.2 c hc

/-! ## Repetitions -/

/-- What has been seen is kept once, and the new is put behind it once. -/
theorem foldl_dedup (xs seen : List String) (hseen : seen.Nodup) :
    (xs.foldl (fun seen x => if x ∈ seen then seen else seen ++ [x]) seen).Nodup ∧
      ∀ x, x ∈ xs.foldl (fun seen x => if x ∈ seen then seen else seen ++ [x]) seen ↔
        x ∈ seen ∨ x ∈ xs := by
  induction xs generalizing seen with
  | nil => simp [hseen]
  | cons y xs ih =>
      rw [List.foldl_cons]
      by_cases hy : y ∈ seen
      · simp only [hy, if_true]
        refine ⟨(ih seen hseen).1, fun x => ?_⟩
        rw [(ih seen hseen).2, List.mem_cons]
        constructor
        · exact fun h => h.imp_right .inr
        · rintro (h | rfl | h)
          · exact .inl h
          · exact .inl hy
          · exact .inr h
      · simp only [hy, if_false]
        have hnew : (seen ++ [y]).Nodup := by
          refine List.nodup_append.2 ⟨hseen, by simp, fun a ha b hb => ?_⟩
          rw [List.mem_singleton.1 hb]
          exact fun he => hy (he ▸ ha)
        refine ⟨(ih _ hnew).1, fun x => ?_⟩
        rw [(ih _ hnew).2, List.mem_append, List.mem_singleton, List.mem_cons, or_assoc]

/-- The members are those of the list. -/
@[simp]
theorem mem_dedup {xs : List String} {x : String} : x ∈ dedup xs ↔ x ∈ xs := by
  rw [dedup, (foldl_dedup xs [] .nil).2 x]
  simp

theorem nodup_dedup (xs : List String) : (dedup xs).Nodup := (foldl_dedup xs [] .nil).1

theorem foldl_dedup_of_nodup (xs seen : List String) (h : (seen ++ xs).Nodup) :
    xs.foldl (fun seen x => if x ∈ seen then seen else seen ++ [x]) seen = seen ++ xs := by
  induction xs generalizing seen with
  | nil => simp
  | cons y xs ih =>
      have hy : y ∉ seen := fun hm =>
        (List.nodup_append.1 h).2.2 y hm y (List.mem_cons_self ..) rfl
      rw [List.foldl_cons, if_neg hy, ih _ (by simpa using h)]
      simp

/-- Where nothing is twice, nothing changes. -/
theorem dedup_eq_self {xs : List String} (h : xs.Nodup) : dedup xs = xs :=
  foldl_dedup_of_nodup xs [] (by simpa using h)

end Pane.Text
