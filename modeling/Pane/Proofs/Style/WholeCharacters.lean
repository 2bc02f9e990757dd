import Pane.Proofs.Style.Copied

/-!
# Style text is read in whole characters

Style text can be read in place: its bytes are searched, and it is sliced at the offsets that are
found.  Wherever a slice is made there is one, also where a backslash stands in front of a longer
character or at the end of the text, and what is read is what is read from the characters.

* `sheetInPlace?_isSome`, **`sheetInPlace?_eq`** — sheets.
* `declarationsInPlace?_eq`, `percentagesInPlace?_eq` — declarations and percentages.
* **`style_text_is_cut_between_characters`** — the offsets, and the readers.
-/

namespace Pane.Style

open Text (bytes size isBoundary_iff_isValid isBoundary_zero)
open String.Pos.Raw (IsValid)

/-- Without its comments a text is no longer. -/
theorem size_stripFrom_le (state : CommentState) (s : List Char) :
    size (stripFrom state s) ≤ size s := by
  fun_induction stripFrom state s <;> simp only [Text.size_cons, Text.size_nil] at * <;> omega

theorem sheetInPlace?_isSome (text : String) : ∃ sheet, sheetInPlace? text = some sheet := by
  obtain ⟨items, hitems⟩ := itemsFrom?_isSome (isBoundary_zero (stripComments text.toList))
  refine ⟨⟨items⟩, ?_⟩
  rw [sheetInPlace?, stripFrom?_eq]
  exact congrArg (Option.bind · _) hitems

section short

variable {text : String} (h : text.utf8ByteSize < 2 ^ 31)
include h

theorem sheetInPlace?_eq : sheetInPlace? text = some (Sheet.read text) := by
  have hroom : size (stripComments text.toList) < 2 ^ 31 := by
    rw [← Text.size_toList] at h
    exact Nat.lt_of_le_of_lt (size_stripFrom_le _ _) h
  rw [sheetInPlace?, stripFrom?_eq]
  exact congrArg (Option.bind · _) (readInPlace hroom [])

theorem declarationsInPlace?_eq : declarationsInPlace? text = some (declarationsOf text) :=
  declarationsFrom?_eq (by rwa [Text.size_toList])

end short

theorem percentagesInPlace?_eq (text : String) :
    percentagesInPlace? text = some (withPercentages text) :=
  congrArg (Option.map String.ofList) (percentagesFrom?_eq text.toList)

/-- **Style text is cut between characters.**  The offset of a target or of a closing brace, the one
behind it, and the ends of literals are positions of the text, wherever the search starts; so each
reader has a result, and it is the one that is read from characters.  Where depths are counted, this
holds of texts in which they do not wrap around. -/
theorem style_text_is_cut_between_characters (text : String) :
    (∀ targets start i, (∀ c ∈ targets, c.toNat < 128) →
      findTopLevel text.toList targets start = some i → IsValid text ⟨i⟩ ∧ IsValid text ⟨i + 1⟩) ∧
    (∀ opening i, findBlockEnd text.toList opening = some i →
      IsValid text ⟨i⟩ ∧ IsValid text ⟨i + 1⟩) ∧
    (∀ quote start, quote.toNat < 128 →
      IsValid text ⟨quotedEnd (bytes text.toList) quote start⟩) ∧
    (∀ start, IsValid text ⟨urlEnd (bytes text.toList) start⟩) ∧
    (∃ sheet, sheetInPlace? text = some sheet) ∧
    (∃ ds, declarationsInPlace? text = some ds) ∧
    percentagesInPlace? text = some (withPercentages text) ∧
    (text.utf8ByteSize < 2 ^ 31 → sheetInPlace? text = some (Sheet.read text) ∧
      declarationsInPlace? text = some (declarationsOf text)) := by
  refine ⟨?_, ?_, ?_, ?_, sheetInPlace?_isSome text, declarationsFrom?_isSome _,
    percentagesInPlace?_eq text, fun h => ⟨sheetInPlace?_eq h, declarationsInPlace?_eq h⟩⟩
  · intro targets start i htargets h
    rw [← isBoundary_iff_isValid, ← isBoundary_iff_isValid]
    exact isBoundary_of_findTopLevel htargets h
  · intro opening i h
    rw [← isBoundary_iff_isValid, ← isBoundary_iff_isValid]
    exact isBoundary_of_findBlockEnd h
  · intro quote start hquote
    exact (isBoundary_iff_isValid text).1 (isBoundary_quotedEnd hquote _ _)
  · intro start
    exact (isBoundary_iff_isValid text).1 (isBoundary_urlEnd _ _)

/-- A rule with a backslash in front of a longer character, in its selector and in a string, and a
backslash at the end. -/
def escapedRule : String := "é\\é\x7bcontent:\"\\é\"\x7d\\"

theorem escaped_characters_are_whole :
    IsValid escapedRule ⟨5⟩ ∧ IsValid escapedRule ⟨20⟩ ∧
      IsValid escapedRule ⟨quotedEnd (bytes escapedRule.toList) '"'.toUInt8 15⟩ ∧
      sheetInPlace? escapedRule = some (Sheet.read escapedRule) := by
  obtain ⟨htop, hblock, hquoted, -, -, -, -, hshort⟩ :=
    style_text_is_cut_between_characters escapedRule
  refine ⟨(htop ['{', ';'] 0 5 (by simp) (by decide +kernel)).1, ?_,
    hquoted _ 15 (by decide), ?_⟩
  · exact (hblock 5 19 (by decide +kernel)).2
  · exact (hshort (by decide +kernel)).1

end Pane.Style
