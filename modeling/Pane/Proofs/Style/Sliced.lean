import Pane.Proofs.Style.InPlace
import Pane.Proofs.Style.Literals
import Pane.Proofs.Text.Cuts

/-!
# Slices are made between characters

A search may go on within a character, but it stops at an ASCII byte only, and such a byte is a
whole character.  Every offset at which a reader slices is that of such a byte, or the one behind
it, or an end of the text.  This does not depend on how depths are counted, nor on what stands
behind a backslash.

**Offsets.**  `isBoundary_of_findTopLevel`, `isBoundary_of_findBlockEnd`, `isBoundary_quotedEnd`,
`isBoundary_urlEnd`, `isBoundary_skipSpaces`.

**Readers.**  `splitTopLevel?_isSome`, **`itemsFrom?_isSome`** — each gives a result from any
boundary.
-/

namespace Pane.Style

open Text (bytes slice? IsBoundary isBoundary_zero isBoundary_size isBoundary_of_ascii
  slice?_of_boundary sliceFrom?_of_boundary)

/-! ## Offsets -/

/-- Space has seven bits. -/
theorem ascii_of_isAsciiSpace {c : Char} (h : Text.isAsciiSpace c = true) : c.toNat < 128 := by
  simp only [Text.isAsciiSpace, Bool.or_eq_true, decide_eq_true_eq] at h
  rcases h with (((rfl | rfl) | rfl) | rfl) | rfl <;> decide

theorem ascii_of_toLower {c d : Char} (h : c.toLower = d) (hd : d.toNat < 128) : c.toNat < 128 := by
  by_cases hcapital : 65 ≤ c.toNat ∧ c.toNat ≤ 90
  · omega
  · rwa [← h, Text.toLower_eq_self hcapital] at hd

section offsets

variable {s : List Char} {i j : Nat}

/-- A target that is found stands between characters. -/
theorem isBoundary_of_findTopLevel {targets : List Char} (htargets : ∀ c ∈ targets, c.toNat < 128)
    (h : findTopLevel s targets i = some j) : IsBoundary s j ∧ IsBoundary s (j + 1) := by
  obtain ⟨-, b, hb, htarget⟩ := of_findTopLevel_eq_some h
  exact isBoundary_of_ascii hb (htargets _ htarget)

/-- So does the brace that closes a block. -/
theorem isBoundary_of_findBlockEnd (h : findBlockEnd s i = some j) :
    IsBoundary s j ∧ IsBoundary s (j + 1) := by
  obtain ⟨-, b, hb, hclose⟩ := of_findBlockEnd_eq_some h
  have hascii : (Char.ofUInt8 b).toNat < 128 := by rw [hclose]; decide
  exact isBoundary_of_ascii hb hascii

/-- A string ends between characters. -/
theorem isBoundary_quotedEnd {quote : UInt8} (hquote : quote.toNat < 128) (s : List Char)
    (i : Nat) : IsBoundary s (quotedEnd (bytes s) quote i) := by
  rcases quotedEnd_eq (bytes s) quote i with heq | ⟨j, -, hj, heq⟩
  · rw [heq]
    exact isBoundary_size s
  · rw [heq]
    exact (isBoundary_of_ascii hj hquote).2

/-- So does a reference. -/
theorem isBoundary_urlEnd (s : List Char) (i : Nat) : IsBoundary s (urlEnd (bytes s) i) := by
  rcases urlEnd_eq (bytes s) i with heq | ⟨j, b, -, hj, hclose, heq⟩
  · rw [heq]
    exact isBoundary_size s
  · have hascii : (Char.ofUInt8 b).toNat < 128 := by rw [hclose]; decide
    rw [heq]
    exact (isBoundary_of_ascii hj hascii).2

/-- Space is skipped character by character. -/
theorem isBoundary_skipSpaces (h : IsBoundary s i) : IsBoundary s (skipSpaces (bytes s) i) := by
  generalize hbs : bytes s = bs
  fun_induction skipSpaces bs i with
  | case1 => exact h
  | case2 i b hb hspace ih =>
    exact ih (isBoundary_of_ascii (hbs ▸ hb) (ascii_of_isAsciiSpace hspace)).2
  | case3 => exact h

/-- A reference opens with an ASCII byte. -/
theorem ascii_of_isUrlOpen {b : UInt8} (hb : (bytes s)[i]? = some b)
    (h : isUrlOpen (bytes s) i = true) : b.toNat < 128 := by
  obtain ⟨-, u, r, l, rest, heq, hu, -⟩ := opensUrl_iff.1 h
  have hfirst := congrArg List.head? heq
  rw [List.head?_map, List.head?_take, if_neg (by decide), List.head?_drop, hb] at hfirst
  obtain rfl := Option.some.inj hfirst
  exact ascii_of_toLower hu (by decide)

end offsets

/-! ## Readers -/

section readers

variable {s : List Char} {i : Nat}

/-- A text can be split at a separator of seven bits. -/
theorem splitTopLevel?_isSome {separator : Char} (hseparator : separator.toNat < 128)
    (hi : IsBoundary s i) : ∃ parts, splitTopLevel? s separator i = some parts := by
  have htargets : ∀ c ∈ [separator], c.toNat < 128 := List.forall_mem_singleton.2 hseparator
  fun_induction splitTopLevel? s separator i with
  | case1 i hfind =>
    obtain ⟨part, hpart⟩ := sliceFrom?_of_boundary hi
    exact ⟨[part], by rw [hpart]; rfl⟩
  | case2 i j hfind ih =>
    obtain ⟨hj, hbehind⟩ := isBoundary_of_findTopLevel htargets hfind
    obtain ⟨part, hpart⟩ := slice?_of_boundary hi hj (of_findTopLevel_eq_some hfind).1
    obtain ⟨parts, hparts⟩ := ih hbehind
    exact ⟨part :: parts, by rw [hpart, hparts]; rfl⟩

/-- The declarations of every body are read. -/
theorem declarationsFrom?_isSome (body : List Char) : ∃ ds, declarationsFrom? body = some ds := by
  have hascii : ';'.toNat < 128 := by decide
  obtain ⟨parts, hparts⟩ := splitTopLevel?_isSome hascii (isBoundary_zero body)
  exact ⟨_, by rw [declarationsFrom?, hparts]; rfl⟩

/-- So are the selectors of every prelude. -/
theorem selectorsFrom?_isSome (prelude : List Char) : ∃ ss, selectorsFrom? prelude = some ss := by
  have hascii : ','.toNat < 128 := by decide
  obtain ⟨parts, hparts⟩ := splitTopLevel?_isSome hascii (isBoundary_zero prelude)
  exact ⟨_, by rw [selectorsFrom?, hparts]; rfl⟩

/-- So is the item of every block. -/
theorem blockItem?_isSome (prelude body : List Char) {nested : Option (List Item)}
    (hnested : ∃ items, nested = some items) :
    ∃ item, blockItem? prelude body nested = some item := by
  obtain ⟨items, rfl⟩ := hnested
  obtain ⟨selectors, hselectors⟩ := selectorsFrom?_isSome prelude
  obtain ⟨ds, hds⟩ := declarationsFrom?_isSome body
  rw [blockItem?, hselectors, hds]
  split
  · split <;> exact ⟨_, rfl⟩
  · split <;> exact ⟨_, rfl⟩

/-- What stands in front of a piece can be sliced, and so can the body of a block. -/
theorem slice?_before (hi : IsBoundary s i) {j : Nat}
    (hfind : findTopLevel s ['{', ';'] (skipSpaces (bytes s) i) = some j) :
    IsBoundary s (j + 1) ∧ ∃ before, slice? s (skipSpaces (bytes s) i) j = some before := by
  obtain ⟨hj, hbehind⟩ := isBoundary_of_findTopLevel (by simp) hfind
  exact ⟨hbehind,
    slice?_of_boundary (isBoundary_skipSpaces hi) hj (of_findTopLevel_eq_some hfind).1⟩

/-- The body of a block can be cut out. -/
theorem slice?_body {j k : Nat} (hfind : findTopLevel s ['{', ';'] i = some j)
    (hclose : findBlockEnd s j = some k) : ∃ body, slice? s (j + 1) k = some body := by
  have hbehind := (isBoundary_of_findTopLevel (by simp) hfind).2
  refine slice?_of_boundary hbehind (isBoundary_of_findBlockEnd hclose).1 ?_
  obtain ⟨-, b, hb, htarget⟩ := of_findTopLevel_eq_some hfind
  obtain ⟨hle, d, hd, hbrace⟩ := of_findBlockEnd_eq_some hclose
  -- a block does not end where it is opened
  have hne : j ≠ k := by
    rintro rfl
    obtain rfl := Option.some.inj (hb.symm.trans hd)
    rw [hbrace] at htarget
    exact absurd htarget (by decide)
  omega

/-- **Items are read from every boundary**, and from the start of every body within. -/
theorem itemsFrom?_isSome (hi : IsBoundary s i) : ∃ items, itemsFrom? s i = some items := by
  fun_induction itemsFrom? s i with
  | case1 => exact ⟨[], rfl⟩
  | case2 s i j hfind hslice =>
    obtain ⟨-, before, hbefore⟩ := slice?_before hi hfind
    cases hslice.symm.trans hbefore
  | case3 s i j hfind before hslice hsemicolon ih =>
    obtain ⟨items, hitems⟩ := ih (slice?_before hi hfind).1
    exact ⟨_, by rw [hitems]; rfl⟩
  | case4 => exact ⟨[], rfl⟩
  | case5 s i j hfind before hslice hsemicolon k hclose hbody =>
    obtain ⟨body, hslice'⟩ := slice?_body hfind hclose
    cases hbody.symm.trans hslice'
  | case6 s i j hfind before hslice hsemicolon k hclose body hbody ihbody ih =>
    obtain ⟨item, hitem⟩ :=
      blockItem?_isSome (Text.trim before) body (ihbody (isBoundary_zero body))
    obtain ⟨items, hitems⟩ := ih (isBoundary_of_findBlockEnd hclose).2
    exact ⟨_, by rw [hitem, hitems]; rfl⟩

end readers

end Pane.Style
